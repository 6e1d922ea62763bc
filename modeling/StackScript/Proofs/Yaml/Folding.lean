import Mathlib.Data.List.Basic
import StackScript.Yaml.ScalarText

/-!
# Folding

Between quotes blanks are folded: a run of spaces and line breaks counts as the line breaks alone,
and the first of several breaks vanishes, so that what is read never is longer than what is written.
Strings in which nothing is folded are called steady.

## Main definitions

* `Yaml.foldRun`: what a run of blanks is read as.
* `Yaml.isCut`: whether a mark between documents follows a run of blanks.
* `Yaml.isSteady`: strings in which nothing is folded.

## Main results

* `Yaml.foldRun_eq_self_iff`: runs of blanks that stay as they are.
* `Yaml.isSteady_run_iff`: runs of blanks in steady strings.
-/

namespace StackScript.Yaml

/-! ### Blanks -/

/-- The two separators of Unicode, which stand for themselves. -/
def isSeparator (c : Char) : Bool := c == '\u2028' || c == '\u2029'

/-- The characters of a string that are folded, since they are not escaped. -/
def isFolded (c : Char) : Bool := c == ' ' || c == '\u0085' || isSeparator c

/-- The character that a line break stands for. -/
def breakChar (c : Char) : Char := if c = '\u0085' then '\n' else c

theorem isFolded_cases {c : Char} (h : isFolded c = true) :
    c = ' ' ∨ c = '\u0085' ∨ c = '\u2028' ∨ c = '\u2029' := by
  simpa [isFolded, isSeparator, or_assoc] using h

/-- Of the blanks, those that are no control characters are folded. -/
theorem isFolded_eq {c : Char} (h : 0x20 ≤ c.toNat) : isFolded c = (isWhite c || isBreak c) := by
  rw [Bool.eq_iff_iff]
  constructor
  · intro hf
    obtain rfl | rfl | rfl | rfl := isFolded_cases hf <;> rfl
  · simp only [isWhite, isBreak, Bool.or_eq_true, beq_iff_eq]
    rintro ((rfl | rfl) | ((((rfl | rfl) | rfl) | rfl) | rfl)) <;> revert h <;> decide

theorem isBreak_of_isFolded {c : Char} (h : isFolded c = true) (hne : c ≠ ' ') :
    isBreak c = true := by
  obtain rfl | rfl | rfl | rfl := isFolded_cases h <;> first | decide | exact absurd rfl hne

/-- Whether a string starts with a mark between documents, with a blank after it. -/
def startsMark : List Char → Bool
  | a :: b :: d :: next :: _ =>
    (a == '-' || a == '.') && b == a && d == a && isFolded next
  | _ => false

theorem startsMark_eq_false {c : Char} {rest : List Char} (hdash : c ≠ '-') (hdot : c ≠ '.') :
    startsMark (c :: rest) = false := by
  unfold startsMark
  split
  next heq =>
    cases heq
    simp [hdash, hdot]
  · rfl

/-! ### Runs of blanks -/

/-- What a run of blanks is read as: spaces alone stay, and line breaks make the spaces vanish. -/
def foldRun (run : List Char) : List Char :=
  match run.dropWhile (· == ' ') with
  | [] => run
  | first :: more => folded [breakChar first] ((more.filter (· != ' ')).map breakChar)

/-- Whether a mark between documents follows the last line break of a run. -/
def isCut (run s : List Char) : Bool := decide (run.getLast? ≠ some ' ') && startsMark s

theorem exists_spaces (run : List Char) :
    ∃ n tail, run = List.replicate n ' ' ++ tail ∧ tail.head? ≠ some ' ' ∧
      run.dropWhile (· == ' ') = tail := by
  induction run with
  | nil => exact ⟨0, [], rfl, by simp, rfl⟩
  | cons c run ih =>
    by_cases hc : c = ' '
    · subst hc
      obtain ⟨n, tail, hrun, htail, hdrop⟩ := ih
      exact ⟨n + 1, tail, by rw [hrun, List.replicate_succ, List.cons_append], htail, by simpa⟩
    · exact ⟨0, c :: run, rfl, by simpa using hc, by simp [hc]⟩

theorem isCut_of_break {spaces more s : List Char} {b : Char} (hne : b ≠ ' ') :
    isCut (spaces ++ b :: more) s = isCut more s := by
  unfold isCut
  rw [List.getLast?_append, List.getLast?_cons, Option.some_or]
  cases more.getLast? <;> simp [hne]

theorem length_foldRun_le (run : List Char) : (foldRun run).length ≤ run.length := by
  obtain ⟨n, tail, hrun, -, hdrop⟩ := exists_spaces run
  unfold foldRun
  rw [hdrop]
  cases tail with
  | nil => exact Nat.le_refl _
  | cons b more =>
    have hfolded (breaks : List Char) :
        (folded [breakChar b] breaks).length ≤ breaks.length + 1 := by
      unfold folded
      split_ifs <;> simp
    calc (folded [breakChar b] ((more.filter (· != ' ')).map breakChar)).length
        ≤ (more.filter (· != ' ')).length + 1 := by
          simpa only [List.length_map] using hfolded ((more.filter (· != ' ')).map breakChar)
      _ ≤ (b :: more).length := Nat.succ_le_succ (List.length_filter_le _ more)
      _ ≤ run.length := by rw [hrun, List.length_append]; exact Nat.le_add_left _ _

private theorem breakChar_of_isSeparator {c : Char} (h : isSeparator c = true) :
    breakChar c = c := by
  unfold breakChar
  rw [if_neg]
  rintro rfl
  exact absurd h (by decide)

private theorem breakChar_ne_nextLine (c : Char) : breakChar c ≠ '\u0085' := by
  unfold breakChar
  split_ifs with hc
  · decide
  · exact hc

private theorem breakChar_ne_space {c : Char} (h : c ≠ ' ') : breakChar c ≠ ' ' := by
  unfold breakChar
  split_ifs
  · decide
  · exact h

/-- A separator stays, with what the breaks after it are read as. -/
private theorem folded_of_isSeparator {b : Char} (h : isSeparator b = true) (breaks : List Char) :
    folded [breakChar b] breaks = b :: breaks := by
  rw [breakChar_of_isSeparator h, folded, if_pos]
  · rfl
  · rintro ⟨⟩
    exact absurd h (by decide)

/-- What a run with a line break is read as holds no next-line character. -/
private theorem nextLine_notMem_folded (b : Char) (more : List Char) :
    '\u0085' ∉ folded [breakChar b] ((more.filter (· != ' ')).map breakChar) := by
  have hmore : '\u0085' ∉ (more.filter (· != ' ')).map breakChar := by
    intro h
    obtain ⟨d, -, hd⟩ := List.mem_map.1 h
    exact breakChar_ne_nextLine d hd
  unfold folded
  split_ifs
  · simpa [(breakChar_ne_nextLine b).symm] using hmore
  · decide
  · exact hmore

private theorem space_notMem_breaks (more : List Char) :
    ' ' ∉ (more.filter (· != ' ')).map breakChar := by
  intro h
  obtain ⟨d, hd, heq⟩ := List.mem_map.1 h
  exact breakChar_ne_space (by simpa using (List.mem_filter.1 hd).2) heq

private theorem breaks_of_isSeparator {more : List Char} (h : ∀ c ∈ more, isSeparator c = true) :
    (more.filter (· != ' ')).map breakChar = more := by
  rw [List.filter_eq_self.2, List.map_congr_left fun c hc => breakChar_of_isSeparator (h c hc),
    List.map_id']
  intro c hc
  rw [bne_iff_ne]
  rintro rfl
  exact absurd (h _ hc) (by decide)

private theorem isSeparator_of_isFolded {c : Char} (h : isFolded c = true) (hspace : c ≠ ' ')
    (hnext : c ≠ '\u0085') : isSeparator c = true := by
  obtain rfl | rfl | rfl | rfl := isFolded_cases h
  · exact absurd rfl hspace
  · exact absurd rfl hnext
  · decide
  · decide

/-- A run stays as it is if it holds only spaces or only separators. -/
theorem foldRun_eq_self_iff {run : List Char} (hrun : ∀ ch ∈ run, isFolded ch = true) :
    foldRun run = run ↔ (∀ ch ∈ run, ch = ' ') ∨ ∀ ch ∈ run, isSeparator ch = true := by
  obtain ⟨n, tail, heq, htail, hdrop⟩ := exists_spaces run
  unfold foldRun
  rw [hdrop]
  cases tail with
  | nil =>
    rw [List.append_nil] at heq
    exact iff_of_true rfl (.inl fun ch hch => List.eq_of_mem_replicate (heq ▸ hch))
  | cons b more =>
    have hb : b ∈ run := by simp [heq]
    have hspace : b ≠ ' ' := by simpa using htail
    dsimp only
    constructor
    · -- Neither a next-line character nor, after a separator, a space is left.
      intro hfold
      have hnext : '\u0085' ∉ run := hfold ▸ nextLine_notMem_folded b more
      have hsep : isSeparator b = true :=
        isSeparator_of_isFolded (hrun b hb) hspace (ne_of_mem_of_not_mem hb hnext)
      have hnone : ' ' ∉ run := by
        rw [← hfold, folded_of_isSeparator hsep, List.mem_cons, not_or]
        exact ⟨hspace.symm, space_notMem_breaks more⟩
      exact .inr fun ch hch => isSeparator_of_isFolded (hrun ch hch)
        (ne_of_mem_of_not_mem hch hnone) (ne_of_mem_of_not_mem hch hnext)
    · rintro (h | h)
      · exact absurd (h b hb) hspace
      · cases n with
        | succ n => exact absurd (h ' ' (by simp [heq])) (by decide)
        | zero =>
          rw [folded_of_isSeparator (h b hb),
            breaks_of_isSeparator fun c hc => h c (by simp [heq, hc]), heq]
          rfl

/-! ### Steady strings -/

/-- Whether nothing in a string is folded: it has no next-line character, no space beside a
separator, and no mark between documents after one. -/
def isSteady : List Char → Bool
  | [] => true
  | c :: rest =>
    !(c == '\u0085' || (c == ' ' && rest.head?.any isSeparator) ||
      (isSeparator c && (rest.head? == some ' ' || startsMark rest))) && isSteady rest

theorem isSteady_cons_iff {c : Char} {rest : List Char} :
    isSteady (c :: rest) = true ↔
      (c ≠ '\u0085' ∧ (c = ' ' → rest.head?.any isSeparator = false) ∧
        (isSeparator c = true → rest.head? ≠ some ' ' ∧ startsMark rest = false)) ∧
      isSteady rest = true := by
  simp only [isSteady, Bool.and_eq_true, Bool.not_eq_true', Bool.or_eq_false_iff,
    beq_eq_false_iff_ne, Bool.and_eq_false_imp, beq_iff_eq, and_assoc]

theorem isSteady_cons_of_not_isFolded {c : Char} (rest : List Char) (h : isFolded c = false) :
    isSteady (c :: rest) = isSteady rest := by
  simp only [isFolded, Bool.or_eq_false_iff, beq_eq_false_iff_ne] at h
  rw [Bool.eq_iff_iff, isSteady_cons_iff]
  simp [h]

section Runs

variable {run s : List Char}

private theorem uniform_of_isSteady (hrun : ∀ ch ∈ run, isFolded ch = true)
    (h : isSteady (run ++ s) = true) :
    (∀ ch ∈ run, ch = ' ') ∨ ∀ ch ∈ run, isSeparator ch = true := by
  induction run with
  | nil => simp
  | cons c run ih =>
    rw [List.forall_mem_cons] at hrun
    obtain ⟨⟨hnext, hspace, hsep⟩, hrest⟩ := isSteady_cons_iff.1 h
    have hc : c = ' ' ∨ isSeparator c = true := by
      obtain rfl | rfl | rfl | rfl := isFolded_cases hrun.1
      · exact .inl rfl
      · exact absurd rfl hnext
      · exact .inr rfl
      · exact .inr rfl
    cases run with
    | nil => simpa using hc
    | cons d run =>
      simp only [List.forall_mem_cons (a := c)]
      obtain hall | hall := ih hrun.2 hrest <;> obtain rfl | hc := hc
      · exact .inl ⟨rfl, hall⟩
      · exact absurd (congrArg some (hall d (by simp))) (hsep hc).1
      · exact absurd (hall d (by simp)) (by simpa using hspace rfl)
      · exact .inr ⟨hc, hall⟩

variable (hs : ∀ ch ∈ s.head?, isFolded ch = false)
include hs

private theorem isSteady_spaces (n : Nat) :
    isSteady (List.replicate n ' ' ++ s) = isSteady s := by
  induction n with
  | zero => rfl
  | succ n ih =>
    have hhead : (List.replicate n ' ' ++ s).head?.any isSeparator = false := by
      cases n with
      | zero =>
        rw [Option.any_eq_false]
        intro ch hch
        have hfolded := hs ch hch
        rw [isFolded, Bool.or_eq_false_iff] at hfolded
        exact hfolded.2
      | succ n => rfl
    rw [List.replicate_succ, List.cons_append, Bool.eq_iff_iff, isSteady_cons_iff, ih, hhead]
    simp [isSeparator]

private theorem isSteady_separators (hrun : ∀ ch ∈ run, isSeparator ch = true) (hne : run ≠ []) :
    isSteady (run ++ s) = true ↔ startsMark s = false ∧ isSteady s = true := by
  induction run with
  | nil => exact absurd rfl hne
  | cons c run ih =>
    rw [List.forall_mem_cons] at hrun
    have hc : c ≠ '\u0085' ∧ c ≠ ' ' := by
      constructor <;>
      · rintro rfl
        exact absurd hrun.1 (by decide)
    rw [List.cons_append, isSteady_cons_iff]
    cases run with
    | nil =>
      have hhead : s.head? ≠ some ' ' := fun h => absurd (hs ' ' h) (by decide)
      simp [hc, hrun.1, hhead]
    | cons d run =>
      have hd : isSeparator d = true := hrun.2 d (by simp)
      have hspace : d ≠ ' ' := by
        rintro rfl
        exact absurd hd (by decide)
      have hmark : startsMark (d :: run ++ s) = false := by
        rw [List.cons_append, startsMark_eq_false] <;>
        · rintro rfl
          exact absurd hd (by decide)
      rw [ih hrun.2 (by simp), hmark]
      simp [hc, hspace]

/-- A run of blanks in a steady string is not folded, and no mark between documents is after it. -/
theorem isSteady_run_iff (hrun : ∀ ch ∈ run, isFolded ch = true) (hne : run ≠ []) :
    isSteady (run ++ s) = true ↔ (foldRun run = run ∧ isCut run s = false) ∧ isSteady s = true := by
  have hspaces (h : ∀ ch ∈ run, ch = ' ') :
      isCut run s = false ∧ isSteady (run ++ s) = isSteady s := by
    rw [List.eq_replicate_of_mem h]
    have hlength : run.length ≠ 0 := by simpa using hne
    exact ⟨by simp [isCut, List.getLast?_replicate, hlength], isSteady_spaces hs _⟩
  have hseparators (h : ∀ ch ∈ run, isSeparator ch = true) : isCut run s = startsMark s := by
    have hlast : run.getLast? ≠ some ' ' := fun hlast =>
      absurd (h ' ' (List.mem_of_getLast? hlast)) (by decide)
    simp [isCut, hlast]
  rw [foldRun_eq_self_iff hrun]
  constructor
  · intro h
    obtain hall | hall := uniform_of_isSteady hrun h
    · rw [(hspaces hall).2] at h
      exact ⟨⟨.inl hall, (hspaces hall).1⟩, h⟩
    · rw [isSteady_separators hs hall hne] at h
      exact ⟨⟨.inr hall, (hseparators hall).trans h.1⟩, h.2⟩
  · rintro ⟨⟨hall | hall, hcut⟩, h⟩
    · rwa [(hspaces hall).2]
    · exact (isSteady_separators hs hall hne).2 ⟨(hseparators hall).symm.trans hcut, h⟩

end Runs

end StackScript.Yaml
