import StackScript.Layout
import StackScript.Proofs.Text.Trim

/-!
# Quotes and brackets in a text

The scans of the layout only look at characters outside quotes. A text whose quotes are closed at
its end can be scanned apart from what follows it, and a text is cut at a character outside quotes
into two such parts. What the scans then count are brackets: braces alone to find objects, brackets
of all kinds to find properties.

## Main definitions

* `Layout.Closed`: texts whose quotes are closed.
* `Layout.code`: the characters of a text outside quotes.
* `Layout.level`, `Layout.net`, `Layout.Clear`: what the scans count.
* `Layout.Rearranged`: characters that the scans count alike.

## Main results

* `Layout.Closed.mark_append`: parts of a text are marked apart.
* `Layout.exists_of_mark_eq`: a text is cut at a character outside quotes.
* `Layout.Closed.code_eq_trim`: blanks at the ends of a text stand outside quotes.
-/

namespace StackScript.Layout

open Text

/-- What holds of each item of a list is decided item by item; to decide it of all characters would
take too long. -/
theorem forall_mem_of_all {α : Type} {p : α → Prop} [DecidablePred p] {l : List α}
    (h : (l.all fun a => decide (p a)) = true) : ∀ a ∈ l, p a := by
  simpa only [List.all_eq_true, decide_eq_true_eq] using h

/-! ### Quotes -/

/-- Whether a character is a quote. -/
def isQuote (c : Char) : Bool := c == '\'' || c == '"'

/-- The quote that is open after a character, and whether that was a backslash inside quotes. -/
def quoteStep : Option Char × Bool → Char → Option Char × Bool
  | (some q, escaped), c =>
    if escaped then (some q, false)
    else if c == '\\' then (some q, true)
    else if c == q then (none, false)
    else (some q, false)
  | (none, _), c => if isQuote c then (some c, false) else (none, false)

/-- A text whose quotes are closed at its end. -/
def Closed (text : List Char) : Prop := (text.foldl quoteStep (none, false)).1 = none

variable {a b text : List Char} {c : Char}

theorem markFrom_cons (state : Option Char × Bool) (c : Char) (rest : List Char) :
    markFrom state.1 state.2 (c :: rest) = (c, state.1.isSome || isQuote c) ::
      markFrom (quoteStep state c).1 (quoteStep state c).2 rest := by
  obtain ⟨_ | q, escaped⟩ := state
  · rw [markFrom, quoteStep]
    simp only [Option.isSome_none, Bool.false_or]
    cases hc : isQuote c with
    | true => rw [if_pos (by exact hc), if_pos rfl]
    | false => rw [if_neg (by rw [← isQuote, hc]; decide), if_neg Bool.false_ne_true]
  · rw [markFrom, quoteStep]
    split_ifs <;> rfl

theorem markFrom_append (state : Option Char × Bool) (a b : List Char) :
    markFrom state.1 state.2 (a ++ b) = markFrom state.1 state.2 a ++
      markFrom (a.foldl quoteStep state).1 (a.foldl quoteStep state).2 b := by
  induction a generalizing state with
  | nil => rfl
  | cons c a ih =>
    rw [List.cons_append, markFrom_cons, markFrom_cons, ih]
    rfl

/-- Outside quotes nothing is escaped. -/
theorem markFrom_none (escaped : Bool) (text : List Char) :
    markFrom none escaped text = mark text := by
  cases text <;> rfl

theorem map_fst_mark (text : List Char) : (mark text).map Prod.fst = text := by
  have hfrom (state : Option Char × Bool) :
      (markFrom state.1 state.2 text).map Prod.fst = text := by
    induction text generalizing state with
    | nil => rfl
    | cons c rest ih => rw [markFrom_cons, List.map_cons, ih]
  exact hfrom (none, false)

theorem length_mark (text : List Char) : (mark text).length = text.length := by
  have hlength := congrArg List.length (map_fst_mark text)
  rwa [List.length_map] at hlength

namespace Closed

theorem nil : Closed [] := rfl

/-- After a closed text scanning starts anew. -/
theorem mark_append (ha : Closed a) (b : List Char) : mark (a ++ b) = mark a ++ mark b := by
  have hrest : markFrom (a.foldl quoteStep (none, false)).1 (a.foldl quoteStep (none, false)).2 b =
      mark b := by
    rw [ha, markFrom_none]
  exact (markFrom_append (none, false) a b).trans (congrArg (mark a ++ ·) hrest)

theorem append_iff (ha : Closed a) : Closed (a ++ b) ↔ Closed b := by
  have hstate (escaped : Bool) :
      (b.foldl quoteStep (none, escaped)).1 = (b.foldl quoteStep (none, false)).1 := by
    cases b <;> rfl
  unfold Closed at ha ⊢
  rw [List.foldl_append]
  generalize a.foldl quoteStep (none, false) = state at ha
  obtain ⟨q, escaped⟩ := state
  obtain rfl : q = none := ha
  rw [hstate]

theorem append (ha : Closed a) (hb : Closed b) : Closed (a ++ b) := ha.append_iff.2 hb

theorem singleton (hc : isQuote c = false) : Closed [c] := by
  simp [Closed, quoteStep, hc]

theorem cons_iff (hc : isQuote c = false) : Closed (c :: b) ↔ Closed b :=
  (singleton hc).append_iff (b := b)

theorem of_forall (h : ∀ c ∈ a, isQuote c = false) : Closed a := by
  induction a with
  | nil => exact nil
  | cons c a ih =>
    rw [List.forall_mem_cons] at h
    exact (cons_iff h.1).2 (ih h.2)

/-- A quote that is open stays open without another quote. -/
private theorem foldl_some {q : Char} (hq : isQuote q = true) (h : ∀ c ∈ b, isQuote c = false)
    (escaped : Bool) : (b.foldl quoteStep (some q, escaped)).1 = some q := by
  induction b generalizing escaped with
  | nil => rfl
  | cons c b ih =>
    rw [List.forall_mem_cons] at h
    have hne : (c == q) = false := by
      rw [beq_eq_false_iff_ne]
      rintro rfl
      exact Bool.false_ne_true (h.1.symm.trans hq)
    rw [List.foldl_cons, quoteStep]
    split_ifs with hescaped hback heq
    · exact ih h.2 _
    · exact ih h.2 _
    · exact absurd heq (by rw [hne]; decide)
    · exact ih h.2 _

private theorem isQuote_of_foldl {state : Option Char × Bool}
    (h : ∀ q ∈ state.1, isQuote q = true) :
    ∀ q ∈ (a.foldl quoteStep state).1, isQuote q = true := by
  induction a generalizing state with
  | nil => exact h
  | cons c a ih =>
    refine ih fun q hq => ?_
    obtain ⟨_ | q', escaped⟩ := state
    · rw [quoteStep] at hq
      split_ifs at hq with hc
      · obtain rfl := Option.some.inj hq
        exact hc
      · cases hq
    · rw [quoteStep] at hq
      split_ifs at hq
      · exact h q hq
      · exact h q hq
      · cases hq
      · exact h q hq

/-- Characters that are not quotes do not close a text. -/
theorem of_append (h : Closed (a ++ b)) (hb : ∀ c ∈ b, isQuote c = false) : Closed a := by
  unfold Closed at h ⊢
  rw [List.foldl_append] at h
  have hnone : ∀ q ∈ ((none, false) : Option Char × Bool).1, isQuote q = true := by simp
  have hquote := isQuote_of_foldl (a := a) hnone
  generalize a.foldl quoteStep (none, false) = state at h hquote
  obtain ⟨_ | q, escaped⟩ := state
  · rfl
  · rw [foldl_some (hquote q rfl) hb escaped] at h
    exact h

end Closed

/-- Outside quotes a character that is none is not marked. -/
theorem mark_cons_of_isQuote (hc : isQuote c = false) (text : List Char) :
    mark (c :: text) = (c, false) :: mark text := by
  have hcons := markFrom_cons (none, false) c text
  simpa [mark, quoteStep, hc] using hcons

theorem mark_of_forall (h : ∀ c ∈ a, isQuote c = false) : mark a = a.map (·, false) := by
  induction a with
  | nil => rfl
  | cons c a ih =>
    rw [List.forall_mem_cons] at h
    rw [mark_cons_of_isQuote h.1, ih h.2, List.map_cons]

/-- A text is cut at a character outside quotes. -/
theorem exists_of_mark_eq {marks more : List (Char × Bool)}
    (h : mark text = marks ++ (c, false) :: more) :
    ∃ a b, text = a ++ c :: b ∧ mark a = marks ∧ mark b = more ∧ Closed a ∧ isQuote c = false := by
  obtain ⟨a, b, rfl, hlength⟩ : ∃ a b, text = a ++ c :: b ∧ a.length = marks.length := by
    refine ⟨marks.map Prod.fst, more.map Prod.fst, ?_, List.length_map _⟩
    have htext := congrArg (List.map Prod.fst) h
    rwa [map_fst_mark, List.map_append] at htext
  have happend := markFrom_append (none, false) a (c :: b)
  rw [← mark, h, markFrom_cons] at happend
  obtain ⟨hmarks, hrest⟩ := List.append_inj happend (by rw [← mark, length_mark, hlength])
  obtain ⟨hfirst, hmore⟩ := List.cons.inj hrest
  have hflag := (Prod.mk.inj hfirst).2
  rw [eq_comm, Bool.or_eq_false_iff, Option.isSome_eq_false_iff, Option.isNone_iff_eq_none] at hflag
  refine ⟨a, b, rfl, hmarks.symm, ?_, hflag.1, hflag.2⟩
  rw [hmore]
  generalize a.foldl quoteStep (none, false) = state at hflag
  obtain ⟨q, escaped⟩ := state
  obtain ⟨rfl, hquote⟩ := hflag
  simp [quoteStep, hquote, mark]

theorem isQuote_eq_false_of_isBlank (h : isBlank c = true) : isQuote c = false := by
  cases hc : isQuote c with
  | false => rfl
  | true =>
    rw [isQuote, Bool.or_eq_true, beq_iff_eq, beq_iff_eq] at hc
    rcases hc with rfl | rfl <;> exact absurd h (by decide)

/-! ### Characters outside quotes -/

/-- The characters of a marked text that stand outside quotes. -/
def unquoted (marks : List (Char × Bool)) : List Char :=
  (marks.filter fun m => !m.2).map Prod.fst

/-- The characters of a text that stand outside quotes. -/
def code (text : List Char) : List Char := unquoted (mark text)

theorem unquoted_cons_true (c : Char) (marks : List (Char × Bool)) :
    unquoted ((c, true) :: marks) = unquoted marks := rfl

theorem unquoted_cons_false (c : Char) (marks : List (Char × Bool)) :
    unquoted ((c, false) :: marks) = c :: unquoted marks := rfl

theorem unquoted_append (marks more : List (Char × Bool)) :
    unquoted (marks ++ more) = unquoted marks ++ unquoted more := by
  rw [unquoted, List.filter_append, List.map_append]
  rfl

theorem Closed.code_append (ha : Closed a) (b : List Char) : code (a ++ b) = code a ++ code b := by
  rw [code, ha.mark_append, unquoted_append]
  rfl

theorem code_of_forall (h : ∀ c ∈ a, isQuote c = false) : code a = a := by
  rw [code, mark_of_forall h, unquoted, List.filter_eq_self.2 (by simp), List.map_map]
  exact List.map_id' a

theorem code_cons (hc : isQuote c = false) (b : List Char) : code (c :: b) = c :: code b := by
  have hfirst : code [c] = [c] := code_of_forall (by simpa using hc)
  exact ((Closed.singleton hc).code_append b).trans (congrArg (· ++ code b) hfirst)

theorem Closed.code_append_cons (ha : Closed a) (hc : isQuote c = false) (b : List Char) :
    code (a ++ c :: b) = code a ++ c :: code b := by
  rw [ha.code_append, code_cons hc]

theorem mem_of_mem_code (h : c ∈ code text) : c ∈ text := by
  obtain ⟨m, hm, rfl⟩ := List.mem_map.1 h
  rw [← map_fst_mark text]
  exact List.mem_map_of_mem (List.mem_filter.1 hm).1

theorem code_of_isBlank (h : ∀ c ∈ a, isBlank c = true) : code a = a :=
  code_of_forall fun c hc => isQuote_eq_false_of_isBlank (h c hc)

theorem Closed.of_isBlank (h : ∀ c ∈ a, isBlank c = true) : Closed a :=
  of_forall fun c hc => isQuote_eq_false_of_isBlank (h c hc)

/-- Blanks at the ends of a closed text stand outside quotes. -/
theorem Closed.exists_trim (h : Closed text) :
    ∃ before after, (∀ c ∈ before, isBlank c = true) ∧ (∀ c ∈ after, isBlank c = true) ∧
      text = before ++ trim text ++ after ∧ Closed (trim text) ∧
      code text = before ++ code (trim text) ++ after := by
  obtain ⟨before, after, hbefore, hafter, heq⟩ := Text.exists_trim text
  have hfirst := Closed.of_isBlank hbefore
  have htrim : Closed (trim text) := by
    rw [heq, List.append_assoc, hfirst.append_iff] at h
    exact h.of_append fun c hc => isQuote_eq_false_of_isBlank (hafter c hc)
  refine ⟨before, after, hbefore, hafter, heq, htrim, ?_⟩
  calc code text
    _ = code (before ++ (trim text ++ after)) := by rw [← List.append_assoc, ← heq]
    _ = before ++ (code (trim text) ++ after) := by
      rw [hfirst.code_append, htrim.code_append, code_of_isBlank hbefore, code_of_isBlank hafter]
    _ = before ++ code (trim text) ++ after := (List.append_assoc ..).symm

/-! ### Brackets -/

/-- What a character adds to the number of open brackets. -/
def weight (c : Char) : Int := if isOpener c then 1 else if isCloser c then -1 else 0

/-- The number of brackets that characters leave open. -/
def net : List Char → Int
  | [] => 0
  | c :: cs => weight c + net cs

/-- No sign of a list stands outside brackets, if `depth` of them are open at the start. -/
def Clear (signs : List Char) : (depth : Int) → List Char → Prop
  | _, [] => True
  | depth, c :: cs => (depth = 0 → c ∉ signs) ∧ Clear signs (depth + weight c) cs

/-- The number of braces that are open after some characters, if `depth` are open before them. There
is none if all of them are closed in between. -/
def level : (depth : Nat) → List Char → Option Nat
  | depth, [] => some depth
  | depth, c :: cs =>
    if c = '{' then level (depth + 1) cs
    else if c = '}' then if 1 < depth then level (depth - 1) cs else none
    else level depth cs

variable {cs cs' ds ds' : List Char} {signs : List Char}

theorem net_append (cs ds : List Char) : net (cs ++ ds) = net cs + net ds := by
  induction cs with
  | nil => exact (Int.zero_add _).symm
  | cons c cs ih => rw [List.cons_append, net, net, ih, Int.add_assoc]

theorem clear_append {depth : Int} :
    Clear signs depth (cs ++ ds) ↔ Clear signs depth cs ∧ Clear signs (depth + net cs) ds := by
  induction cs generalizing depth with
  | nil => simp [Clear, net]
  | cons c cs ih =>
    rw [List.cons_append, Clear, Clear, ih, net, and_assoc, Int.add_assoc]

theorem level_append (depth : Nat) (cs ds : List Char) :
    level depth (cs ++ ds) = (level depth cs).bind (level · ds) := by
  induction cs generalizing depth with
  | nil => rfl
  | cons c cs ih =>
    rw [List.cons_append, level, level]
    split_ifs
    · exact ih _
    · exact ih _
    · rfl
    · exact ih _

/-- The brace that closes the last open one. -/
theorem exists_of_level_eq_none {depth : Nat} (hdepth : 0 < depth) {marks : List (Char × Bool)}
    (h : level depth (unquoted marks) = none) :
    ∃ before after, marks = before ++ ('}', false) :: after ∧
      level depth (unquoted before) = some 1 := by
  induction marks generalizing depth with
  | nil => cases h
  | cons m marks ih =>
    obtain ⟨c, _ | _⟩ := m
    · rw [unquoted_cons_false, level] at h
      by_cases hlast : c = '}' ∧ depth = 1
      · obtain ⟨rfl, rfl⟩ := hlast
        exact ⟨[], marks, rfl, rfl⟩
      have hnext : ∃ next, 0 < next ∧ ∀ ds, level depth (c :: ds) = level next ds := by
        simp only [level]
        split_ifs with hopen hclose hmore
        · exact ⟨depth + 1, by omega, fun _ => rfl⟩
        · exact ⟨depth - 1, by omega, fun _ => rfl⟩
        · exact absurd ⟨hclose, by omega⟩ hlast
        · exact ⟨depth, hdepth, fun _ => rfl⟩
      obtain ⟨next, hpos, hstep⟩ := hnext
      rw [← level, hstep] at h
      obtain ⟨before, after, rfl, hbefore⟩ := ih hpos h
      exact ⟨(c, false) :: before, after, rfl, by rw [unquoted_cons_false, hstep, hbefore]⟩
    · obtain ⟨before, after, rfl, hbefore⟩ := ih hdepth h
      exact ⟨(c, true) :: before, after, rfl, hbefore⟩

/-- The first sign outside brackets, if there is one. -/
theorem clear_or_exists (signs : List Char) (depth : Int) (marks : List (Char × Bool)) :
    Clear signs depth (unquoted marks) ∨
      ∃ before c after, marks = before ++ (c, false) :: after ∧ c ∈ signs ∧
        Clear signs depth (unquoted before) ∧ depth + net (unquoted before) = 0 := by
  induction marks generalizing depth with
  | nil => exact .inl trivial
  | cons m marks ih =>
    obtain ⟨c, _ | _⟩ := m
    · by_cases hsign : depth = 0 ∧ c ∈ signs
      · exact .inr ⟨[], c, marks, rfl, hsign.2, trivial, by simp [hsign.1, unquoted, net]⟩
      have hc (hdepth : depth = 0) : c ∉ signs := fun hmem => hsign ⟨hdepth, hmem⟩
      obtain hclear | ⟨before, d, after, rfl, hd, hbefore, hnet⟩ := ih (depth + weight c)
      · exact .inl ⟨hc, hclear⟩
      · refine .inr ⟨(c, false) :: before, d, after, rfl, hd, ⟨hc, hbefore⟩, ?_⟩
        rw [unquoted_cons_false, net, ← hnet, Int.add_assoc]
    · obtain hclear | ⟨before, d, after, rfl, hd, hbefore, hnet⟩ := ih depth
      · exact .inl hclear
      · exact .inr ⟨(c, true) :: before, d, after, rfl, hd, hbefore, hnet⟩

/-! ### Blanks -/

theorem isBlank_of_mem_blanks {width : Int} {c : Char} (h : c ∈ blanks width) :
    isBlank c = true := by
  rw [List.eq_of_mem_replicate h]
  decide

theorem weight_of_isBlank (h : isBlank c = true) : weight c = 0 := by
  have hopener : isOpener c = false := by
    by_contra hc
    simp only [isOpener, Bool.or_eq_true, beq_iff_eq, Bool.not_eq_false] at hc
    rcases hc with (rfl | rfl) | rfl <;> exact absurd h (by decide)
  have hcloser : isCloser c = false := by
    by_contra hc
    simp only [isCloser, Bool.or_eq_true, beq_iff_eq, Bool.not_eq_false] at hc
    rcases hc with (rfl | rfl) | rfl <;> exact absurd h (by decide)
  simp [weight, hopener, hcloser]

theorem net_of_isBlank (h : ∀ c ∈ cs, isBlank c = true) : net cs = 0 := by
  induction cs with
  | nil => rfl
  | cons c cs ih =>
    rw [List.forall_mem_cons] at h
    rw [net, weight_of_isBlank h.1, ih h.2, Int.add_zero]

theorem clear_of_isBlank (hsigns : ∀ c ∈ signs, isBlank c = false) (h : ∀ c ∈ cs, isBlank c = true)
    (depth : Int) : Clear signs depth cs := by
  induction cs generalizing depth with
  | nil => trivial
  | cons c cs ih =>
    rw [List.forall_mem_cons] at h
    exact ⟨fun _ hc => Bool.false_ne_true ((hsigns c hc).symm.trans h.1), ih h.2 _⟩

theorem level_of_isBlank (h : ∀ c ∈ cs, isBlank c = true) (depth : Nat) :
    level depth cs = some depth := by
  induction cs with
  | nil => rfl
  | cons c cs ih =>
    rw [List.forall_mem_cons] at h
    have hne (d : Char) (hd : isBlank d = false) : c ≠ d := by
      rintro rfl
      exact Bool.false_ne_true (hd.symm.trans h.1)
    rw [level, if_neg (hne _ (by decide)), if_neg (hne _ (by decide)), ih h.2]

/-- Blanks around characters do not matter. -/
theorem net_append_isBlank {before after : List Char} (hbefore : ∀ c ∈ before, isBlank c = true)
    (hafter : ∀ c ∈ after, isBlank c = true) : net (before ++ cs ++ after) = net cs := by
  rw [net_append, net_append, net_of_isBlank hbefore, net_of_isBlank hafter]
  omega

theorem clear_append_isBlank {before after : List Char} (hbefore : ∀ c ∈ before, isBlank c = true)
    (hafter : ∀ c ∈ after, isBlank c = true) (hsigns : ∀ c ∈ signs, isBlank c = false)
    (depth : Int) : Clear signs depth (before ++ cs ++ after) ↔ Clear signs depth cs := by
  rw [clear_append, clear_append, net_of_isBlank hbefore, Int.add_zero]
  exact ⟨fun h => h.1.2, fun h => ⟨⟨clear_of_isBlank hsigns hbefore _, h⟩,
    clear_of_isBlank hsigns hafter _⟩⟩

theorem closed_trim_iff : Closed (trim text) ↔ Closed text := by
  constructor
  · intro h
    obtain ⟨before, after, hbefore, hafter, heq⟩ := Text.exists_trim text
    rw [heq]
    exact ((Closed.of_isBlank hbefore).append h).append (.of_isBlank hafter)
  · intro h
    obtain ⟨_, _, _, _, _, htrim, _⟩ := h.exists_trim
    exact htrim

theorem net_code_trim (h : Closed text) : net (code (trim text)) = net (code text) := by
  obtain ⟨before, after, hbefore, hafter, -, -, hcode⟩ := h.exists_trim
  rw [hcode, net_append_isBlank hbefore hafter]

theorem clear_code_trim_iff (h : Closed text) (hsigns : ∀ c ∈ signs, isBlank c = false)
    (depth : Int) : Clear signs depth (code (trim text)) ↔ Clear signs depth (code text) := by
  obtain ⟨before, after, hbefore, hafter, -, -, hcode⟩ := h.exists_trim
  rw [hcode, clear_append_isBlank hbefore hafter hsigns]

/-! ### Rearranged characters -/

/-- Characters outside quotes that leave as many brackets open, and have no commas where there were
none. -/
structure Rearranged (cs cs' : List Char) : Prop where
  net_eq : net cs' = net cs
  level_eq : ∀ depth, level depth cs' = level depth cs
  clear : ∀ depth, Clear [','] depth cs → Clear [','] depth cs'

namespace Rearranged

theorem refl (cs : List Char) : Rearranged cs cs := ⟨rfl, fun _ => rfl, fun _ h => h⟩

theorem append (h : Rearranged cs cs') (h' : Rearranged ds ds') :
    Rearranged (cs ++ ds) (cs' ++ ds') where
  net_eq := by rw [net_append, net_append, h.net_eq, h'.net_eq]
  level_eq depth := by rw [level_append, level_append, h.level_eq, funext h'.level_eq]
  clear depth hclear := by
    rw [clear_append] at hclear ⊢
    rw [h.net_eq]
    exact ⟨h.clear _ hclear.1, h'.clear _ hclear.2⟩

theorem of_isBlank (h : ∀ c ∈ cs, isBlank c = true) (h' : ∀ c ∈ cs', isBlank c = true) :
    Rearranged cs cs' where
  net_eq := by rw [net_of_isBlank h, net_of_isBlank h']
  level_eq depth := by rw [level_of_isBlank h, level_of_isBlank h']
  clear depth _ := clear_of_isBlank (forall_mem_of_all (by decide)) h' depth

theorem trans (h : Rearranged cs cs') (h' : Rearranged cs' ds) : Rearranged cs ds where
  net_eq := h'.net_eq.trans h.net_eq
  level_eq depth := (h'.level_eq depth).trans (h.level_eq depth)
  clear depth hclear := h'.clear depth (h.clear depth hclear)

/-- Characters after the same sign. -/
theorem cons (c : Char) (h : Rearranged cs cs') : Rearranged (c :: cs) (c :: cs') :=
  (refl [c]).append h

/-- Blanks may be dropped. -/
theorem drop (h : ∀ c ∈ cs, isBlank c = true) : Rearranged cs [] := of_isBlank h (by simp)

/-- A comma may be dropped. -/
theorem comma : Rearranged [','] [] := ⟨rfl, fun _ => rfl, fun _ _ => trivial⟩

end Rearranged

end StackScript.Layout
