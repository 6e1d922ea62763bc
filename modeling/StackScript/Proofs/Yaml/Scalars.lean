import StackScript.Proofs.Json.Text
import StackScript.Proofs.Number.Display
import StackScript.Proofs.Text.Split
import StackScript.Proofs.Yaml.Words
import StackScript.Yaml.ScalarValue

/-!
# JSON scalars in YAML

The texts of null, of the truth values and of integers mean the same in YAML. A floating-point
number does only if its text has a point: without one, or if it is not finite, the text is a string.

## Main definitions

* `Yaml.IsUnsigned`: texts of unsigned numbers.
* `Yaml.rereadWord`: the scalar that the text of a scalar denotes in YAML.

## Main results

* `Yaml.isWord_word`: texts of scalars are plain scalars.
* `Yaml.scalarValue_word`: what they denote.
-/

namespace StackScript.Yaml

open Number Text

/-! ### Numerals -/

/-- The characters of numerals. -/
def isNumeralChar (c : Char) : Bool := isDigit c || c == '.' || c == 'e' || c == '+' || c == '-'

private theorem isNumeralChar_cases {c : Char} (h : isNumeralChar c = true) :
    isDigit c = true ∨ c = '.' ∨ c = 'e' ∨ c = '+' ∨ c = '-' := by
  simpa [isNumeralChar, or_assoc] using h

private theorem toNat_of_isDigit {c : Char} (h : isDigit c = true) :
    48 ≤ c.toNat ∧ c.toNat ≤ 57 := by
  simp only [isDigit, Bool.and_eq_true, decide_eq_true_eq] at h
  exact h

/-- Numerals are written in ASCII without capital letters. -/
private theorem toNat_of_isNumeralChar {c : Char} (h : isNumeralChar c = true) :
    c.toNat < 0x7f ∧ (c.toNat < 0x41 ∨ 0x5a < c.toNat) := by
  obtain h | rfl | rfl | rfl | rfl := isNumeralChar_cases h
  · have := toNat_of_isDigit h
    omega
  all_goals decide

/-- The text of an unsigned number. -/
structure IsUnsigned (cs : List Char) : Prop where
  starts : ∃ d rest, cs = d :: rest ∧ isDigit d = true
  chars : ∀ c ∈ cs, isNumeralChar c = true

namespace IsUnsigned

variable {cs : List Char} (h : IsUnsigned cs)
include h

theorem chars_signed (negative : Bool) :
    ∀ c ∈ Double.signed negative cs, isNumeralChar c = true := by
  cases negative with
  | false => exact h.chars
  | true => exact List.forall_mem_cons.2 ⟨by decide, h.chars⟩

theorem splitSign_signed (negative : Bool) :
    Decimal.splitSign (Double.signed negative cs) = (negative, cs) := by
  obtain ⟨d, rest, rfl, hd⟩ := h.starts
  exact @Double.splitSign_signed [d] rest negative (by simp) (by simpa using hd)

private theorem isEmpty_signed (negative : Bool) :
    (Double.signed negative cs).isEmpty = false := by
  obtain ⟨d, rest, rfl, -⟩ := h.starts
  cases negative <;> rfl

theorem notMem {c : Char} (hc : isNumeralChar c = false) (negative : Bool) :
    c ∉ Double.signed negative cs :=
  fun hmem => absurd (h.chars_signed negative c hmem) (by simp [hc])

/-- A number is not among words that start neither with a digit nor with a minus sign. -/
private theorem contains_eq_false (words : List String)
    (hwords : (words.all fun w => w.toList.head?.all fun c => !isDigit c && c != '-') = true)
    (negative : Bool) :
    words.contains (String.ofList (Double.signed negative cs)) = false := by
  rw [List.contains_eq_mem, decide_eq_false_iff_not]
  intro hmem
  have hfirst := List.all_eq_true.1 hwords _ hmem
  rw [String.toList_ofList] at hfirst
  obtain ⟨d, rest, rfl, hd⟩ := h.starts
  cases negative with
  | false => simp [Double.signed, hd] at hfirst
  | true => simp [Double.signed] at hfirst

private theorem isFloat_signed (negative : Bool) :
    isFloat (Double.signed negative cs) = isUnsignedFloat cs := by
  have hinfinite : [".inf", ".Inf", ".INF"].contains (String.ofList cs) = false :=
    h.contains_eq_false _ (by decide) false
  have hundefined := h.contains_eq_false [".nan", ".NaN", ".NAN"] (by decide) negative
  unfold isFloat
  simp only [h.splitSign_signed, hinfinite, hundefined, Bool.or_false]
  obtain ⟨d, rest, rfl, hd⟩ := h.starts
  have hpoint : d ≠ '.' := by
    rintro rfl
    exact absurd hd (by decide)
  cases negative <;> simp [Double.signed, hpoint]

/-- Only the forms of numbers matter for a number. -/
theorem implicitTag_signed (negative : Bool) :
    implicitTag (Double.signed negative cs) =
      if isUnsignedFloat cs then .float else if isUnsignedInt cs then .int else .str := by
  have hbreak : dropFinalBreak (Double.signed negative cs) = Double.signed negative cs :=
    if_neg fun hlast => h.notMem (by decide) negative (List.mem_of_getLast? hlast)
  have hmarks : String.ofList (Double.signed negative cs) ≠ "<<" ∧
      String.ofList (Double.signed negative cs) ≠ "=" := by
    simpa using h.contains_eq_false ["<<", "="] (by decide) negative
  unfold implicitTag
  simp only [h.isEmpty_signed, hbreak, h.contains_eq_false boolWords (by decide),
    h.contains_eq_false nullWords (by decide), h.contains_eq_false reservedSigns (by decide),
    hmarks.1, hmarks.2, h.isFloat_signed, isInt, h.splitSign_signed, Bool.false_eq_true, if_false]

theorem isWord_signed (negative : Bool) : TokenState.IsWord (Double.signed negative cs) := by
  have hchar {c : Char} (hc : isNumeralChar c = true) : TokenState.isWordChar c = true := by
    obtain hdigit | rfl | rfl | rfl | rfl := isNumeralChar_cases hc
    · have : c.isAlphanum = true := by
        rw [Char.isAlphanum, show c.isDigit = true from hdigit, Bool.or_true]
      simp [TokenState.isWordChar, this]
    all_goals decide
  obtain ⟨d, rest, rfl, hd⟩ := h.starts
  have halnum : d.isAlphanum = true := by
    rw [Char.isAlphanum, show d.isDigit = true from hd, Bool.or_true]
  refine ⟨fun c hc => hchar (h.chars_signed negative c hc), d, rest, halnum, ?_⟩
  cases negative with
  | false => exact .inl rfl
  | true => exact .inr rfl

private theorem filter_signed (negative : Bool) :
    (Double.signed negative cs).filter (· != '_') = Double.signed negative cs := by
  rw [List.filter_eq_self]
  intro c hc
  rw [bne_iff_ne]
  rintro rfl
  exact h.notMem (by decide) negative hc

private theorem plainNumeral_eq : plainNumeral cs = cs := by
  have hmap : cs.map numeralChar = cs := by
    conv_rhs => rw [← List.map_id cs]
    exact List.map_inj_left.2 fun c hc => if_pos (toNat_of_isNumeralChar (h.chars c hc)).1
  have hblank {c : Char} (hc : isNumeralChar c = true) : isNumeralBlank c = false := by
    obtain hdigit | rfl | rfl | rfl | rfl := isNumeralChar_cases hc
    · have hrange := toNat_of_isDigit hdigit
      simp only [isNumeralBlank, Bool.or_eq_false_iff, Bool.and_eq_false_iff,
        beq_eq_false_iff_ne, decide_eq_false_iff_not]
      refine ⟨?_, .inr fun hle => ?_⟩
      · rintro rfl
        exact absurd hrange.1 (by decide)
      · have hlow : c.toNat ≤ 13 := hle
        omega
    all_goals decide
  have hdrop {text : List Char} (htext : ∀ c ∈ text, isNumeralChar c = true) :
      text.dropWhile isNumeralBlank = text := by
    cases text with
    | nil => rfl
    | cons c text => simp [hblank (htext c (by simp))]
  unfold plainNumeral
  dsimp only
  rw [hmap, hdrop h.chars, hdrop fun c hc => h.chars c (List.mem_reverse.1 hc),
    List.reverse_reverse]

private theorem lower_signed (negative : Bool) :
    lower (Double.signed negative cs) = Double.signed negative cs := by
  refine lower_eq_self fun c hc => ?_
  have := toNat_of_isNumeralChar (h.chars_signed negative c hc)
  omega

theorem intValue_signed (negative : Bool) :
    intValue (Double.signed negative cs) =
      (unsignedIntValue cs).map fun n => if negative then -n else n := by
  unfold intValue
  simp only [h.filter_signed, h.isEmpty_signed, h.splitSign_signed, Bool.false_eq_true, if_false]
  cases unsignedIntValue cs <;> rfl

private theorem readReal_eq :
    readReal? cs = (Decimal.readUnsigned? false cs).map Decimal.toDouble := by
  have hsplit := h.splitSign_signed false
  have hlower := h.lower_signed false
  have hinfinite := h.contains_eq_false infinityWords (by decide) false
  have hundefined : String.ofList cs ≠ "nan" := by
    simpa [Double.signed] using h.contains_eq_false ["nan"] (by decide) false
  simp only [Double.signed, Bool.false_eq_true, if_false] at hsplit hlower hinfinite
  unfold readReal?
  simp only [h.plainNumeral_eq, hsplit, hlower, hinfinite, hundefined, Bool.false_eq_true, if_false]

theorem floatValue_signed {d : Decimal} (hd : Decimal.readUnsigned? false cs = some d)
    (negative : Bool) :
    floatValue (Double.signed negative cs) =
      .ok (if negative then d.toDouble.neg else d.toDouble) := by
  have hcolon : cs.contains ':' = false := by
    rw [List.contains_eq_mem, decide_eq_false_iff_not]
    exact h.notMem (by decide) false
  have hwords : cs ≠ ".inf".toList ∧ cs ≠ ".nan".toList := by
    obtain ⟨first, rest, rfl, hfirst⟩ := h.starts
    constructor
    all_goals
      intro heq
      obtain rfl : first = '.' := (List.cons.inj heq).1
      exact absurd hfirst (by decide)
  have hvalue : unsignedFloatValue cs = .ok d.toDouble := by
    unfold unsignedFloatValue
    rw [if_neg hwords.1, if_neg hwords.2, hcolon, h.readReal_eq, hd]
    rfl
  unfold floatValue
  simp only [h.filter_signed, h.lower_signed, h.isEmpty_signed, h.splitSign_signed, hvalue,
    Bool.false_eq_true, if_false]
  rfl

end IsUnsigned

/-! ### Integers -/

private theorem isUnsigned_natText (n : Nat) : IsUnsigned (natText n) where
  starts := by
    obtain ⟨d, rest, htext⟩ := List.exists_cons_of_ne_nil (natText_ne_nil n)
    exact ⟨d, rest, htext, isDigit_of_mem_natText (htext ▸ List.mem_cons_self)⟩
  chars c hc := by simp [isNumeralChar, isDigit_of_mem_natText hc]

/-- Only zero starts with a zero. -/
private theorem natText_ne_zero_cons {n : Nat} (hn : n ≠ 0) (rest : List Char) :
    natText n ≠ '0' :: rest := by
  intro htext
  have hdigits : ∀ c ∈ rest, isDigit c = true := fun c hc =>
    isDigit_of_mem_natText (htext ▸ List.mem_cons_of_mem _ hc)
  have hvalue : digitsValue rest = n := by
    conv_rhs => rw [← digitsValue_natText n, htext]
    rfl
  have hle := pow_le_of_length_natText hn
  have hlt := digitsValue_lt hdigits
  rw [htext, List.length_cons, Nat.add_sub_cancel] at hle
  omega

private theorem baseDigits_eq {cs : List Char} (hne : cs ≠ [])
    (h : ∀ c ∈ cs, isDigit c = true) :
    baseDigits? 10 cs = some (cs.map fun c => c.toNat - '0'.toNat) := by
  induction cs with
  | nil => exact absurd rfl hne
  | cons c rest ih =>
    rw [List.forall_mem_cons] at h
    have hrange := toNat_of_isDigit h.1
    have hc : baseDigit? 10 c = some (c.toNat - '0'.toNat) := by
      have hhex : hexDigit? c = some (c.toNat - '0'.toNat) := if_pos hrange
      have hlt : c.toNat - '0'.toNat < 10 := by
        show c.toNat - 48 < 10
        omega
      simp only [baseDigit?, hhex, if_pos hlt]
    cases rest with
    | nil =>
      rw [baseDigits?, hc]
      rfl
    | cons d more =>
      have hbar : d ≠ '_' := by
        rintro rfl
        exact absurd (h.2 '_' (by simp)) (by decide)
      rw [baseDigits?, hc]
      simp [hbar, ih (by simp) h.2]

/-- The digits of a number mean the number. -/
private theorem unsignedIntValue_natText {n : Nat} (h : (natText n).length ≤ maxIntegerDigits) :
    unsignedIntValue (natText n) = .ok (n : Int) := by
  by_cases hn : n = 0
  · subst hn
    rfl
  · have hzero := natText_ne_zero_cons hn
    have hcolon : (natText n).contains ':' = false := by
      rw [List.contains_eq_mem, decide_eq_false_iff_not]
      exact fun hmem => absurd (isDigit_of_mem_natText hmem) (by decide)
    have hmark : dropBaseMark 10 (natText n) = natText n := by
      unfold dropBaseMark
      split
      · exact absurd ‹_› (hzero _)
      · rfl
    have hread : readInteger? 10 (natText n) = some (n : Int) := by
      have hsplit := (isUnsigned_natText n).splitSign_signed false
      have hvalue : ((natText n).map fun c => c.toNat - '0'.toNat).foldl
          (fun value d => 10 * value + d) 0 = n := by
        rw [List.foldl_map]
        exact digitsValue_natText n
      simp only [Double.signed, Bool.false_eq_true, if_false] at hsplit
      unfold readInteger?
      simp only [(isUnsigned_natText n).plainNumeral_eq, hsplit, hmark,
        baseDigits_eq (natText_ne_nil n) fun c => isDigit_of_mem_natText, Option.bind_eq_bind,
        Option.bind_some, List.length_map, hvalue]
      rw [if_neg fun hlong => absurd hlong.2 (Nat.not_lt.2 h)]
      rfl
    unfold unsignedIntValue
    split
    · exact absurd ‹_› (natText_ne_nil n)
    · exact absurd ‹_› (hzero _)
    · exact absurd ‹_› (hzero _)
    · exact absurd ‹_› (hzero _)
    · exact absurd ‹_› (hzero _)
    · rw [hcolon, hread]
      rfl

private theorem isUnsignedInt_natText (n : Nat) : isUnsignedInt (natText n) = true := by
  by_cases hn : n = 0
  · subst hn
    rfl
  · have hzero := natText_ne_zero_cons hn
    obtain ⟨d, rest, htext⟩ := List.exists_cons_of_ne_nil (natText_ne_nil n)
    have hcount : isCount (natText n) = true := by
      have hdigits : ∀ c ∈ d :: rest, isDigit c = true := fun c hc =>
        isDigit_of_mem_natText (htext ▸ hc)
      have hfirst : d ≠ '0' := by
        rintro rfl
        exact hzero rest htext
      rw [htext, isCount, isDigitRun, hdigits d (by simp)]
      simpa [hfirst, isDigitOrBar] using fun c hc => .inl (hdigits c (by simp [hc]))
    unfold isUnsignedInt
    split
    · exact absurd ‹_› (hzero _)
    · exact absurd ‹_› (hzero _)
    · exact absurd ‹_› (hzero _)
    · exact absurd ‹_› (hzero _)
    · rw [hcount, Bool.true_or]

private theorem isUnsignedFloat_eq_false {cs : List Char} (h : '.' ∉ cs) :
    isUnsignedFloat cs = false := by
  have hwhole : cs.takeWhile (· != '.') = cs := by
    rw [List.takeWhile_eq_self_iff]
    intro c hc
    rw [bne_iff_ne]
    rintro rfl
    exact h hc
  unfold isUnsignedFloat
  simp only [hwhole, List.drop_length]

private theorem intText_eq_signed (n : Int) :
    intText n = Double.signed (decide (n < 0)) (natText n.natAbs) := by
  cases n with
  | ofNat n => simp [intText, Double.signed]
  | negSucc n => simp [intText, Double.signed]

/-- Integers are read as themselves. -/
private theorem scalarValue_int {n : Int} {text : List Char} (h : writeInt? n = some text) :
    scalarValue (implicitTag text) text = .ok (.int n) := by
  unfold writeInt? at h
  split_ifs at h with hlength
  cases h
  have hunsigned := isUnsigned_natText n.natAbs
  have hpoint : '.' ∉ natText n.natAbs := fun hmem =>
    absurd (isDigit_of_mem_natText hmem) (by decide)
  have hsign : (if decide (n < 0) = true then -(n.natAbs : Int) else n.natAbs) = n := by
    split_ifs with hneg
    · have := of_decide_eq_true hneg
      omega
    · have := of_decide_eq_false (Bool.eq_false_of_not_eq_true hneg)
      omega
  rw [intText_eq_signed, hunsigned.implicitTag_signed, isUnsignedFloat_eq_false hpoint,
    isUnsignedInt_natText]
  show Value.int <$> intValue _ = _
  rw [hunsigned.intValue_signed, unsignedIntValue_natText hlength]
  exact congrArg (fun n => Except.ok (Value.int n)) hsign

/-! ### Floating-point numbers -/

section Numeral

open Double

variable {whole fraction exponent : List Char} {p : ℤ}

private theorem isUnsigned_numeral (hne : whole ≠ [])
    (hdigits : ∀ c ∈ whole ++ fraction, isDigit c = true) (h : IsExponent exponent p) :
    IsUnsigned (numeral whole fraction exponent) := by
  rw [List.forall_mem_append] at hdigits
  have hdigit {c : Char} (hc : isDigit c = true) : isNumeralChar c = true := by
    simp [isNumeralChar, hc]
  have hexponent : ∀ c ∈ exponent, isNumeralChar c = true := by
    cases h with
    | none => simp
    | minus _ h | plus _ h =>
      refine List.forall_mem_cons.2 ⟨by decide, List.forall_mem_cons.2 ⟨by decide, ?_⟩⟩
      exact fun c hc => hdigit (h c hc)
  constructor
  · obtain ⟨d, rest, rfl⟩ := List.exists_cons_of_ne_nil hne
    exact ⟨d, _, rfl, hdigits.1 d (by simp)⟩
  · unfold numeral
    refine List.forall_mem_append.2 ⟨fun c hc => hdigit (hdigits.1 c hc),
      List.forall_mem_append.2 ⟨?_, hexponent⟩⟩
    split_ifs
    · simp
    · exact List.forall_mem_cons.2 ⟨by decide, fun c hc => hdigit (hdigits.2 c hc)⟩

/-- A numeral with a point has the form of a floating-point number. -/
private theorem isUnsignedFloat_numeral (hne : whole ≠ []) (hf : fraction ≠ [])
    (hdigits : ∀ c ∈ whole ++ fraction, isDigit c = true) (h : IsExponent exponent p) :
    isUnsignedFloat (numeral whole fraction exponent) = true := by
  rw [List.forall_mem_append] at hdigits
  have hdot : ∀ c ∈ whole, (c != '.') = true := by
    intro c hc
    rw [bne_iff_ne]
    rintro rfl
    exact absurd (hdigits.1 '.' hc) (by decide)
  have hwhole := (@Lexeme.takeWhile_append_stop (· != '.') whole
    ('.' :: (fraction ++ exponent)) hdot (by simp)).1
  have hbar : ∀ c ∈ exponent.head?, isDigitOrBar c = false := by
    cases h with
    | none => simp
    | minus | plus => simpa using by decide
  have hfraction := (@Lexeme.takeWhile_append_stop isDigitOrBar fraction exponent
    (fun c hc => by simp [isDigitOrBar, hdigits.2 c hc]) hbar).2
  have hrun : isDigitRun whole = true := by
    obtain ⟨d, rest, rfl⟩ := List.exists_cons_of_ne_nil hne
    rw [List.forall_mem_cons] at hdigits
    simpa [isDigitRun, isDigitOrBar, hdigits.1.1] using fun c hc => .inl (hdigits.1.2 c hc)
  have hexponent : isExponent exponent = true := by
    cases h with
    | none => rfl
    | minus hne h | plus hne h => simpa [isExponent, hne] using h
  unfold isUnsignedFloat
  simp [numeral_of_ne_nil hf, hwhole, hfraction, hrun, hexponent]

/-- Digits with an exponent and no point do not have the form of an integer. -/
private theorem isUnsignedInt_numeral (hne : whole ≠ []) (hwhole : ∀ c ∈ whole, isDigit c = true)
    (hexponent : exponent ≠ []) (h : IsExponent exponent p) :
    isUnsignedInt (numeral whole [] exponent) = false := by
  have hunsigned : IsUnsigned (numeral whole [] exponent) :=
    isUnsigned_numeral hne (by simpa using hwhole) h
  have hcolon : ':' ∉ numeral whole [] exponent := hunsigned.notMem (by decide) false
  have hletter : ∃ more, exponent = 'e' :: more := by
    cases h with
    | none => exact absurd rfl hexponent
    | minus | plus => exact ⟨_, rfl⟩
  obtain ⟨d, whole, rfl⟩ := List.exists_cons_of_ne_nil hne
  obtain ⟨more, rfl⟩ := hletter
  have hmem : 'e' ∈ whole ++ 'e' :: more := by simp
  have hhead : ∀ c ∈ (whole ++ 'e' :: more).head?, isDigit c = true ∨ c = 'e' := by
    intro c hc
    cases whole with
    | nil => exact .inr (by simpa using hc.symm)
    | cons first whole => exact .inl (hwhole c (by simp_all))
  rw [numeral_nil, List.cons_append] at hcolon ⊢
  generalize whole ++ 'e' :: more = rest at hmem hhead hcolon ⊢
  have hcount : isCount (d :: rest) = false := by
    have hrest : rest.all isDigitOrBar = false := by
      rw [List.all_eq_false]
      exact ⟨'e', hmem, by decide⟩
    simp [isCount, isDigitRun, hrest]
  unfold isUnsignedInt
  split
  next heq =>
    obtain ⟨-, rfl⟩ := List.cons.inj heq
    exact absurd (hhead 'b' rfl) (by decide)
  next heq =>
    obtain ⟨-, rfl⟩ := List.cons.inj heq
    exact absurd (hhead 'x' rfl) (by decide)
  next heq =>
    obtain ⟨-, rfl⟩ := List.cons.inj heq
    cases hmem
  next heq =>
    obtain ⟨-, rfl⟩ := List.cons.inj heq
    rw [List.all_eq_false]
    exact ⟨'e', hmem, by decide⟩
  · rw [hcount, Bool.false_or, isSexagesimal, splitAtChar_of_notMem hcolon]

private theorem point_notMem_numeral (hwhole : ∀ c ∈ whole, isDigit c = true)
    (h : IsExponent exponent p) : '.' ∉ numeral whole [] exponent := by
  have hdigits {digits : List Char} (hdigits : ∀ c ∈ digits, isDigit c = true) : '.' ∉ digits :=
    fun hmem => absurd (hdigits '.' hmem) (by decide)
  rw [numeral_nil, List.mem_append, not_or]
  refine ⟨hdigits hwhole, ?_⟩
  cases h with
  | none => simp
  | minus _ h | plus _ h => simpa using hdigits h

private theorem ofParts_neg (m : Nat) (e : ℤ) : (ofParts false m e).neg = ofParts true m e := by
  unfold ofParts
  split_ifs <;> rfl

private theorem ofRatio_neg (num den : Nat) :
    (ofRatio false num den).neg = ofRatio true num den := by
  unfold ofRatio
  dsimp only
  split_ifs
  · rfl
  · exact ofParts_neg _ _
  · exact ofParts_neg _ _

private theorem toDouble_neg (coefficient : Nat) (k : ℤ) :
    (Decimal.toDouble ⟨false, coefficient, k⟩).neg = Decimal.toDouble ⟨true, coefficient, k⟩ := by
  unfold Decimal.toDouble
  dsimp only
  split_ifs
  · rfl
  · rfl
  · rfl
  · exact ofRatio_neg _ _

end Numeral

/-- The number that the text of a floating-point number denotes: the number itself if there is a
point in the text, and otherwise the text as a string. -/
def rereadFloat (x : Double) : Scalar :=
  if '.' ∈ Json.float x then .float x else .str (String.ofList (Json.float x))

private theorem scalarValue_finite {x : Double} (h : x.isFinite = true) :
    scalarValue (implicitTag x.display) x.display =
      .ok (.scalar (if '.' ∈ x.display then .float x else .str (String.ofList x.display))) := by
  obtain ⟨negative, whole, fraction, exponent, p, htext, hwhole, hshort, hdigits, hp, hvalue⟩ :=
    Double.exists_display h
  have hunsigned := isUnsigned_numeral hwhole hdigits hp
  rw [htext, hunsigned.implicitTag_signed]
  by_cases hf : fraction = []
  · subst hf
    rw [List.append_nil] at hdigits
    have hpoint := point_notMem_numeral hdigits hp
    have hsigned : '.' ∉ Double.signed negative (Double.numeral whole [] exponent) := by
      cases negative <;> simp [Double.signed, hpoint]
    rw [isUnsignedFloat_eq_false hpoint, isUnsignedInt_numeral hwhole hdigits (hshort rfl) hp,
      if_neg hsigned]
    rfl
  · have hpoint : '.' ∈ Double.signed negative (Double.numeral whole fraction exponent) := by
      rw [Double.numeral_of_ne_nil hf]
      cases negative <;> simp [Double.signed]
    rw [isUnsignedFloat_numeral hwhole hf hdigits hp, if_pos hpoint]
    show (fun x => Value.scalar (.float x)) <$> floatValue _ = _
    rw [hunsigned.floatValue_signed (Double.readUnsigned_numeral hwhole hdigits hp)]
    refine congrArg (fun x => Except.ok (Value.scalar (.float x))) ?_
    rw [← hvalue]
    cases negative with
    | false => rfl
    | true => exact toDouble_neg _ _

/-- What the text of a floating-point number denotes. -/
private theorem scalarValue_float (x : Double) :
    scalarValue (implicitTag (Json.float x)) (Json.float x) = .ok (.scalar (rereadFloat x)) := by
  cases x with
  | finite negative m e hc => exact scalarValue_finite (x := .finite negative m e hc) rfl
  | infinite negative =>
    have htag : implicitTag (Json.float (.infinite negative)) = .str := by
      cases negative <;> decide
    have hpoint : '.' ∉ Json.float (.infinite negative) := by
      cases negative <;> decide
    rw [htag, rereadFloat, if_neg hpoint]
    rfl
  | undefined =>
    have htag : implicitTag (Json.float .undefined) = .str := by decide
    have hpoint : '.' ∉ Json.float .undefined := by decide
    rw [htag, rereadFloat, if_neg hpoint]
    rfl

/-! ### Scalars that are no strings -/

/-- The scalar that the text of a scalar denotes, where strings are left out. -/
def rereadWord : Scalar → Scalar
  | .float x => rereadFloat x
  | s => s

private theorem word_int {n : Int} (h : (Value.int n).isWritable = true) :
    writeInt? n = some (Json.word (.int n)) := by
  obtain ⟨digits, hdigits⟩ := Option.isSome_iff_exists.1 (by simpa [Value.isWritable] using h)
  simp [Json.word, Json.plainScalar, Json.int, hdigits, Except.toOption]

variable {s : Scalar}

/-- **What the text of a scalar denotes.** -/
theorem scalarValue_word (hs : ∀ text, s ≠ .str text) (h : (Value.scalar s).isWritable = true) :
    scalarValue (implicitTag (Json.word s)) (Json.word s) = .ok (.scalar (rereadWord s)) := by
  cases s with
  | null => rfl
  | bool b => cases b <;> rfl
  | int n => exact scalarValue_int (word_int h)
  | float x => exact scalarValue_float x
  | str text => exact absurd rfl (hs text)

/-- The text of a scalar is a plain scalar. -/
theorem isWord_word (hs : ∀ text, s ≠ .str text) (h : (Value.scalar s).isWritable = true) :
    TokenState.IsWord (Json.word s) := by
  cases s with
  | null => exact ⟨List.all_eq_true.1 (by decide), 'n', _, by decide, .inl rfl⟩
  | bool b =>
    cases b with
    | false => exact ⟨List.all_eq_true.1 (by decide), 'f', _, by decide, .inl rfl⟩
    | true => exact ⟨List.all_eq_true.1 (by decide), 't', _, by decide, .inl rfl⟩
  | int n =>
    obtain ⟨-, hword⟩ := Option.ite_none_right_eq_some.1 (word_int h)
    rw [← Option.some.inj hword, intText_eq_signed]
    exact (isUnsigned_natText _).isWord_signed _
  | float x =>
    cases x with
    | finite negative m e hc =>
      obtain ⟨negative', whole, fraction, exponent, p, htext, hwhole, -, hdigits, hp, -⟩ :=
        Double.exists_display (x := .finite negative m e hc) rfl
      have hword : Json.word (.float (.finite negative m e hc)) =
          Double.signed negative' (Double.numeral whole fraction exponent) := htext
      rw [hword]
      exact (isUnsigned_numeral hwhole hdigits hp).isWord_signed _
    | infinite negative =>
      cases negative with
      | false => exact ⟨List.all_eq_true.1 (by decide), 'I', _, by decide, .inl rfl⟩
      | true => exact ⟨List.all_eq_true.1 (by decide), 'I', _, by decide, .inr rfl⟩
    | undefined => exact ⟨List.all_eq_true.1 (by decide), 'N', _, by decide, .inl rfl⟩
  | str text => exact absurd rfl (hs text)

end StackScript.Yaml
