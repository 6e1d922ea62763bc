import StackScript.Proofs.Number.Positional

/-!
# Displayed floating-point numbers

A finite number is displayed by digits, with a point among them or not, and an exponent or none. It
is a numeral that denotes the number again. The decimal that it is read as has the shortest digits
of the number, so that working the exponent in gives the positional notation.

## Main definitions

* `Number.Double.numeral`: digits with an optional point and an exponent.
* `Number.Double.IsExponent`: the exponents of numerals.
* `Number.Double.StandsFor`: the rational number that a text stands for.

## Main results

* `Number.Double.exists_display`: the numeral of a finite number.
* `Number.Double.readUnsigned_numeral`: numerals are read exactly.
* `Number.Double.fixedPoint_eq_positional`: the exponent is worked in.
* `Number.Double.exists_standsFor`: the positional notation stands for the displayed number.
-/

namespace StackScript.Number.Double

/-- Digits, a point if more digits follow it, and an exponent. -/
def numeral (whole fraction exponent : List Char) : List Char :=
  whole ++ ((if fraction.isEmpty then [] else '.' :: fraction) ++ exponent)

/-- The exponent of a numeral and its value: nothing, or the letter, a sign and digits. -/
inductive IsExponent : List Char → ℤ → Prop
  | none : IsExponent [] 0
  | minus {digits : List Char} (hne : digits ≠ []) (h : ∀ c ∈ digits, isDigit c = true) :
      IsExponent ('e' :: '-' :: digits) (-(digitsValue digits))
  | plus {digits : List Char} (hne : digits ≠ []) (h : ∀ c ∈ digits, isDigit c = true) :
      IsExponent ('e' :: '+' :: digits) (digitsValue digits)

variable {exponent : List Char} {p : ℤ}

theorem IsExponent.readExponent_eq (h : IsExponent exponent p) :
    Decimal.readExponent? exponent = some p := by
  cases h with
  | none => rfl
  | minus hne h | plus hne h => simpa [Decimal.readExponent?, Decimal.splitSign, hne] using h

theorem IsExponent.head?_ne (h : IsExponent exponent p) :
    ∀ c ∈ exponent.head?, isDigit c = false ∧ c ≠ '.' := by
  cases h with
  | none => simp
  | minus | plus => simpa using by decide

theorem numeral_nil (whole exponent : List Char) : numeral whole [] exponent = whole ++ exponent :=
  rfl

theorem numeral_of_ne_nil {fraction : List Char} (h : fraction ≠ []) (whole exponent : List Char) :
    numeral whole fraction exponent = whole ++ '.' :: (fraction ++ exponent) := by
  simp [numeral, h]

/-- A numeral is read exactly. -/
theorem readUnsigned_numeral {negative : Bool} {whole fraction : List Char} (hne : whole ≠ [])
    (hdigits : ∀ c ∈ whole ++ fraction, isDigit c = true) (h : IsExponent exponent p) :
    Decimal.readUnsigned? negative (numeral whole fraction exponent) =
      some ⟨negative, digitsValue (whole ++ fraction), p - fraction.length⟩ := by
  rw [List.forall_mem_append] at hdigits
  have hstop {cs : List Char} (hcs : ∀ c ∈ cs, isDigit c = true) :=
    @Lexeme.takeWhile_append_stop _ _ exponent hcs fun c hc => (h.head?_ne c hc).1
  unfold Decimal.readUnsigned?
  by_cases hf : fraction = []
  · subst hf
    have hpoint : ∀ rest, exponent = '.' :: rest → False := by
      rintro rest rfl
      exact (h.head?_ne '.' rfl).2 rfl
    simp [numeral_nil, hstop hdigits.1, hne, h.readExponent_eq]
  · have hwhole := @Lexeme.takeWhile_append_stop _ _ ('.' :: (fraction ++ exponent)) hdigits.1
      (by simpa using by decide)
    simp [numeral_of_ne_nil hf, hwhole, hstop hdigits.2, hne, h.readExponent_eq]

/-! ### The numeral of a number -/

private theorem isExponent_text (power : ℤ) :
    IsExponent ('e' :: (if power < 0 then '-' else '+') ::
      (List.replicate (2 - (natText power.natAbs).length) '0' ++ natText power.natAbs)) power := by
  generalize hpadded : List.replicate (2 - (natText power.natAbs).length) '0' ++
    natText power.natAbs = padded
  have hne : padded ≠ [] := by
    rw [← hpadded]
    simp [natText_ne_nil]
  have hdigits : ∀ c ∈ padded, isDigit c = true := by
    rw [← hpadded, List.forall_mem_append]
    refine ⟨fun c hc => ?_, fun c => isDigit_of_mem_natText⟩
    rw [List.eq_of_mem_replicate hc]
    decide
  have hvalue : digitsValue padded = power.natAbs := by
    rw [← hpadded, digitsValue_append, digitsValue_replicate_zero, digitsValue_natText]
    omega
  split_ifs with hpower
  · have := IsExponent.minus hne hdigits
    rwa [hvalue, show -(power.natAbs : ℤ) = power by omega] at this
  · have := IsExponent.plus hne hdigits
    rwa [hvalue, show (power.natAbs : ℤ) = power by omega] at this

/-- A number other than zero is written with an exponent by a numeral. -/
private theorem exists_exponentText (n : ℕ) (k : ℤ) :
    ∃ whole fraction exponent p, exponentText n k = numeral whole fraction exponent ∧
      whole ≠ [] ∧ exponent ≠ [] ∧ (∀ c ∈ whole ++ fraction, isDigit c = true) ∧
      IsExponent exponent p ∧ digitsValue (whole ++ fraction) = n ∧ p - fraction.length = k := by
  obtain ⟨d, more, htext⟩ := List.exists_cons_of_ne_nil (natText_ne_nil n)
  refine ⟨[d], more, _, _, ?_, by simp, by simp, ?_, isExponent_text (k + more.length), ?_,
    Int.add_sub_cancel _ _⟩
  · unfold exponentText
    rw [htext]
    have hpower : k + ((d :: more).length : ℤ) - 1 = k + more.length := by
      rw [List.length_cons]
      omega
    dsimp only
    rw [hpower]
    cases more <;> rfl
  · rw [List.singleton_append, ← htext]
    exact fun c => isDigit_of_mem_natText
  · rw [List.singleton_append, ← htext, digitsValue_natText]

theorem display_finite (negative : Bool) (m : ℕ) (e : ℤ) (hc : IsCanonical m e) :
    display (.finite negative m e hc) =
      signed negative (if shownPositional (shortest m e).1 (shortest m e).2 then
        positionalText (shortest m e).1 (shortest m e).2
      else exponentText (shortest m e).1 (shortest m e).2) := rfl

/-- **The numeral of a finite number denotes the number.** -/
theorem exists_display {x : Double} (h : x.isFinite = true) :
    ∃ negative whole fraction exponent p,
      x.display = signed negative (numeral whole fraction exponent) ∧ whole ≠ [] ∧
      (fraction = [] → exponent ≠ []) ∧ (∀ c ∈ whole ++ fraction, isDigit c = true) ∧
      IsExponent exponent p ∧
      Decimal.toDouble ⟨negative, digitsValue (whole ++ fraction), p - fraction.length⟩ = x := by
  cases x with
  | infinite | undefined => cases h
  | finite negative m e hc =>
    by_cases hshown : shownPositional (shortest m e).1 (shortest m e).2 = true
    · obtain ⟨negative', whole, fraction, htext, hwhole, hfraction, hdigits, hvalue⟩ :=
        exists_positional (x := .finite negative m e hc) rfl
      refine ⟨negative', whole, fraction, [], 0, ?_, hwhole, fun hnil => absurd hnil hfraction,
        hdigits, .none, by rwa [Int.zero_sub]⟩
      rw [numeral_of_ne_nil hfraction, List.append_nil, ← htext, display_finite, if_pos hshown]
      rfl
    · obtain ⟨whole, fraction, exponent, p, htext, hwhole, hexponent, hdigits, hp, hvalue,
        hpower⟩ := exists_exponentText (shortest m e).1 (shortest m e).2
      have hm : m ≠ 0 := by
        rintro rfl
        exact hshown rfl
      refine ⟨negative, whole, fraction, exponent, p, ?_, hwhole, fun _ => hexponent, hdigits, hp,
        ?_⟩
      · rw [display_finite, if_neg hshown, htext]
      · refine toDouble_eq_of_near hc hm ?_
        rw [hvalue, hpower]
        exact near_shortest hc hm

/-! ### Fixed-point notation -/

/-- The decimal of a numeral after a sign. -/
theorem read?_signed_numeral {negative : Bool} {whole fraction : List Char} (hne : whole ≠ [])
    (hdigits : ∀ c ∈ whole ++ fraction, isDigit c = true) (h : IsExponent exponent p) :
    Decimal.read? (signed negative (numeral whole fraction exponent)) =
      some ⟨negative, digitsValue (whole ++ fraction), p - fraction.length⟩ := by
  rw [Decimal.read?, numeral, splitSign_signed negative hne (List.forall_mem_append.1 hdigits).1]
  exact readUnsigned_numeral hne hdigits h

/-- With an exponent the digits of a decimal are read back, and their power of ten. -/
private theorem read?_exponentText (negative : Bool) (n : ℕ) (k : ℤ) :
    Decimal.read? (signed negative (exponentText n k)) = some ⟨negative, n, k⟩ := by
  obtain ⟨whole, fraction, exponent, p, htext, hwhole, -, hdigits, hp, hvalue, hpower⟩ :=
    exists_exponentText n k
  rw [htext, read?_signed_numeral hwhole hdigits hp, hvalue, hpower]

private theorem mem_exponentText (n : ℕ) (k : ℤ) : 'e' ∈ exponentText n k := by
  unfold exponentText
  simp

private theorem notMem_signed {c : Char} {text : List Char} (negative : Bool) (hc : c ≠ '-')
    (h : c ∉ text) : c ∉ signed negative text := by
  cases negative with
  | false => exact h
  | true => exact List.not_mem_cons_of_ne_of_not_mem hc h

private theorem signed_append (negative : Bool) (a b : List Char) :
    signed negative a ++ b = signed negative (a ++ b) := by
  cases negative <;> rfl

private theorem pointed_of_mem {text : List Char} (h : '.' ∈ text) : pointed text = text :=
  if_pos (List.contains_iff_mem.2 h)

private theorem pointed_of_notMem {text : List Char} (h : '.' ∉ text) :
    pointed text = text ++ ['.', '0'] :=
  if_neg fun hpoint => h (List.contains_iff_mem.1 hpoint)

private theorem ne_of_isDigit {c d : Char} (hc : isDigit c = true) (hd : isDigit d = false) :
    c ≠ d := by
  rintro rfl
  exact absurd hc (by simp [hd])

/-- Positional notation has a point and no letters. -/
private theorem signs_positionalText (n : ℕ) (k : ℤ) :
    '.' ∈ positionalText n k ∧ 'e' ∉ positionalText n k ∧ 'E' ∉ positionalText n k := by
  obtain ⟨whole, fraction, htext, -, -, hdigits, -⟩ := exists_positionalText n k
  rw [List.forall_mem_append] at hdigits
  have hletter {c : Char} (hc : isDigit c = false) (hpoint : c ≠ '.') :
      c ∉ whole ++ '.' :: fraction := by
    rw [List.mem_append, List.mem_cons]
    rintro (h | h | h)
    · exact ne_of_isDigit (hdigits.1 c h) hc rfl
    · exact hpoint h
    · exact ne_of_isDigit (hdigits.2 c h) hc rfl
  rw [htext]
  exact ⟨by simp, hletter (by decide) (by decide), hletter (by decide) (by decide)⟩

/-- A decimal other than zero is written in positional notation, once it has a point. -/
theorem pointed_fixedPoint {n : ℕ} (hn : n ≠ 0) (negative : Bool) (k : ℤ) :
    pointed (Decimal.fixedPoint ⟨negative, n, k⟩) = signed negative (positionalText n k) := by
  unfold Decimal.fixedPoint positionalText
  dsimp only
  rw [if_neg hn]
  by_cases hk : k < 0
  · rw [if_pos hk, if_neg (not_le.2 hk)]
    refine pointed_of_mem (mem_signed negative ?_)
    simp [withPoint]
  · have hdigits : '.' ∉ natText n ++ List.replicate k.toNat '0' := by
      rw [List.mem_append, not_or]
      constructor
      · exact fun h => ne_of_isDigit (isDigit_of_mem_natText h) (by decide) rfl
      · exact fun h => absurd (List.eq_of_mem_replicate h) (by decide)
    rw [if_neg hk, if_pos (not_lt.1 hk),
      pointed_of_notMem (notMem_signed negative (by decide) hdigits), signed_append]

private theorem fixedPoint_of_notMem {x : Double} (hsmall : 'e' ∉ x.display)
    (hlarge : 'E' ∉ x.display) : x.fixedPoint = pointed x.display := by
  simp [fixedPoint, hsmall, hlarge]

private theorem fixedPoint_of_mem {x : Double} {d : Decimal} (h : 'e' ∈ x.display)
    (hread : Decimal.read? x.display = some d) : x.fixedPoint = pointed d.fixedPoint := by
  simp [fixedPoint, h, hread]

/-- **Working the exponent in gives the positional notation**, whatever the number is displayed
like. -/
theorem fixedPoint_eq_positional (x : Double) : x.fixedPoint = x.positional := by
  cases x with
  | infinite negative => cases negative <;> decide
  | undefined => decide
  | finite negative m e hc =>
    have hdisplay := display_finite negative m e hc
    by_cases hshown : shownPositional (shortest m e).1 (shortest m e).2 = true
    · obtain ⟨hpoint, hsmall, hlarge⟩ := signs_positionalText (shortest m e).1 (shortest m e).2
      rw [if_pos hshown] at hdisplay
      rw [fixedPoint_of_notMem, hdisplay]
      · exact pointed_of_mem (mem_signed negative hpoint)
      · exact hdisplay ▸ notMem_signed negative (by decide) hsmall
      · exact hdisplay ▸ notMem_signed negative (by decide) hlarge
    · have hcoefficient : (shortest m e).1 ≠ 0 := by
        intro hzero
        simp [shownPositional, hzero] at hshown
      rw [if_neg hshown] at hdisplay
      rw [fixedPoint_of_mem (hdisplay ▸ mem_signed negative (mem_exponentText _ _))
        (hdisplay ▸ read?_exponentText negative _ _)]
      exact pointed_fixedPoint hcoefficient negative _

/-! ### Exact values -/

/-- A text with a sign stands for a rational number, which is not rounded. -/
def StandsFor (text : List Char) (q : ℚ) : Prop :=
  ∃ d, Decimal.read? text = some d ∧
    q = (if d.negative then -1 else 1) * (d.coefficient * 10 ^ d.exponent)

private theorem standsFor_numeral {negative : Bool} {whole fraction : List Char} (hne : whole ≠ [])
    (hdigits : ∀ c ∈ whole ++ fraction, isDigit c = true) (h : IsExponent exponent p) :
    StandsFor (signed negative (numeral whole fraction exponent)) ((if negative then -1 else 1) *
      (digitsValue (whole ++ fraction) * 10 ^ (p - fraction.length))) := by
  exact ⟨_, read?_signed_numeral hne hdigits h, rfl⟩

/-- **The positional notation of a number is exact**: it stands for the number that the displayed
text stands for. -/
theorem exists_standsFor {x : Double} (h : x.isFinite = true) :
    ∃ q, StandsFor x.display q ∧ StandsFor x.positional q := by
  cases x with
  | infinite | undefined => cases h
  | finite negative m e hc =>
    obtain ⟨whole, fraction, htext, hwhole, hfraction, hdigits, hvalue⟩ :=
      exists_positionalText (shortest m e).1 (shortest m e).2
    have hpositional := @standsFor_numeral _ _ negative _ _ hwhole hdigits .none
    rw [numeral_of_ne_nil hfraction, List.append_nil, ← htext, Int.zero_sub, hvalue] at hpositional
    refine ⟨_, ?_, hpositional⟩
    by_cases hshown : shownPositional (shortest m e).1 (shortest m e).2 = true
    · rwa [display_finite, if_pos hshown]
    · obtain ⟨whole, fraction, exponent, p, htext, hwhole, -, hdigits, hp, hvalue, hpower⟩ :=
        exists_exponentText (shortest m e).1 (shortest m e).2
      have hexponent := @standsFor_numeral _ _ negative _ _ hwhole hdigits hp
      rw [hvalue, hpower] at hexponent
      rwa [display_finite, if_neg hshown, htext]

end StackScript.Number.Double
