import StackScript.Grammar.Expression
import Mathlib.Algebra.Group.Nat.Defs
import Mathlib.Data.List.TakeWhile

/-!
# Decimal digits and integers

The digits of a number are read as that number, and digits never denote more than their number
allows. Hence integers are read as they are written, and an integer that was read can be written.

## Main results

* `Number.digitsValue_natText`: the digits of a number denote it.
* `Number.digitsValue_lt`: a bound by the number of digits.
* `Reader.numberValue_writeInt`: integers are read back.
* `Reader.writeInt_isSome`: integers that are read are not too long to be written.
-/

namespace StackScript

namespace Number

theorem digitsValue_append (whole fraction : List Char) :
    digitsValue (whole ++ fraction) =
      10 ^ fraction.length * digitsValue whole + digitsValue fraction := by
  change Nat.ofDigitChars 10 (whole ++ fraction) 0 = _
  rw [Nat.ofDigitChars_append, Nat.ofDigitChars_eq_ofDigitChars_zero]
  rfl

@[simp] theorem digitsValue_natText (n : Nat) : digitsValue (natText n) = n :=
  Nat.ofDigitChars_ten_toDigits

@[simp] theorem digitsValue_replicate_zero (k : Nat) :
    digitsValue (List.replicate k '0') = 0 := by
  change Nat.ofDigitChars 10 (List.replicate k '0') 0 = 0
  rw [Nat.ofDigitChars_replicate_zero, Nat.mul_zero]

theorem isDigit_of_mem_natText {n : Nat} {c : Char} (h : c ∈ natText n) : isDigit c = true :=
  Nat.isDigit_of_mem_toDigits (by decide) (by decide) h

theorem natText_ne_nil (n : Nat) : natText n ≠ [] := Nat.toDigits_ne_nil

theorem digitsValue_lt {cs : List Char} (h : ∀ c ∈ cs, isDigit c = true) :
    digitsValue cs < 10 ^ cs.length := by
  induction cs with
  | nil => decide
  | cons c cs ih =>
    obtain ⟨hc, hcs⟩ := List.forall_mem_cons.1 h
    have hlt := ih hcs
    have hdigit : digitsValue [c] ≤ 9 := by
      have hle : c.toNat ≤ 57 := by
        simp only [isDigit, Bool.and_eq_true, decide_eq_true_eq] at hc
        exact hc.2
      simp only [digitsValue, List.foldl_cons, List.foldl_nil]
      change 10 * 0 + (c.toNat - 48) ≤ 9
      omega
    have hsplit := digitsValue_append [c] cs
    rw [List.singleton_append] at hsplit
    rw [hsplit, List.length_cons, Nat.pow_succ]
    calc 10 ^ cs.length * digitsValue [c] + digitsValue cs
        < 10 ^ cs.length * digitsValue [c] + 10 ^ cs.length := by omega
      _ ≤ 10 ^ cs.length * 10 := by
        rw [← Nat.mul_succ]
        exact Nat.mul_le_mul_left _ (by omega)

/-- The digits of a number that is denoted by digits are no more than those. -/
theorem length_natText_digitsValue_le {cs : List Char} {k : Nat} (hk : 0 < k)
    (h : ∀ c ∈ cs, isDigit c = true) (hle : cs.length ≤ k) :
    (natText (digitsValue cs)).length ≤ k := by
  rw [natText, Nat.length_toDigits_le_iff (by decide) hk]
  exact (digitsValue_lt h).trans_le (Nat.pow_le_pow_right (by decide) hle)

/-- What starts with a digit has no sign. -/
theorem splitSign_of_isDigit {cs : List Char} (h : ∀ c ∈ cs.head?, isDigit c = true) :
    Decimal.splitSign cs = (false, cs) := by
  unfold Decimal.splitSign
  split
  · exact absurd (h '-' rfl) (by decide)
  · exact absurd (h '+' rfl) (by decide)
  · rfl

/-- There is no point among the digits of an integer. -/
theorem point_notMem_intText (n : Int) : '.' ∉ intText n := by
  intro hmem
  have hdigit {k : Nat} (h : '.' ∈ natText k) : False :=
    absurd (isDigit_of_mem_natText h) (by decide)
  cases n with
  | ofNat n => exact hdigit hmem
  | negSucc n => exact hdigit ((List.mem_cons.1 hmem).resolve_left (by decide))

theorem splitSign_intText (n : Int) :
    Decimal.splitSign (intText n) = (decide (n < 0), natText n.natAbs) := by
  cases n with
  | ofNat n =>
    rw [intText, splitSign_of_isDigit fun _ h => isDigit_of_mem_natText (List.mem_of_mem_head? h)]
    simp
  | negSucc n => simp [intText, Decimal.splitSign]

end Number

namespace Reader

open Number

/-- Integers are read back. -/
theorem numberValue_writeInt {n : Int} {text : List Char} (h : writeInt? n = some text) :
    numberValue text = some (.int n) := by
  unfold writeInt? at h
  split_ifs at h with hlength
  cases h
  have hpoint : (intText n).contains '.' = false := by
    rw [List.contains_eq_mem, decide_eq_false_iff_not]
    exact point_notMem_intText n
  unfold numberValue
  rw [hpoint, splitSign_intText]
  simp only [Bool.false_eq_true, if_false, if_neg (Nat.not_lt.2 hlength), digitsValue_natText]
  by_cases hneg : n < 0
  · simp only [hneg, decide_true, if_true, Option.some.injEq, Scalar.int.injEq]
    omega
  · simp only [hneg, decide_false, Bool.false_eq_true, if_false, Option.some.injEq,
      Scalar.int.injEq]
    omega

/-- Integers that are read are not too long to be written. -/
theorem writeInt_isSome {text : List Char} {n : Int} (h : numberValue text = some (.int n))
    (hdigits : ∀ c ∈ (Decimal.splitSign text).2, isDigit c = true ∨ c = '.') :
    (writeInt? n).isSome = true := by
  unfold numberValue at h
  by_cases hpoint : text.contains '.' = true
  · rw [if_pos hpoint] at h
    obtain ⟨d, -, hd⟩ := Option.map_eq_some_iff.1 h
    cases hd
  rw [if_neg hpoint] at h
  by_cases hlength : maxIntegerDigits < (Decimal.splitSign text).2.length
  · simp [hlength] at h
  · have hall : ∀ c ∈ (Decimal.splitSign text).2, isDigit c = true := by
      intro c hc
      refine (hdigits c hc).resolve_right fun heq => hpoint ?_
      rw [List.contains_iff_mem]
      subst heq
      unfold Decimal.splitSign at hc
      split at hc
      · exact List.mem_cons_of_mem _ hc
      · exact List.mem_cons_of_mem _ hc
      · exact hc
    have habs : n.natAbs = digitsValue (Decimal.splitSign text).2 := by
      simp only [if_neg hlength, Option.some.injEq, Scalar.int.injEq] at h
      split_ifs at h <;> omega
    rw [writeInt?, habs, if_pos (length_natText_digitsValue_le (by decide) hall
      (Nat.le_of_not_lt hlength))]
    rfl

end Reader

end StackScript
