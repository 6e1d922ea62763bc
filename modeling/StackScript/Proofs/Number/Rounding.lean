import Mathlib.Algebra.Order.Field.Power
import Mathlib.Data.Rat.Cast.Order
import Mathlib.Tactic.FieldSimp
import Mathlib.Tactic.Linarith
import Mathlib.Tactic.Positivity
import Mathlib.Tactic.Ring
import StackScript.Number.Double

/-!
# Rounding to the nearest double-precision number

A positive number rounds to `mantissa * 2 ^ exponent` exactly when it lies in an interval around it
that ends half way to the neighbours. The interval is half as wide below a power of two, where the
spacing of the numbers changes, and contains its ends if the mantissa is even.

## Main definitions

* `Number.Double.Near`: the numbers that round to given parts.

## Main results

* `Number.Double.roundDiv_eq`: the quotient that is rounded to.
* `Number.Double.binaryExponent_spec`: the power of two below a quotient.
* `Number.Double.ofRatio_eq_of_near`: numbers in the interval round to its centre.
-/

namespace StackScript.Number

/-- An integer power as a quotient of natural powers. -/
theorem zpow_eq_div_toNat (b : ℚ) (k : ℤ) :
    b ^ k = b ^ k.toNat / b ^ (-k).toNat := by
  obtain hk | hk := le_total 0 k
  · obtain ⟨n, rfl⟩ := Int.eq_ofNat_of_zero_le hk
    simp
  · obtain ⟨n, hn⟩ := Int.eq_ofNat_of_zero_le (Int.neg_nonneg_of_nonpos hk)
    obtain rfl : k = -(n : ℤ) := by omega
    simp

namespace Double

/-! ### Quotients -/

/-- The quotient rounds to `m` if it is no more than one half away from it; an odd `m` has to be
nearer than that. -/
theorem roundDiv_eq {num den m : ℕ} (hd : 0 < den) (hlow : 2 * (den * m) ≤ 2 * num + den)
    (hhigh : 2 * num ≤ 2 * (den * m) + den)
    (hodd : m % 2 = 1 → 2 * (den * m) < 2 * num + den ∧ 2 * num < 2 * (den * m) + den) :
    roundDiv num den = m := by
  have hsplit := Nat.div_add_mod num den
  have hmod := Nat.mod_lt num hd
  have hquotient : num / den = m ∨ num / den + 1 = m := by
    by_contra hne
    obtain h | h : m + 1 ≤ num / den ∨ num / den + 2 ≤ m := by omega
    · have := Nat.mul_le_mul_left den h
      rw [Nat.mul_add] at this
      omega
    · have := Nat.mul_le_mul_left den h
      rw [Nat.mul_add] at this
      omega
  unfold roundDiv
  dsimp only
  rcases hquotient with rfl | rfl
  · split_ifs <;> omega
  · rw [Nat.mul_add] at hlow hhigh hodd
    split_ifs <;> omega

/-- The exponent is that of the greatest power of two not above the quotient. -/
theorem binaryExponent_spec {num den : ℕ} (hn : num ≠ 0) (hd : den ≠ 0) :
    (2 : ℚ) ^ binaryExponent num den ≤ num / den ∧
      (num / den : ℚ) < 2 ^ (binaryExponent num den + 1) := by
  have hden : (0 : ℚ) < den := by positivity
  have hnum_le : (2 : ℚ) ^ num.log2 ≤ num := by exact_mod_cast Nat.log2_self_le hn
  have hnum_lt : (num : ℚ) < 2 ^ (num.log2 + 1) := by exact_mod_cast Nat.lt_log2_self
  have hden_le : (2 : ℚ) ^ den.log2 ≤ den := by exact_mod_cast Nat.log2_self_le hd
  have hden_lt : (den : ℚ) < 2 ^ (den.log2 + 1) := by exact_mod_cast Nat.lt_log2_self
  have hpower (k : ℤ) (l : ℕ) : (2 : ℚ) ^ (k - l) * 2 ^ l = 2 ^ k := by
    rw [← zpow_natCast, ← zpow_add₀ two_ne_zero, sub_add_cancel]
  have hlow : (2 : ℚ) ^ ((num.log2 : ℤ) - den.log2 - 1) ≤ num / den := by
    rw [le_div_iff₀ hden]
    calc (2 : ℚ) ^ ((num.log2 : ℤ) - den.log2 - 1) * den
        ≤ 2 ^ ((num.log2 : ℤ) - den.log2 - 1) * 2 ^ (den.log2 + 1) := by gcongr
      _ = 2 ^ ((num.log2 : ℤ) - (den.log2 + 1 : ℕ)) * 2 ^ (den.log2 + 1) := by
        congr 2
        push_cast
        ring
      _ ≤ num := by
        rw [hpower]
        exact_mod_cast hnum_le
  have hhigh : (num / den : ℚ) < 2 ^ ((num.log2 : ℤ) - den.log2 + 1) := by
    rw [div_lt_iff₀ hden]
    calc (num : ℚ) < 2 ^ (num.log2 + 1) := hnum_lt
      _ = 2 ^ ((num.log2 + 1 : ℕ) - (den.log2 : ℤ)) * 2 ^ den.log2 := by
        rw [hpower, zpow_natCast]
      _ = 2 ^ ((num.log2 : ℤ) - den.log2 + 1) * 2 ^ den.log2 := by
        congr 2
        push_cast
        ring
      _ ≤ 2 ^ ((num.log2 : ℤ) - den.log2 + 1) * den := by gcongr
  have htest (guess : ℤ) : num * 2 ^ (-guess).toNat < den * 2 ^ guess.toNat ↔
      (num / den : ℚ) < 2 ^ guess := by
    rw [zpow_eq_div_toNat, div_lt_div_iff₀ hden (by positivity), mul_comm (2 ^ _ : ℚ)]
    exact_mod_cast Iff.rfl
  unfold binaryExponent
  simp only [htest]
  split_ifs with hguess
  · exact ⟨hlow, by rwa [sub_add_cancel]⟩
  · exact ⟨le_of_not_gt hguess, hhigh⟩

/-! ### The interval around a number -/

/-- The lower end of the interval around `mantissa * 2 ^ exponent`. -/
def low (mantissa : ℕ) (exponent : ℤ) : ℚ :=
  (mantissa - if mantissa = 2 ^ 52 ∧ -1074 < exponent then 1 / 4 else 1 / 2) * 2 ^ exponent

/-- The upper end of the interval around `mantissa * 2 ^ exponent`. -/
def high (mantissa : ℕ) (exponent : ℤ) : ℚ := (mantissa + 1 / 2) * 2 ^ exponent

/-- The numbers that round to `mantissa * 2 ^ exponent`. -/
structure Near (mantissa : ℕ) (exponent : ℤ) (x : ℚ) : Prop where
  low_le : low mantissa exponent ≤ x
  le_high : x ≤ high mantissa exponent
  odd : mantissa % 2 = 1 → low mantissa exponent < x ∧ x < high mantissa exponent

variable {m : ℕ} {e : ℤ} {x : ℚ}

theorem half_le_low (m : ℕ) (e : ℤ) : ((m : ℚ) - 1 / 2) * 2 ^ e ≤ low m e := by
  unfold low
  gcongr
  split_ifs <;> norm_num

theorem low_pos (hm : m ≠ 0) : 0 < low m e := by
  refine lt_of_lt_of_le ?_ (half_le_low m e)
  have : (1 : ℚ) ≤ m := by exact_mod_cast Nat.one_le_iff_ne_zero.2 hm
  have : (0 : ℚ) < m - 1 / 2 := by linarith
  positivity

/-- The quotient of scaled numbers rounds to `m` if it is no more than one half away from it. -/
private theorem roundDiv_scaled {num den : ℕ} (hd : den ≠ 0) (E : ℤ) (m : ℕ)
    (hlow : ((m : ℚ) - 1 / 2) * 2 ^ E ≤ num / den) (hhigh : (num / den : ℚ) ≤ (m + 1 / 2) * 2 ^ E)
    (hodd : m % 2 = 1 → ((m : ℚ) - 1 / 2) * 2 ^ E < num / den ∧
      (num / den : ℚ) < (m + 1 / 2) * 2 ^ E) :
    roundDiv (num * 2 ^ (-E).toNat) (den * 2 ^ E.toNat) = m := by
  have hden : (0 : ℚ) < den := by positivity
  have hup : (0 : ℚ) < 2 ^ (-E).toNat := by positivity
  simp only [zpow_eq_div_toNat, mul_div_assoc'] at hlow hhigh hodd
  rw [div_le_div_iff₀ hup hden] at hlow
  rw [div_le_div_iff₀ hden hup] at hhigh
  rw [div_lt_div_iff₀ hup hden, div_lt_div_iff₀ hden hup] at hodd
  -- Both sides of each comparison are halves of natural numbers.
  refine roundDiv_eq (by positivity) ?_ ?_ fun h => ?_
  · have : (2 * (den * 2 ^ E.toNat * m) : ℚ) ≤ 2 * (num * 2 ^ (-E).toNat) + den * 2 ^ E.toNat := by
      linarith
    exact_mod_cast this
  · have : (2 * (num * 2 ^ (-E).toNat) : ℚ) ≤ 2 * (den * 2 ^ E.toNat * m) + den * 2 ^ E.toNat := by
      linarith
    exact_mod_cast this
  · obtain ⟨hlow, hhigh⟩ := hodd h
    have hlow' : (2 * (den * 2 ^ E.toNat * m) : ℚ) <
        2 * (num * 2 ^ (-E).toNat) + den * 2 ^ E.toNat := by linarith
    have hhigh' : (2 * (num * 2 ^ (-E).toNat) : ℚ) <
        2 * (den * 2 ^ E.toNat * m) + den * 2 ^ E.toNat := by linarith
    exact ⟨by exact_mod_cast hlow', by exact_mod_cast hhigh'⟩

private theorem exponent_lt {a b : ℤ} (h : (2 : ℚ) ^ a < 2 ^ b) : a < b :=
  (zpow_lt_zpow_iff_right₀ one_lt_two).1 h

private theorem two_zpow_add (k : ℕ) (e : ℤ) : (2 : ℚ) ^ (k + e) = 2 ^ k * 2 ^ e := by
  rw [zpow_add₀ two_ne_zero, zpow_natCast]

/-- Numbers below the least mantissa of their spacing round to that mantissa. -/
private theorem eq_two_pow_of_lt (hc : IsCanonical m e) (he : -1074 < e) (hlow : low m e ≤ x)
    (hx : x < 2 ^ ((52 : ℕ) + e)) : m = 2 ^ 52 := by
  by_contra hne
  have hm : 2 ^ 52 + 1 ≤ m := by
    have := hc.2.2.2.resolve_right (by omega)
    omega
  have hcast : ((2 : ℚ) ^ 52 + 1) ≤ m := by exact_mod_cast hm
  have hle : (2 : ℚ) ^ ((52 : ℕ) + e) ≤ low m e := by
    refine le_trans ?_ (half_le_low m e)
    rw [two_zpow_add]
    gcongr
    linarith
  exact absurd (hle.trans hlow) (not_le.2 hx)

/-- The lower end below a power of two, in units of the spacing there. -/
private theorem low_two_pow (he : -1074 < e) :
    low (2 ^ 52) e = ((2 ^ 53 : ℕ) - 1 / 2) * 2 ^ (e - 1) := by
  rw [low, if_pos ⟨rfl, he⟩, zpow_sub₀ two_ne_zero]
  push_cast
  ring

/-- The scale of numbers below a power of two that round up to it is the finer one. -/
private theorem scale_of_lt {b : ℤ} (hbelow : (2 : ℚ) ^ b ≤ x) (habove : x < 2 ^ (b + 1))
    (he : -1074 < e) (hlow : low (2 ^ 52) e ≤ x) (hx : x < 2 ^ ((52 : ℕ) + e)) :
    max (b - 52) (-1074) = e - 1 := by
  have hlt := exponent_lt (hbelow.trans_lt hx)
  have hle : (2 : ℚ) ^ ((51 : ℕ) + e) ≤ low (2 ^ 52) e := by
    rw [low_two_pow he, two_zpow_add, zpow_sub₀ two_ne_zero]
    have : (0 : ℚ) < 2 ^ e := by positivity
    push_cast
    linarith
  have hlt' := exponent_lt ((hle.trans hlow).trans_lt habove)
  push_cast at hlt hlt'
  omega

/-- The scale of all other numbers in the interval is that of its centre. -/
private theorem scale_of_near {b : ℤ} (hbelow : (2 : ℚ) ^ b ≤ x) (habove : x < 2 ^ (b + 1))
    (hc : IsCanonical m e) (h : Near m e x) (hx : -1074 < e → 2 ^ ((52 : ℕ) + e) ≤ x) :
    max (b - 52) (-1074) = e := by
  have hhigh : high m e < 2 ^ ((53 : ℕ) + e) := by
    rw [high, two_zpow_add]
    gcongr
    have : (m : ℚ) + 1 ≤ 2 ^ 53 := by exact_mod_cast hc.1
    linarith
  have hlt := exponent_lt ((hbelow.trans h.le_high).trans_lt hhigh)
  obtain ⟨-, hleast, -, -⟩ := hc
  push_cast at hlt
  obtain heq | hlt' := hleast.eq_or_lt
  · omega
  · have := exponent_lt ((hx hlt').trans_lt habove)
    push_cast at this
    omega

/-- **A number in the interval rounds to its centre.** -/
theorem ofRatio_eq_of_near {negative : Bool} {num den : ℕ} (hc : IsCanonical m e) (hm : m ≠ 0)
    (hd : den ≠ 0) (h : Near m e (num / den)) :
    ofRatio negative num den = .finite negative m e hc := by
  have hpositive : (0 : ℚ) < num / den := (low_pos hm).trans_le h.low_le
  have hnum : num ≠ 0 := by
    rintro rfl
    simp at hpositive
  obtain ⟨hbelow, habove⟩ := binaryExponent_spec hnum hd
  unfold ofRatio
  rw [if_neg hnum]
  by_cases hspacing : -1074 < e ∧ (num / den : ℚ) < 2 ^ ((52 : ℕ) + e)
  · -- Below a power of two the quotient is scaled once more, and rounds up to the power.
    obtain ⟨he, hx⟩ := hspacing
    obtain rfl := eq_two_pow_of_lt hc he h.low_le hx
    have hscale := scale_of_lt hbelow habove he h.low_le hx
    have hround := roundDiv_scaled hd (e - 1) (2 ^ 53) (low_two_pow he ▸ h.low_le)
      (hx.le.trans ?_) (fun h => absurd h (by norm_num))
    · simp only [hscale, hround, if_true, sub_add_cancel, ofParts, hc, dif_pos]
    · rw [two_zpow_add, zpow_sub₀ two_ne_zero]
      have : (0 : ℚ) < 2 ^ e := by positivity
      push_cast
      linarith
  · -- Everywhere else the scale is that of the parts.
    have hscale := scale_of_near hbelow habove hc h fun he =>
      le_of_not_gt fun hx => hspacing ⟨he, hx⟩
    have hround := roundDiv_scaled hd e m ((half_le_low m e).trans h.low_le) h.le_high
      fun hodd => ⟨(half_le_low m e).trans_lt (h.odd hodd).1, (h.odd hodd).2⟩
    have hne : m ≠ 2 ^ 53 := hc.1.ne
    simp only [hscale, hround, hne, if_false, ofParts, hc, dif_pos]

end Double

end StackScript.Number
