import Mathlib.Data.Nat.Cast.Order.Field
import StackScript.Number.Shortest
import StackScript.Proofs.Number.Digits
import StackScript.Proofs.Number.Rounding
import StackScript.Proofs.Token.Scan

/-!
# Floating-point numbers in positional notation

The shown decimal of a number lies in the interval of the numbers that round to it: with seventeen
digits the grid of decimals is finer than the interval is wide, so that the search ends at the
latest there. Digits with a point among them are read exactly, hence every finite number is read
back from its positional notation.

## Main definitions

* `Number.Double.positional`: the text of a number without an exponent.

## Main results

* `Number.Double.holds_onGrid_iff`: the grid points in the window of a number.
* `Number.Double.near_shortest`: the shown decimal rounds to the number.
* `Reader.numberValue_positional`: finite numbers are read back.
-/

namespace StackScript

namespace Number

/-! ### Digits -/

theorem pow_le_of_length_natText {n : ℕ} (hn : n ≠ 0) : 10 ^ ((natText n).length - 1) ≤ n := by
  by_contra hlt
  by_cases hlength : 0 < (natText n).length - 1
  · have := (Nat.length_toDigits_le_iff (by decide) hlength).2 (Nat.lt_of_not_le hlt)
    have hpos : 0 < (natText n).length := List.length_pos_iff.2 (natText_ne_nil n)
    simp only [natText] at this hpos
    omega
  · rw [Nat.eq_zero_of_not_pos hlength] at hlt
    omega

theorem lt_pow_length_natText (n : ℕ) : n < 10 ^ (natText n).length :=
  (Nat.length_toDigits_le_iff (by decide) (List.length_pos_iff.2 (natText_ne_nil n))).1 le_rfl

namespace Double

variable {m : ℕ} {e : ℤ}

/-! ### The window on a grid -/

private theorem le_grid_iff {a den : ℕ} (hd : den ≠ 0) (n : ℕ) (k : ℤ) :
    a * 10 ^ (-k).toNat ≤ n * (den * 10 ^ k.toNat) ↔ (a / den : ℚ) ≤ n * 10 ^ k := by
  have hden : (0 : ℚ) < den := by positivity
  rw [zpow_eq_div_toNat, mul_div_assoc', div_le_div_iff₀ hden (by positivity)]
  rw [show (n * 10 ^ k.toNat * den : ℚ) = n * (den * 10 ^ k.toNat) by ring]
  exact_mod_cast Iff.rfl

private theorem grid_le_iff {a den : ℕ} (hd : den ≠ 0) (n : ℕ) (k : ℤ) :
    n * (den * 10 ^ k.toNat) ≤ a * 10 ^ (-k).toNat ↔ (n * 10 ^ k : ℚ) ≤ a / den := by
  have hden : (0 : ℚ) < den := by positivity
  rw [zpow_eq_div_toNat, mul_div_assoc', div_le_div_iff₀ (by positivity) hden]
  rw [show (n * 10 ^ k.toNat * den : ℚ) = n * (den * 10 ^ k.toNat) by ring]
  exact_mod_cast Iff.rfl

theorem window_den_ne_zero (m : ℕ) (e : ℤ) : (window m e).den ≠ 0 := by
  simp [window]

private theorem window_scale (e : ℤ) :
    ((2 ^ (e - 2).toNat : ℕ) : ℚ) / (2 ^ (2 - e).toNat : ℕ) = 2 ^ e / 4 := by
  have h := zpow_eq_div_toNat 2 (e - 2)
  rw [neg_sub] at h
  push_cast
  rw [← h, zpow_sub₀ two_ne_zero]
  norm_num

theorem window_value (m : ℕ) (e : ℤ) :
    ((window m e).value / (window m e).den : ℚ) = m * 2 ^ e := by
  have h := window_scale e
  simp only [window, Nat.cast_mul, mul_div_assoc, h]
  push_cast
  ring

theorem window_high (m : ℕ) (e : ℤ) :
    ((window m e).high / (window m e).den : ℚ) = high m e := by
  have h := window_scale e
  simp only [window, high, Nat.cast_mul, mul_div_assoc, h]
  push_cast
  ring

theorem window_low (hm : m ≠ 0) : ((window m e).low / (window m e).den : ℚ) = low m e := by
  have h := window_scale e
  have hgap (gap : ℕ) (hg : gap ≤ 2) : ((4 * m - gap : ℕ) : ℚ) = 4 * m - gap := by
    rw [Nat.cast_sub (by omega)]
    push_cast
    ring
  simp only [window, low, Nat.cast_mul, mul_div_assoc, h]
  split_ifs
  · rw [hgap 1 (by omega)]
    push_cast
    ring
  · rw [hgap 2 (by omega)]
    push_cast
    ring

/-- The grid points in the window of a number are those that round to it. -/
theorem holds_onGrid_iff (hm : m ≠ 0) (k : ℤ) (n : ℕ) :
    ((window m e).onGrid k).holds n = true ↔ Near m e (n * 10 ^ k) := by
  have hd := window_den_ne_zero m e
  have hlow := le_grid_iff (a := (window m e).low) hd n k
  have hhigh := grid_le_iff (a := (window m e).high) hd n k
  have hlow' := lt_iff_lt_of_le_iff_le (grid_le_iff (a := (window m e).low) hd n k)
  have hhigh' := lt_iff_lt_of_le_iff_le (le_grid_iff (a := (window m e).high) hd n k)
  rw [window_low hm] at hlow hlow'
  rw [window_high] at hhigh hhigh'
  unfold Window.holds Window.onGrid
  dsimp only
  by_cases hodd : m % 2 = 1
  · have hclosed : (window m e).closed = false := by simp [window, hodd]
    rw [hclosed]
    simp only [Bool.false_eq_true, if_false, Bool.and_eq_true, decide_eq_true_eq, hlow', hhigh']
    exact ⟨fun h => ⟨h.1.le, h.2.le, fun _ => h⟩, fun h => h.odd hodd⟩
  · have hclosed : (window m e).closed = true := by
      simp only [window, beq_iff_eq]
      omega
    rw [hclosed]
    simp only [if_true, Bool.and_eq_true, decide_eq_true_eq, hlow, hhigh]
    exact ⟨fun h => ⟨h.1, h.2, fun h => absurd h hodd⟩, fun h => ⟨h.low_le, h.le_high⟩⟩

theorem roundDiv_cases (num den : ℕ) :
    roundDiv num den = num / den ∨ roundDiv num den = num / den + 1 := by
  unfold roundDiv
  dsimp only
  split_ifs <;> simp

/-- What is picked lies in the window. -/
theorem Window.holds_of_pick {w : Window} {n : ℕ} (h : w.pick? = some n) : w.holds n = true := by
  unfold Window.pick? at h
  dsimp only at h
  split at h
  next hbelow habove =>
    cases h
    obtain heq | heq := roundDiv_cases w.value w.den
    · rwa [heq]
    · rwa [heq]
  next hbelow _ =>
    cases h
    exact hbelow
  next _ habove =>
    cases h
    exact habove
  · cases h

theorem Window.holds_eq_false_of_pick {w : Window} (h : w.pick? = none) :
    w.holds (w.value / w.den) = false ∧ w.holds (w.value / w.den + 1) = false := by
  unfold Window.pick? at h
  dsimp only at h
  split at h
  · cases h
  · cases h
  · cases h
  next hbelow habove => exact ⟨hbelow, habove⟩

/-! ### The search -/

/-- The power of ten is not above the quotient. -/
theorem decimalExponent_le {num den : ℕ} (hn : num ≠ 0) (hd : den ≠ 0) :
    (10 : ℚ) ^ decimalExponent num den ≤ num / den := by
  have hnum : (0 : ℚ) < num := by positivity
  have hden : (0 : ℚ) < den := by positivity
  unfold decimalExponent
  by_cases hle : den ≤ num
  · rw [if_pos hle]
    have hquotient : num / den ≠ 0 := (Nat.div_pos hle (Nat.pos_of_ne_zero hd)).ne'
    have hlength := List.length_pos_iff.2 (natText_ne_nil (num / den))
    obtain ⟨size, hsize⟩ := Nat.exists_eq_add_of_le' hlength
    have hpow := pow_le_of_length_natText hquotient
    rw [hsize] at hpow ⊢
    calc (10 : ℚ) ^ (((size + 1 : ℕ) : ℤ) - 1) = (10 ^ size : ℕ) := by
          rw [show ((size + 1 : ℕ) : ℤ) - 1 = size by push_cast; ring, zpow_natCast]
          push_cast
          ring
      _ ≤ (num / den : ℕ) := by exact_mod_cast hpow
      _ ≤ num / den := Nat.cast_div_le
  · have hinverse (size : ℕ) (h : den ≤ num * 10 ^ size) :
        (10 : ℚ) ^ (-(size : ℤ)) ≤ num / den := by
      rw [zpow_neg, zpow_natCast, ← one_div, div_le_div_iff₀ (by positivity) hden, one_mul]
      exact_mod_cast h
    rw [if_neg hle]
    dsimp only
    split_ifs with hpow
    · exact hinverse _ hpow
    · have hlt := (Nat.div_lt_iff_lt_mul (Nat.pos_of_ne_zero hn)).1
        (lt_pow_length_natText (den / num))
      have hlength := List.length_pos_iff.2 (natText_ne_nil (den / num))
      have hle := hinverse ((natText (den / num)).length - 1 + 1)
        (by rw [Nat.sub_add_cancel hlength, Nat.mul_comm]; exact hlt.le)
      exact_mod_cast hle

private theorem low_lt (m : ℕ) (e : ℤ) : low m e < m * 2 ^ e := by
  unfold low
  gcongr
  split_ifs <;> norm_num

private theorem lt_high (m : ℕ) (e : ℤ) : (m * 2 ^ e : ℚ) < high m e := by
  unfold high
  gcongr
  norm_num

/-- If neither neighbour on a grid lies in the window, the grid is at least as wide as the
window. -/
private theorem width_le_of_pick (hm : m ≠ 0) {k : ℤ}
    (h : ((window m e).onGrid k).pick? = none) : high m e - low m e ≤ 10 ^ k := by
  obtain ⟨hbelow, habove⟩ := Window.holds_eq_false_of_pick h
  have hd := window_den_ne_zero m e
  generalize hn : ((window m e).onGrid k).value / ((window m e).onGrid k).den = n at hbelow habove
  have hle : (n * 10 ^ k : ℚ) ≤ m * 2 ^ e := by
    rw [← window_value, ← grid_le_iff hd, ← hn]
    exact Nat.div_mul_le_self _ _
  have hlt : (m * 2 ^ e : ℚ) < (n + 1 : ℕ) * 10 ^ k := by
    rw [← window_value, ← lt_iff_lt_of_le_iff_le (grid_le_iff hd _ _), ← hn,
      Nat.mul_comm (_ / _ + 1)]
    refine Nat.lt_mul_div_succ _ ?_
    exact Nat.mul_pos (Nat.pos_of_ne_zero hd) (by positivity)
  have hunder : (n * 10 ^ k : ℚ) ≤ low m e := by
    by_contra hnot
    have hx := lt_of_not_ge hnot
    have hx' := hle.trans_lt (lt_high m e)
    exact absurd ((holds_onGrid_iff hm _ n).2 ⟨hx.le, hx'.le, fun _ => ⟨hx, hx'⟩⟩)
      (by simp [hbelow])
  have hover : high m e ≤ (n + 1 : ℕ) * 10 ^ k := by
    by_contra hnot
    have hx := (low_lt m e).trans hlt
    have hx' := lt_of_not_ge hnot
    exact absurd ((holds_onGrid_iff hm _ (n + 1)).2 ⟨hx.le, hx'.le, fun _ => ⟨hx, hx'⟩⟩)
      (by simp [habove])
  push_cast at hover
  linarith

/-- The window is wider than one unit of the seventeenth digit. -/
private theorem lt_width (hc : IsCanonical m e) : m * 2 ^ e / 10 ^ 16 < high m e - low m e := by
  have hpower : (0 : ℚ) < 2 ^ e := by positivity
  have hbound : (m : ℚ) < 2 ^ 53 := by exact_mod_cast hc.1
  unfold high low
  split_ifs with hspacing
  · rw [hspacing.1]
    push_cast
    nlinarith
  · nlinarith

/-- With seventeen digits one of the two neighbours on the grid lies in the window. -/
private theorem pick_ne_none (hc : IsCanonical m e) (hm : m ≠ 0) {top : ℤ}
    (htop : (10 : ℚ) ^ top ≤ m * 2 ^ e) : ((window m e).onGrid (top - 16)).pick? ≠ none := by
  intro hnone
  have hfine : (10 : ℚ) ^ (top - 16) ≤ m * 2 ^ e / 10 ^ 16 := by
    rw [zpow_sub₀ (by norm_num), show (10 : ℚ) ^ (16 : ℤ) = 10 ^ 16 by norm_cast]
    gcongr
  exact absurd ((width_le_of_pick hm hnone).trans hfine) (not_le.2 (lt_width hc))

/-- What the search finds rounds to the number. -/
private theorem near_search (hc : IsCanonical m e) (hm : m ≠ 0) {top : ℤ}
    (htop : (10 : ℚ) ^ top ≤ m * 2 ^ e) (grids digits : ℕ) (hdigits : digits + grids = 18)
    (hgrids : grids ≠ 0) :
    Near m e (((window m e).search top grids digits).1 *
      10 ^ ((window m e).search top grids digits).2) := by
  induction grids generalizing digits with
  | zero => exact absurd rfl hgrids
  | succ grids ih =>
    unfold Window.search
    dsimp only
    cases hpick : ((window m e).onGrid (top - digits + 1)).pick? with
    | some n => exact (holds_onGrid_iff hm _ n).1 (Window.holds_of_pick hpick)
    | none =>
      refine ih (digits + 1) (by omega) ?_
      rintro rfl
      obtain rfl : digits = 17 := by omega
      have hexponent : top - (17 : ℕ) + 1 = top - 16 := by
        push_cast
        ring
      exact pick_ne_none hc hm htop (hexponent ▸ hpick)

private theorem dropZeros_eq (steps n : ℕ) (k : ℤ) :
    ((dropZeros steps n k).1 * 10 ^ (dropZeros steps n k).2 : ℚ) = n * 10 ^ k := by
  induction steps generalizing n k with
  | zero => rfl
  | succ steps ih =>
    unfold dropZeros
    split_ifs with h
    · rw [ih, zpow_add₀ (by norm_num), zpow_one]
      have hn : ((10 * (n / 10) : ℕ) : ℚ) = n := by
        rw [Nat.mul_div_cancel' (Nat.dvd_of_mod_eq_zero h.1)]
      push_cast at hn
      rw [← hn]
      ring
    · rfl

/-- **The shown decimal rounds to the number.** -/
theorem near_shortest (hc : IsCanonical m e) (hm : m ≠ 0) :
    Near m e ((shortest m e).1 * 10 ^ (shortest m e).2) := by
  unfold shortest
  rw [if_neg hm]
  dsimp only
  rw [dropZeros_eq]
  refine near_search hc hm ?_ 17 1 rfl (by decide)
  rw [← window_value]
  refine decimalExponent_le ?_ (window_den_ne_zero m e)
  simp [window, hm]

/-! ### Digits with a point -/

/-- The sign of a text that starts with digits. -/
theorem splitSign_signed {digits text : List Char} (negative : Bool) (hne : digits ≠ [])
    (hdigits : ∀ c ∈ digits, isDigit c = true) :
    Decimal.splitSign (signed negative (digits ++ text)) = (negative, digits ++ text) := by
  cases negative with
  | true => rfl
  | false =>
    obtain ⟨d, digits, rfl⟩ := List.exists_cons_of_ne_nil hne
    refine splitSign_of_isDigit fun c hc => ?_
    cases hc
    exact hdigits d (by simp)

theorem mem_signed {c : Char} {text : List Char} (negative : Bool) (h : c ∈ text) :
    c ∈ signed negative text := by
  cases negative with
  | false => exact h
  | true => exact List.mem_cons_of_mem _ h

/-- A number is written by digits with a point among them. -/
theorem exists_positionalText (n : ℕ) (k : ℤ) :
    ∃ whole fraction, positionalText n k = whole ++ '.' :: fraction ∧ whole ≠ [] ∧
      fraction ≠ [] ∧ (∀ c ∈ whole ++ fraction, isDigit c = true) ∧
      (digitsValue (whole ++ fraction) * 10 ^ (-(fraction.length : ℤ)) : ℚ) = n * 10 ^ k := by
  have hzeros (count : ℕ) : ∀ c ∈ List.replicate count '0', isDigit c = true := fun c hc => by
    rw [List.eq_of_mem_replicate hc]
    decide
  have hdigits : ∀ c ∈ natText n, isDigit c = true := fun c => isDigit_of_mem_natText
  unfold positionalText
  split_ifs with hk
  · obtain ⟨k, rfl⟩ := Int.eq_ofNat_of_zero_le hk
    refine ⟨natText n ++ List.replicate k '0', ['0'], by simp, by simp [natText_ne_nil], by simp,
      ?_, ?_⟩
    · simp only [List.forall_mem_append]
      exact ⟨⟨hdigits, hzeros k⟩, List.forall_mem_singleton.2 (by decide)⟩
    · rw [digitsValue_append, digitsValue_append, digitsValue_natText, digitsValue_replicate_zero,
        show digitsValue ['0'] = 0 from rfl, List.length_replicate]
      push_cast
      simp [zpow_neg]
      ring
  · obtain ⟨places, hplaces⟩ := Int.eq_ofNat_of_zero_le (show 0 ≤ -k by omega)
    obtain rfl : k = -(places : ℤ) := by omega
    unfold withPoint
    simp only [neg_neg, Int.toNat_natCast]
    generalize hpadded : List.replicate (places + 1 - (natText n).length) '0' ++ natText n = padded
    have hlength : places + 1 ≤ padded.length := by
      rw [← hpadded, List.length_append, List.length_replicate]
      omega
    refine ⟨padded.take (padded.length - places), padded.drop (padded.length - places), rfl, ?_, ?_,
      ?_, ?_⟩
    · rw [← List.length_pos_iff, List.length_take]
      omega
    · rw [← List.length_pos_iff, List.length_drop]
      omega
    · rw [List.take_append_drop, ← hpadded]
      exact List.forall_mem_append.2 ⟨hzeros _, hdigits⟩
    · rw [List.take_append_drop, List.length_drop, ← hpadded, digitsValue_append,
        digitsValue_natText, digitsValue_replicate_zero, Nat.mul_zero, Nat.zero_add, hpadded,
        Nat.sub_sub_self (by omega)]

/-- Digits with a point among them are read exactly. -/
theorem readUnsigned_point {negative : Bool} {whole fraction : List Char} (hne : whole ≠ [])
    (hdigits : ∀ c ∈ whole ++ fraction, isDigit c = true) :
    Decimal.readUnsigned? negative (whole ++ '.' :: fraction) =
      some ⟨negative, digitsValue (whole ++ fraction), -(fraction.length : ℤ)⟩ := by
  rw [List.forall_mem_append] at hdigits
  have hwhole := @Lexeme.takeWhile_append_stop _ _ ('.' :: fraction) hdigits.1
    (by simpa using by decide)
  have hfraction := @Lexeme.takeWhile_append_stop _ _ [] hdigits.2 (by simp)
  rw [List.append_nil] at hfraction
  unfold Decimal.readUnsigned?
  simp [hwhole, hfraction, hne, Decimal.readExponent?]

private theorem high_lt_ten_pow (hc : IsCanonical m e) : high m e < 10 ^ (309 : ℤ) := by
  have hmantissa : (m : ℚ) + 1 / 2 ≤ 2 ^ 53 := by
    have : (m : ℚ) + 1 ≤ 2 ^ 53 := by exact_mod_cast hc.1
    linarith
  calc high m e ≤ 2 ^ 53 * 2 ^ (971 : ℤ) := by
        unfold high
        gcongr
        · norm_num
        · exact hc.2.2.1
    _ < 10 ^ (309 : ℤ) := by exact_mod_cast (by decide +kernel : 2 ^ 53 * 2 ^ 971 < 10 ^ 309)

private theorem ten_pow_le_low (hc : IsCanonical m e) (hm : m ≠ 0) :
    (10 : ℚ) ^ (-324 : ℤ) ≤ low m e := by
  have hmantissa : (1 : ℚ) / 2 ≤ m - 1 / 2 := by
    have : (1 : ℚ) ≤ m := by exact_mod_cast Nat.one_le_iff_ne_zero.2 hm
    linarith
  calc (10 : ℚ) ^ (-324 : ℤ) ≤ 1 / 2 * 2 ^ (-1074 : ℤ) := by
        rw [zpow_neg, zpow_neg, one_div, ← mul_inv, inv_le_inv₀ (by positivity) (by positivity)]
        exact_mod_cast (by decide +kernel : 2 * 2 ^ 1074 ≤ 10 ^ 324)
    _ ≤ (m - 1 / 2) * 2 ^ e := by
      gcongr
      · norm_num
      · exact hc.2.1
    _ ≤ low m e := half_le_low m e

/-- A decimal lies between two powers of ten that the number of its digits tells. -/
private theorem decimal_between {coefficient size : ℕ} (h : coefficient ≠ 0)
    (hsize : (natText coefficient).length = size + 1) (k : ℤ) :
    (10 : ℚ) ^ (size + k) ≤ coefficient * 10 ^ k ∧
      (coefficient * 10 ^ k : ℚ) < 10 ^ ((size + 1 : ℕ) + k) := by
  have hle := pow_le_of_length_natText h
  have hlt := lt_pow_length_natText coefficient
  rw [hsize] at hle hlt
  rw [Nat.add_sub_cancel] at hle
  have hten : (10 : ℚ) ≠ 0 := by norm_num
  rw [zpow_add₀ hten, zpow_add₀ hten, zpow_natCast, zpow_natCast]
  constructor
  · gcongr
    exact_mod_cast hle
  · gcongr
    exact_mod_cast hlt

/-- A decimal in the interval around a number is rounded to it, and not dismissed beforehand. -/
theorem toDouble_eq_of_near {negative : Bool} {coefficient : ℕ} {k : ℤ} (hc : IsCanonical m e)
    (hm : m ≠ 0) (h : Near m e (coefficient * 10 ^ k)) :
    Decimal.toDouble ⟨negative, coefficient, k⟩ = .finite negative m e hc := by
  have hpositive : (0 : ℚ) < coefficient * 10 ^ k := (low_pos hm).trans_le h.low_le
  have hcoefficient : coefficient ≠ 0 := by
    rintro rfl
    simp at hpositive
  have hlength := List.length_pos_iff.2 (natText_ne_nil coefficient)
  obtain ⟨size, hsize⟩ := Nat.exists_eq_add_of_le' hlength
  obtain ⟨hbelow, habove⟩ := decimal_between hcoefficient hsize k
  have hexponent {a b : ℤ} (h : (10 : ℚ) ^ a < 10 ^ b) : a < b :=
    (zpow_lt_zpow_iff_right₀ (by norm_num)).1 h
  have hupper : size + k < 309 :=
    hexponent ((hbelow.trans h.le_high).trans_lt (high_lt_ten_pow hc))
  have hlower : -324 < (size + 1 : ℕ) + k :=
    hexponent ((ten_pow_le_low hc hm).trans_lt (h.low_le.trans_lt habove))
  unfold Decimal.toDouble
  simp only [hsize, if_neg hcoefficient, Decimal.magnitudeLimit]
  rw [if_neg (by push_cast; omega), if_neg (by push_cast; omega)]
  refine ofRatio_eq_of_near hc hm (by positivity) ?_
  have hratio : ((coefficient * 10 ^ k.toNat : ℕ) / (10 ^ (-k).toNat : ℕ) : ℚ) =
      coefficient * 10 ^ k := by
    rw [zpow_eq_div_toNat]
    push_cast
    ring
  rwa [hratio]

/-- The text of a number with its shortest digits in positional notation. -/
def positional : Double → List Char
  | .finite negative mantissa exponent _ =>
    signed negative (positionalText (shortest mantissa exponent).1 (shortest mantissa exponent).2)
  | .infinite negative => signed negative "inf.0".toList
  | .undefined => "nan.0".toList

/-- The notation of a finite number: a sign, and digits with a point among them that denote the
number. -/
theorem exists_positional {x : Double} (h : x.isFinite = true) :
    ∃ negative whole fraction, x.positional = signed negative (whole ++ '.' :: fraction) ∧
      whole ≠ [] ∧ fraction ≠ [] ∧ (∀ c ∈ whole ++ fraction, isDigit c = true) ∧
      Decimal.toDouble ⟨negative, digitsValue (whole ++ fraction), -(fraction.length : ℤ)⟩ = x := by
  cases x with
  | infinite | undefined => cases h
  | finite negative m e hc =>
    obtain ⟨whole, fraction, htext, hwhole, hfraction, hdigits, hvalue⟩ :=
      exists_positionalText (shortest m e).1 (shortest m e).2
    refine ⟨negative, whole, fraction, by rw [← htext]; rfl, hwhole, hfraction, hdigits, ?_⟩
    by_cases hm : m = 0
    · subst hm
      have he : e = -1074 := hc.2.2.2.resolve_left (by decide)
      subst he
      have hzero : digitsValue (whole ++ fraction) = 0 := by
        rw [show shortest 0 (-1074) = (0, 0) from rfl] at hvalue
        have hpower : (10 : ℚ) ^ (-(fraction.length : ℤ)) ≠ 0 := by positivity
        simpa [hpower] using hvalue
      rw [hzero]
      rfl
    · refine toDouble_eq_of_near hc hm ?_
      rw [hvalue]
      exact near_shortest hc hm

theorem point_mem_positional {x : Double} (h : x.isFinite = true) : '.' ∈ x.positional := by
  obtain ⟨negative, whole, fraction, htext, -⟩ := exists_positional h
  rw [htext]
  exact mem_signed negative (by simp)

end Double

end Number

namespace Reader

open Number

/-- Finite floating-point numbers are read back. -/
theorem numberValue_positional {x : Double} (h : x.isFinite = true) :
    numberValue x.positional = some (.float x) := by
  obtain ⟨negative, whole, fraction, htext, hwhole, -, hdigits, hx⟩ := Double.exists_positional h
  have hsplit := @Double.splitSign_signed whole ('.' :: fraction) negative hwhole
    (List.forall_mem_append.1 hdigits).1
  have hpoint := List.contains_iff_mem.2 (Double.point_mem_positional h)
  rw [numberValue, if_pos hpoint, Decimal.read?, htext, hsplit]
  simp only [Double.readUnsigned_point hwhole hdigits, Option.map_some, hx]

end Reader

end StackScript
