import Mathlib.Data.Int.Log
import LidarRelay.Foundations.DecimalText

/-! # Rounding to doubles and floats

A double of the normal range is a multiple of the power of two that is 52 places below its leading
bit, a float of the one 23 places below, and an operation gives the nearest of them to its exact
result. Where the exact result has an odd denominator on that grid no tie can occur: `roundGrid_odd`
gives it in whole numbers, and `roundGrid_close` says how far off an operand may be.
-/

namespace LidarRelay
set_option autoImplicit false
set_option maxHeartbeats 250000

/-- The nearest multiple of `2 ^ -p`. -/
def roundGrid (p : ℤ) (q : ℚ) : ℚ := roundHalfEven (q * 2 ^ p) / 2 ^ p

/-- The nearest double, for numbers whose magnitude is in the normal range. -/
def roundDouble (q : ℚ) : ℚ := roundGrid (52 - Int.log 2 |q|) q

/-- The nearest float, for numbers whose magnitude is in the normal range. -/
def roundFloat (q : ℚ) : ℚ := roundGrid (23 - Int.log 2 |q|) q

/-- `n / d` to the nearest integer, for an odd `d`. -/
def nearest (n : ℤ) (d : ℕ) : ℤ := if 2 * (n % d) < d then n / d else n / d + 1

/-! ## The grid -/

theorem roundGrid_near (p : ℤ) (q : ℚ) : |roundGrid p q - q| ≤ 1 / 2 / 2 ^ p := by
  have hpos : (0 : ℚ) < 2 ^ p := zpow_pos two_pos p
  have h : roundGrid p q - q = (roundHalfEven (q * 2 ^ p) - q * 2 ^ p) / 2 ^ p := by
    rw [roundGrid, sub_div, mul_div_assoc, div_self hpos.ne', mul_one]
  rw [h, abs_div, abs_of_pos hpos]
  exact div_le_div_of_nonneg_right (roundHalfEven_near _) hpos.le

theorem roundGrid_of_int {p : ℤ} {q : ℚ} {n : ℤ} (h : q * 2 ^ p = n) : roundGrid p q = q := by
  have hpos : (0 : ℚ) < 2 ^ p := zpow_pos two_pos p
  rw [roundGrid, h, roundHalfEven_intCast, ← h, mul_div_assoc, div_self hpos.ne', mul_one]

/-- What fits 53 bits is a double. -/
theorem roundDouble_exact {p : ℤ} {q : ℚ} {n : ℤ} (h : q * 2 ^ p = n) (hn : |n| < 2 ^ 53) :
    roundDouble q = q := by
  by_cases hq : q = 0
  · exact roundGrid_of_int (n := 0) (by simp [hq])
  have hpos : (0 : ℚ) < 2 ^ p := zpow_pos two_pos p
  have habs : |q| < 2 ^ (53 - p) := by
    have hnq : |q * 2 ^ p| < 2 ^ (53 : ℤ) := by
      rw [h]
      exact_mod_cast hn
    rw [abs_mul, abs_of_pos hpos] at hnq
    rw [zpow_sub₀ two_ne_zero, lt_div_iff₀ hpos]
    exact hnq
  have hlog : Int.log 2 |q| < 53 - p := (Int.lt_zpow_iff_log_lt one_lt_two (abs_pos.mpr hq)).mp habs
  obtain ⟨k, hk⟩ : ∃ k : ℕ, 52 - Int.log 2 |q| = p + k :=
    ⟨(52 - Int.log 2 |q| - p).toNat, by omega⟩
  refine roundGrid_of_int (n := n * 2 ^ k) ?_
  rw [hk, zpow_add₀ two_ne_zero, ← mul_assoc, h, zpow_natCast]
  push_cast
  rfl

/-- Below one, doubles are at most 2^-53 apart. -/
theorem roundDouble_unit {q : ℚ} (hlo : 0 ≤ q) (hhi : q < 1) :
    0 ≤ roundDouble q ∧ |roundDouble q - q| ≤ 1 / 2 ^ 54 := by
  obtain rfl | hpos := hlo.eq_or_lt
  · simp [roundDouble, roundGrid, roundHalfEven]
  have hlog : Int.log 2 q < 0 := (Int.lt_zpow_iff_log_lt one_lt_two hpos).mp (by simpa using hhi)
  rw [roundDouble, abs_of_pos hpos]
  refine ⟨div_nonneg ?_ (zpow_pos two_pos _).le, (roundGrid_near _ q).trans ?_⟩
  · exact_mod_cast roundHalfEven_nonneg (mul_nonneg hlo (zpow_pos two_pos _).le)
  · have hpow : (2 : ℚ) ^ (53 : ℤ) ≤ 2 ^ (52 - Int.log 2 q) :=
      zpow_le_zpow_right₀ one_le_two (by omega)
    calc (1 : ℚ) / 2 / 2 ^ (52 - Int.log 2 q) ≤ 1 / 2 / 2 ^ (53 : ℤ) :=
          div_le_div_of_nonneg_left (by norm_num) (by positivity) hpow
      _ = 1 / 2 ^ 54 := by norm_num

theorem log_between {q : ℚ} {e : ℤ} (hlo : 2 ^ e ≤ q) (hhi : q < 2 ^ (e + 1)) :
    Int.log 2 |q| = e := by
  have hpos : 0 < q := (zpow_pos two_pos e).trans_le hlo
  have hle : e ≤ Int.log 2 q := (Int.zpow_le_iff_le_log one_lt_two hpos).mp hlo
  have hlt : Int.log 2 q < e + 1 := (Int.lt_zpow_iff_log_lt one_lt_two hpos).mp hhi
  rw [abs_of_pos hpos]
  omega

theorem roundDouble_between {q : ℚ} {e : ℤ} (hlo : 2 ^ e ≤ q) (hhi : q < 2 ^ (e + 1)) :
    roundDouble q = roundGrid (52 - e) q := by
  rw [roundDouble, log_between hlo hhi]

/-! ## Odd denominators -/

theorem roundHalfEven_odd (n : ℤ) {d : ℕ} (hodd : d % 2 = 1) :
    roundHalfEven ((n : ℚ) / d) = nearest n d := by
  have hd : 0 < d := by omega
  have hdq : (0 : ℚ) < d := by exact_mod_cast hd
  have hfloor : ⌊(n : ℚ) / d⌋ = n / d := Rat.floor_intCast_div_natCast n d
  have hrem : (n : ℚ) / d - ((n / d : ℤ) : ℚ) = ((n % d : ℤ) : ℚ) / d := by
    have h : ((n % d : ℤ) : ℚ) + d * ((n / d : ℤ) : ℚ) = n := by
      exact_mod_cast Int.emod_add_mul_ediv n d
    rw [← h]
    field_simp
    ring
  unfold roundHalfEven nearest
  simp only [hfloor, hrem, div_lt_div_iff₀ hdq two_pos, div_lt_div_iff₀ two_pos hdq]
  norm_cast
  split_ifs <;> omega

theorem roundGrid_odd {p : ℤ} {q : ℚ} {n : ℤ} {d : ℕ} (hodd : d % 2 = 1) (h : q * 2 ^ p = n / d) :
    roundGrid p q = (nearest n d : ℚ) / 2 ^ p := by
  rw [roundGrid, h, roundHalfEven_odd n hodd]

/-- How far off the nearest integer is, in units of `1 / d`. -/
theorem nearest_mul (n : ℤ) (d : ℕ) :
    nearest n d * d = n + if 2 * (n % d) < d then -(n % d) else d - n % d := by
  have h := Int.emod_add_mul_ediv n d
  unfold nearest
  split_ifs <;> linarith

theorem nearest_near (n : ℤ) {d : ℕ} (hodd : d % 2 = 1) :
    |(n : ℚ) / d - nearest n d| ≤ 1 / 2 - 1 / (2 * d) := by
  have hd : (0 : ℤ) < d := by omega
  have hdq : (0 : ℚ) < d := by exact_mod_cast hd
  have hlo : 0 ≤ n % d := Int.emod_nonneg n hd.ne'
  have hhi : n % d < d := Int.emod_lt_of_pos n hd
  have hint : -(d - 1) ≤ 2 * (n - nearest n d * d) ∧ 2 * (n - nearest n d * d) ≤ d - 1 := by
    rw [nearest_mul]
    split_ifs <;> omega
  have hle : (-(d - 1) : ℚ) ≤ 2 * (n - nearest n d * d) := by exact_mod_cast hint.1
  have hge : (2 * (n - nearest n d * d) : ℚ) ≤ d - 1 := by exact_mod_cast hint.2
  have hdiff : (n : ℚ) / d - nearest n d = 2 * (n - nearest n d * d) / (2 * d) := by
    field_simp
  have hbound : (1 : ℚ) / 2 - 1 / (2 * d) = (d - 1) / (2 * d) := by
    field_simp
  have hpos : (0 : ℚ) < 2 * d := by linarith
  rw [hdiff, hbound, abs_div, abs_of_pos hpos, div_le_div_iff_of_pos_right hpos, abs_le]
  exact ⟨hle, hge⟩

theorem roundHalfEven_unique {x : ℚ} {k : ℤ} (h : |x - k| < 1 / 2) : roundHalfEven x = k := by
  have hnear := roundHalfEven_near x
  rw [abs_le] at hnear
  rw [abs_lt] at h
  have hlt : (roundHalfEven x : ℚ) < (k + 1 : ℤ) := by
    push_cast
    linarith
  have hgt : ((k - 1 : ℤ) : ℚ) < roundHalfEven x := by
    push_cast
    linarith
  have hlt' := Int.cast_lt.mp hlt
  have hgt' := Int.cast_lt.mp hgt
  omega

theorem floor_roundGrid_up (p : ℕ) {n : ℤ} {q : ℚ} (hq : q ≤ n) (h : (n - q) * 2 ^ p < 1 / 2) :
    ⌊roundGrid p q⌋ = n := by
  have hpos : (0 : ℚ) < 2 ^ p := pow_pos two_pos p
  have hround : roundHalfEven (q * 2 ^ p) = n * 2 ^ p := by
    apply roundHalfEven_unique
    have hnn : 0 ≤ (n - q) * 2 ^ p := mul_nonneg (sub_nonneg.mpr hq) hpos.le
    have habs : |q * 2 ^ p - ((n * 2 ^ p : ℤ) : ℚ)| = (n - q) * 2 ^ p := by
      push_cast
      rw [abs_sub_comm, ← sub_mul, abs_of_nonneg hnn]
    rw [habs]
    exact h
  rw [roundGrid, zpow_natCast, hround]
  push_cast
  rw [mul_div_assoc, div_self hpos.ne', mul_one, Int.floor_intCast]

theorem floor_roundGrid_down (p : ℕ) {n : ℤ} {q : ℚ} (hq : n ≤ q) (h : 1 / 2 < (n + 1 - q) * 2 ^ p) :
    ⌊roundGrid p q⌋ = n := by
  have hpos : (0 : ℚ) < 2 ^ p := pow_pos two_pos p
  have hnear := abs_le.mp (roundHalfEven_near (q * 2 ^ p))
  have hle : (n : ℚ) * 2 ^ p ≤ q * 2 ^ p := mul_le_mul_of_nonneg_right hq hpos.le
  have hlo : n * 2 ^ p - 1 < roundHalfEven (q * 2 ^ p) := by
    have h' : ((n * 2 ^ p - 1 : ℤ) : ℚ) < roundHalfEven (q * 2 ^ p) := by
      push_cast
      linarith
    exact_mod_cast h'
  have hhi : roundHalfEven (q * 2 ^ p) < (n + 1) * 2 ^ p := by
    have h' : (roundHalfEven (q * 2 ^ p) : ℚ) < ((n + 1) * 2 ^ p : ℤ) := by
      push_cast
      linarith
    exact_mod_cast h'
  have hlo' : (n : ℚ) * 2 ^ p ≤ roundHalfEven (q * 2 ^ p) := by
    have h' : n * 2 ^ p ≤ roundHalfEven (q * 2 ^ p) := by omega
    exact_mod_cast h'
  have hhi' : (roundHalfEven (q * 2 ^ p) : ℚ) < (n + 1) * 2 ^ p := by exact_mod_cast hhi
  rw [roundGrid, zpow_natCast, Int.floor_eq_iff]
  exact ⟨(le_div_iff₀ hpos).mpr hlo', (div_lt_iff₀ hpos).mpr hhi'⟩

theorem roundHalfEven_close (n : ℤ) {d : ℕ} (hodd : d % 2 = 1) {x : ℚ}
    (hx : |x - n / d| < 1 / (2 * d)) : roundHalfEven x = nearest n d := by
  apply roundHalfEven_unique
  calc |x - nearest n d| ≤ |x - n / d| + |(n : ℚ) / d - nearest n d| := abs_sub_le _ _ _
    _ < 1 / 2 := by linarith [nearest_near n hodd]

theorem roundGrid_close {p : ℤ} {q q' : ℚ} {n : ℤ} {d : ℕ} (hodd : d % 2 = 1)
    (h : q * 2 ^ p = n / d) (hq : |q' - q| * 2 ^ p < 1 / (2 * d)) :
    roundGrid p q' = roundGrid p q := by
  have hpos : (0 : ℚ) < 2 ^ p := zpow_pos two_pos p
  have hx : |q' * 2 ^ p - n / d| < 1 / (2 * d) := by
    rw [← h, ← sub_mul, abs_mul, abs_of_pos hpos]
    exact hq
  rw [roundGrid_odd hodd h, roundGrid, roundHalfEven_close n hodd hx]

theorem nearest_add_mul (k n : ℤ) {d : ℕ} (hd : 0 < d) :
    nearest (k * d + n) d = k + nearest n d := by
  have hd' : (d : ℤ) ≠ 0 := by omega
  have hmod : (k * d + n) % d = n % d := by
    rw [add_comm, Int.add_mul_emod_self_right]
  have hdiv : (k * d + n) / d = k + n / d := by
    rw [add_comm, Int.add_mul_ediv_right _ _ hd', add_comm]
  unfold nearest
  rw [hmod, hdiv]
  split_ifs <;> omega

end LidarRelay
