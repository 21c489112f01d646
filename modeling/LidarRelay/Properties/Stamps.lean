import LidarRelay.Foundations.BinaryGrid
import LidarRelay.Programs.LidarRecv
import LidarRelay.Programs.LidarSend

/-! # Time stamps as doubles

lidar_send adds seconds and microseconds into one double, and lidar_recv splits it again. The sum is
rounded to the nearest double and the split cuts off: a stamp whose sum was rounded down comes back
one microsecond too early.
-/

namespace LidarRelay.Stamps
set_option autoImplicit false
set_option maxHeartbeats 250000

/-- `(double)sec+((double)usec)/1000000` between 2^30 and 2^31, where doubles are 2^-22 apart. -/
def doubleSum (sec usec : ℤ) : ℚ := roundGrid 22 ((sec : ℚ) + (usec : ℚ) / 1000000)

/-- The two numbers a reply of lidar_recv says of `unixtime_send` in lidar_send. -/
def relay (u : ℚ) (g g' : Globals) : ℤ × ℤ :=
  let heard := LidarRecv.v2xBsmRecvHandle (LidarSend.device.bsmOf { g with unixtimeSend := u }) g'
  (relayedSec heard.unixtimeRecv, relayedUsec heard.unixtimeRecv)

theorem relay_eq (u : ℚ) (g g' : Globals) : relay u g g' = (relayedSec u, relayedUsec u) := rfl

/-- The microseconds in steps of 2^-22 seconds. -/
def steps (usec : ℤ) : ℤ := nearest (65536 * usec) 15625

theorem sum_steps (sec usec : ℤ) : ((sec : ℚ) + (usec : ℚ) / 1000000) * 2 ^ (22 : ℤ) =
    ((sec * 2 ^ 22 * (15625 : ℕ) + 65536 * usec : ℤ) : ℚ) / (15625 : ℕ) := by
  rw [zpow_ofNat]
  push_cast
  ring

theorem doubleSum_eq (sec usec : ℤ) : doubleSum sec usec = sec + (steps usec : ℚ) / 2 ^ 22 := by
  rw [doubleSum, roundGrid_odd (by decide) (sum_steps sec usec), nearest_add_mul _ _ (by decide),
    steps, zpow_ofNat]
  push_cast
  ring

theorem truncate_div {n : ℤ} {d : ℕ} (hn : 0 ≤ n) : truncate ((n : ℚ) / d) = n / d := by
  have hnn : ¬ (n : ℚ) / d < 0 := not_lt.mpr (div_nonneg (by exact_mod_cast hn) (by positivity))
  rw [truncate, if_neg hnn, Rat.floor_intCast_div_natCast]

theorem steps_range {usec : ℤ} (husec : 0 ≤ usec) (husec' : usec < 1000000) :
    0 ≤ steps usec ∧ steps usec < 2 ^ 22 := by
  unfold steps nearest
  split_ifs <;> omega

section Range
variable {sec usec : ℤ} (hsec : 0 ≤ sec) (hsec' : sec < 2 ^ 31) (husec : 0 ≤ usec)
  (husec' : usec < 1000000)
include hsec hsec' husec husec'

theorem relayedSec_doubleSum : relayedSec (doubleSum sec usec) = sec := by
  obtain ⟨hlo, hhi⟩ := steps_range husec husec'
  have h : doubleSum sec usec = ((sec * 2 ^ 22 + steps usec : ℤ) : ℚ) / (2 ^ 22 : ℕ) := by
    rw [doubleSum_eq]
    push_cast
    ring
  rw [relayedSec, toLong, h, truncate_div (by positivity)]
  have hdiv : (sec * 2 ^ 22 + steps usec) / ((2 ^ 22 : ℕ) : ℤ) = sec := by
    push_cast
    omega
  rw [hdiv]
  exact clampLong_fits le_rfl ⟨by omega, hsec'⟩

theorem relayedUsec_doubleSum : relayedUsec (doubleSum sec usec) = steps usec * 15625 / 65536 := by
  obtain ⟨hlo, hhi⟩ := steps_range husec husec'
  have hlong : toLong (doubleSum sec usec) = sec := relayedSec_doubleSum hsec hsec' husec husec'
  have h : (doubleSum sec usec - sec) * 1000000 = ((steps usec * 15625 : ℤ) : ℚ) / (65536 : ℕ) := by
    rw [doubleSum_eq]
    push_cast
    ring
  rw [relayedUsec, hlong, h, toLong, truncate_div (by omega)]
  apply clampLong_fits le_rfl
  unfold FitsInt
  push_cast
  omega

end Range

/-- Cut off after rounding: exact where nothing was rounded or the sum was rounded up. -/
theorem split_exact_iff (usec : ℤ) : steps usec * 15625 / 65536 = usec ↔
    65536 * usec % 15625 = 0 ∨ 15625 < 2 * (65536 * usec % 15625) := by
  have hcut : ∀ e : ℤ, (65536 * usec + e) / 65536 = usec ↔ 0 ≤ e ∧ e < 65536 := fun e => by omega
  have hmul : steps usec * 15625 = _ := nearest_mul (65536 * usec) 15625
  have hlo : 0 ≤ 65536 * usec % 15625 := Int.emod_nonneg _ (by decide)
  have hhi : 65536 * usec % 15625 < 15625 := Int.emod_lt_of_pos _ (by decide)
  rw [hmul, hcut, Nat.cast_ofNat]
  generalize 65536 * usec % 15625 = r at hlo hhi ⊢
  split_ifs <;> omega

/-- **A stamp survives the relay exactly when its sum is a double or is rounded up to one.** -/
theorem relay_exact_iff (g g' : Globals) (sec usec : ℤ) (hsec : 2 ^ 30 ≤ sec) (hsec' : sec < 2 ^ 31)
    (husec : 0 ≤ usec) (husec' : usec < 1000000) :
    relay (doubleSum sec usec) g g' = (sec, usec) ↔
      65536 * usec % 15625 = 0 ∨ 15625 < 2 * (65536 * usec % 15625) := by
  have hpos : 0 ≤ sec := by omega
  rw [relay_eq, relayedSec_doubleSum hpos hsec' husec husec',
    relayedUsec_doubleSum hpos hsec' husec husec', Prod.mk.injEq, ← split_exact_iff usec]
  exact ⟨And.right, fun h => ⟨rfl, h⟩⟩

/-- One microsecond after a full second is the full second. -/
theorem relay_one_usec_lost :
    relay (doubleSum 1562000000 1) {} {} = (1562000000, 0) ∧
      relay (doubleSum 1562000000 1) {} {} ≠ (1562000000, 1) := by
  decide +kernel

/-- Three microseconds after it are kept, although the sum is rounded. -/
theorem relay_three_usec :
    doubleSum 1562000000 3 ≠ 1562000000 + 3 / 1000000 ∧
      relay (doubleSum 1562000000 3) {} {} = (1562000000, 3) :=
  ⟨by decide +kernel, (relay_exact_iff {} {} 1562000000 3 (by decide) (by decide) (by decide)
    (by decide)).mpr (by decide)⟩

/-! ## Every operation rounded

The machine rounds the quotient before the sum, and the two operations of the split. None of the
three changes a stamp.
-/

/-- The sum of lidar_send as the machine forms it: the quotient is rounded, and so is the sum. -/
def machineSum (sec usec : ℤ) : ℚ := roundDouble (sec + roundDouble (usec / 1000000))

/-- The microseconds of lidar_recv as the machine forms them. -/
def machineUsec (u : ℚ) : ℤ := toLong (roundDouble (roundDouble (u - toLong u) * 1000000))

theorem quotient_range {usec : ℤ} (husec : 0 ≤ usec) (husec' : usec < 1000000) :
    0 ≤ (usec : ℚ) / 1000000 ∧ (usec : ℚ) / 1000000 ≤ 999999 / 1000000 := by
  have hlo : (0 : ℚ) ≤ usec := by exact_mod_cast husec
  have hhi : (usec : ℚ) ≤ 999999 := by
    have h : usec ≤ 999999 := by omega
    exact_mod_cast h
  constructor <;> linarith

/-- The quotient is rounded on a grid so fine that the sum is rounded to the same double. -/
theorem machineSum_eq {sec usec : ℤ} (hsec : 2 ^ 30 ≤ sec) (hsec' : sec < 2 ^ 31)
    (husec : 0 ≤ usec) (husec' : usec < 1000000) : machineSum sec usec = doubleSum sec usec := by
  obtain ⟨hlo, hhi⟩ := quotient_range husec husec'
  obtain ⟨hnn, hnear⟩ := roundDouble_unit hlo (by linarith)
  have hsecq : (2 : ℚ) ^ 30 ≤ sec := by exact_mod_cast hsec
  have hsecq' : (sec : ℚ) ≤ 2 ^ 31 - 1 := by
    have h : sec ≤ 2 ^ 31 - 1 := by omega
    exact_mod_cast h
  have hlt : roundDouble ((usec : ℚ) / 1000000) < 1 := by
    have h := (abs_le.mp hnear).2
    norm_num at h
    linarith
  rw [machineSum, roundDouble_between (e := 30)]
  · apply roundGrid_close (by decide) (sum_steps sec usec)
    rw [add_sub_add_left_eq_sub]
    calc |roundDouble ((usec : ℚ) / 1000000) - usec / 1000000| * 2 ^ (22 : ℤ)
        ≤ 1 / 2 ^ 54 * 2 ^ (22 : ℤ) := mul_le_mul_of_nonneg_right hnear (by positivity)
      _ < 1 / (2 * (15625 : ℕ)) := by norm_num
  · rw [zpow_ofNat]
    linarith
  · norm_num at hsecq' ⊢
    linarith

/-- Both operations of the split are exact: neither result has more than 53 bits. -/
theorem machineUsec_doubleSum {sec usec : ℤ} (hsec : 0 ≤ sec) (hsec' : sec < 2 ^ 31)
    (husec : 0 ≤ usec) (husec' : usec < 1000000) :
    machineUsec (doubleSum sec usec) = relayedUsec (doubleSum sec usec) := by
  obtain ⟨hlo, hhi⟩ := steps_range husec husec'
  have hlong : toLong (doubleSum sec usec) = sec := relayedSec_doubleSum hsec hsec' husec husec'
  have hsub : doubleSum sec usec - sec = (steps usec : ℚ) / 2 ^ 22 := by
    rw [doubleSum_eq, add_sub_cancel_left]
  have hfrac : roundDouble ((steps usec : ℚ) / 2 ^ 22) = steps usec / 2 ^ 22 := by
    refine roundDouble_exact (p := 22) (n := steps usec) ?_ ?_
    · rw [zpow_ofNat]
      exact div_mul_cancel₀ _ (by norm_num)
    · rw [abs_of_nonneg hlo]
      omega
  have hmul : roundDouble ((steps usec : ℚ) / 2 ^ 22 * 1000000) = steps usec / 2 ^ 22 * 1000000 := by
    refine roundDouble_exact (p := 16) (n := steps usec * 15625) ?_ ?_
    · rw [zpow_ofNat]
      push_cast
      ring
    · rw [abs_of_nonneg (by omega)]
      omega
  rw [machineUsec, relayedUsec, hlong, hsub, hfrac, hmul]

/-- The same condition decides what the machine's own operations give. -/
theorem machine_exact_iff {sec usec : ℤ} (hsec : 2 ^ 30 ≤ sec) (hsec' : sec < 2 ^ 31)
    (husec : 0 ≤ usec) (husec' : usec < 1000000) :
    (relayedSec (machineSum sec usec), machineUsec (machineSum sec usec)) = (sec, usec) ↔
      65536 * usec % 15625 = 0 ∨ 15625 < 2 * (65536 * usec % 15625) := by
  have hpos : 0 ≤ sec := by omega
  rw [machineSum_eq hsec hsec' husec husec', machineUsec_doubleSum hpos hsec' husec husec',
    relayedSec_doubleSum hpos hsec' husec husec', relayedUsec_doubleSum hpos hsec' husec husec',
    Prod.mk.injEq, ← split_exact_iff usec]
  exact ⟨And.right, fun h => ⟨rfl, h⟩⟩

end LidarRelay.Stamps
