import Mathlib.Algebra.Order.Ring.Abs
import Mathlib.Algebra.Order.Ring.Int
import Mathlib.Tactic.Linarith

/-! # Estimating the offset of a clock from one exchange

A client whose clock stands `offset` ahead asks a server for its time. The request is sent at
`sent`, the server reads its clock at `served` and the answer arrives at `received`, all three in
the server's time; how long each direction takes is not known. Half of the sum of the two client
readings stands for the moment of the server's. The estimate is off by at most half the round trip,
and by one half more where the division truncates.
-/

namespace LidarRelay
set_option autoImplicit false
set_option maxHeartbeats 250000

structure RoundTrip where
  sent : ℤ
  served : ℤ
  received : ℤ
  sent_le : sent ≤ served
  le_received : served ≤ received

namespace RoundTrip

def time (x : RoundTrip) : ℤ := x.received - x.sent

theorem two_mul_tdiv_near (n : ℤ) : |2 * n.tdiv 2 - n| ≤ 1 := by
  have h := Int.tmod_add_mul_tdiv n 2
  have hlt := Int.tmod_lt_of_pos n (show (0 : ℤ) < 2 by norm_num)
  have hgt := Int.lt_tmod_of_pos n (show (0 : ℤ) < 2 by norm_num)
  rw [abs_le]
  omega

/-- **The estimate is within half the round trip** and one half of `-offset`, whatever the delay in
each direction. -/
theorem estimate_near (x : RoundTrip) (offset : ℤ) :
    2 * |(2 * x.served - (x.received + offset) - (x.sent + offset)).tdiv 2 + offset| ≤ x.time + 1 := by
  have hdiv := abs_le.mp
    (two_mul_tdiv_near (2 * x.served - (x.received + offset) - (x.sent + offset)))
  have h := x.sent_le
  have h' := x.le_received
  have htwice : 2 * |(2 * x.served - (x.received + offset) - (x.sent + offset)).tdiv 2 + offset| =
      |2 * (2 * x.served - (x.received + offset) - (x.sent + offset)).tdiv 2 + 2 * offset| := by
    rw [← mul_add, abs_mul, abs_two]
  rw [htwice, abs_le]
  unfold time
  omega

/-- A stamp taken on one estimated clock and read back on another is off by half of the two round
trips at most: `e` and `e'` are the estimates, `loss` is what the stamp loses on the way. -/
theorem age_near {x y : RoundTrip} {offset offset' e e' loss : ℤ}
    (he : 2 * |e + offset| ≤ x.time + 1) (he' : 2 * |e' + offset'| ≤ y.time + 1) (hl : |loss| ≤ 1) :
    2 * |(offset' + e') - (offset + e) - loss| ≤ x.time + y.time + 4 := by
  rw [add_comm e offset] at he
  rw [add_comm e' offset'] at he'
  have h1 := abs_sub ((offset' + e') - (offset + e)) loss
  have h2 := abs_sub (offset' + e') (offset + e)
  linarith

end RoundTrip
end LidarRelay
