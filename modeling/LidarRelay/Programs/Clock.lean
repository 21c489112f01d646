import Mathlib.Tactic

/-! # Clock readings, the send schedule and the calibration of the two clients

`listener.cpp` and `TCP_Client2.c` have these lines in common: a `gettimeofday` reading taken as
microseconds, the guarded 100 ms schedule of the send loop, the split of a time into seconds and
microseconds, and the estimate of the offset between two clocks. Both run on a PC, where a `long`
has 64 bits; times are integers here.
-/

namespace LidarRelay
set_option autoImplicit false
set_option maxHeartbeats 250000

structure Timeval where
  sec : ℤ
  usec : ℤ
  usec_nonneg : 0 ≤ usec
  usec_lt : usec < 1000000

namespace Timeval

def micros (tv : Timeval) : ℤ := tv.sec * 1000000 + tv.usec

def ofMicros (t : ℤ) : Timeval where
  sec := t / 1000000
  usec := t % 1000000
  usec_nonneg := Int.emod_nonneg _ (by norm_num)
  usec_lt := Int.emod_lt_of_pos _ (by norm_num)

@[simp] theorem micros_ofMicros (t : ℤ) : (ofMicros t).micros = t := by
  simp only [micros, ofMicros]
  omega

instance : Inhabited Timeval := ⟨ofMicros 0⟩

end Timeval

/-! ## The split of a time -/

/-- `t/1000000`, the division of C. -/
def splitSec (t : ℤ) : ℤ := t.tdiv 1000000

/-- `t-1000000*(t/1000000)`. -/
def splitUsec (t : ℤ) : ℤ := t - 1000000 * t.tdiv 1000000

theorem split_join (t : ℤ) : splitSec t * 1000000 + splitUsec t = t := by
  unfold splitSec splitUsec
  ring

theorem splitUsec_lt (t : ℤ) : -1000000 < splitUsec t ∧ splitUsec t < 1000000 := by
  have h : splitUsec t = t.tmod 1000000 := by
    unfold splitUsec
    have := Int.tmod_add_mul_tdiv t 1000000
    omega
  rw [h]
  exact ⟨by have := Int.lt_tmod_of_pos t (show (0 : ℤ) < 1000000 by norm_num); omega,
    Int.tmod_lt_of_pos t (by norm_num)⟩

/-! ## The offset estimate -/

/-- `(2*server_time-client_time_recv-client_time_send)/2`. -/
def offsetEstimate (serverTime clientTimeRecv clientTimeSend : ℤ) : ℤ :=
  (2 * serverTime - clientTimeRecv - clientTimeSend).tdiv 2

/-! ## The send schedule -/

def tcpFreq : ℤ := 10

/-- `1000000/tcp_freq`. -/
def period : ℤ := (1000000 : ℤ).tdiv tcpFreq

structure Schedule where
  lastTime : ℤ
  tarTime : ℤ
  deriving DecidableEq, Repr

namespace Schedule

/-- Before the loop: the first target is the next full second, plus a phase. -/
def start (phase : ℤ) (tv : Timeval) : Schedule where
  lastTime := tv.micros
  tarTime := (tv.sec + 1) * 1000000 + phase

def Due (s : Schedule) (currTime : ℤ) : Prop := s.lastTime ≤ s.tarTime ∧ currTime ≥ s.tarTime

instance (s : Schedule) (c : ℤ) : Decidable (s.Due c) := inferInstanceAs (Decidable (_ ∧ _))

def fire (s : Schedule) (currTime : ℤ) : Schedule where
  lastTime := currTime
  tarTime := s.tarTime + period

def step (s : Schedule) (currTime : ℤ) : Schedule := if s.Due currTime then s.fire currTime else s

theorem step_of_due {s : Schedule} {c : ℤ} (h : s.Due c) : s.step c = s.fire c := if_pos h

theorem step_of_not_due {s : Schedule} {c : ℤ} (h : ¬ s.Due c) : s.step c = s := if_neg h

end Schedule

def listenerPhase : ℤ := 0

/-- `tar_time` of TCP_Client2 starts 60 ms after a full second. -/
def client2Phase : ℤ := 60000

end LidarRelay
