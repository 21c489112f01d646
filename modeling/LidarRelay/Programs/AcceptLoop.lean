import LidarRelay.Foundations.PeriodicTimer
import LidarRelay.Programs.Device

/-! # The process of a device program

`main` of `lidar_send.c` and of `lidar_recv.c` alike: an outer loop that accepts one connection
after another, registers the BSM callback and arms a timer for each, and an inner loop that serves
one connection until `recv` returns 0 or an error. The timer callback and the BSM callback run
beside them on the same globals.
-/

namespace LidarRelay
set_option autoImplicit false
set_option maxHeartbeats 250000

/-- `it_value` and `it_interval` as `v2x_set_timer` fills them, in nanoseconds. -/
def timerValue (timeMsec : ℤ) : ℤ :=
  timeMsec.tdiv 1000 * 1000000000 + timeMsec.tmod 1000 * 1000000

def bsmPeriod : ℤ := timerValue 50

/-- The timer that `v2x_create_timer` and `v2x_set_timer` leave armed at `now`. -/
def bsmTimer (now : ℤ) : PeriodicTimer where
  first := now + bsmPeriod
  interval := bsmPeriod
  interval_pos := by decide

/-- Which of the calls from `accept` to the receive loop succeed. -/
structure Setup where
  accept : Bool := true
  register : Bool := true
  createTimer : Bool := true
  setTimer : Bool := true

def Setup.Succeeds (setup : Setup) : Prop :=
  setup.accept ∧ setup.register ∧ setup.createTimer ∧ setup.setTimer

instance (setup : Setup) : Decidable setup.Succeeds := inferInstanceAs (Decidable (_ ∧ _ ∧ _ ∧ _))

/-- The state of the process: `ι` names the connections, `conn` is the one in the inner loop. A
timer stays armed as long as the process runs, whether `bsm_send_timer` still names it or not. -/
structure DeviceProcess (ι : Type) where
  serving : Serving := ⟨{}, default, 0⟩
  conn : Option ι := none
  registered : Bool := false
  timers : List PeriodicTimer := []
  running : Bool := true

namespace DeviceProcess
variable {ι : Type}

/-- `exit(1)` and `return -1` end the timers with the process. -/
def exit (p : DeviceProcess ι) : DeviceProcess ι :=
  { p with conn := none, registered := false, timers := [], running := false }

def opened (p : DeviceProcess ι) (i : ι) (now : ℤ) : DeviceProcess ι :=
  { p with conn := some i, registered := true, timers := p.timers ++ [bsmTimer now],
           serving := { p.serving with countCalibr := 0 } }

@[simp] theorem opened_timers (p : DeviceProcess ι) (i : ι) (now : ℤ) :
    (p.opened i now).timers = p.timers ++ [bsmTimer now] := rfl

@[simp] theorem opened_conn (p : DeviceProcess ι) (i : ι) (now : ℤ) :
    (p.opened i now).conn = some i := rfl

/-- From `accept` to the head of the inner loop. -/
def accept (p : DeviceProcess ι) (i : ι) (now : ℤ) (setup : Setup) : Option (DeviceProcess ι) :=
  if p.running ∧ p.conn.isNone then
    if setup.Succeeds then some (p.opened i now) else some p.exit
  else none

/-- One pass through the inner loop with `iret>0`, and what it sends; none where the behaviour of
the pass is undefined. -/
def receive (d : Device) (p : DeviceProcess ι) (chunk : List Byte) (tv : Timeval) :
    Option (DeviceProcess ι × List Byte) :=
  if p.conn.isSome then
    match d.serve chunk tv p.serving with
    | (s, .ok out) => some ({ p with serving := s }, out)
    | (_, .error _) => none
  else none

/-- `recv` returns 0 or an error: `close(connectfd); break;`. -/
def hangup (p : DeviceProcess ι) : Option (DeviceProcess ι) :=
  if p.conn.isSome then some { p with conn := none } else none

def tick (d : Device) (p : DeviceProcess ι) : Option (DeviceProcess ι × Option V2xMsgBsm) :=
  if p.timers = [] then none
  else
    let r := d.v2xBsmTxHandle p.serving.g
    some ({ p with serving := { p.serving with g := r.2 } }, r.1)

def hear (d : Device) (p : DeviceProcess ι) (bsm : V2xMsgBsm) : DeviceProcess ι :=
  if p.registered then
    { p with serving := { p.serving with g := d.recvHandle bsm p.serving.g } }
  else p

@[simp] theorem hear_conn (d : Device) (p : DeviceProcess ι) (bsm : V2xMsgBsm) :
    (p.hear d bsm).conn = p.conn := by
  unfold hear
  split <;> rfl

@[simp] theorem hear_countCalibr (d : Device) (p : DeviceProcess ι) (bsm : V2xMsgBsm) :
    (p.hear d bsm).serving.countCalibr = p.serving.countCalibr := by
  unfold hear
  split <;> rfl

theorem accept_eq_some {p p' : DeviceProcess ι} {i : ι} {now : ℤ} {setup : Setup}
    (h : p.accept i now setup = some p') :
    p.conn = none ∧ (p' = p.opened i now ∨ p' = p.exit) := by
  unfold accept at h
  split at h
  · rename_i hopen
    have hnone : p.conn = none := Option.isNone_iff_eq_none.mp hopen.2
    split at h
    · exact ⟨hnone, .inl (Option.some.inj h).symm⟩
    · exact ⟨hnone, .inr (Option.some.inj h).symm⟩
  · cases h

theorem receive_eq_some {d : Device} {p p' : DeviceProcess ι} {chunk out : List Byte} {tv : Timeval}
    (h : p.receive d chunk tv = some (p', out)) :
    p.conn.isSome ∧ ∃ s, d.serve chunk tv p.serving = (s, .ok out) ∧ p' = { p with serving := s } := by
  unfold receive at h
  split at h
  · rename_i hconn
    refine ⟨hconn, ?_⟩
    rcases hs : d.serve chunk tv p.serving with ⟨s, r⟩
    rw [hs] at h
    cases r with
    | error f => cases h
    | ok o =>
      obtain ⟨rfl, rfl⟩ := Prod.mk.inj (Option.some.inj h)
      exact ⟨s, rfl, rfl⟩
  · cases h

theorem hangup_eq_some {p p' : DeviceProcess ι} (h : p.hangup = some p') :
    p.conn.isSome ∧ p' = { p with conn := none } := by
  unfold hangup at h
  split at h
  · rename_i hconn
    exact ⟨hconn, (Option.some.inj h).symm⟩
  · cases h

end DeviceProcess
end LidarRelay
