import LidarRelay.Foundations.SharedRecord
import LidarRelay.Programs.LidarRecv
import LidarRelay.Programs.LidarSend

/-! # Snapshots of the globals of a device

In lidar_send the loop over the connection assigns what a request carries to five globals and the
callback of the timer reads them into a BSM; in lidar_recv the callback of a BSM assigns them and
the loop reads them into a reply. No lock keeps the two threads apart, so a BSM or a reply that is
made in the middle of an assignment mixes two states.
-/

namespace LidarRelay.Snapshot
open SharedRecord
set_option autoImplicit false
set_option maxHeartbeats 250000

/-- The globals through which the two threads of a device pass a state. -/
inductive Field where
  | x | y | theta | vel | time
deriving DecidableEq

def Field.stores : List Field := [.x, .y, .theta, .vel, .time]

def Field.get (time : Globals → ℚ) : Field → Globals → ℚ
  | .x, g => g.xRecv
  | .y, g => g.yRecv
  | .theta, g => g.thetaRecv
  | .vel, g => g.velRecv
  | .time, g => time g

def Field.set (setTime : ℚ → Globals → Globals) : Field → ℚ → Globals → Globals
  | .x, v, g => { g with xRecv := v }
  | .y, v, g => { g with yRecv := v }
  | .theta, v, g => { g with thetaRecv := v }
  | .vel, v, g => { g with velRecv := v }
  | .time, v, g => setTime v g

theorem Field.mem_stores (f : Field) : f ∈ Field.stores := by
  cases f <;> decide

/-! ## lidar_send: requests into BSMs -/

/-- The decode of `main` against `v2x_fill_bsm_msg`, which reads `unixtime_send` first. -/
def lidarSend : SharedRecord Globals Field Field ℚ where
  get := Field.get Globals.unixtimeSend
  set := Field.set fun u g => { g with unixtimeSend := u }
  stores := Field.stores
  field := id
  orders o := o = [.time, .x, .y, .theta, .vel]
  get_set f _ _ := by cases f <;> rfl
  get_set_ne {f f'} _ _ h := by
    cases f <;> cases f' <;> first | rfl | exact absurd rfl h
  mem_stores := Field.mem_stores
  nodup_stores := by decide
  mem_orders := by
    rintro o rfl f
    cases f <;> decide
  nodup_orders := by
    rintro o rfl
    decide

/-- What the decode makes of the numbers of a request. -/
def request (x y theta vel : ℚ) (sec usec : ℤ) : Field → ℚ
  | .x => x
  | .y => y
  | .theta => theta
  | .vel => vel
  | .time => (sec : ℚ) + (usec : ℚ) / 1000000

theorem foldl_request (g : Globals) (x y theta vel : ℚ) (sec usec : ℤ) :
    lidarSend.stores.foldl (fun g f => lidarSend.set f (request x y theta vel sec usec f) g) g =
      LidarSend.decoded g x y theta vel sec usec := rfl

/-- The fields of `v2x_fill_bsm_msg`, given what it has read of the globals. -/
def measuredOf (got : Field → ℚ) : BsmMeasured where
  unixTime := got .time
  angle := 1
  latitude := got .x
  longitude := got .y
  heading := got .theta
  speed := got .vel * 3.6

/-- A fill that nothing comes between is the one of the device. -/
theorem fillBsm_measuredOf (g : Globals) :
    fillBsm g.msgcount (measuredOf fun f => lidarSend.get f g) = LidarSend.device.bsmOf g := rfl

/-- Latitude, longitude, heading, speed and time of a BSM are those of a request. -/
structure Carries (request : Field → ℚ) (bsm : V2xMsgBsm) : Prop where
  latitude : bsm.latitude = request .x
  longitude : bsm.longitude = request .y
  heading : bsm.heading = request .theta
  speed : bsm.speed = request .vel * 3.6
  unixTime : bsm.unixTime = request .time

/-- The arguments of the `sprintf` of a reply: the time is read three times. -/
inductive Slot where
  | x | y | theta | vel | sec | usec | usecSec
deriving DecidableEq

def Slot.field : Slot → Field
  | .x => .x
  | .y => .y
  | .theta => .theta
  | .vel => .vel
  | .sec | .usec | .usecSec => .time

def Slot.all : List Slot := [.x, .y, .theta, .vel, .sec, .usec, .usecSec]

/-- `v2x_bsm_recv_handle` against the reply of `main`, whose arguments C evaluates in any order. -/
def lidarRecv : SharedRecord Globals Field Slot ℚ where
  get := Field.get Globals.unixtimeRecv
  set := Field.set fun u g => { g with unixtimeRecv := u }
  stores := Field.stores
  field := Slot.field
  orders o := o.Perm Slot.all
  get_set f _ _ := by cases f <;> rfl
  get_set_ne {f f'} _ _ h := by
    cases f <;> cases f' <;> first | rfl | exact absurd rfl h
  mem_stores := Field.mem_stores
  nodup_stores := by decide
  mem_orders := by
    intro o ho t
    rw [ho.mem_iff]
    cases t <;> decide
  nodup_orders ho := ho.nodup_iff.mpr (by decide)

def received (bsm : V2xMsgBsm) : Field → ℚ
  | .x => bsm.latitude
  | .y => bsm.longitude
  | .theta => bsm.heading
  | .vel => bsm.speed
  | .time => bsm.unixTime

theorem foldl_received (g : Globals) (bsm : V2xMsgBsm) :
    lidarRecv.stores.foldl (fun g f => lidarRecv.set f (received bsm f) g) g =
      LidarRecv.v2xBsmRecvHandle bsm g := rfl

def replyOf (got : Slot → ℚ) : List Byte :=
  poseText (got .x) (got .y) (got .theta) (got .vel) (toLong (got .sec))
    (toLong ((got .usec - toLong (got .usecSec)) * 1000000))

theorem replyOf_get (g : Globals) : replyOf (fun t => lidarRecv.get (lidarRecv.field t) g) =
    LidarRecv.device.replyText g (relayedSec g.unixtimeRecv) (relayedUsec g.unixtimeRecv) := rfl

def relayed (bsm : Field → ℚ) : List Byte :=
  poseText (bsm .x) (bsm .y) (bsm .theta) (bsm .vel) (relayedSec (bsm .time))
    (relayedUsec (bsm .time))

theorem replyOf_field (bsm : Field → ℚ) : replyOf (fun t => bsm t.field) = relayed bsm := rfl

def OneBsm (s : State Globals Field Slot ℚ) (c : Copy Slot ℚ) : Prop :=
  ∃ k, 0 < k ∧ k ≤ s.number ∧ (∀ t, c.origin t = k) ∧ replyOf c.got = relayed (s.records k)

/-- Each value of the reply is of a BSM, and all are of one when the reading was undisturbed. -/
structure Formatted (s : State Globals Field Slot ℚ) (c : Copy Slot ℚ) : Prop where
  bsms : ∀ t, 0 < c.origin t ∧ c.origin t ≤ s.number
  text : replyOf c.got = replyOf fun t => s.records (c.origin t) t.field
  one : c.undisturbed → OneBsm s c

theorem formatted {s : State Globals Field Slot ℚ} (h : Inv lidarRecv s) :
    ∀ c ∈ s.copies, c.after → Formatted s c := by
  intro c hc ha
  have hknown := h.fieldWise c hc
  refine ⟨fun t => ⟨(hknown t).pos ha, (hknown t).bound⟩,
    congrArg replyOf (funext fun t => (hknown t).value), fun hu => ?_⟩
  obtain ⟨k, hk⟩ := h.oneSource c hc hu
  refine ⟨k, hk .x ▸ (hknown .x).pos ha, hk .x ▸ (hknown .x).bound, hk, ?_⟩
  have hgot : c.got = fun t => s.records k t.field := funext fun t => hk t ▸ (hknown t).value
  rw [hgot, replyOf_field]

/-! ## Every interleaving -/

instance (request : Field → ℚ) (bsm : V2xMsgBsm) : Decidable (Carries request bsm) :=
  decidable_of_iff (bsm.latitude = request .x ∧ bsm.longitude = request .y ∧
      bsm.heading = request .theta ∧ bsm.speed = request .vel * 3.6 ∧ bsm.unixTime = request .time)
    ⟨fun ⟨h1, h2, h3, h4, h5⟩ => ⟨h1, h2, h3, h4, h5⟩,
      fun ⟨h1, h2, h3, h4, h5⟩ => ⟨h1, h2, h3, h4, h5⟩⟩

end LidarRelay.Snapshot
