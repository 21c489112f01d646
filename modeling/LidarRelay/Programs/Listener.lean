import LidarRelay.Programs.Client

/-! # `listener.cpp`: the lidar PC -/

namespace LidarRelay

structure LidarGrad where
  x : ℚ
  y : ℚ
  theta : ℚ
  vel : ℚ
  timeSec : ℤ
  timeUsec : ℤ

namespace Listener
set_option autoImplicit false
set_option maxHeartbeats 250000

structure State where
  x : ℚ := 0
  y : ℚ := 0
  theta : ℚ := 0
  vel : ℚ := 0
  lidarTimeSec : ℤ := 0
  lidarTimeUsec : ℤ := 0
  angleRecv : ℚ := 0
  times : Times := {}
  buf : Buffer maxDataSize := default

def gpsCallback (msg : LidarGrad) (s : State) : State :=
  { s with x := msg.x, y := msg.x, theta := msg.theta, vel := msg.vel,
           lidarTimeSec := msg.timeSec, lidarTimeUsec := msg.timeUsec }

/-- `ros::spinOnce`, the queue of the subscriber holding one message at most. -/
def spinOnce (queue : Option LidarGrad) (s : State) : State :=
  match queue with
  | none => s
  | some msg => gpsCallback msg s

def stampTime (s : State) : ℤ := s.lidarTimeSec * 1000000 + s.lidarTimeUsec + s.times.dtime

def requestText (s : State) : List Byte :=
  poseText s.x s.y s.theta s.vel (splitSec (stampTime s)) (splitUsec (stampTime s))

def formatRequest (s : State) : Except Fault (List Byte) :=
  sprintf 100 (poseText s.x s.y s.theta s.vel s.times.clientSec s.times.clientUsec)

/-- The encode of a request in `main`; the value is what `send` gets. -/
def encodeRequest : Exec State (List Byte) := do
  Exec.modify fun s => { s with times := s.times.stamp (stampTime s) }
  let s ← Exec.get
  Exec.lift (formatRequest s)

def decodeReply (chunk : List Byte) : Exec State Unit := do
  let s ← Exec.get
  let b ← Exec.lift (terminate s.buf chunk)
  let (p, t) ← Exec.lift (strtok comma (Scan.start b))
  let v ← Exec.lift (strtod p)
  Exec.modify fun s => { s with angleRecv := v }
  let (p, t) ← Exec.lift (strtok comma t)
  let serverSec ← Exec.lift (atoi pcLong p)
  let (p, t) ← Exec.lift (strtok comma t)
  let serverUsec ← Exec.lift (atoi pcLong p)
  Exec.modify fun s => { s with times := s.times.setServer serverSec serverUsec, buf := t.buffer }

/-- What follows the decode: the calibration on the first reply. `tvSend` is the clock reading
from before the request was formatted, `tvRecv` the one after the decode. -/
def calibrate (tvSend tvRecv : Timeval) (s : Times) : Times :=
  if s.countCalibr = 0 then
    { s with clientTimeSend := tvSend.micros, clientTimeRecv := tvRecv.micros }.setDtime
  else s

/-- The guarded branch of the loop, in the numbers of its reply. -/
def exchange (queue : Option LidarGrad) (angle : ℚ) (e : Exchange) (s : State) : State :=
  let s := spinOnce queue s
  { s with angleRecv := angle
           times := calibrate e.tvSend e.tvRecv
             ((s.times.stamp (stampTime s)).setServer e.sec e.usec) }

theorem encodeRequest_ok {s : State} (h : (requestText s).length < 100) :
    encodeRequest s = ({ s with times := s.times.stamp (stampTime s) },
      .ok (requestText s ++ [nul])) := by
  rw [encodeRequest, Exec.modify_bind, Exec.get_bind, Exec.lift_run]
  exact congrArg (Prod.mk _) (sprintf_ok h)

theorem encodeRequest_error {s : State} (h : ¬ (requestText s).length < 100) :
    encodeRequest s = ({ s with times := s.times.stamp (stampTime s) }, .error .overrun) := by
  rw [encodeRequest, Exec.modify_bind, Exec.get_bind, Exec.lift_run]
  exact congrArg (Prod.mk _) (sprintf_error h)

theorem encodeRequest_eq_ok {s s' : State} {out : List Byte} (h : encodeRequest s = (s', .ok out)) :
    (requestText s).length < 100 ∧ s' = { s with times := s.times.stamp (stampTime s) } ∧
      out = requestText s ++ [nul] := by
  rw [encodeRequest, Exec.modify_bind, Exec.get_bind, Exec.lift_run] at h
  obtain ⟨rfl, hsp⟩ := Prod.mk.inj h
  obtain ⟨hlen, rfl⟩ := sprintf_eq_ok hsp
  exact ⟨hlen, rfl, rfl⟩

theorem decodeReply_angleText {angle : ℚ} {sec usec sec' usec' : ℤ}
    (hlen : (angleText angle sec usec).length < maxDataSize)
    (hsec : atoi pcLong (some (formatLd sec)) = .ok sec')
    (husec : atoi pcLong (some (formatLd usec)) = .ok usec') (s : State) :
    ∃ buf', decodeReply (angleText angle sec usec ++ [nul]) s =
      ({ s with angleRecv := printedF angle, times := s.times.setServer sec' usec', buf := buf' },
        .ok ()) := by
  obtain ⟨b, hb, tail, h⟩ := terminate_ok s.buf hlen
  simp only [angleText, List.append_assoc, List.cons_append] at h
  obtain ⟨s1, h1, r1⟩ := strtok_comma (s := Scan.start b) (formatF_clean angle) h
  obtain ⟨s2, h2, r2⟩ := strtok_comma (formatLd_clean sec) r1
  obtain ⟨s3, h3, -⟩ := strtok_last (formatLd_clean usec) r2
  refine ⟨s3.buffer, ?_⟩
  simp only [decodeReply, hb, h1, h2, h3, strtod_formatF, hsec, husec, Exec.get_bind,
    Exec.lift_ok_bind, Exec.modify_bind, Exec.modify_run]

/-- On a reply delivered whole the bytes of an exchange come to its numbers. -/
theorem exchange_of_bytes {queue : Option LidarGrad} {s s₁ : State} {out : List Byte}
    (henc : encodeRequest (spinOnce queue s) = (s₁, .ok out)) {angle : ℚ}
    {sec usec sec' usec' : ℤ} (hlen : (angleText angle sec usec).length < maxDataSize)
    (hsec : atoi pcLong (some (formatLd sec)) = .ok sec')
    (husec : atoi pcLong (some (formatLd usec)) = .ok usec') (tvSend tvRecv : Timeval) :
    ∃ s₂ buf', decodeReply (angleText angle sec usec ++ [nul]) s₁ = (s₂, .ok ()) ∧
      { s₂ with times := calibrate tvSend tvRecv s₂.times } =
        { exchange queue (printedF angle) ⟨tvSend, tvRecv, sec', usec'⟩ s with buf := buf' } := by
  obtain ⟨-, rfl, -⟩ := encodeRequest_eq_ok henc
  obtain ⟨buf', hdec⟩ := decodeReply_angleText hlen hsec husec
    { spinOnce queue s with times := (spinOnce queue s).times.stamp (stampTime (spinOnce queue s)) }
  exact ⟨_, buf', hdec, rfl⟩

/-! ## The program -/

theorem encodeRequest_keeps :
    Exec.Keeps (fun s : State => (s.times.dtime, s.times.countCalibr)) encodeRequest :=
  .bind (.modify fun _ => rfl) fun _ => .bind .get fun _ => .lift _

theorem decodeReply_keeps {β : Type} {f : State → β} (hangle : ∀ s v, f { s with angleRecv := v } = f s)
    (hserver : ∀ s sec usec b, f { s with times := s.times.setServer sec usec, buf := b } = f s)
    (chunk : List Byte) : Exec.Keeps f (decodeReply chunk) :=
  .bind .get fun _ => .bind (.lift _) fun _ =>
    .bind (.lift _) fun (_, _) => .bind (.lift _) fun v => .bind (.modify fun s => hangle s v) fun _ =>
    .bind (.lift _) fun (_, _) => .bind (.lift _) fun sec =>
    .bind (.lift _) fun (_, t) => .bind (.lift _) fun usec =>
    .modify fun s => hserver s sec usec t.buffer

def client : Client where
  State := State
  Input := LidarGrad
  start := {}
  times := State.times
  spin := spinOnce
  encode := fun _ => encodeRequest
  decode := decodeReply
  finish := fun tvSend tvRecv s => { s with times := calibrate tvSend tvRecv s.times }
  times_start := rfl
  times_spin := fun q _ => by cases q <;> rfl
  encode_same := fun _ => Times.same_of_keeps encodeRequest_keeps
  decode_same := fun chunk => Times.same_of_keeps
    (decodeReply_keeps (fun _ _ => rfl) (fun _ _ _ _ => rfl) chunk)
  finish_first := fun _ _ _ h => by
    simp only [calibrate, h, if_true]
    exact ⟨rfl, rfl⟩
  finish_later := fun _ _ _ h => by
    simp only [calibrate, h, if_false]
    exact ⟨rfl, rfl⟩

end Listener
end LidarRelay
