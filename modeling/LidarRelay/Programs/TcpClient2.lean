import LidarRelay.Programs.Client

/-! # `TCP_Client2.c`: the vehicle PC -/

namespace LidarRelay.TcpClient2
open LidarRelay
set_option autoImplicit false
set_option maxHeartbeats 250000

structure State where
  angle : ℚ := 1.1
  xRecv : ℚ := 0
  yRecv : ℚ := 0
  xEst : ℚ := 0
  yEst : ℚ := 0
  thetaRecv : ℚ := 0
  velRecv : ℚ := 0
  commuDelay : ℤ := 0
  times : Times := {}
  buf : Buffer maxDataSize := default

def requestText (s : State) (currTime : ℤ) : List Byte :=
  angleText s.angle (splitSec (currTime + s.times.dtime)) (splitUsec (currTime + s.times.dtime))

def formatRequest (s : State) : Except Fault (List Byte) :=
  sprintf 100 (angleText s.angle s.times.clientSec s.times.clientUsec)

def encodeRequest (currTime : ℤ) : Exec State (List Byte) := do
  Exec.modify fun s => { s with times := s.times.stamp (currTime + s.times.dtime) }
  let s ← Exec.get
  Exec.lift (formatRequest s)

def decodeReply (chunk : List Byte) : Exec State Unit := do
  let s ← Exec.get
  let b ← Exec.lift (terminate s.buf chunk)
  let (p, t) ← Exec.lift (strtok comma (Scan.start b))
  let v ← Exec.lift (strtod p)
  Exec.modify fun s => { s with xRecv := v }
  let (p, t) ← Exec.lift (strtok comma t)
  let v ← Exec.lift (strtod p)
  Exec.modify fun s => { s with yRecv := v }
  let (p, t) ← Exec.lift (strtok comma t)
  let v ← Exec.lift (strtod p)
  Exec.modify fun s => { s with thetaRecv := v }
  let (p, t) ← Exec.lift (strtok comma t)
  let v ← Exec.lift (strtod p)
  Exec.modify fun s => { s with velRecv := v }
  let (p, t) ← Exec.lift (strtok comma t)
  let serverSec ← Exec.lift (atoi pcLong p)
  let (p, t) ← Exec.lift (strtok comma t)
  let serverUsec ← Exec.lift (atoi pcLong p)
  Exec.modify fun s => { s with times := s.times.setServer serverSec serverUsec, buf := t.buffer }

section Estimate
variable (cos sin : ℚ → ℚ)

/-- The branch `count_calibr!=0`: the delay and the extrapolated position. -/
def estimate (s : State) : State :=
  let commuDelay := s.times.clientTimeRecv - s.times.serverTime + s.times.dtime
  { s with
    commuDelay := commuDelay
    xEst := s.xRecv + s.velRecv * cos (s.thetaRecv * 3.1415 / 180) * commuDelay / 1000000
    yEst := s.yRecv + s.velRecv * sin (s.thetaRecv * 3.1415 / 180) * commuDelay / 1000000 }

/-- What follows the decode. `tvSend` is the reading at the head of the loop, `tvRecv` the one
after the decode. -/
def finish (tvSend tvRecv : Timeval) (s : State) : State :=
  let s := { s with times := { s.times with clientTimeSend := tvSend.micros,
                                            clientTimeRecv := tvRecv.micros } }
  if s.times.countCalibr = 0 then { s with times := s.times.setDtime } else estimate cos sin s

structure Pose where
  x : ℚ
  y : ℚ
  theta : ℚ
  vel : ℚ

/-- The guarded branch of the loop, in the numbers of its reply. -/
def exchange (p : Pose) (e : Exchange) (s : State) : State :=
  finish cos sin e.tvSend e.tvRecv
    { s with xRecv := p.x, yRecv := p.y, thetaRecv := p.theta, velRecv := p.vel
             times := (s.times.stamp (e.tvSend.micros + s.times.dtime)).setServer e.sec e.usec }

end Estimate

theorem encodeRequest_ok {s : State} {currTime : ℤ} (h : (requestText s currTime).length < 100) :
    encodeRequest currTime s = ({ s with times := s.times.stamp (currTime + s.times.dtime) },
      .ok (requestText s currTime ++ [nul])) := by
  rw [encodeRequest, Exec.modify_bind, Exec.get_bind, Exec.lift_run]
  exact congrArg (Prod.mk _) (sprintf_ok h)

theorem encodeRequest_eq_ok {s s' : State} {currTime : ℤ} {out : List Byte}
    (h : encodeRequest currTime s = (s', .ok out)) :
    (requestText s currTime).length < 100 ∧
      s' = { s with times := s.times.stamp (currTime + s.times.dtime) } ∧
      out = requestText s currTime ++ [nul] := by
  rw [encodeRequest, Exec.modify_bind, Exec.get_bind, Exec.lift_run] at h
  obtain ⟨rfl, hsp⟩ := Prod.mk.inj h
  obtain ⟨hlen, rfl⟩ := sprintf_eq_ok hsp
  exact ⟨hlen, rfl, rfl⟩

theorem decodeReply_poseText {x y theta vel : ℚ} {sec usec sec' usec' : ℤ}
    (hlen : (poseText x y theta vel sec usec).length < maxDataSize)
    (hsec : atoi pcLong (some (formatLd sec)) = .ok sec')
    (husec : atoi pcLong (some (formatLd usec)) = .ok usec') (s : State) :
    ∃ buf', decodeReply (poseText x y theta vel sec usec ++ [nul]) s =
      ({ s with xRecv := printedF x, yRecv := printedF y, thetaRecv := printedF theta,
                velRecv := printedF vel, times := s.times.setServer sec' usec', buf := buf' },
        .ok ()) := by
  obtain ⟨b, hb, tail, h⟩ := terminate_ok s.buf hlen
  simp only [poseText, List.append_assoc, List.cons_append] at h
  obtain ⟨s1, h1, r1⟩ := strtok_comma (s := Scan.start b) (formatF_clean x) h
  obtain ⟨s2, h2, r2⟩ := strtok_comma (formatF_clean y) r1
  obtain ⟨s3, h3, r3⟩ := strtok_comma (formatF_clean theta) r2
  obtain ⟨s4, h4, r4⟩ := strtok_comma (formatF_clean vel) r3
  obtain ⟨s5, h5, r5⟩ := strtok_comma (formatLd_clean sec) r4
  obtain ⟨s6, h6, -⟩ := strtok_last (formatLd_clean usec) r5
  refine ⟨s6.buffer, ?_⟩
  simp only [decodeReply, hb, h1, h2, h3, h4, h5, h6, strtod_formatF, hsec, husec, Exec.get_bind,
    Exec.lift_ok_bind, Exec.modify_bind, Exec.modify_run]

/-- On a reply delivered whole the bytes of an exchange come to its numbers. -/
theorem exchange_of_bytes (cos sin : ℚ → ℚ) {s s₁ : State} {tvSend : Timeval} {out : List Byte}
    (henc : encodeRequest tvSend.micros s = (s₁, .ok out)) {x y theta vel : ℚ}
    {sec usec sec' usec' : ℤ} (hlen : (poseText x y theta vel sec usec).length < maxDataSize)
    (hsec : atoi pcLong (some (formatLd sec)) = .ok sec')
    (husec : atoi pcLong (some (formatLd usec)) = .ok usec') (tvRecv : Timeval) :
    ∃ s₂ buf', decodeReply (poseText x y theta vel sec usec ++ [nul]) s₁ = (s₂, .ok ()) ∧
      finish cos sin tvSend tvRecv s₂ =
        { exchange cos sin ⟨printedF x, printedF y, printedF theta, printedF vel⟩
            ⟨tvSend, tvRecv, sec', usec'⟩ s with buf := buf' } := by
  obtain ⟨-, rfl, -⟩ := encodeRequest_eq_ok henc
  obtain ⟨buf', hdec⟩ := decodeReply_poseText hlen hsec husec
    { s with times := s.times.stamp (tvSend.micros + s.times.dtime) }
  refine ⟨_, buf', hdec, ?_⟩
  simp only [exchange, finish]
  split
  · rfl
  · rfl

/-! ## The program -/

theorem encodeRequest_keeps (currTime : ℤ) :
    Exec.Keeps (fun s : State => (s.times.dtime, s.times.countCalibr)) (encodeRequest currTime) :=
  .bind (.modify fun _ => rfl) fun _ => .bind .get fun _ => .lift _

theorem decodeReply_keeps (chunk : List Byte) :
    Exec.Keeps (fun s : State => (s.times.dtime, s.times.countCalibr)) (decodeReply chunk) :=
  .bind .get fun _ => .bind (.lift _) fun _ =>
    .bind (.lift _) fun (_, _) => .bind (.lift _) fun _ => .bind (.modify fun _ => rfl) fun _ =>
    .bind (.lift _) fun (_, _) => .bind (.lift _) fun _ => .bind (.modify fun _ => rfl) fun _ =>
    .bind (.lift _) fun (_, _) => .bind (.lift _) fun _ => .bind (.modify fun _ => rfl) fun _ =>
    .bind (.lift _) fun (_, _) => .bind (.lift _) fun _ => .bind (.modify fun _ => rfl) fun _ =>
    .bind (.lift _) fun (_, _) => .bind (.lift _) fun _ =>
    .bind (.lift _) fun (_, _) => .bind (.lift _) fun _ => .modify fun _ => rfl

/-- The program; nothing arrives for it beside the replies. -/
def client (cos sin : ℚ → ℚ) : Client where
  State := State
  Input := Empty
  start := {}
  times := State.times
  spin := fun _ s => s
  encode := fun tv => encodeRequest tv.micros
  decode := decodeReply
  finish := finish cos sin
  times_start := rfl
  times_spin := fun _ _ => rfl
  encode_same := fun tv => Times.same_of_keeps (encodeRequest_keeps tv.micros)
  decode_same := fun chunk => Times.same_of_keeps (decodeReply_keeps chunk)
  finish_first := fun _ _ _ h => by
    simp only [finish, h, if_true]
    exact ⟨rfl, rfl⟩
  finish_later := fun _ _ _ h => by
    simp only [finish, h, if_false]
    exact ⟨rfl, rfl⟩

end LidarRelay.TcpClient2
