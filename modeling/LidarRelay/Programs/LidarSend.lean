import LidarRelay.Programs.Device
import LidarRelay.Programs.Wire

/-! # `lidar_send.c`: the road-side unit -/

namespace LidarRelay.LidarSend
open LidarRelay
set_option autoImplicit false
set_option maxHeartbeats 250000

/-- The fields of `v2x_fill_bsm_msg` that are not constants. -/
def measured (g : Globals) : BsmMeasured where
  unixTime := g.unixtimeSend
  angle := 1
  latitude := g.xRecv
  longitude := g.yRecv
  heading := g.thetaRecv
  speed := g.velRecv * 3.6

def v2xBsmRecvHandle (userBsm : V2xMsgBsm) (g : Globals) : Globals :=
  { g with angleRecv := userBsm.angle }

/-- The decode in the receive loop of `main`, from `strtok(buf, ",")` on. -/
def decodeRequest (buf : Buffer maxRecvLen) : Exec Globals (Buffer maxRecvLen) := do
  let (p, t) ← Exec.lift (strtok comma (Scan.start buf))
  let v ← Exec.lift (strtod p)
  Exec.modify fun g => { g with xRecv := v }
  let (p, t) ← Exec.lift (strtok comma t)
  let v ← Exec.lift (strtod p)
  Exec.modify fun g => { g with yRecv := v }
  let (p, t) ← Exec.lift (strtok comma t)
  let v ← Exec.lift (strtod p)
  Exec.modify fun g => { g with thetaRecv := v }
  let (p, t) ← Exec.lift (strtok comma t)
  let v ← Exec.lift (strtod p)
  Exec.modify fun g => { g with velRecv := v }
  let (p, t) ← Exec.lift (strtok comma t)
  let timeSecRecv ← Exec.lift (atoi deviceLong p)
  let (p, t) ← Exec.lift (strtok comma t)
  let timeUsecRecv ← Exec.lift (atoi deviceLong p)
  Exec.modify fun g => { g with unixtimeSend := (timeSecRecv : ℚ) + (timeUsecRecv : ℚ) / 1000000 }
  return t.buffer

def replyText (g : Globals) (sec usec : ℤ) : List Byte := angleText g.angleRecv sec usec

def device : Device where
  measured := measured
  recvHandle := v2xBsmRecvHandle
  decode := decodeRequest
  replyText := replyText

def v2xFillBsmMsg (usrBsm : Option V2xMsgBsm) (g : Globals) : ℤ × Option V2xMsgBsm × Globals :=
  device.v2xFillBsmMsg usrBsm g

def decoded (g : Globals) (x y theta vel : ℚ) (sec usec : ℤ) : Globals :=
  { g with xRecv := x, yRecv := y, thetaRecv := theta, velRecv := vel,
           unixtimeSend := (sec : ℚ) + (usec : ℚ) / 1000000 }

theorem decodeRequest_poseText {buf : Buffer maxRecvLen} {x y theta vel : ℚ} {sec usec : ℤ}
    {sec' usec' : ℤ} (h : Holds buf (poseText x y theta vel sec usec))
    (hsec : atoi deviceLong (some (formatLd sec)) = .ok sec')
    (husec : atoi deviceLong (some (formatLd usec)) = .ok usec') (g : Globals) :
    ∃ buf', decodeRequest buf g =
      (decoded g (printedF x) (printedF y) (printedF theta) (printedF vel) sec' usec',
        .ok buf') := by
  obtain ⟨tail, h⟩ := h
  simp only [poseText, List.append_assoc, List.cons_append] at h
  obtain ⟨s1, h1, r1⟩ := strtok_comma (s := Scan.start buf) (formatF_clean x) h
  obtain ⟨s2, h2, r2⟩ := strtok_comma (formatF_clean y) r1
  obtain ⟨s3, h3, r3⟩ := strtok_comma (formatF_clean theta) r2
  obtain ⟨s4, h4, r4⟩ := strtok_comma (formatF_clean vel) r3
  obtain ⟨s5, h5, r5⟩ := strtok_comma (formatLd_clean sec) r4
  obtain ⟨s6, h6, -⟩ := strtok_last (formatLd_clean usec) r5
  refine ⟨s6.buffer, ?_⟩
  simp only [decodeRequest, h1, h2, h3, h4, h5, h6, strtod_formatF, hsec, husec, Exec.lift_ok_bind,
    Exec.modify_bind, Exec.pure_run, decoded]

/-- A request delivered whole by one `recv`, whatever the buffer held before. -/
theorem decodeRequest_recv {x y theta vel : ℚ} {sec usec : ℤ}
    (hlen : (poseText x y theta vel sec usec).length < maxRecvLen) (husec : FitsInt usec)
    (buf : Buffer maxRecvLen) (g : Globals) :
    ∃ buf', decodeRequest (buf.recv (poseText x y theta vel sec usec ++ [nul])) g =
      (decoded g (printedF x) (printedF y) (printedF theta) (printedF vel) (clampLong 32 sec) usec,
        .ok buf') :=
  decodeRequest_poseText (recv_holds buf hlen) (atoi_formatLd_clamp sec)
    (atoi_formatLd le_rfl husec) g

/-- A request leaves the variables of the replies alone, also one that ends in a fault. -/
theorem decodeRequest_keeps (buf : Buffer maxRecvLen) :
    Exec.Keeps (fun g : Globals => (g.angleRecv, g.unixtimeRecv)) (decodeRequest buf) :=
  .bind (.lift _) fun (_, _) => .bind (.lift _) fun _ => .bind (.modify fun _ => rfl) fun _ =>
    .bind (.lift _) fun (_, _) => .bind (.lift _) fun _ => .bind (.modify fun _ => rfl) fun _ =>
    .bind (.lift _) fun (_, _) => .bind (.lift _) fun _ => .bind (.modify fun _ => rfl) fun _ =>
    .bind (.lift _) fun (_, _) => .bind (.lift _) fun _ => .bind (.modify fun _ => rfl) fun _ =>
    .bind (.lift _) fun (_, _) => .bind (.lift _) fun _ =>
    .bind (.lift _) fun (_, _) => .bind (.lift _) fun _ => .bind (.modify fun _ => rfl) fun _ =>
    .pure _

end LidarRelay.LidarSend
