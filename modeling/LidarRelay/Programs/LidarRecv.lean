import LidarRelay.Programs.Device
import LidarRelay.Programs.Wire

/-! # `lidar_recv.c`: the on-board unit -/

namespace LidarRelay.LidarRecv
open LidarRelay
set_option autoImplicit false
set_option maxHeartbeats 250000

def measured (g : Globals) : BsmMeasured where
  unixTime := 0
  angle := g.angleRecv
  latitude := 10
  longitude := 114.17543
  heading := 0
  speed := 1 * 3.6

def v2xBsmRecvHandle (userBsm : V2xMsgBsm) (g : Globals) : Globals :=
  { g with xRecv := userBsm.latitude, yRecv := userBsm.longitude, thetaRecv := userBsm.heading,
           velRecv := userBsm.speed, unixtimeRecv := userBsm.unixTime }

/-- The decode in the receive loop of `main`, from `strtok(buf, ",")` on. -/
def decodeRequest (buf : Buffer maxRecvLen) : Exec Globals (Buffer maxRecvLen) := do
  let (p, t) ← Exec.lift (strtok comma (Scan.start buf))
  let v ← Exec.lift (strtod p)
  Exec.modify fun g => { g with angleRecv := v }
  let (p, t) ← Exec.lift (strtok comma t)
  let clientSec ← Exec.lift (atoi deviceLong p)
  let (p, t) ← Exec.lift (strtok comma t)
  let clientUsec ← Exec.lift (atoi deviceLong p)
  Exec.modify fun g => { g with unixtimeSend := (clientSec : ℚ) + (clientUsec : ℚ) / 1000000 }
  return t.buffer

def replyText (g : Globals) (sec usec : ℤ) : List Byte :=
  poseText g.xRecv g.yRecv g.thetaRecv g.velRecv sec usec

def device : Device where
  measured := measured
  recvHandle := v2xBsmRecvHandle
  decode := decodeRequest
  replyText := replyText

def v2xFillBsmMsg (usrBsm : Option V2xMsgBsm) (g : Globals) : ℤ × Option V2xMsgBsm × Globals :=
  device.v2xFillBsmMsg usrBsm g

def decoded (g : Globals) (angle : ℚ) (sec usec : ℤ) : Globals :=
  { g with angleRecv := angle, unixtimeSend := (sec : ℚ) + (usec : ℚ) / 1000000 }

theorem decodeRequest_angleText {buf : Buffer maxRecvLen} {angle : ℚ} {sec usec : ℤ}
    {sec' usec' : ℤ} (h : Holds buf (angleText angle sec usec))
    (hsec : atoi deviceLong (some (formatLd sec)) = .ok sec')
    (husec : atoi deviceLong (some (formatLd usec)) = .ok usec') (g : Globals) :
    ∃ buf', decodeRequest buf g = (decoded g (printedF angle) sec' usec', .ok buf') := by
  obtain ⟨tail, h⟩ := h
  simp only [angleText, List.append_assoc, List.cons_append] at h
  obtain ⟨s1, h1, r1⟩ := strtok_comma (s := Scan.start buf) (formatF_clean angle) h
  obtain ⟨s2, h2, r2⟩ := strtok_comma (formatLd_clean sec) r1
  obtain ⟨s3, h3, -⟩ := strtok_last (formatLd_clean usec) r2
  refine ⟨s3.buffer, ?_⟩
  simp only [decodeRequest, h1, h2, h3, strtod_formatF, hsec, husec, Exec.lift_ok_bind,
    Exec.modify_bind, Exec.pure_run, decoded]

theorem decodeRequest_recv {angle : ℚ} {sec usec : ℤ}
    (hlen : (angleText angle sec usec).length < maxRecvLen) (husec : FitsInt usec)
    (buf : Buffer maxRecvLen) (g : Globals) :
    ∃ buf', decodeRequest (buf.recv (angleText angle sec usec ++ [nul])) g =
      (decoded g (printedF angle) (clampLong 32 sec) usec, .ok buf') :=
  decodeRequest_angleText (recv_holds buf hlen) (atoi_formatLd_clamp sec)
    (atoi_formatLd le_rfl husec) g

/-- A request leaves what came over the air alone, also one that ends in a fault. -/
theorem decodeRequest_keeps (buf : Buffer maxRecvLen) : Exec.Keeps (fun g : Globals =>
    (g.xRecv, g.yRecv, g.thetaRecv, g.velRecv, g.unixtimeRecv)) (decodeRequest buf) :=
  .bind (.lift _) fun (_, _) => .bind (.lift _) fun _ => .bind (.modify fun _ => rfl) fun _ =>
    .bind (.lift _) fun (_, _) => .bind (.lift _) fun _ =>
    .bind (.lift _) fun (_, _) => .bind (.lift _) fun _ => .bind (.modify fun _ => rfl) fun _ =>
    .pure _

end LidarRelay.LidarRecv
