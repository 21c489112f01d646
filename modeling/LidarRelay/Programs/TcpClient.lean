import LidarRelay.Programs.Client

/-! # `TCP_Client.c`: the client of the echo server

It asks without a schedule, one request after another, and reads each reply as a number and a time.
-/

namespace LidarRelay.TcpClient
set_option autoImplicit false
set_option maxHeartbeats 250000

def latitude : ℚ := 10.8742111

structure State where
  angleRecv : ℚ := 0
  times : Times := {}
  buf : Buffer maxDataSize := default

def requestText (s : State) (currTime : ℤ) : List Byte :=
  angleText latitude (splitSec (currTime + s.times.dtime)) (splitUsec (currTime + s.times.dtime))

def encodeRequest (currTime : ℤ) : Exec State (List Byte) := do
  Exec.modify fun s => { s with times := s.times.stamp (currTime + s.times.dtime) }
  let s ← Exec.get
  Exec.lift (sprintf 100 (angleText latitude s.times.clientSec s.times.clientUsec))

def decodeReply (chunk : List Byte) : Exec State Unit := do
  let s ← Exec.get
  let b ← Exec.lift (terminate s.buf chunk)
  let (p, t) ← Exec.lift (strtok comma (Scan.start b))
  let v ← Exec.lift (strtod p)
  Exec.modify fun s => { s with angleRecv := v }
  let (p, t) ← Exec.lift (strtok comma t)
  let serverSec ← Exec.lift (atoi pcLong p)
  let (p, t) ← Exec.lift (strtok comma t)
  let serverUsec ← Exec.lift (atoi pcLong p)
  Exec.modify fun s => { s with times := s.times.setServer serverSec serverUsec, buf := t.buffer }

/-- What follows the decode. `tvSend` is the reading at the head of the loop, `tvRecv` the one in
the branch `count_calibr==0`. -/
def calibrate (tvSend tvRecv : Timeval) (s : Times) : Times :=
  let s := { s with clientTimeSend := tvSend.micros }
  if s.countCalibr = 0 then { s with clientTimeRecv := tvRecv.micros }.setDtime else s

theorem encodeRequest_ok {s : State} {currTime : ℤ} (h : (requestText s currTime).length < 100) :
    encodeRequest currTime s = ({ s with times := s.times.stamp (currTime + s.times.dtime) },
      .ok (requestText s currTime ++ [nul])) := by
  rw [encodeRequest, Exec.modify_bind, Exec.get_bind, Exec.lift_run]
  exact congrArg (Prod.mk _) (sprintf_ok h)

/-- Only the head of a reply counts: what the array holds behind the NUL of the text is not read. -/
theorem decodeReply_head {angle : ℚ} {sec usec sec' usec' : ℤ} {s : State} {chunk : List Byte}
    {b : Buffer maxDataSize} (hb : terminate s.buf chunk = .ok b)
    (hhead : Holds b (angleText angle sec usec))
    (hsec : atoi pcLong (some (formatLd sec)) = .ok sec')
    (husec : atoi pcLong (some (formatLd usec)) = .ok usec') :
    ∃ buf', decodeReply chunk s =
      ({ s with angleRecv := printedF angle, times := s.times.setServer sec' usec', buf := buf' },
        .ok ()) := by
  obtain ⟨tail, h⟩ := hhead
  simp only [angleText, List.append_assoc, List.cons_append] at h
  obtain ⟨s1, h1, r1⟩ := strtok_comma (s := Scan.start b) (formatF_clean angle) h
  obtain ⟨s2, h2, r2⟩ := strtok_comma (formatLd_clean sec) r1
  obtain ⟨s3, h3, -⟩ := strtok_last (formatLd_clean usec) r2
  refine ⟨s3.buffer, ?_⟩
  simp only [decodeReply, hb, h1, h2, h3, strtod_formatF, hsec, husec, Exec.get_bind,
    Exec.lift_ok_bind, Exec.modify_bind, Exec.modify_run]

end LidarRelay.TcpClient
