import LidarRelay.Foundations.Runs
import LidarRelay.Programs.Device

/-! # `TCP_Server.c`: the echo server

The server of the TCP tests, with one array for all its connections. The number that it converts is
only printed, and left out.
-/

namespace LidarRelay.TcpServer
open LidarRelay
set_option autoImplicit false
set_option maxHeartbeats 250000

/-- The string at the head of an array, which `%s` reads up to its NUL. -/
def cString (s : List Byte) : Except Fault (List Byte) :=
  if nul ∈ s then .ok (s.takeWhile (· != nul)) else .error .overrun

def answerPrefix : List Byte :=
  "Message received latitude :".toList.map fun c => UInt8.ofNat c.toNat

/-- One pass through the loop with `iret>0`: the array afterwards and what goes to the client. The
length is that of `sendBuf`, the bytes are those of `buf`. -/
def serve (buf : Buffer maxRecvLen) (chunk : List Byte) :
    Except Fault (Buffer maxRecvLen × List Byte) := do
  let buf := buf.recv chunk
  let text ← cString buf.bytes
  let sendBuf ← sprintf sendBufSize (answerPrefix ++ text)
  return (buf, buf.bytes.take sendBuf.length)

inductive RecvResult where
  | bytes (chunk : Chunk maxRecvLen)
  -- 0 or an error: the next bytes come on another connection
  | ended

def step (buf : Buffer maxRecvLen) : RecvResult → Option (Buffer maxRecvLen)
  | .bytes chunk =>
    match serve buf chunk.bytes with
    | .ok (buf', _) => some buf'
    | .error _ => none
  | .ended => some buf

theorem cString_text {text tail : List Byte} (h : ∀ b ∈ text, b ≠ nul) :
    cString (text ++ nul :: tail) = .ok text := by
  have hall : ∀ b ∈ text, (b != nul) = true := fun b hb => by
    rw [bne_iff_ne]
    exact h b hb
  rw [cString, if_pos (by simp), List.takeWhile_append_of_pos hall,
    List.takeWhile_cons_of_neg (by decide), List.append_nil]

theorem answerPrefix_length : answerPrefix.length = 27 := by decide

theorem serve_text {buf : Buffer maxRecvLen} {chunk text tail : List Byte}
    (hchunk : (buf.recv chunk).bytes = text ++ nul :: tail) (htext : ∀ b ∈ text, b ≠ nul)
    (hfits : text.length + 28 ≤ sendBufSize) :
    serve buf chunk = .ok (buf.recv chunk, (buf.recv chunk).bytes.take (text.length + 28)) := by
  have hlen : (answerPrefix ++ text).length < sendBufSize := by
    rw [List.length_append, answerPrefix_length]
    omega
  have hsent : (answerPrefix ++ text ++ [nul]).length = text.length + 28 := by
    rw [List.length_append, List.length_append, answerPrefix_length, List.length_singleton]
    omega
  simp only [serve, hchunk, cString_text htext, Exec.ok_bind, sprintf_ok hlen, hsent]
  rfl

end LidarRelay.TcpServer
