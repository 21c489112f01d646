import LidarRelay.Programs.Clock
import LidarRelay.Programs.Wire

/-! # What `listener.cpp` and `TCP_Client2.c` have in common

The array a client receives into, the variables of its clock calibration, and the shape of its
loop: a `Client` is one of the two programs, with what every program of that shape does to the
variables of the calibration.
-/

namespace LidarRelay
set_option autoImplicit false
set_option maxHeartbeats 250000

def maxDataSize : ℕ := 100

/-- The number of bits of a `long` on the two PCs. -/
def pcLong : ℕ := 64

/-- The time variables of `main` in both clients. -/
structure Times where
  dtime : ℤ := 0
  serverSec : ℤ := 0
  serverUsec : ℤ := 0
  serverTime : ℤ := 0
  clientSec : ℤ := 0
  clientUsec : ℤ := 0
  clientTimeSend : ℤ := 0
  clientTimeRecv : ℤ := 0
  countCalibr : ℤ := 0

namespace Times

/-- `client_sec=client_time_send/1000000; client_usec=…` for a value of `client_time_send`. -/
def stamp (s : Times) (clientTimeSend : ℤ) : Times :=
  { s with clientTimeSend := clientTimeSend, clientSec := splitSec clientTimeSend,
           clientUsec := splitUsec clientTimeSend }

/-- `server_sec=…; server_usec=…; server_time=server_sec*1000000+server_usec`. -/
def setServer (s : Times) (sec usec : ℤ) : Times :=
  { s with serverSec := sec, serverUsec := usec, serverTime := sec * 1000000 + usec }

/-- The branch `count_calibr==0`. -/
def setDtime (s : Times) : Times :=
  { s with dtime := offsetEstimate s.serverTime s.clientTimeRecv s.clientTimeSend, countCalibr := 1 }

end Times

/-- The two variables that only a calibration assigns. -/
structure Times.Same (t t' : Times) : Prop where
  dtime : t'.dtime = t.dtime
  count : t'.countCalibr = t.countCalibr

/-- A client program. `spin` is what happens at the head of the guarded branch, `encode` and
`decode` work on the bytes of a request and of a reply, and `finish` gets the two clock readings
that belong to the exchange. -/
structure Client where
  State : Type
  Input : Type
  start : State
  times : State → Times
  spin : Option Input → State → State
  encode : Timeval → Exec State (List Byte)
  decode : List Byte → Exec State Unit
  finish : Timeval → Timeval → State → State
  times_start : times start = {}
  times_spin : ∀ q s, times (spin q s) = times s
  encode_same : ∀ tv s, Times.Same (times s) (times (encode tv s).1)
  decode_same : ∀ chunk s, Times.Same (times s) (times (decode chunk s).1)
  finish_first : ∀ tvSend tvRecv s, (times s).countCalibr = 0 →
    (times (finish tvSend tvRecv s)).countCalibr = 1 ∧
      (times (finish tvSend tvRecv s)).dtime =
        offsetEstimate (times s).serverTime tvRecv.micros tvSend.micros
  finish_later : ∀ tvSend tvRecv s, (times s).countCalibr ≠ 0 →
    Times.Same (times s) (times (finish tvSend tvRecv s))

theorem Times.same_of_keeps {σ α : Type} {times : σ → Times} {m : Exec σ α}
    (h : Exec.Keeps (fun s => ((times s).dtime, (times s).countCalibr)) m) (s : σ) :
    Times.Same (times s) (times (m s).1) :=
  ⟨congrArg Prod.fst (h s), congrArg Prod.snd (h s)⟩

/-- What one pass through the guarded branch brings into the time variables: the two clock readings
that calibrate and the two numbers of the reply. -/
structure Exchange where
  tvSend : Timeval
  tvRecv : Timeval
  sec : ℤ
  usec : ℤ

/-- `recv` into `buf` and `buf[num-1]='\0'`. -/
def terminate (buf : Buffer maxDataSize) (chunk : List Byte) : Except Fault (Buffer maxDataSize) :=
  (buf.recv chunk).store ((chunk.length : ℤ) - 1) nul

/-- The last byte delivered becomes the NUL. -/
theorem terminate_chunk (buf : Buffer maxDataSize) (chunk : Chunk maxDataSize) :
    ∃ b, terminate buf chunk.bytes = .ok b ∧
      b.bytes = chunk.bytes.dropLast ++ nul :: buf.bytes.drop chunk.bytes.length := by
  obtain ⟨bytes, hpos, hle⟩ := chunk
  exact buf.recv_store_last hpos hle

theorem terminate_ok (buf : Buffer maxDataSize) {text : List Byte} (h : text.length < maxDataSize) :
    ∃ b, terminate buf (text ++ [nul]) = .ok b ∧ Holds b text := by
  obtain ⟨b, hb, hbytes⟩ := terminate_chunk buf ⟨text ++ [nul], by simp, by simpa using h⟩
  rw [List.dropLast_concat] at hbytes
  exact ⟨b, hb, _, hbytes⟩

end LidarRelay
