import LidarRelay.Foundations.DecimalText
import LidarRelay.Programs.Bsm
import LidarRelay.Programs.Clock

/-! # What `lidar_send.c` and `lidar_recv.c` have in common

The two device programs are one program with four differences: the measured fields of the BSM they
fill, what they keep of a BSM they receive, the request they decode and the reply they format. A
`Device` holds these four; everything else of the two files is defined here once. The devices are
32-bit ARM boards, so a `long` has 32 bits on them.
-/

namespace LidarRelay
set_option autoImplicit false
set_option maxHeartbeats 250000

def maxRecvLen : ℕ := 1024

/-- The size of `sendBuf` in all four programs. -/
def sendBufSize : ℕ := 100

/-- The number of bits of a `long` on the devices. -/
def deviceLong : ℕ := 32

/-- The globals of a device program and the static counter of `v2x_fill_bsm_msg`. All of them
start at zero. -/
structure Globals where
  xRecv : ℚ := 0
  yRecv : ℚ := 0
  velRecv : ℚ := 0
  thetaRecv : ℚ := 0
  angleRecv : ℚ := 0
  unixtimeSend : ℚ := 0
  unixtimeRecv : ℚ := 0
  msgcount : UInt32 := 0

structure Device where
  measured : Globals → BsmMeasured
  recvHandle : V2xMsgBsm → Globals → Globals
  decode : Buffer maxRecvLen → Exec Globals (Buffer maxRecvLen)
  replyText : Globals → ℤ → ℤ → List Byte

/-! ## The BSM path -/

def Device.bsmOf (d : Device) (g : Globals) : V2xMsgBsm := fillBsm g.msgcount (d.measured g)

/-- `v2x_fill_bsm_msg`: the return code, the message and the globals afterwards. -/
def Device.v2xFillBsmMsg (d : Device) (usrBsm : Option V2xMsgBsm) (g : Globals) :
    ℤ × Option V2xMsgBsm × Globals :=
  match usrBsm with
  | none => (-1, none, g)
  | some _ => (0, some (d.bsmOf g), { g with msgcount := g.msgcount + 1 })

/-- `v2x_bsm_tx_handle`: the BSM handed to `mde_v2x_send_bsm`, if any. -/
def Device.v2xBsmTxHandle (d : Device) (g : Globals) : Option V2xMsgBsm × Globals :=
  match d.v2xFillBsmMsg (some {}) g with
  | (ret, userBsm, g') => if ret ≠ 0 then (none, g') else (userBsm, g')

theorem Device.v2xBsmTxHandle_eq (d : Device) (g : Globals) :
    d.v2xBsmTxHandle g = (some (d.bsmOf g), { g with msgcount := g.msgcount + 1 }) := rfl

/-! ## The reply -/

def truncate (q : ℚ) : ℤ := if q < 0 then ⌈q⌉ else ⌊q⌋

/-- `(long)u` on a device, or `(int)u`; beyond the range, where C leaves it open, the conversion of
the board stops at its ends. -/
def toLong (q : ℚ) : ℤ := clampLong deviceLong (truncate q)

def relayedSec (u : ℚ) : ℤ := toLong u

def relayedUsec (u : ℚ) : ℤ := toLong ((u - toLong u) * 1000000)

/-- A time stamp of the present and of the next decade survives its passage as a double. -/
theorem relayed_split {sec usec : ℤ} (hs : 0 ≤ sec) (hs' : sec < 2 ^ 31) (hu : 0 ≤ usec)
    (hu' : usec < 1000000) :
    relayedSec ((sec : ℚ) + (usec : ℚ) / 1000000) = sec ∧
      relayedUsec ((sec : ℚ) + (usec : ℚ) / 1000000) = usec := by
  have hfit : ∀ n : ℤ, 0 ≤ n → n < 2 ^ 31 → clampLong deviceLong n = n := fun n h0 h1 =>
    clampLong_fits le_rfl ⟨by linarith, h1⟩
  have hq : (0 : ℚ) ≤ (usec : ℚ) / 1000000 := div_nonneg (by exact_mod_cast hu) (by norm_num)
  have hq' : (usec : ℚ) / 1000000 < 1 := by
    rw [div_lt_one (by norm_num)]
    exact_mod_cast hu'
  have hsq : (0 : ℚ) ≤ sec := by exact_mod_cast hs
  have hsec : relayedSec ((sec : ℚ) + (usec : ℚ) / 1000000) = sec := by
    have hfloor : ⌊(sec : ℚ) + (usec : ℚ) / 1000000⌋ = sec := by
      rw [Int.floor_intCast_add, Int.floor_eq_zero_iff.mpr ⟨hq, hq'⟩, add_zero]
    rw [relayedSec, toLong, truncate, if_neg (by linarith), hfloor, hfit sec hs hs']
  refine ⟨hsec, ?_⟩
  have hfrac : ((sec : ℚ) + (usec : ℚ) / 1000000 - sec) * 1000000 = usec := by ring
  have hnn : ¬ (usec : ℚ) < 0 := by exact_mod_cast not_lt.mpr hu
  rw [relayedSec] at hsec
  rw [relayedUsec, hsec, hfrac, toLong, truncate, if_neg hnn, Int.floor_intCast]
  exact hfit usec hu (by linarith)

theorem fitsInt_splitUsec (t : ℤ) : FitsInt (splitUsec t) := by
  have h := splitUsec_lt t
  unfold FitsInt
  omega

/-! ## The connection loop -/

structure Serving where
  g : Globals
  buf : Buffer maxRecvLen
  countCalibr : ℤ := 0

/-- One successful `recv`: the chunk is decoded into the globals and a reply is formatted. The
first reply on a connection carries the clock of the device, the later ones the time of the last
BSM. The value is what `send` gets. -/
def Device.serve (d : Device) (chunk : List Byte) (tv : Timeval) : Exec Serving (List Byte) := do
  Exec.modify fun s => { s with buf := s.buf.recv chunk }
  let s ← Exec.get
  let b ← Exec.zoom Serving.g (fun g s => { s with g := g }) (d.decode s.buf)
  Exec.modify fun s => { s with buf := b }
  let s ← Exec.get
  if s.countCalibr = 0 then
    let out ← Exec.lift (sprintf sendBufSize (d.replyText s.g tv.sec tv.usec))
    Exec.modify fun s => { s with countCalibr := 1 }
    return out
  else
    Exec.lift (sprintf sendBufSize
      (d.replyText s.g (relayedSec s.g.unixtimeRecv) (relayedUsec s.g.unixtimeRecv)))

def replyTime (countCalibr : ℤ) (tv : Timeval) (unixtimeRecv : ℚ) : ℤ × ℤ :=
  if countCalibr = 0 then (tv.sec, tv.usec) else (relayedSec unixtimeRecv, relayedUsec unixtimeRecv)

theorem Device.serve_eq_ok (d : Device) {chunk out : List Byte} {tv : Timeval} {s s' : Serving}
    (h : d.serve chunk tv s = (s', .ok out)) :
    d.decode (s.buf.recv chunk) s.g = (s'.g, .ok s'.buf) ∧
      s'.countCalibr = (if s.countCalibr = 0 then 1 else s.countCalibr) ∧
      (d.replyText s'.g (replyTime s.countCalibr tv s'.g.unixtimeRecv).1
        (replyTime s.countCalibr tv s'.g.unixtimeRecv).2).length < sendBufSize ∧
      out = d.replyText s'.g (replyTime s.countCalibr tv s'.g.unixtimeRecv).1
        (replyTime s.countCalibr tv s'.g.unixtimeRecv).2 ++ [nul] := by
  rw [serve, Exec.modify_bind, Exec.get_bind] at h
  obtain ⟨s₁, b, hzoom, h⟩ := Exec.bind_eq_ok h
  obtain ⟨g, hdec, rfl⟩ := Exec.zoom_eq_ok hzoom
  rw [Exec.modify_bind, Exec.get_bind] at h
  by_cases hc : s.countCalibr = 0
  · simp only [hc, if_true] at h
    obtain ⟨s₂, o, hlift, h⟩ := Exec.bind_eq_ok h
    obtain ⟨rfl, hsp⟩ := Prod.mk.inj hlift
    obtain ⟨hlen, rfl⟩ := sprintf_eq_ok hsp
    obtain ⟨rfl, ho⟩ := Prod.mk.inj h
    simp only [hc, replyTime, if_true, true_and]
    exact ⟨hdec, hlen, (Except.ok.inj ho).symm⟩
  · simp only [hc, if_false] at h
    obtain ⟨rfl, hsp⟩ := Prod.mk.inj h
    obtain ⟨hlen, rfl⟩ := sprintf_eq_ok hsp
    simp only [hc, replyTime, if_false, true_and, and_true]
    exact ⟨hdec, hlen⟩

theorem Device.serve_ok (d : Device) {chunk : List Byte} {tv : Timeval} {s : Serving} {g : Globals}
    {b : Buffer maxRecvLen} (hdec : d.decode (s.buf.recv chunk) s.g = (g, .ok b))
    (hc : s.countCalibr = 0 ∨ s.countCalibr = 1)
    (hfit : (d.replyText g (replyTime s.countCalibr tv g.unixtimeRecv).1
      (replyTime s.countCalibr tv g.unixtimeRecv).2).length < sendBufSize) :
    d.serve chunk tv s = (⟨g, b, 1⟩, .ok (d.replyText g (replyTime s.countCalibr tv g.unixtimeRecv).1
      (replyTime s.countCalibr tv g.unixtimeRecv).2 ++ [nul])) := by
  have hz : Exec.zoom Serving.g (fun g s => { s with g := g }) (d.decode (s.buf.recv chunk))
      { s with buf := s.buf.recv chunk } = ({ s with buf := s.buf.recv chunk, g := g }, .ok b) :=
    Exec.zoom_ok hdec
  rw [serve, Exec.modify_bind, Exec.get_bind, Exec.bind_ok hz, Exec.modify_bind, Exec.get_bind]
  rcases hc with hc | hc
  · simp only [replyTime, hc, if_true] at hfit ⊢
    rw [sprintf_ok hfit]
    rfl
  · simp only [replyTime, hc, one_ne_zero, if_false] at hfit ⊢
    rw [sprintf_ok hfit, ← hc]
    rfl

end LidarRelay
