import LidarRelay.Foundations.ClockOffset
import LidarRelay.Programs.TcpClient
import LidarRelay.Properties.Echo
import LidarRelay.Properties.Widths

/-! # `TCP_Client.c` against the echo server

The server sends the request back, so that the client takes its own stamp for the time of a server.
The calibration then measures the round trip and no offset: half of it is taken off every later
stamp, and that is where the clock of the client stays.
-/

namespace LidarRelay.EchoClock
open TcpServer TcpClient
set_option autoImplicit false
set_option maxHeartbeats 250000

/-- The two clock readings of a pass through the loop of the client, in order and of times from 1970
to 2038, which fit the text and `atoi`. -/
structure Reading where
  tvSend : Timeval
  tvRecv : Timeval
  ordered : tvSend.micros ≤ tvRecv.micros
  nonneg : 0 ≤ tvSend.micros
  fits : tvRecv.micros < 2 ^ 31 * 1000000

structure Pair where
  client : TcpClient.State := {}
  server : Buffer maxRecvLen

/-- One pass through the loop of the client and one through that of the server, the request and the
reply delivered whole. -/
def pass (p : Pair) (x : Reading) : Except Fault Pair := do
  let (s, request) := encodeRequest x.tvSend.micros p.client
  let (server, reply) ← serve p.server (← request)
  let (s, decoded) := decodeReply reply s
  decoded
  return { client := { s with times := calibrate x.tvSend x.tvRecv s.times }, server := server }

def step (p : Pair) (x : Reading) : Option Pair := (pass p x).toOption

/-! ## One pass -/

theorem digitCount_le {n k : ℕ} (h : n < 10 ^ k) (hk : 0 < k) : digitCount n ≤ k := by
  have hlog : Nat.log 10 n < k := Nat.log_lt_of_lt_pow' hk.ne' h
  exact hlog

theorem widthLd_le {n : ℤ} (h : FitsInt n) : widthLd n ≤ 11 := by
  obtain ⟨h1, h2⟩ := h
  have hd : digitCount n.natAbs ≤ 10 := digitCount_le (by omega) (by decide)
  unfold widthLd
  split
  · omega
  · omega

theorem widthF_latitude : widthF latitude = 2 := by
  have hmicro : micro latitude = 10874211 := by decide +kernel
  have hlog : Nat.log 10 (10874211 / 10 ^ 6) = 1 := by decide +kernel
  rw [widthF, if_neg (by decide +kernel), hmicro, digitCount, hlog]

theorem printedF_latitude : printedF latitude = 10.874211 := by decide +kernel

theorem angleText_plain (angle : ℚ) (sec usec : ℤ) : ∀ b ∈ angleText angle sec usec, b ≠ nul := by
  intro b hb
  rw [angleText, List.mem_append, List.mem_cons, List.mem_append, List.mem_cons] at hb
  obtain hb | rfl | hb | rfl | hb := hb
  · exact ((formatF_clean angle).2 b hb).2
  · exact comma_ne_nul
  · exact ((formatLd_clean sec).2 b hb).2
  · exact comma_ne_nul
  · exact ((formatLd_clean usec).2 b hb).2

/-- What the server sends stands in the array of the client as the request stood in its own: the
length is that of the formatted answer, so that the last byte, which the client overwrites, is one
behind the text. -/
theorem reply_holds (server : Buffer maxRecvLen) {text : List Byte} (hplain : ∀ b ∈ text, b ≠ nul)
    (hfits : text.length + 28 ≤ sendBufSize) (buf : Buffer maxDataSize) :
    ∃ server' reply, serve server (text ++ [nul]) = .ok (server', reply) ∧
      ∃ b, terminate buf reply = .ok b ∧ Holds b text := by
  have hsize : text.length + 28 ≤ 100 := hfits
  have hroom : (text ++ [nul]).length ≤ maxRecvLen := by
    rw [List.length_append, List.length_singleton]
    exact (show text.length + 1 ≤ 100 by omega).trans (by decide)
  let left := server.bytes.drop (text ++ [nul]).length
  have hrecv : (server.recv (text ++ [nul])).bytes = text ++ nul :: left := by
    rw [Buffer.recv_bytes _ _ hroom, List.append_assoc, List.singleton_append]
  have htake : (text ++ nul :: left).take (text.length + 28) = text ++ nul :: left.take 27 :=
    List.take_length_add_append 28
  have hleft : (left.take 27).length = 27 := by
    have hlen : left.length = 1024 - (text.length + 1) := by
      rw [List.length_drop, server.size, List.length_append, List.length_singleton]
      rfl
    rw [List.length_take, hlen]
    omega
  have hne : left.take 27 ≠ [] := List.ne_nil_of_length_pos (by omega)
  have hchunk : (text ++ nul :: left.take 27).length = text.length + 28 := by
    rw [List.length_append, List.length_cons, hleft]
  refine ⟨_, _, serve_text hrecv hplain hfits, ?_⟩
  rw [hrecv, htake]
  obtain ⟨b, hb, hbytes⟩ := terminate_chunk buf
    ⟨text ++ nul :: left.take 27, by omega, hchunk.trans_le hsize⟩
  dsimp only at hb hbytes
  refine ⟨b, hb, (left.take 27).dropLast ++ nul :: buf.bytes.drop (text.length + 28), ?_⟩
  rw [hbytes, hchunk, List.dropLast_append_of_ne_nil (List.cons_ne_nil _ _), List.dropLast_cons_of_ne_nil hne,
    List.append_assoc, List.cons_append]

theorem requestText_fits {s : TcpClient.State} {currTime : ℤ}
    (hsec : FitsInt (splitSec (currTime + s.times.dtime))) :
    (requestText s currTime).length + 28 ≤ sendBufSize := by
  have hs := widthLd_le hsec
  have hu := widthLd_le (fitsInt_splitUsec (currTime + s.times.dtime))
  have hsize : sendBufSize = 100 := rfl
  rw [requestText, Widths.angleText_length, widthF_latitude]
  omega

/-- The time variables after a pass in which the stamp `t` comes back. -/
def echoed (t : ℤ) (x : Reading) (s : Times) : Times :=
  calibrate x.tvSend x.tvRecv ((s.stamp t).setServer (splitSec t) (splitUsec t))

theorem pass_ok {p : Pair} {x : Reading} {t : ℤ} (ht : x.tvSend.micros + p.client.times.dtime = t)
    (hsec : FitsInt (splitSec t)) :
    ∃ p', step p x = some p' ∧ p'.client.angleRecv = 10.874211 ∧
      p'.client.times = echoed t x p.client.times := by
  subst ht
  have hfits := requestText_fits hsec
  have hlt : (requestText p.client x.tvSend.micros).length < 100 :=
    Nat.lt_of_lt_of_le (Nat.lt_add_of_pos_right (by decide)) hfits
  obtain ⟨server', reply, hserve, b, hb, hholds⟩ :=
    reply_holds p.server (angleText_plain _ _ _) hfits p.client.buf
  obtain ⟨buf', hdec⟩ := decodeReply_head (s := (encodeRequest x.tvSend.micros p.client).1) hb hholds
    (atoi_formatLd (by decide) hsec) (atoi_formatLd (by decide) (fitsInt_splitUsec _))
  have henc := encodeRequest_ok hlt
  rw [henc] at hdec
  refine ⟨⟨⟨printedF latitude, _, buf'⟩, server'⟩, ?_, printedF_latitude, rfl⟩
  simp only [step, pass, henc, Exec.ok_bind, requestText, hserve, hdec]
  rfl

/-! ## A session -/

theorem echoed_serverTime (t : ℤ) (x : Reading) (s : Times) : (echoed t x s).serverTime = t := by
  unfold echoed calibrate
  dsimp only
  split
  · exact split_join t
  · exact split_join t

theorem echoed_first {t : ℤ} {x : Reading} {s : Times} (h : s.countCalibr = 0) :
    (echoed t x s).countCalibr = 1 ∧
      (echoed t x s).dtime = offsetEstimate t x.tvRecv.micros x.tvSend.micros := by
  have hcount : ((s.stamp t).setServer (splitSec t) (splitUsec t)).countCalibr = 0 := h
  have htime : ((s.stamp t).setServer (splitSec t) (splitUsec t)).serverTime = t := split_join t
  rw [echoed, calibrate, if_pos hcount]
  exact ⟨rfl, congrArg (offsetEstimate · x.tvRecv.micros x.tvSend.micros) htime⟩

theorem echoed_later {t : ℤ} {x : Reading} {s : Times} (h : s.countCalibr = 1) :
    (echoed t x s).countCalibr = 1 ∧ (echoed t x s).dtime = s.dtime := by
  have hcount : ((s.stamp t).setServer (splitSec t) (splitUsec t)).countCalibr ≠ 0 := by
    rw [show ((s.stamp t).setServer (splitSec t) (splitUsec t)).countCalibr = 1 from h]
    decide
  rw [echoed, calibrate, if_neg hcount]
  exact ⟨h, rfl⟩

/-- Half of a round trip and its sign: what the first pass leaves in `dtime`. -/
def halfTrip (x : Reading) : ℤ := (x.tvSend.micros - x.tvRecv.micros).tdiv 2

theorem halfTrip_range (x : Reading) : -(2 ^ 30 * 1000000) ≤ halfTrip x ∧ halfTrip x ≤ 0 := by
  have h := abs_le.mp (RoundTrip.two_mul_tdiv_near (x.tvSend.micros - x.tvRecv.micros))
  have h1 := x.ordered
  have h2 := x.nonneg
  have h3 := x.fits
  unfold halfTrip
  omega

theorem fitsInt_splitSec {t : ℤ} (h : -(2 ^ 31 * 1000000) ≤ t) (h' : t < 2 ^ 31 * 1000000) :
    FitsInt (splitSec t) := by
  have hsign : Int.sign 1000000 = 1 := rfl
  rw [splitSec, Int.tdiv_eq_ediv, hsign]
  constructor
  · split
    · omega
    · omega
  · split
    · omega
    · omega

structure Settled (d : ℤ) (p : Pair) : Prop where
  count : p.client.times.countCalibr = 1
  dtime : p.client.times.dtime = d

theorem settled_step {d : ℤ} (hd : -(2 ^ 30 * 1000000) ≤ d ∧ d ≤ 0) {p : Pair} (h : Settled d p)
    (x : Reading) :
    ∃ p', step p x = some p' ∧ Settled d p' ∧ p'.client.angleRecv = 10.874211 ∧
      p'.client.times.serverTime = x.tvSend.micros + d := by
  have h1 := x.ordered
  have h2 := x.nonneg
  have h3 := x.fits
  obtain ⟨p', hs, hangle, htimes⟩ := pass_ok (congrArg (x.tvSend.micros + ·) h.dtime)
    (fitsInt_splitSec (by omega) (by omega))
  obtain ⟨hcount, hdtime⟩ := echoed_later (t := x.tvSend.micros + d) (x := x) h.count
  rw [← htimes] at hcount hdtime
  refine ⟨p', hs, ⟨hcount, hdtime.trans h.dtime⟩, hangle, ?_⟩
  rw [htimes]
  exact echoed_serverTime _ x _

/-- After the first pass every stamp is the clock of the client less half of that pass, and comes
back as it was sent. -/
theorem settled_run {d : ℤ} (hd : -(2 ^ 30 * 1000000) ≤ d ∧ d ≤ 0) (xs : List Reading) (x : Reading)
    {p : Pair} (h : Settled d p) :
    ∃ p', run step p (xs ++ [x]) = some p' ∧ Settled d p' ∧ p'.client.angleRecv = 10.874211 ∧
      p'.client.times.serverTime = x.tvSend.micros + d := by
  induction xs generalizing p with
  | nil =>
    obtain ⟨p', hs, hp'⟩ := settled_step hd h x
    exact ⟨p', run_of_step hs, hp'⟩
  | cons y ys ih =>
    obtain ⟨p₁, hs, h₁, -⟩ := settled_step hd h y
    obtain ⟨p', hr, hp'⟩ := ih h₁
    refine ⟨p', ?_, hp'⟩
    rw [List.cons_append, run_cons, hs]
    exact hr

theorem first_pass (buf : Buffer maxDataSize) (server : Buffer maxRecvLen) (x : Reading) :
    ∃ p, step { client := { buf := buf }, server := server } x = some p ∧
      Settled (halfTrip x) p ∧ p.client.angleRecv = 10.874211 ∧
      p.client.times.serverTime = x.tvSend.micros := by
  have h1 := x.ordered
  have h2 := x.nonneg
  have h3 := x.fits
  obtain ⟨p, hs, hangle, htimes⟩ := pass_ok (p := { client := { buf := buf }, server := server })
    (add_zero x.tvSend.micros) (fitsInt_splitSec (by omega) (by omega))
  obtain ⟨hcount, hdtime⟩ := echoed_first (t := x.tvSend.micros) (x := x) (s := {}) rfl
  rw [← htimes] at hcount hdtime
  refine ⟨p, hs, ⟨hcount, hdtime.trans ?_⟩, hangle, ?_⟩
  · unfold offsetEstimate halfTrip
    congr 1
    ring
  · rw [htimes]
    exact echoed_serverTime _ x _

/-- **The echo server calibrates nothing.** Whatever the two arrays held, on messages delivered whole
no pass faults, every stamp comes back as it was sent, and `dtime` is half of the first round trip,
negated, whatever the difference between the clocks of the two machines. -/
theorem echo_session (buf : Buffer maxDataSize) (server : Buffer maxRecvLen) (x : Reading)
    (xs : List Reading) :
    ∃ p, run step { client := { buf := buf }, server := server } (x :: xs) = some p ∧
      p.client.angleRecv = 10.874211 ∧ p.client.times.dtime = halfTrip x ∧
      p.client.times.serverTime =
        (xs.map fun y => y.tvSend.micros + halfTrip x).getLastD x.tvSend.micros := by
  obtain ⟨p, hs, hp, hangle, htime⟩ := first_pass buf server x
  have hrun : run step { client := { buf := buf }, server := server } (x :: xs) = run step p xs := by
    rw [run_cons, hs]
    rfl
  rw [hrun]
  obtain rfl | ⟨ys, y, rfl⟩ := List.eq_nil_or_concat' xs
  · exact ⟨p, rfl, hangle, hp.dtime, htime⟩
  · obtain ⟨p', hr, hp', hangle', htime'⟩ := settled_run (halfTrip_range x) ys y hp
    refine ⟨p', hr, hangle', hp'.dtime, ?_⟩
    rw [htime', List.map_append, List.map_singleton, List.getLastD_concat]

/-- The first round trip takes 90 ms, the second one a millisecond. -/
def slowStart : List Reading :=
  [⟨.ofMicros 1562000000000000, .ofMicros 1562000000090000, by decide, by decide, by decide⟩,
    ⟨.ofMicros 1562000000190000, .ofMicros 1562000000191000, by decide, by decide, by decide⟩]

/-- The second stamp is 45 ms behind the clock. -/
theorem echo_session_slow : ∃ p,
    run step { client := { buf := default }, server := default } slowStart = some p ∧
    p.client.times.dtime = -45000 ∧ p.client.times.serverTime = 1562000000145000 := by
  obtain ⟨p, hp, -, hdtime, htime⟩ := echo_session default default
    ⟨.ofMicros 1562000000000000, .ofMicros 1562000000090000, by decide, by decide, by decide⟩
    [⟨.ofMicros 1562000000190000, .ofMicros 1562000000191000, by decide, by decide, by decide⟩]
  exact ⟨p, hp, hdtime.trans (by decide), htime.trans (by decide)⟩

end LidarRelay.EchoClock
