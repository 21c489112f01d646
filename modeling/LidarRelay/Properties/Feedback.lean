import LidarRelay.Programs.LidarRecv
import LidarRelay.Programs.LidarSend
import LidarRelay.Programs.Listener
import LidarRelay.Programs.Station
import LidarRelay.Programs.TcpClient2

/-! # What listener hears of the vehicle

The way back: the angle and the time that TCP_Client2 sends go through the decode and the fill of
lidar_recv, over the air, and through the callback and a reply of lidar_send. The angle arrives. The
time does not: lidar_recv fills `unix_time` with 0, and lidar_send, which keeps nothing of a BSM but
the angle, replies with a global that nothing assigns.
-/

namespace LidarRelay.Feedback
set_option autoImplicit false
set_option maxHeartbeats 250000

/-- The request of TCP_Client2 at the clock reading `currTime`, its decode, the BSM of lidar_recv,
the callback of lidar_send, its reply to the next request of listener, and the decode of that. -/
def feedbackHop (currTime : ℤ) (c : TcpClient2.State) (buf : Buffer maxRecvLen) (g : Globals)
    (s : Serving) (tv : Timeval) (l : Listener.State) : Except Fault Listener.State := do
  let out ← (TcpClient2.encodeRequest currTime c).2
  let g' ← (LidarRecv.decodeRequest (buf.recv out)).final g
  let heard := { s with g := LidarSend.v2xBsmRecvHandle (LidarRecv.device.bsmOf g') s.g }
  let request ← (Listener.encodeRequest l).2
  let reply ← (LidarSend.device.serve request tv heard).2
  (Listener.decodeReply reply).final (Listener.encodeRequest l).1

def stampOf (currTime : ℤ) (c : TcpClient2.State) : ℤ := currTime + c.times.dtime

structure FeedbackPreserved (currTime : ℤ) (c : TcpClient2.State) (l : Listener.State) : Prop where
  angle : l.angleRecv = c.angle
  sec : l.times.serverSec = splitSec (stampOf currTime c)
  usec : l.times.serverUsec = splitUsec (stampOf currTime c)

/-- Nothing in lidar_send assigns `unixtime_recv`. -/
theorem unixtimeRecv_zero {s : Station} {es : List Station.Event}
    (h : run (Station.step LidarSend.device) {} es = some s) : s.globals.unixtimeRecv = 0 := by
  refine Station.globals_invariant (P := fun g => g.unixtimeRecv = 0) ?_ (fun g hg => hg)
    (fun bsm g hg => hg) rfl h
  intro buf buf' g g' hg hdec
  have hkeep := LidarSend.decodeRequest_keeps buf g
  rw [show LidarSend.decodeRequest buf g = _ from hdec, Prod.mk.injEq] at hkeep
  exact hkeep.2.trans hg

theorem replyTime_unset {count : ℤ} (h : count ≠ 0) (tv : Timeval) :
    replyTime count tv 0 = (0, 0) := by
  rw [replyTime, if_neg h]
  decide +kernel

/-! ## The two ends -/

theorem angle_decoded {currTime : ℤ} {c : TcpClient2.State} (hangle : IsMicro c.angle)
    (hlen : (TcpClient2.requestText c currTime).length < sendBufSize) (buf : Buffer maxRecvLen)
    (g : Globals) :
    ∃ g', (LidarRecv.decodeRequest
        (buf.recv (TcpClient2.requestText c currTime ++ [nul]))).final g = .ok g' ∧
      g'.angleRecv = c.angle := by
  obtain ⟨buf', hdec⟩ := LidarRecv.decodeRequest_recv (lt_trans hlen (by decide))
    (fitsInt_splitUsec (currTime + c.times.dtime)) buf g
  exact ⟨_, Exec.final_ok hdec, printedF_micro hangle⟩

section Reply
variable {s : Serving} (hcount : s.countCalibr = 1) (hunset : s.g.unixtimeRecv = 0)
include hcount hunset

theorem reply_of_ok {request out : List Byte} {tv : Timeval}
    (h : (LidarSend.device.serve request tv s).2 = .ok out) :
    (angleText s.g.angleRecv 0 0).length < sendBufSize ∧
      out = angleText s.g.angleRecv 0 0 ++ [nul] := by
  obtain ⟨hdec, -, hlen, hout⟩ := LidarSend.device.serve_eq_ok
    (Prod.ext rfl h : LidarSend.device.serve request tv s = (_, .ok out))
  have hkeep := LidarSend.decodeRequest_keeps (s.buf.recv request) s.g
  rw [show LidarSend.decodeRequest _ _ = _ from hdec, Prod.mk.injEq] at hkeep
  have htime : ∀ u : ℚ, u = 0 → replyTime s.countCalibr tv u = (0, 0) := fun u hu => by
    rw [hu, replyTime_unset (by rw [hcount]; decide)]
  rw [htime _ (hkeep.2.trans hunset)] at hlen hout
  have htext : ∀ g : Globals, LidarSend.device.replyText g 0 0 = angleText g.angleRecv 0 0 :=
    fun g => rfl
  rw [htext, hkeep.1] at hlen hout
  exact ⟨hlen, hout⟩

theorem reply_ok {l : Listener.State} (hrequest : (Listener.requestText l).length < sendBufSize)
    (hlen : (angleText s.g.angleRecv 0 0).length < sendBufSize) (tv : Timeval) :
    (LidarSend.device.serve (Listener.requestText l ++ [nul]) tv s).2 =
      .ok (angleText s.g.angleRecv 0 0 ++ [nul]) := by
  obtain ⟨g, buf', hdec, hangle, hu⟩ : ∃ g buf', LidarSend.device.decode
      (s.buf.recv (Listener.requestText l ++ [nul])) s.g = (g, .ok buf') ∧
      g.angleRecv = s.g.angleRecv ∧ g.unixtimeRecv = 0 := by
    obtain ⟨buf', hdec⟩ := LidarSend.decodeRequest_recv (lt_trans hrequest (by decide))
      (fitsInt_splitUsec (Listener.stampTime l)) s.buf s.g
    exact ⟨_, buf', hdec, rfl, hunset⟩
  have htime : replyTime s.countCalibr tv g.unixtimeRecv = (0, 0) := by
    rw [hu, replyTime_unset (by rw [hcount]; decide)]
  have htext : LidarSend.device.replyText g 0 0 = angleText s.g.angleRecv 0 0 := by
    rw [← hangle]
    rfl
  rw [LidarSend.device.serve_ok hdec (.inr hcount), htime, htext]
  rw [htime, htext]
  exact hlen

end Reply

/-! ## The whole way -/

section Hop
variable {currTime : ℤ} {c : TcpClient2.State} {s : Serving} {l : Listener.State}
  (hangle : IsMicro c.angle) (hcount : s.countCalibr = 1) (hunset : s.g.unixtimeRecv = 0)
include hangle hcount hunset

theorem feedbackHop_ok (hsent : (TcpClient2.requestText c currTime).length < sendBufSize)
    (hrequest : (Listener.requestText l).length < sendBufSize)
    (hreply : (angleText c.angle 0 0).length < sendBufSize) (buf : Buffer maxRecvLen)
    (g : Globals) (tv : Timeval) :
    ∃ l', feedbackHop currTime c buf g s tv l = .ok l' ∧ l'.angleRecv = c.angle ∧
      l'.times.serverSec = 0 ∧ l'.times.serverUsec = 0 := by
  obtain ⟨g', hdec, hg'⟩ := angle_decoded hangle hsent buf g
  let heard : Serving :=
    { s with g := LidarSend.v2xBsmRecvHandle (LidarRecv.device.bsmOf g') s.g }
  have hheard : heard.g.angleRecv = c.angle := hg'
  have hout : (LidarSend.device.serve (Listener.requestText l ++ [nul]) tv heard).2 =
      .ok (angleText c.angle 0 0 ++ [nul]) := by
    rw [← hheard] at hreply ⊢
    exact reply_ok (s := heard) hcount hunset hrequest hreply tv
  have hzero : FitsInt 0 := by decide
  obtain ⟨b, hlast⟩ := Listener.decodeReply_angleText hreply (atoi_formatLd (by decide) hzero)
    (atoi_formatLd (by decide) hzero) (Listener.encodeRequest l).1
  have hhop : feedbackHop currTime c buf g s tv l =
      (Listener.decodeReply (angleText c.angle 0 0 ++ [nul])).final (Listener.encodeRequest l).1 := by
    rw [feedbackHop, TcpClient2.encodeRequest_ok hsent, Exec.ok_bind, hdec, Exec.ok_bind,
      Listener.encodeRequest_ok hrequest, Exec.ok_bind, hout, Exec.ok_bind]
  exact ⟨_, hhop.trans (Exec.final_ok hlast), printedF_micro hangle, rfl, rfl⟩

theorem feedbackHop_eq_ok {buf : Buffer maxRecvLen} {g : Globals} {tv : Timeval}
    {l' : Listener.State} (h : feedbackHop currTime c buf g s tv l = .ok l') :
    (TcpClient2.requestText c currTime).length < sendBufSize ∧
      (Listener.requestText l).length < sendBufSize ∧
      (angleText c.angle 0 0).length < sendBufSize := by
  obtain ⟨out, hout, h⟩ := Exec.eq_ok_of_bind h
  obtain ⟨hsent, -, rfl⟩ := TcpClient2.encodeRequest_eq_ok
    (Prod.ext rfl hout : TcpClient2.encodeRequest currTime c = (_, .ok out))
  obtain ⟨g₁, hdec, hg₁⟩ := angle_decoded hangle hsent buf g
  rw [hdec, Exec.ok_bind] at h
  obtain ⟨request, hreq, h⟩ := Exec.eq_ok_of_bind h
  obtain ⟨hrequest, -, -⟩ := Listener.encodeRequest_eq_ok
    (Prod.ext rfl hreq : Listener.encodeRequest l = (_, .ok request))
  obtain ⟨reply, hreply, -⟩ := Exec.eq_ok_of_bind h
  refine ⟨hsent, hrequest, ?_⟩
  let heard : Serving :=
    { s with g := LidarSend.v2xBsmRecvHandle (LidarRecv.device.bsmOf g₁) s.g }
  have hheard : heard.g.angleRecv = c.angle := hg₁
  rw [← hheard]
  exact (reply_of_ok (s := heard) hcount hunset hreply).1

end Hop

/-- **The angle and the time of TCP_Client2 reach listener exactly when that time is 0** and the
texts fit: in every state of lidar_send its later replies say 0. -/
theorem feedback_iff (es : List Station.Event) (s : Station)
    (hrun : run (Station.step LidarSend.device) {} es = some s)
    (hlater : s.process.serving.countCalibr ≠ 0) (currTime : ℤ) (c : TcpClient2.State)
    (hangle : IsMicro c.angle) (buf : Buffer maxRecvLen) (g : Globals) (tv : Timeval)
    (l : Listener.State) :
    (∃ l', feedbackHop currTime c buf g s.process.serving tv l = .ok l' ∧
        FeedbackPreserved currTime c l') ↔
      stampOf currTime c = 0 ∧ (angleText c.angle 0 0).length < sendBufSize ∧
        (Listener.requestText l).length < sendBufSize := by
  have hcount : s.process.serving.countCalibr = 1 :=
    (Station.count_zero_or_one hrun).resolve_left hlater
  have hunset : s.process.serving.g.unixtimeRecv = 0 := unixtimeRecv_zero hrun
  constructor
  · rintro ⟨l', hhop, hp⟩
    obtain ⟨hsent, hrequest, hreply⟩ := feedbackHop_eq_ok hangle hcount hunset hhop
    obtain ⟨l'', hhop', -, hsec, husec⟩ :=
      feedbackHop_ok hangle hcount hunset hsent hrequest hreply buf g tv
    obtain rfl : l'' = l' := Except.ok.inj (hhop'.symm.trans hhop)
    have hjoin := split_join (stampOf currTime c)
    rw [← hp.sec, ← hp.usec, hsec, husec] at hjoin
    exact ⟨hjoin.symm, hreply, hrequest⟩
  · rintro ⟨hstamp, hreply, hrequest⟩
    have htext : TcpClient2.requestText c currTime = angleText c.angle 0 0 := by
      rw [TcpClient2.requestText, show currTime + c.times.dtime = 0 from hstamp]
      rfl
    obtain ⟨l', hhop, ha, hsec, husec⟩ := feedbackHop_ok hangle hcount hunset
      (htext ▸ hreply) hrequest hreply buf g tv
    refine ⟨l', hhop, ha, ?_, ?_⟩
    · rw [hsec, hstamp]
      rfl
    · rw [husec, hstamp]
      rfl

def calibratedStation : List Station.Event :=
  [.accept 0 {}, .receive (poseText 3 3 2 1 0 0 ++ [nul]) default]

theorem calibrated_count : ((run (Station.step LidarSend.device) {} calibratedStation).map
    fun s => s.process.serving.countCalibr) = some 1 := by
  decide +kernel

/-- The vehicle steers by 1.1 degrees at second 1562000000: listener reads second 0. -/
theorem feedback_time_lost :
    ∃ s l', run (Station.step LidarSend.device) {} calibratedStation = some s ∧
      feedbackHop 1562000000000000 {} default {} s.process.serving default {} = .ok l' ∧
      l'.angleRecv = 1.1 ∧ l'.times.serverSec = 0 ∧
      ¬ FeedbackPreserved 1562000000000000 {} l' := by
  obtain ⟨s, hs, hcount⟩ := Option.map_eq_some_iff.mp calibrated_count
  have hangle : IsMicro ({} : TcpClient2.State).angle := ⟨1100000, by norm_num⟩
  obtain ⟨l', hhop, ha, hsec, -⟩ :
      ∃ l', feedbackHop 1562000000000000 {} default {} s.process.serving default {} = .ok l' ∧
        l'.angleRecv = 1.1 ∧ l'.times.serverSec = 0 ∧ l'.times.serverUsec = 0 :=
    feedbackHop_ok hangle hcount (unixtimeRecv_zero hs) (by decide +kernel) (by decide +kernel)
      (by decide +kernel) default {} default
  refine ⟨s, l', hs, hhop, ha, hsec, fun hp => ?_⟩
  exact absurd (hsec.symm.trans hp.sec) (by decide)

theorem feedback_at_epoch :
    ∃ s l', run (Station.step LidarSend.device) {} calibratedStation = some s ∧
      feedbackHop 0 {} default {} s.process.serving default {} = .ok l' ∧
      FeedbackPreserved 0 {} l' := by
  obtain ⟨s, hs, hcount⟩ := Option.map_eq_some_iff.mp calibrated_count
  obtain ⟨l', h⟩ := (feedback_iff calibratedStation s hs (by rw [hcount]; decide) 0 {}
    ⟨1100000, by norm_num⟩ default {} default {}).mpr
      ⟨rfl, by decide +kernel, by decide +kernel⟩
  exact ⟨s, l', hs, h⟩

end LidarRelay.Feedback
