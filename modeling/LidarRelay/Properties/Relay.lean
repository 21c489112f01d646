import LidarRelay.Programs.LidarRecv
import LidarRelay.Programs.LidarSend
import LidarRelay.Programs.Listener
import LidarRelay.Programs.TcpClient2

/-! # A measurement on its way

The two hops of a measurement, each through two programs: from a `lidar_grad` message to the BSM
(`poseHop`), and from lidar_send's globals to the variables of TCP_Client2 (`kinematicHop`).
Doubles are exact rationals; the SDK delivers a BSM as it was filled.
-/

namespace LidarRelay.Relay
set_option autoImplicit false
set_option maxHeartbeats 250000

theorem atoi_ok (bits : ℕ) (n : ℤ) : ∃ v, atoi bits (some (formatLd n)) = .ok v := ⟨_, rfl⟩

/-! ## From ROS to the broadcast -/

/-- `gpsCallback`, the next request, its delivery in one `recv`, the decode in lidar_send, the
fill. -/
def poseHop (msg : LidarGrad) (s : Listener.State) (buf : Buffer maxRecvLen) (g : Globals) :
    Except Fault V2xMsgBsm := do
  let out ← (Listener.encodeRequest (Listener.gpsCallback msg s)).2
  let g' ← (LidarSend.decodeRequest (buf.recv out)).final g
  return LidarSend.device.bsmOf g'

def stamped (msg : LidarGrad) (s : Listener.State) : ℤ :=
  msg.timeSec * 1000000 + msg.timeUsec + s.times.dtime

def poseRequest (msg : LidarGrad) (s : Listener.State) : List Byte :=
  poseText msg.x msg.x msg.theta msg.vel (splitSec (stamped msg s)) (splitUsec (stamped msg s))

theorem requestText_gpsCallback (msg : LidarGrad) (s : Listener.State) :
    Listener.requestText (Listener.gpsCallback msg s) = poseRequest msg s := rfl

structure LidarGrad.Micro (msg : LidarGrad) : Prop where
  x : IsMicro msg.x
  y : IsMicro msg.y
  theta : IsMicro msg.theta
  vel : IsMicro msg.vel

structure PosePreserved (msg : LidarGrad) (s : Listener.State) (bsm : V2xMsgBsm) : Prop where
  latitude : bsm.latitude = msg.x
  longitude : bsm.longitude = msg.y
  heading : bsm.heading = msg.theta
  speed : bsm.speed = 3.6 * msg.vel
  unixTime : bsm.unixTime = (stamped msg s : ℚ) / 1000000

theorem poseHop_ok {msg : LidarGrad} (hm : LidarGrad.Micro msg) {s : Listener.State}
    (hfit : (poseRequest msg s).length < 100) (buf : Buffer maxRecvLen) (g : Globals) :
    poseHop msg s buf g = .ok (LidarSend.device.bsmOf (LidarSend.decoded g msg.x msg.x msg.theta
      msg.vel (clampLong 32 (splitSec (stamped msg s))) (splitUsec (stamped msg s)))) := by
  have henc := Listener.encodeRequest_ok (s := Listener.gpsCallback msg s)
    (by rw [requestText_gpsCallback]; exact hfit)
  obtain ⟨buf', hdec⟩ := LidarSend.decodeRequest_recv (lt_trans hfit (by decide))
    (fitsInt_splitUsec (stamped msg s)) buf g
  rw [printedF_micro hm.x, printedF_micro hm.theta, printedF_micro hm.vel] at hdec
  have hfinal := Exec.final_ok hdec
  rw [poseHop, henc, requestText_gpsCallback, Exec.ok_bind, poseRequest, hfinal, Exec.ok_bind]
  rfl

theorem poseHop_error {msg : LidarGrad} {s : Listener.State}
    (hfit : ¬ (poseRequest msg s).length < 100) (buf : Buffer maxRecvLen) (g : Globals) :
    poseHop msg s buf g = .error .overrun := by
  have henc := Listener.encodeRequest_error (s := Listener.gpsCallback msg s)
    (by rw [requestText_gpsCallback]; exact hfit)
  rw [poseHop, henc]
  rfl

/-- **The pose of a message reaches the BSM exactly when its `y` equals its `x`**, the seconds of
its stamp are an `int` and the request fits `sendBuf`. -/
theorem posePreserved_iff (msg : LidarGrad) (hm : LidarGrad.Micro msg) (s : Listener.State)
    (buf : Buffer maxRecvLen) (g : Globals) :
    (∃ bsm, poseHop msg s buf g = .ok bsm ∧ PosePreserved msg s bsm) ↔
      msg.y = msg.x ∧ FitsInt (splitSec (stamped msg s)) ∧ (poseRequest msg s).length < 100 := by
  have htime : (splitSec (stamped msg s) : ℚ) + (splitUsec (stamped msg s) : ℚ) / 1000000 =
      (stamped msg s : ℚ) / 1000000 := by
    have h : ((splitSec (stamped msg s) * 1000000 + splitUsec (stamped msg s) : ℤ) : ℚ) =
        stamped msg s := by rw [split_join]
    push_cast at h
    rw [← h]
    ring
  constructor
  · rintro ⟨bsm, hhop, hp⟩
    by_cases hfit : (poseRequest msg s).length < 100
    · rw [poseHop_ok hm hfit] at hhop
      obtain rfl := Except.ok.inj hhop
      have hy : msg.x = msg.y := hp.longitude
      have hu : ((clampLong 32 (splitSec (stamped msg s)) : ℤ) : ℚ) +
          (splitUsec (stamped msg s) : ℚ) / 1000000 = (stamped msg s : ℚ) / 1000000 := hp.unixTime
      rw [← htime, add_left_inj] at hu
      exact ⟨hy.symm, clampLong_eq_iff.mp (by exact_mod_cast hu), hfit⟩
    · rw [poseHop_error hfit] at hhop
      cases hhop
  · rintro ⟨hy, hsec, hfit⟩
    refine ⟨_, poseHop_ok hm hfit buf g, rfl, hy.symm, rfl, mul_comm _ _, ?_⟩
    rw [clampLong_eq_iff.mpr hsec]
    exact htime

/-- A message at `(1, 2)` is broadcast at `(1, 1)`. -/
theorem pose_y_lost :
    ∃ bsm, poseHop ⟨1, 2, 0, 0, 0, 0⟩ {} default {} = .ok bsm ∧ bsm.latitude = 1 ∧
      bsm.longitude = 1 ∧ ¬ PosePreserved ⟨1, 2, 0, 0, 0, 0⟩ {} bsm := by
  have hm : LidarGrad.Micro ⟨1, 2, 0, 0, 0, 0⟩ :=
    ⟨⟨1000000, by norm_num⟩, ⟨2000000, by norm_num⟩, ⟨0, by norm_num⟩, ⟨0, by norm_num⟩⟩
  refine ⟨_, poseHop_ok hm (by decide +kernel) default {}, rfl, rfl, fun h => ?_⟩
  have hlon : (1 : ℚ) = 2 := h.longitude
  norm_num at hlon

theorem pose_diagonal :
    ∃ bsm, poseHop ⟨3, 3, 2, 1, 1562000000, 999999⟩ {} default {} = .ok bsm ∧
      PosePreserved ⟨3, 3, 2, 1, 1562000000, 999999⟩ {} bsm :=
  (posePreserved_iff _ ⟨⟨3000000, by norm_num⟩, ⟨3000000, by norm_num⟩, ⟨2000000, by norm_num⟩,
    ⟨1000000, by norm_num⟩⟩ {} default {}).mpr ⟨rfl, by decide +kernel, by decide +kernel⟩

/-! ## From the road-side unit to the vehicle PC -/

/-- The fill in lidar_send, the callback and a reply of lidar_recv, the decode in TCP_Client2. -/
def kinematicHop (g gr : Globals) (countCalibr : ℤ) (tv : Timeval) (c : TcpClient2.State) :
    Except Fault TcpClient2.State := do
  let gr' := LidarRecv.v2xBsmRecvHandle (LidarSend.device.bsmOf g) gr
  let t := replyTime countCalibr tv gr'.unixtimeRecv
  let out ← sprintf sendBufSize (LidarRecv.replyText gr' t.1 t.2)
  (TcpClient2.decodeReply out).final c

structure Globals.Micro (g : Globals) : Prop where
  x : IsMicro g.xRecv
  y : IsMicro g.yRecv
  theta : IsMicro g.thetaRecv
  vel : IsMicro g.velRecv

section Kinematics
variable (cos sin : ℚ → ℚ)

/-- What TCP_Client2 should hold of the globals of lidar_send: the four numbers, and with them the
position of a target in uniform motion at the age that `estimate` works with. -/
structure KinematicsPreserved (g : Globals) (c : TcpClient2.State) : Prop where
  x : c.xRecv = g.xRecv
  y : c.yRecv = g.yRecv
  theta : c.thetaRecv = g.thetaRecv
  vel : c.velRecv = g.velRecv
  position : ∀ times : Times,
    let e := TcpClient2.estimate cos sin { c with times := times }
    e.xEst = g.xRecv + g.velRecv * cos (g.thetaRecv * 3.1415 / 180) * (e.commuDelay / 1000000) ∧
      e.yEst = g.yRecv + g.velRecv * sin (g.thetaRecv * 3.1415 / 180) * (e.commuDelay / 1000000)

def standingReply (g : Globals) (countCalibr : ℤ) (tv : Timeval) : List Byte :=
  let t := replyTime countCalibr tv g.unixtimeSend
  poseText g.xRecv g.yRecv g.thetaRecv 0 t.1 t.2

theorem printedF_kmh {v : ℚ} (hv : IsMicro v) : printedF (v * 3.6) = v ↔ v = 0 := by
  obtain ⟨k, rfl⟩ := hv
  have hnear := printedF_near ((k : ℚ) / 10 ^ 6 * 3.6)
  constructor
  · intro h
    rw [h] at hnear
    have hdiff : ((k : ℚ) / 10 ^ 6 - (k : ℚ) / 10 ^ 6 * 3.6) = -(2.6 * ((k : ℚ) / 10 ^ 6)) := by ring
    rw [hdiff, abs_neg, abs_mul, abs_div, abs_of_pos (show (0 : ℚ) < 2.6 by norm_num),
      abs_of_pos (show (0 : ℚ) < 10 ^ 6 by norm_num)] at hnear
    have hk : |(k : ℚ)| < 1 := by linarith
    have hk' : |k| < 1 := by exact_mod_cast hk
    rw [Int.abs_lt_one_iff.mp hk']
    norm_num
  · intro h
    rw [h, zero_mul]
    exact printedF_micro ⟨0, by norm_num⟩

/-- The text of the reply about the target in lidar_send's globals, its speed in km/h as the BSM
has it. -/
def relayedReply (g : Globals) (countCalibr : ℤ) (tv : Timeval) : List Byte :=
  let t := replyTime countCalibr tv g.unixtimeSend
  poseText g.xRecv g.yRecv g.thetaRecv (g.velRecv * 3.6) t.1 t.2

theorem kinematicHop_ok {g : Globals} (hg : Globals.Micro g) {countCalibr : ℤ} {tv : Timeval}
    (hfit : (relayedReply g countCalibr tv).length < sendBufSize) (gr : Globals)
    (c : TcpClient2.State) :
    ∃ times buf, kinematicHop g gr countCalibr tv c =
      .ok { c with xRecv := g.xRecv, yRecv := g.yRecv, thetaRecv := g.thetaRecv,
                   velRecv := printedF (g.velRecv * 3.6), times := times, buf := buf } := by
  obtain ⟨sec', hsec⟩ := atoi_ok pcLong (replyTime countCalibr tv g.unixtimeSend).1
  obtain ⟨usec', husec⟩ := atoi_ok pcLong (replyTime countCalibr tv g.unixtimeSend).2
  obtain ⟨buf, hdec⟩ := TcpClient2.decodeReply_poseText hfit hsec husec c
  rw [printedF_micro hg.x, printedF_micro hg.y, printedF_micro hg.theta] at hdec
  have hsp : sprintf sendBufSize (LidarRecv.replyText
      (LidarRecv.v2xBsmRecvHandle (LidarSend.device.bsmOf g) gr)
      (replyTime countCalibr tv g.unixtimeSend).1 (replyTime countCalibr tv g.unixtimeSend).2) =
      .ok (relayedReply g countCalibr tv ++ [nul]) := sprintf_ok hfit
  refine ⟨c.times.setServer sec' usec', buf, ?_⟩
  exact (congrArg (· >>= fun out => (TcpClient2.decodeReply out).final c) hsp).trans
    ((Exec.ok_bind _ _).trans (Exec.final_ok hdec))

theorem kinematicHop_error {g : Globals} {countCalibr : ℤ} {tv : Timeval}
    (hfit : ¬ (relayedReply g countCalibr tv).length < sendBufSize) (gr : Globals)
    (c : TcpClient2.State) : kinematicHop g gr countCalibr tv c = .error .overrun := by
  have hsp : sprintf sendBufSize (LidarRecv.replyText
      (LidarRecv.v2xBsmRecvHandle (LidarSend.device.bsmOf g) gr)
      (replyTime countCalibr tv g.unixtimeSend).1 (replyTime countCalibr tv g.unixtimeSend).2) =
      .error .overrun := sprintf_error hfit
  exact congrArg (· >>= fun out => (TcpClient2.decodeReply out).final c) hsp

/-- **The kinematic state reaches the vehicle PC exactly when the target stands still** and the
reply about it fits `sendBuf`: lidar_send multiplies the speed by 3.6, and nothing divides it. -/
theorem kinematicsPreserved_iff (g : Globals) (hg : Globals.Micro g) (gr : Globals)
    (countCalibr : ℤ) (tv : Timeval) (c : TcpClient2.State) :
    (∃ c', kinematicHop g gr countCalibr tv c = .ok c' ∧ KinematicsPreserved cos sin g c') ↔
      g.velRecv = 0 ∧ (standingReply g countCalibr tv).length < sendBufSize := by
  have hreply : g.velRecv = 0 → relayedReply g countCalibr tv = standingReply g countCalibr tv := by
    intro hv
    simp only [relayedReply, standingReply, hv, zero_mul]
  constructor
  · rintro ⟨c', hhop, hp⟩
    by_cases hfit : (relayedReply g countCalibr tv).length < sendBufSize
    · obtain ⟨times, buf, hok⟩ := kinematicHop_ok hg hfit gr c
      rw [hok] at hhop
      obtain rfl := Except.ok.inj hhop
      have hv : g.velRecv = 0 := (printedF_kmh hg.vel).mp hp.vel
      exact ⟨hv, hreply hv ▸ hfit⟩
    · rw [kinematicHop_error hfit] at hhop
      cases hhop
  · rintro ⟨hv, hfit⟩
    obtain ⟨times, buf, hok⟩ := kinematicHop_ok hg (hreply hv ▸ hfit) gr c
    refine ⟨_, hok, rfl, rfl, rfl, (printedF_kmh hg.vel).mpr hv, fun t => ?_⟩
    have hzero : printedF (g.velRecv * 3.6) = 0 := ((printedF_kmh hg.vel).mpr hv).trans hv
    simp only [TcpClient2.estimate, hzero]
    rw [hv]
    constructor <;> ring

end Kinematics

/-- A target at 1 m/s arrives at the vehicle PC with 3.6 m/s. -/
theorem kinematics_speed_scaled :
    ∃ c', kinematicHop { velRecv := 1 } {} 0 default {} = .ok c' ∧ c'.velRecv = 3.6 ∧
      ¬ KinematicsPreserved (fun _ => 1) (fun _ => 0) { velRecv := 1 } c' := by
  have hg : Globals.Micro { velRecv := 1 } :=
    ⟨⟨0, by norm_num⟩, ⟨0, by norm_num⟩, ⟨0, by norm_num⟩, ⟨1000000, by norm_num⟩⟩
  obtain ⟨times, buf, hok⟩ := @kinematicHop_ok _ hg 0 default (by decide +kernel) {} {}
  have hv : printedF ((1 : ℚ) * 3.6) = 3.6 := by
    rw [one_mul]
    exact printedF_micro ⟨3600000, by norm_num⟩
  refine ⟨_, hok, hv, fun h => ?_⟩
  have hvel : printedF ((1 : ℚ) * 3.6) = 1 := h.vel
  rw [hv] at hvel
  norm_num at hvel

theorem kinematics_standing :
    ∃ c', kinematicHop { xRecv := 3, yRecv := -1, thetaRecv := 90 } {} 1 default {} = .ok c' ∧
      KinematicsPreserved (fun _ => 0) (fun _ => 1) { xRecv := 3, yRecv := -1, thetaRecv := 90 } c' :=
  (kinematicsPreserved_iff _ _ _ ⟨⟨3000000, by norm_num⟩, ⟨-1000000, by norm_num⟩,
    ⟨90000000, by norm_num⟩, ⟨0, by norm_num⟩⟩ {} 1 default {}).mpr ⟨rfl, by decide +kernel⟩

end LidarRelay.Relay
