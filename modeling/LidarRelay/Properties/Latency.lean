import LidarRelay.Foundations.ClockOffset
import LidarRelay.Programs.Device
import LidarRelay.Programs.Listener
import LidarRelay.Programs.TcpClient2

/-! # The latency that the vehicle PC computes

The common time is that of the two synchronised devices; the clock of the lidar PC stands `offL`
ahead of it, that of the vehicle PC `offV`. Both clients calibrate in their first exchange and keep
the offset they found. A stamp crosses from one clock to the other as a pair of seconds and
microseconds.
-/

namespace LidarRelay.Latency
open RoundTrip
set_option autoImplicit false
set_option maxHeartbeats 250000

/-- The first exchange of a client whose clock stands `offset` ahead: the server answers with its
own clock. -/
def calibration (x : RoundTrip) (offset : ℤ) : Exchange where
  tvSend := Timeval.ofMicros (x.sent + offset)
  tvRecv := Timeval.ofMicros (x.received + offset)
  sec := (Timeval.ofMicros x.served).sec
  usec := (Timeval.ofMicros x.served).usec

def arriving (received offset : ℤ) (tvSend : Timeval) (sec usec : ℤ) : Exchange where
  tvSend := tvSend
  tvRecv := Timeval.ofMicros (received + offset)
  sec := sec
  usec := usec

def estimated (x : RoundTrip) (offset : ℤ) : ℤ :=
  offsetEstimate x.served (x.received + offset) (x.sent + offset)

theorem estimated_near (x : RoundTrip) (offset : ℤ) :
    2 * |estimated x offset + offset| ≤ x.time + 1 := estimate_near x offset

theorem calibration_server (x : RoundTrip) (offset : ℤ) :
    (calibration x offset).sec * 1000000 + (calibration x offset).usec = x.served :=
  Timeval.micros_ofMicros x.served

structure Calibrated (t : Times) (dtime : ℤ) : Prop where
  count : t.countCalibr = 1
  dtime : t.dtime = dtime

/-! ## listener -/

structure Round where
  queue : Option LidarGrad
  angle : ℚ
  exchange : Exchange

def listenerRound (s : Listener.State) (r : Round) : Listener.State :=
  Listener.exchange r.queue r.angle r.exchange s

/-- listener from its start through its calibration and the rounds after it. -/
def listenerRun (x : RoundTrip) (offL : ℤ) (first : Option LidarGrad) (angle : ℚ)
    (rounds : List Round) : Listener.State :=
  rounds.foldl listenerRound (Listener.exchange first angle (calibration x offL) {})

def lidarStamp (s : Listener.State) : ℤ := s.lidarTimeSec * 1000000 + s.lidarTimeUsec

theorem spinOnce_times (queue : Option LidarGrad) (s : Listener.State) :
    (Listener.spinOnce queue s).times = s.times := by
  cases queue <;> rfl

theorem listener_first (x : RoundTrip) (offL : ℤ) (first : Option LidarGrad) (angle : ℚ) :
    Calibrated (Listener.exchange first angle (calibration x offL) {}).times (estimated x offL) := by
  have hs := calibration_server x offL
  have h0 : (Listener.spinOnce first {}).times = {} := spinOnce_times first {}
  simp only [Listener.exchange, Listener.calibrate, h0, Times.stamp, Times.setServer, Times.setDtime,
    hs, if_true]
  refine ⟨rfl, ?_⟩
  simp only [calibration, Timeval.micros_ofMicros, estimated]

theorem calibrate_of_calibrated {t : Times} {d : ℤ} (h : Calibrated t d) (tvSend tvRecv : Timeval) :
    Listener.calibrate tvSend tvRecv t = t := by
  rw [Listener.calibrate, if_neg]
  rw [h.count]
  decide

theorem listener_later {s : Listener.State} {d : ℤ} (h : Calibrated s.times d) (r : Round) :
    Calibrated (listenerRound s r).times d := by
  have hspin := spinOnce_times r.queue s
  have hkeep : Calibrated (((Listener.spinOnce r.queue s).times.stamp
      (Listener.stampTime (Listener.spinOnce r.queue s))).setServer r.exchange.sec
        r.exchange.usec) d := by
    rw [hspin]
    exact ⟨h.count, h.dtime⟩
  simp only [listenerRound, Listener.exchange, calibrate_of_calibrated hkeep]
  exact hkeep

theorem listenerRun_calibrated (x : RoundTrip) (offL : ℤ) (first : Option LidarGrad) (angle : ℚ)
    (rounds : List Round) :
    Calibrated (listenerRun x offL first angle rounds).times (estimated x offL) := by
  have h : ∀ s : Listener.State, Calibrated s.times (estimated x offL) →
      Calibrated (rounds.foldl listenerRound s).times (estimated x offL) := by
    induction rounds with
    | nil => exact fun s hs => hs
    | cons r rounds ih => exact fun s hs => ih _ (listener_later hs r)
  exact h _ (listener_first x offL first angle)

/-- The pair that listener forwards is the stamp it holds, on the clock of its device. -/
theorem forwarded_split {s : Listener.State} {d : ℤ} (h : Calibrated s.times d) (r : Round) :
    (listenerRound s r).times.clientSec = splitSec (lidarStamp (listenerRound s r) + d) ∧
      (listenerRound s r).times.clientUsec = splitUsec (lidarStamp (listenerRound s r) + d) := by
  have hspin := spinOnce_times r.queue s
  have hkeep : Calibrated (((Listener.spinOnce r.queue s).times.stamp
      (Listener.stampTime (Listener.spinOnce r.queue s))).setServer r.exchange.sec
        r.exchange.usec) d := by
    rw [hspin]
    exact ⟨h.count, h.dtime⟩
  simp only [listenerRound, Listener.exchange, calibrate_of_calibrated hkeep]
  simp only [Times.stamp, Times.setServer, Listener.stampTime, lidarStamp, hspin, h.dtime, and_self]

theorem forwarded_stamp {s : Listener.State} {d : ℤ} (h : Calibrated s.times d) (r : Round) :
    (listenerRound s r).times.clientSec * 1000000 + (listenerRound s r).times.clientUsec =
      lidarStamp (listenerRound s r) + d := by
  obtain ⟨hsec, husec⟩ := forwarded_split h r
  rw [hsec, husec, split_join]

/-- The pair in which a stamp arrives at the vehicle PC, through the double of lidar_send and the
two conversions of lidar_recv. -/
def relay (sec usec : ℤ) : ℤ × ℤ :=
  let unixTime := (sec : ℚ) + (usec : ℚ) / 1000000
  (relayedSec unixTime, relayedUsec unixTime)

/-- With exact doubles the devices lose nothing of a stamp that a `long` of theirs can hold. -/
theorem relay_lossless {t : ℤ} (h0 : 0 ≤ t) (h : t < 2 ^ 31 * 1000000) :
    relay (splitSec t) (splitUsec t) = (splitSec t, splitUsec t) := by
  have hsec : splitSec t = t / 1000000 := Int.tdiv_eq_ediv_of_nonneg h0
  have hjoin := split_join t
  obtain ⟨h1, h2⟩ := @relayed_split (splitSec t) (splitUsec t) (by omega) (by omega)
    (by omega) (by omega)
  simp only [relay, h1, h2]

/-- What listener forwards arrives within a microsecond. -/
theorem relay_forwarded {s : Listener.State} {d : ℤ} (h : Calibrated s.times d) (r : Round)
    (h0 : 0 ≤ lidarStamp (listenerRound s r) + d)
    (hlt : lidarStamp (listenerRound s r) + d < 2 ^ 31 * 1000000) :
    let t := (listenerRound s r).times
    let pair := relay t.clientSec t.clientUsec
    |pair.1 * 1000000 + pair.2 - (t.clientSec * 1000000 + t.clientUsec)| ≤ 1 := by
  intro t pair
  obtain ⟨hsec, husec⟩ := forwarded_split h r
  have hpair : pair = (t.clientSec, t.clientUsec) := by
    simp only [pair, t, hsec, husec, relay_lossless h0 hlt]
  rw [hpair, sub_self, abs_zero]
  exact zero_le_one

/-! ## TCP_Client2 -/

section Vehicle
variable (cos sin : ℚ → ℚ)

structure Reply where
  pose : TcpClient2.Pose
  exchange : Exchange

def clientRound (s : TcpClient2.State) (r : Reply) : TcpClient2.State :=
  TcpClient2.exchange cos sin r.pose r.exchange s

/-- TCP_Client2 from its start through its calibration and the rounds after it. -/
def clientRun (x : RoundTrip) (offV : ℤ) (pose : TcpClient2.Pose) (rounds : List Reply) :
    TcpClient2.State :=
  rounds.foldl (clientRound cos sin) (TcpClient2.exchange cos sin pose (calibration x offV) {})

theorem client_first (x : RoundTrip) (offV : ℤ) (pose : TcpClient2.Pose) :
    Calibrated (TcpClient2.exchange cos sin pose (calibration x offV) {}).times
      (estimated x offV) := by
  have hs := calibration_server x offV
  simp only [TcpClient2.exchange, TcpClient2.finish, Times.stamp, Times.setServer, Times.setDtime,
    hs, if_true]
  refine ⟨rfl, ?_⟩
  simp only [calibration, Timeval.micros_ofMicros, estimated]

theorem client_later {s : TcpClient2.State} {d : ℤ} (h : Calibrated s.times d) (r : Reply) :
    Calibrated (clientRound cos sin s r).times d := by
  have hne : ¬ s.times.countCalibr = 0 := by
    rw [h.count]
    decide
  simp only [clientRound, TcpClient2.exchange, TcpClient2.finish, Times.stamp, Times.setServer, hne,
    if_false, TcpClient2.estimate]
  exact ⟨h.count, h.dtime⟩

theorem clientRun_calibrated (x : RoundTrip) (offV : ℤ) (pose : TcpClient2.Pose)
    (rounds : List Reply) :
    Calibrated (clientRun cos sin x offV pose rounds).times (estimated x offV) := by
  have h : ∀ s : TcpClient2.State, Calibrated s.times (estimated x offV) →
      Calibrated (rounds.foldl (clientRound cos sin) s).times (estimated x offV) := by
    induction rounds with
    | nil => exact fun s hs => hs
    | cons r rounds ih => exact fun s hs => ih _ (client_later cos sin hs r)
  exact h _ (client_first cos sin x offV pose)

theorem commuDelay_eq {s : TcpClient2.State} {d : ℤ} (h : Calibrated s.times d)
    (pose : TcpClient2.Pose) (received offV : ℤ) (tvSend : Timeval) (sec usec : ℤ) :
    (TcpClient2.exchange cos sin pose (arriving received offV tvSend sec usec) s).commuDelay =
      received + offV - (sec * 1000000 + usec) + d := by
  have hne : ¬ s.times.countCalibr = 0 := by
    rw [h.count]
    decide
  simp only [TcpClient2.exchange, TcpClient2.finish, Times.stamp, Times.setServer, hne, if_false,
    TcpClient2.estimate, arriving, Timeval.micros_ofMicros, h.dtime]

/-- **The computed latency is within half of the two round trips** and two microseconds of the age
of the measurement: `msg` is the round in which listener forwards it, `lidarStamp` is its stamp once a
message has arrived, and `relayed` is the pair that arrives at the vehicle PC. -/
theorem commuDelay_near (offL offV : ℤ) (xL xC : RoundTrip) (first : Option LidarGrad) (angle : ℚ)
    (roundsL : List Round) (msg : Round) (pose : TcpClient2.Pose) (roundsC : List Reply)
    (received : ℤ) (tvSend : Timeval) (relayed : ℤ × ℤ) (pose' : TcpClient2.Pose) :
    let lidar := listenerRound (listenerRun xL offL first angle roundsL) msg
    let vehicle := TcpClient2.exchange cos sin pose'
      (arriving received offV tvSend relayed.1 relayed.2) (clientRun cos sin xC offV pose roundsC)
    |relayed.1 * 1000000 + relayed.2 -
        (lidar.times.clientSec * 1000000 + lidar.times.clientUsec)| ≤ 1 →
      2 * |vehicle.commuDelay - (received - (lidarStamp lidar - offL))| ≤ xL.time + xC.time + 4 := by
  intro lidar vehicle hloss
  have hstamp := forwarded_stamp (listenerRun_calibrated xL offL first angle roundsL) msg
  have hdelay : vehicle.commuDelay =
      received + offV - (relayed.1 * 1000000 + relayed.2) + estimated xC offV :=
    commuDelay_eq cos sin (clientRun_calibrated cos sin xC offV pose roundsC) pose' received offV
      tvSend relayed.1 relayed.2
  have hage := age_near (estimated_near xL offL) (estimated_near xC offV) hloss
  have hdiff : vehicle.commuDelay - (received - (lidarStamp lidar - offL)) =
      offV + estimated xC offV - (offL + estimated xL offL) -
        (relayed.1 * 1000000 + relayed.2 -
          (lidar.times.clientSec * 1000000 + lidar.times.clientUsec)) := by
    rw [hdelay, hstamp]
    ring
  rw [hdiff]
  exact hage

end Vehicle

/-- The lidar PC is an hour ahead, the vehicle PC two seconds behind, and the delays of the two
directions differ in both calibrations. -/
theorem commuDelay_skewed :
    let lidar := listenerRound (listenerRun ⟨1562000000000000, 1562000000000100, 1562000000000900,
      by decide, by decide⟩ 3600000000 none 0 [])
      ⟨some ⟨3, 3, 2, 1, 1562003600, 500000⟩, 0, ⟨default, default, 0, 0⟩⟩
    let pair := relay lidar.times.clientSec lidar.times.clientUsec
    let vehicle := TcpClient2.exchange (fun _ => 1) (fun _ => 0) ⟨3, 3, 2, 1⟩
      (arriving 1562000000700000 (-2000000) default pair.1 pair.2)
      (clientRun (fun _ => 1) (fun _ => 0) ⟨1562000000000000, 1562000000000700, 1562000000000800,
        by decide, by decide⟩ (-2000000) ⟨0, 0, 0, 0⟩ [])
    2 * |vehicle.commuDelay - (1562000000700000 - (lidarStamp lidar - 3600000000))| ≤ 1704 :=
  commuDelay_near _ _ 3600000000 (-2000000) _ _ none 0 [] _ _ [] _ default _ _
    (relay_forwarded (listenerRun_calibrated _ _ _ _ _) _ (by decide +kernel) (by decide +kernel))

end LidarRelay.Latency
