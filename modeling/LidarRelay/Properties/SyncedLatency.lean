import LidarRelay.Properties.Latency
import LidarRelay.Properties.NtpStamps

/-! # The computed latency when the device clocks are not quite right

The two devices are synchronised by `ntpclient` and no better than that. Each PC calibrates against
the clock of its own device, so what the two device clocks are apart goes into the latency that the
vehicle PC computes.
-/

namespace LidarRelay.Latency
open RoundTrip NtpClient
set_option autoImplicit false
set_option maxHeartbeats 250000

/-- An exchange in the time of a device whose clock stands `ahead`. -/
def seenBy (x : RoundTrip) (ahead : ℤ) : RoundTrip where
  sent := x.sent + ahead
  served := x.served + ahead
  received := x.received + ahead
  sent_le := Int.add_le_add_right x.sent_le _
  le_received := Int.add_le_add_right x.le_received _

theorem seenBy_time (x : RoundTrip) (ahead : ℤ) : (seenBy x ahead).time = x.time := by
  simp only [seenBy, RoundTrip.time]
  ring

/-- A client calibrates against what its device takes for the time. -/
theorem estimated_seenBy (x : RoundTrip) (offset ahead : ℤ) :
    2 * |estimated (seenBy x ahead) (offset - ahead) + (offset - ahead)| ≤ x.time + 1 := by
  rw [← seenBy_time x ahead]
  exact estimated_near _ _

section Vehicle
variable (cos sin : ℚ → ℚ)

/-- The latency is off by what the two device clocks are apart, and by half of the two round trips
of the calibrations. -/
theorem commuDelay_apart (offL offV aheadL aheadV : ℤ) (xL xC : RoundTrip) (first : Option LidarGrad)
    (angle : ℚ) (roundsL : List Round) (msg : Round) (pose : TcpClient2.Pose) (roundsC : List Reply)
    (received : ℤ) (tvSend : Timeval) (relayed : ℤ × ℤ) (pose' : TcpClient2.Pose) :
    let lidar := listenerRound (listenerRun (seenBy xL aheadL) (offL - aheadL) first angle roundsL) msg
    let vehicle := TcpClient2.exchange cos sin pose'
      (arriving received offV tvSend relayed.1 relayed.2)
      (clientRun cos sin (seenBy xC aheadV) (offV - aheadV) pose roundsC)
    |relayed.1 * 1000000 + relayed.2 -
        (lidar.times.clientSec * 1000000 + lidar.times.clientUsec)| ≤ 1 →
      2 * |vehicle.commuDelay - (received - (lidarStamp lidar - offL))| ≤
        xL.time + xC.time + 4 + 2 * |aheadV - aheadL| := by
  intro lidar vehicle hloss
  have hstamp := forwarded_stamp
    (listenerRun_calibrated (seenBy xL aheadL) (offL - aheadL) first angle roundsL) msg
  have hdelay : vehicle.commuDelay = received + offV - (relayed.1 * 1000000 + relayed.2) +
      estimated (seenBy xC aheadV) (offV - aheadV) :=
    commuDelay_eq cos sin (clientRun_calibrated cos sin (seenBy xC aheadV) (offV - aheadV) pose roundsC)
      pose' received offV tvSend relayed.1 relayed.2
  have hage := age_near (estimated_seenBy xL offL aheadL) (estimated_seenBy xC offV aheadV) hloss
  have hdiff : vehicle.commuDelay - (received - (lidarStamp lidar - offL)) =
      ((offV - aheadV) + estimated (seenBy xC aheadV) (offV - aheadV) -
        ((offL - aheadL) + estimated (seenBy xL aheadL) (offL - aheadL)) -
        (relayed.1 * 1000000 + relayed.2 -
          (lidar.times.clientSec * 1000000 + lidar.times.clientUsec))) + (aheadV - aheadL) := by
    rw [hdelay, hstamp]
    ring
  rw [hdiff]
  have hsplit := abs_add_le ((offV - aheadV) + estimated (seenBy xC aheadV) (offV - aheadV) -
    ((offL - aheadL) + estimated (seenBy xL aheadL) (offL - aheadL)) -
    (relayed.1 * 1000000 + relayed.2 -
      (lidar.times.clientSec * 1000000 + lidar.times.clientUsec))) (aheadV - aheadL)
  linarith

/-- **The computed latency of two devices that `ntpclient` has set** is off by what the answers of
the time server took, the errors of the conversions and half of the two calibrations. -/
theorem commuDelay_synced (offL offV : ℤ) {aheadL aheadV : ℤ} {delayL delayV errL errV : ℚ}
    (hL : ClockSet aheadL delayL errL) (hV : ClockSet aheadV delayV errV) (xL xC : RoundTrip)
    (first : Option LidarGrad) (angle : ℚ) (roundsL : List Round) (msg : Round)
    (pose : TcpClient2.Pose) (roundsC : List Reply) (received : ℤ) (tvSend : Timeval)
    (relayed : ℤ × ℤ) (pose' : TcpClient2.Pose) :
    let lidar := listenerRound (listenerRun (seenBy xL aheadL) (offL - aheadL) first angle roundsL) msg
    let vehicle := TcpClient2.exchange cos sin pose'
      (arriving received offV tvSend relayed.1 relayed.2)
      (clientRun cos sin (seenBy xC aheadV) (offV - aheadV) pose roundsC)
    |relayed.1 * 1000000 + relayed.2 -
        (lidar.times.clientSec * 1000000 + lidar.times.clientUsec)| ≤ 1 →
      |(vehicle.commuDelay - (received - (lidarStamp lidar - offL)) : ℤ)| ≤
        ((xL.time + xC.time : ℤ) : ℚ) / 2 + (delayL + errL) + (delayV + errV) + 764 := by
  intro lidar vehicle hloss
  have hapart := commuDelay_apart cos sin offL offV aheadL aheadV xL xC first angle roundsL msg pose
    roundsC received tvSend relayed pose' hloss
  have hq : 2 * ((|vehicle.commuDelay - (received - (lidarStamp lidar - offL))| : ℤ) : ℚ) ≤
      xL.time + xC.time + 4 + 2 * |(aheadV : ℚ) - aheadL| := by exact_mod_cast hapart
  have hset : |(aheadV : ℚ) - aheadL| ≤ (delayV + errV + 381) + (delayL + errL + 381) :=
    (abs_sub _ _).trans (add_le_add (clockSet_near hV) (clockSet_near hL))
  push_cast
  push_cast at hq
  linarith

end Vehicle

/-- An answer at a full second, on its way for `d` microseconds. -/
theorem clockSet_late {d : ℤ} (h : 0 ≤ d) : ClockSet (-d) d 0 where
  set := by
    have hmicros : setMicros (.ofParts ((1562000000 + epoch) * 4294967296)) = 1562000000000000 := by
      decide +kernel
    refine ⟨(1562000000 + epoch) * 4294967296, 1562000000000000, 1562000000000000 + d, ?_, ?_, ?_,
      ?_, ?_, le_rfl, ?_⟩
    · norm_num [Stamps, part, epoch]
    · norm_num
    · norm_num
    · norm_num
    · exact le_add_of_nonneg_right (Int.cast_nonneg h)
    · rw [hmicros]
      push_cast
      ring

def lidarTrip : RoundTrip where
  sent := 1562000000000000
  served := 1562000000000100
  received := 1562000000000900
  sent_le := by decide
  le_received := by decide

def vehicleTrip : RoundTrip where
  sent := 1562000000000000
  served := 1562000000000700
  received := 1562000000000800
  sent_le := by decide
  le_received := by decide

/-- The clocks of the two devices are 20 ms and 5 ms behind; the lidar PC is an hour ahead, the
vehicle PC two seconds behind. -/
theorem commuDelay_synced_late :
    let lidar := listenerRound (listenerRun (seenBy lidarTrip (-20000)) (3600000000 - -20000) none 0 [])
      ⟨some ⟨3, 3, 2, 1, 1562003600, 500000⟩, 0, ⟨default, default, 0, 0⟩⟩
    let pair := relay lidar.times.clientSec lidar.times.clientUsec
    let vehicle := TcpClient2.exchange (fun _ => 1) (fun _ => 0) ⟨3, 3, 2, 1⟩
      (arriving 1562000000700000 (-2000000) default pair.1 pair.2)
      (clientRun (fun _ => 1) (fun _ => 0) (seenBy vehicleTrip (-5000)) (-2000000 - -5000)
        ⟨0, 0, 0, 0⟩ [])
    |vehicle.commuDelay - (1562000000700000 - (lidarStamp lidar - 3600000000))| ≤ 26614 := by
  intro lidar pair vehicle
  have h := commuDelay_synced (fun _ => 1) (fun _ => 0) 3600000000 (-2000000)
    (clockSet_late (d := 20000) (by decide)) (clockSet_late (d := 5000) (by decide)) lidarTrip
    vehicleTrip none 0 [] ⟨some ⟨3, 3, 2, 1, 1562003600, 500000⟩, 0, ⟨default, default, 0, 0⟩⟩
    ⟨0, 0, 0, 0⟩ [] 1562000000700000 default pair ⟨3, 3, 2, 1⟩
    (relay_forwarded (listenerRun_calibrated _ _ _ _ _) _ (by decide +kernel) (by decide +kernel))
  have htrips : lidarTrip.time + vehicleTrip.time = 1700 := by decide
  rw [htrips] at h
  have hbound : ((1700 : ℤ) : ℚ) / 2 + ((20000 : ℤ) + 0) + ((5000 : ℤ) + 0) + 764 = (26614 : ℤ) := by
    norm_num
  rw [hbound] at h
  exact Int.cast_le.mp h

end LidarRelay.Latency
