import Mathlib.Data.Rat.Defs
import Mathlib.Data.UInt
import Mathlib.Tactic.Common

/-! # The basic safety message of the SDK (`v2x_msg_bsm.h`) and the part of its fill that
`lidar_send.c` and `lidar_recv.c` have in common. The path history array, which `memset` clears
and nothing reads, is left out. -/

namespace LidarRelay
set_option autoImplicit false
set_option maxHeartbeats 250000

/-- `v2x_msg_bsm_t`; the defaults are what `memset(usr_bsm, 0, …)` leaves. -/
structure V2xMsgBsm where
  msgcount : UInt32 := 0
  tempId : UInt32 := 0
  longitude : ℚ := 0
  latitude : ℚ := 0
  elevation : ℚ := 0
  positionalaccuracy : Vector ℚ 3 := #v[0, 0, 0]
  transmissionstate : UInt32 := 0
  speed : ℚ := 0
  heading : ℚ := 0
  angle : ℚ := 0
  longaccel : ℚ := 0
  lataccel : ℚ := 0
  vertaccel : ℚ := 0
  yawrate : ℚ := 0
  secmark : UInt32 := 0
  unixTime : ℚ := 0
  wheelbrake : UInt32 := 0
  wheelbrakeavailable : UInt32 := 0
  sparebit : UInt32 := 0
  traction : Int32 := 0
  abs : Int32 := 0
  stabilitycontrol : Int32 := 0
  brakeboost : UInt32 := 0
  auxbrakes : UInt32 := 0
  width : ℚ := 0
  length : ℚ := 0
  eventHazardlights : UInt32 := 0
  eventAbsactivate : UInt32 := 0
  eventTractionctrlloss : UInt32 := 0
  eventStabilityctrlactivated : UInt32 := 0
  eventHazardbraking : UInt32 := 0
  eventAirbag : UInt32 := 0
  count : UInt32 := 0
  lowbeam : UInt32 := 0
  highbeam : UInt32 := 0
  leftturnsignal : UInt32 := 0
  rightturnsignal : UInt32 := 0
  hazardlights : UInt32 := 0
  autolightcontrol : UInt32 := 0
  dtimerunlights : UInt32 := 0
  foglights : UInt32 := 0
  parkinglights : UInt32 := 0
  wipersSwfnt : Int32 := 0
  wipersRtfnt : Int32 := 0
  wipersSwrear : Int32 := 0
  wipersRtrear : Int32 := 0
  vehicleheight : ℚ := 0
  bumperheightFront : ℚ := 0
  bumperheightRear : ℚ := 0
  vehiclemass : Int32 := 0
  vehicletype : UInt32 := 0
  sveEvdscExtent : UInt32 := 0

def maxBsmMsgCount : UInt32 := 128

/-- The six fields in which the fills of the two programs differ. -/
structure BsmMeasured where
  unixTime : ℚ
  angle : ℚ
  latitude : ℚ
  longitude : ℚ
  heading : ℚ
  speed : ℚ

/-- The body of `v2x_fill_bsm_msg`, given the value of its static counter and the fields that
depend on the program. -/
def fillBsm (msgcount : UInt32) (m : BsmMeasured) : V2xMsgBsm where
  msgcount := msgcount % maxBsmMsgCount
  tempId := 0x01020304
  unixTime := m.unixTime
  vehicletype := 4
  sveEvdscExtent := 4
  brakeboost := 1
  auxbrakes := 1
  width := 2.5
  length := 4.0
  eventHazardlights := 1
  eventAbsactivate := 0
  eventTractionctrlloss := 1
  eventStabilityctrlactivated := 0
  eventHazardbraking := 0
  eventAirbag := 1
  lowbeam := 1
  highbeam := 0
  leftturnsignal := 0
  rightturnsignal := 0
  hazardlights := 1
  autolightcontrol := 1
  dtimerunlights := 1
  foglights := 1
  parkinglights := 0
  wipersSwfnt := 0
  wipersRtfnt := 0
  wipersSwrear := 0
  wipersRtrear := 0
  vehiclemass := 4500
  vehicleheight := 6.30
  bumperheightFront := 0.87
  bumperheightRear := 0.85
  positionalaccuracy := #v[1.23, 1.12, 1.11]
  transmissionstate := 5
  angle := m.angle
  longaccel := 1.02
  lataccel := 1.12
  vertaccel := 4.22
  yawrate := 1.32
  wheelbrake := 1
  wheelbrakeavailable := 1
  sparebit := 1
  traction := 1
  abs := 0
  stabilitycontrol := 1
  latitude := m.latitude
  longitude := m.longitude
  heading := m.heading
  elevation := 100
  speed := m.speed

end LidarRelay
