import LidarRelay.Programs.LidarRecv
import LidarRelay.Programs.LidarSend
import LidarRelay.Programs.Station

/-! # The documented ranges of a BSM

`v2x_msg_bsm.h` gives a range for most elements. The constants of the two fills keep them, and so
does the counter. The numbers from the network are stored as they come: whether every BSM of a run
is in range is decided by the globals at the expiries of the timer (`allInRange_iff`).
-/

namespace LidarRelay.Ranges
set_option autoImplicit false
set_option maxHeartbeats 250000

def Within {α : Type} [LE α] (lo hi v : α) : Prop := lo ≤ v ∧ v ≤ hi

instance {α : Type} [LE α] [DecidableLE α] (lo hi v : α) : Decidable (Within lo hi v) :=
  inferInstanceAs (Decidable (_ ∧ _))

/-- The ranges of the header; elements for which it gives none are left out. -/
structure InRange (b : V2xMsgBsm) : Prop where
  msgcount : Within 0 127 b.msgcount
  longitude : Within (-180) 180 b.longitude
  latitude : Within (-90) 90 b.latitude
  elevation : Within (-409.5) 6143.9 b.elevation
  semiMajorAxisAccuracy : Within (0 : ℚ) 12.7 b.positionalaccuracy[0]
  semiMinorAxisAccuracy : Within (0 : ℚ) 12.7 b.positionalaccuracy[1]
  semiMajorAxisOrientation : Within (0 : ℚ) 359.9945078786 b.positionalaccuracy[2]
  transmissionstate : Within 0 7 b.transmissionstate
  speed : Within 0 163.82 b.speed
  heading : Within 0 359.9875 b.heading
  angle : Within (-189) 189 b.angle
  longaccel : Within (-20) 20 b.longaccel
  lataccel : Within (-20) 20 b.lataccel
  vertaccel : Within (-24.7) 24.9 b.vertaccel
  yawrate : Within (-327.67) 327.67 b.yawrate
  width : Within 0 10.23 b.width
  length : Within 0 40.95 b.length
  wipersSwfnt : Within 0 6 b.wipersSwfnt
  wipersRtfnt : Within 0 127 b.wipersRtfnt
  wipersSwrear : Within 0 6 b.wipersSwrear
  wipersRtrear : Within 0 127 b.wipersRtrear
  vehicleheight : Within 0 6.35 b.vehicleheight
  bumperheightFront : Within 0 1.27 b.bumperheightFront
  bumperheightRear : Within 0 1.27 b.bumperheightRear
  vehiclemass : Within 0 170000 b.vehiclemass
  vehicletype : Within 0 15 b.vehicletype
  sveEvdscExtent : Within 0 15 b.sveEvdscExtent

/-- What the ranges ask of the fields that are not constants. -/
structure MeasuredInRange (m : BsmMeasured) : Prop where
  longitude : Within (-180) 180 m.longitude
  latitude : Within (-90) 90 m.latitude
  speed : Within 0 163.82 m.speed
  heading : Within 0 359.9875 m.heading
  angle : Within (-189) 189 m.angle

theorem msgcount_within (n : UInt32) : Within 0 127 (n % maxBsmMsgCount) := by
  refine ⟨UInt32.zero_le, ?_⟩
  rw [UInt32.le_iff_toNat_le, UInt32.toNat_mod]
  have h : n.toNat % 128 < 128 := Nat.mod_lt _ (by decide)
  exact Nat.le_of_lt_succ h

theorem constants_inRange : InRange (fillBsm 0 ⟨0, 0, 0, 0, 0, 0⟩) := by
  constructor <;> decide +kernel

theorem inRange_fillBsm (n : UInt32) (m : BsmMeasured) :
    InRange (fillBsm n m) ↔ MeasuredInRange m := by
  constructor
  · exact fun h => ⟨h.longitude, h.latitude, h.speed, h.heading, h.angle⟩
  · exact fun h => { constants_inRange with
      msgcount := msgcount_within n
      longitude := h.longitude
      latitude := h.latitude
      speed := h.speed
      heading := h.heading
      angle := h.angle }

/-! ## The globals -/

/-- What lidar_send has decoded, taken as degrees and metres per second. -/
structure SendInRange (g : Globals) : Prop where
  x : Within (-90) 90 g.xRecv
  y : Within (-180) 180 g.yRecv
  theta : Within 0 359.9875 g.thetaRecv
  vel : Within 0 (163.82 / 3.6) g.velRecv

theorem lidarSend_inRange (g : Globals) :
    InRange (LidarSend.device.bsmOf g) ↔ SendInRange g := by
  have hspeed : Within 0 163.82 (g.velRecv * 3.6) ↔ Within 0 (163.82 / 3.6) g.velRecv := by
    have hpos : (0 : ℚ) < 3.6 := by norm_num
    exact and_congr (mul_nonneg_iff_of_pos_right hpos) (le_div_iff₀ hpos).symm
  rw [Device.bsmOf, inRange_fillBsm]
  constructor
  · exact fun h => ⟨h.latitude, h.longitude, h.heading, hspeed.mp h.speed⟩
  · have hzero : MeasuredInRange (LidarSend.measured {}) := by constructor <;> decide +kernel
    exact fun h => ⟨h.y, h.x, hspeed.mpr h.vel, h.theta, hzero.angle⟩

theorem lidarRecv_inRange (g : Globals) :
    InRange (LidarRecv.device.bsmOf g) ↔ Within (-189) 189 g.angleRecv := by
  rw [Device.bsmOf, inRange_fillBsm]
  constructor
  · exact fun h => h.angle
  · have hzero : MeasuredInRange (LidarRecv.measured {}) := by constructor <;> decide +kernel
    exact fun h => { hzero with angle := h }

/-! ## Whole runs -/

def AllInRange (s : Station) : Prop := ∀ b ∈ s.sent, InRange b

theorem step_allInRange {d : Device} {s s' : Station} {e : Station.Event}
    (h : Station.step d s e = some s') (hs : AllInRange s) :
    AllInRange s' ↔ (e = .tick → InRange (d.bsmOf s.globals)) := by
  unfold AllInRange
  rcases (Station.stepped h).sent with ⟨he, hsent⟩ | ⟨he, hsent⟩
  · rw [hsent]
    exact ⟨fun _ he' => absurd he' he, fun _ => hs⟩
  · rw [hsent, List.forall_mem_append]
    constructor
    · exact fun h _ => h.2 _ (List.mem_singleton_self _)
    · refine fun h => ⟨hs, fun b hb => ?_⟩
      obtain rfl := List.mem_singleton.mp hb
      exact h he

theorem along_allInRange_iff (d : Device) (es : List Station.Event) :
    Along (Station.step d) AllInRange {} es ↔
      Meets (Station.step d) (fun s e => e = .tick → InRange (d.bsmOf s.globals)) {} es :=
  along_iff_meets (I := fun _ => True) (fun _ _ _ _ _ _ _ => trivial)
    (fun _ _ _ _ hs h => step_allInRange h hs) trivial fun _ hb => absurd hb List.not_mem_nil

/-- **Every BSM of a run is in range exactly when the globals are at every expiry of the timer**:
for lidar_send position, heading and speed, for lidar_recv the angle. -/
theorem allInRange_iff (es : List Station.Event) :
    (Along (Station.step LidarSend.device) AllInRange {} es ↔
        Meets (Station.step LidarSend.device) (fun s e => e = .tick → SendInRange s.globals) {} es) ∧
      (Along (Station.step LidarRecv.device) AllInRange {} es ↔
        Meets (Station.step LidarRecv.device)
          (fun s e => e = .tick → Within (-189) 189 s.globals.angleRecv) {} es) := by
  constructor
  · rw [along_allInRange_iff]
    simp only [lidarSend_inRange]
  · rw [along_allInRange_iff]
    simp only [lidarRecv_inRange]

/-- listener connects and says that the target is at 1, 2, heads for -90 degrees and moves. -/
def negativeHeading : List Station.Event :=
  [.accept 0 {}, .receive (poseText 1 2 (-90) 1 0 0 ++ [nul]) default, .tick]

theorem heading_out_of_range :
    ∃ s, run (Station.step LidarSend.device) {} negativeHeading = some s ∧
      s.sent.map V2xMsgBsm.heading = [-90] ∧ ¬ AllInRange s := by
  have h : (run (Station.step LidarSend.device) {} negativeHeading).map
      (fun s => s.sent.map V2xMsgBsm.heading) = some [-90] := by decide +kernel
  obtain ⟨s, hs, hsent⟩ := Option.map_eq_some_iff.mp h
  refine ⟨s, hs, hsent, fun hall => ?_⟩
  obtain ⟨b, hb, hheading⟩ := List.mem_map.mp (hsent ▸ List.mem_singleton_self (-90 : ℚ))
  have hrange := (hall b hb).heading.1
  rw [hheading] at hrange
  exact absurd hrange (by decide +kernel)

end LidarRelay.Ranges
