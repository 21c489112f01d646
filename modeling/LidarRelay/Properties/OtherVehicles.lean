import LidarRelay.Foundations.Runs
import LidarRelay.Programs.AcceptLoop
import LidarRelay.Programs.LidarRecv
import LidarRelay.Programs.LidarSend

/-! # Other vehicles on the air

One station running lidar_recv hears the road-side unit and any number of other stations running
lidar_recv. Its callback stores whatever BSM comes; no program looks at the sender, and all of them
fill the same `temp_id`. Compared are a run and the same run without the BSMs of the vehicles:
`replies_iff` says which runs give the same replies.
-/

namespace LidarRelay.OtherVehicles
set_option autoImplicit false
set_option maxHeartbeats 250000

/-- The five globals that the callback of lidar_recv assigns. -/
structure Measurement where
  x : ℚ := 0
  y : ℚ := 0
  theta : ℚ := 0
  vel : ℚ := 0
  unixtime : ℚ := 0

def measurementOf (bsm : V2xMsgBsm) : Measurement :=
  ⟨bsm.latitude, bsm.longitude, bsm.heading, bsm.speed, bsm.unixTime⟩

def held (g : Globals) : Measurement :=
  ⟨g.xRecv, g.yRecv, g.thetaRecv, g.velRecv, g.unixtimeRecv⟩

def withHeld (m : Measurement) (g : Globals) : Globals :=
  { g with xRecv := m.x, yRecv := m.y, thetaRecv := m.theta, velRecv := m.vel,
           unixtimeRecv := m.unixtime }

def laterText (m : Measurement) : List Byte :=
  poseText m.x m.y m.theta m.vel (relayedSec m.unixtime) (relayedUsec m.unixtime)

/-- What every BSM of a vehicle says. -/
def vehicleMeasurement : Measurement := ⟨10, 114.17543, 0, 1 * 3.6, 0⟩

theorem measurementOf_vehicle (g : Globals) :
    measurementOf (LidarRecv.device.bsmOf g) = vehicleMeasurement := rfl

inductive Event where
  | accept (now : ℤ) (setup : Setup)
  | receive (chunk : List Byte) (tv : Timeval)
  | hangup
  | tick
  -- a BSM of the road-side unit
  | roadside (g : Globals)
  -- a BSM of another vehicle
  | vehicle (g : Globals)

def Event.isVehicle : Event → Bool
  | .vehicle _ => true
  | _ => false

/-- The process, its replies after the first on each connection, and two variables of the proof:
what the BSMs of the road-side unit alone would have left, and whether a vehicle's came later. -/
structure State where
  process : DeviceProcess Unit := {}
  replies : List (List Byte) := []
  roadside : Measurement := {}
  overridden : Bool := false

def step (s : State) : Event → Option State
  | .accept now setup => (s.process.accept () now setup).map fun p => { s with process := p }
  | .receive chunk tv => (s.process.receive LidarRecv.device chunk tv).map fun (p, out) =>
    { s with process := p
             replies := if s.process.serving.countCalibr = 0 then s.replies
               else s.replies ++ [out] }
  | .hangup => s.process.hangup.map fun p => { s with process := p }
  | .tick => (s.process.tick LidarRecv.device).map fun (p, _) => { s with process := p }
  | .roadside g => some
    { s with process := s.process.hear LidarRecv.device (LidarSend.device.bsmOf g)
             roadside := if s.process.registered then measurementOf (LidarSend.device.bsmOf g)
               else s.roadside
             overridden := if s.process.registered then false else s.overridden }
  | .vehicle g => some
    { s with process := s.process.hear LidarRecv.device (LidarRecv.device.bsmOf g)
             overridden := if s.process.registered then true else s.overridden }

def withoutVehicles (es : List Event) : List Event := es.filter fun e => !e.isVehicle

/-- A later reply is formatted while the last BSM heard is not a vehicle's, or while the numbers of
the road-side unit print as those of a vehicle anyway. -/
def Undisturbed (s : State) : Event → Prop
  | .receive _ _ => s.process.serving.countCalibr ≠ 0 → s.overridden = true →
    laterText s.roadside = laterText vehicleMeasurement
  | _ => True

instance : ∀ (s : State) (e : Event), Decidable (Undisturbed s e)
  | _, .receive _ _ => inferInstanceAs (Decidable (_ → _ → _))
  | _, .accept _ _ | _, .hangup | _, .tick | _, .roadside _ | _, .vehicle _ => .isTrue trivial

/-! ## The process that hears the road-side unit alone -/

def alone (m : Measurement) (p : DeviceProcess Unit) : DeviceProcess Unit :=
  { p with serving := { p.serving with g := withHeld m p.serving.g } }

theorem hear_eq (p : DeviceProcess Unit) (bsm : V2xMsgBsm) :
    p.hear LidarRecv.device bsm = if p.registered then alone (measurementOf bsm) p else p := rfl

theorem held_hear (p : DeviceProcess Unit) (bsm : V2xMsgBsm) :
    held (p.hear LidarRecv.device bsm).serving.g =
      if p.registered then measurementOf bsm else held p.serving.g := by
  rw [hear_eq]
  split <;> rfl

theorem alone_hear (m : Measurement) (p : DeviceProcess Unit) (bsm : V2xMsgBsm) :
    alone m (p.hear LidarRecv.device bsm) = alone m p := by
  rw [hear_eq]
  split <;> rfl

theorem hear_alone (m : Measurement) (p : DeviceProcess Unit) (bsm : V2xMsgBsm) :
    (alone m p).hear LidarRecv.device bsm =
      alone (if p.registered then measurementOf bsm else m) p := by
  rw [hear_eq, show (alone m p).registered = p.registered from rfl]
  split <;> rfl

theorem accept_alone (m : Measurement) (p : DeviceProcess Unit) (now : ℤ) (setup : Setup) :
    (alone m p).accept () now setup = (p.accept () now setup).map (alone m) := by
  unfold DeviceProcess.accept
  rw [show (alone m p).running = p.running from rfl, show (alone m p).conn = p.conn from rfl]
  split
  · split <;> rfl
  · rfl

theorem hangup_alone (m : Measurement) (p : DeviceProcess Unit) :
    (alone m p).hangup = p.hangup.map (alone m) := by
  unfold DeviceProcess.hangup
  rw [show (alone m p).conn = p.conn from rfl]
  split <;> rfl

theorem tick_alone (m : Measurement) {p q : DeviceProcess Unit} {bsm : Option V2xMsgBsm}
    (h : p.tick LidarRecv.device = some (q, bsm)) :
    held q.serving.g = held p.serving.g ∧
      (alone m p).tick LidarRecv.device = some (alone m q, bsm) := by
  unfold DeviceProcess.tick at h ⊢
  rw [show (alone m p).timers = p.timers from rfl]
  split at h
  · cases h
  · rename_i htimers
    obtain ⟨rfl, rfl⟩ := Prod.mk.inj (Option.some.inj h)
    rw [if_neg htimers]
    exact ⟨rfl, rfl⟩

/-- The decode of a request does not notice what came over the air. -/
theorem decodeRequest_commutes (m : Measurement) (buf : Buffer maxRecvLen) :
    Exec.Commutes (withHeld m) (LidarRecv.decodeRequest buf) :=
  .bind (.lift _) fun (_, _) => .bind (.lift _) fun _ => .bind (.modify fun _ => rfl) fun _ =>
    .bind (.lift _) fun (_, _) => .bind (.lift _) fun _ =>
    .bind (.lift _) fun (_, _) => .bind (.lift _) fun _ => .bind (.modify fun _ => rfl) fun _ =>
    .pure _

theorem held_withHeld (m : Measurement) (g : Globals) : held (withHeld m g) = m := rfl

theorem replyText_later {count : ℤ} (h : count ≠ 0) (tv : Timeval) (g : Globals) :
    LidarRecv.device.replyText g (replyTime count tv g.unixtimeRecv).1
      (replyTime count tv g.unixtimeRecv).2 = laterText (held g) := by
  rw [replyTime, if_neg h]
  rfl

/-- The same bytes at both processes: they go on together, and their later replies are the texts of
what each holds. -/
theorem receive_alone {m : Measurement} {p q q' : DeviceProcess Unit} {chunk out out' : List Byte}
    {tv : Timeval} (h : p.receive LidarRecv.device chunk tv = some (q, out))
    (h' : (alone m p).receive LidarRecv.device chunk tv = some (q', out')) :
    q' = alone m q ∧ held q.serving.g = held p.serving.g ∧
      (p.serving.countCalibr ≠ 0 →
        out = laterText (held p.serving.g) ++ [nul] ∧ out' = laterText m ++ [nul]) := by
  obtain ⟨-, ⟨g, buf, count⟩, hserve, rfl⟩ := DeviceProcess.receive_eq_some h
  obtain ⟨-, ⟨g', buf', count'⟩, hserve', rfl⟩ := DeviceProcess.receive_eq_some h'
  obtain ⟨hdec, hcount, -, hout⟩ := LidarRecv.device.serve_eq_ok hserve
  obtain ⟨hdec', hcount', -, hout'⟩ := LidarRecv.device.serve_eq_ok hserve'
  replace hdec : LidarRecv.decodeRequest (p.serving.buf.recv chunk) p.serving.g = (g, .ok buf) :=
    hdec
  replace hdec' : LidarRecv.decodeRequest (p.serving.buf.recv chunk) (withHeld m p.serving.g) =
    (g', .ok buf') := hdec'
  have hcomm := decodeRequest_commutes m (p.serving.buf.recv chunk) p.serving.g
  rw [hdec, hdec'] at hcomm
  obtain ⟨hg, hbuf⟩ := Prod.mk.inj hcomm
  obtain rfl : g' = withHeld m g := hg
  obtain rfl : buf' = buf := Except.ok.inj hbuf
  obtain rfl : count' = count := hcount'.trans hcount.symm
  have hkeep := LidarRecv.decodeRequest_keeps (p.serving.buf.recv chunk) p.serving.g
  rw [hdec] at hkeep
  have hheld : held g = held p.serving.g := by
    simp only [Prod.mk.injEq] at hkeep
    obtain ⟨hx, hy, htheta, hvel, htime⟩ := hkeep
    simp only [held, hx, hy, htheta, hvel, htime]
  refine ⟨rfl, hheld, fun hlater => ⟨?_, ?_⟩⟩
  · rw [hout, replyText_later hlater, hheld]
  · rw [hout', replyText_later (show (alone m p).serving.countCalibr ≠ 0 from hlater),
      held_withHeld]

/-! ## The two runs -/

/-- A state of the one run and the state of the other at the same place. -/
structure Beside (a b : State) : Prop where
  process : b.process = alone a.roadside a.process
  roadside : a.overridden = false → held a.process.serving.g = a.roadside
  vehicle : a.overridden = true → held a.process.serving.g = vehicleMeasurement

theorem beside_start : Beside {} {} := ⟨rfl, fun _ => rfl, fun h => Bool.noConfusion h⟩

theorem step_vehicle {a a' b : State} {g : Globals} (h : Beside a b)
    (hs : step a (.vehicle g) = some a') : Beside a' b ∧ a'.replies = a.replies := by
  obtain rfl := Option.some.inj hs
  refine ⟨⟨h.process.trans (alone_hear _ _ _).symm, ?_, ?_⟩, rfl⟩
  · intro ho
    dsimp only at ho ⊢
    rw [held_hear]
    split at ho
    · cases ho
    · rename_i hreg
      rw [if_neg hreg]
      exact h.roadside ho
  · intro ho
    dsimp only at ho ⊢
    rw [held_hear]
    split at ho
    · rename_i hreg
      rw [if_pos hreg]
      exact measurementOf_vehicle g
    · rename_i hreg
      rw [if_neg hreg]
      exact h.vehicle ho

theorem step_roadside {a a' b b' : State} {g : Globals} (h : Beside a b)
    (hs : step a (.roadside g) = some a') (hs' : step b (.roadside g) = some b') :
    Beside a' b' := by
  obtain rfl := Option.some.inj hs
  obtain rfl := Option.some.inj hs'
  refine ⟨?_, ?_, ?_⟩
  · dsimp only
    rw [h.process, hear_alone, alone_hear]
  · intro ho
    dsimp only at ho ⊢
    rw [held_hear]
    split
    · rfl
    · rename_i hreg
      rw [if_neg hreg] at ho
      exact h.roadside ho
  · intro ho
    dsimp only at ho ⊢
    rw [held_hear]
    split at ho
    · cases ho
    · rename_i hreg
      rw [if_neg hreg]
      exact h.vehicle ho

theorem append_reply {as bs : List (List Byte)} {x y : List Byte} :
    as ++ [x ++ [nul]] = bs ++ [y ++ [nul]] ↔ as = bs ∧ x = y := by
  rw [List.append_singleton_inj, List.append_left_inj]

theorem Beside.next {a b : State} (h : Beside a b) {p : DeviceProcess Unit}
    (hheld : held p.serving.g = held a.process.serving.g) (replies replies' : List (List Byte)) :
    Beside { a with process := p, replies := replies }
      { b with process := alone a.roadside p, replies := replies' } :=
  ⟨rfl, fun ho => hheld.trans (h.roadside ho), fun ho => hheld.trans (h.vehicle ho)⟩

theorem step_receive {a a' b b' : State} {chunk : List Byte} {tv : Timeval} (h : Beside a b)
    (hs : step a (.receive chunk tv) = some a') (hs' : step b (.receive chunk tv) = some b') :
    Beside a' b' ∧ (a'.replies = b'.replies ↔
      a.replies = b.replies ∧ Undisturbed a (.receive chunk tv)) := by
  obtain ⟨⟨p, out⟩, hp, rfl⟩ := Option.map_eq_some_iff.mp hs
  obtain ⟨⟨p', out'⟩, hp', rfl⟩ := Option.map_eq_some_iff.mp hs'
  have hcount : b.process.serving.countCalibr = a.process.serving.countCalibr := by
    rw [h.process]
    rfl
  rw [h.process] at hp'
  obtain ⟨rfl, hheld, hlater⟩ := receive_alone hp hp'
  refine ⟨h.next hheld _ _, ?_⟩
  dsimp only
  rw [hcount]
  by_cases hc : a.process.serving.countCalibr = 0
  · rw [if_pos hc, if_pos hc]
    exact ⟨fun hr => ⟨hr, fun hne => absurd hc hne⟩, And.left⟩
  · obtain ⟨rfl, rfl⟩ := hlater hc
    rw [if_neg hc, if_neg hc, append_reply]
    refine and_congr_right fun _ => ?_
    cases ho : a.overridden with
    | false =>
      rw [h.roadside ho]
      exact ⟨fun _ _ ho' => absurd (ho.symm.trans ho') Bool.false_ne_true, fun _ => rfl⟩
    | true =>
      rw [h.vehicle ho]
      exact ⟨fun ht _ _ => ht.symm, fun hu => (hu hc ho).symm⟩

/-- Any other event happens in both runs. A reply is the same exactly when it is undisturbed. -/
theorem step_both {a a' b b' : State} {e : Event} (he : e.isVehicle = false) (h : Beside a b)
    (hs : step a e = some a') (hs' : step b e = some b') :
    Beside a' b' ∧ (a'.replies = b'.replies ↔ a.replies = b.replies ∧ Undisturbed a e) := by
  have hquiet : (a.replies = b.replies ↔ a.replies = b.replies ∧ True) := by rw [and_true]
  cases e with
  | accept now setup =>
    obtain ⟨p, hp, rfl⟩ := Option.map_eq_some_iff.mp hs
    obtain ⟨p', hp', rfl⟩ := Option.map_eq_some_iff.mp hs'
    rw [h.process, accept_alone, hp] at hp'
    obtain rfl := Option.some.inj hp'
    obtain ⟨-, rfl | rfl⟩ := DeviceProcess.accept_eq_some hp
    · exact ⟨h.next (by rfl) _ _, hquiet⟩
    · exact ⟨h.next (by rfl) _ _, hquiet⟩
  | receive chunk tv => exact step_receive h hs hs'
  | hangup =>
    obtain ⟨p, hp, rfl⟩ := Option.map_eq_some_iff.mp hs
    obtain ⟨p', hp', rfl⟩ := Option.map_eq_some_iff.mp hs'
    rw [h.process, hangup_alone, hp] at hp'
    obtain rfl := Option.some.inj hp'
    obtain ⟨-, rfl⟩ := DeviceProcess.hangup_eq_some hp
    exact ⟨h.next (by rfl) _ _, hquiet⟩
  | tick =>
    obtain ⟨⟨p, bsm⟩, hp, rfl⟩ := Option.map_eq_some_iff.mp hs
    obtain ⟨⟨p', bsm'⟩, hp', rfl⟩ := Option.map_eq_some_iff.mp hs'
    obtain ⟨hheld, hp₁⟩ := tick_alone a.roadside hp
    rw [h.process, hp₁] at hp'
    obtain ⟨rfl, -⟩ := Prod.mk.inj (Option.some.inj hp')
    exact ⟨h.next hheld _ _, hquiet⟩
  | roadside g =>
    refine ⟨step_roadside h hs hs', ?_⟩
    obtain rfl := Option.some.inj hs
    obtain rfl := Option.some.inj hs'
    exact hquiet
  | vehicle g => cases he

theorem replies_iff_of_beside {a a' b b' : State} {es : List Event} (h : Beside a b)
    (hs : run step a es = some a') (hs' : run step b (withoutVehicles es) = some b') :
    a'.replies = b'.replies ↔ a.replies = b.replies ∧ Meets step Undisturbed a es := by
  induction es generalizing a b with
  | nil =>
    obtain rfl := Option.some.inj hs
    obtain rfl := Option.some.inj hs'
    exact ⟨fun he => ⟨he, trivial⟩, And.left⟩
  | cons e es ih =>
    obtain ⟨a₁, ha, hrun⟩ := run_cons_eq_some step hs
    have hmeets : Meets step Undisturbed a (e :: es) ↔
        Undisturbed a e ∧ Meets step Undisturbed a₁ es :=
      ⟨fun hm => hm a₁ ha, fun hm a₂ ha₂ => Option.some.inj (ha.symm.trans ha₂) ▸ hm⟩
    rw [hmeets]
    by_cases he : e.isVehicle = true
    · rw [withoutVehicles, List.filter_cons_of_neg (by simp [he])] at hs'
      cases e with
      | vehicle g =>
        obtain ⟨h₁, hsame⟩ := step_vehicle h ha
        rw [ih h₁ hrun hs', hsame]
        exact ⟨fun hr => ⟨hr.1, trivial, hr.2⟩, fun hr => ⟨hr.1, hr.2.2⟩⟩
      | _ => cases he
    · rw [Bool.not_eq_true] at he
      rw [withoutVehicles, List.filter_cons_of_pos (by simp [he])] at hs'
      obtain ⟨b₁, hb, hrun'⟩ := run_cons_eq_some step hs'
      obtain ⟨h₁, hreply⟩ := step_both he h ha hb
      rw [ih h₁ hrun hrun', hreply, and_assoc]

/-- **The replies of a station are those it would give if it heard the road-side unit alone exactly
when each is formatted undisturbed.** -/
theorem replies_iff (es : List Event) (s s' : State) (hs : run step {} es = some s)
    (hs' : run step {} (withoutVehicles es) = some s') :
    s.replies = s'.replies ↔ Meets step Undisturbed {} es := by
  rw [replies_iff_of_beside beside_start hs hs']
  exact ⟨And.right, fun h => ⟨rfl, h⟩⟩

def request : List Byte := angleText 1 0 0 ++ [nul]

def connected : List Event := [.accept 0 {}, .receive request default]

/-- The road-side unit says 3, then a car is heard, and TCP_Client2 asks. -/
def carLast : List Event :=
  connected ++ [.roadside { xRecv := 3 }, .vehicle {}, .receive request default]

def carFirst : List Event :=
  connected ++ [.vehicle {}, .roadside { xRecv := 3 }, .receive request default]

/-- TCP_Client2 gets the fixed numbers of the car. -/
theorem vehicle_replaces :
    ∃ s s', run step {} carLast = some s ∧ run step {} (withoutVehicles carLast) = some s' ∧
      s.replies = [poseText 10 114.17543 0 3.6 0 0 ++ [nul]] ∧
      s'.replies = [poseText 3 0 0 0 0 0 ++ [nul]] ∧ s.replies ≠ s'.replies := by
  have h : (run step {} carLast).map State.replies =
      some [poseText 10 114.17543 0 3.6 0 0 ++ [nul]] := by decide +kernel
  have h' : (run step {} (withoutVehicles carLast)).map State.replies =
      some [poseText 3 0 0 0 0 0 ++ [nul]] := by decide +kernel
  obtain ⟨s, hs, hr⟩ := Option.map_eq_some_iff.mp h
  obtain ⟨s', hs', hr'⟩ := Option.map_eq_some_iff.mp h'
  refine ⟨s, s', hs, hs', hr, hr', ?_⟩
  rw [hr, hr']
  decide +kernel

theorem vehicle_overtaken :
    ∃ s s', run step {} carFirst = some s ∧ run step {} (withoutVehicles carFirst) = some s' ∧
      s.replies = s'.replies := by
  obtain ⟨s, hs⟩ := Option.isSome_iff_exists.mp
    (by decide +kernel : (run step {} carFirst).isSome = true)
  obtain ⟨s', hs'⟩ := Option.isSome_iff_exists.mp
    (by decide +kernel : (run step {} (withoutVehicles carFirst)).isSome = true)
  exact ⟨s, s', hs, hs', (replies_iff carFirst s s' hs hs').mpr (by decide +kernel)⟩

end LidarRelay.OtherVehicles
