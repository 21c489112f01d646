import LidarRelay.Foundations.Runs
import LidarRelay.Programs.AcceptLoop

/-! # A device program by itself

The process of one device with everything that can happen to it: connections come and go, bytes
arrive from whichever client, timers expire, BSMs come over the air. `sent` records what it has
passed to `mde_v2x_send_bsm`. The two rules at the end carry an invariant of the globals, and what
is known of the BSMs, over whole runs.
-/

namespace LidarRelay
set_option autoImplicit false
set_option maxHeartbeats 250000

structure Station where
  process : DeviceProcess Unit := {}
  sent : List V2xMsgBsm := []

namespace Station

inductive Event where
  | accept (now : ℤ) (setup : Setup)
  -- one `recv` with `iret>0`, the decode and the reply
  | receive (chunk : List Byte) (tv : Timeval)
  | hangup
  | tick
  | hear (bsm : V2xMsgBsm)

def globals (s : Station) : Globals := s.process.serving.g

def step (d : Device) (s : Station) : Event → Option Station
  | .accept now setup => (s.process.accept () now setup).map fun p => { s with process := p }
  | .receive chunk tv => (s.process.receive d chunk tv).map fun (p, _) => { s with process := p }
  | .hangup => s.process.hangup.map fun p => { s with process := p }
  | .tick => (s.process.tick d).map fun (p, bsm) =>
    { process := p, sent := s.sent ++ bsm.toList }
  | .hear bsm => some { s with process := s.process.hear d bsm }

/-- What a step does to the globals. -/
inductive Effect (d : Device) (g : Globals) : Globals → Prop
  | same : Effect d g g
  | decode {buf buf' : Buffer maxRecvLen} {g' : Globals} (h : d.decode buf g = (g', .ok buf')) :
      Effect d g g'
  | count : Effect d g { g with msgcount := g.msgcount + 1 }
  | hear (bsm : V2xMsgBsm) : Effect d g (d.recvHandle bsm g)

/-- What a step does besides: the counter of the connection stays 0 or 1, and a BSM goes out only
at an expiry, filled from the globals of that moment. -/
structure Stepped (d : Device) (s s' : Station) (e : Event) : Prop where
  globals : Effect d s.globals s'.globals
  count : s'.process.serving.countCalibr = s.process.serving.countCalibr ∨
    s'.process.serving.countCalibr = 0 ∨ s'.process.serving.countCalibr = 1
  sent : e ≠ .tick ∧ s'.sent = s.sent ∨ e = .tick ∧ s'.sent = s.sent ++ [d.bsmOf s.globals]

theorem stepped {d : Device} {s s' : Station} {e : Event} (h : step d s e = some s') :
    Stepped d s s' e := by
  cases e with
  | accept now setup =>
    obtain ⟨p, hp, rfl⟩ := Option.map_eq_some_iff.mp h
    obtain ⟨-, rfl | rfl⟩ := DeviceProcess.accept_eq_some hp
    · exact ⟨.same, .inr (.inl rfl), .inl ⟨Event.noConfusion, rfl⟩⟩
    · exact ⟨.same, .inl rfl, .inl ⟨Event.noConfusion, rfl⟩⟩
  | receive chunk tv =>
    obtain ⟨⟨p, out⟩, hp, rfl⟩ := Option.map_eq_some_iff.mp h
    obtain ⟨-, t, hserve, rfl⟩ := DeviceProcess.receive_eq_some hp
    obtain ⟨hdec, hcount, -, -⟩ := d.serve_eq_ok hserve
    refine ⟨.decode hdec, ?_, .inl ⟨Event.noConfusion, rfl⟩⟩
    dsimp only
    rw [hcount]
    split
    · exact .inr (.inr rfl)
    · exact .inl rfl
  | hangup =>
    obtain ⟨p, hp, rfl⟩ := Option.map_eq_some_iff.mp h
    obtain ⟨-, rfl⟩ := DeviceProcess.hangup_eq_some hp
    exact ⟨.same, .inl rfl, .inl ⟨Event.noConfusion, rfl⟩⟩
  | tick =>
    obtain ⟨⟨p, bsm⟩, hp, rfl⟩ := Option.map_eq_some_iff.mp h
    rw [DeviceProcess.tick, Device.v2xBsmTxHandle_eq] at hp
    split at hp
    · cases hp
    · obtain ⟨rfl, rfl⟩ := Prod.mk.inj (Option.some.inj hp)
      exact ⟨.count, .inl rfl, .inr ⟨rfl, rfl⟩⟩
  | hear bsm =>
    obtain rfl := Option.some.inj h
    refine ⟨?_, .inl (s.process.hear_countCalibr d bsm), .inl ⟨Event.noConfusion, rfl⟩⟩
    dsimp only [globals, DeviceProcess.hear]
    split
    · exact .hear bsm
    · exact .same

/-- An invariant of the globals, by what the decode, the fill and the BSM callback do to them. -/
theorem globals_invariant {d : Device} {P : Globals → Prop}
    (hdecode : ∀ {buf buf' : Buffer maxRecvLen} {g g' : Globals}, P g →
      d.decode buf g = (g', .ok buf') → P g')
    (hcount : ∀ g, P g → P { g with msgcount := g.msgcount + 1 })
    (hhear : ∀ bsm g, P g → P (d.recvHandle bsm g)) {s s' : Station} {es : List Event}
    (h0 : P s.globals) (h : run (step d) s es = some s') : P s'.globals := by
  refine run_invariant (I := fun s => P s.globals) (fun s e s' hp hs => ?_) h0 h
  have heff := (stepped hs).globals
  generalize s'.globals = g' at heff ⊢
  cases heff with
  | same => exact hp
  | decode hdec => exact hdecode hp hdec
  | count => exact hcount _ hp
  | hear bsm => exact hhear bsm _ hp

theorem count_zero_or_one {d : Device} {s : Station} {es : List Event}
    (h : run (step d) {} es = some s) :
    s.process.serving.countCalibr = 0 ∨ s.process.serving.countCalibr = 1 := by
  refine run_invariant (I := fun s : Station => s.process.serving.countCalibr = 0 ∨
    s.process.serving.countCalibr = 1) (fun s e s' hp hs => ?_) (.inl rfl) h
  rcases (stepped hs).count with hsame | hnew
  · rw [hsame]
    exact hp
  · exact hnew

end Station
end LidarRelay
