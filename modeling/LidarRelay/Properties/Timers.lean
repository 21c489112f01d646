import LidarRelay.Foundations.Runs
import LidarRelay.Programs.AcceptLoop
import LidarRelay.Programs.LidarSend

/-! # The timers of a device process

The accept loop arms a timer for every connection and deletes none, so the number of armed timers
is the number of connections there have ever been, and the BSMs per period with it.
-/

namespace LidarRelay.Timers
set_option autoImplicit false
set_option maxHeartbeats 250000

inductive Event where
  | accept (now : ℤ) (setup : Setup)
  | receive (chunk : List Byte) (tv : Timeval)
  | disconnect

/-- One step of the accept loop; connections need no names here. -/
def step (d : Device) (p : DeviceProcess Unit) : Event → Option (DeviceProcess Unit)
  | .accept now setup => p.accept () now setup
  | .receive chunk tv => (p.receive d chunk tv).map Prod.fst
  | .disconnect => p.hangup

def openConnections (p : DeviceProcess Unit) : ℕ := if p.conn.isSome then 1 else 0

def bsmsFrom (p : DeviceProcess Unit) (lo : ℤ) : ℕ :=
  PeriodicTimer.expirationsOf p.timers lo bsmPeriod

structure OneTimer (p : DeviceProcess Unit) : Prop where
  le_open : p.timers.length ≤ openConnections p
  le_one : p.timers.length ≤ 1
  rate : ∀ lo, bsmsFrom p lo ≤ 1

structure Armed (p : DeviceProcess Unit) : Prop where
  conn : p.conn.isSome → p.timers ≠ []
  interval : ∀ t ∈ p.timers, t.interval = bsmPeriod

theorem armed_step {d : Device} {p p' : DeviceProcess Unit} {e : Event} (h : Armed p)
    (hs : step d p e = some p') : Armed p' := by
  cases e with
  | accept now setup =>
    obtain ⟨-, rfl | rfl⟩ := DeviceProcess.accept_eq_some hs
    · refine ⟨fun _ => by simp, fun t ht => ?_⟩
      rcases List.mem_append.mp ht with ht | ht
      · exact h.interval t ht
      · rw [List.mem_singleton.mp ht]
        rfl
    · exact ⟨fun hc => (by cases hc), fun t ht => (by cases ht)⟩
  | receive chunk tv =>
    obtain ⟨⟨q, out⟩, hr, rfl⟩ := Option.map_eq_some_iff.mp hs
    obtain ⟨-, s, -, rfl⟩ := DeviceProcess.receive_eq_some hr
    exact ⟨h.conn, h.interval⟩
  | disconnect =>
    obtain ⟨-, rfl⟩ := DeviceProcess.hangup_eq_some hs
    exact ⟨fun hc => (by cases hc), h.interval⟩

theorem oneTimer_iff {p : DeviceProcess Unit} (h : Armed p) :
    OneTimer p ↔ p.timers.length ≤ openConnections p := by
  refine ⟨OneTimer.le_open, fun hle => ?_⟩
  have hone : p.timers.length ≤ 1 := hle.trans (by unfold openConnections; split <;> omega)
  exact ⟨hle, hone, fun lo => (PeriodicTimer.expirationsOf_le h.interval lo).trans hone⟩

theorem bsmsFrom_eq {p : DeviceProcess Unit} (h : Armed p) {lo : ℤ}
    (hlo : ∀ t ∈ p.timers, t.first ≤ lo + bsmPeriod) : bsmsFrom p lo = p.timers.length :=
  PeriodicTimer.expirationsOf_eq h.interval hlo

theorem oneTimer_step_iff {d : Device} {p p' : DeviceProcess Unit} {e : Event} (h : Armed p)
    (hone : OneTimer p) (hs : step d p e = some p') :
    OneTimer p' ↔ e ≠ .disconnect := by
  rw [oneTimer_iff (armed_step h hs)]
  have hle := hone.le_open
  cases e with
  | accept now setup =>
    refine ⟨fun _ he => Event.noConfusion he, fun _ => ?_⟩
    obtain ⟨hnone, rfl | rfl⟩ := DeviceProcess.accept_eq_some hs
    · rw [openConnections, hnone] at hle
      have hnil : p.timers.length = 0 := Nat.le_zero.mp hle
      simp [openConnections, hnil]
    · exact Nat.zero_le _
  | receive chunk tv =>
    refine ⟨fun _ he => Event.noConfusion he, fun _ => ?_⟩
    obtain ⟨⟨q, out⟩, hr, rfl⟩ := Option.map_eq_some_iff.mp hs
    obtain ⟨-, s, -, rfl⟩ := DeviceProcess.receive_eq_some hr
    exact hle
  | disconnect =>
    obtain ⟨hconn, rfl⟩ := DeviceProcess.hangup_eq_some hs
    have hpos : 0 < p.timers.length := List.length_pos_iff.mpr (h.conn hconn)
    refine ⟨fun hle' => ?_, fun he => absurd rfl he⟩
    change p.timers.length ≤ 0 at hle'
    omega

/-- **Timers do not pile up exactly in the runs without a disconnect.** -/
theorem oneTimer_iff_noDisconnect (d : Device) (es : List Event) :
    Along (step d) OneTimer {} es ↔ Meets (step d) (fun _ e => e ≠ .disconnect) {} es := by
  refine along_iff_meets (I := Armed) (fun p e p' h _ hs _ => armed_step h hs)
    (fun p e p' h hone hs => oneTimer_step_iff h hone hs) ?_ ?_
  · exact ⟨fun hc => (by cases hc), fun t ht => (by cases ht)⟩
  · exact ⟨le_rfl, Nat.zero_le _, fun lo => Nat.zero_le _⟩

/-- After one reconnection two BSMs go out per 50 ms. -/
theorem timers_pile_up :
    ∃ p, run (step LidarSend.device) {} [.accept 0 {}, .disconnect, .accept 7000000 {}] = some p ∧
      openConnections p = 1 ∧ p.timers.length = 2 ∧ bsmsFrom p 100000000 = 2 ∧ ¬ OneTimer p := by
  refine ⟨_, rfl, rfl, rfl, ?_, fun h => absurd h.le_one (by decide)⟩
  have hmem : ∀ t ∈ [bsmTimer 0, bsmTimer 7000000], t = bsmTimer 0 ∨ t = bsmTimer 7000000 :=
    fun t ht => by simpa using ht
  refine bsmsFrom_eq ⟨fun _ => by simp, fun t ht => ?_⟩ fun t ht => ?_
  · rcases hmem t ht with rfl | rfl <;> rfl
  · rcases hmem t ht with rfl | rfl <;> decide

end LidarRelay.Timers
