import Mathlib.Logic.Function.Basic
import Mathlib.Data.List.Basic
import LidarRelay.Foundations.Runs

/-! # Two processes joined by two streams

The process at either end of a connection takes steps of its own, which may write to the other end,
and at times waits in a read of what comes from there. The read returns any part of what is on its
way, from the front. If both wait and nothing is on its way they wait for ever; they never come to
that where neither begins to wait without having written something (`not_deadlocked_run`).
-/

namespace LidarRelay
set_option autoImplicit false
set_option maxHeartbeats 250000

inductive End where
  | client
  | server
  deriving DecidableEq, Repr

def End.other : End → End
  | .client => .server
  | .server => .client

@[simp] theorem End.other_other (p : End) : p.other.other = p := by cases p <;> rfl

@[simp] theorem End.other_ne (p : End) : p.other ≠ p := by cases p <;> decide

theorem End.eq_or_other (p q : End) : q = p ∨ q = p.other := by cases p <;> cases q <;> decide

/-- The process at one end: its own steps with what they write, and what a read that it waits in
does with the bytes it returns, at most `room` of them, or with the end of the stream. -/
structure Peer (σ ε α : Type) where
  start : σ
  waiting : σ → Bool
  closed : σ → Bool
  act : σ → ε → Option (σ × List α)
  room : ℕ
  receive : σ → List α → σ
  ended : σ → σ
  waiting_open : ∀ s, waiting s = true → closed s = false
  receive_busy : ∀ s xs, waiting (receive s xs) = false
  ended_busy : ∀ s, waiting (ended s) = false

/-- Both processes, and what is on its way to each. -/
structure Duplex (σ α : Type) where
  process : End → σ
  stream : End → List α

namespace Duplex
variable {σ ε α : Type}

/-- A process takes a step of its own, its read returns `n` elements, or it returns none because the
other end is closed. -/
inductive Event (ε : Type) where
  | act (p : End) (e : ε)
  | receive (p : End) (n : ℕ)
  | ended (p : End)

def setProcess (d : Duplex σ α) (p : End) (s : σ) : Duplex σ α :=
  { d with process := Function.update d.process p s }

def acted (d : Duplex σ α) (p : End) (s : σ) (out : List α) : Duplex σ α :=
  { d.setProcess p s with
    stream := Function.update d.stream p.other (d.stream p.other ++ out) }

def received (d : Duplex σ α) (p : End) (s : σ) (n : ℕ) : Duplex σ α :=
  { d.setProcess p s with stream := Function.update d.stream p ((d.stream p).drop n) }

section Step
variable (peer : End → Peer σ ε α)

def start : Duplex σ α := ⟨fun p => (peer p).start, fun _ => []⟩

def step (d : Duplex σ α) : Event ε → Option (Duplex σ α)
  | .act p e => ((peer p).act (d.process p) e).map fun (s, out) => d.acted p s out
  | .receive p n =>
    if (peer p).waiting (d.process p) = true ∧ 0 < n ∧ n ≤ (peer p).room ∧
        n ≤ (d.stream p).length then
      some (d.received p ((peer p).receive (d.process p) ((d.stream p).take n)) n)
    else none
  | .ended p =>
    if (peer p).waiting (d.process p) = true ∧ d.stream p = [] ∧
        (peer p.other).closed (d.process p.other) = true then
      some (d.setProcess p ((peer p).ended (d.process p)))
    else none

/-- Both wait in a read, nothing is on its way, and neither end is closed. -/
structure Deadlocked (d : Duplex σ α) : Prop where
  waiting : ∀ p, (peer p).waiting (d.process p) = true
  empty : ∀ p, d.stream p = []
  opened : ∀ p, (peer p).closed (d.process p) = false

end Step

@[simp] theorem setProcess_self (d : Duplex σ α) (p : End) (s : σ) :
    (d.setProcess p s).process p = s := Function.update_self ..

@[simp] theorem setProcess_other (d : Duplex σ α) (p : End) (s : σ) :
    (d.setProcess p s).process p.other = d.process p.other :=
  Function.update_of_ne p.other_ne ..

theorem setProcess_setProcess (d : Duplex σ α) (p : End) (s t : σ) :
    (d.setProcess p s).setProcess p t = d.setProcess p t := by
  rw [setProcess, setProcess, Function.update_idem]
  rfl

theorem setProcess_eq_self (d : Duplex σ α) (p : End) : d.setProcess p (d.process p) = d := by
  rw [setProcess, Function.update_eq_self]

@[simp] theorem acted_self (d : Duplex σ α) (p : End) (s : σ) (out : List α) :
    (d.acted p s out).process p = s := setProcess_self ..

@[simp] theorem acted_other (d : Duplex σ α) (p : End) (s : σ) (out : List α) :
    (d.acted p s out).process p.other = d.process p.other := setProcess_other ..

@[simp] theorem acted_stream_self (d : Duplex σ α) (p : End) (s : σ) (out : List α) :
    (d.acted p s out).stream p = d.stream p := Function.update_of_ne p.other_ne.symm ..

@[simp] theorem acted_stream_other (d : Duplex σ α) (p : End) (s : σ) (out : List α) :
    (d.acted p s out).stream p.other = d.stream p.other ++ out := Function.update_self ..

theorem acted_nil (d : Duplex σ α) (p : End) (s : σ) : d.acted p s [] = d.setProcess p s := by
  rw [acted, List.append_nil, Function.update_eq_self]
  rfl

@[simp] theorem received_self (d : Duplex σ α) (p : End) (s : σ) (n : ℕ) :
    (d.received p s n).process p = s := setProcess_self ..

@[simp] theorem received_other (d : Duplex σ α) (p : End) (s : σ) (n : ℕ) :
    (d.received p s n).process p.other = d.process p.other := setProcess_other ..

@[simp] theorem received_stream_self (d : Duplex σ α) (p : End) (s : σ) (n : ℕ) :
    (d.received p s n).stream p = (d.stream p).drop n := Function.update_self ..

@[simp] theorem received_stream_other (d : Duplex σ α) (p : End) (s : σ) (n : ℕ) :
    (d.received p s n).stream p.other = d.stream p.other := Function.update_of_ne p.other_ne ..

/-- A fact about both processes, by what it says of the one that moves. -/
theorem forall_setProcess {P : End → σ → Prop} {d : Duplex σ α} {p : End} {s : σ}
    (h : ∀ q, P q (d.process q)) (hp : P p s) (q : End) : P q ((d.setProcess p s).process q) :=
  (Function.forall_update_iff d.process P).mpr ⟨hp, fun q _ => h q⟩ q

/-! ## Steps -/

section Steps
variable {peer : End → Peer σ ε α} {d d' : Duplex σ α}

theorem act_eq_some {p : End} {e : ε} (h : step peer d (.act p e) = some d') :
    ∃ s out, (peer p).act (d.process p) e = some (s, out) ∧ d' = d.acted p s out := by
  obtain ⟨⟨s, out⟩, hact, rfl⟩ := Option.map_eq_some_iff.mp h
  exact ⟨s, out, hact, rfl⟩

theorem receive_eq_some {p : End} {n : ℕ} (h : step peer d (.receive p n) = some d') :
    (peer p).waiting (d.process p) = true ∧ 0 < n ∧ n ≤ (d.stream p).length ∧
      d' = d.received p ((peer p).receive (d.process p) ((d.stream p).take n)) n := by
  rw [step, Option.ite_none_right_eq_some] at h
  obtain ⟨⟨hwait, hpos, -, hlen⟩, hd⟩ := h
  exact ⟨hwait, hpos, hlen, (Option.some.inj hd).symm⟩

theorem ended_eq_some {p : End} (h : step peer d (.ended p) = some d') :
    (peer p.other).closed (d.process p.other) = true ∧
      d' = d.setProcess p ((peer p).ended (d.process p)) := by
  rw [step, Option.ite_none_right_eq_some] at h
  obtain ⟨⟨-, -, hclosed⟩, hd⟩ := h
  exact ⟨hclosed, (Option.some.inj hd).symm⟩

theorem deadlocked_of_waiting (hwait : ∀ p, (peer p).waiting (d.process p) = true)
    (hempty : ∀ p, d.stream p = []) : Deadlocked peer d :=
  ⟨hwait, hempty, fun p => (peer p).waiting_open _ (hwait p)⟩

/-- Nothing but a step of one of the processes themselves leads out of a deadlock. -/
theorem Deadlocked.step_act (h : Deadlocked peer d) {e : Event ε} (hs : step peer d e = some d') :
    ∃ p l, e = .act p l := by
  cases e with
  | act p l => exact ⟨p, l, rfl⟩
  | receive p n =>
    obtain ⟨-, hpos, hlen, -⟩ := receive_eq_some hs
    rw [h.empty p] at hlen
    exact absurd hpos (Nat.not_lt.mpr hlen)
  | ended p =>
    obtain ⟨hclosed, -⟩ := ended_eq_some hs
    rw [h.opened p.other] at hclosed
    cases hclosed

/-- A process begins to wait without having written anything. -/
theorem step_deadlocked (h : ¬ Deadlocked peer d) {e : Event ε} (hs : step peer d e = some d')
    (h' : Deadlocked peer d') :
    ∃ p l s, e = .act p l ∧ (peer p).act (d.process p) l = some (s, []) ∧
      (peer p).waiting s = true ∧ (peer p).waiting (d.process p) = false := by
  cases e with
  | act p l =>
    obtain ⟨s, out, hact, rfl⟩ := act_eq_some hs
    have hstream := h'.empty p.other
    rw [acted_stream_other, List.append_eq_nil_iff] at hstream
    obtain ⟨hempty, rfl⟩ := hstream
    have hwait := h'.waiting p
    rw [acted_self] at hwait
    refine ⟨p, l, s, rfl, hact, hwait, ?_⟩
    by_contra hbefore
    rw [Bool.not_eq_false] at hbefore
    -- everything that a deadlock needs was there before the step
    refine h (deadlocked_of_waiting (fun q => ?_) fun q => ?_)
    · obtain rfl | rfl := p.eq_or_other q
      · exact hbefore
      · simpa using h'.waiting p.other
    · obtain rfl | rfl := p.eq_or_other q
      · simpa using h'.empty q
      · exact hempty
  | receive p n =>
    obtain ⟨-, -, -, rfl⟩ := receive_eq_some hs
    have hwait := h'.waiting p
    rw [received_self, (peer p).receive_busy] at hwait
    cases hwait
  | ended p =>
    obtain ⟨-, rfl⟩ := ended_eq_some hs
    have hwait := h'.waiting p
    rw [setProcess_self, (peer p).ended_busy] at hwait
    cases hwait

end Steps

/-! ## Runs -/

/-- Under the events that meet `G` a process keeps `I`, and it does not begin to wait with a step
that writes nothing. -/
structure Speaks (peer : Peer σ ε α) (I : σ → Prop) (G : ε → Prop) : Prop where
  start : I peer.start
  act : ∀ s l s' out, I s → G l → peer.act s l = some (s', out) → I s'
  receive : ∀ s xs, I s → I (peer.receive s xs)
  ended : ∀ s, I s → I (peer.ended s)
  writes : ∀ s l s', I s → G l → peer.act s l = some (s', []) → peer.waiting s' = true →
    peer.waiting s = true

section Runs
variable {peer : End → Peer σ ε α} {I : End → σ → Prop} {G : End → ε → Prop}

theorem speaks_step (h : ∀ p, Speaks (peer p) (I p) (G p)) {d d' : Duplex σ α} {e : Event ε}
    (hG : ∀ p l, e = .act p l → G p l) (hI : ∀ p, I p (d.process p))
    (hs : step peer d e = some d') : ∀ p, I p (d'.process p) := by
  cases e with
  | act p l =>
    obtain ⟨s, out, hact, rfl⟩ := act_eq_some hs
    exact forall_setProcess hI ((h p).act _ _ _ _ (hI p) (hG p l rfl) hact)
  | receive p n =>
    obtain ⟨-, -, -, rfl⟩ := receive_eq_some hs
    exact forall_setProcess hI ((h p).receive _ _ (hI p))
  | ended p =>
    obtain ⟨-, rfl⟩ := ended_eq_some hs
    exact forall_setProcess hI ((h p).ended _ (hI p))

/-- **Two processes that speak before they wait never wait for each other.** -/
theorem not_deadlocked_run (h : ∀ p, Speaks (peer p) (I p) (G p))
    (hstart : ¬ Deadlocked peer (start peer)) {es : List (Event ε)} {d : Duplex σ α}
    (hG : ∀ p l, Event.act p l ∈ es → G p l) (hrun : run (step peer) (start peer) es = some d) :
    ¬ Deadlocked peer d := by
  have hboth : (∀ p, I p (d.process p)) ∧ ¬ Deadlocked peer d := by
    refine run_invariant_mem (I := fun d => (∀ p, I p (d.process p)) ∧ ¬ Deadlocked peer d) ?_
      ⟨fun p => (h p).start, hstart⟩ hrun
    rintro d₁ e he d₂ ⟨hI, hd⟩ hs
    have hGe : ∀ p l, e = .act p l → G p l := fun p l hpl => hG p l (hpl ▸ he)
    refine ⟨speaks_step h hGe hI hs, fun hdead => ?_⟩
    obtain ⟨p, l, s, rfl, hact, hwait, hbefore⟩ := step_deadlocked hd hs hdead
    have hwaited := (h p).writes _ _ _ (hI p) (hGe p l rfl) hact hwait
    rw [hbefore] at hwaited
    cases hwaited
  exact hboth.2

end Runs
end Duplex
end LidarRelay
