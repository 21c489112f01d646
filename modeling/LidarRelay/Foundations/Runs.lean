import Mathlib.Tactic.Common

/-! # Runs of a labelled step function

A system is a partial step function `step : σ → ε → Option σ`: in state `s` the event `e` is
either impossible (`none`) or leads to one state. A run is a list of events. The three rules below
carry the invariants of the development: `run_invariant` for what every step preserves,
`along_of_meets` for what the steps preserve that meet a condition, and `along_iff_meets` for what
a step preserves exactly when it meets one.
-/

namespace LidarRelay
set_option autoImplicit false
set_option maxHeartbeats 250000

section Runs
variable {σ ε : Type*} (step : σ → ε → Option σ)

/-- The state after a list of events, `none` when one of them is impossible. -/
def run : σ → List ε → Option σ
  | s, [] => some s
  | s, e :: es => (step s e).bind fun s' => run s' es

/-- `P` holds in every state a run passes through, the first and the last included. -/
def Along (P : σ → Prop) : σ → List ε → Prop
  | s, [] => P s
  | s, e :: es => P s ∧ ∀ s', step s e = some s' → Along P s' es

/-- Every step a run takes meets the condition `G` on the state before it and its event. -/
def Meets (G : σ → ε → Prop) : σ → List ε → Prop
  | _, [] => True
  | s, e :: es => ∀ s', step s e = some s' → G s e ∧ Meets G s' es

@[simp] theorem run_nil (s : σ) : run step s [] = some s := rfl

theorem run_cons (s : σ) (e : ε) (es : List ε) :
    run step s (e :: es) = (step s e).bind fun s' => run step s' es := rfl

theorem run_cons_eq_some {s s'' : σ} {e : ε} {es : List ε} (h : run step s (e :: es) = some s'') :
    ∃ s', step s e = some s' ∧ run step s' es = some s'' := by
  rw [run_cons] at h
  exact Option.bind_eq_some_iff.mp h

theorem run_append (s : σ) (es fs : List ε) :
    run step s (es ++ fs) = (run step s es).bind fun s' => run step s' fs := by
  induction es generalizing s with
  | nil => rfl
  | cons e es ih =>
    rw [List.cons_append, run_cons, run_cons, Option.bind_assoc]
    exact congrArg _ (funext ih)

variable {step}

theorem run_of_step {s s' : σ} {e : ε} (h : step s e = some s') : run step s [e] = some s' := by
  rw [run_cons, h]
  rfl

theorem run_trans {s s' s'' : σ} {es fs : List ε} (h : run step s es = some s')
    (h' : run step s' fs = some s'') : run step s (es ++ fs) = some s'' := by
  rw [run_append, h]
  exact h'

/-- An invariant under the events that a run consists of. -/
theorem run_invariant_mem {I : σ → Prop} {es : List ε}
    (hstep : ∀ s, ∀ e ∈ es, ∀ s', I s → step s e = some s' → I s') {s s' : σ} (h0 : I s)
    (h : run step s es = some s') : I s' := by
  induction es generalizing s with
  | nil =>
    rw [run_nil, Option.some.injEq] at h
    exact h ▸ h0
  | cons e es ih =>
    obtain ⟨s₁, hs, hr⟩ := run_cons_eq_some step h
    have h1 : I s₁ := hstep s e List.mem_cons_self s₁ h0 hs
    exact ih (fun s e he => hstep s e (List.mem_cons_of_mem _ he)) h1 hr

theorem run_invariant {I : σ → Prop} (hstep : ∀ s e s', I s → step s e = some s' → I s')
    {s s' : σ} {es : List ε} (h0 : I s) (h : run step s es = some s') : I s' :=
  run_invariant_mem (fun s e _ => hstep s e) h0 h

instance Meets.decidable {G : σ → ε → Prop} [∀ s e, Decidable (G s e)] :
    ∀ s es, Decidable (Meets step G s es)
  | _, [] => .isTrue trivial
  | s, e :: es =>
    match h : step s e with
    | none => .isTrue fun s' hs => by rw [h] at hs; cases hs
    | some s₁ =>
      have := Meets.decidable (G := G) s₁ es
      decidable_of_iff (G s e ∧ Meets step G s₁ es)
        ⟨fun hg s' hs => Option.some.inj (h.symm.trans hs) ▸ hg, fun hm => hm s₁ h⟩

theorem Along.head {P : σ → Prop} {s : σ} {es : List ε} (h : Along step P s es) : P s := by
  cases es with
  | nil => exact h
  | cons e es => exact h.1

theorem Along.mono {P Q : σ → Prop} (hPQ : ∀ s, P s → Q s) {s : σ} {es : List ε}
    (h : Along step P s es) : Along step Q s es := by
  induction es generalizing s with
  | nil => exact hPQ s h
  | cons e es ih => exact ⟨hPQ s h.1, fun s' hs => ih (h.2 s' hs)⟩

/-- `Along` speaks of every state reached by a prefix of the run. -/
theorem along_iff_reached {P : σ → Prop} {s : σ} {es : List ε} :
    Along step P s es ↔ ∀ fs s', fs <+: es → run step s fs = some s' → P s' := by
  induction es generalizing s with
  | nil =>
    constructor
    · intro h fs s' hp hr
      rw [List.prefix_nil] at hp
      subst hp
      rw [run_nil, Option.some.injEq] at hr
      exact hr ▸ h
    · intro h
      exact h [] s (List.prefix_refl _) rfl
  | cons e es ih =>
    constructor
    · rintro ⟨h0, hs⟩ fs s' hp hr
      cases fs with
      | nil =>
        rw [run_nil, Option.some.injEq] at hr
        exact hr ▸ h0
      | cons f fs =>
        obtain ⟨rfl, hp'⟩ := List.cons_prefix_cons.mp hp
        obtain ⟨s₁, h1, h2⟩ := run_cons_eq_some step hr
        exact ih.mp (hs s₁ h1) fs s' hp' h2
    · intro h
      refine ⟨h [] s (List.nil_prefix) rfl, fun s₁ h1 => ih.mpr fun fs s' hp hr => ?_⟩
      refine h (e :: fs) s' (List.cons_prefix_cons.mpr ⟨rfl, hp⟩) ?_
      rw [run_cons, h1]
      exact hr

/-- The rule for conditional invariants: what an invariant implies that the steps meeting `G`
preserve holds in all states of every run whose steps all meet `G`. -/
theorem along_of_meets {G : σ → ε → Prop} {I P : σ → Prop} (hP : ∀ s, I s → P s)
    (hstep : ∀ s e s', I s → G s e → step s e = some s' → I s')
    {s : σ} {es : List ε} (h0 : I s) (hg : Meets step G s es) : Along step P s es := by
  induction es generalizing s with
  | nil => exact hP s h0
  | cons e es ih =>
    exact ⟨hP s h0, fun s' hs => ih (hstep s e s' h0 (hg s' hs).1 hs) (hg s' hs).2⟩

/-- Where a step keeps `P` exactly when it meets `G`, a run keeps `P` in all its states exactly when
all its steps meet `G`. What holds besides, as long as `P` does, may be used for the step. -/
theorem along_iff_meets {I P : σ → Prop} {G : σ → ε → Prop}
    (hI : ∀ s e s', I s → P s → step s e = some s' → P s' → I s')
    (hstep : ∀ s e s', I s → P s → step s e = some s' → (P s' ↔ G s e))
    {s : σ} {es : List ε} (h0 : I s) (hP : P s) : Along step P s es ↔ Meets step G s es := by
  induction es generalizing s with
  | nil => exact ⟨fun _ => trivial, fun _ => hP⟩
  | cons e es ih =>
    constructor
    · rintro ⟨-, ha⟩ s' hs
      have hP' : P s' := (ha s' hs).head
      refine ⟨(hstep s e s' h0 hP hs).mp hP', ?_⟩
      exact (ih (hI s e s' h0 hP hs hP') hP').mp (ha s' hs)
    · refine fun hm => ⟨hP, fun s' hs => ?_⟩
      have hP' : P s' := (hstep s e s' h0 hP hs).mpr (hm s' hs).1
      exact (ih (hI s e s' h0 hP hs hP') hP').mpr (hm s' hs).2

end Runs
end LidarRelay
