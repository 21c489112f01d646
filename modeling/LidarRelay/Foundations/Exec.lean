import Mathlib.Data.Rat.Defs
import Mathlib.Tactic.Common

/-! # Computations over a process's globals that may end in a fault

A C function that assigns globals one after another and may run into undefined behaviour is an
`Exec σ α`: from a state it gives the state it leaves behind and either its value or the fault
that ended it. The stores made before a fault stay in the state, as they do in memory.
-/

namespace LidarRelay
set_option autoImplicit false
set_option maxHeartbeats 250000

/-- What ends a C computation without a value. -/
inductive Fault where
  -- a read or a write past the end of a buffer
  | overrun
  -- a null pointer handed to a library function that reads through it
  | nullPointer
  -- a number whose text is no decimal one (an infinity, a NaN, hexadecimal digits)
  | notDecimal
  deriving DecidableEq, Repr

def faultOf {α : Type} : Except Fault α → Option Fault
  | .ok _ => none
  | .error f => some f

def Exec (σ α : Type) : Type := σ → σ × Except Fault α

namespace Exec
variable {σ τ α β : Type}

instance : Monad (Exec σ) where
  pure a := fun s => (s, .ok a)
  bind m k := fun s =>
    match m s with
    | (s', .ok a) => k a s'
    | (s', .error f) => (s', .error f)

/-- A step that only computes: it leaves the state alone and may fault. -/
def lift (x : Except Fault α) : Exec σ α := fun s => (s, x)

def get : Exec σ σ := fun s => (s, .ok s)

def modify (f : σ → σ) : Exec σ Unit := fun s => (f s, .ok ())

def zoom (part : τ → σ) (put : σ → τ → τ) (m : Exec σ α) : Exec τ α := fun s =>
  match m (part s) with
  | (g, r) => (put g s, r)

/-- The state a computation leaves when it ends with a value. -/
def final (m : Exec σ α) (s : σ) : Except Fault σ := (m s).2.map fun _ => (m s).1

@[simp] theorem pure_run (a : α) (s : σ) : (pure a : Exec σ α) s = (s, .ok a) := rfl

@[simp] theorem get_run (s : σ) : (get : Exec σ σ) s = (s, .ok s) := rfl

@[simp] theorem modify_run (f : σ → σ) (s : σ) : modify f s = (f s, .ok ()) := rfl

@[simp] theorem lift_run (x : Except Fault α) (s : σ) : (lift x : Exec σ α) s = (s, x) := rfl

theorem bind_ok {m : Exec σ α} {k : α → Exec σ β} {s s' : σ} {a : α} (h : m s = (s', .ok a)) :
    (m >>= k) s = k a s' := by
  change (match m s with | (s', .ok a) => k a s' | (s', .error f) => (s', .error f)) = k a s'
  rw [h]

theorem bind_error {m : Exec σ α} {k : α → Exec σ β} {s s' : σ} {f : Fault}
    (h : m s = (s', .error f)) : (m >>= k) s = (s', .error f) := by
  change (match m s with | (s', .ok a) => k a s' | (s', .error f) => (s', .error f)) = _
  rw [h]

@[simp] theorem lift_ok_bind (a : α) (k : α → Exec σ β) (s : σ) :
    ((lift (.ok a) : Exec σ α) >>= k) s = k a s := bind_ok rfl

@[simp] theorem lift_error_bind (f : Fault) (k : α → Exec σ β) (s : σ) :
    ((lift (.error f) : Exec σ α) >>= k) s = (s, .error f) := bind_error rfl

@[simp] theorem get_bind (k : σ → Exec σ β) (s : σ) : (get >>= k) s = k s s := bind_ok rfl

@[simp] theorem modify_bind (g : σ → σ) (k : Unit → Exec σ β) (s : σ) :
    (modify g >>= k) s = k () (g s) := bind_ok rfl

theorem bind_eq_ok {m : Exec σ α} {k : α → Exec σ β} {s s'' : σ} {b : β}
    (h : (m >>= k) s = (s'', .ok b)) : ∃ s' a, m s = (s', .ok a) ∧ k a s' = (s'', .ok b) := by
  rcases hm : m s with ⟨s', r⟩
  cases r with
  | error f =>
    rw [bind_error hm] at h
    simp at h
  | ok a => exact ⟨s', a, rfl, (bind_ok hm).symm.trans h⟩

theorem ok_bind (a : α) (k : α → Except Fault β) : (Except.ok a >>= k) = k a := rfl

theorem eq_ok_of_bind {x : Except Fault α} {k : α → Except Fault β} {b : β}
    (h : (x >>= k) = .ok b) : ∃ a, x = .ok a ∧ k a = .ok b := by
  cases x with
  | error f => cases h
  | ok a => exact ⟨a, rfl, h⟩

theorem final_ok {m : Exec σ α} {s s' : σ} {a : α} (h : m s = (s', .ok a)) :
    m.final s = .ok s' := by
  simp only [final, h, Except.map]

theorem zoom_ok {part : τ → σ} {put : σ → τ → τ} {m : Exec σ α} {s : τ} {g : σ} {a : α}
    (h : m (part s) = (g, .ok a)) : zoom part put m s = (put g s, .ok a) := by
  simp only [zoom, h]

theorem zoom_error {part : τ → σ} {put : σ → τ → τ} {m : Exec σ α} {s : τ} {g : σ} {f : Fault}
    (h : m (part s) = (g, .error f)) : zoom part put m s = (put g s, .error f) := by
  simp only [zoom, h]

theorem zoom_eq_ok {part : τ → σ} {put : σ → τ → τ} {m : Exec σ α} {s s' : τ} {a : α}
    (h : zoom part put m s = (s', .ok a)) : ∃ g, m (part s) = (g, .ok a) ∧ s' = put g s := by
  unfold zoom at h
  rcases hm : m (part s) with ⟨g, r⟩
  rw [hm] at h
  obtain ⟨rfl, rfl⟩ := Prod.mk.inj h
  exact ⟨g, rfl, rfl⟩

/-! ## What a computation leaves alone -/

/-- `m` leaves the part `f` of the state as it was, also when it ends in a fault. -/
def Keeps (f : σ → β) (m : Exec σ α) : Prop := ∀ s, f (m s).1 = f s

section Keeps
variable {γ : Type} {f : σ → γ}

theorem Keeps.pure (a : α) : Keeps f (pure a : Exec σ α) := fun _ => rfl

theorem Keeps.get : Keeps f (get : Exec σ σ) := fun _ => rfl

theorem Keeps.lift (x : Except Fault α) : Keeps f (lift x : Exec σ α) := fun _ => rfl

theorem Keeps.modify {g : σ → σ} (h : ∀ s, f (g s) = f s) : Keeps f (modify g) := h

theorem Keeps.bind {m : Exec σ α} {k : α → Exec σ β} (hm : Keeps f m) (hk : ∀ a, Keeps f (k a)) :
    Keeps f (m >>= k) := by
  intro s
  have hs := hm s
  rcases h : m s with ⟨s', r⟩
  rw [h] at hs
  cases r with
  | error e => rw [bind_error h]; exact hs
  | ok a => rw [bind_ok h]; exact (hk a s').trans hs

end Keeps

/-! ## Changes a computation does not notice -/

/-- `m` comes to the same before and after the change `f` of the state. -/
def Commutes (f : σ → σ) (m : Exec σ α) : Prop := ∀ s, m (f s) = (f (m s).1, (m s).2)

section Commutes
variable {f : σ → σ}

theorem Commutes.pure (a : α) : Commutes f (pure a : Exec σ α) := fun _ => rfl

theorem Commutes.lift (x : Except Fault α) : Commutes f (lift x : Exec σ α) := fun _ => rfl

theorem Commutes.modify {g : σ → σ} (h : ∀ s, g (f s) = f (g s)) : Commutes f (modify g) :=
  fun s => congrArg (Prod.mk · _) (h s)

theorem Commutes.bind {m : Exec σ α} {k : α → Exec σ β} (hm : Commutes f m)
    (hk : ∀ a, Commutes f (k a)) : Commutes f (m >>= k) := by
  intro s
  have hs := hm s
  rcases h : m s with ⟨s', r⟩
  rw [h] at hs
  cases r with
  | error e => rw [bind_error h, bind_error hs]
  | ok a => rw [bind_ok h, bind_ok hs]; exact hk a s'

end Commutes
end Exec
end LidarRelay
