import Mathlib.Data.Fin.Basic
import Mathlib.Data.ZMod.Defs
import Mathlib.Tactic.Abel

/-! # A ring that keeps the last entries of a history

A ring of `n` slots is written at one index after the other. Counted back from the slot that was
written last, it holds the newest entries of all that was ever written, however often it has gone
round. The history is a list, the newest entry first.
-/

namespace LidarRelay
set_option autoImplicit false
set_option maxHeartbeats 250000

section RecentRing
variable {β : Type*} {n : ℕ} [NeZero n]

/-- The slot `k` before `i`. -/
def back (i : Fin n) (k : ℕ) : Fin n := i - Fin.ofNat n k

@[simp] theorem back_zero (i : Fin n) : back i 0 = i := by
  have h : Fin.ofNat n 0 = 0 := rfl
  rw [back, h, sub_zero]

theorem ofNat_succ (k : ℕ) : Fin.ofNat n (k + 1) = Fin.ofNat n k + 1 := by
  apply Fin.ext
  have hone : ((1 : Fin n) : ℕ) = 1 % n := Fin.val_one' n
  rw [Fin.val_add, hone]
  exact Nat.add_mod k 1 n

theorem back_succ (i : Fin n) (k : ℕ) : back i (k + 1) = back i k - 1 := by
  rw [back, back, ofNat_succ]
  abel

theorem back_next (i : Fin n) (k : ℕ) : back (i + 1) (k + 1) = back i k := by
  rw [back, back, ofNat_succ]
  abel

/-- Less than one round back there is another slot. -/
theorem back_inj {i : Fin n} {k m : ℕ} (hk : k < n) (hm : m < n) (h : back i k = back i m) : k = m := by
  have hval := congrArg Fin.val (sub_right_inj.mp h)
  simp only [Fin.ofNat, Nat.mod_eq_of_lt hk, Nat.mod_eq_of_lt hm] at hval
  exact hval

/-- The ring `r`, last written at `i`, holds the newest entries of `hist`. -/
def Recent (r : Fin n → β) (i : Fin n) (hist : List β) : Prop :=
  ∀ k x, hist[k]? = some x → k < n → r (back i k) = x

theorem Recent.nil (r : Fin n → β) (i : Fin n) : Recent r i [] := by
  intro k x hx
  cases hx

theorem Recent.push {r r' : Fin n → β} {i : Fin n} {hist : List β} (h : Recent r i hist)
    (hframe : ∀ j, j ≠ i + 1 → r' j = r j) : Recent r' (i + 1) (r' (i + 1) :: hist) := by
  intro k x hx hk
  cases k with
  | zero =>
    rw [List.getElem?_cons_zero, Option.some.injEq] at hx
    rw [back_zero, hx]
  | succ k =>
    rw [List.getElem?_cons_succ] at hx
    have hne : back (i + 1) (k + 1) ≠ i + 1 := by
      intro heq
      have hsame : back (i + 1) (k + 1) = back (i + 1) 0 := heq.trans (back_zero (i + 1)).symm
      exact absurd (back_inj hk (Nat.pos_of_neZero n) hsame) (Nat.succ_ne_zero k)
    rw [hframe _ hne, back_next]
    exact h k x hx (Nat.lt_of_succ_lt hk)

end RecentRing
end LidarRelay
