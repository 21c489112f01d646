import Mathlib.Data.List.Basic

/-! # Messages in a stream

Messages written one after another into a stream whose reader sees no boundaries: `delivered` counts
the messages of which a number of bytes completes the last one.
-/

namespace LidarRelay
set_option autoImplicit false
set_option maxHeartbeats 250000

section Stream
variable {α : Type*}

/-- How many of the messages the first `n` elements of their concatenation complete. -/
def delivered : List (List α) → ℕ → ℕ
  | [], _ => 0
  | m :: ms, n => if m.length ≤ n then delivered ms (n - m.length) + 1 else 0

theorem delivered_append (ms ms' : List (List α)) (k : ℕ) :
    delivered (ms ++ ms') (ms.flatten.length + k) = ms.length + delivered ms' k := by
  induction ms with
  | nil => simp
  | cons m ms ih =>
    have hsub : (m :: ms).flatten.length + k - m.length = ms.flatten.length + k := by
      simp only [List.flatten_cons, List.length_append]
      omega
    have hle : m.length ≤ (m :: ms).flatten.length + k := by
      simp only [List.flatten_cons, List.length_append]
      omega
    rw [List.cons_append, delivered, if_pos hle, hsub, ih, List.length_cons]
    omega

theorem delivered_all (ms : List (List α)) : delivered ms ms.flatten.length = ms.length := by
  have h := delivered_append ms [] 0
  rwa [List.append_nil] at h

theorem delivered_part (ms : List (List α)) {m : List α} {k : ℕ} (h : k < m.length) :
    delivered (ms ++ [m]) (ms.flatten.length + k) = ms.length := by
  rw [delivered_append, delivered, if_neg (Nat.not_le.mpr h), Nat.add_zero]

end Stream
end LidarRelay
