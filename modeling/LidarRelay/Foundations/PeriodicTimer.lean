import Mathlib.Algebra.Order.Group.Int
import Mathlib.Data.Finset.Card
import Mathlib.Tactic.Linarith
import Mathlib.Tactic.Ring

/-! # Periodic timers

A timer expires at `first` and from then on every `interval`. In a window as long as its interval
it expires once at most, and exactly once when the window ends after `first`; so several timers of
one interval together expire as often per interval as there are timers.
-/

namespace LidarRelay
set_option autoImplicit false
set_option maxHeartbeats 250000

structure PeriodicTimer where
  first : ℤ
  interval : ℤ
  interval_pos : 0 < interval

namespace PeriodicTimer

/-- The moments of `(lo, lo + len]` at which the timer expires. -/
def expirations (t : PeriodicTimer) (lo len : ℤ) : Finset ℤ :=
  ((Finset.range len.toNat).image fun n : ℕ => lo + 1 + n).filter fun u =>
    t.first ≤ u ∧ t.interval ∣ u - t.first

theorem mem_expirations {t : PeriodicTimer} {lo len u : ℤ} :
    u ∈ t.expirations lo len ↔
      (lo < u ∧ u ≤ lo + len) ∧ t.first ≤ u ∧ t.interval ∣ u - t.first := by
  have hwindow : u ∈ (Finset.range len.toNat).image (fun n : ℕ => lo + 1 + n) ↔
      lo < u ∧ u ≤ lo + len := by
    rw [Finset.mem_image]
    constructor
    · rintro ⟨n, hn, rfl⟩
      rw [Finset.mem_range] at hn
      omega
    · rintro ⟨h1, h2⟩
      exact ⟨(u - lo - 1).toNat, by rw [Finset.mem_range]; omega, by omega⟩
  rw [expirations, Finset.mem_filter, hwindow]

theorem expirations_card_le (t : PeriodicTimer) (lo : ℤ) :
    (t.expirations lo t.interval).card ≤ 1 := by
  rw [Finset.card_le_one]
  intro u hu v hv
  obtain ⟨⟨hu1, hu2⟩, -, hud⟩ := mem_expirations.mp hu
  obtain ⟨⟨hv1, hv2⟩, -, hvd⟩ := mem_expirations.mp hv
  have hdvd : t.interval ∣ u - v := by
    have h := Int.dvd_sub hud hvd
    rwa [sub_sub_sub_cancel_right] at h
  -- two multiples of the interval in one window are less than an interval apart
  have hlt : |u - v| < t.interval := by
    rw [abs_lt]
    omega
  have hzero : u - v = 0 := Int.eq_zero_of_abs_lt_dvd hdvd hlt
  omega

theorem expirations_card (t : PeriodicTimer) {lo : ℤ} (h : t.first ≤ lo + t.interval) :
    (t.expirations lo t.interval).card = 1 := by
  have hpos := t.interval_pos
  have hmod := Int.emod_nonneg (lo + t.interval - t.first) hpos.ne'
  have hmod' := Int.emod_lt_of_pos (lo + t.interval - t.first) hpos
  have hdiv := Int.mul_ediv_add_emod (lo + t.interval - t.first) t.interval
  have hq : 0 ≤ t.interval * ((lo + t.interval - t.first) / t.interval) :=
    mul_nonneg hpos.le (Int.ediv_nonneg (by omega) hpos.le)
  refine le_antisymm (t.expirations_card_le lo) (Finset.card_pos.mpr ⟨t.first +
    t.interval * ((lo + t.interval - t.first) / t.interval), mem_expirations.mpr ?_⟩)
  refine ⟨⟨by omega, by omega⟩, by omega, ?_⟩
  rw [add_sub_cancel_left]
  exact dvd_mul_right _ _

def expirationsOf (timers : List PeriodicTimer) (lo len : ℤ) : ℕ :=
  (timers.map fun t => (t.expirations lo len).card).sum

theorem expirationsOf_cons (t : PeriodicTimer) (timers : List PeriodicTimer) (lo len : ℤ) :
    expirationsOf (t :: timers) lo len = (t.expirations lo len).card + expirationsOf timers lo len :=
  List.sum_cons

theorem expirationsOf_le {timers : List PeriodicTimer} {len : ℤ}
    (hint : ∀ t ∈ timers, t.interval = len) (lo : ℤ) :
    expirationsOf timers lo len ≤ timers.length := by
  induction timers with
  | nil => exact le_rfl
  | cons t timers ih =>
    have hcard := t.expirations_card_le lo
    rw [hint t List.mem_cons_self] at hcard
    have hrest := ih fun u hu => hint u (List.mem_cons_of_mem _ hu)
    rw [expirationsOf_cons, List.length_cons]
    omega

theorem expirationsOf_eq {timers : List PeriodicTimer} {lo len : ℤ}
    (hint : ∀ t ∈ timers, t.interval = len) (hfirst : ∀ t ∈ timers, t.first ≤ lo + len) :
    expirationsOf timers lo len = timers.length := by
  induction timers with
  | nil => rfl
  | cons t timers ih =>
    have hi : t.interval = len := hint t List.mem_cons_self
    have hcard : (t.expirations lo len).card = 1 := by
      rw [← hi]
      exact t.expirations_card (by rw [hi]; exact hfirst t List.mem_cons_self)
    have hrest := ih (fun u hu => hint u (List.mem_cons_of_mem _ hu))
      (fun u hu => hfirst u (List.mem_cons_of_mem _ hu))
    rw [expirationsOf_cons, hcard, hrest, List.length_cons, add_comm]

end PeriodicTimer
end LidarRelay
