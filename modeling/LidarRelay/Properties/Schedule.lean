import Mathlib.Order.Interval.Set.Nat
import LidarRelay.Foundations.Runs
import LidarRelay.Programs.Clock

/-! # The send schedule over whole runs

`last_time` is the actual time of the last exchange, `tar_time` moves in fixed steps. An exchange
that starts more than one step late leaves `last_time` behind the next target for good: the guard
`last_time<=tar_time` never holds again. `live_iff_onTime` says that this is the only way the
schedule can get stuck, and `one_exchange_per_slot` what a schedule that does not get stuck serves.
-/

namespace LidarRelay.Schedule
set_option autoImplicit false
set_option maxHeartbeats 250000

inductive Loop where
  | listener
  | tcpClient2
  deriving DecidableEq, Repr

def Loop.phase : Loop → ℤ
  | .listener => listenerPhase
  | .tcpClient2 => client2Phase

def loopStep (s : Schedule) (currTime : ℤ) : Option Schedule := some (s.step currTime)

/-- The schedule as it should be: the order of its two variables, an exchange at any reading from
the target on, and such a reading however far the clock has got. -/
structure Live (s : Schedule) : Prop where
  le : s.lastTime ≤ s.tarTime
  due : ∀ currTime, s.tarTime ≤ currTime → s.Due currTime
  later : ∀ now, ∃ currTime, now ≤ currTime ∧ s.Due currTime

def OnTime (s : Schedule) (currTime : ℤ) : Prop := s.Due currTime → currTime ≤ s.tarTime + period

theorem live_iff_le (s : Schedule) : Live s ↔ s.lastTime ≤ s.tarTime := by
  refine ⟨Live.le, fun h => ⟨h, fun c hc => ⟨h, hc⟩, fun now => ?_⟩⟩
  exact ⟨max now s.tarTime, le_max_left _ _, h, le_max_right _ _⟩

theorem start_le (l : Loop) (tv : Timeval) :
    (start l.phase tv).lastTime ≤ (start l.phase tv).tarTime := by
  have h := tv.usec_lt
  cases l <;> simp only [start, Timeval.micros, Loop.phase, listenerPhase, client2Phase] <;> omega

theorem step_le_iff {s : Schedule} {c : ℤ} (h : s.lastTime ≤ s.tarTime) :
    (s.step c).lastTime ≤ (s.step c).tarTime ↔ OnTime s c := by
  by_cases hd : s.Due c
  · rw [step_of_due hd]
    exact ⟨fun hle _ => hle, fun ht => ht hd⟩
  · rw [step_of_not_due hd]
    exact ⟨fun _ hd' => absurd hd' hd, fun _ => h⟩

/-- **The schedule never wedges exactly in the runs whose exchanges are all on time.** -/
theorem live_iff_onTime (l : Loop) (tv : Timeval) (readings : List ℤ) :
    Along loopStep Live (start l.phase tv) readings ↔
      Meets loopStep OnTime (start l.phase tv) readings := by
  refine along_iff_meets (I := fun _ => True) (fun _ _ _ _ _ _ _ => trivial) ?_ trivial
    ((live_iff_le _).mpr (start_le l tv))
  intro s c s' _ hlive hs
  obtain rfl : s.step c = s' := Option.some.inj hs
  rw [live_iff_le, step_le_iff hlive.le]

theorem wedged_forever {s s' : Schedule} {readings : List ℤ} (h : s.tarTime < s.lastTime)
    (hr : run loopStep s readings = some s') (c : ℤ) : ¬ s'.Due c := by
  have hkeep : s'.tarTime < s'.lastTime := by
    refine run_invariant (I := fun s => s.tarTime < s.lastTime) ?_ h hr
    intro t c t' ht hs
    obtain rfl : t.step c = t' := Option.some.inj hs
    rwa [step_of_not_due fun hd => absurd hd.1 (not_le.mpr ht)]
  exact fun hd => absurd hd.1 (not_le.mpr hkeep)

/-- Started at time 0, listener reads its clock next 100.001 ms after the first target (its
callback or a blocked exchange took that long): it never sends again. -/
theorem listener_wedges :
    ([0, 1100001] : List ℤ).Pairwise (· ≤ ·) ∧
      start Loop.listener.phase (Timeval.ofMicros 0) = ⟨0, 1000000⟩ ∧
      run loopStep ⟨0, 1000000⟩ [1100001] = some ⟨1100001, 1100000⟩ ∧
      ¬ Live ⟨1100001, 1100000⟩ ∧
      ∀ readings s', run loopStep ⟨1100001, 1100000⟩ readings = some s' → ∀ c, ¬ s'.Due c := by
  refine ⟨by decide, rfl, by decide, fun h => absurd h.le (by decide), ?_⟩
  exact fun readings s' hr c => wedged_forever (by decide) hr c

/-! ## One exchange per slot -/

def exchanges : Schedule → List ℤ → List ℤ
  | _, [] => []
  | s, c :: cs => if s.Due c then c :: exchanges (s.step c) cs else exchanges (s.step c) cs

/-- Readings that never go back and are at most one period apart. -/
def Paced (readings : List ℤ) : Prop := readings.IsChain fun a b => a ≤ b ∧ b ≤ a + period

/-- The loop between two readings of such a sequence: the target is still to come. -/
structure Waiting (s : Schedule) (reading : ℤ) : Prop where
  last : s.lastTime ≤ reading
  target : reading < s.tarTime

theorem start_waiting (l : Loop) (tv : Timeval) : Waiting (start l.phase tv) tv.micros := by
  have h := tv.usec_lt
  refine ⟨le_rfl, ?_⟩
  cases l <;> simp only [start, Timeval.micros, Loop.phase, listenerPhase, client2Phase] <;> omega

theorem step_of_target {s : Schedule} {r c : ℤ} (h : Waiting s r) (hc : c ≤ r + period)
    (ht : s.tarTime ≤ c) :
    s.Due c ∧ c < s.tarTime + period ∧ Waiting (s.step c) c ∧
      (s.step c).tarTime = s.tarTime + period := by
  have hdue : s.Due c := ⟨(h.last.trans_lt h.target).le, ht⟩
  have hlt : c < s.tarTime + period := hc.trans_lt (by linarith [h.target])
  rw [step_of_due hdue]
  exact ⟨hdue, hlt, ⟨le_rfl, hlt⟩, rfl⟩

theorem step_before_target {s : Schedule} {r c : ℤ} (h : Waiting s r) (hr : r ≤ c)
    (ht : c < s.tarTime) : ¬ s.Due c ∧ Waiting (s.step c) c ∧ (s.step c).tarTime = s.tarTime := by
  have hdue : ¬ s.Due c := fun hd => absurd hd.2 (not_le.mpr ht)
  rw [step_of_not_due hdue]
  exact ⟨hdue, ⟨h.last.trans hr, ht⟩, rfl⟩

theorem paced_cons {r c : ℤ} {cs : List ℤ} (h : Paced (r :: c :: cs)) :
    r ≤ c ∧ c ≤ r + period ∧ Paced (c :: cs) := by
  obtain ⟨hc, hcs⟩ := List.isChain_cons_cons.mp h
  exact ⟨hc.1, hc.2, hcs⟩

theorem paced_le_last {c : ℤ} {cs : List ℤ} (h : Paced (c :: cs)) :
    c ≤ (c :: cs).getLast (List.cons_ne_nil c cs) := by
  induction cs generalizing c with
  | nil => exact le_rfl
  | cons c' cs ih =>
    obtain ⟨hle, -, hcs⟩ := paced_cons h
    rw [List.getLast_cons (List.cons_ne_nil c' cs)]
    exact hle.trans (ih hcs)

/-- After the last of the readings exactly the slots that have begun are served. -/
theorem lt_exchanges_iff {s : Schedule} {r : ℤ} {cs : List ℤ} (h : Waiting s r)
    (hp : Paced (r :: cs)) (k : ℕ) :
    k < (exchanges s cs).length ↔
      s.tarTime + period * k ≤ (r :: cs).getLast (List.cons_ne_nil r cs) := by
  induction cs generalizing s r k with
  | nil =>
    have ht := h.target
    have hpos : (0 : ℤ) ≤ period * k := mul_nonneg (by decide) (Int.natCast_nonneg k)
    rw [List.getLast_singleton, exchanges, List.length_nil]
    omega
  | cons c cs ih =>
    obtain ⟨hr, hc, hcs⟩ := paced_cons hp
    rw [List.getLast_cons (List.cons_ne_nil c cs), exchanges]
    rcases le_or_gt s.tarTime c with ht | ht
    · obtain ⟨hdue, -, hw, htar⟩ := step_of_target h hc ht
      have hlast := paced_le_last hcs
      rw [if_pos hdue, List.length_cons]
      cases k with
      | zero =>
        simp only [Nat.cast_zero, mul_zero, add_zero]
        exact ⟨fun _ => ht.trans hlast, fun _ => Nat.succ_pos _⟩
      | succ k =>
        have hk := ih hw hcs k
        rw [htar] at hk
        refine Nat.succ_lt_succ_iff.trans (hk.trans ?_)
        rw [Nat.cast_succ, mul_add, mul_one]
        constructor <;> intro hle <;> linarith
    · obtain ⟨hdue, hw, htar⟩ := step_before_target h hr ht
      rw [if_neg hdue, ← htar]
      exact ih hw hcs k

theorem exchange_in_slot {s : Schedule} {r : ℤ} {cs : List ℤ} (h : Waiting s r)
    (hp : Paced (r :: cs)) (k : ℕ) (hk : k < (exchanges s cs).length) :
    s.tarTime + period * k ≤ (exchanges s cs)[k] ∧
      (exchanges s cs)[k] < s.tarTime + period * (k + 1) := by
  induction cs generalizing s r k with
  | nil => exact absurd hk (Nat.not_lt_zero k)
  | cons c cs ih =>
    obtain ⟨hr, hc, hcs⟩ := paced_cons hp
    rcases le_or_gt s.tarTime c with ht | ht
    · obtain ⟨hdue, hlt, hw, htar⟩ := step_of_target h hc ht
      simp only [exchanges, if_pos hdue, List.length_cons] at hk ⊢
      cases k with
      | zero => exact ⟨by simpa using ht, by simpa using hlt⟩
      | succ k =>
        obtain ⟨hlo, hhi⟩ := ih hw hcs k (Nat.lt_of_succ_lt_succ hk)
        rw [htar] at hlo hhi
        rw [List.getElem_cons_succ, Nat.cast_succ]
        constructor <;> linarith
    · obtain ⟨hdue, hw, htar⟩ := step_before_target h hr ht
      simp only [exchanges, if_neg hdue] at hk ⊢
      rw [← htar]
      exact ih hw hcs k hk

/-- **One exchange per slot**: after every reading as many exchanges as slots have begun, and each in
its own slot, as long as no two readings are more than a period apart. -/
theorem one_exchange_per_slot (l : Loop) (tv : Timeval) (cs : List ℤ) (c : ℤ)
    (hpaced : Paced (tv.micros :: (cs ++ [c]))) :
    (exchanges (start l.phase tv) (cs ++ [c])).length =
        {k : ℕ | (start l.phase tv).tarTime + 100000 * k ≤ c}.ncard ∧
      ∀ k (hk : k < (exchanges (start l.phase tv) (cs ++ [c])).length),
        (start l.phase tv).tarTime + 100000 * k ≤ (exchanges (start l.phase tv) (cs ++ [c]))[k] ∧
          (exchanges (start l.phase tv) (cs ++ [c]))[k] <
            (start l.phase tv).tarTime + 100000 * (k + 1) := by
  refine ⟨?_, exchange_in_slot (start_waiting l tv) hpaced⟩
  have hset : {k : ℕ | (start l.phase tv).tarTime + 100000 * k ≤ c} =
      Set.Iio (exchanges (start l.phase tv) (cs ++ [c])).length := by
    ext k
    have h := lt_exchanges_iff (start_waiting l tv) hpaced k
    rw [List.getLast_cons (by simp), List.getLast_append_singleton] at h
    exact h.symm
  rw [hset, Set.ncard_Iio_nat]

/-- listener started 50 ms before a full second. -/
theorem two_slots_served :
    (exchanges (start Loop.listener.phase (Timeval.ofMicros 950000))
        [1000000, 1050000, 1100000]).length =
      {k : ℕ | (start Loop.listener.phase (Timeval.ofMicros 950000)).tarTime + 100000 * k ≤
        1100000}.ncard := by
  have hpaced : Paced [950000, 1000000, 1050000, 1100000] := by
    simp [Paced, period, tcpFreq]
  exact (one_exchange_per_slot .listener (Timeval.ofMicros 950000) [1000000, 1050000] 1100000
    hpaced).1

end LidarRelay.Schedule
