import LidarRelay.Foundations.RecentRing
import LidarRelay.Foundations.Runs
import LidarRelay.Properties.Target

/-! # The phase lock on a clock that drifts

The skew of a clock grows at a constant rate, less the frequency the kernel runs at. Over any run
of measurements the ring holds the last sixteen of them, and pass 1 takes out of them just what the
changes of the frequency have put in: the course of the clock at the frequency of now passes through
all the corrected error bars, so it is never outside the box.
-/

namespace LidarRelay.PhaseLock
open Envelope Line
set_option autoImplicit false
set_option maxHeartbeats 250000

/-! ## Pass 1 -/

theorem get_set (d : Ring) (i j : Index) (x : Datum) :
    (d.set i x i.isLt).get j = if j = i then x else d.get j := by
  change (d.set i x i.isLt)[j.val] = if j = i then x else d[j.val]
  rw [Vector.getElem_set]
  simp only [Fin.ext_iff, eq_comm]

theorem idx_eq_back (rp p : Index) : idx rp p = back rp (15 - p.val) := by
  revert rp p
  decide

theorem back_round (rp : Index) : back rp 16 = rp := by
  revert rp
  decide

/-- What is measured at one call. -/
structure Sample where
  absolute : UInt32
  skew : ℚ
  errorbar : ℚ
  freq : ℤ

def Datum.sample (d : Datum) : Sample := ⟨d.absolute, d.skew, d.errorbar, d.freq⟩

def samples (d : Ring) (i : Index) : Sample := (d.get i).sample

/-- How far the measurement `k` back is moved, for the frequencies that were in force since. -/
def drift (d : Ring) (rp : Index) (freq : ℤ) : ℕ → ℚ
  | 0 => 0
  | k + 1 => drift d rp freq k +
      elapsed d (back rp k) (back rp (k + 1)) * ((d.get (back rp k)).freq - freq : ℤ) / 65536

def Datum.corrected (p : Datum) (cum : ℚ) : Datum :=
  { p with max := p.skew - cum + p.errorbar, min := p.skew - cum - p.errorbar }

theorem elapsed_of_samples {d d' : Ring} (h : samples d = samples d') (i j : Index) :
    elapsed d i j = elapsed d' i j := by
  have hi : (d.get i).absolute = (d'.get i).absolute := congrArg Sample.absolute (congrFun h i)
  have hj : (d.get j).absolute = (d'.get j).absolute := congrArg Sample.absolute (congrFun h j)
  rw [elapsed, elapsed, hi, hj]

theorem samples_set_corrected (d : Ring) (j : Index) (cum : ℚ) :
    samples (d.set j ((d.get j).corrected cum) j.isLt) = samples d := by
  funext i
  rw [samples, samples, get_set]
  split
  · next h => rw [h]; rfl
  · rfl

/-- The loop of pass 1 from the measurement `k` back on. -/
theorem correct_get (d₀ : Ring) (rp : Index) (freq : ℤ) (m : ℕ) :
    ∀ (k : ℕ) (d : Ring), m + 1 + k = 16 → samples d = samples d₀ →
      samples (correct rp freq (m + 1) (back rp k) (drift d₀ rp freq k) d) = samples d₀ ∧
      ∀ i < 16, (correct rp freq (m + 1) (back rp k) (drift d₀ rp freq k) d).get (back rp i) =
        if i < k then d.get (back rp i) else (d.get (back rp i)).corrected (drift d₀ rp freq i) := by
  induction m with
  | zero =>
    intro k d hk hd
    have hround : nextDn (back rp k) = rp := by
      rw [nextDn, ← back_succ, show k + 1 = 16 by omega, back_round]
    rw [correct]
    simp only [hround, if_true]
    refine ⟨(samples_set_corrected d _ _).trans hd, fun i hi => ?_⟩
    rw [get_set]
    rcases (show i < k ∨ i = k by omega) with h | rfl
    · rw [if_pos h, if_neg fun heq => h.ne (back_inj hi (by omega) heq)]
    · rw [if_pos rfl, if_neg (lt_irrefl i)]
      rfl
  | succ m ih =>
    intro k d hk hd
    have hnext : nextDn (back rp k) = back rp (k + 1) := (back_succ rp k).symm
    have hgo : back rp (k + 1) ≠ rp := by
      intro heq
      have := back_inj (show k + 1 < 16 by omega) (by decide) (heq.trans (back_zero rp).symm)
      omega
    have hsame : samples (d.set (back rp k) ((d.get (back rp k)).corrected (drift d₀ rp freq k))) =
        samples d₀ := (samples_set_corrected d _ _).trans hd
    have hfreq : ∀ j, ((d.set (back rp k)
        ((d.get (back rp k)).corrected (drift d₀ rp freq k))).get j).freq = (d₀.get j).freq :=
      fun j => congrArg Sample.freq (congrFun hsame j)
    rw [correct]
    simp only [hnext, hgo, if_false]
    obtain ⟨hrest, hrec⟩ := ih (k + 1) _ (by omega) hsame
    rw [drift, ← elapsed_of_samples hsame, ← hfreq] at hrest hrec
    refine ⟨hrest, fun i hi => (hrec i hi).trans ?_⟩
    rw [get_set]
    rcases lt_trichotomy i k with h | rfl | h
    · rw [if_pos (h.trans (Nat.lt_succ_self k)), if_pos h,
        if_neg fun heq => h.ne (back_inj hi (by omega) heq)]
    · rw [if_pos (Nat.lt_succ_self i), if_neg (lt_irrefl i), if_pos rfl]
    · rw [if_neg (by omega), if_neg h.not_gt, if_neg fun heq => h.ne' (back_inj hi (by omega) heq)]

theorem pass1_samples (d : Ring) (rp : Index) (freq : ℤ) :
    samples (pass1 d rp freq) = samples d := by
  have h := (correct_get d rp freq 15 0 d rfl rfl).1
  rwa [back_zero] at h

theorem pass1_get (d : Ring) (rp : Index) (freq : ℤ) {k : ℕ} (hk : k < 16) :
    (pass1 d rp freq).get (back rp k) = (d.get (back rp k)).corrected (drift d rp freq k) := by
  have h := (correct_get d rp freq 15 0 d rfl rfl).2 k hk
  rw [back_zero, if_neg (Nat.not_lt_zero k)] at h
  exact h

/-- The error bars as pass 1 leaves them. -/
theorem pass1_width (d : Ring) (rp : Index) (freq : ℤ) (p : Index) :
    point (pass1 d rp freq) rp .max p - point (pass1 d rp freq) rp .min p =
      2 * (d.get (back rp (15 - p.val))).errorbar := by
  rw [point, point, idx_eq_back, pass1_get d rp freq (by omega)]
  simp only [Datum.corrected, Datum.ss]
  ring

/-! ## A steady course -/

/-- The skew in the ring, counted back from the newest measurement: at `time k` it was `offset k`,
and between two measurements it grew at a constant rate less the frequency of that time. -/
structure Course (d : Ring) (rp : Index) (rate : ℚ) (time : ℕ → ℕ) (offset : ℕ → ℚ) : Prop where
  absolute : ∀ k < 16, (d.get (back rp k)).absolute = UInt32.ofNat (time k)
  before : ∀ k < 15, time (k + 1) < time k
  within : ∀ k < 15, time k < time (k + 1) + 2 ^ 28
  grows : ∀ k < 15, offset k = offset (k + 1) +
    ((time k : ℚ) - time (k + 1)) * (rate - (d.get (back rp k)).freq / 65536)
  bar : ∀ k < 16, |(d.get (back rp k)).skew - offset k| ≤ (d.get (back rp k)).errorbar

namespace Course
variable {d : Ring} {rp : Index} {rate : ℚ} {time : ℕ → ℕ} {offset : ℕ → ℚ}

theorem time_lt (h : Course d rp rate time offset) {k m : ℕ} (hkm : k < m) (hm : m < 16) :
    time m < time k ∧ time k < time m + (m - k) * 2 ^ 28 := by
  induction m with
  | zero => exact absurd hkm (Nat.not_lt_zero k)
  | succ m ih =>
    have hb := h.before m (by omega)
    have hw := h.within m (by omega)
    rcases (Nat.lt_succ_iff.mp hkm).eq_or_lt with rfl | hlt
    · omega
    · have hrec := ih hlt (by omega)
      have hstep : m + 1 - k = m - k + 1 := by omega
      rw [hstep, add_mul]
      omega

theorem elapsed_back (h : Course d rp rate time offset) {k m : ℕ} (hkm : k < m) (hm : m < 16) :
    elapsed d (back rp k) (back rp m) = (time k : ℚ) - time m := by
  obtain ⟨hlt, hspan⟩ := h.time_lt hkm hm
  have hround : time k - time m < UInt32.size := by
    change _ < 4294967296
    omega
  rw [elapsed, h.absolute k (by omega), h.absolute m hm, ← UInt32.ofNat_sub hlt.le,
    UInt32.toNat_ofNat_of_lt' hround, Nat.cast_sub hlt.le]

theorem place_eq (h : Course d rp rate time offset) (p : Index) :
    place d rp p = (time (15 - p.val) : ℚ) - time 0 := by
  rw [place, idx_eq_back]
  rcases Nat.eq_zero_or_pos (15 - p.val) with h0 | hpos
  · rw [h0, back_zero, elapsed, sub_self]
    simp
  · have := h.elapsed_back hpos (by omega)
    rw [back_zero] at this
    rw [this, neg_sub]

theorem ordered (h : Course d rp rate time offset) : Ordered d rp := by
  intro p q hpq
  have hlt := Fin.lt_def.mp hpq
  have hq : q.val < 16 := q.isLt
  rw [h.place_eq, h.place_eq]
  have := (h.time_lt (show 15 - q.val < 15 - p.val by omega) (by omega)).1
  have hcast : (time (15 - p.val) : ℚ) < time (15 - q.val) := by exact_mod_cast this
  linarith

/-- The line on which the skew has been at the frequency of now. -/
theorem offset_sub_drift (h : Course d rp rate time offset) (freq : ℤ) {k : ℕ} (hk : k < 16) :
    offset k - drift d rp freq k =
      offset 0 + (rate - freq / 65536) * ((time k : ℚ) - time 0) := by
  induction k with
  | zero =>
    rw [drift]
    ring
  | succ k ih =>
    have hrec := ih (by omega)
    have hgrow := h.grows k (by omega)
    rw [drift, h.elapsed_back (Nat.lt_succ_self k) hk]
    push_cast
    have hoff : offset (k + 1) = offset k -
        ((time k : ℚ) - time (k + 1)) * (rate - (d.get (back rp k)).freq / 65536) := by linarith
    rw [hoff]
    linear_combination hrec

theorem fits (h : Course d rp rate time offset) (freq : ℤ) :
    Fits (pass1 d rp freq) rp ⟨rate - freq / 65536, offset 0⟩ := by
  have hplace : ∀ p, place (pass1 d rp freq) rp p = (time (15 - p.val) : ℚ) - time 0 := fun p => by
    rw [place, elapsed_of_samples (pass1_samples d rp freq)]
    exact h.place_eq p
  have hpoint : ∀ s p, point (pass1 d rp freq) rp s p =
      ((d.get (back rp (15 - p.val))).corrected (drift d rp freq (15 - p.val))).ss s := fun s p => by
    rw [point, idx_eq_back, pass1_get d rp freq (by omega)]
  have hbars : ∀ p : Index, |(d.get (back rp (15 - p.val))).skew - offset (15 - p.val)| ≤
      (d.get (back rp (15 - p.val))).errorbar := fun p => h.bar _ (by omega)
  refine ⟨fun p => ?_, fun p => ?_⟩
  · have hline := h.offset_sub_drift freq (show 15 - p.val < 16 by omega)
    have hbar := (abs_le.mp (hbars p)).1
    rw [hpoint, hplace]
    simp only [Datum.corrected, Datum.ss, Line.value]
    linarith
  · have hline := h.offset_sub_drift freq (show 15 - p.val < 16 by omega)
    have hbar := (abs_le.mp (hbars p)).2
    rw [hpoint, hplace]
    simp only [Datum.corrected, Datum.ss, Line.value]
    linarith

end Course

/-- Two lines through the newest and the oldest error bar cannot differ much. -/
theorem slope_near {d : Ring} {rp : Index} {l m : Seg} (hord : Ordered d rp) (hl : Fits d rp l)
    (hm : Fits d rp m) :
    |l.slope - m.slope| * -place d rp 0 ≤ (point d rp .max newest - point d rp .min newest) +
      (point d rp .max 0 - point d rp .min 0) := by
  have hnow : place d rp newest = 0 := by
    rw [place, idx_newest, elapsed, sub_self]
    rfl
  have hpast : place d rp 0 < 0 := hnow ▸ hord zero_lt_newest
  have h1 := hl.under newest
  have h2 := hl.above newest
  have h3 := hm.under newest
  have h4 := hm.above newest
  have h5 := hl.under 0
  have h6 := hl.above 0
  have h7 := hm.under 0
  have h8 := hm.above 0
  simp only [Line.value, hnow, mul_zero, add_zero] at h1 h2 h3 h4 h5 h6 h7 h8
  rw [← abs_of_pos (neg_pos.mpr hpast), ← abs_mul, abs_le]
  constructor
  · linarith
  · linarith

/-! ## The calls -/

/-- What is kept of a measurement. -/
def Sample.kept (minDelay : ℚ) (x : Sample) : Sample := { x with errorbar := x.errorbar - minDelay }

def storeSample (minDelay : ℚ) (x : Sample) (s : State) : State :=
  store minDelay x.absolute x.skew x.errorbar x.freq s

/-- What passes 2 to 4 work on. -/
def judged (minDelay : ℚ) (x : Sample) (s : State) : Ring :=
  pass1 (storeSample minDelay x s).ring s.rp x.freq

def call (minDelay : ℚ) (x : Sample) (s : State) : Option (ℤ × State) :=
  contemplateData minDelay x.absolute x.skew x.errorbar x.freq s

def calling (minDelay : ℚ) (s : State) (x : Sample) : Option State := (call minDelay x s).map Prod.snd

theorem store_samples (minDelay : ℚ) (x : Sample) (s : State) :
    samples (storeSample minDelay x s).ring s.rp = x.kept minDelay ∧
      ∀ i, i ≠ s.rp → samples (storeSample minDelay x s).ring i = samples s.ring i := by
  refine ⟨?_, fun i hi => ?_⟩
  · rw [samples, storeSample, store, get_set, if_pos rfl]
    rfl
  · rw [samples, storeSample, store, get_set, if_neg hi]
    rfl

theorem nextUp_nextDn (i : Index) : nextDn i + 1 = i := sub_add_cancel i 1

theorem nextDn_nextUp (i : Index) : nextDn (nextUp i) = i := add_sub_cancel_right i 1

theorem Recent.store {hist : List Sample} {s : State} (minDelay : ℚ) (x : Sample)
    (h : Recent (samples s.ring) (nextDn s.rp) hist) :
    Recent (samples (storeSample minDelay x s).ring) s.rp (x.kept minDelay :: hist) := by
  obtain ⟨hnew, hold⟩ := store_samples minDelay x s
  have hframe : ∀ j, j ≠ nextDn s.rp + 1 →
      samples (storeSample minDelay x s).ring j = samples s.ring j := fun j hj =>
    hold j fun heq => hj (heq.trans (nextUp_nextDn s.rp).symm)
  have hpush := h.push hframe
  rwa [nextUp_nextDn, hnew] at hpush

/-- All that one call can do. -/
theorem call_cases {minDelay : ℚ} {x : Sample} {s s' : State} {freq : ℤ}
    (h : call minDelay x s = some (freq, s')) :
    s'.rp = nextUp s.rp ∧ s'.valid = (storeSample minDelay x s).valid ∧
      samples s'.ring = samples (storeSample minDelay x s).ring ∧
      ((storeSample minDelay x s).valid ≠ ringSize ∧ freq = x.freq ∨
        (storeSample minDelay x s).valid = ringSize ∧
          ∃ b, box (judged minDelay x s) s.rp = some b ∧ newFreq x.freq b = some freq) := by
  rw [call, contemplateData] at h
  change (if (storeSample minDelay x s).valid = ringSize then _ else _) = _ at h
  by_cases hfull : (storeSample minDelay x s).valid = ringSize
  · rw [if_pos hfull] at h
    obtain ⟨b, hb, h⟩ := Option.bind_eq_some_iff.mp h
    obtain ⟨f, hf, h⟩ := Option.bind_eq_some_iff.mp h
    obtain ⟨rfl, rfl⟩ := Prod.mk.inj (Option.some.inj h)
    exact ⟨rfl, rfl, pass1_samples _ _ _, .inr ⟨hfull, b, hb, hf⟩⟩
  · rw [if_neg hfull] at h
    obtain ⟨rfl, rfl⟩ := Prod.mk.inj (Option.some.inj h)
    exact ⟨rfl, rfl, rfl, .inl ⟨hfull, rfl⟩⟩

theorem call_of_full {minDelay : ℚ} {x : Sample} {s : State} {b : Option Box} {freq : ℤ}
    (hfull : (storeSample minDelay x s).valid = ringSize) (hb : box (judged minDelay x s) s.rp = some b)
    (hf : newFreq x.freq b = some freq) :
    call minDelay x s =
      some (freq, ⟨judged minDelay x s, nextUp s.rp, (storeSample minDelay x s).valid⟩) := by
  rw [call, contemplateData]
  change (if (storeSample minDelay x s).valid = ringSize then
    (box (judged minDelay x s) s.rp).bind _ else _) = _
  rw [if_pos hfull, hb, Option.bind_some, hf]
  rfl

theorem call_of_few {minDelay : ℚ} {x : Sample} {s : State}
    (hfew : (storeSample minDelay x s).valid ≠ ringSize) :
    call minDelay x s = some (x.freq, { storeSample minDelay x s with rp := nextUp s.rp }) := by
  rw [call, contemplateData]
  change (if (storeSample minDelay x s).valid = ringSize then _ else _) = _
  rw [if_neg hfew]
  rfl

/-- The state after some measurements, the newest first. -/
structure Holds (s : State) (hist : List Sample) : Prop where
  recent : Recent (samples s.ring) (nextDn s.rp) hist
  valid : s.valid = min hist.length ringSize

theorem Holds.start : Holds {} [] := ⟨Recent.nil _ _, rfl⟩

theorem Holds.valid_store {s : State} {hist : List Sample} (h : Holds s hist) (minDelay : ℚ)
    (x : Sample) : (storeSample minDelay x s).valid = min (hist.length + 1) ringSize := by
  have hs : (storeSample minDelay x s).valid = if s.valid < ringSize then s.valid + 1 else s.valid :=
    rfl
  rw [hs, h.valid]
  split
  · omega
  · omega

theorem Holds.step {minDelay : ℚ} {x : Sample} {s s' : State} {hist : List Sample} {freq : ℤ}
    (h : Holds s hist) (hcall : call minDelay x s = some (freq, s')) :
    Holds s' (x.kept minDelay :: hist) := by
  obtain ⟨hrp, hvalid, hsame, -⟩ := call_cases hcall
  refine ⟨?_, hvalid.trans (h.valid_store minDelay x)⟩
  rw [hsame, hrp, nextDn_nextUp]
  exact Recent.store minDelay x h.recent

theorem Holds.steps {minDelay : ℚ} (xs : List Sample) {s s' : State} {hist : List Sample}
    (h : Holds s hist) (hrun : run (calling minDelay) s xs = some s') :
    Holds s' ((xs.map (Sample.kept minDelay)).reverse ++ hist) := by
  induction xs generalizing s hist with
  | nil =>
    rw [run_nil, Option.some.injEq] at hrun
    exact hrun ▸ h
  | cons x xs ih =>
    obtain ⟨s₁, h1, h2⟩ := run_cons_eq_some _ hrun
    obtain ⟨⟨freq, s₁⟩, hcall, rfl⟩ := Option.map_eq_some_iff.mp h1
    have hrest := ih (h.step hcall) h2
    rwa [List.map_cons, List.reverse_cons, List.append_assoc]

/-- **The ring is the end of the history.** After any measurements the ring holds the last sixteen of
them, `valid` counts them, and until there are sixteen the frequency is left as it was. -/
theorem calls_hold {minDelay : ℚ} (xs : List Sample) {s : State}
    (h : run (calling minDelay) {} xs = some s) :
    (∀ k x, xs.reverse[k]? = some x → k < ringSize →
      samples s.ring (back (nextDn s.rp) k) = x.kept minDelay) ∧
    s.valid = min xs.length ringSize ∧
    ∀ x freq s', call minDelay x s = some (freq, s') → xs.length + 1 < ringSize → freq = x.freq := by
  have hholds := Holds.start.steps xs h
  rw [List.append_nil, ← List.map_reverse] at hholds
  refine ⟨fun k x hx hk => hholds.recent k _ ?_ hk, ?_, fun x freq s' hcall hfew => ?_⟩
  · rw [List.getElem?_map, hx]
    rfl
  · rw [hholds.valid, List.length_map, List.length_reverse]
  · obtain ⟨-, -, -, ⟨-, heq⟩ | ⟨hfull, -⟩⟩ := call_cases hcall
    · exact heq
    · rw [hholds.valid_store, List.length_map, List.length_reverse] at hfull
      omega

/-- Seventeen measurements. -/
def measured : List Sample := (List.range 17).map fun k =>
  { absolute := 60 * UInt32.ofNat k, skew := 3 * k, errorbar := 110, freq := 0 }

theorem calls_hold_measured : ∃ s, run (calling 100) {} measured = some s ∧ s.valid = 16 := by
  have h : (run (calling 100) {} measured).isSome = true := by decide +kernel
  obtain ⟨s, hs⟩ := Option.isSome_iff_exists.mp h
  obtain ⟨-, hvalid, -⟩ := calls_hold measured hs
  exact ⟨s, hs, hvalid⟩

end LidarRelay.PhaseLock
