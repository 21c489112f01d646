import LidarRelay.Properties.Box

/-! # The shift that the phase lock decides on

A line through the error bars is a possible course of the clock: its offset is the skew of now, its
slope the rate at which the skew grows. The target is a band of slopes that take the skew back to
zero, the steeper the greater it is. `find_df` gives the least change of slope that takes one of
the possible courses into the band.
-/

namespace LidarRelay.PhaseLock
open Envelope Line
set_option autoImplicit false
set_option maxHeartbeats 250000

def leftEnd (offset : ℚ) : ℚ := min (-offset / 600) (3 / 10 - offset / 6000)

def rightEnd (offset : ℚ) : ℚ := max (-offset / 600) (-(3 / 10) - offset / 6000)

/-- The skew is on its way back: to zero in ten minutes, or not much slower than that. -/
def OnTarget (l : Seg) : Prop := leftEnd l.offset ≤ l.slope ∧ l.slope ≤ rightEnd l.offset

def faster (l : Seg) (delta : ℚ) : Seg := ⟨l.slope + delta, l.offset⟩

theorem leftEnd_le (offset : ℚ) : leftEnd offset ≤ -offset / 600 := min_le_left _ _

theorem le_rightEnd (offset : ℚ) : -offset / 600 ≤ rightEnd offset := le_max_left _ _

theorem shift_left (l : Seg) : shift false l = max 0 (leftEnd l.offset - l.slope) := by
  rw [shift, findShift_eq, leftEnd, ← min_sub_sub_right]
  congr 2
  · simp only [turn, Bool.false_eq_true, if_false]
    ring
  · simp only [turn, Bool.false_eq_true, if_false]
    ring

theorem shift_right (l : Seg) : shift true l = max 0 (l.slope - rightEnd l.offset) := by
  rw [shift, findShift_eq, rightEnd, ← min_sub_sub_left]
  congr 2
  · simp only [turn, mirror, if_true]
    ring
  · simp only [turn, mirror, if_true]
    ring

theorem shift_nonneg (side : Bool) (l : Seg) : 0 ≤ shift side l := by
  rw [shift, findShift_eq]
  exact le_max_left _ _

/-- A line is not on both sides of the target. -/
theorem shift_eq_zero (l : Seg) : shift false l = 0 ∨ shift true l = 0 := by
  rw [shift_left, shift_right]
  rcases le_total l.slope (-l.offset / 600) with h | h
  · exact .inr (max_eq_left (by linarith [le_rightEnd l.offset]))
  · exact .inl (max_eq_left (by linarith [leftEnd_le l.offset]))

/-- Where one possible course is not left of the target and one is not right of it, one is on it. -/
theorem exists_onTarget {d : Ring} {rp : Index} {l m : Seg} (hl : Fits d rp l) (hm : Fits d rp m)
    (hleft : shift false l = 0) (hright : shift true m = 0) : ∃ v, Fits d rp v ∧ OnTarget v := by
  rw [shift_left, max_eq_left_iff, sub_nonpos] at hleft
  rw [shift_right, max_eq_left_iff, sub_nonpos] at hright
  by_cases hl' : l.slope ≤ rightEnd l.offset
  · exact ⟨l, hl, hleft, hl'⟩
  by_cases hm' : leftEnd m.offset ≤ m.slope
  · exact ⟨m, hm, hm', hright⟩
  rw [not_le] at hl' hm'
  have hlpos : 0 < l.slope + l.offset / 600 := by linarith [le_rightEnd l.offset]
  have hmneg : m.slope + m.offset / 600 < 0 := by linarith [leftEnd_le m.offset]
  -- on the way from one to the other the slope is once just that of the middle of the band
  let span := l.slope + l.offset / 600 - (m.slope + m.offset / 600)
  let t := -(m.slope + m.offset / 600) / span
  have hspan : 0 < span := by
    simp only [span]
    linarith
  have ht0 : 0 ≤ t := div_nonneg (by linarith) hspan.le
  have ht1 : t ≤ 1 := by
    rw [div_le_one hspan]
    simp only [span]
    linarith
  have hcenter : (mix t m l).slope = -(mix t m l).offset / 600 := by
    have htspan : t * span = -(m.slope + m.offset / 600) := div_mul_cancel₀ _ hspan.ne'
    simp only [mix]
    simp only [span] at htspan
    linarith
  refine ⟨mix t m l, hm.mix hl ht0 ht1, ?_, ?_⟩
  · rw [hcenter]
    exact leftEnd_le _
  · rw [hcenter]
    exact le_rightEnd _

theorem Box.Exact.least_nonneg {b : Box} {d : Ring} {rp : Index} (h : b.Exact d rp) (side : Bool) :
    0 ≤ b.df.least side := by
  rcases h.attained side with heq | ⟨l, -, heq⟩
  · rw [heq]
    norm_num [minInit]
  · rw [heq]
    exact shift_nonneg side l

/-- The specification of the gross correction. -/
structure LeastShift (d : Ring) (rp : Index) (delta : ℚ) : Prop where
  least : ∀ l e, Fits d rp l → OnTarget (faster l e) → |delta| ≤ |e|
  bounded : |delta| ≤ minInit
  reached : |delta| < minInit → ∃ l, Fits d rp l ∧ OnTarget (faster l delta)

theorem leastShift_left {b : Box} {d : Ring} {rp : Index} (h : b.Exact d rp) (hpos : 0 < b.df.lMin) :
    LeastShift d rp b.df.lMin where
  least := fun l e hl he => by
    have hle := h.least_le false l hl
    rw [shift_left, le_max_iff] at hle
    have hfar := hle.resolve_left (not_le.mpr hpos)
    have hreach : leftEnd l.offset ≤ l.slope + e := he.1
    have hlMin : b.df.lMin ≤ leftEnd l.offset - l.slope := hfar
    rw [abs_of_pos hpos]
    exact le_trans (by linarith) (le_abs_self e)
  bounded := by
    rw [abs_of_pos hpos]
    exact h.least_le_init false
  reached := fun hlt => by
    rw [abs_of_pos hpos] at hlt
    obtain ⟨l, hl, heq⟩ := (h.attained false).resolve_left hlt.ne
    have heq' : b.df.lMin = max 0 (leftEnd l.offset - l.slope) := heq.trans (shift_left l)
    have hmax : max 0 (leftEnd l.offset - l.slope) = leftEnd l.offset - l.slope := by
      refine max_eq_right (le_of_not_ge fun hneg => ?_)
      rw [max_eq_left hneg] at heq'
      exact hpos.ne' heq'
    have hslope : l.slope + b.df.lMin = leftEnd l.offset := by linarith
    refine ⟨l, hl, hslope.ge, hslope.le.trans ?_⟩
    exact (leftEnd_le _).trans (le_rightEnd _)

theorem leastShift_right {b : Box} {d : Ring} {rp : Index} (h : b.Exact d rp) (hpos : 0 < b.df.rMin) :
    LeastShift d rp (-b.df.rMin) where
  least := fun l e hl he => by
    have hle := h.least_le true l hl
    rw [shift_right, le_max_iff] at hle
    have hfar := hle.resolve_left (not_le.mpr hpos)
    have hreach : l.slope + e ≤ rightEnd l.offset := he.2
    have hrMin : b.df.rMin ≤ l.slope - rightEnd l.offset := hfar
    rw [abs_neg, abs_of_pos hpos]
    exact le_trans (by linarith) (neg_le_abs e)
  bounded := by
    rw [abs_neg, abs_of_pos hpos]
    exact h.least_le_init true
  reached := fun hlt => by
    rw [abs_neg, abs_of_pos hpos] at hlt
    obtain ⟨l, hl, heq⟩ := (h.attained true).resolve_left hlt.ne
    have heq' : b.df.rMin = max 0 (l.slope - rightEnd l.offset) := heq.trans (shift_right l)
    have hmax : max 0 (l.slope - rightEnd l.offset) = l.slope - rightEnd l.offset := by
      refine max_eq_right (le_of_not_ge fun hneg => ?_)
      rw [max_eq_left hneg] at heq'
      exact hpos.ne' heq'
    have hslope : l.slope + -b.df.rMin = rightEnd l.offset := by linarith
    refine ⟨l, hl, ?_, hslope.le⟩
    exact ((leftEnd_le _).trans (le_rightEnd _)).trans hslope.ge

/-- **`find_df` is the least shift** that takes a course through all error bars to the target, as
far as that is below `MIN_INIT`, and it never sets its flag. -/
theorem findDf_least {d : Ring} {rp : Index} {b : Box} (hord : Ordered d rp)
    (hbox : box d rp = some (some b)) (hfit : ∃ l, Fits d rp l) :
    LeastShift d rp (findDf b.df).1 ∧ (findDf b.df).2 = false := by
  have h := box_exact hord hbox hfit
  obtain ⟨l₀, hl₀⟩ := hfit
  have hl : 0 ≤ b.df.lMin := h.least_nonneg false
  have hr : 0 ≤ b.df.rMin := h.least_nonneg true
  have hzero : b.df.lMin = 0 ∨ b.df.rMin = 0 := by
    rcases shift_eq_zero l₀ with h0 | h0
    · exact .inl (le_antisymm ((h.least_le false l₀ hl₀).trans h0.le) hl)
    · exact .inr (le_antisymm ((h.least_le true l₀ hl₀).trans h0.le) hr)
  rcases hl.eq_or_lt with hl0 | hlpos
  · rcases hr.eq_or_lt with hr0 | hrpos
    · have hinit : (0 : ℚ) ≠ minInit := by norm_num [minInit]
      have hfind : findDf b.df = (0, false) := by
        rw [findDf, if_pos hl0.symm, if_pos hr0.symm]
      obtain ⟨l, hfl, hl'⟩ := (h.attained false).resolve_left fun heq => hinit (hl0.trans heq)
      obtain ⟨m, hfm, hm'⟩ := (h.attained true).resolve_left fun heq => hinit (hr0.trans heq)
      obtain ⟨v, hv, htarget⟩ := exists_onTarget hfl hfm (hl'.symm.trans hl0.symm)
        (hm'.symm.trans hr0.symm)
      rw [hfind]
      refine ⟨⟨fun l e _ _ => ?_, ?_, fun _ => ⟨v, hv, ?_⟩⟩, rfl⟩
      · rw [abs_zero]
        exact abs_nonneg e
      · norm_num [minInit]
      · rw [faster, add_zero]
        exact htarget
    · have hfind : findDf b.df = (-b.df.rMin, false) := by
        rw [findDf, if_pos hl0.symm, if_neg hrpos.ne']
      rw [hfind]
      exact ⟨leastShift_right h hrpos, rfl⟩
  · have hr0 : b.df.rMin = 0 := hzero.resolve_left hlpos.ne'
    have hfind : findDf b.df = (b.df.lMin, false) := by
      rw [findDf, if_neg hlpos.ne', if_pos hr0]
    rw [hfind]
    exact ⟨leastShift_left h hlpos, rfl⟩

/-! ## The middle of the box -/

/-- The slope of the band between ten minutes and half an hour that is nearest to `slope`. -/
def nearest (offset slope : ℚ) : ℚ :=
  max (min (-offset / 600) (-offset / 1800)) (min (max (-offset / 600) (-offset / 1800)) slope)

theorem centerDelta_eq (offset slope : ℚ) :
    centerDelta offset (-offset / 600 - slope) (-offset / 1800 - slope) =
      nearest offset slope - slope := by
  unfold centerDelta nearest
  rcases lt_or_ge offset 0 with ho | ho
  · have hband : -offset / 1800 ≤ -offset / 600 := by linarith
    have hno : ¬ offset ≥ 0 := not_le.mpr ho
    simp only [min_eq_right hband, max_eq_left hband, ho, hno, true_and, false_and, if_false]
    split_ifs with h1 h2
    · rw [min_eq_left (by linarith), max_eq_right hband]
    · rw [min_eq_right (by linarith), max_eq_left (by linarith)]
    · rw [min_eq_right (by linarith), max_eq_right (by linarith), sub_self]
  · have hband : -offset / 600 ≤ -offset / 1800 := by linarith
    have hno : ¬ offset < 0 := not_lt.mpr ho
    simp only [min_eq_left hband, max_eq_right hband, ho, hno, true_and, false_and, if_false]
    split_ifs with h1 h2
    · rw [min_eq_left (by linarith), max_eq_right hband]
    · rw [min_eq_right (by linarith), max_eq_left (by linarith)]
    · rw [min_eq_right (by linarith), max_eq_right (by linarith), sub_self]

theorem abs_nearest_sub_le (offset slope : ℚ) :
    |nearest offset slope - slope| ≤ |slope| + |offset| / 600 := by
  have hend : ∀ x, x = -offset / 600 ∨ x = -offset / 1800 → |x - slope| ≤ |slope| + |offset| / 600 := by
    intro x hx
    have hx' : |x| ≤ |offset| / 600 := by
      rcases hx with rfl | rfl
      · rw [abs_div, abs_neg, abs_of_pos (show (0 : ℚ) < 600 by norm_num)]
      · rw [abs_div, abs_neg, abs_of_pos (show (0 : ℚ) < 1800 by norm_num)]
        linarith [abs_nonneg offset]
    linarith [abs_sub x slope]
  unfold nearest
  rcases max_choice (min (-offset / 600) (-offset / 1800))
    (min (max (-offset / 600) (-offset / 1800)) slope) with h | h
  · rw [h]
    exact hend _ (min_choice _ _)
  · rw [h]
    rcases min_choice (max (-offset / 600) (-offset / 1800)) slope with h | h
    · rw [h]
      exact hend _ (max_choice _ _)
    · rw [h, sub_self, abs_zero]
      positivity

/-- The two lines of a box cross before now. -/
theorem box_offset_le {d : Ring} {rp : Index} {b : Box} (hord : Ordered d rp)
    (hbox : box d rp = some (some b)) (hfit : ∃ l, Fits d rp l) :
    b.saveMin.offset ≤ b.saveMax.offset := by
  have h := box_exact hord hbox hfit
  obtain ⟨maxseg, minseg, hmax, -, -⟩ := box_ends hord hbox
  obtain ⟨_, _, hstop⟩ := hmax.stop
  obtain ⟨i, hi⟩ := corner_touches false hstop
  have hat : b.saveMin.value (place d rp i) ≤ b.saveMax.value (place d rp i) :=
    (h.min_fits.under i).trans_eq hi.symm
  have hslope := h.min_slope _ h.max_fits
  have hpast : place d rp i ≤ 0 := by
    rw [place, neg_nonpos]
    exact Nat.cast_nonneg _
  have hnow := value_le_right hat hslope hpast
  simpa only [Line.value, mul_zero, add_zero] using hnow

/-- **`find_df_center` never overshoots**: the middle of the box goes a part of the way to the band,
and the division is never by zero. -/
theorem findDfCenter_toward {d : Ring} {rp : Index} {b : Box} (hord : Ordered d rp)
    (hbox : box d rp = some (some b)) (hfit : ∃ l, Fits d rp l) (grossDf : ℚ) :
    ∃ part center, 0 ≤ part ∧ part ≤ 1 ∧ center = 1 / 2 * (b.saveMax.slope + b.saveMin.slope) + grossDf ∧
      findDfCenter b.saveMin b.saveMax grossDf = some (part *
        (nearest (1 / 2 * (b.saveMax.offset + b.saveMin.offset)) center - center)) ∧
      part * |1 / 2 * (b.saveMax.offset + b.saveMin.offset)| ≤ 1000 := by
  have hoffset := box_offset_le hord hbox hfit
  have hslope := (box_exact hord hbox hfit).min_slope _ (box_exact hord hbox hfit).max_fits
  by_cases hout : b.saveMax.offset < -1000 ∨ b.saveMin.offset > 1000
  · refine ⟨0, _, le_rfl, zero_le_one, rfl, ?_, ?_⟩
    · rw [findDfCenter, if_pos hout, zero_mul]
    · rw [zero_mul]
      norm_num
  · have hpos : 0 < 1000 + (b.saveMax.offset - b.saveMin.offset) +
        (b.saveMax.slope - b.saveMin.slope) * 1200 := by linarith
    rw [not_or, not_lt, gt_iff_lt, not_lt] at hout
    refine ⟨1000 / (1000 + (b.saveMax.offset - b.saveMin.offset) +
      (b.saveMax.slope - b.saveMin.slope) * 1200), _, by positivity, ?_, rfl, ?_, ?_⟩
    · rw [div_le_one hpos]
      linarith
    · have hin : ¬ (b.saveMax.offset < -1000 ∨ b.saveMin.offset > 1000) := by
        rw [not_or, not_lt, gt_iff_lt, not_lt]
        exact hout
      rw [findDfCenter, if_neg hin, if_neg hpos.ne', centerDelta_eq]
    · rw [div_mul_eq_mul_div, div_le_iff₀ hpos]
      have habs : |1 / 2 * (b.saveMax.offset + b.saveMin.offset)| ≤
          1000 + (b.saveMax.offset - b.saveMin.offset) := by
        rw [abs_le]
        constructor <;> linarith
      linarith

/-! ## What the passes decide -/

/-- **A box is found exactly where some line fits**: as long as the slopes are in the range of the
passes and no three of the ends are in one line, data are taken for inconsistent when they are. -/
theorem inconsistent_iff {d : Ring} {rp : Index} (hord : Ordered d rp) (hwide : Wide d rp)
    (hrange : ∀ l, Fits d rp l → InRange l) (htied : ∀ sign, ¬ Tied d rp sign) :
    box d rp = some none ↔ ¬ ∃ l, Fits d rp l := by
  constructor
  · intro hbox hfit
    obtain ⟨b, hb⟩ := box_of_fits hord hfit hrange htied
    rw [hbox] at hb
    cases hb
  · intro hnone
    obtain ⟨b, hb⟩ := box_isSome hord
    cases b with
    | none => exact hb
    | some b => exact absurd ⟨_, fits_of_box hord hwide hb⟩ hnone

/-- Sixteen measurements, a minute apart, of a clock that runs right. -/
def steady : Ring := Vector.ofFn fun i =>
  { absolute := 60 * UInt32.ofNat i.val, min := -(10 + (i.val ^ 2 % 97 : ℕ) / 100),
    max := 10 + (i.val ^ 3 % 89 : ℕ) / 100 }

theorem steady_ordered : Ordered steady 15 := by
  intro p q
  revert p q
  decide +kernel

theorem steady_wide : Wide steady 15 := by
  unfold Wide
  decide +kernel

theorem steady_fits : Fits steady 15 ⟨0, 0⟩ := by
  refine ⟨?_, ?_⟩
  · unfold Under
    decide +kernel
  · decide +kernel

theorem steady_untied : ∀ sign, Untied steady 15 sign := by decide +kernel

theorem steady_inRange {l : Seg} (hl : Fits steady 15 l) : InRange l := by
  have hplace : place steady 15 newest = 0 ∧ place steady 15 0 = -900 := by decide +kernel
  have hmax : point steady 15 .max newest ≤ 20 ∧ point steady 15 .max 0 ≤ 20 := by decide +kernel
  have hmin : -20 ≤ point steady 15 .min newest ∧ -20 ≤ point steady 15 .min 0 := by decide +kernel
  have h1 := hl.under newest
  have h2 := hl.above newest
  have h3 := hl.under 0
  have h4 := hl.above 0
  rw [Line.value, hplace.1] at h1 h2
  rw [Line.value, hplace.2] at h3 h4
  rw [InRange, maxCorrect]
  constructor
  · linarith
  · linarith

theorem inconsistent_iff_steady : box steady 15 = some none ↔ ¬ ∃ l, Fits steady 15 l :=
  inconsistent_iff steady_ordered steady_wide (fun _ hl => steady_inRange hl)
    fun sign => (steady_untied sign).not_tied

/-- **What is decided is the least that can be known to be needed.** Whenever there is a box, its
lines are those of the least and the greatest slope that fit the data. `find_df` is the least change
of slope that takes one of those that fit to the target, but at most `MIN_INIT`, and never sets its
flag; `find_df_center` then takes the middle of the box a part of the way to a band of its own. -/
theorem decision_least {d : Ring} {rp : Index} {b : Box} (hord : Ordered d rp) (hwide : Wide d rp)
    (hbox : box d rp = some (some b)) :
    b.Exact d rp ∧ LeastShift d rp (findDf b.df).1 ∧ (findDf b.df).2 = false ∧
      ∃ part center, 0 ≤ part ∧ part ≤ 1 ∧
        center = 1 / 2 * (b.saveMax.slope + b.saveMin.slope) + (findDf b.df).1 ∧
        deltaF b = some ((findDf b.df).1 + part *
          (nearest (1 / 2 * (b.saveMax.offset + b.saveMin.offset)) center - center)) := by
  have hfit : ∃ l, Fits d rp l := ⟨_, fits_of_box hord hwide hbox⟩
  obtain ⟨hleast, hflag⟩ := findDf_least hord hbox hfit
  obtain ⟨part, center, h0, h1, hcenter, hfind, -⟩ :=
    findDfCenter_toward hord hbox hfit (findDf b.df).1
  refine ⟨box_exact hord hbox hfit, hleast, hflag, part, center, h0, h1, hcenter, ?_⟩
  rw [deltaF, hfind]
  rfl

theorem decision_least_steady : ∃ b, box steady 15 = some (some b) ∧ b.Exact steady 15 ∧
    LeastShift steady 15 (findDf b.df).1 := by
  obtain ⟨b, hbox⟩ := box_of_fits steady_ordered ⟨_, steady_fits⟩ (fun _ hl => steady_inRange hl)
    fun sign => (steady_untied sign).not_tied
  obtain ⟨hexact, hleast, -⟩ := decision_least steady_ordered steady_wide hbox
  exact ⟨b, hbox, hexact, hleast⟩

end LidarRelay.PhaseLock
