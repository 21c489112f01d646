import LidarRelay.Properties.Locking

/-! # The clock and the phase lock together

With `-l` each accepted reply is one measurement: the kernel's frequency is read, `contemplate_data`
judges, and the frequency is set, except with `-d`. The clock itself drifts at a constant rate, and
what is measured is off by no more than the error bar.
-/

namespace LidarRelay.PhaseLock
open Envelope Line
set_option autoImplicit false
set_option maxHeartbeats 250000

/-- The program, the frequency the kernel runs at, the full seconds since 1900, and how far the
clock is off. -/
structure Loop where
  lock : State := {}
  freq : ℤ
  time : ℕ
  offset : ℚ

/-- One measurement: the full seconds since the one before, how much it is off, and the error bar
that is reported. What the clock gains in a fraction of a second counts as noise. -/
structure Poll where
  dt : ℕ
  noise : ℚ
  errorbar : ℚ

/-- The rate at which the skew grows at frequency 0, the option `-q`, and what the measurements keep
to: the seconds between two of them, and the error bar less `min_delay`. -/
structure Plant where
  rate : ℚ
  minDelay : ℚ
  interval : ℕ
  bar : ℚ
  interval_pos : 0 < interval

structure Poll.Sound (w : Plant) (e : Poll) : Prop where
  interval_le : w.interval ≤ e.dt
  lt : e.dt < 2 ^ 28
  noise_le : |e.noise| ≤ e.errorbar - w.minDelay
  bar_le : e.errorbar - w.minDelay ≤ w.bar

namespace Loop

/-- How far the clock is off at the next measurement. -/
def next (w : Plant) (s : Loop) (e : Poll) : ℚ := s.offset + e.dt * (w.rate - s.freq / 65536)

def sample (w : Plant) (s : Loop) (e : Poll) : Sample where
  absolute := UInt32.ofNat (s.time + e.dt)
  skew := s.next w e + e.noise
  errorbar := e.errorbar
  freq := s.freq

/-- The branch for `ntpc->live`, and the clock that follows. -/
def step (debug : Bool) (w : Plant) (s : Loop) (e : Poll) : Option Loop := do
  let (newFreq, lock) ← call w.minDelay (s.sample w e) s.lock
  return { lock, freq := if debug then s.freq else newFreq, time := s.time + e.dt, offset := s.next w e }

/-- The line on which the skew will have been, at the frequency of now. -/
def course (w : Plant) (s : Loop) (e : Poll) : Seg := ⟨w.rate - s.freq / 65536, s.next w e⟩

end Loop

/-! ## What the ring knows of the past -/

/-- One measurement of the past, and what was true then. -/
structure Past where
  time : ℕ
  offset : ℚ
  sample : Sample

/-- From one measurement to the next. -/
structure Follows (w : Plant) (new old : Past) : Prop where
  later : old.time + w.interval ≤ new.time
  within : new.time < old.time + 2 ^ 28
  grows : new.offset = old.offset + ((new.time : ℚ) - old.time) * (w.rate - new.sample.freq / 65536)

structure Past.Sound (w : Plant) (p : Past) : Prop where
  absolute : p.sample.absolute = UInt32.ofNat p.time
  bar : |p.sample.skew - p.offset| ≤ p.sample.errorbar
  bar_le : p.sample.errorbar ≤ w.bar

/-- The newest measurement first. -/
structure Tracks (w : Plant) (s : Loop) (past : List Past) : Prop where
  holds : Holds s.lock (past.map Past.sample)
  chain : past.IsChain (Follows w)
  sound : ∀ p ∈ past, p.Sound w
  now : ∀ p ∈ past.head?, p.time = s.time ∧ p.offset = s.offset

theorem Tracks.start (w : Plant) {s : Loop} (h : s.lock = {}) : Tracks w s [] where
  holds := h ▸ Holds.start
  chain := .nil
  sound := fun _ hp => absurd hp List.not_mem_nil
  now := fun _ hp => nomatch hp

def Loop.entry (w : Plant) (s : Loop) (e : Poll) : Past :=
  ⟨s.time + e.dt, s.next w e, (s.sample w e).kept w.minDelay⟩

section Step
variable {debug : Bool} {w : Plant} {s s' : Loop} {e : Poll} {past : List Past}

theorem Loop.step_cases (h : s.step debug w e = some s') :
    ∃ newFreq, call w.minDelay (s.sample w e) s.lock = some (newFreq, s'.lock) ∧
      s'.freq = (if debug then s.freq else newFreq) ∧ s'.time = s.time + e.dt ∧
      s'.offset = s.next w e := by
  obtain ⟨⟨newFreq, lock⟩, hcall, h⟩ := Option.bind_eq_some_iff.mp h
  obtain rfl := Option.some.inj h
  exact ⟨newFreq, hcall, rfl, rfl, rfl⟩

theorem Tracks.chain_cons (h : Tracks w s past) (he : e.Sound w) :
    (s.entry w e :: past).IsChain (Follows w) := by
  cases past with
  | nil => exact .singleton _
  | cons p past =>
    obtain ⟨htime, hoff⟩ := h.now p rfl
    refine .cons_cons ⟨?_, ?_, ?_⟩ h.chain
    · rw [htime]
      exact Nat.add_le_add_left he.interval_le _
    · rw [htime]
      exact Nat.add_lt_add_left he.lt _
    · rw [htime, hoff]
      simp only [Loop.entry, Loop.next, Loop.sample, Sample.kept]
      push_cast
      ring

theorem Loop.entry_sound (s : Loop) (he : e.Sound w) : (s.entry w e).Sound w where
  absolute := rfl
  bar := by
    have hnoise : s.next w e + e.noise - s.next w e = e.noise := add_sub_cancel_left _ _
    simp only [Loop.entry, Loop.sample, Sample.kept, hnoise]
    exact he.noise_le
  bar_le := he.bar_le

theorem Tracks.step (h : Tracks w s past) (he : e.Sound w)
    (hstep : s.step debug w e = some s') :
    Tracks w s' (s.entry w e :: past) := by
  obtain ⟨newFreq, hcall, -, htime, hoff⟩ := Loop.step_cases hstep
  refine ⟨h.holds.step hcall, h.chain_cons he, ?_, ?_⟩
  · exact List.forall_mem_cons.mpr ⟨s.entry_sound he, h.sound⟩
  · rintro p ⟨⟩
    exact ⟨htime.symm, hoff.symm⟩

end Step

/-- Sixteen measurements of the past are a course. -/
theorem course_of_past {w : Plant} {d : Ring} {rp : Index} {p : Past} {past : List Past}
    (hrecent : Recent (samples d) rp ((p :: past).map Past.sample)) (hlen : 15 ≤ past.length)
    (hchain : (p :: past).IsChain (Follows w)) (hsound : ∀ q ∈ p :: past, q.Sound w) :
    ∃ time offset, Course d rp w.rate time offset ∧ offset 0 = p.offset ∧
      (∀ k < 15, time (k + 1) + w.interval ≤ time k) ∧
      ∀ k < 16, (d.get (back rp k)).errorbar ≤ w.bar := by
  let entry : ℕ → Past := fun k => (p :: past).getD k p
  have hentry : ∀ k < 16, ∃ h : k < (p :: past).length, entry k = (p :: past)[k] := fun k hk => by
    have hlt : k < (p :: past).length := by
      rw [List.length_cons]
      omega
    refine ⟨hlt, ?_⟩
    simp only [entry, List.getD_eq_getElem?_getD, List.getElem?_eq_getElem hlt, Option.getD_some]
  have hring : ∀ k < 16, (d.get (back rp k)).sample = (entry k).sample := fun k hk => by
    obtain ⟨hlt, heq⟩ := hentry k hk
    refine hrecent k _ ?_ hk
    rw [List.getElem?_map, List.getElem?_eq_getElem hlt, heq]
    rfl
  have hfollows : ∀ k < 15, Follows w (entry k) (entry (k + 1)) := fun k hk => by
    obtain ⟨_, heq⟩ := hentry k (by omega)
    obtain ⟨hlt, heq'⟩ := hentry (k + 1) (by omega)
    rw [heq, heq']
    exact List.isChain_iff_getElem.mp hchain k hlt
  have hmem : ∀ k < 16, (entry k).Sound w := fun k hk => by
    obtain ⟨_, heq⟩ := hentry k hk
    rw [heq]
    exact hsound _ (List.getElem_mem _)
  refine ⟨fun k => (entry k).time, fun k => (entry k).offset, ⟨fun k hk => ?_, fun k hk => ?_,
    fun k hk => (hfollows k hk).within, fun k hk => ?_, fun k hk => ?_⟩, rfl,
    fun k hk => (hfollows k hk).later, fun k hk => ?_⟩
  · have hval := (hmem k hk).absolute
    rwa [← hring k hk] at hval
  · exact (Nat.lt_add_of_pos_right w.interval_pos).trans_le (hfollows k hk).later
  · have hval := (hfollows k hk).grows
    rwa [← hring k (by omega)] at hval
  · have hval := (hmem k hk).bar
    rwa [← hring k hk] at hval
  · have hval := (hmem k hk).bar_le
    rwa [← hring k hk] at hval

theorem Tracks.run {debug : Bool} {w : Plant} {es : List Poll} {s s' : Loop} {past : List Past}
    (h : Tracks w s past) (hes : ∀ e ∈ es, e.Sound w) (hrun : run (Loop.step debug w) s es = some s') :
    ∃ past', Tracks w s' past' ∧ past'.length = past.length + es.length := by
  induction es generalizing s past with
  | nil =>
    rw [run_nil, Option.some.injEq] at hrun
    exact ⟨past, hrun ▸ h, rfl⟩
  | cons e es ih =>
    obtain ⟨s₁, h1, h2⟩ := run_cons_eq_some _ hrun
    obtain ⟨he, hes⟩ := List.forall_mem_cons.mp hes
    obtain ⟨past', htracks, hlen⟩ := ih (h.step he h1) hes h2
    refine ⟨past', htracks, ?_⟩
    rw [hlen, List.length_cons, List.length_cons]
    omega

/-! ## Every full ring -/

/-- The ring that passes 2 to 4 work on at a measurement. -/
def Loop.judged (w : Plant) (s : Loop) (e : Poll) : Ring :=
  PhaseLock.judged w.minDelay (s.sample w e) s.lock

theorem ordered_of_samples {d d' : Ring} {rp : Index} (h : samples d = samples d')
    (hord : Ordered d rp) : Ordered d' rp := by
  have hplace : place d' rp = place d rp := by
    funext p
    rw [place, place, elapsed_of_samples h]
  rw [Ordered, hplace]
  exact hord

/-- How far apart the two possible slopes of one course are at most. -/
theorem course_span {w : Plant} {time : ℕ → ℕ} (h : ∀ k < 15, time (k + 1) + w.interval ≤ time k)
    {k : ℕ} (hk : k ≤ 15) : time k + k * w.interval ≤ time 0 := by
  induction k with
  | zero => omega
  | succ k ih =>
    have hstep := h k hk
    have hrec := ih (by omega)
    rw [add_mul]
    omega

/-- The ring of the sixteenth measurement and of every later one. -/
theorem Tracks.course {w : Plant} {s : Loop} {e : Poll} {past : List Past} (h : Tracks w s past)
    (he : e.Sound w) (hlen : 15 ≤ past.length) :
    ∃ time offset,
      Course (storeSample w.minDelay (s.sample w e) s.lock).ring s.lock.rp w.rate time offset ∧
      offset 0 = s.next w e ∧ (∀ k < 15, time (k + 1) + w.interval ≤ time k) ∧
      ∀ p, point (s.judged w e) s.lock.rp .max p - point (s.judged w e) s.lock.rp .min p ≤
        2 * w.bar := by
  have hrecent := Recent.store w.minDelay (s.sample w e) h.holds.recent
  have hsound : ∀ q ∈ s.entry w e :: past, q.Sound w :=
    List.forall_mem_cons.mpr ⟨s.entry_sound he, h.sound⟩
  obtain ⟨time, offset, hcourse, hoffset, hspaced, hbars⟩ :=
    course_of_past (p := s.entry w e) hrecent hlen (h.chain_cons he) hsound
  refine ⟨time, offset, hcourse, hoffset, hspaced, fun p => ?_⟩
  rw [Loop.judged, PhaseLock.judged, pass1_width]
  exact mul_le_mul_of_nonneg_left (hbars _ (by omega)) (by norm_num)

/-- From the sixteenth measurement on, the course of the clock passes through all the error bars, and
no other line that does differs much from it. -/
theorem Tracks.course_fits {w : Plant} {s : Loop} {e : Poll} {past : List Past} (h : Tracks w s past)
    (he : e.Sound w) (hlen : 15 ≤ past.length) :
    Ordered (s.judged w e) s.lock.rp ∧ Fits (s.judged w e) s.lock.rp (s.course w e) ∧
      ∀ l, Fits (s.judged w e) s.lock.rp l →
        |l.slope - (w.rate - s.freq / 65536)| * (15 * w.interval) ≤ 4 * w.bar := by
  obtain ⟨time, offset, hcourse, hoffset, hspaced, hwidth⟩ := h.course he hlen
  have hord : Ordered (s.judged w e) s.lock.rp :=
    ordered_of_samples (pass1_samples _ _ _).symm hcourse.ordered
  have hfits := hcourse.fits s.freq
  rw [hoffset] at hfits
  refine ⟨hord, hfits, fun l hl => ?_⟩
  have hspan : 15 * (w.interval : ℚ) ≤ -place (s.judged w e) s.lock.rp 0 := by
    rw [place, Loop.judged, PhaseLock.judged, elapsed_of_samples (pass1_samples _ _ _)]
    have hplace := hcourse.place_eq 0
    rw [place] at hplace
    have hle := course_span hspaced le_rfl
    have hcast : (time 15 : ℚ) + 15 * w.interval ≤ time 0 := by exact_mod_cast hle
    rw [hplace, neg_sub]
    exact le_sub_iff_add_le'.mpr hcast
  have hnear := slope_near hord hl hfits
  calc |l.slope - (w.rate - s.freq / 65536)| * (15 * w.interval)
      ≤ |l.slope - (w.rate - s.freq / 65536)| * -place (s.judged w e) s.lock.rp 0 :=
        mul_le_mul_of_nonneg_left hspan (abs_nonneg _)
    _ ≤ _ := hnear
    _ ≤ 2 * w.bar + 2 * w.bar := add_le_add (hwidth newest) (hwidth 0)
    _ = 4 * w.bar := by ring

/-! ## What the box says of the clock -/

/-- A clock that gains 3 µs a second, measured once a minute. -/
def gaining : Plant where
  rate := 3
  minDelay := 100
  interval := 60
  bar := 10
  interval_pos := by decide

def polls : List Poll := (List.range 20).map fun k =>
  { dt := 60 + k, noise := if k % 2 = 0 then 3 else -2, errorbar := if k % 3 = 0 then 104 else 107 }

def poll : Poll := { dt := 64, noise := 1, errorbar := 105 }

theorem poll_sound : poll.Sound gaining where
  interval_le := by decide
  lt := by decide
  noise_le := by decide +kernel
  bar_le := by decide +kernel

theorem polls_sound : ∀ e ∈ polls, e.Sound gaining := by
  intro e he
  obtain ⟨k, hk, rfl⟩ := List.mem_map.mp he
  rw [List.mem_range] at hk
  refine ⟨Nat.le_add_right _ _, ?_, ?_, ?_⟩
  · exact (Nat.add_lt_add_left hk 60).trans (by decide)
  · dsimp only [gaining]
    split_ifs
    all_goals decide +kernel
  · dsimp only [gaining]
    split_ifs
    all_goals decide +kernel

theorem polls_box : ∃ s b, run (Loop.step false gaining) ⟨{}, 0, 1000, 40⟩ polls = some s ∧
    box (s.judged gaining poll) s.lock.rp = some (some b) := by
  have h : ((run (Loop.step false gaining) ⟨{}, 0, 1000, 40⟩ polls).bind fun s =>
      box (s.judged gaining poll) s.lock.rp).join.isSome = true := by decide +kernel
  obtain ⟨b, hb⟩ := Option.isSome_iff_exists.mp h
  obtain ⟨s, hs, hbox⟩ := Option.bind_eq_some_iff.mp (Option.join_eq_some_iff.mp hb)
  exact ⟨s, b, hs, hbox⟩

/-- **The rate of the clock is never outside the box**, and `find_df` never overshoots: it moves the
frequency no further than the clock needs, and never away from the target. -/
theorem rate_in_box {debug : Bool} {w : Plant} {s₀ s : Loop} {es : List Poll} {e : Poll} {b : Box}
    (hstart : s₀.lock = {}) (hrun : run (Loop.step debug w) s₀ es = some s)
    (hes : ∀ e ∈ es, e.Sound w) (he : e.Sound w) (hfull : 15 ≤ es.length)
    (hbox : box (s.judged w e) s.lock.rp = some (some b)) :
    (b.saveMin.slope ≤ w.rate - s.freq / 65536 ∧ w.rate - s.freq / 65536 ≤ b.saveMax.slope) ∧
    (∀ x, OnTarget (faster (s.course w e) x) → |(findDf b.df).1| ≤ |x|) ∧
    (leftEnd (s.next w e) ≤ w.rate - s.freq / 65536 → (findDf b.df).1 ≤ 0) ∧
    (w.rate - s.freq / 65536 ≤ rightEnd (s.next w e) → 0 ≤ (findDf b.df).1) := by
  obtain ⟨past, htracks, hlen⟩ := (Tracks.start w hstart).run hes hrun
  obtain ⟨hord, hfits, -⟩ := htracks.course_fits he (by rw [hlen]; exact hfull.trans (Nat.le_add_left _ _))
  have hexact := box_exact hord hbox ⟨_, hfits⟩
  have hl := hexact.least_nonneg false
  have hr := hexact.least_nonneg true
  refine ⟨⟨hexact.min_slope _ hfits, hexact.max_slope _ hfits⟩,
    fun x hx => (findDf_least hord hbox ⟨_, hfits⟩).1.least _ x hfits hx, fun hleft => ?_, fun hright => ?_⟩
  · have hzero : shift false (s.course w e) = 0 := by
      rw [shift_left]
      exact max_eq_left (sub_nonpos.mpr hleft)
    have hlMin : b.df.lMin = 0 := le_antisymm ((hexact.least_le false _ hfits).trans hzero.le) hl
    have hrMin : 0 ≤ b.df.rMin := hr
    unfold findDf
    rw [if_pos hlMin]
    split
    · exact le_rfl
    · exact neg_nonpos.mpr hrMin
  · have hzero : shift true (s.course w e) = 0 := by
      rw [shift_right]
      exact max_eq_left (sub_nonpos.mpr hright)
    have hrMin : b.df.rMin = 0 := le_antisymm ((hexact.least_le true _ hfits).trans hzero.le) hr
    have hlMin : 0 ≤ b.df.lMin := hl
    unfold findDf
    rw [if_pos hrMin, if_pos hrMin]
    split
    · exact le_rfl
    · exact hlMin

theorem rate_in_box_gaining : ∃ s b, run (Loop.step false gaining) ⟨{}, 0, 1000, 40⟩ polls = some s ∧
    box (s.judged gaining poll) s.lock.rp = some (some b) ∧
    b.saveMin.slope ≤ 3 - s.freq / 65536 ∧ (3 : ℚ) - s.freq / 65536 ≤ b.saveMax.slope := by
  obtain ⟨s, b, hs, hbox⟩ := polls_box
  obtain ⟨hrate, -⟩ := rate_in_box rfl hs polls_sound poll_sound (by decide) hbox
  exact ⟨s, b, hs, hbox, hrate⟩

/-! ## No fault -/

theorem abs_truncate_le (q : ℚ) : |(truncate q : ℚ)| ≤ |q| := by
  unfold truncate
  split
  · next hneg =>
    have hceil : ⌈q⌉ ≤ 0 := Int.ceil_nonpos.mpr hneg.le
    have hceil' : (⌈q⌉ : ℚ) ≤ 0 := by exact_mod_cast hceil
    rw [abs_of_neg hneg, abs_of_nonpos hceil', neg_le_neg_iff]
    exact Int.le_ceil q
  · next hpos =>
    rw [not_lt] at hpos
    have hfloor : (0 : ℚ) ≤ ⌊q⌋ := by exact_mod_cast Int.floor_nonneg.mpr hpos
    rw [abs_of_nonneg hpos, abs_of_nonneg hfloor]
    exact Int.floor_le q

theorem toInt_of_abs_le {n : ℤ} {m : ℚ} (h : |(n : ℚ)| ≤ m) (hm : m < 2 ^ 31) : toInt n = some n := by
  have hlt : |(n : ℚ)| < 2 ^ 31 := h.trans_lt hm
  obtain ⟨hlo, hhi⟩ := abs_lt.mp hlt
  have hlo' : -2 ^ 31 < n := by exact_mod_cast hlo
  have hhi' : n < 2 ^ 31 := by exact_mod_cast hhi
  exact if_pos ⟨hlo'.le, hhi'⟩

theorem abs_clamp_le (freq : ℤ) : |clamp freq| ≤ maxC := by
  have hmax : maxC = 16384000 := by norm_num [maxC]
  simp only [clamp, hmax, abs_le]
  split_ifs
  all_goals omega

/-- With both lines of the box in range the new frequency is an `int`. -/
theorem newFreq_isSome {d : Ring} {rp : Index} {b : Box} {freq : ℤ} (hord : Ordered d rp)
    (hbox : box d rp = some (some b)) (hfit : ∃ l, Fits d rp l) (hmin : |b.saveMin.slope| ≤ 500)
    (hmax : |b.saveMax.slope| ≤ 500) (hfreq : |freq| ≤ maxC) :
    ∃ f, newFreq freq (some b) = some f ∧ |f| ≤ maxC := by
  obtain ⟨part, center, hpart0, hpart1, hcenter, hfind, hoff⟩ :=
    findDfCenter_toward hord hbox hfit (findDf b.df).1
  have hgross : |(findDf b.df).1| ≤ 20 := (findDf_least hord hbox hfit).1.bounded
  have hcenter_le : |center| ≤ 520 := by
    rw [abs_le] at hmin hmax hgross ⊢
    rw [hcenter]
    constructor <;> linarith
  have hmove := abs_nearest_sub_le (1 / 2 * (b.saveMax.offset + b.saveMin.offset)) center
  have hstep : |part * (nearest (1 / 2 * (b.saveMax.offset + b.saveMin.offset)) center - center)| ≤
      522 := by
    rw [abs_mul, abs_of_nonneg hpart0]
    have hpc : part * |center| ≤ |center| := mul_le_of_le_one_left (abs_nonneg _) hpart1
    calc part * |nearest (1 / 2 * (b.saveMax.offset + b.saveMin.offset)) center - center|
        ≤ part * (|center| + |1 / 2 * (b.saveMax.offset + b.saveMin.offset)| / 600) :=
          mul_le_mul_of_nonneg_left hmove hpart0
      _ = part * |center| + part * |1 / 2 * (b.saveMax.offset + b.saveMin.offset)| / 600 := by ring
      _ ≤ 522 := by linarith
  have hdelta : deltaF b = some ((findDf b.df).1 +
      part * (nearest (1 / 2 * (b.saveMax.offset + b.saveMin.offset)) center - center)) := by
    rw [deltaF, hfind]
    rfl
  generalize hD : (findDf b.df).1 +
    part * (nearest (1 / 2 * (b.saveMax.offset + b.saveMin.offset)) center - center) = delta at hdelta
  have hdelta_le : |delta| ≤ 542 := by
    rw [← hD]
    exact (abs_add_le _ _).trans (by linarith)
  have hround : |(truncate (delta * 65536 + 1 / 2) : ℚ)| ≤ 542 * 65536 + 1 / 2 := by
    refine (abs_truncate_le _).trans ((abs_add_le _ _).trans ?_)
    rw [abs_mul, abs_of_pos (show (0 : ℚ) < 65536 by norm_num),
      abs_of_pos (show (0 : ℚ) < 1 / 2 by norm_num)]
    linarith
  have hfreq' : |(freq : ℚ)| ≤ 16384000 := by
    have h : |freq| ≤ 16384000 := hfreq
    exact_mod_cast h
  have hnew : |((freq - truncate (delta * 65536 + 1 / 2) : ℤ) : ℚ)| ≤
      16384000 + (542 * 65536 + 1 / 2) := by
    push_cast
    exact (abs_sub _ _).trans (add_le_add hfreq' hround)
  refine ⟨clamp (freq - truncate (delta * 65536 + 1 / 2)), ?_, abs_clamp_le _⟩
  simp only [newFreq, hdelta, Option.bind_eq_bind, Option.bind_some,
    toInt_of_abs_le hround (by norm_num), toInt_of_abs_le hnew (by norm_num), Option.pure_def]

theorem abs_freq_le {freq : ℤ} (h : |freq| ≤ maxC) : |(freq : ℚ) / 65536| ≤ 250 := by
  have hz : |freq| ≤ 16384000 := h
  have hq : |(freq : ℚ)| ≤ 16384000 := by exact_mod_cast hz
  rw [abs_div, abs_of_pos (show (0 : ℚ) < 65536 by norm_num), div_le_iff₀ (by norm_num)]
  linarith

theorem Tracks.full_length {w : Plant} {s : Loop} {e : Poll} {past : List Past} (h : Tracks w s past)
    (hfull : (storeSample w.minDelay (s.sample w e) s.lock).valid = ringSize) : 15 ≤ past.length := by
  have hvalid := h.holds.valid_store w.minDelay (s.sample w e)
  have hsize : ringSize = 16 := rfl
  rw [List.length_map] at hvalid
  omega

/-- A clock whose rate `MAX_CORRECT` makes good by a margin. -/
def Plant.Correctable (w : Plant) : Prop := 4 * w.bar < (250 - |w.rate|) * (15 * w.interval)

section Correctable
variable {debug : Bool} {w : Plant} {s : Loop} {e : Poll} {past : List Past} (hw : w.Correctable)
    (h : Tracks w s past) (he : e.Sound w) (hfreq : |s.freq| ≤ maxC)
include hw h he hfreq

theorem Tracks.slope_lt (hlen : 15 ≤ past.length) {l : Seg}
    (hl : Fits (s.judged w e) s.lock.rp l) : |l.slope| < 500 := by
  obtain ⟨-, -, hnear⟩ := h.course_fits he hlen
  have hpos : (0 : ℚ) < 15 * w.interval := by
    have := w.interval_pos
    positivity
  have hdiff : |l.slope - (w.rate - s.freq / 65536)| < 250 - |w.rate| :=
    lt_of_mul_lt_mul_right ((hnear l hl).trans_lt hw) hpos.le
  have hrate : |w.rate - s.freq / 65536| ≤ |w.rate| + 250 :=
    (abs_sub _ _).trans (add_le_add le_rfl (abs_freq_le hfreq))
  calc |l.slope| = |l.slope - (w.rate - s.freq / 65536) + (w.rate - s.freq / 65536)| := by
        rw [sub_add_cancel]
    _ ≤ _ := abs_add_le _ _
    _ < 500 := by linarith

theorem Loop.call_isSome :
    ∃ f lock, call w.minDelay (s.sample w e) s.lock = some (f, lock) ∧ |f| ≤ maxC := by
  by_cases hfull : (storeSample w.minDelay (s.sample w e) s.lock).valid = ringSize
  · have hlen := h.full_length hfull
    obtain ⟨hord, hfits, -⟩ := h.course_fits he hlen
    obtain ⟨b, hbox⟩ := box_isSome hord
    cases b with
    | none => exact ⟨s.freq, _, call_of_full hfull hbox rfl, hfreq⟩
    | some b =>
      have hexact := box_exact hord hbox ⟨_, hfits⟩
      obtain ⟨f, hf, hin⟩ := newFreq_isSome hord hbox ⟨_, hfits⟩
        (h.slope_lt hw he hfreq hlen hexact.min_fits).le
        (h.slope_lt hw he hfreq hlen hexact.max_fits).le hfreq
      exact ⟨f, _, call_of_full hfull hbox hf, hin⟩
  · exact ⟨s.freq, _, call_of_few hfull, hfreq⟩

theorem Loop.step_isSome : ∃ s', s.step debug w e = some s' ∧ |s'.freq| ≤ maxC := by
  obtain ⟨f, lock, hcall, hf⟩ := Loop.call_isSome hw h he hfreq
  refine ⟨⟨lock, if debug then s.freq else f, s.time + e.dt, s.next w e⟩, ?_, ?_⟩
  · rw [Loop.step, hcall]
    rfl
  · cases debug
    · exact hf
    · exact hfreq

end Correctable

theorem Tracks.run_isSome {debug : Bool} {w : Plant} (hw : w.Correctable) {es : List Poll} {s : Loop}
    {past : List Past} (h : Tracks w s past) (hfreq : |s.freq| ≤ maxC) (hes : ∀ e ∈ es, e.Sound w) :
    ∃ s', LidarRelay.run (Loop.step debug w) s es = some s' ∧ |s'.freq| ≤ maxC := by
  induction es generalizing s past with
  | nil => exact ⟨s, rfl, hfreq⟩
  | cons e es ih =>
    obtain ⟨he, hes⟩ := List.forall_mem_cons.mp hes
    obtain ⟨s₁, hstep, hs₁⟩ := Loop.step_isSome hw h he hfreq
    obtain ⟨s', hrun, hs'⟩ := ih (h.step he hstep) hs₁ hes
    exact ⟨s', run_trans (run_of_step hstep) hrun, hs'⟩

/-- **The loop never faults** on a clock that it can correct: no division by zero, no conversion
beyond an `int`, and the frequency stays within `MAX_CORRECT`, however long it runs. -/
theorem loop_never_faults (debug : Bool) {w : Plant} (hw : w.Correctable) {s₀ : Loop}
    (hstart : s₀.lock = {}) (hfreq : |s₀.freq| ≤ maxC) {es : List Poll} (hes : ∀ e ∈ es, e.Sound w) :
    ∃ s, run (Loop.step debug w) s₀ es = some s ∧ |s.freq| ≤ maxC :=
  (Tracks.start w hstart).run_isSome hw hfreq hes

theorem gaining_correctable : gaining.Correctable := by
  unfold Plant.Correctable gaining
  decide +kernel

theorem loop_never_faults_gaining :
    ∃ s, run (Loop.step false gaining) ⟨{}, 0, 1000, 40⟩ polls = some s ∧ |s.freq| ≤ maxC :=
  loop_never_faults false gaining_correctable rfl (by decide) polls_sound

/-- **Such a clock is not taken for inconsistent**, unless three ends of the error bars are in one
line. -/
theorem loop_consistent {debug : Bool} {w : Plant} (hw : w.Correctable) {s₀ s : Loop} {es : List Poll}
    {e : Poll} (hstart : s₀.lock = {}) (hfreq : |s₀.freq| ≤ maxC)
    (hrun : run (Loop.step debug w) s₀ es = some s) (hes : ∀ e ∈ es, e.Sound w) (he : e.Sound w)
    (hfull : 15 ≤ es.length) (htied : ∀ sign, ¬ Tied (s.judged w e) s.lock.rp sign) :
    ∃ b, box (s.judged w e) s.lock.rp = some (some b) := by
  obtain ⟨s', hrun', hin⟩ := (Tracks.start w hstart).run_isSome hw hfreq hes
  obtain rfl := Option.some.inj (hrun'.symm.trans hrun)
  obtain ⟨past, htracks, hlen⟩ := (Tracks.start w hstart).run hes hrun
  have hlen' : 15 ≤ past.length := hlen ▸ hfull.trans (Nat.le_add_left _ _)
  obtain ⟨hord, hfits, -⟩ := htracks.course_fits he hlen'
  refine box_of_fits hord ⟨_, hfits⟩ (fun l hl => ?_) htied
  have hslope := htracks.slope_lt hw he hin hlen' hl
  have hrange : 2 * maxCorrect = 500 := by norm_num [maxCorrect]
  rw [InRange, hrange]
  exact abs_lt.mp hslope

theorem polls_untied : ∃ s, run (Loop.step false gaining) ⟨{}, 0, 1000, 40⟩ polls = some s ∧
    ∀ sign, Untied (s.judged gaining poll) s.lock.rp sign := by
  have h : ((run (Loop.step false gaining) ⟨{}, 0, 1000, 40⟩ polls).any fun s =>
      decide (∀ sign, Untied (s.judged gaining poll) s.lock.rp sign)) = true := by decide +kernel
  obtain ⟨s, hs, huntied⟩ := (Option.any_eq_true _ _).mp h
  exact ⟨s, hs, of_decide_eq_true huntied⟩

theorem loop_consistent_gaining : ∃ s b,
    run (Loop.step false gaining) ⟨{}, 0, 1000, 40⟩ polls = some s ∧
    box (s.judged gaining poll) s.lock.rp = some (some b) := by
  obtain ⟨s, hs, huntied⟩ := polls_untied
  obtain ⟨b, hb⟩ := loop_consistent gaining_correctable rfl (by decide) hs polls_sound poll_sound
    (by decide) fun sign => (huntied sign).not_tied
  exact ⟨s, b, hs, hb⟩

/-! ## Measurements without an error -/

section Exact
variable {debug : Bool} {w : Plant} {s : Loop} {e : Poll} {past : List Past} (h : Tracks w s past)
    (he : e.Sound w) (hbar : w.bar = 0)
include h he hbar

theorem Tracks.box_flat (hlen : 15 ≤ past.length) : box (s.judged w e) s.lock.rp = some none := by
  obtain ⟨_, _, -, -, -, hwidth⟩ := h.course he hlen
  obtain ⟨hord, -, -⟩ := h.course_fits he hlen
  obtain ⟨b, hbox⟩ := box_isSome hord
  have hnone : b = none := box_of_flat hord (fun p => by
    have hp := hwidth p
    rw [hbar, mul_zero, sub_nonpos] at hp
    exact hp) hbox
  exact hnone ▸ hbox

theorem Loop.call_exact :
    ∃ lock, call w.minDelay (s.sample w e) s.lock = some (s.freq, lock) := by
  by_cases hfull : (storeSample w.minDelay (s.sample w e) s.lock).valid = ringSize
  · exact ⟨_, call_of_full hfull (h.box_flat he hbar (h.full_length hfull)) rfl⟩
  · exact ⟨_, call_of_few hfull⟩

theorem Loop.step_exact : ∃ s', s.step debug w e = some s' ∧ s'.freq = s.freq := by
  obtain ⟨lock, hcall⟩ := Loop.call_exact h he hbar
  refine ⟨⟨lock, if debug then s.freq else s.freq, s.time + e.dt, s.next w e⟩, ?_, ite_self _⟩
  rw [Loop.step, hcall]
  rfl

end Exact

theorem Tracks.run_exact {debug : Bool} {w : Plant} (hbar : w.bar = 0) {es : List Poll} {s : Loop}
    {past : List Past} (h : Tracks w s past) (hes : ∀ e ∈ es, e.Sound w) :
    ∃ s', LidarRelay.run (Loop.step debug w) s es = some s' ∧ s'.freq = s.freq := by
  induction es generalizing s past with
  | nil => exact ⟨s, rfl, rfl⟩
  | cons e es ih =>
    obtain ⟨he, hes⟩ := List.forall_mem_cons.mp hes
    obtain ⟨s₁, hstep, hs₁⟩ : ∃ s₁, s.step debug w e = some s₁ ∧ s₁.freq = s.freq :=
      Loop.step_exact h he hbar
    obtain ⟨s', hrun, hs'⟩ := ih (h.step he hstep) hes
    exact ⟨s', run_trans (run_of_step hstep) hrun, hs'.trans hs₁⟩

/-- **A clock that is measured without error is never corrected**: with every error bar equal to
`min_delay` there is no box at the sixteenth measurement or a later one, and the frequency stays,
however fast the clock runs away. -/
theorem exact_never_corrected (debug : Bool) {w : Plant} (hbar : w.bar = 0) {s₀ : Loop}
    (hstart : s₀.lock = {}) {es : List Poll} (hes : ∀ e ∈ es, e.Sound w) :
    ∃ s, run (Loop.step debug w) s₀ es = some s ∧ s.freq = s₀.freq ∧
      (15 ≤ es.length → ∀ e : Poll, e.Sound w → box (s.judged w e) s.lock.rp = some none) := by
  obtain ⟨s, hrun, hfreq⟩ := @Tracks.run_exact debug w hbar es s₀ [] (.start w hstart) hes
  obtain ⟨past, htracks, hlen⟩ := (Tracks.start w hstart).run hes hrun
  refine ⟨s, hrun, hfreq, fun hfull e he => ?_⟩
  exact htracks.box_flat he hbar (hlen ▸ hfull.trans (Nat.le_add_left _ _))

/-- The same clock, measured without error. -/
def exact : Plant := { gaining with bar := 0 }

theorem exact_never_corrected_gaining : ∃ s, run (Loop.step false exact) ⟨{}, 0, 1000, 40⟩
    (List.replicate 20 { dt := 60, noise := 0, errorbar := 100 }) = some s ∧ s.freq = 0 ∧
    box (s.judged exact { dt := 60, noise := 0, errorbar := 100 }) s.lock.rp = some none := by
  have hsound : ({ dt := 60, noise := 0, errorbar := 100 } : Poll).Sound exact :=
    ⟨by decide, by decide, by decide +kernel, by decide +kernel⟩
  obtain ⟨s, hs, hfreq, hnone⟩ := @exact_never_corrected false exact rfl ⟨{}, 0, 1000, 40⟩ rfl
    (List.replicate 20 { dt := 60, noise := 0, errorbar := 100 })
    fun e he => List.eq_of_mem_replicate he ▸ hsound
  exact ⟨s, hs, hfreq, hnone (by decide) _ hsound⟩

end LidarRelay.PhaseLock
