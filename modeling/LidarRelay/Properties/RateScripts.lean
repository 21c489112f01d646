import LidarRelay.Programs.RateScripts

/-! # What the scripts make of a log

The log is that of a clock with a constant rate, which `ntpclient` has measured with some error and
whose frequency it may have changed. Both scripts find the frequency that makes up for the rate, as
far as the frequency was constant.
-/

namespace LidarRelay.RateScripts
open NtpClient Rate2
set_option autoImplicit false
set_option maxHeartbeats 250000

/-! ## The log -/

/-- A line, and how much the clock was really off. -/
structure Entry where
  line : LogLine
  offset : ℚ

def Entry.noise (e : Entry) : ℚ := e.line.skew - e.offset

/-- From one line to the next: the frequency that is printed with a line is the one that the clock
has run at since the line before. -/
def Grows (rate : ℚ) (a b : Entry) : Prop :=
  b.offset = a.offset + (time b.line - time a.line) * (rate - b.line.freq / 65536)

instance (rate : ℚ) (a b : Entry) : Decidable (Grows rate a b) := inferInstanceAs (Decidable (_ = _))

/-- A clock that gains 3 µs a second, and whose frequency goes up by `step` parts in a million after
every line. -/
def logged (step k : ℕ) : Entry :=
  let offset : ℚ := 600 * (3 * k - step * (k * (k + 1)) / 2)
  { line := { day := 0, sec := 600 * k, elTime := 1000,
              skew := offset + if k % 2 = 0 then 1 else -1, disp := 5, freq := 65536 * step * k },
    offset }

def beforeOf (l : LogLine) : Before := ⟨time l, l.skew, l.freq⟩

/-! ## All that one line can do -/

/-- How a line counts. -/
structure Counts (b : Before) (l : LogLine) (s s' : Rate2) : Prop where
  tdmin_le : tdmin ≤ time l - b.t1
  le_tdmax : time l - b.t1 ≤ tdmax
  before : s'.before = some (beforeOf l)
  c : s'.c = s.c + 1
  ignored : s'.ignored = s.ignored
  deltaO : s'.deltaO = s.deltaO + (l.skew - b.o1)
  deltaT : s'.deltaT = s.deltaT + (time l - b.t1)
  sumF2 : s'.sumF2 = s.sumF2 + (b.f1 * (time l - b.t1) + 65536 * (l.skew - b.o1))
  extremes : ∃ f2, f2 * (time l - b.t1) = b.f1 * (time l - b.t1) + 65536 * (l.skew - b.o1) ∧
    (∃ m, s'.minF2 = some m ∧ m ≤ f2 ∧ ∀ m' ∈ s.minF2, m ≤ m') ∧
    ∃ m, s'.maxF2 = some m ∧ f2 ≤ m ∧ ∀ m' ∈ s.maxF2, m' ≤ m

/-- What an ignored line leaves alone. -/
structure Ignores (l : LogLine) (s s' : Rate2) : Prop where
  before : s'.before = some (beforeOf l)
  c : s'.c = s.c
  ignored : s'.ignored = s.ignored + 1
  deltaO : s'.deltaO = s.deltaO
  deltaT : s'.deltaT = s.deltaT
  sumF2 : s'.sumF2 = s.sumF2
  minF2 : s'.minF2 = s.minF2
  maxF2 : s'.maxF2 = s.maxF2

theorem tdmin_pos : 0 < tdmin := by norm_num [tdmin, interval, tderr]

theorem count_minF2 (td od f2 : ℚ) (s : Rate2) :
    ∃ m, (s.count td od f2).minF2 = some m ∧ m ≤ f2 ∧ ∀ m' ∈ s.minF2, m ≤ m' := by
  refine ⟨_, rfl, ?_⟩
  cases hs : s.minF2 with
  | none => exact ⟨le_rfl, fun m' hm' => nomatch hm'⟩
  | some m =>
    refine ⟨?_, fun m' hm' => ?_⟩
    · dsimp only
      split
      · exact le_rfl
      · next hge => exact not_lt.mp hge
    · obtain rfl := Option.some.inj hm'
      dsimp only
      split
      · next hlt => exact hlt.le
      · exact le_rfl

theorem count_maxF2 (td od f2 : ℚ) (s : Rate2) :
    ∃ m, (s.count td od f2).maxF2 = some m ∧ f2 ≤ m ∧ ∀ m' ∈ s.maxF2, m' ≤ m := by
  refine ⟨_, rfl, ?_⟩
  cases hs : s.maxF2 with
  | none => exact ⟨le_rfl, fun m' hm' => nomatch hm'⟩
  | some m =>
    refine ⟨?_, fun m' hm' => ?_⟩
    · dsimp only
      split
      · exact le_rfl
      · next hge => exact not_lt.mp hge
    · obtain rfl := Option.some.inj hm'
      dsimp only
      split
      · next hlt => exact hlt.le
      · exact le_rfl

theorem line_first {s : Rate2} (h : s.before = none) (l : LogLine) :
    s.line l = { s.remember l with c := s.c + 1 } := by
  rw [Rate2.line, h]

theorem line_cases {s : Rate2} {b : Before} (h : s.before = some b) (l : LogLine) :
    Ignores l s (s.line l) ∨ Counts b l s (s.line l) := by
  have hline : s.line l = (s.weigh b l).remember l := by rw [Rate2.line, h]
  rw [hline]
  have hignore : Ignores l s (s.ignore.remember l) := ⟨rfl, rfl, rfl, rfl, rfl, rfl, rfl, rfl⟩
  unfold weigh
  dsimp only
  by_cases hdelay : l.elTime > ntpDelay
  · rw [if_pos hdelay]
    exact .inl hignore
  · rw [if_neg hdelay]
    by_cases hout : time l - b.t1 < tdmin ∨ time l - b.t1 > tdmax
    · rw [if_pos hout]
      exact .inl hignore
    · rw [if_neg hout]
      rw [not_or, not_lt, gt_iff_lt, not_lt] at hout
      by_cases hfar : |(b.f1 + 65536 * (l.skew - b.o1) / (time l - b.t1) : ℚ) -
          s.prevF2.getD (b.f1 + 65536 * (l.skew - b.o1) / (time l - b.t1))| > freqDiff
      · rw [if_pos hfar]
        exact .inl ⟨rfl, rfl, rfl, rfl, rfl, rfl, rfl, rfl⟩
      · rw [if_neg hfar]
        have hpos : 0 < time l - b.t1 := tdmin_pos.trans_le hout.1
        have hf2 : (b.f1 + 65536 * (l.skew - b.o1) / (time l - b.t1)) * (time l - b.t1) =
            b.f1 * (time l - b.t1) + 65536 * (l.skew - b.o1) := by
          rw [add_mul, div_mul_cancel₀ _ hpos.ne']
        exact .inr ⟨hout.1, hout.2, rfl, rfl, rfl, rfl, rfl, congrArg (s.sumF2 + ·) hf2, _, hf2,
          count_minF2 (time l - b.t1) (l.skew - b.o1) _ s,
          count_maxF2 (time l - b.t1) (l.skew - b.o1) _ s⟩

/-! ## The average -/

theorem foldl_measured (ls : List LogLine) (s : Rate2) :
    (ls.map Row.measured).foldl Rate2.row s = ls.foldl Rate2.line s := List.foldl_map

/-- How many lines with a number come first or after a rejected packet; `fresh` when the next one
does. -/
def starts : Bool → List Row → ℕ
  | _, [] => 0
  | fresh, .measured _ :: rows => fresh.toNat + starts false rows
  | fresh, .rejected :: rows => fresh.toNat + starts true rows
  | fresh, .remark :: rows => starts fresh rows

/-- What holds of the sums after any rows, of which `k` have been a start. -/
structure Weighed (k : ℕ) (s : Rate2) : Prop where
  counted : k ≤ s.c
  least : (s.c - k : ℚ) * tdmin ≤ s.deltaT
  most : s.deltaT ≤ (s.c - k : ℚ) * tdmax
  bounds : s.deltaT = 0 ∧ s.sumF2 = 0 ∧ s.minF2 = none ∧ s.maxF2 = none ∨
    ∃ m m', s.minF2 = some m ∧ s.maxF2 = some m' ∧ m * s.deltaT ≤ s.sumF2 ∧
      s.sumF2 ≤ m' * s.deltaT

theorem Weighed.empty : Weighed 0 {} where
  counted := le_rfl
  least := by simp
  most := by simp
  bounds := .inl ⟨rfl, rfl, rfl, rfl⟩

section Row
variable {k : ℕ} {s : Rate2} (h : Weighed k s)
include h

/-- A start is counted, but there is no interval before it. -/
theorem Weighed.start {before : Option Before} :
    Weighed (k + 1) { s with before, c := s.c + 1 } where
  counted := Nat.add_le_add_right h.counted 1
  least := by
    push_cast
    rw [add_sub_add_right_eq_sub]
    exact h.least
  most := by
    push_cast
    rw [add_sub_add_right_eq_sub]
    exact h.most
  bounds := h.bounds

theorem Weighed.deltaT_nonneg : 0 ≤ s.deltaT := by
  have hk : (k : ℚ) ≤ s.c := by exact_mod_cast h.counted
  exact (mul_nonneg (sub_nonneg.mpr hk) tdmin_pos.le).trans h.least

theorem Weighed.ignores {l : LogLine} {s' : Rate2} (hig : Ignores l s s') : Weighed k s' where
  counted := hig.c ▸ h.counted
  least := by
    rw [hig.c, hig.deltaT]
    exact h.least
  most := by
    rw [hig.c, hig.deltaT]
    exact h.most
  bounds := by
    rw [hig.deltaT, hig.sumF2, hig.minF2, hig.maxF2]
    exact h.bounds

theorem Weighed.counts {b : Before} {l : LogLine} {s' : Rate2} (hco : Counts b l s s') :
    Weighed k s' := by
  have hlo := hco.tdmin_le
  have hhi := hco.le_tdmax
  have hpos : 0 < time l - b.t1 := tdmin_pos.trans_le hlo
  refine ⟨?_, ?_, ?_, .inr ?_⟩
  · rw [hco.c]
    exact h.counted.trans (Nat.le_succ _)
  · rw [hco.c, hco.deltaT]
    push_cast
    linarith [h.least]
  · rw [hco.c, hco.deltaT]
    push_cast
    linarith [h.most]
  · obtain ⟨f2, hf2, ⟨m, hm, hmf, hmold⟩, ⟨m', hm', hmf', hmold'⟩⟩ := hco.extremes
    have hlow := mul_le_mul_of_nonneg_right hmf hpos.le
    have hhigh := mul_le_mul_of_nonneg_right hmf' hpos.le
    refine ⟨m, m', hm, hm', ?_⟩
    rw [hco.deltaT, hco.sumF2, ← hf2, mul_add, mul_add]
    obtain ⟨hzero, hsum, -, -⟩ | ⟨n, n', hn, hn', hsum, hsum'⟩ := h.bounds
    · rw [hzero, hsum, mul_zero, mul_zero, zero_add]
      exact ⟨by linarith, by linarith⟩
    · have hold := mul_le_mul_of_nonneg_right (hmold n hn) h.deltaT_nonneg
      have hold' := mul_le_mul_of_nonneg_right (hmold' n' hn') h.deltaT_nonneg
      exact ⟨by linarith, by linarith⟩

/-- One row; the lines that are neither a start nor counted are the ignored ones. -/
theorem Weighed.row (r : Row) :
    (numbered r = false ∧ s.row r = s) ∨
    (numbered r = true ∧ Weighed (k + s.before.isNone.toNat) (s.row r) ∧
      (s.row r).c + (s.row r).ignored = s.c + s.ignored + 1 ∧
      ∀ rows, starts s.before.isNone (r :: rows) =
        s.before.isNone.toNat + starts (s.row r).before.isNone rows) := by
  cases r with
  | remark => exact .inl ⟨rfl, rfl⟩
  | measured l =>
    refine .inr ⟨rfl, ?_⟩
    cases hb : s.before with
    | none =>
      have hrow : s.row (.measured l) = { s.remember l with c := s.c + 1 } := line_first hb l
      rw [hrow]
      exact ⟨h.start, Nat.add_right_comm _ _ _, fun rows => rfl⟩
    | some b =>
      obtain hig | hco := line_cases hb l
      · refine ⟨h.ignores hig, ?_, fun rows => ?_⟩
        · rw [Rate2.row, hig.c, hig.ignored]
          omega
        · rw [Rate2.row, hig.before]
          rfl
      · refine ⟨h.counts hco, ?_, fun rows => ?_⟩
        · rw [Rate2.row, hco.c, hco.ignored]
          omega
        · rw [Rate2.row, hco.before]
          rfl
  | rejected =>
    refine .inr ⟨rfl, ?_⟩
    cases hb : s.before with
    | none =>
      have hrow : s.row .rejected = { s with c := s.c + 1 } := by rw [Rate2.row, hb]
      rw [hrow]
      refine ⟨h.start, Nat.add_right_comm _ _ _, fun rows => ?_⟩
      rw [hb]
      rfl
    | some b =>
      have hrow : s.row .rejected = { s.ignore with before := none } := by rw [Rate2.row, hb]
      rw [hrow]
      exact ⟨⟨h.counted, h.least, h.most, h.bounds⟩, rfl, fun rows => rfl⟩

end Row

theorem Weighed.rows {k : ℕ} {s : Rate2} (h : Weighed k s) (rows : List Row) :
    Weighed (k + starts s.before.isNone rows) (rows.foldl Rate2.row s) ∧
      (rows.foldl Rate2.row s).c + (rows.foldl Rate2.row s).ignored =
        s.c + s.ignored + rows.countP numbered := by
  induction rows generalizing k s with
  | nil => exact ⟨h, rfl⟩
  | cons r rows ih =>
    obtain ⟨hno, heq⟩ | ⟨hyes, hrow, hcount, hstarts⟩ := h.row r
    · have hremark : r = .remark := by
        cases r with
        | remark => rfl
        | measured l => cases hno
        | rejected => cases hno
      rw [List.foldl_cons, heq, List.countP_cons_of_neg (by rw [hno]; exact Bool.false_ne_true), hremark]
      exact ih h
    · obtain ⟨hrest, hcount'⟩ := ih hrow
      rw [List.foldl_cons, List.countP_cons_of_pos hyes, hstarts, ← Nat.add_assoc]
      refine ⟨hrest, ?_⟩
      rw [hcount', hcount]
      omega

/-- **`rate2.awk` averages**: every line with a number is counted or ignored, what is counted are
starts and intervals of about ten minutes each, and the frequency before the rounding is between the
least and the greatest that one of the intervals asks for. -/
theorem rate2_average (rows : List Row) :
    let s := rows.foldl Rate2.row {}
    let k := starts true rows
    s.c + s.ignored = rows.countP numbered ∧ k ≤ s.c ∧
      (s.c - k : ℚ) * tdmin ≤ s.deltaT ∧ s.deltaT ≤ (s.c - k : ℚ) * tdmax ∧
      (tdmin ≤ s.deltaT → ∃ m m', s.minF2 = some m ∧ s.maxF2 = some m' ∧
        m ≤ s.sumF2 / s.deltaT ∧ s.sumF2 / s.deltaT ≤ m') := by
  intro s k
  obtain ⟨hw, hcount⟩ := Weighed.empty.rows rows
  have hk : 0 + starts (({} : Rate2).before.isNone) rows = k := Nat.zero_add _
  rw [hk] at hw
  refine ⟨?_, hw.counted, hw.least, hw.most, fun hlong => ?_⟩
  · rw [show s.c + s.ignored = _ from hcount]
    exact Nat.zero_add _
  · have hpos : 0 < s.deltaT := tdmin_pos.trans_le hlong
    obtain ⟨hzero, -⟩ | ⟨m, m', hm, hm', hlow, hhigh⟩ := hw.bounds
    · exact absurd hzero hpos.ne'
    · exact ⟨m, m', hm, hm', (le_div_iff₀ hpos).mpr hlow, (div_le_iff₀ hpos).mpr hhigh⟩

/-- A rejected packet before the first measurement, and one after the second: five lines count, but
three of them are starts. -/
def interrupted : List Row := [.rejected, .measured (logged 1 0).line, .remark,
  .measured (logged 1 1).line, .rejected, .measured (logged 1 3).line, .measured (logged 1 4).line]

theorem rate2_average_interrupted :
    let s := interrupted.foldl Rate2.row {}
    s.c + s.ignored = 6 ∧ s.deltaT ≤ (s.c - 3 : ℚ) * tdmax ∧ ∃ m m', s.minF2 = some m ∧
      s.maxF2 = some m' ∧ m ≤ s.sumF2 / s.deltaT ∧ s.sumF2 / s.deltaT ≤ m' := by
  obtain ⟨hcount, -, -, hmost, h⟩ := rate2_average interrupted
  exact ⟨hcount, hmost, h (by decide +kernel)⟩

/-! ## The error -/

theorem abs_truncate_sub_lt (q : ℚ) : |(truncate q : ℚ) - q| < 1 := by
  rw [abs_lt]
  unfold truncate
  split
  · exact ⟨by linarith [Int.le_ceil q], by linarith [Int.ceil_lt_add_one q]⟩
  · exact ⟨by linarith [Int.lt_floor_add_one q], by linarith [Int.floor_le q]⟩

section Log
variable {rate bar step : ℚ}

/-- What one interval asks for, against what the clock needs. -/
theorem Grows.asks {a b : Entry} (h : Grows rate a b) :
    a.line.freq * (time b.line - time a.line) + 65536 * (b.line.skew - a.line.skew) -
        65536 * rate * (time b.line - time a.line) =
      65536 * (b.noise - a.noise) - (b.line.freq - a.line.freq) * (time b.line - time a.line) := by
  have hskew : ∀ e : Entry, e.line.skew = e.offset + e.noise := fun e => (add_sub_cancel _ _).symm
  rw [hskew a, hskew b, show b.offset = _ from h]
  ring

theorem sums_near {a : Entry} {es : List Entry} (hlog : (a :: es).IsChain (Grows rate))
    (hnoise : ∀ e ∈ a :: es, |e.noise| ≤ bar)
    (hstep : (a :: es).IsChain fun a b => |(b.line.freq : ℚ) - a.line.freq| ≤ step) {s : Rate2}
    (hb : s.before = some (beforeOf a.line))
    (hs : |s.sumF2 - 65536 * rate * s.deltaT| ≤ (step + 65536 * (2 * bar) / tdmin) * s.deltaT) :
    let s' := (es.map Entry.line).foldl Rate2.line s
    |s'.sumF2 - 65536 * rate * s'.deltaT| ≤ (step + 65536 * (2 * bar) / tdmin) * s'.deltaT := by
  induction es generalizing a s with
  | nil => exact hs
  | cons b es ih =>
    rw [List.isChain_cons_cons] at hlog hstep
    obtain ⟨ha, hnoise⟩ := List.forall_mem_cons.mp hnoise
    have hbar := hnoise b List.mem_cons_self
    rw [List.map_cons, List.foldl_cons]
    obtain hig | hco := line_cases hb b.line
    · apply ih hlog.2 hnoise hstep.2 hig.before
      rw [hig.sumF2, hig.deltaT]
      exact hs
    · apply ih hlog.2 hnoise hstep.2 hco.before
      have htd : tdmin ≤ time b.line - time a.line := hco.tdmin_le
      have hpos : 0 < time b.line - time a.line := tdmin_pos.trans_le htd
      have hdiff : |b.noise - a.noise| ≤ 2 * bar :=
        (abs_sub _ _).trans ((add_le_add hbar ha).trans_eq (two_mul bar).symm)
      have hbar0 : 0 ≤ 65536 * (2 * bar) := by
        have := (abs_nonneg _).trans hdiff
        linarith
      have hnoisy : 65536 * |b.noise - a.noise| ≤
          65536 * (2 * bar) / tdmin * (time b.line - time a.line) :=
        calc 65536 * |b.noise - a.noise| ≤ 65536 * (2 * bar) := by linarith
          _ = 65536 * (2 * bar) / tdmin * tdmin := (div_mul_cancel₀ _ tdmin_pos.ne').symm
          _ ≤ _ := mul_le_mul_of_nonneg_left htd (div_nonneg hbar0 tdmin_pos.le)
      have hlate : |((b.line.freq : ℚ) - a.line.freq) * (time b.line - time a.line)| ≤
          step * (time b.line - time a.line) := by
        rw [abs_mul, abs_of_pos hpos]
        exact mul_le_mul_of_nonneg_right hstep.1 hpos.le
      have hone : |65536 * (b.noise - a.noise) -
          (b.line.freq - a.line.freq) * (time b.line - time a.line)| ≤
          (step + 65536 * (2 * bar) / tdmin) * (time b.line - time a.line) := by
        apply (abs_sub _ _).trans
        rw [abs_mul, abs_of_pos (show (0 : ℚ) < 65536 by norm_num), add_mul]
        linarith
      rw [← hlog.1.asks] at hone
      rw [hco.sumF2, hco.deltaT, mul_add, mul_add]
      calc _ = |(s.sumF2 - 65536 * rate * s.deltaT) + (a.line.freq * (time b.line - time a.line) +
            65536 * (b.line.skew - a.line.skew) - 65536 * rate * (time b.line - time a.line))| := by
            congr 1
            simp only [beforeOf]
            ring
        _ ≤ _ := (abs_add_le _ _).trans (add_le_add hs hone)

/-- **`rate2.awk` finds the frequency** that makes up for the rate of the clock, up to the noise over
ten minutes, the greatest change of frequency from one line to the next, and the rounding, whatever
lines are ignored. -/
theorem rate2_near {a : Entry} {es : List Entry} (hlog : (a :: es).IsChain (Grows rate))
    (hnoise : ∀ e ∈ a :: es, |e.noise| ≤ bar)
    (hstep : (a :: es).IsChain fun a b => |(b.line.freq : ℚ) - a.line.freq| ≤ step) {f : ℤ}
    (h : rate2 ((a :: es).map Entry.line) = some f) :
    |f - 65536 * rate| < step + 65536 * (2 * bar) / tdmin + 3 / 2 := by
  have hsums := sums_near hlog hnoise hstep (s := ({} : Rate2).line a.line) rfl (by
    simp [line_first, Rate2.remember])
  rw [List.map_cons, rate2, List.foldl_cons] at h
  dsimp only at h hsums
  split at h
  · next hlong =>
    obtain rfl := Option.some.inj h
    have hpos := tdmin_pos.trans_le hlong
    have hmean := div_le_div_of_nonneg_right hsums hpos.le
    rw [mul_div_assoc, div_self hpos.ne', mul_one, ← abs_of_pos hpos, ← abs_div, abs_of_pos hpos,
      sub_div, mul_div_assoc, div_self hpos.ne', mul_one] at hmean
    have hround := abs_lt.mp (abs_truncate_sub_lt
      (((es.map Entry.line).foldl Rate2.line (({} : Rate2).line a.line)).sumF2 /
        ((es.map Entry.line).foldl Rate2.line (({} : Rate2).line a.line)).deltaT + 1 / 2))
    rw [abs_le] at hmean
    rw [abs_lt]
    constructor
    · linarith [hmean.1, hround.1]
    · linarith [hmean.2, hround.2]
  · cases h

end Log

theorem rate2_near_logged :
    |((rate2 ((logged 1 0 :: [logged 1 1, logged 1 2, logged 1 3]).map Entry.line)).getD 0 : ℚ) -
      65536 * 3| < 65536 + 65536 * (2 * 1) / tdmin + 3 / 2 := by
  have h : rate2 ((logged 1 0 :: [logged 1 1, logged 1 2, logged 1 3]).map Entry.line) =
      some 130999 := by decide +kernel
  rw [h]
  exact rate2_near (by decide +kernel) (by decide +kernel) (by decide +kernel) h

/-! ## Where nothing is ignored -/

theorem ignored_le (ls : List LogLine) {s : Rate2} (h : s.before ≠ none) :
    s.ignored ≤ (ls.foldl Rate2.line s).ignored := by
  induction ls generalizing s with
  | nil => exact le_rfl
  | cons l ls ih =>
    obtain ⟨b, hb⟩ := Option.ne_none_iff_exists'.mp h
    rw [List.foldl_cons]
    obtain hig | hco := line_cases hb l
    · refine le_trans ?_ (ih (hig.before ▸ Option.some_ne_none _))
      rw [hig.ignored]
      exact Nat.le_succ _
    · exact hco.ignored.ge.trans (ih (hco.before ▸ Option.some_ne_none _))

theorem counts_of_all {b : Before} {l : LogLine} {ls : List LogLine} {s : Rate2}
    (hb : s.before = some b) (h : ((l :: ls).foldl Rate2.line s).ignored = s.ignored) :
    Counts b l s (s.line l) := by
  obtain hig | hco := line_cases hb l
  · have hle := ignored_le ls (s := s.line l) (hig.before ▸ Option.some_ne_none _)
    rw [List.foldl_cons] at h
    rw [h, hig.ignored] at hle
    omega
  · exact hco

/-- The frequencies of the lines, each weighed with the interval after it. -/
def weighted : Before → List LogLine → ℚ
  | _, [] => 0
  | b, l :: ls => b.f1 * (time l - b.t1) + weighted (beforeOf l) ls

/-- All intervals count, and the skews in between cancel. -/
theorem sums_eq {b : Before} {ls : List LogLine} {s : Rate2} (hb : s.before = some b)
    (h : (ls.foldl Rate2.line s).ignored = s.ignored) :
    (ls.foldl Rate2.line s).deltaT = s.deltaT + ((ls.map time).getLastD b.t1 - b.t1) ∧
      (ls.foldl Rate2.line s).sumF2 = s.sumF2 + weighted b ls +
        65536 * ((ls.map LogLine.skew).getLastD b.o1 - b.o1) := by
  induction ls generalizing s b with
  | nil => simp [weighted]
  | cons l ls ih =>
    have hco := counts_of_all hb h
    rw [List.foldl_cons] at h ⊢
    obtain ⟨hT, hF⟩ := ih hco.before (h.trans hco.ignored.symm)
    rw [hT, hF, hco.deltaT, hco.sumF2, List.map_cons, List.map_cons, List.getLastD_cons,
      List.getLastD_cons, weighted]
    simp only [beforeOf]
    exact ⟨by ring, by ring⟩

theorem weighted_const {b : Before} {ls : List LogLine} (h : ∀ l ∈ ls, l.freq = b.f1) :
    weighted b ls = b.f1 * ((ls.map time).getLastD b.t1 - b.t1) := by
  induction ls generalizing b with
  | nil => simp [weighted]
  | cons l ls ih =>
    obtain ⟨hl, hls⟩ := List.forall_mem_cons.mp h
    have hrest := ih (b := beforeOf l) fun l' hl' => (hls l' hl').trans hl.symm
    rw [weighted, hrest, List.map_cons, List.getLastD_cons]
    simp only [beforeOf, hl]
    ring

/-! ## `rate.awk` -/

/-- What the variables are after line `l`, where `l₀` was the first. -/
structure Ends (l₀ l : LogLine) (s : Rate) : Prop where
  dayOff : s.dayOff = l₀.day
  f1 : s.f1 = l₀.freq
  o1 : s.o1 = l₀.skew
  span : s.t2 - s.t1 = time l - time l₀
  o2 : s.o2 = l.skew

theorem Ends.line {l₀ l : LogLine} {s : Rate} (h : s.dayOff = l₀.day) (hf : s.f1 = l₀.freq)
    (ho : s.o1 = l₀.skew) (ht : s.t1 = l₀.sec) : Ends l₀ l (s.line l) := by
  refine ⟨h, hf, ho, ?_, rfl⟩
  rw [show (s.line l).t2 = (l.day - s.dayOff : ℤ) * 86400 + l.sec from rfl,
    show (s.line l).t1 = s.t1 from rfl, h, ht, time, time]
  push_cast
  ring

theorem rate_lines (l₀ : LogLine) (ls : List LogLine) :
    let s := ls.foldl Rate.line (Rate.first l₀)
    s.t1 = l₀.sec ∧ Ends l₀ (ls.getLastD l₀) s ∧ (s.fwarn = false → ∀ l ∈ ls, l.freq = l₀.freq) := by
  induction ls using List.reverseRecOn with
  | nil =>
    refine ⟨rfl, ⟨rfl, rfl, rfl, ?_, rfl⟩, fun _ l hl => absurd hl List.not_mem_nil⟩
    exact (sub_self _).trans (sub_self _).symm
  | append_singleton ls l ih =>
    obtain ⟨ht, hends, hwarn⟩ := ih
    dsimp only
    rw [List.foldl_append, List.getLastD_concat]
    refine ⟨ht, Ends.line hends.dayOff hends.f1 hends.o1 ht, fun hfalse l' hl' => ?_⟩
    obtain ⟨hno, hsame⟩ := Bool.or_eq_false_iff.mp hfalse
    rcases List.mem_append.mp hl' with hmem | hmem
    · exact hwarn hno l' hmem
    · rw [List.mem_singleton.mp hmem]
      exact (not_not.mp (of_decide_eq_false hsame)).trans hends.f1

theorem rate_eq {l₀ : LogLine} {ls : List LogLine} {f3 : ℤ}
    (h : rate (l₀ :: ls) = some (f3, false)) :
    time (ls.getLastD l₀) - time l₀ ≠ 0 ∧ (∀ l ∈ ls, l.freq = l₀.freq) ∧
      f3 = l₀.freq + truncate (((ls.getLastD l₀).skew - l₀.skew) /
        (time (ls.getLastD l₀) - time l₀) * 65536) := by
  obtain ⟨-, hends, hwarn⟩ := rate_lines l₀ ls
  unfold rate at h
  dsimp only at h hends hwarn
  split at h
  · cases h
  · next hne =>
    obtain ⟨hf3, hno⟩ := Prod.mk.inj (Option.some.inj h)
    rw [hends.span] at hne
    rw [hends.span, hends.o2, hends.o1, hends.f1] at hf3
    exact ⟨hne, hwarn hno, hf3.symm⟩

/-- **The two scripts agree** on a log that `rate.awk` takes without a warning and of which
`rate2.awk` ignores no line, up to the ways in which they round. -/
theorem rate2_agrees {l₀ : LogLine} {ls : List LogLine} {f3 f : ℤ}
    (h : rate (l₀ :: ls) = some (f3, false)) (h2 : rate2 (l₀ :: ls) = some f)
    (hall : ((l₀ :: ls).foldl Rate2.line {}).ignored = 0) : |f - f3| ≤ 2 := by
  obtain ⟨hne, hconst, rfl⟩ := rate_eq h
  rw [List.foldl_cons] at hall
  obtain ⟨hT, hF⟩ := sums_eq (b := beforeOf l₀) (s := ({} : Rate2).line l₀) rfl hall
  rw [weighted_const hconst] at hF
  simp only [beforeOf, List.getLastD_map] at hT hF
  rw [rate2, List.foldl_cons] at h2
  dsimp only at h2
  split at h2
  · obtain rfl := Option.some.inj h2
    rw [hT, hF]
    have hzero : (({} : Rate2).line l₀).deltaT = 0 ∧ (({} : Rate2).line l₀).sumF2 = 0 := ⟨rfl, rfl⟩
    rw [hzero.1, hzero.2, zero_add, zero_add, add_div, mul_div_assoc, div_self hne, mul_one,
      mul_div_assoc, mul_comm (65536 : ℚ)]
    generalize ((ls.getLastD l₀).skew - l₀.skew) / (time (ls.getLastD l₀) - time l₀) * 65536 = y
    have h1 := abs_lt.mp (abs_truncate_sub_lt (l₀.freq + y + 1 / 2))
    have h2 := abs_lt.mp (abs_truncate_sub_lt y)
    have hlo : (-3 : ℚ) < (truncate (l₀.freq + y + 1 / 2) - (l₀.freq + truncate y) : ℤ) := by
      push_cast
      linarith [h1.1, h2.2]
    have hhi : ((truncate (l₀.freq + y + 1 / 2) - (l₀.freq + truncate y) : ℤ) : ℚ) < 3 := by
      push_cast
      linarith [h1.2, h2.1]
    have hlo' : -3 < truncate (l₀.freq + y + 1 / 2) - (l₀.freq + truncate y) := by exact_mod_cast hlo
    have hhi' : truncate (l₀.freq + y + 1 / 2) - (l₀.freq + truncate y) < 3 := by exact_mod_cast hhi
    rw [abs_le]
    omega
  · cases h2

/-- The first lines of `test.dat`, where the two differ by 2. -/
theorem rate2_agrees_test : |(-1180066 : ℤ) - -1180068| ≤ 2 :=
  @rate2_agrees ⟨36765, 180.386, 1398, 953773.9, 793.5, -1240000⟩
    [⟨36765, 780.382, 1358, 954329, 915.5, -1240000⟩,
      ⟨36765, 1380.381, 1439, 954871.3, 915.5, -1240000⟩] _ _ (by decide +kernel)
    (by decide +kernel) (by decide +kernel)

section Log
variable {rate bar : ℚ} {a : Entry} {es : List Entry} (hlog : (a :: es).IsChain (Grows rate))
include hlog

theorem offset_const {freq : ℤ} (h : ∀ e ∈ es, e.line.freq = freq) :
    (es.getLastD a).offset =
      a.offset + (time (es.getLastD a).line - time a.line) * (rate - freq / 65536) := by
  induction es generalizing a with
  | nil =>
    rw [List.getLastD_nil, sub_self, zero_mul, add_zero]
  | cons b es ih =>
    rw [List.isChain_cons_cons] at hlog
    obtain ⟨hb, hes⟩ := List.forall_mem_cons.mp h
    rw [List.getLastD_cons, ih hlog.2 hes, show b.offset = _ from hlog.1, hb]
    ring

/-- **`rate.awk` finds the frequency**, up to the noise over the whole log and the rounding, if it
does not warn. -/
theorem rate_near (hnoise : ∀ e ∈ a :: es, |e.noise| ≤ bar)
    (htime : time a.line < time (es.getLastD a).line) {f3 : ℤ}
    (h : RateScripts.rate ((a :: es).map Entry.line) = some (f3, false)) :
    |f3 - 65536 * rate| < 65536 * (2 * bar) / (time (es.getLastD a).line - time a.line) + 1 := by
  rw [List.map_cons] at h
  obtain ⟨-, hconst, rfl⟩ := rate_eq h
  have hfreq : ∀ e ∈ es, e.line.freq = a.line.freq := fun e he =>
    hconst e.line (List.mem_map_of_mem he)
  have hoffset := offset_const hlog hfreq
  rw [List.getLastD_map]
  have hpos := sub_pos.mpr htime
  have hlast : es.getLastD a ∈ a :: es := List.getLastD_mem_cons
  have hdiff : |(es.getLastD a).noise - a.noise| ≤ 2 * bar :=
    (abs_sub _ _).trans ((add_le_add (hnoise _ hlast) (hnoise a List.mem_cons_self)).trans_eq
      (two_mul bar).symm)
  have hslope : ((es.getLastD a).line.skew - a.line.skew) /
      (time (es.getLastD a).line - time a.line) * 65536 = 65536 * rate - a.line.freq +
        65536 * ((es.getLastD a).noise - a.noise) / (time (es.getLastD a).line - time a.line) := by
    have hskew : ∀ e : Entry, e.line.skew = e.offset + e.noise := fun e => (add_sub_cancel _ _).symm
    rw [hskew (es.getLastD a), hskew a, hoffset]
    field_simp
    ring
  have hsmall : |65536 * ((es.getLastD a).noise - a.noise) /
      (time (es.getLastD a).line - time a.line)| ≤
        65536 * (2 * bar) / (time (es.getLastD a).line - time a.line) := by
    rw [abs_div, abs_of_pos hpos, abs_mul, abs_of_pos (show (0 : ℚ) < 65536 by norm_num)]
    exact div_le_div_of_nonneg_right (by linarith) hpos.le
  have hround := abs_lt.mp (abs_truncate_sub_lt (((es.getLastD a).line.skew - a.line.skew) /
    (time (es.getLastD a).line - time a.line) * 65536))
  rw [hslope] at hround ⊢
  rw [abs_le] at hsmall
  rw [abs_lt]
  push_cast
  constructor
  · linarith [hsmall.1, hround.1]
  · linarith [hsmall.2, hround.2]

omit hlog in
theorem rate_near_logged : |(196535 : ℤ) - 65536 * (3 : ℚ)| <
    65536 * (2 * 1) / (time (logged 0 3).line - time (logged 0 0).line) + 1 :=
  @rate_near 3 1 (logged 0 0) [logged 0 1, logged 0 2, logged 0 3] (by decide +kernel)
    (by decide +kernel) (by decide +kernel) _ (by decide +kernel)

theorem weighted_late {td : ℚ} (hstep : (a :: es).IsChain fun a b => time b.line - time a.line = td) :
    weighted (beforeOf a.line) (es.map Entry.line) +
        65536 * ((es.getLastD a).line.skew - a.line.skew) = 65536 * rate * (es.length * td) +
      65536 * ((es.getLastD a).noise - a.noise) - ((es.getLastD a).line.freq - a.line.freq) * td ∧
    time (es.getLastD a).line - time a.line = es.length * td := by
  induction es generalizing a with
  | nil => simp [weighted]
  | cons b es ih =>
    rw [List.isChain_cons_cons] at hlog hstep
    obtain ⟨hsum, hspan⟩ := ih hlog.2 hstep.2
    have hasks := hlog.1.asks
    rw [hstep.1] at hasks
    rw [List.getLastD_cons, List.map_cons, weighted, List.length_cons]
    simp only [beforeOf] at hsum ⊢
    push_cast
    constructor
    · rw [hstep.1]
      linarith
    · linarith [hstep.1]

/-- **`rate2.awk` is one line late**: it takes the frequency that is printed with a line for that of
the interval after it. Over lines at equal distances what the frequency has changed from the first to
the last goes into the average. -/
theorem rate2_late (hes : es ≠ []) {td : ℚ}
    (hstep : (a :: es).IsChain fun a b => time b.line - time a.line = td)
    (hall : (((a :: es).map Entry.line).foldl Rate2.line {}).ignored = 0) :
    let s := ((a :: es).map Entry.line).foldl Rate2.line {}
    s.sumF2 / s.deltaT = 65536 * rate + (65536 * ((es.getLastD a).noise - a.noise) / td -
      ((es.getLastD a).line.freq - a.line.freq)) / es.length := by
  rw [List.map_cons, List.foldl_cons] at hall ⊢
  obtain ⟨hT, hF⟩ := sums_eq (b := beforeOf a.line) (s := ({} : Rate2).line a.line) rfl hall
  obtain ⟨hsum, hspan⟩ := weighted_late hlog hstep
  have hzero : (({} : Rate2).line a.line).deltaT = 0 ∧ (({} : Rate2).line a.line).sumF2 = 0 :=
    ⟨rfl, rfl⟩
  have hlen : (es.length : ℚ) ≠ 0 := by
    rw [Nat.cast_ne_zero, Ne, List.length_eq_zero_iff]
    exact hes
  have htd : td ≠ 0 := by
    obtain ⟨b, es, rfl⟩ := List.exists_cons_of_ne_nil hes
    have hco := counts_of_all (b := beforeOf a.line) (s := ({} : Rate2).line a.line) rfl hall
    rw [List.isChain_cons_cons] at hstep
    exact (tdmin_pos.trans_le (hco.tdmin_le.trans_eq hstep.1)).ne'
  rw [hzero.1, zero_add] at hT
  rw [hzero.2, zero_add] at hF
  dsimp only
  rw [hT, hF]
  simp only [beforeOf, List.getLastD_map] at hsum ⊢
  rw [hsum, hspan]
  field_simp
  ring

end Log

theorem rate2_late_logged :
    let s := ([logged 1 0, logged 1 1, logged 1 2, logged 1 3].map Entry.line).foldl Rate2.line {}
    s.sumF2 / s.deltaT = 65536 * 3 + (65536 * ((logged 1 3).noise - (logged 1 0).noise) / 600 -
      ((logged 1 3).line.freq - (logged 1 0).line.freq)) / (3 : ℕ) :=
  @rate2_late 3 (logged 1 0) [logged 1 1, logged 1 2, logged 1 3] (by decide +kernel)
    (List.cons_ne_nil _ _) 600 (by decide +kernel) (by decide +kernel)

end LidarRelay.RateScripts
