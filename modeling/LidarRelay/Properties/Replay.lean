import LidarRelay.Properties.LiveSession

/-! # Replay

`ntpclient -r` reads the log of a session and adds to each measured skew what the clock would have
gained at the frequencies that the phase lock computes now. On the log of a clock that drifts at a
constant rate, whatever frequencies the session has set, that is the closed loop on this clock, up
to the first line that is not that of a measurement. With `-l` there is one before the sixteenth
measurement, the first that the phase lock judges by.
-/

namespace LidarRelay.NtpClient
open LidarRelay PhaseLock
set_option autoImplicit false
set_option maxHeartbeats 250000

/-- A line of the log as it is read: `seconds` and `skew` are those of the clock at the measurement
before. What the rounding adds to the skew is noise. -/
structure Recorded (w : Plant) (seconds : ℕ) (skew : ℚ) (e : Poll) (l : LogLine) : Prop where
  time : l.absolute = UInt32.ofNat (seconds + e.dt)
  -- 0 stands for no line before
  started : l.absolute ≠ 0
  skew : l.skew = skew + e.dt * (w.rate - l.freq / 65536) + e.noise
  errorbar : l.errorbar = e.errorbar
  dt_lt : e.dt < 2 ^ 32

/-- The log of a session, whatever has set the frequencies. -/
inductive Log (w : Plant) : ℕ → ℚ → List Poll → List LogLine → Prop
  | nil (seconds : ℕ) (skew : ℚ) : Log w seconds skew [] []
  | cons {seconds : ℕ} {skew : ℚ} {e : Poll} {es : List Poll} {l : LogLine} {ls : List LogLine}
      (h : Recorded w seconds skew e l)
      (hrest : Log w (seconds + e.dt) (skew + e.dt * (w.rate - l.freq / 65536)) es ls) :
      Log w seconds skew (e :: es) (l :: ls)

/-- The replay stands where the closed loop does. -/
structure Agrees (r : Replay) (s : Loop) : Prop where
  lock : r.lock = s.lock
  freq : r.simulatedFreq = s.freq
  time : r.lastFakeTime = UInt32.ofNat s.time

/-- `skew` is that of the session. -/
structure Replays (skew : ℚ) (r : Replay) (s : Loop) : Prop where
  agrees : Agrees r s
  started : r.lastFakeTime ≠ 0
  offset : s.offset = skew + r.fakeDeltaTime

section Line
variable {w : Plant} {seconds : ℕ} {skew : ℚ} {e : Poll} {l : LogLine} {r : Replay} {s : Loop}

/-- One line, once it is known which frequency is simulated and what is added to the skew. -/
theorem replayLine_step (h : Recorded w seconds skew e l) (htime : s.time = seconds)
    (hlock : r.lock = s.lock)
    (hfreq : (if r.lastFakeTime = 0 then l.freq else r.simulatedFreq) = s.freq)
    (hadd : r.fakeDeltaTime + (UInt32.ofNat (seconds + e.dt) - r.lastFakeTime).toNat *
      ((l.freq - s.freq : ℤ) : ℚ) / 65536 =
        s.next w e - (skew + e.dt * (w.rate - l.freq / 65536))) :
    Option.Rel (Replays (skew + e.dt * (w.rate - l.freq / 65536)))
      (replayLine w.minDelay r l) (s.step false w e) := by
  have hskew : l.skew + (s.next w e - (skew + e.dt * (w.rate - l.freq / 65536))) =
      s.next w e + e.noise := by
    rw [h.skew]
    ring
  have hcall : PhaseLock.contemplateData w.minDelay (UInt32.ofNat (seconds + e.dt))
      (s.next w e + e.noise) e.errorbar s.freq s.lock =
        PhaseLock.call w.minDelay (s.sample w e) s.lock := by
    rw [PhaseLock.call, Loop.sample, htime]
  simp only [replayLine, Option.bind_eq_bind, h.time, hfreq, hadd, hskew, h.errorbar, hlock, hcall,
    Loop.step]
  cases PhaseLock.call w.minDelay (s.sample w e) s.lock with
  | none => exact .none
  | some res =>
    refine .some ⟨⟨rfl, rfl, ?_⟩, h.time ▸ h.started, ?_⟩
    · simp only [htime]
    · simp only [add_sub_cancel]

theorem replayLine_first (h : Recorded w seconds skew e l) :
    Option.Rel (Replays (skew + e.dt * (w.rate - l.freq / 65536))) (replayLine w.minDelay {} l)
      (Loop.step false w { freq := l.freq, time := seconds, offset := skew } e) := by
  apply replayLine_step h rfl rfl (if_pos rfl)
  simp only [Loop.next, sub_self, Int.cast_zero, mul_zero, zero_div, add_zero]

theorem replayLine_later (h : Recorded w seconds skew e l) (htime : s.time = seconds)
    (hr : Replays skew r s) :
    Option.Rel (Replays (skew + e.dt * (w.rate - l.freq / 65536))) (replayLine w.minDelay r l)
      (s.step false w e) := by
  apply replayLine_step h htime hr.agrees.lock ((if_neg hr.started).trans hr.agrees.freq)
  have hdt : (UInt32.ofNat (seconds + e.dt) - r.lastFakeTime).toNat = e.dt := by
    have hlt : e.dt < UInt32.size := h.dt_lt
    rw [hr.agrees.time, htime, ← UInt32.ofNat_sub (Nat.le_add_right _ _), Nat.add_sub_cancel_left,
      UInt32.toNat_ofNat_of_lt' hlt]
  rw [hdt, Loop.next, hr.offset]
  push_cast
  ring

end Line

theorem step_time {w : Plant} {s s' : Loop} {e : Poll} (h : s.step false w e = some s') :
    s'.time = s.time + e.dt := by
  obtain ⟨-, -, -, htime, -⟩ := Loop.step_cases h
  exact htime

theorem replay_later {w : Plant} {seconds : ℕ} {skew : ℚ} {es : List Poll} {ls : List LogLine}
    (h : Log w seconds skew es ls) {r : Replay} {s : Loop} (htime : s.time = seconds)
    (hr : Replays skew r s) :
    Option.Rel Agrees (run (replayLine w.minDelay) r ls) (run (Loop.step false w) s es) := by
  induction h generalizing r s with
  | nil seconds skew => exact .some hr.agrees
  | cons h hrest ih =>
    rw [run_cons, run_cons]
    have hline := replayLine_later h htime hr
    generalize hreplay : replayLine w.minDelay r _ = r' at hline ⊢
    generalize hloop : Loop.step false w s _ = s' at hline ⊢
    cases hline with
    | none => exact .none
    | some hr' => exact ih ((step_time hloop).trans (congrArg (· + _) htime)) hr'

/-! ## Up to the first line that cannot be read -/

def Row.isMeasured : Row → Bool
  | .measured _ => true
  | _ => false

/-- The lines before the first one that is not that of a measurement. -/
def leading : List Row → List LogLine
  | .measured l :: rows => l :: leading rows
  | _ => []

def outcome (rows : List Row) : Outcome :=
  if rows.all Row.isMeasured then .endOfInput else .inputError

theorem doReplay_eq (minDelay : ℚ) (r : Replay) (rows : List Row) :
    doReplay minDelay r rows =
      (run (replayLine minDelay) r (leading rows)).map fun r' => (r', outcome rows) := by
  induction rows generalizing r with
  | nil => rfl
  | cons row rows ih =>
    cases row with
    | measured l =>
      rw [doReplay, leading, run_cons]
      cases replayLine minDelay r l with
      | none => rfl
      | some r₁ => exact ih r₁
    | rejected => rfl
    | remark => rfl

theorem replay_leading {w : Plant} {seconds : ℕ} {skew : ℚ} {e : Poll} {es : List Poll}
    {l : LogLine} {ls : List LogLine} (h : Log w seconds skew (e :: es) (l :: ls)) :
    Option.Rel Agrees (run (replayLine w.minDelay) {} (l :: ls))
      (run (Loop.step false w) { freq := l.freq, time := seconds, offset := skew } (e :: es)) := by
  cases h with
  | cons h hrest =>
    rw [run_cons, run_cons]
    have hline := replayLine_first h
    generalize hreplay : replayLine w.minDelay {} l = r' at hline ⊢
    generalize hloop : Loop.step false w { freq := l.freq, time := seconds, offset := skew } e = s'
      at hline ⊢
    cases hline with
    | none => exact .none
    | some hr' => exact replay_later hrest (step_time hloop) hr'

/-- Every list of lines is a log, if no time is 0: what the clock does not explain is noise. -/
theorem exists_log (w : Plant) (seconds : ℕ) (skew : ℚ) {ls : List LogLine}
    (h : ∀ l ∈ ls, l.absolute ≠ 0) : ∃ es, Log w seconds skew es ls := by
  induction ls generalizing seconds skew with
  | nil => exact ⟨[], .nil seconds skew⟩
  | cons l ls ih =>
    obtain ⟨hl, hls⟩ := List.forall_mem_cons.mp h
    let dt := (l.absolute - UInt32.ofNat seconds).toNat
    have htime : UInt32.ofNat (seconds + dt) = l.absolute := by
      rw [UInt32.ofNat_add, UInt32.ofNat_toNat]
      exact add_sub_cancel _ _
    obtain ⟨es, hes⟩ := ih (seconds + dt) (skew + dt * (w.rate - l.freq / 65536)) hls
    refine ⟨⟨dt, l.skew - (skew + dt * (w.rate - l.freq / 65536)), l.errorbar⟩ :: es,
      .cons ⟨htime.symm, hl, (add_sub_cancel _ _).symm, rfl, UInt32.toNat_lt _⟩ hes⟩

/-- **Replay is the closed loop**: on the log of a clock that drifts at a constant rate, whatever
frequencies the session has set, `do_replay` computes what the phase lock would have, had it been in
charge of the clock, and it stops where the phase lock would have, or at the first line that is not
that of a measurement. -/
theorem replay_closed_loop {w : Plant} {seconds : ℕ} {skew : ℚ} {e : Poll} {es : List Poll}
    {l : LogLine} {ls : List LogLine} {rows : List Row} (hrows : leading rows = l :: ls)
    (h : Log w seconds skew (e :: es) (l :: ls)) :
    Option.Rel (fun r s => Agrees r.1 s ∧ r.2 = outcome rows) (doReplay w.minDelay {} rows)
      (run (Loop.step false w) { freq := l.freq, time := seconds, offset := skew } (e :: es)) := by
  rw [doReplay_eq, hrows]
  have hrel := replay_leading h
  generalize run (replayLine w.minDelay) {} (l :: ls) = r at hrel ⊢
  generalize run (Loop.step false w) _ (e :: es) = s at hrel ⊢
  cases hrel with
  | none => exact .none
  | some hagrees => exact .some ⟨hagrees, rfl⟩

def firstLine : LogLine :=
  { day := 0, sec := 164.386, elTime := 100.1, skew := 233.2, disp := 5.3, freq := 0 }

def secondLine : LogLine :=
  { day := 0, sec := 230.999, elTime := 101.4, skew := 362.1, disp := 5.3, freq := 65536 }

def firstPoll : Poll := { dt := 64, noise := 1.2, errorbar := firstLine.errorbar }

def secondPoll : Poll := { dt := 66, noise := -1.9, errorbar := secondLine.errorbar }

/-- Two lines of a session on a clock that gains 3 µs a second; the frequency was set in between. -/
theorem twoLines : Log gaining 100 40 [firstPoll, secondPoll] [firstLine, secondLine] := by
  refine .cons ⟨?_, ?_, ?_, rfl, ?_⟩ (.cons ⟨?_, ?_, ?_, rfl, ?_⟩ (.nil _ _))
  all_goals decide +kernel

/-- The remark of a judgement comes after them. -/
def twoRows : List Row := [.measured firstLine, .measured secondLine, .remark, .measured firstLine]

theorem replay_closed_loop_two : ∃ r s, Agrees r s ∧
    run (Loop.step false gaining) { freq := firstLine.freq, time := 100, offset := 40 }
      [firstPoll, secondPoll] = some s ∧
    doReplay gaining.minDelay {} twoRows = some (r, .inputError) := by
  have hrows : leading twoRows = [firstLine, secondLine] := rfl
  have hrel := replay_closed_loop hrows twoLines
  have h : (run (Loop.step false gaining) { freq := firstLine.freq, time := 100, offset := 40 }
      [firstPoll, secondPoll]).isSome = true := by decide +kernel
  obtain ⟨s, hs⟩ := Option.isSome_iff_exists.mp h
  rw [hs] at hrel
  generalize hr : doReplay gaining.minDelay {} twoRows = r at hrel
  cases hrel with
  | some hboth =>
    obtain ⟨hagrees, hout⟩ := hboth
    exact ⟨_, s, hagrees, hs, congrArg some (Prod.ext rfl hout)⟩

/-! ## The second that is read -/

/-- A tie would need a grid of eighths or a coarser one. -/
theorem floor_thousandths {p : ℕ} (hp : 3 ≤ p) (sec : ℕ) {ms : ℕ} (hms : ms < 1000) :
    ⌊roundGrid p (sec + (ms : ℚ) / 1000)⌋ =
      if (1000 - ms) * 2 ^ (p + 1) < 1000 then (sec : ℤ) + 1 else sec := by
  have hnn : (0 : ℚ) ≤ ms := Nat.cast_nonneg ms
  have hrest : ((1000 - ms : ℕ) : ℚ) = 1000 - ms := by
    rw [Nat.cast_sub hms.le]
    rfl
  split
  · next h =>
    have hq : ((1000 : ℚ) - ms) * 2 ^ (p + 1) < 1000 := by
      rw [← hrest]
      exact_mod_cast h
    rw [pow_succ] at hq
    refine floor_roundGrid_up p ?_ ?_
    · push_cast
      linarith [show (ms : ℚ) < 1000 from by exact_mod_cast hms]
    · push_cast
      linarith
  · next h =>
    have hpow : 2 ^ (p + 1) = 16 * 2 ^ (p - 3) := by
      rw [show p + 1 = 4 + (p - 3) by omega, pow_add]
      rfl
    have hlt : 1000 < (1000 - ms) * 2 ^ (p + 1) := by
      rw [hpow, Nat.mul_left_comm] at h ⊢
      omega
    have hq : 1000 < ((1000 : ℚ) - ms) * 2 ^ (p + 1) := by
      rw [← hrest]
      exact_mod_cast hlt
    rw [pow_succ] at hq
    refine floor_roundGrid_down p ?_ ?_
    · push_cast
      linarith
    · push_cast
      linarith

/-- The float that `sec` becomes is on a grid of a 128th of a second, late in the day, or on a finer
one. -/
theorem float_second {sec ms : ℕ} (hsec : sec < 86400) (hms : ms < 1000) :
    toLong (roundFloat (sec + (ms : ℚ) / 1000)) =
      if 65536 ≤ sec ∧ 997 ≤ ms ∨ 32768 ≤ sec ∧ 999 ≤ ms then (sec : ℤ) + 1 else sec := by
  have hnn : (0 : ℚ) ≤ ms := Nat.cast_nonneg ms
  have hmsq : (ms : ℚ) < 1000 := by exact_mod_cast hms
  have hfrac : (ms : ℚ) / 1000 < 1 := by linarith
  have hgrid : ∃ p : ℕ, 3 ≤ p ∧
      roundFloat (sec + (ms : ℚ) / 1000) = roundGrid p (sec + (ms : ℚ) / 1000) ∧
      ((1000 - ms) * 2 ^ (p + 1) < 1000 ↔ 65536 ≤ sec ∧ 997 ≤ ms ∨ 32768 ≤ sec ∧ 999 ≤ ms) := by
    rcases (show 65536 ≤ sec ∨ (32768 ≤ sec ∧ sec < 65536) ∨ sec < 32768 by omega) with
      hbig | ⟨hmid, hmid'⟩ | hsmall
    · have hbigq : (65536 : ℚ) ≤ sec := by exact_mod_cast hbig
      have hsecq : (sec : ℚ) < 86400 := by exact_mod_cast hsec
      have hlog : Int.log 2 |(sec : ℚ) + (ms : ℚ) / 1000| = 16 :=
        log_between (by norm_num; linarith) (by norm_num; linarith)
      refine ⟨7, by decide, ?_, by omega⟩
      rw [roundFloat, hlog]
      rfl
    · have hmidq : (32768 : ℚ) ≤ sec := by exact_mod_cast hmid
      have hsecq : (sec : ℚ) + 1 ≤ 65536 := by exact_mod_cast hmid'
      have hlog : Int.log 2 |(sec : ℚ) + (ms : ℚ) / 1000| = 15 :=
        log_between (by norm_num; linarith) (by norm_num; linarith)
      refine ⟨8, by decide, ?_, by omega⟩
      rw [roundFloat, hlog]
      rfl
    · have hlog : Int.log 2 |(sec : ℚ) + (ms : ℚ) / 1000| ≤ 14 := by
        obtain hzero | hpos := (abs_nonneg ((sec : ℚ) + (ms : ℚ) / 1000)).eq_or_lt
        · rw [← hzero, Int.log_zero_right]
          decide
        · have hsecq : (sec : ℚ) + 1 ≤ 32768 := by exact_mod_cast hsmall
          have hlt : |(sec : ℚ) + (ms : ℚ) / 1000| < ((2 : ℕ) : ℚ) ^ (15 : ℤ) := by
            rw [abs_of_nonneg (by positivity)]
            norm_num
            linarith
          exact Int.lt_add_one_iff.mp ((Int.lt_zpow_iff_log_lt one_lt_two hpos).mp hlt)
      obtain ⟨k, hk⟩ : ∃ k : ℕ, 23 - Int.log 2 |(sec : ℚ) + (ms : ℚ) / 1000| = ((9 + k : ℕ) : ℤ) :=
        ⟨(14 - Int.log 2 |(sec : ℚ) + (ms : ℚ) / 1000|).toNat, by omega⟩
      refine ⟨9 + k, by omega, ?_, ?_⟩
      · rw [roundFloat, hk]
      · have hpow : 2 ^ (9 + k + 1) = 1024 * 2 ^ k := by
          rw [show 9 + k + 1 = 10 + k by omega, pow_add]
          rfl
        have hone : 1 ≤ 2 ^ k := Nat.one_le_two_pow
        have hbig : 1 * 1024 ≤ (1000 - ms) * 2 ^ (9 + k + 1) :=
          Nat.mul_le_mul (by omega) (by omega)
        omega
  obtain ⟨p, hp, hround, hiff⟩ := hgrid
  have hfloor := floor_thousandths hp sec hms
  rw [← hround] at hfloor
  simp only [hiff] at hfloor
  have hpos : ¬ roundFloat (sec + (ms : ℚ) / 1000) < 0 := by
    rw [not_lt, ← Int.floor_nonneg, hfloor]
    split <;> positivity
  rw [toLong, truncate, if_neg hpos, hfloor]
  apply clampLong_fits le_rfl
  unfold FitsInt
  split <;> omega

theorem printed_ms_lt (now : Timeval) : ((ntpcGettime now).fine / 4294967).toNat < 1000 := by
  have husec := now.usec_lt
  have hfrac := ntpfrac_toNat (x := now.usec.toNat) (by omega)
  rw [UInt32.toNat_div]
  simp only [ntpcGettime, hfrac]
  have hval : (4294967 : UInt32).toNat = 4294967 := rfl
  rw [hval]
  omega

/-- **The second comes back, or the next one**: late in a second, and after nine in the morning, the
float that `sec` is read into is rounded up to the full second. -/
theorem replay_second (r : Reply) (now : Timeval) (freq : ℤ) :
    let t := ntpcGettime now
    let sec := (t.coarse % 86400).toNat
    let ms := (t.fine / 4294967).toNat
    (logLine r t freq).absolute =
      t.coarse + if 65536 ≤ sec ∧ 997 ≤ ms ∨ 32768 ≤ sec ∧ 999 ≤ ms then 1 else 0 := by
  intro t sec ms
  have hmod : sec = t.coarse.toNat % 86400 := UInt32.toNat_mod _ _
  have hdiv : (t.coarse / 86400).toNat = t.coarse.toNat / 86400 := UInt32.toNat_div _ _
  have hday : (((t.coarse / 86400).toNat : ℤ) * 86400 + sec) = (t.coarse.toNat : ℤ) := by
    rw [hmod, hdiv]
    omega
  have hfloat := @float_second sec ms (by omega) (printed_ms_lt now)
  have hcoarse : UInt32.ofInt (t.coarse.toNat : ℤ) = t.coarse := by
    have hval := ofInt_toNat t.coarse.toNat
    have hlt := t.coarse.toNat_lt
    exact UInt32.toNat_inj.mp (by omega)
  change UInt32.ofInt (((t.coarse / 86400).toNat : ℤ) * 86400 +
    toLong (roundFloat (sec + (ms : ℚ) / 1000))) = _
  rw [hfloat]
  split
  · rw [← add_assoc, hday, UInt32.ofInt_add, hcoarse]
    rfl
  · rw [hday, hcoarse, add_zero]

/-- On 2019-07-01, three milliseconds before 18:33:21. -/
def lateInSecond : Timeval := ⟨1562006000, 997000, by decide, by decide⟩

theorem replay_second_late :
    let t := ntpcGettime lateInSecond
    (logLine (readReply (answer t t)) t 0).absolute = t.coarse + 1 := by
  intro t
  have h := replay_second (readReply (answer t t)) lateInSecond 0
  exact h.trans (by decide)

/-! ## The log of a session with `-l` -/

section Live
variable {minDelay : ℚ} {s s' : State}

end Live

end LidarRelay.NtpClient
