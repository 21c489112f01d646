import LidarRelay.Properties.ClosedLoop
import LidarRelay.Properties.NtpStamps
import LidarRelay.Properties.TimeServer

/-! # A session with `-l`

The phase lock sees one measurement for each packet that is used and nothing else of what happens
in `primary_loop`: a session is a run of the closed loop on the measurements that it hands over.
-/

namespace LidarRelay.NtpClient
open LidarRelay PhaseLock
set_option autoImplicit false
set_option maxHeartbeats 250000

/-- What one pass through the loop hands to `contemplate_data`. -/
def handed (s : State) : Event → Option Sample
  | .readable _ (.packet bytes port arrival) =>
    let packLen := min bytes.length incomingSize
    let r := readReply (s.incoming.recv (bytes.take incomingSize)).bytes
    if (0 < packLen ∧ packLen < incomingSize) ∧ port = ntpPort ∧ dropReason s.ntpc r = none ∧
        s.ntpc.live ≠ 0 then
      let m := measure r (ntpcGettime arrival)
      some ⟨(ntpcGettime arrival).coarse, m.skew, m.elTime + sec2u r.disp, s.freq⟩
    else none
  | _ => none

/-- What a session hands over. -/
def handedAlong (debug : Bool) (minDelay : ℚ) : State → List Event → List Sample
  | _, [] => []
  | s, e :: es => (handed s e).toList ++
    match step debug minDelay s e with
    | none => []
    | some s' => handedAlong debug minDelay s' es

section Steps
variable {debug : Bool} {minDelay : ℚ} {s s' : State}

/-- The phase lock and the frequency of the kernel, after a sample or without one. -/
def Steered (debug : Bool) (minDelay : ℚ) (s s' : State) : Option Sample → Prop
  | none => s'.lock = s.lock ∧ s'.freq = s.freq
  | some x => x.freq = s.freq ∧ ∃ newFreq, call minDelay x s.lock = some (newFreq, s'.lock) ∧
    s'.freq = if debug then s.freq else newFreq

theorem Steered.congr {t : State} {x : Option Sample} (h : Steered debug minDelay t s' x)
    (hlock : t.lock = s.lock) (hfreq : t.freq = s.freq) : Steered debug minDelay s s' x := by
  cases x with
  | none => exact ⟨h.1.trans hlock, h.2.trans hfreq⟩
  | some x =>
    obtain ⟨hx, newFreq, hcall, hset⟩ := h
    rw [hlock] at hcall
    rw [hfreq] at hx hset
    exact ⟨hx, newFreq, hcall, hset⟩

theorem Steered.afterPacket {x : Option Sample} (h : Steered debug minDelay s s' x) (error : ℤ) :
    Steered debug minDelay s (afterPacket error s') x := by
  unfold NtpClient.afterPacket
  split
  · exact h
  · exact h

theorem liveBranch_steered {r : Reply} {arrival : NtpTime}
    (h : liveBranch debug minDelay r arrival s = some s') :
    Steered debug minDelay s s' (if s.ntpc.live ≠ 0 then
      some ⟨arrival.coarse, (measure r arrival).skew, (measure r arrival).elTime + sec2u r.disp, s.freq⟩
      else none) := by
  unfold liveBranch at h
  by_cases hlive : s.ntpc.live = 0
  · rw [if_pos hlive, Option.some.injEq] at h
    rw [if_neg (not_not.mpr hlive), ← h]
    exact ⟨rfl, rfl⟩
  · rw [if_neg hlive] at h
    rw [if_pos hlive]
    dsimp only at h
    split at h
    · cases h
    · next newFreq lock hcall =>
      refine ⟨rfl, newFreq, ?_⟩
      split at h
      · next hset =>
        obtain rfl := Option.some.inj h
        rw [hset.1]
        exact ⟨hcall, rfl⟩
      · next hkeep =>
        obtain rfl := Option.some.inj h
        refine ⟨hcall, ?_⟩
        cases debug
        · exact (not_not.mp fun hne => hkeep ⟨rfl, hne⟩ : newFreq = s.freq).symm
        · rfl

theorem rfc1305print_steered {arrival : NtpTime} {result : Except String ℤ}
    (h : rfc1305print debug minDelay arrival s = some (result, s')) :
    Steered debug minDelay s s'
      (if dropReason s.ntpc (readReply s.incoming.bytes) = none ∧ s.ntpc.live ≠ 0 then
        let m := measure (readReply s.incoming.bytes) arrival
        some ⟨arrival.coarse, m.skew, m.elTime + sec2u (readReply s.incoming.bytes).disp, s.freq⟩
      else none) := by
  unfold rfc1305print at h
  dsimp only at h
  split at h
  · next reason hdrop =>
    obtain ⟨-, rfl⟩ := Prod.mk.inj (Option.some.inj h)
    rw [if_neg (fun hno => by rw [hdrop] at hno; cases hno.1)]
    exact ⟨rfl, rfl⟩
  · next hdrop =>
    obtain ⟨s₂, hlive, h⟩ := Option.bind_eq_some_iff.mp h
    obtain ⟨-, rfl⟩ := Prod.mk.inj (Option.some.inj h)
    have hset := liveBranch_steered hlive
    rw [setBranch_eq] at hset
    simp only [hdrop, true_and]
    exact hset

theorem packet_steered {after : ℤ} {bytes : List Byte} {port : ℕ} {arrival : Timeval}
    (h : onReadable debug minDelay (.packet bytes port arrival) (s.wait after) = some s') :
    Steered debug minDelay s s' (handed s (.readable after (.packet bytes port arrival))) := by
  simp only [onReadable] at h
  simp only [handed]
  by_cases hlen : 0 < min bytes.length incomingSize ∧ min bytes.length incomingSize < incomingSize
  · rw [if_pos hlen] at h
    by_cases hport : port = ntpPort
    · rw [if_neg (not_not.mpr hport)] at h
      simp only [hlen, hport, true_and]
      split at h
      · cases h
      · next hprint =>
        obtain rfl := Option.some.inj h
        have hset := (rfc1305print_steered hprint).congr (s := s) rfl rfl
        simp only [State.wait] at hset
        exact hset
      · next hprint =>
        obtain rfl := Option.some.inj h
        have hset := (rfc1305print_steered hprint).congr (s := s) rfl rfl
        simp only [State.wait] at hset
        exact hset.afterPacket _
    · rw [if_pos hport, Option.some.injEq] at h
      rw [if_neg fun hno => hport hno.2.1, ← h]
      exact ⟨rfl, rfl⟩
  · rw [if_neg hlen, Option.some.injEq] at h
    rw [if_neg fun hno => hlen hno.1, ← h]
    refine Steered.afterPacket ?_ _
    exact ⟨rfl, rfl⟩

theorem step_steered {e : Event} (h : step debug minDelay s e = some s') :
    Steered debug minDelay s s' (handed s e) := by
  unfold step at h
  split at h
  · cases e with
    | timedOut now =>
      dsimp only at h
      split at h
      · split at h
        · obtain rfl := Option.some.inj h
          exact ⟨rfl, rfl⟩
        · obtain rfl := Option.some.inj h
          unfold sendProbe
          exact ⟨rfl, rfl⟩
      · cases h
    | interrupted after =>
      dsimp only at h
      split at h
      · obtain rfl := Option.some.inj h
        exact ⟨rfl, rfl⟩
      · cases h
    | readable after received =>
      dsimp only at h
      split at h
      · cases received with
        | failed =>
          obtain rfl := Option.some.inj h
          have hquiet : Steered debug minDelay s (s.wait after) none := ⟨rfl, rfl⟩
          have hset := hquiet.afterPacket (s.wait after).ntpc.goodness
          exact hset
        | packet bytes port arrival => exact packet_steered h
      · cases h
  · cases h

end Steps

/-! ## The session as a closed loop -/

/-- What a closed loop hands over. -/
def loopHanded (debug : Bool) (w : Plant) : Loop → List Poll → List Sample
  | _, [] => []
  | l, e :: es => l.sample w e ::
    match l.step debug w e with
    | none => []
    | some l' => loopHanded debug w l' es

/-- Every sample is that of some poll, whatever the clock is taken for. -/
theorem exists_poll (w : Plant) (l : Loop) {x : Sample} (hfreq : x.freq = l.freq) :
    ∃ e : Poll, l.sample w e = x := by
  obtain ⟨absolute, skew, errorbar, freq⟩ := x
  let dt := (absolute - UInt32.ofNat l.time).toNat
  refine ⟨⟨dt, skew - (l.offset + dt * (w.rate - l.freq / 65536)), errorbar⟩, ?_⟩
  have htime : UInt32.ofNat (l.time + dt) = absolute := by
    rw [UInt32.ofNat_add, UInt32.ofNat_toNat]
    exact add_sub_cancel _ _
  have hskew : l.offset + dt * (w.rate - l.freq / 65536) +
      (skew - (l.offset + dt * (w.rate - l.freq / 65536))) = skew := add_sub_cancel _ _
  simp only [Loop.sample, Loop.next, htime, hskew]
  exact congrArg _ hfreq.symm

section Session
variable {debug : Bool} {w : Plant} {s s' : State} {l : Loop}

/-- A pass that hands nothing over is no pass of the closed loop. -/
theorem step_loop (hlock : l.lock = s.lock) (hfreq : l.freq = s.freq) {e : Event}
    (h : step debug w.minDelay s e = some s') :
    (handed s e = none ∧ l.lock = s'.lock ∧ l.freq = s'.freq) ∨
      ∃ x p l', handed s e = some x ∧ l.sample w p = x ∧ l.step debug w p = some l' ∧
        l'.lock = s'.lock ∧ l'.freq = s'.freq := by
  have hset := step_steered h
  cases hx : handed s e with
  | none =>
    rw [hx] at hset
    exact .inl ⟨rfl, hlock.trans hset.1.symm, hfreq.trans hset.2.symm⟩
  | some x =>
    rw [hx] at hset
    obtain ⟨hxfreq, newFreq, hcall, hnew⟩ := hset
    obtain ⟨p, hp⟩ := exists_poll w l (hxfreq.trans hfreq.symm)
    refine .inr ⟨x, p, ⟨s'.lock, if debug then l.freq else newFreq, l.time + p.dt, l.next w p⟩, rfl,
      hp, ?_, rfl, ?_⟩
    · rw [Loop.step, hp, hlock, hcall]
      rfl
    · rw [hnew, hfreq]

theorem run_loop (hlock : l.lock = s.lock) (hfreq : l.freq = s.freq) {es : List Event}
    (h : run (step debug w.minDelay) s es = some s') :
    ∃ polls l', run (Loop.step debug w) l polls = some l' ∧ l'.lock = s'.lock ∧ l'.freq = s'.freq ∧
      loopHanded debug w l polls = handedAlong debug w.minDelay s es := by
  induction es generalizing s l with
  | nil =>
    rw [run_nil, Option.some.injEq] at h
    exact ⟨[], l, rfl, h ▸ hlock, h ▸ hfreq, rfl⟩
  | cons e es ih =>
    obtain ⟨s₁, hstep, hrest⟩ := run_cons_eq_some _ h
    obtain ⟨hx, hlock₁, hfreq₁⟩ | ⟨x, p, l₁, hx, hp, hl₁, hlock₁, hfreq₁⟩ :=
      step_loop hlock hfreq hstep
    · obtain ⟨polls, l', hrun, hl, hf, hsame⟩ := ih hlock₁ hfreq₁ hrest
      refine ⟨polls, l', hrun, hl, hf, ?_⟩
      rw [handedAlong, hx, hstep]
      exact hsame
    · obtain ⟨polls, l', hrun, hl, hf, hsame⟩ := ih hlock₁ hfreq₁ hrest
      refine ⟨p :: polls, l', run_trans (run_of_step hl₁) hrun, hl, hf, ?_⟩
      rw [handedAlong, hx, hstep, loopHanded, hl₁, hp]
      exact congrArg _ hsame

end Session

/-- **A session is a run of the closed loop**: whatever arrives, and whatever the clock is taken for,
the phase lock and the frequency of the kernel are those of the closed loop on the measurements that
the session hands over, each in its turn and no other. -/
theorem session_is_loop {debug : Bool} (w : Plant) {ntpc : Control} {freq : ℤ} (time : ℕ)
    (offset : ℚ) {es : List Event} {s : State}
    (h : run (step debug w.minDelay) (start ntpc freq) es = some s) :
    ∃ polls l, run (Loop.step debug w) { freq := freq, time := time, offset := offset } polls = some l ∧
      l.lock = s.lock ∧ l.freq = s.freq ∧
      loopHanded debug w { freq := freq, time := time, offset := offset } polls =
        handedAlong debug w.minDelay (start ntpc freq) es :=
  run_loop rfl rfl h

/-- `-l -i 15`. -/
def steering : Control := configure ⟨0, 0⟩ [.l, .i 15]

/-- Seventeen probes, each answered at once: the clock loses 45 µs from one to the next, and the
stamps of the server are off by a few microseconds. -/
def seventeenAnswers : List Event := (List.range 17).flatMap fun k =>
  let sent : ℤ := 1000000000 + 15 * k
  [.timedOut (fullSecond sent), .readable 1000 (.packet
    (answer (ntpcGettime (fullSecond sent))
      (ntpcGettime (.ofMicros (sent * 1000000 + 500 + 45 * k + 7 * (k * k % 5)))))
    ntpPort (.ofMicros (sent * 1000000 + 1000)))]

/-- The last two of them move the frequency. -/
theorem seventeenAnswers_run : ∃ s,
    run (step false 900) (start steering 0) seventeenAnswers = some s ∧ s.freq = 196937 := by
  have h : ((run (step false 900) (start steering 0) seventeenAnswers).any fun s =>
      s.freq == 196937) = true := by decide +kernel
  obtain ⟨s, hs, hfreq⟩ := (Option.any_eq_true _ _).mp h
  exact ⟨s, hs, beq_iff_eq.mp hfreq⟩

/-- A clock that gains 3 µs a second and is measured every quarter of a minute. -/
def quickly : Plant := { gaining with minDelay := 900, interval := 15, interval_pos := by decide }

theorem session_is_loop_answers : ∃ s polls l,
    run (step false 900) (start steering 0) seventeenAnswers = some s ∧
    run (Loop.step false quickly) ⟨{}, 0, 7, 40⟩ polls = some l ∧ l.lock = s.lock ∧
    l.freq = 196937 := by
  obtain ⟨s, hs, hset⟩ := seventeenAnswers_run
  obtain ⟨polls, l, hrun, hlock, hfreq, -⟩ := session_is_loop quickly 7 40 hs
  exact ⟨s, polls, l, hs, hrun, hlock, hfreq.trans hset⟩

/-- **An answer is a sound measurement for the closed loop**: the clock is behind by what the loop
takes it to be, the server keeps to its dispersion, and `-q` is not above what the two directions
take. -/
theorem answer_sound {w : Plant} {l : Loop} {p : Poll} {x : Exchange} {err : ℚ} {r : Reply}
    {arrival : NtpTime} (h : Stamped x (-l.next w p) err r arrival) (herr : err ≤ sec2u r.disp)
    (hthere : w.minDelay / 2 + 3 ≤ x.served - x.sent)
    (hback : w.minDelay / 2 + 3 ≤ x.arrived - x.answered)
    (hsample : l.sample w p = ⟨arrival.coarse, (measure r arrival).skew,
      (measure r arrival).elTime + sec2u r.disp, l.freq⟩) :
    |p.noise| ≤ p.errorbar - w.minDelay := by
  have hskew : l.next w p + p.noise = (measure r arrival).skew := congrArg Sample.skew hsample
  have hbar : p.errorbar = (measure r arrival).elTime + sec2u r.disp :=
    congrArg Sample.errorbar hsample
  have hsound := measure_sound h herr hthere hback
  rw [← hskew, ← hbar, ← sub_eq_add_neg, add_sub_cancel_left] at hsound
  exact hsound

/-- A quarter of a second there, at the server and back. -/
def quarters : Exchange where
  sent := 1562000000000000
  served := 1562000000250000
  answered := 1562000000500000
  arrived := 1562000000750000
  sent_le := by norm_num
  served_le := by norm_num
  answered_le := by norm_num

def quartersReply : Reply where
  li := 0
  vn := 3
  mode := 4
  stratum := 1
  delay := 0
  disp := 0
  orgtime := (sendPacket (.ofMicros 1561999999999960)).1
  rectime := .ofParts ((1562000000 + epoch) * 4294967296 + 1073741824)
  xmttime := .ofParts ((1562000000 + epoch) * 4294967296 + 2147483648)

/-- The clock is 40 µs behind. -/
theorem quarters_stamped :
    Stamped quarters (-40) 0 quartersReply (ntpcGettime (.ofMicros 1562000000749960)) where
  stamps := by
    refine ⟨_, _, _, _, ?_, ?_, ?_, ?_, rfl, rfl, rfl, rfl⟩
    · norm_num [Reads, quarters]
    · norm_num [Reads, quarters]
    · norm_num [Stamps, quarters, part, epoch]
    · norm_num [Stamps, quarters, part, epoch]
  offset_le := by norm_num
  err_le := by norm_num
  time_le := by norm_num [quarters]

theorem answer_sound_quarters : ∃ p : Poll,
    |p.noise| ≤ p.errorbar - ({ gaining with rate := 0 } : Plant).minDelay := by
  let l : Loop := { freq := 0, time := 0, offset := 40 }
  let arrival := ntpcGettime (.ofMicros 1562000000749960)
  obtain ⟨p, hp⟩ := exists_poll { gaining with rate := 0 } l (x := ⟨arrival.coarse,
    (measure quartersReply arrival).skew,
    (measure quartersReply arrival).elTime + sec2u quartersReply.disp, 0⟩) rfl
  have hnext : l.next { gaining with rate := 0 } p = 40 := by
    simp only [Loop.next, l, Int.cast_zero, zero_div, sub_zero, mul_zero, add_zero]
  refine ⟨p, @answer_sound _ _ _ quarters 0 _ _ ?_ ?_ ?_ ?_ hp⟩
  · rw [hnext]
    exact quarters_stamped
  · norm_num [sec2u, quartersReply]
  · norm_num [quarters, gaining]
  · norm_num [quarters, gaining]

/-! ## What a server can do -/

theorem newFreq_bounded {freq f : ℤ} {b : Option Box} (h : newFreq freq b = some f) :
    |f| ≤ max |freq| maxC := by
  cases b with
  | none =>
    obtain rfl := Option.some.inj h
    exact le_max_left _ _
  | some b =>
    obtain ⟨delta, -, h⟩ := Option.bind_eq_some_iff.mp h
    obtain ⟨deltaFreq, -, h⟩ := Option.bind_eq_some_iff.mp h
    obtain ⟨computed, -, h⟩ := Option.bind_eq_some_iff.mp h
    obtain rfl := Option.some.inj h
    exact (abs_clamp_le _).trans (le_max_right _ _)

theorem steered_bounded {debug : Bool} {minDelay : ℚ} {s s' : State} {x : Option Sample}
    {hist : List Sample} (hholds : PhaseLock.Holds s.lock hist) (h : Steered debug minDelay s s' x) :
    |s'.freq| ≤ max |s.freq| maxC ∧
      ∃ hist', PhaseLock.Holds s'.lock hist' ∧ hist'.length = hist.length + x.toList.length ∧
        (hist'.length < ringSize → s'.freq = s.freq) := by
  cases x with
  | none =>
    obtain ⟨hlock, hfreq⟩ := h
    rw [hlock, hfreq]
    exact ⟨le_max_left _ _, hist, hholds, rfl, fun _ => rfl⟩
  | some x =>
    obtain ⟨hx, newFreq, hcall, hnew⟩ := h
    have hvalid := hholds.valid_store minDelay x
    obtain ⟨-, -, -, hcases⟩ := call_cases hcall
    have hbound : |newFreq| ≤ max |s.freq| maxC := by
      rw [← hx]
      obtain ⟨-, heq⟩ | ⟨-, b, -, hb⟩ := hcases
      · rw [heq]
        exact le_max_left _ _
      · exact newFreq_bounded hb
    refine ⟨?_, _, hholds.step hcall, rfl, fun hfew => ?_⟩
    · rw [hnew]
      cases debug
      · exact hbound
      · exact le_max_left _ _
    · rw [List.length_cons] at hfew
      obtain ⟨-, heq⟩ | ⟨hfull, -⟩ := hcases
      · rw [hnew, heq, hx]
        exact ite_self _
      · rw [hvalid] at hfull
        omega

theorem run_bounded {debug : Bool} {minDelay : ℚ} {es : List Event} {s s' : State}
    {hist : List Sample} (hholds : PhaseLock.Holds s.lock hist)
    (h : run (step debug minDelay) s es = some s') :
    |s'.freq| ≤ max |s.freq| maxC ∧
      (hist.length + (handedAlong debug minDelay s es).length < ringSize → s'.freq = s.freq) := by
  induction es generalizing s hist with
  | nil =>
    rw [run_nil, Option.some.injEq] at h
    rw [← h]
    exact ⟨le_max_left _ _, fun _ => rfl⟩
  | cons e es ih =>
    obtain ⟨s₁, hstep, hrest⟩ := run_cons_eq_some _ h
    obtain ⟨hone, hist₁, hholds₁, hlen, hkeep⟩ := steered_bounded hholds (step_steered hstep)
    obtain ⟨hall, hkeep'⟩ := ih hholds₁ hrest
    refine ⟨hall.trans (max_le hone (le_max_right _ _)), fun hfew => ?_⟩
    rw [handedAlong, hstep, List.length_append] at hfew
    dsimp only at hfew
    exact (hkeep' (by omega)).trans (hkeep (by omega))

/-- **No server takes the clock further than `MAX_CORRECT`** before the phase lock faults, whatever
it answers, and the first fifteen answers leave the frequency alone. -/
theorem freq_bounded {debug : Bool} {minDelay : ℚ} {ntpc : Control} {freq : ℤ} {es : List Event}
    {s : State} (h : run (step debug minDelay) (start ntpc freq) es = some s) :
    |s.freq| ≤ max |freq| maxC ∧
      ((handedAlong debug minDelay (start ntpc freq) es).length < ringSize → s.freq = freq) := by
  obtain ⟨hbound, hkeep⟩ := run_bounded PhaseLock.Holds.start h
  refine ⟨hbound, fun hfew => hkeep ?_⟩
  rw [List.length_nil, Nat.zero_add]
  exact hfew

theorem freq_bounded_answers : ∃ s,
    run (step false 900) (start steering 0) seventeenAnswers = some s ∧ s.freq = 196937 ∧
    |s.freq| ≤ max 0 maxC := by
  obtain ⟨s, hs, hset⟩ := seventeenAnswers_run
  obtain ⟨hbound, -⟩ := freq_bounded hs
  exact ⟨s, hs, hset, hbound⟩

end LidarRelay.NtpClient
