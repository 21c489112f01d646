import LidarRelay.Foundations.Runs
import LidarRelay.Programs.NtpClient

/-! # What `ntpclient` does to the server and to the clock

Whatever arrives, and whenever: the probes go out at multiples of the cycle time and no more of them
than asked for, only answers to the last probe are used, and a simple clock set sets the clock once.
-/

namespace LidarRelay.NtpClient
open LidarRelay
set_option autoImplicit false
set_option maxHeartbeats 250000

/-! ## All that one step can do -/

section Steps
variable {debug : Bool} {minDelay : ℚ} {s s' : State}

/-- What a packet that is used has changed: `acts` is what was done, the last first. -/
structure Adjusted (debug : Bool) (r : Reply) (s s' : State) : Prop where
  ntpc : s'.ntpc = s.ntpc
  probesSent : s'.probesSent = s.probesSent
  timeout : s'.timeout = s.timeout
  running : s'.running = s.running
  waited : s'.waited = s.waited
  log : ∃ freqs, s'.log = freqs ++ (if s.ntpc.setClock ≠ 0 then [(s.waited, .setTime r)] else []) ++ s.log ∧
    (freqs = [] ∨ ∃ freq, freqs = [(s.waited, .setFreq r freq)] ∧ s.ntpc.live ≠ 0 ∧ debug = false)

theorem liveBranch_cases {r : Reply} {arrival : NtpTime}
    (h : liveBranch debug minDelay r arrival s = some s') :
    ∃ lock, s' = { s with lock } ∨ ∃ newFreq, s.ntpc.live ≠ 0 ∧ debug = false ∧
      s' = { s with lock, freq := newFreq }.act (.setFreq r newFreq) := by
  unfold liveBranch at h
  by_cases hlive : s.ntpc.live = 0
  · rw [if_pos hlive, Option.some.injEq] at h
    exact ⟨s.lock, .inl h.symm⟩
  · rw [if_neg hlive] at h
    dsimp only at h
    split at h
    · cases h
    · next newFreq lock _ =>
      split at h
      · next hset => exact ⟨lock, .inr ⟨newFreq, hlive, hset.1, (Option.some.inj h).symm⟩⟩
      · exact ⟨lock, .inl (Option.some.inj h).symm⟩

theorem setBranch_eq (r : Reply) (s : State) : setBranch r s = { s with
    log := (if s.ntpc.setClock ≠ 0 then [(s.waited, .setTime r)] else []) ++ s.log } := by
  unfold setBranch
  split
  · rfl
  · rfl

theorem rfc1305print_cases {arrival : NtpTime} {result : Except String ℤ}
    (h : rfc1305print debug minDelay arrival s = some (result, s')) :
    (∃ reason, dropReason s.ntpc (readReply s.incoming.bytes) = some reason ∧
      result = .error reason ∧ s' = s) ∨
    ∃ error, dropReason s.ntpc (readReply s.incoming.bytes) = none ∧ result = .ok error ∧
      Adjusted debug (readReply s.incoming.bytes) s s' := by
  unfold rfc1305print at h
  dsimp only at h
  split at h
  · next reason hdrop =>
    obtain ⟨rfl, rfl⟩ := Prod.mk.inj (Option.some.inj h)
    exact .inl ⟨reason, hdrop, rfl, rfl⟩
  · next hdrop =>
    obtain ⟨s₂, hlive, h⟩ := Option.bind_eq_some_iff.mp h
    obtain ⟨rfl, rfl⟩ := Prod.mk.inj (Option.some.inj h)
    refine .inr ⟨_, hdrop, rfl, ?_⟩
    rw [setBranch_eq] at hlive
    obtain ⟨lock, rfl | ⟨newFreq, hon, hdebug, rfl⟩⟩ := liveBranch_cases hlive
    · exact ⟨rfl, rfl, rfl, rfl, rfl, [], rfl, .inl rfl⟩
    · exact ⟨rfl, rfl, rfl, rfl, rfl, [(s.waited, .setFreq _ newFreq)], rfl,
        .inr ⟨newFreq, rfl, hon, hdebug⟩⟩

/-- All probes are out. -/
def State.Spent (s : State) : Prop := s.probesSent ≥ s.ntpc.probeCount ∧ s.ntpc.probeCount ≠ 0

/-- Time passes, and the array may be written. -/
def State.idle (s : State) (after : ℤ) (b : Buffer incomingSize) : State :=
  { s.wait after with incoming := b }

/-- All that a packet can do. -/
theorem onReadable_cases {received : Received} (h : onReadable debug minDelay received s = some s') :
    ∃ b, s' = { s with incoming := b } ∨ (∃ error, s' = afterPacket error { s with incoming := b }) ∨
      ∃ r error s₁, dropReason s.ntpc r = none ∧ Adjusted debug r { s with incoming := b } s₁ ∧
        s' = afterPacket error s₁ := by
  cases received with
  | failed =>
    obtain rfl := Option.some.inj h
    exact ⟨s.incoming, .inr (.inl ⟨_, rfl⟩)⟩
  | packet bytes port arrival =>
    refine ⟨s.incoming.recv (bytes.take incomingSize), ?_⟩
    simp only [onReadable] at h
    split at h
    · split at h
      · exact .inl (Option.some.inj h).symm
      · split at h
        · cases h
        · next hprint =>
          obtain rfl := Option.some.inj h
          obtain ⟨reason, -, -, rfl⟩ | ⟨error, -, hres, -⟩ := rfc1305print_cases hprint
          · exact .inl rfl
          · cases hres
        · next hprint =>
          obtain rfl := Option.some.inj h
          obtain ⟨reason, -, hres, -⟩ | ⟨error, hdrop, -, hadj⟩ := rfc1305print_cases hprint
          · cases hres
          · exact .inr (.inr ⟨_, _, _, hdrop, hadj, rfl⟩)
    · exact .inr (.inl ⟨_, (Option.some.inj h).symm⟩)

theorem step_cases {e : Event} (h : step debug minDelay s e = some s') :
    s.running = true ∧
    ((∃ now, e = .timedOut now ∧ 0 ≤ s.timeout ∧
      (s.Spent ∧ s' = { s.wait s.timeout with running := false } ∨
        ¬ s.Spent ∧ s' = sendProbe now (s.wait s.timeout))) ∨
    (∀ now, e ≠ .timedOut now) ∧ ∃ after b, 0 ≤ after ∧ after ≤ max s.timeout 0 ∧
      (s' = s.idle after b ∨ (∃ error, s' = afterPacket error (s.idle after b)) ∨
        ∃ r error s₁, dropReason s.ntpc r = none ∧ Adjusted debug r (s.idle after b) s₁ ∧
          s' = afterPacket error s₁)) := by
  unfold step at h
  split at h
  · next hrun =>
    refine ⟨hrun, ?_⟩
    cases e with
    | timedOut now =>
      refine .inl ⟨now, rfl, ?_⟩
      dsimp only at h
      split at h
      · next hto =>
        refine ⟨hto, ?_⟩
        split at h
        · next hspent => exact .inl ⟨hspent, (Option.some.inj h).symm⟩
        · next hmore => exact .inr ⟨hmore, (Option.some.inj h).symm⟩
      · cases h
    | interrupted after =>
      refine .inr ⟨fun now heq => (by cases heq), after, s.incoming, ?_⟩
      dsimp only at h
      split at h
      · next hafter => exact ⟨hafter.1, hafter.2, .inl (Option.some.inj h).symm⟩
      · cases h
    | readable after received =>
      dsimp only at h
      split at h
      · next hafter =>
        obtain ⟨b, hcases⟩ := onReadable_cases h
        exact .inr ⟨fun now heq => (by cases heq), after, b, hafter.1,
          hafter.2.trans (le_max_left _ _), hcases⟩
      · cases h
  · cases h

end Steps

/-! ## Probes and all the rest -/

/-- The packet that an action used. -/
def Action.reply? : Action → Option Reply
  | .probe _ => none
  | .setTime r => some r
  | .setFreq r _ => some r

/-- What a step other than a probe leaves as it was. -/
structure Quiet (s s' : State) : Prop where
  ntpc : s'.ntpc = s.ntpc ∨ s'.ntpc = { s.ntpc with setClock := 0 }
  probesSent : s'.probesSent = s.probesSent
  sum : s'.waited + s'.timeout = s.waited + s.timeout
  timeout : 0 ≤ s.timeout → 0 ≤ s'.timeout
  log : ∃ acts, s'.log = acts ++ s.log ∧
    ∀ x ∈ acts, ∃ r, x.2.reply? = some r ∧ dropReason s.ntpc r = none

theorem afterPacket_frame (error : ℤ) (s : State) :
    ((afterPacket error s).ntpc = s.ntpc ∨ (afterPacket error s).ntpc = { s.ntpc with setClock := 0 }) ∧
      (afterPacket error s).probesSent = s.probesSent ∧ (afterPacket error s).timeout = s.timeout ∧
      (afterPacket error s).waited = s.waited ∧ (afterPacket error s).log = s.log := by
  unfold afterPacket
  split
  · exact ⟨.inr rfl, rfl, rfl, rfl, rfl⟩
  · exact ⟨.inl rfl, rfl, rfl, rfl, rfl⟩

theorem Adjusted.acts {debug : Bool} {r : Reply} {s s' : State} (h : Adjusted debug r s s') :
    ∃ acts, s'.log = acts ++ s.log ∧ ∀ x ∈ acts, x.2.reply? = some r := by
  obtain ⟨freqs, hlog, hfreqs⟩ := h.log
  refine ⟨_, hlog, fun x hx => ?_⟩
  rcases List.mem_append.mp hx with hx | hx
  · rcases hfreqs with rfl | ⟨freq, rfl, -, -⟩
    · exact absurd hx List.not_mem_nil
    · rw [List.mem_singleton.mp hx]
      rfl
  · split at hx
    · rw [List.mem_singleton.mp hx]
      rfl
    · exact absurd hx List.not_mem_nil

section Rest
variable {debug : Bool} {minDelay : ℚ} {s s' : State}

theorem idle_quiet {after : ℤ} {b : Buffer incomingSize} (hafter : after ≤ max s.timeout 0) :
    Quiet s (s.idle after b) where
  ntpc := .inl rfl
  probesSent := rfl
  sum := by
    simp only [State.idle, State.wait]
    ring
  timeout := fun h => by
    rw [max_eq_left h] at hafter
    simp only [State.idle, State.wait]
    omega
  log := ⟨[], rfl, fun x hx => absurd hx List.not_mem_nil⟩

theorem Quiet.afterPacket {s₁ : State} (h : Quiet s s₁) (hntpc : s₁.ntpc = s.ntpc) (error : ℤ) :
    Quiet s (afterPacket error s₁) := by
  obtain ⟨hn, hp, ht, hw, hl⟩ := afterPacket_frame error s₁
  refine ⟨?_, hp.trans h.probesSent, ?_, fun h0 => ?_, ?_⟩
  · rw [← hntpc]
    exact hn
  · rw [hw, ht]
    exact h.sum
  · rw [ht]
    exact h.timeout h0
  · rw [hl]
    exact h.log

theorem Quiet.adjusted {s₁ : State} {r : Reply} {after : ℤ} {b : Buffer incomingSize}
    (hafter : after ≤ max s.timeout 0) (hdrop : dropReason s.ntpc r = none)
    (h : Adjusted debug r (s.idle after b) s₁) : Quiet s s₁ where
  ntpc := .inl h.ntpc
  probesSent := h.probesSent
  sum := by
    rw [h.waited, h.timeout]
    exact (idle_quiet hafter).sum
  timeout := fun h0 => by
    rw [h.timeout]
    exact (idle_quiet hafter).timeout h0
  log := by
    obtain ⟨acts, hlog, hacts⟩ := h.acts
    exact ⟨acts, hlog, fun x hx => ⟨r, hacts x hx, hdrop⟩⟩

theorem step_probe_or_quiet {e : Event} (h : step debug minDelay s e = some s') :
    (∃ now, ¬ s.Spent ∧ 0 ≤ s.timeout ∧ s' = sendProbe now (s.wait s.timeout)) ∨ Quiet s s' := by
  obtain ⟨-, ⟨now, -, hto, ⟨-, rfl⟩ | ⟨hmore, rfl⟩⟩ |
    ⟨-, after, b, -, hafter, rfl | ⟨error, rfl⟩ | ⟨r, error, s₁, hdrop, hadj, rfl⟩⟩⟩ := step_cases h
  · refine .inr ⟨.inl rfl, rfl, ?_, fun _ => ?_, [], rfl, fun x hx => absurd hx List.not_mem_nil⟩
    · simp only [State.wait]
      ring
    · simp only [State.wait, sub_self, le_refl]
  · exact .inl ⟨now, hmore, hto, rfl⟩
  · exact .inr (idle_quiet hafter)
  · exact .inr ((idle_quiet hafter).afterPacket rfl error)
  · exact .inr ((Quiet.adjusted hafter hdrop hadj).afterPacket hadj.ntpc error)

end Rest

theorem sendProbe_frame (now : Timeval) (s : State) :
    (sendProbe now s).ntpc = { s.ntpc with timeOfSend := (sendPacket now).1 } ∧
      (sendProbe now s).probesSent = s.probesSent + 1 ∧
      (sendProbe now s).timeout = s.ntpc.cycleTime * 1000000 ∧ (sendProbe now s).waited = s.waited ∧
      (sendProbe now s).running = s.running ∧
      (sendProbe now s).log = (s.waited, .probe (sendPacket now).1) :: s.log := by
  unfold sendProbe
  exact ⟨rfl, rfl, rfl, rfl, rfl, rfl⟩

/-! ## The timetable -/

def probeTime : ℤ × Action → Option ℤ
  | (t, .probe _) => some t
  | _ => none

def probeTimes (log : List (ℤ × Action)) : List ℤ := log.filterMap probeTime

theorem probeTimes_quiet {acts log : List (ℤ × Action)}
    (h : ∀ x ∈ acts, ∃ r, x.2.reply? = some r) : probeTimes (acts ++ log) = probeTimes log := by
  have hnone : acts.filterMap probeTime = [] := by
    refine List.filterMap_eq_nil_iff.mpr fun x hx => ?_
    obtain ⟨r, hr⟩ := h x hx
    obtain ⟨t, a⟩ := x
    cases a with
    | probe timeSent => cases hr
    | setTime r => rfl
    | setFreq r freq => rfl
  rw [probeTimes, List.filterMap_append, hnone, List.nil_append]
  rfl

/-- The probes have gone out at the multiples of the cycle time, the last first. -/
structure Timetable (ntpc : Control) (s : State) : Prop where
  cycleTime : s.ntpc.cycleTime = ntpc.cycleTime
  probeCount : s.ntpc.probeCount = ntpc.probeCount
  nonneg : 0 ≤ s.probesSent
  sum : s.waited + s.timeout = s.probesSent * (ntpc.cycleTime * 1000000)
  probes : probeTimes s.log =
    (List.range s.probesSent.toNat).reverse.map fun k : ℕ => (k : ℤ) * (ntpc.cycleTime * 1000000)
  count : 0 < ntpc.probeCount → s.probesSent ≤ ntpc.probeCount
  timeout : 0 ≤ ntpc.cycleTime → 0 ≤ s.timeout

def start (ntpc : Control) (freq : ℤ) : State := { ntpc, freq }

theorem Timetable.start (ntpc : Control) (freq : ℤ) : Timetable ntpc (start ntpc freq) :=
  ⟨rfl, rfl, le_rfl, (zero_mul _).symm, rfl, fun h => h.le, fun _ => le_rfl⟩

theorem Timetable.step {debug : Bool} {minDelay : ℚ} {ntpc : Control} {s s' : State} {e : Event}
    (h : Timetable ntpc s) (hstep : step debug minDelay s e = some s') : Timetable ntpc s' := by
  obtain ⟨now, hmore, hto, rfl⟩ | hquiet := step_probe_or_quiet hstep
  · obtain ⟨hntpc, hsent, htimeout, hwaited, -, hlog⟩ := sendProbe_frame now (s.wait s.timeout)
    have hnow : s.waited + s.timeout = s.probesSent * (ntpc.cycleTime * 1000000) := h.sum
    have hsent' : (sendProbe now (s.wait s.timeout)).probesSent = s.probesSent + 1 := hsent
    have htimeout' : (sendProbe now (s.wait s.timeout)).timeout = ntpc.cycleTime * 1000000 := by
      rw [htimeout, ← h.cycleTime]
      rfl
    have hwaited' : (sendProbe now (s.wait s.timeout)).waited = s.waited + s.timeout := hwaited
    refine ⟨?_, ?_, ?_, ?_, ?_, fun hc => ?_, fun hc => ?_⟩
    · rw [hntpc]
      exact h.cycleTime
    · rw [hntpc]
      exact h.probeCount
    · rw [hsent']
      exact Int.add_nonneg h.nonneg zero_le_one
    · rw [hwaited', htimeout', hsent', hnow]
      ring
    · have hsucc : (s.probesSent + 1).toNat = s.probesSent.toNat + 1 :=
        Int.toNat_add_nat h.nonneg 1
      have hcons : probeTimes (sendProbe now (s.wait s.timeout)).log =
          (s.waited + s.timeout) :: probeTimes s.log := by
        rw [hlog]
        rfl
      rw [hcons, h.probes, hnow, hsent', hsucc, List.range_succ, List.reverse_append,
        List.reverse_singleton, List.singleton_append, List.map_cons, Int.toNat_of_nonneg h.nonneg]
    · have hlt : ¬ (s.probesSent ≥ s.ntpc.probeCount ∧ s.ntpc.probeCount ≠ 0) := hmore
      rw [h.probeCount] at hlt
      rw [hsent']
      omega
    · rw [htimeout']
      omega
  · have hconst : s'.ntpc.cycleTime = s.ntpc.cycleTime ∧ s'.ntpc.probeCount = s.ntpc.probeCount := by
      rcases hquiet.ntpc with heq | heq <;> rw [heq] <;> exact ⟨rfl, rfl⟩
    obtain ⟨acts, hlog, hacts⟩ := hquiet.log
    refine ⟨hconst.1.trans h.cycleTime, hconst.2.trans h.probeCount, ?_, ?_, ?_, ?_,
      fun hc => hquiet.timeout (h.timeout hc)⟩
    · rw [hquiet.probesSent]
      exact h.nonneg
    · rw [hquiet.sum, hquiet.probesSent]
      exact h.sum
    · rw [hlog, probeTimes_quiet fun x hx => (hacts x hx).imp fun _ hr => hr.1, hquiet.probesSent]
      exact h.probes
    · rw [hquiet.probesSent]
      exact h.count

theorem Timetable.run {debug : Bool} {minDelay : ℚ} {ntpc : Control} {freq : ℤ} {es : List Event}
    {s : State} (h : run (NtpClient.step debug minDelay) (NtpClient.start ntpc freq) es = some s) :
    Timetable ntpc s :=
  run_invariant (fun _ _ _ hs hstep => hs.step hstep) (.start ntpc freq) h

def Event.isTimedOut : Event → Bool
  | .timedOut _ => true
  | _ => false

theorem step_timedOut {debug : Bool} {minDelay : ℚ} {s s' : State} {e : Event}
    (h : step debug minDelay s e = some s') :
    s.running = true ∧ (if e.isTimedOut then 1 else 0) + s.probesSent ≤
      s'.probesSent + if s'.running then 0 else 1 := by
  obtain ⟨hrun, ⟨now, rfl, -, ⟨-, rfl⟩ | ⟨-, rfl⟩⟩ | ⟨hother, after, b, -, hafter, hcases⟩⟩ :=
    step_cases h
  · refine ⟨hrun, ?_⟩
    simp only [Event.isTimedOut, State.wait, if_true, Bool.false_eq_true, if_false]
    omega
  · obtain ⟨-, hsent, -, -, hrun', -⟩ := sendProbe_frame now (s.wait s.timeout)
    have hon : (s.wait s.timeout).running = true := hrun
    have hsame : (s.wait s.timeout).probesSent = s.probesSent := rfl
    refine ⟨hrun, ?_⟩
    rw [hsent, hrun', hon, hsame]
    simp only [Event.isTimedOut, if_true]
    omega
  · have hquiet : s'.probesSent = s.probesSent := by
      rcases hcases with rfl | ⟨error, rfl⟩ | ⟨r, error, s₁, -, hadj, rfl⟩
      · rfl
      · exact (afterPacket_frame error _).2.1
      · exact (afterPacket_frame error _).2.1.trans hadj.probesSent
    have hno : e.isTimedOut = false := by
      cases e with
      | timedOut now => exact absurd rfl (hother now)
      | interrupted after => rfl
      | readable after received => rfl
    refine ⟨hrun, ?_⟩
    rw [hquiet, hno, if_neg Bool.false_ne_true]
    split <;> omega

theorem run_timedOut {debug : Bool} {minDelay : ℚ} {es : List Event} {s s' : State}
    (h : run (step debug minDelay) s es = some s') (hrun : s.running = true) :
    (es.countP Event.isTimedOut : ℤ) + s.probesSent ≤ s'.probesSent + if s'.running then 0 else 1 := by
  induction es generalizing s with
  | nil =>
    rw [run_nil, Option.some.injEq] at h
    subst h
    rw [hrun]
    simp
  | cons e es ih =>
    obtain ⟨s₁, hstep, hrest⟩ := run_cons_eq_some _ h
    obtain ⟨-, hfirst⟩ := step_timedOut hstep
    rw [List.countP_cons]
    by_cases hgoes : s₁.running = true
    · have hmore := ih hrest hgoes
      rw [hgoes, if_pos rfl] at hfirst
      push_cast
      linarith
    · cases es with
      | nil =>
        rw [run_nil, Option.some.injEq] at hrest
        subst hrest
        rw [List.countP_nil]
        push_cast
        linarith
      | cons e' es =>
        obtain ⟨s₂, hstep', -⟩ := run_cons_eq_some _ hrest
        exact absurd (step_timedOut hstep').1 hgoes

/-- A clock that reads `sec` full seconds. -/
def fullSecond (sec : ℤ) : Timeval := .ofMicros (sec * 1000000)

/-- What a synchronised server answers to a probe, by return. -/
def answer (sent served : NtpTime) : List Byte :=
  [0x1c010000, 0, 0, 0, 0, 0, sent.coarse, sent.fine, served.coarse, served.fine, served.coarse,
    served.fine].flatMap htonl

/-- Three probes; an interruption, a packet from somewhere else and an answer come after the first. -/
def threeProbes : List Event := [.timedOut (fullSecond 1000000000), .interrupted 500000,
  .readable 400000 (.packet [1, 2, 3] 5353 (fullSecond 1000000001)),
  .readable 100000 (.packet (answer (ntpcGettime (fullSecond 1000000000)) ⟨3208988850, 0⟩) ntpPort
    (fullSecond 1000000001)),
  .timedOut (fullSecond 1000000015), .timedOut (fullSecond 1000000030),
  .timedOut (fullSecond 1000000045)]

/-- `-s -l -c 3 -i 10`; the interval is `MIN_INTERVAL`. -/
def threeTimes : Control := configure ⟨0, 0⟩ [.s, .l, .c 3, .i 10]

theorem threeProbes_run : ∃ s, run (step false 0) (start threeTimes 0) threeProbes = some s := by
  have h : (run (step false 0) (start threeTimes 0) threeProbes).isSome = true := by decide +kernel
  exact Option.isSome_iff_exists.mp h

/-- **Probe `k` goes out when `k` cycle times have been spent in `select`**, whatever arrives and
whenever: `n` probes have gone out before more than `n` cycle times have. With a count there are no
more probes than that, and the loop ends: at the next timeout at the latest, after no more than that
many cycle times in `select`. -/
theorem probes_on_time {debug : Bool} {minDelay : ℚ} {ntpc : Control} {freq : ℤ} {es : List Event}
    {s : State} (h : run (step debug minDelay) (start ntpc freq) es = some s) :
    (∃ n : ℕ, s.probesSent = n ∧ probeTimes s.log =
        ((List.range n).reverse.map fun k : ℕ => (k : ℤ) * (ntpc.cycleTime * 1000000)) ∧
      (0 ≤ ntpc.cycleTime → s.waited ≤ n * (ntpc.cycleTime * 1000000))) ∧
    (0 < ntpc.probeCount → (probeTimes s.log).length ≤ ntpc.probeCount ∧
      es.countP Event.isTimedOut ≤ ntpc.probeCount + 1 ∧
      (0 ≤ ntpc.cycleTime → s.waited ≤ ntpc.probeCount * (ntpc.cycleTime * 1000000))) := by
  have ht := Timetable.run h
  have hn : (s.probesSent.toNat : ℤ) = s.probesSent := Int.toNat_of_nonneg ht.nonneg
  have hlen : ((probeTimes s.log).length : ℤ) = s.probesSent := by
    rw [ht.probes, List.length_map, List.length_reverse, List.length_range, hn]
  have hwaited : 0 ≤ ntpc.cycleTime → s.waited ≤ s.probesSent * (ntpc.cycleTime * 1000000) := by
    intro hcycle
    have hto := ht.timeout hcycle
    have hsum := ht.sum
    omega
  have hcount := run_timedOut h rfl
  have hsent : (start ntpc freq).probesSent = 0 := rfl
  refine ⟨⟨s.probesSent.toNat, hn.symm, ht.probes, fun hcycle => ?_⟩, fun hc => ⟨?_, ?_, fun hcycle => ?_⟩⟩
  · rw [hn]
    exact hwaited hcycle
  · rw [hlen]
    exact ht.count hc
  · have hle := ht.count hc
    rw [hsent] at hcount
    split at hcount <;> omega
  · have hle : s.probesSent * (ntpc.cycleTime * 1000000) ≤
        ntpc.probeCount * (ntpc.cycleTime * 1000000) :=
      mul_le_mul_of_nonneg_right (ht.count hc) (by omega)
    exact (hwaited hcycle).trans hle

theorem probes_on_time_three : ∃ s, run (step false 0) (start threeTimes 0) threeProbes = some s ∧
    (probeTimes s.log).length ≤ 3 ∧ s.waited ≤ 45000000 := by
  obtain ⟨s, hs⟩ := threeProbes_run
  obtain ⟨-, hcount⟩ := probes_on_time hs
  obtain ⟨hle, -, hwaited⟩ := hcount (by decide)
  have hthree : ((probeTimes s.log).length : ℤ) ≤ 3 := hle
  exact ⟨s, hs, by exact_mod_cast hthree, hwaited (by decide)⟩

theorem chain_of_multiples {c d : ℤ} (h : d ≤ c) (n : ℕ) :
    ((List.range n).reverse.map fun k : ℕ => (k : ℤ) * c).IsChain fun new old => old + d ≤ new := by
  induction n with
  | zero => exact .nil
  | succ n ih =>
    cases n with
    | zero => exact .singleton _
    | succ n =>
      rw [List.range_succ, List.reverse_append, List.reverse_singleton, List.singleton_append,
        List.range_succ, List.reverse_append, List.reverse_singleton, List.singleton_append]
      rw [List.range_succ, List.reverse_append, List.reverse_singleton, List.singleton_append] at ih
      refine .cons_cons ?_ ih
      push_cast
      linarith

theorem keepInterval_interval (ntpc : Control) :
    (keepInterval ntpc).probeCount = 1 ∨ minInterval ≤ (keepInterval ntpc).cycleTime := by
  unfold keepInterval
  split
  · exact .inr le_rfl
  · next hno =>
    rw [not_and_or, not_not, not_lt] at hno
    exact hno

/-- **The server is asked at most every `MIN_INTERVAL` seconds**, whatever the options are. -/
theorem probes_apart {debug : Bool} {minDelay : ℚ} {stack : NtpTime} {opts : List Opt} {freq : ℤ}
    {es : List Event} {s : State}
    (h : run (step debug minDelay) (start (configure stack opts) freq) es = some s) :
    (probeTimes s.log).IsChain fun new old => old + minInterval * 1000000 ≤ new := by
  have ht := Timetable.run h
  rw [ht.probes]
  rcases keepInterval_interval _ with hone | hlong
  · have hle : s.probesSent ≤ 1 := by
      have hc : (configure stack opts).probeCount = 1 := hone
      have hcount := ht.count (by rw [hc]; exact zero_lt_one)
      rwa [hc] at hcount
    have hn : s.probesSent.toNat = 0 ∨ s.probesSent.toNat = 1 := by omega
    rcases hn with hn | hn
    · rw [hn]
      exact .nil
    · rw [hn]
      exact .singleton _
  · refine chain_of_multiples ?_ _
    exact mul_le_mul_of_nonneg_right hlong (by norm_num)

theorem probes_apart_three : ∃ s, run (step false 0) (start threeTimes 0) threeProbes = some s ∧
    (probeTimes s.log).IsChain fun new old => old + 15000000 ≤ new := by
  obtain ⟨s, hs⟩ := threeProbes_run
  exact ⟨s, hs, probes_apart hs⟩

/-! ## Only answers are used -/

/-- What the checks of `rfc1305print` make sure of. -/
structure Answers (sent : NtpTime) (r : Reply) : Prop where
  orgtime : r.orgtime = sent
  mode : r.mode = 4
  vn : 3 ≤ r.vn
  synchronized : r.li ≠ 3
  stratum : r.stratum ≠ 0
  xmttime : r.xmttime ≠ ⟨0, 0⟩
  delay : |r.delay| ≤ 65536
  disp : |r.disp| ≤ 65536

theorem answers_of_kept {ntpc : Control} {r : Reply} (hcheck : ntpc.crossCheck ≠ 0)
    (h : dropReason ntpc r = none) : Answers ntpc.timeOfSend r := by
  rw [dropReason, if_neg hcheck] at h
  split_ifs at h with hli hvn hmode horg hxmt hdelay hdisp hstratum
  refine ⟨not_not.mp horg, not_not.mp hmode, UInt32.not_lt.mp hvn, hli, hstratum, fun heq => ?_, ?_, ?_⟩
  · rw [heq] at hxmt
    exact hxmt ⟨rfl, rfl⟩
  · rw [not_or, not_lt, not_lt] at hdelay
    exact abs_le.mpr ⟨hdelay.2, hdelay.1⟩
  · rw [not_or, not_lt, not_lt] at hdisp
    exact abs_le.mpr ⟨hdisp.2, hdisp.1⟩

/-- The time of the last probe; before the first one, what `time_of_send` held. -/
def lastProbe (stack : NtpTime) : List (ℤ × Action) → NtpTime
  | [] => stack
  | (_, .probe timeSent) :: _ => timeSent
  | _ :: log => lastProbe stack log

/-- Each action that used a packet used an answer to the last probe before it. -/
def Honest (stack : NtpTime) : List (ℤ × Action) → Prop
  | [] => True
  | x :: log => (∀ r, x.2.reply? = some r → Answers (lastProbe stack log) r) ∧ Honest stack log

theorem lastProbe_quiet {stack : NtpTime} {acts log : List (ℤ × Action)}
    (h : ∀ x ∈ acts, ∃ r, x.2.reply? = some r) : lastProbe stack (acts ++ log) = lastProbe stack log := by
  induction acts with
  | nil => rfl
  | cons x acts ih =>
    obtain ⟨⟨r, hr⟩, hacts⟩ := List.forall_mem_cons.mp h
    obtain ⟨t, a⟩ := x
    cases a with
    | probe timeSent => cases hr
    | setTime r => exact ih hacts
    | setFreq r freq => exact ih hacts

theorem Honest.append {stack : NtpTime} {acts log : List (ℤ × Action)} (h : Honest stack log)
    (hacts : ∀ x ∈ acts, ∃ r, x.2.reply? = some r ∧ Answers (lastProbe stack log) r) :
    Honest stack (acts ++ log) := by
  induction acts with
  | nil => exact h
  | cons x acts ih =>
    obtain ⟨⟨r, hr, hans⟩, htail⟩ := List.forall_mem_cons.mp hacts
    refine ⟨fun r' hr' => ?_, ih htail⟩
    obtain rfl := Option.some.inj (hr.symm.trans hr')
    have hlast : lastProbe stack (acts ++ log) = lastProbe stack log :=
      lastProbe_quiet fun x hx => (htail x hx).imp fun _ hx => hx.1
    exact hlast ▸ hans

theorem Honest.suffix {stack : NtpTime} {log pre : List (ℤ × Action)} {x : ℤ × Action}
    (h : Honest stack log) (hsuffix : x :: pre <:+ log) {r : Reply} (hr : x.2.reply? = some r) :
    Answers (lastProbe stack pre) r := by
  induction log with
  | nil => exact absurd (List.suffix_nil.mp hsuffix) (List.cons_ne_nil _ _)
  | cons y log ih =>
    rcases List.suffix_cons_iff.mp hsuffix with heq | htail
    · obtain ⟨rfl, rfl⟩ := List.cons.inj heq
      exact h.1 r hr
    · exact ih h.2 htail

structure Checked (stack : NtpTime) (s : State) : Prop where
  crossCheck : s.ntpc.crossCheck ≠ 0
  timeOfSend : s.ntpc.timeOfSend = lastProbe stack s.log
  honest : Honest stack s.log

theorem Checked.step {debug : Bool} {minDelay : ℚ} {stack : NtpTime} {s s' : State} {e : Event}
    (h : Checked stack s) (hstep : step debug minDelay s e = some s') : Checked stack s' := by
  obtain ⟨now, -, -, rfl⟩ | hquiet := step_probe_or_quiet hstep
  · obtain ⟨hntpc, -, -, -, -, hlog⟩ := sendProbe_frame now (s.wait s.timeout)
    refine ⟨?_, ?_, ?_⟩
    · rw [hntpc]
      exact h.crossCheck
    · rw [hntpc, hlog]
      rfl
    · rw [hlog]
      exact ⟨fun r hr => (by cases hr), h.honest⟩
  · have hconst : s'.ntpc.crossCheck = s.ntpc.crossCheck ∧ s'.ntpc.timeOfSend = s.ntpc.timeOfSend := by
      rcases hquiet.ntpc with heq | heq <;> rw [heq] <;> exact ⟨rfl, rfl⟩
    obtain ⟨acts, hlog, hacts⟩ := hquiet.log
    refine ⟨?_, ?_, ?_⟩
    · rw [hconst.1]
      exact h.crossCheck
    · rw [hconst.2, hlog, lastProbe_quiet fun x hx => (hacts x hx).imp fun _ hx => hx.1]
      exact h.timeOfSend
    · rw [hlog]
      refine h.honest.append fun x hx => ?_
      obtain ⟨r, hr, hdrop⟩ := hacts x hx
      exact ⟨r, hr, h.timeOfSend ▸ answers_of_kept h.crossCheck hdrop⟩

/-- **The clock is only set and steered by answers to the last probe**, from a synchronised server,
whatever else arrives, unless `-t` asks for trust. -/
theorem only_answers_used {debug : Bool} {minDelay : ℚ} {ntpc : Control} {freq : ℤ} {es : List Event}
    {s : State} (hcheck : ntpc.crossCheck ≠ 0)
    (h : run (step debug minDelay) (start ntpc freq) es = some s) {x : ℤ × Action}
    {pre : List (ℤ × Action)} (hlog : x :: pre <:+ s.log) {r : Reply} (hr : x.2.reply? = some r) :
    Answers (lastProbe ntpc.timeOfSend pre) r := by
  have hstart : Checked ntpc.timeOfSend (start ntpc freq) := ⟨hcheck, rfl, trivial⟩
  have hend : Checked ntpc.timeOfSend s := run_invariant (fun _ _ _ hs hstep => hs.step hstep) hstart h
  exact hend.honest.suffix hlog hr

theorem only_answers_used_three : ∃ s x pre r,
    run (step false 0) (start threeTimes 0) threeProbes = some s ∧ x :: pre <:+ s.log ∧
    x.2.reply? = some r ∧ Answers (lastProbe ⟨0, 0⟩ pre) r := by
  have h : ((run (step false 0) (start threeTimes 0) threeProbes).bind fun s =>
      (s.log.drop 2).head?.bind fun x => x.2.reply?).isSome = true := by decide +kernel
  obtain ⟨r, hr⟩ := Option.isSome_iff_exists.mp h
  obtain ⟨s, hs, hr⟩ := Option.bind_eq_some_iff.mp hr
  obtain ⟨x, hx, hr⟩ := Option.bind_eq_some_iff.mp hr
  obtain ⟨pre, hpre⟩ := List.head?_eq_some_iff.mp hx
  have hlog : x :: pre <:+ s.log := hpre ▸ List.drop_suffix 2 s.log
  exact ⟨s, x, pre, r, hs, hlog, hr, only_answers_used (by decide) hs hlog hr⟩

/-! ## A simple clock set -/

def Action.isSetTime : Action → Bool
  | .setTime _ => true
  | _ => false

def settings (log : List (ℤ × Action)) : ℕ := log.countP fun x => x.2.isSetTime

/-- After the one probe of a simple clock set. -/
structure Once (s : State) : Prop where
  live : s.ntpc.live = 0
  probeCount : s.ntpc.probeCount = 1
  sent : 1 ≤ s.probesSent
  unset : s.running = true → settings s.log = 0
  once : settings s.log ≤ 1

theorem Once.step {debug : Bool} {minDelay : ℚ} {s s' : State} {e : Event} (h : Once s)
    (hstep : step debug minDelay s e = some s') : Once s' := by
  have hspent : s.Spent := ⟨h.probeCount.trans_le h.sent, by rw [h.probeCount]; exact one_ne_zero⟩
  obtain ⟨hrun, ⟨now, -, -, ⟨-, rfl⟩ | ⟨hmore, -⟩⟩ |
    ⟨-, after, b, -, -, rfl | ⟨error, rfl⟩ | ⟨r, error, s₁, -, hadj, rfl⟩⟩⟩ := step_cases hstep
  · exact ⟨h.live, h.probeCount, h.sent, fun hr => absurd hr Bool.false_ne_true, h.once⟩
  · exact absurd hspent hmore
  · exact ⟨h.live, h.probeCount, h.sent, h.unset, h.once⟩
  · have hdone : afterPacket error (s.idle after b) =
        { s.idle after b with ntpc := { s.ntpc with setClock := 0 }, running := decide (s.ntpc.live ≠ 0) } :=
      if_pos (.inr hspent)
    rw [hdone]
    refine ⟨h.live, h.probeCount, h.sent, fun hr => ?_, h.once⟩
    exact absurd (of_decide_eq_true hr) (not_not.mpr h.live)
  · have hntpc : s₁.ntpc = s.ntpc := hadj.ntpc
    have hsent : s₁.probesSent = s.probesSent := hadj.probesSent
    have hdone : afterPacket error s₁ =
        { s₁ with ntpc := { s₁.ntpc with setClock := 0 }, running := decide (s₁.ntpc.live ≠ 0) } := by
      refine if_pos (.inr ?_)
      rw [hntpc, hsent]
      exact hspent
    obtain ⟨freqs, hlog, hfreqs⟩ := hadj.log
    have hnone : freqs = [] := hfreqs.resolve_right fun ⟨_, _, hlive, _⟩ => hlive h.live
    have hunset : settings s.log = 0 := h.unset hrun
    have hcount : settings s₁.log ≤ 1 := by
      rw [hlog, hnone, List.nil_append, settings, List.countP_append]
      have hsame : (s.idle after b).log.countP (fun x => x.2.isSetTime) = 0 := hunset
      rw [hsame]
      split
      · exact le_rfl
      · exact Nat.zero_le 1
    rw [hdone]
    refine ⟨?_, ?_, ?_, fun hr => ?_, hcount⟩
    · rw [hntpc]
      exact h.live
    · rw [hntpc]
      exact h.probeCount
    · exact hsent ▸ h.sent
    · exact absurd (of_decide_eq_true hr) (not_not.mpr (hntpc ▸ h.live))

/-- The options of a simple clock set. -/
def Opt.Simple : Opt → Prop
  | .c n => n = 1
  | .g _ => False
  | .l => False
  | _ => True

theorem readOpts_simple {opts : List Opt} (hopts : ∀ o ∈ opts, o.Simple) (ntpc : Control)
    (hlive : ntpc.live = 0) (hgood : ntpc.goodness = 0)
    (hcount : ntpc.probeCount = 0 ∨ ntpc.probeCount = 1) (hset : 0 ≤ ntpc.setClock) :
    let ntpc' := opts.foldl readOpt ntpc
    ntpc'.live = 0 ∧ ntpc'.goodness = 0 ∧ (ntpc'.probeCount = 0 ∨ ntpc'.probeCount = 1) ∧
      ntpc.setClock ≤ ntpc'.setClock ∧ (.s ∈ opts → 0 < ntpc'.setClock) := by
  induction opts generalizing ntpc with
  | nil => exact ⟨hlive, hgood, hcount, le_rfl, fun h => absurd h List.not_mem_nil⟩
  | cons o opts ih =>
    obtain ⟨ho, hrest⟩ := List.forall_mem_cons.mp hopts
    have hstep : (readOpt ntpc o).live = 0 ∧ (readOpt ntpc o).goodness = 0 ∧
        ((readOpt ntpc o).probeCount = 0 ∨ (readOpt ntpc o).probeCount = 1) ∧
        ntpc.setClock ≤ (readOpt ntpc o).setClock ∧ (o = .s → 0 < (readOpt ntpc o).setClock) := by
      cases o with
      | c n => exact ⟨hlive, hgood, .inr ho, le_rfl, fun h => nomatch h⟩
      | d => exact ⟨hlive, hgood, hcount, le_rfl, fun h => nomatch h⟩
      | g n => exact ho.elim
      | i n => exact ⟨hlive, hgood, hcount, le_rfl, fun h => nomatch h⟩
      | l => exact ho.elim
      | s => exact ⟨hlive, hgood, hcount, by simp only [readOpt]; omega, fun _ => by
          simp only [readOpt]
          omega⟩
      | t => exact ⟨hlive, hgood, hcount, le_rfl, fun h => nomatch h⟩
    obtain ⟨hlive', hgood', hcount', hset', hs⟩ := hstep
    obtain ⟨h1, h2, h3, h4, h5⟩ := ih hrest _ hlive' hgood' hcount' (hset.trans hset')
    refine ⟨h1, h2, h3, hset'.trans h4, fun hmem => ?_⟩
    rcases List.mem_cons.mp hmem with heq | hmem
    · exact (hs heq.symm).trans_le h4
    · exact h5 hmem

theorem configure_simple (stack : NtpTime) {opts : List Opt} (hopts : ∀ o ∈ opts, o.Simple)
    (hs : .s ∈ opts) : (configure stack opts).live = 0 ∧ (configure stack opts).probeCount = 1 := by
  obtain ⟨hlive, hgood, hcount, -, hset⟩ :=
    readOpts_simple hopts { timeOfSend := stack } rfl rfl (.inl rfl) le_rfl
  have hset := hset hs
  have honce : (simpleSet (opts.foldl readOpt { timeOfSend := stack })).probeCount = 1 ∧
      (simpleSet (opts.foldl readOpt { timeOfSend := stack })).live = 0 := by
    unfold simpleSet
    split
    · exact ⟨rfl, hlive⟩
    · next hno =>
      refine ⟨hcount.resolve_left fun hzero => hno ⟨hset.ne', hlive, hgood, hzero⟩, hlive⟩
  have hkeep : configure stack opts = simpleSet (opts.foldl readOpt { timeOfSend := stack }) :=
    if_neg fun hlong => hlong.1 honce.1
  rw [hkeep]
  exact ⟨honce.2, honce.1⟩

/-- **A simple clock set sets the clock at most once**, and it ends as soon as it has; the first
`select` finds nothing to read. -/
theorem clock_set_once {debug : Bool} {minDelay : ℚ} {stack : NtpTime} {opts : List Opt}
    (hopts : ∀ o ∈ opts, o.Simple) (hs : .s ∈ opts) {freq : ℤ} {now : Timeval} {es : List Event}
    {s : State}
    (h : run (step debug minDelay) (start (configure stack opts) freq) (.timedOut now :: es) = some s) :
    settings s.log ≤ 1 ∧ (settings s.log = 1 → s.running = false) ∧ (probeTimes s.log).length = 1 := by
  obtain ⟨hlive, hcount⟩ := configure_simple stack hopts hs
  obtain ⟨s₁, hfirst, hrest⟩ := run_cons_eq_some _ h
  have hsent : s₁ = sendProbe now ((start (configure stack opts) freq).wait 0) := by
    have hmore : ¬ (start (configure stack opts) freq).Spent := by
      rintro ⟨hge, -⟩
      have h0 : (start (configure stack opts) freq).probesSent = 0 := rfl
      have h1 : (start (configure stack opts) freq).ntpc.probeCount = 1 := hcount
      omega
    obtain ⟨-, ⟨now', hnow, -, ⟨hspent, -⟩ | ⟨-, heq⟩⟩ | ⟨hother, -⟩⟩ := step_cases hfirst
    · exact absurd hspent hmore
    · cases hnow
      exact heq
    · exact absurd rfl (hother now)
  have hone : Once s₁ := by
    obtain ⟨hntpc, hprobes, -, -, -, hlog⟩ :=
      sendProbe_frame now ((start (configure stack opts) freq).wait 0)
    have hzero : settings s₁.log = 0 := by
      rw [hsent, hlog]
      rfl
    refine ⟨?_, ?_, ?_, fun _ => hzero, hzero.le.trans (Nat.zero_le 1)⟩
    · rw [hsent, hntpc]
      exact hlive
    · rw [hsent, hntpc]
      exact hcount
    · rw [hsent, hprobes]
      exact le_rfl
  have hend : Once s := run_invariant (fun _ _ _ ho hstep => ho.step hstep) hone hrest
  have ht := Timetable.run h
  refine ⟨hend.once, fun hset => ?_, ?_⟩
  · by_contra hrun
    rw [Bool.not_eq_false] at hrun
    exact absurd (hend.unset hrun) (by omega)
  · have hle := ht.count (by rw [hcount]; exact zero_lt_one)
    have hge := hend.sent
    rw [hcount] at hle
    rw [ht.probes, List.length_map, List.length_reverse, List.length_range]
    omega

/-- `-s`, where the answer to the probe is the last packet that is read. -/
theorem clock_set_once_answered : ∃ s, run (step false 0) (start (configure ⟨0, 0⟩ [.s]) 0)
    (threeProbes.take 4) = some s ∧ settings s.log = 1 ∧ s.running = false := by
  have h : ((run (step false 0) (start (configure ⟨0, 0⟩ [.s]) 0) (threeProbes.take 4)).any fun s =>
      settings s.log == 1) = true := by decide +kernel
  obtain ⟨s, hs, hset⟩ := (Option.any_eq_true _ _).mp h
  have hone : settings s.log = 1 := beq_iff_eq.mp hset
  obtain ⟨-, hended, -⟩ := clock_set_once (by simp [Opt.Simple]) (by simp) hs
  exact ⟨s, hs, hone, hended hone⟩

end LidarRelay.NtpClient
