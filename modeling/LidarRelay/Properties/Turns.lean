import LidarRelay.Programs.Chat

/-! # The turns of the chat

The turn passes by the bytes that arrive. A line of which nothing is left when its last byte has
been cut off hands it to nobody: `write` writes nothing, and then both programs wait for the other.
`no_deadlock_iff` says that nothing else can stop the chat.
-/

namespace LidarRelay.Turns
open Chat Duplex
set_option autoImplicit false
set_option maxHeartbeats 250000

/-- What goes out of the bytes of one `read`. -/
def said (part : List Byte) : List Byte := part.dropLast.takeWhile (· != nul)

/-- No `read` of the line returns a NUL first, or the last byte of the line alone. -/
def NeverBlank (line : Line) : Prop :=
  ∀ j, line.bytes.drop ((bufSize - 1) * j) ≠ [] →
    (line.bytes.drop ((bufSize - 1) * j)).head? ≠ some nul ∧
      (line.bytes.drop ((bufSize - 1) * j)).length ≠ 1

def lineOf (p : End) : Duplex.Event Action → Option Line
  | .act q (.typed line) => if q = p then some line else none
  | _ => none

/-- The lines that the user at one end types in a run. -/
def linesOf (p : End) (es : List (Duplex.Event Action)) : List Line := es.filterMap (lineOf p)

/-- In the run both users type what is theirs to type, as far as they get. -/
def Follows (typed : End → ℕ → Line) (es : List (Duplex.Event Action)) : Prop :=
  ∀ p, ∃ n, linesOf p es = (List.range n).map (typed p)

theorem lineOf_eq_some {p : End} {e : Duplex.Event Action} {line : Line} :
    lineOf p e = some line ↔ e = .act p (.typed line) := by
  constructor
  · intro h
    unfold lineOf at h
    split at h
    · rw [Option.ite_none_right_eq_some, Option.some.injEq] at h
      rw [h.1, h.2]
    · cases h
  · rintro rfl
    exact if_pos rfl

theorem mem_linesOf {p : End} {line : Line} {es : List (Duplex.Event Action)} :
    line ∈ linesOf p es ↔ .act p (.typed line) ∈ es := by
  simp only [linesOf, List.mem_filterMap, lineOf_eq_some, exists_eq_right]

/-! ## One line -/

theorem said_eq_nil_iff {part : List Byte} (h : part ≠ []) :
    said (part.take (bufSize - 1)) = [] ↔ part.head? = some nul ∨ part.length = 1 := by
  cases part with
  | nil => exact absurd rfl h
  | cons b part =>
    cases part with
    | nil => simp [said, bufSize]
    | cons c part =>
      have htake : said ((b :: c :: part).take (bufSize - 1)) =
          (b :: (c :: part.take 1021).dropLast).takeWhile (· != nul) := rfl
      rw [htake]
      by_cases hb : b = nul
      · simp [hb]
      · simp [hb]

theorem said_length (line : Line) : (said line.head).length < bufSize - 1 := by
  have hle : (said line.head).length ≤ line.head.dropLast.length :=
    (List.takeWhile_prefix _).length_le
  have hhead : line.head.length ≤ bufSize - 1 := List.length_take_le _ _
  rw [List.length_dropLast] at hle
  have hpos : 0 < bufSize - 1 := by decide
  omega

theorem neverBlank_iff (line : Line) :
    NeverBlank line ↔ said line.head ≠ [] ∧ ∀ r ∈ line.rest, NeverBlank r := by
  have hfirst : said line.head ≠ [] ↔
      line.bytes.head? ≠ some nul ∧ line.bytes.length ≠ 1 := by
    rw [Line.head, ne_eq, said_eq_nil_iff line.nonempty, not_or]
  have hdrop : ∀ j, line.bytes.drop ((bufSize - 1) * (j + 1)) =
      (line.bytes.drop (bufSize - 1)).drop ((bufSize - 1) * j) := by
    intro j
    rw [List.drop_drop, Nat.mul_succ, Nat.add_comm]
  rw [hfirst]
  constructor
  · intro h
    refine ⟨h 0 line.nonempty, fun r hr j => ?_⟩
    unfold Line.rest at hr
    split at hr
    · cases hr
    · obtain rfl := List.mem_singleton.mp hr
      have hj := h (j + 1)
      rw [hdrop] at hj
      exact hj
  · rintro ⟨h, hrest⟩ j
    cases j with
    | zero => exact fun _ => h
    | succ j =>
      rw [hdrop]
      by_cases hnil : line.bytes.drop (bufSize - 1) = []
      · rw [hnil, List.drop_nil]
        exact fun hne => absurd rfl hne
      · have hmem : (⟨line.bytes.drop (bufSize - 1), hnil⟩ : Line) ∈ line.rest := by
          rw [Line.rest, dif_neg hnil]
          exact List.mem_singleton_self _
        exact hrest _ hmem j

/-- `buf` holds a text that `strlen` finds. -/
structure Pending (buf : Buffer bufSize) (text : List Byte) : Prop where
  length : strlen buf.bytes = .ok text.length
  bytes : buf.bytes.take text.length = text

theorem readLine_ok {s : State} {line : Line} {lines : List Line} (hphase : s.phase = .typing)
    (hterminal : s.terminal = line :: lines) :
    ∃ buf, readLine s = some ⟨.writing, buf, line.rest ++ lines⟩ ∧
      Pending buf (said line.head) := by
  have hne : line.head ≠ [] := fun h =>
    line.nonempty ((List.take_eq_nil_iff.mp h).resolve_left (by decide))
  have hpos : 0 < line.head.length := List.length_pos_iff.mpr hne
  have hle : line.head.length ≤ bufSize := (List.length_take_le _ _).trans (Nat.sub_le _ _)
  obtain ⟨buf, hbuf, hbytes⟩ := s.buf.recv_store_last hpos hle
  have hlen : strlen buf.bytes = .ok (said line.head).length := by
    rw [hbytes, strlen_append_nul]
    rfl
  refine ⟨buf, ?_, hlen, ?_⟩
  · simp only [readLine, hphase, hterminal, hbuf]
  · rw [take_strlen hlen, hbytes, takeWhile_append_nul]
    rfl

theorem readLine_eq_some {s s' : State} (h : readLine s = some s') :
    ∃ line lines buf, s.terminal = line :: lines ∧ s' = ⟨.writing, buf, line.rest ++ lines⟩ ∧
      Pending buf (said line.head) := by
  cases hphase : s.phase with
  | typing =>
    cases hterminal : s.terminal with
    | nil => simp [readLine, hphase, hterminal] at h
    | cons line lines =>
      obtain ⟨buf, hok, hpending⟩ := readLine_ok hphase hterminal
      exact ⟨line, lines, buf, rfl, Option.some.inj (h.symm.trans hok), hpending⟩
  | _ => simp [readLine, hphase] at h

theorem write_ok {c : Program} {s : State} {text : List Byte} (hphase : s.phase = .writing)
    (h : Pending s.buf text) :
    write c s = some ({ s with phase := .reading, buf := c.beforeRead s.buf }, text) := by
  simp only [write, hphase, h.length, h.bytes]

theorem write_eq_some {c : Program} {s s' : State} {out : List Byte}
    (h : write c s = some (s', out)) : s.phase = .writing ∧ s'.phase = .reading ∧
      s'.terminal = s.terminal ∧ ∃ n, strlen s.buf.bytes = .ok n ∧ out = s.buf.bytes.take n := by
  unfold write at h
  split at h
  · rename_i n hphase hlen
    obtain ⟨rfl, rfl⟩ := Prod.mk.inj (Option.some.inj h)
    exact ⟨hphase, rfl, rfl, n, hlen, rfl⟩
  · cases h

def withLines (s : State) (lines : List Line) : State := { s with terminal := s.terminal ++ lines }

/-- All that a program can do by itself. -/
theorem act_cases {c : Program} {s s' : State} {a : Action} {out : List Byte}
    (h : act c s a = some (s', out)) :
    (∃ line, a = .typed line ∧ s' = withLines s [line] ∧ out = []) ∨
    (a = .readLine ∧ readLine s = some s' ∧ out = []) ∨
    ((a = .endOfInput ∧ s.phase = .typing ∨ a = .socketError) ∧ s' = leave s ∧ out = []) ∨
    (a = .write ∧ write c s = some (s', out)) := by
  cases a with
  | typed line =>
    obtain ⟨rfl, rfl⟩ := Prod.mk.inj (Option.some.inj h)
    exact .inl ⟨line, rfl, rfl, rfl⟩
  | readLine =>
    obtain ⟨t, ht, heq⟩ := Option.map_eq_some_iff.mp h
    obtain ⟨rfl, rfl⟩ := Prod.mk.inj heq
    exact .inr (.inl ⟨rfl, ht, rfl⟩)
  | endOfInput =>
    obtain ⟨htyping, hleave⟩ := Option.ite_none_right_eq_some.mp h
    obtain ⟨rfl, rfl⟩ := Prod.mk.inj (Option.some.inj hleave)
    exact .inr (.inr (.inl ⟨.inl ⟨rfl, htyping⟩, rfl, rfl⟩))
  | socketError =>
    obtain ⟨-, hleave⟩ := Option.ite_none_right_eq_some.mp h
    obtain ⟨rfl, rfl⟩ := Prod.mk.inj (Option.some.inj hleave)
    exact .inr (.inr (.inl ⟨.inr rfl, rfl, rfl⟩))
  | write => exact .inr (.inr (.inr ⟨rfl, h⟩))

/-! ## Lines that are never blank -/

/-- All that is typed has something to say, and so has what is about to be written. -/
structure Wordy (s : State) : Prop where
  lines : ∀ line ∈ s.terminal, NeverBlank line
  pending : s.phase = .writing → ∃ text, Pending s.buf text ∧ text ≠ []

def Typed (G : Line → Prop) : Action → Prop
  | .typed line => G line
  | _ => True

theorem wordy_leave {s : State} (h : Wordy s) : Wordy (leave s) :=
  ⟨h.lines, Chat.Phase.noConfusion⟩

theorem wordy_readLine {s s' : State} (h : Wordy s) (hs : readLine s = some s') : Wordy s' := by
  obtain ⟨line, lines, buf, hterminal, rfl, hpending⟩ := readLine_eq_some hs
  have hlines := h.lines
  rw [hterminal] at hlines
  obtain ⟨hsaid, hrest⟩ := (neverBlank_iff line).mp (hlines line List.mem_cons_self)
  refine ⟨fun l hl => ?_, fun _ => ⟨_, hpending, hsaid⟩⟩
  rcases List.mem_append.mp hl with hl | hl
  · exact hrest l hl
  · exact hlines l (List.mem_cons_of_mem line hl)

theorem wordy_act {c : Program} {s s' : State} {a : Action} {out : List Byte} (h : Wordy s)
    (ha : Typed NeverBlank a) (hs : act c s a = some (s', out)) : Wordy s' := by
  obtain ⟨line, rfl, rfl, -⟩ | ⟨-, hread, -⟩ | ⟨-, rfl, -⟩ | ⟨-, hwrite⟩ := act_cases hs
  · exact ⟨List.forall_mem_append.mpr ⟨h.lines, List.forall_mem_singleton.mpr ha⟩, h.pending⟩
  · exact wordy_readLine h hread
  · exact wordy_leave h
  · obtain ⟨-, hphase, hterminal, -⟩ := write_eq_some hwrite
    exact ⟨hterminal ▸ h.lines, fun hw => Chat.Phase.noConfusion (hphase.symm.trans hw)⟩

/-- Only the `write` leads to the `read` from the socket, and it has written something. -/
theorem act_writes {c : Program} {s s' : State} {a : Action} (h : Wordy s)
    (hs : act c s a = some (s', [])) (hreading : s'.phase = .reading) : s.phase = .reading := by
  obtain ⟨line, -, rfl, -⟩ | ⟨-, hread, -⟩ | ⟨-, rfl, -⟩ | ⟨-, hwrite⟩ := act_cases hs
  · exact hreading
  · obtain ⟨line, lines, buf, -, rfl, -⟩ := readLine_eq_some hread
    cases hreading
  · cases hreading
  · obtain ⟨hphase, -, -, n, hlen, hout⟩ := write_eq_some hwrite
    obtain ⟨text, hpending, hne⟩ := h.pending hphase
    obtain rfl := Except.ok.inj (hlen.symm.trans hpending.length)
    exact absurd (hpending.bytes.symm.trans hout.symm) hne

theorem peer_speaks (p : End) : Speaks (peer p) Wordy (Typed NeverBlank) where
  start := by
    refine ⟨fun line hl => absurd hl List.not_mem_nil, fun hphase => ?_⟩
    cases p <;> cases hphase
  act := fun _ _ _ _ => wordy_act
  receive := fun _ _ h => ⟨h.lines, Chat.Phase.noConfusion⟩
  ended := fun _ => wordy_leave
  writes := fun _ _ _ h _ hs hread => beq_iff_eq.mpr (act_writes h hs (beq_iff_eq.mp hread))

theorem start_not_deadlocked : ¬ Deadlocked peer (Duplex.start peer) :=
  fun h => Bool.noConfusion (h.waiting .client)

theorem not_deadlocked {es : List (Duplex.Event Action)} {d : Duplex State Byte}
    (hes : ∀ p, ∀ line ∈ linesOf p es, NeverBlank line)
    (hrun : run (Duplex.step peer) (Duplex.start peer) es = some d) : ¬ Deadlocked peer d := by
  refine not_deadlocked_run peer_speaks start_not_deadlocked (fun p a ha => ?_) hrun
  cases a with
  | typed line => exact hes p line (mem_linesOf.mpr ha)
  | _ => trivial

/-! ## A blank line -/

/-- The turn is at one end: its program waits for its user, the other one for it. -/
structure Turn (d : Duplex State Byte) (p : End) (mine theirs : List Line) : Prop where
  typing : (d.process p).phase = .typing
  mine : (d.process p).terminal = mine
  reading : (d.process p.other).phase = .reading
  theirs : (d.process p.other).terminal = theirs
  empty : ∀ q, d.stream q = []

/-- The program has read a line and written it, and nobody has read that yet. -/
structure Spoken (d : Duplex State Byte) (p : End) (text : List Byte) (mine theirs : List Line) :
    Prop where
  reading : ∀ q, (d.process q).phase = .reading
  mine : (d.process p).terminal = mine
  theirs : (d.process p.other).terminal = theirs
  empty : d.stream p = []
  stream : d.stream p.other = text

theorem Turn.speak {d : Duplex State Byte} {p : End} {line : Line} {mine theirs : List Line}
    (h : Turn d p (line :: mine) theirs) :
    ∃ d', run (Duplex.step peer) d [.act p .readLine, .act p .write] = some d' ∧
      Spoken d' p (said line.head) (line.rest ++ mine) theirs := by
  obtain ⟨buf, hread, hpending⟩ := readLine_ok h.typing h.mine
  let s : State := ⟨.writing, buf, line.rest ++ mine⟩
  let s' : State := ⟨.reading, (program p).beforeRead buf, line.rest ++ mine⟩
  have h1 : Duplex.step peer d (.act p .readLine) = some (d.acted p s []) := by
    have hact : (peer p).act (d.process p) .readLine = some (s, []) := by
      change (readLine (d.process p)).map _ = _
      rw [hread]
      rfl
    rw [Duplex.step, hact]
    rfl
  have h2 : Duplex.step peer (d.acted p s []) (.act p .write) =
      some ((d.acted p s []).acted p s' (said line.head)) := by
    have hact : (peer p).act ((d.acted p s []).process p) .write = some (s', said line.head) := by
      rw [acted_self]
      exact write_ok rfl hpending
    rw [Duplex.step, hact]
    rfl
  refine ⟨_, run_trans (run_of_step h1) (run_of_step h2), ?_, ?_, ?_, ?_, ?_⟩
  · intro q
    obtain rfl | rfl := p.eq_or_other q
    · rw [acted_self]
    · rw [acted_other, acted_other, h.reading]
  · rw [acted_self]
  · rw [acted_other, acted_other, h.theirs]
  · rw [acted_stream_self, acted_stream_self, h.empty]
  · rw [acted_stream_other, acted_stream_other, h.empty]
    rfl

theorem Spoken.deadlocked {d : Duplex State Byte} {p : End} {mine theirs : List Line}
    (h : Spoken d p [] mine theirs) : Deadlocked peer d := by
  refine deadlocked_of_waiting (fun q => beq_iff_eq.mpr (h.reading q)) fun q => ?_
  obtain rfl | rfl := p.eq_or_other q
  · exact h.empty
  · exact h.stream

/-- The other end reads all of it, and has the turn. -/
theorem Spoken.heard {d : Duplex State Byte} {p : End} {text : List Byte} {mine theirs : List Line}
    (h : Spoken d p text mine theirs) (hne : text ≠ []) (hlen : text.length < bufSize - 1) :
    ∃ d', run (Duplex.step peer) d [.receive p.other text.length] = some d' ∧
      Turn d' p.other theirs mine := by
  have hroom : text.length ≤ (peer p.other).room := by
    cases p
    · exact hlen.le
    · exact hlen.le.trans (Nat.sub_le _ _)
  have hstep : Duplex.step peer d (.receive p.other text.length) = some (d.received p.other
      ((peer p.other).receive (d.process p.other) ((d.stream p.other).take text.length))
      text.length) := by
    refine if_pos ⟨beq_iff_eq.mpr (h.reading _), List.length_pos_iff.mpr hne, hroom, ?_⟩
    rw [h.stream]
  refine ⟨_, run_of_step hstep, ?_, ?_, ?_, ?_, ?_⟩
  · rw [received_self]
    rfl
  · rw [received_self]
    exact h.theirs
  · rw [received_other, End.other_other, h.reading]
  · rw [received_other, End.other_other, h.mine]
  · intro q
    obtain rfl | rfl := p.other.eq_or_other q
    · rw [received_stream_self, h.stream, List.drop_length]
    · rw [received_stream_other, End.other_other, h.empty]

def Quiet (es : List (Duplex.Event Action)) : Prop := ∀ p, linesOf p es = []

theorem Quiet.append {es fs : List (Duplex.Event Action)} (h : Quiet es) (h' : Quiet fs) :
    Quiet (es ++ fs) := by
  intro p
  rw [linesOf, List.filterMap_append, ← linesOf, ← linesOf, h p, h' p]
  rfl

def size (lines : List Line) : ℕ := (lines.map fun line => line.bytes.length).sum

theorem size_rest (line : Line) (lines : List Line) :
    size (line.rest ++ lines) < size (line :: lines) := by
  have hpos : 0 < line.bytes.length := List.length_pos_iff.mpr line.nonempty
  have hcut : 0 < bufSize - 1 := by decide
  have hdrop : (line.bytes.drop (bufSize - 1)).length = line.bytes.length - (bufSize - 1) :=
    List.length_drop
  have hrest : size line.rest < line.bytes.length := by
    unfold Line.rest
    split
    · exact hpos
    · simp only [size, List.map_singleton, List.sum_singleton, hdrop]
      omega
  have happend : size (line.rest ++ lines) = size line.rest + size lines := by
    simp only [size, List.map_append, List.sum_append]
  have hcons : size (line :: lines) = line.bytes.length + size lines := by
    simp only [size, List.map_cons, List.sum_cons]
  omega

theorem size_pos {lines : List Line} {line : Line} (h : line ∈ lines) : 0 < size lines := by
  cases lines with
  | nil => cases h
  | cons l ls => exact Nat.zero_lt_of_lt (size_rest l ls)

/-- A blank line waits at an end, and the user at the other has typed enough to get to it: a line
for each byte, one less where the turn is at this end. -/
def BlankAhead (own other : List Line) (turn : ℕ) : Prop :=
  (∃ line ∈ own, ¬ NeverBlank line) ∧ size own ≤ other.length + turn

theorem BlankAhead.rest {line : Line} {own other : List Line}
    (h : BlankAhead (line :: own) other 1) (hsaid : said line.head ≠ []) :
    BlankAhead (line.rest ++ own) other 0 := by
  obtain ⟨⟨l, hl, hblank⟩, hsize⟩ := h
  refine ⟨?_, by have := size_rest line own; omega⟩
  rcases List.mem_cons.mp hl with rfl | hl
  · rw [neverBlank_iff, not_and] at hblank
    have hrest := hblank hsaid
    push Not at hrest
    obtain ⟨r, hr, hblank⟩ := hrest
    exact ⟨r, List.mem_append_left _ hr, hblank⟩
  · exact ⟨l, List.mem_append_right _ hl, hblank⟩

theorem BlankAhead.other {line : Line} {own other : List Line}
    (h : BlankAhead own (line :: other) 0) : BlankAhead own (line.rest ++ other) 1 := by
  refine ⟨h.1, h.2.trans ?_⟩
  rw [List.length_cons, List.length_append]
  omega

/-- The program whose turn it is speaks, and the other one hears all of it. -/
theorem Turn.pass {d : Duplex State Byte} {p : End} {line : Line} {mine theirs : List Line}
    (h : Turn d p (line :: mine) theirs) (hsaid : said line.head ≠ []) :
    ∃ es d', Quiet es ∧ run (Duplex.step peer) d es = some d' ∧
      Turn d' p.other theirs (line.rest ++ mine) := by
  obtain ⟨d₁, hspeak, hspoken⟩ := h.speak
  obtain ⟨d₂, hheard, hturn⟩ := hspoken.heard hsaid (said_length line)
  exact ⟨_, d₂, fun _ => rfl, run_trans hspeak hheard, hturn⟩

/-- Heard whole, the lines get to the first blank one, and there both programs stop. -/
theorem deadlock_ahead {d : Duplex State Byte} {p : End} {mine theirs : List Line}
    (h : Turn d p mine theirs) (hblank : BlankAhead mine theirs 1 ∨ BlankAhead theirs mine 0) :
    ∃ es d', Quiet es ∧ run (Duplex.step peer) d es = some d' ∧ Deadlocked peer d' := by
  -- every pass of the turn takes bytes from the lines
  induction hsize : size mine + size theirs using Nat.strong_induction_on
    generalizing d p mine theirs with
  | _ n ih =>
    cases mine with
    | nil =>
      rcases hblank with ⟨⟨line, hl, -⟩, -⟩ | ⟨⟨line, hl, -⟩, hle⟩
      · cases hl
      · exact absurd (size_pos hl) (Nat.not_lt.mpr hle)
    | cons line mine =>
      by_cases hsaid : said line.head = []
      · obtain ⟨d', hrun, hspoken⟩ := h.speak
        rw [hsaid] at hspoken
        exact ⟨_, d', fun _ => rfl, hrun, hspoken.deadlocked⟩
      · obtain ⟨es, d₁, hes, hrun, hturn⟩ := h.pass hsaid
        have hblank' : BlankAhead theirs (line.rest ++ mine) 1 ∨
            BlankAhead (line.rest ++ mine) theirs 0 := by
          rcases hblank with hmine | htheirs
          · exact .inr (hmine.rest hsaid)
          · exact .inl htheirs.other
        have hless : size theirs + size (line.rest ++ mine) < n := by
          have hline := size_rest line mine
          omega
        obtain ⟨fs, d', hfs, hrest, hdead⟩ := ih _ hless hturn hblank' rfl
        exact ⟨es ++ fs, d', hes.append hfs, run_trans hrun hrest, hdead⟩

/-! ## What is typed ahead -/

def typeAhead (p : End) (lines : List Line) : List (Duplex.Event Action) :=
  lines.map fun line => .act p (.typed line)

theorem run_typeAhead (d : Duplex State Byte) (p : End) (lines : List Line) :
    run (Duplex.step peer) d (typeAhead p lines) =
      some (d.setProcess p (withLines (d.process p) lines)) := by
  induction lines generalizing d with
  | nil =>
    have hnone : withLines (d.process p) [] = d.process p := by
      rw [withLines, List.append_nil]
    rw [hnone, setProcess_eq_self]
    rfl
  | cons line lines ih =>
    have hstep : Duplex.step peer d (.act p (.typed line)) =
        some (d.setProcess p (withLines (d.process p) [line])) := by
      rw [← acted_nil]
      rfl
    have hlines : withLines (withLines (d.process p) [line]) lines =
        withLines (d.process p) (line :: lines) := by
      simp only [withLines, List.append_assoc, List.singleton_append]
    have hcons : typeAhead p (line :: lines) = .act p (.typed line) :: typeAhead p lines := rfl
    rw [hcons, run_cons, hstep, Option.bind_some, ih, setProcess_self, setProcess_setProcess,
      hlines]

theorem linesOf_append (p : End) (es fs : List (Duplex.Event Action)) :
    linesOf p (es ++ fs) = linesOf p es ++ linesOf p fs := List.filterMap_append

theorem linesOf_typeAhead_self (p : End) (lines : List Line) :
    linesOf p (typeAhead p lines) = lines := by
  induction lines with
  | nil => rfl
  | cons line lines ih =>
    have hcons : linesOf p (typeAhead p (line :: lines)) =
        line :: linesOf p (typeAhead p lines) :=
      List.filterMap_cons_some (lineOf_eq_some.mpr rfl)
    rw [hcons, ih]

theorem linesOf_typeAhead_other {p q : End} (h : p ≠ q) (lines : List Line) :
    linesOf q (typeAhead p lines) = [] := by
  refine List.eq_nil_iff_forall_not_mem.mpr fun line hl => ?_
  obtain ⟨l, -, heq⟩ := List.mem_map.mp (mem_linesOf.mp hl)
  exact h (Duplex.Event.act.inj heq).1

/-- Both users have typed, and no program has done anything yet. -/
def typing (lines : End → List Line) : List (Duplex.Event Action) :=
  typeAhead .client (lines .client) ++ typeAhead .server (lines .server)

theorem turn_typing (lines : End → List Line) :
    ∃ d, run (Duplex.step peer) (Duplex.start peer) (typing lines) = some d ∧
      Turn d .client (lines .client) (lines .server) := by
  refine ⟨_, run_trans (run_typeAhead _ _ _) (run_typeAhead _ _ _), ?_, ?_, ?_, ?_, ?_⟩
  · rfl
  · rfl
  · rfl
  · rfl
  · exact fun _ => rfl

theorem linesOf_typing (lines : End → List Line) (p : End) : linesOf p (typing lines) = lines p := by
  rw [typing, linesOf_append]
  cases p with
  | client =>
    rw [linesOf_typeAhead_self, linesOf_typeAhead_other (by decide), List.append_nil]
  | server =>
    rw [linesOf_typeAhead_self, linesOf_typeAhead_other (by decide), List.nil_append]

theorem deadlock_of_blank {typed : End → ℕ → Line} {p : End} {k : ℕ}
    (h : ¬ NeverBlank (typed p k)) :
    ∃ es d, Follows typed es ∧ run (Duplex.step peer) (Duplex.start peer) es = some d ∧
      Deadlocked peer d := by
  let first (q : End) (n : ℕ) : List Line := (List.range n).map (typed q)
  let n : End → ℕ := Function.update (fun _ => size (first p (k + 1))) p (k + 1)
  let lines (q : End) : List Line := first q (n q)
  have hown : lines p = first p (k + 1) := by
    simp only [lines, n, Function.update_self]
  have hother : (lines p.other).length = size (first p (k + 1)) := by
    simp only [lines, n, first, Function.update_of_ne p.other_ne, List.length_map,
      List.length_range]
  have hmem : typed p k ∈ lines p := by
    rw [hown]
    exact List.mem_map_of_mem (List.mem_range.mpr k.lt_succ_self)
  have hsize : size (lines p) ≤ (lines p.other).length := by rw [hother, hown]
  have hahead : BlankAhead (lines .client) (lines .server) 1 ∨
      BlankAhead (lines .server) (lines .client) 0 := by
    cases p with
    | client => exact .inl ⟨⟨_, hmem, h⟩, Nat.le_succ_of_le hsize⟩
    | server => exact .inr ⟨⟨_, hmem, h⟩, hsize⟩
  obtain ⟨d, htyping, hturn⟩ := turn_typing lines
  obtain ⟨es, d', hquiet, hrun, hdead⟩ := deadlock_ahead hturn hahead
  refine ⟨typing lines ++ es, d', fun q => ⟨n q, ?_⟩, run_trans htyping hrun, hdead⟩
  rw [linesOf_append, linesOf_typing, hquiet q, List.append_nil]

/-- A deadlock is for good, whatever is typed, unless the connection itself fails. -/
theorem deadlocked_for_good {d d' : Duplex State Byte} {es : List (Duplex.Event Action)}
    (h : Deadlocked peer d) (hes : ∀ p, .act p .socketError ∉ es)
    (hrun : run (Duplex.step peer) d es = some d') : Deadlocked peer d' := by
  refine run_invariant_mem (I := Deadlocked peer) (fun d₁ e he d₂ h₁ hs => ?_) h hrun
  obtain ⟨p, a, rfl⟩ := h₁.step_act hs
  have hphase : (d₁.process p).phase = .reading := beq_iff_eq.mp (h₁.waiting p)
  obtain ⟨s, out, hact, rfl⟩ := act_eq_some hs
  obtain ⟨line, -, rfl, rfl⟩ | ⟨-, hread, -⟩ | ⟨hleave, -⟩ | ⟨-, hwrite⟩ := act_cases hact
  · have hwait : (peer p).waiting (withLines (d₁.process p) [line]) = true := h₁.waiting p
    rw [acted_nil]
    exact deadlocked_of_waiting
      (forall_setProcess (P := fun q s => (peer q).waiting s = true) h₁.waiting hwait) h₁.empty
  · rw [readLine, hphase] at hread
    cases hread
  · rcases hleave with ⟨-, htyping⟩ | rfl
    · cases hphase.symm.trans htyping
    · exact absurd he (hes p)
  · obtain ⟨hwriting, -⟩ := write_eq_some hwrite
    cases hphase.symm.trans hwriting

/-- **The chat never deadlocks just where no line that is typed is ever blank**, whatever else is
typed, whenever it is, and however the two programs and the bytes between them take their steps. -/
theorem no_deadlock_iff (typed : End → ℕ → Line) :
    (∀ es d, Follows typed es →
      run (Duplex.step peer) (Duplex.start peer) es = some d → ¬ Deadlocked peer d) ↔
      ∀ p k, NeverBlank (typed p k) := by
  constructor
  · intro hnever p k
    by_contra hblank
    obtain ⟨es, d, hes, hrun, hdead⟩ := deadlock_of_blank hblank
    exact hnever es d hes hrun hdead
  · intro hlines es d hes hrun
    refine not_deadlocked (fun p line hl => ?_) hrun
    obtain ⟨n, hn⟩ := hes p
    rw [hn] at hl
    obtain ⟨k, -, rfl⟩ := List.mem_map.mp hl
    exact hlines p k

def newline : Line := ⟨[10], List.cons_ne_nil _ _⟩

/-- The first line of the client's user is empty. -/
def emptyLine : List (Duplex.Event Action) :=
  [.act .client (.typed newline), .act .client .readLine, .act .client .write]

theorem emptyLine_deadlocks :
    Follows (fun _ _ => newline) emptyLine ∧
      ∃ d, run (Duplex.step peer) (Duplex.start peer) emptyLine = some d ∧ Deadlocked peer d := by
  constructor
  · intro p
    cases p with
    | client => exact ⟨1, rfl⟩
    | server => exact ⟨0, rfl⟩
  · obtain ⟨d, htyping, hturn⟩ := turn_typing fun p => if p = .client then [newline] else []
    obtain ⟨d', hrun, hspoken⟩ := hturn.speak
    exact ⟨d', run_trans htyping hrun, hspoken.deadlocked⟩

end LidarRelay.Turns
