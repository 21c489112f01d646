import LidarRelay.Foundations.Runs
import LidarRelay.Programs.Decoders

/-! # What the clients act on

The loop of a client over any results of `recv`. An error ends it; 0, which says that the server has
closed the connection, does not: the index `num-1` is then -1, and the round goes on with what the
array still holds. `delivered_iff` says that nothing else can go wrong.
-/

namespace LidarRelay.Delivery
set_option autoImplicit false
set_option maxHeartbeats 250000

inductive RecvResult where
  | error
  | closed
  | bytes (chunk : Chunk maxDataSize)

/-- The loop of a client: what the guarded branch assigns before `recv`, the stores of the decode,
and what follows it. -/
structure Program where
  Memory : Type
  Input : Type
  start : Memory
  before : Input → Memory → Memory
  stores : List (List Byte → Memory → Memory)
  after : Input → Memory → Memory

/-- One pass through the guarded branch: the bytes `recv` has delivered, none where it returned 0,
the index of the terminating NUL, the memory before and after the decode, the fault that ended it,
and whether the connection was closed by then. -/
structure Round (p : Program) where
  chunk : List Byte
  index : ℤ
  memory : p.Memory
  decoded : p.Memory
  fault : Option Fault
  closed : Bool

structure State (p : Program) where
  memory : p.Memory
  buf : Buffer maxDataSize
  running : Bool := true
  closed : Bool := false
  rounds : List (Round p) := []

section Loop
variable {p : Program}

/-- `buf[num-1]='\0'`. With `num==0` the byte before the array is overwritten, which is none of the
program's variables here. -/
def terminated (buf : Buffer maxDataSize) (chunk : List Byte) : Buffer maxDataSize :=
  match terminate buf chunk with
  | .ok b => b
  | .error _ => buf.recv chunk

def receive (s : State p) (q : p.Input) (chunk : List Byte) (closed : Bool) : State p :=
  let b := terminated s.buf chunk
  let memory := p.before q s.memory
  let r := eachField comma p.stores (Scan.start b) memory
  let rounds := s.rounds ++ [⟨chunk, (chunk.length : ℤ) - 1, memory, r.1, faultOf r.2, closed⟩]
  match r.2 with
  | .ok t =>
    { memory := p.after q r.1, buf := t.buffer, running := true, closed := closed, rounds := rounds }
  | .error _ => { memory := r.1, buf := b, running := false, closed := closed, rounds := rounds }

def step (s : State p) (e : p.Input × RecvResult) : Option (State p) :=
  if s.running then
    match e.2 with
    | .error => some { s with memory := p.before e.1 s.memory, running := false }
    | .closed => some (receive s e.1 [] true)
    | .bytes chunk => some (receive s e.1 chunk.bytes s.closed)
  else none

/-- The text that a round decodes: the bytes delivered, the last of them made a NUL. -/
def Round.text (r : Round p) : List Byte := r.chunk.dropLast ++ [nul]

/-- A round as it should be: the index is inside the array, what is stored is a function of the
bytes delivered in this round, and the connection is open. -/
structure Round.Sound (r : Round p) : Prop where
  index : 0 ≤ r.index ∧ r.index ≤ 99
  own : r.decoded = storeFields p.stores (fieldsOf comma p.stores.length r.text).1 r.memory ∧
    r.fault = (fieldsOf comma p.stores.length r.text).2
  opened : r.closed = false

def Delivered (s : State p) : Prop := ∀ r ∈ s.rounds, r.Sound

/-! ## One round -/

theorem receive_rounds (s : State p) (q : p.Input) (chunk : List Byte) (closed : Bool) :
    ∃ r : Round p, (receive s q chunk closed).rounds = s.rounds ++ [r] ∧
      (receive s q chunk closed).closed = closed ∧ r.chunk = chunk ∧
      r.index = (chunk.length : ℤ) - 1 ∧ r.closed = closed ∧
      r.decoded = storeFields p.stores
        (fieldsOf comma p.stores.length (terminated s.buf chunk).bytes).1 r.memory ∧
      r.fault = (fieldsOf comma p.stores.length (terminated s.buf chunk).bytes).2 := by
  obtain ⟨hmemory, hfault⟩ := eachField_eq (c := comma) p.stores
    (Scan.start (terminated s.buf chunk)) (p.before q s.memory)
  unfold receive
  dsimp only
  split
  · exact ⟨_, rfl, rfl, rfl, rfl, rfl, hmemory, hfault⟩
  · exact ⟨_, rfl, rfl, rfl, rfl, rfl, hmemory, hfault⟩

/-- A reply that was delivered is decoded by itself, whatever the array held. -/
theorem fieldsOf_terminated (k : ℕ) (buf : Buffer maxDataSize) (chunk : Chunk maxDataSize) :
    fieldsOf comma k (terminated buf chunk.bytes).bytes =
      fieldsOf comma k (chunk.bytes.dropLast ++ [nul]) := by
  obtain ⟨b, hb, hbytes⟩ := terminate_chunk buf chunk
  have hsplit : chunk.bytes.dropLast ++ nul :: buf.bytes.drop chunk.bytes.length =
      (chunk.bytes.dropLast ++ [nul]) ++ buf.bytes.drop chunk.bytes.length := by
    rw [List.append_assoc]
    rfl
  rw [terminated, hb, hbytes, hsplit, fieldsOf_append_of_nul comma_ne_nul (by simp)]

theorem receive_sound {s : State p} (q : p.Input) (chunk : Chunk maxDataSize)
    (hs : Delivered s) (hopen : s.closed = false) :
    Delivered (receive s q chunk.bytes s.closed) := by
  obtain ⟨r, hrounds, -, hchunk, hindex, hclosed, hdecoded, hfault⟩ :=
    receive_rounds s q chunk.bytes s.closed
  have hpos := chunk.pos
  have hle : chunk.bytes.length ≤ 100 := chunk.le
  rw [fieldsOf_terminated, ← hchunk] at hdecoded hfault
  have hr : r.Sound := ⟨by omega, ⟨hdecoded, hfault⟩, hclosed.trans hopen⟩
  unfold Delivered
  rw [hrounds, List.forall_mem_append, List.forall_mem_singleton]
  exact ⟨hs, hr⟩

theorem receive_closed (s : State p) (q : p.Input) : ¬ Delivered (receive s q [] true) := by
  obtain ⟨r, hrounds, -, -, hindex, -⟩ := receive_rounds s q [] true
  intro h
  have hr := (h r (hrounds ▸ List.mem_append_right _ (List.mem_singleton_self r))).index.1
  rw [hindex] at hr
  exact absurd hr (by decide)

/-! ## Whole runs -/

theorem step_cases {s s' : State p} {e : p.Input × RecvResult} (h : step s e = some s') :
    (e.2 ≠ .closed ∧ s'.rounds = s.rounds ∧ s'.closed = s.closed) ∨
      (e.2 = .closed ∧ s' = receive s e.1 [] true) ∨
      ∃ chunk, e.2 = .bytes chunk ∧ s' = receive s e.1 chunk.bytes s.closed := by
  obtain ⟨q, result⟩ := e
  unfold step at h
  split at h
  · cases result with
    | error =>
      obtain rfl := Option.some.inj h
      exact .inl ⟨RecvResult.noConfusion, rfl, rfl⟩
    | closed => exact .inr (.inl ⟨rfl, (Option.some.inj h).symm⟩)
    | bytes chunk => exact .inr (.inr ⟨chunk, rfl, (Option.some.inj h).symm⟩)
  · cases h

theorem step_delivered {s s' : State p} {e : p.Input × RecvResult} (hopen : s.closed = false)
    (hs : Delivered s) (h : step s e = some s') : Delivered s' ↔ e.2 ≠ .closed := by
  rcases step_cases h with ⟨he, hrounds, -⟩ | ⟨he, rfl⟩ | ⟨chunk, he, rfl⟩
  · exact ⟨fun _ => he, fun _ r hr => hs r (hrounds ▸ hr)⟩
  · exact ⟨fun hd => absurd hd (receive_closed s e.1), fun hne => absurd he hne⟩
  · exact ⟨fun _ => he ▸ RecvResult.noConfusion, fun _ => receive_sound e.1 chunk hs hopen⟩

theorem step_open {s s' : State p} {e : p.Input × RecvResult} (hopen : s.closed = false)
    (h : step s e = some s') (he : e.2 ≠ .closed) : s'.closed = false := by
  rcases step_cases h with ⟨-, -, hclosed⟩ | ⟨he', -⟩ | ⟨chunk, -, rfl⟩
  · exact hclosed.trans hopen
  · exact absurd he' he
  · obtain ⟨-, -, hclosed, -⟩ := receive_rounds s e.1 chunk.bytes s.closed
    exact hclosed.trans hopen

def connected (p : Program) (buf : Buffer maxDataSize) : State p := { memory := p.start, buf := buf }

theorem along_delivered_iff (buf : Buffer maxDataSize) (es : List (p.Input × RecvResult)) :
    Along step Delivered (connected p buf) es ↔
      Meets step (fun _ e => e.2 ≠ .closed) (connected p buf) es :=
  along_iff_meets (I := fun s => s.closed = false)
    (fun _ _ _ ho hd h hd' => step_open ho h ((step_delivered ho hd h).mp hd'))
    (fun _ _ _ ho hd h => step_delivered ho hd h) rfl fun _ hr => absurd hr List.not_mem_nil

end Loop

/-! ## The two clients -/

/-- What a round of listener takes besides the reply: the time stamp of the last `lidar_grad`, and
its two readings of the clock. -/
structure ListenerInput where
  lidarTime : ℤ
  tvSend : Timeval
  tvRecv : Timeval

def listener : Program where
  Memory := Listener.Memory
  Input := ListenerInput
  start := {}
  before := fun q m => { m with times := m.times.stamp (q.lidarTime + m.times.dtime) }
  stores := Listener.stores
  after := fun q m => { m with times := Listener.calibrate q.tvSend q.tvRecv m.times }

section TcpClient2
-- the arithmetic of doubles in `x_est` and `y_est`, of a coordinate, `vel_recv`, `theta_recv` and
-- `commu_delay`
variable (xEst yEst : Double → Double → Double → ℤ → Double)

def estimate (m : TcpClient2.Memory) : TcpClient2.Memory :=
  let commuDelay := m.times.clientTimeRecv - m.times.serverTime + m.times.dtime
  { m with
    commuDelay := commuDelay
    xEst := xEst m.xRecv m.velRecv m.thetaRecv commuDelay
    yEst := yEst m.yRecv m.velRecv m.thetaRecv commuDelay }

/-- TCP_Client2; its input are the readings of the clock at the head of the loop and after the
decode. -/
def tcpClient2 : Program where
  Memory := TcpClient2.Memory
  Input := Timeval × Timeval
  start := {}
  before := fun q m => { m with times := m.times.stamp (q.1.micros + m.times.dtime) }
  stores := TcpClient2.stores
  after := fun q m =>
    let m := { m with times := { m.times with clientTimeSend := q.1.micros,
                                              clientTimeRecv := q.2.micros } }
    if m.times.countCalibr = 0 then { m with times := m.times.setDtime } else estimate xEst yEst m

end TcpClient2

/-! ## The loop and the client programs -/

/-- One pass of a client program, with the reply it receives. -/
structure Pass (c : Client) where
  queue : Option c.Input
  tvSend : Timeval
  tvRecv : Timeval
  chunk : Chunk maxDataSize

/-- A pass on numbers that are decimal texts: the request is formatted, the reply decoded. -/
def pass (c : Client) (s : c.State) (x : Pass c) : Option c.State :=
  match c.encode x.tvSend (c.spin x.queue s) with
  | (s₁, .ok _) =>
    match c.decode x.chunk.bytes s₁ with
    | (s₂, .ok _) => some (c.finish x.tvSend x.tvRecv s₂)
    | (_, .error _) => none
  | (_, .error _) => none

/-- How the loop `p` stands for the client program `c`. -/
structure Follows (p : Program) (c : Client) where
  reads : c.State → p.Memory → Prop
  buf : c.State → Buffer maxDataSize
  input : c.State → Pass c → p.Input
  start : reads c.start p.start
  before : ∀ {s m s₁ out} (x : Pass c), reads s m →
    c.encode x.tvSend (c.spin x.queue s) = (s₁, .ok out) →
      reads s₁ (p.before (input s x) m) ∧ buf s₁ = buf s
  decode : ∀ {s m chunk b}, terminate (buf s) chunk = .ok b → reads s m →
    Agree (fun _ _ => True) (fun l r => reads l.1 r.1 ∧ buf l.1 = r.2.buffer) (c.decode chunk s)
      (eachField comma p.stores (Scan.start b) m)
  after : ∀ {s₀ s m} (x : Pass c), reads s m →
    reads (c.finish x.tvSend x.tvRecv s) (p.after (input s₀ x) m) ∧
      buf (c.finish x.tvSend x.tvRecv s) = buf s

section Follows
variable {p : Program} {c : Client} (f : Follows p c)

/-- A pass of the client program is a round of the loop. -/
theorem Follows.step {s s' : c.State} {t : State p} {x : Pass c} (hr : f.reads s t.memory)
    (hbuf : f.buf s = t.buf) (hrun : t.running = true) (h : pass c s x = some s') :
    ∃ t', Delivery.step t (f.input s x, .bytes x.chunk) = some t' ∧ f.reads s' t'.memory ∧
      f.buf s' = t'.buf ∧ t'.running = true := by
  unfold pass at h
  rcases henc : c.encode x.tvSend (c.spin x.queue s) with ⟨s₁, out | out⟩
  · rw [henc] at h
    cases h
  rw [henc] at h
  dsimp only at h
  obtain ⟨hr₁, hbuf₁⟩ := f.before x hr henc
  obtain ⟨b, hb, -⟩ := terminate_chunk t.buf x.chunk
  have hb₁ : terminate (f.buf s₁) x.chunk.bytes = .ok b := by rw [hbuf₁, hbuf, hb]
  have hterm : terminated t.buf x.chunk.bytes = b := by rw [terminated, hb]
  have hagree := f.decode hb₁ hr₁
  rcases hdec : c.decode x.chunk.bytes s₁ with ⟨s₂, u | u⟩
  · rw [hdec] at h
    cases h
  rw [hdec] at h hagree
  obtain rfl := Option.some.inj h
  obtain hno | ⟨_, scan, -, hok, hr₂, hbuf₂⟩ | ⟨_, hno, -⟩ := hagree
  · cases hno
  · obtain ⟨hr₃, hbuf₃⟩ := @f.after s s₂ _ x hr₂
    refine ⟨receive t (f.input s x) x.chunk.bytes t.closed, ?_, ?_⟩
    · rw [Delivery.step, if_pos hrun]
    · simp only [receive, hterm, hok]
      exact ⟨hr₃, hbuf₃.trans hbuf₂, trivial⟩
  · cases hno

/-- A run of the client program is one of the loop on the same replies. -/
theorem Follows.run {s s' : c.State} {t : State p} {xs : List (Pass c)} (hr : f.reads s t.memory)
    (hbuf : f.buf s = t.buf) (hrun : t.running = true)
    (h : LidarRelay.run (pass c) s xs = some s') :
    ∃ es t', es.map Prod.snd = xs.map (fun x => RecvResult.bytes x.chunk) ∧
      LidarRelay.run Delivery.step t es = some t' ∧ f.reads s' t'.memory := by
  induction xs generalizing s t with
  | nil =>
    rw [run_nil, Option.some.injEq] at h
    exact ⟨[], t, rfl, rfl, h ▸ hr⟩
  | cons x xs ih =>
    obtain ⟨s₁, hpass, hrest⟩ := run_cons_eq_some _ h
    obtain ⟨t₁, hstep, hr₁, hbuf₁, hrun₁⟩ := f.step hr hbuf hrun hpass
    obtain ⟨es, t', hsame, hes, hr'⟩ := ih hr₁ hbuf₁ hrun₁ hrest
    refine ⟨(f.input s x, .bytes x.chunk) :: es, t', ?_, run_trans (run_of_step hstep) hes, hr'⟩
    rw [List.map_cons, List.map_cons, hsame]

end Follows

def listenerFollows : Follows listener Listener.client where
  reads := Listener.Reads
  buf := Listener.State.buf
  input s x :=
    let s := Listener.spinOnce x.queue s
    ⟨s.lidarTimeSec * 1000000 + s.lidarTimeUsec, x.tvSend, x.tvRecv⟩
  start := ⟨rfl, rfl⟩
  before := by
    intro s m s₁ out x hr henc
    obtain ⟨-, rfl, -⟩ := Listener.encodeRequest_eq_ok henc
    have hkeep : (Listener.spinOnce x.queue s).angleRecv = s.angleRecv ∧
        (Listener.spinOnce x.queue s).times = s.times ∧
          (Listener.spinOnce x.queue s).buf = s.buf := by
      cases x.queue
      · exact ⟨rfl, rfl, rfl⟩
      · exact ⟨rfl, rfl, rfl⟩
    obtain ⟨hangle, htimes, hbuf⟩ := hkeep
    have hchange (s₁ : Listener.State) (hs₁ : s₁.times = s.times) :
        (listener.before ⟨s₁.lidarTimeSec * 1000000 + s₁.lidarTimeUsec, x.tvSend, x.tvRecv⟩
          m).times = s₁.times.stamp (Listener.stampTime s₁) := by
      simp only [listener, Listener.stampTime, hs₁, hr.times]
    exact ⟨⟨hr.angle.trans (congrArg Double.finite hangle.symm), hchange _ htimes⟩, hbuf⟩
  decode := Listener.decodes
  after := fun x hr => ⟨⟨hr.angle, congrArg (Listener.calibrate x.tvSend x.tvRecv) hr.times⟩, rfl⟩

/-- Whatever the loop makes of the estimates, which the decode does not read. -/
def tcpClient2Follows (xEst yEst : Double → Double → Double → ℤ → Double) (cos sin : ℚ → ℚ) :
    Follows (tcpClient2 xEst yEst) (TcpClient2.client cos sin) where
  reads := TcpClient2.Reads
  buf := TcpClient2.State.buf
  input _ x := (x.tvSend, x.tvRecv)
  start := ⟨rfl, rfl, rfl, rfl, rfl⟩
  before := by
    intro s m s₁ out x hr henc
    obtain ⟨-, rfl, -⟩ := TcpClient2.encodeRequest_eq_ok henc
    refine ⟨⟨hr.x, hr.y, hr.theta, hr.vel, ?_⟩, rfl⟩
    simp only [tcpClient2, hr.times]
    rfl
  decode := TcpClient2.decodes
  after := by
    intro _ s m x hr
    simp only [TcpClient2.client, TcpClient2.finish, tcpClient2, hr.times]
    split
    · exact ⟨⟨hr.x, hr.y, hr.theta, hr.vel, rfl⟩, rfl⟩
    · exact ⟨⟨hr.x, hr.y, hr.theta, hr.vel, rfl⟩, rfl⟩

/-- **The clients act on what was delivered exactly in the runs in which no `recv` returns 0.** -/
theorem delivered_iff (buf : Buffer maxDataSize) :
    (∀ es, Along step Delivered (connected listener buf) es ↔
        Meets step (fun _ e => e.2 ≠ .closed) (connected listener buf) es) ∧
      ∀ xEst yEst es, Along step Delivered (connected (tcpClient2 xEst yEst) buf) es ↔
        Meets step (fun _ e => e.2 ≠ .closed) (connected (tcpClient2 xEst yEst) buf) es :=
  ⟨along_delivered_iff buf, fun _ _ => along_delivered_iff buf⟩

/-- One reply, `"7,1,2"` with its NUL, and the end of the stream. -/
def closedAfterReply : List (ListenerInput × RecvResult) :=
  [(⟨0, default, default⟩, .bytes ⟨[55, 44, 49, 44, 50, 0], by decide, by decide⟩),
    (⟨0, default, default⟩, .closed)]

/-- listener writes before its array, decodes the 7 again and converts a null pointer. -/
theorem closed_round :
    ∃ s, run step (connected listener default) closedAfterReply = some s ∧
      s.rounds.map (fun r => (r.chunk.length, r.index, r.fault)) =
        [(6, 5, none), (0, -1, some .nullPointer)] ∧
      ¬ Delivered s := by
  have h : (run step (connected listener default) closedAfterReply).map
      (fun s => s.rounds.map fun r => (r.chunk.length, r.index, r.fault)) =
        some [(6, 5, none), (0, -1, some .nullPointer)] := by decide +kernel
  obtain ⟨s, hs, hrounds⟩ := Option.map_eq_some_iff.mp h
  refine ⟨s, hs, hrounds, fun hd => ?_⟩
  have hmem : (0, -1, some Fault.nullPointer) ∈
      s.rounds.map fun r => (r.chunk.length, r.index, r.fault) := by
    rw [hrounds]
    simp
  obtain ⟨r, hr, heq⟩ := List.mem_map.mp hmem
  have hindex : r.index = -1 := (Prod.mk.inj (Prod.mk.inj heq).2).1
  exact absurd (hindex ▸ (hd r hr).index.1) (by decide)

end LidarRelay.Delivery
