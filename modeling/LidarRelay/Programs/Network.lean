import Mathlib.Logic.Function.Basic
import LidarRelay.Programs.AcceptLoop
import LidarRelay.Programs.Client

/-! # A device process and the client processes that connect to it

Any number of processes of one client program, named by `ι`, and one device process. A process
connects once, waits in the backlog until the accept loop takes it up, and exchanges messages until
it ends. Every `send` is delivered whole by one `recv`. The clock readings are those of the
processes' own clocks and unrelated; `now` counts the steps of the whole system.

The messages in flight carry, beside their bytes, what their sender knew; `log`, `inputs`, `heard`,
`source` and `sent` record what has happened. No step depends on these.
-/

namespace LidarRelay
set_option autoImplicit false
set_option maxHeartbeats 250000

/-- A request and the state it was formatted in, with the inputs of its process until then. -/
structure Request (c : Client) where
  bytes : List Byte
  sender : c.State
  inputs : List c.Input

/-- A reply: the connection, the counter of the connection and the clock reading it was formatted
with, the step it was made in, and the BSMs received until then. -/
structure Reply (ι : Type) where
  bytes : List Byte
  conn : ι
  countCalibr : ℤ
  tv : Timeval
  madeAt : ℕ
  heard : List V2xMsgBsm

def Reply.ByClock {ι : Type} (r : Reply ι) : Prop := r.countCalibr = 0

/-- A reply as a client has read it: the steps of its two clock readings, the state after the decode
and the state at the end of the exchange. -/
structure Read (c : Client) (ι : Type) where
  reply : Reply ι
  tvSend : Timeval
  tvRecv : Timeval
  sentAt : ℕ
  readAt : ℕ
  decoded : c.State
  after : c.State

inductive Phase where
  | fresh
  | ready
  | waiting (tvSend : Timeval) (sentAt : ℕ)
  | closed

/-- A client process and its connection, `up` and `down` being the two directions. -/
structure ClientProcess (c : Client) (ι : Type) where
  state : c.State := c.start
  queue : Option c.Input := none
  phase : Phase := .fresh
  up : List (Request c) := []
  down : List (Reply ι) := []
  inputs : List c.Input := []
  log : List (Read c ι) := []

structure World (c : Client) (ι : Type) where
  now : ℕ := 0
  device : DeviceProcess ι := {}
  backlog : List ι := []
  clients : ι → ClientProcess c ι := fun _ => {}
  heard : List V2xMsgBsm := []
  source : Option (Request c) := none
  sent : List V2xMsgBsm := []

inductive Event (c : Client) (ι : Type) where
  -- an input arrives in the queue of a process
  | arrive (i : ι) (m : c.Input)
  | connect (i : ι)
  -- the schedule of a process fires: it sends its next request
  | fire (i : ι) (tv : Timeval)
  | accept (at_ : ℤ) (setup : Setup)
  -- the device process receives a request and answers it
  | serve (tv : Timeval)
  | hangup
  -- a process receives the reply it waits for
  | read (i : ι) (tv : Timeval)
  | close (i : ι)
  -- a timer of the device process expires
  | tick
  -- a BSM arrives over the air
  | hear (bsm : V2xMsgBsm)

namespace World
variable {c : Client} {ι : Type} [DecidableEq ι]

def setClient (w : World c ι) (i : ι) (p : ClientProcess c ι) : World c ι :=
  { w with clients := Function.update w.clients i p }

@[simp] theorem setClient_self (w : World c ι) (i : ι) (p : ClientProcess c ι) :
    (w.setClient i p).clients i = p := Function.update_self ..

@[simp] theorem setClient_ne (w : World c ι) {i j : ι} (p : ClientProcess c ι) (h : j ≠ i) :
    (w.setClient i p).clients j = w.clients j := Function.update_of_ne h ..

/-- What holds of every process, and of the new state of the one that changes. -/
theorem forall_setClient {P : ι → ClientProcess c ι → Prop} {w : World c ι} {i : ι}
    {p : ClientProcess c ι} (h : ∀ j, P j (w.clients j)) (hi : P i p) (j : ι) :
    P j ((w.setClient i p).clients j) :=
  (Function.forall_update_iff w.clients P).mpr ⟨hi, fun j _ => h j⟩ j

theorem setClient_part {α : Type*} (f : ClientProcess c ι → α) {w : World c ι} {i : ι}
    {p : ClientProcess c ι} (h : f p = f (w.clients i)) (j : ι) :
    f ((w.setClient i p).clients j) = f (w.clients j) :=
  forall_setClient (P := fun j q => f q = f (w.clients j)) (fun _ => rfl) h j

@[simp] theorem setClient_device (w : World c ι) (i : ι) (p : ClientProcess c ι) :
    (w.setClient i p).device = w.device := rfl

/-! ## The steps of a client process -/

def arrive (w : World c ι) (i : ι) (m : c.Input) : Option (World c ι) :=
  some (w.setClient i { w.clients i with queue := some m })

/-- `connect`: the connection waits in the backlog of the device. -/
def connect (w : World c ι) (i : ι) : Option (World c ι) :=
  match (w.clients i).phase with
  | .fresh =>
    some { w.setClient i { w.clients i with phase := .ready } with backlog := w.backlog ++ [i] }
  | _ => none

def asked (w : World c ι) (p : ClientProcess c ι) (tv : Timeval) (s : c.State)
    (out : List Byte) : ClientProcess c ι :=
  { p with state := s, queue := none, phase := .waiting tv w.now,
           up := p.up ++ [⟨out, s, p.inputs ++ p.queue.toList⟩],
           inputs := p.inputs ++ p.queue.toList }

/-- The guarded branch up to `send`. -/
def fire (w : World c ι) (i : ι) (tv : Timeval) : Option (World c ι) :=
  let p := w.clients i
  match p.phase with
  | .ready =>
    match c.encode tv (c.spin p.queue p.state) with
    | (s, .ok out) => some (w.setClient i (w.asked p tv s out))
    | (_, .error _) => none
  | _ => none

def answered (w : World c ι) (p : ClientProcess c ι) (tvSend tv : Timeval) (sentAt : ℕ)
    (r : Reply ι) (rest : List (Reply ι)) (s : c.State) : ClientProcess c ι :=
  { p with state := c.finish tvSend tv s, phase := .ready, down := rest,
           log := p.log ++ [⟨r, tvSend, tv, sentAt, w.now, s, c.finish tvSend tv s⟩] }

/-- The guarded branch from `recv` on. -/
def read (w : World c ι) (i : ι) (tv : Timeval) : Option (World c ι) :=
  let p := w.clients i
  match p.phase, p.down with
  | .waiting tvSend sentAt, r :: rest =>
    match c.decode r.bytes p.state with
    | (s, .ok _) => some (w.setClient i (w.answered p tvSend tv sentAt r rest s))
    | (_, .error _) => none
  | _, _ => none

def close (w : World c ι) (i : ι) : Option (World c ι) :=
  some (w.setClient i { w.clients i with phase := .closed })

/-! ## The steps of the device process -/

def accept (w : World c ι) (at_ : ℤ) (setup : Setup) : Option (World c ι) :=
  match w.backlog with
  | [] => none
  | i :: rest => (w.device.accept i at_ setup).map fun dev =>
    { w with device := dev, backlog := rest }

def replyTo (w : World c ι) (i : ι) (tv : Timeval) (out : List Byte) : Reply ι :=
  ⟨out, i, w.device.serving.countCalibr, tv, w.now, w.heard⟩

def serve (d : Device) (w : World c ι) (tv : Timeval) : Option (World c ι) :=
  match w.device.conn with
  | none => none
  | some i =>
    let p := w.clients i
    match p.up with
    | [] => none
    | r :: rest => (w.device.receive d r.bytes tv).map fun (dev, out) =>
      { w.setClient i { p with up := rest, down := p.down ++ [w.replyTo i tv out] } with
        device := dev, source := some r }

def hangup (w : World c ι) : Option (World c ι) :=
  w.device.hangup.map fun dev => { w with device := dev }

def tick (d : Device) (w : World c ι) : Option (World c ι) :=
  (w.device.tick d).map fun (dev, bsm) => { w with device := dev, sent := w.sent ++ bsm.toList }

def hear (d : Device) (w : World c ι) (bsm : V2xMsgBsm) : Option (World c ι) :=
  some { w with device := w.device.hear d bsm
                heard := if w.device.registered then w.heard ++ [bsm] else w.heard }

def act (d : Device) (w : World c ι) : Event c ι → Option (World c ι)
  | .arrive i m => w.arrive i m
  | .connect i => w.connect i
  | .fire i tv => w.fire i tv
  | .accept at_ setup => w.accept at_ setup
  | .serve tv => w.serve d tv
  | .hangup => w.hangup
  | .read i tv => w.read i tv
  | .close i => w.close i
  | .tick => w.tick d
  | .hear bsm => w.hear d bsm

def step (d : Device) (w : World c ι) (e : Event c ι) : Option (World c ι) :=
  (w.act d e).map fun w' => { w' with now := w.now + 1 }

/-! ## What the steps that can fail have done -/

theorem connect_eq_some {w w' : World c ι} {i : ι} (h : w.connect i = some w') :
    (w.clients i).phase = .fresh ∧
      w' = { w.setClient i { w.clients i with phase := .ready } with
             backlog := w.backlog ++ [i] } := by
  unfold connect at h
  split at h
  · exact ⟨by assumption, (Option.some.inj h).symm⟩
  · cases h

theorem fire_eq_some {w w' : World c ι} {i : ι} {tv : Timeval} (h : w.fire i tv = some w') :
    (w.clients i).phase = .ready ∧
      ∃ s out, c.encode tv (c.spin (w.clients i).queue (w.clients i).state) = (s, .ok out) ∧
        w' = w.setClient i (w.asked (w.clients i) tv s out) := by
  unfold fire at h
  dsimp only at h
  split at h
  · rename_i hready
    refine ⟨hready, ?_⟩
    split at h
    · rename_i s out henc
      exact ⟨s, out, henc, (Option.some.inj h).symm⟩
    · cases h
  · cases h

theorem read_eq_some {w w' : World c ι} {i : ι} {tv : Timeval} (h : w.read i tv = some w') :
    ∃ tvSend sentAt r rest s, (w.clients i).phase = .waiting tvSend sentAt ∧
      (w.clients i).down = r :: rest ∧ c.decode r.bytes (w.clients i).state = (s, .ok ()) ∧
      w' = w.setClient i (w.answered (w.clients i) tvSend tv sentAt r rest s) := by
  unfold read at h
  dsimp only at h
  split at h
  · rename_i tvSend sentAt r rest hphase hdown
    split at h
    · rename_i s u hdec
      exact ⟨tvSend, sentAt, r, rest, s, hphase, hdown, hdec, (Option.some.inj h).symm⟩
    · cases h
  · cases h

omit [DecidableEq ι] in
theorem accept_eq_some {w w' : World c ι} {at_ : ℤ} {setup : Setup}
    (h : w.accept at_ setup = some w') :
    ∃ i rest dev, w.backlog = i :: rest ∧ w.device.accept i at_ setup = some dev ∧
      w' = { w with device := dev, backlog := rest } := by
  unfold accept at h
  split at h
  · cases h
  · rename_i i rest hback
    obtain ⟨dev, hdev, rfl⟩ := Option.map_eq_some_iff.mp h
    exact ⟨i, rest, dev, hback, hdev, rfl⟩

theorem serve_eq_some {d : Device} {w w' : World c ι} {tv : Timeval} (h : w.serve d tv = some w') :
    ∃ i r rest s out, w.device.conn = some i ∧ (w.clients i).up = r :: rest ∧
      d.serve r.bytes tv w.device.serving = (s, .ok out) ∧
      w' = { w.setClient i { w.clients i with
               up := rest, down := (w.clients i).down ++ [w.replyTo i tv out] } with
             device := { w.device with serving := s }, source := some r } := by
  unfold serve at h
  split at h
  · cases h
  · rename_i i hconn
    dsimp only at h
    split at h
    · cases h
    · rename_i r rest hup
      obtain ⟨⟨dev, out⟩, hdev, rfl⟩ := Option.map_eq_some_iff.mp h
      obtain ⟨-, s, hserve, rfl⟩ := DeviceProcess.receive_eq_some hdev
      exact ⟨i, r, rest, s, out, hconn, hup, hserve, rfl⟩

omit [DecidableEq ι] in
theorem hangup_eq_some {w w' : World c ι} (h : w.hangup = some w') :
    w' = { w with device := { w.device with conn := none } } := by
  obtain ⟨dev, hdev, rfl⟩ := Option.map_eq_some_iff.mp h
  obtain ⟨-, rfl⟩ := DeviceProcess.hangup_eq_some hdev
  rfl

omit [DecidableEq ι] in
theorem tick_eq_some {d : Device} {w w' : World c ι} (h : w.tick d = some w') :
    w.device.timers ≠ [] ∧
      w' = { w with
             device.serving.g.msgcount := w.device.serving.g.msgcount + 1
             sent := w.sent ++ [d.bsmOf w.device.serving.g] } := by
  obtain ⟨⟨dev, bsm⟩, hdev, rfl⟩ := Option.map_eq_some_iff.mp h
  rw [DeviceProcess.tick, Device.v2xBsmTxHandle_eq] at hdev
  split at hdev
  · cases hdev
  · rename_i harmed
    obtain ⟨rfl, rfl⟩ := Prod.mk.inj (Option.some.inj hdev)
    exact ⟨harmed, rfl⟩

theorem step_eq_some {d : Device} {w w' : World c ι} {e : Event c ι} (h : w.step d e = some w') :
    ∃ w₁, w.act d e = some w₁ ∧ w' = { w₁ with now := w.now + 1 } := by
  obtain ⟨w₁, hact, rfl⟩ := Option.map_eq_some_iff.mp h
  exact ⟨w₁, hact, rfl⟩

/-- The histories: inputs and logs only grow, a log with a `read` only, and a BSM goes out only when
an armed timer expires. -/
structure Recorded (d : Device) (w w' : World c ι) (e : Event c ι) : Prop where
  inputs : ∀ j, (w.clients j).inputs ⊆ (w'.clients j).inputs
  log : ∀ j, ∃ l, (w'.clients j).log = (w.clients j).log ++ l
  unread : (∀ i tv, e ≠ .read i tv) → ∀ j, (w'.clients j).log = (w.clients j).log
  sent : w'.sent = w.sent ∨ e = .tick ∧ w.device.timers ≠ [] ∧
    w'.sent = w.sent ++ [d.bsmOf w.device.serving.g]

omit [DecidableEq ι] in
theorem recorded_clients {d : Device} {w w' : World c ι} {e : Event c ι}
    (hclients : w'.clients = w.clients)
    (hsent : w'.sent = w.sent ∨ e = .tick ∧ w.device.timers ≠ [] ∧
      w'.sent = w.sent ++ [d.bsmOf w.device.serving.g]) : Recorded d w w' e where
  inputs j := by rw [hclients]; exact List.Subset.refl _
  log j := ⟨[], by rw [hclients, List.append_nil]⟩
  unread _ j := by rw [hclients]
  sent := hsent

/-- A step that changes one process and reads no reply. -/
theorem recorded_setClient {d : Device} {w w' : World c ι} {e : Event c ι} {i : ι}
    {p : ClientProcess c ι} (hclients : w'.clients = (w.setClient i p).clients)
    (hinputs : (w.clients i).inputs ⊆ p.inputs) (hlog : p.log = (w.clients i).log)
    (hsent : w'.sent = w.sent) : Recorded d w w' e := by
  have hlogs : ∀ j, (w'.clients j).log = (w.clients j).log := by
    rw [hclients]
    exact setClient_part ClientProcess.log hlog
  refine ⟨?_, fun j => ⟨[], by rw [hlogs, List.append_nil]⟩, fun _ => hlogs, .inl hsent⟩
  rw [hclients]
  exact forall_setClient (P := fun j q => (w.clients j).inputs ⊆ q.inputs)
    (fun _ => List.Subset.refl _) hinputs

theorem recorded_read {d : Device} {w w' : World c ι} {i : ι} {tv : Timeval}
    (h : w.read i tv = some w') : Recorded d w w' (.read i tv) := by
  obtain ⟨tvSend, t, r, rest, s, -, -, -, rfl⟩ := read_eq_some h
  refine ⟨?_, ?_, fun hread => absurd rfl (hread i tv), .inl rfl⟩
  · exact forall_setClient (P := fun j q => (w.clients j).inputs ⊆ q.inputs)
      (fun _ => List.Subset.refl _) (List.Subset.refl _)
  · exact forall_setClient (P := fun j q => ∃ l, q.log = (w.clients j).log ++ l)
      (fun _ => ⟨[], (List.append_nil _).symm⟩) ⟨_, rfl⟩

theorem step_recorded {d : Device} {w w' : World c ι} {e : Event c ι}
    (h : w.step d e = some w') : Recorded d w w' e := by
  obtain ⟨w₁, hact, rfl⟩ := step_eq_some h
  cases e with
  | arrive i m =>
    obtain rfl := Option.some.inj hact
    exact recorded_setClient rfl (List.Subset.refl _) rfl rfl
  | connect i =>
    obtain ⟨-, rfl⟩ := connect_eq_some hact
    exact recorded_setClient rfl (List.Subset.refl _) rfl rfl
  | fire i tv =>
    obtain ⟨-, s, out, -, rfl⟩ := fire_eq_some hact
    exact recorded_setClient rfl (List.subset_append_left _ _) rfl rfl
  | accept at_ setup =>
    obtain ⟨i, rest, dev, -, -, rfl⟩ := accept_eq_some hact
    exact recorded_clients rfl (.inl rfl)
  | serve tv =>
    obtain ⟨i, r, rest, s, out, -, -, -, rfl⟩ := serve_eq_some hact
    exact recorded_setClient rfl (List.Subset.refl _) rfl rfl
  | hangup =>
    obtain rfl := hangup_eq_some hact
    exact recorded_clients rfl (.inl rfl)
  | read i tv =>
    obtain ⟨hinputs, hlog, hunread, hsent⟩ := recorded_read (d := d) hact
    exact ⟨hinputs, hlog, hunread, hsent⟩
  | close i =>
    obtain rfl := Option.some.inj hact
    exact recorded_setClient rfl (List.Subset.refl _) rfl rfl
  | tick =>
    obtain ⟨harmed, rfl⟩ := tick_eq_some hact
    exact recorded_clients rfl (.inr ⟨rfl, harmed, rfl⟩)
  | hear bsm =>
    obtain rfl := Option.some.inj hact
    exact recorded_clients rfl (.inl rfl)

end World
end LidarRelay
