import LidarRelay.Foundations.AnyNumber
import LidarRelay.Foundations.Fields
import LidarRelay.Programs.LidarRecv
import LidarRelay.Programs.LidarSend
import LidarRelay.Programs.Listener
import LidarRelay.Programs.TcpClient2

/-! # The four decodes on any bytes

`decodeRequest` and `decodeReply` speak of decimal texts only. Here each decode is the list of its
stores, with doubles that may be infinite or no number, so that any bytes have a meaning. The two
agree wherever the texts are decimal ones (`decodes`).
-/

namespace LidarRelay
set_option autoImplicit false
set_option maxHeartbeats 250000

/-! ## When two decodes agree -/

/-- What a decode of decimal texts and one of any texts come to: where the first has a meaning they
end alike, in states related by `S` or, after a fault, by `E`. -/
def Agree {σ τ α β : Type} (E : σ → τ → Prop) (S : σ × α → τ × β → Prop) (x : σ × Except Fault α)
    (y : τ × Except Fault β) : Prop :=
  x.2 = .error .notDecimal ∨
    (∃ a b, x.2 = .ok a ∧ y.2 = .ok b ∧ S (x.1, a) (y.1, b)) ∨
    ∃ f, x.2 = .error f ∧ y.2 = .error f ∧ E x.1 y.1

section Agree
variable {σ τ α β ν : Type} {n : ℕ} {c : Byte} {E : σ → τ → Prop} {S : σ × α → τ × Scan n → Prop}
  {s : σ} {s' : τ}

theorem agree_ok {S : σ × α → τ × β → Prop} {a : α} {b : β} (h : S (s, a) (s', b)) :
    Agree E S (s, .ok a) (s', .ok b) :=
  .inr (.inl ⟨a, b, rfl, rfl, h⟩)

theorem agree_error {S : σ × α → τ × β → Prop} (f : Fault) (h : E s s') :
    Agree E S (s, .error f) (s', .error f) :=
  .inr (.inr ⟨f, rfl, rfl, h⟩)

/-- The next token, when both decodes refuse the null pointer. -/
theorem agree_token {k : Option (List Byte) × Scan n → Exec σ α} {store : List Byte → τ → τ}
    {stores : List (List Byte → τ → τ)} {t : Scan n} (hE : E s s')
    (hnull : ∀ t, k (none, t) s = (s, .error .nullPointer))
    (h : ∀ tok t, Agree E S (k (some tok, t) s) (eachField c stores t (store tok s'))) :
    Agree E S ((Exec.lift (strtok c t) >>= k) s) (eachField c (store :: stores) t s') := by
  rw [eachField]
  cases hstrtok : strtok c t with
  | error f =>
    rw [Exec.lift_error_bind, Exec.lift_error_bind]
    exact agree_error f hE
  | ok q =>
    obtain ⟨p, t'⟩ := q
    rw [Exec.lift_ok_bind, Exec.lift_ok_bind]
    cases p with
    | none =>
      rw [hnull]
      exact agree_error .nullPointer hE
    | some tok =>
      dsimp only
      rw [Exec.modify_bind]
      exact h tok t'

/-- A conversion, which knows decimal texts only. -/
theorem agree_value {x : Except Fault ν} {m : ν → Exec σ α} {y : τ × Except Fault (Scan n)}
    (hx : ∀ f, x = .error f → f = .notDecimal) (h : ∀ v, x = .ok v → Agree E S (m v s) y) :
    Agree E S ((Exec.lift x >>= m) s) y := by
  cases x with
  | error f =>
    rw [Exec.lift_error_bind, hx f rfl]
    exact .inl rfl
  | ok v =>
    rw [Exec.lift_ok_bind]
    exact h v rfl

end Agree

theorem atoi_error {bits : ℕ} {tok : List Byte} (f : Fault) (h : atoi bits (some tok) = .error f) :
    f = .notDecimal := by
  cases h

theorem strtod_error {tok : List Byte} (f : Fault) (h : strtod (some tok) = .error f) :
    f = .notDecimal := strtod_some_error h

/-! ## A program that receives -/

/-- How a program decodes what it receives: its array, what it does to the array between `recv` and
the first `strtok`, and its stores. -/
structure Decoder where
  Memory : Type
  start : Memory
  stores : List (List Byte → Memory → Memory)
  size : ℕ
  arrive : Buffer size → List Byte → Except Fault (Buffer size)
  -- a message delivered whole stands at the head of the array
  arrives : ∀ b (text : List Byte), text.length < size →
    ∃ b', arrive b (text ++ [nul]) = .ok b' ∧ Holds b' text

/-- What a program keeps between two calls of `recv`. -/
structure Receiver (d : Decoder) where
  memory : d.Memory
  buf : Buffer d.size

namespace Receiver
variable {d : Decoder}

def receive (chunk : List Byte) : Exec (Receiver d) Unit := do
  let r ← Exec.get
  let b ← Exec.lift (d.arrive r.buf chunk)
  let t ← Exec.zoom Receiver.memory (fun m r => { r with memory := m })
    (eachField comma d.stores (Scan.start b))
  Exec.modify fun r => { r with buf := t.buffer }

theorem receive_eq {r : Receiver d} {chunk : List Byte} {b : Buffer d.size}
    (hb : d.arrive r.buf chunk = .ok b) :
    (receive chunk r).1.memory =
        storeFields d.stores (fieldsOf comma d.stores.length b.bytes).1 r.memory ∧
      faultOf (receive chunk r).2 = (fieldsOf comma d.stores.length b.bytes).2 := by
  obtain ⟨hmemory, hfault⟩ := eachField_eq (c := comma) d.stores (Scan.start b) r.memory
  rw [receive, Exec.get_bind, hb, Exec.lift_ok_bind]
  rcases hdec : eachField comma d.stores (Scan.start b) r.memory with ⟨m, x⟩
  rw [hdec] at hmemory hfault
  cases x with
  | error f =>
    rw [Exec.bind_error (Exec.zoom_error hdec)]
    exact ⟨hmemory, hfault⟩
  | ok t =>
    rw [Exec.bind_ok (Exec.zoom_ok hdec)]
    exact ⟨hmemory, hfault⟩

/-- A message delivered whole, whatever the array held: its fields are stored. -/
theorem receive_whole {fields : List (List Byte)} (hk : fields.length = d.stores.length)
    (hclean : ∀ f ∈ fields, Clean comma f) (hfits : (joined comma fields).length < d.size)
    (r : Receiver d) :
    ∃ buf, receive (joined comma fields ++ [nul]) r =
      (⟨storeFields d.stores fields r.memory, buf⟩, .ok ()) := by
  obtain ⟨b, hb, tail, hbytes⟩ := d.arrives r.buf _ hfits
  have hfields : fieldsOf comma d.stores.length b.bytes = (fields, none) := by
    have hsplit : b.bytes = (joined comma fields ++ [nul]) ++ tail := by
      rw [hbytes, List.append_assoc]
      rfl
    rw [hsplit, fieldsOf_append_of_nul comma_ne_nul (by simp), ← hk,
      fieldsOf_joined comma_ne_nul hclean]
  obtain ⟨hmemory, hfault⟩ := receive_eq hb
  rw [hfields] at hmemory hfault
  refine ⟨(receive (joined comma fields ++ [nul]) r).1.buf, ?_⟩
  rcases hr : receive (joined comma fields ++ [nul]) r with ⟨r', x⟩
  rw [hr] at hmemory hfault
  cases x with
  | error f => cases hfault
  | ok u =>
    rw [← hmemory]

end Receiver

def unixtime (sec usec : ℤ) : Double := .finite ((sec : ℚ) + (usec : ℚ) / 1000000)

/-! ## lidar_send -/

namespace LidarSend

/-- The globals that the decode assigns, and its two locals. -/
structure Memory where
  xRecv : Double := .finite 0
  yRecv : Double := .finite 0
  thetaRecv : Double := .finite 0
  velRecv : Double := .finite 0
  unixtimeSend : Double := .finite 0
  timeSecRecv : ℤ := 0
  timeUsecRecv : ℤ := 0

def stores : List (List Byte → Memory → Memory) :=
  [fun p m => { m with xRecv := readDouble p },
   fun p m => { m with yRecv := readDouble p },
   fun p m => { m with thetaRecv := readDouble p },
   fun p m => { m with velRecv := readDouble p },
   fun p m => { m with timeSecRecv := readInt deviceLong p },
   fun p m => { m with timeUsecRecv := readInt deviceLong p,
                       unixtimeSend := unixtime m.timeSecRecv (readInt deviceLong p) }]

structure Reads (g : Globals) (m : Memory) : Prop where
  x : m.xRecv = .finite g.xRecv
  y : m.yRecv = .finite g.yRecv
  theta : m.thetaRecv = .finite g.thetaRecv
  vel : m.velRecv = .finite g.velRecv
  unixtime : m.unixtimeSend = .finite g.unixtimeSend

theorem decodes (buf : Buffer maxRecvLen) {g : Globals} {m : Memory} (h : Reads g m) :
    Agree Reads (fun p q => Reads p.1 q.1 ∧ p.2 = q.2.buffer) (decodeRequest buf g)
      (eachField comma stores (Scan.start buf) m) := by
  unfold decodeRequest stores
  refine agree_token h (fun _ => rfl) fun _ _ => agree_value strtod_error fun _ hx => ?_
  have hx := readDouble_of_strtod hx
  rw [Exec.modify_bind]
  refine agree_token ⟨hx, h.y, h.theta, h.vel, h.unixtime⟩ (fun _ => rfl) fun _ _ =>
    agree_value strtod_error fun _ hy => ?_
  have hy := readDouble_of_strtod hy
  rw [Exec.modify_bind]
  refine agree_token ⟨hx, hy, h.theta, h.vel, h.unixtime⟩ (fun _ => rfl) fun _ _ =>
    agree_value strtod_error fun _ htheta => ?_
  have htheta := readDouble_of_strtod htheta
  rw [Exec.modify_bind]
  refine agree_token ⟨hx, hy, htheta, h.vel, h.unixtime⟩ (fun _ => rfl) fun _ _ =>
    agree_value strtod_error fun _ hvel => ?_
  have hvel := readDouble_of_strtod hvel
  rw [Exec.modify_bind]
  refine agree_token ⟨hx, hy, htheta, hvel, h.unixtime⟩ (fun _ => rfl) fun _ _ =>
    agree_value atoi_error fun _ hsec => ?_
  refine agree_token ⟨hx, hy, htheta, hvel, h.unixtime⟩ (fun _ => rfl) fun _ _ =>
    agree_value atoi_error fun _ husec => ?_
  obtain rfl := Except.ok.inj hsec
  obtain rfl := Except.ok.inj husec
  exact agree_ok ⟨⟨hx, hy, htheta, hvel, rfl⟩, rfl⟩

def decoder : Decoder where
  Memory := Memory
  start := {}
  stores := stores
  size := maxRecvLen
  arrive := fun b chunk => .ok (b.recv chunk)
  arrives := fun b _ h => ⟨_, rfl, recv_holds b h⟩

end LidarSend

/-! ## lidar_recv -/

namespace LidarRecv

/-- The globals that the decode assigns, and its two locals. -/
structure Memory where
  angleRecv : Double := .finite 0
  unixtimeSend : Double := .finite 0
  clientSec : ℤ := 0
  clientUsec : ℤ := 0

def stores : List (List Byte → Memory → Memory) :=
  [fun p m => { m with angleRecv := readDouble p },
   fun p m => { m with clientSec := readInt deviceLong p },
   fun p m => { m with clientUsec := readInt deviceLong p,
                       unixtimeSend := unixtime m.clientSec (readInt deviceLong p) }]

structure Reads (g : Globals) (m : Memory) : Prop where
  angle : m.angleRecv = .finite g.angleRecv
  unixtime : m.unixtimeSend = .finite g.unixtimeSend

theorem decodes (buf : Buffer maxRecvLen) {g : Globals} {m : Memory} (h : Reads g m) :
    Agree Reads (fun p q => Reads p.1 q.1 ∧ p.2 = q.2.buffer) (decodeRequest buf g)
      (eachField comma stores (Scan.start buf) m) := by
  unfold decodeRequest stores
  refine agree_token h (fun _ => rfl) fun _ _ => agree_value strtod_error fun _ hangle => ?_
  have hangle := readDouble_of_strtod hangle
  rw [Exec.modify_bind]
  refine agree_token ⟨hangle, h.unixtime⟩ (fun _ => rfl) fun _ _ =>
    agree_value atoi_error fun _ hsec => ?_
  refine agree_token ⟨hangle, h.unixtime⟩ (fun _ => rfl) fun _ _ =>
    agree_value atoi_error fun _ husec => ?_
  obtain rfl := Except.ok.inj hsec
  obtain rfl := Except.ok.inj husec
  exact agree_ok ⟨⟨hangle, rfl⟩, rfl⟩

def decoder : Decoder where
  Memory := Memory
  start := {}
  stores := stores
  size := maxRecvLen
  arrive := fun b chunk => .ok (b.recv chunk)
  arrives := fun b _ h => ⟨_, rfl, recv_holds b h⟩

end LidarRecv

/-! ## listener -/

namespace Listener

/-- The variables of `main` that the decode and the calibration assign. -/
structure Memory where
  angleRecv : Double := .finite 0
  times : Times := {}

def stores : List (List Byte → Memory → Memory) :=
  [fun p m => { m with angleRecv := readDouble p },
   fun p m => { m with times := { m.times with serverSec := readInt pcLong p } },
   fun p m => { m with times := m.times.setServer m.times.serverSec (readInt pcLong p) }]

structure Reads (s : State) (m : Memory) : Prop where
  angle : m.angleRecv = .finite s.angleRecv
  times : m.times = s.times

/-- After a fault nothing is said of the variables: `decodeReply` assigns `server_sec` at its end. -/
theorem decodes {b : Buffer maxDataSize} {chunk : List Byte} {s : State} {m : Memory}
    (hb : terminate s.buf chunk = .ok b) (h : Reads s m) :
    Agree (fun _ _ => True) (fun p q => Reads p.1 q.1 ∧ p.1.buf = q.2.buffer) (decodeReply chunk s)
      (eachField comma stores (Scan.start b) m) := by
  unfold decodeReply stores
  rw [Exec.get_bind, hb, Exec.lift_ok_bind]
  refine agree_token trivial (fun _ => rfl) fun _ _ => agree_value strtod_error fun _ hangle => ?_
  rw [Exec.modify_bind]
  refine agree_token trivial (fun _ => rfl) fun _ _ => agree_value atoi_error fun _ hsec => ?_
  refine agree_token trivial (fun _ => rfl) fun _ _ => agree_value atoi_error fun _ husec => ?_
  obtain rfl := Except.ok.inj hsec
  obtain rfl := Except.ok.inj husec
  refine agree_ok ⟨⟨readDouble_of_strtod hangle, ?_⟩, rfl⟩
  rw [← h.times]
  rfl

def decoder : Decoder where
  Memory := Memory
  start := {}
  stores := stores
  size := maxDataSize
  arrive := terminate
  arrives := fun b _ h => terminate_ok b h

end Listener

/-! ## TCP_Client2 -/

namespace TcpClient2

/-- The variables of `main` that the decode, the calibration and the estimate assign. -/
structure Memory where
  xRecv : Double := .finite 0
  yRecv : Double := .finite 0
  xEst : Double := .finite 0
  yEst : Double := .finite 0
  thetaRecv : Double := .finite 0
  velRecv : Double := .finite 0
  commuDelay : ℤ := 0
  times : Times := {}

def stores : List (List Byte → Memory → Memory) :=
  [fun p m => { m with xRecv := readDouble p },
   fun p m => { m with yRecv := readDouble p },
   fun p m => { m with thetaRecv := readDouble p },
   fun p m => { m with velRecv := readDouble p },
   fun p m => { m with times := { m.times with serverSec := readInt pcLong p } },
   fun p m => { m with times := m.times.setServer m.times.serverSec (readInt pcLong p) }]

structure Reads (s : State) (m : Memory) : Prop where
  x : m.xRecv = .finite s.xRecv
  y : m.yRecv = .finite s.yRecv
  theta : m.thetaRecv = .finite s.thetaRecv
  vel : m.velRecv = .finite s.velRecv
  times : m.times = s.times

theorem decodes {b : Buffer maxDataSize} {chunk : List Byte} {s : State} {m : Memory}
    (hb : terminate s.buf chunk = .ok b) (h : Reads s m) :
    Agree (fun _ _ => True) (fun p q => Reads p.1 q.1 ∧ p.1.buf = q.2.buffer) (decodeReply chunk s)
      (eachField comma stores (Scan.start b) m) := by
  unfold decodeReply stores
  rw [Exec.get_bind, hb, Exec.lift_ok_bind]
  refine agree_token trivial (fun _ => rfl) fun _ _ => agree_value strtod_error fun _ hx => ?_
  rw [Exec.modify_bind]
  refine agree_token trivial (fun _ => rfl) fun _ _ => agree_value strtod_error fun _ hy => ?_
  rw [Exec.modify_bind]
  refine agree_token trivial (fun _ => rfl) fun _ _ => agree_value strtod_error fun _ htheta => ?_
  rw [Exec.modify_bind]
  refine agree_token trivial (fun _ => rfl) fun _ _ => agree_value strtod_error fun _ hvel => ?_
  rw [Exec.modify_bind]
  refine agree_token trivial (fun _ => rfl) fun _ _ => agree_value atoi_error fun _ hsec => ?_
  refine agree_token trivial (fun _ => rfl) fun _ _ => agree_value atoi_error fun _ husec => ?_
  obtain rfl := Except.ok.inj hsec
  obtain rfl := Except.ok.inj husec
  refine agree_ok ⟨⟨readDouble_of_strtod hx, readDouble_of_strtod hy, readDouble_of_strtod htheta,
    readDouble_of_strtod hvel, ?_⟩, rfl⟩
  rw [← h.times]
  rfl

def decoder : Decoder where
  Memory := Memory
  start := {}
  stores := stores
  size := maxDataSize
  arrive := terminate
  arrives := fun b _ h => terminate_ok b h

end TcpClient2
end LidarRelay
