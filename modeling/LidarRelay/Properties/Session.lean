import LidarRelay.Programs.Decoders
import LidarRelay.Programs.LidarRecv
import LidarRelay.Programs.LidarSend

/-! # Whole sessions of messages

One message after another, each encoded by the program that sends it, delivered whole by one `recv`
and decoded in place by the one it goes to. The array is never cleared: it holds what earlier
messages, longer ones among them, have left behind the NUL of the present one. None of that comes
out of a decode (`session_roundTrip`).
-/

namespace LidarRelay.Session
set_option autoImplicit false
set_option maxHeartbeats 250000

/-- The numbers of a `"%f,%f,%f,%f,%ld,%ld"`. -/
structure Pose where
  x : ℚ
  y : ℚ
  theta : ℚ
  vel : ℚ
  sec : ℤ
  usec : ℤ

/-- The numbers of a `"%f,%ld,%ld"`. -/
structure Angle where
  angle : ℚ
  sec : ℤ
  usec : ℤ

/-- Six decimals hold the doubles, and an `int` the integers. -/
structure Pose.Exact (n : Pose) : Prop where
  x : IsMicro n.x
  y : IsMicro n.y
  theta : IsMicro n.theta
  vel : IsMicro n.vel
  sec : FitsInt n.sec
  usec : FitsInt n.usec

structure Angle.Exact (n : Angle) : Prop where
  angle : IsMicro n.angle
  sec : FitsInt n.sec
  usec : FitsInt n.usec

def Pose.numbers (n : Pose) : Double × Double × Double × Double × ℤ × ℤ :=
  (.finite n.x, .finite n.y, .finite n.theta, .finite n.vel, n.sec, n.usec)

def Angle.numbers (n : Angle) : Double × ℤ × ℤ := (.finite n.angle, n.sec, n.usec)

/-- One way a message goes: the encode of the program that sends it and the variables it formats,
and of the program that receives it the decoder and what that has read when the decode is over. -/
structure Kind where
  Sender : Type
  Numbers : Type
  encode : Sender → Except Fault (List Byte)
  Exact : Sender → Prop
  numbers : Sender → Numbers
  decoder : Decoder
  read : decoder.Memory → Numbers

/-- What can be sent: numbers that the text holds, in a text that fits the arrays. -/
def Kind.Sent (k : Kind) (m : k.Sender) : Prop := k.Exact m ∧ ∃ out, k.encode m = .ok out

/-- The messages of a session, one after the other, and what the receiver reads of each. -/
def session (k : Kind) : List k.Sender → Exec (Receiver k.decoder) (List k.Numbers)
  | [] => pure []
  | m :: ms => do
    let out ← Exec.lift (k.encode m)
    Receiver.receive out
    let r ← Exec.get
    let numbers ← session k ms
    return k.read r.memory :: numbers

/-- What a sender with a pose formats, and a receiver that reads one. -/
def poseKind {σ : Type} (encode : σ → Except Fault (List Byte)) (pose : σ → Pose) (d : Decoder)
    (read : d.Memory → Double × Double × Double × Double × ℤ × ℤ) : Kind where
  Sender := σ
  Numbers := Double × Double × Double × Double × ℤ × ℤ
  encode := encode
  Exact := fun s => (pose s).Exact
  numbers := fun s => (pose s).numbers
  decoder := d
  read := read

def angleKind {σ : Type} (encode : σ → Except Fault (List Byte)) (angle : σ → Angle) (d : Decoder)
    (read : d.Memory → Double × ℤ × ℤ) : Kind where
  Sender := σ
  Numbers := Double × ℤ × ℤ
  encode := encode
  Exact := fun s => (angle s).Exact
  numbers := fun s => (angle s).numbers
  decoder := d
  read := read

def lidarSendRead (m : LidarSend.Memory) : Double × Double × Double × Double × ℤ × ℤ :=
  (m.xRecv, m.yRecv, m.thetaRecv, m.velRecv, m.timeSecRecv, m.timeUsecRecv)

def lidarRecvRead (m : LidarRecv.Memory) : Double × ℤ × ℤ := (m.angleRecv, m.clientSec, m.clientUsec)

def listenerRead (m : Listener.Memory) : Double × ℤ × ℤ :=
  (m.angleRecv, m.times.serverSec, m.times.serverUsec)

def client2Read (m : TcpClient2.Memory) : Double × Double × Double × Double × ℤ × ℤ :=
  (m.xRecv, m.yRecv, m.thetaRecv, m.velRecv, m.times.serverSec, m.times.serverUsec)

/-- listener to lidar_send, whatever `client_sec` and `client_usec` are. -/
def listenerRequest : Kind :=
  poseKind Listener.formatRequest
    (fun s => ⟨s.x, s.y, s.theta, s.vel, s.times.clientSec, s.times.clientUsec⟩)
    LidarSend.decoder lidarSendRead

/-- listener to lidar_send, with the stamp that the whole encode takes. -/
def listenerStamped : Kind :=
  poseKind (fun s => (Listener.encodeRequest s).2)
    (fun s => ⟨s.x, s.y, s.theta, s.vel, splitSec (Listener.stampTime s),
      splitUsec (Listener.stampTime s)⟩)
    LidarSend.decoder lidarSendRead

/-- lidar_send to listener. -/
def lidarSendReply : Kind :=
  angleKind
    (fun m : Globals × ℤ × ℤ => sprintf sendBufSize (LidarSend.replyText m.1 m.2.1 m.2.2))
    (fun m => ⟨m.1.angleRecv, m.2.1, m.2.2⟩) Listener.decoder listenerRead

/-- TCP_Client2 to lidar_recv, whatever `client_sec` and `client_usec` are. -/
def client2Request : Kind :=
  angleKind TcpClient2.formatRequest (fun s => ⟨s.angle, s.times.clientSec, s.times.clientUsec⟩)
    LidarRecv.decoder lidarRecvRead

/-- TCP_Client2 to lidar_recv, with the stamp that the whole encode takes. -/
def client2Stamped : Kind :=
  angleKind (fun m : TcpClient2.State × ℤ => (TcpClient2.encodeRequest m.2 m.1).2)
    (fun m => ⟨m.1.angle, splitSec (m.2 + m.1.times.dtime), splitUsec (m.2 + m.1.times.dtime)⟩)
    LidarRecv.decoder lidarRecvRead

/-- lidar_recv to TCP_Client2. -/
def lidarRecvReply : Kind :=
  poseKind
    (fun m : Globals × ℤ × ℤ => sprintf sendBufSize (LidarRecv.replyText m.1 m.2.1 m.2.2))
    (fun m => ⟨m.1.xRecv, m.1.yRecv, m.1.thetaRecv, m.1.velRecv, m.2.1, m.2.2⟩)
    TcpClient2.decoder client2Read

def kinds : List Kind :=
  [listenerRequest, listenerStamped, lidarSendReply, client2Request, client2Stamped, lidarRecvReply]

/-! ## One message -/

theorem readDouble_formatF {q : ℚ} (h : IsMicro q) : readDouble (formatF q) = .finite q := by
  rw [readDouble_of_strtod (strtod_formatF q), printedF_micro h]

theorem readInt_formatLd {bits : ℕ} (hb : 32 ≤ bits) {n : ℤ} (h : FitsInt n) :
    readInt bits (formatLd n) = n :=
  Except.ok.inj (atoi_formatLd hb h)

def Pose.fields (n : Pose) : List (List Byte) :=
  [formatF n.x, formatF n.y, formatF n.theta, formatF n.vel, formatLd n.sec, formatLd n.usec]

def Angle.fields (n : Angle) : List (List Byte) :=
  [formatF n.angle, formatLd n.sec, formatLd n.usec]

theorem Pose.fields_clean (n : Pose) : ∀ f ∈ n.fields, Clean comma f := by
  simp only [fields, List.forall_mem_cons, formatF_clean, formatLd_clean, List.not_mem_nil,
    false_imp_iff, implies_true, and_self]

theorem Angle.fields_clean (n : Angle) : ∀ f ∈ n.fields, Clean comma f := by
  simp only [fields, List.forall_mem_cons, formatF_clean, formatLd_clean, List.not_mem_nil,
    false_imp_iff, implies_true, and_self]

theorem Pose.Exact.read {n : Pose} (h : n.Exact) {bits : ℕ} (hb : 32 ≤ bits) :
    (readDouble (formatF n.x), readDouble (formatF n.y), readDouble (formatF n.theta),
      readDouble (formatF n.vel), readInt bits (formatLd n.sec), readInt bits (formatLd n.usec)) =
      n.numbers := by
  rw [readDouble_formatF h.x, readDouble_formatF h.y, readDouble_formatF h.theta,
    readDouble_formatF h.vel, readInt_formatLd hb h.sec, readInt_formatLd hb h.usec]
  rfl

theorem Angle.Exact.read {n : Angle} (h : n.Exact) {bits : ℕ} (hb : 32 ≤ bits) :
    (readDouble (formatF n.angle), readInt bits (formatLd n.sec), readInt bits (formatLd n.usec)) =
      n.numbers := by
  rw [readDouble_formatF h.angle, readInt_formatLd hb h.sec, readInt_formatLd hb h.usec]
  rfl

/-- What makes the messages of a kind come through: each is encoded as a row of fields for arrays
that are large enough, and the stores of its fields are read as its numbers. -/
structure Passes (k : Kind) (fields : k.Sender → List (List Byte)) : Prop where
  encode : ∀ m, k.encode m = sprintf sendBufSize (joined comma (fields m))
  count : ∀ m, (fields m).length = k.decoder.stores.length
  clean : ∀ m, ∀ f ∈ fields m, Clean comma f
  size : sendBufSize ≤ k.decoder.size
  read : ∀ m, k.Exact m → ∀ memory,
    k.read (storeFields k.decoder.stores (fields m) memory) = k.numbers m

section Kinds
variable {σ : Type} {encode : σ → Except Fault (List Byte)} {d : Decoder}

theorem pose_passes {pose : σ → Pose} {read : d.Memory → Double × Double × Double × Double × ℤ × ℤ}
    (hencode : ∀ s, encode s = sprintf sendBufSize (joined comma (pose s).fields))
    (hcount : d.stores.length = 6) (hsize : sendBufSize ≤ d.size) {bits : ℕ} (hb : 32 ≤ bits)
    (hread : ∀ x y theta vel sec usec memory,
      read (storeFields d.stores [x, y, theta, vel, sec, usec] memory) =
        (readDouble x, readDouble y, readDouble theta, readDouble vel, readInt bits sec,
          readInt bits usec)) :
    Passes (poseKind encode pose d read) fun s => (pose s).fields :=
  ⟨hencode, fun _ => hcount.symm, fun s => (pose s).fields_clean, hsize,
    fun _ h _ => (hread _ _ _ _ _ _ _).trans (Pose.Exact.read h hb)⟩

theorem angle_passes {angle : σ → Angle} {read : d.Memory → Double × ℤ × ℤ}
    (hencode : ∀ s, encode s = sprintf sendBufSize (joined comma (angle s).fields))
    (hcount : d.stores.length = 3) (hsize : sendBufSize ≤ d.size) {bits : ℕ} (hb : 32 ≤ bits)
    (hread : ∀ x sec usec memory, read (storeFields d.stores [x, sec, usec] memory) =
      (readDouble x, readInt bits sec, readInt bits usec)) :
    Passes (angleKind encode angle d read) fun s => (angle s).fields :=
  ⟨hencode, fun _ => hcount.symm, fun s => (angle s).fields_clean, hsize,
    fun _ h _ => (hread _ _ _ _).trans (Angle.Exact.read h hb)⟩

end Kinds

theorem kinds_pass : ∀ k ∈ kinds, ∃ fields, Passes k fields := by
  have hpc : 32 ≤ pcLong := by decide
  have hdevice : 32 ≤ deviceLong := le_rfl
  have hlarge : sendBufSize ≤ maxRecvLen := by decide
  simp only [kinds, List.forall_mem_cons, List.not_mem_nil, false_imp_iff, implies_true, and_true]
  exact ⟨⟨_, pose_passes (fun _ => rfl) rfl hlarge hdevice fun _ _ _ _ _ _ _ => rfl⟩,
    ⟨_, pose_passes (fun _ => rfl) rfl hlarge hdevice fun _ _ _ _ _ _ _ => rfl⟩,
    ⟨_, angle_passes (fun _ => rfl) rfl le_rfl hpc fun _ _ _ _ => rfl⟩,
    ⟨_, angle_passes (fun _ => rfl) rfl hlarge hdevice fun _ _ _ _ => rfl⟩,
    ⟨_, angle_passes (fun _ => rfl) rfl hlarge hdevice fun _ _ _ _ => rfl⟩,
    ⟨_, pose_passes (fun _ => rfl) rfl le_rfl hpc fun _ _ _ _ _ _ _ => rfl⟩⟩

/-! ## Any number of them -/

section Session
variable {k : Kind} {fields : k.Sender → List (List Byte)} (h : Passes k fields)
include h

theorem receive_passes {m : k.Sender} (hm : k.Sent m) (r : Receiver k.decoder) :
    ∃ out r', k.encode m = .ok out ∧ Receiver.receive out r = (r', .ok ()) ∧
      k.read r'.memory = k.numbers m := by
  obtain ⟨hexact, out, hout⟩ := hm
  rw [h.encode] at hout
  obtain ⟨hlen, rfl⟩ := sprintf_eq_ok hout
  obtain ⟨buf, hr⟩ := Receiver.receive_whole (h.count m) (h.clean m) (hlen.trans_le h.size) r
  exact ⟨_, _, (h.encode m).trans hout, hr, h.read m hexact r.memory⟩

theorem session_ok (ms : List k.Sender) (hms : ∀ m ∈ ms, k.Sent m) (r : Receiver k.decoder) :
    (session k ms r).2 = .ok (ms.map k.numbers) := by
  induction ms generalizing r with
  | nil => rfl
  | cons m ms ih =>
    obtain ⟨hm, hms⟩ := List.forall_mem_cons.mp hms
    obtain ⟨out, r', hout, hr, hread⟩ := receive_passes h hm r
    have hrest : session k ms r' = ((session k ms r').1, .ok (ms.map k.numbers)) :=
      Prod.ext rfl (ih hms r')
    rw [session, hout, Exec.lift_ok_bind, Exec.bind_ok hr, Exec.get_bind, Exec.bind_ok hrest,
      Exec.pure_run, hread]
    rfl

end Session

/-- **In every session of every kind each decode yields the numbers of its message**, whatever the
array and the variables of the receiver held before. -/
theorem session_roundTrip : ∀ k ∈ kinds, ∀ (ms : List k.Sender) (r : Receiver k.decoder),
    (∀ m ∈ ms, k.Sent m) → (session k ms r).2 = .ok (ms.map k.numbers) := by
  intro k hk ms r hms
  obtain ⟨fields, h⟩ := kinds_pass k hk
  exact session_ok h ms hms r

/-- Two messages of listener, the second one shorter than the first. -/
def requests : List Listener.State :=
  [{ x := -1234567 / 1000, y := 1000000, theta := -1 / 2, vel := 36 / 10,
     times := { clientSec := -2147483648, clientUsec := 2147483647 } },
   { x := -1 / 1000000, y := 0, theta := 0, vel := 1, times := { clientSec := -1, clientUsec := 7 } }]

/-- Two replies of lidar_send, the second one shorter than the first. -/
def replies : List (Globals × ℤ × ℤ) :=
  [({ angleRecv := -999999999 / 1000000 }, 1562000000, -999999), ({ angleRecv := -1 / 4 }, -1, 0)]

theorem session_roundTrip_shorter :
    (session listenerRequest requests ⟨LidarSend.decoder.start, default⟩).2 =
        .ok (requests.map listenerRequest.numbers) ∧
      (session lidarSendReply replies ⟨Listener.decoder.start, default⟩).2 =
        .ok (replies.map lidarSendReply.numbers) := by
  have micro : ∀ (q : ℚ) (k : ℤ), q = (k : ℚ) / 10 ^ 6 → IsMicro q := fun _ k h => ⟨k, h⟩
  constructor
  · refine session_roundTrip listenerRequest (by simp [kinds]) _ _ fun m hm => ?_
    obtain rfl | hm := List.mem_cons.mp hm
    · exact ⟨⟨micro _ (-1234567000) (by norm_num), micro _ 1000000000000 (by norm_num),
        micro _ (-500000) (by norm_num), micro _ 3600000 (by norm_num), by decide, by decide⟩,
        _, sprintf_ok (by decide +kernel)⟩
    · obtain rfl := List.mem_singleton.mp hm
      exact ⟨⟨micro _ (-1) (by norm_num), micro _ 0 (by norm_num), micro _ 0 (by norm_num),
        micro _ 1000000 (by norm_num), by decide, by decide⟩, _, sprintf_ok (by decide +kernel)⟩
  · refine session_roundTrip lidarSendReply (by simp [kinds]) _ _ fun m hm => ?_
    obtain rfl | hm := List.mem_cons.mp hm
    · exact ⟨⟨micro _ (-999999999) (by norm_num), by decide, by decide⟩,
        _, sprintf_ok (by decide +kernel)⟩
    · obtain rfl := List.mem_singleton.mp hm
      exact ⟨⟨micro _ (-250000) (by norm_num), by decide, by decide⟩,
        _, sprintf_ok (by decide +kernel)⟩

end LidarRelay.Session
