import LidarRelay.Foundations.ByteStream
import LidarRelay.Foundations.Runs
import LidarRelay.Programs.LidarRecv
import LidarRelay.Programs.LidarSend
import LidarRelay.Programs.Listener
import LidarRelay.Programs.TcpClient2

/-! # Requests over a byte stream

TCP delivers the bytes of the requests in order and may cut them anywhere, and a device takes what
one `recv` returns for one request. Everything is right exactly as long as each `recv` returns the
whole request that is on its way.
-/

namespace LidarRelay.Framing
set_option autoImplicit false
set_option maxHeartbeats 250000

/-- A client program and the device it talks to: `fields` says that the globals of the device hold
the numbers of the request formatted in a state of the client. -/
structure Pairing where
  client : Client
  device : Device
  fields : client.State → Globals → Prop
  encode_size : ∀ {tv : Timeval} {s s' : client.State} {out : List Byte},
    client.encode tv s = (s', .ok out) → 0 < out.length ∧ out.length ≤ maxRecvLen
  decode_whole : ∀ {tv : Timeval} {s s' : client.State} {out : List Byte},
    client.encode tv s = (s', .ok out) → ∀ (buf : Buffer maxRecvLen) (g : Globals),
      ∃ g' buf', device.decode (buf.recv out) g = (g', .ok buf') ∧ fields s' g'
  reply_same : ∀ {buf buf' : Buffer maxRecvLen} {g g' : Globals},
    device.decode buf g = (g', .ok buf') →
      device.replyText g' = device.replyText g ∧ g'.unixtimeRecv = g.unixtimeRecv

/-- One connection. `replies` holds the replies in flight, each with the number of requests that had
been delivered completely when it was made. `requests`, `received` (the bytes of them), `decodes`
and `reads` (the numbers of the replies the client has consumed) record what has happened. -/
structure Connection (c : Client) where
  client : c.State := c.start
  waiting : Option Timeval := none
  stream : List Byte := []
  device : Serving
  replies : List (ℕ × List Byte) := []
  requests : List (c.State × List Byte) := []
  received : ℕ := 0
  decodes : List Globals := []
  reads : List ℕ := []
  faulted : Bool := false

inductive Event (c : Client) where
  -- the client sends its next request
  | fire (input : Option c.Input) (tv : Timeval)
  -- `recv` on the device returns `n` bytes
  | recv (n : ℕ) (tv : Timeval)
  -- the client receives a reply
  | read (tv : Timeval)
  -- the device receives a BSM
  | hear (bsm : V2xMsgBsm)

namespace Connection
variable {c : Client}

def delivered (s : Connection c) : ℕ := LidarRelay.delivered (s.requests.map Prod.snd) s.received

def fire (s : Connection c) (input : Option c.Input) (tv : Timeval) : Option (Connection c) :=
  match s.waiting, c.encode tv (c.spin input s.client) with
  | none, (s', .ok out) =>
    some { s with client := s', waiting := some tv, stream := s.stream ++ out,
                  requests := s.requests ++ [(s', out)] }
  | _, _ => none

def taken (s : Connection c) (n : ℕ) (device : Serving) : Connection c :=
  { s with stream := s.stream.drop n, received := s.received + n, device := device }

def served (s : Connection c) (n : ℕ) (device : Serving) (out : List Byte) : Connection c :=
  { s.taken n device with decodes := s.decodes ++ [device.g]
                          replies := s.replies ++ [((s.taken n device).delivered, out)] }

def recv (d : Device) (s : Connection c) (n : ℕ) (tv : Timeval) : Option (Connection c) :=
  if 0 < n ∧ n ≤ maxRecvLen ∧ n ≤ s.stream.length ∧ s.faulted = false then
    match d.serve (s.stream.take n) tv s.device with
    | (device, .ok out) => some (s.served n device out)
    | (device, .error _) => some { s.taken n device with faulted := true }
  else none

def read (s : Connection c) (tv : Timeval) : Option (Connection c) :=
  match s.waiting, s.replies with
  | some tvSend, (number, bytes) :: rest =>
    match c.decode bytes s.client with
    | (s', .ok _) => some { s with client := c.finish tvSend tv s', waiting := none,
                                   replies := rest, reads := s.reads ++ [number] }
    | (_, .error _) => none
  | _, _ => none

def hear (d : Device) (s : Connection c) (bsm : V2xMsgBsm) : Connection c :=
  { s with device := { s.device with g := d.recvHandle bsm s.device.g } }

def step (d : Device) (s : Connection c) : Event c → Option (Connection c)
  | .fire input tv => s.fire input tv
  | .recv n tv => s.recv d n tv
  | .read tv => s.read tv
  | .hear bsm => some (s.hear d bsm)

theorem fire_eq_some {s s' : Connection c} {input : Option c.Input} {tv : Timeval}
    (h : s.fire input tv = some s') :
    s.waiting = none ∧ ∃ t out, c.encode tv (c.spin input s.client) = (t, .ok out) ∧
      s' = { s with client := t, waiting := some tv, stream := s.stream ++ out,
                    requests := s.requests ++ [(t, out)] } := by
  unfold fire at h
  split at h
  · rename_i t out hwait henc
    exact ⟨hwait, t, out, henc, (Option.some.inj h).symm⟩
  · cases h

theorem recv_eq_some {d : Device} {s s' : Connection c} {n : ℕ} {tv : Timeval}
    (h : s.recv d n tv = some s') : 0 < n ∧ n ≤ s.stream.length ∧
      ((∃ device out, d.serve (s.stream.take n) tv s.device = (device, .ok out) ∧
          s' = s.served n device out) ∨
        ∃ device f, d.serve (s.stream.take n) tv s.device = (device, .error f) ∧
          s' = { s.taken n device with faulted := true }) := by
  unfold recv at h
  split at h
  · rename_i hn
    refine ⟨hn.1, hn.2.2.1, ?_⟩
    split at h
    · rename_i device out hserve
      exact .inl ⟨device, out, hserve, (Option.some.inj h).symm⟩
    · rename_i device f hserve
      exact .inr ⟨device, f, hserve, (Option.some.inj h).symm⟩
  · cases h

theorem read_eq_some {s s' : Connection c} {tv : Timeval} (h : s.read tv = some s') :
    ∃ tvSend number bytes rest t, s.waiting = some tvSend ∧ s.replies = (number, bytes) :: rest ∧
      s' = { s with client := c.finish tvSend tv t, waiting := none, replies := rest,
                    reads := s.reads ++ [number] } := by
  unfold read at h
  split at h
  · rename_i tvSend number bytes rest hwait hreplies
    split at h
    · rename_i t u hdec
      exact ⟨tvSend, number, bytes, rest, t, hwait, hreplies, (Option.some.inj h).symm⟩
    · cases h
  · cases h

end Connection

/-! ## What should hold, and when it does -/

section Framed
variable (p : Pairing)

/-- One decode and one reply for each request delivered, each decode yields the fields of its
request, and the `k`-th reply the client consumed was made for its `k`-th request. -/
structure Framed (s : Connection p.client) : Prop where
  sound : s.faulted = false
  decodes : s.decodes.length = s.delivered
  replies : s.replies.length + s.reads.length = s.decodes.length
  fields : ∀ (k : ℕ) r g, s.requests[k]? = some r → s.decodes[k]? = some g → p.fields r.1 g
  order : ∀ k number : ℕ, s.reads[k]? = some number → number = k + 1

/-- The reply that the next request gets has fewer bytes than `sendBuf`. -/
def ReplyFits (s : Connection p.client) (tv : Timeval) : Prop :=
  let t := replyTime s.device.countCalibr tv s.device.g.unixtimeRecv
  (p.device.replyText s.device.g t.1 t.2).length < sendBufSize

/-- `recv` returns all that is on its way. -/
def WholeRecv (s : Connection p.client) (e : Event p.client) : Prop :=
  ∀ n tv, e = .recv n tv → n = s.stream.length ∧ ReplyFits p s tv

end Framed

section Invariant
variable {p : Pairing}

def sentBytes {c : Client} (s : Connection c) : List (List Byte) := s.requests.map Prod.snd

/-- Where a connection is on which all went well: one message in flight at most, and at a boundary
of the stream. -/
inductive Place {c : Client} (s : Connection c) : Prop where
  | idle (waiting : s.waiting = none) (stream : s.stream = []) (replies : s.replies = [])
      (received : s.received = (sentBytes s).flatten.length)
      (decodes : s.decodes.length = s.requests.length)
      (reads : s.reads.length = s.requests.length)
  | asked (before : List (c.State × List Byte)) (r : c.State × List Byte)
      (requests : s.requests = before ++ [r]) (stream : s.stream = r.2) (replies : s.replies = [])
      (received : s.received = (before.map Prod.snd).flatten.length)
      (decodes : s.decodes.length = before.length) (reads : s.reads.length = before.length)
      (waiting : s.waiting.isSome)
  | answered (out : List Byte) (stream : s.stream = [])
      (replies : s.replies = [(s.requests.length, out)])
      (received : s.received = (sentBytes s).flatten.length)
      (decodes : s.decodes.length = s.requests.length)
      (reads : s.reads.length + 1 = s.requests.length) (waiting : s.waiting.isSome)

structure Shape (p : Pairing) (s : Connection p.client) : Prop where
  place : Place s
  built : ∀ r ∈ s.requests, ∃ tv t, p.client.encode tv t = (r.1, .ok r.2)
  counter : s.device.countCalibr = 0 ∨ s.device.countCalibr = 1

theorem concat_cases {α : Type} {as : List α} {a x : α} {k : ℕ} (h : (as ++ [a])[k]? = some x) :
    (k < as.length ∧ as[k]? = some x) ∨ (k = as.length ∧ x = a) := by
  rcases lt_or_ge k as.length with hk | hk
  · rw [List.getElem?_append_left hk] at h
    exact .inl ⟨hk, h⟩
  · have hlt := (List.getElem?_eq_some_iff.mp h).1
    rw [List.length_append, List.length_singleton] at hlt
    obtain rfl : k = as.length := by omega
    rw [List.getElem?_concat_length] at h
    exact .inr ⟨rfl, (Option.some.inj h).symm⟩

theorem framed_fire {s s' : Connection p.client} {input : Option p.client.Input} {tv : Timeval}
    (hshape : Shape p s) (h : Framed p s) (hs : s.fire input tv = some s') :
    Shape p s' ∧ Framed p s' := by
  obtain ⟨hwait, t, out, henc, rfl⟩ := Connection.fire_eq_some hs
  have hpos := (p.encode_size henc).1
  cases hshape.place with
  | asked before r _ _ _ _ _ _ waiting => rw [hwait] at waiting; cases waiting
  | answered _ _ _ _ _ _ waiting => rw [hwait] at waiting; cases waiting
  | idle _ stream replies received decodes reads =>
    refine ⟨⟨?_, fun r hr => ?_, hshape.counter⟩,
      ⟨h.sound, ?_, h.replies, fun k r g hr hg => ?_, h.order⟩⟩
    · exact .asked s.requests (t, out) rfl (by rw [stream]; rfl) replies received decodes reads rfl
    · rcases List.mem_append.mp hr with hr | hr
      · exact hshape.built r hr
      · rw [List.mem_singleton.mp hr]
        exact ⟨tv, _, henc⟩
    · have hpart := delivered_part (sentBytes s) (m := out) hpos
      rw [Nat.add_zero, ← received, sentBytes, List.length_map] at hpart
      rw [Connection.delivered, List.map_append]
      exact decodes.trans hpart.symm
    · have hk : k < s.requests.length := by
        rw [← decodes]
        exact (List.getElem?_eq_some_iff.mp hg).1
      rw [List.getElem?_append_left hk] at hr
      exact h.fields k r g hr hg

theorem framed_served {s : Connection p.client} {n : ℕ} {tv : Timeval} {device : Serving}
    {out : List Byte} (hshape : Shape p s) (h : Framed p s) (hpos : 0 < n)
    (hn : n = s.stream.length)
    (hserve : p.device.serve (s.stream.take n) tv s.device = (device, .ok out)) :
    Shape p (s.served n device out) ∧ Framed p (s.served n device out) := by
  obtain ⟨hdec, hcount, -, -⟩ := p.device.serve_eq_ok hserve
  cases hshape.place with
  | idle _ stream => rw [hn, stream] at hpos; cases hpos
  | answered _ stream => rw [hn, stream] at hpos; cases hpos
  | asked before r requests stream replies received decodes reads waiting =>
    obtain ⟨tv', t, henc⟩ := hshape.built r (by rw [requests]; simp)
    obtain ⟨g', buf', hwhole, hfields⟩ := p.decode_whole henc s.device.buf s.device.g
    rw [hn, List.take_length, stream] at hdec
    have hg : g' = device.g := congrArg Prod.fst (hwhole.symm.trans hdec)
    subst hg
    have hlen : s.requests.length = before.length + 1 := by rw [requests]; simp
    have hall : s.received + n = (sentBytes s).flatten.length := by
      rw [received, hn, stream, sentBytes, requests]
      simp
    have hdel : (s.taken n device).delivered = s.requests.length := by
      change LidarRelay.delivered (sentBytes s) (s.received + n) = _
      rw [hall, delivered_all, sentBytes, List.length_map]
    have hdecodes : (s.decodes ++ [device.g]).length = s.requests.length := by
      rw [List.length_append, decodes, hlen]
      rfl
    have hreads : s.reads.length + 1 = s.requests.length := by rw [reads, hlen]
    refine ⟨⟨?_, hshape.built, ?_⟩, ⟨h.sound, ?_, ?_, fun k x g hx hg => ?_, h.order⟩⟩
    · refine .answered out ?_ ?_ hall hdecodes hreads waiting
      · exact List.drop_eq_nil_of_le hn.ge
      · simp only [Connection.served, replies, hdel]
        rfl
    · change device.countCalibr = 0 ∨ device.countCalibr = 1
      rw [hcount]
      rcases hshape.counter with hc | hc <;> simp [hc]
    · exact hdecodes.trans hdel.symm
    · change (s.replies ++ [_]).length + s.reads.length = (s.decodes ++ [device.g]).length
      rw [replies, hdecodes, ← hreads]
      exact add_comm _ _
    · rcases concat_cases hg with ⟨-, hg⟩ | ⟨hk, hg⟩
      · exact h.fields k x g hx hg
      · -- the last request and the decode it just got
        have hlast : s.requests[before.length]? = some x := by
          rw [← decodes, ← hk]
          exact hx
        rw [requests, List.getElem?_concat_length] at hlast
        rw [hg, ← Option.some.inj hlast]
        exact hfields

theorem not_framed_part {s : Connection p.client} {n : ℕ} {device : Serving} {out : List Byte}
    (hshape : Shape p s) (hn : n < s.stream.length) : ¬ Framed p (s.served n device out) := by
  intro h
  cases hshape.place with
  | idle _ stream => rw [stream] at hn; cases hn
  | answered _ stream => rw [stream] at hn; cases hn
  | asked before r requests stream replies received decodes =>
    have hpart := delivered_part (before.map Prod.snd) (m := r.2) (stream ▸ hn)
    have hdel : (s.taken n device).delivered = before.length := by
      change LidarRelay.delivered (s.requests.map Prod.snd) (s.received + n) = _
      rw [requests, List.map_append, received]
      rw [List.length_map] at hpart
      exact hpart
    have hdecodes : (s.decodes ++ [device.g]).length = before.length := h.decodes.trans hdel
    rw [List.length_append, decodes] at hdecodes
    simp at hdecodes

theorem serve_whole {s : Connection p.client} {n : ℕ} {tv : Timeval} (hshape : Shape p s)
    (hpos : 0 < n) (hn : n = s.stream.length) (hfits : ReplyFits p s tv) :
    ∃ device out, p.device.serve (s.stream.take n) tv s.device = (device, .ok out) := by
  cases hshape.place with
  | idle _ stream => rw [hn, stream] at hpos; cases hpos
  | answered _ stream => rw [hn, stream] at hpos; cases hpos
  | asked before r requests stream =>
    obtain ⟨tv', t, henc⟩ := hshape.built r (by rw [requests]; simp)
    obtain ⟨g, buf, hdec, -⟩ := p.decode_whole henc s.device.buf s.device.g
    obtain ⟨htext, hunix⟩ := p.reply_same hdec
    rw [ReplyFits, ← htext, ← hunix] at hfits
    rw [hn, List.take_length, stream]
    exact ⟨_, _, p.device.serve_ok hdec hshape.counter hfits⟩

/-- One `recv` keeps a connection right exactly when it returns the whole request and the reply
fits. -/
theorem framed_recv_iff {s s' : Connection p.client} {n : ℕ} {tv : Timeval} (hshape : Shape p s)
    (h : Framed p s) (hs : s.recv p.device n tv = some s') :
    Framed p s' ↔ n = s.stream.length ∧ ReplyFits p s tv := by
  obtain ⟨hpos, hle, ⟨device, out, hserve, rfl⟩ | ⟨device, f, hserve, rfl⟩⟩ :=
    Connection.recv_eq_some hs
  · constructor
    · intro hframed
      refine ⟨le_antisymm hle (not_lt.mp fun hlt => not_framed_part hshape hlt hframed), ?_⟩
      obtain ⟨hdec, -, hlen, -⟩ := p.device.serve_eq_ok hserve
      obtain ⟨htext, hunix⟩ := p.reply_same hdec
      rw [ReplyFits, ← htext, ← hunix]
      exact hlen
    · exact fun hg => (framed_served hshape h hpos hg.1 hserve).2
  · constructor
    · intro hframed
      cases hframed.sound
    · rintro ⟨hn, hfits⟩
      obtain ⟨device', out, hok⟩ := serve_whole hshape hpos hn hfits
      rw [hserve] at hok
      cases (Prod.mk.inj hok).2

theorem shape_recv {s s' : Connection p.client} {n : ℕ} {tv : Timeval} (hshape : Shape p s)
    (h : Framed p s) (hs : s.recv p.device n tv = some s') (h' : Framed p s') : Shape p s' := by
  obtain ⟨hn, -⟩ := (framed_recv_iff hshape h hs).mp h'
  obtain ⟨hpos, -, ⟨device, out, hserve, rfl⟩ | ⟨device, f, -, rfl⟩⟩ := Connection.recv_eq_some hs
  · exact (framed_served hshape h hpos hn hserve).1
  · cases h'.sound

theorem framed_read {s s' : Connection p.client} {tv : Timeval} (hshape : Shape p s)
    (h : Framed p s) (hs : s.read tv = some s') : Shape p s' ∧ Framed p s' := by
  obtain ⟨tvSend, number, bytes, rest, t, hwait, hreplies, rfl⟩ := Connection.read_eq_some hs
  cases hshape.place with
  | idle waiting => rw [hwait] at waiting; cases waiting
  | asked _ _ _ _ replies => rw [hreplies] at replies; cases replies
  | answered out stream replies received decodes reads =>
    rw [hreplies] at replies
    obtain ⟨hhead, rfl⟩ := List.cons.inj replies
    obtain ⟨rfl, -⟩ := Prod.mk.inj hhead
    have hreads : (s.reads ++ [s.requests.length]).length = s.requests.length := by
      rw [List.length_append]
      exact reads
    refine ⟨⟨.idle rfl stream rfl received decodes hreads, hshape.built, hshape.counter⟩,
      ⟨h.sound, h.decodes, ?_, h.fields, fun k number hk => ?_⟩⟩
    · change 0 + (s.reads ++ [s.requests.length]).length = s.decodes.length
      rw [hreads, decodes, Nat.zero_add]
    · rcases concat_cases hk with ⟨-, hk⟩ | ⟨rfl, rfl⟩
      · exact h.order k number hk
      · exact reads.symm

theorem framed_hear {s : Connection p.client} (hshape : Shape p s) (h : Framed p s)
    (bsm : V2xMsgBsm) : Shape p (s.hear p.device bsm) ∧ Framed p (s.hear p.device bsm) := by
  refine ⟨⟨?_, hshape.built, hshape.counter⟩, ⟨h.sound, h.decodes, h.replies, h.fields, h.order⟩⟩
  cases hshape.place with
  | idle h1 h2 h3 h4 h5 h6 => exact .idle h1 h2 h3 h4 h5 h6
  | asked before r h1 h2 h3 h4 h5 h6 h7 => exact .asked before r h1 h2 h3 h4 h5 h6 h7
  | answered out h1 h2 h3 h4 h5 h6 => exact .answered out h1 h2 h3 h4 h5 h6

/-- **A connection stays right exactly as long as every `recv` returns the whole request that is on
its way**, and the reply to it fits. -/
theorem along_framed_iff (g : Globals) (buf : Buffer maxRecvLen) (es : List (Event p.client)) :
    Along (Connection.step p.device) (Framed p) { device := ⟨g, buf, 0⟩ } es ↔
      Meets (Connection.step p.device) (WholeRecv p) { device := ⟨g, buf, 0⟩ } es := by
  refine along_iff_meets (I := Shape p) ?_ ?_ ⟨.idle rfl rfl rfl rfl rfl rfl, fun r hr => (by cases hr),
    .inl rfl⟩ ⟨rfl, rfl, rfl, fun k r g hr => (by cases hr), fun k number hk => (by cases hk)⟩
  · intro s e s' hshape h hs h'
    cases e with
    | fire input tv => exact (framed_fire hshape h hs).1
    | recv n tv => exact shape_recv hshape h hs h'
    | read tv => exact (framed_read hshape h hs).1
    | hear bsm =>
      obtain rfl := Option.some.inj hs
      exact (framed_hear hshape h bsm).1
  · intro s e s' hshape h hs
    cases e with
    | fire input tv =>
      exact ⟨fun _ n t he => (by cases he), fun _ => (framed_fire hshape h hs).2⟩
    | recv n tv =>
      refine (framed_recv_iff hshape h hs).trans ⟨fun hg m t he => ?_, fun hg => hg n tv rfl⟩
      obtain ⟨rfl, rfl⟩ := Event.recv.inj he
      exact hg
    | read tv => exact ⟨fun _ n t he => (by cases he), fun _ => (framed_read hshape h hs).2⟩
    | hear bsm =>
      obtain rfl := Option.some.inj hs
      exact ⟨fun _ n t he => (by cases he), fun _ => (framed_hear hshape h bsm).2⟩

end Invariant

/-! ## The two pairs -/

structure PoseFields (s : Listener.State) (g : Globals) : Prop where
  x : g.xRecv = printedF s.x
  y : g.yRecv = printedF s.y
  theta : g.thetaRecv = printedF s.theta
  vel : g.velRecv = printedF s.vel
  unixtime : g.unixtimeSend =
    (clampLong 32 s.times.clientSec : ℚ) + (s.times.clientUsec : ℚ) / 1000000

structure AngleFields (s : TcpClient2.State) (g : Globals) : Prop where
  angle : g.angleRecv = printedF s.angle
  unixtime : g.unixtimeSend =
    (clampLong 32 s.times.clientSec : ℚ) + (s.times.clientUsec : ℚ) / 1000000

def roadside : Pairing where
  client := Listener.client
  device := LidarSend.device
  fields := PoseFields
  encode_size := fun {_ _ _ _} h => by
    obtain ⟨hlen, -, rfl⟩ := Listener.encodeRequest_eq_ok h
    rw [List.length_append, List.length_singleton]
    exact ⟨Nat.succ_pos _, hlen.trans (by decide)⟩
  decode_whole := fun {_ s _ _} h buf g => by
    obtain ⟨hlen, rfl, rfl⟩ := Listener.encodeRequest_eq_ok h
    obtain ⟨buf', hdec⟩ := LidarSend.decodeRequest_recv (lt_trans hlen (by decide))
      (fitsInt_splitUsec (Listener.stampTime s)) buf g
    exact ⟨_, buf', hdec, rfl, rfl, rfl, rfl, rfl⟩
  reply_same := fun {buf _ g _} h => by
    have hkeep := LidarSend.decodeRequest_keeps buf g
    rw [show LidarSend.decodeRequest buf g = _ from h, Prod.mk.injEq] at hkeep
    refine ⟨?_, hkeep.2⟩
    funext sec usec
    exact congrArg (angleText · sec usec) hkeep.1

def vehicle (cos sin : ℚ → ℚ) : Pairing where
  client := TcpClient2.client cos sin
  device := LidarRecv.device
  fields := AngleFields
  encode_size := fun {_ _ _ _} h => by
    obtain ⟨hlen, -, rfl⟩ := TcpClient2.encodeRequest_eq_ok h
    rw [List.length_append, List.length_singleton]
    exact ⟨Nat.succ_pos _, hlen.trans (by decide)⟩
  decode_whole := fun {tv s _ _} h buf g => by
    obtain ⟨hlen, rfl, rfl⟩ := TcpClient2.encodeRequest_eq_ok h
    obtain ⟨buf', hdec⟩ := LidarRecv.decodeRequest_recv (lt_trans hlen (by decide))
      (fitsInt_splitUsec (tv.micros + s.times.dtime)) buf g
    exact ⟨_, buf', hdec, rfl, rfl⟩
  reply_same := fun {buf _ g _} h => by
    have hkeep := LidarRecv.decodeRequest_keeps buf g
    rw [show LidarRecv.decodeRequest buf g = _ from h] at hkeep
    simp only [Prod.mk.injEq] at hkeep
    obtain ⟨h1, h2, h3, h4, h5⟩ := hkeep
    refine ⟨?_, h5⟩
    funext sec usec
    change LidarRecv.replyText _ sec usec = LidarRecv.replyText _ sec usec
    rw [LidarRecv.replyText, LidarRecv.replyText, h1, h2, h3, h4]

/-- Message boundaries survive on both connections exactly as long as every `recv` returns one whole
request, whatever earlier connections have left in the globals and in the buffer. -/
theorem framed_iff_wholeRecv (cos sin : ℚ → ℚ) (g : Globals) (buf : Buffer maxRecvLen)
    (es : List (Event Listener.client)) (es' : List (Event (TcpClient2.client cos sin))) :
    (Along (Connection.step LidarSend.device) (Framed roadside) { device := ⟨g, buf, 0⟩ } es ↔
        Meets (Connection.step LidarSend.device) (WholeRecv roadside) { device := ⟨g, buf, 0⟩ } es) ∧
      (Along (Connection.step LidarRecv.device) (Framed (vehicle cos sin))
          { device := ⟨g, buf, 0⟩ } es' ↔
        Meets (Connection.step LidarRecv.device) (WholeRecv (vehicle cos sin))
          { device := ⟨g, buf, 0⟩ } es') :=
  ⟨along_framed_iff (p := roadside) g buf es, along_framed_iff (p := vehicle cos sin) g buf es'⟩

/-- The first request of TCP_Client2 is cut in front of its last digits: lidar_recv decodes and
answers the part of it. -/
theorem request_cut :
    ∃ s, run (Connection.step LidarRecv.device)
        ({ device := ⟨{}, default, 0⟩ } : Connection (TcpClient2.client (fun _ => 1) (fun _ => 0)))
        [.fire none (Timeval.ofMicros 1562000000500000), .recv 22 default] = some s ∧
      s.faulted = false ∧ s.decodes.length = 1 ∧ s.delivered = 0 ∧
      ¬ Framed (vehicle (fun _ => 1) (fun _ => 0)) s := by
  have hrun : (run (Connection.step LidarRecv.device)
      ({ device := ⟨{}, default, 0⟩ } : Connection (TcpClient2.client (fun _ => 1) (fun _ => 0)))
      [.fire none (Timeval.ofMicros 1562000000500000), .recv 22 default]).map
      (fun s => (s.faulted, s.decodes.length, s.delivered)) = some (false, 1, 0) := by
    decide +kernel
  obtain ⟨s, hs, hpart⟩ := Option.map_eq_some_iff.mp hrun
  simp only [Prod.mk.injEq] at hpart
  obtain ⟨h1, h2, h3⟩ := hpart
  refine ⟨s, hs, h1, h2, h3, fun h => ?_⟩
  have hlen : s.decodes.length = s.delivered := h.decodes
  omega

end LidarRelay.Framing
