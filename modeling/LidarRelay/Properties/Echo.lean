import LidarRelay.Programs.TcpServer

/-! # What the echo server gives away

The reply is as long as the formatted answer, but its bytes are those of the receive array: the
request and, where that is shorter, what earlier requests have left behind it.
-/

namespace LidarRelay.Echo
open TcpServer
set_option autoImplicit false
set_option maxHeartbeats 250000

/-- A request delivered whole: a text, its NUL and the bytes its client sends behind that, with a
formatted answer of at most 100 bytes. -/
structure Request where
  text : List Byte
  padding : List Byte := []
  plain : ∀ b ∈ text, b ≠ nul
  whole : text.length + 1 + padding.length ≤ maxRecvLen
  fits : text.length + 28 ≤ sendBufSize

def Request.bytes (q : Request) : List Byte := q.text ++ nul :: q.padding

theorem Request.bytes_length (q : Request) :
    q.bytes.length = q.text.length + 1 + q.padding.length := by
  rw [bytes, List.length_append, List.length_cons]
  omega

def reply (buf : Buffer maxRecvLen) (q : Request) : Except Fault (List Byte) :=
  (serve buf q.bytes).map Prod.snd

/-- After any two histories of one server the request gets the same bytes. -/
def Private (q : Request) : Prop :=
  ∀ start results results' buf buf', run step start results = some buf →
    run step start results' = some buf' → reply buf q = reply buf' q

theorem reply_eq (buf : Buffer maxRecvLen) (q : Request) :
    reply buf q = .ok ((q.bytes ++ buf.bytes.drop q.bytes.length).take (q.text.length + 28)) := by
  have hrecv : (buf.recv q.bytes).bytes = q.bytes ++ buf.bytes.drop q.bytes.length :=
    Buffer.recv_bytes _ _ (by rw [q.bytes_length]; exact q.whole)
  have hchunk : (buf.recv q.bytes).bytes =
      q.text ++ nul :: (q.padding ++ buf.bytes.drop q.bytes.length) := by
    rw [hrecv, Request.bytes, List.append_assoc, List.cons_append]
  rw [reply, serve_text hchunk q.plain q.fits, ← hrecv]
  rfl

theorem reply_padded {q : Request} (h : 27 ≤ q.padding.length) (buf : Buffer maxRecvLen) :
    reply buf q = .ok (q.bytes.take (q.text.length + 28)) := by
  have hlen := q.bytes_length
  rw [reply_eq, List.take_append_of_le_length (by omega)]

/-! ## Two histories -/

/-- An empty request that fills the array with bytes `b`. -/
def filler (b : Byte) : Chunk maxRecvLen where
  bytes := nul :: List.replicate 1023 b
  pos := Nat.succ_pos _
  le := by rw [List.length_cons, List.length_replicate]; decide

theorem step_filler (buf : Buffer maxRecvLen) (b : Byte) :
    ∃ buf', run step buf [.bytes (filler b)] = some buf' ∧
      buf'.bytes = nul :: List.replicate 1023 b := by
  have hrecv : (buf.recv (filler b).bytes).bytes = nul :: List.replicate 1023 b := by
    have hdrop : buf.bytes.drop (filler b).bytes.length = [] := by
      apply List.drop_of_length_le
      rw [buf.size, filler, List.length_cons, List.length_replicate]
      decide
    rw [Buffer.recv_bytes _ _ (filler b).le, hdrop, List.append_nil]
    rfl
  have hhead : (buf.recv (filler b).bytes).bytes = [] ++ nul :: List.replicate 1023 b := hrecv
  have hserve := serve_text hhead (by simp) (by decide)
  refine ⟨buf.recv (filler b).bytes, run_of_step ?_, hrecv⟩
  rw [step, hserve]

/-- The first byte that is not the request's comes from the request before. -/
theorem reply_after_filler {q : Request} (h : q.padding.length < 27) {buf : Buffer maxRecvLen}
    {b : Byte} (hbuf : buf.bytes = nul :: List.replicate 1023 b) :
    ∃ out, reply buf q = .ok out ∧ out[q.bytes.length]? = some b := by
  have hlen := q.bytes_length
  have hfits : q.text.length + 28 ≤ 100 := q.fits
  refine ⟨_, reply_eq buf q, ?_⟩
  rw [List.getElem?_take_of_lt (by omega), List.getElem?_append_right le_rfl, Nat.sub_self,
    List.getElem?_drop, Nat.add_zero, hbuf, hlen, Nat.add_right_comm, List.getElem?_cons_succ,
    List.getElem?_replicate_of_lt (by omega)]

/-- **A reply is a function of its request exactly when at least 27 bytes follow the NUL of the
request**, as many as the answer has before it. A request that ends with its NUL never gets one. -/
theorem private_iff (q : Request) : Private q ↔ 27 ≤ q.padding.length := by
  constructor
  · intro h
    by_contra hshort
    rw [not_le] at hshort
    obtain ⟨buf, hrun, hbuf⟩ := step_filler default 65
    obtain ⟨buf', hrun', hbuf'⟩ := step_filler default 66
    obtain ⟨out, hout, hbyte⟩ := reply_after_filler hshort hbuf
    obtain ⟨out', hout', hbyte'⟩ := reply_after_filler hshort hbuf'
    have hsame := h default _ _ buf buf' hrun hrun'
    rw [hout, hout'] at hsame
    rw [Except.ok.inj hsame, hbyte'] at hbyte
    exact absurd hbyte (by decide)
  · intro h start results results' buf buf' _ _
    rw [reply_padded h, reply_padded h]

def letters (b : Byte) : Chunk maxRecvLen where
  bytes := List.replicate 30 b ++ [nul]
  pos := by simp
  le := by simp [maxRecvLen]

/-- `"1"` with its NUL. -/
def one : Request where
  text := [49]
  plain := List.forall_mem_singleton.mpr (by decide)
  whole := by decide
  fits := by decide

theorem after_letters {b : Byte} (hb : b ≠ nul) :
    ∃ buf tail, run step default [.bytes (letters b)] = some buf ∧
      buf.bytes = (letters b).bytes ++ tail := by
  have hrecv : ((default : Buffer maxRecvLen).recv (letters b).bytes).bytes = _ :=
    Buffer.recv_bytes _ _ (letters b).le
  have htext : ∀ x ∈ List.replicate 30 b, x ≠ nul := fun x hx => by
    rw [List.eq_of_mem_replicate hx]
    exact hb
  have hserve := serve_text (hrecv.trans (List.append_assoc _ _ _)) htext (by simp [sendBufSize])
  refine ⟨_, _, run_of_step ?_, hrecv⟩
  rw [step, hserve]

/-- The client that sends `"1"` gets 27 letters of the client before. -/
theorem reply_leaks :
    ∃ buf buf', run step default [.bytes (letters 65)] = some buf ∧
      run step default [.bytes (letters 66)] = some buf' ∧
      reply buf one = .ok ([49, 0] ++ List.replicate 27 65) ∧
      reply buf' one = .ok ([49, 0] ++ List.replicate 27 66) ∧ ¬ Private one := by
  obtain ⟨buf, tail, hrun, hbuf⟩ := after_letters (b := 65) (by decide)
  obtain ⟨buf', tail', hrun', hbuf'⟩ := after_letters (b := 66) (by decide)
  have hreply : reply buf one = .ok ([49, 0] ++ List.replicate 27 65) := by
    rw [reply_eq, hbuf]
    rfl
  have hreply' : reply buf' one = .ok ([49, 0] ++ List.replicate 27 66) := by
    rw [reply_eq, hbuf']
    rfl
  refine ⟨buf, buf', hrun, hrun', hreply, hreply', fun hp => ?_⟩
  have hsame := hp default _ _ buf buf' hrun hrun'
  rw [hreply, hreply'] at hsame
  exact absurd (Except.ok.inj hsame) (by decide)

end LidarRelay.Echo
