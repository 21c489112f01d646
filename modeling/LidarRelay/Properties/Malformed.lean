import LidarRelay.Foundations.Runs
import LidarRelay.Programs.Decoders

/-! # Malformed requests

The receive loop of a device on any bytes. The array is neither cleared nor terminated, `strtok`
hands a null pointer to the conversions where fields are missing, and the fields are stored one by
one. So a chunk is decoded as it should be exactly when it is a complete message (`rejects_iff`):
there is nothing that would reject another.
-/

namespace LidarRelay.Malformed
set_option autoImplicit false
set_option maxHeartbeats 250000

inductive RecvResult (n : ℕ) where
  | bytes (chunk : Chunk n)
  -- 0 or an error: the next bytes come on another connection
  | ended

/-- The globals that a decode ends in. -/
structure Watched (d : Decoder) where
  Globals : Type
  globals : d.Memory → Globals
  -- a whole message leaves nothing of what they were
  overwrites : ∀ toks : List (List Byte), toks.length = d.stores.length → ∀ m m',
    globals (storeFields d.stores toks m) = globals (storeFields d.stores toks m')

section Receiver
variable {d : Decoder}

def step (r : Receiver d) : RecvResult d.size → Option (Receiver d)
  | .bytes chunk =>
    match Receiver.receive chunk.bytes r with
    | (r', .ok _) => some r'
    | (_, .error _) => none
  | .ended => some r

/-- The states after any history; at its beginning the array holds anything. -/
def Reached (r : Receiver d) : Prop := ∃ buf results, run step ⟨d.start, buf⟩ results = some r

theorem reached_start (buf : Buffer d.size) : Reached (⟨d.start, buf⟩ : Receiver d) :=
  ⟨buf, [], rfl⟩

theorem reached_receive {r r' : Receiver d} (chunk : Chunk d.size) (h : Reached r)
    (hr : Receiver.receive chunk.bytes r = (r', .ok ())) : Reached r' := by
  obtain ⟨buf, results, hrun⟩ := h
  refine ⟨buf, results ++ [.bytes chunk], run_trans hrun (run_of_step ?_)⟩
  rw [step, hr]

end Receiver

/-- The decode of a chunk as it should be, in whatever state it arrives: what is stored depends on
the bytes of the chunk alone, nothing is read past the array, no null pointer is converted, and what
is no complete message leaves the globals as they were. -/
structure Rejects {d : Decoder} (w : Watched d) (chunk : Chunk d.size) : Prop where
  own : ∃ decode : d.Memory → d.Memory, ∀ r : Receiver d, Reached r →
    (Receiver.receive chunk.bytes r).1.memory = decode r.memory
  inside : ∀ r : Receiver d, Reached r →
    faultOf (Receiver.receive chunk.bytes r).2 ≠ some .overrun
  nonNull : ∀ r : Receiver d, Reached r →
    faultOf (Receiver.receive chunk.bytes r).2 ≠ some .nullPointer
  unchanged : ¬ Complete comma d.stores.length chunk.bytes → ∀ r : Receiver d, Reached r →
    w.globals (Receiver.receive chunk.bytes r).1.memory = w.globals r.memory

section Rejects
variable {d : Decoder} {w : Watched d} {chunk : Chunk d.size}

theorem rejects_of_complete (h : Complete comma d.stores.length chunk.bytes) : Rejects w chunk := by
  obtain ⟨fields, hk, hclean, hchunk⟩ := id h
  have hfits : (joined comma fields).length < d.size := by
    have hle := chunk.le
    rw [hchunk, List.length_append, List.length_singleton] at hle
    omega
  have hwhole : ∀ r : Receiver d, ∃ buf, Receiver.receive chunk.bytes r =
      (⟨storeFields d.stores fields r.memory, buf⟩, .ok ()) :=
    fun r => hchunk ▸ Receiver.receive_whole hk hclean hfits r
  refine ⟨⟨storeFields d.stores fields, fun r _ => ?_⟩, fun r _ hf => ?_, fun r _ hf => ?_,
    fun hnot => absurd h hnot⟩
  · obtain ⟨buf, hr⟩ := hwhole r
    rw [hr]
  · obtain ⟨buf, hr⟩ := hwhole r
    rw [hr] at hf
    cases hf
  · obtain ⟨buf, hr⟩ := hwhole r
    rw [hr] at hf
    cases hf

variable (harrive : ∀ buf, ∃ b, d.arrive buf chunk.bytes = .ok b)
include harrive

/-- Where no fault can happen the whole message is stored, and of two states with the same array and
other globals at least one is changed. -/
theorem complete_of_rejects (h : Rejects w chunk) {r : Receiver d} (hr : Reached r)
    (hmoved : w.globals r.memory ≠ w.globals d.start) :
    Complete comma d.stores.length chunk.bytes := by
  by_contra hnot
  obtain ⟨b, hb⟩ := harrive r.buf
  obtain ⟨hmemory, hfault⟩ := Receiver.receive_eq (r := r) hb
  obtain ⟨hmemory', -⟩ := Receiver.receive_eq (r := ⟨d.start, r.buf⟩) hb
  have hnone : (fieldsOf comma d.stores.length b.bytes).2 = none := by
    cases hf : (fieldsOf comma d.stores.length b.bytes).2 with
    | none => rfl
    | some f =>
      rw [hf] at hfault
      rcases fieldsOf_fault hf with rfl | rfl
      · exact absurd hfault (h.inside r hr)
      · exact absurd hfault (h.nonNull r hr)
  have hsame := w.overwrites _ (fieldsOf_length hnone) r.memory d.start
  have hkeep := h.unchanged hnot r hr
  have hkeep' := h.unchanged hnot _ (reached_start r.buf)
  rw [hmemory] at hkeep
  rw [hmemory'] at hkeep'
  exact hmoved (hkeep.symm.trans (hsame.trans hkeep'))

/-- One message that moves the globals from where they start is enough. -/
theorem rejects_iff_complete {fields : List (List Byte)} (hk : fields.length = d.stores.length)
    (hclean : ∀ f ∈ fields, Clean comma f) (hfits : (joined comma fields).length < d.size)
    (hmoves : w.globals (storeFields d.stores fields d.start) ≠ w.globals d.start) :
    Rejects w chunk ↔ Complete comma d.stores.length chunk.bytes := by
  refine ⟨fun hrej => ?_, rejects_of_complete⟩
  let message : Chunk d.size := ⟨joined comma fields ++ [nul], by simp, by simpa using hfits⟩
  obtain ⟨buf, hr⟩ := Receiver.receive_whole hk hclean hfits ⟨d.start, default⟩
  exact complete_of_rejects harrive hrej
    (reached_receive message (reached_start default) hr) hmoves

end Rejects

/-! ## The two devices -/

def sendWatched : Watched LidarSend.decoder where
  Globals := Double × Double × Double × Double × Double
  globals := fun m : LidarSend.Memory =>
    (m.xRecv, m.yRecv, m.thetaRecv, m.velRecv, m.unixtimeSend)
  overwrites := fun toks h m m' => by
    match toks, h with
    | [_, _, _, _, _, _], _ => rfl

def recvWatched : Watched LidarRecv.decoder where
  Globals := Double × Double
  globals := fun m : LidarRecv.Memory => (m.angleRecv, m.unixtimeSend)
  overwrites := fun toks h m m' => by
    match toks, h with
    | [_, _, _], _ => rfl

theorem ones_clean (k : ℕ) : ∀ f ∈ List.replicate k ([49] : List Byte), Clean comma f := by
  intro f hf
  obtain rfl := List.eq_of_mem_replicate hf
  exact ⟨List.cons_ne_nil _ _, List.forall_mem_singleton.mpr (by decide)⟩

theorem readDouble_one : readDouble [49] ≠ .finite 0 := by decide +kernel

/-- **The devices decode a chunk as they should exactly when it is a complete message**, of six
fields for lidar_send and of three for lidar_recv. -/
theorem rejects_iff (chunk : Chunk maxRecvLen) :
    (Rejects sendWatched chunk ↔ Complete comma 6 chunk.bytes) ∧
      (Rejects recvWatched chunk ↔ Complete comma 3 chunk.bytes) :=
  ⟨rejects_iff_complete (fun _ => ⟨_, rfl⟩) rfl (ones_clean 6) (by decide)
      fun h => readDouble_one (congrArg Prod.fst h),
    rejects_iff_complete (fun _ => ⟨_, rfl⟩) rfl (ones_clean 3) (by decide)
      fun h => readDouble_one (congrArg Prod.fst h)⟩

/-- `"7,8"` with its NUL. -/
def halfRequest : Chunk maxRecvLen := ⟨[55, 44, 56, 0], by decide, by decide⟩

theorem halfRequest_stored (r : Receiver LidarSend.decoder) :
    (Receiver.receive halfRequest.bytes r).1.memory =
        storeFields LidarSend.stores [[55], [56]] r.memory ∧
      faultOf (Receiver.receive halfRequest.bytes r).2 = some .nullPointer := by
  obtain ⟨b, hb, tail, hbytes⟩ := LidarSend.decoder.arrives r.buf [55, 44, 56] (by decide)
  have hfields : fieldsOf comma LidarSend.decoder.stores.length b.bytes =
      ([[55], [56]], some .nullPointer) := by
    have hsplit : b.bytes = halfRequest.bytes ++ tail := hbytes
    rw [hsplit, fieldsOf_append_of_nul comma_ne_nul (by decide)]
    decide
  have harrive : LidarSend.decoder.arrive r.buf halfRequest.bytes = .ok b := hb
  obtain ⟨hmemory, hfault⟩ := Receiver.receive_eq harrive
  rw [hfields] at hmemory hfault
  exact ⟨hmemory, hfault⟩

/-- lidar_send stores two numbers of it and converts a null pointer. -/
theorem halfRequest_not_rejected :
    ¬ Complete comma 6 halfRequest.bytes ∧ ¬ Rejects sendWatched halfRequest := by
  have hnot : ¬ Rejects sendWatched halfRequest := fun h =>
    h.nonNull _ (reached_start default) (halfRequest_stored _).2
  exact ⟨fun hc => hnot (rejects_of_complete hc), hnot⟩

end LidarRelay.Malformed
