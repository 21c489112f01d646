import Mathlib.Data.List.Basic
import Mathlib.Data.UInt
import Mathlib.Tactic.Common
import LidarRelay.Foundations.Exec

/-! # Byte buffers and the C string functions on them

A `Buffer n` is a C array of `n` chars. `recv` overwrites its first bytes only, and `strtok` walks
it in place, so that what an earlier call left in the array stays there. A scan that meets neither
a delimiter nor a NUL before the end of the array reads past it: that is the fault `overrun`.
-/

namespace LidarRelay
set_option autoImplicit false
set_option maxHeartbeats 250000

abbrev Byte := UInt8

def nul : Byte := 0
def comma : Byte := 44

/-! ## Buffers -/

/-- A C array of `n` chars. -/
structure Buffer (n : ℕ) where
  bytes : List Byte
  size : bytes.length = n

/-- What one `recv` into an array of `n` chars delivers when it returns a positive number. -/
structure Chunk (n : ℕ) where
  bytes : List Byte
  pos : 0 < bytes.length
  le : bytes.length ≤ n

namespace Buffer
variable {n : ℕ}

@[ext] theorem ext {a b : Buffer n} (h : a.bytes = b.bytes) : a = b := by
  cases a
  cases b
  cases h
  rfl

instance : Inhabited (Buffer n) := ⟨⟨List.replicate n nul, List.length_replicate⟩⟩

/-- `recv` of a chunk into the array: the bytes after it keep what they held. -/
def recv (b : Buffer n) (chunk : List Byte) : Buffer n where
  bytes := (chunk ++ b.bytes.drop chunk.length).take n
  size := by
    have h := b.size
    simp only [List.length_take, List.length_append, List.length_drop]
    omega

/-- `buf[i] = v`. -/
def store (b : Buffer n) (i : ℤ) (v : Byte) : Except Fault (Buffer n) :=
  if 0 ≤ i ∧ i < n then .ok ⟨b.bytes.set i.toNat v, by rw [List.length_set, b.size]⟩
  else .error .overrun

theorem recv_bytes (b : Buffer n) (chunk : List Byte) (h : chunk.length ≤ n) :
    (b.recv chunk).bytes = chunk ++ b.bytes.drop chunk.length := by
  have hb := b.size
  apply List.take_of_length_le
  simp only [List.length_append, List.length_drop]
  omega

theorem store_ok (b : Buffer n) (i : ℕ) (v : Byte) (h : i < n) :
    b.store i v = .ok ⟨b.bytes.set i v, by rw [List.length_set, b.size]⟩ := by
  have hi : 0 ≤ (i : ℤ) ∧ (i : ℤ) < n := ⟨Int.natCast_nonneg i, by exact_mod_cast h⟩
  rw [store, if_pos hi]
  rfl

/-- The last byte of a chunk becomes the NUL. -/
theorem recv_store_last (b : Buffer n) {chunk : List Byte} (hpos : 0 < chunk.length)
    (hle : chunk.length ≤ n) :
    ∃ b', (b.recv chunk).store ((chunk.length : ℤ) - 1) nul = .ok b' ∧
      b'.bytes = chunk.dropLast ++ nul :: b.bytes.drop chunk.length := by
  obtain rfl | ⟨text, last, rfl⟩ := List.eq_nil_or_concat' chunk
  · exact absurd hpos (Nat.lt_irrefl 0)
  · have hlen : (text ++ [last]).length = text.length + 1 := by simp
    have hidx : (((text ++ [last]).length : ℕ) : ℤ) - 1 = ((text.length : ℕ) : ℤ) := by omega
    rw [hidx, store_ok _ _ _ (by omega)]
    refine ⟨_, rfl, ?_⟩
    dsimp only
    rw [recv_bytes _ _ hle, List.dropLast_concat, List.append_assoc,
      List.set_append_right _ _ le_rfl, Nat.sub_self]
    rfl

end Buffer

/-! ## strlen and sprintf -/

/-- `strlen` of the string at the head of an array. -/
def strlen (s : List Byte) : Except Fault ℕ :=
  if nul ∈ s then .ok (s.takeWhile (· != nul)).length else .error .overrun

theorem takeWhile_append_nul (text tail : List Byte) :
    (text ++ nul :: tail).takeWhile (· != nul) = text.takeWhile (· != nul) := by
  induction text with
  | nil => rfl
  | cons b text ih =>
    rw [List.cons_append, List.takeWhile_cons, List.takeWhile_cons, ih]

theorem strlen_append_nul (text tail : List Byte) :
    strlen (text ++ nul :: tail) = .ok (text.takeWhile (· != nul)).length := by
  have hmem : nul ∈ text ++ nul :: tail := List.mem_append_right _ List.mem_cons_self
  rw [strlen, if_pos hmem, takeWhile_append_nul]

theorem take_strlen {s : List Byte} {n : ℕ} (h : strlen s = .ok n) :
    s.take n = s.takeWhile (· != nul) := by
  unfold strlen at h
  split at h
  · obtain rfl := Except.ok.inj h
    exact (List.prefix_iff_eq_take.mp (List.takeWhile_prefix _)).symm
  · cases h

/-- `sprintf` into an array of `n` chars: the text and its NUL have to fit. What is sent afterwards
are `strlen + 1` bytes. -/
def sprintf (n : ℕ) (text : List Byte) : Except Fault (List Byte) :=
  if text.length < n then .ok (text ++ [nul]) else .error .overrun

theorem sprintf_ok {n : ℕ} {text : List Byte} (h : text.length < n) :
    sprintf n text = .ok (text ++ [nul]) := if_pos h

theorem sprintf_error {n : ℕ} {text : List Byte} (h : ¬ text.length < n) :
    sprintf n text = .error .overrun := if_neg h

theorem sprintf_eq_ok {n : ℕ} {text out : List Byte} (h : sprintf n text = .ok out) :
    text.length < n ∧ out = text ++ [nul] := by
  unfold sprintf at h
  split at h
  · rename_i hlen
    exact ⟨hlen, (Except.ok.inj h).symm⟩
  · cases h

/-! ## strtok -/

/-- An array as `strtok` has it between two calls: the bytes before its saved pointer and the
bytes from there on. -/
structure Scan (n : ℕ) where
  before : List Byte
  rest : List Byte
  size : before.length + rest.length = n

namespace Scan
variable {n : ℕ}

@[ext] theorem ext {s t : Scan n} (h : s.before = t.before) (h' : s.rest = t.rest) : s = t := by
  cases s
  cases t
  cases h
  cases h'
  rfl

def start (b : Buffer n) : Scan n := ⟨[], b.bytes, by rw [List.length_nil, Nat.zero_add, b.size]⟩

def buffer (t : Scan n) : Buffer n :=
  ⟨t.before ++ t.rest, by rw [List.length_append, t.size]⟩

def skip (t : Scan n) (k : ℕ) : Scan n where
  before := t.before ++ t.rest.take k
  rest := t.rest.drop k
  size := by
    have h := t.size
    simp only [List.length_append, List.length_take, List.length_drop]
    omega

/-- Overwrite the byte under the pointer with a NUL and step over it. -/
def cut (t : Scan n) (h : t.rest ≠ []) : Scan n where
  before := t.before ++ [nul]
  rest := t.rest.tail
  size := by
    have hs := t.size
    have hp := List.length_pos_iff.mpr h
    simp only [List.length_append, List.length_singleton, List.length_tail]
    omega

end Scan

def strspn (c : Byte) (s : List Byte) : ℕ := (s.takeWhile fun b => b == c).length

/-- `strcspn(s, ",")`, the search stopping at the NUL as well. -/
def strcspn (c : Byte) (s : List Byte) : ℕ := (s.takeWhile fun b => b != c && b != nul).length

/-- One call of `strtok` with a one-character delimiter set: the token it points to, `none` for
the null pointer, and the array afterwards. -/
def strtok {n : ℕ} (c : Byte) (t : Scan n) : Except Fault (Option (List Byte) × Scan n) :=
  let s := t.skip (strspn c t.rest)
  if s.rest = [] then .error .overrun
  else if s.rest.head? = some nul then .ok (none, s)
  else
    let e := s.skip (strcspn c s.rest)
    if h : e.rest = [] then .error .overrun
    else if e.rest.head? = some nul then .ok (some (s.rest.take (strcspn c s.rest)), e)
    else .ok (some (s.rest.take (strcspn c s.rest)), e.cut h)

/-- A text `strtok` hands out whole: not empty, without the delimiter and without a NUL. -/
def Clean (c : Byte) (tok : List Byte) : Prop := tok ≠ [] ∧ ∀ b ∈ tok, b ≠ c ∧ b ≠ nul

theorem Clean.head_ne_nul {c d : Byte} {tok : List Byte} (h : Clean c tok) :
    tok.head?.getD d ≠ nul := by
  obtain ⟨hne, hall⟩ := h
  cases tok with
  | nil => exact absurd rfl hne
  | cons b tok => exact (hall b (List.mem_cons_self ..)).2

theorem strspn_clean {c : Byte} {tok tail : List Byte} (h : Clean c tok) :
    strspn c (tok ++ tail) = 0 := by
  obtain ⟨hne, hall⟩ := h
  cases tok with
  | nil => exact absurd rfl hne
  | cons b tok =>
    have hb : (b == c) = false := beq_eq_false_iff_ne.mpr (hall b (List.mem_cons_self ..)).1
    simp [strspn, hb]

theorem strcspn_clean {c : Byte} {tok tail : List Byte} {d : Byte} (h : Clean c tok)
    (hd : d = c ∨ d = nul) : strcspn c (tok ++ d :: tail) = tok.length := by
  have hall : ∀ b ∈ tok, (b != c && b != nul) = true := by
    intro b hb
    have hb' := h.2 b hb
    simp [hb'.1, hb'.2]
  have hstop : (d != c && d != nul) = false := by
    rcases hd with rfl | rfl <;> simp
  rw [strcspn, List.takeWhile_append_of_pos hall, List.takeWhile_cons_of_neg (by simp [hstop]),
    List.append_nil]

theorem strtok_delim {n : ℕ} {c : Byte} {pre tok tail : List Byte} (hc : c ≠ nul)
    (htok : Clean c tok) (hs : pre.length + (tok ++ c :: tail).length = n) :
    strtok c ⟨pre, tok ++ c :: tail, hs⟩ =
      .ok (some tok, ⟨pre ++ tok ++ [nul], tail, by
        simp only [List.length_append, List.length_cons, List.length_nil] at hs ⊢; omega⟩) := by
  have hspn : strspn c (tok ++ c :: tail) = 0 := strspn_clean htok
  have hcspn : strcspn c (tok ++ c :: tail) = tok.length := strcspn_clean htok (.inl rfl)
  have hhead : tok.head?.getD c ≠ nul := htok.head_ne_nul
  simp [strtok, Scan.skip, Scan.cut, hspn, hcspn, hhead, hc]

theorem strtok_nul {n : ℕ} {c : Byte} {pre tok tail : List Byte} (htok : Clean c tok)
    (hs : pre.length + (tok ++ nul :: tail).length = n) :
    strtok c ⟨pre, tok ++ nul :: tail, hs⟩ =
      .ok (some tok, ⟨pre ++ tok, nul :: tail, by
        simp only [List.length_append] at hs ⊢; omega⟩) := by
  have hspn : strspn c (tok ++ nul :: tail) = 0 := strspn_clean htok
  have hcspn : strcspn c (tok ++ nul :: tail) = tok.length := strcspn_clean htok (.inr rfl)
  have hhead : tok.head?.getD nul ≠ nul := htok.head_ne_nul
  simp [strtok, Scan.skip, hspn, hcspn, hhead]

end LidarRelay
