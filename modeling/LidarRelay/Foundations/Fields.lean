import Mathlib.Data.List.TakeWhile
import Mathlib.Tactic.Common
import LidarRelay.Foundations.CString

/-! # The fields of any text

`strtok` in a loop, each token handed to a conversion that wants a string: what such a decode does
to any bytes. `nextField` is one call as a function of the bytes from the saved pointer on,
`fieldsOf` the tokens of the first calls and the fault that ends them early, and `eachField` the
decode itself. `eachField_eq` says that a decode makes the stores of the tokens there are.
-/

namespace LidarRelay
set_option autoImplicit false
set_option maxHeartbeats 250000

section Fields
variable {c : Byte}

/-- The bytes `strtok` skips over inside a token. -/
def inField (c b : Byte) : Bool := b != c && b != nul

/-- The next token and the bytes after it. No token means a null pointer for the conversion; no end
of the token means a read past the array. -/
def nextField (c : Byte) (s : List Byte) : Except Fault (List Byte × List Byte) :=
  match s.dropWhile (· == c) with
  | [] => .error .overrun
  | b :: r =>
    if b = nul then .error .nullPointer
    else
      match (b :: r).dropWhile (inField c) with
      | [] => .error .overrun
      | e :: tail => .ok ((b :: r).takeWhile (inField c), if e = nul then e :: tail else tail)

/-- The tokens of the first `k` calls, and what ends them before that. -/
def fieldsOf (c : Byte) : ℕ → List Byte → List (List Byte) × Option Fault
  | 0, _ => ([], none)
  | k + 1, s =>
    match nextField c s with
    | .error f => ([], some f)
    | .ok (tok, r) => (tok :: (fieldsOf c k r).1, (fieldsOf c k r).2)

/-- `p = strtok(…); v = convert(p);` for one variable after the other. -/
def eachField {n : ℕ} {σ : Type} (c : Byte) : List (List Byte → σ → σ) → Scan n → Exec σ (Scan n)
  | [], t => pure t
  | store :: stores, t => do
    let (p, t) ← Exec.lift (strtok c t)
    match p with
    | none => Exec.lift (.error .nullPointer)
    | some tok =>
      Exec.modify (store tok)
      eachField c stores t

/-- The stores of the tokens there are. -/
def storeFields {σ : Type} : List (List Byte → σ → σ) → List (List Byte) → σ → σ
  | store :: stores, tok :: toks, s => storeFields stores toks (store tok s)
  | _, _, s => s

/-! ## One call -/

theorem drop_takeWhile (p : Byte → Bool) (s : List Byte) :
    s.drop (s.takeWhile p).length = s.dropWhile p := by
  have h := List.takeWhile_append_dropWhile (p := p) (l := s)
  calc s.drop (s.takeWhile p).length
      = (s.takeWhile p ++ s.dropWhile p).drop (s.takeWhile p).length := by rw [h]
    _ = s.dropWhile p := List.drop_left

theorem take_takeWhile (p : Byte → Bool) (s : List Byte) :
    s.take (s.takeWhile p).length = s.takeWhile p := by
  have h := List.takeWhile_append_dropWhile (p := p) (l := s)
  calc s.take (s.takeWhile p).length
      = (s.takeWhile p ++ s.dropWhile p).take (s.takeWhile p).length := by rw [h]
    _ = s.takeWhile p := List.take_left

theorem skip_delimiters {n : ℕ} (t : Scan n) :
    (t.skip (strspn c t.rest)).rest = t.rest.dropWhile (· == c) :=
  drop_takeWhile _ _

theorem skip_field {n : ℕ} (t : Scan n) :
    (t.skip (strcspn c t.rest)).rest = t.rest.dropWhile (inField c) :=
  drop_takeWhile _ _

theorem take_field (s : List Byte) : s.take (strcspn c s) = s.takeWhile (inField c) :=
  take_takeWhile _ _

/-- What one call can meet: the end of the array before a token or inside it, no more token, or a
token and the byte that ends it. -/
inductive FieldCall (c : Byte) (s : List Byte) : Except Fault (List Byte × List Byte) → Prop
  | empty (h : s.dropWhile (· == c) = []) : FieldCall c s (.error .overrun)
  | unended {b : Byte} {r : List Byte} (h : s.dropWhile (· == c) = b :: r) (hb : b ≠ nul)
      (hend : (b :: r).dropWhile (inField c) = []) : FieldCall c s (.error .overrun)
  | null {r : List Byte} (h : s.dropWhile (· == c) = nul :: r) : FieldCall c s (.error .nullPointer)
  | field {b e : Byte} {r tail : List Byte} (h : s.dropWhile (· == c) = b :: r) (hb : b ≠ nul)
      (hend : (b :: r).dropWhile (inField c) = e :: tail) :
      FieldCall c s (.ok ((b :: r).takeWhile (inField c), if e = nul then e :: tail else tail))

theorem fieldCall (c : Byte) (s : List Byte) : FieldCall c s (nextField c s) := by
  unfold nextField
  split
  · exact .empty (by assumption)
  · rename_i b r h
    split
    · rename_i hb
      exact .null (hb ▸ h)
    · rename_i hb
      split
      · exact .unended h hb (by assumption)
      · exact .field h hb (by assumption)

theorem nextField_error {s : List Byte} {f : Fault} (h : nextField c s = .error f) :
    f = .overrun ∨ f = .nullPointer := by
  have hcall := fieldCall c s
  rw [h] at hcall
  cases hcall with
  | empty => exact .inl rfl
  | unended => exact .inl rfl
  | null => exact .inr rfl

theorem nextField_of_end {s r tail : List Byte} {b e : Byte} (h : s.dropWhile (· == c) = b :: r)
    (hb : b ≠ nul) (hend : (b :: r).dropWhile (inField c) = e :: tail) :
    nextField c s =
      .ok ((b :: r).takeWhile (inField c), if e = nul then e :: tail else tail) := by
  simp only [nextField, h, hb, hend, if_false]

theorem nextField_of_nul {s r : List Byte} (h : s.dropWhile (· == c) = nul :: r) :
    nextField c s = .error .nullPointer := by
  rw [nextField, h]
  rfl

section Call
variable {n : ℕ} {t : Scan n}

theorem strtok_of_nil (h : t.rest.dropWhile (· == c) = []) : strtok c t = .error .overrun := by
  have hrest : (t.skip (strspn c t.rest)).rest = [] := (skip_delimiters t).trans h
  unfold strtok
  dsimp only
  rw [if_pos hrest]

theorem strtok_of_nul {r : List Byte} (h : t.rest.dropWhile (· == c) = nul :: r) :
    strtok c t = .ok (none, t.skip (strspn c t.rest)) := by
  have hrest : (t.skip (strspn c t.rest)).rest = nul :: r := (skip_delimiters t).trans h
  unfold strtok
  dsimp only
  rw [if_neg (by rw [hrest]; exact List.cons_ne_nil _ _), if_pos (by rw [hrest]; rfl)]

theorem strtok_of_open {b : Byte} {r : List Byte} (h : t.rest.dropWhile (· == c) = b :: r)
    (hb : b ≠ nul) (hend : (b :: r).dropWhile (inField c) = []) :
    strtok c t = .error .overrun := by
  have hrest : (t.skip (strspn c t.rest)).rest = b :: r := (skip_delimiters t).trans h
  have hnil : ((t.skip (strspn c t.rest)).skip
      (strcspn c (t.skip (strspn c t.rest)).rest)).rest = [] := by
    rw [skip_field, hrest, hend]
  unfold strtok
  dsimp only
  rw [if_neg (by rw [hrest]; exact List.cons_ne_nil _ _),
    if_neg (by rw [hrest]; exact fun he => hb (Option.some.inj he)), dif_pos hnil]

theorem strtok_of_end {b e : Byte} {r tail : List Byte}
    (h : t.rest.dropWhile (· == c) = b :: r) (hb : b ≠ nul)
    (hend : (b :: r).dropWhile (inField c) = e :: tail) :
    ∃ t', strtok c t = .ok (some ((b :: r).takeWhile (inField c)), t') ∧
      t'.rest = if e = nul then e :: tail else tail := by
  have hrest : (t.skip (strspn c t.rest)).rest = b :: r := (skip_delimiters t).trans h
  have hcons : ((t.skip (strspn c t.rest)).skip
      (strcspn c (t.skip (strspn c t.rest)).rest)).rest = e :: tail := by
    rw [skip_field, hrest, hend]
  have htok : (t.skip (strspn c t.rest)).rest.takeWhile (inField c) =
      (b :: r).takeWhile (inField c) := by rw [hrest]
  unfold strtok
  dsimp only
  rw [if_neg (by rw [hrest]; exact List.cons_ne_nil _ _),
    if_neg (by rw [hrest]; exact fun he => hb (Option.some.inj he)),
    dif_neg (by rw [hcons]; exact List.cons_ne_nil _ _), take_field, htok]
  by_cases he : e = nul
  · rw [if_pos (by rw [hcons, he]; rfl), if_pos he]
    exact ⟨_, rfl, hcons⟩
  · rw [if_neg (by rw [hcons]; exact fun h' => he (Option.some.inj h')), if_neg he]
    exact ⟨_, rfl, congrArg List.tail hcons⟩

end Call

/-! ## The whole decode -/

/-- **A decode of any bytes makes the stores of the tokens there are**, and ends in a fault exactly
when there are too few of them or one has no end. -/
theorem eachField_eq {n : ℕ} {σ : Type} (stores : List (List Byte → σ → σ)) (t : Scan n) (s : σ) :
    (eachField c stores t s).1 = storeFields stores (fieldsOf c stores.length t.rest).1 s ∧
      faultOf (eachField c stores t s).2 = (fieldsOf c stores.length t.rest).2 := by
  induction stores generalizing t s with
  | nil => exact ⟨rfl, rfl⟩
  | cons store stores ih =>
    have hcall := fieldCall c t.rest
    rw [List.length_cons, fieldsOf]
    generalize nextField c t.rest = x at hcall ⊢
    cases hcall with
    | empty h =>
      rw [eachField, strtok_of_nil h, Exec.lift_error_bind]
      exact ⟨rfl, rfl⟩
    | unended h hb hend =>
      rw [eachField, strtok_of_open h hb hend, Exec.lift_error_bind]
      exact ⟨rfl, rfl⟩
    | null h =>
      rw [eachField, strtok_of_nul h, Exec.lift_ok_bind]
      exact ⟨rfl, rfl⟩
    | field h hb hend =>
      obtain ⟨t', ht, hrest⟩ := strtok_of_end h hb hend
      rw [eachField, ht, Exec.lift_ok_bind]
      dsimp only
      rw [Exec.modify_bind, ← hrest]
      exact ih t' _

theorem fieldsOf_fault {k : ℕ} {s : List Byte} {f : Fault} (h : (fieldsOf c k s).2 = some f) :
    f = .overrun ∨ f = .nullPointer := by
  induction k generalizing s with
  | zero => cases h
  | succ k ih =>
    cases hnext : nextField c s with
    | error f' =>
      simp only [fieldsOf, hnext, Option.some.injEq] at h
      exact h ▸ nextField_error hnext
    | ok p =>
      obtain ⟨tok, r⟩ := p
      simp only [fieldsOf, hnext] at h
      exact ih h

theorem fieldsOf_length {k : ℕ} {s : List Byte} (h : (fieldsOf c k s).2 = none) :
    (fieldsOf c k s).1.length = k := by
  induction k generalizing s with
  | zero => rfl
  | succ k ih =>
    cases hnext : nextField c s with
    | error f =>
      simp only [fieldsOf, hnext] at h
      cases h
    | ok p =>
      obtain ⟨tok, r⟩ := p
      simp only [fieldsOf, hnext] at h ⊢
      rw [List.length_cons, ih h]

/-! ## More bytes behind -/

theorem dropWhile_append_cons {p : Byte → Bool} {s r : List Byte} {b : Byte}
    (h : s.dropWhile p = b :: r) (t : List Byte) : (s ++ t).dropWhile p = b :: (r ++ t) := by
  rw [List.dropWhile_append, h]
  rfl

theorem takeWhile_append_cons {p : Byte → Bool} {s r : List Byte} {b : Byte}
    (h : s.dropWhile p = b :: r) (t : List Byte) : (s ++ t).takeWhile p = s.takeWhile p := by
  have hlen := congrArg List.length (List.takeWhile_append_dropWhile (p := p) (l := s))
  rw [h, List.length_append, List.length_cons] at hlen
  rw [List.takeWhile_append, if_neg (by omega)]

theorem nextField_append {s tok r : List Byte} (h : nextField c s = .ok (tok, r)) (t : List Byte) :
    nextField c (s ++ t) = .ok (tok, r ++ t) := by
  have hcall := fieldCall c s
  rw [h] at hcall
  cases hcall with
  | field hs hb hend =>
    rw [nextField_of_end (dropWhile_append_cons hs t) hb (dropWhile_append_cons hend t),
      ← List.cons_append, takeWhile_append_cons hend]
    split <;> rfl

theorem nextField_append_null {s : List Byte} (h : nextField c s = .error .nullPointer)
    (t : List Byte) : nextField c (s ++ t) = .error .nullPointer := by
  have hcall := fieldCall c s
  rw [h] at hcall
  cases hcall with
  | null hs => exact nextField_of_nul (dropWhile_append_cons hs t)

/-! ## Text with its NUL -/

theorem mem_dropWhile {p : Byte → Bool} {s : List Byte} {b : Byte} (h : b ∈ s) (hp : p b = false) :
    b ∈ s.dropWhile p := by
  rw [← List.takeWhile_append_dropWhile (p := p) (l := s)] at h
  rcases List.mem_append.mp h with h | h
  · rw [List.mem_takeWhile_imp h] at hp
    cases hp
  · exact h

theorem nul_not_inField : inField c nul = false := by
  rw [inField, Bool.and_eq_false_iff]
  exact .inr rfl

section Nul
variable {s : List Byte} (hc : c ≠ nul) (hnul : nul ∈ s)
include hc hnul

theorem nul_mem_dropWhile : nul ∈ s.dropWhile (· == c) :=
  mem_dropWhile hnul (beq_eq_false_iff_ne.mpr hc.symm)

theorem nextField_ne_overrun : nextField c s ≠ .error .overrun := by
  intro h
  have hmem := nul_mem_dropWhile hc hnul
  have hcall := fieldCall c s
  rw [h] at hcall
  cases hcall with
  | empty hs =>
    rw [hs] at hmem
    cases hmem
  | unended hs hb hopen =>
    rw [hs] at hmem
    have hin := mem_dropWhile hmem (nul_not_inField (c := c))
    rw [hopen] at hin
    cases hin

theorem nul_mem_rest {tok r : List Byte} (h : nextField c s = .ok (tok, r)) : nul ∈ r := by
  have hmem := nul_mem_dropWhile hc hnul
  have hcall := fieldCall c s
  rw [h] at hcall
  cases hcall with
  | @field b e r tail hs hb hend =>
    rw [hs] at hmem
    have hin := mem_dropWhile hmem (nul_not_inField (c := c))
    rw [hend] at hin
    split
    · exact hin
    · rename_i he
      exact (List.mem_cons.mp hin).resolve_left fun h => he h.symm

end Nul

/-- Bytes with a NUL among them say all there is to decode: what follows does not matter. -/
theorem fieldsOf_append_of_nul {s : List Byte} (hc : c ≠ nul) (hnul : nul ∈ s) (k : ℕ)
    (t : List Byte) : fieldsOf c k (s ++ t) = fieldsOf c k s := by
  induction k generalizing s with
  | zero => rfl
  | succ k ih =>
    cases hnext : nextField c s with
    | error f =>
      rcases nextField_error hnext with rfl | rfl
      · exact absurd hnext (nextField_ne_overrun hc hnul)
      · simp only [fieldsOf, hnext, nextField_append_null hnext]
    | ok p =>
      obtain ⟨tok, r⟩ := p
      simp only [fieldsOf, hnext, nextField_append hnext, ih (nul_mem_rest hc hnul hnext)]

/-! ## Complete messages -/

def joined (c : Byte) : List (List Byte) → List Byte
  | [] => []
  | [f] => f
  | f :: g :: fs => f ++ c :: joined c (g :: fs)

/-- A text of `k` fields, none of them empty, with its NUL and nothing behind it. -/
def Complete (c : Byte) (k : ℕ) (s : List Byte) : Prop :=
  ∃ fields, fields.length = k ∧ (∀ f ∈ fields, Clean c f) ∧ s = joined c fields ++ [nul]

theorem nextField_clean {f tail : List Byte} {e : Byte} (hf : Clean c f) (he : e = c ∨ e = nul) :
    nextField c (f ++ e :: tail) = .ok (f, if e = nul then e :: tail else tail) := by
  obtain ⟨hne, hall⟩ := hf
  have hin : ∀ b ∈ f, inField c b = true := fun b hb => by
    rw [inField, Bool.and_eq_true, bne_iff_ne, bne_iff_ne]
    exact hall b hb
  have hout : inField c e = false := by
    rcases he with rfl | rfl
    · simp [inField]
    · exact nul_not_inField
  cases f with
  | nil => exact absurd rfl hne
  | cons b f =>
    have hb := hall b List.mem_cons_self
    have hs : ((b :: f) ++ e :: tail).dropWhile (· == c) = b :: (f ++ e :: tail) := by
      rw [List.cons_append, List.dropWhile_cons_of_neg (by simpa using hb.1)]
    have hend : (b :: (f ++ e :: tail)).dropWhile (inField c) = e :: tail := by
      rw [← List.cons_append, List.dropWhile_append_of_pos hin,
        List.dropWhile_cons_of_neg (by simp [hout])]
    have htok : (b :: (f ++ e :: tail)).takeWhile (inField c) = b :: f := by
      rw [← List.cons_append, List.takeWhile_append_of_pos hin,
        List.takeWhile_cons_of_neg (by simp [hout]), List.append_nil]
    rw [nextField_of_end hs hb.2 hend, htok]

theorem fieldsOf_joined {fields : List (List Byte)} (hc : c ≠ nul)
    (hclean : ∀ f ∈ fields, Clean c f) :
    fieldsOf c fields.length (joined c fields ++ [nul]) = (fields, none) := by
  induction fields with
  | nil => rfl
  | cons f fs ih =>
    have hf := hclean f List.mem_cons_self
    have ih := ih fun g hg => hclean g (List.mem_cons_of_mem f hg)
    cases fs with
    | nil => simp only [joined, List.length_cons, fieldsOf, nextField_clean hf (.inr rfl), List.length_nil]
    | cons g fs =>
      simp only [joined, List.append_assoc, List.cons_append]
      rw [List.length_cons, fieldsOf, nextField_clean hf (.inl rfl), if_neg hc]
      dsimp only
      rw [ih]

end Fields
end LidarRelay
