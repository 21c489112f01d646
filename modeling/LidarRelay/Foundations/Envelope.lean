import Mathlib.Algebra.Order.Field.Basic
import Mathlib.Tactic.Linarith
import Mathlib.Tactic.FieldSimp
import Mathlib.Tactic.Ring

/-! # Straight lines between two rows of points

A line is consistent with measurements taken at `x i` when it passes between `lo i` and `hi i` at
each of them. The slopes of all consistent lines form an interval, and what an affine function of
slope and offset takes as its least value on them it takes on the two lines at the ends of that
interval or on an edge of the convex envelope of one of the rows. The envelope is the path of a
walk that goes from each point along the flattest edge on, and both the walk and its edges are
described here without saying how ties are broken.
-/

namespace LidarRelay.Envelope
set_option autoImplicit false
set_option maxHeartbeats 250000

/-- A line by its slope and its value at 0. -/
@[ext] structure Line (K : Type*) where
  slope : K
  offset : K

namespace Line

section Field
variable {K : Type*} [Field K]

def value (l : Line K) (x : K) : K := l.offset + l.slope * x

def through (x y x' y' : K) : Line K where
  slope := (y' - y) / (x' - x)
  offset := y' - (y' - y) / (x' - x) * x'

/-- The mirror image in the axis of time. -/
def mirror (l : Line K) : Line K := ⟨-l.slope, -l.offset⟩

theorem value_eq (l : Line K) (x x' : K) : l.value x' = l.value x + l.slope * (x' - x) := by
  unfold value
  ring

@[simp] theorem mirror_mirror (l : Line K) : l.mirror.mirror = l := by
  simp only [mirror, neg_neg]

@[simp] theorem value_mirror (l : Line K) (x : K) : l.mirror.value x = -l.value x := by
  unfold mirror value
  ring

theorem value_through_right (x y x' y' : K) : (through x y x' y').value x' = y' := by
  unfold through value
  ring

theorem value_through_left {x x' : K} (h : x ≠ x') (y y' : K) :
    (through x y x' y').value x = y := by
  have hne : x' - x ≠ 0 := sub_ne_zero.mpr h.symm
  unfold through value
  field_simp
  ring

/-- The line that is `t` of the way from one line to another. -/
def mix (t : K) (l m : Line K) : Line K :=
  ⟨l.slope + t * (m.slope - l.slope), l.offset + t * (m.offset - l.offset)⟩

theorem value_mix (t : K) (l m : Line K) (x : K) :
    (mix t l m).value x = (1 - t) * l.value x + t * m.value x := by
  unfold mix value
  ring

theorem eq_of_meet {l m : Line K} {x : K} (hslope : l.slope = m.slope)
    (h : l.value x = m.value x) : l = m := by
  apply Line.ext hslope
  rw [value, value, hslope] at h
  exact add_right_cancel h

end Field

section Order
variable {K : Type*} [Field K] [LinearOrder K] [IsStrictOrderedRing K]

/-- Of two lines that meet the steeper one is above to the right of that point. -/
theorem value_le_right {l m : Line K} {x x' : K} (hmeet : l.value x ≤ m.value x)
    (hslope : l.slope ≤ m.slope) (hx : x ≤ x') : l.value x' ≤ m.value x' := by
  rw [l.value_eq x x', m.value_eq x x']
  have := mul_le_mul_of_nonneg_right hslope (sub_nonneg.mpr hx)
  linarith

theorem value_le_left {l m : Line K} {x x' : K} (hmeet : l.value x ≤ m.value x)
    (hslope : m.slope ≤ l.slope) (hx : x' ≤ x) : l.value x' ≤ m.value x' := by
  rw [l.value_eq x x', m.value_eq x x']
  have := mul_le_mul_of_nonneg_right hslope (sub_nonneg.mpr hx)
  linarith

theorem slope_le_of_value_le {l m : Line K} {x x' : K} (hx : x < x') (h : m.value x ≤ l.value x)
    (h' : l.value x' ≤ m.value x') : l.slope ≤ m.slope := by
  rw [l.value_eq x x', m.value_eq x x'] at h'
  have hmul : l.slope * (x' - x) ≤ m.slope * (x' - x) := by linarith
  exact le_of_mul_le_mul_right hmul (sub_pos.mpr hx)

end Order
end Line

open Line

section Points
variable {ι K : Type*} [LinearOrder ι] [Field K] [LinearOrder K] [IsStrictOrderedRing K]
variable (x y : ι → K)

/-- The line passes below all points or through them. -/
def Under (l : Line K) : Prop := ∀ i, l.value (x i) ≤ y i

def Touches (l : Line K) (i : ι) : Prop := l.value (x i) = y i

/-- A line from one point to a later one, with no point after the first below it. -/
structure Edge (j n : ι) (l : Line K) : Prop where
  lt : j < n
  left : Touches x y l j
  right : Touches x y l n
  under : ∀ k, j < k → l.value (x k) ≤ y k

/-- A walk along such edges. -/
inductive Walk : ι → ι → List (Line K) → Prop
  | nil (j : ι) : Walk j j []
  | cons {j n m : ι} {l : Line K} {ls : List (Line K)} (edge : Edge x y j n l)
      (rest : Walk n m ls) : Walk j m (l :: ls)

variable {x y}

omit [IsStrictOrderedRing K] in
theorem Edge.under_from {j n : ι} {l : Line K} (h : Edge x y j n l) {k : ι} (hk : j ≤ k) :
    l.value (x k) ≤ y k := by
  rcases hk.eq_or_lt with rfl | hk
  · exact h.left.le
  · exact h.under k hk

theorem Edge.slope_le {j n m : ι} {l l' : Line K} (hx : StrictMono x) (h : Edge x y j n l)
    (h' : Edge x y n m l') : l.slope ≤ l'.slope := by
  apply slope_le_of_value_le (hx h'.lt) (h'.left.trans h.right.symm).le
  rw [h'.right]
  exact h.under m (h.lt.trans h'.lt)

theorem Walk.slope_le {j n m : ι} {l : Line K} {ls : List (Line K)} (hx : StrictMono x)
    (hedge : Edge x y j n l) (h : Walk x y n m ls) : ∀ l' ∈ ls, l.slope ≤ l'.slope := by
  induction h generalizing j l with
  | nil => exact fun l' hl => absurd hl List.not_mem_nil
  | cons edge rest ih =>
    intro l' hl
    have hfirst := hedge.slope_le hx edge
    rcases List.mem_cons.mp hl with rfl | hl
    · exact hfirst
    · exact hfirst.trans (ih edge l' hl)

omit [IsStrictOrderedRing K] in
theorem Walk.touches {j m : ι} {ls : List (Line K)} (h : Walk x y j m ls) :
    ∀ l ∈ ls, ∃ i, Touches x y l i := by
  induction h with
  | nil => exact fun l hl => absurd hl List.not_mem_nil
  | cons edge _ ih => exact List.forall_mem_cons.mpr ⟨⟨_, edge.left⟩, ih⟩

theorem Walk.sorted {j m : ι} {ls : List (Line K)} (hx : StrictMono x) (h : Walk x y j m ls) :
    ls.Pairwise fun l l' => l.slope ≤ l'.slope := by
  induction h with
  | nil => exact .nil
  | cons edge rest ih => exact .cons (rest.slope_le hx edge) ih

/-- No point from the start of the walk on is below one of its edges. -/
theorem Walk.under_from {j m : ι} {ls : List (Line K)} (hx : StrictMono x) (h : Walk x y j m ls) :
    ∀ l ∈ ls, ∀ k, j ≤ k → l.value (x k) ≤ y k := by
  induction h with
  | nil => exact fun l hl => absurd hl List.not_mem_nil
  | @cons j n m e ls edge rest ih =>
    intro l hl k hk
    rcases List.mem_cons.mp hl with rfl | hmem
    · exact edge.under_from hk
    · rcases le_total n k with hnk | hkn
      · exact ih l hmem k hnk
      · -- behind the edge's end the later, steeper lines are below the edge
        have hn : l.value (x n) ≤ e.value (x n) := (ih l hmem n le_rfl).trans edge.right.ge
        have hslope := Walk.slope_le hx edge rest l hmem
        exact (value_le_left hn hslope (hx.monotone hkn)).trans (edge.under_from hk)

/-- The walk ends with an edge that touches its last point, steeper than all before. -/
theorem Walk.last {j n : ι} {ls : List (Line K)} (hx : StrictMono x) (h : Walk x y j n ls)
    (hne : ls ≠ []) : ∃ e ∈ ls, Touches x y e n ∧ ∀ l ∈ ls, l.slope ≤ e.slope := by
  induction h with
  | nil => exact absurd rfl hne
  | @cons j n m e ls edge rest ih =>
    cases rest with
    | nil =>
      exact ⟨e, List.mem_singleton_self e, edge.right, fun l hl => by rw [List.mem_singleton.mp hl]⟩
    | cons edge' rest' =>
      obtain ⟨e', hmem, htouch, hmax⟩ := ih (List.cons_ne_nil _ _)
      refine ⟨e', List.mem_cons_of_mem _ hmem, htouch, fun l hl => ?_⟩
      rcases List.mem_cons.mp hl with rfl | hl
      · exact Walk.slope_le hx edge (.cons edge' rest') e' hmem
      · exact hmax l hl

/-- A line through a corner of the envelope, between the edges that meet there, is under all
points. -/
theorem under_of_corner {i j m : ι} {pre post : List (Line K)} {e c : Line K} (hx : StrictMono x)
    (hfirst : ∀ k, i ≤ k) (hpre : Walk x y i j pre) (hpost : Walk x y j m (e :: post))
    (htouch : Touches x y c j) (hbefore : ∀ l ∈ pre, l.slope ≤ c.slope) (hafter : c.slope ≤ e.slope) :
    Under x y c := by
  intro k
  rcases le_total j k with hjk | hkj
  · obtain @⟨-, edge, -⟩ | @⟨_, n, _, _, _, edge, -⟩ := hpost
    exact (value_le_right (htouch.trans edge.left.symm).le hafter (hx.monotone hjk)).trans
      (edge.under_from hjk)
  · rcases hkj.eq_or_lt with rfl | hlt
    · exact htouch.le
    · have hne : pre ≠ [] := by
        rintro rfl
        cases hpre
        exact absurd hlt (not_lt.mpr (hfirst k))
      obtain ⟨l, hmem, hl, -⟩ := hpre.last hx hne
      exact (value_le_left (htouch.trans hl.symm).le (hbefore l hmem) (hx.monotone hkj)).trans
        (hpre.under_from hx l hmem k (hfirst k))

/-- The steeper of two lines that are under the points, where one of them is known to touch: it
touches the corner as well when the envelope does not pass below it there. -/
theorem touches_corner {i j : ι} {c d : Line K} (hx : StrictMono x) (hc : Under x y c)
    (hcj : Touches x y c j) (hd : Under x y d) (hdi : Touches x y d i) (hslope : c.slope ≤ d.slope)
    (hright : ∀ t : Line K, Touches x y t j → t.slope = d.slope → ∀ k, j ≤ k → t.value (x k) ≤ y k) :
    Touches x y d j := by
  let t : Line K := ⟨d.slope, y j - d.slope * x j⟩
  have htj : Touches x y t j := sub_add_cancel _ _
  have hti : t.value (x i) ≤ y i := by
    rcases le_total j i with hji | hij
    · exact hright t htj rfl i hji
    · exact (value_le_left (htj.trans hcj.symm).le hslope (hx.monotone hij)).trans (hc i)
  have hup : t.offset ≤ d.offset := by
    rw [← hdi] at hti
    exact le_of_add_le_add_right hti
  have hdown : d.offset ≤ t.offset := by
    have hdj := hd j
    rw [← htj] at hdj
    exact le_of_add_le_add_right hdj
  have heq : d = t := Line.ext rfl (le_antisymm hdown hup)
  rw [heq]
  exact htj

omit [LinearOrder ι] in
/-- Of two lines through a point, one has the less of an affine function than a line between them
that passes below the point. -/
theorem le_of_between {j : ι} {a b : K} {c d l : Line K} (hb : b ≤ 0) (hc : Touches x y c j)
    (hd : Touches x y d j) (hl : l.value (x j) ≤ y j) (hcl : c.slope ≤ l.slope)
    (hld : l.slope ≤ d.slope) :
    a * c.slope + b * c.offset ≤ a * l.slope + b * l.offset ∨
      a * d.slope + b * d.offset ≤ a * l.slope + b * l.offset := by
  have hoffset : l.offset ≤ y j - l.slope * x j := le_sub_iff_add_le.mpr hl
  have hlow : b * (y j - l.slope * x j) ≤ b * l.offset := mul_le_mul_of_nonpos_left hoffset hb
  have hco : c.offset = y j - c.slope * x j := eq_sub_of_add_eq hc
  have hdo : d.offset = y j - d.slope * x j := eq_sub_of_add_eq hd
  rw [hco, hdo]
  rcases le_total 0 (a - b * x j) with hsign | hsign
  · have := mul_le_mul_of_nonneg_left hcl hsign
    exact .inl (by linarith)
  · have := mul_le_mul_of_nonpos_left hld hsign
    exact .inr (by linarith)

/-- **On the upper side of the consistent lines an affine function takes its least value** on the
first or the last of them or on an edge of the walk. -/
theorem exists_le_on_walk {i j m : ι} {ls : List (Line K)} {a b : K} {c d l : Line K}
    (hx : StrictMono x) (hb : b ≤ 0) (hwalk : Walk x y j m ls) (hlast : ∀ k, k ≤ m)
    (hc : Under x y c) (hcj : Touches x y c j) (hafter : ∀ e ∈ ls, c.slope ≤ e.slope)
    (hd : Under x y d) (hdi : Touches x y d i) (hl : Under x y l) (hcl : c.slope ≤ l.slope)
    (hld : l.slope ≤ d.slope) :
    ∃ v, (v = c ∨ v = d ∨ v ∈ ls ∧ v.slope ≤ d.slope) ∧
      a * v.slope + b * v.offset ≤ a * l.slope + b * l.offset := by
  induction hwalk generalizing c with
  | nil j =>
    have hdj : Touches x y d j := by
      refine touches_corner hx hc hcj hd hdi (hcl.trans hld) fun t ht _ k hk => ?_
      rw [le_antisymm (hlast k) hk]
      exact ht.le
    rcases le_of_between (a := a) hb hcj hdj (hl j) hcl hld with h | h
    · exact ⟨c, .inl rfl, h⟩
    · exact ⟨d, .inr (.inl rfl), h⟩
  | @cons j n m e ls edge rest ih =>
    have hce : c.slope ≤ e.slope := hafter e List.mem_cons_self
    rcases le_total e.slope d.slope with hed | hde
    · rcases le_total l.slope e.slope with hle | hel
      · rcases le_of_between (a := a) hb hcj edge.left (hl j) hcl hle with h | h
        · exact ⟨c, .inl rfl, h⟩
        · exact ⟨e, .inr (.inr ⟨List.mem_cons_self, hed⟩), h⟩
      · have he : Under x y e := by
          intro k
          rcases le_total j k with hjk | hkj
          · exact edge.under_from hjk
          · exact (value_le_left (edge.left.trans hcj.symm).le hce (hx.monotone hkj)).trans (hc k)
        obtain ⟨v, hv, hle⟩ := ih hlast he edge.right (rest.slope_le hx edge) hel
        rcases hv with rfl | rfl | ⟨hmem, hvd⟩
        · exact ⟨v, .inr (.inr ⟨List.mem_cons_self, hed⟩), hle⟩
        · exact ⟨v, .inr (.inl rfl), hle⟩
        · exact ⟨v, .inr (.inr ⟨List.mem_cons_of_mem _ hmem, hvd⟩), hle⟩
    · have hdj : Touches x y d j := by
        refine touches_corner hx hc hcj hd hdi (hcl.trans hld) fun t ht hslope k hk => ?_
        exact (value_le_right (ht.trans edge.left.symm).le (hslope.trans_le hde)
          (hx.monotone hk)).trans (edge.under_from hk)
      rcases le_of_between (a := a) hb hcj hdj (hl j) hcl hld with h | h
      · exact ⟨c, .inl rfl, h⟩
      · exact ⟨d, .inr (.inl rfl), h⟩

end Points

/-! ## Consistent lines -/

section Band
variable {ι K : Type*} [LinearOrder ι] [Field K] [LinearOrder K] [IsStrictOrderedRing K]
variable (x lo hi : ι → K)

/-- The line passes between the two points at every place. -/
structure Consistent (l : Line K) : Prop where
  under : Under x hi l
  above : ∀ i, lo i ≤ l.value (x i)

/-- The flattest way down from the point above at `j` that leaves all points below after it. -/
structure Crossing (j n : ι) (c : Line K) : Prop where
  lt : j < n
  left : Touches x hi c j
  right : Touches x lo c n
  above : ∀ k, j < k → lo k ≤ c.value (x k)

variable {x lo hi}

omit [LinearOrder ι] in
theorem Consistent.mirror {l : Line K} (h : Consistent x lo hi l) :
    Consistent x (fun i => -hi i) (fun i => -lo i) l.mirror where
  under := fun i => by
    rw [value_mirror]
    exact neg_le_neg (h.above i)
  above := fun i => by
    rw [value_mirror]
    exact neg_le_neg (h.under i)

omit [LinearOrder ι] in
theorem Consistent.mix {l m : Line K} {t : K} (hl : Consistent x lo hi l)
    (hm : Consistent x lo hi m) (h0 : 0 ≤ t) (h1 : t ≤ 1) : Consistent x lo hi (mix t l m) where
  under := fun i => by
    have hl' := mul_le_mul_of_nonneg_left (hl.under i) (sub_nonneg.mpr h1)
    have hm' := mul_le_mul_of_nonneg_left (hm.under i) h0
    rw [value_mix]
    linarith
  above := fun i => by
    have hl' := mul_le_mul_of_nonneg_left (hl.above i) (sub_nonneg.mpr h1)
    have hm' := mul_le_mul_of_nonneg_left (hm.above i) h0
    rw [value_mix]
    linarith

theorem Crossing.slope_le {j n : ι} {c l : Line K} (hx : StrictMono x) (h : Crossing x lo hi j n c)
    (hl : Consistent x lo hi l) : c.slope ≤ l.slope :=
  slope_le_of_value_le (hx h.lt) (h.left ▸ hl.under j) (h.right.le.trans (hl.above n))

theorem Crossing.consistent {j n : ι} {c l : Line K} (hx : StrictMono x)
    (h : Crossing x lo hi j n c) (hunder : Under x hi c) (hl : Consistent x lo hi l) :
    Consistent x lo hi c where
  under := hunder
  above := fun k => by
    rcases lt_or_ge j k with hjk | hkj
    · exact h.above k hjk
    · have hj : l.value (x j) ≤ c.value (x j) := h.left ▸ hl.under j
      exact (hl.above k).trans (value_le_left hj (h.slope_le hx hl) (hx.monotone hkj))

section Opposite
variable {j n j' n' : ι} {c d : Line K} (hx : StrictMono x) (hwide : ∀ i, lo i ≤ hi i)
    (hc : Crossing x lo hi j n c) (hunder : Under x hi c)
    (hd : Crossing x (fun i => -hi i) (fun i => -lo i) j' n' d.mirror)
    (habove : Under x (fun i => -lo i) d.mirror)
include hx hwide hc hunder hd habove

/-- The flattest way down and the steepest way up keep their order: were it the other way round, the
place where one of them leaves its points would be out of reach of the other. -/
theorem Crossing.slope_le_opposite : c.slope ≤ d.slope := by
  have hdj : d.value (x j') = lo j' := neg_injective ((value_mirror d _).symm.trans hd.left)
  have hdn : d.value (x n') = hi n' := neg_injective ((value_mirror d _).symm.trans hd.right)
  by_contra hlt
  rw [not_le] at hlt
  have hleft : ∀ {k m}, k < m → c.value (x m) ≤ d.value (x m) → c.value (x k) < d.value (x k) := by
    intro k m hkm hm
    rw [c.value_eq (x m), d.value_eq (x m)]
    have := mul_lt_mul_of_neg_right hlt (sub_neg.mpr (hx hkm))
    linarith
  have hcj : c.value (x j) < d.value (x j) := by
    apply hleft hc.lt
    have hn := habove n
    rw [value_mirror, neg_le_neg_iff] at hn
    exact hc.right.trans_le hn
  have hcj' : c.value (x j') < d.value (x j') := hleft hd.lt ((hunder n').trans_eq hdn.symm)
  rcases lt_trichotomy j j' with h | rfl | h
  · exact not_le.mpr hcj' (hdj.trans_le (hc.above j' h))
  · rw [hc.left, hdj] at hcj
    exact not_le.mpr hcj (hwide j)
  · have hj := hd.above j h
    rw [value_mirror, neg_le_neg_iff] at hj
    exact not_le.mpr hcj (hj.trans_eq hc.left.symm)

/-- Where there is a way down and a way up, each passes between all points. -/
theorem Crossing.consistent_of_opposite : Consistent x lo hi c where
  under := hunder
  above := fun k => by
    have hslope := hc.slope_le_opposite hx hwide hunder hd habove
    have hdj : d.value (x j') = lo j' := neg_injective ((value_mirror d _).symm.trans hd.left)
    obtain ⟨m, hjm, hm⟩ : ∃ m, j ≤ m ∧ d.value (x m) ≤ c.value (x m) := by
      rcases lt_trichotomy j j' with h | rfl | h
      · exact ⟨j', h.le, hdj.trans_le (hc.above j' h)⟩
      · exact ⟨j, le_rfl, (hdj.trans_le (hwide j)).trans_eq hc.left.symm⟩
      · have hj := hd.above j h
        rw [value_mirror, neg_le_neg_iff] at hj
        exact ⟨j, le_rfl, hj.trans_eq hc.left.symm⟩
    rcases lt_or_ge j k with hjk | hkj
    · exact hc.above k hjk
    · have hk := habove k
      rw [value_mirror, neg_le_neg_iff] at hk
      exact hk.trans (value_le_left hm hslope (hx.monotone (hkj.trans hjm)))

end Opposite

/-- A line that touches the points above, no steeper and no flatter than all consistent lines. -/
theorem consistent_of_touches {i : ι} {c d e : Line K} (hx : StrictMono x)
    (hc : Consistent x lo hi c) (hd : Consistent x lo hi d) (he : Under x hi e)
    (hei : Touches x hi e i) (hce : c.slope ≤ e.slope) (hed : e.slope ≤ d.slope) :
    Consistent x lo hi e where
  under := he
  above := fun k => by
    rcases le_total i k with hik | hki
    · have hi : c.value (x i) ≤ e.value (x i) := hei ▸ hc.under i
      exact (hc.above k).trans (value_le_right hi hce (hx.monotone hik))
    · have hi : d.value (x i) ≤ e.value (x i) := hei ▸ hd.under i
      exact (hd.above k).trans (value_le_left hi hed (hx.monotone hki))

end Band
end LidarRelay.Envelope
