import LidarRelay.Programs.PhaseLock

/-! # What the passes over a full ring find

Counted from the oldest measurement, the indices of the ring are places in time. On them passes 2
and 3 walk along the envelope of the upper and of the lower ends of the error bars, pass 3 as
pass 2 does in a mirror. Their results are the flattest and the steepest line that pass through all
error bars, and pass 4 takes the least shift over all such lines.
-/

namespace LidarRelay.PhaseLock
open Envelope Line
set_option autoImplicit false
set_option maxHeartbeats 250000

/-! ## Places in time -/

/-- The index of the measurement that is `p` after the oldest. -/
def idx (rp p : Index) : Index := rp + 1 + p

/-- Its time, counted from the newest. -/
def place (d : Ring) (rp p : Index) : ℚ := -elapsed d rp (idx rp p)

def point (d : Ring) (rp : Index) (s : Curve) (p : Index) : ℚ := (d.get (idx rp p)).ss s

/-- The measurements are from different seconds, in their order, and within one round of the
`unsigned int`. -/
def Ordered (d : Ring) (rp : Index) : Prop := StrictMono (place d rp)

def newest : Index := Fin.last 15

theorem idx_newest (rp : Index) : idx rp newest = rp := by
  revert rp
  decide

theorem idx_zero (rp : Index) : idx rp 0 = nextUp rp := add_zero _

theorem nextUp_idx (rp p : Index) : nextUp (idx rp p) = idx rp (p + 1) := add_assoc _ _ _

theorem idx_injective (rp : Index) : Function.Injective (idx rp) := add_right_injective (rp + 1)

theorem val_succ {p : Index} (hp : p < newest) : (p + 1).val = p.val + 1 := by
  rw [Fin.lt_def] at hp
  exact Fin.val_add_one_of_lt hp

theorem mem_visited {rp n : Index} {k : ℕ} {p : Index} (hk : 15 - p.val < k) :
    n ∈ visited (nextUp rp) k (nextUp (idx rp p)) ↔ ∃ q, p < q ∧ n = idx rp q := by
  induction k generalizing p with
  | zero => exact absurd hk (Nat.not_lt_zero _)
  | succ k ih =>
    rw [visited, nextUp_idx]
    rcases (Fin.le_last p).eq_or_lt with rfl | hp
    · have hstop : idx rp (Fin.last 15 + 1) = nextUp rp := idx_zero rp
      rw [if_pos hstop]
      constructor
      · exact fun h => absurd h List.not_mem_nil
      · rintro ⟨q, hq, -⟩
        exact absurd (Fin.le_last q) (not_le.mpr hq)
    · have hval : (p + 1).val = p.val + 1 := val_succ hp
      have hlt : p.val < 15 := Fin.lt_def.mp hp
      have hstop : idx rp (p + 1) ≠ nextUp rp := by
        intro heq
        have h0 := idx_injective rp (heq.trans (idx_zero rp).symm)
        rw [h0] at hval
        exact absurd hval.symm (Nat.succ_ne_zero _)
      rw [if_neg hstop, List.mem_cons, ih (by omega)]
      constructor
      · rintro (rfl | ⟨q, hq, rfl⟩)
        · exact ⟨p + 1, by rw [Fin.lt_def]; omega, rfl⟩
        · exact ⟨q, by rw [Fin.lt_def] at hq ⊢; omega, rfl⟩
      · rintro ⟨q, hq, rfl⟩
        rcases eq_or_ne q (p + 1) with rfl | hq'
        · exact .inl rfl
        · refine .inr ⟨q, ?_, rfl⟩
          have hne := Fin.val_ne_of_ne hq'
          rw [Fin.lt_def] at hq ⊢
          omega

theorem sub_toNat {a b c : UInt32} (h : (a - c).toNat < (a - b).toNat) :
    (c - b).toNat = (a - b).toNat - (a - c).toNat := by
  have ha := a.toNat_lt
  have hb := b.toNat_lt
  have hc := c.toNat_lt
  simp only [UInt32.toNat_sub] at h ⊢
  omega

theorem elapsed_idx {d : Ring} {rp p q : Index} (h : place d rp p < place d rp q) :
    elapsed d (idx rp q) (idx rp p) = place d rp q - place d rp p := by
  unfold place elapsed at *
  rw [neg_lt_neg_iff, Nat.cast_lt] at h
  rw [sub_toNat h, Nat.cast_sub h.le]
  ring

theorem segment_idx {d : Ring} {rp p q : Index} (h : place d rp p < place d rp q) (s0 s1 : Curve) :
    segment d rp (idx rp p) (idx rp q) s0 s1 =
      some (through (place d rp p) (point d rp s1 p) (place d rp q) (point d rp s0 q)) := by
  have hdt := elapsed_idx h
  have hne : elapsed d (idx rp q) (idx rp p) ≠ 0 := by
    rw [hdt]
    exact (sub_pos.mpr h).ne'
  simp only [segment, hne, if_false, Option.some.injEq]
  refine Line.ext ?_ ?_
  · simp only [through, hdt, point]
  · simp only [through, hdt, point, place]
    ring

/-! ## Search -/

/-- A line as the pass sees it: pass 3 in the mirror. -/
def turn (sign : Bool) (l : Seg) : Seg := if sign then l.mirror else l

@[simp] theorem turn_turn (sign : Bool) (l : Seg) : turn sign (turn sign l) = l := by
  cases sign
  · rfl
  · exact l.mirror_mirror

theorem searchStep_some {d : Ring} {rp j n : Index} {s0 s1 : Curve} {seg : Seg} (sign : Bool)
    (m : Index) (answer : Seg) (h : segment d rp j n s0 s1 = some seg) :
    ∃ r, searchStep d rp j s0 s1 sign (some (m, answer)) n = some (some r) ∧
      (r = (n, seg) ∨ r = (m, answer)) ∧ (turn sign r.2).slope ≤ (turn sign seg).slope ∧
      (turn sign r.2).slope ≤ (turn sign answer).slope := by
  have hstep : searchStep d rp j s0 s1 sign (some (m, answer)) n =
      some (some (if (decide (seg.slope < answer.slope) ^^ sign) = true then (n, seg)
        else (m, answer))) := by
    rw [searchStep, h]
    change (if _ then _ else _) = _
    split <;> rfl
  refine ⟨_, hstep, ?_, ?_⟩
  · split
    · exact .inl rfl
    · exact .inr rfl
  · cases sign with
    | false =>
      by_cases hlt : seg.slope < answer.slope
      · simp only [hlt, decide_true, Bool.xor_false, if_true, turn]
        exact ⟨le_rfl, hlt.le⟩
      · simp only [hlt, decide_false, Bool.xor_false, turn]
        exact ⟨not_lt.mp hlt, le_rfl⟩
    | true =>
      by_cases hlt : seg.slope < answer.slope
      · simp only [hlt, decide_true, Bool.xor_true, Bool.not_true, turn, mirror]
        exact ⟨neg_le_neg hlt.le, le_rfl⟩
      · simp only [hlt, decide_false, Bool.xor_true, Bool.not_false, if_true, turn, mirror]
        exact ⟨le_rfl, neg_le_neg (not_lt.mp hlt)⟩

theorem foldlM_search {d : Ring} {rp j : Index} {s0 s1 : Curve} (sign : Bool) {f : Index → Seg}
    {l : List Index} (hf : ∀ n ∈ l, segment d rp j n s0 s1 = some (f n)) (m : Index) (answer : Seg) :
    ∃ r, l.foldlM (searchStep d rp j s0 s1 sign) (some (m, answer)) = some (some r) ∧
      (r = (m, answer) ∨ r.1 ∈ l ∧ r.2 = f r.1) ∧ (turn sign r.2).slope ≤ (turn sign answer).slope ∧
      ∀ n ∈ l, (turn sign r.2).slope ≤ (turn sign (f n)).slope := by
  induction l generalizing m answer with
  | nil => exact ⟨_, rfl, .inl rfl, le_rfl, fun n hn => absurd hn List.not_mem_nil⟩
  | cons n l ih =>
    obtain ⟨⟨m', answer'⟩, hstep, hr, hn, ha⟩ :=
      searchStep_some sign m answer (hf n List.mem_cons_self)
    obtain ⟨r', hfold, hr', ha', hmin⟩ :=
      ih (fun k hk => hf k (List.mem_cons_of_mem n hk)) m' answer'
    refine ⟨r', ?_, ?_, ha'.trans ha, ?_⟩
    · rw [List.foldlM_cons, hstep]
      exact hfold
    · rcases hr' with rfl | ⟨hmem, hval⟩
      · rcases hr with heq | heq
        · obtain ⟨rfl, rfl⟩ := Prod.mk.inj heq
          exact .inr ⟨List.mem_cons_self, rfl⟩
        · exact .inl heq
      · exact .inr ⟨List.mem_cons_of_mem n hmem, hval⟩
    · intro k hk
      rcases List.mem_cons.mp hk with rfl | hk
      · exact ha'.trans hn
      · exact hmin k hk

def chord (d : Ring) (rp : Index) (s0 s1 : Curve) (p q : Index) : Seg :=
  through (place d rp p) (point d rp s1 p) (place d rp q) (point d rp s0 q)

/-- `search` finds the flattest chord from a point on, or the steepest one. -/
theorem search_spec {d : Ring} {rp p : Index} (hord : Ordered d rp) (hp : p < newest) (s0 s1 : Curve)
    (sign : Bool) :
    ∃ q, search d rp (idx rp p) s0 s1 sign = some (idx rp q, chord d rp s0 s1 p q) ∧ p < q ∧
      ∀ k, p < k → (turn sign (chord d rp s0 s1 p q)).slope ≤ (turn sign (chord d rp s0 s1 p k)).slope := by
  have hmem : ∀ n, n ∈ visited (nextUp rp) ringSize (nextUp (idx rp p)) ↔ ∃ q, p < q ∧ n = idx rp q :=
    fun n => mem_visited (Nat.lt_succ_of_le (Nat.sub_le _ _))
  have hseg : ∀ n ∈ visited (nextUp rp) ringSize (nextUp (idx rp p)),
      segment d rp (idx rp p) n s0 s1 = some (chord d rp s0 s1 p (n - (rp + 1))) := by
    intro n hn
    obtain ⟨q, hq, rfl⟩ := (hmem n).mp hn
    have hback : idx rp q - (rp + 1) = q := add_sub_cancel_left _ _
    rw [hback]
    exact segment_idx (hord hq) s0 s1
  cases hlist : visited (nextUp rp) ringSize (nextUp (idx rp p)) with
  | nil =>
    have hlast : idx rp newest ∈ visited (nextUp rp) ringSize (nextUp (idx rp p)) :=
      (hmem _).mpr ⟨newest, hp, rfl⟩
    rw [hlist] at hlast
    exact absurd hlast List.not_mem_nil
  | cons n l =>
    rw [hlist] at hmem hseg
    obtain ⟨r, hfold, hr, hfirst, hmin⟩ := foldlM_search sign
      (fun k hk => hseg k (List.mem_cons_of_mem n hk)) n (chord d rp s0 s1 p (n - (rp + 1)))
    have hval : r.1 ∈ n :: l ∧ r.2 = chord d rp s0 s1 p (r.1 - (rp + 1)) := by
      rcases hr with rfl | ⟨hl, hval⟩
      · exact ⟨List.mem_cons_self, rfl⟩
      · exact ⟨List.mem_cons_of_mem n hl, hval⟩
    obtain ⟨q, hq, hrq⟩ := (hmem r.1).mp hval.1
    have hback : ∀ k, idx rp k - (rp + 1) = k := fun k => add_sub_cancel_left _ _
    have hchord : r.2 = chord d rp s0 s1 p q := by rw [hval.2, hrq, hback]
    refine ⟨q, ?_, hq, fun k hk => ?_⟩
    · have hstart : searchStep d rp (idx rp p) s0 s1 sign none n =
          some (some (n, chord d rp s0 s1 p (n - (rp + 1)))) := by
        rw [searchStep, hseg n List.mem_cons_self]
        rfl
      simp only [search, hlist, List.foldlM_cons, hstart, Option.bind_eq_bind, Option.bind_some,
        hfold, ← hchord, ← hrq]
    · rw [← hchord]
      obtain hk' | hk' := List.mem_cons.mp ((hmem (idx rp k)).mpr ⟨k, hk, rfl⟩)
      · rw [← hk', hback] at hfirst
        exact hfirst
      · have := hmin (idx rp k) hk'
        rwa [hback] at this

/-! ## The walk along an envelope -/

def curve (sign : Bool) : Curve := if sign then .min else .max

def other (sign : Bool) : Curve := if sign then .max else .min

/-- The ends of the error bars that the pass walks along, and those on the other side. -/
def upper (d : Ring) (rp : Index) (sign : Bool) (p : Index) : ℚ :=
  if sign then -point d rp .min p else point d rp .max p

def lower (d : Ring) (rp : Index) (sign : Bool) (p : Index) : ℚ :=
  if sign then -point d rp .max p else point d rp .min p

theorem mirror_through (x y x' y' : ℚ) : (through x y x' y').mirror = through x (-y) x' (-y') := by
  refine Line.ext ?_ ?_
  · simp only [mirror, through]
    ring
  · simp only [mirror, through]
    ring

theorem turn_chord (d : Ring) (rp : Index) (sign : Bool) (p q : Index) :
    turn sign (chord d rp (curve sign) (curve sign) p q) =
      through (place d rp p) (upper d rp sign p) (place d rp q) (upper d rp sign q) := by
  cases sign
  · rfl
  · exact mirror_through _ _ _ _

theorem turn_cross (d : Ring) (rp : Index) (sign : Bool) (p q : Index) :
    turn sign (chord d rp (other sign) (curve sign) p q) =
      through (place d rp p) (upper d rp sign p) (place d rp q) (lower d rp sign q) := by
  cases sign
  · rfl
  · exact mirror_through _ _ _ _

theorem search_edge {d : Ring} {rp p : Index} (hord : Ordered d rp) (hp : p < newest) (sign : Bool) :
    ∃ q seg, search d rp (idx rp p) (curve sign) (curve sign) sign = some (idx rp q, seg) ∧
      Edge (place d rp) (upper d rp sign) p q (turn sign seg) := by
  obtain ⟨q, hsearch, hq, hmin⟩ := search_spec hord hp (curve sign) (curve sign) sign
  have hleft : ∀ k, p < k → Touches (place d rp) (upper d rp sign)
      (turn sign (chord d rp (curve sign) (curve sign) p k)) p := fun k hk => by
    rw [turn_chord]
    exact value_through_left (hord hk).ne _ _
  have hright : ∀ k, Touches (place d rp) (upper d rp sign)
      (turn sign (chord d rp (curve sign) (curve sign) p k)) k := fun k => by
    rw [turn_chord]
    exact value_through_right _ _ _ _
  refine ⟨q, _, hsearch, hq, hleft q hq, hright q, fun k hk => ?_⟩
  rw [← hright k]
  exact value_le_right ((hleft q hq).trans (hleft k hk).symm).le (hmin k hk) (hord hk).le

theorem search_crossing {d : Ring} {rp p : Index} (hord : Ordered d rp) (hp : p < newest)
    (sign : Bool) :
    ∃ q check, search d rp (idx rp p) (other sign) (curve sign) (!sign) = some (idx rp q, check) ∧
      Crossing (place d rp) (lower d rp sign) (upper d rp sign) p q (turn sign check) := by
  obtain ⟨q, hsearch, hq, hmin⟩ := search_spec hord hp (other sign) (curve sign) (!sign)
  have hmax : ∀ k, p < k → (turn sign (chord d rp (other sign) (curve sign) p k)).slope ≤
      (turn sign (chord d rp (other sign) (curve sign) p q)).slope := by
    intro k hk
    cases sign with
    | false => exact neg_le_neg_iff.mp (hmin k hk)
    | true => exact neg_le_neg (hmin k hk)
  have hleft : ∀ k, p < k → Touches (place d rp) (upper d rp sign)
      (turn sign (chord d rp (other sign) (curve sign) p k)) p := fun k hk => by
    rw [turn_cross]
    exact value_through_left (hord hk).ne _ _
  have hright : ∀ k, Touches (place d rp) (lower d rp sign)
      (turn sign (chord d rp (other sign) (curve sign) p k)) k := fun k => by
    rw [turn_cross]
    exact value_through_right _ _ _ _
  refine ⟨q, _, hsearch, hq, hleft q hq, hright q, fun k hk => ?_⟩
  rw [← hright k]
  exact value_le_right ((hleft k hk).trans (hleft q hq).symm).le (hmax k hk) (hord hk).le

def turnSlope (sign : Bool) (a : ℚ) : ℚ := if sign then -a else a

@[simp] theorem turn_slope (sign : Bool) (l : Seg) :
    (turn sign l).slope = turnSlope sign l.slope := by
  cases sign <;> rfl

theorem fits_iff_turn {sign : Bool} {last check seg : ℚ} : fits sign last check seg ↔
    turnSlope sign check < turnSlope sign seg ∧ turnSlope sign last < turnSlope sign check := by
  cases sign
  · exact Iff.rfl
  · exact and_congr neg_lt_neg_iff.symm neg_lt_neg_iff.symm

theorem beyond_iff {sign : Bool} {a b : ℚ} :
    beyond sign a b ↔ turnSlope sign b < turnSlope sign a := by
  cases sign
  · exact Iff.rfl
  · exact neg_lt_neg_iff.symm

/-- `c` crosses over from a corner of the walk `segs`, between the slopes of the edges there;
before the first of them the slope is `last`. -/
def AtCorner (d : Ring) (rp : Index) (sign : Bool) (p : Index) (last : ℚ) (segs : List Seg)
    (c : Seg) : Prop :=
  ∃ pre e post j n, segs = pre ++ e :: post ∧
    Walk (place d rp) (upper d rp sign) p j pre ∧
    Walk (place d rp) (upper d rp sign) j newest (e :: post) ∧
    Crossing (place d rp) (lower d rp sign) (upper d rp sign) j n c ∧ c.slope < e.slope ∧
    (∀ l ∈ pre, l.slope < c.slope) ∧ (pre = [] → last < c.slope)

theorem AtCorner.cons {d : Ring} {rp p q : Index} {sign : Bool} {last : ℚ} {segs : List Seg}
    {e c : Seg} (hord : Ordered d rp) (hedge : Edge (place d rp) (upper d rp sign) p q e)
    (h : AtCorner d rp sign q e.slope segs c) : AtCorner d rp sign p last (e :: segs) c := by
  obtain ⟨pre, e', post, j, n, rfl, hpre, hpost, hcross, hlt, hbefore, hfirst⟩ := h
  refine ⟨e :: pre, e', post, j, n, rfl, .cons hedge hpre, hpost, hcross, hlt, ?_, ?_⟩
  · have he : e.slope < c.slope := by
      cases pre with
      | nil => exact hfirst rfl
      | cons l pre =>
        exact (hpre.slope_le hord hedge l List.mem_cons_self).trans_lt
          (hbefore l List.mem_cons_self)
    exact List.forall_mem_cons.mpr ⟨he, hbefore⟩
  · exact fun h => absurd h (List.cons_ne_nil _ _)

theorem idx_eq_rp {rp q : Index} : idx rp q = rp ↔ q = newest := by
  constructor
  · intro h
    exact idx_injective rp (h.trans (idx_newest rp).symm)
  · rintro rfl
    exact idx_newest rp

/-- The line that is kept after a point of the walk. -/
def keep (sign : Bool) (last : ℚ) (check seg : Seg) (save : Option Seg) : Option Seg :=
  if fits sign last check.slope seg.slope ∧ ∀ s ∈ save, check.slope < s.slope then some check
  else save

theorem envelope_last {d : Ring} {rp j n : Index} {s0 s1 : Curve} {sign : Bool} {k : ℕ} {last : ℚ}
    {save : Option Seg} {seg check : Seg} (hseg : search d rp j s0 s0 sign = some (rp, seg))
    (hcheck : search d rp j s1 s0 (!sign) = some (n, check)) :
    envelope d rp s0 s1 sign (k + 1) j last save = some ([seg], keep sign last check seg save) := by
  simp only [envelope, hseg, hcheck, Option.bind_eq_bind, Option.bind_some, if_true]
  rfl

theorem envelope_cons {d : Ring} {rp j q n : Index} {s0 s1 : Curve} {sign : Bool} {k : ℕ} {last : ℚ}
    {save save' : Option Seg} {seg check : Seg} {segs : List Seg}
    (hseg : search d rp j s0 s0 sign = some (q, seg))
    (hcheck : search d rp j s1 s0 (!sign) = some (n, check)) (hq : q ≠ rp)
    (hrest : envelope d rp s0 s1 sign k q seg.slope (keep sign last check seg save) =
      some (segs, save')) :
    envelope d rp s0 s1 sign (k + 1) j last save = some (seg :: segs, save') := by
  unfold keep at hrest
  simp only [envelope, hseg, hcheck, Option.bind_eq_bind, Option.bind_some, hq, if_false, hrest]
  rfl

theorem envelope_spec {d : Ring} {rp : Index} (hord : Ordered d rp) (sign : Bool) {k : ℕ}
    {p : Index} (hp : p < newest) (hk : 15 - p.val ≤ k) (last : ℚ) (save : Option Seg) :
    ∃ segs save', envelope d rp (curve sign) (other sign) sign k (idx rp p) last save =
        some (segs, save') ∧
      Walk (place d rp) (upper d rp sign) p newest (segs.map (turn sign)) ∧
      (save' = save ∨ ∃ c, save' = some c ∧
        AtCorner d rp sign p (turnSlope sign last) (segs.map (turn sign)) (turn sign c)) := by
  induction k generalizing p last save with
  | zero =>
    have hlt : p.val < 15 := Fin.lt_def.mp hp
    omega
  | succ k ih =>
    obtain ⟨q, seg, hseg, hedge⟩ := search_edge hord hp sign
    obtain ⟨n, check, hcheck, hcross⟩ := search_crossing hord hp sign
    -- what the corner at `p` adds, whatever the walk does after it
    have hkept : ∀ segs, Walk (place d rp) (upper d rp sign) p newest (turn sign seg :: segs) →
        keep sign last check seg save = save ∨ ∃ c, keep sign last check seg save = some c ∧
          AtCorner d rp sign p (turnSlope sign last) (turn sign seg :: segs) (turn sign c) := by
      intro segs hwalk
      by_cases hfit : fits sign last check.slope seg.slope ∧ ∀ s ∈ save, check.slope < s.slope
      · obtain ⟨hafter, hbefore⟩ := fits_iff_turn.mp hfit.1
        refine .inr ⟨check, if_pos hfit, [], turn sign seg, segs, p, n, rfl, .nil p, hwalk, hcross,
          ?_, fun l hl => absurd hl List.not_mem_nil, fun _ => ?_⟩
        · rw [turn_slope, turn_slope]
          exact hafter
        · rw [turn_slope]
          exact hbefore
      · exact .inl (if_neg hfit)
    by_cases hq : q = newest
    · subst hq
      have hwalk : Walk (place d rp) (upper d rp sign) p newest [turn sign seg] :=
        .cons hedge (.nil _)
      rw [idx_newest] at hseg
      exact ⟨[seg], _, envelope_last hseg hcheck, hwalk, hkept [] hwalk⟩
    · have hqlt : q < newest := (Fin.le_last q).lt_of_ne hq
      have hpq : p.val < q.val := Fin.lt_def.mp hedge.lt
      obtain ⟨segs, save', henv, hwalk, hsave⟩ :=
        ih hqlt (by omega) seg.slope (keep sign last check seg save)
      have hwalk' : Walk (place d rp) (upper d rp sign) p newest ((seg :: segs).map (turn sign)) :=
        .cons hedge hwalk
      refine ⟨seg :: segs, save', envelope_cons hseg hcheck (fun h => hq (idx_eq_rp.mp h)) henv,
        hwalk', ?_⟩
      rcases hsave with rfl | ⟨c, hc, hcorner⟩
      · exact hkept _ hwalk'
      · rw [← turn_slope] at hcorner
        exact .inr ⟨c, hc, hcorner.cons hord hedge⟩

/-! ## The polygon -/

/-- How far a line is from the target on the left, or in the mirror on the right. -/
def shift (side : Bool) (l : Seg) : ℚ := findShift (-(turn side l).slope) (turn side l).offset

def Polygon.least (df : Polygon) (side : Bool) : ℚ := if side then df.rMin else df.lMin

theorem findShift_eq (slope offset : ℚ) : findShift slope offset =
    max 0 (min (slope - offset / 600) (slope + 3 / 10 - offset / 6000)) := by
  simp only [findShift, min_def, max_def]
  split_ifs <;> linarith

theorem polygonPoint_least (side : Bool) (s : Seg) (df : Polygon) :
    (polygonPoint s df).least side = min (shift side s) (df.least side) := by
  have hmin : ∀ a b : ℚ, (if a < b then a else b) = min a b := fun a b => by
    rw [min_def]
    split_ifs <;> linarith
  cases side with
  | false => exact hmin _ _
  | true =>
    apply (hmin _ _).trans
    simp only [shift, turn, mirror, if_true, neg_neg]
    rfl

section Splice
variable {sign : Bool} {start stop : Seg} (side : Bool)

theorem splice_le (dinit : Bool) (segs : List Seg) (df : Polygon) :
    (splice sign start stop dinit segs df).2.least side ≤ df.least side := by
  induction segs generalizing dinit df with
  | nil => exact le_rfl
  | cons seg segs ih =>
    rw [splice]
    by_cases hstop : beyond sign seg.slope stop.slope
    · rw [if_pos hstop]
    · rw [if_neg hstop]
      apply (ih _ _).trans
      split
      · exact le_rfl
      · rw [polygonPoint_least]
        exact min_le_right _ _

/-- What is not a bound from before comes from a segment up to `stop`, behind `start` when the loop
has not passed it yet. -/
theorem splice_attained (dinit : Bool) (segs : List Seg) (df : Polygon)
    (hsorted : segs.Pairwise fun a b => turnSlope sign a.slope ≤ turnSlope sign b.slope) :
    (splice sign start stop dinit segs df).2.least side = df.least side ∨
      ∃ v ∈ segs, (splice sign start stop dinit segs df).2.least side = shift side v ∧
        ¬ beyond sign v.slope stop.slope ∧ (dinit = true → beyond sign v.slope start.slope) := by
  induction segs generalizing dinit df with
  | nil => exact .inl rfl
  | cons seg segs ih =>
    obtain ⟨hseg, htail⟩ := List.pairwise_cons.mp hsorted
    rw [splice]
    by_cases hstop : beyond sign seg.slope stop.slope
    · rw [if_pos hstop]
      exact .inl rfl
    · rw [if_neg hstop]
      by_cases hdinit : (dinit && !decide (beyond sign seg.slope start.slope)) = true
      · rw [hdinit, if_pos rfl]
        rcases ih true df htail with h | ⟨v, hv, h, hstop', hstart⟩
        · exact .inl h
        · exact .inr ⟨v, List.mem_cons_of_mem _ hv, h, hstop', fun _ => hstart rfl⟩
      · have hstart : dinit = true → beyond sign seg.slope start.slope := by
          intro hd
          by_contra hb
          rw [hd, decide_eq_false hb] at hdinit
          exact hdinit rfl
        rw [if_neg hdinit, Bool.not_eq_true _ |>.mp hdinit]
        rcases ih false (polygonPoint seg df) htail with h | ⟨v, hv, h, hstop', -⟩
        · rw [h, polygonPoint_least]
          rcases min_choice (shift side seg) (df.least side) with hm | hm
          · exact .inr ⟨seg, List.mem_cons_self, hm, hstop, hstart⟩
          · exact .inl hm
        · refine .inr ⟨v, List.mem_cons_of_mem _ hv, h, hstop', fun hd => ?_⟩
          exact beyond_iff.mpr ((beyond_iff.mp (hstart hd)).trans_le (hseg v hv))

/-- No segment between `start` and `stop` is left out. -/
theorem splice_reaches (dinit : Bool) (segs : List Seg) (df : Polygon)
    (hsorted : segs.Pairwise fun a b => turnSlope sign a.slope ≤ turnSlope sign b.slope)
    {v : Seg} (hv : v ∈ segs) (hstart : beyond sign v.slope start.slope)
    (hstop : ¬ beyond sign v.slope stop.slope) :
    (splice sign start stop dinit segs df).2.least side ≤ shift side v := by
  induction segs generalizing dinit df with
  | nil => exact absurd hv List.not_mem_nil
  | cons seg segs ih =>
    obtain ⟨hseg, htail⟩ := List.pairwise_cons.mp hsorted
    rw [splice]
    rcases List.mem_cons.mp hv with rfl | hmem
    · rw [if_neg hstop, decide_eq_true hstart, Bool.not_true, Bool.and_false]
      apply (splice_le side false segs _).trans
      rw [if_neg Bool.false_ne_true, polygonPoint_least]
      exact min_le_left _ _
    · have hfirst : ¬ beyond sign seg.slope stop.slope := fun hb =>
        hstop (beyond_iff.mpr ((beyond_iff.mp hb).trans_le (hseg v hmem)))
      rw [if_neg hfirst]
      exact ih _ _ htail hmem

end Splice

/-! ## The box -/

/-- The line passes through all sixteen error bars. -/
def Fits (d : Ring) (rp : Index) (l : Seg) : Prop :=
  Consistent (place d rp) (point d rp .min) (point d rp .max) l

section Corner
variable {d : Ring} {rp : Index}

theorem Fits.turned {l : Seg} (h : Fits d rp l) (sign : Bool) :
    Consistent (place d rp) (lower d rp sign) (upper d rp sign) (turn sign l) := by
  cases sign
  · exact h
  · exact h.mirror

theorem fits_of_turned {sign : Bool} {l : Seg}
    (h : Consistent (place d rp) (lower d rp sign) (upper d rp sign) (turn sign l)) :
    Fits d rp l := by
  cases sign
  · exact h
  · have hmirror := h.mirror
    simp only [upper, lower, turn, if_true, neg_neg, mirror_mirror] at hmirror
    exact hmirror

variable {sign : Bool} {last : ℚ} {segs : List Seg} {c : Seg}

theorem corner_under (hord : Ordered d rp) (h : AtCorner d rp sign 0 last segs (turn sign c)) :
    Under (place d rp) (upper d rp sign) (turn sign c) ∧
      ∃ j n, Crossing (place d rp) (lower d rp sign) (upper d rp sign) j n (turn sign c) := by
  obtain ⟨pre, e, post, j, n, -, hpre, hpost, hcross, hlt, hbefore, -⟩ := h
  exact ⟨under_of_corner hord (fun k => Fin.zero_le k) hpre hpost hcross.left
    (fun l hl => (hbefore l hl).le) hlt.le, j, n, hcross⟩

theorem corner_fits (hord : Ordered d rp) (h : AtCorner d rp sign 0 last segs (turn sign c))
    {l : Seg} (hl : Fits d rp l) : Fits d rp c := by
  obtain ⟨hunder, j, n, hcross⟩ := corner_under hord h
  exact fits_of_turned (hcross.consistent hord hunder (hl.turned sign))

/-- No error bar ends before it begins. -/
def Wide (d : Ring) (rp : Index) : Prop := ∀ p, point d rp .min p ≤ point d rp .max p

/-- A line from each of the two walks is enough for both to fit. -/
theorem fits_of_corners (hord : Ordered d rp) (hwide : Wide d rp)
    (h : AtCorner d rp sign 0 last segs (turn sign c)) {last' : ℚ} {segs' : List Seg} {c' : Seg}
    (h' : AtCorner d rp (!sign) 0 last' segs' (turn (!sign) c')) : Fits d rp c := by
  obtain ⟨hunder, j, n, hcross⟩ := corner_under hord h
  obtain ⟨hunder', j', n', hcross'⟩ := corner_under hord h'
  have hmirror : turn (!sign) c' = (turn sign c').mirror := by
    cases sign
    · rfl
    · exact (mirror_mirror c').symm
  have hupper : upper d rp (!sign) = fun p => -lower d rp sign p := by
    funext p
    cases sign
    · rfl
    · exact (neg_neg _).symm
  have hlower : lower d rp (!sign) = fun p => -upper d rp sign p := by
    funext p
    cases sign
    · rfl
    · exact (neg_neg _).symm
  have hsides : ∀ p, lower d rp sign p ≤ upper d rp sign p := fun p => by
    cases sign
    · exact hwide p
    · exact neg_le_neg (hwide p)
  rw [hmirror, hupper] at hunder'
  rw [hmirror, hupper, hlower] at hcross'
  exact fits_of_turned (hcross.consistent_of_opposite hord hsides hunder hcross' hunder')

theorem corner_slope_le (hord : Ordered d rp) (h : AtCorner d rp sign 0 last segs (turn sign c))
    {l : Seg} (hl : Fits d rp l) : turnSlope sign c.slope ≤ turnSlope sign l.slope := by
  obtain ⟨-, -, -, j, n, -, -, -, hcross, -⟩ := h
  rw [← turn_slope, ← turn_slope]
  exact hcross.slope_le hord (hl.turned sign)

/-- The line at the other end of the box touches the points of this walk. -/
theorem corner_touches (sign : Bool) (h : AtCorner d rp (!sign) 0 last segs (turn (!sign) c)) :
    ∃ i, Touches (place d rp) (upper d rp sign) (turn sign c) i := by
  obtain ⟨-, -, -, j, n, -, -, -, hcross, -⟩ := h
  refine ⟨n, ?_⟩
  have hright := hcross.right
  cases sign with
  | false =>
    unfold Touches at hright ⊢
    simp only [lower, upper, turn, Bool.not_false, if_true, value_mirror, neg_inj] at hright ⊢
    exact hright
  | true =>
    unfold Touches at hright ⊢
    simp only [lower, upper, turn, Bool.not_true, if_true, value_mirror, neg_inj] at hright ⊢
    exact hright

end Corner

/-- Both ends of a box: each crosses over from a corner of one of the two walks. -/
structure Ends (d : Ring) (rp : Index) (sign : Bool) (start stop : Seg) (segs : List Seg) :
    Prop where
  walk : Walk (place d rp) (upper d rp sign) 0 newest (segs.map (turn sign))
  start : ∃ last, AtCorner d rp sign 0 last (segs.map (turn sign)) (turn sign start)
  stop : ∃ last segs', AtCorner d rp (!sign) 0 last segs' (turn (!sign) stop)

section Ends
variable {d : Ring} {rp : Index} {sign : Bool} {start stop : Seg} {segs : List Seg}

theorem turnSlope_not (sign : Bool) (a : ℚ) : turnSlope (!sign) a = -turnSlope sign a := by
  cases sign
  · rfl
  · exact (neg_neg a).symm

theorem Ends.slope_le (hord : Ordered d rp) (h : Ends d rp sign start stop segs) {l : Seg}
    (hl : Fits d rp l) : turnSlope sign start.slope ≤ turnSlope sign l.slope ∧
      turnSlope sign l.slope ≤ turnSlope sign stop.slope := by
  obtain ⟨_, hstart⟩ := h.start
  obtain ⟨_, _, hstop⟩ := h.stop
  have hle := corner_slope_le hord hstop hl
  rw [turnSlope_not, turnSlope_not, neg_le_neg_iff] at hle
  exact ⟨corner_slope_le hord hstart hl, hle⟩

theorem Ends.sorted (hord : Ordered d rp) (h : Ends d rp sign start stop segs) :
    segs.Pairwise fun a b => turnSlope sign a.slope ≤ turnSlope sign b.slope := by
  have hsorted := h.walk.sorted hord
  rw [List.pairwise_map] at hsorted
  simpa only [turn_slope] using hsorted

/-- The segments between the two ends fit, too. -/
theorem Ends.fits (hord : Ordered d rp) (h : Ends d rp sign start stop segs) {l v : Seg}
    (hl : Fits d rp l) (hv : v ∈ segs) (hstart : beyond sign v.slope start.slope)
    (hstop : ¬ beyond sign v.slope stop.slope) : Fits d rp v := by
  obtain ⟨_, hc⟩ := h.start
  obtain ⟨_, _, hd⟩ := h.stop
  have hmem : turn sign v ∈ segs.map (turn sign) := List.mem_map_of_mem hv
  obtain ⟨i, hi⟩ := h.walk.touches _ hmem
  have hunder : Under (place d rp) (upper d rp sign) (turn sign v) := fun k =>
    h.walk.under_from hord _ hmem k (Fin.zero_le k)
  refine fits_of_turned (consistent_of_touches hord ((corner_fits hord hc hl).turned sign)
    ((corner_fits hord hd hl).turned sign) hunder hi ?_ ?_)
  · rw [turn_slope, turn_slope]
    exact (beyond_iff.mp hstart).le
  · rw [turn_slope, turn_slope]
    exact not_lt.mp fun hlt => hstop (beyond_iff.mpr hlt)

/-- No line that fits is nearer to the target on this side than all of the ends and the segments
between them. -/
theorem Ends.exists_shift_le (hord : Ordered d rp) (h : Ends d rp sign start stop segs) {l : Seg}
    (hl : Fits d rp l) :
    ∃ v, (v = start ∨ v = stop ∨
      v ∈ segs ∧ beyond sign v.slope start.slope ∧ ¬ beyond sign v.slope stop.slope) ∧
      shift sign v ≤ shift sign l := by
  obtain ⟨_, hc⟩ := h.start
  obtain ⟨_, _, hd⟩ := h.stop
  obtain ⟨hcl, hld⟩ := h.slope_le hord hl
  obtain ⟨pre, e, post, j, n, hsegs, hpre, hpost, hcross, hlt, -, -⟩ := id hc
  obtain ⟨i, hi⟩ := corner_touches sign hd
  have hafter : ∀ e' ∈ e :: post, (turn sign start).slope < e'.slope := by
    intro e' he'
    rcases List.mem_cons.mp he' with rfl | he'
    · exact hlt
    · exact hlt.trans_le ((List.pairwise_cons.mp (hpost.sorted hord)).1 e' he')
  -- the least value of one of the two functions that make the target
  have hleast : ∀ b : ℚ, b ≤ 0 → ∃ v, (v = start ∨ v = stop ∨
      v ∈ segs ∧ beyond sign v.slope start.slope ∧ ¬ beyond sign v.slope stop.slope) ∧
      -1 * (turn sign v).slope + b * (turn sign v).offset ≤
        -1 * (turn sign l).slope + b * (turn sign l).offset := by
    intro b hb
    obtain ⟨v, hv, hle⟩ := exists_le_on_walk (a := -1) (l := turn sign l) hord hb hpost
      (fun k => Fin.le_last k) ((corner_fits hord hc hl).turned sign).under hcross.left
      (fun e' he' => (hafter e' he').le) ((corner_fits hord hd hl).turned sign).under hi
      (hl.turned sign).under (by rwa [turn_slope, turn_slope]) (by rwa [turn_slope, turn_slope])
    rcases hv with rfl | rfl | ⟨hmem, hvd⟩
    · exact ⟨start, .inl rfl, hle⟩
    · exact ⟨stop, .inr (.inl rfl), hle⟩
    · have hmap : v ∈ segs.map (turn sign) := by
        rw [hsegs]
        exact List.mem_append_right _ hmem
      obtain ⟨w, hw, rfl⟩ := List.mem_map.mp hmap
      have hstart := hafter _ hmem
      rw [turn_slope, turn_slope] at hstart hvd
      exact ⟨w, .inr (.inr ⟨hw, beyond_iff.mpr hstart, fun hb => not_lt.mpr hvd (beyond_iff.mp hb)⟩),
        hle⟩
  simp only [shift, findShift_eq]
  rcases min_choice (-(turn sign l).slope - (turn sign l).offset / 600)
      (-(turn sign l).slope + 3 / 10 - (turn sign l).offset / 6000) with hmin | hmin
  · obtain ⟨v, hv, hle⟩ := hleast (-1 / 600) (by norm_num)
    refine ⟨v, hv, max_le_max le_rfl ?_⟩
    rw [hmin]
    exact (min_le_left _ _).trans (by linarith)
  · obtain ⟨v, hv, hle⟩ := hleast (-1 / 6000) (by norm_num)
    refine ⟨v, hv, max_le_max le_rfl ?_⟩
    rw [hmin]
    exact (min_le_right _ _).trans (by linarith)

end Ends

theorem box_eq_some {d : Ring} {rp : Index} {b : Box} (h : box d rp = some (some b)) :
    ∃ maxseg minseg, pass2 d rp = some (maxseg, some b.saveMin) ∧
      pass3 d rp = some (minseg, some b.saveMax) ∧
      b.df = (splice true b.saveMax b.saveMin true minseg (polygonPoint b.saveMax
        (splice false b.saveMin b.saveMax true maxseg (polygonPoint b.saveMin polygonReset)).2)).2 := by
  rw [box] at h
  obtain ⟨⟨maxseg, saveMin⟩, h2, h⟩ := Option.bind_eq_some_iff.mp h
  obtain ⟨⟨minseg, saveMax⟩, h3, h⟩ := Option.bind_eq_some_iff.mp h
  cases saveMin with
  | none => cases h
  | some saveMin =>
    cases saveMax with
    | none => cases h
    | some saveMax =>
      have hbox := Option.some.inj h
      simp only [Option.ite_none_left_eq_some, Option.some.injEq] at hbox
      obtain ⟨-, rfl⟩ := hbox
      exact ⟨maxseg, minseg, h2, h3, rfl⟩

theorem zero_lt_newest : (0 : Index) < newest := by decide

theorem pass2_spec {d : Ring} {rp : Index} (hord : Ordered d rp) :
    ∃ segs save, pass2 d rp = some (segs, save) ∧
      Walk (place d rp) (upper d rp false) 0 newest (segs.map (turn false)) ∧
      ∀ c ∈ save, AtCorner d rp false 0 (-(2 * maxCorrect)) (segs.map (turn false)) (turn false c) := by
  obtain ⟨segs, save, henv, hwalk, hsave⟩ := envelope_spec hord false zero_lt_newest
    (k := ringSize) (by decide) (-(2 * maxCorrect)) none
  rw [idx_zero] at henv
  refine ⟨segs, save, henv, hwalk, fun c hc => ?_⟩
  rcases hsave with rfl | ⟨c', rfl, hcorner⟩
  · cases hc
  · cases hc
    exact hcorner

theorem pass3_spec {d : Ring} {rp : Index} (hord : Ordered d rp) :
    ∃ segs save, pass3 d rp = some (segs, save) ∧
      Walk (place d rp) (upper d rp true) 0 newest (segs.map (turn true)) ∧
      ∀ c ∈ save, AtCorner d rp true 0 (-(2 * maxCorrect)) (segs.map (turn true)) (turn true c) := by
  obtain ⟨segs, save, henv, hwalk, hsave⟩ := envelope_spec hord true zero_lt_newest
    (k := ringSize) (by decide) (2 * maxCorrect) none
  rw [idx_zero] at henv
  refine ⟨segs, save, henv, hwalk, fun c hc => ?_⟩
  rcases hsave with rfl | ⟨c', rfl, hcorner⟩
  · cases hc
  · cases hc
    exact hcorner

theorem box_ends {d : Ring} {rp : Index} {b : Box} (hord : Ordered d rp)
    (h : box d rp = some (some b)) :
    ∃ maxseg minseg, Ends d rp false b.saveMin b.saveMax maxseg ∧
      Ends d rp true b.saveMax b.saveMin minseg ∧
      b.df = (splice true b.saveMax b.saveMin true minseg (polygonPoint b.saveMax
        (splice false b.saveMin b.saveMax true maxseg (polygonPoint b.saveMin polygonReset)).2)).2 := by
  obtain ⟨maxseg, minseg, h2, h3, hdf⟩ := box_eq_some h
  obtain ⟨segs, save, h2', hmax, hmin⟩ := pass2_spec hord
  obtain ⟨segs', save', h3', hmax', hmin'⟩ := pass3_spec hord
  obtain ⟨rfl, rfl⟩ := Prod.mk.inj (Option.some.inj (h2.symm.trans h2'))
  obtain ⟨rfl, rfl⟩ := Prod.mk.inj (Option.some.inj (h3.symm.trans h3'))
  have hleft := hmin b.saveMin rfl
  have hright := hmin' b.saveMax rfl
  exact ⟨maxseg, minseg, ⟨hmax, ⟨_, hleft⟩, ⟨_, _, hright⟩⟩, ⟨hmax', ⟨_, hright⟩, ⟨_, _, hleft⟩⟩, hdf⟩

/-- What passes 2 to 4 find where some line fits: the two lines at the ends of all that fit, and on
either side the distance of the nearest to the target, as far as that is below `MIN_INIT`. -/
structure Box.Exact (b : Box) (d : Ring) (rp : Index) : Prop where
  min_fits : Fits d rp b.saveMin
  max_fits : Fits d rp b.saveMax
  min_slope : ∀ l, Fits d rp l → b.saveMin.slope ≤ l.slope
  max_slope : ∀ l, Fits d rp l → l.slope ≤ b.saveMax.slope
  least_le : ∀ side l, Fits d rp l → b.df.least side ≤ shift side l
  least_le_init : ∀ side, b.df.least side ≤ minInit
  attained : ∀ side, b.df.least side = minInit ∨ ∃ l, Fits d rp l ∧ b.df.least side = shift side l

/-- **A box is never made of inconsistent data.** -/
theorem fits_of_box {d : Ring} {rp : Index} {b : Box} (hord : Ordered d rp) (hwide : Wide d rp)
    (h : box d rp = some (some b)) : Fits d rp b.saveMin := by
  obtain ⟨_, _, hmax, -⟩ := box_ends hord h
  obtain ⟨_, hstart⟩ := hmax.start
  obtain ⟨_, _, hstop⟩ := hmax.stop
  exact fits_of_corners hord hwide hstart hstop

theorem box_exact {d : Ring} {rp : Index} {b : Box} (hord : Ordered d rp)
    (h : box d rp = some (some b)) (hfit : ∃ l, Fits d rp l) : b.Exact d rp := by
  obtain ⟨l₀, hl₀⟩ := hfit
  obtain ⟨maxseg, minseg, hmax, hmin, hdf⟩ := box_ends hord h
  obtain ⟨_, hstart⟩ := hmax.start
  obtain ⟨_, hstop⟩ := hmin.start
  have hminfits : Fits d rp b.saveMin := corner_fits hord hstart hl₀
  have hmaxfits : Fits d rp b.saveMax := corner_fits hord hstop hl₀
  let df₁ := polygonPoint b.saveMin polygonReset
  let df₂ := (splice false b.saveMin b.saveMax true maxseg df₁).2
  let df₃ := polygonPoint b.saveMax df₂
  have h₀ : ∀ side, polygonReset.least side = minInit := fun side => by cases side <;> rfl
  have h₁ : ∀ side, df₁.least side = min (shift side b.saveMin) minInit := fun side => by
    rw [polygonPoint_least, h₀]
  have h₂ : ∀ side, df₂.least side ≤ df₁.least side := fun side => splice_le side _ _ _
  have h₃ : ∀ side, df₃.least side = min (shift side b.saveMax) (df₂.least side) := fun side =>
    polygonPoint_least side _ _
  have h₄ : ∀ side, b.df.least side ≤ df₃.least side := fun side => by
    rw [hdf]
    exact splice_le side _ _ _
  have hle₂ : ∀ side, b.df.least side ≤ df₂.least side := fun side =>
    (h₄ side).trans ((h₃ side).trans_le (min_le_right _ _))
  have hle_max : ∀ side, b.df.least side ≤ shift side b.saveMax := fun side =>
    (h₄ side).trans ((h₃ side).trans_le (min_le_left _ _))
  have hle₁ : ∀ side, b.df.least side ≤ min (shift side b.saveMin) minInit := fun side =>
    (hle₂ side).trans ((h₂ side).trans (h₁ side).le)
  refine ⟨hminfits, hmaxfits, fun l hl => (hmax.slope_le hord hl).1,
    fun l hl => (hmax.slope_le hord hl).2, ?_, fun side => (hle₁ side).trans (min_le_right _ _), ?_⟩
  · intro side l hl
    cases side with
    | false =>
      obtain ⟨v, hv, hle⟩ := hmax.exists_shift_le hord hl
      refine le_trans ?_ hle
      rcases hv with rfl | rfl | ⟨hmem, hbeyond, hbefore⟩
      · exact (hle₁ false).trans (min_le_left _ _)
      · exact hle_max false
      · exact (hle₂ false).trans
          (splice_reaches false true maxseg df₁ (hmax.sorted hord) hmem hbeyond hbefore)
    | true =>
      obtain ⟨v, hv, hle⟩ := hmin.exists_shift_le hord hl
      refine le_trans ?_ hle
      rcases hv with rfl | rfl | ⟨hmem, hbeyond, hbefore⟩
      · exact hle_max true
      · exact (hle₁ true).trans (min_le_left _ _)
      · rw [hdf]
        exact splice_reaches true true minseg df₃ (hmin.sorted hord) hmem hbeyond hbefore
  · intro side
    have hlast : b.df.least side = df₃.least side ∨ ∃ l, Fits d rp l ∧ b.df.least side = shift side l := by
      rw [hdf]
      rcases splice_attained side true minseg df₃ (hmin.sorted hord) with heq | ⟨v, hv, heq, hb, hs⟩
      · exact .inl heq
      · exact .inr ⟨v, hmin.fits hord hl₀ hv (hs rfl) hb, heq⟩
    rcases hlast with heq | hex
    · rw [h₃] at heq
      rcases min_choice (shift side b.saveMax) (df₂.least side) with hm | hm
      · exact .inr ⟨b.saveMax, hmaxfits, heq.trans hm⟩
      · rw [hm] at heq
        rcases splice_attained side true maxseg df₁ (hmax.sorted hord) with heq' | ⟨v, hv, heq', hb, hs⟩
        · have heq₁ : b.df.least side = min (shift side b.saveMin) minInit :=
            heq.trans (heq'.trans (h₁ side))
          rcases min_choice (shift side b.saveMin) minInit with hm | hm
          · exact .inr ⟨b.saveMin, hminfits, heq₁.trans hm⟩
          · exact .inl (heq₁.trans hm)
        · exact .inr ⟨v, hmax.fits hord hl₀ hv (hs rfl) hb, heq.trans heq'⟩
    · exact .inr hex

/-! ## When there is a box -/

/-- Two ends of the error bars on one side and one on the other are in one line. -/
def Tied (d : Ring) (rp : Index) (sign : Bool) : Prop :=
  ∃ l i j n, i < j ∧ Touches (place d rp) (upper d rp sign) l i ∧
    Touches (place d rp) (upper d rp sign) l j ∧ Touches (place d rp) (lower d rp sign) l n

/-- No three of these ends are in one line, as a condition that can be evaluated. -/
def Untied (d : Ring) (rp : Index) (sign : Bool) : Prop :=
  ∀ i j n, i < j → (upper d rp sign j - upper d rp sign i) * (place d rp n - place d rp i) ≠
    (lower d rp sign n - upper d rp sign i) * (place d rp j - place d rp i)

instance (d : Ring) (rp : Index) (sign : Bool) : Decidable (Untied d rp sign) := by
  unfold Untied
  infer_instance

theorem Untied.not_tied {d : Ring} {rp : Index} {sign : Bool} (h : Untied d rp sign) :
    ¬ Tied d rp sign := by
  rintro ⟨l, i, j, n, hij, hi, hj, hn⟩
  apply h i j n hij
  rw [Touches, Line.value] at hi hj hn
  rw [← hi, ← hj, ← hn]
  ring

section Found
variable {d : Ring} {rp : Index}

section Steep
variable {sign : Bool} {p q n : Index} {c e : Seg} (hord : Ordered d rp)
    (hedge : Edge (place d rp) (upper d rp sign) p q e)
    (hcross : Crossing (place d rp) (lower d rp sign) (upper d rp sign) p n c)
    (hsteep : e.slope < c.slope)
include hord hedge hcross hsteep

theorem steep_above {k : Index} (hk : p < k) :
    e.value (place d rp k) < c.value (place d rp k) := by
  have hmeet : e.value (place d rp p) = c.value (place d rp p) := hedge.left.trans hcross.left.symm
  rw [e.value_eq (place d rp p), c.value_eq (place d rp p), hmeet]
  have := mul_lt_mul_of_pos_right hsteep (sub_pos.mpr (hord hk))
  linarith

/-- A crossing steeper than the edge goes to a point behind the edge. -/
theorem steep_behind {l : Seg} (hl : Fits d rp l) : q < n := by
  by_contra hnq
  rw [not_lt] at hnq
  have hfit := hl.turned sign
  -- the line that fits is below the edge at both its ends, but not at `n`
  have hp : (turn sign l).value (place d rp p) ≤ e.value (place d rp p) := hedge.left ▸ hfit.under p
  have hq : (turn sign l).value (place d rp q) ≤ e.value (place d rp q) := hedge.right ▸ hfit.under q
  have hn : (turn sign l).value (place d rp n) ≤ e.value (place d rp n) := by
    rcases le_total (turn sign l).slope e.slope with hs | hs
    · exact value_le_right hp hs (hord hcross.lt).le
    · exact value_le_left hq hs (hord.monotone hnq)
  have hlow := hfit.above n
  rw [← hcross.right] at hlow
  exact absurd (hlow.trans hn) (not_le.mpr (steep_above hord hedge hcross hsteep hcross.lt))

/-- From the end of the edge the crossing is steeper than the edge, too. -/
theorem steep_next (hqn : q < n) {n' : Index} {c' : Seg}
    (hnext : Crossing (place d rp) (lower d rp sign) (upper d rp sign) q n' c') :
    e.slope < c'.slope := by
  refine lt_of_not_ge fun hle => ?_
  have hat : c'.value (place d rp n) ≤ e.value (place d rp n) :=
    value_le_right (hnext.left.trans hedge.right.symm).le hle (hord hqn).le
  have hlow := hnext.above n hqn
  rw [← hcross.right] at hlow
  exact absurd (hlow.trans hat) (not_le.mpr (steep_above hord hedge hcross hsteep hcross.lt))

end Steep

theorem keep_isSome {sign : Bool} {last : ℚ} {check seg : Seg} {save : Option Seg}
    (h : save.isSome ∨ fits sign last check.slope seg.slope) :
    (keep sign last check seg save).isSome := by
  unfold keep
  cases save with
  | none =>
    have hfit := h.resolve_left Bool.false_ne_true
    rw [if_pos ⟨hfit, fun s hs => nomatch hs⟩]
    rfl
  | some s =>
    split <;> rfl

theorem envelope_found {sign : Bool} {l : Seg} (hord : Ordered d rp) (hl : Fits d rp l)
    (htied : ¬ Tied d rp sign) (last : ℚ) (save : Option Seg) {k : ℕ} {p : Index} (hp : p < newest)
    (hk : 15 - p.val ≤ k)
    (hlast : save.isSome ∨ ∀ n q c e, Crossing (place d rp) (lower d rp sign) (upper d rp sign) p n c →
      Edge (place d rp) (upper d rp sign) p q e → c.slope < e.slope →
      turnSlope sign last < c.slope) :
    ∃ segs c, envelope d rp (curve sign) (other sign) sign k (idx rp p) last save =
      some (segs, some c) := by
  induction k generalizing p last save with
  | zero =>
    have hlt : p.val < 15 := Fin.lt_def.mp hp
    omega
  | succ k ih =>
    obtain ⟨q, seg, hseg, hedge⟩ := search_edge hord hp sign
    obtain ⟨n, check, hcheck, hcross⟩ := search_crossing hord hp sign
    have hnext : (keep sign last check seg save).isSome ∨
        (turn sign seg).slope < (turn sign check).slope := by
      rcases lt_trichotomy (turn sign check).slope (turn sign seg).slope with hlt | heq | hgt
      · refine .inl (keep_isSome (hlast.imp_right fun h => ?_))
        have hbefore := h n q _ _ hcross hedge hlt
        rw [turn_slope] at hbefore
        rw [turn_slope, turn_slope] at hlt
        exact fits_iff_turn.mpr ⟨hlt, hbefore⟩
      · have hsame := eq_of_meet heq (hcross.left.trans hedge.left.symm)
        exact absurd ⟨_, p, q, n, hedge.lt, hedge.left, hedge.right, hsame ▸ hcross.right⟩ htied
      · exact .inr hgt
    by_cases hq : q = newest
    · subst hq
      rw [idx_newest] at hseg
      have hsome : (keep sign last check seg save).isSome := hnext.resolve_right fun hgt =>
        not_lt.mpr (Fin.le_last n) (steep_behind hord hedge hcross hgt hl)
      obtain ⟨c, hc⟩ := Option.isSome_iff_exists.mp hsome
      exact ⟨[seg], c, by rw [envelope_last hseg hcheck, hc]⟩
    · have hqlt : q < newest := (Fin.le_last q).lt_of_ne hq
      have hpq : p.val < q.val := Fin.lt_def.mp hedge.lt
      obtain ⟨segs, c, henv⟩ := ih seg.slope (keep sign last check seg save) hqlt (by omega)
        (hnext.imp_right fun hgt n' q' c' e' hc' _ _ => by
          rw [← turn_slope]
          exact steep_next hord hedge hcross hgt (steep_behind hord hedge hcross hgt hl) hc')
      exact ⟨seg :: segs, c, envelope_cons hseg hcheck (fun h => hq (idx_eq_rp.mp h)) henv⟩

/-- A crossing at the oldest point that is flatter than the first edge fits. -/
theorem first_fits {sign : Bool} {q n : Index} {c e l : Seg} (hord : Ordered d rp) (hl : Fits d rp l)
    (hcross : Crossing (place d rp) (lower d rp sign) (upper d rp sign) 0 n c)
    (hedge : Edge (place d rp) (upper d rp sign) 0 q e) (hlt : c.slope < e.slope) :
    Fits d rp (turn sign c) := by
  have hunder : Under (place d rp) (upper d rp sign) c :=
    under_of_corner hord (fun k => Fin.zero_le k) (.nil 0) (.cons hedge (.nil q)) hcross.left
      (fun l hl => absurd hl List.not_mem_nil) hlt.le
  have hfit := hcross.consistent hord hunder (hl.turned sign)
  rw [← turn_turn sign c] at hfit
  exact fits_of_turned hfit

theorem splice_false (sign : Bool) (start stop : Seg) (segs : List Seg) (df : Polygon) :
    (splice sign start stop false segs df).1 = false := by
  induction segs generalizing df with
  | nil => rfl
  | cons seg segs ih =>
    rw [splice]
    split
    · rfl
    · exact ih _

theorem splice_passes {sign : Bool} {start stop v : Seg} {dinit : Bool} {segs : List Seg}
    {df : Polygon} (hle : turnSlope sign start.slope ≤ turnSlope sign stop.slope) (hv : v ∈ segs)
    (hbeyond : beyond sign v.slope start.slope) :
    (splice sign start stop dinit segs df).1 = false := by
  induction segs generalizing dinit df with
  | nil => exact absurd hv List.not_mem_nil
  | cons seg segs ih =>
    have hpassed : beyond sign seg.slope start.slope →
        (dinit && !decide (beyond sign seg.slope start.slope)) = false := fun hb => by
      rw [decide_eq_true hb, Bool.not_true, Bool.and_false]
    rw [splice]
    by_cases hstop : beyond sign seg.slope stop.slope
    · rw [if_pos hstop]
      exact hpassed (beyond_iff.mpr (hle.trans_lt (beyond_iff.mp hstop)))
    · rw [if_neg hstop]
      rcases List.mem_cons.mp hv with rfl | hmem
      · rw [hpassed hbeyond]
        exact splice_false _ _ _ _ _
      · exact ih hmem

/-- The slopes that passes 2 and 3 can tell from their initial values. -/
def InRange (l : Seg) : Prop := -(2 * maxCorrect) < l.slope ∧ l.slope < 2 * maxCorrect

/-- **Data that some line fits are not taken for inconsistent**, unless three of the ends of the
error bars are in one line. -/
theorem box_of_fits (hord : Ordered d rp) (hfit : ∃ l, Fits d rp l)
    (hrange : ∀ l, Fits d rp l → InRange l) (htied : ∀ sign, ¬ Tied d rp sign) :
    ∃ b, box d rp = some (some b) := by
  obtain ⟨l, hl⟩ := hfit
  obtain ⟨maxseg, saveMin, h2⟩ := envelope_found hord hl (htied false) (-(2 * maxCorrect)) none
    (k := ringSize) zero_lt_newest (by decide) (.inr fun n q c e hcross hedge hlt => (hrange _ (first_fits hord hl hcross hedge hlt)).1)
  obtain ⟨minseg, saveMax, h3⟩ := envelope_found hord hl (htied true) (2 * maxCorrect) none
    (k := ringSize) zero_lt_newest (by decide) (.inr fun n q c e hcross hedge hlt =>
      neg_lt.mp (hrange _ (first_fits hord hl hcross hedge hlt)).2)
  rw [idx_zero] at h2 h3
  obtain ⟨segs, save, h2', -, hmin⟩ := pass2_spec hord
  obtain ⟨segs', save', h3', -, hmax⟩ := pass3_spec hord
  obtain ⟨rfl, rfl⟩ := Prod.mk.inj (Option.some.inj (h2.symm.trans h2'))
  obtain ⟨rfl, rfl⟩ := Prod.mk.inj (Option.some.inj (h3.symm.trans h3'))
  have hslopes : saveMin.slope ≤ saveMax.slope :=
    (corner_slope_le hord (hmin saveMin rfl) hl).trans
      (neg_le_neg_iff.mp (corner_slope_le hord (hmax saveMax rfl) hl))
  -- at its corner each of the two lines is flatter than the next segment
  have hnext : ∀ {sign : Bool} {last : ℚ} {segs : List Seg} {c : Seg}, AtCorner d rp sign 0 last (segs.map (turn sign)) (turn sign c) →
      ∃ v ∈ segs, beyond sign v.slope c.slope := by
    rintro sign last segs c ⟨pre, e, post, -, -, hsegs, -, -, -, hlt, -⟩
    have hmem : e ∈ segs.map (turn sign) := by
      rw [hsegs]
      exact List.mem_append_right _ List.mem_cons_self
    obtain ⟨v, hv, rfl⟩ := List.mem_map.mp hmem
    rw [turn_slope, turn_slope] at hlt
    exact ⟨v, hv, beyond_iff.mpr hlt⟩
  obtain ⟨v, hv, hbeyond⟩ := hnext (hmin saveMin rfl)
  obtain ⟨v', hv', hbeyond'⟩ := hnext (hmax saveMax rfl)
  have hfirst : ∀ df, (splice false saveMin saveMax true maxseg df).1 = false := fun df =>
    splice_passes hslopes hv hbeyond
  have hsecond : ∀ df, (splice true saveMax saveMin true minseg df).1 = false := fun df =>
    splice_passes (neg_le_neg hslopes) hv' hbeyond'
  let df := (splice false saveMin saveMax true maxseg (polygonPoint saveMin polygonReset)).2
  refine ⟨⟨saveMin, saveMax, (splice true saveMax saveMin true minseg (polygonPoint saveMax df)).2⟩, ?_⟩
  change pass2 d rp = _ at h2
  change pass3 d rp = _ at h3
  simp only [box, h2, h3, Option.bind_eq_bind, Option.bind_some, hfirst, hsecond,
    Bool.false_eq_true, or_self, if_false]
  rfl

end Found

theorem box_isSome {d : Ring} {rp : Index} (hord : Ordered d rp) : ∃ b, box d rp = some b := by
  obtain ⟨segs, save, h2, -, -⟩ := pass2_spec hord
  obtain ⟨segs', save', h3, -, -⟩ := pass3_spec hord
  rw [box, h2, h3]
  cases save with
  | none => exact ⟨_, rfl⟩
  | some c =>
    cases save' with
    | none => exact ⟨_, rfl⟩
    | some c' => exact ⟨_, rfl⟩

/-! ## Error bars without a width -/

/-- Behind a corner no line gets down to the points below before it leaves the walk. -/
theorem not_atCorner_of_flat {p : Index} {last : ℚ} {segs : List Seg} {c : Seg} {sign : Bool}
    {d : Ring} {rp : Index} (hord : Ordered d rp)
    (hflat : ∀ p, upper d rp sign p ≤ lower d rp sign p) : ¬ AtCorner d rp sign p last segs c := by
  rintro ⟨pre, e, post, j, n, -, -, hwalk, hcross, hlt, -⟩
  cases hwalk with
  | cons hedge =>
    have hmeet : e.value (place d rp j) = c.value (place d rp j) :=
      hedge.left.trans hcross.left.symm
    have hreach : e.value (place d rp n) ≤ c.value (place d rp n) :=
      (hedge.under n hcross.lt).trans ((hflat n).trans_eq hcross.right.symm)
    exact not_le.mpr hlt (slope_le_of_value_le (hord hcross.lt) hmeet.ge hreach)

/-- Without a width the error bars never make a box, not even with all points in one line. -/
theorem box_of_flat {d : Ring} {rp : Index} {b : Option Box} (hord : Ordered d rp)
    (hflat : ∀ p, point d rp .max p ≤ point d rp .min p) (h : box d rp = some b) : b = none := by
  cases b with
  | none => rfl
  | some b =>
    obtain ⟨_, _, hmax, -⟩ := box_ends hord h
    obtain ⟨_, hstart⟩ := hmax.start
    exact absurd hstart (not_atCorner_of_flat hord hflat)

end LidarRelay.PhaseLock
