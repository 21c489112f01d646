import LidarRelay.Foundations.Envelope
import LidarRelay.Programs.Device

/-! # `phaselock.c`: the frequency of the clock

`contemplate_data` keeps the last 16 measurements of the clock in a ring, finds the straight lines
that pass through all their error bars, and moves the frequency as little as brings one of them to a
target. The doubles are exact rationals. What C leaves to infinities (a division by 0) or undefined
(a conversion beyond `int`) is `none`; what is printed is left out.
-/

namespace LidarRelay.PhaseLock
set_option autoImplicit false
set_option maxHeartbeats 250000

abbrev ringSize : ℕ := 16

def maxCorrect : ℚ := 250

/-- `(MAX_CORRECT)*65536`. -/
def maxC : ℤ := 250 * 65536

abbrev Index := Fin ringSize

instance : NeZero ringSize := ⟨by decide⟩

/-- The index into `ss`. -/
inductive Curve where
  | min
  | max
  deriving DecidableEq, Repr

structure Datum where
  absolute : UInt32 := 0
  skew : ℚ := 0
  errorbar : ℚ := 0
  freq : ℤ := 0
  min : ℚ := 0
  max : ℚ := 0

def Datum.ss (d : Datum) : Curve → ℚ
  | .min => d.min
  | .max => d.max

abbrev Ring := Vector Datum ringSize

abbrev Seg := Envelope.Line ℚ

def nextUp (i : Index) : Index := i + 1

def nextDn (i : Index) : Index := i - 1

/-- The difference of two `unsigned int`, as a double. -/
def elapsed (d : Ring) (n j : Index) : ℚ := ((d.get n).absolute - (d.get j).absolute).toNat

/-! ## Search -/

/-- The indices from `n` on that the loop visits before `stop`. -/
def visited (stop : Index) : ℕ → Index → List Index
  | 0, _ => []
  | k + 1, n => if n = stop then [] else n :: visited stop k (nextUp n)

/-- The line from point `j` of curve `s1` to point `n` of curve `s0`; its offset is its value now, at
`rp`. -/
def segment (d : Ring) (rp j n : Index) (s0 s1 : Curve) : Option Seg :=
  let dt := elapsed d n j
  if dt = 0 then none
  else
    let slope := ((d.get n).ss s0 - (d.get j).ss s1) / dt
    some ⟨slope, (d.get n).ss s0 + slope * elapsed d rp n⟩

/-- One pass of the loop: `cinit || (slope < answer->slope) ^ sign`. -/
def searchStep (d : Ring) (rp j : Index) (s0 s1 : Curve) (sign : Bool)
    (best : Option (Index × Seg)) (n : Index) : Option (Option (Index × Seg)) := do
  let seg ← segment d rp j n s0 s1
  match best with
  | none => return some (n, seg)
  | some (_, answer) =>
    if (decide (seg.slope < answer.slope) ^^ sign) = true then return some (n, seg) else return best

/-- The index that is returned, and `*answer`; called for a `j` that is not `rp`. -/
def search (d : Ring) (rp j : Index) (s0 s1 : Curve) (sign : Bool) : Option (Index × Seg) := do
  let best ← (visited (nextUp rp) ringSize (nextUp j)).foldlM (searchStep d rp j s0 s1 sign) none
  best

/-! ## The polygon -/

def minInit : ℚ := 20

structure Polygon where
  lMin : ℚ
  rMin : ℚ
  deriving DecidableEq, Repr

def polygonReset : Polygon := ⟨minInit, minInit⟩

/-- What it returns, and whether it sets `*flag`. -/
def findDf (df : Polygon) : ℚ × Bool :=
  if df.lMin = 0 then
    if df.rMin = 0 then (0, false) else (-df.rMin, false)
  else
    if df.rMin = 0 then (df.lMin, false) else (0, true)

def findShift (slope offset : ℚ) : ℚ :=
  let shift := slope - offset / 600
  let shift2 := slope + 3 / 10 - offset / 6000
  let shift := if shift2 < shift then shift2 else shift
  if shift < 0 then 0 else shift

def polygonPoint (s : Seg) (df : Polygon) : Polygon :=
  let l := findShift (-s.slope) s.offset
  let r := findShift s.slope (-s.offset)
  ⟨if l < df.lMin then l else df.lMin, if r < df.rMin then r else df.rMin⟩

/-- The choice between `delta1` and `delta2` that is made by the sign of the offset. -/
def centerDelta (offset delta1 delta2 : ℚ) : ℚ :=
  let delta := 0
  let delta := if offset < 0 ∧ delta2 > 0 then delta2 else delta
  let delta := if offset < 0 ∧ delta1 < 0 then delta1 else delta
  let delta := if offset ≥ 0 ∧ delta1 > 0 then delta1 else delta
  if offset ≥ 0 ∧ delta2 < 0 then delta2 else delta

def findDfCenter (min max : Seg) (grossDf : ℚ) : Option ℚ :=
  let critTime := 1000
  let slope := 1 / 2 * (max.slope + min.slope) + grossDf
  let dslope := max.slope - min.slope
  let offset := 1 / 2 * (max.offset + min.offset)
  let doffset := max.offset - min.offset
  let delta := centerDelta offset (-offset / 600 - slope) (-offset / 1800 - slope)
  let divisor := critTime + doffset + dslope * 1200
  if max.offset < -critTime ∨ min.offset > critTime then some 0
  else if divisor = 0 then none
  else some (critTime / divisor * delta)

/-! ## The passes over a full ring -/

/-- Pass 1, from `j` back to the oldest: what the measurements would have been at the frequency of
now. -/
def correct (rp : Index) (freq : ℤ) : ℕ → Index → ℚ → Ring → Ring
  | 0, _, _, d => d
  | k + 1, j, cum, d =>
    let p := d.get j
    let d := d.set j
      { p with max := p.skew - cum + p.errorbar, min := p.skew - cum - p.errorbar } j.isLt
    let n := nextDn j
    if n = rp then d
    else correct rp freq k n (cum + elapsed d j n * ((d.get j).freq - freq : ℤ) / 65536) d

def pass1 (d : Ring) (rp : Index) (freq : ℤ) : Ring := correct rp freq ringSize rp 0 d

/-- Is `check.slope` between that of the segment before and that of this one, in the order of the
pass? -/
def fits (sign : Bool) (lastSlope check seg : ℚ) : Prop :=
  if sign then check > seg ∧ check < lastSlope else check < seg ∧ check > lastSlope

instance (sign : Bool) (a b c : ℚ) : Decidable (fits sign a b c) := by
  unfold fits
  infer_instance

/-- The loop of passes 2 and 3: the segments of the envelope of one curve, and the last of the lines
to the other curve that are kept. -/
def envelope (d : Ring) (rp : Index) (curve other : Curve) (sign : Bool) :
    ℕ → Index → ℚ → Option Seg → Option (List Seg × Option Seg)
  | 0, _, _, _ => none
  | k + 1, j, lastSlope, save => do
    let (nextj, seg) ← search d rp j curve curve sign
    let (_, check) ← search d rp j other curve (!sign)
    let save :=
      if fits sign lastSlope check.slope seg.slope ∧ ∀ s ∈ save, check.slope < s.slope then
        some check
      else save
    if nextj = rp then return ([seg], save)
    let (segs, save) ← envelope d rp curve other sign k nextj seg.slope save
    return (seg :: segs, save)

/-- `maxseg` and `save_min`. -/
def pass2 (d : Ring) (rp : Index) : Option (List Seg × Option Seg) :=
  envelope d rp .max .min false ringSize (nextUp rp) (-(2 * maxCorrect)) none

/-- `minseg` and `save_max`. -/
def pass3 (d : Ring) (rp : Index) : Option (List Seg × Option Seg) :=
  envelope d rp .min .max true ringSize (nextUp rp) (2 * maxCorrect) none

/-- Is slope `a` beyond slope `b`, in the order of the pass? -/
def beyond (sign : Bool) (a b : ℚ) : Prop := if sign then a < b else a > b

instance (sign : Bool) (a b : ℚ) : Decidable (beyond sign a b) := by
  unfold beyond
  infer_instance

/-- The loop of pass 4 over the segments of one curve: `dinit` and the polygon. -/
def splice (sign : Bool) (start stop : Seg) : Bool → List Seg → Polygon → Bool × Polygon
  | dinit, [], df => (dinit, df)
  | dinit, seg :: segs, df =>
    let dinit := dinit && !decide (beyond sign seg.slope start.slope)
    if beyond sign seg.slope stop.slope then (dinit, df)
    else splice sign start stop dinit segs (if dinit then df else polygonPoint seg df)

structure Box where
  saveMin : Seg
  saveMax : Seg
  df : Polygon

/-- Passes 2 to 4; without a box the data are `inconsistent`. -/
def box (d : Ring) (rp : Index) : Option (Option Box) := do
  let (maxseg, saveMin) ← pass2 d rp
  let (minseg, saveMax) ← pass3 d rp
  match saveMin, saveMax with
  | some saveMin, some saveMax =>
    let (dinit, df) := splice false saveMin saveMax true maxseg (polygonPoint saveMin polygonReset)
    let (dinit', df) := splice true saveMax saveMin true minseg (polygonPoint saveMax df)
    return if dinit ∨ dinit' then none else some ⟨saveMin, saveMax, df⟩
  | _, _ => return none

/-! ## The new frequency -/

/-- An integer, as far as an `int` holds it. -/
def toInt (n : ℤ) : Option ℤ := if -2 ^ 31 ≤ n ∧ n < 2 ^ 31 then some n else none

def clamp (freq : ℤ) : ℤ :=
  let freq := if freq < -maxC then -maxC else freq
  if freq > maxC then maxC else freq

def deltaF (b : Box) : Option ℚ := do
  let delta := (findDf b.df).1
  let center ← findDfCenter b.saveMin b.saveMax delta
  return delta + center

/-- Pass 5. -/
def newFreq (freq : ℤ) : Option Box → Option ℤ
  | none => some freq
  | some b => do
    let delta ← deltaF b
    let deltaFreq ← toInt (truncate (delta * 65536 + 1 / 2))
    let computed ← toInt (freq - deltaFreq)
    return clamp computed

structure State where
  ring : Ring := Vector.replicate ringSize {}
  rp : Index := 0
  valid : ℕ := 0

/-- `d_ring[rp]`. -/
def store (minDelay : ℚ) (absolute : UInt32) (skew errorbar : ℚ) (freq : ℤ) (s : State) : State where
  ring := s.ring.set s.rp
    { s.ring.get s.rp with absolute, skew, errorbar := errorbar - minDelay, freq } s.rp.isLt
  rp := s.rp
  valid := if s.valid < ringSize then s.valid + 1 else s.valid

def contemplateData (minDelay : ℚ) (absolute : UInt32) (skew errorbar : ℚ) (freq : ℤ) (s : State) :
    Option (ℤ × State) := do
  let s := store minDelay absolute skew errorbar freq s
  if s.valid = ringSize then
    let d := pass1 s.ring s.rp freq
    let b ← box d s.rp
    let computed ← newFreq freq b
    return (computed, { s with ring := d, rp := nextUp s.rp })
  else
    return (freq, { s with rp := nextUp s.rp })

end LidarRelay.PhaseLock
