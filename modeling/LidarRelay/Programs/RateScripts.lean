import LidarRelay.Programs.NtpClient

/-! # `rate.awk` and `rate2.awk`: the frequency out of a log

Two scripts read the log that `ntpclient` has printed and name the frequency that the clock should
have had. `rate.awk` takes the first and the last line, `rate2.awk` averages over the lines that it
does not ignore. The doubles are exact rationals, and only the new frequency is kept of what is
printed. A `LogLine` is the line of a measurement, a `Row` any line of a log.
-/

namespace LidarRelay.RateScripts
open NtpClient
set_option autoImplicit false
set_option maxHeartbeats 250000

/-! ## `rate.awk` -/

structure Rate where
  dayOff : ℤ
  t1 : ℚ
  o1 : ℚ
  f1 : ℤ
  t2 : ℚ
  o2 : ℚ
  fwarn : Bool

/-- The line with `FNR==1`. -/
def Rate.first (l : LogLine) : Rate where
  dayOff := l.day
  t1 := l.sec
  o1 := l.skew
  f1 := l.freq
  t2 := l.sec
  o2 := l.skew
  fwarn := false

def Rate.line (s : Rate) (l : LogLine) : Rate :=
  { s with t2 := (l.day - s.dayOff : ℤ) * 86400 + l.sec, o2 := l.skew,
           fwarn := s.fwarn || decide (l.freq ≠ s.f1) }

/-- `f3` and whether there is a warning; awk does not divide by zero. -/
def rate : List LogLine → Option (ℤ × Bool)
  | [] => none
  | l :: ls =>
    let s := ls.foldl Rate.line (Rate.first l)
    if s.t2 - s.t1 = 0 then none
    else
      let slope := (s.o2 - s.o1) / (s.t2 - s.t1)
      some (s.f1 + truncate (slope * 65536), s.fwarn)

/-! ## `rate2.awk` -/

/-- `td`, in seconds. -/
def interval : ℚ := 10 * 60

def tderr : ℚ := 100 / 1000

def tdmin : ℚ := interval - tderr

def tdmax : ℚ := interval + tderr

def freqDiff : ℚ := 5 * 65536

def ntpDelay : ℚ := 100 * 1000

/-- `t1`, `o1` and `f1`. -/
structure Before where
  t1 : ℚ
  o1 : ℚ
  f1 : ℤ

structure Rate2 where
  before : Option Before := none
  c : ℕ := 0
  ignored : ℕ := 0
  deltaO : ℚ := 0
  deltaT : ℚ := 0
  sumF2 : ℚ := 0
  minF2 : Option ℚ := none
  maxF2 : Option ℚ := none
  prevF2 : Option ℚ := none

namespace Rate2

def time (l : LogLine) : ℚ := l.day * 86400 + l.sec

def remember (l : LogLine) (s : Rate2) : Rate2 :=
  { s with before := some ⟨time l, l.skew, l.freq⟩ }

def count (td od f2 : ℚ) (s : Rate2) : Rate2 :=
  { s with
    sumF2 := s.sumF2 + f2 * td
    deltaO := s.deltaO + od
    deltaT := s.deltaT + td
    minF2 := some (match s.minF2 with | none => f2 | some m => if f2 < m then f2 else m)
    maxF2 := some (match s.maxF2 with | none => f2 | some m => if f2 > m then f2 else m)
    c := s.c + 1 }

def ignore (s : Rate2) : Rate2 := { s with ignored := s.ignored + 1 }

/-- What becomes of a line after the first. -/
def weigh (b : Before) (l : LogLine) (s : Rate2) : Rate2 :=
  let td := time l - b.t1
  let od := l.skew - b.o1
  if l.elTime > ntpDelay then s.ignore
  else if td < tdmin ∨ td > tdmax then s.ignore
  else
    let f2 := b.f1 + 65536 * od / td
    let prevF2 := s.prevF2.getD f2
    { (if |f2 - prevF2| > freqDiff then s.ignore else s.count td od f2) with prevF2 := some f2 }

def line (s : Rate2) (l : LogLine) : Rate2 :=
  match s.before with
  | none => { s.remember l with c := s.c + 1 }
  | some b => (s.weigh b l).remember l

end Rate2

/-- `/^[0-9]/`: the line of a rejected packet starts with the day too. -/
def numbered : Row → Bool
  | .remark => false
  | _ => true

/-- The rule for `/^[0-9]/`. On the line of a rejected packet `$3` is a word and greater than the text
of `ntp_delay`; there is no `$7`, and the empty `f1` makes the next line a first one. -/
def Rate2.row (s : Rate2) : Row → Rate2
  | .measured l => s.line l
  | .rejected =>
    match s.before with
    | none => { s with c := s.c + 1 }
    | some _ => { s.ignore with before := none }
  | .remark => s

/-- The new frequency, when the log is long enough; it has measurements only. -/
def rate2 (ls : List LogLine) : Option ℤ :=
  let s := ls.foldl Rate2.line {}
  if s.deltaT ≥ tdmin then
    let f2 := s.sumF2 / s.deltaT
    some (truncate (f2 + 1 / 2))
  else none

end LidarRelay.RateScripts
