import LidarRelay.Foundations.DecimalText

/-! # Numbers from any text

`strtod` and `atoi` on texts that need not be decimal ones: what is no number reads as 0, and
`strtod` also knows infinities, NaNs and hexadecimal digits. Neither refuses a text. On the texts
of `strtod` in `DecimalText` the two readings agree.
-/

namespace LidarRelay
set_option autoImplicit false
set_option maxHeartbeats 250000

/-- A double, the finite ones as exact rationals. -/
inductive Double where
  | finite (q : ℚ)
  | infinite (negative : Bool)
  | nan
  deriving DecidableEq

instance : Inhabited Double := ⟨.finite 0⟩

/-! ## Hexadecimal digits -/

def hexDigitVal (b : Byte) : ℕ := if isDigit b then digitVal b else (lower b).toNat - 87

def hexVal (ds : List Byte) : ℕ := Nat.ofDigits 16 (ds.reverse.map hexDigitVal)

def binaryExponent : List Byte → ℤ
  | [] => 0
  | b :: s =>
    if lower b = 112 then
      let (neg, t) := takeSign s
      let e : ℤ := decVal (t.takeWhile isDigit)
      if neg then -e else e
    else 0

/-- The number behind a `0x`. -/
def hexadecimal (s : List Byte) : ℚ :=
  let (ip, s) := s.span isHexDigit
  let (fp, s) := if s.head? = some dot then s.tail.span isHexDigit else ([], s)
  hexVal (ip ++ fp) * 2 ^ (binaryExponent s - 4 * fp.length)

/-! ## The two readings -/

/-- `strtod(p, NULL)` for a `p` that is not null. -/
def readDouble (s : List Byte) : Double :=
  let (neg, t) := signed s
  let sign (q : ℚ) : ℚ := if neg then -q else q
  if notDecimal t then
    match (t.map lower).head? with
    | some 105 => .infinite neg
    | some 110 => .nan
    | _ => .finite (sign (hexadecimal (t.drop 2)))
  else .finite (sign (decimal t))

/-- `atoi(p)` for a `p` that is not null. -/
def readInt (bits : ℕ) (s : List Byte) : ℤ := Int.bmod (strtol bits s) (2 ^ 32)

theorem readDouble_of_strtod {s : List Byte} {q : ℚ} (h : strtod (some s) = .ok q) :
    readDouble s = .finite q := by
  unfold strtod at h
  unfold readDouble
  dsimp only at h ⊢
  split at h
  · cases h
  · rename_i hdec
    rw [if_neg hdec]
    exact congrArg Double.finite (Except.ok.inj h)

theorem strtod_some_error {s : List Byte} {f : Fault} (h : strtod (some s) = .error f) :
    f = .notDecimal := by
  unfold strtod at h
  dsimp only at h
  split at h
  · exact (Except.error.inj h).symm
  · cases h

end LidarRelay
