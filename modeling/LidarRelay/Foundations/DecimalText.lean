import Mathlib.Algebra.Order.Round
import Mathlib.Data.Nat.Digits.Defs
import Mathlib.Data.Rat.Floor
import Mathlib.Tactic
import LidarRelay.Foundations.CString

/-! # Decimal text: `%ld`, `%f`, `strtol`, `atoi`, `strtod`

Numbers as the C library prints and reads them. A double is read as an exact rational. The two
round trips the development rests on are `atoi_formatLd` and `strtod_formatF`: an integer in the
range of `int` comes back as it is, and a rational as the six-digit number it was printed as.
-/

namespace LidarRelay
set_option autoImplicit false
set_option maxHeartbeats 250000

def minus : Byte := 45
def plus : Byte := 43
def dot : Byte := 46

/-! ## Digits -/

def digitByte (d : ℕ) : Byte := UInt8.ofNat (48 + d)

def isDigit (b : Byte) : Bool := 48 ≤ b && b ≤ 57

def digitVal (b : Byte) : ℕ := b.toNat - 48

def decVal (ds : List Byte) : ℕ := Nat.ofDigits 10 (ds.reverse.map digitVal)

def natText (n : ℕ) : List Byte :=
  if n = 0 then [digitByte 0] else (Nat.digits 10 n).reverse.map digitByte

/-- The last `w` digits of `n`, padded with zeros. -/
def fixedText : ℕ → ℕ → List Byte
  | 0, _ => []
  | w + 1, n => fixedText w (n / 10) ++ [digitByte (n % 10)]

theorem digitVal_digitByte {d : ℕ} (h : d < 10) : digitVal (digitByte d) = d := by
  interval_cases d <;> rfl

theorem isDigit_digitByte {d : ℕ} (h : d < 10) : isDigit (digitByte d) = true := by
  interval_cases d <;> rfl

theorem decVal_singleton (b : Byte) : decVal [b] = digitVal b := by
  simp [decVal]

theorem decVal_append (xs ys : List Byte) :
    decVal (xs ++ ys) = decVal xs * 10 ^ ys.length + decVal ys := by
  simp only [decVal, List.reverse_append, List.map_append, Nat.ofDigits_append, List.length_map,
    List.length_reverse]
  ring

theorem natText_ne_nil (n : ℕ) : natText n ≠ [] := by
  unfold natText
  split
  · exact List.cons_ne_nil _ _
  · next h =>
    simpa using Nat.digits_ne_nil_iff_ne_zero.mpr h

theorem natText_isDigit (n : ℕ) : ∀ b ∈ natText n, isDigit b = true := by
  unfold natText
  split
  · intro b hb
    rw [List.mem_singleton] at hb
    exact hb ▸ isDigit_digitByte (by norm_num)
  · intro b hb
    obtain ⟨d, hd, rfl⟩ := List.mem_map.mp hb
    exact isDigit_digitByte (Nat.digits_lt_base (by norm_num) (List.mem_reverse.mp hd))

theorem decVal_natText (n : ℕ) : decVal (natText n) = n := by
  unfold natText
  split
  · next h =>
    rw [decVal_singleton, digitVal_digitByte (by norm_num), h]
  · have hmap : (Nat.digits 10 n).map (digitVal ∘ digitByte) = Nat.digits 10 n := by
      refine (List.map_congr_left fun d hd => ?_).trans (List.map_id _)
      exact digitVal_digitByte (Nat.digits_lt_base (by norm_num) hd)
    rw [decVal, ← List.map_reverse, List.reverse_reverse, List.map_map, hmap, Nat.ofDigits_digits]

theorem fixedText_length (w n : ℕ) : (fixedText w n).length = w := by
  induction w generalizing n with
  | zero => rfl
  | succ w ih => rw [fixedText, List.length_append, ih, List.length_singleton]

theorem fixedText_isDigit (w n : ℕ) : ∀ b ∈ fixedText w n, isDigit b = true := by
  induction w generalizing n with
  | zero => simp [fixedText]
  | succ w ih =>
    intro b hb
    rcases List.mem_append.mp hb with hb | hb
    · exact ih _ b hb
    · rw [List.mem_singleton] at hb
      exact hb ▸ isDigit_digitByte (Nat.mod_lt _ (by norm_num))

theorem decVal_fixedText {w n : ℕ} (h : n < 10 ^ w) : decVal (fixedText w n) = n := by
  induction w generalizing n with
  | zero =>
    have hn : n = 0 := by simpa using h
    rw [hn]
    rfl
  | succ w ih =>
    have hq : n / 10 < 10 ^ w := by
      rw [pow_succ] at h
      omega
    rw [fixedText, decVal_append, ih hq, decVal_singleton,
      digitVal_digitByte (Nat.mod_lt _ (by norm_num)), List.length_singleton]
    omega

theorem span_isDigit {ds rest : List Byte} (hds : ∀ b ∈ ds, isDigit b = true)
    (hrest : ∀ b ∈ rest.head?, isDigit b = false) :
    (ds ++ rest).span isDigit = (ds, rest) := by
  rw [List.span_eq_takeWhile_dropWhile, List.takeWhile_append_of_pos hds,
    List.dropWhile_append_of_pos hds]
  cases rest with
  | nil => simp
  | cons b rest =>
    have hb : isDigit b = false := hrest b rfl
    rw [List.takeWhile_cons_of_neg (by simp [hb]), List.dropWhile_cons_of_neg (by simp [hb]),
      List.append_nil]

/-! ## White space and signs -/

def isSpace (b : Byte) : Bool := b == 32 || (9 ≤ b && b ≤ 13)

def takeSign : List Byte → Bool × List Byte
  | [] => (false, [])
  | b :: s => if b = minus then (true, s) else if b = plus then (false, s) else (false, b :: s)

def signed (s : List Byte) : Bool × List Byte := takeSign (s.dropWhile isSpace)

theorem signed_minus (s : List Byte) : signed (minus :: s) = (true, s) := by
  have h : isSpace minus = false := rfl
  rw [signed, List.dropWhile_cons_of_neg (by simp [h]), takeSign, if_pos rfl]

/-- What a digit is not. -/
structure Plain (b : Byte) : Prop where
  space : isSpace b = false
  minus : b ≠ minus
  plus : b ≠ plus
  clean : b ≠ comma ∧ b ≠ nul
  lt : b < 58

theorem isDigit_plain {b : Byte} (h : isDigit b = true) : Plain b := by
  suffices isSpace b = false ∧ b ≠ minus ∧ b ≠ plus ∧ (b ≠ comma ∧ b ≠ nul) ∧ b < 58 from
    ⟨this.1, this.2.1, this.2.2.1, this.2.2.2.1, this.2.2.2.2⟩
  revert h
  rw [isDigit, isSpace, minus, plus, comma, nul]
  cases b with
  | ofBitVec v =>
    revert v
    decide

theorem signed_digit {b : Byte} {s : List Byte} (h : isDigit b = true) :
    signed (b :: s) = (false, b :: s) := by
  obtain ⟨hsp, hm, hp, -, -⟩ := isDigit_plain h
  rw [signed, List.dropWhile_cons_of_neg (by simp [hsp]), takeSign, if_neg hm, if_neg hp]

theorem signed_digits {ds rest : List Byte} (hne : ds ≠ []) (hds : ∀ b ∈ ds, isDigit b = true) :
    signed (ds ++ rest) = (false, ds ++ rest) := by
  cases ds with
  | nil => exact absurd rfl hne
  | cons b ds => exact signed_digit (hds b (List.mem_cons_self ..))

/-! ## Integers: `%ld`, `strtol` and `atoi` -/

def formatLd (n : ℤ) : List Byte :=
  if n < 0 then minus :: natText n.natAbs else natText n.natAbs

/-- The range of a `long` of `bits` bits; conversions beyond it stop at its ends. -/
def clampLong (bits : ℕ) (v : ℤ) : ℤ := max (-2 ^ (bits - 1)) (min v (2 ^ (bits - 1) - 1))

def strtol (bits : ℕ) (s : List Byte) : ℤ :=
  let (neg, ds) := signed s
  let v : ℤ := decVal (ds.takeWhile isDigit)
  clampLong bits (if neg then -v else v)

/-- `atoi(p)`: the `long` of `strtol` converted to a 32-bit `int`. -/
def atoi (bits : ℕ) : Option (List Byte) → Except Fault ℤ
  | none => .error .nullPointer
  | some s => .ok (Int.bmod (strtol bits s) (2 ^ 32))

def FitsInt (n : ℤ) : Prop := -2 ^ 31 ≤ n ∧ n < 2 ^ 31

instance (n : ℤ) : Decidable (FitsInt n) := inferInstanceAs (Decidable (_ ∧ _))

theorem clampLong_fits {bits : ℕ} (hb : 32 ≤ bits) {n : ℤ} (h : FitsInt n) :
    clampLong bits n = n := by
  obtain ⟨hlo, hhi⟩ := h
  have hp : (2 : ℤ) ^ 31 ≤ 2 ^ (bits - 1) := pow_le_pow_right₀ (by norm_num) (by omega)
  rw [clampLong, min_eq_left (by linarith), max_eq_right (by linarith)]

theorem clampLong_eq_iff {n : ℤ} : clampLong 32 n = n ↔ FitsInt n := by
  refine ⟨fun h => ?_, clampLong_fits le_rfl⟩
  unfold clampLong at h
  unfold FitsInt
  omega

theorem fitsInt_clampLong (v : ℤ) : FitsInt (clampLong 32 v) := by
  unfold clampLong FitsInt
  omega

theorem strtol_formatLd (bits : ℕ) (n : ℤ) : strtol bits (formatLd n) = clampLong bits n := by
  have htake : (natText n.natAbs).takeWhile isDigit = natText n.natAbs := by
    have h : (natText n.natAbs ++ []).takeWhile isDigit = natText n.natAbs ++ [].takeWhile isDigit :=
      List.takeWhile_append_of_pos (natText_isDigit n.natAbs)
    simpa using h
  rcases lt_or_ge n 0 with hn | hn
  · rw [strtol, formatLd, if_pos hn, signed_minus]
    simp only [htake, decVal_natText, if_true]
    congr 1
    omega
  · have hs : signed (natText n.natAbs ++ []) = (false, natText n.natAbs ++ []) :=
      signed_digits (natText_ne_nil n.natAbs) (natText_isDigit n.natAbs)
    rw [List.append_nil] at hs
    rw [strtol, formatLd, if_neg (by omega), hs]
    simp only [htake, decVal_natText, Bool.false_eq_true, if_false]
    congr 1
    omega

theorem bmod_fits {n : ℤ} (h : FitsInt n) : Int.bmod n (2 ^ 32) = n := by
  obtain ⟨hlo, hhi⟩ := h
  rw [Int.bmod_def]
  norm_num at hlo hhi ⊢
  omega

/-- What `atoi` makes of a printed `long`: with a 32-bit `long` the nearest `int`. -/
theorem atoi_formatLd_clamp (n : ℤ) : atoi 32 (some (formatLd n)) = .ok (clampLong 32 n) := by
  have hfits : FitsInt (clampLong 32 n) := by
    unfold clampLong FitsInt
    omega
  rw [atoi, strtol_formatLd, bmod_fits hfits]

theorem atoi_formatLd {bits : ℕ} (hb : 32 ≤ bits) {n : ℤ} (h : FitsInt n) :
    atoi bits (some (formatLd n)) = .ok n := by
  rw [atoi, strtol_formatLd, clampLong_fits hb h, bmod_fits h]

/-! ## Doubles: `%f` and `strtod` -/

/-- To the nearest integer, halves to the even one. -/
def roundHalfEven (q : ℚ) : ℤ :=
  let r := q - ⌊q⌋
  if r < 1 / 2 then ⌊q⌋ else if 1 / 2 < r then ⌊q⌋ + 1
  else if ⌊q⌋ % 2 = 0 then ⌊q⌋ else ⌊q⌋ + 1

/-- The magnitude of a number in units of its sixth decimal, as `%f` rounds it. -/
def micro (q : ℚ) : ℕ := (roundHalfEven (|q| * 10 ^ 6)).toNat

def formatF (q : ℚ) : List Byte :=
  (if q < 0 then [minus] else []) ++
    (natText (micro q / 10 ^ 6) ++ dot :: fixedText 6 (micro q % 10 ^ 6))

/-- The number the text of `%f` says. -/
def printedF (q : ℚ) : ℚ := if q < 0 then -(micro q / 10 ^ 6) else micro q / 10 ^ 6

def lower (b : Byte) : Byte := if 65 ≤ b && b ≤ 90 then b + 32 else b

def isHexDigit (b : Byte) : Bool := isDigit b || (97 ≤ lower b && lower b ≤ 102)

/-- The texts `strtod` reads as something else than a decimal number: `inf`, `nan` and `0x` with
a hexadecimal digit behind it. -/
def notDecimal (s : List Byte) : Bool :=
  [105, 110, 102].isPrefixOf (s.map lower) || [110, 97, 110].isPrefixOf (s.map lower) ||
    match s.map lower with
    | 48 :: 120 :: h :: t => isHexDigit h || (h == dot && (t.head?.any isHexDigit))
    | _ => false

def exponent : List Byte → ℤ
  | [] => 0
  | b :: s =>
    if lower b = 101 then
      let (neg, t) := takeSign s
      let e : ℤ := decVal (t.takeWhile isDigit)
      if neg then -e else e
    else 0

/-- The unsigned decimal number at the head of a text, `0` where there are no digits. -/
def decimal (s : List Byte) : ℚ :=
  let (ip, s) := s.span isDigit
  let (fp, s) := if s.head? = some dot then s.tail.span isDigit else ([], s)
  if ip ++ fp = [] then 0 else decVal (ip ++ fp) * 10 ^ (exponent s - fp.length)

def strtod : Option (List Byte) → Except Fault ℚ
  | none => .error .nullPointer
  | some s =>
    let (neg, t) := signed s
    if notDecimal t then .error .notDecimal
    else .ok (if neg then -decimal t else decimal t)

/-! ### Rounding -/

theorem roundHalfEven_intCast (k : ℤ) : roundHalfEven (k : ℚ) = k := by
  simp [roundHalfEven]

theorem roundHalfEven_near (q : ℚ) : |(roundHalfEven q : ℚ) - q| ≤ 1 / 2 := by
  have hlo := Int.floor_le q
  have hhi := Int.lt_floor_add_one q
  unfold roundHalfEven
  simp only
  rw [abs_le]
  split_ifs <;> push_cast <;> constructor <;> linarith

theorem roundHalfEven_nonneg {q : ℚ} (h : 0 ≤ q) : 0 ≤ roundHalfEven q := by
  have hf : 0 ≤ ⌊q⌋ := Int.floor_nonneg.mpr h
  unfold roundHalfEven
  simp only
  split_ifs <;> omega

theorem micro_near (q : ℚ) : |(micro q : ℚ) - |q| * 10 ^ 6| ≤ 1 / 2 := by
  have hnn : 0 ≤ roundHalfEven (|q| * 10 ^ 6) :=
    roundHalfEven_nonneg (mul_nonneg (abs_nonneg q) (by norm_num))
  have hcast : (micro q : ℚ) = roundHalfEven (|q| * 10 ^ 6) := by
    have h : ((micro q : ℕ) : ℤ) = roundHalfEven (|q| * 10 ^ 6) := Int.toNat_of_nonneg hnn
    exact_mod_cast h
  rw [hcast]
  exact roundHalfEven_near _

theorem printedF_near (q : ℚ) : |printedF q - q| * 10 ^ 6 ≤ 1 / 2 := by
  have h := micro_near q
  have hmul : |printedF q - q| * 10 ^ 6 = |(printedF q - q) * 10 ^ 6| := by
    rw [abs_mul, abs_of_pos (show (0 : ℚ) < 10 ^ 6 by norm_num)]
  rw [hmul]
  unfold printedF
  split_ifs with hq
  · rw [abs_of_neg hq] at h
    rw [abs_le] at h ⊢
    constructor <;> linarith [h.1, h.2]
  · rw [abs_of_nonneg (not_lt.mp hq)] at h
    rw [abs_le] at h ⊢
    constructor <;> linarith [h.1, h.2]

theorem micro_intCast (k : ℤ) : micro ((k : ℚ) / 10 ^ 6) = k.natAbs := by
  have habs : |(k : ℚ) / 10 ^ 6| * 10 ^ 6 = ((k.natAbs : ℤ) : ℚ) := by
    rw [abs_div, abs_of_pos (by norm_num : (0 : ℚ) < 10 ^ 6), div_mul_cancel₀ _ (by norm_num)]
    push_cast
    rfl
  rw [micro, habs, roundHalfEven_intCast, Int.toNat_natCast]

def IsMicro (q : ℚ) : Prop := ∃ k : ℤ, q = (k : ℚ) / 10 ^ 6

theorem printedF_intCast (k : ℤ) : printedF ((k : ℚ) / 10 ^ 6) = (k : ℚ) / 10 ^ 6 := by
  have hpos : (0 : ℚ) < 10 ^ 6 := by norm_num
  rw [printedF, micro_intCast]
  rcases lt_or_ge k 0 with hk | hk
  · have hq : (k : ℚ) / 10 ^ 6 < 0 := div_neg_of_neg_of_pos (by exact_mod_cast hk) hpos
    have hk' : ((k.natAbs : ℕ) : ℚ) = -(k : ℚ) := by
      rw [Nat.cast_natAbs, abs_of_neg hk, Int.cast_neg]
    rw [if_pos hq, hk']
    ring
  · have hq : ¬ (k : ℚ) / 10 ^ 6 < 0 := not_lt.mpr (div_nonneg (by exact_mod_cast hk) hpos.le)
    have hk' : ((k.natAbs : ℕ) : ℚ) = (k : ℚ) := by
      rw [Nat.cast_natAbs, abs_of_nonneg hk]
    rw [if_neg hq, hk']

theorem printedF_micro {q : ℚ} (h : IsMicro q) : printedF q = q := by
  obtain ⟨k, rfl⟩ := h
  exact printedF_intCast k

/-! ### The round trip -/

def unsignedF (m : ℕ) : List Byte := natText (m / 10 ^ 6) ++ dot :: fixedText 6 (m % 10 ^ 6)

theorem formatF_eq (q : ℚ) :
    formatF q = (if q < 0 then [minus] else []) ++ unsignedF (micro q) := rfl

theorem unsignedF_bytes (m : ℕ) : ∀ b ∈ unsignedF m, isDigit b = true ∨ b = dot := by
  intro b hb
  rcases List.mem_append.mp hb with hb | hb
  · exact .inl (natText_isDigit _ b hb)
  · rcases List.mem_cons.mp hb with rfl | hb
    · exact .inr rfl
    · exact .inl (fixedText_isDigit _ _ b hb)

theorem lower_of_lt {b : Byte} (h : b < 58) : lower b = b := by
  have h' : (65 ≤ b && b ≤ 90) = false := by
    rw [Bool.and_eq_false_iff]
    refine .inl (decide_eq_false ?_)
    rw [UInt8.not_le]
    exact UInt8.lt_trans h (by decide)
  rw [lower, h']
  rfl

theorem notDecimal_of_lt {s : List Byte} (h : ∀ b ∈ s, b < 58) : notDecimal s = false := by
  have hmap : s.map lower = s :=
    (List.map_congr_left fun b hb => lower_of_lt (h b hb)).trans (List.map_id s)
  rw [notDecimal, hmap]
  cases s with
  | nil => rfl
  | cons a s =>
    have ha : a < 58 := h a (List.mem_cons_self ..)
    have h1 : ((105 : Byte) == a) = false := by
      rw [beq_eq_false_iff_ne]
      rintro rfl
      exact absurd ha (by decide)
    have h2 : ((110 : Byte) == a) = false := by
      rw [beq_eq_false_iff_ne]
      rintro rfl
      exact absurd ha (by decide)
    simp only [List.isPrefixOf, h1, h2, Bool.false_and, Bool.false_or]
    split
    · next b t heq =>
      have hb : (120 : Byte) < 58 := by
        obtain ⟨-, rfl⟩ := List.cons.inj heq
        exact h 120 (by simp)
      exact absurd hb (by decide)
    · rfl

theorem decimal_unsignedF (m : ℕ) : decimal (unsignedF m) = m / 10 ^ 6 := by
  have hlen : (fixedText 6 (m % 10 ^ 6)).length = 6 := fixedText_length _ _
  have hint : (unsignedF m).span isDigit =
      (natText (m / 10 ^ 6), dot :: fixedText 6 (m % 10 ^ 6)) :=
    span_isDigit (natText_isDigit _) (by
      intro b hb
      obtain rfl : dot = b := by simpa using hb
      rfl)
  have hfrac : (fixedText 6 (m % 10 ^ 6)).span isDigit = (fixedText 6 (m % 10 ^ 6), []) := by
    have h : (fixedText 6 (m % 10 ^ 6) ++ []).span isDigit = (fixedText 6 (m % 10 ^ 6), []) :=
      span_isDigit (fixedText_isDigit 6 (m % 10 ^ 6)) (by simp)
    rwa [List.append_nil] at h
  have hval : decVal (natText (m / 10 ^ 6) ++ fixedText 6 (m % 10 ^ 6)) = m := by
    rw [decVal_append, decVal_natText, hlen, decVal_fixedText (Nat.mod_lt _ (by norm_num))]
    exact Nat.div_add_mod' m (10 ^ 6)
  have hne : natText (m / 10 ^ 6) ++ fixedText 6 (m % 10 ^ 6) ≠ [] := by
    simp [natText_ne_nil]
  simp only [decimal, hint, List.head?_cons, if_true, List.tail_cons, hfrac, if_neg hne, hval,
    exponent, hlen]
  norm_num [zpow_neg, div_eq_mul_inv]

/-- `%f` and `strtod`: a number comes back as the six-digit number it was printed as. -/
theorem strtod_formatF (q : ℚ) : strtod (some (formatF q)) = .ok (printedF q) := by
  have hlt : ∀ b ∈ unsignedF (micro q), b < 58 := by
    intro b hb
    rcases unsignedF_bytes _ b hb with hd | rfl
    · exact (isDigit_plain hd).lt
    · decide
  have hnot : notDecimal (unsignedF (micro q)) = false := notDecimal_of_lt hlt
  rw [formatF_eq, printedF]
  rcases lt_or_ge q 0 with hq | hq
  · rw [if_pos hq, if_pos hq, List.singleton_append, strtod, signed_minus]
    simp only [hnot, Bool.false_eq_true, if_false, if_true, decimal_unsignedF]
  · rw [if_neg (not_lt.mpr hq), if_neg (not_lt.mpr hq), List.nil_append, strtod,
      show signed (unsignedF (micro q)) = (false, unsignedF (micro q)) from
        signed_digits (natText_ne_nil _) (natText_isDigit _)]
    simp only [hnot, Bool.false_eq_true, if_false, decimal_unsignedF]

/-! ## How long the texts are -/

def digitCount (n : ℕ) : ℕ := Nat.log 10 n + 1

def widthLd (n : ℤ) : ℕ := (if n < 0 then 1 else 0) + digitCount n.natAbs

/-- The characters of `%f` before the decimal point. -/
def widthF (q : ℚ) : ℕ := (if q < 0 then 1 else 0) + digitCount (micro q / 10 ^ 6)

theorem natText_length (n : ℕ) : (natText n).length = digitCount n := by
  unfold natText digitCount
  split
  · next h =>
    rw [h, Nat.log_zero_right]
    rfl
  · next h =>
    rw [List.length_map, List.length_reverse, Nat.length_digits 10 n (by norm_num) h]

theorem formatLd_length (n : ℤ) : (formatLd n).length = widthLd n := by
  unfold formatLd widthLd
  split
  · rw [List.length_cons, natText_length, Nat.add_comm]
  · rw [natText_length, Nat.zero_add]

theorem formatF_length (q : ℚ) : (formatF q).length = widthF q + 7 := by
  unfold formatF widthF
  rw [List.length_append, List.length_append, List.length_cons, natText_length, fixedText_length]
  split <;> simp only [List.length_singleton, List.length_nil] <;> omega

/-! ## The sign of a zero -/

/-- A finite double: its value and its sign bit, which a zero has too. -/
structure FiniteDouble where
  value : ℚ
  negative : Bool
  negative_of_lt : value < 0 → negative = true
  positive_of_lt : 0 < value → negative = false

namespace FiniteDouble

/-- A zero is positive. -/
def ofRat (q : ℚ) : FiniteDouble where
  value := q
  negative := decide (q < 0)
  negative_of_lt := decide_eq_true
  positive_of_lt := fun h => decide_eq_false h.not_gt

def negZero : FiniteDouble := ⟨0, true, fun _ => rfl, fun h => absurd h (lt_irrefl 0)⟩

/-- `%f`. -/
def text (d : FiniteDouble) : List Byte :=
  (if d.negative then [minus] else []) ++ unsignedF (micro d.value)

/-- The characters of `%f` before the decimal point. -/
def width (d : FiniteDouble) : ℕ :=
  (if d.negative then 1 else 0) + digitCount (micro d.value / 10 ^ 6)

theorem text_ofRat (q : ℚ) : (ofRat q).text = formatF q := by
  simp only [text, ofRat, formatF_eq, decide_eq_true_eq]

theorem text_length (d : FiniteDouble) : d.text.length = d.width + 7 := by
  unfold text width unsignedF
  rw [List.length_append, List.length_append, List.length_cons, natText_length, fixedText_length]
  split <;> simp only [List.length_singleton, List.length_nil] <;> omega

end FiniteDouble

/-! ## Numbers between commas -/

theorem minus_clean : minus ≠ comma ∧ minus ≠ nul := by decide

theorem formatLd_clean (n : ℤ) : Clean comma (formatLd n) := by
  have hdig : ∀ b ∈ natText n.natAbs, b ≠ comma ∧ b ≠ nul := fun b hb =>
    (isDigit_plain (natText_isDigit _ b hb)).clean
  unfold formatLd
  split
  · refine ⟨List.cons_ne_nil _ _, fun b hb => ?_⟩
    rcases List.mem_cons.mp hb with rfl | hb
    · exact minus_clean
    · exact hdig b hb
  · exact ⟨natText_ne_nil _, hdig⟩

theorem formatF_clean (q : ℚ) : Clean comma (formatF q) := by
  rw [formatF_eq]
  refine ⟨by simp [unsignedF], fun b hb => ?_⟩
  rcases List.mem_append.mp hb with hb | hb
  · have hm : b = minus := by
      split at hb <;> simp_all
    exact hm ▸ minus_clean
  · rcases unsignedF_bytes _ b hb with hd | rfl
    · exact (isDigit_plain hd).clean
    · decide

end LidarRelay
