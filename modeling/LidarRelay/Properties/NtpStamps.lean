import LidarRelay.Programs.NtpClient

/-! # The arithmetic of the NTP time stamps

A time stamp counts 2³² parts of a second in two words. The shift-and-add conversions of
`ntpclient.c` lose a few of these parts on the way in and up to 381 microseconds on the way out; what
is measured with one exchange is off by half the difference between the two directions, the error of
the server and little more.
-/

namespace LidarRelay.NtpClient
open LidarRelay
set_option autoImplicit false
set_option maxHeartbeats 250000

/-! ## Microseconds to parts and back -/

theorem ntpfrac_toNat {x : ℕ} (hx : x < 1000000) : (ntpfrac x).toNat = 4294 * x + 1981 * x / 2048 := by
  have hshift : (1981 * x) >>> 11 = 1981 * x / 2048 := Nat.shiftRight_eq_div_pow _ 11
  rw [ntpfrac, hshift]
  exact UInt32.toNat_ofNat_of_lt' (by change _ < 4294967296; omega)

/-- `NTPFRAC` is short by less than twelve parts. -/
theorem ntpfrac_near {x : ℕ} (hx : x < 1000000) :
    (ntpfrac x).toNat * 1000000 ≤ x * 4294967296 ∧
      x * 4294967296 < ((ntpfrac x).toNat + 12) * 1000000 := by
  rw [ntpfrac_toNat hx]
  omega

theorem usec_toNat (x : UInt32) :
    (usec x).toNat + 759 * ((x.toNat / 1024 + 32768) / 65536) = x.toNat / 4096 := by
  have hx := x.toNat_lt
  have h12 : (x >>> (12 : UInt32)).toNat = x.toNat / 4096 := by
    rw [UInt32.toNat_shiftRight]
    exact Nat.shiftRight_eq_div_pow _ 12
  have h10 : (x >>> (10 : UInt32)).toNat = x.toNat / 1024 := by
    rw [UInt32.toNat_shiftRight]
    exact Nat.shiftRight_eq_div_pow _ 10
  have hadd : ((x >>> (10 : UInt32)) + 32768).toNat = x.toNat / 1024 + 32768 := by
    rw [UInt32.toNat_add, h10]
    exact Nat.mod_eq_of_lt (by change _ + 32768 < _; omega)
  have h16 : (((x >>> (10 : UInt32)) + 32768) >>> (16 : UInt32)).toNat =
      (x.toNat / 1024 + 32768) / 65536 := by
    rw [UInt32.toNat_shiftRight, hadd]
    exact Nat.shiftRight_eq_div_pow _ 16
  have hmul : (759 * (((x >>> (10 : UInt32)) + 32768) >>> (16 : UInt32))).toNat =
      759 * ((x.toNat / 1024 + 32768) / 65536) := by
    rw [UInt32.toNat_mul, h16]
    exact Nat.mod_eq_of_lt (by change 759 * _ < _; omega)
  rw [usec, UInt32.toNat_sub, h12, hmul]
  omega

/-- `USEC` is a number of microseconds, and off by at most 381 of them. -/
theorem usec_near (x : UInt32) :
    (usec x).toNat < 1000000 ∧ |((usec x).toNat : ℤ) * 4294967296 - x.toNat * 1000000| ≤ 381 * 4294967296 := by
  have hx := x.toNat_lt
  have h := usec_toNat x
  refine ⟨by omega, abs_le.mpr ⟨by omega, by omega⟩⟩

/-! ## Words and bytes -/

theorem byte_join (x : UInt32) :
    (x >>> 24).toUInt8.toUInt32 * (16777216 : UInt32) +
      (x >>> 16).toUInt8.toUInt32 * (65536 : UInt32) +
      (x >>> 8).toUInt8.toUInt32 * (256 : UInt32) + x.toUInt8.toUInt32 = x := by
  have hx := x.toNat_lt
  apply UInt32.toNat_inj.mp
  simp only [UInt32.toNat_add, UInt32.toNat_mul, UInt8.toNat_toUInt32, UInt32.toNat_toUInt8,
    UInt32.toNat_shiftRight, UInt32.toNat_ofNat, Nat.shiftRight_eq_div_pow, Nat.reduceMod,
    Nat.reducePow] at *
  omega

theorem htonl_length (x : UInt32) : (htonl x).length = 4 := rfl

theorem flatMap_htonl_getD (words : List UInt32) (tail : List Byte) (i k : ℕ) (hi : i < words.length)
    (hk : k < 4) : ((words.flatMap htonl) ++ tail).getD (4 * i + k) 0 =
      (htonl (words.getD i 0)).getD k 0 := by
  induction words generalizing i with
  | nil => exact absurd hi (Nat.not_lt_zero i)
  | cons w words ih =>
    rw [List.flatMap_cons, List.append_assoc]
    cases i with
    | zero =>
      rw [Nat.mul_zero, Nat.zero_add, List.getD_cons_zero, List.getD_eq_getElem?_getD,
        List.getElem?_append_left (by rw [htonl_length]; exact hk), ← List.getD_eq_getElem?_getD]
    | succ i =>
      have hidx : 4 * (i + 1) + k - 4 = 4 * i + k := by omega
      rw [List.getD_cons_succ, ← ih i (Nat.lt_of_succ_lt_succ hi), List.getD_eq_getElem?_getD,
        List.getElem?_append_right (by rw [htonl_length]; omega), htonl_length, hidx,
        ← List.getD_eq_getElem?_getD]

/-- The words of a packet are read as they were written. -/
theorem ntohl_htonl (words : List UInt32) (tail : List Byte) {i : ℕ} (hi : i < words.length) :
    ntohl (words.flatMap htonl ++ tail) i = words.getD i 0 := by
  have hbyte : ∀ k, k < 4 → (words.flatMap htonl ++ tail).getD (4 * i + k) 0 =
      (htonl (words.getD i 0)).getD k 0 := fun k hk => flatMap_htonl_getD words tail i k hi hk
  simp only [ntohl, hbyte 0 (by omega), hbyte 1 (by omega), hbyte 2 (by omega), hbyte 3 (by omega)]
  exact byte_join _

/-! ## Differences -/

/-- The part of a second that `fine` counts, in microseconds. -/
def part : ℚ := 1000000 / 4294967296

/-- A time in parts of a second since 1900; the words go round after 2³² seconds. -/
def NtpTime.ofParts (u : ℤ) : NtpTime := ⟨UInt32.ofInt (u / 4294967296), UInt32.ofInt u⟩

theorem ofInt_toNat (i : ℤ) : ((UInt32.ofInt i).toNat : ℤ) = i % 4294967296 := by
  have hnonneg : 0 ≤ i % 2 ^ 32 := Int.emod_nonneg _ (by norm_num)
  have hlt : i % 2 ^ 32 < 2 ^ 32 := Int.emod_lt_of_pos _ (by norm_num)
  have hround : (i % 2 ^ 32).toNat < UInt32.size := by
    change _ < 4294967296
    omega
  rw [UInt32.ofInt, UInt32.toNat_ofNat_of_lt' hround, Int.toNat_of_nonneg hnonneg]
  norm_num

theorem signed_eq (x : UInt32) :
    signed x = if x.toNat < 2147483648 then (x.toNat : ℤ) else x.toNat - 4294967296 := by
  rw [signed, BitVec.toInt_eq_toNat_cond]
  simp only [UInt32.toNat_toBitVec]
  split_ifs <;> omega

theorem signed_sub {i j : ℤ} (h : -2147483648 ≤ j - i) (h' : j - i < 2147483648) :
    signed (UInt32.ofInt j - UInt32.ofInt i) = j - i := by
  have hi := ofInt_toNat i
  have hj := ofInt_toNat j
  rw [signed_eq, UInt32.toNat_sub]
  have hlt := (UInt32.ofInt i).toNat_lt
  split_ifs <;> omega

/-- **`ntpdiff` is exact but for one part**, which is lost where the seconds are borrowed from, and
the round of the seconds does no harm. -/
theorem ntpdiff_near {u v : ℤ} (h : |v - u| ≤ 2 ^ 62) :
    (v - u - 1) * part ≤ ntpdiff (.ofParts u) (.ofParts v) ∧
      ntpdiff (.ofParts u) (.ofParts v) ≤ (v - u) * part := by
  have hu := Int.ediv_mul_add_emod u 4294967296
  have hv := Int.ediv_mul_add_emod v 4294967296
  have hfu := ofInt_toNat u
  have hfv := ofInt_toNat v
  obtain ⟨hlo, hhi⟩ := abs_le.mp h
  have hcoarse : signed ((NtpTime.ofParts v).coarse - (NtpTime.ofParts u).coarse) =
      v / 4294967296 - u / 4294967296 := signed_sub (by omega) (by omega)
  have hpart : 0 < part := by norm_num [part]
  have hsec : (4294967296 : ℚ) * part = 1000000 := by norm_num [part]
  unfold ntpdiff
  dsimp only
  rw [hcoarse]
  split
  · next hge =>
    have hle : (UInt32.ofInt u).toNat ≤ (UInt32.ofInt v).toNat := UInt32.le_iff_toNat_le.mp hge
    have hsub : ((NtpTime.ofParts v).fine - (NtpTime.ofParts u).fine).toNat =
        (UInt32.ofInt v).toNat - (UInt32.ofInt u).toNat := UInt32.toNat_sub_of_le _ _ hge
    have hdiff : (v / 4294967296 - u / 4294967296) * 4294967296 +
        ((UInt32.ofInt v).toNat - (UInt32.ofInt u).toNat : ℕ) = v - u := by omega
    have hcast : ((v / 4294967296 - u / 4294967296 : ℤ) : ℚ) * 4294967296 +
        ((UInt32.ofInt v).toNat - (UInt32.ofInt u).toNat : ℕ) = v - u := by exact_mod_cast hdiff
    have heq : ((v / 4294967296 - u / 4294967296 : ℤ) : ℚ) * 1000000 +
        ((UInt32.ofInt v).toNat - (UInt32.ofInt u).toNat : ℕ) * part = (v - u) * part := by
      rw [← hcast, ← hsec]
      ring
    rw [hsub, ← part, heq]
    exact ⟨by linarith, le_rfl⟩
  · next hlt =>
    have hlt' : (UInt32.ofInt v).toNat < (UInt32.ofInt u).toNat :=
      UInt32.lt_iff_toNat_lt.mp (UInt32.not_le.mp hlt)
    have hle : (NtpTime.ofParts v).fine ≤ (NtpTime.ofParts u).fine :=
      UInt32.le_iff_toNat_le.mpr hlt'.le
    have hsub : ((NtpTime.ofParts u).fine - (NtpTime.ofParts v).fine).toNat =
        (UInt32.ofInt u).toNat - (UInt32.ofInt v).toNat := UInt32.toNat_sub_of_le _ _ hle
    have hnot : (~~~((NtpTime.ofParts u).fine - (NtpTime.ofParts v).fine)).toNat =
        4294967296 - 1 - ((UInt32.ofInt u).toNat - (UInt32.ofInt v).toNat) := by
      rw [UInt32.toNat_not, hsub]
    have hur := (UInt32.ofInt u).toNat_lt
    have hdiff : (v / 4294967296 - u / 4294967296 - 1) * 4294967296 +
        (4294967296 - 1 - ((UInt32.ofInt u).toNat - (UInt32.ofInt v).toNat) : ℕ) = v - u - 1 := by
      omega
    have hcast : ((v / 4294967296 - u / 4294967296 - 1 : ℤ) : ℚ) * 4294967296 +
        (4294967296 - 1 - ((UInt32.ofInt u).toNat - (UInt32.ofInt v).toNat) : ℕ) = v - u - 1 := by
      exact_mod_cast hdiff
    have heq : ((v / 4294967296 - u / 4294967296 - 1 : ℤ) : ℚ) * 1000000 +
        (4294967296 - 1 - ((UInt32.ofInt u).toNat - (UInt32.ofInt v).toNat) : ℕ) * part =
          (v - u - 1) * part := by
      rw [← hcast, ← hsec]
      ring
    rw [hnot, ← part, heq]
    exact ⟨le_rfl, by linarith⟩

/-! ## One exchange -/

/-- The seconds from 1900 to 1970. -/
def epoch : ℤ := 2208988800

/-- The stamp of a clock reading, in parts. -/
def stampParts (now : Timeval) : ℤ := (now.sec + epoch) * 4294967296 + (ntpfrac now.usec.toNat).toNat

theorem ntpcGettime_eq (now : Timeval) : ntpcGettime now = .ofParts (stampParts now) := by
  have hlt := (ntpfrac now.usec.toNat).toNat_lt
  have hjan : jan1970 = UInt32.ofInt epoch := by decide
  have hcoarse : stampParts now / 4294967296 = now.sec + epoch := by
    unfold stampParts
    omega
  have hfine : UInt32.ofInt (stampParts now) = ntpfrac now.usec.toNat := by
    apply UInt32.toNat_inj.mp
    have hval := ofInt_toNat (stampParts now)
    unfold stampParts at hval ⊢
    omega
  rw [ntpcGettime, NtpTime.ofParts, hcoarse, hfine, UInt32.ofInt_add, hjan]

theorem stampParts_near (now : Timeval) :
    stampParts now * part ≤ now.micros + epoch * 1000000 ∧
      now.micros + epoch * 1000000 < (stampParts now + 12) * part := by
  have hnonneg := now.usec_nonneg
  have hlt := now.usec_lt
  obtain ⟨hlo, hhi⟩ := ntpfrac_near (show now.usec.toNat < 1000000 by omega)
  have hlo' : stampParts now * 1000000 ≤ (now.micros + epoch * 1000000) * 4294967296 := by
    unfold stampParts Timeval.micros
    omega
  have hhi' : (now.micros + epoch * 1000000) * 4294967296 < (stampParts now + 12) * 1000000 := by
    unfold stampParts Timeval.micros
    omega
  have hloq : (stampParts now : ℚ) * 1000000 ≤ (now.micros + epoch * 1000000) * 4294967296 := by
    exact_mod_cast hlo'
  have hhiq : ((now.micros : ℚ) + epoch * 1000000) * 4294967296 < (stampParts now + 12) * 1000000 := by
    exact_mod_cast hhi'
  unfold part
  constructor
  · linarith
  · linarith

theorem parts_le {u v : ℤ} (h : |((v : ℚ) - u) * part| ≤ 2 ^ 30 * 1000000) : |v - u| ≤ 2 ^ 62 := by
  have hpart : 0 < part := by norm_num [part]
  have hmax : (2 : ℚ) ^ 30 * 1000000 = 2 ^ 62 * part := by norm_num [part]
  rw [abs_mul, abs_of_pos hpart, hmax] at h
  have hle := le_of_mul_le_mul_right h hpart
  exact_mod_cast hle

/-- One probe and its answer, in microseconds of the true time since 1970. -/
structure Exchange where
  sent : ℚ
  served : ℚ
  answered : ℚ
  arrived : ℚ
  sent_le : sent ≤ served
  served_le : served ≤ answered
  answered_le : answered ≤ arrived

/-- The clock stands at `t` when it is read. -/
def Reads (now : Timeval) (t : ℚ) : Prop := now.micros ≤ t ∧ t < now.micros + 1

/-- The server stamps `t`, and is off by at most `err`. -/
def Stamps (u : ℤ) (t err : ℚ) : Prop := |u * part - (t + epoch * 1000000)| ≤ err

/-- All that is known of the four stamps of an exchange; the clock is `offset` ahead. -/
structure Stamped (x : Exchange) (offset err : ℚ) (r : Reply) (arrival : NtpTime) : Prop where
  stamps : ∃ now now' rec xmt, Reads now (x.sent + offset) ∧ Reads now' (x.arrived + offset) ∧
    Stamps rec x.served err ∧ Stamps xmt x.answered err ∧ r.orgtime = (sendPacket now).1 ∧
    r.rectime = .ofParts rec ∧ r.xmttime = .ofParts xmt ∧ arrival = ntpcGettime now'
  offset_le : |offset| ≤ 10 ^ 15
  err_le : err ≤ 10 ^ 12
  time_le : x.arrived - x.sent ≤ 10 ^ 12

/-- **The measured skew** is off by half the difference between the two directions, the error of the
server and no more than another microsecond and a half; the elapsed time is not much too short. -/
theorem measure_near {x : Exchange} {offset err : ℚ} {r : Reply} {arrival : NtpTime}
    (h : Stamped x offset err r arrival) :
    |(measure r arrival).skew + offset| ≤
      |(x.served - x.sent) - (x.arrived - x.answered)| / 2 + err + 3 / 2 ∧
    x.arrived - x.sent - 3 / 2 ≤ (measure r arrival).elTime := by
  obtain ⟨now, now', rec, xmt, hsent, harrived, hrec, hxmt, horg, hrt, hxt, rfl⟩ := h.stamps
  have hprobe : (sendPacket now).1 = .ofParts (stampParts now) := ntpcGettime_eq now
  obtain ⟨h1, h2⟩ := stampParts_near now
  obtain ⟨h3, h4⟩ := stampParts_near now'
  obtain ⟨h5, h6⟩ := hsent
  obtain ⟨h7, h8⟩ := harrived
  obtain ⟨h9, h10⟩ := abs_le.mp hrec
  obtain ⟨h11, h12⟩ := abs_le.mp hxmt
  obtain ⟨hoff, hoff'⟩ := abs_le.mp h.offset_le
  have herr := h.err_le
  have htime := h.time_le
  have hs1 := x.sent_le
  have hs2 := x.served_le
  have hs3 := x.answered_le
  have hpart : part ≤ 1 / 4000 := by norm_num [part]
  have hpart0 : 0 < part := by norm_num [part]
  have hel := ntpdiff_near (u := stampParts now) (v := stampParts now')
    (parts_le (abs_le.mpr ⟨by linarith, by linarith⟩))
  have hthere := ntpdiff_near (u := stampParts now) (v := rec)
    (parts_le (abs_le.mpr ⟨by linarith, by linarith⟩))
  have hback := ntpdiff_near (u := xmt) (v := stampParts now')
    (parts_le (abs_le.mpr ⟨by linarith, by linarith⟩))
  rw [← hprobe, ← horg, ← hrt] at hthere
  rw [← hxt, ← ntpcGettime_eq] at hback
  rw [← hprobe, ← horg, ← ntpcGettime_eq] at hel
  obtain ⟨h13, h14⟩ := hthere
  obtain ⟨h15, h16⟩ := hback
  simp only [measure]
  constructor
  · rw [abs_le]
    have hd := le_abs_self ((x.served - x.sent) - (x.arrived - x.answered))
    have hd' := neg_abs_le ((x.served - x.sent) - (x.arrived - x.answered))
    constructor
    · linarith
    · linarith
  · linarith [hel.1]

/-- **An answer is a sound measurement for the phase lock**: with `-q` not above what the two
directions take, the measured skew is off by no more than what `contemplate_data` makes of its error
bar. -/
theorem measure_sound {x : Exchange} {offset err minDelay : ℚ} {r : Reply} {arrival : NtpTime}
    (h : Stamped x offset err r arrival) (herr : err ≤ sec2u r.disp)
    (hthere : minDelay / 2 + 3 ≤ x.served - x.sent) (hback : minDelay / 2 + 3 ≤ x.arrived - x.answered) :
    |(measure r arrival).skew + offset| ≤
      (measure r arrival).elTime + sec2u r.disp - minDelay := by
  obtain ⟨hskew, hel⟩ := measure_near h
  have hs := x.served_le
  have hdiff : |(x.served - x.sent) - (x.arrived - x.answered)| ≤
      (x.served - x.sent) + (x.arrived - x.answered) - minDelay - 6 := by
    rw [abs_le]
    constructor
    · linarith
    · linarith
  linarith

/-! ## The origin -/

/-- The words of a probe. -/
def probeWords (now : Timeval) : List UInt32 :=
  [probeHead, 65536, 65536, 0, 0, 0, 0, 0, 0, 0, (sendPacket now).1.coarse, (sendPacket now).1.fine]

theorem probe_word (now : Timeval) {i : ℕ} (hi : i < 12) :
    ntohl (sendPacket now).2 i = (probeWords now).getD i 0 := by
  have h := ntohl_htonl (probeWords now) [] hi
  rwa [List.append_nil] at h

/-- **A server that copies the two words of the transmit time of a probe answers it**: read out of
the answer as words of the network, they are the time that was sent. -/
theorem origin_echoed (now : Timeval) {words : List UInt32} (tail : List Byte)
    (hlen : 12 ≤ words.length) (hcoarse : words.getD 6 0 = ntohl (sendPacket now).2 10)
    (hfine : words.getD 7 0 = ntohl (sendPacket now).2 11) :
    (readReply (words.flatMap htonl ++ tail)).orgtime = (sendPacket now).1 := by
  have h6 : ntohl (words.flatMap htonl ++ tail) 6 = (sendPacket now).1.coarse := by
    rw [ntohl_htonl words tail (by omega), hcoarse, probe_word now (by decide)]
    rfl
  have h7 : ntohl (words.flatMap htonl ++ tail) 7 = (sendPacket now).1.fine := by
    rw [ntohl_htonl words tail (by omega), hfine, probe_word now (by decide)]
    rfl
  simp only [readReply, h6, h7]

theorem origin_echoed_now :
    (readReply ([0x1c010000, 0, 0, 0, 0, 0, 3770988800, ntpfrac 250000, 1, 2, 3, 4].flatMap htonl ++
      [7, 7])).orgtime = (sendPacket (.ofMicros 1562000000250000)).1 :=
  origin_echoed _ _ (by decide) (by decide +kernel) (by decide +kernel)

/-! ## The clock that is set -/

/-- What the clock reads after `set_time`, in microseconds since 1970. -/
def setMicros (new : NtpTime) : ℤ := (setTime new).1 * 1000000 + (setTime new).2

theorem setMicros_near {u : ℤ} (hlo : epoch * 4294967296 ≤ u)
    (hhi : u < (epoch + 4294967296) * 4294967296) :
    |(setMicros (.ofParts u) : ℚ) - (u * part - epoch * 1000000)| ≤ 381 := by
  have hcoarse : ((NtpTime.ofParts u).coarse - jan1970).toNat = (u / 4294967296 - epoch).toNat := by
    have hval := ofInt_toNat (u / 4294967296)
    have hjan : jan1970.toNat = 2208988800 := by decide
    have hlt := (UInt32.ofInt (u / 4294967296)).toNat_lt
    rw [UInt32.toNat_sub, hjan]
    simp only [NtpTime.ofParts, epoch] at hlo hhi ⊢
    omega
  have hsec : ((setTime (.ofParts u)).1 : ℤ) = u / 4294967296 - epoch := by
    have hnonneg : 0 ≤ u / 4294967296 - epoch := by omega
    rw [setTime, hcoarse, Int.toNat_of_nonneg hnonneg]
  have hfine := ofInt_toNat u
  obtain ⟨-, husec⟩ := usec_near (UInt32.ofInt u)
  rw [hfine] at husec
  have hdiff : |setMicros (.ofParts u) * 4294967296 - (u * 1000000 - epoch * 1000000 * 4294967296)| ≤
      381 * 4294967296 := by
    have hval : setMicros (.ofParts u) * 4294967296 - (u * 1000000 - epoch * 1000000 * 4294967296) =
        ((usec (UInt32.ofInt u)).toNat : ℤ) * 4294967296 - u % 4294967296 * 1000000 := by
      have husec' : ((setTime (.ofParts u)).2 : ℤ) = (usec (UInt32.ofInt u)).toNat := rfl
      have hsplit := Int.ediv_mul_add_emod u 4294967296
      rw [setMicros, hsec, husec']
      linear_combination 1000000 * hsplit
    rw [hval]
    exact husec
  have hq : |(setMicros (.ofParts u) : ℚ) * 4294967296 -
      (u * 1000000 - epoch * 1000000 * 4294967296)| ≤ 381 * 4294967296 := by exact_mod_cast hdiff
  rw [abs_le] at hq ⊢
  unfold part
  constructor
  · linarith [hq.1]
  · linarith [hq.2]

/-- A clock that `ntpclient -s` has set: it stands `ahead`, and the answer took at most `delay` from
a server that is off by at most `err`. Between 1970 and 2106. -/
structure ClockSet (ahead : ℤ) (delay err : ℚ) : Prop where
  set : ∃ u answered t, Stamps u answered err ∧ 0 ≤ answered ∧ answered + err < 4294967296 * 1000000 ∧
    err ≤ answered ∧ answered ≤ t ∧ t ≤ answered + delay ∧ (ahead : ℚ) = setMicros (.ofParts u) - t

/-- **The clock is as good as the way of the answer**, and 381 microseconds. -/
theorem clockSet_near {ahead : ℤ} {delay err : ℚ} (h : ClockSet ahead delay err) :
    |(ahead : ℚ)| ≤ delay + err + 381 := by
  obtain ⟨u, answered, t, hstamp, h0, hera, herr, hle, hlate, hahead⟩ := h.set
  obtain ⟨hs1, hs2⟩ := abs_le.mp hstamp
  have hpart : 0 < part := by norm_num [part]
  have hsec : (4294967296 : ℚ) * part = 1000000 := by norm_num [part]
  have hlo : epoch * 4294967296 ≤ u := by
    have hq : (epoch : ℚ) * 4294967296 * part ≤ u * part := by
      rw [mul_assoc, hsec]
      linarith
    have hle := le_of_mul_le_mul_right hq hpart
    exact_mod_cast hle
  have hhi : u < (epoch + 4294967296) * 4294967296 := by
    have hq : (u : ℚ) * part < (epoch + 4294967296) * 4294967296 * part := by
      rw [mul_assoc, hsec]
      linarith
    have hlt := lt_of_mul_lt_mul_right hq hpart.le
    exact_mod_cast hlt
  obtain ⟨hn1, hn2⟩ := abs_le.mp (setMicros_near hlo hhi)
  rw [hahead, abs_le]
  constructor
  · linarith
  · linarith

end LidarRelay.NtpClient
