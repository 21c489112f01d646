import LidarRelay.Programs.LidarRecv
import LidarRelay.Programs.LidarSend
import LidarRelay.Programs.Listener

/-! # Whether the messages fit their arrays

`%f` prints every digit before the decimal point, and nothing bounds the numbers: a request or a
reply fits the 100 bytes of `sendBuf` exactly when its numbers are short enough (`fits_iff`). Every
byte counts here, so a zero has its sign, which `%f` prints, and the time stamp of listener is
computed in the 64-bit `long` of the PC, where what overflows goes round. For the numbers the other
modules speak of these are their texts (`request_eq`, `sendReply_eq`, `recvReply_eq`).
-/

namespace LidarRelay.Widths
set_option autoImplicit false
set_option maxHeartbeats 250000

/-- What is formatted fits `sendBuf` with its NUL, and so the array of the client. -/
def Fits (formatted : Except Fault (List Byte)) : Prop :=
  ∃ out, formatted = .ok out ∧ out.length ≤ maxDataSize

theorem sprintf_fits (text : List Byte) : Fits (sprintf sendBufSize text) ↔ text.length < 100 := by
  constructor
  · rintro ⟨out, hout, -⟩
    exact (sprintf_eq_ok hout).1
  · intro h
    refine ⟨_, sprintf_ok h, ?_⟩
    rw [List.length_append, List.length_singleton]
    exact h

/-! ## The two formats -/

def angleBytes (angle : FiniteDouble) (sec usec : ℤ) : List Byte :=
  angle.text ++ comma :: (formatLd sec ++ comma :: formatLd usec)

def poseBytes (x y theta vel : FiniteDouble) (sec usec : ℤ) : List Byte :=
  x.text ++ comma :: (y.text ++ comma :: (theta.text ++ comma ::
    (vel.text ++ comma :: (formatLd sec ++ comma :: formatLd usec))))

theorem angleBytes_ofRat (angle : ℚ) (sec usec : ℤ) :
    angleBytes (.ofRat angle) sec usec = angleText angle sec usec := by
  rw [angleBytes, FiniteDouble.text_ofRat, angleText]

theorem poseBytes_ofRat (x y theta vel : ℚ) (sec usec : ℤ) :
    poseBytes (.ofRat x) (.ofRat y) (.ofRat theta) (.ofRat vel) sec usec =
      poseText x y theta vel sec usec := by
  simp only [poseBytes, FiniteDouble.text_ofRat, poseText]

theorem angleBytes_fits (angle : FiniteDouble) (sec usec : ℤ) :
    Fits (sprintf sendBufSize (angleBytes angle sec usec)) ↔
      angle.width + widthLd sec + widthLd usec ≤ 90 := by
  rw [sprintf_fits]
  simp only [angleBytes, List.length_append, List.length_cons, FiniteDouble.text_length,
    formatLd_length]
  omega

theorem poseBytes_fits (x y theta vel : FiniteDouble) (sec usec : ℤ) :
    Fits (sprintf sendBufSize (poseBytes x y theta vel sec usec)) ↔
      x.width + y.width + theta.width + vel.width + widthLd sec + widthLd usec ≤ 66 := by
  rw [sprintf_fits]
  simp only [poseBytes, List.length_append, List.length_cons, FiniteDouble.text_length,
    formatLd_length]
  omega

theorem angleText_length (angle : ℚ) (sec usec : ℤ) :
    (angleText angle sec usec).length = widthF angle + widthLd sec + widthLd usec + 9 := by
  simp only [angleText, List.length_append, List.length_cons, formatF_length, formatLd_length]
  omega

/-! ## listener -/

/-- A `lidar_grad` with its doubles and its `int64`s. -/
structure Grad where
  x : FiniteDouble
  y : FiniteDouble
  theta : FiniteDouble
  vel : FiniteDouble
  timeSec : Int64
  timeUsec : Int64

/-- The global variables of listener. -/
structure Globals where
  x : FiniteDouble
  y : FiniteDouble
  theta : FiniteDouble
  vel : FiniteDouble
  lidarTimeSec : Int64
  lidarTimeUsec : Int64

def gpsCallback (msg : Grad) : Globals where
  x := msg.x
  y := msg.x
  theta := msg.theta
  vel := msg.vel
  lidarTimeSec := msg.timeSec
  lidarTimeUsec := msg.timeUsec

def clientTimeSend (g : Globals) (dtime : Int64) : Int64 :=
  g.lidarTimeSec * 1000000 + g.lidarTimeUsec + dtime

def clientSec (t : Int64) : Int64 := t / 1000000

def clientUsec (t : Int64) : Int64 := t - 1000000 * (t / 1000000)

def formatRequest (g : Globals) (dtime : Int64) : Except Fault (List Byte) :=
  let t := clientTimeSend g dtime
  sprintf sendBufSize (poseBytes g.x g.y g.theta g.vel (clientSec t).toInt (clientUsec t).toInt)

/-- What is formatted when the message has arrived. -/
def request (msg : Grad) (dtime : Int64) : Except Fault (List Byte) :=
  formatRequest (gpsCallback msg) dtime

def stamp (msg : Grad) (dtime : Int64) : Int64 := clientTimeSend (gpsCallback msg) dtime

theorem request_fits (msg : Grad) (dtime : Int64) :
    Fits (request msg dtime) ↔
      2 * msg.x.width + msg.theta.width + msg.vel.width +
        widthLd (clientSec (stamp msg dtime)).toInt +
        widthLd (clientUsec (stamp msg dtime)).toInt ≤ 66 := by
  rw [request, formatRequest, poseBytes_fits, two_mul]
  rfl

/-! ## lidar_send and lidar_recv -/

/-- The doubles of a BSM that the two callbacks take. -/
structure Bsm where
  angle : FiniteDouble
  latitude : FiniteDouble
  longitude : FiniteDouble
  heading : FiniteDouble
  speed : FiniteDouble

/-- The reply of lidar_send that has just heard a BSM, with the time that goes with it. -/
def sendReply (bsm : Bsm) (sec usec : ℤ) : Except Fault (List Byte) :=
  sprintf sendBufSize (angleBytes bsm.angle sec usec)

def recvReply (bsm : Bsm) (sec usec : ℤ) : Except Fault (List Byte) :=
  sprintf sendBufSize (poseBytes bsm.latitude bsm.longitude bsm.heading bsm.speed sec usec)

/-! ## The same numbers without negative zeros -/

def gradOf (msg : LidarGrad) : Grad where
  x := .ofRat msg.x
  y := .ofRat msg.y
  theta := .ofRat msg.theta
  vel := .ofRat msg.vel
  timeSec := .ofInt msg.timeSec
  timeUsec := .ofInt msg.timeUsec

def bsmOf (bsm : V2xMsgBsm) : Bsm where
  angle := .ofRat bsm.angle
  latitude := .ofRat bsm.latitude
  longitude := .ofRat bsm.longitude
  heading := .ofRat bsm.heading
  speed := .ofRat bsm.speed

/-- A `long` of 64 bits. -/
def FitsLong (n : ℤ) : Prop := -2 ^ 63 ≤ n ∧ n < 2 ^ 63

theorem clientSec_ofInt {t : ℤ} (h : FitsLong t) : (clientSec (.ofInt t)).toInt = splitSec t := by
  have ht : (Int64.ofInt t).toInt = t := Int64.toInt_ofInt_of_le h.1 h.2
  rw [clientSec, Int64.toInt_div_of_ne_right _ _ (by decide), ht]
  rfl

theorem clientUsec_ofInt {t : ℤ} (h : FitsLong t) : (clientUsec (.ofInt t)).toInt = splitUsec t := by
  have ht : (Int64.ofInt t).toInt = t := Int64.toInt_ofInt_of_le h.1 h.2
  have hsec := clientSec_ofInt h
  have hfits := fitsInt_splitUsec t
  have hsmall : (splitUsec t).bmod (2 ^ 64) = splitUsec t := by
    unfold FitsInt at hfits
    rw [Int.bmod_def]
    norm_num at hfits ⊢
    omega
  rw [clientSec] at hsec
  rw [clientUsec, Int64.toInt_sub, Int64.toInt_mul, hsec, ht, Int.sub_bmod_bmod]
  exact hsmall

theorem stamp_gradOf (msg : LidarGrad) (s : Listener.State) :
    stamp (gradOf msg) (.ofInt s.times.dtime) =
      .ofInt (Listener.stampTime (Listener.gpsCallback msg s)) := by
  rw [Listener.stampTime, Int64.ofInt_add, Int64.ofInt_add, Int64.ofInt_mul]
  rfl

theorem request_eq {msg : LidarGrad} {s : Listener.State}
    (h : FitsLong (Listener.stampTime (Listener.gpsCallback msg s))) :
    request (gradOf msg) (.ofInt s.times.dtime) =
      (Listener.encodeRequest (Listener.gpsCallback msg s)).2 := by
  have hstamp := stamp_gradOf msg s
  rw [stamp] at hstamp
  simp only [request, formatRequest, hstamp, clientSec_ofInt h, clientUsec_ofInt h]
  exact congrArg (sprintf sendBufSize) (poseBytes_ofRat msg.x msg.x msg.theta msg.vel _ _)

theorem sendReply_eq (bsm : V2xMsgBsm) (g : LidarRelay.Globals) (sec usec : ℤ) :
    sendReply (bsmOf bsm) sec usec = sprintf sendBufSize
      (LidarSend.replyText (LidarSend.v2xBsmRecvHandle bsm g) sec usec) := by
  rw [sendReply, bsmOf, angleBytes_ofRat]
  rfl

theorem recvReply_eq (bsm : V2xMsgBsm) (g : LidarRelay.Globals) (sec usec : ℤ) :
    recvReply (bsmOf bsm) sec usec = sprintf sendBufSize
      (LidarRecv.replyText (LidarRecv.v2xBsmRecvHandle bsm g) sec usec) := by
  rw [recvReply, bsmOf, poseBytes_ofRat]
  rfl

/-! ## What fits -/

/-- **A request or a reply fits exactly when its numbers are short enough**, counted in the digits
before the decimal points, the digits of the times and the minus signs. -/
theorem fits_iff (msg : Grad) (dtime : Int64) (bsm : Bsm) (sec usec : ℤ) :
    (Fits (request msg dtime) ↔
        2 * msg.x.width + msg.theta.width + msg.vel.width +
          widthLd (clientSec (stamp msg dtime)).toInt +
          widthLd (clientUsec (stamp msg dtime)).toInt ≤ 66) ∧
      (Fits (sendReply bsm sec usec) ↔ bsm.angle.width + widthLd sec + widthLd usec ≤ 90) ∧
      (Fits (recvReply bsm sec usec) ↔
        bsm.latitude.width + bsm.longitude.width + bsm.heading.width + bsm.speed.width +
          widthLd sec + widthLd usec ≤ 66) :=
  ⟨request_fits msg dtime, angleBytes_fits bsm.angle sec usec,
    poseBytes_fits bsm.latitude bsm.longitude bsm.heading bsm.speed sec usec⟩

/-- The sign of a zero is the character too many here. -/
example : ¬ Fits (recvReply ⟨.ofRat 0, .ofRat (2 ^ 200), .negZero, .ofRat 1, .ofRat 1⟩ 1 0) ∧
    Fits (recvReply ⟨.ofRat 0, .ofRat (2 ^ 200), .ofRat 0, .ofRat 1, .ofRat 1⟩ 1 0) :=
  ⟨fun h => absurd ((sprintf_fits _).mp h) (by decide +kernel),
    (sprintf_fits _).mpr (by decide +kernel)⟩

/-- A target at 2^200, which is a finite double of 61 digits. -/
def farTarget : Grad := ⟨.ofRat (2 ^ 200), .ofRat 0, .ofRat 0, .ofRat 0, 0, 0⟩

theorem request_overruns :
    request farTarget 0 = .error .overrun ∧ ¬ Fits (request farTarget 0) := by
  have hlong : ¬ (poseBytes farTarget.x farTarget.x farTarget.theta farTarget.vel
      (clientSec (stamp farTarget 0)).toInt (clientUsec (stamp farTarget 0)).toInt).length < 100 := by
    decide +kernel
  refine ⟨sprintf_error hlong, ?_⟩
  rintro ⟨out, hout, -⟩
  rw [show request farTarget 0 = .error .overrun from sprintf_error hlong] at hout
  cases hout

end LidarRelay.Widths
