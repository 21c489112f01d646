import LidarRelay.Foundations.BinaryGrid
import LidarRelay.Foundations.CString
import LidarRelay.Programs.Clock
import LidarRelay.Programs.PhaseLock

/-! # `ntpclient.c`: the clock and the time server

The devices set their clocks with `ntpclient`. It sends a probe whenever the time that it gave to
`select` has run out, reads the answers of the server out of one array, sets the clock and, with
`-l`, hands each measurement to the phase lock. The doubles are exact rationals, `none` is a fault of
the phase lock, and what is printed is left out, but for the reasons to reject a packet.
-/

namespace LidarRelay.NtpClient
open LidarRelay
set_option autoImplicit false
set_option maxHeartbeats 250000

def minInterval : ℤ := 15

def jan1970 : UInt32 := 0x83aa7e80

def ntpPort : ℕ := 123

/-- `NTPFRAC`. -/
def ntpfrac (x : ℕ) : UInt32 := UInt32.ofNat (4294 * x + (1981 * x) >>> 11)

/-- `USEC`. -/
def usec (x : UInt32) : UInt32 :=
  (x >>> (12 : UInt32)) - 759 * (((x >>> (10 : UInt32)) + 32768) >>> (16 : UInt32))

/-- `(x) * 15.2587890625`. -/
def sec2u (x : ℤ) : ℚ := x * (152587890625 / 10000000000)

structure NtpTime where
  coarse : UInt32
  fine : UInt32
  deriving DecidableEq, Repr

/-- `struct ntp_control`; before the first probe `time_of_send` is what the stack held. -/
structure Control where
  timeOfSend : NtpTime
  live : ℤ := 0
  setClock : ℤ := 0
  probeCount : ℤ := 0
  cycleTime : ℤ := 600
  goodness : ℤ := 0
  crossCheck : ℤ := 1
  deriving DecidableEq, Repr

/-- The seconds and microseconds that the clock is set to. -/
def setTime (new : NtpTime) : ℕ × ℕ := ((new.coarse - jan1970).toNat, (usec new.fine).toNat)

/-- `ntpc_gettime`, and the same for the time stamp of a packet. -/
def ntpcGettime (now : Timeval) : NtpTime where
  coarse := UInt32.ofInt now.sec + jan1970
  fine := ntpfrac now.usec.toNat

/-! ## Packets -/

def htonl (x : UInt32) : List Byte :=
  [(x >>> 24).toUInt8, (x >>> 16).toUInt8, (x >>> 8).toUInt8, x.toUInt8]

/-- The first word of a probe: `LI`, `VN`, `MODE`, `STRATUM`, `POLL` and `PREC & 0xff`. -/
def probeHead : UInt32 :=
  let li : UInt32 := 0
  let vn : UInt32 := 3
  let mode : UInt32 := 3
  let stratum : UInt32 := 0
  let poll : UInt32 := 4
  let prec : UInt32 := UInt32.ofInt (-6)
  li <<< 30 ||| vn <<< 27 ||| mode <<< 24 ||| stratum <<< 16 ||| poll <<< 8 ||| prec &&& 0xff

/-- `send_packet`: `time_sent` and what goes to the server. -/
def sendPacket (now : Timeval) : NtpTime × List Byte :=
  let timeSent := ntpcGettime now
  let delay := (1 : UInt32) <<< 16
  let disp := (1 : UInt32) <<< 16
  (timeSent, [probeHead, delay, disp, 0, 0, 0, 0, 0, 0, 0, timeSent.coarse,
    timeSent.fine].flatMap htonl)

/-- `sizeof incoming_word`. -/
def incomingSize : ℕ := 1300

def ntohl (bytes : List Byte) (i : ℕ) : UInt32 :=
  let byte := fun k => (bytes.getD (4 * i + k) 0).toUInt32
  byte 0 * 16777216 + byte 1 * 65536 + byte 2 * 256 + byte 3

/-- An `unsigned` as an `int`. -/
def signed (x : UInt32) : ℤ := x.toBitVec.toInt

/-- What `rfc1305print` takes out of a packet and does not only print. -/
structure Reply where
  li : UInt32
  vn : UInt32
  mode : UInt32
  stratum : UInt32
  delay : ℤ
  disp : ℤ
  orgtime : NtpTime
  rectime : NtpTime
  xmttime : NtpTime
  deriving DecidableEq, Repr

def readReply (bytes : List Byte) : Reply :=
  let data := ntohl bytes
  { li := data 0 >>> 30 &&& 0x03
    vn := data 0 >>> 27 &&& 0x07
    mode := data 0 >>> 24 &&& 0x07
    stratum := data 0 >>> 16 &&& 0xff
    delay := signed (data 1)
    disp := signed (data 2)
    orgtime := ⟨data 6, data 7⟩
    rectime := ⟨data 8, data 9⟩
    xmttime := ⟨data 10, data 11⟩ }

def ntpdiff (start stop : NtpTime) : ℚ :=
  let a := signed (stop.coarse - start.coarse)
  if stop.fine ≥ start.fine then
    a * 1000000 + (stop.fine - start.fine).toNat * (1000000 / 4294967296)
  else
    (a - 1 : ℤ) * 1000000 + (~~~(start.fine - stop.fine)).toNat * (1000000 / 4294967296)

/-- `drop_reason`. -/
def dropReason (ntpc : Control) (r : Reply) : Option String :=
  if ntpc.crossCheck = 0 then none
  else if r.li = 3 then some "LI==3"
  else if r.vn < 3 then some "VN<3"
  else if r.mode ≠ 4 then some "MODE!=3"
  else if r.orgtime ≠ ntpc.timeOfSend then some "ORG!=sent"
  else if r.xmttime.coarse = 0 ∧ r.xmttime.fine = 0 then some "XMT==0"
  else if r.delay > 65536 ∨ r.delay < -65536 then some "abs(DELAY)>65536"
  else if r.disp > 65536 ∨ r.disp < -65536 then some "abs(DISP)>65536"
  else if r.stratum = 0 then some "STRATUM==0"
  else none

/-! ## The measurement -/

/-- What is measured with one packet, in microseconds. -/
structure Measurement where
  elTime : ℚ
  stTime : ℚ
  skew : ℚ

def measure (r : Reply) (arrival : NtpTime) : Measurement where
  elTime := ntpdiff r.orgtime arrival
  stTime := ntpdiff r.rectime r.xmttime
  skew := (ntpdiff r.orgtime r.rectime - ntpdiff r.xmttime arrival) / 2

/-- What the program does to the machine and to the network. -/
inductive Action where
  | probe (timeSent : NtpTime)
  | setTime (r : Reply)
  | setFreq (r : Reply) (freq : ℤ)
  deriving DecidableEq, Repr

/-- The variables of `primary_loop` and of the phase lock, the frequency of the kernel, and what has
been done so far, the last first, with the time that was spent in `select` until then. The times of
`select` are in microseconds. -/
structure State where
  ntpc : Control
  freq : ℤ := 0
  probesSent : ℤ := 0
  timeout : ℤ := 0
  incoming : Buffer incomingSize := default
  lock : PhaseLock.State := {}
  running : Bool := true
  waited : ℤ := 0
  log : List (ℤ × Action) := []

def State.act (s : State) (a : Action) : State := { s with log := (s.waited, a) :: s.log }

/-- The branch for `ntpc->set_clock`. -/
def setBranch (r : Reply) (s : State) : State :=
  if s.ntpc.setClock ≠ 0 then s.act (.setTime r) else s

/-- The branch for `ntpc->live`. -/
def liveBranch (debug : Bool) (minDelay : ℚ) (r : Reply) (arrival : NtpTime) (s : State) :
    Option State :=
  if s.ntpc.live = 0 then some s
  else
    let m := measure r arrival
    match PhaseLock.contemplateData minDelay arrival.coarse m.skew (m.elTime + sec2u r.disp) s.freq
      s.lock with
    | none => none
    | some (newFreq, lock) =>
      if debug = false ∧ newFreq ≠ s.freq then
        some ({ s with lock, freq := newFreq }.act (.setFreq r newFreq))
      else some { s with lock }

/-- The return value 1 comes with the reason, the return value 0 with `*error`. -/
def rfc1305print (debug : Bool) (minDelay : ℚ) (arrival : NtpTime) (s : State) :
    Option (Except String ℤ × State) :=
  let r := readReply s.incoming.bytes
  let m := measure r arrival
  match dropReason s.ntpc r with
  | some reason => some (.error reason, s)
  | none => do
    let s ← liveBranch debug minDelay r arrival (setBranch r s)
    return (.ok (toLong (m.elTime - m.stTime)), s)

/-! ## The loop -/

/-- What `recvfrom` finds, and from which port; at most `sizeof incoming_word` bytes are taken. -/
inductive Received where
  | failed
  | packet (bytes : List Byte) (port : ℕ) (arrival : Timeval)

/-- How one `select` ends. -/
inductive Event where
  -- the clock reads `now` when the probe is sent
  | timedOut (now : Timeval)
  | interrupted (after : ℤ)
  | readable (after : ℤ) (received : Received)

/-- The end of the loop body, after a packet that was used or one that could not be read. -/
def afterPacket (error : ℤ) (s : State) : State :=
  if (error < s.ntpc.goodness ∧ s.ntpc.goodness ≠ 0) ∨
      (s.probesSent ≥ s.ntpc.probeCount ∧ s.ntpc.probeCount ≠ 0) then
    { s with ntpc := { s.ntpc with setClock := 0 }, running := decide (s.ntpc.live ≠ 0) }
  else s

def sendProbe (now : Timeval) (s : State) : State :=
  let timeSent := (sendPacket now).1
  { s.act (.probe timeSent) with
    ntpc := { s.ntpc with timeOfSend := timeSent }
    probesSent := s.probesSent + 1
    timeout := s.ntpc.cycleTime * 1000000 }

/-- `select` leaves in `to` what is left of it. -/
def State.wait (s : State) (after : ℤ) : State :=
  { s with timeout := s.timeout - after, waited := s.waited + after }

def onReadable (debug : Bool) (minDelay : ℚ) (received : Received) (s : State) : Option State :=
  match received with
  | .failed => some (afterPacket s.ntpc.goodness s)
  | .packet bytes port arrival =>
    let packLen := min bytes.length incomingSize
    let s := { s with incoming := s.incoming.recv (bytes.take incomingSize) }
    if 0 < packLen ∧ packLen < incomingSize then
      if port ≠ ntpPort then some s
      else
        match rfc1305print debug minDelay (ntpcGettime arrival) s with
        | none => none
        | some (.error _, s) => some s
        | some (.ok error, s) => some (afterPacket error s)
    else some (afterPacket s.ntpc.goodness s)

/-- One pass through the loop. -/
def step (debug : Bool) (minDelay : ℚ) (s : State) (e : Event) : Option State :=
  if s.running then
    match e with
    | .timedOut now =>
      if 0 ≤ s.timeout then
        let s := s.wait s.timeout
        if s.probesSent ≥ s.ntpc.probeCount ∧ s.ntpc.probeCount ≠ 0 then
          some { s with running := false }
        else some (sendProbe now s)
      else none
    | .interrupted after =>
      if 0 ≤ after ∧ after ≤ max s.timeout 0 then some (s.wait after) else none
    | .readable after received =>
      if 0 ≤ after ∧ after ≤ s.timeout then onReadable debug minDelay received (s.wait after)
      else none
  else none

/-! ## The log -/

/-- The numbers of a line for a measurement, but for `st_time`, which nobody reads. -/
structure LogLine where
  day : ℤ
  sec : ℚ
  elTime : ℚ
  skew : ℚ
  disp : ℚ
  freq : ℤ

/-- A line of the log; a remark is "Ooops", "# box" or "# inconsistent". -/
inductive Row where
  | measured (l : LogLine)
  | rejected
  | remark

/-- What `%.1f` prints. -/
def tenths (q : ℚ) : ℚ := roundHalfEven (q * 10) / 10

/-- The numbers of the line that `rfc1305print` prints. -/
def logLine (r : Reply) (arrival : NtpTime) (freq : ℤ) : LogLine where
  day := (arrival.coarse / 86400).toNat
  sec := (arrival.coarse % 86400).toNat + ((arrival.fine / 4294967).toNat : ℚ) / 1000
  elTime := tenths (measure r arrival).elTime
  skew := tenths (measure r arrival).skew
  disp := tenths (sec2u r.disp)
  freq := freq

structure Replay where
  simulatedFreq : ℤ := 0
  lastFakeTime : UInt32 := 0
  fakeDeltaTime : ℚ := 0
  lock : PhaseLock.State := {}

/-- The seconds since 1900 overflow the `int`, which goes round; `sec` is a float. -/
def LogLine.absolute (l : LogLine) : UInt32 := UInt32.ofInt (l.day * 86400 + toLong (roundFloat l.sec))

/-- The sum of two floats. -/
def LogLine.errorbar (l : LogLine) : ℚ := roundFloat (roundFloat l.elTime + roundFloat l.disp)

/-- One pass through the loop of `do_replay` on a line with seven numbers. -/
def replayLine (minDelay : ℚ) (s : Replay) (l : LogLine) : Option Replay := do
  let simulatedFreq := if s.lastFakeTime = 0 then l.freq else s.simulatedFreq
  let fakeDeltaTime := s.fakeDeltaTime +
    (l.absolute - s.lastFakeTime).toNat * ((l.freq - simulatedFreq : ℤ) : ℚ) / 65536
  let (newFreq, lock) ← PhaseLock.contemplateData minDelay l.absolute (l.skew + fakeDeltaTime)
    l.errorbar simulatedFreq s.lock
  return { simulatedFreq := newFreq, lastFakeTime := l.absolute, fakeDeltaTime, lock }

/-- How `do_replay` ends; after an error the exit code is 2. -/
inductive Outcome where
  | endOfInput
  | inputError
  deriving DecidableEq, Repr

/-- `do_replay`: the lines that are not those of a measurement have less than seven numbers. -/
def doReplay (minDelay : ℚ) (s : Replay) : List Row → Option (Replay × Outcome)
  | [] => some (s, .endOfInput)
  | .measured l :: rows => do
    let s ← replayLine minDelay s l
    doReplay minDelay s rows
  | _ :: _ => some (s, .inputError)

/-! ## The command line -/

/-- One option, its argument read by `atoi`. -/
inductive Opt where
  | c (probeCount : ℤ)
  | d
  | g (goodness : ℤ)
  | i (cycleTime : ℤ)
  | l
  | s
  | t
  deriving DecidableEq, Repr

def readOpt (ntpc : Control) : Opt → Control
  | .c n => { ntpc with probeCount := n }
  | .d => ntpc
  | .g n => { ntpc with goodness := n }
  | .i n => { ntpc with cycleTime := n }
  | .l => { ntpc with live := ntpc.live + 1 }
  | .s => { ntpc with setClock := ntpc.setClock + 1 }
  | .t => { ntpc with crossCheck := 0 }

/-- `-s` alone implies `-c 1`. -/
def simpleSet (ntpc : Control) : Control :=
  if ntpc.setClock ≠ 0 ∧ ntpc.live = 0 ∧ ntpc.goodness = 0 ∧ ntpc.probeCount = 0 then
    { ntpc with probeCount := 1 }
  else ntpc

def keepInterval (ntpc : Control) : Control :=
  if ntpc.probeCount ≠ 1 ∧ ntpc.cycleTime < minInterval then { ntpc with cycleTime := minInterval }
  else ntpc

/-- `main` up to `primary_loop`. -/
def configure (stack : NtpTime) (opts : List Opt) : Control :=
  keepInterval (simpleSet (opts.foldl readOpt { timeOfSend := stack }))

end LidarRelay.NtpClient
