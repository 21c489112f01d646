import LidarRelay.Foundations.CString
import LidarRelay.Foundations.Duplex

/-! # `tcp_client.c` and `tcp_server.c`: the chat

Two programs that take turns: each reads a line from its terminal, makes a NUL of its last byte,
writes `strlen` bytes to the other and waits for what the other says. What they print is left out.
-/

namespace LidarRelay.Chat
set_option autoImplicit false
set_option maxHeartbeats 250000

def bufSize : ℕ := 1024

/-- `memset(buf, '\0', sizeof(buf))`. -/
def memset (_ : Buffer bufSize) : Buffer bufSize := default

/-- Where a program stands: in `read(0, …)`, in front of the `write`, in the `read` from the socket,
or behind the loop with its socket closed. -/
inductive Phase where
  | typing
  | writing
  | reading
  | closed
  deriving DecidableEq, Repr

/-- A line as it is typed, its newline included. -/
structure Line where
  bytes : List Byte
  nonempty : bytes ≠ []

structure State where
  phase : Phase
  buf : Buffer bufSize := default
  -- the lines, or what is left of the first of them, that no `read` has returned yet
  terminal : List Line := []

/-- The user types a line, whatever the program is doing; the program reads from its terminal a line
or an end (0 or an error), and writes or reads at its socket, which may fail. -/
inductive Action where
  | typed (line : Line)
  | readLine
  | endOfInput
  | write
  | socketError

/-- What one `read(0, buf, sizeof(buf)-1)` returns of a line. -/
def Line.head (line : Line) : List Byte := line.bytes.take (bufSize - 1)

/-- What it leaves for the next. -/
def Line.rest (line : Line) : List Line :=
  if h : line.bytes.drop (bufSize - 1) = [] then [] else [⟨line.bytes.drop (bufSize - 1), h⟩]

/-- `size = read(0, …); buf[size-1]='\0'`. -/
def readLine (s : State) : Option State :=
  match s.phase, s.terminal with
  | .typing, line :: lines =>
    match (s.buf.recv line.head).store ((line.head.length : ℤ) - 1) nul with
    | .ok buf => some { phase := .writing, buf := buf, terminal := line.rest ++ lines }
    | .error _ => none
  | _, _ => none

/-- What the two programs do differently: where the loop begins, how much the `read` from the socket
asks for, and what happens to `buf` before and after it. -/
structure Program where
  first : Phase
  room : ℕ
  beforeRead : Buffer bufSize → Buffer bufSize
  afterRead : Buffer bufSize → ℕ → Buffer bufSize

/-- `write(fd, buf, strlen(buf))`. -/
def write (c : Program) (s : State) : Option (State × List Byte) :=
  match s.phase, strlen s.buf.bytes with
  | .writing, .ok n =>
    some ({ s with phase := .reading, buf := c.beforeRead s.buf }, s.buf.bytes.take n)
  | _, _ => none

def leave (s : State) : State := { s with phase := .closed }

def act (c : Program) (s : State) : Action → Option (State × List Byte)
  | .typed line => some ({ s with terminal := s.terminal ++ [line] }, [])
  | .readLine => (readLine s).map fun s' => (s', [])
  | .endOfInput => if s.phase = .typing then some (leave s, []) else none
  | .write => write c s
  | .socketError => if s.phase = .writing ∨ s.phase = .reading then some (leave s, []) else none

def receive (c : Program) (s : State) (chunk : List Byte) : State :=
  { s with phase := .typing, buf := c.afterRead (s.buf.recv chunk) chunk.length }

/-- `buf[size]='\0'`. Where the array is full the byte behind it is overwritten, which is none of
the program's variables here. -/
def terminated (buf : Buffer bufSize) (size : ℕ) : Buffer bufSize :=
  match buf.store size nul with
  | .ok b => b
  | .error _ => buf

def tcpClient : Program where
  first := .typing
  room := bufSize
  beforeRead := fun buf => buf
  afterRead := fun buf size => memset (terminated buf size)

def tcpServer : Program where
  first := .reading
  room := bufSize - 1
  beforeRead := memset
  afterRead := fun buf _ => buf

def program : End → Program
  | .client => tcpClient
  | .server => tcpServer

def peer (p : End) : Peer State Action Byte where
  start := { phase := (program p).first }
  waiting := fun s => s.phase == .reading
  closed := fun s => s.phase == .closed
  act := act (program p)
  room := (program p).room
  receive := receive (program p)
  ended := leave
  waiting_open := fun s h => by rw [beq_iff_eq.mp h]; rfl
  receive_busy := fun _ _ => rfl
  ended_busy := fun _ => rfl

end LidarRelay.Chat
