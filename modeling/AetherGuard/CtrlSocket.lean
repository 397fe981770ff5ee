import AetherGuard.Lib.Machine

/-!
# The daemon's control socket

`ctrlReaderThread` keeps the descriptor of its connection to the relay in `g_ctrl_fd`, and any
thread that calls `sendCtrlCommand` sends there: it takes `g_ctrl_mtx`, loads the descriptor and
sends. When the connection ends, `ctrlReaderThread` stores -1 and closes the descriptor, without the
mutex. `tcpReaderThread` connects and closes its own descriptor. Descriptors are numbers in one
table, and a number is free again once it is closed. One action is one step of a thread. The threads
that wait for the mutex have done nothing yet, so only the one that holds it is in the state.
-/

namespace AetherGuard

namespace Daemon

/-- What a descriptor stands for. -/
inductive Sock
  | ctrl
  | data
  deriving DecidableEq

/-- Where `ctrlReaderThread` is. -/
inductive CtrlReader
  | connecting
  | storeFd (fd : ℕ)
  | receiving (fd : ℕ)
  | clearFd (fd : ℕ)
  | closeFd (fd : ℕ)

/-- Where `tcpReaderThread` is. -/
inductive TcpReader
  | connecting
  | receiving (fd : ℕ)

/-- The next step of `sendCtrlCommand` in the thread that holds `g_ctrl_mtx`. -/
inductive Sender
  | load
  | send (dst : ℕ)
  deriving DecidableEq

structure CtrlSocket where
  gCtrlFd : Option ℕ
  gCtrlMtx : Option Sender
  fds : ℕ → Option Sock
  ctrlReader : CtrlReader
  tcpReader : TcpReader

namespace CtrlSocket

def init : CtrlSocket := ⟨none, none, fun _ => none, .connecting, .connecting⟩

/-- `connectToRelay` returns a descriptor that was free to `ctrlReaderThread`. -/
def ctrlConnect (s : CtrlSocket) (fd : ℕ) : CtrlSocket :=
  match s.ctrlReader, s.fds fd with
  | .connecting, none =>
    { s with fds := Function.update s.fds fd (some .ctrl), ctrlReader := .storeFd fd }
  | _, _ => s

/-- `recv` returns nothing more. -/
def ctrlHangup (s : CtrlSocket) : CtrlSocket :=
  match s.ctrlReader with
  | .receiving fd => { s with ctrlReader := .clearFd fd }
  | _ => s

/-- A step of `ctrlReaderThread` that waits for nobody. -/
def ctrlReaderThread (s : CtrlSocket) : CtrlSocket :=
  match s.ctrlReader with
  | .storeFd fd => { s with gCtrlFd := some fd, ctrlReader := .receiving fd }
  | .clearFd fd => { s with gCtrlFd := none, ctrlReader := .closeFd fd }
  | .closeFd fd => { s with fds := Function.update s.fds fd none, ctrlReader := .connecting }
  | _ => s

/-- `connectToRelay` returns a descriptor that was free to `tcpReaderThread`. -/
def tcpConnect (s : CtrlSocket) (fd : ℕ) : CtrlSocket :=
  match s.tcpReader, s.fds fd with
  | .connecting, none =>
    { s with fds := Function.update s.fds fd (some .data), tcpReader := .receiving fd }
  | _, _ => s

/-- The data connection ends. -/
def tcpClose (s : CtrlSocket) : CtrlSocket :=
  match s.tcpReader with
  | .receiving fd => { s with fds := Function.update s.fds fd none, tcpReader := .connecting }
  | .connecting => s

/-- A thread calls `sendCtrlCommand` and gets the mutex. -/
def lock (s : CtrlSocket) : CtrlSocket :=
  match s.gCtrlMtx with
  | none => { s with gCtrlMtx := some .load }
  | some _ => s

/-- The next step of the thread that holds the mutex. -/
def sendCtrlCommand (s : CtrlSocket) : CtrlSocket :=
  match s.gCtrlMtx with
  | none => s
  | some .load => { s with gCtrlMtx := s.gCtrlFd.map .send }
  | some (.send _) => { s with gCtrlMtx := none }

inductive Act
  | ctrlConnect (fd : ℕ)
  | ctrlHangup
  | ctrlReader
  | tcpConnect (fd : ℕ)
  | tcpClose
  | lock
  | sender

def step (s : CtrlSocket) : Act → CtrlSocket
  | .ctrlConnect fd => s.ctrlConnect fd
  | .ctrlHangup => s.ctrlHangup
  | .ctrlReader => s.ctrlReaderThread
  | .tcpConnect fd => s.tcpConnect fd
  | .tcpClose => s.tcpClose
  | .lock => s.lock
  | .sender => s.sendCtrlCommand

/-- If the next step of the thread with the mutex is to send, it sends on the open control
connection. -/
def SendsOnCtrl (s : CtrlSocket) : Prop :=
  ∀ dst, s.gCtrlMtx = some (.send dst) → s.fds dst = some .ctrl

end CtrlSocket

end Daemon

end AetherGuard
