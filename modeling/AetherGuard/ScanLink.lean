import AetherGuard.Control
import AetherGuard.RelayControl

/-!
# The control connection between daemon and relay

The daemon's `ctrlReaderThread` connects to the relay's control port, keeps the connection in
`g_ctrl_fd` for whoever has a command to send, and reads the relay's lines; when the connection
ends it connects anew. Connections are numbered in the order they are made, which is the order the
relay accepts them in. What is sent on a connection that is up arrives in order; what is sent on
one that is down is lost, whatever `send` returns. Either end notices at any time that a connection
is down, and what it had not read by then is lost. A `send` that takes only the start of a message
fails and leaves that start on the wire, where the next line that is sent in full ends it: what the
other end makes of the two as one line is any line at all. `sendCtrlCommand` loads `g_ctrl_fd` some
time before it sends, so that by then the number may belong to any socket.
-/

namespace AetherGuard

/-- The line of a message. -/
def Daemon.Message.line {F : Type*} : Daemon.Message F → Relay.CtrlLine F
  | .tune freq => .tune freq
  | .configure freq bw ifMode agc lna => .configure freq bw ifMode agc lna
  | .scan => .scan

/-- The message an action of the daemon sends, and whether it is taken in full. -/
def Daemon.Control.sends {F : Type*} (s : Daemon.Control F) :
    Daemon.Control.Act F → Option (Daemon.Message F × Bool)
  | .listener ok =>
    match s.listener with
    | .tuneSend f | .liveRetune f => some (Daemon.tuneCmd f, ok)
    | .scanSend => some (.scan, ok)
    | _ => none
  | .recorder i ok =>
    match s.recorders[i]? with
    | some ⟨f, .sendConfigure⟩ => some (Daemon.hwCmd f, ok)
    | some ⟨f, .sendTune⟩ => some (Daemon.tuneCmd f, ok)
    | _ => none
  | .live i ok =>
    match s.lives[i]? with
    | some ⟨f, .sendConfigure⟩ => some (Daemon.hwCmd f, ok)
    | some ⟨f, .sendTune⟩ => some (Daemon.tuneCmd f, ok)
    | _ => none
  | _ => none

/-- What an action of the relay sends, on which socket, and whether it is taken in full. -/
def Relay.RelayControl.sends {F S : Type*} (s : Relay.RelayControl S) :
    Relay.RelayControl.Act F S → Option (Relay.Sock × Relay.Response S × Bool)
  | .server ok =>
    match s.server with
    | .send _ response dst => (s.fds dst).map fun sock => (sock, response, ok)
    | _ => none
  | .scan i _ ok =>
    match s.scans[i]? with
    | some ⟨_, .send stations dst⟩ => (s.fds dst).map fun sock => (sock, .scanComplete stations, ok)
    | _ => none
  | _ => none

/-- One direction of a connection: the lines on their way, and whether the start of a further line
is behind them. -/
structure Pipe (β : Type*) where
  lines : List β
  cut : Bool

/-- What becomes of a message that is not taken in full (`cut`: a start of it is), and what the
other end reads if the message ends a line that was begun before. -/
structure Sending (β : Type*) where
  cut : Bool
  fused : β

def Pipe.send {β : Type*} (p : Pipe β) (x : β) (ok : Bool) (w : Sending β) : Pipe β :=
  if ok then ⟨p.lines ++ [if p.cut then w.fused else x], false⟩
  else ⟨p.lines, p.cut || w.cut⟩

/-- Daemon, relay and the connections between them. A line to the daemon may be no event. -/
structure ScanLink (F S : Type*) where
  daemon : Daemon.Control F
  relay : Relay.RelayControl S
  gCtrlFd : Option ℕ
  conns : ℕ
  up : ℕ → Bool
  toRelay : ℕ → Pipe (Relay.CtrlLine F)
  toDaemon : ℕ → Pipe (Option (Relay.Response S))

namespace ScanLink

open Daemon Relay

variable {F S : Type*}

def init (freq : F) : ScanLink F S where
  daemon := .init freq
  relay := .init
  gCtrlFd := none
  conns := 0
  up := fun _ => false
  toRelay := fun _ => ⟨[], false⟩
  toDaemon := fun _ => ⟨[], false⟩

/-- A message sent on connection `n`. -/
def push {β : Type*} (up : ℕ → Bool) (pipes : ℕ → Pipe β) (n : ℕ) (x : β) (ok : Bool)
    (w : Sending β) : ℕ → Pipe β :=
  if up n then Function.update pipes n ((pipes n).send x ok w) else pipes

/-- `connectToRelay` succeeds. -/
def connect (s : ScanLink F S) : ScanLink F S :=
  match s.gCtrlFd with
  | none =>
    { s with
      gCtrlFd := some s.conns
      conns := s.conns + 1
      up := Function.update s.up s.conns true }
  | some _ => s

def breakConn (s : ScanLink F S) (n : ℕ) : ScanLink F S :=
  { s with up := Function.update s.up n false }

/-- The relay's lines once the daemon has sent `e`, to connection `dst` if to one at all. -/
def command (s : ScanLink F S) (e : Option (Message F × Bool)) (dst : Option ℕ)
    (w : Sending (CtrlLine F)) : ℕ → Pipe (CtrlLine F) :=
  match e, dst with
  | some (m, ok), some n => push s.up s.toRelay n m.line ok w
  | _, _ => s.toRelay

/-- A step of the daemon's other threads. -/
def daemonStep (s : ScanLink F S) (a : Control.Act F) (dst : Option ℕ) (w : Sending (CtrlLine F)) :
    ScanLink F S :=
  match a with
  | .scanComplete => s
  | a =>
    { s with daemon := s.daemon.step a, toRelay := s.command (s.daemon.sends a) dst w }

/-- What a line does to the flags of the daemon. -/
def hear (d : Control F) : Option (Response S) → Control F
  | some (.scanComplete _) => d.scanComplete
  | _ => d

/-- `ctrlReaderThread` reads a line. -/
def ctrlReaderThread (s : ScanLink F S) : ScanLink F S :=
  match s.gCtrlFd with
  | none => s
  | some n =>
    match (s.toDaemon n).lines with
    | [] => s
    | response :: rest =>
      { s with
        toDaemon := Function.update s.toDaemon n { s.toDaemon n with lines := rest }
        daemon := hear s.daemon response }

/-- `ctrlReaderThread` finds the connection down. -/
def ctrlReaderHangup (s : ScanLink F S) : ScanLink F S :=
  match s.gCtrlFd with
  | some n => if s.up n then s else { s with gCtrlFd := none }
  | none => s

/-- The connection the relay reads from. -/
def serving (s : ScanLink F S) : Option ℕ :=
  match s.relay.server with
  | .reading fd => s.relay.connOf fd
  | _ => none

/-- The daemon's lines once the relay has sent `e`; on a data socket it reaches no daemon. -/
def deliver (s : ScanLink F S) (e : Option (Relay.Sock × Response S × Bool))
    (w : Sending (Option (Response S))) : ℕ → Pipe (Option (Response S)) :=
  match e with
  | some (.ctrl n, response, ok) => push s.up s.toDaemon n (some response) ok w
  | _ => s.toDaemon

/-- The relay accepts only a connection that was made, reads only what was sent, and stops reading
only when the connection is down. -/
def relayStep (s : ScanLink F S) (a : RelayControl.Act F S) (w : Sending (Option (Response S))) :
    ScanLink F S :=
  match a with
  | .accept fd =>
    if s.relay.conns < s.conns then { s with relay := s.relay.accept fd } else s
  | .line _ =>
    match s.serving with
    | none => s
    | some n =>
      match (s.toRelay n).lines with
      | [] => s
      | l :: rest =>
        { s with
          toRelay := Function.update s.toRelay n { s.toRelay n with lines := rest }
          relay := s.relay.line l }
  | .hangup =>
    match s.serving with
    | some n => if s.up n then s else { s with relay := s.relay.hangup }
    | none => s
  | a => { s with relay := s.relay.step a, toDaemon := s.deliver (s.relay.sends a) w }

inductive Act (F S : Type*)
  | connect
  | breakConn (n : ℕ)
  | daemon (a : Control.Act F) (dst : Option ℕ) (w : Sending (CtrlLine F))
  | ctrlReader
  | ctrlHangup
  | relay (a : RelayControl.Act F S) (w : Sending (Option (Response S)))

def step (s : ScanLink F S) : Act F S → ScanLink F S
  | .connect => s.connect
  | .breakConn n => s.breakConn n
  | .daemon a dst w => s.daemonStep a dst w
  | .ctrlReader => s.ctrlReaderThread
  | .ctrlHangup => s.ctrlReaderHangup
  | .relay a w => s.relayStep a w

/-- A `SCAN` is about to be sent or on its way on the connection that is up, a scan thread is
running, or a `scan_complete` is on its way back. -/
def ScanPending (s : ScanLink F S) : Prop :=
  s.daemon.listener = .scanSend
  ∨ (∃ n, s.gCtrlFd = some n ∧ s.up n = true ∧ .scan ∈ (s.toRelay n).lines)
  ∨ 0 < s.relay.running
  ∨ ∃ n stations, s.gCtrlFd = some n ∧ some (.scanComplete stations) ∈ (s.toDaemon n).lines

end ScanLink

end AetherGuard
