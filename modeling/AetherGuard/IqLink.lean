import AetherGuard.DataClients
import AetherGuard.IqStream
import AetherGuard.RelayRing

/-!
# The IQ path from the hardware to the filters

The relay's ring and data clients and the daemon's reader, staging buffer and pool as one system.
`dataSenderThread` is one thread: it takes a frame out of the ring and then sends it to its clients.
A connection of the daemon is one of these clients once it is accepted, which may be after the
daemon has given it up, and other programs connect as well. A thread of the relay that has loaded
the descriptor of the control connection may send its line after that number was closed and given to
a data client; the line is then part of the client's stream. What the client's socket took and the
reader has not read is on its way: the reader takes a frame when all of it has come in, and leaves
its loop when the connection breaks after any part of it. For the model only, the state keeps the
payloads that the reader has read, over all connections.
-/

namespace AetherGuard

/-- The I/Q pairs of interleaved values. -/
def pairs {α : Type*} : List α → List (α × α)
  | i :: q :: l => (i, q) :: pairs l
  | _ => []

/-- A data stream with the control lines that got into it, each after so many bytes of
the frames. -/
def spliced (bytes : List UInt8) (lines : List (ℕ × List UInt8)) : List UInt8 :=
  lines.foldr (fun line stream => stream.take line.1 ++ line.2 ++ stream.drop line.1) bytes

structure IqLink where
  ring : Relay.State
  clients : Relay.DataClients
  stream : Daemon.IqStream
  /-- The client that a connection of the daemon is to the relay, once it is accepted. -/
  peer : ℕ → Option ℕ
  /-- The control lines sent to a client, and how much of the frames its socket had taken. -/
  strays : ℕ → List (ℕ × List UInt8)
  /-- The bytes of the present connection that have been read. -/
  consumed : ℕ
  fed : List (List Int16)

namespace IqLink

variable (e : Endian)

def init : IqLink where
  ring := .init
  clients := .init
  stream := .init
  peer := fun _ => none
  strays := fun _ => []
  consumed := 0
  fed := []

/-- What the relay sent on the present connection. -/
def received (s : IqLink) : List UInt8 :=
  ((s.peer s.stream.conn).bind fun k =>
    s.clients.clients[k]?.map fun c => spliced (c.received e) (s.strays k)).getD []

/-- What was sent on the present connection and has not been read. -/
def readable (s : IqLink) : List UInt8 := (s.received e).drop s.consumed

/-! ### The relay -/

/-- `dataSenderThread`: on the ring until it has a frame and its slot is released, then on the
clients. -/
def dataSenderThread (s : IqLink) (n : Option ℕ) : IqLink :=
  match s.clients.sender, s.ring.sender, s.ring.frames.getLast? with
  | .idle, .incRead, some frame =>
    { s with ring := s.ring.dataSenderThread, clients := s.clients.takeFrame frame }
  | .idle, _, _ => { s with ring := s.ring.dataSenderThread }
  | _, _, _ => { s with clients := s.clients.dataSenderThread e n }

/-- `accept` returns a connection of the daemon, `conn`, or of another program. -/
def accept (s : IqLink) (fd : ℕ) (conn : Option ℕ) : IqLink :=
  match s.clients.acceptor, s.clients.fds fd, conn with
  | .accepting, none, some c =>
    if 0 < c ∧ c ≤ s.stream.conn ∧ s.peer c = none then
      { s with
        clients := s.clients.accept fd
        peer := Function.update s.peer c (some s.clients.clients.length) }
    else s
  | .accepting, none, none => { s with clients := s.clients.accept fd }
  | _, _, _ => s

/-- `send` in `sendCtrlResponse`, on the descriptor that the thread has loaded. -/
def sendCtrlResponse (s : IqLink) (fd : ℕ) (line : List UInt8) : IqLink :=
  match s.clients.fds fd with
  | some (.client k) =>
    let sent := (s.clients.clients[k]?.map fun c => (c.received e).length).getD 0
    { s with strays := Function.update s.strays k (s.strays k ++ [(sent, line)]) }
  | _ => s

/-! ### The daemon -/

def connect (s : IqLink) : IqLink :=
  match s.stream.reader with
  | .disconnected => { s with stream := s.stream.connect, consumed := 0 }
  | _ => s

/-- A payload as the reader takes it from a frame. -/
def payload (p : List Int16) (h : 2 ≤ p.length ∧ p.length ≤ 131072 ∧ p.length % 2 = 0) :
    Daemon.Payload where
  numSamples := p.length / 2
  pos := by omega
  le := by omega
  data := p
  size := by omega

/-- The reader has a whole frame, and hands its payload to `feedIQToPool`. -/
def recvFrame (s : IqLink) : IqLink :=
  match s.stream.reader, (tcpReader e [s.readable e]).fed with
  | .receiving, p :: _ =>
    if h : 2 ≤ p.length ∧ p.length ≤ 131072 ∧ p.length % 2 = 0 then
      { s with
        stream := s.stream.frame (payload p h)
        consumed := s.consumed + (8 + 2 * p.length)
        fed := s.fed ++ [p] }
    else s
  | _, _ => s

/-- The connection breaks after `n` bytes more, which hold no whole frame. -/
def endConn (s : IqLink) (n : ℕ) : IqLink :=
  match (tcpReader e [(s.readable e).take n]).fed with
  | [] => { s with stream := s.stream.endConn (tcpReader e [(s.readable e).take n]).exit }
  | _ => s

inductive Act
  | offer (buf : Relay.IqBuffer)
  | producer
  | setMode (mode : Relay.DeviceMode)
  | sender (n : Option ℕ)
  | accept (fd : ℕ) (conn : Option ℕ)
  | acceptor
  | other (fd : ℕ)
  | ctrlResponse (fd : ℕ) (line : List UInt8)
  | connect
  | recvFrame
  | endConn (n : ℕ)
  | setScanning (b : Bool)
  | reader
  | demod

def step (s : IqLink) : Act → IqLink
  | .offer buf => { s with ring := s.ring.offer buf }
  | .producer => { s with ring := s.ring.broadcastAudio }
  | .setMode mode => { s with ring := { s.ring with gMode := mode } }
  | .sender n => s.dataSenderThread e n
  | .accept fd conn => s.accept fd conn
  | .acceptor => { s with clients := s.clients.dataAcceptThread }
  | .other fd => { s with clients := s.clients.otherThread fd }
  | .ctrlResponse fd line => s.sendCtrlResponse e fd line
  | .connect => s.connect
  | .recvFrame => s.recvFrame e
  | .endConn n => s.endConn e n
  | .setScanning b => { s with stream := { s.stream with gScanning := b } }
  | .reader => { s with stream := s.stream.feedIQToPool }
  | .demod => { s with stream := { s.stream with pool := s.stream.pool.demodThread } }

/-- The values of a sample. -/
def values : Daemon.Event Daemon.Cell → Option (Int16 × Int16)
  | .sample i q => some (i.value, q.value)
  | .reset => none

/-- The I/Q pairs that the filters saw. -/
def heard (s : IqLink) : List (Int16 × Int16) := s.stream.pool.trace.filterMap values

/-- The buffer that the hardware hands over: one call of `broadcastAudio` at a time. -/
def offered (s : IqLink) : Act → List Relay.IqBuffer
  | .offer buf =>
    match s.ring.producer with
    | .idle => [buf]
    | _ => []
  | _ => []

/-- The I/Q pairs that the hardware handed over in a run. -/
def captured (as : List Act) : List (Int16 × Int16) :=
  pairs ((Machine.gives (step e) offered init as).flatMap (·.samples))

/-- The action sends a control line on a descriptor that is a data client's by now. -/
def misdirects (s : IqLink) : Act → Bool
  | .ctrlResponse fd _ => (s.clients.fds fd).any (· ≠ .other)
  | _ => false

end IqLink

end AetherGuard
