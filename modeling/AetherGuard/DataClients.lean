import AetherGuard.Lib.Machine
import AetherGuard.Wire

/-!
# The relay's data clients

`dataAcceptThread` accepts clients and adds their descriptors to `g_data_clients`;
`dataSenderThread` sends each frame to all of them under `g_clients_mtx`, collects the descriptors
on which the send was short or failed, and removes and closes these after it has released the
mutex. Descriptors are numbers in a table; `accept` returns one that is free, and the rest of the
process takes free ones and frees its own. One action is one step of a thread; `addDataClient` and
`removeDataClient` hold the mutex throughout and are one step each. Besides the code's variables
the state keeps the frames whose sending was begun and, for each client in the order they were
accepted, what was sent to its socket.
-/

namespace AetherGuard

namespace Relay

/-- A call of `send`: the frame, and the bytes the socket took (`none` for an error). -/
structure SendCall where
  frame : Frame
  sent : Option ℕ
  deriving DecidableEq

/-- `sent == frame_len` -/
def SendCall.full (e : Endian) (call : SendCall) : Bool :=
  call.sent == some (call.frame.bytes e).length

def SendCall.bytes (e : Endian) (call : SendCall) : List UInt8 :=
  (call.frame.bytes e).take (call.sent.getD 0)

/-- A client's socket: how many frames had been begun when it was added, what was sent to it since,
and how often its descriptor was closed. -/
structure DataClient where
  added : Option ℕ
  sends : List SendCall
  closes : ℕ

/-- The bytes the socket took. -/
def DataClient.received (e : Endian) (c : DataClient) : List UInt8 := c.sends.flatMap (·.bytes e)

/-- A send to the client was short or failed. -/
def DataClient.dead (e : Endian) (c : DataClient) : Bool := c.sends.any fun call => !call.full e

/-- What a descriptor stands for: the socket of the `k`-th client, or something else. -/
inductive DataSock
  | client (k : ℕ)
  | other
  deriving DecidableEq

/-- Where `dataAcceptThread` is. -/
inductive Acceptor
  | accepting
  | addDataClient (fd : ℕ)
  deriving DecidableEq

/-- Where `dataSenderThread` is; it holds `g_clients_mtx` while `sending`. -/
inductive DataSender
  | idle
  | lock (frame : Frame)
  | sending (frame : Frame) (todo deadFds : List ℕ)
  | removing (deadFds : List ℕ)
  deriving DecidableEq

structure DataClients where
  gDataClients : List ℕ
  fds : ℕ → Option DataSock
  clients : List DataClient
  acceptor : Acceptor
  sender : DataSender
  frames : List Frame

namespace DataClients

variable (e : Endian)

def init : DataClients where
  gDataClients := []
  fds := fun _ => none
  clients := []
  acceptor := .accepting
  sender := .idle
  frames := []

/-- `accept` returns a descriptor that was free. -/
def accept (s : DataClients) (fd : ℕ) : DataClients :=
  match s.acceptor, s.fds fd with
  | .accepting, none =>
    { s with
      fds := Function.update s.fds fd (some (.client s.clients.length))
      clients := s.clients ++ [⟨none, [], 0⟩]
      acceptor := .addDataClient fd }
  | _, _ => s

/-- Changes the client that `fd` stands for. -/
def modifyClient (s : DataClients) (fd : ℕ) (f : DataClient → DataClient) : List DataClient :=
  match s.fds fd with
  | some (.client k) => s.clients.modify k f
  | _ => s.clients

def addDataClient (s : DataClients) (fd : ℕ) : DataClients :=
  { s with
    gDataClients := s.gDataClients ++ [fd]
    clients := s.modifyClient fd fun c => { c with added := some s.frames.length } }

/-- `dataAcceptThread` once it has a client: it waits for `g_clients_mtx`. -/
def dataAcceptThread (s : DataClients) : DataClients :=
  match s.acceptor, s.sender with
  | .accepting, _ => s
  | .addDataClient _, .sending _ _ _ => s
  | .addDataClient fd, _ => { s.addDataClient fd with acceptor := .accepting }

def removeDataClient (s : DataClients) (fd : ℕ) : DataClients :=
  { s with
    gDataClients := s.gDataClients.filter (· ≠ fd)
    fds := Function.update s.fds fd none
    clients := s.modifyClient fd fun c => { c with closes := c.closes + 1 } }

/-- What `send` returns on `fd` where the socket takes `n` bytes, or refuses. -/
def sendResult (s : DataClients) (fd : ℕ) (frame : Frame) (n : Option ℕ) : Option ℕ :=
  match s.fds fd with
  | some _ => n.map (min (frame.bytes e).length)
  | none => none

/-- `dataSenderThread` has taken a frame out of the ring. -/
def takeFrame (s : DataClients) (frame : Frame) : DataClients :=
  match s.sender with
  | .idle => { s with sender := .lock frame }
  | _ => s

/-- A step of `dataSenderThread` on its frame. -/
def dataSenderThread (s : DataClients) (n : Option ℕ) : DataClients :=
  match s.sender with
  | .idle => s
  | .lock frame =>
    { s with sender := .sending frame s.gDataClients [], frames := s.frames ++ [frame] }
  | .sending frame (fd :: todo) deadFds =>
    let call : SendCall := ⟨frame, s.sendResult e fd frame n⟩
    { s with
      clients := s.modifyClient fd fun c => { c with sends := c.sends ++ [call] }
      sender := .sending frame todo (if call.full e then deadFds else deadFds ++ [fd]) }
  | .sending _ [] deadFds => { s with sender := .removing deadFds }
  | .removing (fd :: deadFds) => { s.removeDataClient fd with sender := .removing deadFds }
  | .removing [] => { s with sender := .idle }

/-- The rest of the process takes or frees a descriptor. -/
def otherThread (s : DataClients) (fd : ℕ) : DataClients :=
  match s.fds fd with
  | none => { s with fds := Function.update s.fds fd (some .other) }
  | some .other => { s with fds := Function.update s.fds fd none }
  | some (.client _) => s

inductive Act
  | accept (fd : ℕ)
  | acceptor
  | frame (frame : Frame)
  | sender (n : Option ℕ)
  | other (fd : ℕ)

def step (s : DataClients) : Act → DataClients
  | .accept fd => s.accept fd
  | .acceptor => s.dataAcceptThread
  | .frame frame => s.takeFrame frame
  | .sender n => s.dataSenderThread e n
  | .other fd => s.otherThread fd

/-- The frame an action takes out of the ring. -/
def taken (s : DataClients) : Act → List Frame
  | .frame frame => if s.sender = .idle then [frame] else []
  | _ => []

end DataClients

/-- The frame the sender has taken and not begun to send. -/
def DataSender.held : DataSender → List Frame
  | .lock frame => [frame]
  | _ => []

/-- The clients the sender has yet to send its frame to. -/
def DataSender.todo : DataSender → List ℕ
  | .sending _ todo _ => todo
  | _ => []

/-- The clients the sender is going to remove. -/
def DataSender.deadFds : DataSender → List ℕ
  | .sending _ _ deadFds => deadFds
  | .removing deadFds => deadFds
  | _ => []

/-- The socket took whole frames, those begun since the client was added in their order, but for a
piece of the next one, after which nothing was sent. -/
def DataClient.WholeFrames (e : Endian) (frames : List Frame) (c : DataClient) : Prop :=
  match c.added with
  | none => c.sends = []
  | some a =>
    ∃ m cut, c.received e = ((frames.drop a).take m).flatMap (·.bytes e) ++ cut
      ∧ (if c.dead e then ∃ frame, frames[a + m]? = some frame ∧ cut <+: frame.bytes e
          ∧ c.sends.length = m + 1
        else cut = [] ∧ c.sends.length = m)
      ∧ ∀ call ∈ c.sends.dropLast, call.full e = true

/-- The list holds no descriptor twice and only open ones. Every client's socket took whole frames,
a listed client that is not dead misses no frame but the one that is being sent, and a client is
closed once when it is dead, unless the sender is about to, and not at all before. -/
structure DataClients.Faithful (e : Endian) (s : DataClients) : Prop where
  nodup : s.gDataClients.Nodup
  opened : ∀ fd ∈ s.gDataClients, ∃ k, s.fds fd = some (.client k)
  whole : ∀ c ∈ s.clients, c.WholeFrames e s.frames
  upToDate : ∀ fd ∈ s.gDataClients, fd ∉ s.sender.deadFds → ∃ k c a, s.fds fd = some (.client k)
    ∧ s.clients[k]? = some c ∧ c.added = some a
    ∧ a + c.sends.length + (if fd ∈ s.sender.todo then 1 else 0) = s.frames.length
  closed : ∀ (k : ℕ) c, s.clients[k]? = some c → c.dead e = true → c.closes = 1
    ∨ c.closes = 0 ∧ ∃ fd ∈ s.sender.deadFds, s.fds fd = some (.client k)
  kept : ∀ c ∈ s.clients, c.dead e = false → c.closes = 0

end Relay

end AetherGuard
