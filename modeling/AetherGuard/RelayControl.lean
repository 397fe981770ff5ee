import AetherGuard.RelayRing

/-!
# The relay's control server

`controlServerThread` serves one control connection after the other. It keeps the descriptor of the
present one in `g_ctrl_client_fd`, and whoever has something to answer sends it there: the server
itself, and the threads that `SCAN` starts, which sweep the band, reset `g_mode` and then answer.
Descriptors are numbers in a table; a number is free again once it is closed, and the data server
takes and frees numbers of the same table. One action is one step of a thread; setting `g_mode` and
starting the thread is one step. What a sweep finds is of any type `S`, the frequencies of any type
`F`. Besides the code's variables the state numbers the connections and keeps a log, newest entry
first, of what was sent on which socket.
-/

namespace AetherGuard

namespace Relay

/-- A line from the daemon: a command, or what `json::parse` or a field's type rejects. -/
inductive CtrlLine (F : Type*)
  | tune (freq : F)
  | configure (freq : F) (bw ifMode agc : String) (lna : ℕ)
  | scan
  | unknown (command : String)
  | bad

/-- A line to the daemon. -/
inductive Response (S : Type*)
  | configureAck
  | error (msg : String)
  | scanComplete (stations : S)

/-- The response `handleCommand` returns, if any. -/
def handleCommand {F S : Type*} : CtrlLine F → Option (Response S)
  | .tune _ => none
  | .configure _ _ _ _ _ => some .configureAck
  | .scan => none
  | .unknown command => some (.error ("unknown command: " ++ command))
  | .bad => some (.error "bad json")

/-- What a descriptor stands for: a control connection, or a socket of the data server. -/
inductive Sock
  | ctrl (conn : ℕ)
  | data
  deriving DecidableEq

/-- Where `controlServerThread` is. -/
inductive Server (S : Type*)
  | accepting
  | storeFd (fd : ℕ)
  | reading (fd : ℕ)
  | load (fd : ℕ) (response : Response S)
  | send (fd : ℕ) (response : Response S) (dst : ℕ)
  | clearFd (fd : ℕ)
  | closeFd (fd : ℕ)

inductive ScanPc (S : Type*)
  | sweep
  | resetMode (stations : S)
  | load (stations : S)
  | send (stations : S) (dst : ℕ)
  | done

/-- The thread has not reset `g_mode` yet. -/
def ScanPc.scanning {S : Type*} : ScanPc S → Bool
  | .sweep | .resetMode _ => true
  | _ => false

/-- The thread has not sent its `scan_complete` yet. -/
def ScanPc.running {S : Type*} : ScanPc S → Bool
  | .done => false
  | _ => true

/-- A scan thread, and the connection its `SCAN` came on. -/
structure ScanThread (S : Type*) where
  origin : ℕ
  pc : ScanPc S

/-- A response sent, and for a `scan_complete` the connection its `SCAN` came on. -/
structure Sent (S : Type*) where
  sock : Sock
  response : Response S
  origin : Option ℕ

structure RelayControl (S : Type*) where
  gMode : DeviceMode
  gCtrlClientFd : Option ℕ
  gCtrlSendMtx : Bool
  fds : ℕ → Option Sock
  conns : ℕ
  server : Server S
  scans : List (ScanThread S)
  log : List (Sent S)

namespace RelayControl

variable {F S : Type*}

def init : RelayControl S where
  gMode := .idle
  gCtrlClientFd := none
  gCtrlSendMtx := false
  fds := fun _ => none
  conns := 0
  server := .accepting
  scans := []
  log := []

/-- The connection of descriptor `fd`. -/
def connOf (s : RelayControl S) (fd : ℕ) : Option ℕ :=
  match s.fds fd with
  | some (.ctrl conn) => some conn
  | _ => none

/-- `accept` returns a descriptor that was free. -/
def accept (s : RelayControl S) (fd : ℕ) : RelayControl S :=
  match s.server, s.fds fd with
  | .accepting, none =>
    { s with
      fds := Function.update s.fds fd (some (.ctrl s.conns))
      conns := s.conns + 1
      server := .storeFd fd }
  | _, _ => s

/-- `recv` returns a line, and `handleCommand` is called. -/
def line (s : RelayControl S) (l : CtrlLine F) : RelayControl S :=
  match s.server with
  | .reading fd =>
    match l with
    | .scan =>
      { s with
        gMode := .scanning
        scans := s.scans ++ [⟨(s.connOf fd).getD 0, .sweep⟩] }
    | _ =>
      match handleCommand l with
      | some response => { s with server := .load fd response }
      | none => s
  | _ => s

/-- `recv` returns nothing more. -/
def hangup (s : RelayControl S) : RelayControl S :=
  match s.server with
  | .reading fd => { s with server := .clearFd fd }
  | _ => s

/-- `send` on descriptor `fd`. -/
def sendOn (s : RelayControl S) (fd : ℕ) (response : Response S) (origin : Option ℕ) (ok : Bool) :
    RelayControl S :=
  match s.fds fd with
  | some sock => { s with log := if ok then ⟨sock, response, origin⟩ :: s.log else s.log }
  | none => s

/-- A step of `controlServerThread` that waits for nobody but `g_ctrl_send_mtx`. -/
def controlServerThread (s : RelayControl S) (ok : Bool) : RelayControl S :=
  match s.server with
  | .storeFd fd => { s with gCtrlClientFd := some fd, server := .reading fd }
  | .load fd response =>
    if s.gCtrlSendMtx then s
    else
      match s.gCtrlClientFd with
      | some dst => { s with gCtrlSendMtx := true, server := .send fd response dst }
      | none => { s with server := .reading fd }
  | .send fd response dst =>
    { s.sendOn dst response none ok with gCtrlSendMtx := false, server := .reading fd }
  | .clearFd fd => { s with gCtrlClientFd := none, server := .closeFd fd }
  | .closeFd fd => { s with fds := Function.update s.fds fd none, server := .accepting }
  | _ => s

def setScan (s : RelayControl S) (i : ℕ) (t : ScanThread S) (pc : ScanPc S) : RelayControl S :=
  { s with scans := s.scans.set i { t with pc := pc } }

/-- A step of the `i`-th scan thread; `stations` is what its sweep finds. -/
def scanThread (s : RelayControl S) (i : ℕ) (stations : S) (ok : Bool) : RelayControl S :=
  match s.scans[i]? with
  | none => s
  | some t =>
    match t.pc with
    | .sweep => s.setScan i t (.resetMode stations)
    | .resetMode stations => { s.setScan i t (.load stations) with gMode := .idle }
    | .load stations =>
      if s.gCtrlSendMtx then s
      else
        match s.gCtrlClientFd with
        | some dst => { s.setScan i t (.send stations dst) with gCtrlSendMtx := true }
        | none => s.setScan i t .done
    | .send stations dst =>
      { (s.sendOn dst (.scanComplete stations) (some t.origin) ok).setScan i t .done with
        gCtrlSendMtx := false }
    | .done => s

/-- The data server takes or frees a descriptor. -/
def dataServer (s : RelayControl S) (fd : ℕ) : RelayControl S :=
  match s.fds fd with
  | none => { s with fds := Function.update s.fds fd (some .data) }
  | some .data => { s with fds := Function.update s.fds fd none }
  | some (.ctrl _) => s

inductive Act (F S : Type*)
  | accept (fd : ℕ)
  | line (l : CtrlLine F)
  | hangup
  | server (ok : Bool)
  | scan (i : ℕ) (stations : S) (ok : Bool)
  | data (fd : ℕ)

def step (s : RelayControl S) : Act F S → RelayControl S
  | .accept fd => s.accept fd
  | .line l => s.line l
  | .hangup => s.hangup
  | .server ok => s.controlServerThread ok
  | .scan i stations ok => s.scanThread i stations ok
  | .data fd => s.dataServer fd

/-- The threads between their start and their reset of `g_mode`. -/
def scanning (s : RelayControl S) : ℕ := s.scans.countP (·.pc.scanning)

/-- The threads between their start and their `scan_complete`. -/
def running (s : RelayControl S) : ℕ := s.scans.countP (·.pc.running)

/-- Every `scan_complete` was sent on the connection its `SCAN` came on. -/
def AnswersOrigin (s : RelayControl S) : Prop :=
  ∀ e ∈ s.log, ∀ conn ∈ e.origin, e.sock = .ctrl conn

end RelayControl

end Relay

end AetherGuard
