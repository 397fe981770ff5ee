import AetherGuard.Gateway

/-!
# The pages that listen live

Each page runs an effect when it is mounted and whenever its listening state or its station
changes: it posts a `start` with the station's frequency if it is listening to one, and a `stop`
otherwise; and before it runs again, or when the page is unmounted, its cleanup posts a `stop` if
the page was listening. The requests of all pages are under way at once and reach the API in any
order, or not at all. For the model only a request carries its page and the number the page gave
it, and the state keeps the request whose command the listener handles and those the daemon acted
on, newest first.
-/

namespace AetherGuard

open Daemon

variable {F : Type*}

/-- A request to `/api/scan/live`. -/
inductive LiveRequest (F : Type*)
  | start (freq : F)
  | stop
  deriving DecidableEq

def LiveRequest.isStart : LiveRequest F → Bool
  | .start _ => true
  | .stop => false

def LiveRequest.command : LiveRequest F → Command F
  | .start freq => liveCommand true (some freq)
  | .stop => liveCommand false none

/-- The `num`-th request of page `page`. -/
structure Posted (F : Type*) where
  page : ℕ
  num : ℕ
  request : LiveRequest F

def Daemon.CommandName.isLive : CommandName → Bool
  | .liveListen | .stopLive => true
  | _ => false

/-- A command on `sdr_commands`, of a live request or of another endpoint. -/
inductive SdrCommand (F : Type*)
  | live (r : Posted F)
  | other (c : Command F) (h : c.command.isLive = false)

def SdrCommand.command : SdrCommand F → Command F
  | .live r => r.request.command
  | .other c _ => c

def SdrCommand.posted : SdrCommand F → Option (Posted F)
  | .live r => some r
  | .other _ _ => none

/-- Whether the listener's next step ends its live command, and has acted on it then. -/
def Daemon.Control.liveOutcome (s : Control F) : Option Bool :=
  match s.listener with
  | .liveRetune _ | .liveStart _ | .stopClear => some true
  | .stopTestLive => if s.gLiveListen then none else some true
  | .liveTestScanning _ freqProvided => if s.gScanning || !freqProvided then some false else none
  | _ => none

/-- `isListeningLive`, the frequency of `selectedStation`, and the requests posted so far. -/
structure LivePage (F : Type*) where
  isListeningLive : Bool
  selectedStation : Option F
  mounted : Bool
  posted : ℕ

/-- The effect's request. -/
def LivePage.effect (p : LivePage F) : LiveRequest F :=
  match p.isListeningLive, p.selectedStation with
  | true, some freq => .start freq
  | _, _ => .stop

structure LiveClients (F : Type*) where
  daemon : Control F
  sdrCommands : List (SdrCommand F)
  pages : List (LivePage F)
  requests : List (Posted F)
  handling : Option (Posted F)
  acted : List (Posted F)

namespace LiveClients

def init (freq : F) : LiveClients F := ⟨.init freq, [], [], [], none, []⟩

/-- Page `i` posts a request. -/
def post (s : LiveClients F) (i : ℕ) (p : LivePage F) (r : LiveRequest F) : LiveClients F :=
  { s with
    requests := s.requests ++ [⟨i, p.posted, r⟩]
    pages := s.pages.set i { p with posted := p.posted + 1 } }

/-- A page is opened. -/
def mount (s : LiveClients F) : LiveClients F :=
  let p : LivePage F := ⟨false, none, true, 0⟩
  post { s with pages := s.pages ++ [p] } s.pages.length p p.effect

/-- Page `i` starts or stops listening, or selects another station: cleanup, then effect. -/
def set (s : LiveClients F) (i : ℕ) (isListeningLive : Bool) (selectedStation : Option F) :
    LiveClients F :=
  match s.pages[i]? with
  | none => s
  | some p =>
    if p.mounted then
      if p.isListeningLive then
        let p' : LivePage F := ⟨isListeningLive, selectedStation, true, p.posted + 1⟩
        (s.post i p .stop).post i p' p'.effect
      else
        let p' : LivePage F := ⟨isListeningLive, selectedStation, true, p.posted⟩
        s.post i p' p'.effect
    else s

/-- Page `i` is unmounted: cleanup. -/
def unmount (s : LiveClients F) (i : ℕ) : LiveClients F :=
  match s.pages[i]? with
  | none => s
  | some p =>
    if p.mounted then
      if p.isListeningLive then s.post i { p with mounted := false } .stop
      else { s with pages := s.pages.set i { p with mounted := false } }
    else s

/-- The `j`-th request under way reaches the API, or is lost. -/
def endpoint (s : LiveClients F) (j : ℕ) (arrives : Bool) : LiveClients F :=
  match s.requests[j]? with
  | none => s
  | some r =>
    { s with
      requests := s.requests.eraseIdx j
      sdrCommands := if arrives then s.sdrCommands ++ [.live r] else s.sdrCommands }

/-- Another endpoint publishes a command. -/
def publish (s : LiveClients F) (c : Command F) : LiveClients F :=
  if h : c.command.isLive = false then { s with sdrCommands := s.sdrCommands ++ [.other c h] }
  else s

/-- `commandListener` takes the next command. -/
def takeCommand (s : LiveClients F) : LiveClients F :=
  match s.sdrCommands, s.daemon.listener with
  | c :: rest, .idle =>
    { s with daemon := s.daemon.receive c.command, sdrCommands := rest, handling := c.posted }
  | _, _ => s

def commandListener (s : LiveClients F) (ok : Bool) : LiveClients F :=
  { s with
    daemon := s.daemon.commandListener ok
    handling := if s.daemon.liveOutcome.isSome then none else s.handling
    acted := if s.daemon.liveOutcome = some true then s.handling.toList ++ s.acted else s.acted }

inductive Act (F : Type*)
  | mount
  | set (i : ℕ) (isListeningLive : Bool) (selectedStation : Option F)
  | unmount (i : ℕ)
  | endpoint (j : ℕ) (arrives : Bool)
  | publish (c : Command F)
  | takeCommand
  | listener (ok : Bool)
  | recorder (i : ℕ) (ok : Bool)
  | live (i : ℕ) (ok : Bool)
  | scanComplete
  | output

def step (s : LiveClients F) : Act F → LiveClients F
  | .mount => s.mount
  | .set i isListeningLive selectedStation => s.set i isListeningLive selectedStation
  | .unmount i => s.unmount i
  | .endpoint j arrives => s.endpoint j arrives
  | .publish c => s.publish c
  | .takeCommand => s.takeCommand
  | .listener ok => s.commandListener ok
  | .recorder i ok => { s with daemon := s.daemon.recorderThread i ok }
  | .live i ok => { s with daemon := s.daemon.liveThread i ok }
  | .scanComplete => { s with daemon := s.daemon.scanComplete }
  | .output => { s with daemon := s.daemon.outputThread }

/-- The last request page `i` posted is a `start`, and the daemon acted on it. -/
def Listening (s : LiveClients F) (i : ℕ) : Prop :=
  ∃ p ∈ s.pages[i]?, ∃ r ∈ s.acted, r.page = i ∧ r.num + 1 = p.posted ∧ r.request.isStart = true
  deriving Decidable

/-- No live request is under way, to the API, to the daemon or in the listener. -/
def Settled (s : LiveClients F) : Prop :=
  s.requests = [] ∧ s.sdrCommands.filterMap (·.posted) = [] ∧ s.handling = none

end LiveClients

end AetherGuard
