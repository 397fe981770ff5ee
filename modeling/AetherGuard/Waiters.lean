import AetherGuard.Gateway

/-!
# Those who wait for the daemon

`/api/scan/wideband` publishes a `SCAN`, then subscribes to `ws_updates` and blocks until it reads a
`scan_complete`. A client that wants a recording posts to `/api/scan/record`, is told
`recording_started` as soon as the `RECORD` is published, and waits for the `record_complete` that
`redisListenerThread` sends to the clients of `/ws/status`. Redis delivers a message, in order, to
the subscribers present when it is published: the API's `redisListenerThread` is always one of them.
A client waits from the moment the API answers it; it waits by frequency, as its jobs are kept.
-/

namespace AetherGuard

open Daemon

variable {F : Type*}

/-- An event on `ws_updates`. -/
inductive WsUpdate (F : Type*)
  | scanComplete
  | recordComplete (freq : F)
  deriving DecidableEq

/-- A call of `/api/scan/wideband`: it has published, waits with what its subscription holds, or has
answered. -/
inductive Wideband (F : Type*)
  | published
  | waiting (inbox : List (WsUpdate F))
  | answered
  deriving DecidableEq

/-- A subscriber gets a message. -/
def Wideband.deliver (u : WsUpdate F) : Wideband F → Wideband F
  | .waiting inbox => .waiting (inbox ++ [u])
  | h => h

/-- A client of `/ws/status`, with what its socket has yet to deliver and the frequencies whose
`record_complete` it waits for. -/
structure StatusClient (F : Type*) where
  connected : Bool
  inbox : List (WsUpdate F)
  waits : List F

/-- `send_text` -/
def StatusClient.sendText (u : WsUpdate F) (c : StatusClient F) : StatusClient F :=
  if c.connected then { c with inbox := c.inbox ++ [u] } else c

/-- The client handles its next message. -/
def StatusClient.onmessage [DecidableEq F] (c : StatusClient F) : StatusClient F :=
  match c.inbox with
  | [] => c
  | .scanComplete :: rest => { c with inbox := rest }
  | .recordComplete f :: rest => { c with inbox := rest, waits := c.waits.filter (· ≠ f) }

/-- The frequency of a `RECORD`. -/
def Daemon.Command.records (c : Command F) : Option F :=
  match c.command, c.freq with
  | .record, .value f => some f
  | _, _ => none

def Daemon.Command.scans (c : Command F) : Bool :=
  match c.command with
  | .scan => true
  | _ => false

/-- The frequency of the `RECORD` that the listener handles. -/
def Daemon.Listener.records : Listener F → Option F
  | .recordTestScanning f | .recordTestRecording f | .recordStart f => some f
  | _ => none

/-- The listener handles a `SCAN` and has not set `g_scanning` yet. -/
def Daemon.Listener.scans : Listener F → Bool
  | .scanTestScanning | .scanTestRecording | .scanTestLive | .scanSet => true
  | _ => false

namespace Gateway

/-- A `SCAN` is still to be handled, or a scan is running. -/
def ScanPending (g : Gateway F) : Prop :=
  (∃ c ∈ g.sdrCommands, c.scans = true) ∨ g.daemon.listener.scans = true
    ∨ g.daemon.gScanning = true
  deriving Decidable

/-- A recorder of `f` has not ended. -/
def Recording (g : Gateway F) (f : F) : Prop :=
  ∃ r ∈ g.daemon.recorders, r.targetFreq = f ∧ r.pc ≠ .done

/-- A `RECORD` of `f` is still to be handled, or a recording of `f` is running. -/
def RecordPending (g : Gateway F) (f : F) : Prop :=
  (∃ c ∈ g.sdrCommands, c.records = some f) ∨ g.daemon.listener.records = some f ∨ g.Recording f

instance [DecidableEq F] (g : Gateway F) (f : F) : Decidable (g.Recording f) :=
  inferInstanceAs (Decidable (∃ r ∈ g.daemon.recorders, r.targetFreq = f ∧ r.pc ≠ .done))

instance [DecidableEq F] (g : Gateway F) (f : F) : Decidable (g.RecordPending f) :=
  inferInstanceAs (Decidable (_ ∨ _ ∨ _))

end Gateway

/-- `ctrlReader` says that `ctrlReaderThread` has a `scan_complete` to publish. -/
structure Waiters (F : Type*) where
  gateway : Gateway F
  ctrlReader : Bool
  wsUpdates : List (WsUpdate F)
  handlers : List (Wideband F)
  clients : List (StatusClient F)
  posts : List (ℕ × F)

namespace Waiters

def init (freq : F) : Waiters F := ⟨.init freq, false, [], [], [], []⟩

/-- `PUBLISH ws_updates` -/
def publishUpdate (s : Waiters F) (u : WsUpdate F) : Waiters F :=
  { s with wsUpdates := s.wsUpdates ++ [u], handlers := s.handlers.map (Wideband.deliver u) }

/-- `/api/scan/wideband` is called. -/
def wideband (s : Waiters F) : Waiters F :=
  { s with gateway := s.gateway.publish scanCommand, handlers := s.handlers ++ [.published] }

def subscribe (s : Waiters F) (i : ℕ) : Waiters F :=
  match s.handlers[i]? with
  | some .published => { s with handlers := s.handlers.set i (.waiting []) }
  | _ => s

/-- Handler `i` reads the next message of its subscription. -/
def redisGetReply (s : Waiters F) (i : ℕ) : Waiters F :=
  match s.handlers[i]? with
  | some (.waiting (.scanComplete :: _)) => { s with handlers := s.handlers.set i .answered }
  | some (.waiting (.recordComplete _ :: rest)) =>
    { s with handlers := s.handlers.set i (.waiting rest) }
  | _ => s

/-- The `j`-th post reaches `/api/scan/record`, or is lost. -/
def record (s : Waiters F) (j : ℕ) (arrives : Bool) : Waiters F :=
  match s.posts[j]? with
  | none => s
  | some (i, f) =>
    if arrives then
      { s with
        posts := s.posts.eraseIdx j
        gateway := s.gateway.publish (recordCommand f)
        clients := s.clients.modify i fun c => { c with waits := f :: c.waits } }
    else { s with posts := s.posts.eraseIdx j }

/-- A step of a thread of the daemon other than `ctrlReaderThread`. -/
def daemonStep (s : Waiters F) (a : Control.Act F) : Waiters F :=
  match a with
  | .command _ | .scanComplete => s
  | a =>
    let s' := { s with gateway := s.gateway.daemonStep a }
    match s.gateway.daemon.publishes a with
    | some (_, f) => s'.publishUpdate (.recordComplete f)
    | none => s'

/-- `ctrlReaderThread` receives a `scan_complete` and clears `g_scanning`. -/
def scanComplete (s : Waiters F) : Waiters F :=
  if s.ctrlReader then s
  else { s with gateway := s.gateway.daemonStep .scanComplete, ctrlReader := true }

/-- `ctrlReaderThread` publishes it. -/
def publishScan (s : Waiters F) : Waiters F :=
  if s.ctrlReader then { s.publishUpdate .scanComplete with ctrlReader := false } else s

def redisListenerThread (s : Waiters F) : Waiters F :=
  match s.wsUpdates with
  | [] => s
  | u :: rest => { s with wsUpdates := rest, clients := s.clients.map (StatusClient.sendText u) }

inductive Act (F : Type*)
  | tune (freq : F)
  | live (start : Bool) (freq : Option F)
  | wideband
  | subscribe (i : ℕ)
  | redisGetReply (i : ℕ)
  | newClient
  | close (i : ℕ)
  | connect (i : ℕ)
  | handleScan (i : ℕ) (freq : F)
  | record (j : ℕ) (arrives : Bool)
  | takeCommand
  | daemon (a : Control.Act F)
  | scanComplete
  | publishScan
  | redisListener
  | onmessage (i : ℕ)

def step [DecidableEq F] (s : Waiters F) : Act F → Waiters F
  | .tune freq => { s with gateway := s.gateway.publish (tuneCommand freq) }
  | .live start freq => { s with gateway := s.gateway.publish (liveCommand start freq) }
  | .wideband => s.wideband
  | .subscribe i => s.subscribe i
  | .redisGetReply i => s.redisGetReply i
  | .newClient => { s with clients := s.clients ++ [⟨true, [], []⟩] }
  | .close i =>
    { s with clients := s.clients.modify i fun c => { c with connected := false, inbox := [] } }
  | .connect i => { s with clients := s.clients.modify i fun c => { c with connected := true } }
  | .handleScan i freq => { s with posts := s.posts ++ [(i, freq)] }
  | .record j arrives => s.record j arrives
  | .takeCommand => { s with gateway := s.gateway.takeCommand }
  | .daemon a => s.daemonStep a
  | .scanComplete => s.scanComplete
  | .publishScan => s.publishScan
  | .redisListener => s.redisListenerThread
  | .onmessage i => { s with clients := s.clients.modify i StatusClient.onmessage }

/-- A `scan_complete` is still to be published. -/
def ScanPending (s : Waiters F) : Prop := s.gateway.ScanPending ∨ s.ctrlReader = true
  deriving Decidable

/-- Whoever waits has its event on the way to it, or what it waits for pending or running. -/
structure NoOrphan (s : Waiters F) : Prop where
  wideband : ∀ inbox, .waiting inbox ∈ s.handlers → .scanComplete ∈ inbox ∨ s.ScanPending
  record : ∀ c ∈ s.clients, ∀ f ∈ c.waits, .recordComplete f ∈ c.inbox
    ∨ (c.connected = true ∧ .recordComplete f ∈ s.wsUpdates) ∨ s.gateway.RecordPending f

end Waiters

end AetherGuard
