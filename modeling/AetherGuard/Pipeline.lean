import AetherGuard.Client

/-!
# The pipeline from a recording to its summary

The daemon publishes `record_complete` on `ws_updates`; the API's `redisListenerThread` sends every
update to every client of `/ws/status`; each client answers a `record_complete` with a request to
transcribe and a `transcription_complete` with one to summarize; the API turns a request into a
command on `ai_commands`, and the AI worker takes the commands one by one, works on each for as long
as its model needs, and publishes the result on `ws_updates` again. Redis and the sockets keep the
order; requests arrive in any order or are lost. A client that closes its socket loses what it had
not read. Each message carries, for the model only, the number of the recording it goes back to.
-/

namespace AetherGuard

namespace Client

/-- A command on `ai_commands`. -/
inductive AiCommand (F : Type*)
  | transcribeLocal (freq : F)
  | summarizeLocal (freq : F) (text : String)
  | transcribeOpenai (freq : F)
  | summarizeOpenai (freq : F) (text : String)

variable {F : Type*}

/-- The command the API publishes for a request. -/
def Request.command : Request F → AiCommand F
  | .transcribe false freq => .transcribeLocal freq
  | .summarize false text freq => .summarizeLocal freq text
  | .transcribe true freq => .transcribeOpenai freq
  | .summarize true text freq => .summarizeOpenai freq text

def AiCommand.transcribes : AiCommand F → Bool
  | .transcribeLocal _ | .transcribeOpenai _ => true
  | _ => false

/-- `targetFreq` -/
def AiCommand.freq : AiCommand F → F
  | .transcribeLocal freq | .transcribeOpenai freq => freq
  | .summarizeLocal freq _ | .summarizeOpenai freq _ => freq

/-- The update the worker publishes when the model answers `out`. -/
def AiCommand.result (out : String) (c : AiCommand F) : Update F :=
  if c.transcribes then .transcriptionComplete c.freq out else .summaryComplete c.freq out

/-- A message, and the recording it goes back to. -/
structure Tagged (β : Type*) where
  record : ℕ
  item : β

/-- A client of `/ws/status`, with what its socket has yet to deliver. -/
structure Browser (F : Type*) where
  connected : Bool
  useOpenAI : Bool
  inbox : List (Tagged (Update F))

structure Pipeline (F : Type*) where
  records : ℕ
  wsUpdates : List (Tagged (Update F))
  clients : List (Browser F)
  requests : List (Tagged (Request F))
  aiCommands : List (Tagged (AiCommand F))
  /-- The command the worker has taken and not yet answered. -/
  working : Option (Tagged (AiCommand F))
  processed : List (Tagged (AiCommand F))

namespace Pipeline

/-- `k` clients, all connected. -/
def init (k : ℕ) : Pipeline F where
  records := 0
  wsUpdates := []
  clients := List.replicate k ⟨true, false, []⟩
  requests := []
  aiCommands := []
  working := none
  processed := []

/-- The daemon publishes a `record_complete`. -/
def recordComplete (s : Pipeline F) (freq : F) : Pipeline F :=
  { s with
    records := s.records + 1
    wsUpdates := s.wsUpdates ++ [⟨s.records, .recordComplete freq⟩] }

/-- `send_text` -/
def Browser.sendText (c : Browser F) (u : Tagged (Update F)) : Browser F :=
  if c.connected then { c with inbox := c.inbox ++ [u] } else c

def redisListenerThread (s : Pipeline F) : Pipeline F :=
  match s.wsUpdates with
  | [] => s
  | u :: rest => { s with wsUpdates := rest, clients := s.clients.map (Browser.sendText · u) }

/-- Client `i` handles its next message. -/
def onmessage (s : Pipeline F) (i : ℕ) : Pipeline F :=
  match s.clients[i]? with
  | none => s
  | some c =>
    match c.inbox with
    | [] => s
    | u :: rest =>
      { s with
        clients := s.clients.set i { c with inbox := rest }
        requests := s.requests ++ ((u.item.request c.useOpenAI).map fun r => ⟨u.record, r⟩).toList }

/-- The socket of client `i` is closed. -/
def close (s : Pipeline F) (i : ℕ) : Pipeline F :=
  match s.clients[i]? with
  | none => s
  | some c => { s with clients := s.clients.set i { c with connected := false, inbox := [] } }

/-- Client `i` opens a socket. -/
def connect (s : Pipeline F) (i : ℕ) (useOpenAI : Bool) : Pipeline F :=
  match s.clients[i]? with
  | none => s
  | some c =>
    if c.connected then s else { s with clients := s.clients.set i ⟨true, useOpenAI, []⟩ }

/-- The `j`-th request under way reaches the API, or is lost. -/
def endpoint (s : Pipeline F) (j : ℕ) (arrives : Bool) : Pipeline F :=
  match s.requests[j]? with
  | none => s
  | some r =>
    { s with
      requests := s.requests.eraseIdx j
      aiCommands := if arrives then s.aiCommands ++ [⟨r.record, r.item.command⟩]
        else s.aiCommands }

/-- The worker takes the next command. -/
def take (s : Pipeline F) : Pipeline F :=
  match s.working, s.aiCommands with
  | none, c :: rest => { s with working := some c, aiCommands := rest }
  | _, _ => s

/-- The worker is done with its command; the model has answered `out`. -/
def worker (s : Pipeline F) (out : String) : Pipeline F :=
  match s.working with
  | none => s
  | some c =>
    { s with
      working := none
      wsUpdates := s.wsUpdates ++ [⟨c.record, c.item.result out⟩]
      processed := s.processed ++ [c] }

inductive Act (F : Type*)
  | recordComplete (freq : F)
  | redisListener
  | onmessage (i : ℕ)
  | close (i : ℕ)
  | connect (i : ℕ) (useOpenAI : Bool)
  | endpoint (j : ℕ) (arrives : Bool)
  | take
  | worker (out : String)

def step (s : Pipeline F) : Act F → Pipeline F
  | .recordComplete freq => s.recordComplete freq
  | .redisListener => s.redisListenerThread
  | .onmessage i => s.onmessage i
  | .close i => s.close i
  | .connect i useOpenAI => s.connect i useOpenAI
  | .endpoint j arrives => s.endpoint j arrives
  | .take => s.take
  | .worker out => s.worker out

/-- The `TRANSCRIBE` commands processed that go back to recording `r`. -/
def transcribed (s : Pipeline F) (r : ℕ) : ℕ :=
  s.processed.countP fun c => c.item.transcribes && c.record == r

/-- The `SUMMARIZE` commands processed that go back to recording `r`. -/
def summarized (s : Pipeline F) (r : ℕ) : ℕ :=
  s.processed.countP fun c => !c.item.transcribes && c.record == r

end Pipeline

end Client

end AetherGuard
