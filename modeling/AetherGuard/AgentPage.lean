import AetherGuard.AgentChat
import AetherGuard.Lib.Machine

/-!
# The agent's page

`handleAgentSubmit` adds the user's text to the conversation on the page and posts the last messages
of it to `/api/agent/chat`; whatever the request comes to is added to the conversation in the
assistant's name. The handler runs at some time in between, or never, and the connection can fail at
any time, also after the handler has run. A submit is one step up to the `fetch`, and what follows
the `fetch` is another. What `trim` and `JSON.stringify` make of a text are parameters. For the
model only the state keeps the runs of the handler.
-/

namespace AetherGuard

open Database (Db Reply)
open AgentChat (Chat World)

inductive Role
  | user
  | assistant
  deriving DecidableEq

def Role.text : Role → String
  | .user => "user"
  | .assistant => "assistant"

structure AgentMessage where
  role : Role
  content : String
  deriving DecidableEq

def AgentMessage.json {F : Type*} (msg : AgentMessage) : Json F :=
  AgentChat.message msg.role.text msg.content

/-- A `fetch` that is under way: the messages it posts and, once the handler has run,
its response. -/
structure Fetch where
  newMessages : List AgentMessage
  response : Option (Option AgentChat.Response)

structure AgentPage (F : Type*) where
  agentMessages : List AgentMessage
  agentInput : String
  isAgentThinking : Bool
  fetches : List Fetch
  db : Db
  chats : List (List AgentMessage × Chat F)

namespace AgentPage

variable {F : Type*}

def init (db : Db) : AgentPage F := ⟨[], "", false, [], db, []⟩

/-- The body of the request. -/
def body (newMessages : List AgentMessage) : Json F :=
  .object [("messages", .list (newMessages.map AgentMessage.json))]

/-- What is shown for a response; one that is no JSON, as of a handler that throws, ends in
the `catch`. -/
def answer : Option AgentChat.Response → String
  | none => "Connection error."
  | some (.error _) => "Error: Agent failed to respond."
  | some (.answer text) => if text = "" then "Error: Agent failed to respond." else text

variable (w : World F) (stringify : Json F → String) (trim : String → String)

def handleAgentSubmit (s : AgentPage F) : AgentPage F :=
  let userText := trim s.agentInput
  if userText = "" ∨ s.isAgentThinking then s
  else
    -- `agentMessages.slice(-4)`
    let recentHistory := s.agentMessages.drop (s.agentMessages.length - 4)
    { s with
      agentInput := ""
      isAgentThinking := true
      agentMessages := s.agentMessages ++ [⟨.user, userText⟩]
      fetches := s.fetches ++ [⟨recentHistory ++ [⟨.user, userText⟩], none⟩] }

/-- The handler runs for a request. -/
def handle (s : AgentPage F) (i : ℕ) (replies : ℕ → Reply) : AgentPage F :=
  match s.fetches[i]? with
  | some ⟨newMessages, none⟩ =>
    let chat := AgentChat.agentChat w replies (stringify (body newMessages)) s.db
    { s with
      fetches := s.fetches.set i ⟨newMessages, some chat.response⟩
      db := chat.db
      chats := s.chats ++ [(newMessages, chat)] }
  | _ => s

/-- A `fetch` is over, and the page adds this message. -/
def finish (s : AgentPage F) (i : ℕ) (content : String) : AgentPage F :=
  { s with
    agentMessages := s.agentMessages ++ [⟨.assistant, content⟩]
    isAgentThinking := false
    fetches := s.fetches.eraseIdx i }

/-- The response arrives. -/
def settle (s : AgentPage F) (i : ℕ) : AgentPage F :=
  match s.fetches[i]? with
  | some ⟨_, some response⟩ => s.finish i (answer response)
  | _ => s

/-- The connection fails. -/
def fail (s : AgentPage F) (i : ℕ) : AgentPage F :=
  match s.fetches[i]? with
  | some _ => s.finish i "Connection error."
  | none => s

inductive Act
  | input (agentInput : String)
  | submit
  | handle (i : ℕ) (replies : ℕ → Reply)
  | settle (i : ℕ)
  | fail (i : ℕ)

def step (s : AgentPage F) : Act → AgentPage F
  | .input agentInput => { s with agentInput }
  | .submit => s.handleAgentSubmit trim
  | .handle i replies => s.handle w stringify i replies
  | .settle i => s.settle i
  | .fail i => s.fail i

/-! ### Conversations -/

/-- Questions, each with its answer. -/
def talk (past : List (String × String)) : List AgentMessage :=
  past.flatMap fun turn => [⟨.user, turn.1⟩, ⟨.assistant, turn.2⟩]

/-- A question, after the last two questions before it and their answers. -/
def request (past : List (String × String)) (question : String) : List AgentMessage :=
  talk (past.drop (past.length - 2)) ++ [⟨.user, question⟩]

end AgentPage

end AetherGuard
