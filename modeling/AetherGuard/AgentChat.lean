import AetherGuard.Lib.Json
import AetherGuard.Database
import AetherGuard.SearchDispatch

/-!
# The database agent

`/api/agent/chat` sends the user's messages to a model in the cloud, carries out the tool calls that
the model asks for, and sends a second list of messages with the results. It goes through the calls
twice, once to repeat them and once to answer them. The texts of the model are read with Crow, whose
accesses throw, and a search throws if the frequency is no number; nothing in the handler catches an
exception, which is `none` here. What `crow::json::load` makes of a text, what the model answers,
which numbers are in the range of `double` and how `std::to_string` writes one are parameters.
-/

namespace AetherGuard

namespace AgentChat

open Database (Db Reply)

structure World (F : Type*) where
  load : String → Option (Json F)
  callOpenAI : Json F → String
  /-- `OPENAI_API_KEY`, or the empty string. -/
  apiKey : String
  inRange : ℚ → Bool
  doubleText : ℚ → String

/-- The body of the response. -/
inductive Response
  | error (text : String)
  | answer (text : String)
  deriving DecidableEq

/-- A run of the handler: what it has sent to the model, its response, and the database after it. -/
structure Chat (F : Type*) where
  payloads : List (Json F)
  response : Option Response
  db : Db

variable {F : Type*}

/-! ### Messages -/

def message (role content : String) : Json F :=
  .object [("role", .string role), ("content", .string content)]

def systemContent : String :=
  "You are the AetherGuard Database Agent, a strict, highly analytical radio intelligence " ++
  "assistant. Your SOLE purpose is to query the SQLite database to answer questions about " ++
  "intercepted radio transmissions. \n\nCRITICAL RULE: You are completely forbidden from " ++
  "answering general knowledge questions, giving lifestyle advice, or discussing topics " ++
  "outside the AetherGuard database. If a user asks an unrelated question (e.g., restaurants, " ++
  "weather, general trivia) or a question you cannot answer using your database search tools, " ++
  "do not use your general knowledge. You MUST reply exactly with: 'This query is outside my " ++
  "operational scope. I can only provide intelligence based on intercepted radio logs.'"

def sysMsg : Json F := message "system" systemContent

/-- A round of the loops over `body["messages"]`. -/
def userMsg (msg : Json F) : Option (Json F) :=
  (msg.stringAt ["role"]).bind fun role => (msg.stringAt ["content"]).map (message role)

def userMsgs (body : Json F) : Option (List (Json F)) :=
  ((body.get "messages").bind Json.elements).bind fun msgs => msgs.mapM userMsg

def tool : Json F :=
  .object [("type", .string "function"), ("function", .object [
    ("name", .string "searchDatabase"),
    ("description", .string ("Search the intercepted radio database by frequency or keyword. " ++
      "Use this to find any requested logs.")),
    ("parameters", .object [("type", .string "object"), ("properties", .object [
      ("freq", .object [("type", .string "string"),
        ("description", .string "Frequency in MHz (e.g. '154.280')")]),
      ("keyword", .object [("type", .string "string"),
        ("description", .string "Keyword to search in summaries or raw text")])])])])]

def payload (messages : List (Json F)) : Json F :=
  .object [("model", .string "gpt-4o-mini"), ("tools", .list [tool]),
    ("tool_choice", .string "auto"), ("messages", .list messages)]

def payload2 (messages2 : List (Json F)) : Json F :=
  .object [("model", .string "gpt-4o-mini"), ("messages", .list messages2)]

/-! ### Tool calls -/

structure ToolCall where
  id : String
  type : String
  name : String
  arguments : String
  deriving DecidableEq

def ToolCall.json (call : ToolCall) : Json F :=
  .object [("id", .string call.id), ("type", .string call.type),
    ("function", .object [("name", .string call.name), ("arguments", .string call.arguments)])]

/-- A round of the loop that repeats the calls. -/
def tCall (tc : Json F) : Option (Json F) :=
  (tc.stringAt ["id"]).bind fun id =>
    (tc.stringAt ["type"]).bind fun type =>
      (tc.stringAt ["function", "name"]).bind fun name =>
        (tc.stringAt ["function", "arguments"]).map fun arguments =>
          ToolCall.json ⟨id, type, name, arguments⟩

def assistantMsg (tCalls : List (Json F)) : Json F :=
  .object [("role", .string "assistant"), ("tool_calls", .list tCalls)]

def toolResultMsg (toolId dbResultText : String) : Json F :=
  .object [("role", .string "tool"), ("tool_call_id", .string toolId),
    ("content", .string dbResultText)]

/-- A member of the arguments, and the empty string where it is missing; arguments that are no JSON
throw as soon as they are asked for a member. -/
def argument (args : Option (Json F)) (key : String) : Option String :=
  args.bind fun args =>
    (args.has key).bind fun hasKey => if hasKey then args.stringAt [key] else some ""

section Search

variable (w : World F) (replies : ℕ → Reply)

/-- `advancedSearch(freq, "", keyword, "", "")`. No frequency in the table is near an infinity, or
near what is no number. -/
def advancedSearch (freq keyword : Text) : Db → Option (List RadioLog) × Db :=
  let parsed := if freq.isEmpty then none else LogStore.stod w.inRange freq
  match parsed with
  | some (.inf _) | some .nan => Database.filter replies (some fun _ => [])
  | some (.finite x) =>
    Database.advancedSearch replies (fun _ => some x) (fun _ => none) ⟨freq, [], keyword, [], []⟩
  | none =>
    Database.advancedSearch replies (fun _ => none) (fun _ => none) ⟨freq, [], keyword, [], []⟩

def logLine (log : RadioLog) : String :=
  "- [" ++ toString log.time ++ "] " ++ String.ofList log.channelName ++ " (" ++
    w.doubleText log.freq ++ " MHz): " ++ String.ofList log.summary ++ "\n"

/-- The text of the result, with ten logs at most. -/
def resultText (logs : List RadioLog) : String :=
  if logs.isEmpty then "No results found."
  else "Found " ++ toString logs.length ++ " logs:\n"
    ++ String.join ((logs.take 10).map (logLine w))

def dbResultText (funcName : String) (args : Option (Json F)) (db : Db) : Option String × Db :=
  if funcName = "searchDatabase" ∨ funcName = "searchDatabaseKeywords" then
    match (argument args "freq").bind fun freq => (argument args "keyword").map fun keyword =>
      (freq, keyword) with
    | none => (none, db)
    | some (freq, keyword) =>
      let (logs, db) := advancedSearch w replies freq.toList keyword.toList db
      (logs.map (resultText w), db)
  else (some "No results found.", db)

/-- A round of the loop that answers the calls. -/
def answerCall (tc : Json F) (db : Db) : Option (Json F) × Db :=
  match (tc.stringAt ["id"]).bind fun toolId =>
    (tc.stringAt ["function", "name"]).bind fun funcName =>
    (tc.stringAt ["function", "arguments"]).map fun argsStr => (toolId, funcName, argsStr) with
  | none => (none, db)
  | some (toolId, funcName, argsStr) =>
    let (text, db) := dbResultText w replies funcName (w.load argsStr) db
    (text.map (toolResultMsg toolId), db)

def answerCalls : List (Json F) → Db → Option (List (Json F)) × Db
  | [], db => (some [], db)
  | tc :: tcs, db =>
    match answerCall w replies tc db with
    | (none, db) => (none, db)
    | (some msg, db) =>
      let (msgs, db) := answerCalls tcs db
      (msgs.map (msg :: ·), db)

/-- The second list of messages. -/
def messages2 (body messageNode : Json F) (db : Db) : Option (List (Json F)) × Db :=
  match (userMsgs body).bind fun users =>
    ((messageNode.get "tool_calls").bind Json.elements).bind fun tcs =>
      (tcs.mapM tCall).map fun tCalls => (tcs, sysMsg :: users ++ [assistantMsg tCalls]) with
  | none => (none, db)
  | some (tcs, msgs) =>
    let (toolMsgs, db) := answerCalls w replies tcs db
    (toolMsgs.map (msgs ++ ·), db)

end Search

/-! ### The handler -/

section Handler

variable (w : World F)

/-- `["choices"][0]["message"]` of a response, or `some none` where it is no JSON or has
no `choices`. -/
def messageNode (response : String) : Option (Option (Json F)) :=
  match w.load response with
  | none => some none
  | some json =>
    (json.has "choices").bind fun hasChoices =>
      if hasChoices then (((json.get "choices").bind (Json.nth 0)).bind (·.get "message")).map some
      else some none

def finalResponse (response : String) : Option Response :=
  (messageNode w response).bind fun
    | none => some (.answer "Error: OpenAI second API failure.")
    | some node => (node.stringAt ["content"]).map .answer

/-- `/api/agent/chat` -/
def agentChat (replies : ℕ → Reply) (req : String) (db : Db) : Chat F :=
  match w.load req with
  | none => ⟨[], some (.error "Invalid JSON"), db⟩
  | some body =>
    if w.apiKey = "" then ⟨[], some (.error "OpenAI API key missing"), db⟩
    else
      match userMsgs body with
      | none => ⟨[], none, db⟩
      | some users =>
        let first := payload (sysMsg :: users)
        match messageNode w (w.callOpenAI first) with
        | none => ⟨[first], none, db⟩
        | some none => ⟨[first], some (.answer "Error: OpenAI API failure."), db⟩
        | some (some node) =>
          match node.has "tool_calls" with
          | none => ⟨[first], none, db⟩
          | some false => ⟨[first], (node.stringAt ["content"]).map .answer, db⟩
          | some true =>
            match messages2 w replies body node db with
            | (none, db) => ⟨[first], none, db⟩
            | (some msgs, db) =>
              let second := payload2 msgs
              ⟨[first, second], finalResponse w (w.callOpenAI second), db⟩

end Handler

end AgentChat

end AetherGuard
