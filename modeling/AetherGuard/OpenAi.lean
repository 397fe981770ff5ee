import AetherGuard.Messages

/-!
# The models in the cloud

`transcribeAudio` and `summarizeText` send a request with cURL and read a text out of the response,
with a `try` that catches `json::parse_error` and nothing else. What cURL makes of a request and
what `json::parse` makes of a body are parameters; besides a `parse_error`, `json::parse` throws an
`out_of_range` on a number that is too large for a `double`. `payload.dump()` stands before the
`try` and throws a `type_error` on a text that is not UTF-8. Nothing in the worker catches what the
two functions throw.
-/

namespace AetherGuard

namespace AiWorker

variable {F : Type*}

/-- What a request carries: the form with the sound file, or a document. -/
inductive Content (F : Type*)
  | form (file model : String)
  | payload (json : Json F)

structure Request (F : Type*) where
  url : String
  headers : List String
  content : Content F

structure Curl (F : Type*) where
  /-- Whether `curl_easy_init` returns a handle. -/
  inits : Bool
  /-- The result code of the transfer, and the bytes that have been received. -/
  perform : Request F → ℕ × Bytes

def curleOk : ℕ := 0

def authHeader (apiKey : String) : String := "Authorization: Bearer " ++ apiKey

def transcriptionRequest (filePath apiKey : String) : Request F where
  url := "https://api.openai.com/v1/audio/transcriptions"
  headers := [authHeader apiKey]
  content := .form filePath "whisper-1"

def summaryPrompt : String :=
  "You are an automated radio intelligence system. Analyze intercepted transcripts and " ++
  "categorize them using exactly one of these labels: [News, Sports, Music, Religion, Talk " ++
  "Radio, Emergency, Advertisement, Unknown]. Provide a strict 1-2 sentence summary of the " ++
  "core subject. Do not include conversational filler. You must format your exact response " ++
  "like this: [Category] - [Summary]."

def summaryPayload (transcript : String) : Json F :=
  .object [("model", .string "gpt-4o-mini"), ("messages", .list [
    .object [("role", .string "system"), ("content", .string summaryPrompt)],
    .object [("role", .string "user"), ("content", .string ("Transcript:\n\n" ++ transcript))]])]

/-- The request with the payload dumped. -/
def summaryRequest (transcript : Bytes) (apiKey : String) : Except Json.Error (Request F) :=
  match String.fromUTF8? ⟨transcript.toArray⟩ with
  | none => .error .typeError
  | some text => .ok {
      url := "https://api.openai.com/v1/chat/completions"
      headers := ["Content-Type: application/json", authHeader apiKey]
      content := .payload (summaryPayload text) }

/-- `catch (json::parse_error& e)`, after which both functions return the empty string. -/
def catchParseError : Except Json.Error String → Except Json.Error String
  | .error .parseError => .ok ""
  | result => result

/-- What is read from a transcription. -/
def readText (j : Json F) : Except Json.Error String :=
  if j.contains "text" then (j.member "text").bind Json.text
  else .ok ""

/-- What is read from a completion. -/
def readContent (j : Json F) : Except Json.Error String :=
  if j.contains "choices" then
    (j.member "choices").bind fun choices =>
      if !choices.isEmpty then
        (choices.item 0).bind fun choice =>
          (choice.member "message").bind fun message => (message.member "content").bind Json.text
      else .ok ""
  else .ok ""

section Calls

variable (curl : Curl F) (parse : Bytes → Except Json.Error (Json F))

/-- What the two functions have in common: the request is sent, and the response read by `read`. -/
def ask (request : Except Json.Error (Request F)) (read : Json F → Except Json.Error String) :
    Except Json.Error String :=
  if curl.inits then
    request.bind fun request =>
      let (res, responseString) := curl.perform request
      if res ≠ curleOk then .ok ""
      else catchParseError ((parse responseString).bind read)
  else .ok ""

def transcribeAudio (filePath apiKey : String) : Except Json.Error String :=
  ask curl parse (.ok (transcriptionRequest filePath apiKey)) readText

def summarizeText (transcript : Bytes) (apiKey : String) : Except Json.Error String :=
  if transcript.isEmpty then .ok ""
  else ask curl parse (summaryRequest transcript apiKey) readContent

/-- The branches of `main` on `cmd`, with the calls to the cloud; `bytes` is what a string of the
message is as a `std::string`. -/
def cloudCommand (engines : Engines) (bytes : String → Bytes) (apiKey : String) (json : Json F)
    (cmd : String) (targetFreq : F) : Option (List (Event F)) :=
  if cmd = "TRANSCRIBE_OPENAI" then
    (transcribeAudio curl parse "/app/shared/audio/audio.wav" apiKey).toOption.map fun text =>
      [.transcriptionComplete text targetFreq]
  else if cmd = "SUMMARIZE_OPENAI" then
    ((json.get "text").bind Json.s).bind fun text =>
      (summarizeText curl parse (bytes text) apiKey).toOption.map fun summary =>
        [.summaryComplete summary targetFreq]
  else command engines json cmd targetFreq

/-- A round of `main`. -/
def cloudMain (load : Bytes → Option (Json F)) (engines : Engines) (bytes : String → Bytes)
    (apiKey : String) (msg : Bytes) : Option (List (Event F)) :=
  match load (cBytes msg) with
  | none => some []
  | some json =>
    ((json.get "command").bind Json.s).bind fun cmd =>
      ((json.get "freq").bind Json.d).bind fun targetFreq =>
        cloudCommand curl parse engines bytes apiKey json cmd targetFreq

end Calls

end AiWorker

end AetherGuard
