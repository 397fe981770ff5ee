import AetherGuard.Lib.Json
import AetherGuard.Control

/-!
# Messages as they arrive

`commandListener` and the AI worker take the payload of a Redis message, and `ctrlReaderThread` a
line from the relay. Each loads it as JSON, goes on to the next if that fails, and then reads the
fields it needs, without a `try`. What `crow::json::load` makes of a text and what `std::stod` makes
of a string are parameters (`none` if it fails); `none` as the result of handling a message is an
exception that nobody catches. The events that `ctrlReaderThread` only passes on to Redis change
nothing here.
-/

namespace AetherGuard

/-- A `std::string`, or what `recv` returns. -/
abbrev Bytes := List UInt8

/-- The C string that a payload is read as. -/
def cBytes (msg : Bytes) : Bytes := msg.takeWhile (· ≠ 0)

namespace Daemon

variable {F : Type*}

def commandName (cmd : String) : CommandName :=
  if cmd = "TUNE" then .tune
  else if cmd = "RECORD" then .record
  else if cmd = "LIVE_LISTEN" then .liveListen
  else if cmd = "STOP_LIVE" then .stopLive
  else if cmd = "SCAN" then .scan
  else .other

section Commands

variable (load : Bytes → Option (Json F)) (stod : String → Option F)

/-- `json["freq"]`, where it is there. -/
def freqValue : Json F → Option (FreqField F)
  | .number f => some (.value f)
  | .string t => (stod t).map .value
  | _ => some .other

def freqField (json : Json F) : Option (FreqField F) :=
  (json.has "freq").bind fun hasFreq =>
    if hasFreq then (json.get "freq").bind (freqValue stod) else some .absent

def parseCommand (json : Json F) : Option (Command F) :=
  ((json.get "command").bind Json.s).bind fun cmd =>
    (freqField stod json).map fun freq => ⟨commandName cmd, freq⟩

/-- `commandListener` takes a message. -/
def Control.takeMessage (s : Control F) (msg : Bytes) : Option (Control F) :=
  match load (cBytes msg) with
  | none => some s
  | some json => (parseCommand stod json).map s.receive

/-- `commandListener` goes on to the end of its branch, which takes five steps at most. -/
def Control.finish (s : Control F) (ok : Bool) : Control F :=
  Machine.run Control.commandListener s (List.replicate 5 ok)

/-- `commandListener` handles a message; `ok` is whether its send succeeds. -/
def Control.handleMessage (s : Control F) (msg : Bytes) (ok : Bool) : Option (Control F) :=
  (s.takeMessage load stod msg).map (·.finish ok)

end Commands

section Lines

variable (load : Bytes → Option (Json F))

def eventOf (json : Json F) : Option String :=
  (json.has "event").bind fun hasEvent =>
    if hasEvent then (json.get "event").bind Json.s else some ""

/-- `ctrlReaderThread` handles a line from the relay. -/
def Control.handleLine (s : Control F) (line : Bytes) : Option (Control F) :=
  match load line with
  | none => some s
  | some json => (eventOf json).map fun event =>
    if event = "scan_complete" then s.scanComplete else s

end Lines

end Daemon

namespace AiWorker

variable {F : Type*}

/-- What the worker publishes. -/
inductive Event (F : Type*)
  | transcriptionComplete (text : String) (freq : F)
  | summaryComplete (summary : String) (freq : F)

/-- The models, local and in the cloud. -/
structure Engines where
  transcribe : String
  generateSummary : String → String
  transcribeAudio : String
  summarizeText : String → String

variable (load : Bytes → Option (Json F)) (engines : Engines)

/-- The branches of `main` on `cmd`. -/
def command (json : Json F) (cmd : String) (targetFreq : F) : Option (List (Event F)) :=
  if cmd = "TRANSCRIBE_LOCAL" then some [.transcriptionComplete engines.transcribe targetFreq]
  else if cmd = "SUMMARIZE_LOCAL" then
    ((json.get "text").bind Json.s).map fun text =>
      [.summaryComplete (engines.generateSummary text) targetFreq]
  else if cmd = "TRANSCRIBE_OPENAI" then
    some [.transcriptionComplete engines.transcribeAudio targetFreq]
  else if cmd = "SUMMARIZE_OPENAI" then
    ((json.get "text").bind Json.s).map fun text =>
      [.summaryComplete (engines.summarizeText text) targetFreq]
  else some []

/-- A round of `main`. -/
def main (msg : Bytes) : Option (List (Event F)) :=
  match load (cBytes msg) with
  | none => some []
  | some json =>
    ((json.get "command").bind Json.s).bind fun cmd =>
      ((json.get "freq").bind Json.d).bind fun targetFreq => command engines json cmd targetFreq

end AiWorker

end AetherGuard
