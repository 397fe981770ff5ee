import AetherGuard.CrowJson
import AetherGuard.Gateway

/-!
# The texts on the message bus

The API's handlers load the body of a request, fill a `wvalue` and publish its text, on
`sdr_commands` for the daemon and on `ai_commands` for the AI worker. A handler that asks for a
member that is not there, or is not what it takes it for, throws, and nothing is published. The
members of a `wvalue` are in an `unordered_map`, so their order in the text can be any.
-/

namespace AetherGuard

open Crow Daemon

variable {F : Type*}

/-- The members of a `wvalue`. -/
abbrev Members (F : Type*) := List (Bytes × WValue F)

/-- The orders in which a container gives its members. -/
structure Shuffle (F : Type*) where
  order : Members F → Members F
  perm : ∀ o, (order o).Perm o

/-- `dump` of a `wvalue` with these members. -/
def Shuffle.dump (shuffle : Shuffle F) (fmt : Format F) (o : Members F) : Bytes :=
  (WValue.object (shuffle.order o)).dump fmt

/-- `crow::json::load`, as the handlers see its result. -/
def busLoad (read : Bytes → F) (msg : Bytes) : Option (Json F) :=
  (Crow.load msg).map (·.toJson read)

namespace Api

/-- `cmd["command"] = name` -/
def command (name : String) : Bytes × WValue F := (bytes "command", .string (bytes name))

/-- `cmd["freq"] = x["freq"].d()` -/
def freq (x : Json F) : Option (Bytes × WValue F) :=
  ((x.get "freq").bind Json.d).map fun f => (bytes "freq", .double f)

/-- `cmd["text"] = x["text"].s()` -/
def text (x : Json F) : Option (Bytes × WValue F) :=
  ((x.get "text").bind Json.s).map fun t => (bytes "text", .string (bytes t))

/-! ### The scan endpoints -/

inductive ScanRoute
  | tune
  | live
  | record
  | wideband

/-- What the handler puts into `cmd`. -/
def ScanRoute.cmd (x : Json F) : ScanRoute → Option (Members F)
  | tune => (freq x).map fun f => [command "TUNE", f]
  | live =>
    ((x.get "action").bind Json.s).bind fun action =>
      if action = "start" then
        (x.has "freq").bind fun hasFreq =>
          if hasFreq then (freq x).map fun f => [command "LIVE_LISTEN", f]
          else some [command "LIVE_LISTEN"]
      else some [command "STOP_LIVE"]
  | record => (freq x).map fun f => [command "RECORD", f]
  | wideband => some [command "SCAN"]

/-- The command that the handler stands for. -/
def ScanRoute.command (x : Json F) : ScanRoute → Option (Command F)
  | tune => ((x.get "freq").bind Json.d).map tuneCommand
  | live =>
    ((x.get "action").bind Json.s).bind fun action =>
      if action = "start" then
        (x.has "freq").bind fun hasFreq =>
          if hasFreq then ((x.get "freq").bind Json.d).map fun f => liveCommand true (some f)
          else some (liveCommand true none)
      else some (liveCommand false none)
  | record => ((x.get "freq").bind Json.d).map recordCommand
  | wideband => some scanCommand

/-- What the handler works on: a body that does not load is answered with 400, and `wideband`
has none. -/
def ScanRoute.document (read : Bytes → F) (body : Bytes) : ScanRoute → Option (Json F)
  | wideband => some .null
  | _ => busLoad read body

end Api

open Api

/-- The daemon, and the messages it has yet to take. -/
structure BusGateway (F : Type*) where
  daemon : Control F
  sdrCommands : List Bytes

namespace BusGateway

inductive Act (F : Type*)
  | post (route : ScanRoute) (body : Bytes)
  | takeCommand
  | daemon (a : Control.Act F)

variable (shuffle : Shuffle F) (fmt : Format F) (read : Bytes → F) (stod : String → Option F)

def init (freq : F) : BusGateway F := ⟨.init freq, []⟩

def post (g : BusGateway F) (route : ScanRoute) (body : Bytes) : BusGateway F :=
  match (route.document read body).bind fun x => route.cmd x with
  | none => g
  | some o => { g with sdrCommands := g.sdrCommands ++ [shuffle.dump fmt o] }

/-- `commandListener` takes the next message; `none` is an exception, which ends the daemon. -/
def takeCommand (g : BusGateway F) : Option (BusGateway F) :=
  match g.sdrCommands, g.daemon.listener with
  | msg :: rest, .idle => (g.daemon.takeMessage (busLoad read) stod msg).map fun d => ⟨d, rest⟩
  | _, _ => some g

def step (g : BusGateway F) : Act F → Option (BusGateway F)
  | .post route body => some (g.post shuffle fmt read route body)
  | .takeCommand => g.takeCommand read stod
  | .daemon (.command _) => some g
  | .daemon a => some { g with daemon := g.daemon.step a }

def run (g : BusGateway F) : List (Act F) → Option (BusGateway F)
  | [] => some g
  | a :: acts => (g.step shuffle fmt read stod a).bind (run · acts)

/-- The step of the gateway without texts. -/
def abstractStep (g : Gateway F) : Act F → Gateway F
  | .post route body =>
    match (route.document read body).bind fun x => route.command x with
    | none => g
    | some c => g.publish c
  | .takeCommand => g.takeCommand
  | .daemon a => g.daemonStep a

end BusGateway

/-! ### The AI endpoints -/

namespace Api

inductive AiRoute
  | transcribeLocal
  | summarizeLocal
  | transcribeOpenai
  | summarizeOpenai

/-- What the handler puts into `cmd`. -/
def AiRoute.cmd (x : Json F) : AiRoute → Option (Members F)
  | transcribeLocal => (freq x).map fun f => [command "TRANSCRIBE_LOCAL", f]
  | summarizeLocal => (freq x).bind fun f => (text x).map fun t => [command "SUMMARIZE_LOCAL", f, t]
  | transcribeOpenai => (freq x).map fun f => [command "TRANSCRIBE_OPENAI", f]
  | summarizeOpenai => (freq x).bind fun f => (text x).map fun t =>
    [command "SUMMARIZE_OPENAI", f, t]

/-- What the worker is to do for a request with the frequency `f` and the text `t`. -/
def AiRoute.event (engines : AiWorker.Engines) (f : F) (t : String) : AiRoute → AiWorker.Event F
  | transcribeLocal => .transcriptionComplete engines.transcribe f
  | summarizeLocal => .summaryComplete (engines.generateSummary t) f
  | transcribeOpenai => .transcriptionComplete engines.transcribeAudio f
  | summarizeOpenai => .summaryComplete (engines.summarizeText t) f

end Api

end AetherGuard
