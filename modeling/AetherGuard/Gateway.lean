import AetherGuard.Control

/-!
# The API in front of the daemon

The API's scan endpoints publish a command on `sdr_commands` and answer without knowing what becomes
of it; the daemon's `commandListener` takes the commands in the order they were published. The
daemon's other threads and the listener's handling of a command are those of the control plane.
-/

namespace AetherGuard

open Daemon

variable {F : Type*}

/-- `/api/scan/tune` -/
def tuneCommand (freq : F) : Command F := ⟨.tune, .value freq⟩

/-- `/api/scan/live`: the action is `start`, with a frequency or without, or anything else. -/
def liveCommand (start : Bool) (freq : Option F) : Command F :=
  if start then ⟨.liveListen, freq.elim .absent .value⟩ else ⟨.stopLive, .absent⟩

/-- `/api/scan/record` -/
def recordCommand (freq : F) : Command F := ⟨.record, .value freq⟩

/-- `/api/scan/wideband` -/
def scanCommand : Command F := ⟨.scan, .absent⟩

/-- The daemon, and the commands it has yet to take. -/
structure Gateway (F : Type*) where
  daemon : Control F
  sdrCommands : List (Command F)

namespace Gateway

def init (freq : F) : Gateway F := ⟨.init freq, []⟩

def publish (g : Gateway F) (c : Command F) : Gateway F :=
  { g with sdrCommands := g.sdrCommands ++ [c] }

/-- `commandListener` takes the next command. -/
def takeCommand (g : Gateway F) : Gateway F :=
  match g.sdrCommands, g.daemon.listener with
  | c :: rest, .idle => ⟨g.daemon.receive c, rest⟩
  | _, _ => g

/-- Any other step of the daemon. -/
def daemonStep (g : Gateway F) (a : Control.Act F) : Gateway F :=
  match a with
  | .command _ => g
  | a => { g with daemon := g.daemon.step a }

end Gateway

end AetherGuard
