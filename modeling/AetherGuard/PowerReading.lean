import AetherGuard.Lib.Counter
import AetherGuard.Lib.Machine

/-!
# The scanner's power readings

The hardware calls `StreamACallback` once for each buffer, one call after the other; a call stores
the buffer's power and then counts a heartbeat in `broadcastAudio`. The scanner thread clears the
power, notes the count, waits for four heartbeats more or gives up, and reads the power. One action
is one step of a callback or of `getValidatedPower`. The count is a `long`, of 32 bits in the
relay's Windows build; it wraps, and so does the difference. For the model only, the state keeps how
often it was incremented, the powers stored by the callbacks so far, the callback that wrote the
present power, how many callbacks had begun at the last clear, and the readings that succeeded.
-/

namespace AetherGuard

namespace Relay

/-- Where the running `StreamACallback` is, if one is running. -/
inductive CallbackPc
  | idle
  | storePower
  | countHeartbeat
  deriving DecidableEq

/-- The next step of `getValidatedPower`. -/
inductive ScannerPc
  | clearPower
  | readStart
  | waitHeartbeats (startCount : Int32)
  | readPower
  deriving DecidableEq

/-- A power that `getValidatedPower` returned: the callback that stored it, and how many callbacks
had begun when the power was cleared. -/
structure Reading (P : Type*) where
  power : P
  writer : Option ℕ
  begunAtClear : ℕ

/-- The reading was stored by a callback that began after the clear; `stored` are the powers of the
callbacks in turn. -/
def Reading.Fresh {P : Type*} (stored : List P) (r : Reading P) : Prop :=
  ∃ id, r.writer = some id ∧ r.begunAtClear ≤ id ∧ stored[id]? = some r.power

structure PowerReading (P : Type*) where
  gFastPower : P
  gHeartbeatCount : Int32
  callback : CallbackPc
  scanner : ScannerPc
  heartbeats : ℕ
  begun : ℕ
  stored : List P
  writer : Option ℕ
  begunAtClear : ℕ
  readings : List (Reading P)

namespace PowerReading

variable {P : Type*}

/-- `cleared` is `-100.0f`, also the power at the start. -/
def init (cleared : P) : PowerReading P :=
  ⟨cleared, 0, .idle, .clearPower, 0, 0, [], none, 0, []⟩

/-- The hardware calls; a call while not streaming returns at once. -/
def begin (s : PowerReading P) (isStreaming : Bool) : PowerReading P :=
  match s.callback with
  | .idle => if isStreaming then { s with callback := .storePower, begun := s.begun + 1 } else s
  | _ => s

/-- A step of the running callback, whose buffer has the power `dbFS`. -/
def streamACallback (s : PowerReading P) (dbFS : P) : PowerReading P :=
  match s.callback with
  | .idle => s
  | .storePower =>
    { s with
      gFastPower := dbFS
      callback := .countHeartbeat
      writer := some (s.begun - 1)
      stored := s.stored ++ [dbFS] }
  | .countHeartbeat =>
    { s with
      gHeartbeatCount := s.gHeartbeatCount + 1
      callback := .idle
      heartbeats := s.heartbeats + 1 }

/-- A step of the scanner thread; `timeout` is whether the wait has run out. -/
def getValidatedPower (cleared : P) (s : PowerReading P) (timeout : Bool) : PowerReading P :=
  match s.scanner with
  | .clearPower =>
    { s with
      gFastPower := cleared
      scanner := .readStart
      writer := none
      begunAtClear := s.begun }
  | .readStart => { s with scanner := .waitHeartbeats s.gHeartbeatCount }
  | .waitHeartbeats startCount =>
    if s.gHeartbeatCount - startCount ≥ 4 then { s with scanner := .readPower }
    else if timeout then { s with scanner := .clearPower }
    else s
  | .readPower =>
    { s with
      scanner := .clearPower
      readings := s.readings ++ [⟨s.gFastPower, s.writer, s.begunAtClear⟩] }

inductive Act (P : Type*)
  | begin (isStreaming : Bool)
  | callback (dbFS : P)
  | scanner (timeout : Bool)

def step (cleared : P) (s : PowerReading P) : Act P → PowerReading P
  | .begin isStreaming => s.begin isStreaming
  | .callback dbFS => s.streamACallback dbFS
  | .scanner timeout => s.getValidatedPower cleared timeout

end PowerReading

end Relay

end AetherGuard
