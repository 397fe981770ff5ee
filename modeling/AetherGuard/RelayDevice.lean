import AetherGuard.Lib.Shadow
import AetherGuard.RelayControl

/-!
# The relay's device

The relay sets the receiver up in two steps: it changes the parameters that
`sdrplay_api_GetDeviceParams` gives it, one field after the other, and calls `sdrplay_api_Update`
with the groups of fields to take over. The control server does so for `TUNE` and `CONFIGURE`, line
by line, and each `SCAN` starts a thread that does so for its whole sweep, all on the same
parameters. The parameters are the shadow copy of `Shadow`. What the driver makes of an update, and
the error code it returns, the relay never looks at, and neither does the model: it says what the
driver was told. Frequencies in Hz are of any type `H`; a `Band` says which they are.
-/

namespace AetherGuard

namespace Relay

open Shadow

/-- The groups of parameters an update can name. -/
inductive Group
  | frf
  | bwType
  | ifType
  | gr
  | agc
  | decimation
  deriving DecidableEq

inductive Bw
  | bw0200
  | bw0300
  | bw0600
  | bw1536
  deriving DecidableEq

inductive IfType
  | zero
  deriving DecidableEq

inductive Agc
  | disable
  | agc50Hz
  deriving DecidableEq

/-- `ctrlParams.decimation` -/
structure Decimation where
  enable : ℕ
  decimationFactor : ℕ
  wideBandSignal : ℕ
  deriving DecidableEq

/-- The parameters of a group; of the gain only `LNAstate`, an `unsigned char`, is set. -/
@[reducible] def Val (H : Type) : Group → Type
  | .frf => H
  | .bwType => Bw
  | .ifType => IfType
  | .gr => UInt8
  | .agc => Agc
  | .decimation => Decimation

variable {F : Type*} {H : Type}

/-- `DECIMATION_FACTOR` -/
def decimationFactor : ℕ := 4

/-- Frequencies in Hz: of a command, of `DEFAULT_FREQ_HZ`, of the noise floor and of the steps of
the sweep. -/
structure Band (F : Type*) (H : Type) where
  hz : F → H
  defaultHz : H
  noiseHz : H
  steps : List H

/-! ## What the relay does -/

def tuneFrequency (hz : H) : List (Op (Val H)) := [.modify .frf fun _ => hz, .update [.frf]]

def setBandwidth (H : Type) (bw : Bw) : List (Op (Val H)) :=
  [.modify .bwType fun _ => bw,
    .modify .ifType fun _ => .zero,
    .update [.bwType, .ifType],
    .modify .decimation fun d => { d with enable := 1 },
    .modify .decimation fun d => { d with decimationFactor := decimationFactor },
    .modify .decimation fun d => { d with wideBandSignal := 0 },
    .update [.decimation]]

/-- `getValidatedPower`, with whether it times out. -/
def getValidatedPower (H : Type) (timeout : Bool) : List (Op (Val H)) :=
  if timeout then [.update [.frf]] else []

/-- The bandwidth of a `CONFIGURE`. -/
def bwEnum (bw : String) : Bw :=
  if bw = "BW_1_536" then .bw1536
  else if bw = "BW_0_600" then .bw0600
  else if bw = "BW_0_300" then .bw0300
  else .bw0200

def agcEnable (agc : String) : Agc := if agc = "off" then .disable else .agc50Hz

/-- What `handleCommand` does itself. -/
def CtrlLine.program (b : Band F H) : CtrlLine F → List (Op (Val H))
  | .tune freq => tuneFrequency (b.hz freq)
  | .configure freq bw _ agc lna =>
    setBandwidth H (bwEnum bw)
      ++ [.modify .gr fun _ => UInt8.ofNat lna, .modify .agc fun _ => agcEnable agc,
        .update [.agc, .gr]]
      ++ tuneFrequency (b.hz freq)
  | _ => []

/-- What the thread of a `SCAN` does, with which readings time out. -/
def sweep (b : Band F H) (timeout : ℕ → Bool) : List (Op (Val H)) :=
  setBandwidth H .bw0200
    ++ [.modify .agc fun _ => .disable, .modify .gr fun _ => 8, .update [.agc, .gr]]
    ++ tuneFrequency b.noiseHz ++ getValidatedPower H (timeout 0)
    ++ b.steps.zipIdx.flatMap fun step =>
      tuneFrequency step.1 ++ getValidatedPower H (timeout (step.2 + 1))

/-- The first thread is the control server, the others are scans. -/
abbrev Device (H : Type) := Shadow.State (Val H)

namespace Device

/-- The parameters `StartStream` sets before `sdrplay_api_Init`, which hands them all over. -/
def startStream (initialFreq : H) : ∀ g, Val H g
  | .frf => initialFreq
  | .bwType => .bw0600
  | .ifType => .zero
  | .gr => 4
  | .agc => .agc50Hz
  | .decimation => ⟨1, 4, 0⟩

def init (b : Band F H) : Device H :=
  ⟨⟨startStream b.defaultHz, startStream b.defaultHz⟩, [[]]⟩

def scanThreads (b : Band F H) (timeout : ℕ → Bool) : CtrlLine F → List (List (Op (Val H)))
  | .scan => [sweep b timeout]
  | _ => []

/-- The control server takes a line once it is done with the one before. -/
def line (b : Band F H) (s : Device H) (l : CtrlLine F) (timeout : ℕ → Bool) : Device H :=
  match s.threads with
  | [] :: scans => { s with threads := l.program b :: scans ++ scanThreads b timeout l }
  | _ => s

inductive Act (F : Type*)
  | line (l : CtrlLine F) (timeout : ℕ → Bool)
  | op (i : ℕ)

def step (b : Band F H) (s : Device H) : Act F → Device H
  | .line l timeout => line b s l timeout
  | .op i => Shadow.State.step s i

end Device

/-! ## What the commands are for -/

/-- The configuration a command asks for, on one that was there before. -/
def CtrlLine.config (b : Band F H) (r : ∀ g, Val H g) : CtrlLine F → ∀ g, Val H g
  | .tune freq => Function.update r .frf (b.hz freq)
  | .configure freq bw _ agc lna => fun
    | .frf => b.hz freq
    | .bwType => bwEnum bw
    | .ifType => .zero
    | .gr => UInt8.ofNat lna
    | .agc => agcEnable agc
    | .decimation => ⟨1, decimationFactor, 0⟩
  | _ => r

namespace Device

/-- The line the action hands to the control server, if that is idle. -/
def taken (s : Device H) : Act F → List (CtrlLine F)
  | .line l _ =>
    match s.threads with
    | [] :: _ => [l]
    | _ => []
  | .op _ => []

/-- The lines the control server takes in a run. -/
def accepted (b : Band F H) : Device H → List (Act F) → List (CtrlLine F)
  | _, [] => []
  | s, a :: as => taken s a ++ accepted b (step b s a) as

def Act.isScan : Act F → Bool
  | .line .scan _ => true
  | _ => false

end Device

end Relay

end AetherGuard
