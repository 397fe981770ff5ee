import AetherGuard.Lib.Machine

/-!
# The daemon's control plane

`commandListener` takes one command at a time from Redis, tests the mode flags one after the other
and then acts: it sends a message to the relay itself, or raises a flag and starts a detached
thread that sends one later. The recorder thread goes on to open, fill and close the WAV file that
`outputThread` writes to. A `scan_complete` from the relay, at any time, ends the scan mode. One
action is one atomic step of a thread; raising a flag and starting the thread is one step. Whether
a send or an open succeeds is the action's choice, and sleeps take no step. The frequencies are of
any type `F`. Besides the code's variables the state keeps a log, newest entry first, of what was
accepted, sent and received, and one of what happened to the WAV files.
-/

namespace AetherGuard

namespace Daemon

variable {F : Type*}

/-- The `freq` field of a command: a number (or a string of one), or neither. -/
inductive FreqField (F : Type*)
  | absent
  | value (f : F)
  | other

inductive CommandName
  | tune
  | record
  | liveListen
  | stopLive
  | scan
  | other

structure Command (F : Type*) where
  command : CommandName
  freq : FreqField F

def Command.freqProvided (c : Command F) : Bool :=
  match c.freq with
  | .absent => false
  | _ => true

def Command.targetFreq (c : Command F) (gCurrentFreq : F) : F :=
  match c.freq with
  | .value f => f
  | _ => gCurrentFreq

/-- A message to the relay. -/
inductive Message (F : Type*)
  | tune (freq : F)
  | configure (freq : F) (bw ifMode agc : String) (lna : ℕ)
  | scan

def tuneCmd (freq : F) : Message F := .tune freq

def hwCmd (freq : F) : Message F := .configure freq "BW_0_300" "IF_Zero" "off" 4

/-- The next step of `commandListener` on the command it has taken. -/
inductive Listener (F : Type*)
  | idle
  | tuneTestScanning (f : F)
  | tuneSend (f : F)
  | recordTestScanning (f : F)
  | recordTestRecording (f : F)
  | recordStart (f : F)
  | liveTestScanning (f : F) (freqProvided : Bool)
  | liveTestLive (f : F)
  | liveRetune (f : F)
  | liveStart (f : F)
  | stopTestLive
  | stopClear
  | scanTestScanning
  | scanTestRecording
  | scanTestLive
  | scanSet
  | scanSend

inductive RecorderPc
  | testLive
  | sendConfigure
  | sendTune
  | openWav
  | checkWav
  | abort
  | clearActive
  | clearRecording
  | closeWav
  | publish
  | done
  deriving DecidableEq

/-- The recorder has not cleared `g_recording` yet. -/
def RecorderPc.active : RecorderPc → Bool
  | .closeWav | .publish | .done => false
  | _ => true

/-- The recorder has not sent its message yet. -/
def RecorderPc.toSend : RecorderPc → Bool
  | .testLive | .sendConfigure | .sendTune => true
  | _ => false

/-- A recorder thread and its next step. -/
structure Recorder (F : Type*) where
  targetFreq : F
  pc : RecorderPc

inductive LivePc
  | testRecording
  | sendConfigure
  | sendTune
  | done
  deriving DecidableEq

def LivePc.toSend : LivePc → Bool
  | .done => false
  | _ => true

/-- A live set-up thread and its next step. -/
structure Live (F : Type*) where
  targetFreq : F
  pc : LivePc

/-- What is logged of the control plane. -/
inductive Entry (F : Type*)
  | accepted (targetFreq : F)
  | sent (m : Message F)
  | scanComplete

/-- What is logged of the WAV files: a handle opened, written to or closed, by recorder `i`, and
the event recorder `i` publishes. -/
inductive WavEntry (F : Type*)
  | opened (handle i : ℕ)
  | wrote (handle : ℕ)
  | closed (handle i : ℕ)
  | recordComplete (freq : F) (i : ℕ)

/-- `g_wav_file` and `g_wav_write_active`, the handles given out, and the log. -/
structure Wav (F : Type*) where
  gWavFile : Option ℕ
  gWavWriteActive : Bool
  handles : ℕ
  log : List (WavEntry F)

namespace Wav

/-- `sf_open` under `g_wav_mtx`. -/
def openFile (w : Wav F) (i : ℕ) (ok : Bool) : Wav F :=
  if ok then
    { gWavFile := some w.handles
      gWavWriteActive := true
      handles := w.handles + 1
      log := .opened w.handles i :: w.log }
  else { w with gWavFile := none }

/-- `sf_close` under `g_wav_mtx`. -/
def closeFile (w : Wav F) (i : ℕ) : Wav F :=
  match w.gWavFile with
  | some handle => { w with gWavFile := none, log := .closed handle i :: w.log }
  | none => w

/-- `sf_write_short` under `g_wav_mtx`. -/
def writeShort (w : Wav F) : Wav F :=
  match w.gWavFile with
  | some handle => { w with log := .wrote handle :: w.log }
  | none => w

end Wav

structure Control (F : Type*) where
  gScanning : Bool
  gRecording : Bool
  gLiveListen : Bool
  gCurrentFreq : F
  listener : Listener F
  recorders : List (Recorder F)
  lives : List (Live F)
  wav : Wav F
  writingWav : Bool
  log : List (Entry F)

namespace Control

def init (freq : F) : Control F where
  gScanning := false
  gRecording := false
  gLiveListen := false
  gCurrentFreq := freq
  listener := .idle
  recorders := []
  lives := []
  wav := ⟨none, false, 0, []⟩
  writingWav := false
  log := []

def sendCtrlCommand (s : Control F) (m : Message F) (ok : Bool) : Control F :=
  { s with log := if ok then .sent m :: s.log else s.log }

def accept (s : Control F) (targetFreq : F) : Control F :=
  { s with log := .accepted targetFreq :: s.log }

/-- `commandListener` takes a command and goes to the branch of its name. -/
def receive (s : Control F) (c : Command F) : Control F :=
  match s.listener with
  | .idle =>
    let f := c.targetFreq s.gCurrentFreq
    { s with
      gCurrentFreq := f
      listener := match c.command with
        | .tune => .tuneTestScanning f
        | .record => .recordTestScanning f
        | .liveListen => .liveTestScanning f c.freqProvided
        | .stopLive => .stopTestLive
        | .scan => .scanTestScanning
        | .other => .idle }
  | _ => s

def commandListener (s : Control F) (ok : Bool) : Control F :=
  match s.listener with
  | .idle => s
  | .tuneTestScanning f => { s with listener := if s.gScanning then .idle else .tuneSend f }
  | .tuneSend f => { (s.accept f).sendCtrlCommand (tuneCmd f) ok with listener := .idle }
  | .recordTestScanning f =>
    { s with listener := if s.gScanning then .idle else .recordTestRecording f }
  | .recordTestRecording f =>
    { s with listener := if s.gRecording then .idle else .recordStart f }
  | .recordStart f =>
    { s.accept f with
      gRecording := true
      recorders := s.recorders ++ [⟨f, .testLive⟩]
      listener := .idle }
  | .liveTestScanning f freqProvided =>
    { s with listener := if s.gScanning || !freqProvided then .idle else .liveTestLive f }
  | .liveTestLive f =>
    { s with listener := if s.gLiveListen then .liveRetune f else .liveStart f }
  | .liveRetune f => { (s.accept f).sendCtrlCommand (tuneCmd f) ok with listener := .idle }
  | .liveStart f =>
    { s.accept f with
      gLiveListen := true
      lives := s.lives ++ [⟨f, .testRecording⟩]
      listener := .idle }
  | .stopTestLive => { s with listener := if s.gLiveListen then .stopClear else .idle }
  | .stopClear => { s with gLiveListen := false, listener := .idle }
  | .scanTestScanning => { s with listener := if s.gScanning then .idle else .scanTestRecording }
  | .scanTestRecording => { s with listener := if s.gRecording then .idle else .scanTestLive }
  | .scanTestLive => { s with listener := if s.gLiveListen then .idle else .scanSet }
  | .scanSet => { s with gScanning := true, listener := .scanSend }
  | .scanSend => { s.sendCtrlCommand .scan ok with listener := .idle }

def setRecorder (s : Control F) (i : ℕ) (r : Recorder F) (pc : RecorderPc) : Control F :=
  { s with recorders := s.recorders.set i { r with pc := pc } }

/-- A step of the `i`-th recorder thread. -/
def recorderThread (s : Control F) (i : ℕ) (ok : Bool) : Control F :=
  match s.recorders[i]? with
  | none => s
  | some r =>
    match r.pc with
    | .testLive => s.setRecorder i r (if s.gLiveListen then .sendTune else .sendConfigure)
    | .sendConfigure => (s.sendCtrlCommand (hwCmd r.targetFreq) ok).setRecorder i r .openWav
    | .sendTune => (s.sendCtrlCommand (tuneCmd r.targetFreq) ok).setRecorder i r .openWav
    | .openWav => { s.setRecorder i r .checkWav with wav := s.wav.openFile i ok }
    | .checkWav => s.setRecorder i r (if s.wav.gWavFile.isNone then .abort else .clearActive)
    | .abort => { s.setRecorder i r .done with gRecording := false }
    | .clearActive =>
      { s.setRecorder i r .clearRecording with wav := { s.wav with gWavWriteActive := false } }
    | .clearRecording => { s.setRecorder i r .closeWav with gRecording := false }
    | .closeWav => { s.setRecorder i r .publish with wav := s.wav.closeFile i }
    | .publish =>
      { s.setRecorder i r .done with
        wav := { s.wav with log := .recordComplete r.targetFreq i :: s.wav.log } }
    | .done => s

def setLive (s : Control F) (i : ℕ) (l : Live F) (pc : LivePc) : Control F :=
  { s with lives := s.lives.set i { l with pc := pc } }

/-- A step of the `i`-th live set-up thread. -/
def liveThread (s : Control F) (i : ℕ) (ok : Bool) : Control F :=
  match s.lives[i]? with
  | none => s
  | some l =>
    match l.pc with
    | .testRecording => s.setLive i l (if s.gRecording then .sendTune else .sendConfigure)
    | .sendConfigure => (s.sendCtrlCommand (hwCmd l.targetFreq) ok).setLive i l .done
    | .sendTune => (s.sendCtrlCommand (tuneCmd l.targetFreq) ok).setLive i l .done
    | .done => s

/-- `ctrlReaderThread` receives a `scan_complete`. -/
def scanComplete (s : Control F) : Control F :=
  { s with gScanning := false, log := .scanComplete :: s.log }

/-- The WAV part of `outputThread`: the test of `g_wav_write_active`, then the write. -/
def outputThread (s : Control F) : Control F :=
  if s.writingWav then { s with wav := s.wav.writeShort, writingWav := false }
  else { s with writingWav := s.wav.gWavWriteActive }

inductive Act (F : Type*)
  | command (c : Command F)
  | listener (ok : Bool)
  | recorder (i : ℕ) (ok : Bool)
  | live (i : ℕ) (ok : Bool)
  | scanComplete
  | output

def step (s : Control F) : Act F → Control F
  | .command c => s.receive c
  | .listener ok => s.commandListener ok
  | .recorder i ok => s.recorderThread i ok
  | .live i ok => s.liveThread i ok
  | .scanComplete => s.scanComplete
  | .output => s.outputThread

/-- The recorder whose `record_complete` the action publishes, and its frequency. -/
def publishes (s : Control F) : Act F → Option (ℕ × F)
  | .recorder i _ =>
    match s.recorders[i]? with
    | some ⟨f, .publish⟩ => some (i, f)
    | _ => none
  | _ => none

/-- The recorder threads that have not cleared `g_recording` yet. -/
def activeRecorders (s : Control F) : ℕ := s.recorders.countP (·.pc.active)

/-- No thread that was started has its message still to send. -/
def SetUpDone (s : Control F) : Prop :=
  (∀ r ∈ s.recorders, r.pc.toSend = false) ∧ ∀ l ∈ s.lives, l.pc.toSend = false
  deriving Decidable

end Control

/-- The frequency a message tunes the relay to. -/
def Message.freq : Message F → Option F
  | .tune f => some f
  | .configure f _ _ _ _ => some f
  | .scan => none

/-- A `SCAN` was sent, and no `scan_complete` received since. -/
def scanOpen : List (Entry F) → Bool
  | [] => false
  | .sent .scan :: _ => true
  | .scanComplete :: _ => false
  | _ :: log => scanOpen log

/-- No `TUNE` or `CONFIGURE` was sent between a `SCAN` and its `scan_complete`. -/
def ScanExclusive : List (Entry F) → Prop
  | [] => True
  | .sent m :: log => (m.freq.isSome → scanOpen log = false) ∧ ScanExclusive log
  | _ :: log => ScanExclusive log

/-- A `CONFIGURE` was sent, and no `SCAN` since. -/
def configured : List (Entry F) → Bool
  | [] => false
  | .sent (.configure _ _ _ _ _) :: _ => true
  | .sent .scan :: _ => false
  | _ :: log => configured log

/-- The frequency of the last message that carried one. -/
def lastFreq : List (Entry F) → Option F
  | [] => none
  | .sent m :: log => m.freq.or (lastFreq log)
  | _ :: log => lastFreq log

/-- The frequency of the last command accepted. -/
def lastAccepted : List (Entry F) → Option F
  | [] => none
  | .accepted f :: _ => some f
  | _ :: log => lastAccepted log

/-- Every handle is new, is closed at most once and by the recorder that opened it, and before that
recorder publishes; none is written to after it was closed. -/
def WavOwned : List (WavEntry F) → Prop
  | [] => True
  | .opened handle _ :: log => (∀ i, .opened handle i ∉ log) ∧ WavOwned log
  | .wrote handle :: log => (∀ i, .closed handle i ∉ log) ∧ WavOwned log
  | .closed handle i :: log => .opened handle i ∈ log ∧ (∀ j, .closed handle j ∉ log) ∧ WavOwned log
  | .recordComplete _ i :: log =>
    (∀ handle, .opened handle i ∈ log → .closed handle i ∈ log) ∧ WavOwned log

/-- Recorder `i` has set `g_wav_write_active`, for a recording of `f`, and has not cleared it. -/
def Control.Writing (s : Control F) (i : ℕ) (f : F) : Prop :=
  ∃ r, s.recorders[i]? = some r ∧ r.targetFreq = f ∧ (∃ handle, .opened handle i ∈ s.wav.log)
    ∧ match r.pc with
      | .clearRecording | .closeWav | .publish => False
      | .done => .recordComplete f i ∉ s.wav.log
      | _ => True

end Daemon

end AetherGuard
