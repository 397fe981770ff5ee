import AetherGuard.Control
import AetherGuard.PcmPool

/-!
# The samples of a recording

While `g_wav_write_active` is set, `outputThread` writes each slot it takes from the PCM pool to the
file in `g_wav_file`, which a recorder thread opens and closes. The flag is tested before the lock
is taken and the pointer after, so in between a recorder can clear the flag, close the file or open
another. The control plane and the pool are the ones modelled before; here the output thread's two
steps on the file stand between its test of a slot and its release. For the model only the state
keeps each write: its handle and the samples.
-/

namespace AetherGuard

open Daemon

variable {F : Type*}

structure Recording (F : Type*) where
  control : Control F
  pool : PcmPool Int16
  written : List (ℕ × List Int16)

namespace Recording

def init (freq : F) : Recording F := ⟨.init freq, .init 0, []⟩

/-- `sf_write_short` under `g_wav_mtx`. -/
def writeShort (s : Recording F) (pcm : List Int16) : Recording F :=
  match s.control.wav.gWavFile with
  | some handle => { s with written := s.written ++ [(handle, pcm)] }
  | none => s

def outputThread (s : Recording F) : Recording F :=
  match s.pool.output with
  | .write idx =>
    if s.control.writingWav then
      { s.writeShort (s.pool.pcmPool idx).pcm with
        control := s.control.outputThread
        pool := s.pool.outputThread }
    else if s.control.wav.gWavWriteActive then { s with control := s.control.outputThread }
    else { s with pool := s.pool.outputThread }
  | _ => { s with pool := s.pool.outputThread }

inductive Act (F : Type*)
  | startChunk
  | sample (x : Int16)
  | demod
  | output
  | command (c : Command F)
  | listener (ok : Bool)
  | recorder (i : ℕ) (ok : Bool)
  | live (i : ℕ) (ok : Bool)
  | scanComplete

def step (s : Recording F) : Act F → Recording F
  | .startChunk => { s with pool := s.pool.startChunk }
  | .sample x => { s with pool := s.pool.sample x }
  | .demod => { s with pool := s.pool.demodThread }
  | .output => s.outputThread
  | .command c => { s with control := s.control.receive c }
  | .listener ok => { s with control := s.control.commandListener ok }
  | .recorder i ok => { s with control := s.control.recorderThread i ok }
  | .live i ok => { s with control := s.control.liveThread i ok }
  | .scanComplete => { s with control := s.control.scanComplete }

/-- The sample an action of the demodulator puts out. -/
def resampled (s : Recording F) : Act F → List Int16
  | .sample x => s.pool.resampled (.sample x)
  | _ => []

/-- The samples that the demodulator puts out in a run. -/
def generated (s : Recording F) (as : List (Act F)) : List Int16 :=
  Machine.gives step resampled s as

/-- The slots written to a handle. -/
def slots (s : Recording F) (handle : ℕ) : List (List Int16) :=
  (s.written.filter fun w => w.1 = handle).map (·.2)

/-- The samples written to a handle. -/
def recorded (s : Recording F) (handle : ℕ) : List Int16 := (s.slots handle).flatten

/-- The handle is the one `outputThread` writes to. -/
def Taking (s : Recording F) (handle : ℕ) : Prop :=
  s.control.wav.gWavFile = some handle ∧ s.control.wav.gWavWriteActive = true
  deriving Decidable

end Recording

end AetherGuard
