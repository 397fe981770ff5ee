import AetherGuard.Control
import AetherGuard.Pipeline

/-!
# One file for all recordings

Every recorder thread opens, fills and closes the same `/app/shared/audio/audio.wav`, and the AI
worker reads it while it works on a `TRANSCRIBE` command, however long after the `record_complete`
that led to it and, as it first loads its model, after it took the command. The daemon's control
plane and the pipeline run side by side: the step with which a recorder publishes is the one that
starts a recording's way through the pipeline. Opening the file empties it, so what it holds is what
the recorder that opened it last has written. The worker may read the file at any time while it has
a command, and as often as it likes. Besides the two parts the state keeps which recorder thread
made each recording, and what the worker read for which.
-/

namespace AetherGuard

open Daemon Client

variable {F : Type*}

/-- The handle opened last, and its recorder. -/
def Daemon.lastOpened : List (WavEntry F) → Option (ℕ × ℕ)
  | [] => none
  | .opened handle i :: _ => some (handle, i)
  | _ :: log => lastOpened log

/-- Recorder `i` has closed `handle`. -/
def Daemon.wavClosed (handle i : ℕ) (log : List (WavEntry F)) : Bool :=
  log.any fun
    | .closed h j => h == handle && j == i
    | _ => false

/-- What `audio.wav` holds: the recording of a recorder thread, whole once it has closed it. -/
structure AudioFile where
  recorder : ℕ
  closed : Bool
  deriving DecidableEq

def Daemon.audioFile (log : List (WavEntry F)) : Option AudioFile :=
  (lastOpened log).map fun p => ⟨p.2, wavClosed p.1 p.2 log⟩

/-- What the worker read for a `TRANSCRIBE` command. -/
structure AudioRead (F : Type*) where
  record : ℕ
  freq : F
  file : Option AudioFile

structure SharedAudio (F : Type*) where
  daemon : Control F
  pipeline : Pipeline F
  recorders : List ℕ
  reads : List (AudioRead F)

namespace SharedAudio

def init (freq : F) (k : ℕ) : SharedAudio F := ⟨.init freq, .init k, [], []⟩

def daemonStep (s : SharedAudio F) (a : Control.Act F) : SharedAudio F :=
  match s.daemon.publishes a with
  | some (i, f) =>
    { s with
      daemon := s.daemon.step a
      pipeline := s.pipeline.recordComplete f
      recorders := s.recorders ++ [i] }
  | none => { s with daemon := s.daemon.step a }

/-- What the worker reads for the command it has taken. -/
def read (s : SharedAudio F) : List (AudioRead F) :=
  match s.pipeline.working with
  | some c =>
    if c.item.transcribes then [⟨c.record, c.item.freq, audioFile s.daemon.wav.log⟩] else []
  | none => []

def pipelineStep (s : SharedAudio F) (a : Pipeline.Act F) : SharedAudio F :=
  match a with
  | .recordComplete _ => s
  | a => { s with pipeline := s.pipeline.step a }

inductive Act (F : Type*)
  | daemon (a : Control.Act F)
  | pipeline (a : Pipeline.Act F)
  | read

def step (s : SharedAudio F) : Act F → SharedAudio F
  | .daemon a => s.daemonStep a
  | .pipeline a => s.pipelineStep a
  | .read => { s with reads := s.reads ++ s.read }

/-- For each recording the worker read the file as its recorder had closed it, and the frequency
it then publishes is that recorder's. -/
def ReadsOwn (s : SharedAudio F) : Prop :=
  ∀ e ∈ s.reads, ∃ i r, s.recorders[e.record]? = some i ∧ s.daemon.recorders[i]? = some r
    ∧ r.targetFreq = e.freq ∧ e.file = some ⟨i, true⟩

end SharedAudio

end AetherGuard
