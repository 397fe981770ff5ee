import AetherGuard.IqPool

/-!
# The daemon's PCM pool

`demodThread` writes its audio samples into a pool of 32 slots and `outputThread` empties them.
The writer takes a slot in three places: when an IQ chunk starts, after it has published a full
slot, and after it has dropped a sample for want of one. Its locals `pcm_idx`, `out_len` and
`pcm_acquired` live on from chunk to chunk. Samples and chunks come from outside, in any order;
their type is any `α`. The two counters are the totals ever added to the diagnostics, which only
this thread touches. Besides the code's variables the state keeps every sample generated with
whether it was stored, the contents of the slots published and consumed, and the changes of each
flag.
-/

namespace AetherGuard

namespace Daemon

/-- `PCM_CHUNK_SIZE` -/
def pcmChunkSize : ℕ := 2048

structure PcmSlot (α : Type*) where
  data : Vector α pcmChunkSize
  len : ℕ
  inUse : Bool
  ready : Bool

/-- What `outputThread` writes out: the first `len` cells. -/
def PcmSlot.pcm {α : Type*} (slot : PcmSlot α) : List α := slot.data.toList.take slot.len

/-- The next step of `demodThread` on the PCM pool; `idle` is between two samples. -/
inductive Writer
  | idle
  | testInUse
  | setInUse
  | setLen
  | setReady
  | incWrite
  | testNext
  | setNext
  deriving DecidableEq

/-- The next step of `outputThread`. -/
inductive Output
  | testReady
  | write (idx : ℤ)
  | clearReady (idx : ℤ)
  | clearInUse (idx : ℤ)
  | incRead
  deriving DecidableEq

structure PcmPool (α : Type*) where
  pcmPool : ℤ → PcmSlot α
  pcmWriteIdx : Int32
  pcmReadIdx : Int32
  pcmIdx : ℤ
  outLen : ℕ
  pcmAcquired : Bool
  diagPcmGen : ℕ
  diagPcmDrop : ℕ
  writer : Writer
  output : Output
  log : List (α × Bool)
  claimed : ℕ
  published : List (List α)
  consumed : List (List α)
  retired : ℕ
  freed : ℕ

namespace PcmPool

variable {α : Type*}

def init (zero : α) : PcmPool α where
  pcmPool := fun _ => ⟨Vector.replicate _ zero, 0, false, false⟩
  pcmWriteIdx := 0
  pcmReadIdx := 0
  pcmIdx := 0
  outLen := 0
  pcmAcquired := false
  diagPcmGen := 0
  diagPcmDrop := 0
  writer := .idle
  output := .testReady
  log := []
  claimed := 0
  published := []
  consumed := []
  retired := 0
  freed := 0

/-- `demodThread` at `have_data`. -/
def startChunk (s : PcmPool α) : PcmPool α :=
  match s.writer with
  | .idle => if s.pcmAcquired then s else { s with writer := .testInUse }
  | _ => s

/-- `pcm_pool[pcm_idx].data[out_len++] = x` -/
def putSample (s : PcmPool α) (x : α) : PcmPool α :=
  { s with
    pcmPool := modifySlot s.pcmPool s.pcmIdx fun slot =>
      { slot with data := store slot.data s.outLen x }
    outLen := s.outLen + 1
    log := s.log ++ [(x, true)] }

/-- The resampler puts out sample `x`. -/
def sample (s : PcmPool α) (x : α) : PcmPool α :=
  match s.writer with
  | .idle =>
    if s.pcmAcquired then
      if (s.putSample x).outLen ≥ pcmChunkSize - 10 then
        { s.putSample x with
          diagPcmGen := s.diagPcmGen + (s.putSample x).outLen
          writer := .setLen }
      else s.putSample x
    else
      { s with
        diagPcmDrop := s.diagPcmDrop + 1
        writer := .testInUse
        log := s.log ++ [(x, false)] }
  | _ => s

/-- The steps of `demodThread` that publish a slot and take the next one. -/
def demodThread (s : PcmPool α) : PcmPool α :=
  match s.writer with
  | .idle => s
  | .testInUse =>
    let idx := slotIndex poolSize s.pcmWriteIdx
    { s with
      pcmIdx := idx
      writer := if (s.pcmPool idx).inUse then .idle else .setInUse }
  | .setInUse =>
    { s with
      pcmPool := modifySlot s.pcmPool s.pcmIdx fun slot => { slot with inUse := true }
      outLen := 0
      pcmAcquired := true
      writer := .idle
      claimed := s.claimed + 1 }
  | .setLen =>
    { s with
      pcmPool := modifySlot s.pcmPool s.pcmIdx fun slot => { slot with len := s.outLen }
      writer := .setReady }
  | .setReady =>
    { s with
      pcmPool := modifySlot s.pcmPool s.pcmIdx fun slot => { slot with ready := true }
      writer := .incWrite
      published := s.published ++ [(s.pcmPool s.pcmIdx).pcm] }
  | .incWrite => { s with pcmWriteIdx := s.pcmWriteIdx + 1, writer := .testNext }
  | .testNext =>
    let idx := slotIndex poolSize s.pcmWriteIdx
    if (s.pcmPool idx).inUse then { s with pcmIdx := idx, pcmAcquired := false, writer := .idle }
    else { s with pcmIdx := idx, writer := .setNext }
  | .setNext =>
    { s with
      pcmPool := modifySlot s.pcmPool s.pcmIdx fun slot => { slot with inUse := true }
      outLen := 0
      writer := .idle
      claimed := s.claimed + 1 }

def outputThread (s : PcmPool α) : PcmPool α :=
  match s.output with
  | .testReady =>
    let idx := slotIndex poolSize s.pcmReadIdx
    if (s.pcmPool idx).ready then { s with output := .write idx } else s
  | .write idx =>
    { s with output := .clearReady idx, consumed := s.consumed ++ [(s.pcmPool idx).pcm] }
  | .clearReady idx =>
    { s with
      pcmPool := modifySlot s.pcmPool idx fun slot => { slot with ready := false }
      output := .clearInUse idx
      retired := s.retired + 1 }
  | .clearInUse idx =>
    { s with
      pcmPool := modifySlot s.pcmPool idx fun slot => { slot with inUse := false }
      output := .incRead
      freed := s.freed + 1 }
  | .incRead => { s with pcmReadIdx := s.pcmReadIdx + 1, output := .testReady }

inductive Act (α : Type*)
  | startChunk
  | sample (x : α)
  | demod
  | output

def step (s : PcmPool α) : Act α → PcmPool α
  | .startChunk => s.startChunk
  | .sample x => s.sample x
  | .demod => s.demodThread
  | .output => s.outputThread

/-- The sample an action puts out: between two of its own steps `demodThread` puts out none. -/
def resampled (s : PcmPool α) : Act α → List α
  | .sample x => if s.writer = .idle then [x] else []
  | _ => []

/-- The samples generated by the `.sample` actions of a run. -/
def generated (s : PcmPool α) (as : List (Act α)) : List α := Machine.gives step resampled s as

/-- The writer holds a slot whose samples it has not counted yet. -/
def Held (s : PcmPool α) : Prop := s.writer = .idle ∧ s.pcmAcquired = true
  deriving Decidable

/-- The samples in the slot the writer has not published yet. -/
def pending (s : PcmPool α) : List α :=
  match s.writer, s.pcmAcquired with
  | .idle, true | .setLen, _ | .setReady, _ =>
    (s.pcmPool s.pcmIdx).data.toList.take s.outLen
  | _, _ => []

/-- The ready slots `outputThread` has not written out yet, from the next one on. -/
def readySlots (s : PcmPool α) : List ℤ :=
  ((List.range 32).map fun j => ringSlot 32 (s.consumed.length + j)).filter fun idx =>
    (s.pcmPool idx).ready && s.output ≠ .clearReady idx

/-- The generated samples that were stored. -/
def kept (s : PcmPool α) : List α := (s.log.filter (·.2)).map (·.1)

/-- The generated samples that were dropped. -/
def dropped (s : PcmPool α) : List α := (s.log.filter (!·.2)).map (·.1)

end PcmPool

end Daemon

end AetherGuard
