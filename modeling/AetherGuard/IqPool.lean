import AetherGuard.Lib.Machine
import AetherGuard.Lib.Memory
import AetherGuard.Lib.Window

/-!
# The daemon's IQ pool

`feedIQToPool`, once its staging buffer is full, and `demodThread` share a pool of 32 slots with
two flags each: the feeder tests `in_use`, the demodulator `ready`. The demodulator also takes
`g_stream_gap` down at the top of its loop, and resets its filters if it was up; it may then spin
on `ready` without looking at the flag again. One action is one atomic step of a thread, the
feeder being handed a full chunk, or the reader raising the gap flag at the end of a connection.
The cells of a chunk are of any type `α`. Besides the code's variables the state keeps the chunks
accepted and processed, the changes of each flag, and the samples and resets the filters saw.
-/

namespace AetherGuard

namespace Daemon

/-- `POOL_SIZE` -/
def poolSize : Int32 := 32

/-- `IQ_CHUNK_SIZE`, I/Q pairs in a chunk. -/
def iqChunkSize : ℕ := 16384

/-- A full staging buffer. -/
abbrev Chunk (α : Type*) := Vector α (iqChunkSize * 2)

structure IqSlot (α : Type*) where
  data : Chunk α
  len : ℕ
  inUse : Bool
  ready : Bool

/-- The cells the demodulator goes through: `data[2 * i]` and `data[2 * i + 1]` for `i < len`. -/
def IqSlot.cells {α : Type*} (slot : IqSlot α) : List α := slot.data.toList.take (2 * slot.len)

/-- What the filters see. -/
inductive Event (α : Type*)
  | reset
  | sample (i q : α)

/-- The samples of interleaved cells. -/
def samples {α : Type*} : List α → List (Event α)
  | i :: q :: l => .sample i q :: samples l
  | _ => []

/-- The next step of `feedIQToPool` with a full staging buffer. -/
inductive Feeder (α : Type*)
  | idle
  | testInUse (chunk : Chunk α)
  | raiseGap
  | setInUse (idx : ℤ) (chunk : Chunk α)
  | copy (idx : ℤ) (chunk : Chunk α)
  | setLen (idx : ℤ)
  | setReady (idx : ℤ)
  | incWrite

/-- The next step of `demodThread`; `spin` counts the tests left before it yields. -/
inductive Demod
  | exchangeGap
  | testReady
  | spin (idx : ℤ) (left : ℕ)
  | process (idx : ℤ)
  | clearReady (idx : ℤ)
  | clearInUse (idx : ℤ)
  | incRead

structure Pool (α : Type*) where
  iqPool : ℤ → IqSlot α
  iqWriteIdx : Int32
  iqReadIdx : Int32
  gStreamGap : Bool
  feeder : Feeder α
  demod : Demod
  accepted : List (List α)
  claimed : ℕ
  published : ℕ
  processed : List (List α)
  retired : ℕ
  freed : ℕ
  trace : List (Event α)

namespace Pool

variable {α : Type*}

/-- The pool at the start, its cells holding `zero`. -/
def init (zero : α) : Pool α where
  iqPool := fun _ => ⟨Vector.replicate _ zero, 0, false, false⟩
  iqWriteIdx := 0
  iqReadIdx := 0
  gStreamGap := false
  feeder := .idle
  demod := .exchangeGap
  accepted := []
  claimed := 0
  published := 0
  processed := []
  retired := 0
  freed := 0
  trace := []

def offer (s : Pool α) (chunk : Chunk α) : Pool α :=
  match s.feeder with
  | .idle => { s with feeder := .testInUse chunk }
  | _ => s

/-- `tcpReaderThread` raises `g_stream_gap`. -/
def raiseGap (s : Pool α) : Pool α := { s with gStreamGap := true }

def feedIQToPool (s : Pool α) : Pool α :=
  match s.feeder with
  | .idle => s
  | .testInUse chunk =>
    let idx := slotIndex poolSize s.iqWriteIdx
    if (s.iqPool idx).inUse then { s with feeder := .raiseGap }
    else { s with feeder := .setInUse idx chunk, accepted := s.accepted ++ [chunk.toList] }
  | .raiseGap => { s.raiseGap with feeder := .idle }
  | .setInUse idx chunk =>
    { s with
      iqPool := modifySlot s.iqPool idx fun slot => { slot with inUse := true }
      feeder := .copy idx chunk
      claimed := s.claimed + 1 }
  | .copy idx chunk =>
    { s with
      iqPool := modifySlot s.iqPool idx fun slot => { slot with data := chunk }
      feeder := .setLen idx }
  | .setLen idx =>
    { s with
      iqPool := modifySlot s.iqPool idx fun slot => { slot with len := iqChunkSize }
      feeder := .setReady idx }
  | .setReady idx =>
    { s with
      iqPool := modifySlot s.iqPool idx fun slot => { slot with ready := true }
      feeder := .incWrite
      published := s.published + 1 }
  | .incWrite => { s with iqWriteIdx := s.iqWriteIdx + 1, feeder := .idle }

def demodThread (s : Pool α) : Pool α :=
  match s.demod with
  | .exchangeGap =>
    { s with
      gStreamGap := false
      demod := .testReady
      trace := if s.gStreamGap then s.trace ++ [.reset] else s.trace }
  | .testReady =>
    let idx := slotIndex poolSize s.iqReadIdx
    if (s.iqPool idx).ready then { s with demod := .process idx }
    else { s with demod := .spin idx 1000 }
  | .spin _ 0 => { s with demod := .exchangeGap }
  | .spin idx (left + 1) =>
    if (s.iqPool idx).ready then { s with demod := .process idx }
    else { s with demod := .spin idx left }
  | .process idx =>
    { s with
      demod := .clearReady idx
      processed := s.processed ++ [(s.iqPool idx).cells]
      trace := s.trace ++ samples (s.iqPool idx).cells }
  | .clearReady idx =>
    { s with
      iqPool := modifySlot s.iqPool idx fun slot => { slot with ready := false }
      demod := .clearInUse idx
      retired := s.retired + 1 }
  | .clearInUse idx =>
    { s with
      iqPool := modifySlot s.iqPool idx fun slot => { slot with inUse := false }
      demod := .incRead
      freed := s.freed + 1 }
  | .incRead => { s with iqReadIdx := s.iqReadIdx + 1, demod := .exchangeGap }

inductive Act (α : Type*)
  | offer (chunk : Chunk α)
  | raiseGap
  | feeder
  | demod

def step (s : Pool α) : Act α → Pool α
  | .offer chunk => s.offer chunk
  | .raiseGap => s.raiseGap
  | .feeder => s.feedIQToPool
  | .demod => s.demodThread

/-- The feeder is filling slot `idx`. -/
def FeederOwns (s : Pool α) (idx : ℤ) : Prop :=
  (∃ chunk, s.feeder = .copy idx chunk) ∨ s.feeder = .setLen idx ∨ s.feeder = .setReady idx

/-- The demodulator is releasing slot `idx`. -/
def DemodOwns (s : Pool α) (idx : ℤ) : Prop := s.demod = .clearInUse idx

/-- The feeder's next step drops its chunk. -/
def Drops (s : Pool α) : Prop :=
  (∃ chunk, s.feeder = .testInUse chunk) ∧ s.feedIQToPool.feeder = .raiseGap

end Pool

end Daemon

end AetherGuard
