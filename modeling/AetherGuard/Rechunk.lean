import AetherGuard.IqPool
import AetherGuard.Lib.Blocks

/-!
# The staging buffer

`feedIQToPool` as one call: the loop that copies the received values into `staging_buf`, and hands
the buffer to the pool, or drops it, each time it is full. The buffer and its fill are static, so
they outlive the call. Whether the pool has a free slot is up to the demodulator: `inUse k` is what
the test of the slot gives for the `k`-th full buffer. A copy outside its bounds is `none`.
-/

namespace AetherGuard

namespace Daemon

/-- `staging_buf`, `staging_len`, and the buffers filled so far, each with whether it
was published. -/
structure Rechunk (α : Type*) where
  stagingBuf : Chunk α
  stagingLen : ℕ
  completed : List (Chunk α × Bool)

namespace Rechunk

variable {α : Type*}

def init (zero : α) : Rechunk α := ⟨Vector.replicate _ zero, 0, []⟩

/-- The loop from `offset` on, for at most so many rounds. -/
def feedLoop (inUse : ℕ → Bool) (iqBuffer : List α) : ℕ → ℕ → Rechunk α → Option (Rechunk α)
  | 0, _, _ => none
  | rounds + 1, offset, s =>
    if offset < iqBuffer.length then
      let space := iqChunkSize * 2 - s.stagingLen
      let toCopy := min space (iqBuffer.length - offset)
      match memcpyAt s.stagingBuf s.stagingLen iqBuffer offset toCopy with
      | none => none
      | some stagingBuf =>
        let stagingLen := s.stagingLen + toCopy
        if stagingLen < iqChunkSize * 2 then some ⟨stagingBuf, stagingLen, s.completed⟩
        else
          feedLoop inUse iqBuffer rounds (offset + toCopy)
            ⟨stagingBuf, 0, s.completed ++ [(stagingBuf, !inUse s.completed.length)]⟩
    else some s

/-- Each round copies at least one value, so one round more than there are values is enough. -/
def feedIQToPool (inUse : ℕ → Bool) (gScanning : Bool) (s : Rechunk α) (iqBuffer : List α) :
    Option (Rechunk α) :=
  if gScanning || iqBuffer.isEmpty then some s
  else feedLoop inUse iqBuffer (iqBuffer.length + 1) 0 s

/-- The state after the calls with the buffers `bufs`, none during a scan. -/
def feedAll (inUse : ℕ → Bool) (zero : α) (bufs : List (List α)) : Option (Rechunk α) :=
  bufs.foldlM (feedIQToPool inUse false) (init zero)

end Rechunk

end Daemon

end AetherGuard
