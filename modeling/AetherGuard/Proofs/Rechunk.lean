import AetherGuard.Rechunk
import AetherGuard.IqStream

/-!
# Re-chunking loses nothing

The full buffers and the staged values are always the values received so far, cut into blocks. A
round of the loop either extends the remainder or completes a block, and the cut is unique, so how
the values were split into calls cannot be seen in the chunks.
-/

namespace AetherGuard

namespace Daemon

namespace Rechunk

open Blocks

variable {α : Type*} {s : Rechunk α} {received : List α}

/-- The filled part of `staging_buf`. -/
def staged (s : Rechunk α) : List α := s.stagingBuf.toList.take s.stagingLen

def chunks (s : Rechunk α) : List (List α) := s.completed.map fun c => c.1.toList

/-- The values `received` are those of the full buffers and then the staged ones. -/
structure Holds (s : Rechunk α) (received : List α) : Prop where
  len_lt : s.stagingLen < iqChunkSize * 2
  cut : Cut (iqChunkSize * 2) received s.chunks s.staged

theorem length_staged (h : s.stagingLen ≤ iqChunkSize * 2) : s.staged.length = s.stagingLen := by
  rw [staged, List.length_take, Vector.length_toList]
  exact min_eq_left h

theorem chunkSize_pos : 0 < iqChunkSize * 2 := by decide

theorem init_holds (zero : α) : (init zero).Holds [] :=
  ⟨chunkSize_pos, by simpa [staged, chunks, init] using Cut.nil chunkSize_pos⟩

section Copied

variable {buf : Chunk α} {new : List α}
  (hcopied : buf.toList.take (s.stagingLen + new.length) = s.staged ++ new)
include hcopied

/-- The values `new` were copied behind the staged ones, and the buffer is not full. -/
theorem Holds.stage (hs : s.Holds received) (hlt : s.stagingLen + new.length < iqChunkSize * 2) :
    Holds ⟨buf, s.stagingLen + new.length, s.completed⟩ (received ++ new) := by
  refine ⟨hlt, ?_⟩
  rw [staged, hcopied]
  refine hs.cut.extend ?_
  rwa [List.length_append, length_staged hs.len_lt.le]

/-- The values `new` were copied behind the staged ones, and the buffer is full. -/
theorem Holds.fill (hs : s.Holds received) (hfull : s.stagingLen + new.length = iqChunkSize * 2)
    (published : Bool) : Holds ⟨buf, 0, s.completed ++ [(buf, published)]⟩ (received ++ new) := by
  have hbuf : buf.toList = s.staged ++ new := by
    rw [← hcopied, hfull, List.take_of_length_le (by simp)]
  refine ⟨chunkSize_pos, ?_⟩
  simp only [chunks, List.map_append, List.map_singleton, hbuf, staged, List.take_zero]
  refine hs.cut.complete ?_
  rwa [List.length_append, length_staged hs.len_lt.le]

end Copied

theorem feedLoop_holds (inUse : ℕ → Bool) (iqBuffer : List α) (rounds offset : ℕ)
    (hrounds : iqBuffer.length - offset < rounds) (hs : s.Holds received) :
    ∃ s', feedLoop inUse iqBuffer rounds offset s = some s' ∧
      s'.Holds (received ++ iqBuffer.drop offset) := by
  induction rounds generalizing offset s received with
  | zero => omega
  | succ rounds ih =>
    by_cases hoff : offset < iqBuffer.length
    · have hlt := hs.len_lt
      set toCopy := min (iqChunkSize * 2 - s.stagingLen) (iqBuffer.length - offset) with hcopy
      obtain ⟨buf, hbuf, hcopied⟩ := exists_memcpyAt s.stagingBuf
        (show s.stagingLen + toCopy ≤ iqChunkSize * 2 by omega)
        (show offset + toCopy ≤ iqBuffer.length by omega)
      set new := (iqBuffer.drop offset).take toCopy with hnew
      have hlen : toCopy = new.length := by
        rw [hnew, List.length_take, List.length_drop]
        omega
      simp only [feedLoop, if_pos hoff, ← hcopy, hbuf]
      rw [hlen] at hcopied ⊢
      by_cases hfull : s.stagingLen + new.length < iqChunkSize * 2
      · -- The buffer is not full, so all that was left has been copied.
        have hall : new = iqBuffer.drop offset :=
          List.take_of_length_le (by rw [List.length_drop]; omega)
        exact ⟨_, if_pos hfull, hall ▸ hs.stage hcopied hfull⟩
      · obtain ⟨s', hs', hholds⟩ := ih (offset + new.length) (by omega)
          (hs.fill hcopied (by omega) (!inUse s.completed.length))
        refine ⟨s', by rw [if_neg hfull, hs'], ?_⟩
        rwa [List.append_assoc, ← List.drop_drop, ← hlen, List.take_append_drop] at hholds
    · refine ⟨s, by simp [feedLoop, hoff], ?_⟩
      rwa [List.drop_eq_nil_of_le (by omega), List.append_nil]

theorem feedIQToPool_holds (inUse : ℕ → Bool) (iqBuffer : List α) (hs : s.Holds received) :
    ∃ s', feedIQToPool inUse false s iqBuffer = some s' ∧ s'.Holds (received ++ iqBuffer) := by
  by_cases hempty : iqBuffer = []
  · exact ⟨s, by simp [feedIQToPool, hempty], by simpa [hempty] using hs⟩
  · obtain ⟨s', hs', hholds⟩ := feedLoop_holds inUse iqBuffer (iqBuffer.length + 1) 0 (by omega) hs
    exact ⟨s', by simpa [feedIQToPool, hempty] using hs', by simpa using hholds⟩

theorem feedAll_holds (inUse : ℕ → Bool) (zero : α) (bufs : List (List α)) :
    ∃ s, feedAll inUse zero bufs = some s ∧ s.Holds bufs.flatten := by
  suffices h : ∀ (s : Rechunk α) (received : List α), s.Holds received →
      ∃ s', bufs.foldlM (feedIQToPool inUse false) s = some s' ∧
        s'.Holds (received ++ bufs.flatten) from h (init zero) [] (init_holds zero)
  induction bufs with
  | nil => exact fun s received hs => ⟨s, rfl, by simpa using hs⟩
  | cons iqBuffer bufs ih =>
    intro s received hs
    obtain ⟨s₁, hs₁, hholds₁⟩ := feedIQToPool_holds inUse iqBuffer hs
    obtain ⟨s₂, hs₂, hholds₂⟩ := ih s₁ _ hholds₁
    refine ⟨s₂, ?_, by simpa using hholds₂⟩
    rw [List.foldlM_cons, hs₁]
    exact hs₂

/-- The staged values are what is left when chunks of an even size are cut from an even number. -/
theorem Holds.len_even (hs : s.Holds received) (heven : received.length % 2 = 0) :
    s.stagingLen % 2 = 0 := by
  have hrest : s.staged.length = received.length % (iqChunkSize * 2) := by
    rw [hs.cut.eq_blocks.2, remainder, List.length_drop, Nat.mod_eq_sub]
  rw [← length_staged hs.len_lt.le, hrest]
  unfold iqChunkSize
  omega

theorem even_length_flatten {bufs : List (List α)} (heven : ∀ b ∈ bufs, b.length % 2 = 0) :
    bufs.flatten.length % 2 = 0 := by
  induction bufs with
  | nil => rfl
  | cons b bufs ih =>
    have hb := heven b List.mem_cons_self
    have hrest := ih fun c hc => heven c (List.mem_cons_of_mem _ hc)
    rw [List.flatten_cons, List.length_append]
    omega

/-- Cell `i` of the `k`-th full buffer is value `i` of the `k`-th block. -/
theorem Holds.getElem?_chunk (hs : s.Holds received) {k i : ℕ} {c : Chunk α × Bool}
    (hc : s.completed[k]? = some c) (hi : i < iqChunkSize * 2) :
    c.1.toList[i]? = received[iqChunkSize * 2 * k + i]? := by
  refine getElem?_blocks ?_ hi
  rw [← hs.cut.eq_blocks.1, chunks, List.getElem?_map, hc]
  rfl

/-- The chunks are the received values cut into blocks, published or dropped, and the rest is
staged; the calls in which the values came do not matter, and the pairs stay pairs. -/
theorem rechunk_lossless (inUse : ℕ → Bool) (zero : α) (bufs : List (List α))
    (heven : ∀ b ∈ bufs, b.length % 2 = 0) :
    ∃ s, feedAll inUse zero bufs = some s ∧
      s.completed.map (fun c => c.1.toList) = blocks (iqChunkSize * 2) bufs.flatten ∧
      s.stagingBuf.toList.take s.stagingLen = remainder (iqChunkSize * 2) bufs.flatten ∧
      s.stagingLen < iqChunkSize * 2 ∧ s.stagingLen % 2 = 0 ∧
      (∀ (inUse' : ℕ → Bool) (bufs' : List (List α)), bufs'.flatten = bufs.flatten →
        ∃ s', feedAll inUse' zero bufs' = some s' ∧
          s'.completed.map Prod.fst = s.completed.map Prod.fst) ∧
      ∀ k c, s.completed[k]? = some c → ∀ i < iqChunkSize,
        c.1.toList[2 * i]? = bufs.flatten[2 * (iqChunkSize * k + i)]? ∧
        c.1.toList[2 * i + 1]? = bufs.flatten[2 * (iqChunkSize * k + i) + 1]? := by
  obtain ⟨s, hs, hholds⟩ := feedAll_holds inUse zero bufs
  refine ⟨s, hs, hholds.cut.eq_blocks.1, hholds.cut.eq_blocks.2, hholds.len_lt,
    hholds.len_even (even_length_flatten heven), ?_, ?_⟩
  · intro inUse' bufs' hflat
    obtain ⟨s', hs', hholds'⟩ := feedAll_holds inUse' zero bufs'
    refine ⟨s', hs', ?_⟩
    have hchunks : s'.chunks = s.chunks := by
      rw [hholds'.cut.eq_blocks.1, hholds.cut.eq_blocks.1, hflat]
    have hinj : Function.Injective (Vector.toList : Chunk α → List α) := fun _ _ h =>
      Vector.toList_inj.1 h
    refine List.map_injective_iff.2 hinj ?_
    rw [List.map_map, List.map_map]
    exact hchunks
  · intro k c hc i hi
    have hpair : iqChunkSize * 2 * k + 2 * i = 2 * (iqChunkSize * k + i) := by ring
    rw [hholds.getElem?_chunk hc (by omega), hholds.getElem?_chunk hc (by omega), ← hpair]
    exact ⟨rfl, rfl⟩

theorem flatten_two_buffers : [List.replicate 40000 1, List.replicate 40000 2].flatten
    = List.replicate 32768 1 ++ ((List.replicate 7232 1 ++ List.replicate 25536 2)
      ++ List.replicate 14464 2) := by
  rw [List.flatten_cons, List.flatten_singleton, ← List.append_assoc, ← List.append_assoc,
    List.replicate_append_replicate, List.append_assoc, List.replicate_append_replicate]

/-- The second chunk is filled from both buffers. -/
theorem rechunk_lossless_two_buffers :
    ∃ s, feedAll (fun _ => false) 0 [List.replicate 40000 1, List.replicate 40000 2] = some s ∧
      s.completed.map (fun c => c.1.toList)
        = [List.replicate 32768 1, List.replicate 7232 1 ++ List.replicate 25536 2] ∧
      s.stagingBuf.toList.take s.stagingLen = List.replicate 14464 2 := by
  have heven : ∀ b ∈ [List.replicate 40000 1, List.replicate 40000 2], b.length % 2 = 0 := by
    intro b hb
    rcases List.mem_pair.1 hb with rfl | rfl
    · rw [List.length_replicate]
    · rw [List.length_replicate]
  obtain ⟨s, hs, hchunks, hrest, -⟩ := rechunk_lossless (fun _ => false) 0 _ heven
  have hfirst : (List.replicate 32768 1).length = iqChunkSize * 2 := List.length_replicate
  have hsecond : (List.replicate 7232 1 ++ List.replicate 25536 2).length = iqChunkSize * 2 := by
    rw [List.length_append, List.length_replicate, List.length_replicate]
    rfl
  have hshort : (List.replicate 14464 2).length / (iqChunkSize * 2) = 0 := by
    rw [List.length_replicate]
    rfl
  rw [flatten_two_buffers, blocks_append chunkSize_pos hfirst, blocks_append chunkSize_pos hsecond,
    blocks, hshort] at hchunks
  rw [flatten_two_buffers, remainder_append chunkSize_pos hfirst,
    remainder_append chunkSize_pos hsecond, remainder, hshort, Nat.mul_zero,
    List.drop_zero] at hrest
  exact ⟨s, hs, hchunks, hrest⟩

/-- The copy of one round leaves in the buffer what the stream of many connections takes it to
stage. -/
theorem exists_round_staged {i : IqStream} {s : Rechunk Cell} (hlt : s.stagingLen < iqChunkSize * 2)
    (hs : s.staged = i.staging.1) (iqBuffer : List Cell) {offset : ℕ}
    (hoff : offset ≤ iqBuffer.length) :
    let toCopy := min (iqChunkSize * 2 - s.stagingLen) (iqBuffer.length - offset)
    ∃ buf, memcpyAt s.stagingBuf s.stagingLen iqBuffer offset toCopy = some buf ∧
      buf.toList.take (s.stagingLen + toCopy) = i.staged (iqBuffer.drop offset) := by
  intro toCopy
  obtain ⟨buf, hbuf, htake⟩ := exists_memcpyAt s.stagingBuf
    (show s.stagingLen + toCopy ≤ iqChunkSize * 2 by omega)
    (show offset + toCopy ≤ iqBuffer.length by omega)
  refine ⟨buf, hbuf, ?_⟩
  have hlen : i.staging.1.length = s.stagingLen := by rw [← hs, length_staged hlt.le]
  rw [htake, IqStream.staged, hlen, ← hs, staged]
  refine congrArg _ (List.take_eq_take_iff.2 ?_)
  rw [List.length_drop]
  omega

end Rechunk

end Daemon

end AetherGuard
