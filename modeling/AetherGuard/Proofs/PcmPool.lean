import AetherGuard.Lib.Queue
import AetherGuard.PcmPool

/-!
# The PCM pool keeps every sample but the ones it counts as dropped

The slots with `in_use` up are those claimed by the writer and not yet freed, those with `ready` up
the ones published and not yet retired (`Inv`). What the writer has stored and not yet published
lies in the next slot to be published, so the stored samples are the published slots' followed by
the pending ones (`Conserved`). The published slots pass through the pool as through a queue.
-/

namespace AetherGuard

namespace Daemon

open Machine

/-- How far `pcm_write_idx` is behind the slots published. -/
def Writer.behind : Writer → ℕ
  | .incWrite => 1
  | _ => 0

/-- How far `pcm_read_idx` is behind the slots freed. -/
def Output.behind : Output → ℕ
  | .incRead => 1
  | _ => 0

namespace PcmPool

variable {α : Type*} {s : PcmPool α}

/-- `pcm_idx` is the next slot to be published, and the writer's. -/
def Filling (s : PcmPool α) : Prop :=
  s.pcmIdx = ringSlot 32 s.published.length ∧ s.claimed = s.published.length + 1

/-- `pcm_idx` is the next slot to be published, and free. -/
def Taking (s : PcmPool α) : Prop :=
  s.pcmIdx = ringSlot 32 s.published.length ∧ s.claimed = s.published.length
    ∧ s.claimed < s.freed + 32

def WriterOk (s : PcmPool α) : Prop :=
  match s.writer with
  | .idle => (s.pcmAcquired = true → s.Filling ∧ s.outLen < pcmChunkSize - 10)
      ∧ (s.pcmAcquired = false → s.claimed = s.published.length)
  | .testInUse => s.pcmAcquired = false ∧ s.claimed = s.published.length
  | .setInUse => s.pcmAcquired = false ∧ s.Taking
  | .setLen => s.pcmAcquired = true ∧ s.Filling ∧ s.outLen = pcmChunkSize - 10
  | .setReady => s.pcmAcquired = true ∧ s.Filling ∧ s.outLen = pcmChunkSize - 10
      ∧ (s.pcmPool s.pcmIdx).len = s.outLen
  | .incWrite => s.pcmAcquired = true ∧ 0 < s.published.length ∧ s.claimed = s.published.length
  | .testNext => s.pcmAcquired = true ∧ s.claimed = s.published.length
  | .setNext => s.pcmAcquired = true ∧ s.Taking

def OutputOk (s : PcmPool α) : Prop :=
  match s.output with
  | .testReady => s.retired = s.freed ∧ s.consumed.length = s.freed
  | .write idx => idx = ringSlot 32 s.freed ∧ s.retired = s.freed
      ∧ s.freed < s.published.length ∧ s.consumed.length = s.freed
  | .clearReady idx => idx = ringSlot 32 s.freed ∧ s.retired = s.freed
      ∧ s.freed < s.published.length ∧ s.consumed.length = s.freed + 1
  | .clearInUse idx => idx = ringSlot 32 s.freed ∧ s.retired = s.freed + 1
      ∧ s.consumed.length = s.freed + 1
  | .incRead => 0 < s.freed ∧ s.retired = s.freed ∧ s.consumed.length = s.freed

structure Inv (s : PcmPool α) : Prop where
  write : s.pcmWriteIdx = ticks (s.published.length - s.writer.behind)
  read : s.pcmReadIdx = ticks (s.freed - s.output.behind)
  inUse : Window 32 (fun i => (s.pcmPool i).inUse) s.freed s.claimed
  ready : Window 32 (fun i => (s.pcmPool i).ready) s.retired s.published.length
  stores : Stores 32 (fun i => (s.pcmPool i).pcm) s.published s.retired s.published.length
  writerOk : s.WriterOk
  outputOk : s.OutputOk

theorem init_inv (zero : α) : Inv (init zero) where
  write := rfl
  read := rfl
  inUse := Window.of_empty (fun _ => rfl) 0
  ready := Window.of_empty (fun _ => rfl) 0
  stores := Stores.of_empty _ _ _ 0
  writerOk := ⟨nofun, fun _ => rfl⟩
  outputOk := ⟨rfl, rfl⟩

theorem freed_bounds (h : Inv s) : s.freed ≤ s.retired ∧ s.retired ≤ s.freed + 1 := by
  have hok := h.outputOk
  unfold OutputOk at hok
  split at hok <;> omega

theorem published_le_claimed (h : Inv s) : s.published.length ≤ s.claimed := by
  have hok := h.writerOk
  unfold WriterOk Filling Taking at hok
  split at hok
  · cases hacq : s.pcmAcquired with
    | true => exact ((hok.1 hacq).1.2.symm ▸ Nat.le_succ _)
    | false => exact (hok.2 hacq).ge
  all_goals omega

theorem published_lt (h : Inv s) (hf : s.Filling) : s.published.length < s.retired + 32 := by
  have := h.inUse.hi_le
  have := freed_bounds h
  have := hf.2
  omega

/-- The slot the writer is filling is not among the published ones. -/
theorem stores_fill (h : Inv s) (hf : s.Filling) (f : PcmSlot α → PcmSlot α) :
    Stores 32 (fun i => (modifySlot s.pcmPool s.pcmIdx f i).pcm) s.published s.retired
      s.published.length := by
  rw [hf.1]
  exact h.stores.write le_rfl (published_lt h hf) fun j hj => by simp only [modifySlot_ne _ f hj]

theorem filling_ready (h : Inv s) (hf : s.Filling) : (s.pcmPool s.pcmIdx).ready = false := by
  rw [hf.1]
  exact (h.ready.flag_hi_false (by norm_num)).2 (published_lt h hf)

theorem filling_inUse (h : Inv s) (hf : s.Filling) : (s.pcmPool s.pcmIdx).inUse = true := by
  have := freed_bounds h
  have := h.ready.lo_le
  have := hf.2
  rw [hf.1]
  exact h.inUse.flag_of_mem (by norm_num) (by omega) (by omega)

theorem slotIndex_write (h : Inv s) (hb : s.published.length < 2 ^ 31)
    (hw : s.writer.behind = 0) :
    slotIndex poolSize s.pcmWriteIdx = ringSlot 32 s.published.length := by
  rw [h.write, hw]
  exact slotIndex_ticks_of_lt rfl (by omega)

theorem slotIndex_read (h : Inv s) (hb : s.published.length < 2 ^ 31) (ho : s.output.behind = 0) :
    slotIndex poolSize s.pcmReadIdx = ringSlot 32 s.freed := by
  have := freed_bounds h
  have := h.ready.lo_le
  rw [h.read, ho]
  exact slotIndex_ticks_of_lt rfl (by omega)

theorem startChunk_inv (h : Inv s) : Inv s.startChunk := by
  unfold startChunk
  split
  · rename_i hw
    have hok := h.writerOk
    have hwr := h.write
    rw [WriterOk, hw] at hok
    rw [hw] at hwr
    split_ifs with hacq
    · exact h
    · rw [Bool.not_eq_true] at hacq
      exact ⟨hwr, h.read, h.inUse, h.ready, h.stores, ⟨hacq, hok.2 hacq⟩, h.outputOk⟩
  · exact h

theorem putSample_fields (h : Inv s) (hf : s.Filling) (x : α) :
    Window 32 (fun i => ((s.putSample x).pcmPool i).inUse) s.freed s.claimed
      ∧ Window 32 (fun i => ((s.putSample x).pcmPool i).ready) s.retired s.published.length
      ∧ Stores 32 (fun i => ((s.putSample x).pcmPool i).pcm) s.published s.retired
        s.published.length := by
  unfold putSample
  refine ⟨?_, ?_, stores_fill h hf _⟩
  · exact h.inUse.modify rfl
  · exact h.ready.modify rfl

theorem sample_inv (h : Inv s) (x : α) : Inv (s.sample x) := by
  unfold sample
  split
  · rename_i hw
    have hok := h.writerOk
    have hwr := h.write
    rw [WriterOk, hw] at hok
    rw [hw] at hwr
    split_ifs with hacq hlen
    · obtain ⟨hf, hlt⟩ := hok.1 hacq
      obtain ⟨hinUse, hready, hstores⟩ := putSample_fields h hf x
      have hout : s.outLen + 1 = pcmChunkSize - 10 := le_antisymm hlt hlen
      exact ⟨hwr, h.read, hinUse, hready, hstores, ⟨hacq, hf, hout⟩, h.outputOk⟩
    · obtain ⟨hf, -⟩ := hok.1 hacq
      obtain ⟨hinUse, hready, hstores⟩ := putSample_fields h hf x
      refine ⟨h.write, h.read, hinUse, hready, hstores, ?_, h.outputOk⟩
      rw [WriterOk, show (s.putSample x).writer = .idle from hw]
      exact ⟨fun _ => ⟨hf, not_le.1 hlen⟩, fun hn => absurd (hacq.symm.trans hn) nofun⟩
    · rw [Bool.not_eq_true] at hacq
      exact ⟨hwr, h.read, h.inUse, h.ready, h.stores, ⟨hacq, hok.2 hacq⟩, h.outputOk⟩
  · exact h

theorem OutputOk.published_le {t : PcmPool α} (ho : s.OutputOk) (h1 : t.output = s.output)
    (h2 : t.freed = s.freed) (h3 : t.retired = s.retired) (h4 : t.consumed = s.consumed)
    (h5 : s.published.length ≤ t.published.length) : t.OutputOk := by
  unfold OutputOk at ho ⊢
  rw [h1, h2, h3, h4]
  split at ho
  · exact ho
  · exact ⟨ho.1, ho.2.1, by omega, ho.2.2.2⟩
  · exact ⟨ho.1, ho.2.1, by omega, ho.2.2.2⟩
  · exact ho
  · exact ho

/-- Taking the slot at `pcm_idx` raises its `in_use` flag and nothing else. -/
theorem take_fields (h : Inv s) (ht : s.Taking) :
    Window 32 (fun i => (modifySlot s.pcmPool s.pcmIdx
        (fun slot => { slot with inUse := true }) i).inUse) s.freed (s.claimed + 1)
      ∧ Window 32 (fun i => (modifySlot s.pcmPool s.pcmIdx
        (fun slot => { slot with inUse := true }) i).ready) s.retired s.published.length
      ∧ Stores 32 (fun i => (modifySlot s.pcmPool s.pcmIdx
        (fun slot => { slot with inUse := true }) i).pcm) s.published s.retired
        s.published.length := by
  obtain ⟨hidx, hcl, hlt⟩ := ht
  refine ⟨?_, ?_, ?_⟩
  · rw [modifySlot_field_set PcmSlot.inUse rfl, hidx, ← hcl]
    exact h.inUse.raise hlt
  · exact h.ready.modify rfl
  · exact h.stores.modify rfl

theorem demodThread_inv (h : Inv s) (hb : s.published.length < 2 ^ 31) : Inv s.demodThread := by
  have hok := h.writerOk
  have hwr := h.write
  have hout := h.outputOk
  unfold WriterOk at hok
  split at hok <;> rename_i hw <;> rw [hw] at hwr <;> simp only [Writer.behind] at hwr <;>
    simp only [demodThread, hw]
  · exact h
  · rw [slotIndex_write h hb (by rw [hw]; rfl)]
    obtain ⟨hacq, hcl⟩ := hok
    split_ifs with hu
    · refine ⟨hwr, h.read, h.inUse, h.ready, h.stores, ?_, hout⟩
      exact ⟨fun hn => absurd (hacq.symm.trans hn) nofun, fun _ => hcl⟩
    · rw [Bool.not_eq_true, ← hcl, h.inUse.flag_hi_false (by norm_num)] at hu
      exact ⟨hwr, h.read, h.inUse, h.ready, h.stores, ⟨hacq, rfl, hcl, hu⟩, hout⟩
  · obtain ⟨hacq, ht⟩ := hok
    obtain ⟨hinUse, hready, hstores⟩ := take_fields h ht
    refine ⟨hwr, h.read, hinUse, hready, hstores, ⟨fun _ => ⟨⟨ht.1, ?_⟩, ?_⟩, nofun⟩, hout⟩
    · simp only [ht.2.1]
    · simp [pcmChunkSize]
  · obtain ⟨hacq, hf, hlen⟩ := hok
    refine ⟨hwr, h.read, ?_, ?_, stores_fill h hf _, ⟨hacq, hf, hlen, ?_⟩, hout⟩
    · exact h.inUse.modify rfl
    · exact h.ready.modify rfl
    · simp only [modifySlot_self]
  · obtain ⟨hacq, hf, hlen, -⟩ := hok
    refine ⟨?_, h.read, ?_, ?_, ?_, ⟨hacq, by simp, by simp [hf.2]⟩,
      hout.published_le rfl rfl rfl rfl (by simp)⟩
    · simp [Writer.behind, hwr]
    · exact h.inUse.modify rfl
    · rw [modifySlot_field_set PcmSlot.ready rfl, hf.1, List.length_append, List.length_singleton]
      exact h.ready.raise (published_lt h hf)
    · rw [modifySlot_field PcmSlot.pcm rfl, List.length_append, List.length_singleton]
      exact (h.stores.append _).raise (by simp [hf.1])
  · obtain ⟨hacq, hpos, hcl⟩ := hok
    refine ⟨?_, h.read, h.inUse, h.ready, h.stores, ⟨hacq, hcl⟩, hout⟩
    simp only [hwr, ← ticks_succ, Writer.behind]
    congr 1
    omega
  · rw [slotIndex_write h hb (by rw [hw]; rfl)]
    obtain ⟨hacq, hcl⟩ := hok
    split_ifs with hu
    · exact ⟨hwr, h.read, h.inUse, h.ready, h.stores, ⟨nofun, fun _ => hcl⟩, hout⟩
    · rw [Bool.not_eq_true, ← hcl, h.inUse.flag_hi_false (by norm_num)] at hu
      exact ⟨hwr, h.read, h.inUse, h.ready, h.stores, ⟨hacq, rfl, hcl, hu⟩, hout⟩
  · obtain ⟨hacq, ht⟩ := hok
    obtain ⟨hinUse, hready, hstores⟩ := take_fields h ht
    refine ⟨hwr, h.read, hinUse, hready, hstores, ⟨fun _ => ⟨⟨ht.1, ?_⟩, ?_⟩, fun hn => ?_⟩, hout⟩
    · simp only [ht.2.1]
    · simp [pcmChunkSize]
    · exact absurd (hacq.symm.trans hn) nofun

/-- The output thread's changes of the flags are no concern of the writer's. -/
theorem WriterOk.of_flags {t : PcmPool α} (hw : s.WriterOk) (h1 : t.writer = s.writer)
    (h2 : t.pcmAcquired = s.pcmAcquired) (h3 : t.pcmIdx = s.pcmIdx) (h4 : t.outLen = s.outLen)
    (h5 : t.claimed = s.claimed) (h6 : t.published = s.published) (h7 : s.freed ≤ t.freed)
    (h8 : ∀ i, (t.pcmPool i).len = (s.pcmPool i).len) : t.WriterOk := by
  unfold WriterOk Filling Taking at hw ⊢
  rw [h1, h2, h3, h4, h5, h6]
  split at hw
  · exact hw
  · exact hw
  · exact ⟨hw.1, hw.2.1, hw.2.2.1, by omega⟩
  · exact hw
  · rw [h8]
    exact hw
  · exact hw
  · exact hw
  · exact ⟨hw.1, hw.2.1, hw.2.2.1, by omega⟩

theorem outputThread_inv (h : Inv s) (hb : s.published.length < 2 ^ 31) : Inv s.outputThread := by
  have hok := h.outputOk
  have hr := h.read
  unfold OutputOk at hok
  split at hok <;> rename_i ho <;> rw [ho] at hr <;> simp only [Output.behind] at hr <;>
    simp only [outputThread, ho]
  · rw [slotIndex_read h hb (by rw [ho]; rfl)]
    obtain ⟨hret, hcons⟩ := hok
    split_ifs with hready
    · rw [← hret, h.ready.flag_lo (by norm_num), hret] at hready
      exact ⟨h.write, hr, h.inUse, h.ready, h.stores, h.writerOk, ⟨rfl, hret, hready, hcons⟩⟩
    · exact h
  · obtain ⟨hidx, hret, hlt, hcons⟩ := hok
    refine ⟨h.write, hr, h.inUse, h.ready, h.stores, h.writerOk, ⟨hidx, hret, hlt, ?_⟩⟩
    simp [hcons]
  · obtain ⟨rfl, hret, hlt, hcons⟩ := hok
    refine ⟨h.write, hr, ?_, ?_, ?_, ?_, ⟨rfl, by simp [hret], hcons⟩⟩
    · exact h.inUse.modify rfl
    · rw [modifySlot_field_set PcmSlot.ready rfl, ← hret]
      exact h.ready.lower (by omega)
    · exact h.stores.lower.modify rfl
    · exact h.writerOk.of_flags rfl rfl rfl rfl rfl rfl le_rfl
        (congrFun (modifySlot_field PcmSlot.len rfl))
  · obtain ⟨rfl, hret, hcons⟩ := hok
    have hle := h.ready.lo_le.trans (published_le_claimed h)
    refine ⟨h.write, hr, ?_, ?_, ?_, ?_, ⟨Nat.succ_pos _, hret, hcons⟩⟩
    · rw [modifySlot_field_set PcmSlot.inUse rfl]
      exact h.inUse.lower (by omega)
    · exact h.ready.modify rfl
    · exact h.stores.modify rfl
    · exact h.writerOk.of_flags rfl rfl rfl rfl rfl rfl (Nat.le_succ _)
        (congrFun (modifySlot_field PcmSlot.len rfl))
  · obtain ⟨hpos, hret, hcons⟩ := hok
    refine ⟨h.write, ?_, h.inUse, h.ready, h.stores, h.writerOk, ⟨hret, hcons⟩⟩
    simp only [hr, ← ticks_succ, Output.behind]
    congr 1
    omega

theorem step_inv (a : Act α) (hb : s.published.length < 2 ^ 31) (h : Inv s) : Inv (s.step a) := by
  cases a with
  | startChunk => exact startChunk_inv h
  | sample x => exact sample_inv h x
  | demod => exact demodThread_inv h hb
  | output => exact outputThread_inv h hb

theorem published_startChunk (s : PcmPool α) : s.startChunk.published = s.published := by
  unfold startChunk
  split
  · split_ifs <;> rfl
  · rfl

theorem published_sample (s : PcmPool α) (x : α) : (s.sample x).published = s.published := by
  unfold sample
  split
  · split_ifs <;> rfl
  · rfl

theorem published_outputThread (s : PcmPool α) : s.outputThread.published = s.published := by
  simp only [outputThread]
  split <;> try rfl
  split_ifs <;> rfl

theorem published_le_step (s : PcmPool α) (a : Act α) :
    s.published.length ≤ (s.step a).published.length := by
  cases a with
  | startChunk => exact (congrArg List.length (published_startChunk s)).ge
  | sample x => exact (congrArg List.length (published_sample s x)).ge
  | demod =>
    simp only [step, demodThread]
    split <;> try exact le_rfl
    · simp
    · split_ifs <;> exact le_rfl
  | output => exact (congrArg List.length (published_outputThread s)).ge

/-- The queue of full slots the pool stands for. -/
def queue (s : PcmPool α) : Queue (List α) := ⟨s.published, s.consumed, s.freed⟩

theorem step_refines (h : Inv s) (a : Act α) : Queue.Step 32 s.queue (s.step a).queue := by
  cases a with
  | startChunk =>
    simp only [step, startChunk]
    split
    · split_ifs <;> exact .stay _
    · exact .stay _
  | sample x =>
    simp only [step, sample]
    split
    · split_ifs <;> exact .stay _
    · exact .stay _
  | demod =>
    have hok := h.writerOk
    simp only [step, demodThread]
    unfold WriterOk at hok
    split <;> rename_i hw <;> simp only [hw] at hok <;> try exact .stay _
    · refine .put s.queue _ ?_
      have := h.inUse.hi_le
      have := hok.2.1.2
      simp only [queue]
      omega
    · split_ifs <;> exact .stay _
  | output =>
    have hok := h.outputOk
    simp only [step, outputThread]
    unfold OutputOk at hok
    split <;> rename_i ho <;> simp only [ho] at hok <;> try exact .stay _
    · split_ifs <;> exact .stay _
    · obtain ⟨rfl, hret, hlt, hcons⟩ := hok
      refine .take s.queue _ ?_
      simp only [queue, hcons]
      exact h.stores _ hret.le hlt
    · refine .release s.queue ?_
      simp only [queue]
      omega

/-- No sample is lost or counted twice. -/
structure Conserved (s : PcmPool α) : Prop where
  kept : s.kept = s.published.flatten ++ s.pending
  counted : s.diagPcmGen + s.diagPcmDrop + (if s.Held then s.outLen else 0) = s.log.length
  dropped : s.dropped.length = s.diagPcmDrop
  full : ∀ pcm ∈ s.published, pcm.length = pcmChunkSize - 10

theorem init_conserved (zero : α) : Conserved (init zero) := ⟨rfl, rfl, rfl, nofun⟩

theorem startChunk_conserved (hc : Conserved s) : Conserved s.startChunk := by
  unfold startChunk
  split
  · rename_i hw
    split_ifs with hacq
    · exact hc
    · obtain ⟨hkept, hcount, hdrop, hfull⟩ := hc
      rw [Bool.not_eq_true] at hacq
      simp only [pending, hw, hacq, Held] at hkept hcount
      exact ⟨hkept, hcount, hdrop, hfull⟩
  · exact hc

theorem pending_putSample (hw : s.writer = .idle) (hacq : s.pcmAcquired = true)
    (hlt : s.outLen < pcmChunkSize) (x : α) : (s.putSample x).pending = s.pending ++ [x] := by
  simp only [pending, putSample, hw, hacq, modifySlot_self]
  exact take_store _ x hlt

theorem kept_putSample (s : PcmPool α) (x : α) : (s.putSample x).kept = s.kept ++ [x] := by
  simp [kept, putSample]

theorem dropped_putSample (s : PcmPool α) (x : α) : (s.putSample x).dropped = s.dropped := by
  simp [dropped, putSample]

theorem sample_conserved (h : Inv s) (hc : Conserved s) (x : α) : Conserved (s.sample x) := by
  unfold sample
  split
  · rename_i hw
    have hok := h.writerOk
    rw [WriterOk, hw] at hok
    obtain ⟨hkept, hcount, hdrop, hfull⟩ := hc
    split_ifs with hacq hlen
    · have hlt : s.outLen < pcmChunkSize := (hok.1 hacq).2.trans_le (Nat.sub_le _ _)
      have hpend := pending_putSample hw hacq hlt x
      rw [if_pos ⟨hw, hacq⟩] at hcount
      refine ⟨?_, ?_, (congrArg List.length (dropped_putSample s x)).trans hdrop, hfull⟩
      · simp only [pending, putSample, hw, hacq] at hkept hpend ⊢
        rw [hpend, ← List.append_assoc]
        exact (kept_putSample s x).trans (congrArg (· ++ [x]) hkept)
      · simp only [Held, putSample, List.length_append, List.length_singleton]
        simp
        omega
    · have hlt : s.outLen < pcmChunkSize := (hok.1 hacq).2.trans_le (Nat.sub_le _ _)
      rw [if_pos ⟨hw, hacq⟩] at hcount
      refine ⟨?_, ?_, (congrArg List.length (dropped_putSample s x)).trans hdrop, hfull⟩
      · rw [kept_putSample, pending_putSample hw hacq hlt, hkept, List.append_assoc]
        rfl
      · rw [if_pos (show (s.putSample x).Held from ⟨hw, hacq⟩)]
        simp only [putSample, List.length_append, List.length_singleton]
        omega
    · rw [Bool.not_eq_true] at hacq
      simp only [pending, hw, hacq] at hkept
      simp only [Held, hacq, reduceCtorEq, and_false, if_false] at hcount
      refine ⟨?_, ?_, ?_, hfull⟩
      · simpa [kept, pending] using hkept
      · simp [Held]
        omega
      · simpa [dropped] using hdrop
  · exact hc

theorem demodThread_conserved (h : Inv s) (hc : Conserved s) : Conserved s.demodThread := by
  have hok := h.writerOk
  obtain ⟨hkept, hcount, hdrop, hfull⟩ := hc
  unfold WriterOk at hok
  split at hok <;> rename_i hw <;> simp only [demodThread, hw]
  case h_1 => exact ⟨hkept, hcount, hdrop, hfull⟩
  -- past the top of the loop no slot counts as held
  all_goals
    simp only [pending, hw] at hkept
    simp only [Held, hw, reduceCtorEq, false_and, if_false] at hcount
  · split_ifs
    · refine ⟨by simpa only [kept, pending, hok.1] using hkept, ?_, hdrop, hfull⟩
      simpa only [Held, hok.1, reduceCtorEq, and_false, if_false] using hcount
    · refine ⟨hkept, hcount, hdrop, hfull⟩
  · refine ⟨by simpa [kept, pending] using hkept, ?_, hdrop, hfull⟩
    simpa [Held] using hcount
  · refine ⟨?_, hcount, hdrop, hfull⟩
    simp only [pending, modifySlot_self]
    exact hkept
  · obtain ⟨hacq, hf, hlen, hslot⟩ := hok
    have hpcm : (s.pcmPool s.pcmIdx).pcm
        = (s.pcmPool s.pcmIdx).data.toList.take s.outLen := by
      rw [PcmSlot.pcm, hslot]
    refine ⟨?_, hcount, hdrop, ?_⟩
    · simpa [kept, pending, hpcm] using hkept
    · intro pcm hp
      rcases List.mem_append.1 hp with hp | hp
      · exact hfull pcm hp
      · rw [List.mem_singleton.1 hp, hpcm, List.length_take, Vector.length_toList, hlen]
        exact min_eq_left (Nat.sub_le _ _)
  · exact ⟨hkept, hcount, hdrop, hfull⟩
  · split_ifs <;> exact ⟨hkept, hcount, hdrop, hfull⟩
  · refine ⟨by simpa [kept, pending, hok.1] using hkept, ?_, hdrop, hfull⟩
    simpa [Held] using hcount

/-- Conservation does not look at the slots' flags. -/
theorem Conserved.of_flags {t : PcmPool α} (hc : Conserved s) (h1 : t.writer = s.writer)
    (h2 : t.pcmAcquired = s.pcmAcquired) (h3 : t.pcmIdx = s.pcmIdx) (h4 : t.outLen = s.outLen)
    (h5 : t.diagPcmGen = s.diagPcmGen) (h6 : t.diagPcmDrop = s.diagPcmDrop) (h7 : t.log = s.log)
    (h8 : t.published = s.published) (h9 : ∀ i, (t.pcmPool i).data = (s.pcmPool i).data) :
    Conserved t := by
  obtain ⟨hkept, hcount, hdrop, hfull⟩ := hc
  refine ⟨?_, ?_, ?_, ?_⟩
  · rw [PcmPool.kept, pending, h1, h2, h3, h4, h7, h8, h9]
    exact hkept
  · simp only [Held, h1, h2, h4, h5, h6, h7]
    exact hcount
  · rw [PcmPool.dropped, h6, h7]
    exact hdrop
  · rw [h8]
    exact hfull

theorem outputThread_conserved (hc : Conserved s) : Conserved s.outputThread := by
  simp only [outputThread]
  split
  · split_ifs
    · exact hc.of_flags rfl rfl rfl rfl rfl rfl rfl rfl fun _ => rfl
    · exact hc
  · exact hc.of_flags rfl rfl rfl rfl rfl rfl rfl rfl fun _ => rfl
  · exact hc.of_flags rfl rfl rfl rfl rfl rfl rfl rfl (congrFun (modifySlot_field PcmSlot.data rfl))
  · exact hc.of_flags rfl rfl rfl rfl rfl rfl rfl rfl (congrFun (modifySlot_field PcmSlot.data rfl))
  · exact hc.of_flags rfl rfl rfl rfl rfl rfl rfl rfl fun _ => rfl

theorem step_conserved (a : Act α) (h : Inv s) (hc : Conserved s) : Conserved (s.step a) := by
  cases a with
  | startChunk => exact startChunk_conserved hc
  | sample x => exact sample_conserved h hc x
  | demod => exact demodThread_conserved h hc
  | output => exact outputThread_conserved hc

theorem run_inv (zero : α) (as : List (Act α))
    (h : (run step (init zero) as).published.length < 2 ^ 31) :
    Inv (run step (init zero) as) ∧ Conserved (run step (init zero) as)
      ∧ Queue.Fifo 32 (run step (init zero) as).queue := by
  refine run_inv_of_lt (I := fun s => Inv s ∧ Conserved s ∧ Queue.Fifo 32 s.queue)
    published_le_step (fun s a hb hs => ?_) as _ h
    ⟨init_inv zero, init_conserved zero, Queue.Fifo.empty 32⟩
  obtain ⟨hI, hc, hq⟩ := hs
  have hb' := (published_le_step s a).trans_lt hb
  exact ⟨step_inv a hb' hI, step_conserved a hI hc, (step_refines hI a).fifo hq⟩

theorem log_sample (hw : s.writer = .idle) (x : α) :
    (s.sample x).log = s.log ++ [(x, s.pcmAcquired)] := by
  simp only [sample, hw]
  split_ifs with hacq hfull
  · rw [hacq]; rfl
  · rw [hacq]; rfl
  · rw [Bool.eq_false_iff.2 hacq]

theorem log_step (s : PcmPool α) (a : Act α) :
    (s.step a).log.map Prod.fst = s.log.map Prod.fst ++ s.resampled a := by
  cases a with
  | startChunk =>
    simp only [step, startChunk, resampled, List.append_nil]
    split
    · split_ifs <;> rfl
    · rfl
  | sample x =>
    by_cases hw : s.writer = .idle
    · simp [step, resampled, hw, log_sample hw]
    · have hsame : s.sample x = s := by
        unfold sample
        split
        · contradiction
        · rfl
      simp [step, resampled, hw, hsame]
  | demod =>
    simp only [step, demodThread, resampled, List.append_nil]
    cases s.writer with
    | testNext => dsimp only; split_ifs <;> rfl
    | _ => rfl
  | output =>
    simp only [step, outputThread, resampled, List.append_nil]
    cases s.output with
    | testReady => dsimp only; split_ifs <;> rfl
    | _ => rfl

theorem log_run (zero : α) (as : List (Act α)) :
    (run step (init zero) as).log.map Prod.fst = generated (init zero) as :=
  Machine.run_eq_append_gives (f := fun s : PcmPool α => s.log.map Prod.fst) log_step as (init zero)

theorem kept_sublist_log (s : PcmPool α) : s.kept.Sublist (s.log.map Prod.fst) :=
  List.filter_sublist.map Prod.fst

/-- What holds of the pool in every run, as the part of a larger system. -/
structure Sound (s : PcmPool α) : Prop where
  inv : Inv s
  conserved : Conserved s
  fifo : Queue.Fifo 32 s.queue

theorem init_sound (zero : α) : Sound (init zero) :=
  ⟨init_inv zero, init_conserved zero, Queue.Fifo.empty 32⟩

theorem Sound.step (h : Sound s) (a : Act α) (hb : (s.step a).published.length < 2 ^ 31) :
    Sound (s.step a) :=
  ⟨step_inv a ((published_le_step s a).trans_lt hb) h.inv, step_conserved a h.inv h.conserved,
    (step_refines h.inv a).fifo h.fifo⟩

theorem Sound.full (h : Sound s) : ∀ pcm ∈ s.consumed, pcm.length = pcmChunkSize - 10 :=
  fun pcm hpcm => h.conserved.full pcm (h.fifo.taken_le_put.subset hpcm)

theorem Sound.consumed_kept (h : Sound s) : s.consumed.flatten <+: s.kept := by
  obtain ⟨rest, hrest⟩ := h.fifo.taken_le_put
  refine ⟨rest.flatten ++ s.pending, ?_⟩
  rw [h.conserved.kept, ← List.append_assoc, ← List.flatten_append]
  exact congrArg (fun l => List.flatten l ++ s.pending) hrest

/-- The ready slots not written out yet are the window from the next one on. -/
theorem unread_window (h : Inv s) :
    Window 32 (fun i => (s.pcmPool i).ready && s.output ≠ .clearReady i) s.consumed.length
      s.published.length := by
  have hok := h.outputOk
  have hW := h.ready
  unfold OutputOk at hok
  split at hok <;> rename_i ho
  case h_3 idx =>
    obtain ⟨rfl, hret, hlt, hcons⟩ := hok
    have hflag : (fun i => (s.pcmPool i).ready && s.output ≠ .clearReady i)
        = Function.update (fun i => (s.pcmPool i).ready) (ringSlot 32 s.retired) false := by
      funext i
      rcases eq_or_ne i (ringSlot 32 s.freed) with rfl | hi
      · simp [ho, hret]
      · simp [ho, hret, hi, hi.symm]
    rw [hflag, hcons, ← hret]
    exact hW.lower (by omega)
  case h_4 => simpa [ho, hok.2.2, ← hok.2.1] using hW
  case h_1 => simpa [ho, hok.2, ← hok.1] using hW
  case h_2 => simpa [ho, hok.2.2.2, ← hok.2.1] using hW
  case h_5 => simpa [ho, hok.2.2, ← hok.2.1] using hW

theorem retired_le_consumed (h : Inv s) : s.retired ≤ s.consumed.length := by
  have hok := h.outputOk
  unfold OutputOk at hok
  split at hok <;> omega

/-- The ready slots hold what was published and not yet consumed. -/
theorem readySlots_pcm (h : Inv s) :
    s.readySlots.map (fun i => (s.pcmPool i).pcm) = s.published.drop s.consumed.length := by
  have hst : Stores 32 (fun i => (s.pcmPool i).pcm) s.published s.consumed.length
      s.published.length := fun k h1 h2 => h.stores k ((retired_le_consumed h).trans h1) h2
  rw [readySlots, (unread_window h).filter_slots]
  exact hst.map_slots rfl

theorem ready_len (h : Inv s) (hc : Conserved s) {i : ℕ} (hi : i < 32)
    (hr : (s.pcmPool i).ready = true) : (s.pcmPool i).len = pcmChunkSize - 10 := by
  obtain ⟨k, h1, h2, hk⟩ := (h.ready.flag_iff i hi).1 hr
  have hget := h.stores k h1 h2
  have hlen := hc.full _ (List.mem_of_getElem? hget)
  simp only [hk, PcmSlot.pcm, List.length_take, Vector.length_toList] at hlen
  unfold pcmChunkSize at hlen ⊢
  omega

end PcmPool

open PcmPool in
/-- In a run with fewer than `2 ^ 31` published slots: a sample is stored within its slot, which is
the writer's; a published slot has `len = PCM_CHUNK_SIZE - 10`; the log has the samples generated in
the run, each as kept or dropped; the consumed slots, the ready slots and the pending samples, one
after the other, are those kept, and those dropped are as many as were added to `diag_pcm_drop`; and
every sample generated is counted as generated or dropped, or in the slot held. -/
theorem pcm_pool_conserves {α : Type*} (zero : α) (as : List (Act α)) (s : PcmPool α)
    (hs : s = run step (init zero) as) (hb : s.published.length < 2 ^ 31) :
    (s.Held → s.outLen < pcmChunkSize ∧ (s.pcmPool s.pcmIdx).inUse = true
        ∧ (s.pcmPool s.pcmIdx).ready = false ∧ s.pcmIdx = slotIndex poolSize s.pcmWriteIdx)
      ∧ (∀ i : ℕ, i < 32 → (s.pcmPool i).ready = true → (s.pcmPool i).len = pcmChunkSize - 10)
      ∧ (∀ pcm ∈ s.consumed, pcm.length = pcmChunkSize - 10)
      ∧ s.log.map Prod.fst = generated (init zero) as
      ∧ s.consumed.flatten ++ (s.readySlots.map fun i => (s.pcmPool i).pcm).flatten ++ s.pending
          = s.kept
      ∧ s.dropped.length = s.diagPcmDrop
      ∧ s.diagPcmGen + s.diagPcmDrop + (if s.Held then s.outLen else 0)
          = (generated (init zero) as).length := by
  subst hs
  obtain ⟨hI, hc, hq⟩ := PcmPool.run_inv zero as hb
  have hlog := log_run zero as
  generalize run step (init zero) as = s at *
  obtain ⟨rest, hrest⟩ := hq.taken_le_put
  refine ⟨?_, fun i hi => ready_len hI hc hi, ?_, hlog, ?_, hc.dropped, ?_⟩
  · rintro ⟨hw, hacq⟩
    have hok := hI.writerOk
    rw [WriterOk, hw] at hok
    obtain ⟨hf, hlt⟩ := hok.1 hacq
    refine ⟨hlt.trans_le (Nat.sub_le _ _), filling_inUse hI hf, filling_ready hI hf, ?_⟩
    rw [slotIndex_write hI hb (by rw [hw]; rfl), hf.1]
  · intro pcm hp
    exact hc.full pcm (hq.taken_le_put.subset hp)
  · rw [readySlots_pcm hI, hc.kept, ← List.flatten_append]
    congr 2
    simp only [queue] at hrest
    rw [← hrest, List.drop_left]
  · rw [hc.counted, ← hlog, List.length_map]

theorem pcm_pool_conserves_dropped_sample :
    let as : List (PcmPool.Act Int16) := [.sample 3, .demod, .demod, .sample 5]
    let s := run PcmPool.step (PcmPool.init 0) as
    s.published.length = 0 ∧ s.log = [(3, false), (5, true)] ∧ s.kept = [5]
      ∧ s.log.map Prod.fst = PcmPool.generated (PcmPool.init 0) as
      ∧ s.consumed.flatten ++ (s.readySlots.map fun i => (s.pcmPool i).pcm).flatten ++ s.pending
          = s.kept
      ∧ s.diagPcmGen + s.diagPcmDrop + (if s.Held then s.outLen else 0)
          = (PcmPool.generated (PcmPool.init 0) as).length := by
  intro as s
  obtain ⟨-, -, -, hlog, hkept, -, hcount⟩ := pcm_pool_conserves 0 as s rfl (by decide)
  exact ⟨by decide, by decide, by decide, hlog, hkept, hcount⟩

end Daemon

end AetherGuard
