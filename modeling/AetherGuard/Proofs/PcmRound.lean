import AetherGuard.Proofs.PcmPool

/-!
# A slot's way through the PCM pool

The invariant says what the pool holds, not that anything gets through. Here a demodulator that
holds an empty slot, with the pool drained otherwise (`Waiting`), fills it with the samples that
come and publishes exactly these (`run_fill`), the output thread finds them (`outputThread_finds`),
and the pool is drained again (`Waiting.round`).
-/

namespace AetherGuard

namespace Daemon

open Machine

namespace PcmPool

variable {α : Type*} {s : PcmPool α}

/-- Samples that do not fill the slot. -/
theorem run_samples (xs : List α) : ∀ {s : PcmPool α}, s.writer = .idle → s.pcmAcquired = true →
    s.outLen + xs.length < pcmChunkSize - 10 → ∃ pool', run step s (xs.map .sample) = { s with
      pcmPool := pool'
      outLen := s.outLen + xs.length
      log := s.log ++ xs.map (·, true) } := by
  induction xs with
  | nil => exact fun {s} _ _ _ => ⟨s.pcmPool, by simp [run]⟩
  | cons x xs ih =>
    intro s hw hacq hlen
    rw [List.length_cons] at hlen
    have hroom : ¬ (s.putSample x).outLen ≥ pcmChunkSize - 10 := by
      show ¬ s.outLen + 1 ≥ pcmChunkSize - 10
      omega
    have hput : s.step (.sample x) = s.putSample x := by
      simp only [step, sample, hw, hacq, if_true, if_neg hroom]
    have hnext : (s.putSample x).outLen + xs.length < pcmChunkSize - 10 := by
      show s.outLen + 1 + xs.length < pcmChunkSize - 10
      omega
    obtain ⟨pool', hrun⟩ := ih (s := s.putSample x) hw hacq hnext
    refine ⟨pool', ?_⟩
    rw [List.map_cons, run, List.foldl_cons, hput]
    refine hrun.trans ?_
    simp only [putSample, List.length_cons, List.map_cons, List.append_assoc, List.singleton_append]
    rw [Nat.add_assoc, Nat.add_comm 1]

/-- The demodulator holds an empty slot, and the output thread has taken every slot published. -/
structure Waiting (s : PcmPool α) : Prop where
  sound : Sound s
  writer : s.writer = .idle
  acquired : s.pcmAcquired = true
  empty : s.outLen = 0
  output : s.output = .testReady
  drained : s.consumed = s.published

/-- The actions of a demodulator that puts out the samples of one slot. -/
def slotful (xs : List α) : List (Act α) := xs.map .sample ++ List.replicate 5 .demod

theorem ne_output_of_mem_slotful {xs : List α} {b : Act α} (hb : b ∈ slotful xs) :
    b ≠ .output := by
  rcases List.mem_append.1 hb with hb | hb
  · obtain ⟨x, -, rfl⟩ := List.mem_map.1 hb
    simp
  · simp [List.eq_of_mem_replicate hb]

/-- The first slot is taken. -/
def start : List (Act α) := [.startChunk, .demod, .demod]

/-- A slot of one value. -/
def tone (x : Int16) : List Int16 := List.replicate (pcmChunkSize - 10) x

theorem length_tone (x : Int16) : (tone x).length = pcmChunkSize - 10 := List.length_replicate

theorem start_waiting (zero : α) : Waiting (run step (init zero) start) := by
  obtain ⟨hI, hc, hq⟩ :=
    run_inv zero start (by simp [start, run, init, step, startChunk, demodThread])
  exact ⟨⟨hI, hc, hq⟩, rfl, rfl, rfl, rfl, rfl⟩

theorem Sound.run {as : List (Act α)} (h : Sound s)
    (hb : (run PcmPool.step s as).published.length < 2 ^ 31) : Sound (run PcmPool.step s as) :=
  run_inv_of_lt (I := Sound) published_le_step (fun _ a hlt h => h.step a hlt) as s hb h

/-- There is a slot to go on with. -/
theorem demodThread_testNext (h : Inv s) (hb : s.published.length < 2 ^ 31)
    (hw : s.writer = .testNext) (hfree : s.published.length < s.freed + 32) :
    ∃ idx, s.demodThread = { s with pcmIdx := idx, writer := .setNext } := by
  have hok := h.writerOk
  rw [WriterOk, hw] at hok
  have hslot : (s.pcmPool (slotIndex poolSize s.pcmWriteIdx)).inUse = false := by
    rw [slotIndex_write h hb (by rw [hw]; rfl), ← hok.2]
    exact (h.inUse.flag_hi_false (by norm_num)).2 (by omega)
  exact ⟨_, by simp only [demodThread, hw, hslot]; rfl⟩

theorem Waiting.freed_eq (h : Waiting s) : s.freed = s.published.length := by
  have hok := h.sound.inv.outputOk
  rw [OutputOk, h.output] at hok
  rw [← hok.2, h.drained]

/-- While the demodulator holds an empty slot, all samples kept are published. -/
theorem Sound.kept_of_empty (h : Sound s) (hw : s.writer = .idle) (hempty : s.outLen = 0) :
    s.kept = s.published.flatten := by
  have hkept := h.conserved.kept
  have hpending : s.pending = [] := by
    simp only [pending, hw, hempty, List.take_zero]
    split <;> rfl
  rwa [hpending, List.append_nil] at hkept

/-- All samples of a slot but the last do not fill it; the last one makes the demodulator publish
it, up to its test of the next slot. -/
theorem run_publish (h : Waiting s) {ys : List α} (hys : ys.length = pcmChunkSize - 11) (x : α) :
    let s' := run step s (ys.map .sample ++ [.sample x, .demod, .demod, .demod])
    s'.writer = .testNext ∧ s'.pcmAcquired = true ∧ s'.output = s.output
      ∧ s'.consumed = s.consumed ∧ s'.freed = s.freed ∧ s'.kept = s.kept ++ (ys ++ [x])
      ∧ ∃ pcm, s'.published = s.published ++ [pcm] := by
  intro s'
  obtain ⟨pool₁, hrun₁⟩ := run_samples ys h.writer h.acquired (by rw [h.empty, hys]; decide)
  set s₁ := run step s (ys.map .sample)
  have hfull : (s₁.putSample x).outLen ≥ pcmChunkSize - 10 := by
    show s₁.outLen + 1 ≥ _
    rw [hrun₁]
    show s.outLen + ys.length + 1 ≥ _
    rw [h.empty, hys]
    decide
  have hlast : s₁.sample x = { s₁.putSample x with
      diagPcmGen := s₁.diagPcmGen + (s₁.putSample x).outLen
      writer := .setLen } := by
    have hw₁ : s₁.writer = .idle := by rw [hrun₁]; exact h.writer
    have hacq₁ : s₁.pcmAcquired = true := by rw [hrun₁]; exact h.acquired
    simp only [sample, hw₁, hacq₁, if_true, if_pos hfull]
  have hs' : s' = (s₁.sample x).demodThread.demodThread.demodThread := run_append ..
  rw [hs', hlast, hrun₁]
  refine ⟨rfl, h.acquired, rfl, rfl, rfl, ?_, _, rfl⟩
  simp [kept, demodThread, putSample, List.filter_map, Function.comp_def]

/-- The samples of a slot are published, and nothing else happens. -/
theorem run_fill (h : Waiting s) {xs : List α} (hxs : xs.length = pcmChunkSize - 10)
    (hb : s.published.length + 1 < 2 ^ 31) :
    let s' := run step s (slotful xs)
    Sound s' ∧ s'.writer = .idle ∧ s'.pcmAcquired = true ∧ s'.outLen = 0
      ∧ s'.output = .testReady ∧ s'.consumed = s.consumed
      ∧ s'.published = s.published ++ [xs] := by
  intro s'
  obtain ⟨ys, x, rfl⟩ : ∃ ys x, xs = ys ++ [x] :=
    ⟨_, _, (List.dropLast_append_getLast (List.ne_nil_of_length_pos (by
      rw [hxs]
      decide))).symm⟩
  have hys : ys.length = pcmChunkSize - 11 := by
    rw [List.length_append, List.length_singleton] at hxs
    unfold pcmChunkSize at hxs ⊢
    omega
  obtain ⟨hw₂, hacq₂, hout₂, hcons₂, hfreed₂, hkept₂, pcm, hpub₂⟩ := run_publish h hys x
  set s₂ := run step s (ys.map .sample ++ [.sample x, .demod, .demod, .demod]) with hs₂
  have hlen₂ : s₂.published.length = s.published.length + 1 := by rw [hpub₂]; simp
  have hsound₂ : Sound s₂ := h.sound.run (by rw [← hs₂, hlen₂]; omega)
  -- the output thread has given every slot back, so the next one is free
  obtain ⟨idx, hnext⟩ := demodThread_testNext hsound₂.inv (by omega) hw₂ (by
    rw [hfreed₂, h.freed_eq]
    omega)
  have hend : s' = { s₂ with
      pcmPool := modifySlot s₂.pcmPool idx fun slot => { slot with inUse := true }
      pcmIdx := idx
      outLen := 0
      writer := .idle
      claimed := s₂.claimed + 1 } := by
    have hs' : s' = s₂.demodThread.demodThread := by
      rw [hs₂, run_append]
      show run step s (slotful (ys ++ [x])) = _
      rw [slotful, List.map_append, List.append_assoc, run_append]
      rfl
    rw [hs', hnext]
    rfl
  have hpub : s'.published = s.published ++ [pcm] := hend ▸ hpub₂
  have hsound' : Sound s' := h.sound.run (by rw [hpub, ← hpub₂]; omega)
  -- what was published is what was kept since
  have hpcm : pcm = ys ++ [x] := by
    have hkept : s.kept ++ (ys ++ [x]) = s.kept ++ pcm := by
      rw [← hkept₂, h.sound.kept_of_empty h.writer h.empty]
      refine (show s₂.kept = s'.kept by rw [hend]; rfl).trans ?_
      rw [hsound'.kept_of_empty (by rw [hend]) (by rw [hend]), hpub]
      simp
    exact (List.append_cancel_left hkept).symm
  refine ⟨hsound', ?_⟩
  rw [hend]
  exact ⟨rfl, hacq₂, rfl, hout₂.trans h.output, hcons₂, hpcm ▸ hpub₂⟩

/-- The output thread goes on to the next slot published. -/
theorem outputThread_finds (h : Inv s) (hb : s.published.length < 2 ^ 31)
    (ho : s.output = .testReady) {pcm : List α}
    (hpcm : s.published[s.consumed.length]? = some pcm) :
    ∃ idx, (s.pcmPool idx).pcm = pcm ∧ s.outputThread = { s with output := .write idx } := by
  have hok := h.outputOk
  rw [OutputOk, ho] at hok
  have hlt : s.consumed.length < s.published.length := (List.getElem?_eq_some_iff.1 hpcm).1
  have hidx := slotIndex_read h hb (by rw [ho]; rfl)
  have hready : (s.pcmPool (ringSlot 32 s.freed)).ready = true :=
    h.ready.flag_of_mem (by norm_num) hok.1.le (by omega)
  refine ⟨ringSlot 32 s.freed, ?_, ?_⟩
  · have hstored := h.stores s.freed hok.1.le (by omega)
    rw [← hok.2, hpcm] at hstored
    rw [← hok.2]
    exact (Option.some.inj hstored).symm
  · simp only [outputThread, ho, hidx, hready, if_true]

/-- The output thread takes the last slot published. -/
theorem run_output (h : Sound s) (hw : s.writer = .idle) (hacq : s.pcmAcquired = true)
    (hempty : s.outLen = 0) (ho : s.output = .testReady) (hb : s.published.length < 2 ^ 31)
    {pcm : List α} (hpub : s.published = s.consumed ++ [pcm]) :
    Waiting (run step s (List.replicate 5 .output))
      ∧ (run step s (List.replicate 5 .output)).published = s.published := by
  obtain ⟨idx, hpcm, hfound⟩ := outputThread_finds h.inv hb ho (by
    rw [hpub]
    exact List.getElem?_concat_length)
  have hrun : run step s (List.replicate 5 .output)
      = { s with
          output := .write idx }.outputThread.outputThread.outputThread.outputThread := by
    rw [← hfound]
    rfl
  have hpub' : (run step s (List.replicate 5 .output)).published = s.published := by
    rw [hrun]
    rfl
  refine ⟨⟨h.run (by rw [hpub']; exact hb), ?_, ?_, ?_, ?_, ?_⟩, hpub'⟩
  · rw [hrun]
    exact hw
  · rw [hrun]
    exact hacq
  · rw [hrun]
    exact hempty
  · rw [hrun]
    rfl
  · rw [hpub', hpub, hrun, ← hpcm]
    rfl

/-- A slot's worth of samples is found by the output thread, and then the pool is as before. -/
theorem Waiting.round (h : Waiting s) {xs : List α} (hxs : xs.length = pcmChunkSize - 10)
    (hb : s.published.length + 1 < 2 ^ 31) :
    let s₁ := Machine.run PcmPool.step s (slotful xs)
    s₁.output = .testReady
      ∧ (∃ idx, (s₁.pcmPool idx).pcm = xs ∧ s₁.outputThread = { s₁ with output := .write idx })
      ∧ Waiting (Machine.run PcmPool.step s₁ (List.replicate 5 .output))
      ∧ (Machine.run PcmPool.step s₁ (List.replicate 5 .output)).published
        = s.published ++ [xs] := by
  intro s₁
  obtain ⟨hsound, hw, hacq, hempty, ho, hcons, hpub⟩ := run_fill h hxs hb
  have hlast : s₁.published = s₁.consumed ++ [xs] := by rw [hpub, hcons, h.drained]
  have hb₁ : s₁.published.length < 2 ^ 31 := by
    rw [hpub, List.length_append, List.length_singleton]
    exact hb
  obtain ⟨hwaiting, hsame⟩ := run_output hsound hw hacq hempty ho hb₁ hlast
  refine ⟨ho, outputThread_finds hsound.inv hb₁ ho ?_, hwaiting, hsame.trans hpub⟩
  rw [hlast]
  exact List.getElem?_concat_length

end PcmPool

end Daemon

end AetherGuard
