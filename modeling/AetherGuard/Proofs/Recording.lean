import AetherGuard.Recording
import AetherGuard.Proofs.PcmRound

/-!
# What a recording holds

The control plane does one of four things to the file pointer and the flag (`Wav.Change`): nothing,
opening a new handle and setting the flag, clearing the pointer, or clearing the flag. A handle is
given out once, so it is written to during one stretch of time, and what is written is one stretch
of the slots taken from the pool (`Inv`), whichever recorder closes the file and whatever the output
thread had tested before. As long as the handle is in place and the flag set every slot is written
(`Later`).
-/

namespace AetherGuard

open Daemon Machine

variable {F : Type*}

namespace Daemon

/-- What a step does to `g_wav_file`, `g_wav_write_active` and the handles given out. -/
inductive Wav.Change (w w' : Wav F) : Prop
  | same (hfile : w'.gWavFile = w.gWavFile) (hactive : w'.gWavWriteActive = w.gWavWriteActive)
    (hhandles : w'.handles = w.handles)
  | opened (hfile : w'.gWavFile = some w.handles) (hhandles : w'.handles = w.handles + 1)
  | cleared (hfile : w'.gWavFile = none) (hhandles : w'.handles = w.handles)
  | stopped (hfile : w'.gWavFile = w.gWavFile) (hactive : w'.gWavWriteActive = false)
    (hhandles : w'.handles = w.handles)

namespace Control

variable (s : Control F)

theorem receive_wav (c : Command F) :
    (s.receive c).wav = s.wav ∧ (s.receive c).writingWav = s.writingWav := by
  unfold receive
  split <;> exact ⟨rfl, rfl⟩

theorem commandListener_wav (ok : Bool) :
    (s.commandListener ok).wav = s.wav ∧ (s.commandListener ok).writingWav = s.writingWav := by
  unfold commandListener
  split <;> exact ⟨rfl, rfl⟩

theorem liveThread_wav (i : ℕ) (ok : Bool) :
    (s.liveThread i ok).wav = s.wav ∧ (s.liveThread i ok).writingWav = s.writingWav := by
  unfold liveThread
  split
  · exact ⟨rfl, rfl⟩
  · split <;> exact ⟨rfl, rfl⟩

theorem recorderThread_wav (i : ℕ) (ok : Bool) :
    Wav.Change s.wav (s.recorderThread i ok).wav
      ∧ (s.recorderThread i ok).writingWav = s.writingWav := by
  unfold recorderThread
  split
  · exact ⟨.same rfl rfl rfl, rfl⟩
  · split
    case h_4 =>
      refine ⟨?_, rfl⟩
      simp only [Wav.openFile]
      split_ifs
      · exact .opened rfl rfl
      · exact .cleared rfl rfl
    case h_7 => exact ⟨.stopped rfl rfl rfl, rfl⟩
    case h_9 =>
      refine ⟨?_, rfl⟩
      simp only [Wav.closeFile]
      split
      · exact .cleared rfl rfl
      · exact .same rfl rfl rfl
    all_goals exact ⟨.same rfl rfl rfl, rfl⟩

/-- The output thread's own steps leave the pointer and the flag alone. -/
theorem outputThread_wav : s.outputThread.wav.gWavFile = s.wav.gWavFile
    ∧ s.outputThread.wav.gWavWriteActive = s.wav.gWavWriteActive
    ∧ s.outputThread.wav.handles = s.wav.handles
    ∧ s.outputThread.writingWav = (!s.writingWav && s.wav.gWavWriteActive) := by
  unfold outputThread
  rcases hw : s.writingWav with _ | _
  · simp
  · simp only [if_true, Wav.writeShort]
    split <;> simp_all

end Control

namespace PcmPool

variable {α : Type*} (pool : PcmPool α)

theorem consumed_startChunk : pool.startChunk.consumed = pool.consumed := by
  unfold startChunk
  split
  · split_ifs <;> rfl
  · rfl

theorem consumed_sample (x : α) : (pool.sample x).consumed = pool.consumed := by
  unfold sample
  split
  · split_ifs <;> rfl
  · rfl

theorem consumed_demodThread : pool.demodThread.consumed = pool.consumed := by
  unfold demodThread
  split
  case h_7 =>
    dsimp only
    split_ifs <;> rfl
  all_goals rfl

theorem consumed_outputThread (h : ∀ idx, pool.output ≠ .write idx) :
    pool.outputThread.consumed = pool.consumed := by
  unfold outputThread
  split
  · dsimp only
    split_ifs <;> rfl
  case h_2 idx ho => exact absurd ho (h idx)
  all_goals rfl

end PcmPool

end Daemon

namespace Recording

variable {s s' : Recording F}

/-! ## One step -/

/-- The step leaves the pool's consumed slots and the writes alone. -/
structure Aside (s s' : Recording F) : Prop where
  change : Wav.Change s.control.wav s'.control.wav
  writing : s'.control.writingWav = s.control.writingWav
  consumed : s'.pool.consumed = s.pool.consumed
  written : s'.written = s.written

/-- The step takes a slot, or tests the flag for one; the pointer and the flag stay. -/
structure Takes (s s' : Recording F) : Prop where
  file : s'.control.wav.gWavFile = s.control.wav.gWavFile
  active : s'.control.wav.gWavWriteActive = s.control.wav.gWavWriteActive
  handles : s'.control.wav.handles = s.control.wav.handles
  cases : (s.control.writingWav = true ∧ s'.control.writingWav = false
      ∧ ∃ pcm, s'.pool.consumed = s.pool.consumed ++ [pcm]
        ∧ s'.written = (s.writeShort pcm).written)
    ∨ (s.control.wav.gWavWriteActive = true ∧ s'.pool.consumed = s.pool.consumed
      ∧ s'.written = s.written)
    ∨ (s.control.writingWav = false ∧ s'.control.writingWav = false
      ∧ s.control.wav.gWavWriteActive = false
      ∧ ∃ pcm, s'.pool.consumed = s.pool.consumed ++ [pcm] ∧ s'.written = s.written)

theorem outputThread_cases (s : Recording F) : Aside s s.outputThread ∨ Takes s s.outputThread := by
  unfold outputThread
  rcases ho : s.pool.output with _ | idx | idx | idx | _ <;> dsimp only
  case write =>
    have hcons : s.pool.outputThread.consumed
        = s.pool.consumed ++ [(s.pool.pcmPool idx).pcm] := by
      simp only [PcmPool.outputThread, ho]
    obtain ⟨hfile, hactive, hhandles, hwriting⟩ := s.control.outputThread_wav
    right
    split_ifs with hw ha
    · exact ⟨hfile, hactive, hhandles, .inl ⟨hw, by simp [hwriting, hw], _, hcons, rfl⟩⟩
    · exact ⟨hfile, hactive, hhandles, .inr (.inl ⟨ha, rfl, rfl⟩)⟩
    · have hw : s.control.writingWav = false := by simpa using hw
      exact ⟨rfl, rfl, rfl, .inr (.inr ⟨hw, hw, by simpa using ha, _, hcons, rfl⟩)⟩
  all_goals
    exact .inl ⟨.same rfl rfl rfl, rfl,
      PcmPool.consumed_outputThread _ fun idx h => by simp [ho] at h, rfl⟩

theorem step_cases (s : Recording F) (a : Act F) : Aside s (s.step a) ∨ Takes s (s.step a) := by
  cases a with
  | startChunk => exact .inl ⟨.same rfl rfl rfl, rfl, s.pool.consumed_startChunk, rfl⟩
  | sample x => exact .inl ⟨.same rfl rfl rfl, rfl, s.pool.consumed_sample x, rfl⟩
  | demod => exact .inl ⟨.same rfl rfl rfl, rfl, s.pool.consumed_demodThread, rfl⟩
  | output => exact s.outputThread_cases
  | command c =>
    obtain ⟨hwav, hwriting⟩ := s.control.receive_wav c
    exact .inl ⟨.same (by rw [step, hwav]) (by rw [step, hwav]) (by rw [step, hwav]), hwriting,
      rfl, rfl⟩
  | listener ok =>
    obtain ⟨hwav, hwriting⟩ := s.control.commandListener_wav ok
    exact .inl ⟨.same (by rw [step, hwav]) (by rw [step, hwav]) (by rw [step, hwav]), hwriting,
      rfl, rfl⟩
  | recorder i ok =>
    obtain ⟨hchange, hwriting⟩ := s.control.recorderThread_wav i ok
    exact .inl ⟨hchange, hwriting, rfl, rfl⟩
  | live i ok =>
    obtain ⟨hwav, hwriting⟩ := s.control.liveThread_wav i ok
    exact .inl ⟨.same (by rw [step, hwav]) (by rw [step, hwav]) (by rw [step, hwav]), hwriting,
      rfl, rfl⟩
  | scanComplete => exact .inl ⟨.same rfl rfl rfl, rfl, rfl, rfl⟩

theorem slots_writeShort (s : Recording F) (pcm : List Int16) (handle : ℕ) :
    (s.writeShort pcm).slots handle
      = if s.control.wav.gWavFile = some handle then s.slots handle ++ [pcm]
        else s.slots handle := by
  unfold writeShort
  rcases hf : s.control.wav.gWavFile with _ | h
  · simp
  · by_cases hh : h = handle
    · simp [slots, hh]
    · simp [slots, hh]

theorem slots_congr (h : s'.written = s.written) (handle : ℕ) :
    s'.slots handle = s.slots handle := by rw [slots, slots, h]

/-! ## Whole runs -/

structure Inv (s : Recording F) : Prop where
  fresh : ∀ w ∈ s.written, w.1 < s.control.wav.handles
  file : ∀ handle, s.control.wav.gWavFile = some handle → handle < s.control.wav.handles
  order : (s.written.map (·.2)).Sublist s.pool.consumed
  stretch : ∀ handle, s.slots handle <:+: s.pool.consumed
  /-- The file at hand has the last slots, or will not get the next. -/
  upToDate : ∀ handle, s.control.wav.gWavFile = some handle →
    s.control.wav.gWavWriteActive = true ∨ s.control.writingWav = true →
    s.slots handle <:+ s.pool.consumed

theorem init_inv (freq : F) : Inv (init freq) where
  fresh := by simp [init]
  file := by simp [init, Control.init]
  order := .slnil
  stretch _ := List.nil_infix
  upToDate := by simp [init, Control.init]

theorem Inv.slots_fresh (h : Inv s) {handle : ℕ} (hle : s.control.wav.handles ≤ handle) :
    s.slots handle = [] := by
  rw [slots, List.map_eq_nil_iff, List.filter_eq_nil_iff]
  intro w hw heq
  have := h.fresh w hw
  simp only [decide_eq_true_eq] at heq
  omega

theorem Inv.aside (h : Inv s) (ha : Aside s s') : Inv s' := by
  obtain ⟨hchange, hwriting, hcons, hwritten⟩ := ha
  have hslots := slots_congr hwritten
  have hle : s.control.wav.handles ≤ s'.control.wav.handles := by
    cases hchange <;> omega
  refine ⟨fun w hw => ?_, fun handle hf => ?_, by rw [hwritten, hcons]; exact h.order,
    fun handle => by rw [hslots, hcons]; exact h.stretch handle, fun handle hf hor => ?_⟩
  · rw [hwritten] at hw
    exact (h.fresh w hw).trans_le hle
  · cases hchange with
    | same hfile _ hhandles => exact hhandles ▸ h.file handle (hfile ▸ hf)
    | opened hfile hhandles =>
      rw [hfile, Option.some.injEq] at hf
      omega
    | cleared hfile _ => simp [hfile] at hf
    | stopped hfile _ hhandles => exact hhandles ▸ h.file handle (hfile ▸ hf)
  · rw [hslots, hcons]
    rw [hwriting] at hor
    cases hchange with
    | same hfile hactive _ => exact h.upToDate handle (hfile ▸ hf) (hactive ▸ hor)
    | opened hfile _ =>
      rw [hfile, Option.some.injEq] at hf
      rw [h.slots_fresh hf.le]
      exact List.nil_suffix
    | cleared hfile _ => simp [hfile] at hf
    | stopped hfile hactive _ =>
      rw [hactive] at hor
      exact h.upToDate handle (hfile ▸ hf) (.inr (hor.resolve_left (by simp)))

theorem suffix_append_singleton {α : Type*} {l m : List α} (h : l <:+ m) (x : α) :
    l ++ [x] <:+ m ++ [x] := by
  obtain ⟨pre, rfl⟩ := h
  exact ⟨pre, by rw [List.append_assoc]⟩

theorem Inv.takes (h : Inv s) (ht : Takes s s') : Inv s' := by
  obtain ⟨hfile, hactive, hhandles, hcases⟩ := ht
  rcases hcases with ⟨hw, -, pcm, hcons, hwritten⟩ | ⟨ha, hcons, hwritten⟩
    | ⟨hw, hw', ha, pcm, hcons, hwritten⟩
  · -- the slot goes to the file at hand
    have hslots : ∀ handle, s'.slots handle
        = if s.control.wav.gWavFile = some handle then s.slots handle ++ [pcm]
          else s.slots handle := by
      intro handle
      rw [slots_congr hwritten, slots_writeShort]
    have hsuffix : ∀ handle, s.control.wav.gWavFile = some handle →
        s'.slots handle <:+ s'.pool.consumed := by
      intro handle hf
      rw [hslots, if_pos hf, hcons]
      exact suffix_append_singleton (h.upToDate handle hf (.inr hw)) pcm
    refine ⟨fun w hmem => ?_, fun handle hf => hhandles ▸ h.file handle (hfile ▸ hf), ?_,
      fun handle => ?_, fun handle hf _ => hsuffix handle (hfile ▸ hf)⟩
    · rw [hhandles]
      rw [hwritten, writeShort] at hmem
      split at hmem
      · rcases List.mem_append.1 hmem with hold | hnew
        · exact h.fresh w hold
        · rw [List.mem_singleton.1 hnew]
          exact h.file _ ‹_›
      · exact h.fresh w hmem
    · rw [hwritten, hcons, writeShort]
      split
      · rw [List.map_append]
        exact h.order.append (List.Sublist.refl _)
      · exact h.order.trans (List.sublist_append_left _ _)
    · by_cases hf : s.control.wav.gWavFile = some handle
      · exact (hsuffix handle hf).isInfix
      · rw [hslots, if_neg hf, hcons]
        exact (h.stretch handle).trans (List.prefix_append _ _).isInfix
  · have hslots := slots_congr hwritten
    refine ⟨fun w hmem => ?_, fun handle hf => hhandles ▸ h.file handle (hfile ▸ hf),
      by rw [hwritten, hcons]; exact h.order,
      fun handle => by rw [hslots, hcons]; exact h.stretch _, fun handle hf _ => ?_⟩
    · rw [hwritten] at hmem
      exact hhandles ▸ h.fresh w hmem
    · rw [hslots, hcons]
      exact h.upToDate handle (hfile ▸ hf) (.inl ha)
  · have hslots := slots_congr hwritten
    refine ⟨fun w hmem => ?_, fun handle hf => hhandles ▸ h.file handle (hfile ▸ hf), ?_,
      fun handle => ?_, fun handle hf hor => ?_⟩
    · rw [hwritten] at hmem
      exact hhandles ▸ h.fresh w hmem
    · rw [hwritten, hcons]
      exact h.order.trans (List.sublist_append_left _ _)
    · rw [hslots, hcons]
      exact (h.stretch handle).trans (List.prefix_append _ _).isInfix
    · simp [hactive, ha, hw'] at hor

theorem step_inv (s : Recording F) (a : Act F) (h : Inv s) : Inv (s.step a) := by
  rcases s.step_cases a with ha | ht
  · exact h.aside ha
  · exact h.takes ht

/-- How far a handle is: not given out, the one written to, or left. -/
def rank (s : Recording F) (handle : ℕ) : ℕ :=
  if s.Taking handle then 1 else if handle < s.control.wav.handles then 2 else 0

/-- Between two states in which the handle is written to, every slot taken was written to it. -/
structure Later (handle : ℕ) (s s' : Recording F) : Prop where
  rank : s.rank handle ≤ s'.rank handle
  grows : s.Taking handle → s'.Taking handle → ∃ new, s'.pool.consumed = s.pool.consumed ++ new
    ∧ s'.slots handle = s.slots handle ++ new

theorem rank_eq_one_iff {handle : ℕ} : s.rank handle = 1 ↔ s.Taking handle := by
  unfold rank
  split_ifs with h1 h2 <;> simp [h1]

theorem Later.refl (handle : ℕ) (s : Recording F) : Later handle s s :=
  ⟨le_rfl, fun _ _ => ⟨[], by simp, by simp⟩⟩

theorem Later.trans {handle : ℕ} {s₁ s₂ s₃ : Recording F} (h : Later handle s₁ s₂)
    (h' : Later handle s₂ s₃) : Later handle s₁ s₃ := by
  refine ⟨h.rank.trans h'.rank, fun h1 h3 => ?_⟩
  have h2 : s₂.Taking handle := by
    have hlo := h.rank
    have hhi := h'.rank
    rw [rank_eq_one_iff.2 h1] at hlo
    rw [rank_eq_one_iff.2 h3] at hhi
    exact rank_eq_one_iff.1 (le_antisymm hhi hlo)
  obtain ⟨new, hcons, hslots⟩ := h.grows h1 h2
  obtain ⟨new', hcons', hslots'⟩ := h'.grows h2 h3
  exact ⟨new ++ new', by rw [hcons', hcons, List.append_assoc],
    by rw [hslots', hslots, List.append_assoc]⟩

/-- A handle that is given out and not written to is not written to again. -/
theorem rank_le_of {handle : ℕ} (hI : Inv s)
    (hle : s.control.wav.handles ≤ s'.control.wav.handles)
    (hnot : handle < s.control.wav.handles → ¬ s.Taking handle → ¬ s'.Taking handle) :
    s.rank handle ≤ s'.rank handle := by
  unfold rank
  by_cases h1 : s.Taking handle
  · have hlt : handle < s'.control.wav.handles := (hI.file handle h1.1).trans_le hle
    rw [if_pos h1, if_pos hlt]
    split_ifs <;> omega
  · rw [if_neg h1]
    by_cases hlt : handle < s.control.wav.handles
    · rw [if_pos hlt, if_neg (hnot hlt h1), if_pos (hlt.trans_le hle)]
    · rw [if_neg hlt]
      exact Nat.zero_le _

theorem later_aside (handle : ℕ) (hI : Inv s) (ha : Aside s s') : Later handle s s' := by
  obtain ⟨hchange, -, hcons, hwritten⟩ := ha
  refine ⟨rank_le_of hI (by cases hchange <;> omega) fun hlt hnot ⟨hf, hact⟩ => hnot ?_,
    fun _ _ => ⟨[], by simpa using hcons, by simpa using slots_congr hwritten handle⟩⟩
  cases hchange with
  | same hfile hactive _ => exact ⟨hfile ▸ hf, hactive ▸ hact⟩
  | opened hfile _ =>
    rw [hfile, Option.some.injEq] at hf
    omega
  | cleared hfile _ => simp [hfile] at hf
  | stopped _ hactive _ => simp [hactive] at hact

theorem later_takes (handle : ℕ) (hI : Inv s) (ht : Takes s s') : Later handle s s' := by
  obtain ⟨hfile, hactive, hhandles, hcases⟩ := ht
  refine ⟨rank_le_of hI hhandles.ge fun _ hnot ⟨hf, hact⟩ => hnot ⟨hfile ▸ hf, hactive ▸ hact⟩,
    fun ⟨hf, hact⟩ _ => ?_⟩
  rcases hcases with ⟨-, -, pcm, hcons, hwritten⟩ | ⟨-, hcons, hwritten⟩ | ⟨-, -, hna, -⟩
  · refine ⟨[pcm], hcons, ?_⟩
    rw [slots_congr hwritten, slots_writeShort, if_pos hf]
  · exact ⟨[], by simpa using hcons, by simpa using slots_congr hwritten handle⟩
  · simp [hact] at hna

theorem later_run (handle : ℕ) (bs : List (Act F)) (s : Recording F) (hI : Inv s) :
    Inv (run step s bs) ∧ Later handle s (run step s bs) := by
  refine Machine.run_inv (I := fun s' => Inv s' ∧ Later handle s s') (fun s' a h => ?_) bs s
    ⟨hI, .refl handle s⟩
  refine ⟨step_inv s' a h.1, h.2.trans ?_⟩
  rcases s'.step_cases a with ha | ht
  · exact later_aside handle h.1 ha
  · exact later_takes handle h.1 ht

/-! ## The pool behind it -/

theorem step_pool (s : Recording F) (a : Act F) :
    (s.step a).pool = s.pool ∨ ∃ b, (s.step a).pool = s.pool.step b := by
  cases a with
  | startChunk => exact .inr ⟨.startChunk, rfl⟩
  | sample x => exact .inr ⟨.sample x, rfl⟩
  | demod => exact .inr ⟨.demod, rfl⟩
  | output =>
    simp only [step, outputThread]
    split
    · split_ifs
      · exact .inr ⟨.output, rfl⟩
      · exact .inl rfl
      · exact .inr ⟨.output, rfl⟩
    · exact .inr ⟨.output, rfl⟩
  | _ => exact .inl rfl

theorem published_le_step (s : Recording F) (a : Act F) :
    s.pool.published.length ≤ (s.step a).pool.published.length := by
  rcases s.step_pool a with hpool | ⟨b, hpool⟩ <;> rw [hpool]
  exact PcmPool.published_le_step s.pool b

theorem step_sound (s : Recording F) (a : Act F) (hb : (s.step a).pool.published.length < 2 ^ 31)
    (h : PcmPool.Sound s.pool) : PcmPool.Sound (s.step a).pool := by
  rcases s.step_pool a with hpool | ⟨b, hpool⟩ <;> rw [hpool]
  · exact h
  · exact h.step b (hpool ▸ hb)

theorem run_sound (freq : F) (as : List (Act F))
    (hb : (run step (init freq) as).pool.published.length < 2 ^ 31) :
    PcmPool.Sound (run step (init freq) as).pool :=
  run_inv_of_lt (I := fun s : Recording F => PcmPool.Sound s.pool) published_le_step step_sound as
    (init freq) hb (PcmPool.init_sound 0)

theorem run_inv (freq : F) (as : List (Act F)) : Inv (run step (init freq) as) :=
  Machine.run_inv step_inv as _ (init_inv freq)

theorem log_step (s : Recording F) (a : Act F) :
    (s.step a).pool.log.map Prod.fst = s.pool.log.map Prod.fst ++ s.resampled a := by
  cases a with
  | startChunk => exact s.pool.log_step .startChunk
  | sample x => exact s.pool.log_step (.sample x)
  | demod => exact s.pool.log_step .demod
  | output =>
    have hpool := s.pool.log_step .output
    simp only [step, outputThread, resampled, List.append_nil]
    split
    · split_ifs
      · exact hpool.trans (List.append_nil _)
      · rfl
      · exact hpool.trans (List.append_nil _)
    · exact hpool.trans (List.append_nil _)
  | _ => exact (List.append_nil _).symm

/-- The samples kept are some of those the demodulator put out. -/
theorem kept_sublist_generated (freq : F) (as : List (Act F)) :
    (run step (init freq) as).pool.kept.Sublist (generated (init freq) as) := by
  have hlog := run_eq_append_gives (f := fun s : Recording F => s.pool.log.map Prod.fst) log_step as
    (init freq)
  exact (PcmPool.kept_sublist_log _).trans (by rw [hlog]; exact List.Sublist.refl _)

/-! ## A slot's way to a file -/

/-- The demodulator's actions. -/
def Act.ofPool : PcmPool.Act Int16 → Act F
  | .startChunk => .startChunk
  | .sample x => .sample x
  | .demod => .demod
  | .output => .output

theorem run_ofPool (bs : List (PcmPool.Act Int16)) (hbs : ∀ b ∈ bs, b ≠ .output)
    (s : Recording F) :
    run step s (bs.map .ofPool) = { s with pool := run PcmPool.step s.pool bs } := by
  refine run_map (g := fun pool => { s with pool := pool }) bs (fun b hb _ => ?_) s.pool
  cases b with
  | output => exact absurd rfl (hbs _ hb)
  | _ => rfl

/-- The samples of a slot are put out, and taken by the output thread with its test of the flag. -/
def record (xs : List Int16) : List (Act F) :=
  (PcmPool.slotful xs).map .ofPool ++ List.replicate 6 .output

theorem run_record {s : Recording F} {handle : ℕ} (ht : s.Taking handle)
    (hw : s.control.writingWav = false) (hpool : PcmPool.Waiting s.pool) {xs : List Int16}
    (hxs : xs.length = pcmChunkSize - 10) (hb : s.pool.published.length + 1 < 2 ^ 31) :
    let s' := run step s (record xs)
    s'.Taking handle ∧ s'.control.writingWav = false ∧ PcmPool.Waiting s'.pool
      ∧ s'.pool.published = s.pool.published ++ [xs]
        ∧ s'.written = s.written ++ [(handle, xs)] := by
  intro s'
  obtain ⟨ho, ⟨idx, hpcm, hfound⟩, hwaiting, hpub⟩ := hpool.round hxs hb
  set pool₁ := run PcmPool.step s.pool (PcmPool.slotful xs)
  obtain ⟨hfile, hactive, -, hwriting⟩ := s.control.outputThread_wav
  obtain ⟨hfile', hactive', -, hwriting'⟩ := s.control.outputThread.outputThread_wav
  rw [hw, ht.2, Bool.not_false, Bool.and_self] at hwriting
  -- the slot is found, the flag is tested, the slot is written
  have hs' : s' = ⟨s.control.outputThread.outputThread,
      run PcmPool.step pool₁ (List.replicate 5 .output), s.written ++ [(handle, xs)]⟩ := by
    have hfind : ({ s with pool := pool₁ } : Recording F).outputThread
        = { s with pool := pool₁.outputThread } := by
      simp only [outputThread, ho]
    have htest : ({ s with pool := pool₁.outputThread } : Recording F).outputThread
        = { s with control := s.control.outputThread, pool := pool₁.outputThread } := by
      simp only [outputThread, hfound, hw, ht.2]
      rfl
    have hwrite :
      (⟨s.control.outputThread, pool₁.outputThread, s.written⟩ : Recording F).outputThread
        = ⟨s.control.outputThread.outputThread, pool₁.outputThread.outputThread,
          s.written ++ [(handle, xs)]⟩ := by
      simp only [outputThread, hfound, hwriting, if_true, writeShort, hfile, ht.1, hpcm]
    show run step s (record xs) = _
    rw [record, run_append, run_ofPool _ fun _ => PcmPool.ne_output_of_mem_slotful]
    show run step ({ s with pool := pool₁ } : Recording F).outputThread (List.replicate 5 .output)
      = _
    rw [hfind]
    show run step ({ s with pool := pool₁.outputThread } : Recording F).outputThread
      (List.replicate 4 .output) = _
    rw [htest]
    show run step (Recording.outputThread ⟨s.control.outputThread, pool₁.outputThread, s.written⟩)
      (List.replicate 3 .output) = _
    rw [hwrite, hfound]
    show _ = Recording.mk _ (run PcmPool.step pool₁.outputThread (List.replicate 4 .output)) _
    rw [hfound]
    rfl
  rw [hs']
  refine ⟨⟨hfile'.trans (hfile.trans ht.1), hactive'.trans (hactive.trans ht.2)⟩, ?_, hwaiting,
    hpub, rfl⟩
  show s.control.outputThread.outputThread.writingWav = false
  rw [hwriting', hwriting]
  rfl

end Recording

open Recording
open PcmPool (tone length_tone)

/-- In a run with fewer than `2 ^ 31` slots published by the demodulator, whatever recorders open
and close and wherever the output thread stands between its test and its write: what was written to
a handle is one stretch of the samples the demodulator stored, which are some of those it put out,
and no slot is written twice. -/
theorem recording_is_stretch (freq : F) (as : List (Recording.Act F)) (s : Recording F)
    (hs : s = run step (init freq) as) (hb : s.pool.published.length < 2 ^ 31) :
    s.pool.kept.Sublist (generated (init freq) as)
      ∧ (s.written.map (·.2)).Sublist s.pool.consumed
      ∧ ∀ handle, s.slots handle <:+: s.pool.consumed ∧ s.recorded handle <:+: s.pool.kept := by
  subst hs
  have hinv := Recording.run_inv freq as
  have hsound := run_sound freq as hb
  refine ⟨kept_sublist_generated freq as, hinv.order, fun handle => ⟨hinv.stretch handle, ?_⟩⟩
  obtain ⟨pre, post, heq⟩ := hinv.stretch handle
  have hflat : (run step (init freq) as).recorded handle
      <:+: (run step (init freq) as).pool.consumed.flatten := by
    refine ⟨pre.flatten, post.flatten, ?_⟩
    rw [← heq, List.flatten_append, List.flatten_append]
    rfl
  exact hflat.trans hsound.consumed_kept.isInfix

/-- A recorder opens a file, and the demodulator takes its first slot. -/
def recorderOpens : List (Recording.Act ℕ) :=
  [.command ⟨.record, .value 97⟩, .listener true, .listener true, .listener true,
    .recorder 0 true, .recorder 0 true, .recorder 0 true] ++ PcmPool.start.map .ofPool

theorem run_first_slot (s : Recording ℕ)
    (hs : s = run step (init 0) (recorderOpens ++ record (tone 3))) :
    s.Taking 0 ∧ s.control.writingWav = false ∧ PcmPool.Waiting s.pool
      ∧ s.pool.published = [tone 3] ∧ s.written = [(0, tone 3)] := by
  have hpool : PcmPool.Waiting (run step (init 0) recorderOpens).pool := PcmPool.start_waiting 0
  rw [hs, run_append]
  exact run_record (by decide) rfl hpool (length_tone 3) (by decide)

theorem run_second_slot (s s' : Recording ℕ)
    (hs : s = run step (init 0) (recorderOpens ++ record (tone 3)))
    (hs' : s' = run step s (record (tone 5))) :
    s'.Taking 0 ∧ PcmPool.Waiting s'.pool ∧ s'.pool.published = [tone 3, tone 5]
      ∧ s'.written = [(0, tone 3), (0, tone 5)] := by
  obtain ⟨ht, hw, hpool, hpub, hwritten⟩ := run_first_slot s hs
  obtain ⟨ht', -, hpool', hpub', hwritten'⟩ :=
    run_record ht hw hpool (length_tone 5) (by rw [hpub]; decide)
  rw [← hs'] at ht' hpool' hpub' hwritten'
  exact ⟨ht', hpool', by rw [hpub', hpub, List.singleton_append],
    by rw [hwritten', hwritten, List.singleton_append]⟩

theorem recording_is_stretch_two_slots :
    let s := run step (init 0) (recorderOpens ++ record (tone 3) ++ record (tone 5))
    s.recorded 0 = tone 3 ++ tone 5 ∧ tone 3 ++ tone 5 <:+: s.pool.kept := by
  intro s
  obtain ⟨-, -, hpub, hwritten⟩ := run_second_slot _ s rfl (run_append ..)
  have hrecorded : s.recorded 0 = tone 3 ++ tone 5 := by
    rw [recorded, slots, hwritten]
    simp only [decide_true, List.filter_cons_of_pos, List.filter_nil, List.map_cons, List.map_nil,
      List.flatten_cons, List.flatten_nil, List.append_nil]
  obtain ⟨-, -, hstretch⟩ := recording_is_stretch 0 _ s rfl (by rw [hpub]; decide)
  exact ⟨hrecorded, hrecorded ▸ (hstretch 0).2⟩

/-- From the moment a recorder has opened its file, as long as the file is the one at hand and the
flag is set, every slot the output thread takes is written to it, through any interleaving. -/
theorem recording_misses_nothing (freq : F) (as bs : List (Recording.Act F)) (s s' : Recording F)
    (hs : s = run step (init freq) as) (hs' : s' = run step s bs) (handle : ℕ)
    (ht : s.Taking handle) (ht' : s'.Taking handle) :
    s'.slots handle = s.slots handle ++ s'.pool.consumed.drop s.pool.consumed.length := by
  have hinv : Inv s := hs ▸ Recording.run_inv freq as
  obtain ⟨-, hlater⟩ := later_run handle bs s hinv
  rw [← hs'] at hlater
  obtain ⟨new, hcons, hslots⟩ := hlater.grows ht ht'
  rw [hslots, hcons, List.drop_left]

theorem recording_misses_nothing_second_slot :
    let s := run step (init 0) (recorderOpens ++ record (tone 3))
    let s' := run step s (record (tone 5))
    s.slots 0 = [tone 3] ∧ s'.slots 0 = s.slots 0 ++ [tone 5] := by
  intro s s'
  obtain ⟨ht, -, hpool, hpub, hwritten⟩ := run_first_slot s rfl
  obtain ⟨ht', hpool', hpub', -⟩ := run_second_slot s s' rfl rfl
  refine ⟨by rw [slots, hwritten]; rfl, ?_⟩
  rw [recording_misses_nothing 0 _ _ s s' rfl rfl 0 ht ht', hpool'.drained, hpool.drained, hpub',
    hpub]
  rfl

end AetherGuard
