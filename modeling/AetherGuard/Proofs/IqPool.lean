import AetherGuard.Lib.Queue
import AetherGuard.IqPool

/-!
# The IQ pool is a lossless queue without leaks

The slots with `in_use` up are those of the chunks claimed and not yet freed, those with `ready`
up the chunks published and not yet retired (`Inv`). The second window lies within the first, and
sticks out by at most one slot at each end: the one the feeder is filling and the one the
demodulator is releasing. The feeder can refill a slot that the demodulator has freed but not yet
moved on from; the read index is told from the slots freed, so this is a state like any other.
-/

namespace AetherGuard

namespace Daemon

open Machine

/-- How far `iq_write_idx` is behind the slots published. -/
def Feeder.behind {α : Type*} : Feeder α → ℕ
  | .incWrite => 1
  | _ => 0

/-- How far `iq_read_idx` is behind the slots freed. -/
def Demod.behind : Demod → ℕ
  | .incRead => 1
  | _ => 0

namespace Pool

variable {α : Type*} {s : Pool α}

/-- Slot `idx` is the next to be published, for the last accepted chunk. -/
def Filling (s : Pool α) (idx : ℤ) (chunk : List α) : Prop :=
  idx = ringSlot 32 s.published ∧ s.accepted[s.published]? = some chunk
    ∧ s.published + 1 = s.accepted.length

def FeederOk (s : Pool α) : Prop :=
  match s.feeder with
  | .idle | .testInUse _ | .raiseGap =>
    s.claimed = s.accepted.length ∧ s.published = s.accepted.length
  | .setInUse idx chunk => s.Filling idx chunk.toList ∧ s.claimed = s.published
      ∧ s.claimed < s.freed + 32
  | .copy idx chunk => s.Filling idx chunk.toList ∧ s.claimed = s.published + 1
  | .setLen idx => s.Filling idx (s.iqPool idx).data.toList ∧ s.claimed = s.published + 1
  | .setReady idx => s.Filling idx (s.iqPool idx).cells ∧ s.claimed = s.published + 1
  | .incWrite => 0 < s.published ∧ s.claimed = s.accepted.length
      ∧ s.published = s.accepted.length

def DemodOk (s : Pool α) : Prop :=
  match s.demod with
  | .exchangeGap | .testReady => s.retired = s.freed ∧ s.processed.length = s.freed
  | .spin idx _ => idx = ringSlot 32 s.freed ∧ s.retired = s.freed
      ∧ s.processed.length = s.freed
  | .process idx => idx = ringSlot 32 s.freed ∧ s.retired = s.freed ∧ s.freed < s.published
      ∧ s.processed.length = s.freed
  | .clearReady idx => idx = ringSlot 32 s.freed ∧ s.retired = s.freed ∧ s.freed < s.published
      ∧ s.processed.length = s.freed + 1
  | .clearInUse idx => idx = ringSlot 32 s.freed ∧ s.retired = s.freed + 1
      ∧ s.processed.length = s.freed + 1
  | .incRead => 0 < s.freed ∧ s.retired = s.freed ∧ s.processed.length = s.freed

structure Inv (s : Pool α) : Prop where
  write : s.iqWriteIdx = ticks (s.published - s.feeder.behind)
  read : s.iqReadIdx = ticks (s.freed - s.demod.behind)
  inUse : Window 32 (fun i => (s.iqPool i).inUse) s.freed s.claimed
  ready : Window 32 (fun i => (s.iqPool i).ready) s.retired s.published
  stores : Stores 32 (fun i => (s.iqPool i).cells) s.accepted s.retired s.published
  feederOk : s.FeederOk
  demodOk : s.DemodOk

theorem init_inv (zero : α) : Inv (init zero) where
  write := rfl
  read := rfl
  inUse := Window.of_empty (fun _ => rfl) 0
  ready := Window.of_empty (fun _ => rfl) 0
  stores := Stores.of_empty _ _ _ 0
  feederOk := ⟨rfl, rfl⟩
  demodOk := ⟨rfl, rfl⟩

/-- The feeder is at most one slot ahead of what it has published. -/
theorem claimed_bounds (h : Inv s) : s.published ≤ s.claimed ∧ s.claimed ≤ s.published + 1
    ∧ s.claimed ≤ s.accepted.length := by
  have hf := h.feederOk
  unfold FeederOk at hf
  split at hf
  · omega
  · omega
  · omega
  · obtain ⟨⟨-, -, hl⟩, hc, -⟩ := hf
    omega
  · obtain ⟨⟨-, -, hl⟩, hc⟩ := hf
    omega
  · obtain ⟨⟨-, -, hl⟩, hc⟩ := hf
    omega
  · obtain ⟨⟨-, -, hl⟩, hc⟩ := hf
    omega
  · omega

theorem freed_bounds (h : Inv s) : s.freed ≤ s.retired ∧ s.retired ≤ s.freed + 1
    ∧ s.freed ≤ s.processed.length := by
  have hd := h.demodOk
  unfold DemodOk at hd
  split at hd <;> omega

theorem published_lt (h : Inv s) (hc : s.claimed = s.published + 1) :
    s.published < s.retired + 32 := by
  have := h.inUse.hi_le
  have := freed_bounds h
  omega

/-- The slot the feeder is filling is not among the published ones. -/
theorem stores_fill (h : Inv s) (hlt : s.published < s.retired + 32)
    (f : IqSlot α → IqSlot α) :
    Stores 32 (fun i => (modifySlot s.iqPool (ringSlot 32 s.published) f i).cells) s.accepted
      s.retired s.published :=
  h.stores.write le_rfl hlt fun j hj => by simp only [modifySlot_ne _ f hj]

theorem slotIndex_write (h : Inv s) (hb : s.accepted.length < 2 ^ 31) (hf : s.feeder.behind = 0) :
    slotIndex poolSize s.iqWriteIdx = ringSlot 32 s.published := by
  have := claimed_bounds h
  rw [h.write, hf]
  exact slotIndex_ticks_of_lt rfl (by omega)

theorem slotIndex_read (h : Inv s) (hb : s.accepted.length < 2 ^ 31) (hd : s.demod.behind = 0) :
    slotIndex poolSize s.iqReadIdx = ringSlot 32 s.freed := by
  have := claimed_bounds h
  have := h.inUse.lo_le
  rw [h.read, hd]
  exact slotIndex_ticks_of_lt rfl (by omega)

theorem offer_inv (h : Inv s) (chunk : Chunk α) : Inv (s.offer chunk) := by
  unfold offer
  split
  · rename_i hf
    have hok := h.feederOk
    have hw := h.write
    rw [FeederOk, hf] at hok
    rw [hf] at hw
    exact ⟨hw, h.read, h.inUse, h.ready, h.stores, hok, h.demodOk⟩
  · exact h

theorem DemodOk.published_le {t : Pool α} (hd : s.DemodOk) (h1 : t.demod = s.demod)
    (h2 : t.freed = s.freed) (h3 : t.retired = s.retired) (h4 : t.processed = s.processed)
    (h5 : s.published ≤ t.published) : t.DemodOk := by
  unfold DemodOk at hd ⊢
  rw [h1, h2, h3, h4]
  split at hd
  · exact hd
  · exact hd
  · exact hd
  · exact ⟨hd.1, hd.2.1, by omega, hd.2.2.2⟩
  · exact ⟨hd.1, hd.2.1, by omega, hd.2.2.2⟩
  · exact hd
  · exact hd

theorem feedIQToPool_inv (h : Inv s) (hb : s.accepted.length < 2 ^ 31) :
    Inv s.feedIQToPool := by
  have hok := h.feederOk
  have hw := h.write
  have hdem := h.demodOk
  unfold FeederOk at hok
  split at hok <;> rename_i hf <;> rw [hf] at hw <;> simp only [Feeder.behind] at hw <;>
    simp only [feedIQToPool, hf]
  · exact h
  · rw [slotIndex_write h hb (by rw [hf]; rfl)]
    obtain ⟨hcl, hpub⟩ := hok
    split_ifs with hu
    · exact ⟨hw, h.read, h.inUse, h.ready, h.stores, ⟨hcl, hpub⟩, hdem⟩
    · rw [Bool.not_eq_true, hpub, ← hcl, h.inUse.flag_hi_false (by norm_num)] at hu
      refine ⟨hw, h.read, h.inUse, h.ready, h.stores.append _, ⟨⟨rfl, ?_, ?_⟩, ?_, hu⟩, hdem⟩
      · simp [hpub]
      · simp [hpub]
      · exact hcl.trans hpub.symm
  · exact ⟨hw, h.read, h.inUse, h.ready, h.stores, hok, hdem⟩
  · rename_i idx chunk
    obtain ⟨⟨rfl, hget, hlen⟩, hcl, hlt⟩ := hok
    refine ⟨hw, h.read, ?_, ?_, ?_, ⟨⟨rfl, hget, hlen⟩, ?_⟩, hdem⟩
    · rw [modifySlot_field_set IqSlot.inUse rfl, ← hcl]
      exact h.inUse.raise hlt
    · exact h.ready.modify rfl
    · exact h.stores.modify rfl
    · simp [hcl]
  · rename_i idx chunk
    obtain ⟨⟨rfl, hget, hlen⟩, hcl⟩ := hok
    refine ⟨hw, h.read, ?_, ?_, stores_fill h (published_lt h hcl) _, ⟨⟨rfl, ?_, hlen⟩, hcl⟩, hdem⟩
    · exact h.inUse.modify rfl
    · exact h.ready.modify rfl
    · simp only [modifySlot_self]
      exact hget
  · rename_i idx
    obtain ⟨⟨rfl, hget, hlen⟩, hcl⟩ := hok
    refine ⟨hw, h.read, ?_, ?_, stores_fill h (published_lt h hcl) _, ⟨⟨rfl, ?_, hlen⟩, hcl⟩, hdem⟩
    · exact h.inUse.modify rfl
    · exact h.ready.modify rfl
    · have hall : (s.iqPool (ringSlot 32 s.published)).data.toList.take (2 * iqChunkSize)
          = (s.iqPool (ringSlot 32 s.published)).data.toList :=
        List.take_of_length_le (by simp [Nat.mul_comm])
      simp only [modifySlot_self, IqSlot.cells, hall]
      exact hget
  · rename_i idx
    obtain ⟨⟨rfl, hget, hlen⟩, hcl⟩ := hok
    refine ⟨hw, h.read, ?_, ?_, ?_, ⟨Nat.succ_pos _, hcl.trans hlen, hlen⟩,
      hdem.published_le rfl rfl rfl rfl (Nat.le_succ _)⟩
    · exact h.inUse.modify rfl
    · rw [modifySlot_field_set IqSlot.ready rfl]
      exact h.ready.raise (published_lt h hcl)
    · exact (h.stores.raise hget).modify rfl
  · obtain ⟨hpos, hcl, hlen⟩ := hok
    refine ⟨?_, h.read, h.inUse, h.ready, h.stores, ⟨hcl, hlen⟩, hdem⟩
    simp only [hw, ← ticks_succ, Feeder.behind]
    congr 1
    omega

/-- The demodulator's changes of the flags are no concern of the feeder's. -/
theorem FeederOk.of_flags {t : Pool α} (hf : s.FeederOk) (h1 : t.feeder = s.feeder)
    (h2 : t.accepted = s.accepted) (h3 : t.claimed = s.claimed) (h4 : t.published = s.published)
    (h5 : s.freed ≤ t.freed) (h6 : ∀ i, (t.iqPool i).data = (s.iqPool i).data)
    (h7 : ∀ i, (t.iqPool i).cells = (s.iqPool i).cells) : t.FeederOk := by
  unfold FeederOk Filling at hf ⊢
  rw [h1, h2, h3, h4]
  split at hf
  · exact hf
  · exact hf
  · exact hf
  · exact ⟨hf.1, hf.2.1, by omega⟩
  · exact hf
  · simp only [h6]
    exact hf
  · simp only [h7]
    exact hf
  · exact hf

theorem demodThread_inv (h : Inv s) (hb : s.accepted.length < 2 ^ 31) : Inv s.demodThread := by
  have hok := h.demodOk
  have hr := h.read
  have hpub := claimed_bounds h
  unfold DemodOk at hok
  unfold demodThread
  split at hok <;> rename_i hs <;> rw [hs] at hr <;> simp only [Demod.behind] at hr
  · simp only [hs]
    exact ⟨h.write, hr, h.inUse, h.ready, h.stores, h.feederOk, hok⟩
  · simp only [hs]
    rw [slotIndex_read h hb (by rw [hs]; rfl)]
    obtain ⟨hret, hproc⟩ := hok
    split_ifs with hready
    · rw [← hret, h.ready.flag_lo (by norm_num), hret] at hready
      exact ⟨h.write, hr, h.inUse, h.ready, h.stores, h.feederOk, ⟨rfl, hret, hready, hproc⟩⟩
    · exact ⟨h.write, hr, h.inUse, h.ready, h.stores, h.feederOk, ⟨rfl, hret, hproc⟩⟩
  · rename_i idx left
    obtain ⟨rfl, hret, hproc⟩ := hok
    rcases left with _ | left <;> simp only [hs]
    · exact ⟨h.write, hr, h.inUse, h.ready, h.stores, h.feederOk, ⟨hret, hproc⟩⟩
    · split_ifs with hready
      · rw [← hret, h.ready.flag_lo (by norm_num), hret] at hready
        exact ⟨h.write, hr, h.inUse, h.ready, h.stores, h.feederOk, ⟨rfl, hret, hready, hproc⟩⟩
      · exact ⟨h.write, hr, h.inUse, h.ready, h.stores, h.feederOk, ⟨rfl, hret, hproc⟩⟩
  · simp only [hs]
    obtain ⟨hidx, hret, hlt, hproc⟩ := hok
    refine ⟨h.write, hr, h.inUse, h.ready, h.stores, h.feederOk, ⟨hidx, hret, hlt, ?_⟩⟩
    simp [hproc]
  · simp only [hs]
    obtain ⟨rfl, hret, hlt, hproc⟩ := hok
    refine ⟨h.write, hr, ?_, ?_, ?_, ?_, ⟨rfl, by simp [hret], hproc⟩⟩
    · exact h.inUse.modify rfl
    · rw [modifySlot_field_set IqSlot.ready rfl, ← hret]
      exact h.ready.lower (by omega)
    · exact h.stores.lower.modify rfl
    · exact h.feederOk.of_flags rfl rfl rfl rfl le_rfl
        (congrFun (modifySlot_field IqSlot.data rfl)) (congrFun (modifySlot_field IqSlot.cells rfl))
  · simp only [hs]
    obtain ⟨rfl, hret, hproc⟩ := hok
    refine ⟨h.write, hr, ?_, ?_, ?_, ?_, ⟨Nat.succ_pos _, hret, hproc⟩⟩
    · rw [modifySlot_field_set IqSlot.inUse rfl]
      have := h.ready.lo_le
      exact h.inUse.lower (by omega)
    · exact h.ready.modify rfl
    · exact h.stores.modify rfl
    · exact h.feederOk.of_flags rfl rfl rfl rfl (Nat.le_succ _)
        (congrFun (modifySlot_field IqSlot.data rfl)) (congrFun (modifySlot_field IqSlot.cells rfl))
  · simp only [hs]
    obtain ⟨hpos, hret, hproc⟩ := hok
    refine ⟨h.write, ?_, h.inUse, h.ready, h.stores, h.feederOk, ⟨hret, hproc⟩⟩
    simp only [hr, ← ticks_succ, Demod.behind]
    congr 1
    omega

theorem raiseGap_inv (h : Inv s) : Inv s.raiseGap :=
  ⟨h.write, h.read, h.inUse, h.ready, h.stores, h.feederOk, h.demodOk⟩

theorem step_inv (a : Act α) (hb : s.accepted.length < 2 ^ 31) (h : Inv s) : Inv (s.step a) := by
  cases a with
  | offer chunk => exact offer_inv h chunk
  | raiseGap => exact raiseGap_inv h
  | feeder => exact feedIQToPool_inv h hb
  | demod => exact demodThread_inv h hb

theorem accepted_feedIQToPool (s : Pool α) : s.feedIQToPool.accepted = s.accepted
    ∨ ∃ chunk, s.feeder = .testInUse chunk
      ∧ s.feedIQToPool.accepted = s.accepted ++ [chunk.toList] := by
  simp only [feedIQToPool]
  split <;> rename_i hf
  case h_2 =>
    split_ifs
    · exact .inl rfl
    · exact .inr ⟨_, hf, rfl⟩
  all_goals exact .inl rfl

theorem accepted_demodThread (s : Pool α) : s.demodThread.accepted = s.accepted := by
  simp only [demodThread]
  split <;> try rfl
  all_goals split_ifs <;> rfl

theorem accepted_offer (s : Pool α) (chunk : Chunk α) :
    (s.offer chunk).accepted = s.accepted := by
  unfold offer
  split <;> rfl

theorem accepted_le_step (s : Pool α) (a : Act α) :
    s.accepted.length ≤ (s.step a).accepted.length := by
  cases a with
  | offer chunk => exact (congrArg List.length (accepted_offer s chunk)).ge
  | raiseGap => exact le_rfl
  | feeder =>
    rcases accepted_feedIQToPool s with h | ⟨chunk, -, h⟩ <;> simp only [step, h]
    · exact le_rfl
    · simp
  | demod => exact (congrArg List.length (accepted_demodThread s)).ge

/-- The queue of chunks the pool stands for. -/
def queue (s : Pool α) : Queue (List α) := ⟨s.accepted, s.processed, s.freed⟩

theorem step_refines (h : Inv s) (hb : s.accepted.length < 2 ^ 31) (a : Act α) :
    Queue.Step 32 s.queue (s.step a).queue := by
  cases a with
  | offer chunk =>
    simp only [step, offer]
    split <;> exact .stay _
  | raiseGap => exact .stay _
  | feeder =>
    have hok := h.feederOk
    simp only [step, feedIQToPool]
    unfold FeederOk at hok
    split <;> rename_i hf <;> simp only [hf] at hok <;> try exact .stay _
    rw [slotIndex_write h hb (by rw [hf]; rfl)]
    split_ifs with hu
    · exact .stay _
    · rw [Bool.not_eq_true, hok.2, ← hok.1, h.inUse.flag_hi_false (by norm_num)] at hu
      exact .put s.queue _ (by simp only [queue]; omega)
  | demod =>
    have hok := h.demodOk
    simp only [step, demodThread]
    unfold DemodOk at hok
    split <;> rename_i hs <;> simp only [hs] at hok <;> try exact .stay _
    · split_ifs <;> exact .stay _
    · split_ifs <;> exact .stay _
    · obtain ⟨rfl, hret, hlt, hproc⟩ := hok
      refine .take s.queue _ ?_
      simp only [queue, hproc]
      exact h.stores _ hret.le hlt
    · refine .release s.queue ?_
      simp only [queue]
      omega

theorem run_sound (h : Inv s) (hq : Queue.Fifo 32 s.queue) (as : List (Act α))
    (hb : (run step s as).accepted.length < 2 ^ 31) :
    Inv (run step s as) ∧ Queue.Fifo 32 (run step s as).queue := by
  refine run_inv_of_lt (I := fun s => Inv s ∧ Queue.Fifo 32 s.queue) accepted_le_step
    (fun s a hb hs => ?_) as _ hb ⟨h, hq⟩
  have hb' := (accepted_le_step s a).trans_lt hb
  exact ⟨step_inv a hb' hs.1, (step_refines hs.1 hb' a).fifo hs.2⟩

theorem run_inv (zero : α) (as : List (Act α))
    (h : (run step (init zero) as).accepted.length < 2 ^ 31) :
    Inv (run step (init zero) as) ∧ Queue.Fifo 32 (run step (init zero) as).queue :=
  run_sound (init_inv zero) (Queue.Fifo.empty 32) as h

/-- The feeder owns a slot exactly while it has claimed one more than it has published. -/
theorem feederOwns_iff (h : Inv s) (idx : ℤ) :
    s.FeederOwns idx ↔ s.claimed = s.published + 1 ∧ idx = ringSlot 32 s.published := by
  have hok := h.feederOk
  unfold FeederOk at hok
  unfold FeederOwns
  split at hok <;> rename_i hf <;> simp only [hf]
  · simp
    omega
  · simp
    omega
  · simp
    omega
  · simp [hok.2.1]
  · obtain ⟨⟨rfl, -, -⟩, hcl⟩ := hok
    simp [hcl, eq_comm]
  · obtain ⟨⟨rfl, -, -⟩, hcl⟩ := hok
    simp [hcl, eq_comm]
  · obtain ⟨⟨rfl, -, -⟩, hcl⟩ := hok
    simp [hcl, eq_comm]
  · simp
    omega

theorem demodOwns_iff (h : Inv s) (idx : ℤ) :
    s.DemodOwns idx ↔ s.retired = s.freed + 1 ∧ idx = ringSlot 32 s.freed := by
  have hok := h.demodOk
  unfold DemodOk at hok
  unfold DemodOwns
  split at hok <;> rename_i hs <;> simp only [hs]
  · simp [hok.1]
  · simp [hok.1]
  · simp [hok.2.1]
  · simp [hok.2.1]
  · simp [hok.2.1]
  · simp [hok.1, hok.2.1, eq_comm]
  · simp [hok.2.1]

/-- A slot in use is queued, or in the hands of exactly one thread. -/
theorem inUse_owner (h : Inv s) {i : ℕ} (hi : i < 32) (hu : (s.iqPool i).inUse = true) :
    ((s.iqPool i).ready = true ∧ ¬ s.FeederOwns i ∧ ¬ s.DemodOwns i)
      ∨ ((s.iqPool i).ready = false ∧ s.FeederOwns i ∧ ¬ s.DemodOwns i)
      ∨ ((s.iqPool i).ready = false ∧ ¬ s.FeederOwns i ∧ s.DemodOwns i) := by
  have hcb := claimed_bounds h
  have hfb := freed_bounds h
  have hrp := h.ready.lo_le
  have hroom := h.inUse.hi_le
  obtain ⟨k, hk1, hk2, hki⟩ := (h.inUse.flag_iff i hi).1 hu
  -- any other number of a slot in use with this index is `k` itself
  have huniq : ∀ m, s.freed ≤ m → m < s.claimed → (i : ℤ) = ringSlot 32 m → m = k :=
    fun m h1 h2 h3 => ringSlot_inj s.freed h1 (by omega) hk1 (by omega) (h3.symm.trans hki.symm)
  have hready : (s.iqPool i).ready = true ↔ s.retired ≤ k ∧ k < s.published := by
    rw [h.ready.flag_iff i hi]
    constructor
    · rintro ⟨m, h1, h2, h3⟩
      rw [← huniq m (by omega) (by omega) h3.symm]
      exact ⟨h1, h2⟩
    · rintro ⟨h1, h2⟩
      exact ⟨k, h1, h2, hki⟩
  have hfeeder : s.FeederOwns i ↔ k = s.published := by
    rw [feederOwns_iff h]
    constructor
    · rintro ⟨hc, hs⟩
      exact (huniq _ (by omega) (by omega) hs).symm
    · rintro rfl
      exact ⟨by omega, hki.symm⟩
  have hdemod : s.DemodOwns i ↔ k < s.retired := by
    rw [demodOwns_iff h]
    constructor
    · rintro ⟨hr, hs⟩
      have := huniq _ le_rfl (by omega) hs
      omega
    · intro hlt
      have hkf : k = s.freed := by omega
      exact ⟨by omega, by rw [← hkf, hki]⟩
  rw [hfeeder, hdemod, ← Bool.not_eq_true, hready]
  omega

theorem drops_full (h : Inv s) (hb : s.accepted.length < 2 ^ 31) (hd : s.Drops) :
    ∀ i : ℕ, i < 32 → (s.iqPool i).inUse = true := by
  obtain ⟨⟨chunk, hf⟩, hr⟩ := hd
  have hok := h.feederOk
  rw [FeederOk, hf] at hok
  simp only [feedIQToPool, hf, slotIndex_write h hb (by rw [hf]; rfl)] at hr
  split_ifs at hr with hu
  rw [hok.2, ← hok.1] at hu
  exact fun i hi => h.inUse.flag_of_full ((h.inUse.flag_hi (by norm_num)).1 hu) hi

/-- The steps left until every accepted chunk is processed, no further one being offered. -/
def stepsLeft (s : Pool α) : ℕ :=
  (match s.feeder with
    | .setInUse _ _ => 4
    | .copy _ _ => 3
    | .setLen _ => 2
    | .setReady _ => 1
    | _ => 0)
  + 6 * (s.accepted.length - s.processed.length)
  + match s.demod with
    | .process _ => 0
    | .testReady => 1
    | .spin _ 0 => 3
    | .spin _ (_ + 1) => 1
    | .exchangeGap => 2
    | .incRead => 3
    | .clearInUse _ => 4
    | .clearReady _ => 5

theorem feeder_progress (h : Inv s) (hpub : s.published ≠ s.accepted.length) :
    s.feedIQToPool.accepted = s.accepted ∧ s.feedIQToPool.stepsLeft < s.stepsLeft := by
  have hok := h.feederOk
  unfold FeederOk at hok
  unfold stepsLeft
  split at hok <;> rename_i hf <;> simp only [feedIQToPool, hf]
  · exact absurd hok.2 hpub
  · exact absurd hok.2 hpub
  · exact absurd hok.2 hpub
  · exact ⟨trivial, by omega⟩
  · exact ⟨trivial, by omega⟩
  · exact ⟨trivial, by omega⟩
  · exact ⟨trivial, by omega⟩
  · exact absurd hok.2.2 hpub

/-- A published slot is found by the demodulator. -/
theorem demodThread_finds (h : Inv s) (hb : s.accepted.length < 2 ^ 31)
    (hd : s.demod = .testReady) (hlt : s.processed.length < s.published) :
    s.demodThread = { s with demod := .process (ringSlot 32 s.freed) } := by
  have hok := h.demodOk
  rw [DemodOk, hd] at hok
  have hready := (h.ready.flag_lo (by norm_num)).2 (by omega)
  rw [hok.1] at hready
  simp only [demodThread, hd, slotIndex_read h hb (by rw [hd]; rfl), hready, if_true]

theorem demod_progress (h : Inv s) (hb : s.accepted.length < 2 ^ 31)
    (hpub : s.published = s.accepted.length) (hlt : s.processed.length < s.accepted.length) :
    s.demodThread.accepted = s.accepted ∧ s.demodThread.stepsLeft < s.stepsLeft := by
  have hok := h.demodOk
  have hready : s.retired = s.freed → s.processed.length = s.freed →
      (s.iqPool (ringSlot 32 s.freed)).ready = true := by
    intro hr hp
    rw [← hr]
    exact (h.ready.flag_lo (by norm_num)).2 (by omega)
  unfold DemodOk at hok
  unfold stepsLeft
  split at hok <;> rename_i hs
  · simp only [demodThread, hs]
    exact ⟨trivial, by omega⟩
  · rw [demodThread_finds h hb hs (by omega)]
    simp only [hs]
    exact ⟨trivial, by omega⟩
  · rename_i left
    cases left with
    | zero =>
      simp only [demodThread, hs]
      exact ⟨trivial, by omega⟩
    | succ left =>
      simp only [demodThread, hs, hok.1, hready hok.2.1 hok.2.2, if_true]
      exact ⟨trivial, by omega⟩
  · simp only [demodThread, hs, List.length_append, List.length_singleton]
    exact ⟨trivial, by omega⟩
  · simp only [demodThread, hs]
    exact ⟨trivial, by omega⟩
  · simp only [demodThread, hs]
    exact ⟨trivial, by omega⟩
  · simp only [demodThread, hs]
    exact ⟨trivial, by omega⟩

theorem processed_le (h : Inv s) : s.processed.length ≤ s.published := by
  have hok := h.demodOk
  have := h.ready.lo_le
  unfold DemodOk at hok
  split at hok <;> omega

/-- Left to themselves, the threads process every accepted chunk. -/
theorem exists_drain (h : Inv s) (hb : s.accepted.length < 2 ^ 31) :
    ∃ as : List (Act α), (∀ a ∈ as, a = .feeder ∨ a = .demod)
      ∧ (run step s as).accepted = s.accepted
      ∧ (run step s as).processed.length = s.accepted.length := by
  have progress : ∀ t : Pool α, Inv t ∧ t.accepted = s.accepted →
      ¬ t.processed.length = s.accepted.length → ∃ a : Act α, (a = .feeder ∨ a = .demod)
        ∧ (Inv (t.step a) ∧ (t.step a).accepted = s.accepted)
        ∧ (t.step a).stepsLeft < t.stepsLeft := by
    rintro t ⟨ht, hta⟩ hnd
    have htb : t.accepted.length < 2 ^ 31 := hta ▸ hb
    by_cases hpub : t.published = t.accepted.length
    · have hle := processed_le ht
      rw [← hta] at hnd
      obtain ⟨hacc, hdec⟩ := demod_progress ht htb hpub (by omega)
      exact ⟨.demod, .inr rfl, ⟨step_inv .demod htb ht, hacc.trans hta⟩, hdec⟩
    · obtain ⟨hacc, hdec⟩ := feeder_progress ht hpub
      exact ⟨.feeder, .inl rfl, ⟨step_inv .feeder htb ht, hacc.trans hta⟩, hdec⟩
  obtain ⟨as, has, ⟨-, hacc⟩, hlen⟩ := exists_run stepsLeft progress s ⟨h, rfl⟩
  exact ⟨as, has, hacc, hlen⟩

/-! A chunk's way through the pool -/

/-- The threads are at the start of their loops, and every accepted chunk is processed. -/
structure Quiet (s : Pool α) : Prop where
  inv : s.Inv
  fifo : Queue.Fifo 32 s.queue
  feeder : s.feeder = .idle
  demod : s.demod = .exchangeGap
  drained : s.processed.length = s.accepted.length

theorem init_quiet (zero : α) : Quiet (init zero) :=
  ⟨init_inv zero, Queue.Fifo.empty 32, rfl, rfl, rfl⟩

/-- The feeder finds a free slot. -/
theorem Quiet.finds (h : Quiet s) (chunk : Chunk α) (hb : s.accepted.length + 1 < 2 ^ 31) :
    (s.offer chunk).feedIQToPool = { s with
      feeder := .setInUse (ringSlot 32 s.published) chunk
      accepted := s.accepted ++ [chunk.toList] } := by
  have hclaimed := h.inv.feederOk
  have hfreed := h.inv.demodOk
  rw [FeederOk, h.feeder] at hclaimed
  rw [DemodOk, h.demod] at hfreed
  have hidx := slotIndex_write h.inv (by omega) (by rw [h.feeder]; rfl)
  have hfree : (s.iqPool (ringSlot 32 s.published)).inUse = false := by
    rw [hclaimed.2, ← hclaimed.1]
    exact (h.inv.inUse.flag_hi_false (by norm_num)).2 (by have := h.drained; omega)
  simp only [offer, h.feeder, feedIQToPool, hidx, hfree, Bool.false_eq_true, if_false]

/-- A full staging buffer is handed to the pool. -/
def hand (chunk : Chunk α) : List (Act α) := .offer chunk :: List.replicate 6 .feeder

/-- The demodulator takes the gap flag down, and finds the chunk that was handed over. -/
theorem Quiet.hand (h : Quiet s) (chunk : Chunk α) (hb : s.accepted.length + 1 < 2 ^ 31) :
    let s₁ := run step s (Pool.hand chunk)
    s₁.accepted = s.accepted ++ [chunk.toList] ∧ s₁.processed = s.processed ∧ s₁.feeder = .idle
      ∧ ∃ idx trace, s₁.demodThread.demodThread
        = { s₁ with gStreamGap := false, demod := .process idx, trace := trace } := by
  intro s₁
  have hhand : s₁ = run step { s with
      feeder := .setInUse (ringSlot 32 s.published) chunk
      accepted := s.accepted ++ [chunk.toList] } (List.replicate 5 .feeder) := by
    rw [← h.finds chunk hb]
    rfl
  have hacc : s₁.accepted = s.accepted ++ [chunk.toList] := hhand ▸ rfl
  have hproc : s₁.processed = s.processed := hhand ▸ rfl
  have hb₁ : s₁.accepted.length < 2 ^ 31 := by
    rw [hacc, List.length_append]
    exact hb
  have hd : s₁.demod = .exchangeGap := by rw [hhand]; exact h.demod
  have hgap : s₁.demodThread = { s₁ with
      gStreamGap := false
      demod := .testReady
      trace := if s₁.gStreamGap then s₁.trace ++ [.reset] else s₁.trace } := by
    simp only [demodThread, hd]
  have hlt : s₁.processed.length < s₁.published := by
    have hpub := h.inv.feederOk
    rw [FeederOk, h.feeder] at hpub
    rw [hproc, h.drained, hhand]
    show _ < s.published + 1
    omega
  have hfind := demodThread_finds (s := s₁.demodThread)
    (demodThread_inv (run_sound h.inv h.fifo (Pool.hand chunk) hb₁).1 hb₁)
    (by rw [hgap]; exact hb₁) (by rw [hgap]) (by rw [hgap]; exact hlt)
  rw [hgap] at hfind
  exact ⟨hacc, hproc, hhand ▸ rfl, _, _, (congrArg demodThread hgap).trans hfind⟩

/-- The chunk is handed over, and the demodulator goes through it. -/
def pass (chunk : Chunk α) : List (Act α) := hand chunk ++ List.replicate 6 .demod

theorem Quiet.pass (h : Quiet s) (chunk : Chunk α) (hb : s.accepted.length + 1 < 2 ^ 31) :
    let s' := run step s (Pool.pass chunk)
    Quiet s' ∧ s'.accepted = s.accepted ++ [chunk.toList]
      ∧ s'.processed = s.processed ++ [chunk.toList] := by
  intro s'
  obtain ⟨hacc, hproc, hfeeder, idx, trace, hfind⟩ := h.hand chunk hb
  set s₁ := run step s (Pool.hand chunk)
  have hs' : s'
      = run step { s₁ with gStreamGap := false, demod := .process idx, trace := trace }
        (List.replicate 4 .demod) := by
    rw [← hfind]
    exact run_append step s (Pool.hand chunk) (List.replicate 6 .demod)
  have hacc' : s'.accepted = s.accepted ++ [chunk.toList] := by rw [hs', ← hacc]; rfl
  have hlen : s'.processed.length = s'.accepted.length := by
    rw [hacc', List.length_append, ← h.drained, ← hproc, hs']
    exact List.length_append
  obtain ⟨hinv, hfifo⟩ := run_sound h.inv h.fifo (Pool.pass chunk) (by
    rw [show (run step s (Pool.pass chunk)).accepted = _ from hacc', List.length_append]
    exact hb)
  refine ⟨⟨hinv, hfifo, hs' ▸ hfeeder, hs' ▸ rfl, hlen⟩, hacc', ?_⟩
  have heq := hfifo.taken_le_put.eq_of_length hlen
  have heq₀ := h.fifo.taken_le_put.eq_of_length h.drained
  simp only [queue] at heq heq₀
  rw [heq, heq₀, hacc']

end Pool

open Pool in
/-- In a run with fewer than `2 ^ 31` accepted chunks, the chunks processed are the accepted ones,
in order, with at most a pool of them still waiting, and the threads' own steps process the rest;
a slot in use is queued or in the hands of exactly one thread; and a chunk is dropped only while
all 32 slots are in use. -/
theorem iq_pool_lossless {α : Type*} (zero : α) (as : List (Act α)) (s : Pool α)
    (hs : s = run step (init zero) as) (hb : s.accepted.length < 2 ^ 31) :
    (∃ waiting, s.accepted = s.processed ++ waiting ∧ waiting.length ≤ 32)
      ∧ (∃ more : List (Act α), (∀ a ∈ more, a = .feeder ∨ a = .demod)
          ∧ (run step s more).processed = s.accepted)
      ∧ (∀ i : ℕ, i < 32 → (s.iqPool i).inUse = true →
          ((s.iqPool i).ready = true ∧ ¬ s.FeederOwns i ∧ ¬ s.DemodOwns i)
            ∨ ((s.iqPool i).ready = false ∧ s.FeederOwns i ∧ ¬ s.DemodOwns i)
            ∨ ((s.iqPool i).ready = false ∧ ¬ s.FeederOwns i ∧ s.DemodOwns i))
      ∧ (s.Drops → ∀ i : ℕ, i < 32 → (s.iqPool i).inUse = true) := by
  subst hs
  obtain ⟨hI, hq⟩ := Pool.run_inv zero as hb
  refine ⟨hq.split, ?_, fun i hi => inUse_owner hI hi, drops_full hI hb⟩
  obtain ⟨more, hmore, hacc, hlen⟩ := exists_drain hI hb
  refine ⟨more, hmore, ?_⟩
  rw [← run_append] at hacc hlen ⊢
  have hpre := (Pool.run_inv zero (as ++ more) (by rw [hacc]; exact hb)).2.taken_le_put
  rw [← hacc]
  exact hpre.eq_of_length (by simp only [queue, hlen, hacc])

open Pool in
theorem iq_pool_lossless_two_chunks :
    let chunk : Chunk Int16 := Vector.replicate _ 7
    let chunk' : Chunk Int16 := Vector.replicate _ 9
    let s := run Pool.step (Pool.init 0) (pass chunk ++ pass chunk')
    s.processed = [chunk.toList, chunk'.toList]
      ∧ ∃ waiting, s.accepted = s.processed ++ waiting ∧ waiting.length ≤ 32 := by
  intro chunk chunk' s
  obtain ⟨hquiet, hacc, hproc⟩ := (init_quiet (0 : Int16)).pass chunk (by decide)
  obtain ⟨-, hacc', hproc'⟩ := hquiet.pass chunk' (by rw [hacc]; decide)
  rw [← run_append, hacc] at hacc'
  rw [← run_append, hproc] at hproc'
  refine ⟨hproc', (iq_pool_lossless _ _ s rfl ?_).1⟩
  rw [show s.accepted = _ from hacc']
  decide

end Daemon

end AetherGuard
