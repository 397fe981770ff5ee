import AetherGuard.Lib.Queue
import AetherGuard.RelayRing

/-!
# The relay's ring is a lossless queue

The slots whose `ready` flag is up are those of the buffers published and not yet released, and
they hold these buffers (`Inv`). The flag changes before the counter does on both sides, so a
counter can be one behind its thread's last flag change; the window is of the flag changes, and
each counter is told from its thread's position. A step of either thread is a step of a bounded
queue of frames (`step_refines`).
-/

namespace AetherGuard

namespace Relay

open Machine

/-- How far `g_relay_write` is behind the slots published. -/
def Producer.behind : Producer → ℕ
  | .incWrite => 1
  | _ => 0

def Sender.behind : Sender → ℕ
  | .incRead => 1
  | _ => 0

namespace State

variable {s : State}

/-- `broadcastAudio` has slot `idx`, the next to be published, to itself, for the last accepted
buffer. -/
def Filling (s : State) (idx : ℤ) (buf : IqBuffer) : Prop :=
  idx = ringSlot 64 s.published ∧ s.published < s.released + 64
    ∧ s.accepted[s.published]? = some buf ∧ s.published + 1 = s.accepted.length

def ProducerOk (s : State) : Prop :=
  match s.producer with
  | .idle | .testReady _ => s.published = s.accepted.length
  | .copy idx buf => s.Filling idx buf
  | .setNumSamples idx buf => s.Filling idx buf
      ∧ (s.gRelayPool idx).data.toList.take (buf.numIqPairs * 2).toNat
        = buf.samples.take (buf.numIqPairs * 2).toNat
  | .setReady idx => ∃ buf, s.Filling idx buf ∧ (s.gRelayPool idx).frame = buf.cut
  | .incWrite => 0 < s.published ∧ s.published = s.accepted.length

def SenderOk (s : State) : Prop :=
  match s.sender with
  | .testReady => s.frames.length = s.released
  | .copy idx => idx = ringSlot 64 s.released ∧ s.released < s.published
      ∧ s.frames.length = s.released
  | .clearReady idx => idx = ringSlot 64 s.released ∧ s.released < s.published
      ∧ s.frames.length = s.released + 1
  | .incRead => 0 < s.released ∧ s.frames.length = s.released

structure Inv (s : State) : Prop where
  write : s.gRelayWrite = ticks (s.published - s.producer.behind)
  read : s.gRelayRead = ticks (s.released - s.sender.behind)
  window : Window 64 (fun i => (s.gRelayPool i).ready) s.released s.published
  stores : Stores 64 (fun i => (s.gRelayPool i).frame) (s.accepted.map IqBuffer.cut) s.released
    s.published
  producerOk : s.ProducerOk
  senderOk : s.SenderOk

theorem init_inv : Inv State.init where
  write := rfl
  read := rfl
  window := Window.of_empty (fun _ => rfl) 0
  stores := Stores.of_empty _ _ _ 0
  producerOk := rfl
  senderOk := rfl

/-- Clamping the 32-bit pair count is taking the minimum: a buffer's size fits 32 bits. -/
theorem numIqPairs_toNat (buf : IqBuffer) :
    buf.numIqPairs.toNat = min (buf.samples.length / 2) 16384 := by
  have := buf.size_lt
  have hn : (UInt32.ofNat (buf.samples.length / 2)).toNat = buf.samples.length / 2 := by
    rw [UInt32.toNat_ofNat']
    omega
  rw [IqBuffer.numIqPairs, hn, slotSamples]
  split_ifs with h
  · rw [UInt32.toNat_ofNat']
    omega
  · rw [hn]
    omega

theorem numIqPairs_mul_two (buf : IqBuffer) :
    (buf.numIqPairs * 2).toNat = 2 * min (buf.samples.length / 2) 16384 := by
  have := numIqPairs_toNat buf
  rw [UInt32.toNat_mul, this]
  simp only [UInt32.toNat_ofNat]
  omega

theorem published_le (h : Inv s) : s.published ≤ s.accepted.length := by
  have hp := h.producerOk
  unfold ProducerOk at hp
  split at hp
  · exact hp.le
  · exact hp.le
  · obtain ⟨-, -, -, hp⟩ := hp
    omega
  · obtain ⟨⟨-, -, -, hp⟩, -⟩ := hp
    omega
  · obtain ⟨_, ⟨-, -, -, hp⟩, -⟩ := hp
    omega
  · exact hp.2.le

/-- Writing a field of the slot being filled changes no published slot. -/
theorem stores_fill (h : Inv s) {idx : ℤ} {buf : IqBuffer} (hf : s.Filling idx buf)
    (f : RelaySlot → RelaySlot) :
    Stores 64 (fun i => (modifySlot s.gRelayPool idx f i).frame) (s.accepted.map IqBuffer.cut)
      s.released s.published := by
  obtain ⟨rfl, hlt, -, -⟩ := hf
  refine h.stores.write le_rfl hlt fun j hj => ?_
  simp only [modifySlot_ne _ f hj]

theorem Filling.of_le {s' : State} {idx : ℤ} {buf : IqBuffer} (hf : s.Filling idx buf)
    (hp : s'.published = s.published) (ha : s'.accepted = s.accepted)
    (hr : s.released ≤ s'.released) : s'.Filling idx buf := by
  obtain ⟨hi, hlt, hget, hlen⟩ := hf
  exact ⟨by rw [hp, hi], by omega, by rw [hp, ha, hget], by rw [hp, ha, hlen]⟩

/-- The slot `broadcastAudio` tests is that of the next buffer to be published. -/
theorem slotIndex_write (h : Inv s) (hb : s.accepted.length < 2 ^ 31) {buf : IqBuffer}
    (hp : s.producer = .testReady buf) :
    slotIndex poolSize s.gRelayWrite = ringSlot 64 s.published := by
  have hle := published_le h
  have hw := h.write
  rw [hp] at hw
  rw [hw]
  exact slotIndex_ticks_of_lt rfl (hle.trans_lt hb)

theorem offer_inv (h : Inv s) (buf : IqBuffer) : Inv (s.offer buf) := by
  unfold offer
  split
  · rename_i hp
    have hok := h.producerOk
    have hw := h.write
    rw [ProducerOk, hp] at hok
    rw [hp] at hw
    split_ifs
    · exact h
    · exact ⟨hw, h.read, h.window, h.stores, hok, h.senderOk⟩
  · exact h

theorem broadcastAudio_inv (h : Inv s) (hb : s.accepted.length < 2 ^ 31) :
    Inv s.broadcastAudio := by
  have hok := h.producerOk
  have hw := h.write
  unfold ProducerOk at hok
  split at hok <;> rename_i hp <;> rw [hp] at hw <;> simp only [Producer.behind] at hw <;>
    simp only [broadcastAudio, hp]
  · exact h
  · simp only [slotIndex_write h hb hp]
    split_ifs with hr
    · exact ⟨hw, h.read, h.window, h.stores, hok, h.senderOk⟩
    · have hlt := (h.window.flag_hi_false (by norm_num)).1 (by simpa using hr)
      refine ⟨hw, h.read, h.window, ?_, ⟨rfl, hlt, ?_, ?_⟩, h.senderOk⟩
      · rw [List.map_append]
        exact h.stores.append _
      · simp [hok]
      · simp [hok]
  · rename_i idx buf
    refine ⟨hw, h.read, ?_, stores_fill h hok _, ⟨hok, ?_⟩, h.senderOk⟩
    · exact h.window.modify rfl
    · simp only [modifySlot_self]
      have := numIqPairs_mul_two buf
      exact take_memcpy _ (by omega) (by simp only [slotSamples]; omega)
  · rename_i idx buf
    obtain ⟨hf, hdata⟩ := hok
    refine ⟨hw, h.read, ?_, stores_fill h hf _, ⟨buf, hf, ?_⟩, h.senderOk⟩
    · exact h.window.modify rfl
    · simp only [modifySlot_self, RelaySlot.frame, hdata, IqBuffer.cut, Frame.mk.injEq]
      refine ⟨?_, by rw [numIqPairs_mul_two]⟩
      apply UInt32.toNat_inj.1
      rw [numIqPairs_toNat, UInt32.toNat_ofNat']
      omega
  · rename_i idx
    obtain ⟨buf, ⟨rfl, hlt, hget, hlen⟩, hframe⟩ := hok
    refine ⟨hw, h.read, ?_, ?_, ⟨Nat.succ_pos _, hlen⟩, ?_⟩
    · rw [modifySlot_field_set RelaySlot.ready rfl]
      exact h.window.raise hlt
    · rw [modifySlot_field RelaySlot.frame rfl]
      refine h.stores.raise ?_
      rw [List.getElem?_map, hget, hframe]
      rfl
    · have hs := h.senderOk
      unfold SenderOk at hs ⊢
      split at hs <;> rename_i heq <;> simp only [heq]
      · exact hs
      · exact ⟨hs.1, hs.2.1.trans (Nat.lt_succ_self _), hs.2.2⟩
      · exact ⟨hs.1, hs.2.1.trans (Nat.lt_succ_self _), hs.2.2⟩
      · exact hs
  · obtain ⟨hpos, hlen⟩ := hok
    refine ⟨?_, h.read, h.window, h.stores, hlen, h.senderOk⟩
    simp only [hw, ← ticks_succ, Producer.behind]
    congr 1
    omega

theorem dataSenderThread_inv (h : Inv s) (hb : s.accepted.length < 2 ^ 31) :
    Inv s.dataSenderThread := by
  have hok := h.senderOk
  have hr := h.read
  have hpub := published_le h
  have hrel := h.window.lo_le
  unfold SenderOk at hok
  split at hok <;> rename_i hs <;> rw [hs] at hr <;> simp only [Sender.behind] at hr <;>
    simp only [dataSenderThread, hs]
  · have hidx : slotIndex poolSize s.gRelayRead = ringSlot 64 s.released := by
      rw [hr]
      exact slotIndex_ticks_of_lt rfl (by omega)
    simp only [hidx]
    split_ifs with hready
    · have hlt := (h.window.flag_lo (by norm_num)).1 hready
      exact ⟨h.write, hr, h.window, h.stores, h.producerOk, ⟨rfl, hlt, hok⟩⟩
    · exact h
  · obtain ⟨hidx, hlt, hlen⟩ := hok
    refine ⟨h.write, hr, h.window, h.stores, h.producerOk, ⟨hidx, hlt, ?_⟩⟩
    simp [hlen]
  · obtain ⟨rfl, hlt, hlen⟩ := hok
    refine ⟨h.write, hr, ?_, ?_, ?_, ⟨Nat.succ_pos _, hlen⟩⟩
    · rw [modifySlot_field_set RelaySlot.ready rfl]
      exact h.window.lower hlt
    · exact h.stores.lower.modify rfl
    · have hp := h.producerOk
      have hne : ∀ idx buf, s.Filling idx buf → idx ≠ ringSlot 64 s.released := by
        rintro idx buf ⟨rfl, hlt', -, -⟩ he
        have := ringSlot_inj s.released hrel hlt' le_rfl (by omega) he
        omega
      unfold ProducerOk at hp ⊢
      split at hp <;> rename_i heq <;> simp only [heq]
      · exact hp
      · exact hp
      · exact hp.of_le rfl rfl (Nat.le_succ _)
      · rw [modifySlot_ne _ _ (hne _ _ hp.1)]
        exact ⟨hp.1.of_le rfl rfl (Nat.le_succ _), hp.2⟩
      · obtain ⟨buf, hf, hframe⟩ := hp
        rw [modifySlot_ne _ _ (hne _ _ hf)]
        exact ⟨buf, hf.of_le rfl rfl (Nat.le_succ _), hframe⟩
      · exact hp
  · obtain ⟨hpos, hlen⟩ := hok
    refine ⟨h.write, ?_, h.window, h.stores, h.producerOk, hlen⟩
    simp only [hr, ← ticks_succ, Sender.behind]
    congr 1
    omega

theorem step_inv (a : Act) (hb : s.accepted.length < 2 ^ 31) (h : Inv s) : Inv (s.step a) := by
  cases a with
  | offer buf => exact offer_inv h buf
  | producer => exact broadcastAudio_inv h hb
  | sender => exact dataSenderThread_inv h hb
  | setMode mode => exact ⟨h.write, h.read, h.window, h.stores, h.producerOk, h.senderOk⟩

theorem accepted_le_step (s : State) (a : Act) :
    s.accepted.length ≤ (s.step a).accepted.length := by
  cases a with
  | offer buf =>
    simp only [step, offer]
    split
    · split_ifs <;> exact le_rfl
    · exact le_rfl
  | producer =>
    simp only [step, broadcastAudio]
    split <;> try exact le_rfl
    split_ifs
    · exact le_rfl
    · simp
  | sender =>
    simp only [step, dataSenderThread]
    split <;> try exact le_rfl
    split_ifs <;> exact le_rfl
  | setMode mode => exact le_rfl

theorem run_inv (as : List Act) (h : (run step State.init as).accepted.length < 2 ^ 31) :
    Inv (run step State.init as) :=
  run_inv_of_lt accepted_le_step
    (fun s a hb hs => step_inv a ((accepted_le_step s a).trans_lt hb) hs) as _ h init_inv

/-- The queue of frames the ring stands for. -/
def queue (s : State) : Queue Frame := ⟨s.accepted.map IqBuffer.cut, s.frames, s.released⟩

/-- Accepting a buffer puts its frame, building a frame takes it, clearing `ready` gives the
place back; every other step leaves the queue alone. -/
theorem step_refines (h : Inv s) (hb : s.accepted.length < 2 ^ 31) (a : Act) :
    Queue.Step 64 s.queue (s.step a).queue := by
  cases a with
  | offer buf =>
    simp only [step, offer]
    split
    · split_ifs <;> exact .stay _
    · exact .stay _
  | producer =>
    have hok := h.producerOk
    simp only [step, broadcastAudio]
    unfold ProducerOk at hok
    split <;> rename_i hp <;> simp only [hp] at hok <;> try exact .stay _
    split_ifs with hr
    · exact .stay _
    · rw [slotIndex_write h hb hp] at hr
      have hlt := (h.window.flag_hi_false (by norm_num)).1 (by simpa using hr)
      have := Queue.Step.put s.queue (N := 64) (IqBuffer.cut ‹_›) (by
        simp only [queue, List.length_map]
        omega)
      simpa [queue] using this
  | sender =>
    have hok := h.senderOk
    simp only [step, dataSenderThread]
    unfold SenderOk at hok
    split <;> rename_i hs <;> simp only [hs] at hok
    · split_ifs <;> exact .stay _
    · obtain ⟨rfl, hlt, hlen⟩ := hok
      refine .take s.queue _ ?_
      simp only [queue, hlen]
      exact h.stores _ le_rfl hlt
    · refine .release s.queue ?_
      simp only [queue]
      omega
    · exact .stay _
  | setMode mode => exact .stay _

theorem run_sound (h : Inv s) (hq : Queue.Fifo 64 s.queue) (as : List Act)
    (hb : (run step s as).accepted.length < 2 ^ 31) :
    Inv (run step s as) ∧ Queue.Fifo 64 (run step s as).queue := by
  refine run_inv_of_lt (I := fun s => Inv s ∧ Queue.Fifo 64 s.queue) accepted_le_step
    (fun s a hb hs => ?_) as _ hb ⟨h, hq⟩
  have hb' := (accepted_le_step s a).trans_lt hb
  exact ⟨step_inv a hb' hs.1, (step_refines hs.1 hb' a).fifo hs.2⟩

theorem run_fifo (as : List Act) (h : (run step State.init as).accepted.length < 2 ^ 31) :
    Queue.Fifo 64 (run step State.init as).queue :=
  (run_sound init_inv (Queue.Fifo.empty 64) as h).2

/-- The two threads never touch the data of one slot at the same time. -/
theorem not_races (h : Inv s) (idx : ℤ) : ¬ s.Races idx := by
  rintro ⟨⟨buf, hp⟩, hs⟩
  have hrel := h.window.lo_le
  have hso := h.senderOk
  rw [SenderOk, hs] at hso
  have hf : s.Filling idx buf := by
    have hpo := h.producerOk
    rcases hp with hp | hp <;> rw [ProducerOk, hp] at hpo
    · exact hpo
    · exact hpo.1
  obtain ⟨hi, hlt, -, -⟩ := hf
  have := ringSlot_inj s.released hrel hlt le_rfl (by omega) (hi.symm.trans hso.1)
  omega

theorem rejects_full (h : Inv s) (hb : s.accepted.length < 2 ^ 31) {buf : IqBuffer} {a : Act}
    (hr : s.Rejects buf a) (hne : buf.samples ≠ []) (hm : a = .offer buf → s.gMode ≠ .scanning) :
    s.accepted.length = s.released + 64 := by
  cases a with
  | offer b =>
    obtain ⟨rfl, hp, hi⟩ := hr
    simp [offer, hp, hm rfl, hne] at hi
  | producer =>
    obtain ⟨hp, hi⟩ := hr
    have hok := h.producerOk
    rw [ProducerOk, hp] at hok
    simp only [broadcastAudio, hp, slotIndex_write h hb hp] at hi
    split_ifs at hi with hf
    rw [← hok]
    exact (h.window.flag_hi (by norm_num)).1 hf
  | sender => exact hr.elim
  | setMode mode => exact hr.elim

/-- The steps left until every accepted buffer is in a frame, no further one being accepted. -/
def stepsLeft (s : State) : ℕ :=
  (match s.producer with
    | .copy _ _ => 3
    | .setNumSamples _ _ => 2
    | .setReady _ => 1
    | _ => 0)
  + 4 * (s.accepted.length - s.frames.length)
  + match s.sender with
    | .testReady => 1
    | .copy _ => 0
    | .clearReady _ => 3
    | .incRead => 2

/-- A published slot is found by `dataSenderThread`. -/
theorem dataSenderThread_finds (h : Inv s) (hb : s.accepted.length < 2 ^ 31)
    (hs : s.sender = .testReady) (hlt : s.released < s.published) :
    s.dataSenderThread = { s with sender := .copy (ringSlot 64 s.released) } := by
  have hle := published_le h
  have hidx : slotIndex poolSize s.gRelayRead = ringSlot 64 s.released := by
    rw [h.read, hs]
    exact slotIndex_ticks_of_lt rfl (by simp only [Sender.behind]; omega)
  have hready := (h.window.flag_lo (by norm_num)).2 hlt
  simp only [dataSenderThread, hs, hidx, hready, if_true]

theorem sender_progress (h : Inv s) (hb : s.accepted.length < 2 ^ 31)
    (hpub : s.published = s.accepted.length) (hlt : s.frames.length < s.accepted.length) :
    s.dataSenderThread.accepted = s.accepted ∧ s.dataSenderThread.stepsLeft < s.stepsLeft := by
  have hok := h.senderOk
  unfold SenderOk at hok
  unfold stepsLeft
  split at hok <;> rename_i hs
  · rw [dataSenderThread_finds h hb hs (by omega)]
    simp only [true_and]
    omega
  all_goals simp only [dataSenderThread, hs, List.length_append, List.length_singleton, true_and]
  all_goals omega

theorem producer_progress (h : Inv s) (hpub : s.published ≠ s.accepted.length) :
    s.broadcastAudio.accepted = s.accepted ∧ s.broadcastAudio.stepsLeft < s.stepsLeft := by
  have hok := h.producerOk
  unfold ProducerOk at hok
  unfold stepsLeft
  split at hok <;> rename_i hp <;> simp only [broadcastAudio, hp]
  · exact absurd hok hpub
  · exact absurd hok hpub
  · exact ⟨trivial, by omega⟩
  · exact ⟨trivial, by omega⟩
  · exact ⟨trivial, by omega⟩
  · exact absurd hok.2 hpub

/-- Left to themselves, the threads turn every accepted buffer into a frame. -/
theorem exists_drain (h : Inv s) (hb : s.accepted.length < 2 ^ 31) :
    ∃ as : List Act, (∀ a ∈ as, a = .producer ∨ a = .sender)
      ∧ (run step s as).accepted = s.accepted
      ∧ (run step s as).frames.length = s.accepted.length := by
  have progress : ∀ t : State, Inv t ∧ t.accepted = s.accepted →
      ¬ t.frames.length = s.accepted.length → ∃ a : Act, (a = .producer ∨ a = .sender)
        ∧ (Inv (t.step a) ∧ (t.step a).accepted = s.accepted)
        ∧ (t.step a).stepsLeft < t.stepsLeft := by
    rintro t ⟨ht, hta⟩ hnd
    have htb : t.accepted.length < 2 ^ 31 := hta ▸ hb
    by_cases hpub : t.published = t.accepted.length
    · have hlt : t.frames.length < t.accepted.length := by
        have hso := ht.senderOk
        have := ht.window.lo_le
        rw [← hta] at hnd
        unfold SenderOk at hso
        split at hso <;> omega
      obtain ⟨hacc, hdec⟩ := sender_progress ht htb hpub hlt
      exact ⟨.sender, .inr rfl, ⟨step_inv .sender htb ht, hacc.trans hta⟩, hdec⟩
    · obtain ⟨hacc, hdec⟩ := producer_progress ht hpub
      exact ⟨.producer, .inl rfl, ⟨step_inv .producer htb ht, hacc.trans hta⟩, hdec⟩
  obtain ⟨as, has, ⟨-, hacc⟩, hlen⟩ := exists_run stepsLeft progress s ⟨h, rfl⟩
  exact ⟨as, has, hacc, hlen⟩

/-! A buffer's way through the ring -/

/-- The threads are at the start of their loops, and every accepted buffer is in a frame. -/
structure Quiet (s : State) : Prop where
  inv : s.Inv
  fifo : Queue.Fifo 64 s.queue
  producer : s.producer = .idle
  sender : s.sender = .testReady
  mode : s.gMode ≠ .scanning
  drained : s.frames.length = s.accepted.length

theorem init_quiet : Quiet State.init :=
  ⟨init_inv, Queue.Fifo.empty 64, rfl, rfl, by decide, rfl⟩

/-- A call of `broadcastAudio`. -/
def broadcast (buf : IqBuffer) : List Act := .offer buf :: List.replicate 5 .producer

theorem Quiet.broadcast (h : Quiet s) (buf : IqBuffer) (hne : buf.samples ≠ [])
    (hb : s.accepted.length + 1 < 2 ^ 31) :
    let s₁ := run step s (State.broadcast buf)
    s₁.accepted = s.accepted ++ [buf] ∧ s₁.producer = .idle ∧ s₁.gMode = s.gMode
      ∧ s₁.sender = .testReady ∧ s₁.frames = s.frames
      ∧ ∃ idx, s₁.dataSenderThread = { s₁ with sender := .copy idx } := by
  intro s₁
  have hpub := h.inv.producerOk
  have hrel := h.inv.senderOk
  rw [ProducerOk, h.producer] at hpub
  rw [SenderOk, h.sender] at hrel
  have hoffer : s.offer buf = { s with producer := .testReady buf } := by
    simp only [offer, h.producer, h.mode, hne, or_self, if_false]
  have hidx :=
    slotIndex_write (offer_inv h.inv buf) (by rw [hoffer]; exact (Nat.lt_succ_self _).trans hb)
    (congrArg State.producer hoffer)
  rw [hoffer] at hidx
  -- no slot is in use
  have hfree : (s.gRelayPool (ringSlot 64 s.published)).ready = false :=
    (h.inv.window.flag_hi_false (by norm_num)).2 (by have := h.drained; omega)
  have htake : State.broadcastAudio { s with producer := .testReady buf }
      = { s with
          producer := .copy (ringSlot 64 s.published) buf
          accepted := s.accepted ++ [buf] } := by
    simp only [broadcastAudio, hidx, hfree, Bool.false_eq_true, if_false]
  have hs₁ : s₁ = run step { s with
      producer := .copy (ringSlot 64 s.published) buf
      accepted := s.accepted ++ [buf] } (List.replicate 4 .producer) := by
    rw [← htake, ← hoffer]
    rfl
  have hacc : s₁.accepted = s.accepted ++ [buf] := hs₁ ▸ rfl
  have hb₁ : s₁.accepted.length < 2 ^ 31 := by simpa [hacc] using hb
  have hsender : s₁.sender = .testReady := by rw [hs₁]; exact h.sender
  refine ⟨hacc, hs₁ ▸ rfl, hs₁ ▸ rfl, hsender, hs₁ ▸ rfl, _,
    dataSenderThread_finds (run_sound h.inv h.fifo _ hb₁).1 hb₁ hsender ?_⟩
  rw [hs₁]
  show s.released < s.published + 1
  have := h.drained
  omega

/-- The buffer is handed over, and `dataSenderThread` builds its frame. -/
def pass (buf : IqBuffer) : List Act := broadcast buf ++ List.replicate 4 .sender

theorem Quiet.pass (h : Quiet s) (buf : IqBuffer) (hne : buf.samples ≠ [])
    (hb : s.accepted.length + 1 < 2 ^ 31) :
    let s' := run step s (State.pass buf)
    Quiet s' ∧ s'.accepted = s.accepted ++ [buf] ∧ s'.frames = s.frames ++ [buf.cut] := by
  intro s'
  obtain ⟨hacc, hproducer, hmode, hsender, hframes, idx, hfind⟩ := h.broadcast buf hne hb
  set s₁ := run step s (State.broadcast buf) with hs₁
  have hs' : s' = run step { s₁ with sender := .copy idx } (List.replicate 3 .sender) := by
    rw [← hfind]
    exact run_append step s (State.broadcast buf) (List.replicate 4 .sender)
  have hacc' : s'.accepted = s.accepted ++ [buf] := by rw [hs', ← hacc]; rfl
  have hlen : s'.frames.length = s'.accepted.length := by
    rw [hacc', List.length_append, ← h.drained, ← hframes, hs']
    exact List.length_append
  obtain ⟨hinv, hfifo⟩ := run_sound h.inv h.fifo (State.pass buf) (by
    rw [show (run step s (State.pass buf)).accepted = _ from hacc', List.length_append]
    exact hb)
  refine ⟨⟨hinv, hfifo, hs' ▸ hproducer, hs' ▸ rfl, ?_, hlen⟩, hacc', ?_⟩
  · rw [hs']
    exact hmode.trans_ne h.mode
  · have heq := hfifo.taken_le_put.eq_of_length (by simpa [queue] using hlen)
    have heq₀ := h.fifo.taken_le_put.eq_of_length (by simpa [queue] using h.drained)
    simp only [queue] at heq heq₀
    rw [heq, heq₀, hacc', List.map_append]
    rfl

end State

open State in
/-- In a run with fewer than `2 ^ 31` accepted buffers, the frames built are the accepted buffers,
cut to a slot's size, in order, with at most a ring of them still waiting, and the threads' own
steps build the rest; no slot's data is touched by both threads at once; and a non-empty buffer
offered outside `SCANNING` is given up only while 64 accepted ones are unreleased. -/
theorem relay_ring_lossless (as : List Act) (s : State) (hs : s = run step State.init as)
    (hb : s.accepted.length < 2 ^ 31) :
    (∃ waiting, s.accepted.map IqBuffer.cut = s.frames ++ waiting ∧ waiting.length ≤ 64)
      ∧ (∃ more : List Act, (∀ a ∈ more, a = .producer ∨ a = .sender)
          ∧ (run step s more).frames = s.accepted.map IqBuffer.cut)
      ∧ (∀ idx, ¬ s.Races idx)
      ∧ ∀ buf a, s.Rejects buf a → buf.samples ≠ [] → (a = .offer buf → s.gMode ≠ .scanning) →
          s.accepted.length = s.released + 64 := by
  subst hs
  have hI := State.run_inv as hb
  refine ⟨(run_fifo as hb).split, ?_, not_races hI, fun buf a => rejects_full hI hb⟩
  obtain ⟨more, hmore, hacc, hlen⟩ := exists_drain hI hb
  refine ⟨more, hmore, ?_⟩
  rw [← run_append] at hacc hlen ⊢
  have hpre := (run_fifo (as ++ more) (by rw [hacc]; exact hb)).taken_le_put
  rw [← hacc]
  exact hpre.eq_of_length (by simp only [queue, List.length_map, hlen, hacc])

open State in
theorem relay_ring_lossless_two_buffers :
    let buf : IqBuffer := ⟨[1, 2], rfl, by decide⟩
    let buf' : IqBuffer := ⟨[3, 4, 5, 6], rfl, by decide⟩
    let s := run State.step State.init (pass buf ++ pass buf')
    s.frames = [⟨1, [1, 2]⟩, ⟨2, [3, 4, 5, 6]⟩]
      ∧ ∃ waiting, s.accepted.map IqBuffer.cut = s.frames ++ waiting ∧ waiting.length ≤ 64 := by
  intro buf buf' s
  obtain ⟨hquiet, hacc, hframes⟩ := init_quiet.pass buf (by simp [buf]) (by decide)
  obtain ⟨-, hacc', hframes'⟩ := hquiet.pass buf' (by simp [buf']) (by rw [hacc]; decide)
  rw [← run_append, hacc] at hacc'
  rw [← run_append, hframes] at hframes'
  refine ⟨hframes'.trans (by decide), (relay_ring_lossless _ s rfl ?_).1⟩
  rw [show s.accepted = _ from hacc']
  decide

end Relay

end AetherGuard
