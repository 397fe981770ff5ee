import AetherGuard.PcmPool
import AetherGuard.RelayRing

/-!
# The slot indices of long runs

Each of the six counters is as many increments from zero as its thread has passed items, in runs
of any length (`relay_index`, `iq_index`, `pcm_index`). The index taken from it is in range, one
further than the last modulo the ring's size, exactly while the count is below `2 ^ 31` modulo
`2 ^ 32`, or a multiple of the ring's size.
-/

namespace AetherGuard

open Machine

/-- The counters that address a ring. -/
inductive RingCounter
  | gRelayWrite
  | gRelayRead
  | iqWriteIdx
  | iqReadIdx
  | pcmWriteIdx
  | pcmReadIdx

namespace RingCounter

/-- The `POOL_SIZE` the counter is taken modulo. -/
def poolSize : RingCounter → Int32
  | gRelayWrite | gRelayRead => Relay.poolSize
  | iqWriteIdx | iqReadIdx | pcmWriteIdx | pcmReadIdx => Daemon.poolSize

/-- The index taken from the counter once `n` items have passed it. -/
def index (c : RingCounter) (n : ℕ) : ℤ := slotIndex c.poolSize (ticks n)

theorem poolSize_dvd (c : RingCounter) :
    ∃ N : ℕ, c.poolSize.toInt = N ∧ 0 < N ∧ N ∣ 2 ^ 31 := by
  cases c
  case gRelayWrite | gRelayRead => exact ⟨64, by decide, by norm_num, by norm_num⟩
  all_goals exact ⟨32, by decide, by norm_num, by norm_num⟩

end RingCounter

namespace Relay.State

variable {s : State}

/-- The counters are as many increments from zero as buffers were accepted and released. -/
def Counted (s : State) : Prop :=
  (match s.producer with
    | .idle | .testReady _ => s.gRelayWrite = ticks s.accepted.length
    | _ => s.gRelayWrite + 1 = ticks s.accepted.length)
  ∧ match s.sender with
    | .incRead => s.gRelayRead + 1 = ticks s.released
    | _ => s.gRelayRead = ticks s.released

theorem step_counted (a : Act) (h : Counted s) : Counted (s.step a) := by
  obtain ⟨hw, hr⟩ := h
  cases a with
  | offer buf =>
    simp only [step, offer]
    split <;> rename_i hp
    · simp only [hp] at hw
      split_ifs
      · exact ⟨by simpa only [hp] using hw, hr⟩
      · exact ⟨hw, hr⟩
    · exact ⟨hw, hr⟩
  | producer =>
    simp only [step, broadcastAudio]
    split <;> rename_i hp
    case h_2 =>
      simp only [hp] at hw
      split_ifs
      · exact ⟨hw, hr⟩
      · refine ⟨?_, hr⟩
        simp only [List.length_append, List.length_singleton, ticks_succ, hw]
    case h_1 => exact ⟨hw, hr⟩
    all_goals
      simp only [hp] at hw
      exact ⟨hw, hr⟩
  | sender =>
    simp only [step, dataSenderThread]
    split <;> rename_i hs <;> simp only [hs] at hr
    · split_ifs
      · exact ⟨hw, hr⟩
      · exact ⟨hw, by simpa only [hs] using hr⟩
    · exact ⟨hw, hr⟩
    · refine ⟨hw, ?_⟩
      simp only [ticks_succ, hr]
    · exact ⟨hw, hr⟩
  | setMode mode => exact ⟨hw, hr⟩

/-- In any run, the indices the threads are about to test are those of the counts. -/
theorem relay_index (as : List Act) (s : State) (hs : s = run step State.init as) :
    (∀ buf, s.producer = .testReady buf →
        slotIndex Relay.poolSize s.gRelayWrite = RingCounter.gRelayWrite.index s.accepted.length)
      ∧ (s.sender = .testReady →
        slotIndex Relay.poolSize s.gRelayRead = RingCounter.gRelayRead.index s.released) := by
  obtain ⟨hw, hr⟩ : Counted s := hs ▸ Machine.run_inv (fun _ a => step_counted a) as _ ⟨rfl, rfl⟩
  refine ⟨fun buf hp => ?_, fun hsd => ?_⟩
  · rw [hp] at hw
    exact congrArg _ hw
  · rw [hsd] at hr
    exact congrArg _ hr

end Relay.State

namespace Daemon.Pool

variable {α : Type*} {s : Pool α}

def Counted (s : Pool α) : Prop :=
  (match s.feeder with
    | .idle | .testInUse _ | .raiseGap => s.iqWriteIdx = ticks s.accepted.length
    | _ => s.iqWriteIdx + 1 = ticks s.accepted.length)
  ∧ match s.demod with
    | .incRead => s.iqReadIdx + 1 = ticks s.freed
    | _ => s.iqReadIdx = ticks s.freed

theorem step_counted (a : Act α) (h : Counted s) : Counted (s.step a) := by
  obtain ⟨hw, hr⟩ := h
  cases a with
  | offer chunk =>
    simp only [step, offer]
    split <;> rename_i hf
    · simp only [hf] at hw
      exact ⟨hw, hr⟩
    · exact ⟨hw, hr⟩
  | raiseGap => exact ⟨hw, hr⟩
  | feeder =>
    simp only [step, feedIQToPool]
    split <;> rename_i hf
    case h_2 =>
      simp only [hf] at hw
      split_ifs
      · exact ⟨hw, hr⟩
      · refine ⟨?_, hr⟩
        simp only [List.length_append, List.length_singleton, ticks_succ, hw]
    case h_1 => exact ⟨hw, hr⟩
    all_goals
      simp only [hf] at hw
      exact ⟨hw, hr⟩
  | demod =>
    simp only [step, demodThread]
    split <;> rename_i hs <;> simp only [hs] at hr
    case h_2 | h_4 => split_ifs <;> exact ⟨hw, hr⟩
    case h_7 =>
      refine ⟨hw, ?_⟩
      simp only [ticks_succ, hr]
    all_goals exact ⟨hw, hr⟩

theorem iq_index (zero : α) (as : List (Act α)) (s : Pool α) (hs : s = run step (init zero) as) :
    (∀ chunk, s.feeder = .testInUse chunk →
        slotIndex poolSize s.iqWriteIdx = RingCounter.iqWriteIdx.index s.accepted.length)
      ∧ (s.demod = .testReady →
        slotIndex poolSize s.iqReadIdx = RingCounter.iqReadIdx.index s.freed) := by
  obtain ⟨hw, hr⟩ : Counted s := hs ▸ Machine.run_inv (fun _ a => step_counted a) as _ ⟨rfl, rfl⟩
  refine ⟨fun chunk hf => ?_, fun hd => ?_⟩
  · rw [hf] at hw
    exact congrArg _ hw
  · rw [hd] at hr
    exact congrArg _ hr

end Daemon.Pool

namespace Daemon.PcmPool

variable {α : Type*} {s : PcmPool α}

def Counted (s : PcmPool α) : Prop :=
  (match s.writer with
    | .incWrite => s.pcmWriteIdx + 1 = ticks s.published.length
    | _ => s.pcmWriteIdx = ticks s.published.length)
  ∧ match s.output with
    | .incRead => s.pcmReadIdx + 1 = ticks s.freed
    | _ => s.pcmReadIdx = ticks s.freed

theorem step_counted (a : Act α) (h : Counted s) : Counted (s.step a) := by
  obtain ⟨hw, hr⟩ := h
  cases a with
  | startChunk =>
    simp only [step, startChunk]
    split <;> rename_i hp
    · simp only [hp] at hw
      split_ifs
      · exact ⟨by simpa only [hp] using hw, hr⟩
      · exact ⟨hw, hr⟩
    · exact ⟨hw, hr⟩
  | sample x =>
    simp only [step, sample]
    split <;> rename_i hp
    · simp only [hp] at hw
      split_ifs
      · exact ⟨hw, hr⟩
      · exact ⟨by simpa only [putSample, hp] using hw, hr⟩
      · exact ⟨hw, hr⟩
    · exact ⟨hw, hr⟩
  | demod =>
    simp only [step, demodThread]
    split <;> rename_i hp
    case h_1 => exact ⟨hw, hr⟩
    all_goals simp only [hp] at hw
    case h_2 | h_7 => split_ifs <;> exact ⟨hw, hr⟩
    case h_5 =>
      refine ⟨?_, hr⟩
      simp only [List.length_append, List.length_singleton, ticks_succ, hw]
    all_goals exact ⟨hw, hr⟩
  | output =>
    simp only [step, outputThread]
    split <;> rename_i ho <;> simp only [ho] at hr
    case h_1 =>
      split_ifs
      · exact ⟨hw, hr⟩
      · exact ⟨hw, by simpa only [ho] using hr⟩
    case h_4 =>
      refine ⟨hw, ?_⟩
      simp only [ticks_succ, hr]
    all_goals exact ⟨hw, hr⟩

theorem pcm_index (zero : α) (as : List (Act α)) (s : PcmPool α)
    (hs : s = run step (init zero) as) :
    (s.writer = .testInUse ∨ s.writer = .testNext →
        slotIndex poolSize s.pcmWriteIdx = RingCounter.pcmWriteIdx.index s.published.length)
      ∧ (s.output = .testReady →
        slotIndex poolSize s.pcmReadIdx = RingCounter.pcmReadIdx.index s.freed) := by
  obtain ⟨hw, hr⟩ : Counted s := hs ▸ Machine.run_inv (fun _ a => step_counted a) as _ ⟨rfl, rfl⟩
  refine ⟨fun hp => ?_, fun ho => ?_⟩
  · rcases hp with hp | hp
    · rw [hp] at hw
      exact congrArg _ hw
    · rw [hp] at hw
      exact congrArg _ hw
  · rw [ho] at hr
    exact congrArg _ hr

end Daemon.PcmPool

/-- The index after `n` items is in range, and the next one consecutive to it, exactly while the
counter has not wrapped into the negative numbers, or where it is a multiple of the ring's size. -/
theorem slot_index_in_range_iff (c : RingCounter) (n : ℕ) :
    (0 ≤ c.index n ∧ c.index n < c.poolSize.toInt
        ∧ c.index (n + 1) ≡ c.index n + 1 [ZMOD c.poolSize.toInt])
      ↔ n % 2 ^ 32 < 2 ^ 31 ∨ c.poolSize.toInt ∣ n := by
  obtain ⟨N, hN, hpos, hd⟩ := c.poolSize_dvd
  unfold RingCounter.index
  rw [hN, Int.natCast_dvd_natCast, ← slotIndex_nonneg_iff hN hd]
  exact ⟨fun h => h.1, fun h => ⟨h, slotIndex_lt hN hpos n, slotIndex_succ_modEq hN hd n⟩⟩

/-- Once `2 ^ 31 + 1` items have passed, the next index is before the pool. -/
theorem slot_index_after_wrap :
    RingCounter.gRelayWrite.index (2 ^ 31 + 1) = -63
      ∧ RingCounter.iqWriteIdx.index (2 ^ 31 + 1) = -31 := by
  unfold RingCounter.index
  rw [ticks_eq]
  decide

end AetherGuard
