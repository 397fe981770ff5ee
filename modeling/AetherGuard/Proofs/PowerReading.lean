import AetherGuard.PowerReading

/-!
# The readings are fresh

The count lags behind the callbacks that have begun by the one that is running, if any. A count
beyond the callbacks that had begun at the clear is therefore that of a callback which began after
it, and its store is the last or came before the last. One heartbeat of a callback that straddles
the clear can be counted after the count is noted, so two would be enough; the code waits for four.
-/

namespace AetherGuard

namespace Relay

variable {P : Type*}

theorem Reading.Fresh.append {stored : List P} {r : Reading P} (h : r.Fresh stored) (x : P) :
    r.Fresh (stored ++ [x]) := by
  obtain ⟨id, hw, hle, hget⟩ := h
  refine ⟨id, hw, hle, ?_⟩
  rw [List.getElem?_append_left (List.getElem?_eq_some_iff.1 hget).1, hget]

/-- Wrapped or not, a difference of four in the count is one of at least four increments. -/
theorem four_le_of_ticks {j k : ℕ} (hle : k ≤ j) (h : ticks j - ticks k ≥ 4) : 4 ≤ j - k := by
  have hdiff : ticks j - ticks k = ticks (j - k) := by
    rw [ticks_eq, ticks_eq, ticks_eq, Int32.ofNat_sub _ _ hle]
  rw [hdiff, ge_iff_le, Int32.le_iff_toInt_le, ticks_toInt] at h
  by_contra hlt
  rw [Nat.mod_eq_of_lt (by omega), if_pos (by omega)] at h
  have hfour : (4 : Int32).toInt = 4 := rfl
  omega

namespace PowerReading

variable {cleared : P} {s : PowerReading P}

structure Inv (s : PowerReading P) : Prop where
  wraps : s.gHeartbeatCount = ticks s.heartbeats
  count : s.heartbeats + (if s.callback = .idle then 0 else 1) = s.begun
  stores : s.stored.length + (if s.callback = .storePower then 1 else 0) = s.begun
  clear_le : s.begunAtClear ≤ s.begun
  written : ∀ id, s.writer = some id → s.stored[id]? = some s.gFastPower
  current : s.callback = .countHeartbeat → s.begunAtClear < s.begun → s.writer = some (s.begun - 1)
  counted : s.begunAtClear < s.heartbeats → ∃ id, s.writer = some id ∧ s.begunAtClear ≤ id
  noted : ∀ startCount, s.scanner = .waitHeartbeats startCount →
    ∃ k ≤ s.heartbeats, startCount = ticks k ∧ s.begunAtClear ≤ k + 1
  ready : s.scanner = .readPower → s.begunAtClear < s.heartbeats
  fresh : ∀ r ∈ s.readings, r.Fresh s.stored

theorem init_inv (cleared : P) : (init cleared).Inv where
  wraps := rfl
  count := rfl
  stores := rfl
  clear_le := le_rfl
  written _ h := by simp [init] at h
  current h := by simp [init] at h
  counted h := by simp [init] at h
  noted _ h := by simp [init] at h
  ready h := by simp [init] at h
  fresh _ h := by simp [init] at h

theorem begin_inv (h : s.Inv) (isStreaming : Bool) : (s.begin isStreaming).Inv := by
  unfold begin
  split
  · rename_i hidle
    split_ifs with hon
    · have hcount := h.count
      have hstores := h.stores
      simp only [hidle, if_true, reduceCtorEq, if_false, add_zero] at hcount hstores
      exact
        { h with
          count := by simp [hcount]
          stores := by simp [hstores]
          clear_le := h.clear_le.trans (Nat.le_succ _)
          current := fun hc => by simp at hc }
    · exact h
  · exact h

theorem streamACallback_inv (h : s.Inv) (dbFS : P) : (s.streamACallback dbFS).Inv := by
  have hcount := h.count
  have hstores := h.stores
  unfold streamACallback
  split
  · exact h
  · rename_i hpc
    simp only [hpc, reduceCtorEq, if_false, if_true] at hcount hstores
    have hlen : s.stored.length = s.begun - 1 := by omega
    exact
      { h with
        count := by simpa using hcount
        stores := by simpa using hstores
        written := fun id hid => by
          obtain rfl : s.begun - 1 = id := Option.some.inj hid
          rw [← hlen, List.getElem?_concat_length]
        current := fun _ _ => rfl
        counted := fun (hlt : s.begunAtClear < s.heartbeats) =>
          ⟨s.begun - 1, rfl, show s.begunAtClear ≤ s.begun - 1 by omega⟩
        fresh := fun r hr => (h.fresh r hr).append dbFS }
  · rename_i hpc
    simp only [hpc, reduceCtorEq, if_false] at hcount hstores
    exact
      { h with
        wraps := by rw [h.wraps, ticks_succ]
        count := by simpa using hcount
        stores := by simpa using hstores
        current := fun hc => by simp at hc
        counted := fun (hlt : s.begunAtClear < s.heartbeats + 1) =>
          ⟨s.begun - 1, h.current hpc (by omega), show s.begunAtClear ≤ s.begun - 1 by omega⟩
        noted := fun c hs => by
          obtain ⟨k, hk, hc, hle⟩ := h.noted c hs
          exact ⟨k, hk.trans (Nat.le_succ _), hc, hle⟩
        ready := fun hr => (h.ready hr).trans (Nat.lt_succ_self _) }

theorem getValidatedPower_inv (h : s.Inv) (timeout : Bool) :
    (s.getValidatedPower cleared timeout).Inv := by
  have hcount : s.heartbeats ≤ s.begun ∧ s.begun ≤ s.heartbeats + 1 := by
    have := h.count
    split_ifs at this <;> omega
  have hle := h.clear_le
  unfold getValidatedPower
  split
  · exact
      { h with
        clear_le := le_rfl
        written := fun _ hw => by simp at hw
        current := fun _ hlt => absurd hlt (lt_irrefl _)
        counted := fun hlt => absurd hlt (by simp only; omega)
        noted := fun _ hs => by simp at hs
        ready := fun hs => by simp at hs }
  · exact
      { h with
        noted := fun c hs => by
          obtain rfl := ScannerPc.waitHeartbeats.inj hs
          exact ⟨s.heartbeats, le_rfl, h.wraps, by simp only; omega⟩
        ready := fun hs => by simp at hs }
  · rename_i startCount hpc
    obtain ⟨k, hk, hstart, hnoted⟩ := h.noted startCount hpc
    split_ifs with hfour htime
    · rw [h.wraps, hstart] at hfour
      have hfour := four_le_of_ticks hk hfour
      exact
        { h with
          noted := fun _ hs => by simp at hs
          ready := fun _ => by simp only; omega }
    · exact
        { h with
          noted := fun _ hs => by simp at hs
          ready := fun hs => by simp at hs }
    · exact h
  · rename_i hpc
    obtain ⟨id, hwriter, hid⟩ := h.counted (h.ready hpc)
    exact
      { h with
        noted := fun _ hs => by simp at hs
        ready := fun hs => by simp at hs
        fresh := fun r hr => by
          rcases List.mem_append.1 hr with hr | hr
          · exact h.fresh r hr
          · rw [List.mem_singleton.1 hr]
            exact ⟨id, hwriter, hid, h.written id hwriter⟩ }

theorem step_inv (h : s.Inv) : ∀ a, (s.step cleared a).Inv
  | .begin isStreaming => begin_inv h isStreaming
  | .callback dbFS => streamACallback_inv h dbFS
  | .scanner timeout => getValidatedPower_inv h timeout

/-- Every power that `getValidatedPower` returns on success was stored by a callback that began
after the power was cleared. -/
theorem readings_fresh (cleared : P) (as : List (Act P)) :
    ∀ r ∈ (Machine.run (step cleared) (init cleared) as).readings,
      r.Fresh (Machine.run (step cleared) (init cleared) as).stored :=
  (Machine.run_inv (I := Inv) (fun _ a h => step_inv h a) as _ (init_inv cleared)).fresh

/-- Four callbacks of power 5 after the clear, and the scanner reads it. -/
theorem readings_fresh_four_callbacks :
    let s := Machine.run (step 0) (init 0) ([.scanner false, .scanner false] ++
      (List.replicate 4 [.begin true, .callback 5, .callback 5]).flatten ++
        [.scanner false, .scanner false])
    s.readings = [⟨5, some 3, 0⟩] ∧ Reading.Fresh s.stored ⟨5, some 3, 0⟩ := by
  intro s
  have hread : s.readings = [⟨5, some 3, 0⟩] := rfl
  exact ⟨hread, readings_fresh 0 _ _ (hread ▸ List.mem_singleton_self _)⟩

end PowerReading

end Relay

end AetherGuard
