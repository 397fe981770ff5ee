import AetherGuard.Proofs.Control

/-!
# Who may retune during a scan

While a scan is on, the listener goes no further than its test of `g_scanning`, and a recorder
cannot have a message to send, since the scan waits for `g_recording`. A live set-up thread can:
`STOP_LIVE` takes `g_live_listen` down without waiting for it, and nothing keeps its `CONFIGURE`
from following the `SCAN`. In runs where no `SCAN` overtakes such a thread, no message reaches the
relay between a `SCAN` and the `scan_complete` that answers it.
-/

namespace AetherGuard

namespace Daemon

open Machine

variable {F : Type*}

/-- The listener has found `g_scanning` down and means to act on it. -/
def Listener.goesOn : Listener F → Bool
  | .idle | .tuneTestScanning _ | .recordTestScanning _ | .liveTestScanning _ _ | .stopTestLive
  | .stopClear | .scanTestScanning => false
  | _ => true

namespace Control

variable {s : Control F} {a : Act F}

/-- A `SCAN` goes out only when no live set-up thread has a message still to send, and a
`scan_complete` only comes in answer to a `SCAN`. -/
def ScanWaits (s : Control F) : Act F → Prop
  | .listener true =>
    match s.listener with
    | .scanSend => ∀ l ∈ s.lives, l.pc.toSend = false
    | _ => True
  | .scanComplete => scanOpen s.log = true
  | _ => True

instance (s : Control F) (a : Act F) : Decidable (s.ScanWaits a) := by
  induction a using Act.casesOn with
  | listener ok =>
    induction ok using Bool.casesOn with
    | false => exact isTrue trivial
    | true =>
      dsimp only [ScanWaits]
      induction s.listener using Listener.casesOn <;> dsimp only <;> infer_instance
  | _ => dsimp only [ScanWaits]; infer_instance

/-- During a scan the mode is on, no thread has a message to send, and the listener is held up. -/
structure ScanInv (s : Control F) : Prop where
  exclusive : ScanExclusive s.log
  quiet : scanOpen s.log = true →
    s.gScanning = true ∧ s.SetUpDone ∧ s.listener.goesOn = false
  sending : s.listener = .scanSend → s.gScanning = true

theorem init_scanInv (freq : F) : ScanInv (init freq) := ⟨trivial, nofun, nofun⟩

theorem ScanInv.of_closed (hex : ScanExclusive s.log) (ho : scanOpen s.log = false)
    (hsend : s.listener = .scanSend → s.gScanning = true) : ScanInv s :=
  ⟨hex, fun h => absurd (ho.symm.trans h) nofun, hsend⟩

theorem ScanInv.closed (h : ScanInv s) (hl : s.listener.goesOn = true ∨ ¬ s.SetUpDone) :
    scanOpen s.log = false := by
  by_contra ho
  rw [Bool.not_eq_false] at ho
  obtain ⟨-, hdone, hblocked⟩ := h.quiet ho
  rcases hl with hl | hl
  · exact absurd (hl.symm.trans hblocked) nofun
  · exact hl hdone

theorem Tested.not_goesOn {l : Listener F} (h : s.Tested l) (hs : s.gScanning = true)
    (hl : s.listener.goesOn = false) : l.goesOn = false := by
  cases l <;> simp_all [Tested, Listener.goesOn]

theorem setUpDone_setRecorder {i : ℕ} {r : Recorder F} {pc : RecorderPc} (h : s.SetUpDone)
    (hpc : pc.toSend = false) : (s.setRecorder i r pc).SetUpDone := by
  refine ⟨fun r' hr' => ?_, h.2⟩
  rcases List.mem_or_eq_of_mem_set hr' with hr' | rfl
  · exact h.1 r' hr'
  · exact hpc

theorem not_setUpDone_of_recorder {i : ℕ} {r : Recorder F} (h : s.recorders[i]? = some r)
    (hr : r.pc.toSend = true) : ¬ s.SetUpDone :=
  fun hd => absurd (hr.symm.trans (hd.1 r (List.mem_of_getElem? h))) nofun

theorem not_setUpDone_of_live {i : ℕ} {l : Live F} (h : s.lives[i]? = some l)
    (hl : l.pc.toSend = true) : ¬ s.SetUpDone :=
  fun hd => absurd (hl.symm.trans (hd.2 l (List.mem_of_getElem? h))) nofun

end Control

theorem scanOpen_send {m : Message F} {f : F} (hm : m.freq = some f) (ok : Bool)
    (log : List (Entry F)) : scanOpen (if ok then .sent m :: log else log) = scanOpen log := by
  cases ok with
  | false => rfl
  | true => cases m <;> first | rfl | cases hm

theorem scanExclusive_send {m : Message F} {log : List (Entry F)} (ok : Bool)
    (h : ScanExclusive log) (ho : scanOpen log = false) :
    ScanExclusive (if ok then .sent m :: log else log) := by
  cases ok with
  | false => exact h
  | true => exact ⟨fun _ => ho, h⟩

namespace Control

variable {s : Control F} {a : Act F}

theorem step_scanInv (a : Act F) (hg : s.ScanWaits a) (hI : Inv s) (h : ScanInv s) :
    ScanInv (s.step a) := by
  have hclosed := h.closed
  obtain ⟨hex, hquiet, hsend⟩ := h
  have hs := step_spec s a
  generalize s.step a = t at hs
  cases hs with
  | stay => exact ⟨hex, hquiet, hsend⟩
  | wav w b => exact ⟨hex, hquiet, hsend⟩
  | move g l ht =>
    refine ⟨hex, fun ho => ?_, fun hl => ?_⟩
    · obtain ⟨hsc, hdone, hbl⟩ := hquiet ho
      exact ⟨hsc, hdone, ht.not_goesOn hsc hbl⟩
    · simp only at hl
      rw [hl] at ht
      exact ht.elim
  | tune f ok h =>
    have ho := hclosed (.inl (by rcases h with h | h <;> rw [h] <;> rfl))
    exact .of_closed (scanExclusive_send ok hex ho) ((scanOpen_send rfl ok _).trans ho)
      (by rintro ⟨⟩)
  | startRecord f ok h => exact .of_closed hex (hclosed (.inl (by rw [h]; rfl))) (by rintro ⟨⟩)
  | startLive f ok h => exact .of_closed hex (hclosed (.inl (by rw [h]; rfl))) (by rintro ⟨⟩)
  | stopLive ok h => exact ⟨hex, fun ho => ⟨(hquiet ho).1, (hquiet ho).2.1, rfl⟩, by rintro ⟨⟩⟩
  | setScanning ok h => exact .of_closed hex (hclosed (.inl (by rw [h]; rfl))) fun _ => rfl
  | sendScan ok h =>
    have ho := hclosed (.inl (by rw [h]; rfl))
    cases ok with
    | false => exact .of_closed hex ho (by rintro ⟨⟩)
    | true =>
      have hl := hI.listenerOk
      simp only [ScanWaits, ListenerOk, h] at hg hl
      have hdone : s.SetUpDone :=
        ⟨fun r hr => RecorderPc.toSend_of_not_active (not_active hI hl.1 r hr), hg⟩
      exact ⟨⟨by rintro ⟨⟩, hex⟩, fun _ => ⟨hsend h, hdone, rfl⟩, by rintro ⟨⟩⟩
  | scanComplete =>
    refine .of_closed hex rfl fun hl => ?_
    have ho := hclosed (.inl (by rw [show s.listener = .scanSend from hl]; rfl))
    exact absurd (ho.symm.trans hg) Bool.false_ne_true
  | recorderTest i ok r h hpc =>
    have ho := hclosed (.inr (not_setUpDone_of_recorder h (by rw [hpc]; rfl)))
    exact .of_closed hex ho hsend
  | recorderSend i ok r m h hm =>
    have ho := hclosed (.inr (not_setUpDone_of_recorder h (active_of_message hm).1))
    exact .of_closed (scanExclusive_send ok hex ho)
      ((scanOpen_send (Recorder.freq_message hm) ok _).trans ho) hsend
  | recorderMove i ok r pc w h hr hpc ha =>
    refine ⟨hex, fun ho => ?_, hsend⟩
    obtain ⟨hsc, hdone, hbl⟩ := hquiet ho
    exact ⟨hsc, setUpDone_setRecorder hdone hpc, hbl⟩
  | recorderClear i ok r pc h hr ha hpc =>
    refine ⟨hex, fun ho => ?_, hsend⟩
    obtain ⟨hsc, hdone, hbl⟩ := hquiet ho
    exact ⟨hsc, setUpDone_setRecorder hdone (RecorderPc.toSend_of_not_active hpc), hbl⟩
  | liveTest i ok l h hpc =>
    have ho := hclosed (.inr (not_setUpDone_of_live h (by rw [hpc]; rfl)))
    exact .of_closed hex ho hsend
  | liveSend i ok l m h hm =>
    have ho := hclosed (.inr (not_setUpDone_of_live h (toSend_of_message hm)))
    exact .of_closed (scanExclusive_send ok hex ho)
      ((scanOpen_send (Live.freq_message hm) ok _).trans ho) hsend

end Control

open Control in
/-- In a run where every `SCAN` goes out with no live set-up thread's message outstanding, nothing
that retunes the relay is sent between a `SCAN` and the `scan_complete` that answers it. -/
theorem scan_exclusive_of_waits (freq : F) (as : List (Act F))
    (h : Meets step ScanWaits (init freq) as) :
    ScanExclusive (run step (init freq) as).log :=
  (run_inv_of_meets (I := fun s => Control.Inv s ∧ ScanInv s)
    (fun _ a hg hs => ⟨step_inv a hs.1, step_scanInv a hg hs.1 hs.2⟩) as _ h
    ⟨init_inv freq, init_scanInv freq⟩).2.exclusive

/-- The live set-up thread of a `LIVE_LISTEN`, stopped, sends its `CONFIGURE` after the `SCAN`. -/
theorem scan_retuned_by_live_thread :
    ¬ ScanExclusive (run Control.step (Control.init 88) (Control.takes ⟨.liveListen, .value 100⟩ 3
      ++ Control.takes ⟨.stopLive, .absent⟩ 2 ++ Control.takes ⟨.scan, .absent⟩ 5
      ++ [.live 0 true, .live 0 true])).log :=
  fun h => absurd (h.1 rfl) nofun

/-- The same commands, the live set-up thread in time, and the scan to its end. -/
def liveStopScan : List (Control.Act ℕ) :=
  Control.takes ⟨.liveListen, .value 100⟩ 3 ++ [.live 0 true, .live 0 true]
    ++ Control.takes ⟨.stopLive, .absent⟩ 2 ++ Control.takes ⟨.scan, .absent⟩ 5 ++ [.scanComplete]

theorem scan_exclusive_of_waits_live_done :
    Meets Control.step Control.ScanWaits (Control.init 88) liveStopScan
      ∧ ScanExclusive (run Control.step (Control.init 88) liveStopScan).log :=
  ⟨by decide +kernel, scan_exclusive_of_waits (F := ℕ) 88 liveStopScan (by decide +kernel)⟩

end Daemon

end AetherGuard
