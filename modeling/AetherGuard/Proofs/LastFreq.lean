import AetherGuard.Proofs.Control

/-!
# Which frequency the relay ends up on

A command that starts a thread leaves the message to it, and a later command that sends at once
overtakes the thread, whose message then undoes the later command. In runs where every thread with
a message still to send carries the frequency of each command accepted meanwhile, the last message
sent carries the frequency of the last command accepted.
-/

namespace AetherGuard

namespace Daemon

open Machine Threads

variable {F : Type*}

namespace Control

variable {s : Control F} {a : Act F}

/-- Every message still to be sent by a thread carries `f`. -/
def PendingAt (s : Control F) (f : F) : Prop :=
  (∀ r ∈ s.recorders, r.pc.toSend = true → r.targetFreq = f)
    ∧ ∀ l ∈ s.lives, l.pc.toSend = true → l.targetFreq = f

/-- A command is accepted only with its own frequency among the messages still to be sent. -/
def AcceptsAgreed (s : Control F) : Act F → Prop
  | .listener _ =>
    match s.listener with
    | .tuneSend f | .liveRetune f | .recordStart f | .liveStart f => s.PendingAt f
    | _ => True
  | _ => True

instance [DecidableEq F] (s : Control F) (a : Act F) : Decidable (s.AcceptsAgreed a) := by
  induction a using Act.casesOn with
  | listener _ =>
    dsimp only [AcceptsAgreed, PendingAt]
    induction s.listener using Listener.casesOn <;> dsimp only <;> infer_instance
  | _ => dsimp only [AcceptsAgreed]; infer_instance

structure FreqInv (s : Control F) : Prop where
  recorder : ∀ r ∈ s.recorders, r.pc.toSend = true → lastAccepted s.log = some r.targetFreq
  live : ∀ l ∈ s.lives, l.pc.toSend = true → lastAccepted s.log = some l.targetFreq
  sent : s.SetUpDone → lastFreq s.log = lastAccepted s.log

theorem init_freqInv (freq : F) : FreqInv (init freq) := ⟨nofun, nofun, fun _ => rfl⟩

theorem setUpDone_of_setRecorder {i : ℕ} {r : Recorder F} {pc : RecorderPc}
    (hi : s.recorders[i]? = some r) (hr : r.pc.toSend = false)
    (h : (s.setRecorder i r pc).SetUpDone) : s.SetUpDone := by
  refine ⟨fun r' hr' => ?_, h.2⟩
  by_cases hsame : s.recorders[i]? = some r'
  · rw [hi, Option.some.injEq] at hsame
    rw [← hsame]
    exact hr
  · exact h.1 r' (mem_set_of_ne hr' hsame)

theorem recorder_toSend_setRecorder (h : FreqInv s) {i : ℕ} {r : Recorder F} {pc : RecorderPc}
    (hi : s.recorders[i]? = some r) (hpc : pc.toSend = true → r.pc.toSend = true) :
    ∀ r' ∈ s.recorders.set i { r with pc := pc }, r'.pc.toSend = true →
      lastAccepted s.log = some r'.targetFreq := by
  intro r' hr' hsend
  rcases List.mem_or_eq_of_mem_set hr' with hr' | rfl
  · exact h.recorder r' hr' hsend
  · exact h.recorder r (List.mem_of_getElem? hi) (hpc hsend)

theorem live_toSend_setLive (h : FreqInv s) {i : ℕ} {l : Live F} {pc : LivePc}
    (hi : s.lives[i]? = some l) (hpc : pc.toSend = true → l.pc.toSend = true) :
    ∀ l' ∈ s.lives.set i { l with pc := pc }, l'.pc.toSend = true →
      lastAccepted s.log = some l'.targetFreq := by
  intro l' hl' hsend
  rcases List.mem_or_eq_of_mem_set hl' with hl' | rfl
  · exact h.live l' hl' hsend
  · exact h.live l (List.mem_of_getElem? hi) (hpc hsend)

theorem step_freqInv (a : Act F) (hok : s.SendsOk a) (hg : s.AcceptsAgreed a)
    (h : FreqInv s) : FreqInv (s.step a) := by
  have hs := step_spec s a
  generalize s.step a = t at hs
  cases hs with
  | stay => exact h
  | wav w b => exact ⟨h.recorder, h.live, h.sent⟩
  | move g l ht => exact ⟨h.recorder, h.live, h.sent⟩
  | tune f ok hl =>
    have hpend : s.PendingAt f := by
      rcases hl with hl | hl <;> simpa only [AcceptsAgreed, hl] using hg
    have htrue : ok = true := by
      rcases hl with hl | hl <;> simpa only [SendsOk, hl] using hok
    subst htrue
    refine ⟨fun r hr hsend => ?_, fun l hl hsend => ?_, fun _ => rfl⟩
    · rw [hpend.1 r hr hsend]
      rfl
    · rw [hpend.2 l hl hsend]
      rfl
  | startRecord f ok hl =>
    simp only [AcceptsAgreed, hl] at hg
    refine ⟨fun r hr hsend => ?_, fun l hl hsend => ?_, fun hdone => ?_⟩
    · rcases List.mem_append.1 hr with hr | hr
      · rw [hg.1 r hr hsend]
        rfl
      · rw [List.mem_singleton.1 hr]
        rfl
    · rw [hg.2 l hl hsend]
      rfl
    · have := hdone.1 _ (List.mem_append_right _ (List.mem_singleton_self _))
      cases this
  | startLive f ok hl =>
    simp only [AcceptsAgreed, hl] at hg
    refine ⟨fun r hr hsend => ?_, fun l hl hsend => ?_, fun hdone => ?_⟩
    · rw [hg.1 r hr hsend]
      rfl
    · rcases List.mem_append.1 hl with hl | hl
      · rw [hg.2 l hl hsend]
        rfl
      · rw [List.mem_singleton.1 hl]
        rfl
    · have := hdone.2 _ (List.mem_append_right _ (List.mem_singleton_self _))
      cases this
  | stopLive ok hl => exact ⟨h.recorder, h.live, h.sent⟩
  | setScanning ok hl => exact ⟨h.recorder, h.live, h.sent⟩
  | sendScan ok hl => cases ok <;> exact ⟨h.recorder, h.live, h.sent⟩
  | scanComplete => exact ⟨h.recorder, h.live, h.sent⟩
  | recorderTest i ok r hi hpc =>
    refine ⟨recorder_toSend_setRecorder h hi fun _ => by rw [hpc]; rfl, h.live, fun hdone => ?_⟩
    have := hdone.1 _ (List.mem_set (List.getElem?_eq_some_iff.1 hi).1 _)
    split_ifs at this <;> cases this
  | recorderSend i ok r m hi hm =>
    obtain rfl := hok.recorder hi hm
    have hacc := h.recorder r (List.mem_of_getElem? hi) (active_of_message hm).1
    refine ⟨recorder_toSend_setRecorder h hi fun hs => absurd hs Bool.false_ne_true, h.live,
      fun _ => ?_⟩
    show m.freq.or (lastFreq s.log) = lastAccepted s.log
    rw [hacc, Recorder.freq_message hm]
    rfl
  | recorderMove i ok r pc w hi hr hpc ha =>
    exact ⟨recorder_toSend_setRecorder h hi fun hs => absurd (hpc.symm.trans hs) Bool.false_ne_true,
      h.live, fun hdone => h.sent (setUpDone_of_setRecorder hi hr hdone)⟩
  | recorderClear i ok r pc hi hr ha hpc =>
    have hsend := RecorderPc.toSend_of_not_active hpc
    exact ⟨recorder_toSend_setRecorder h hi
      fun hs => absurd (hsend.symm.trans hs) Bool.false_ne_true, h.live,
      fun hdone => h.sent (setUpDone_of_setRecorder hi hr hdone)⟩
  | liveTest i ok l hi hpc =>
    refine ⟨h.recorder, live_toSend_setLive h hi fun _ => by rw [hpc]; rfl, fun hdone => ?_⟩
    have := hdone.2 _ (List.mem_set (List.getElem?_eq_some_iff.1 hi).1 _)
    split_ifs at this <;> cases this
  | liveSend i ok l m hi hm =>
    obtain rfl := hok.live hi hm
    have hacc := h.live l (List.mem_of_getElem? hi) (toSend_of_message hm)
    refine ⟨h.recorder, live_toSend_setLive h hi fun hs => absurd hs Bool.false_ne_true,
      fun _ => ?_⟩
    show m.freq.or (lastFreq s.log) = lastAccepted s.log
    rw [hacc, Live.freq_message hm]
    rfl

end Control

open Control in
/-- In a run where every send succeeds and a command is accepted only with its own frequency among
the messages still to be sent, once no message is outstanding the last frequency sent is that of
the last command accepted. -/
theorem last_freq_of_agreed (freq : F) (as : List (Act F)) (s : Control F)
    (hs : s = run step (init freq) as)
    (h : Meets step (fun s a => SendsOk s a ∧ AcceptsAgreed s a) (init freq) as) :
    s.SetUpDone → lastFreq s.log = lastAccepted s.log :=
  hs ▸ (run_inv_of_meets (I := FreqInv) (fun _ a hg => step_freqInv a hg.1 hg.2) as _ h
    (init_freqInv freq)).sent

/-- A `TUNE` to 101 overtakes the thread of a `LIVE_LISTEN` on 100. -/
def tuneOvertakes : List (Control.Act ℕ) :=
  Control.takes ⟨.liveListen, .value 100⟩ 3 ++ Control.takes ⟨.tune, .value 101⟩ 2
    ++ [.live 0 true, .live 0 true]

theorem last_freq_undone_by_live_thread :
    Meets Control.step Control.SendsOk (Control.init 88) tuneOvertakes
      ∧ (run Control.step (Control.init 88) tuneOvertakes).SetUpDone
      ∧ lastFreq (run Control.step (Control.init 88) tuneOvertakes).log = some 100
      ∧ lastAccepted (run Control.step (Control.init 88) tuneOvertakes).log = some 101 := by
  decide +kernel

/-- The same commands, the thread in time. -/
def tuneWaits : List (Control.Act ℕ) :=
  Control.takes ⟨.liveListen, .value 100⟩ 3 ++ [.live 0 true, .live 0 true]
    ++ Control.takes ⟨.tune, .value 101⟩ 2

theorem last_freq_of_agreed_tune_waits :
    (run Control.step (Control.init 88) tuneWaits).SetUpDone
      ∧ lastFreq (run Control.step (Control.init 88) tuneWaits).log
        = lastAccepted (run Control.step (Control.init 88) tuneWaits).log :=
  ⟨by decide +kernel,
    last_freq_of_agreed (F := ℕ) 88 tuneWaits _ rfl (by decide +kernel) (by decide +kernel)⟩

end Daemon

end AetherGuard
