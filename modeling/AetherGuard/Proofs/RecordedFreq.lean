import AetherGuard.Proofs.WavHandles

/-!
# Which frequency is being recorded

`TUNE` and `LIVE_LISTEN` are let through during a recording, so the tuner can be moved while the
file is being written. Where those accepted meanwhile ask for the recorder's own frequency, and no
thread from before has another one still to send, the last frequency sent is the recorder's from
its own message on until it clears `g_recording`, and so for as long as it writes.
-/

namespace AetherGuard

namespace Daemon

open Machine

variable {F : Type*}

theorem lastFreq_send {m : Message F} {f : F} {log : List (Entry F)} (hm : m.freq = some f)
    (h : lastFreq log = some f) (ok : Bool) :
    lastFreq (if ok then .sent m :: log else log) = some f := by
  cases ok with
  | false => exact h
  | true =>
    show m.freq.or (lastFreq log) = some f
    rw [hm]
    rfl

namespace Control

variable {s : Control F} {a : Act F}

/-- During a recording only its own frequency is asked for; when one is started, no set-up thread
has another frequency to send; and a recorder's message is sent. -/
def Undisturbed (s : Control F) : Act F → Prop
  | .listener _ =>
    match s.listener with
    | .tuneSend f | .liveRetune f | .liveStart f =>
      ∀ r ∈ s.recorders, r.pc.active = true → r.targetFreq = f
    | .recordStart f => ∀ l ∈ s.lives, l.pc.toSend = true → l.targetFreq = f
    | _ => True
  | .recorder i ok => ∀ r ∈ s.recorders[i]?, r.message.isSome → ok = true
  | _ => True

instance [DecidableEq F] (s : Control F) (a : Act F) : Decidable (s.Undisturbed a) := by
  induction a using Act.casesOn with
  | listener _ =>
    dsimp only [Undisturbed]
    induction s.listener using Listener.casesOn <;> dsimp only <;> infer_instance
  | _ => dsimp only [Undisturbed]; infer_instance

structure RecordedInv (s : Control F) : Prop where
  sent : ∀ r ∈ s.recorders, r.pc.active = true → r.pc.toSend = false →
    lastFreq s.log = some r.targetFreq
  live : ∀ r ∈ s.recorders, r.pc.active = true → ∀ l ∈ s.lives, l.pc.toSend = true →
    l.targetFreq = r.targetFreq

theorem init_recordedInv (freq : F) : RecordedInv (init freq) := ⟨nofun, nofun⟩

/-- A recorder that goes on, and if it stays active was so before, has no new frequency. -/
theorem RecordedInv.live_setRecorder (h : RecordedInv s) {i : ℕ} {r : Recorder F}
    {pc : RecorderPc} (hi : s.recorders[i]? = some r)
    (hpc : pc.active = true → r.pc.active = true) :
    ∀ r' ∈ s.recorders.set i { r with pc := pc }, r'.pc.active = true → ∀ l ∈ s.lives,
      l.pc.toSend = true → l.targetFreq = r'.targetFreq := by
  intro r' hr' ha
  rcases List.mem_or_eq_of_mem_set hr' with hr' | rfl
  · exact h.live r' hr' ha
  · exact h.live r (List.mem_of_getElem? hi) (hpc ha)

theorem RecordedInv.live_setLive (h : RecordedInv s) {i : ℕ} {l : Live F} {pc : LivePc}
    (hi : s.lives[i]? = some l) (hpc : pc.toSend = true → l.pc.toSend = true) :
    ∀ r ∈ s.recorders, r.pc.active = true → ∀ l' ∈ s.lives.set i { l with pc := pc },
      l'.pc.toSend = true → l'.targetFreq = r.targetFreq := by
  intro r hr ha l' hl' hsend
  rcases List.mem_or_eq_of_mem_set hl' with hl' | rfl
  · exact h.live r hr ha l' hl' hsend
  · exact h.live r hr ha l (List.mem_of_getElem? hi) (hpc hsend)

theorem step_recordedInv (a : Act F) (hg : s.Undisturbed a) (hI : Inv s) (h : RecordedInv s) :
    RecordedInv (s.step a) := by
  have hs := step_spec s a
  generalize s.step a = t at hs
  cases hs with
  | stay => exact h
  | wav w b => exact ⟨h.sent, h.live⟩
  | move g l ht => exact ⟨h.sent, h.live⟩
  | tune f ok hl =>
    have hf : ∀ r ∈ s.recorders, r.pc.active = true → r.targetFreq = f := by
      rcases hl with hl | hl <;> simpa only [Undisturbed, hl] using hg
    refine ⟨fun r hr ha hsend => ?_, h.live⟩
    have hlast : lastFreq (s.accept f).log = some r.targetFreq := h.sent r hr ha hsend
    exact lastFreq_send (by rw [hf r hr ha]; rfl) hlast ok
  | startRecord f ok hl =>
    have hlis := hI.listenerOk
    simp only [Undisturbed, ListenerOk, hl] at hg hlis
    have hnone := not_active hI hlis.2
    refine ⟨fun r hr ha hsend => ?_, fun r hr ha l hlv hsend => ?_⟩
    · rcases List.mem_append.1 hr with hr | hr
      · exact absurd ((hnone r hr).symm.trans ha) Bool.false_ne_true
      · rw [List.mem_singleton.1 hr] at hsend
        cases hsend
    · rcases List.mem_append.1 hr with hr | hr
      · exact absurd ((hnone r hr).symm.trans ha) Bool.false_ne_true
      · rw [List.mem_singleton.1 hr]
        exact hg l hlv hsend
  | startLive f ok hl =>
    simp only [Undisturbed, hl] at hg
    refine ⟨h.sent, fun r hr ha l hlv hsend => ?_⟩
    rcases List.mem_append.1 hlv with hlv | hlv
    · exact h.live r hr ha l hlv hsend
    · rw [List.mem_singleton.1 hlv]
      exact (hg r hr ha).symm
  | stopLive ok hl => exact ⟨h.sent, h.live⟩
  | setScanning ok hl => exact ⟨h.sent, h.live⟩
  | sendScan ok hl => cases ok <;> exact ⟨h.sent, h.live⟩
  | scanComplete => exact ⟨h.sent, h.live⟩
  | recorderTest i ok r hi hpc =>
    refine ⟨fun r' hr' ha hsend => ?_, h.live_setRecorder hi fun _ => by rw [hpc]; rfl⟩
    rcases List.mem_or_eq_of_mem_set hr' with hr' | rfl
    · exact h.sent r' hr' ha hsend
    · simp only at hsend
      split_ifs at hsend <;> cases hsend
  | recorderSend i ok r m hi hm =>
    obtain ⟨htosend, hactive⟩ := active_of_message hm
    obtain rfl : ok = true := hg r hi (by rw [hm]; rfl)
    refine ⟨fun r' hr' ha hsend => ?_, h.live_setRecorder hi fun _ => hactive⟩
    show m.freq.or (lastFreq s.log) = some r'.targetFreq
    rw [Recorder.freq_message hm]
    rcases List.mem_or_eq_of_mem_set hr' with hr' | rfl
    · -- the one active recorder is the one that sends
      obtain ⟨j, hj⟩ := List.mem_iff_getElem?.1 hr'
      obtain rfl := active_unique hI hi hactive hj ha
      obtain rfl : r = r' := Option.some.inj (hi.symm.trans hj)
      exact absurd (hsend.symm.trans htosend) Bool.false_ne_true
    · rfl
  | recorderMove i ok r pc w hi hr hpc ha =>
    refine ⟨fun r' hr' ha' hsend => ?_, h.live_setRecorder hi fun hp => ha.symm.trans hp⟩
    rcases List.mem_or_eq_of_mem_set hr' with hr' | rfl
    · exact h.sent r' hr' ha' hsend
    · exact h.sent r (List.mem_of_getElem? hi) (ha.symm.trans ha') hr
  | recorderClear i ok r pc hi hr ha hpc =>
    refine ⟨fun r' hr' ha' hsend => ?_, h.live_setRecorder hi fun _ => ha⟩
    rcases List.mem_or_eq_of_mem_set hr' with hr' | rfl
    · exact h.sent r' hr' ha' hsend
    · exact absurd (hpc.symm.trans ha') Bool.false_ne_true
  | liveTest i ok l hi hpc =>
    exact ⟨h.sent, h.live_setLive hi fun _ => by rw [hpc]; rfl⟩
  | liveSend i ok l m hi hm =>
    refine ⟨fun r hr ha hsend => ?_, h.live_setLive hi fun hs => absurd hs Bool.false_ne_true⟩
    have hl := h.live r hr ha l (List.mem_of_getElem? hi) (toSend_of_message hm)
    exact lastFreq_send (hl ▸ Live.freq_message hm) (h.sent r hr ha hsend) ok

/-- A recorder that has opened its file and not yet cleared `g_wav_write_active` has sent its
message and not yet cleared `g_recording`. -/
theorem active_of_writing (h : HandleInv s) {i : ℕ} {f : F} (hw : s.Writing i f) :
    ∃ r ∈ s.recorders, r.targetFreq = f ∧ r.pc.active = true ∧ r.pc.toSend = false := by
  obtain ⟨r, hi, hf, ⟨handle, hop⟩, hpc⟩ := hw
  have hrec := h.recorder i r hi
  refine ⟨r, List.mem_of_getElem? hi, hf, ?_⟩
  unfold RecorderWav at hrec
  split at hrec <;> rename_i hp <;> simp only [hp] at hpc ⊢
  · exact ⟨rfl, rfl⟩
  · exact ⟨rfl, rfl⟩
  · exact absurd (hf ▸ hrec handle hop) hpc
  · exact absurd hop (hrec handle)

end Control

open Control in
/-- In a run where only a recording's own frequency is asked for while it goes on, no set-up thread
has another one to send when it is started, the recorders' messages are sent, and no recorder opens
its file while another has yet to close one, the last frequency sent is the recording's from the
moment its recorder sets `g_wav_write_active` until it clears it. -/
theorem recorded_freq_of_undisturbed (freq : F) (as : List (Act F)) (s : Control F)
    (hs : s = run step (init freq) as)
    (h : Meets step (fun s a => OpensAlone s a ∧ Undisturbed s a) (init freq) as) :
    ∀ i f, s.Writing i f → lastFreq s.log = some f := by
  obtain ⟨-, hH, hR⟩ : Control.Inv s ∧ HandleInv s ∧ RecordedInv s := hs ▸ run_inv_of_meets
    (I := fun s => Control.Inv s ∧ HandleInv s ∧ RecordedInv s)
    (fun _ a hg hs => ⟨step_inv a hs.1, step_handleInv a hg.1 hs.1 hs.2.1,
      step_recordedInv a hg.2 hs.1 hs.2.2⟩) as _ h
    ⟨init_inv freq, init_handleInv freq, init_recordedInv freq⟩
  intro i f hw
  obtain ⟨r, hr, rfl, ha, hsend⟩ := active_of_writing hH hw
  exact hR.sent r hr ha hsend

/-- A recording of 100 up to its open file, and a `TUNE` to 101. -/
def tuneWhileRecording : List (Control.Act ℕ) :=
  Control.takes ⟨.record, .value 100⟩ 3 ++ List.replicate 4 (.recorder 0 true)
    ++ Control.takes ⟨.tune, .value 101⟩ 2

theorem recording_retuned_by_tune :
    (run Control.step (Control.init 88) tuneWhileRecording).Writing 0 100
      ∧ lastFreq (run Control.step (Control.init 88) tuneWhileRecording).log = some 101 :=
  ⟨⟨⟨100, .clearActive⟩, rfl, rfl, ⟨0, List.mem_cons_self⟩, trivial⟩, rfl⟩

/-- The `TUNE` is to the frequency being recorded. -/
def tuneToRecorded : List (Control.Act ℕ) :=
  Control.takes ⟨.record, .value 100⟩ 3 ++ List.replicate 4 (.recorder 0 true)
    ++ Control.takes ⟨.tune, .value 100⟩ 2

theorem recorded_freq_of_undisturbed_same_freq :
    (run Control.step (Control.init 88) tuneToRecorded).Writing 0 100
      ∧ lastFreq (run Control.step (Control.init 88) tuneToRecorded).log = some 100 :=
  have hw : (run Control.step (Control.init 88) tuneToRecorded).Writing 0 100 :=
    ⟨⟨100, .clearActive⟩, rfl, rfl, ⟨0, List.mem_cons_self⟩, trivial⟩
  ⟨hw, recorded_freq_of_undisturbed (F := ℕ) 88 tuneToRecorded _ rfl (by decide +kernel) 0 100 hw⟩

end Daemon

end AetherGuard
