import AetherGuard.Proofs.Control

/-!
# Who configures the relay

A set-up thread leaves the `CONFIGURE` to the other mode when it finds that mode's flag up, and the
flag goes up before the other thread has sent anything. Two commands accepted one after the other
can so leave it to each other. In runs where a second mode is started only once the relay is
configured, or once the recorder has made its choice, somebody always configures it: as long as
`g_live_listen` is up and it is not done, a thread still means to (`ConfInv`).
-/

namespace AetherGuard

namespace Daemon

open Machine Threads

variable {F : Type*}

theorem configured_send_tune (f : F) (ok : Bool) (log : List (Entry F)) :
    configured (if ok then .sent (tuneCmd f) :: log else log) = configured log := by
  cases ok <;> rfl

namespace Control

variable {s : Control F} {a : Act F}

/-- A recording is started while listening live, and listening live while a recorder has yet to
look for it, only when the relay is configured. -/
def ConfiguredFirst (s : Control F) : Act F → Prop
  | .listener _ =>
    match s.listener with
    | .recordStart _ => s.gLiveListen = true → configured s.log = true
    | .liveStart _ => (∃ r ∈ s.recorders, r.pc = .testLive) → configured s.log = true
    | _ => True
  | _ => True

instance (s : Control F) (a : Act F) : Decidable (s.ConfiguredFirst a) := by
  induction a using Act.casesOn with
  | listener _ =>
    dsimp only [ConfiguredFirst]
    induction s.listener using Listener.casesOn <;> dsimp only <;> infer_instance
  | _ => dsimp only [ConfiguredFirst]; infer_instance

/-- What a recorder in this place relies on. -/
def RecorderOk (s : Control F) (pc : RecorderPc) : Prop :=
  match pc with
  | .testLive => s.gLiveListen = true → configured s.log = true
  | .sendConfigure => True
  | _ => configured s.log = true

structure ConfInv (s : Control F) : Prop where
  recorder : ∀ r ∈ s.recorders, r.pc.active = true → s.RecorderOk r.pc
  live : s.gLiveListen = true → configured s.log = true
    ∨ (∃ l ∈ s.lives, l.pc = .testRecording ∨ l.pc = .sendConfigure)
    ∨ ∃ r ∈ s.recorders, r.pc = .sendConfigure

theorem init_confInv (freq : F) : ConfInv (init freq) := ⟨nofun, nofun⟩

theorem RecorderOk.of_configured (h : configured s.log = true) (pc : RecorderPc) :
    s.RecorderOk pc := by
  unfold RecorderOk
  split
  · exact fun _ => h
  · trivial
  · exact h

theorem ConfInv.of_configured (h : configured s.log = true) : ConfInv s :=
  ⟨fun r _ _ => .of_configured h r.pc, fun _ => .inl h⟩

theorem RecorderOk.configured {pc : RecorderPc} (h : s.RecorderOk pc) (hpc : pc.toSend = false) :
    configured s.log = true := by
  cases pc <;> first | exact h | cases hpc

theorem recorder_setRecorder (h : ConfInv s) {i : ℕ} {r : Recorder F} {pc : RecorderPc}
    (hpc : pc.active = true → s.RecorderOk pc) :
    ∀ r' ∈ (s.setRecorder i r pc).recorders, r'.pc.active = true → s.RecorderOk r'.pc := by
  intro r' hr' ha
  rcases List.mem_or_eq_of_mem_set hr' with hr' | rfl
  · exact h.recorder r' hr' ha
  · exact hpc ha

/-- A step of a recorder that does not mean to configure the relay leaves the others to. -/
theorem live_setRecorder (h : ConfInv s) {i : ℕ} {r : Recorder F} (hi : s.recorders[i]? = some r)
    (hr : r.pc ≠ .sendConfigure) (pc : RecorderPc) (hl : s.gLiveListen = true) :
    configured s.log = true ∨ (∃ l ∈ s.lives, l.pc = .testRecording ∨ l.pc = .sendConfigure)
      ∨ ∃ r' ∈ (s.setRecorder i r pc).recorders, r'.pc = .sendConfigure := by
  rcases h.live hl with hc | hv | ⟨r', hmem, hpc⟩
  · exact .inl hc
  · exact .inr (.inl hv)
  · refine .inr (.inr ⟨r', mem_set_of_ne hmem ?_, hpc⟩)
    rw [hi, ne_eq, Option.some.injEq]
    rintro rfl
    exact hr hpc

/-- A recorder has the relay configured, by its own message or by one before it. -/
theorem configured_recorderSend (h : ConfInv s) {i : ℕ} {r : Recorder F} {m : Message F}
    (hi : s.recorders[i]? = some r) (hm : r.message = some m) :
    configured (.sent m :: s.log) = true := by
  have hok := h.recorder r (List.mem_of_getElem? hi) (active_of_message hm).2
  unfold Recorder.message at hm
  split at hm <;> rename_i hpc
  · cases hm
    rfl
  · cases hm
    rw [hpc] at hok
    exact hok
  · cases hm

theorem step_confInv (a : Act F) (hok : s.SendsOk a) (hg : s.ConfiguredFirst a) (hI : Inv s)
    (h : ConfInv s) : ConfInv (s.step a) := by
  have hs := step_spec s a
  generalize s.step a = t at hs
  cases hs with
  | stay => exact h
  | wav w b => exact ⟨h.recorder, h.live⟩
  | move g l ht => exact ⟨h.recorder, h.live⟩
  | tune f ok hl =>
    have hc := configured_send_tune f ok (.accepted f :: s.log)
    refine ⟨fun r hr ha => ?_, fun hv => ?_⟩
    · have hrok := h.recorder r hr ha
      simp only [RecorderOk, sendCtrlCommand, accept, hc] at hrok ⊢
      exact hrok
    · simp only [sendCtrlCommand, accept, hc]
      exact h.live hv
  | startRecord f ok hl =>
    simp only [ConfiguredFirst, hl] at hg
    refine ⟨fun r hr ha => ?_, fun hv => ?_⟩
    · rcases List.mem_append.1 hr with hr | hr
      · exact h.recorder r hr ha
      · rw [List.mem_singleton.1 hr]
        exact hg
    · rcases h.live hv with hc | hlive | ⟨r, hr, hpc⟩
      · exact .inl hc
      · exact .inr (.inl hlive)
      · exact .inr (.inr ⟨r, List.mem_append_left _ hr, hpc⟩)
  | startLive f ok hl =>
    simp only [ConfiguredFirst, hl] at hg
    refine ⟨fun r hr ha => ?_, fun _ => ?_⟩
    · have hrok := h.recorder r hr ha
      unfold RecorderOk at hrok ⊢
      split at hrok <;> rename_i hpc
      · exact fun _ => hg ⟨r, hr, hpc⟩
      · trivial
      · exact hrok
    · exact .inr (.inl ⟨_, List.mem_append_right _ (List.mem_singleton_self _), .inl rfl⟩)
  | stopLive ok hl =>
    refine ⟨fun r hr ha => ?_, fun hv => absurd hv Bool.false_ne_true⟩
    have hrok := h.recorder r hr ha
    unfold RecorderOk at hrok ⊢
    split at hrok
    · exact fun hv => absurd hv Bool.false_ne_true
    · trivial
    · exact hrok
  | setScanning ok hl => exact ⟨h.recorder, h.live⟩
  | sendScan ok hl =>
    have hlok := hI.listenerOk
    simp only [ListenerOk, hl] at hlok
    refine ⟨fun r hr ha => ?_, fun hv => absurd (hlok.2.symm.trans hv) Bool.false_ne_true⟩
    exact absurd ((not_active hI hlok.1 r hr).symm.trans ha) Bool.false_ne_true
  | scanComplete => exact ⟨h.recorder, h.live⟩
  | recorderTest i ok r hi hpc =>
    have hrok := h.recorder r (List.mem_of_getElem? hi) (by rw [hpc]; rfl)
    rw [hpc] at hrok
    refine ⟨recorder_setRecorder h fun _ => ?_, live_setRecorder h hi (by simp [hpc]) _⟩
    split_ifs with hv
    · exact hrok hv
    · trivial
  | recorderSend i ok r m hi hm =>
    obtain rfl := hok.recorder hi hm
    exact .of_configured (configured_recorderSend h hi hm)
  | recorderMove i ok r pc w hi hr hpc ha =>
    refine ⟨recorder_setRecorder h fun hact => ?_, live_setRecorder h hi ?_ _⟩
    · have hrok := h.recorder r (List.mem_of_getElem? hi) (ha.symm.trans hact)
      exact .of_configured (hrok.configured hr) pc
    · rintro hc
      rw [hc] at hr
      cases hr
  | recorderClear i ok r pc hi hr ha hpc =>
    refine ⟨recorder_setRecorder h fun hact => absurd (hpc.symm.trans hact) Bool.false_ne_true,
      live_setRecorder h hi ?_ _⟩
    rintro hc
    rw [hc] at hr
    cases hr
  | liveTest i ok l hi hpc =>
    refine ⟨h.recorder, fun hv => ?_⟩
    rcases h.live hv with hc | ⟨l', hmem, hl'⟩ | hr
    · exact .inl hc
    · by_cases hsame : s.lives[i]? = some l'
      · -- the thread that was to configure the relay looks for a recorder to leave it to
        cases hrec : s.gRecording with
        | false =>
          refine .inr (.inl ⟨{ l with pc := .sendConfigure }, ?_, .inr rfl⟩)
          exact List.mem_set (List.getElem?_eq_some_iff.1 hi).1 _
        | true =>
          obtain ⟨r, hr, ha⟩ := exists_active hI hrec
          have hrok := h.recorder r hr ha
          unfold RecorderOk at hrok
          split at hrok <;> rename_i hrpc
          · exact .inl (hrok hv)
          · exact .inr (.inr ⟨r, hr, hrpc⟩)
          · exact .inl hrok
      · exact .inr (.inl ⟨l', mem_set_of_ne hmem hsame, hl'⟩)
    · exact .inr (.inr hr)
  | liveSend i ok l m hi hm =>
    obtain rfl := hok.live hi hm
    unfold Live.message at hm
    split at hm <;> rename_i hpc
    · cases hm
      exact .of_configured rfl
    · cases hm
      refine ⟨h.recorder, fun hv => ?_⟩
      rcases h.live hv with hc | ⟨l', hmem, hl'⟩ | hr
      · exact .inl hc
      · refine .inr (.inl ⟨l', mem_set_of_ne hmem ?_, hl'⟩)
        show s.lives[i]? ≠ some l'
        rw [hi, ne_eq, Option.some.injEq]
        rintro rfl
        rw [hpc] at hl'
        rcases hl' with hl' | hl' <;> cases hl'
      · exact .inr (.inr hr)
    · cases hm

end Control

open Control in
/-- In a run where every send succeeds, a recording is started while listening live only once the
relay is configured, and listening live while a recorder has yet to look for it likewise, the last
of the `SCAN`s and `CONFIGURE`s sent is a `CONFIGURE` whenever a recorder opens its file, and
whenever `g_live_listen` is up and no set-up thread has its message still to send. -/
theorem configured_of_configured_first (freq : F) (as : List (Act F)) (s : Control F)
    (hs : s = run step (init freq) as)
    (h : Meets step (fun s a => SendsOk s a ∧ ConfiguredFirst s a) (init freq) as) :
    (∀ r ∈ s.recorders, r.pc = .openWav → configured s.log = true)
      ∧ (s.gLiveListen = true → s.SetUpDone → configured s.log = true) := by
  obtain ⟨-, hc⟩ : Control.Inv s ∧ ConfInv s := hs ▸ run_inv_of_meets
    (I := fun s => Control.Inv s ∧ ConfInv s)
    (fun _ a hg hs => ⟨step_inv a hs.1, step_confInv a hg.1 hg.2 hs.1 hs.2⟩) as _ h
    ⟨init_inv freq, init_confInv freq⟩
  refine ⟨fun r hr hpc => ?_, fun hv hdone => ?_⟩
  · have hrok := hc.recorder r hr (by rw [hpc]; rfl)
    rw [hpc] at hrok
    exact hrok
  · rcases hc.live hv with hcf | ⟨l, hl, hpc⟩ | ⟨r, hr, hpc⟩
    · exact hcf
    · have hsend := hdone.2 l hl
      rcases hpc with hpc | hpc <;> rw [hpc] at hsend <;> cases hsend
    · have hsend := hdone.1 r hr
      rw [hpc] at hsend
      cases hsend

/-- A live set-up thread and a recorder, each started before the other has looked. -/
def leftToEachOther : List (Control.Act ℕ) :=
  Control.takes ⟨.liveListen, .value 100⟩ 3 ++ Control.takes ⟨.record, .value 101⟩ 3
    ++ [.live 0 true, .recorder 0 true, .live 0 true, .recorder 0 true]

/-- Each leaves the `CONFIGURE` to the other, and the recorder goes on to its file. -/
theorem relay_left_unconfigured :
    Meets Control.step Control.SendsOk (Control.init 88) leftToEachOther
      ∧ (run Control.step (Control.init 88) leftToEachOther).gLiveListen = true
      ∧ (run Control.step (Control.init 88) leftToEachOther).SetUpDone
      ∧ (∃ r ∈ (run Control.step (Control.init 88) leftToEachOther).recorders, r.pc = .openWav)
      ∧ configured (run Control.step (Control.init 88) leftToEachOther).log = false := by
  decide +kernel

/-- The recording is started once the live set-up thread has sent its `CONFIGURE`. -/
def liveThenRecord : List (Control.Act ℕ) :=
  Control.takes ⟨.liveListen, .value 100⟩ 3 ++ [.live 0 true, .live 0 true]
    ++ Control.takes ⟨.record, .value 101⟩ 3 ++ [.recorder 0 true, .recorder 0 true]

theorem configured_of_configured_first_live_then_record :
    (∃ r ∈ (run Control.step (Control.init 88) liveThenRecord).recorders, r.pc = .openWav)
      ∧ ∀ r ∈ (run Control.step (Control.init 88) liveThenRecord).recorders, r.pc = .openWav →
        configured (run Control.step (Control.init 88) liveThenRecord).log = true :=
  ⟨by decide +kernel,
    (configured_of_configured_first (F := ℕ) 88 liveThenRecord _ rfl (by decide +kernel)).1⟩

end Daemon

end AetherGuard
