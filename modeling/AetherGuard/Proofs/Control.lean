import AetherGuard.Control
import AetherGuard.Lib.Threads

/-!
# The daemon's modes

`Step` says once what an action can do to the flags, the threads and the log, so that an invariant
is proved by its few cases and not program point by program point. The scan mode excludes the two
others because the listener alone sets the flags, and tests the ones it must not meet before it
does; `g_recording` is up for as long as there is a recorder that has yet to clear it.
-/

namespace AetherGuard

namespace Daemon

open Machine Threads

variable {F : Type*}

theorem RecorderPc.toSend_of_not_active {pc : RecorderPc} (h : pc.active = false) :
    pc.toSend = false := by
  cases pc <;> first | rfl | cases h

/-- The message a recorder sends next. -/
def Recorder.message (r : Recorder F) : Option (Message F) :=
  match r.pc with
  | .sendConfigure => some (hwCmd r.targetFreq)
  | .sendTune => some (tuneCmd r.targetFreq)
  | _ => none

/-- The message a live set-up thread sends next. -/
def Live.message (l : Live F) : Option (Message F) :=
  match l.pc with
  | .sendConfigure => some (hwCmd l.targetFreq)
  | .sendTune => some (tuneCmd l.targetFreq)
  | _ => none

theorem Recorder.freq_message {r : Recorder F} {m : Message F} (h : r.message = some m) :
    m.freq = some r.targetFreq := by
  unfold Recorder.message at h
  split at h <;> first | cases h; rfl | cases h

theorem Live.freq_message {l : Live F} {m : Message F} (h : l.message = some m) :
    m.freq = some l.targetFreq := by
  unfold Live.message at h
  split at h <;> first | cases h; rfl | cases h

namespace Control

variable {s t : Control F} {a : Act F}

/-- The test that lets the listener on to `l` has just passed. -/
def Tested (s : Control F) : Listener F → Prop
  | .tuneSend _ | .recordTestRecording _ | .liveTestLive _ | .scanTestRecording =>
    s.gScanning = false
  | .recordStart f => s.listener = .recordTestRecording f ∧ s.gRecording = false
  | .liveRetune f => s.listener = .liveTestLive f ∧ s.gLiveListen = true
  | .liveStart f => s.listener = .liveTestLive f ∧ s.gLiveListen = false
  | .scanTestLive => s.listener = .scanTestRecording ∧ s.gRecording = false
  | .scanSet => s.listener = .scanTestLive ∧ s.gLiveListen = false
  | .scanSend => False
  | _ => True

/-- What an action does, the program points that matter to no flag or message left out. -/
inductive Step (s : Control F) : Act F → Control F → Prop
  | stay {a : Act F} : Step s a s
  | wav {a : Act F} (w : Wav F) (b : Bool) : Step s a { s with wav := w, writingWav := b }
  | move {a : Act F} (g : F) (l : Listener F) (h : s.Tested l) :
    Step s a { s with gCurrentFreq := g, listener := l }
  | tune (f : F) (ok : Bool) (h : s.listener = .tuneSend f ∨ s.listener = .liveRetune f) :
    Step s (.listener ok) { (s.accept f).sendCtrlCommand (tuneCmd f) ok with listener := .idle }
  | startRecord (f : F) (ok : Bool) (h : s.listener = .recordStart f) :
    Step s (.listener ok) { s.accept f with
      gRecording := true
      recorders := s.recorders ++ [⟨f, .testLive⟩]
      listener := .idle }
  | startLive (f : F) (ok : Bool) (h : s.listener = .liveStart f) :
    Step s (.listener ok) { s.accept f with
      gLiveListen := true
      lives := s.lives ++ [⟨f, .testRecording⟩]
      listener := .idle }
  | stopLive (ok : Bool) (h : s.listener = .stopClear) :
    Step s (.listener ok) { s with gLiveListen := false, listener := .idle }
  | setScanning (ok : Bool) (h : s.listener = .scanSet) :
    Step s (.listener ok) { s with gScanning := true, listener := .scanSend }
  | sendScan (ok : Bool) (h : s.listener = .scanSend) :
    Step s (.listener ok) { s.sendCtrlCommand .scan ok with listener := .idle }
  | scanComplete : Step s .scanComplete s.scanComplete
  | recorderTest (i : ℕ) (ok : Bool) (r : Recorder F) (h : s.recorders[i]? = some r)
    (hpc : r.pc = .testLive) :
    Step s (.recorder i ok)
      (s.setRecorder i r (if s.gLiveListen then .sendTune else .sendConfigure))
  | recorderSend (i : ℕ) (ok : Bool) (r : Recorder F) (m : Message F)
    (h : s.recorders[i]? = some r) (hm : r.message = some m) :
    Step s (.recorder i ok) ((s.sendCtrlCommand m ok).setRecorder i r .openWav)
  | recorderMove (i : ℕ) (ok : Bool) (r : Recorder F) (pc : RecorderPc) (w : Wav F)
    (h : s.recorders[i]? = some r) (hr : r.pc.toSend = false) (hpc : pc.toSend = false)
    (ha : pc.active = r.pc.active) :
    Step s (.recorder i ok) { s.setRecorder i r pc with wav := w }
  | recorderClear (i : ℕ) (ok : Bool) (r : Recorder F) (pc : RecorderPc)
    (h : s.recorders[i]? = some r) (hr : r.pc.toSend = false) (ha : r.pc.active = true)
    (hpc : pc.active = false) :
    Step s (.recorder i ok) { s.setRecorder i r pc with gRecording := false }
  | liveTest (i : ℕ) (ok : Bool) (l : Live F) (h : s.lives[i]? = some l)
    (hpc : l.pc = .testRecording) :
    Step s (.live i ok) (s.setLive i l (if s.gRecording then .sendTune else .sendConfigure))
  | liveSend (i : ℕ) (ok : Bool) (l : Live F) (m : Message F) (h : s.lives[i]? = some l)
    (hm : l.message = some m) :
    Step s (.live i ok) ((s.sendCtrlCommand m ok).setLive i l .done)

theorem receive_spec (s : Control F) (c : Command F) (a : Act F) : Step s a (s.receive c) := by
  simp only [receive]
  split
  · refine .move _ _ ?_
    split <;> trivial
  · exact .stay

theorem commandListener_spec (s : Control F) (ok : Bool) :
    Step s (.listener ok) (s.commandListener ok) := by
  unfold commandListener
  split <;> rename_i hl
  case h_1 => exact .stay
  case h_3 f | h_9 f => exact .tune f ok (by simp [hl])
  case h_6 f => exact .startRecord f ok hl
  case h_10 f => exact .startLive f ok hl
  case h_12 => exact .stopLive ok hl
  case h_16 => exact .setScanning ok hl
  case h_17 => exact .sendScan ok hl
  all_goals
    refine .move s.gCurrentFreq _ ?_
    split_ifs with h <;> simp_all [Tested]

theorem recorderThread_spec (s : Control F) (i : ℕ) (ok : Bool) :
    Step s (.recorder i ok) (s.recorderThread i ok) := by
  unfold recorderThread
  split
  · exact .stay
  · rename_i r h
    split <;> rename_i hpc
    · exact .recorderTest i ok r h hpc
    · exact .recorderSend i ok r _ h (by simp [Recorder.message, hpc])
    · exact .recorderSend i ok r _ h (by simp [Recorder.message, hpc])
    · exact .recorderMove i ok r _ _ h (by rw [hpc]; rfl) rfl (by rw [hpc]; rfl)
    · refine .recorderMove i ok r _ s.wav h (by rw [hpc]; rfl) ?_ ?_
      · split_ifs <;> rfl
      · rw [hpc]
        split_ifs <;> rfl
    · exact .recorderClear i ok r _ h (by rw [hpc]; rfl) (by rw [hpc]; rfl) rfl
    · exact .recorderMove i ok r _ _ h (by rw [hpc]; rfl) rfl (by rw [hpc]; rfl)
    · exact .recorderClear i ok r _ h (by rw [hpc]; rfl) (by rw [hpc]; rfl) rfl
    · exact .recorderMove i ok r _ _ h (by rw [hpc]; rfl) rfl (by rw [hpc]; rfl)
    · exact .recorderMove i ok r _ _ h (by rw [hpc]; rfl) rfl (by rw [hpc]; rfl)
    · exact .stay

theorem liveThread_spec (s : Control F) (i : ℕ) (ok : Bool) :
    Step s (.live i ok) (s.liveThread i ok) := by
  unfold liveThread
  split
  · exact .stay
  · rename_i l h
    split <;> rename_i hpc
    · exact .liveTest i ok l h hpc
    · exact .liveSend i ok l _ h (by simp [Live.message, hpc])
    · exact .liveSend i ok l _ h (by simp [Live.message, hpc])
    · exact .stay

theorem step_spec (s : Control F) (a : Act F) : Step s a (s.step a) := by
  cases a with
  | command c => exact receive_spec s c _
  | listener ok => exact commandListener_spec s ok
  | recorder i ok => exact recorderThread_spec s i ok
  | live i ok => exact liveThread_spec s i ok
  | scanComplete => exact .scanComplete
  | output =>
    simp only [step, outputThread]
    split_ifs
    · exact .wav _ _
    · exact .wav s.wav _

theorem recorders_commandListener (s : Control F) (ok : Bool) :
    (s.commandListener ok).wav = s.wav ∧ ((s.commandListener ok).recorders = s.recorders
      ∨ ∃ f, (s.commandListener ok).recorders = s.recorders ++ [⟨f, .testLive⟩]) := by
  unfold commandListener
  split
  case h_6 f _ => exact ⟨rfl, .inr ⟨f, rfl⟩⟩
  all_goals exact ⟨rfl, .inl rfl⟩

/-! The other threads leave the listener and the modes that only it raises alone. -/

theorem recorderThread_eq (s : Control F) (i : ℕ) (ok : Bool) : ∃ gRecording recorders wav log,
    s.recorderThread i ok = { s with
      gRecording := gRecording
      recorders := recorders
      wav := wav
      log := log } := by
  unfold recorderThread
  split
  · exact ⟨_, _, _, _, rfl⟩
  · split <;> exact ⟨_, _, _, _, rfl⟩

theorem liveThread_eq (s : Control F) (i : ℕ) (ok : Bool) : ∃ lives log,
    s.liveThread i ok = { s with lives := lives, log := log } := by
  unfold liveThread
  split
  · exact ⟨_, _, rfl⟩
  · split <;> exact ⟨_, _, rfl⟩

theorem outputThread_eq (s : Control F) : ∃ wav writingWav,
    s.outputThread = { s with wav := wav, writingWav := writingWav } := by
  unfold outputThread
  split_ifs <;> exact ⟨_, _, rfl⟩

/-- The action's call of `sendCtrlCommand`, if it makes one, succeeds. -/
def SendsOk (s : Control F) : Act F → Prop
  | .listener ok =>
    match s.listener with
    | .tuneSend _ | .liveRetune _ | .scanSend => ok = true
    | _ => True
  | .recorder i ok => ∀ r ∈ s.recorders[i]?, r.message.isSome → ok = true
  | .live i ok => ∀ l ∈ s.lives[i]?, l.message.isSome → ok = true
  | _ => True

instance (s : Control F) (a : Act F) : Decidable (s.SendsOk a) := by
  unfold SendsOk
  split
  · split <;> infer_instance
  · infer_instance
  · infer_instance
  · infer_instance

theorem SendsOk.recorder {i : ℕ} {ok : Bool} (hg : s.SendsOk (.recorder i ok)) {r : Recorder F}
    {m : Message F} (h : s.recorders[i]? = some r) (hm : r.message = some m) : ok = true :=
  hg r h (by rw [hm]; rfl)

theorem SendsOk.live {i : ℕ} {ok : Bool} (hg : s.SendsOk (.live i ok)) {l : Live F}
    {m : Message F} (h : s.lives[i]? = some l) (hm : l.message = some m) : ok = true :=
  hg l h (by rw [hm]; rfl)

/-- The flags the listener has tested are still as it found them. -/
def ListenerOk (s : Control F) : Prop :=
  match s.listener with
  | .tuneSend _ | .recordTestRecording _ | .liveTestLive _ | .liveRetune _ | .liveStart _
  | .scanTestRecording => s.gScanning = false
  | .recordStart _ | .scanTestLive => s.gScanning = false ∧ s.gRecording = false
  | .scanSet => s.gScanning = false ∧ s.gRecording = false ∧ s.gLiveListen = false
  | .scanSend => s.gRecording = false ∧ s.gLiveListen = false
  | _ => True

structure Inv (s : Control F) : Prop where
  listenerOk : s.ListenerOk
  exclusive : s.gScanning = true → s.gRecording = false ∧ s.gLiveListen = false
  recording : s.gRecording = true ↔ s.activeRecorders = 1
  single : s.activeRecorders ≤ 1

theorem init_inv (freq : F) : Inv (init freq) := by
  refine ⟨trivial, nofun, ?_, Nat.zero_le 1⟩
  simp [init, activeRecorders]

/-- Flags that go down disturb no test, since the listener waits for flags to be down. -/
theorem ListenerOk.of_flags (h : s.ListenerOk) (hl : t.listener = s.listener)
    (h1 : t.gScanning = true → s.gScanning = true) (h2 : t.gRecording = true → s.gRecording = true)
    (h3 : t.gLiveListen = true → s.gLiveListen = true) : t.ListenerOk := by
  unfold ListenerOk at h ⊢
  rw [hl]
  split at h <;> grind

theorem Tested.listenerOk {l : Listener F} (ht : s.Tested l) (h : s.ListenerOk) (g : F) :
    ListenerOk { s with gCurrentFreq := g, listener := l } := by
  unfold ListenerOk at h
  cases l <;> simp only [Tested, ListenerOk] at ht ⊢ <;> grind

theorem activeRecorders_setRecorder {i : ℕ} {r : Recorder F} (h : s.recorders[i]? = some r)
    (pc : RecorderPc) : (s.setRecorder i r pc).activeRecorders + r.pc.active.toNat
      = s.activeRecorders + pc.active.toNat :=
  countP_set_add h { r with pc := pc }

/-- A recorder that stays active, or stays past clearing the flag, changes nothing. -/
theorem activeRecorders_eq {i : ℕ} {r : Recorder F} (h : s.recorders[i]? = some r)
    (pc : RecorderPc) (ha : pc.active = r.pc.active) :
    (s.setRecorder i r pc).activeRecorders = s.activeRecorders := by
  have hadd := activeRecorders_setRecorder h pc
  rw [ha] at hadd
  exact Nat.add_right_cancel hadd

theorem active_of_message {r : Recorder F} {m : Message F} (hm : r.message = some m) :
    r.pc.toSend = true ∧ r.pc.active = true := by
  unfold Recorder.message at hm
  split at hm <;> simp_all [RecorderPc.toSend, RecorderPc.active]

theorem toSend_of_message {l : Live F} {m : Message F} (hm : l.message = some m) :
    l.pc.toSend = true := by
  unfold Live.message at hm
  split at hm <;> simp_all [LivePc.toSend]

theorem step_inv (a : Act F) (h : Inv s) : Inv (s.step a) := by
  obtain ⟨hl, hex, hrec, hone⟩ := h
  have hs := step_spec s a
  generalize s.step a = t at hs
  cases hs with
  | stay => exact ⟨hl, hex, hrec, hone⟩
  | wav w b => exact ⟨hl, hex, hrec, hone⟩
  | move g l ht => exact ⟨ht.listenerOk hl g, hex, hrec, hone⟩
  | tune f ok h => exact ⟨trivial, hex, hrec, hone⟩
  | startRecord f ok h =>
    rw [ListenerOk, h] at hl
    have hnone : s.activeRecorders = 0 := by
      rcases Nat.le_one_iff_eq_zero_or_eq_one.1 hone with h0 | h1
      · exact h0
      · rw [← hrec, hl.2] at h1
        exact absurd h1 nofun
    have hcount : activeRecorders { s.accept f with
        gRecording := true
        recorders := s.recorders ++ [⟨f, .testLive⟩]
        listener := .idle } = 1 := by
      unfold activeRecorders at hnone ⊢
      rw [List.countP_append, hnone]
      rfl
    exact ⟨trivial, fun hsc => absurd (hl.1.symm.trans hsc) nofun, by simp [hcount], hcount.le⟩
  | startLive f ok h =>
    rw [ListenerOk, h] at hl
    exact ⟨trivial, fun hsc => absurd (hl.symm.trans hsc) nofun, hrec, hone⟩
  | stopLive ok h => exact ⟨trivial, fun hsc => ⟨(hex hsc).1, rfl⟩, hrec, hone⟩
  | setScanning ok h =>
    rw [ListenerOk, h] at hl
    exact ⟨hl.2, fun _ => hl.2, hrec, hone⟩
  | sendScan ok h => exact ⟨trivial, hex, hrec, hone⟩
  | scanComplete => exact ⟨hl.of_flags rfl nofun id id, nofun, hrec, hone⟩
  | recorderTest i ok r h hpc =>
    have hcount := activeRecorders_eq h (if s.gLiveListen then .sendTune else .sendConfigure)
      (by rw [hpc]; split_ifs <;> rfl)
    exact ⟨hl, hex, hrec.trans (by rw [← hcount]), hcount.le.trans hone⟩
  | recorderSend i ok r m h hm =>
    have hcount := activeRecorders_eq h .openWav (active_of_message hm).2.symm
    exact ⟨hl, hex, hrec.trans (by rw [← hcount]; rfl), hcount.le.trans hone⟩
  | recorderMove i ok r pc w h hr hpc ha =>
    have hcount := activeRecorders_eq h pc ha
    exact ⟨hl, hex, hrec.trans (by rw [← hcount]; rfl), hcount.le.trans hone⟩
  | recorderClear i ok r pc h hr ha hpc =>
    have hcount : (s.setRecorder i r pc).activeRecorders = 0 := by
      have hadd := activeRecorders_setRecorder h pc
      rw [ha, hpc, Bool.toNat_true, Bool.toNat_false] at hadd
      omega
    refine ⟨hl.of_flags rfl id nofun id, fun hsc => ⟨rfl, (hex hsc).2⟩, ?_, ?_⟩
    · exact ⟨nofun, fun h1 => absurd (hcount.symm.trans h1) nofun⟩
    · exact hcount.le.trans (Nat.zero_le 1)
  | liveTest i ok l h hpc => exact ⟨hl, hex, hrec, hone⟩
  | liveSend i ok l m h hm => exact ⟨hl, hex, hrec, hone⟩

theorem not_active (h : Inv s) (hr : s.gRecording = false) :
    ∀ r ∈ s.recorders, r.pc.active = false := by
  intro r hmem
  by_contra ha
  rw [Bool.not_eq_false] at ha
  have hpos : 0 < s.activeRecorders := List.countP_pos_iff.2 ⟨r, hmem, ha⟩
  have hone := h.single
  exact absurd (hr.symm.trans (h.recording.2 (by omega))) nofun

theorem exists_active (h : Inv s) (hr : s.gRecording = true) :
    ∃ r ∈ s.recorders, r.pc.active = true :=
  List.countP_pos_iff.1 (Nat.lt_of_lt_of_eq Nat.zero_lt_one (h.recording.1 hr).symm)

theorem run_inv (freq : F) (as : List (Act F)) : Inv (run step (init freq) as) :=
  Machine.run_inv (fun _ a => step_inv a) as _ (init_inv freq)

/-- The listener takes a command and `n` steps on it. -/
def takes (c : Command F) (n : ℕ) : List (Act F) :=
  .command c :: List.replicate n (.listener true)

end Control

/-- In every reachable state the scan mode excludes the two others, and `g_recording` is up if and
only if exactly one recorder has not cleared it yet; there is never more than one. -/
theorem daemon_mode_invariant (freq : F) (as : List (Control.Act F)) :
    let s := run Control.step (Control.init freq) as
    ¬ (s.gScanning = true ∧ (s.gRecording = true ∨ s.gLiveListen = true))
      ∧ (s.gRecording = true ↔ s.activeRecorders = 1) ∧ s.activeRecorders ≤ 1 := by
  intro s
  obtain ⟨-, hex, hrec, hone⟩ := Control.run_inv freq as
  refine ⟨?_, hrec, hone⟩
  rintro ⟨hsc, hr | hlv⟩
  · exact absurd ((hex hsc).1.symm.trans hr) nofun
  · exact absurd ((hex hsc).2.symm.trans hlv) nofun

end Daemon

end AetherGuard
