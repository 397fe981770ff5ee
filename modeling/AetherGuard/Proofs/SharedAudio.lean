import AetherGuard.Proofs.Pipeline
import AetherGuard.Proofs.WavHandles
import AetherGuard.SharedAudio

/-!
# Which recording the worker transcribes

The daemon takes a new `RECORD` as soon as the last one ends, and its recorder empties the file
while the worker has yet to read it. Where a recorder opens the file only when no transcription is
still to come, neither from a recorder that has closed its file and not yet published nor from
anywhere in the pipeline (`OpensLast`), whatever is still to be transcribed is what the file holds
(`AudioInv`). What is still to be transcribed is measured by the pipeline's own potential.
-/

namespace AetherGuard

open Daemon Client Machine Threads

variable {F : Type*}

namespace Daemon

namespace Control

variable {s : Control F}

/-- A recorder keeps its frequency. -/
theorem targetFreq_step (a : Act F) {i : ℕ} {r : Recorder F} (h : s.recorders[i]? = some r) :
    ∃ r', (s.step a).recorders[i]? = some r' ∧ r'.targetFreq = r.targetFreq := by
  have hset : ∀ j r₀ pc, s.recorders[j]? = some r₀ →
      ∃ r', (s.recorders.set j { r₀ with pc := pc })[i]? = some r'
        ∧ r'.targetFreq = r.targetFreq := by
    intro j r₀ pc hj
    rcases eq_or_ne j i with rfl | hne
    · obtain rfl := Option.some.inj (hj.symm.trans h)
      exact ⟨_, List.getElem?_set_self (List.getElem?_eq_some_iff.1 h).1, rfl⟩
    · exact ⟨r, (List.getElem?_set_ne hne).trans h, rfl⟩
  have hs := step_spec s a
  generalize s.step a = t at hs
  cases hs with
  | startRecord f ok hl =>
    exact ⟨r, (List.getElem?_append_left (List.getElem?_eq_some_iff.1 h).1).trans h, rfl⟩
  | recorderTest j ok r₀ hj hpc => exact hset j r₀ _ hj
  | recorderSend j ok r₀ m hj hm => exact hset j r₀ _ hj
  | recorderMove j ok r₀ pc w hj hr hpc ha => exact hset j r₀ _ hj
  | recorderClear j ok r₀ pc hj hr ha hpc => exact hset j r₀ _ hj
  | _ => exact ⟨r, h, rfl⟩

end Control

end Daemon

namespace Client.Pipeline

variable {s : Pipeline F} {k : ℕ}

theorem potential_mono {w w' : Weights F k} (hu : ∀ u, w.update u ≤ w'.update u)
    (hr : ∀ r, w.request r ≤ w'.request r) (hc : ∀ c, w.command c ≤ w'.command c)
    (hd : ∀ c, w.done c ≤ w'.done c) : s.potential w ≤ s.potential w' := by
  have hsum : ∀ {β : Type _} (l : List β) {f g : β → ℕ}, (∀ x, f x ≤ g x) →
      (l.map f).sum ≤ (l.map g).sum := fun l _ _ h => List.sum_le_sum fun x _ => h x
  unfold potential
  gcongr
  · exact hsum _ hu
  · exact hsum _ fun c => hsum _ hu
  · exact hsum _ hr
  · exact hsum _ hc
  · exact hsum _ hc
  · exact hsum _ hd

/-- The transcriptions of recordings picked by `p` that are still to come. -/
def toTranscribe (s : Pipeline F) (p : ℕ → F → Bool) : ℕ :=
  s.potential (transcribeWeights s.clients.length p false)

theorem toTranscribe_mono {p q : ℕ → F → Bool} (h : ∀ r f, p r f = true → q r f = true) :
    s.toTranscribe p ≤ s.toTranscribe q := by
  have hle : ∀ r f, (p r f).toNat ≤ (q r f).toNat := by
    intro r f
    cases hp : p r f with
    | false => exact Nat.zero_le _
    | true => rw [h r f hp]
  refine potential_mono (fun u => ?_) (fun r => ?_) (fun c => ?_) fun c => ?_
  · simp only [transcribeWeights]
    split
    · exact hle _ _
    · exact le_rfl
  · simp only [transcribeWeights]
    split
    · exact hle _ _
    · exact le_rfl
  · simp only [transcribeWeights]
    cases c.item.transcribes with
    | false => exact le_rfl
    | true => exact hle _ _
  · exact le_rfl

theorem toTranscribe_step (p : ℕ → F → Bool) {a : Act F} (ha : ∀ f, a ≠ .recordComplete f) :
    (s.step a).toTranscribe p ≤ s.toTranscribe p := by
  unfold toTranscribe
  rw [(step_frame a).1]
  rcases step_potential (transcribeWeights s.clients.length p false) a (sentToAtMost_length s a)
    with hle | ⟨f, hf, -⟩
  · exact hle
  · exact absurd hf (ha f)

/-- The transcription of the worker's command is still to come. -/
theorem toTranscribe_pos {p : ℕ → F → Bool} {c : Tagged (AiCommand F)} (hw : s.working = some c)
    (hc : c.item.transcribes = true) (hp : p c.record c.item.freq = true) :
    0 < s.toTranscribe p := by
  have hone : (transcribeWeights s.clients.length p false).command c = 1 := by
    simp [transcribeWeights, hc, hp]
  simp only [toTranscribe, potential, hw, Option.toList_some, List.map_cons, List.sum_cons, hone]
  omega

end Client.Pipeline

namespace SharedAudio

variable {s : SharedAudio F} {k : ℕ}

/-- A recorder opens its file only when no other has still to close or to publish one, and no
transcription is still to come. -/
def OpensLast (s : SharedAudio F) : Act F → Prop
  | .daemon (.recorder i _) => ∀ r ∈ s.daemon.recorders[i]?, r.pc = .openWav →
      (∀ r' ∈ s.daemon.recorders, r'.pc ≠ .closeWav ∧ r'.pc ≠ .publish)
      ∧ s.pipeline.toTranscribe (fun _ _ => true) = 0
  | _ => True

instance (s : SharedAudio F) (a : Act F) : Decidable (s.OpensLast a) := by
  unfold OpensLast
  split <;> infer_instance

/-- The file holds recording `r`, of frequency `f`, as its recorder closed it. -/
def Holds (s : SharedAudio F) (r : ℕ) (f : F) : Prop :=
  ∃ i rec, s.recorders[r]? = some i ∧ s.daemon.recorders[i]? = some rec ∧ rec.targetFreq = f
    ∧ audioFile s.daemon.wav.log = some ⟨i, true⟩

open scoped Classical in
/-- The recordings the file does not hold. -/
noncomputable def stale (s : SharedAudio F) (r : ℕ) (f : F) : Bool := decide (¬ s.Holds r f)

structure AudioInv (s : SharedAudio F) : Prop where
  inv : Control.Inv s.daemon
  handle : Control.HandleInv s.daemon
  records : s.pipeline.records = s.recorders.length
  last : ∀ handle, s.daemon.wav.gWavFile = some handle →
    ∃ i, lastOpened s.daemon.wav.log = some (handle, i)
  quiet : ∀ handle, s.daemon.wav.gWavFile = some handle →
    s.pipeline.toTranscribe (fun _ _ => true) = 0
      ∧ ∀ r ∈ s.daemon.recorders, r.pc ≠ .publish
  publishing : ∀ (i : ℕ) r, s.daemon.recorders[i]? = some r → r.pc = .publish →
    audioFile s.daemon.wav.log = some ⟨i, true⟩
  pending : s.pipeline.toTranscribe s.stale = 0
  reads : s.ReadsOwn

theorem stale_eq_true {r : ℕ} {f : F} : s.stale r f = true ↔ ¬ s.Holds r f := by
  simp [stale]

theorem ReadsOwn.daemonStep (h : s.ReadsOwn) (a : Control.Act F) (new : List ℕ)
    (pipeline : Pipeline F) :
    ReadsOwn { s with
      daemon := s.daemon.step a
      pipeline := pipeline
      recorders := s.recorders ++ new } := by
  intro e he
  obtain ⟨i, r, hi, hr, hf, hfile⟩ := h e he
  obtain ⟨r', hr', hf'⟩ := Control.targetFreq_step a hr
  exact ⟨i, r', (List.getElem?_append_left (List.getElem?_eq_some_iff.1 hi).1).trans hi, hr',
    hf'.trans hf, hfile⟩

theorem Holds.daemonStep {r : ℕ} {f : F} (h : s.Holds r f) (a : Control.Act F) (new : List ℕ)
    (pipeline : Pipeline F)
    (hfile : audioFile (s.daemon.step a).wav.log = audioFile s.daemon.wav.log) :
    Holds { s with
      daemon := s.daemon.step a
      pipeline := pipeline
      recorders := s.recorders ++ new } r f := by
  obtain ⟨i, rec, hi, hrec, hf, hholds⟩ := h
  obtain ⟨rec', hrec', hf'⟩ := Control.targetFreq_step a hrec
  exact ⟨i, rec', (List.getElem?_append_left (List.getElem?_eq_some_iff.1 hi).1).trans hi, hrec',
    hf'.trans hf, hfile.trans hholds⟩

/-- A step of the daemon that neither opens nor closes the file nor publishes a recording. -/
theorem AudioInv.keep (h : AudioInv s) (a : Control.Act F)
    (hhandle : Control.HandleInv (s.daemon.step a))
    (hfile : ∀ handle, (s.daemon.step a).wav.gWavFile = some handle →
      s.daemon.wav.gWavFile = some handle)
    (hlast : lastOpened (s.daemon.step a).wav.log = lastOpened s.daemon.wav.log)
    (haudio : audioFile (s.daemon.step a).wav.log = audioFile s.daemon.wav.log)
    (hpub : ∀ (i : ℕ) r, (s.daemon.step a).recorders[i]? = some r → r.pc = .publish →
      s.daemon.recorders[i]? = some r) :
    AudioInv { s with daemon := s.daemon.step a } where
  inv := Control.step_inv a h.inv
  handle := hhandle
  records := h.records
  last handle hf := hlast ▸ h.last handle (hfile handle hf)
  quiet handle hf := by
    obtain ⟨hzero, hno⟩ := h.quiet handle (hfile handle hf)
    refine ⟨hzero, fun r hr hpc => ?_⟩
    obtain ⟨i, hi⟩ := List.mem_iff_getElem?.1 hr
    exact hno r (List.mem_of_getElem? (hpub i r hi hpc)) hpc
  publishing i r hi hpc := haudio.trans (h.publishing i r (hpub i r hi hpc) hpc)
  pending := by
    refine Nat.le_zero.1 ((Pipeline.toTranscribe_mono fun r f hst => ?_).trans h.pending.le)
    rw [stale_eq_true] at hst ⊢
    intro hholds
    have := hholds.daemonStep a [] s.pipeline haudio
    rw [List.append_nil] at this
    exact hst this
  reads := by
    have := h.reads.daemonStep a [] s.pipeline
    rwa [List.append_nil] at this

theorem OpensLast.opensAlone {a : Control.Act F} (h : s.OpensLast (.daemon a)) :
    s.daemon.OpensAlone a := by
  cases a with
  | recorder i ok => exact fun r hr hpc r' hr' => ((h r hr hpc).1 r' hr').1
  | _ => trivial

/-- A step of the recorder that neither opens nor closes the file nor publishes. -/
theorem AudioInv.move (h : AudioInv s) {i : ℕ} {ok : Bool}
    (hg : s.OpensLast (.daemon (.recorder i ok))) {r : Recorder F}
    (hi : s.daemon.recorders[i]? = some r) (hopen : r.pc = .openWav → ok = false)
    (hclose : r.pc ≠ .closeWav) (hpublish : r.pc ≠ .publish) :
    AudioInv { s with daemon := s.daemon.step (.recorder i ok) } := by
  obtain ⟨hlog, hfile, hrec⟩ : (s.daemon.step (.recorder i ok)).wav.log = s.daemon.wav.log
      ∧ (∀ handle, (s.daemon.step (.recorder i ok)).wav.gWavFile = some handle →
        s.daemon.wav.gWavFile = some handle)
      ∧ ((s.daemon.step (.recorder i ok)).recorders = s.daemon.recorders
        ∨ ∃ pc, pc ≠ .publish ∧ (s.daemon.step (.recorder i ok)).recorders
          = s.daemon.recorders.set i { r with pc := pc }) := by
    simp only [Control.step, Control.recorderThread, hi]
    split <;> rename_i hpc
    · exact ⟨rfl, fun _ => id, .inr ⟨_, by split_ifs <;> simp, rfl⟩⟩
    · exact ⟨rfl, fun _ => id, .inr ⟨.openWav, by simp, rfl⟩⟩
    · exact ⟨rfl, fun _ => id, .inr ⟨.openWav, by simp, rfl⟩⟩
    · rw [hopen hpc]
      exact ⟨rfl, by rintro _ ⟨⟩, .inr ⟨.checkWav, by simp, rfl⟩⟩
    · exact ⟨rfl, fun _ => id, .inr ⟨_, by split_ifs <;> simp, rfl⟩⟩
    · exact ⟨rfl, fun _ => id, .inr ⟨.done, by simp, rfl⟩⟩
    · exact ⟨rfl, fun _ => id, .inr ⟨.clearRecording, by simp, rfl⟩⟩
    · exact ⟨rfl, fun _ => id, .inr ⟨.closeWav, by simp, rfl⟩⟩
    · exact absurd hpc hclose
    · exact absurd hpc hpublish
    · exact ⟨rfl, fun _ => id, .inl rfl⟩
  refine h.keep _ (Control.step_handleInv _ hg.opensAlone h.inv h.handle) hfile (by rw [hlog])
    (by rw [hlog]) fun j r' hj hpub => ?_
  rcases hrec with hrec | ⟨pc, hpc, hrec⟩ <;> rw [hrec] at hj
  · exact hj
  · rcases getElem?_set_cases hj with ⟨rfl, rfl⟩ | ⟨-, hj⟩
    · exact absurd hpub hpc
    · exact hj

/-- A step of the pipeline leaves no more to transcribe than there was. -/
theorem AudioInv.pipelineStep (h : AudioInv s) {a : Pipeline.Act F}
    (ha : ∀ f, a ≠ .recordComplete f) :
    AudioInv { s with pipeline := s.pipeline.step a } where
  inv := h.inv
  handle := h.handle
  records := ((Pipeline.step_frame a).2 ha).trans h.records
  last := h.last
  quiet handle hfile := by
    obtain ⟨hzero, hno⟩ := h.quiet handle hfile
    exact ⟨Nat.le_zero.1 ((Pipeline.toTranscribe_step _ ha).trans hzero.le), hno⟩
  publishing := h.publishing
  pending := Nat.le_zero.1 ((Pipeline.toTranscribe_step _ ha).trans h.pending.le)
  reads := h.reads

/-- The worker reads what its command asks for: were the file another's, a stale transcription would
be still to come. -/
theorem AudioInv.read (h : AudioInv s) : AudioInv { s with reads := s.reads ++ s.read } := by
  refine ⟨h.inv, h.handle, h.records, h.last, h.quiet, h.publishing, h.pending, fun e he => ?_⟩
  rcases List.mem_append.1 he with he | he
  · exact h.reads e he
  · unfold SharedAudio.read at he
    split at he
    · rename_i c hw
      split_ifs at he with hc
      · obtain rfl := List.mem_singleton.1 he
        by_contra hnot
        have hstale : s.stale c.record c.item.freq = true := by
          rw [stale_eq_true]
          exact hnot
        exact absurd h.pending (Pipeline.toTranscribe_pos hw hc hstale).ne'
      · cases he
    · cases he

/-- A recording of `f` by recorder `i`, up to its `n`-th step. -/
def record (f i n : ℕ) : List (Act ℕ) :=
  (Control.takes ⟨.record, .value f⟩ 3
    ++ List.replicate n (Control.Act.recorder i true)).map .daemon

/-- One client asks for the transcription of a recording, and the worker takes the command. -/
def transcribe : List (Act ℕ) :=
  [.pipeline .redisListener, .pipeline (.onmessage 0), .pipeline (.endpoint 0 true),
    .pipeline .take]

end SharedAudio

end AetherGuard
