import AetherGuard.Proofs.Control

/-!
# Who owns the WAV handle

The recorder clears `g_recording` before it closes its file, so a second recorder can be let in
while the first still has the shared pointer, and can overwrite it: the first then closes the
second's handle, and its own is lost. In runs where no recorder opens a file while another has yet
to close one, the pointer is the handle of the one recorder between its open and its close
(`HandleInv`), and each handle is closed by the recorder that opened it.
-/

namespace AetherGuard

namespace Daemon

open Machine Threads

variable {F : Type*}

theorem WavOwned.opened_of_closed {handle i : ℕ} : ∀ {log : List (WavEntry F)}, WavOwned log →
    .closed handle i ∈ log → .opened handle i ∈ log
  | [], _, h => by simp at h
  | .opened _ _ :: log, hw, h => by
    simp only [List.mem_cons, reduceCtorEq, false_or] at h
    exact List.mem_cons_of_mem _ (hw.2.opened_of_closed h)
  | .wrote _ :: log, hw, h => by
    simp only [List.mem_cons, reduceCtorEq, false_or] at h
    exact List.mem_cons_of_mem _ (hw.2.opened_of_closed h)
  | .closed _ _ :: log, hw, h => by
    rcases List.mem_cons.1 h with h | h
    · cases h
      exact List.mem_cons_of_mem _ hw.1
    · exact List.mem_cons_of_mem _ (hw.2.2.opened_of_closed h)
  | .recordComplete _ _ :: log, hw, h => by
    simp only [List.mem_cons, reduceCtorEq, false_or] at h
    exact List.mem_cons_of_mem _ (hw.2.opened_of_closed h)

/-- The recorder is between its open and its close. -/
def RecorderPc.keeps : RecorderPc → Bool
  | .checkWav | .clearActive | .clearRecording | .closeWav => true
  | _ => false

theorem RecorderPc.active_or_closeWav {pc : RecorderPc} (h : pc.keeps = true) :
    pc.active = true ∨ pc = .closeWav := by
  cases pc <;> simp_all [RecorderPc.keeps, RecorderPc.active]

namespace Control

variable {s t : Control F} {a : Act F}

theorem active_unique (h : Inv s) {i j : ℕ} {r r' : Recorder F} (hi : s.recorders[i]? = some r)
    (hr : r.pc.active = true) (hj : s.recorders[j]? = some r') (hr' : r'.pc.active = true) :
    i = j :=
  index_unique_of_countP_le_one h.single hi hr hj hr'

/-- A recorder opens its file only when no other has still to close one. -/
def OpensAlone (s : Control F) : Act F → Prop
  | .recorder i _ => ∀ r ∈ s.recorders[i]?, r.pc = .openWav →
      ∀ r' ∈ s.recorders, r'.pc ≠ .closeWav
  | _ => True

instance (s : Control F) (a : Act F) : Decidable (s.OpensAlone a) := by
  induction a using Act.casesOn <;> dsimp only [OpensAlone] <;> infer_instance

/-- What the log and the pointer say of recorder `i`. -/
def RecorderWav (w : Wav F) (i : ℕ) (r : Recorder F) : Prop :=
  match r.pc with
  | .checkWav => (w.gWavFile = none ∧ ∀ handle, .opened handle i ∉ w.log)
      ∨ ∃ handle, w.gWavFile = some handle ∧ .opened handle i ∈ w.log
  | .clearActive | .clearRecording | .closeWav =>
    ∃ handle, w.gWavFile = some handle ∧ .opened handle i ∈ w.log
  | .publish => True
  | .done => ∀ handle, .opened handle i ∈ w.log → .recordComplete r.targetFreq i ∈ w.log
  | _ => ∀ handle, .opened handle i ∉ w.log

structure HandleInv (s : Control F) : Prop where
  owned : WavOwned s.wav.log
  fresh : ∀ handle i, .opened handle i ∈ s.wav.log →
    handle < s.wav.handles ∧ i < s.recorders.length
  opener : ∀ handle i j, .opened handle i ∈ s.wav.log → .opened handle j ∈ s.wav.log → i = j
  file : ∀ handle, s.wav.gWavFile = some handle → ∃ i r, s.recorders[i]? = some r
    ∧ r.pc.keeps = true ∧ .opened handle i ∈ s.wav.log ∧ ∀ j, .closed handle j ∉ s.wav.log
  rest : ∀ handle i, .opened handle i ∈ s.wav.log →
    s.wav.gWavFile = some handle ∨ .closed handle i ∈ s.wav.log
  recorder : ∀ i r, s.recorders[i]? = some r → RecorderWav s.wav i r

theorem init_handleInv (freq : F) : HandleInv (init freq) where
  owned := trivial
  fresh := nofun
  opener := nofun
  file := nofun
  rest := nofun
  recorder := nofun

theorem HandleInv.of_eq (h : HandleInv s) (hr : t.recorders = s.recorders) (hw : t.wav = s.wav) :
    HandleInv t := by
  obtain ⟨ho, hf, hop, hfi, hre, hrec⟩ := h
  rw [← hw] at ho hf hop hfi hre hrec
  rw [← hr] at hf hfi hrec
  exact ⟨ho, hf, hop, hfi, hre, hrec⟩

theorem HandleInv.start (h : HandleInv s) {f : F}
    (hr : t.recorders = s.recorders ++ [⟨f, .testLive⟩]) (hw : t.wav = s.wav) : HandleInv t := by
  refine ⟨hw ▸ h.owned, fun handle i hi => ?_, hw ▸ h.opener, fun handle hfile => ?_,
    hw ▸ h.rest, fun i r hi => ?_⟩
  · rw [hw] at hi ⊢
    obtain ⟨h1, h2⟩ := h.fresh handle i hi
    rw [hr, List.length_append]
    exact ⟨h1, by omega⟩
  · rw [hw] at hfile ⊢
    obtain ⟨i, r, hi, hrest⟩ := h.file handle hfile
    refine ⟨i, r, ?_, hrest⟩
    rw [hr, List.getElem?_append_left (List.getElem?_eq_some_iff.1 hi).1, hi]
  · rw [hr] at hi
    rw [hw]
    rcases getElem?_concat_cases hi with hi | ⟨rfl, rfl⟩
    · exact h.recorder i r hi
    · exact fun handle hmem => absurd (h.fresh handle _ hmem).2 (lt_irrefl _)

/-- A recorder goes on and leaves the pointer and the log alone. -/
theorem HandleInv.move (h : HandleInv s) {i : ℕ} {r : Recorder F} {pc : RecorderPc}
    (hi : s.recorders[i]? = some r) (hr : t.recorders = s.recorders.set i { r with pc := pc })
    (h1 : t.wav.gWavFile = s.wav.gWavFile) (h2 : t.wav.handles = s.wav.handles)
    (h3 : t.wav.log = s.wav.log)
    (hpc : r.pc.keeps = true → pc.keeps = true ∨ s.wav.gWavFile = none)
    (hw : RecorderWav s.wav i { r with pc := pc }) : HandleInv t := by
  refine ⟨h3 ▸ h.owned, fun handle j hj => ?_, h3 ▸ h.opener, fun handle hfile => ?_,
    fun handle j hj => ?_, fun j r' hj => ?_⟩
  · rw [h3] at hj
    rw [h2, hr, List.length_set]
    exact h.fresh handle j hj
  · rw [h1] at hfile
    obtain ⟨j, r', hj, hk, hop, hcl⟩ := h.file handle hfile
    rw [h3]
    rcases eq_or_ne j i with rfl | hne
    · obtain rfl : r = r' := Option.some.inj (hi.symm.trans hj)
      refine ⟨j, { r with pc := pc }, ?_, ?_, hop, hcl⟩
      · rw [hr]
        exact List.getElem?_set_self (List.getElem?_eq_some_iff.1 hi).1
      · rcases hpc hk with hk | hn
        · exact hk
        · rw [hn] at hfile
          cases hfile
    · refine ⟨j, r', ?_, hk, hop, hcl⟩
      rw [hr, List.getElem?_set_ne hne.symm, hj]
  · rw [h3] at hj ⊢
    rw [h1]
    exact h.rest handle j hj
  · rw [hr] at hj
    have hcongr : ∀ (k : ℕ) (r₀ : Recorder F), RecorderWav s.wav k r₀ → RecorderWav t.wav k r₀ := by
      intro k r₀ hk
      unfold RecorderWav at hk ⊢
      rw [h1, h3]
      exact hk
    rcases getElem?_set_cases hj with ⟨rfl, rfl⟩ | ⟨-, hj⟩
    · exact hcongr j _ hw
    · exact hcongr j r' (h.recorder j r' hj)

theorem RecorderWav.cons {w w' : Wav F} {e : WavEntry F} {j : ℕ} {r : Recorder F}
    (hlog : w'.log = e :: w.log) (he : ∀ handle, e ≠ .opened handle j)
    (hfile : w'.gWavFile = w.gWavFile ∨ r.pc.keeps = false) (h : RecorderWav w j r) :
    RecorderWav w' j r := by
  have hmem : ∀ handle, .opened handle j ∈ w'.log ↔ .opened handle j ∈ w.log := by
    intro handle
    rw [hlog, List.mem_cons, or_iff_right (he handle).symm]
  have hcomplete : ∀ f, .recordComplete f j ∈ w.log → .recordComplete f j ∈ w'.log := by
    intro f hf
    rw [hlog]
    exact List.mem_cons_of_mem _ hf
  unfold RecorderWav at h ⊢
  simp only [hmem]
  rcases hfile with hfile | hkeeps
  · rw [hfile]
    split at h
    · exact h
    · exact h
    · exact h
    · exact h
    · exact h
    · exact fun handle hh => hcomplete _ (h handle hh)
    · exact h
  · split at h <;> rename_i hpc
    · rw [hpc] at hkeeps
      cases hkeeps
    · rw [hpc] at hkeeps
      cases hkeeps
    · rw [hpc] at hkeeps
      cases hkeeps
    · rw [hpc] at hkeeps
      cases hkeeps
    · exact h
    · exact fun handle hh => hcomplete _ (h handle hh)
    · exact h

/-- The handle in the pointer belongs to the recorder that opened it, which has not closed it. -/
theorem HandleInv.keeps_of_file (h : HandleInv s) {handle i : ℕ} {r : Recorder F}
    (hfile : s.wav.gWavFile = some handle) (hop : .opened handle i ∈ s.wav.log)
    (hi : s.recorders[i]? = some r) : r.pc.keeps = true := by
  obtain ⟨j, r', hj, hk, hop', -⟩ := h.file handle hfile
  obtain rfl := h.opener handle i j hop hop'
  obtain rfl : r = r' := Option.some.inj (hi.symm.trans hj)
  exact hk

/-- No other recorder is between its open and its close when one opens its file. -/
theorem not_keeps_of_openWav (hI : Inv s) {i : ℕ} {r : Recorder F}
    (hi : s.recorders[i]? = some r) (hpc : r.pc = .openWav)
    (hg : ∀ r' ∈ s.recorders, r'.pc ≠ .closeWav) {j : ℕ} {r' : Recorder F}
    (hj : s.recorders[j]? = some r') : r'.pc.keeps = false := by
  by_contra hk
  rw [Bool.not_eq_false] at hk
  rcases RecorderPc.active_or_closeWav hk with ha | hc
  · obtain rfl := active_unique hI hi (by rw [hpc]; rfl) hj ha
    obtain rfl : r = r' := Option.some.inj (hi.symm.trans hj)
    rw [hpc] at hk
    cases hk
  · exact hg r' (List.mem_of_getElem? hj) hc

theorem openWav_handleInv (hI : Inv s) (h : HandleInv s) {i : ℕ} {r : Recorder F}
    (hi : s.recorders[i]? = some r) (hpc : r.pc = .openWav)
    (hg : ∀ r' ∈ s.recorders, r'.pc ≠ .closeWav) (ok : Bool) :
    HandleInv { s.setRecorder i r .checkWav with wav := s.wav.openFile i ok } := by
  have hnone : s.wav.gWavFile = none := by
    by_contra hsome
    obtain ⟨handle, hfile⟩ := Option.ne_none_iff_exists'.1 hsome
    obtain ⟨j, r', hj, hk, -⟩ := h.file handle hfile
    rw [not_keeps_of_openWav hI hi hpc hg hj] at hk
    cases hk
  have hearly : ∀ handle, .opened handle i ∉ s.wav.log := by
    have := h.recorder i r hi
    rw [RecorderWav, hpc] at this
    exact this
  cases ok with
  | false =>
    refine h.move hi rfl hnone.symm rfl rfl (fun hk => ?_) (.inl ⟨hnone, hearly⟩)
    exact .inl rfl
  | true =>
    have hnew : ∀ j, .opened s.wav.handles j ∉ s.wav.log := fun j hj =>
      absurd (h.fresh _ j hj).1 (lt_irrefl _)
    refine ⟨⟨hnew, h.owned⟩, fun handle j hj => ?_, fun handle j k hj hk => ?_,
      fun handle hfile => ?_, fun handle j hj => ?_, fun j r' hj => ?_⟩
    · simp only [setRecorder, List.length_set]
      rcases List.mem_cons.1 hj with hj | hj
      · cases hj
        exact ⟨Nat.lt_succ_self _, (List.getElem?_eq_some_iff.1 hi).1⟩
      · obtain ⟨h1, h2⟩ := h.fresh handle j hj
        exact ⟨h1.trans (Nat.lt_succ_self _), h2⟩
    · rcases List.mem_cons.1 hj with hj | hj <;> rcases List.mem_cons.1 hk with hk | hk
      · cases hj
        cases hk
        rfl
      · cases hj
        exact absurd hk (hnew k)
      · cases hk
        exact absurd hj (hnew j)
      · exact h.opener handle j k hj hk
    · cases hfile
      refine ⟨i, { r with pc := .checkWav }, ?_, rfl, List.mem_cons_self, fun j hj => ?_⟩
      · exact List.getElem?_set_self (List.getElem?_eq_some_iff.1 hi).1
      · rcases List.mem_cons.1 hj with hj | hj
        · cases hj
        · exact hnew j (h.owned.opened_of_closed hj)
    · rcases List.mem_cons.1 hj with hj | hj
      · cases hj
        exact .inl rfl
      · rcases h.rest handle j hj with hr | hr
        · rw [hnone] at hr
          cases hr
        · exact .inr (List.mem_cons_of_mem _ hr)
    · rcases getElem?_set_cases hj with ⟨rfl, rfl⟩ | ⟨hne, hj⟩
      · exact .inr ⟨s.wav.handles, rfl, List.mem_cons_self⟩
      · refine (h.recorder j r' hj).cons rfl (fun handle he => ?_)
          (.inr (not_keeps_of_openWav hI hi hpc hg hj))
        cases he
        exact hne rfl

theorem closeWav_handleInv (h : HandleInv s) {i : ℕ} {r : Recorder F}
    (hi : s.recorders[i]? = some r) (hpc : r.pc = .closeWav) :
    HandleInv { s.setRecorder i r .publish with wav := s.wav.closeFile i } := by
  have hrec := h.recorder i r hi
  rw [RecorderWav, hpc] at hrec
  obtain ⟨handle, hfile, hop⟩ := hrec
  obtain ⟨-, -, -, -, -, hcl⟩ := h.file handle hfile
  have hclose : s.wav.closeFile i
      = { s.wav with gWavFile := none, log := .closed handle i :: s.wav.log } := by
    simp only [Wav.closeFile, hfile]
  rw [hclose]
  refine ⟨⟨hop, hcl, h.owned⟩, fun handle' j hj => ?_, fun handle' j k hj hk => ?_, nofun,
    fun handle' j hj => ?_, fun j r' hj => ?_⟩
  · simp only [setRecorder, List.length_set]
    exact h.fresh handle' j (by simpa using hj)
  · exact h.opener handle' j k (by simpa using hj) (by simpa using hk)
  · have hj' : .opened handle' j ∈ s.wav.log := by simpa using hj
    rcases h.rest handle' j hj' with hr | hr
    · rw [hfile] at hr
      cases hr
      obtain rfl := h.opener handle j i hj' hop
      exact .inr List.mem_cons_self
    · exact .inr (List.mem_cons_of_mem _ hr)
  · rcases getElem?_set_cases hj with ⟨rfl, rfl⟩ | ⟨hne, hj⟩
    · trivial
    · refine (h.recorder j r' hj).cons rfl nofun (.inr ?_)
      -- another recorder past its open would have the same handle in the pointer
      by_contra hk
      rw [Bool.not_eq_false] at hk
      have hr' := h.recorder j r' hj
      have hown : ∃ handle', s.wav.gWavFile = some handle' ∧ .opened handle' j ∈ s.wav.log := by
        unfold RecorderWav at hr'
        split at hr' <;> rename_i hpc' <;> try exact hr'
        · rcases hr' with ⟨hn, -⟩ | hr'
          · rw [hfile] at hn
            cases hn
          · exact hr'
        · rw [hpc'] at hk
          cases hk
        · rw [hpc'] at hk
          cases hk
        · cases hpc'' : r'.pc <;> simp_all [RecorderPc.keeps]
      obtain ⟨handle', hfile', hop'⟩ := hown
      rw [hfile] at hfile'
      cases hfile'
      exact hne (h.opener handle j i hop' hop)

theorem publish_handleInv (h : HandleInv s) {i : ℕ} {r : Recorder F}
    (hi : s.recorders[i]? = some r) (hpc : r.pc = .publish) :
    HandleInv { s.setRecorder i r .done with
      wav := { s.wav with log := .recordComplete r.targetFreq i :: s.wav.log } } := by
  refine ⟨⟨fun handle hop => ?_, h.owned⟩, fun handle j hj => ?_, fun handle j k hj hk => ?_,
    fun handle hfile => ?_, fun handle j hj => ?_, fun j r' hj => ?_⟩
  · rcases h.rest handle i hop with hr | hr
    · have := h.keeps_of_file hr hop hi
      rw [hpc] at this
      cases this
    · exact hr
  · simp only [setRecorder, List.length_set]
    exact h.fresh handle j (by simpa using hj)
  · exact h.opener handle j k (by simpa using hj) (by simpa using hk)
  · obtain ⟨j, r', hj, hk, hop, hcl⟩ := h.file handle hfile
    refine ⟨j, r', ?_, hk, List.mem_cons_of_mem _ hop, by simpa using hcl⟩
    simp only [setRecorder]
    rw [List.getElem?_set_ne, hj]
    rintro rfl
    obtain rfl : r = r' := Option.some.inj (hi.symm.trans hj)
    rw [hpc] at hk
    cases hk
  · rcases h.rest handle j (by simpa using hj) with hr | hr
    · exact .inl hr
    · exact .inr (List.mem_cons_of_mem _ hr)
  · rcases getElem?_set_cases hj with ⟨rfl, rfl⟩ | ⟨-, hj⟩
    · exact fun _ _ => List.mem_cons_self
    · exact (h.recorder j r' hj).cons rfl nofun (.inl rfl)

theorem writeShort_handleInv (h : HandleInv s) :
    HandleInv { s with wav := s.wav.writeShort, writingWav := false } := by
  simp only [Wav.writeShort]
  split
  · rename_i handle hfile
    obtain ⟨j, r, hj, hk, hop, hcl⟩ := h.file handle hfile
    refine ⟨⟨hcl, h.owned⟩, fun handle' k hk => h.fresh handle' k (by simpa using hk),
      fun handle' k l hk hl => h.opener handle' k l (by simpa using hk) (by simpa using hl),
      fun handle' hfile' => ?_, fun handle' k hk => ?_, fun k r' hk => ?_⟩
    · obtain rfl : handle = handle' := Option.some.inj (hfile.symm.trans hfile')
      exact ⟨j, r, hj, hk, List.mem_cons_of_mem _ hop, by simpa using hcl⟩
    · rcases h.rest handle' k (by simpa using hk) with hr | hr
      · exact .inl hr
      · exact .inr (List.mem_cons_of_mem _ hr)
    · exact (h.recorder k r' hk).cons rfl nofun (.inl rfl)
  · exact h.of_eq rfl rfl

theorem recorderThread_handleInv (hI : Inv s) (h : HandleInv s) (i : ℕ) (ok : Bool)
    (hg : s.OpensAlone (.recorder i ok)) : HandleInv (s.recorderThread i ok) := by
  unfold recorderThread
  split
  · exact h
  · rename_i r hi
    have hw := h.recorder i r hi
    unfold RecorderWav at hw
    split <;> rename_i hpc <;> simp only [hpc] at hw
    · refine h.move hi rfl rfl rfl rfl (fun hk => by rw [hpc] at hk; cases hk) ?_
      split_ifs <;> exact hw
    · exact h.move hi rfl rfl rfl rfl (fun hk => by rw [hpc] at hk; cases hk) hw
    · exact h.move hi rfl rfl rfl rfl (fun hk => by rw [hpc] at hk; cases hk) hw
    · exact openWav_handleInv hI h hi hpc (hg r hi hpc) ok
    · refine h.move hi rfl rfl rfl rfl (fun _ => ?_) ?_
      · split_ifs with hn
        · exact .inr (Option.isNone_iff_eq_none.1 hn)
        · exact .inl rfl
      · rcases hw with ⟨hn, hop⟩ | ⟨handle, hfile, hop⟩
        · rw [if_pos (by rw [hn]; rfl)]
          exact hop
        · rw [if_neg (by rw [hfile]; nofun)]
          exact ⟨handle, hfile, hop⟩
    · exact h.move hi rfl rfl rfl rfl (fun hk => by rw [hpc] at hk; cases hk)
        fun handle hop => absurd hop (hw handle)
    · exact h.move hi rfl rfl rfl rfl (fun _ => .inl rfl) hw
    · exact h.move hi rfl rfl rfl rfl (fun _ => .inl rfl) hw
    · exact closeWav_handleInv h hi hpc
    · exact publish_handleInv h hi hpc
    · exact h

theorem step_handleInv (a : Act F) (hg : s.OpensAlone a) (hI : Inv s) (h : HandleInv s) :
    HandleInv (s.step a) := by
  cases a with
  | command c =>
    simp only [step, receive]
    split
    · exact h.of_eq rfl rfl
    · exact h
  | listener ok =>
    obtain ⟨hw, hr | ⟨f, hr⟩⟩ := recorders_commandListener s ok
    · exact h.of_eq hr hw
    · exact h.start hr hw
  | recorder i ok => exact recorderThread_handleInv hI h i ok hg
  | live i ok =>
    obtain ⟨lives, log, hlive⟩ := liveThread_eq s i ok
    rw [step, hlive]
    exact h.of_eq rfl rfl
  | scanComplete => exact h.of_eq rfl rfl
  | output =>
    simp only [step, outputThread]
    split_ifs
    · exact writeShort_handleInv h
    · exact h.of_eq rfl rfl

theorem run_handleInv (freq : F) (as : List (Act F)) (h : Meets step OpensAlone (init freq) as) :
    HandleInv (run step (init freq) as) :=
  (run_inv_of_meets (I := fun s => Inv s ∧ HandleInv s)
    (fun _ a hg hs => ⟨step_inv a hs.1, step_handleInv a hg hs.1 hs.2⟩) as _ h
    ⟨init_inv freq, init_handleInv freq⟩).2

/-- The steps recorder `i` takes to close its file. -/
def stepsToClose (s : Control F) (i : ℕ) : ℕ :=
  match (s.recorders[i]?).map Recorder.pc with
  | some .checkWav => 4
  | some .clearActive => 3
  | some .clearRecording => 2
  | some .closeWav => 1
  | _ => 0

/-- A recorder between its open and its close gets a step closer to closing its handle. -/
theorem close_progress (h : HandleInv s) {handle i : ℕ} (hop : .opened handle i ∈ s.wav.log)
    (hcl : .closed handle i ∉ s.wav.log) : s.OpensAlone (.recorder i true)
      ∧ .opened handle i ∈ (s.recorderThread i true).wav.log
      ∧ (s.recorderThread i true).stepsToClose i < s.stepsToClose i := by
  have hfile := (h.rest handle i hop).resolve_right hcl
  have hlt := (h.fresh handle i hop).2
  obtain ⟨r, hi⟩ : ∃ r, s.recorders[i]? = some r := ⟨_, List.getElem?_eq_getElem hlt⟩
  have hk := h.keeps_of_file hfile hop hi
  have hset : ∀ pc, (s.recorders.set i { r with pc := pc })[i]? = some { r with pc := pc } :=
    fun pc => List.getElem?_set_self hlt
  refine ⟨fun r' hr' hpc => ?_, ?_⟩
  · obtain rfl : r = r' := Option.some.inj (hi.symm.trans hr')
    rw [hpc] at hk
    cases hk
  · cases hpc : r.pc <;> rw [hpc] at hk <;> try cases hk
    all_goals
      simp only [recorderThread, stepsToClose, hi, hpc, setRecorder, hset, Option.map_some, hfile,
        Option.isNone_some, Bool.false_eq_true, if_false, Wav.closeFile, List.mem_cons,
        reduceCtorEq, false_or]
      exact ⟨hop, by decide⟩

theorem exists_close (hI : Inv s) (h : HandleInv s) {handle i : ℕ}
    (hop : .opened handle i ∈ s.wav.log) : ∃ more : List (Act F),
      (∀ a ∈ more, a = .recorder i true) ∧ WavOwned (run step s more).wav.log
        ∧ .closed handle i ∈ (run step s more).wav.log := by
  have progress : ∀ t : Control F, (Inv t ∧ HandleInv t ∧ .opened handle i ∈ t.wav.log) →
      ¬ .closed handle i ∈ t.wav.log → ∃ a : Act F, a = .recorder i true
        ∧ (Inv (t.step a) ∧ HandleInv (t.step a) ∧ .opened handle i ∈ (t.step a).wav.log)
        ∧ (t.step a).stepsToClose i < t.stepsToClose i := by
    rintro t ⟨htI, ht, hto⟩ hcl
    obtain ⟨hg, hop', hdec⟩ := close_progress ht hto hcl
    exact ⟨_, rfl, ⟨step_inv _ htI, step_handleInv _ hg htI ht, hop'⟩, hdec⟩
  obtain ⟨more, hmore, ⟨-, hH, -⟩, hcl⟩ := exists_run (stepsToClose · i) progress s ⟨hI, h, hop⟩
  exact ⟨more, hmore, hH.owned, hcl⟩

end Control

open Control in
/-- In a run where no recorder opens its file while another has yet to close one, each handle is
closed at most once, by the recorder that opened it and before that recorder publishes, and is not
written to afterwards; and that recorder's own steps do close it. -/
theorem wav_owned_of_opens_alone (freq : F) (as : List (Act F)) (s : Control F)
    (hs : s = run step (init freq) as) (h : Meets step OpensAlone (init freq) as) :
    WavOwned s.wav.log ∧ ∀ handle i, .opened handle i ∈ s.wav.log →
      ∃ more : List (Act F), (∀ a ∈ more, a = .recorder i true)
        ∧ WavOwned (run step s more).wav.log ∧ .closed handle i ∈ (run step s more).wav.log := by
  subst hs
  have hH := run_handleInv freq as h
  exact ⟨hH.owned, fun handle i hop => exists_close (Control.run_inv freq as) hH hop⟩

/-- Recorder 0 has cleared `g_recording` and not closed its file when recorder 1 opens one. -/
def secondRecorder : List (Control.Act ℕ) :=
  Control.takes ⟨.record, .value 100⟩ 3 ++ List.replicate 6 (.recorder 0 true)
    ++ Control.takes ⟨.record, .value 101⟩ 3 ++ List.replicate 3 (.recorder 1 true)
    ++ [.recorder 0 true]

/-- Recorder 0 closes the handle of recorder 1. -/
theorem wav_closed_by_other_recorder :
    (run Control.step (Control.init 88) secondRecorder).wav.log
        = [.closed 1 0, .opened 1 1, .opened 0 0]
      ∧ ¬ WavOwned (run Control.step (Control.init 88) secondRecorder).wav.log := by
  have hlog : (run Control.step (Control.init 88) secondRecorder).wav.log
      = [.closed 1 0, .opened 1 1, .opened 0 0] := rfl
  refine ⟨hlog, ?_⟩
  rw [hlog]
  rintro ⟨hop, -⟩
  simp at hop

/-- Two recordings, the second begun when the first has published. -/
def twoRecordings : List (Control.Act ℕ) :=
  Control.takes ⟨.record, .value 100⟩ 3 ++ List.replicate 8 (.recorder 0 true)
    ++ Control.takes ⟨.record, .value 101⟩ 3 ++ List.replicate 3 (.recorder 1 true)
    ++ [.output, .output]

theorem wav_owned_of_opens_alone_two_recordings :
    .wrote 1 ∈ (run Control.step (Control.init 88) twoRecordings).wav.log
      ∧ WavOwned (run Control.step (Control.init 88) twoRecordings).wav.log :=
  ⟨List.mem_cons_self,
    (wav_owned_of_opens_alone (F := ℕ) 88 twoRecordings _ rfl (by decide +kernel)).1⟩

end Daemon

end AetherGuard
