import AetherGuard.Client

/-!
# What a job that can be saved holds

Only `handleScan` takes a job's status back from `complete`, so a later `record_complete` or
`transcription_complete`, of this page's pipeline or another's, writes its progress text into a job
that can be saved; and a `summary_complete` completes a job whatever its text is. Where the events
of a frequency come in the order of one pipeline (`InOrder`), a complete job holds results.
-/

namespace AetherGuard

namespace Client

open Machine

variable {F : Type*} [DecidableEq F] {toFixed : F → String}

/-- No scan of `f` was started or failed since the last `transcription_complete` for it. -/
def textCurrent (f : F) : List (Event F) → Bool
  | [] => false
  | .handleScan freq :: evs => freq ≠ f && textCurrent f evs
  | .scanFailed freq _ :: evs => freq ≠ f && textCurrent f evs
  | .message _ (.transcriptionComplete freq _) :: evs => freq = f || textCurrent f evs
  | _ :: evs => textCurrent f evs

namespace Page

variable {s : Page F}

def status (s : Page F) (f : F) : Option Status := (s.scanJobs f).bind (·.status)

/-- The stages before the summary reach no complete job, and a summary only a job that holds the
last transcription. -/
def InOrder (s : Page F) : Event F → Prop
  | .message _ (.recordComplete f) => s.status f ≠ some .complete
  | .message _ (.transcriptionComplete f _) => s.status f ≠ some .complete
  | .message _ (.summaryComplete f _) => textCurrent f s.history = true
  | _ => True

instance (s : Page F) (ev : Event F) : Decidable (s.InOrder ev) := by
  unfold InOrder
  split <;> infer_instance

/-- What is known of the job of `f`. -/
structure JobInv (s : Page F) (f : F) : Prop where
  text : textCurrent f s.history = true →
    ∃ job, s.scanJobs f = some job ∧ job.rawText.isSome
      ∧ job.rawText = lastTranscription f s.history
  complete : ∀ job, s.scanJobs f = some job → job.status = some .complete →
    textCurrent f s.history = true ∧ job.summary.isSome ∧ job.summary = lastSummary f s.history

theorem init_jobInv (f : F) : JobInv (init : Page F) f := ⟨nofun, nofun⟩

/-- An event that is not about `f` changes nothing of its job. -/
theorem JobInv.of_same {t : Page F} {f : F} (h : JobInv s f) (hjob : t.scanJobs f = s.scanJobs f)
    (hcur : textCurrent f t.history = textCurrent f s.history)
    (htext : lastTranscription f t.history = lastTranscription f s.history)
    (hsum : lastSummary f t.history = lastSummary f s.history) : JobInv t f := by
  refine ⟨?_, ?_⟩
  · rw [hjob, hcur, htext]
    exact h.text
  · rw [hjob, hcur, hsum]
    exact h.complete

theorem updateJob_of_ne {jobs : Jobs F} {freq f : F} (h : freq ≠ f) (updates : Job) :
    updateJob jobs freq updates f = jobs f :=
  Function.update_of_ne (Ne.symm h) _ _

theorem updateJob_self (jobs : Jobs F) (f : F) (updates : Job) :
    updateJob jobs f updates f = some (((jobs f).getD {}).merge updates) :=
  Function.update_self ..

omit [DecidableEq F] in
/-- An update without a status keeps the one there was. -/
theorem status_merge (s : Page F) (f : F) {updates : Job} (h : updates.status = none) :
    (((s.scanJobs f).getD {}).merge updates).status = s.status f := by
  rw [Job.merge, h, Option.none_or, status]
  cases s.scanJobs f <;> rfl

/-- A job that an event leaves incomplete need hold no summary. -/
theorem JobInv.of_incomplete {t : Page F} {f : F} {job : Job} (hjob : t.scanJobs f = some job)
    (hstatus : job.status ≠ some .complete)
    (htext : textCurrent f t.history = true →
      job.rawText.isSome ∧ job.rawText = lastTranscription f t.history) : JobInv t f := by
  refine ⟨fun hcur => ⟨job, hjob, htext hcur⟩, fun job' hjob' hstatus' => ?_⟩
  obtain rfl := Option.some.inj (hjob.symm.trans hjob')
  exact absurd hstatus' hstatus

theorem step_jobInv (f : F) (ev : Event F) (hg : s.InOrder ev) (h : JobInv s f) :
    JobInv (s.step toFixed ev) f := by
  cases ev with
  | handleScan freq =>
    by_cases hf : freq = f
    · subst hf
      exact .of_incomplete (updateJob_self ..) nofun (by simp [step, textCurrent])
    · exact h.of_same (updateJob_of_ne hf _) (by simp [step, textCurrent, hf]) rfl rfl
  | scanFailed freq msg =>
    by_cases hf : freq = f
    · subst hf
      exact .of_incomplete (updateJob_self ..) nofun (by simp [step, textCurrent])
    · exact h.of_same (updateJob_of_ne hf _) (by simp [step, textCurrent, hf]) rfl rfl
  | message useOpenAI update =>
    cases update with
    | recordComplete freq =>
      by_cases hf : freq = f
      · subst hf
        refine .of_incomplete (updateJob_self ..) ?_ fun hcur => ?_
        · rw [status_merge s freq rfl]
          exact hg
        · obtain ⟨job, hjob, htext⟩ := h.text hcur
          rw [hjob]
          exact htext
      · exact h.of_same (updateJob_of_ne hf _) rfl rfl rfl
    | transcriptionComplete freq text =>
      by_cases hf : freq = f
      · subst hf
        refine .of_incomplete (updateJob_self ..) ?_ fun hcur => ?_
        · rw [status_merge s freq rfl]
          exact hg
        · simp [step, lastTranscription, Job.merge]
      · exact h.of_same (updateJob_of_ne hf _) (by simp [step, textCurrent, hf])
          (by simp [step, lastTranscription, hf]) rfl
    | summaryComplete freq summary =>
      by_cases hf : freq = f
      · subst hf
        obtain ⟨job, hjob, htext⟩ := h.text hg
        have hnew := updateJob_self s.scanJobs freq
          { status := some .complete, summary := some summary }
        rw [hjob] at hnew
        refine ⟨fun _ => ⟨_, hnew, htext⟩, fun job' hjob' _ => ?_⟩
        obtain rfl := Option.some.inj (hnew.symm.trans hjob')
        exact ⟨hg, rfl, by simp [step, lastSummary, Job.merge]⟩
      · exact h.of_same (updateJob_of_ne hf _) rfl rfl (by simp [step, lastSummary, hf])
    | other => exact h.of_same rfl rfl rfl rfl

/-- If the events of each job come in the order of its stages, every job shown as complete holds the
last transcription and the last summary that came for its frequency, and so does what is saved. -/
theorem saved_job_real_of_in_order (toFixed : F → String) (evs : List (Event F))
    (h : Meets (step toFixed) InOrder init evs) :
    (run (step toFixed) init evs).Real
    ∧ ∀ f log, handleSave (run (step toFixed) init evs).scanJobs f = .ok log →
      log.rawT = lastTranscription f (run (step toFixed) init evs).history
      ∧ log.summary = lastSummary f (run (step toFixed) init evs).history := by
  have hinv : ∀ f, JobInv (run (step toFixed) init evs) f := fun f =>
    run_inv_of_meets (fun _ => step_jobInv f) evs init h (init_jobInv f)
  have hreal : (run (step toFixed) init evs).Real := by
    intro f job hjob hstatus
    obtain ⟨hcur, hsum⟩ := (hinv f).complete job hjob hstatus
    obtain ⟨job', hjob', htext⟩ := (hinv f).text hcur
    obtain rfl := Option.some.inj (hjob.symm.trans hjob')
    exact ⟨htext, hsum⟩
  refine ⟨hreal, fun f log hlog => ?_⟩
  unfold handleSave at hlog
  split at hlog
  · rename_i job hjob
    split_ifs at hlog with hstatus
    obtain ⟨htext, hsum⟩ := hreal f job hjob hstatus
    cases hlog
    exact ⟨htext.2, hsum.2⟩
  · cases hlog

/-- A scan of `100` and the three stages of its pipeline. -/
def onePipeline : List (Event ℕ) :=
  [.handleScan 100, .message false (.recordComplete 100),
    .message false (.transcriptionComplete 100 "text"),
    .message false (.summaryComplete 100 "summary")]

/-- Another page's recording of `100` ends after the job is complete: it can still be saved, with
a progress text for a summary. -/
theorem placeholder_saved :
    handleSave (run (step Nat.repr) init
      (onePipeline ++ [.message false (.recordComplete 100)])).scanJobs 100
      = .ok ⟨100, some "text", some "AI: Processing transcription..."⟩
    ∧ lastSummary 100 (run (step Nat.repr) init
      (onePipeline ++ [.message false (.recordComplete 100)])).history = some "summary"
    ∧ ¬ (run (step Nat.repr) init
      (onePipeline ++ [.message false (.recordComplete 100)])).Real := by
  refine ⟨by decide +kernel, by decide +kernel, fun h => ?_⟩
  have hsum := (h 100 ⟨some .complete, some "text", some "AI: Processing transcription..."⟩
    (by decide +kernel) rfl).2.2
  exact absurd hsum (by decide +kernel)

theorem saved_job_real_of_in_order_one_pipeline :
    handleSave (run (step Nat.repr) init onePipeline).scanJobs 100
      = .ok ⟨100, some "text", some "summary"⟩
    ∧ (run (step Nat.repr) init onePipeline).Real :=
  ⟨by decide +kernel, (saved_job_real_of_in_order Nat.repr onePipeline (by decide +kernel)).1⟩

end Page

end Client

end AetherGuard
