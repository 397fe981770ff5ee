import AetherGuard.Lib.Machine

/-!
# The browser's scan jobs

The page keeps a job for each frequency: a status, a text and a summary, each of them undefined
until it is first set. `handleScan` starts a job and, when the request fails, ends it; the status
socket's `onmessage` follows the pipeline's events, whoever started it, and asks for its next stage.
Every writer sets some of the fields and leaves the others as they are. One action is one such
write. The frequencies, as keys, are of any type `F`, and `toFixed` is how the page prints them.
Besides the page's variable the state keeps the actions, newest first.
-/

namespace AetherGuard

namespace Client

/-- A message on `/ws/status`. -/
inductive Update (F : Type*)
  | recordComplete (freq : F)
  | transcriptionComplete (freq : F) (text : String)
  | summaryComplete (freq : F) (summary : String)
  | other
  deriving DecidableEq

/-- A request the page sends on a message, to the `openai` or the `local` endpoint. -/
inductive Request (F : Type*)
  | transcribe (openai : Bool) (freq : F)
  | summarize (openai : Bool) (text : String) (freq : F)
  deriving DecidableEq

inductive Status
  | recording
  | error
  | complete
  deriving DecidableEq

/-- A job, or the fields of one that an update sets. -/
structure Job where
  status : Option Status := none
  rawText : Option String := none
  summary : Option String := none
  deriving DecidableEq

/-- `{ ...job, ...updates }` -/
def Job.merge (job updates : Job) : Job where
  status := updates.status.or job.status
  rawText := updates.rawText.or job.rawText
  summary := updates.summary.or job.summary

inductive Event (F : Type*)
  | handleScan (freq : F)
  | scanFailed (freq : F) (msg : String)
  | message (useOpenAI : Bool) (update : Update F)
  deriving DecidableEq

/-- `scanJobs` -/
abbrev Jobs (F : Type*) := F → Option Job

variable {F : Type*}

def updateJob [DecidableEq F] (jobs : Jobs F) (freq : F) (updates : Job) : Jobs F :=
  Function.update jobs freq (some (((jobs freq).getD {}).merge updates))

/-- The frequency an event is about, and the fields it sets there. -/
def Event.writes (toFixed : F → String) : Event F → Option (F × Job)
  | .handleScan freq => some (freq,
    { status := some .recording
      summary := some "Hardware: Recording 30-second capture..."
      rawText := some ("Capturing audio from " ++ toFixed freq ++ " MHz...") })
  | .scanFailed freq msg => some (freq,
    { status := some .error
      summary := some ("Error: " ++ msg)
      rawText := some "Scan failed. Check server console." })
  | .message _ (.recordComplete freq) => some (freq,
    { summary := some "AI: Processing transcription..." })
  | .message useOpenAI (.transcriptionComplete freq text) => some (freq,
    { rawText := some text
      summary := some ("Generating AI Summary via " ++ (if useOpenAI then "ChatGPT" else "Local")
        ++ "...") })
  | .message _ (.summaryComplete freq summary) => some (freq,
    { status := some .complete
      summary := some summary })
  | .message _ .other => none

/-- The request `onmessage` sends. -/
def Update.request (useOpenAI : Bool) : Update F → Option (Request F)
  | .recordComplete freq => some (.transcribe useOpenAI freq)
  | .transcriptionComplete freq text => some (.summarize useOpenAI text freq)
  | _ => none

/-- What `handleSave` posts to `/api/logs/save`. -/
structure SavedLog (F : Type*) where
  freq : F
  rawT : Option String
  summary : Option String
  deriving DecidableEq

def handleSave (jobs : Jobs F) (targetFreq : F) : Except String (SavedLog F) :=
  match jobs targetFreq with
  | some job =>
    if job.status = some .complete then .ok ⟨targetFreq, job.rawText, job.summary⟩
    else .error "Please wait for the scan to finish before saving!"
  | none => .error "Please wait for the scan to finish before saving!"

structure Page (F : Type*) where
  scanJobs : Jobs F
  history : List (Event F)

def Page.init : Page F := ⟨fun _ => none, []⟩

def Page.step [DecidableEq F] (toFixed : F → String) (s : Page F) (ev : Event F) : Page F where
  scanJobs := match ev.writes toFixed with
    | some (freq, updates) => updateJob s.scanJobs freq updates
    | none => s.scanJobs
  history := ev :: s.history

/-- The text of the last `transcription_complete` for `f`. -/
def lastTranscription [DecidableEq F] (f : F) : List (Event F) → Option String
  | [] => none
  | .message _ (.transcriptionComplete freq text) :: evs =>
    if freq = f then some text else lastTranscription f evs
  | _ :: evs => lastTranscription f evs

/-- The summary of the last `summary_complete` for `f`. -/
def lastSummary [DecidableEq F] (f : F) : List (Event F) → Option String
  | [] => none
  | .message _ (.summaryComplete freq summary) :: evs =>
    if freq = f then some summary else lastSummary f evs
  | _ :: evs => lastSummary f evs

/-- A job that can be saved holds the last transcription and the last summary for its frequency. -/
def Page.Real [DecidableEq F] (s : Page F) : Prop :=
  ∀ f job, s.scanJobs f = some job → job.status = some .complete →
    (job.rawText.isSome ∧ job.rawText = lastTranscription f s.history)
    ∧ (job.summary.isSome ∧ job.summary = lastSummary f s.history)

end Client

end AetherGuard
