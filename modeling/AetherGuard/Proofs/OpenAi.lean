import AetherGuard.OpenAi
import AetherGuard.Proofs.Messages

/-!
# Which responses end the worker

A body that is no JSON is caught, and one without the outermost key is answered with the empty
string. Behind that key every access may throw, and a missing member ends as a null that is no
string: so a response with the key is survived exactly when it holds a string at the place, or, of a
completion, when `choices` is empty. A number that overflows and a transcript that is not UTF-8 are
not caught either.
-/

namespace AetherGuard

namespace AiWorker

variable {F : Type*} {curl : Curl F} {parse : Bytes → Except Json.Error (Json F)}

/-- The body of a transfer that has succeeded. -/
def Curl.answer (curl : Curl F) (request : Request F) : Option Bytes :=
  if curl.inits = true ∧ (curl.perform request).1 = curleOk then some (curl.perform request).2
  else none

/-- The string that a transcription holds. -/
def heldText (j : Json F) : Option String := j.stringAt ["text"]

/-- The string that a completion holds: `choices[0].message.content`. -/
def heldContent (j : Json F) : Option String :=
  ((j.get "choices").bind (Json.nth 0)).bind fun choice => choice.stringAt ["message", "content"]

/-! ### Reading a document -/

/-- The reader returns the empty string where `absent` holds, and else throws unless a string
is held. -/
structure Reads (read : Json F → Except Json.Error String) (absent : Json F → Bool)
    (held : Json F → Option String) : Prop where
  eq : ∀ j, read j = if absent j then .ok "" else Json.orTypeError (held j)
  held_of_absent : ∀ j, absent j = true → held j = none

def noText (j : Json F) : Bool := (j.get "text").isNone

/-- There are no `choices`, or none in it. -/
def noChoices (j : Json F) : Bool := (j.get "choices").all Json.isEmpty

theorem reads_text : Reads (F := F) readText noText heldText where
  eq j := by
    have hread := Json.member_bind Json.text_eq rfl j "text"
    rw [readText, Json.contains_eq, noText]
    cases hget : j.get "text" with
    | none => simp
    | some v =>
      rw [hread, heldText, Json.stringAt, hget]
      rfl
  held_of_absent j hj := by
    rw [noText, Option.isNone_iff_eq_none] at hj
    rw [heldText, Json.stringAt, hj]
    rfl

/-- What `readContent` makes of `choices` that are not empty. -/
theorem item_message_content (choices : Json F) :
    ((choices.item 0).bind fun choice => (choice.member "message").bind fun message =>
      (message.member "content").bind Json.text) =
      Json.orTypeError
        ((choices.nth 0).bind fun choice => choice.stringAt ["message", "content"]) :=
  Json.item_bind (fun choice => Json.member_bind (fun message =>
    Json.member_bind Json.text_eq rfl message "content") rfl choice "message") rfl choices 0

theorem reads_content : Reads (F := F) readContent noChoices heldContent where
  eq j := by
    rw [readContent, Json.contains_eq, noChoices, heldContent]
    cases hget : j.get "choices" with
    | none => simp
    | some choices =>
      obtain ⟨fields, rfl, hlookup⟩ := Json.get_eq_some_iff.1 hget
      have hmember : (Json.object fields).member "choices" = .ok choices := by
        rw [Json.member, hlookup]
        rfl
      rw [hmember]
      cases hempty : choices.isEmpty with
      | true => simp [Except.bind, hempty]
      | false => simpa [Except.bind, hempty] using item_message_content choices
  held_of_absent j hj := by
    rw [noChoices] at hj
    rw [heldContent]
    cases hget : j.get "choices" with
    | none => rfl
    | some choices =>
      rw [hget, Option.all_some] at hj
      cases choices <;> simp_all [Json.isEmpty, Json.nth]

/-! ### Sending a request -/

/-- The function returns the string that is held, and the empty string if none is. -/
def Yields (result : Except Json.Error String) (Held : String → Prop) : Prop :=
  ∃ out, result = .ok out ∧ (∀ t, Held t → out = t) ∧ ((¬ ∃ t, Held t) → out = "")

/-- The transfer succeeds and its body is this document. -/
def Received (curl : Curl F) (parse : Bytes → Except Json.Error (Json F)) (request : Request F)
    (j : Json F) : Prop :=
  ∃ body, curl.answer request = some body ∧ parse body = .ok j

/-- If the transfer succeeds, then its body is no JSON or a document with `P`. -/
def Readable (curl : Curl F) (parse : Bytes → Except Json.Error (Json F)) (P : Json F → Prop)
    (request : Request F) : Prop :=
  ∀ body, curl.answer request = some body →
    (∀ e, parse body = .error e → e = .parseError) ∧ ∀ j, parse body = .ok j → P j

section Ask

variable {read : Json F → Except Json.Error String} {absent : Json F → Bool}
  {held : Json F → Option String}

theorem Reads.eq_ok_of_absent (h : Reads read absent held) {j : Json F} (hj : absent j = true) :
    read j = .ok "" := by
  rw [h.eq, if_pos hj]

theorem Reads.eq_ok_of_held (h : Reads read absent held) {j : Json F} {t : String}
    (ht : held j = some t) : read j = .ok t := by
  have hj : ¬ absent j = true := by
    intro hj
    simp [h.held_of_absent j hj] at ht
  rw [h.eq, if_neg hj, ht]
  rfl

theorem Reads.eq_error (h : Reads read absent held) {j : Json F} (hj : ¬ absent j = true)
    (ht : held j = none) : read j = .error .typeError := by
  rw [h.eq, if_neg hj, ht]
  rfl

/-- What `ask` comes to once the request is there: nothing has been received, or the body
is read. -/
theorem ask_ok (curl : Curl F) (parse : Bytes → Except Json.Error (Json F))
    (read : Json F → Except Json.Error String) (request : Request F) :
    (curl.answer request = none ∧ ask curl parse (.ok request) read = .ok "") ∨
    ∃ body, curl.answer request = some body ∧
      ask curl parse (.ok request) read = catchParseError ((parse body).bind read) := by
  unfold Curl.answer ask
  by_cases hinit : curl.inits = true
  · by_cases hcode : (curl.perform request).1 = curleOk
    · exact .inr
        ⟨(curl.perform request).2, by simp [hinit, hcode], by simp [hinit, hcode, Except.bind]⟩
    · exact .inl ⟨by simp [hcode], by simp [hinit, hcode, Except.bind]⟩
  · exact .inl ⟨by simp [hinit], by simp [hinit]⟩

/-- A response that can be read gives what it holds. -/
theorem Reads.ask_yields (h : Reads read absent held) {request : Request F}
    (hread : Readable curl parse (fun j => absent j = true ∨ ∃ t, held j = some t) request) :
    Yields (ask curl parse (.ok request) read)
      (fun t => ∃ j, Received curl parse request j ∧ held j = some t) := by
  rcases ask_ok curl parse read request with ⟨hnone, hask⟩ | ⟨body, hbody, hask⟩
  · refine ⟨"", hask, ?_, fun _ => rfl⟩
    rintro t ⟨j, ⟨body, hbody, -⟩, -⟩
    simp [hnone] at hbody
  · obtain ⟨herror, hdoc⟩ := hread body hbody
    simp only [hask, Received, hbody, Option.some.injEq, exists_eq_left']
    cases hparse : parse body with
    | error e =>
      obtain rfl := herror e hparse
      exact ⟨"", rfl, by simp, fun _ => rfl⟩
    | ok j =>
      simp only [Except.bind, Except.ok.injEq, exists_eq_left']
      rcases hdoc j hparse with habsent | ⟨t, ht⟩
      · rw [h.eq_ok_of_absent habsent, h.held_of_absent j habsent]
        exact ⟨"", rfl, by simp, fun _ => rfl⟩
      · rw [h.eq_ok_of_held ht, ht]
        exact ⟨t, rfl, by simp, fun hno => absurd ⟨t, rfl⟩ hno⟩

/-- No other response lets the function return. -/
theorem Reads.readable_of_ask (h : Reads read absent held) {request : Request F} {out : String}
    (hout : ask curl parse (.ok request) read = .ok out) :
    Readable curl parse (fun j => absent j = true ∨ ∃ t, held j = some t) request := by
  intro body hbody
  rcases ask_ok curl parse read request with ⟨hnone, -⟩ | ⟨body', hbody', hask⟩
  · simp [hnone] at hbody
  · obtain rfl := Option.some.inj (hbody'.symm.trans hbody)
    rw [hask] at hout
    constructor
    · intro e he
      rw [he] at hout
      cases e with
      | parseError => rfl
      | typeError => cases hout
      | outOfRange => cases hout
    · intro j hj
      by_contra hno
      obtain ⟨habsent, hheld⟩ := not_or.1 hno
      have hnone : held j = none := Option.eq_none_iff_forall_ne_some.2 fun t ht => hheld ⟨t, ht⟩
      rw [hj, Except.bind, h.eq_error habsent hnone] at hout
      cases hout

end Ask

/-! ### The two functions -/

/-- There is no `text`, or it is a string. -/
def TextReadable (j : Json F) : Prop := noText j = true ∨ ∃ t, heldText j = some t

/-- There are no `choices`, or the first one's message has a string as its content. -/
def ContentReadable (j : Json F) : Prop := noChoices j = true ∨ ∃ t, heldContent j = some t

def TranscriptionReadable (curl : Curl F) (parse : Bytes → Except Json.Error (Json F))
    (filePath apiKey : String) : Prop :=
  Readable curl parse TextReadable (transcriptionRequest filePath apiKey)

/-- There is nothing to summarize or no way to ask, or else the transcript is UTF-8 and the response
can be read. -/
def SummaryReadable (curl : Curl F) (parse : Bytes → Except Json.Error (Json F))
    (transcript : Bytes) (apiKey : String) : Prop :=
  transcript = [] ∨ curl.inits = false ∨ ∃ request, summaryRequest transcript apiKey = .ok request ∧
    Readable curl parse ContentReadable request

/-- The text of the transcription. -/
def Transcribed (curl : Curl F) (parse : Bytes → Except Json.Error (Json F))
    (filePath apiKey t : String) : Prop :=
  ∃ j, Received curl parse (transcriptionRequest filePath apiKey) j ∧ heldText j = some t

/-- The content of the completion that has been asked for. -/
def Summarized (curl : Curl F) (parse : Bytes → Except Json.Error (Json F)) (transcript : Bytes)
    (apiKey t : String) : Prop :=
  transcript ≠ [] ∧ ∃ request j, summaryRequest transcript apiKey = .ok request ∧
    Received curl parse request j ∧ heldContent j = some t

section Functions

variable {filePath apiKey out : String} {transcript : Bytes}

theorem transcribeAudio_yields (h : TranscriptionReadable curl parse filePath apiKey) :
    Yields (transcribeAudio curl parse filePath apiKey) (Transcribed curl parse filePath apiKey) :=
  reads_text.ask_yields h

theorem transcriptionReadable_of_ok (h : transcribeAudio curl parse filePath apiKey = .ok out) :
    TranscriptionReadable curl parse filePath apiKey :=
  reads_text.readable_of_ask h

theorem transcribeAudio_returns_iff :
    (∃ out, transcribeAudio curl parse filePath apiKey = .ok out) ↔
      TranscriptionReadable curl parse filePath apiKey := by
  refine ⟨fun ⟨out, hout⟩ => transcriptionReadable_of_ok hout, fun h => ?_⟩
  obtain ⟨out, hout, -⟩ := transcribeAudio_yields h
  exact ⟨out, hout⟩

theorem ask_of_not_inits (h : curl.inits = false) (request : Except Json.Error (Request F))
    (read : Json F → Except Json.Error String) : ask curl parse request read = .ok "" := by
  simp [ask, h]

theorem not_received_of_not_inits (h : curl.inits = false) (request : Request F) (j : Json F) :
    ¬ Received curl parse request j := by
  rintro ⟨body, hbody, -⟩
  simp [Curl.answer, h] at hbody

theorem summarizeText_yields (h : SummaryReadable curl parse transcript apiKey) :
    Yields (summarizeText curl parse transcript apiKey)
      (Summarized curl parse transcript apiKey) := by
  by_cases hempty : transcript = []
  · exact ⟨"", by simp [summarizeText, hempty], fun t ht => absurd hempty ht.1, fun _ => rfl⟩
  have hask : summarizeText curl parse transcript apiKey =
      ask curl parse (summaryRequest transcript apiKey) readContent := by
    simp [summarizeText, hempty]
  rw [hask]
  rcases h.resolve_left hempty with hinit | ⟨request, hrequest, hread⟩
  · refine ⟨"", ask_of_not_inits hinit _ _, ?_, fun _ => rfl⟩
    rintro t ⟨-, request, j, -, hj, -⟩
    exact absurd hj (not_received_of_not_inits hinit request j)
  · rw [hrequest]
    obtain ⟨out, hout, hheld, hnone⟩ := reads_content.ask_yields hread
    refine ⟨out, hout, ?_, fun hno => hnone ?_⟩
    · rintro t ⟨-, request', j, hrequest', hj⟩
      obtain rfl := Except.ok.inj (hrequest.symm.trans hrequest')
      exact hheld t ⟨j, hj⟩
    · rintro ⟨t, j, hj⟩
      exact hno ⟨t, hempty, request, j, hrequest, hj⟩

theorem summaryReadable_of_ok (h : summarizeText curl parse transcript apiKey = .ok out) :
    SummaryReadable curl parse transcript apiKey := by
  by_cases hempty : transcript = []
  · exact .inl hempty
  cases hinit : curl.inits with
  | false => exact .inr (.inl hinit)
  | true =>
    cases hrequest : (summaryRequest transcript apiKey : Except Json.Error (Request F)) with
    | error e => simp [summarizeText, hempty, ask, hinit, hrequest, Except.bind] at h
    | ok request =>
      rw [summarizeText, if_neg (by simpa using hempty), hrequest] at h
      exact .inr (.inr ⟨request, hrequest, reads_content.readable_of_ask h⟩)

theorem summarizeText_returns_iff :
    (∃ out, summarizeText curl parse transcript apiKey = .ok out) ↔
      SummaryReadable curl parse transcript apiKey := by
  refine ⟨fun ⟨out, hout⟩ => summaryReadable_of_ok hout, fun h => ?_⟩
  obtain ⟨out, hout, -⟩ := summarizeText_yields h
  exact ⟨out, hout⟩

/-! ### The worker -/

variable {load : Bytes → Option (Json F)} {engines : Engines} {bytes : String → Bytes} {msg : Bytes}

/-- The responses to the cloud's part of the request can be read. -/
def CloudReadable (curl : Curl F) (parse : Bytes → Except Json.Error (Json F))
    (bytes : String → Bytes) (apiKey : String) (json : Json F) : Prop :=
  (json.stringAt ["command"] = some "TRANSCRIBE_OPENAI" →
    TranscriptionReadable curl parse "/app/shared/audio/audio.wav" apiKey) ∧
  (json.stringAt ["command"] = some "SUMMARIZE_OPENAI" →
    ∀ text, json.stringAt ["text"] = some text → SummaryReadable curl parse (bytes text) apiKey)

theorem isSome_toOption_iff {r : Except Json.Error String} :
    r.toOption.isSome = true ↔ ∃ out, r = .ok out := by
  cases r <;> simp [Except.toOption]

theorem cloudCommand_isSome_iff (json : Json F) (cmd : String) (targetFreq : F)
    (hcmd : json.stringAt ["command"] = some cmd) :
    (cloudCommand curl parse engines bytes apiKey json cmd targetFreq).isSome ↔
      (command engines json cmd targetFreq).isSome
      ∧ CloudReadable curl parse bytes apiKey json := by
  simp only [CloudReadable, hcmd, Option.some.injEq]
  unfold cloudCommand
  split_ifs with h1 h2
  · subst h1
    rw [Option.isSome_map, isSome_toOption_iff, transcribeAudio_returns_iff]
    simp [command]
  · subst h2
    have htext : json.stringAt ["text"] = (json.get "text").bind Json.s := rfl
    have hcommand : command engines json "SUMMARIZE_OPENAI" targetFreq =
        ((json.get "text").bind Json.s).map fun text =>
          [.summaryComplete (engines.summarizeText text) targetFreq] := by
      simp [command]
    rw [htext, hcommand]
    cases (json.get "text").bind Json.s with
    | none => simp
    | some text =>
      rw [Option.bind_some, Option.isSome_map, isSome_toOption_iff,
        summarizeText_returns_iff]
      simp
  · simp [h1, h2]

/-- The worker survives a round exactly when it can read the request and the response to it. -/
theorem cloudMain_isSome_iff : (cloudMain curl parse load engines bytes apiKey msg).isSome ↔
    ∀ json, load (cBytes msg) = some json →
      ReadableRequest json ∧ CloudReadable curl parse bytes apiKey json := by
  have hmain : (main load engines msg).isSome ↔ _ := main_isSome_iff engines
  cases hload : load (cBytes msg) with
  | none => simp [cloudMain, hload]
  | some json =>
    rw [hload] at hmain
    simp only [Option.some.injEq, forall_eq'] at hmain ⊢
    rw [← hmain, main, cloudMain, hload]
    have hread : json.stringAt ["command"] = (json.get "command").bind Json.s := rfl
    cases hcmd : (json.get "command").bind Json.s with
    | none => simp [hcmd]
    | some cmd =>
      cases hfreq : (json.get "freq").bind Json.d with
      | none => simp [hcmd, hfreq]
      | some f =>
        simpa [hcmd, hfreq] using cloudCommand_isSome_iff json cmd f (hread.trans hcmd)

/-- Where both functions return, a round is one with engines that do. -/
theorem cloudMain_eq_main
    (htext : transcribeAudio curl parse "/app/shared/audio/audio.wav" apiKey
      = .ok engines.transcribeAudio)
    (hsummary : ∀ t, summarizeText curl parse (bytes t) apiKey = .ok (engines.summarizeText t)) :
    cloudMain curl parse load engines bytes apiKey msg = main load engines msg := by
  have hcommand : ∀ (json : Json F) cmd targetFreq,
      cloudCommand curl parse engines bytes apiKey json cmd targetFreq =
        command engines json cmd targetFreq := by
    intro json cmd targetFreq
    unfold cloudCommand
    split_ifs with h1 h2
    · simp [h1, htext, command, Except.toOption]
    · cases ht : (json.get "text").bind Json.s <;> simp [h2, hsummary, command, Except.toOption, ht]
    · rfl
  cases hload : load (cBytes msg) <;> simp only [cloudMain, main, hload, hcommand]

end Functions

/-- Each of the two functions returns what the response holds, or the empty string, exactly when
the response can be read; and the worker survives a round exactly when this and the request can
be read. -/
theorem cloud_calls_return_iff (curl : Curl F) (parse : Bytes → Except Json.Error (Json F))
    (load : Bytes → Option (Json F)) (engines : Engines) (bytes : String → Bytes)
    (filePath apiKey : String) (transcript msg : Bytes) :
    (Yields (transcribeAudio curl parse filePath apiKey) (Transcribed curl parse filePath apiKey) ↔
      TranscriptionReadable curl parse filePath apiKey) ∧
    (Yields (summarizeText curl parse transcript apiKey) (Summarized curl parse transcript apiKey) ↔
      SummaryReadable curl parse transcript apiKey) ∧
    ((cloudMain curl parse load engines bytes apiKey msg).isSome ↔
      ∀ json, load (cBytes msg) = some json →
        ReadableRequest json ∧ CloudReadable curl parse bytes apiKey json) :=
  ⟨⟨fun ⟨_, hout, _⟩ => transcriptionReadable_of_ok hout, transcribeAudio_yields⟩,
    ⟨fun ⟨_, hout, _⟩ => summaryReadable_of_ok hout, summarizeText_yields⟩, cloudMain_isSome_iff⟩

/-- A transfer that succeeds, whatever is asked. -/
def answering (body : Bytes) : Curl ℕ := ⟨true, fun _ => (curleOk, body)⟩

/-- A null for a text and a choice without a message end in a type error, and a number that
overflows in one of range, next to the text asked for; the worker ends with them. -/
theorem responses_end_the_worker :
    let nullText := "\x7b\"text\":null\x7d".toUTF8.data.toList
    let noMessage := "\x7b\"choices\":[\x7b\x7d]\x7d".toUTF8.data.toList
    let overflow := "\x7b\"text\":\"hi\",\"n\":1e999\x7d".toUTF8.data.toList
    let parse : Bytes → Except Json.Error (Json ℕ) := fun body =>
      if body = nullText then .ok (.object [("text", .null)])
      else if body = noMessage then .ok (.object [("choices", .list [.object []])])
      else if body = overflow then .error .outOfRange
      else .error .parseError
    transcribeAudio (answering nullText) parse "audio.wav" "key" = .error .typeError ∧
    summarizeText (answering noMessage) parse [104, 105] "key" = .error .typeError ∧
    transcribeAudio (answering overflow) parse "audio.wav" "key" = .error .outOfRange ∧
    (cloudMain (answering nullText) parse
      (fun _ => some (.object [("command", .string "TRANSCRIBE_OPENAI"), ("freq", .number 98)]))
      ⟨"", id, "", id⟩ (fun _ => []) "key" []).isNone := by
  decide +kernel

end AiWorker

end AetherGuard
