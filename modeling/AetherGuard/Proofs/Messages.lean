import AetherGuard.Messages

/-!
# Which messages the loops survive

A message is survived exactly when the fields that are read without a test are there and have the
right types. `commandListener` takes a frequency over before it looks at the command's name, and a
`freq` that is neither a number nor a string as if the present frequency had been asked for; these
are the ways in which a malformed command still changes something.
-/

namespace AetherGuard

namespace Daemon

open Control

variable {F : Type*} {stod : String → Option F} {load : Bytes → Option (Json F)} {s s' : Control F}
  {json : Json F} {c : Command F} {msg line : Bytes}

/-- The mode flags and `g_current_freq` are the same. -/
structure SameModes (s s' : Control F) : Prop where
  scanning : s'.gScanning = s.gScanning
  recording : s'.gRecording = s.gRecording
  liveListen : s'.gLiveListen = s.gLiveListen
  currentFreq : s'.gCurrentFreq = s.gCurrentFreq

theorem SameModes.refl (s : Control F) : SameModes s s := ⟨rfl, rfl, rfl, rfl⟩

/-! ### Reading a command -/

/-- The value is a frequency: a number, or a string of one. -/
def IsFreq (stod : String → Option F) (v : Json F) : Prop :=
  (∃ f, v = .number f) ∨ ∃ t f, v = .string t ∧ stod t = some f

/-- The value is neither a number nor a string. -/
def NoFreq (v : Json F) : Prop := (∀ f, v ≠ .number f) ∧ ∀ t, v ≠ .string t

/-- The document is an object with a command's name, and `P` of the name holds of its `freq`, if it
has one. -/
def HasCommand (P : CommandName → Json F → Prop) (json : Json F) : Prop :=
  ∃ fields cmd, json = .object fields ∧ fields.lookup "command" = some (.string cmd) ∧
    ∀ v, fields.lookup "freq" = some v → P (commandName cmd) v

/-- One of the five commands, with a frequency or none. -/
def WellFormedCommand (stod : String → Option F) (json : Json F) : Prop :=
  HasCommand (fun _ v => IsFreq stod v) json ∧
    ∀ fields cmd, json = .object fields → fields.lookup "command" = some (.string cmd) →
      commandName cmd ≠ .other

theorem freqValue_cases (stod : String → Option F) (v : Json F) :
    (∃ f, freqValue stod v = some (.value f) ∧ IsFreq stod v) ∨
      (freqValue stod v = some .other ∧ NoFreq v) ∨
      (freqValue stod v = none ∧ ¬ IsFreq stod v ∧ ¬ NoFreq v) := by
  cases v with
  | number f => exact .inl ⟨f, rfl, .inl ⟨f, rfl⟩⟩
  | string t =>
    cases ht : stod t with
    | some f => exact .inl ⟨f, by simp [freqValue, ht], .inr ⟨t, f, rfl, ht⟩⟩
    | none => exact .inr (.inr ⟨by simp [freqValue, ht], by simp [IsFreq, ht], by simp [NoFreq]⟩)
  | null => exact .inr (.inl ⟨rfl, by simp [NoFreq]⟩)
  | bool b => exact .inr (.inl ⟨rfl, by simp [NoFreq]⟩)
  | list l => exact .inr (.inl ⟨rfl, by simp [NoFreq]⟩)
  | object fields => exact .inr (.inl ⟨rfl, by simp [NoFreq]⟩)

theorem IsFreq.not_noFreq {v : Json F} (h : IsFreq stod v) : ¬ NoFreq v := by
  rintro ⟨hnumber, hstring⟩
  rcases h with ⟨f, rfl⟩ | ⟨t, f, rfl, -⟩
  · exact hnumber f rfl
  · exact hstring t rfl

theorem freqField_of_none {fields : List (String × Json F)} (h : fields.lookup "freq" = none) :
    freqField stod (.object fields) = some .absent := by
  simp [freqField, Json.has, h]

theorem freqField_of_some {fields : List (String × Json F)} {v : Json F}
    (h : fields.lookup "freq" = some v) : freqField stod (.object fields) = freqValue stod v := by
  simp [freqField, Json.has, Json.get, h]

/-- A document that is read as a command, and what its `freq` is then. -/
theorem parseCommand_eq_some_iff : parseCommand stod json = some c ↔
    ∃ fields cmd, json = .object fields ∧ fields.lookup "command" = some (.string cmd) ∧
      c.command = commandName cmd ∧ freqField stod json = some c.freq := by
  rw [parseCommand, Option.bind_eq_some_iff]
  simp only [Json.bind_get_eq_some_iff, Json.s_eq_some_iff, Option.map_eq_some_iff]
  constructor
  · rintro ⟨cmd, ⟨fields, _, rfl, hcmd, rfl⟩, freq, hfreq, rfl⟩
    exact ⟨fields, cmd, rfl, hcmd, rfl, hfreq⟩
  · rintro ⟨fields, cmd, rfl, hcmd, hname, hfreq⟩
    exact ⟨cmd, ⟨fields, _, rfl, hcmd, rfl⟩, c.freq, hfreq, by rw [← hname]⟩

/-- The messages that are survived without harm. -/
def Harmless (stod : String → Option F) (json : Json F) : Prop :=
  HasCommand (fun name v => (IsFreq stod v ∧ name ≠ .other) ∨
    (NoFreq v ∧ (name = .other ∨ name = .tune))) json

/-- What a harmless message is as a command. -/
def Command.Harmless (c : Command F) : Prop :=
  (∀ f, c.freq = .value f → c.command ≠ .other) ∧
    (c.freq = .other → c.command = .other ∨ c.command = .tune)

theorem harmless_iff : Harmless stod json ↔ ∃ c, parseCommand stod json = some c ∧ c.Harmless := by
  constructor
  · rintro ⟨fields, cmd, rfl, hcmd, hfreq⟩
    cases hv : fields.lookup "freq" with
    | none =>
      refine ⟨⟨commandName cmd, .absent⟩, parseCommand_eq_some_iff.2
        ⟨fields, cmd, rfl, hcmd, rfl, freqField_of_none hv⟩, nofun, nofun⟩
    | some v =>
      rcases freqValue_cases stod v with ⟨f, hval, hf⟩ | ⟨hval, hno⟩ | ⟨-, hf, hno⟩
      · refine ⟨⟨commandName cmd, .value f⟩, parseCommand_eq_some_iff.2
          ⟨fields, cmd, rfl, hcmd, rfl, (freqField_of_some hv).trans hval⟩, fun _ _ => ?_, nofun⟩
        rcases hfreq v hv with h | h
        · exact h.2
        · exact absurd h.1 hf.not_noFreq
      · refine ⟨⟨commandName cmd, .other⟩, parseCommand_eq_some_iff.2
          ⟨fields, cmd, rfl, hcmd, rfl, (freqField_of_some hv).trans hval⟩, nofun, fun _ => ?_⟩
        rcases hfreq v hv with h | h
        · exact absurd hno h.1.not_noFreq
        · exact h.2
      · rcases hfreq v hv with h | h
        · exact absurd h.1 hf
        · exact absurd h.1 hno
  · rintro ⟨c, hc, hvalue, hother⟩
    obtain ⟨fields, cmd, rfl, hcmd, hname, hfreq⟩ := parseCommand_eq_some_iff.1 hc
    refine ⟨fields, cmd, rfl, hcmd, fun v hv => ?_⟩
    rw [freqField_of_some hv] at hfreq
    rw [← hname]
    rcases freqValue_cases stod v with ⟨f, hval, hf⟩ | ⟨hval, hno⟩ | ⟨hval, -⟩
    · exact .inl ⟨hf, hvalue f (Option.some.inj (hfreq.symm.trans hval))⟩
    · exact .inr ⟨hno, hother (Option.some.inj (hfreq.symm.trans hval))⟩
    · simp [hval] at hfreq

theorem wellFormedCommand_iff (hc : parseCommand stod json = some c) :
    WellFormedCommand stod json ↔ c.command ≠ .other ∧ c.freq ≠ .other := by
  obtain ⟨fields, cmd, rfl, hcmd, hname, hfreq⟩ := parseCommand_eq_some_iff.1 hc
  constructor
  · rintro ⟨⟨fields', cmd', hfields, -, hval⟩, hknown⟩
    obtain rfl := Json.object.inj hfields
    refine ⟨hname ▸ hknown fields cmd rfl hcmd, fun hother => ?_⟩
    cases hv : fields.lookup "freq" with
    | none => simp [freqField_of_none hv, hother] at hfreq
    | some v =>
      rw [freqField_of_some hv, hother] at hfreq
      rcases freqValue_cases stod v with ⟨f, h, -⟩ | ⟨-, hno⟩ | ⟨h, -⟩
      · simp [h] at hfreq
      · exact (hval v hv).not_noFreq hno
      · simp [h] at hfreq
  · rintro ⟨hknown, hother⟩
    refine ⟨⟨fields, cmd, rfl, hcmd, fun v hv => ?_⟩, fun fields' cmd' hfields hcmd' => ?_⟩
    · rw [freqField_of_some hv] at hfreq
      rcases freqValue_cases stod v with ⟨f, -, hf⟩ | ⟨h, -⟩ | ⟨h, -⟩
      · exact hf
      · exact absurd (Option.some.inj (hfreq.symm.trans h)) hother
      · simp [h] at hfreq
    · obtain rfl := Json.object.inj hfields
      rw [hcmd] at hcmd'
      obtain rfl := Json.string.inj (Option.some.inj hcmd')
      exact hname ▸ hknown

/-! ### Handling a command -/

/-- How many steps the listener has to the end of its branch, at most. -/
def Listener.stepsLeft : Listener F → ℕ
  | .idle => 0
  | .tuneSend _ | .recordStart _ | .liveRetune _ | .liveStart _ | .stopClear | .scanSend => 1
  | .tuneTestScanning _ | .recordTestRecording _ | .liveTestLive _ | .stopTestLive | .scanSet => 2
  | .recordTestScanning _ | .liveTestScanning _ _ | .scanTestLive => 3
  | .scanTestRecording => 4
  | .scanTestScanning => 5

theorem stepsLeft_eq_zero {l : Listener F} (h : l.stepsLeft = 0) : l = .idle := by
  cases l <;> first | rfl | cases h

theorem stepsLeft_commandListener (s : Control F) (ok : Bool) :
    (s.commandListener ok).listener.stepsLeft ≤ s.listener.stepsLeft - 1 := by
  cases hl : s.listener <;> simp only [commandListener, hl] <;>
    first | split_ifs <;> simp [Listener.stepsLeft] | simp [Listener.stepsLeft]

theorem currentFreq_commandListener (s : Control F) (ok : Bool) :
    (s.commandListener ok).gCurrentFreq = s.gCurrentFreq := by
  cases hl : s.listener <;> simp only [commandListener, hl] <;> rfl

/-- The branch of every command ends. -/
theorem finish_idle (s : Control F) (ok : Bool) : (s.finish ok).listener = .idle := by
  have hle := Machine.run_le_sub (m := fun t : Control F => t.listener.stepsLeft)
    stepsLeft_commandListener (List.replicate 5 ok) s
  have hmax : s.listener.stepsLeft ≤ 5 := by cases s.listener <;> simp [Listener.stepsLeft]
  rw [List.length_replicate] at hle
  exact stepsLeft_eq_zero (Nat.eq_zero_of_le_zero (hle.trans (by omega)))

theorem finish_currentFreq (s : Control F) (ok : Bool) :
    (s.finish ok).gCurrentFreq = s.gCurrentFreq :=
  Machine.run_inv (I := fun t => t.gCurrentFreq = s.gCurrentFreq)
    (fun t ok h => (currentFreq_commandListener t ok).trans h) _ s rfl

theorem receive_currentFreq (hs : s.listener = .idle) (c : Command F) :
    (s.receive c).gCurrentFreq = c.targetFreq s.gCurrentFreq := by
  simp [receive, hs]

/-- A command without a frequency of its own keeps the present one. -/
theorem targetFreq_of_not_value (h : ∀ f, c.freq ≠ .value f) (f : F) : c.targetFreq f = f := by
  unfold Command.targetFreq
  split
  · rename_i g hg
    exact absurd hg (h g)
  · rfl

/-- An unknown command and `TUNE` keep the flags. -/
theorem finish_receive_flags (hs : s.listener = .idle)
    (hc : c.command = .other ∨ c.command = .tune) (ok : Bool) :
    ((s.receive c).finish ok).gScanning = s.gScanning ∧
      ((s.receive c).finish ok).gRecording = s.gRecording ∧
      ((s.receive c).finish ok).gLiveListen = s.gLiveListen := by
  rcases hc with hc | hc
  · simp [finish, Machine.run, receive, hs, hc, commandListener, List.replicate]
  · cases hscan : s.gScanning <;>
      simp [finish, Machine.run, receive, hs, hc, commandListener, List.replicate, hscan, accept,
        sendCtrlCommand]

theorem sameModes_of_harmless (hs : s.listener = .idle) (hc : c.Harmless)
    (hbad : ¬ (c.command ≠ .other ∧ c.freq ≠ .other)) (ok : Bool) :
    SameModes s ((s.receive c).finish ok) := by
  have hname : c.command = .other ∨ c.command = .tune := by
    by_cases hother : c.freq = .other
    · exact hc.2 hother
    · exact .inl (not_not.1 fun hne => hbad ⟨hne, hother⟩)
  have hfreq : ∀ f, c.freq ≠ .value f := by
    intro f hf
    exact hbad ⟨hc.1 f hf, by simp [hf]⟩
  obtain ⟨hscan, hrec, hlive⟩ := finish_receive_flags hs hname ok
  refine ⟨hscan, hrec, hlive, ?_⟩
  rw [finish_currentFreq, receive_currentFreq hs, targetFreq_of_not_value hfreq]

/-- Where a malformed command is not harmless, it changes something in some state. -/
theorem exists_not_sameModes [Nontrivial F] (hc : ¬ c.Harmless) (ok : Bool) :
    ¬ (c.command ≠ .other ∧ c.freq ≠ .other) ∧
      ∃ s : Control F, s.listener = .idle ∧ ¬ SameModes s ((s.receive c).finish ok) := by
  obtain ⟨name, freq⟩ := c
  simp only [Command.Harmless, not_and_or, not_forall, not_not] at hc
  rcases hc with ⟨f, rfl, rfl⟩ | ⟨rfl, hname⟩
  · refine ⟨fun h => h.1 rfl, ?_⟩
    obtain ⟨g, hg⟩ := exists_ne f
    exact ⟨init g, rfl, fun h => hg h.currentFreq.symm⟩
  · refine ⟨fun h => h.2 rfl, ?_⟩
    obtain ⟨f, -⟩ := exists_pair_ne F
    cases name with
    | tune => exact absurd (.inr rfl) hname
    | other => exact absurd (.inl rfl) hname
    | record => exact ⟨init f, rfl, fun h => Bool.noConfusion h.recording⟩
    | liveListen => exact ⟨init f, rfl, fun h => Bool.noConfusion h.liveListen⟩
    | scan => exact ⟨init f, rfl, fun h => Bool.noConfusion h.scanning⟩
    | stopLive =>
      exact ⟨{ init f with gLiveListen := true }, rfl, fun h => Bool.noConfusion h.liveListen⟩

/-- Every state survives the message, and keeps its modes if the message is malformed. -/
def SurvivesCommand (load : Bytes → Option (Json F)) (stod : String → Option F) (msg : Bytes) :
    Prop :=
  ∀ (s : Control F) (ok : Bool), s.listener = .idle →
    ∃ s', s.handleMessage load stod msg ok = some s' ∧ s'.listener = .idle ∧
      ((¬ ∃ json, load (cBytes msg) = some json ∧ WellFormedCommand stod json) → SameModes s s')

theorem handleMessage_of_none (h : load (cBytes msg) = none) (hs : s.listener = .idle) (ok : Bool) :
    s.handleMessage load stod msg ok = some s := by
  simp [handleMessage, takeMessage, h, finish, Machine.run, List.replicate, commandListener, hs]

theorem handleMessage_of_some (h : load (cBytes msg) = some json) (ok : Bool) :
    s.handleMessage load stod msg ok =
      (parseCommand stod json).map fun c => (s.receive c).finish ok := by
  simp [handleMessage, takeMessage, h, Function.comp_def]

theorem survivesCommand_iff [Nontrivial F] : SurvivesCommand load stod msg ↔
    ∀ json, load (cBytes msg) = some json → Harmless stod json := by
  cases hload : load (cBytes msg) with
  | none =>
    refine ⟨fun _ => nofun, fun _ s ok hs => ?_⟩
    exact ⟨s, handleMessage_of_none hload hs ok, hs, fun _ => .refl s⟩
  | some json =>
    simp only [Option.some.injEq, forall_eq', harmless_iff]
    constructor
    · intro h
      obtain ⟨f, -⟩ := exists_pair_ne F
      obtain ⟨s', hs', -⟩ := h (init f) true rfl
      rw [handleMessage_of_some hload, Option.map_eq_some_iff] at hs'
      obtain ⟨c, hc, -⟩ := hs'
      refine ⟨c, hc, ?_⟩
      by_contra hharm
      obtain ⟨hbad, s, hs, hdiff⟩ := exists_not_sameModes hharm true
      obtain ⟨t, ht, -, hsame⟩ := h s true hs
      rw [handleMessage_of_some hload, hc, Option.map_some, Option.some.injEq] at ht
      refine hdiff (ht ▸ hsame ?_)
      rintro ⟨json', hjson', hwell⟩
      obtain rfl := Option.some.inj (hload.symm.trans hjson')
      exact hbad ((wellFormedCommand_iff hc).1 hwell)
    · rintro ⟨c, hc, hharm⟩ s ok hs
      refine ⟨_, by rw [handleMessage_of_some hload, hc, Option.map_some], finish_idle _ _, ?_⟩
      intro hmal
      refine sameModes_of_harmless hs hharm (fun hwell => hmal ?_) ok
      exact ⟨json, hload, (wellFormedCommand_iff hc).2 hwell⟩

/-! ### Handling a line -/

/-- The document is an object with a string as its `event`. -/
def WellFormedEvent (json : Json F) : Prop :=
  ∃ fields t, json = .object fields ∧ fields.lookup "event" = some (.string t)

/-- The document is the empty list, or an object whose `event` is a string if it is there. -/
def ReadableEvent (json : Json F) : Prop :=
  json = .list [] ∨ ∃ fields, json = .object fields ∧
    ∀ v, fields.lookup "event" = some v → ∃ t, v = .string t

/-- Every state survives the line, and keeps its modes if the line is malformed. -/
def SurvivesLine (load : Bytes → Option (Json F)) (line : Bytes) : Prop :=
  ∀ s : Control F, ∃ s', s.handleLine load line = some s' ∧
    ((¬ ∃ json, load line = some json ∧ WellFormedEvent json) → SameModes s s')

theorem eventOf_isSome_iff : (eventOf json).isSome ↔ ReadableEvent json := by
  cases json with
  | object fields =>
    cases hv : fields.lookup "event" with
    | none => simp [eventOf, Json.has, ReadableEvent, hv]
    | some v => cases v <;> simp [eventOf, Json.has, Json.get, Json.s, ReadableEvent, hv]
  | list l => cases l <;> simp [eventOf, Json.has, ReadableEvent]
  | _ => simp [eventOf, Json.has, ReadableEvent]

/-- Only an object with that string has the event `scan_complete`. -/
theorem wellFormedEvent_of_eventOf {t : String} (h : eventOf json = some t) (ht : t ≠ "") :
    WellFormedEvent json := by
  cases json with
  | object fields =>
    cases hv : fields.lookup "event" with
    | none =>
      simp only [eventOf, Json.has, hv, Option.isSome_none, Option.bind_some, Option.some.injEq,
        Bool.false_eq_true, if_false] at h
      exact absurd h.symm ht
    | some v =>
      cases v with
      | string t' => exact ⟨fields, t', rfl, hv⟩
      | _ => simp [eventOf, Json.has, Json.get, Json.s, hv] at h
  | list l =>
    cases l with
    | nil =>
      simp only [eventOf, Json.has, Option.bind_some, Option.some.injEq, Bool.false_eq_true,
        if_false] at h
      exact absurd h.symm ht
    | cons x l => simp [eventOf, Json.has] at h
  | _ => simp [eventOf, Json.has] at h

theorem handleLine_of_some (h : load line = some json) {t : String} (ht : eventOf json = some t) :
    s.handleLine load line = some (if t = "scan_complete" then s.scanComplete else s) := by
  simp only [handleLine, h, ht, Option.map_some]

theorem survivesLine_iff [Nonempty F] :
    SurvivesLine load line ↔ ∀ json, load line = some json → ReadableEvent json := by
  cases hload : load line with
  | none =>
    refine ⟨fun _ => nofun, fun _ s => ⟨s, by simp [handleLine, hload], fun _ => .refl s⟩⟩
  | some json =>
    simp only [Option.some.injEq, forall_eq', ← eventOf_isSome_iff]
    constructor
    · intro h
      obtain ⟨f⟩ := ‹Nonempty F›
      obtain ⟨s', hs', -⟩ := h (init f)
      rw [handleLine, hload, Option.map_eq_some_iff] at hs'
      obtain ⟨t, ht, -⟩ := hs'
      simp [ht]
    · intro h s
      obtain ⟨t, ht⟩ := Option.isSome_iff_exists.1 h
      refine ⟨_, handleLine_of_some hload ht, fun hmal => ?_⟩
      split_ifs with hscan
      · refine absurd ⟨json, hload, wellFormedEvent_of_eventOf ht ?_⟩ hmal
        simp [hscan]
      · exact .refl s

end Daemon

namespace AiWorker

variable {F : Type*} {load : Bytes → Option (Json F)} {msg : Bytes}

/-- The document is an object with a command and a number as its frequency, and with the text that a
summary is asked of. -/
def ReadableRequest (json : Json F) : Prop :=
  ∃ fields cmd f, json = .object fields ∧ fields.lookup "command" = some (.string cmd) ∧
    fields.lookup "freq" = some (.number f) ∧
    (cmd = "SUMMARIZE_LOCAL" ∨ cmd = "SUMMARIZE_OPENAI" →
      ∃ t, fields.lookup "text" = some (.string t))

theorem command_isSome_iff (engines : Engines) (fields : List (String × Json F)) (cmd : String)
    (f : F) : (command engines (.object fields) cmd f).isSome ↔
      (cmd = "SUMMARIZE_LOCAL" ∨ cmd = "SUMMARIZE_OPENAI" →
        ∃ t, fields.lookup "text" = some (.string t)) := by
  have htext : (((Json.object fields).get "text").bind Json.s).isSome ↔
      ∃ t, fields.lookup "text" = some (.string t) := by
    cases hv : fields.lookup "text" with
    | none => simp [Json.get, hv]
    | some v => cases v <;> simp [Json.get, Json.s, hv]
  unfold command
  split_ifs with h1 h2 h3 h4
  · simp [h1]
  · rw [Option.isSome_map, htext]
    simp [h2]
  · simp [h3]
  · rw [Option.isSome_map, htext]
    simp [h4]
  · simp [h2, h4]

theorem main_isSome_iff (engines : Engines) : (main load engines msg).isSome ↔
    ∀ json, load (cBytes msg) = some json → ReadableRequest json := by
  cases hload : load (cBytes msg) with
  | none => simp [main, hload]
  | some json =>
    simp only [Option.some.injEq, forall_eq', main, hload]
    constructor
    · intro h
      obtain ⟨es, hes⟩ := Option.isSome_iff_exists.1 h
      obtain ⟨cmd, hcmd, hrest⟩ := Option.bind_eq_some_iff.1 hes
      obtain ⟨f, hf, hcommand⟩ := Option.bind_eq_some_iff.1 hrest
      obtain ⟨fields, v, rfl, hv, hs⟩ := Json.bind_get_eq_some_iff.1 hcmd
      obtain ⟨fields', w, hfields, hw, hd⟩ := Json.bind_get_eq_some_iff.1 hf
      obtain rfl := Json.object.inj hfields
      obtain rfl := Json.s_eq_some_iff.1 hs
      obtain rfl := Json.d_eq_some_iff.1 hd
      refine ⟨fields, cmd, f, rfl, hv, hw, ?_⟩
      exact (command_isSome_iff engines fields cmd f).1 (Option.isSome_iff_exists.2 ⟨es, hcommand⟩)
    · rintro ⟨fields, cmd, f, rfl, hcmd, hf, htext⟩
      simp only [Json.get, hcmd, hf, Option.bind_some, Json.s, Json.d]
      exact (command_isSome_iff engines fields cmd f).2 htext

end AiWorker

/-- The three loops survive exactly the messages whose fields they can read; `commandListener` then
keeps its modes on a malformed one exactly when it is harmless. -/
theorem service_loops_survive_iff {F : Type*} [Nontrivial F] (load : Bytes → Option (Json F))
    (stod : String → Option F) (engines : AiWorker.Engines) (msg : Bytes) :
    (Daemon.SurvivesCommand load stod msg ↔
      ∀ json, load (cBytes msg) = some json → Daemon.Harmless stod json) ∧
    (Daemon.SurvivesLine load msg ↔ ∀ json, load msg = some json → Daemon.ReadableEvent json) ∧
    ((AiWorker.main load engines msg).isSome ↔
      ∀ json, load (cBytes msg) = some json → AiWorker.ReadableRequest json) :=
  ⟨Daemon.survivesCommand_iff, Daemon.survivesLine_iff, AiWorker.main_isSome_iff engines⟩

/-- An object without fields ends `commandListener`, a number ends `ctrlReaderThread`, and a command
without a frequency ends the worker; an unknown command changes the frequency. -/
theorem messages_end_the_services :
    let stod : String → Option ℕ := fun _ => none
    let s : Daemon.Control ℕ := .init 5
    (s.handleMessage (fun _ => some (.object [])) stod [123, 125] true).isNone ∧
    ((s.handleMessage
      (fun _ => some (.object [("command", .string "PING"), ("freq", .number 7)])) stod [] true).map
        Daemon.Control.gCurrentFreq = some 7) ∧
    (s.handleLine (fun _ => some (.number 1)) [49]).isNone ∧
    (AiWorker.main (fun _ => some (.object [("command", .string "TRANSCRIBE_LOCAL")]) : Bytes →
      Option (Json ℕ)) ⟨"", id, "", id⟩ []).isNone := by
  intro stod s
  refine ⟨?_, ?_, ?_, ?_⟩
  · rw [Daemon.handleMessage_of_some rfl]
    rfl
  · rw [Daemon.handleMessage_of_some rfl]
    rfl
  · simp [Daemon.Control.handleLine, Daemon.eventOf, Json.has]
  · simp [AiWorker.main, Json.get, Json.s, List.lookup_cons]

/-- A `STOP_LIVE` without a frequency is harmless. -/
theorem service_loops_survive_iff_stop_live :
    Daemon.SurvivesCommand (fun _ => some (.object [("command", .string "STOP_LIVE")]))
      (fun _ : String => (none : Option ℕ)) [] := by
  refine (service_loops_survive_iff _ _ ⟨"", id, "", id⟩ []).1.2 ?_
  rintro _ ⟨⟩
  exact ⟨_, "STOP_LIVE", rfl, rfl, nofun⟩

end AetherGuard
