import AetherGuard.AgentChat
import AetherGuard.Proofs.DatabaseEffects
import AetherGuard.Proofs.DatabaseHandles

/-!
# Which tool calls are answered

The two loops over the calls stay in step: whatever the database does, either every call is repeated
and answered, or an exception ends the handler before the second request (`answerCalls_answers`).
The exceptions come from the arguments of a search. They have to be an object or a list, `freq` and
`keyword` strings if they are there, and a `freq` that is not empty has to start like a number in
range; only a database that fails before the frequency is bound lets another one pass.
-/

namespace AetherGuard

namespace AgentChat

open Database (Db Reply Sound)

variable {F : Type*} {w : World F} {replies : ℕ → Reply}

/-! ### What the documents hold -/

def HoldsUser (msg : Json F) (user : String × String) : Prop :=
  msg.stringAt ["role"] = some user.1 ∧ msg.stringAt ["content"] = some user.2

def HoldsCall (tc : Json F) (call : ToolCall) : Prop :=
  tc.stringAt ["id"] = some call.id ∧ tc.stringAt ["type"] = some call.type ∧
    tc.stringAt ["function", "name"] = some call.name ∧
    tc.stringAt ["function", "arguments"] = some call.arguments

/-- The request is a list of messages with these roles and contents. -/
def HoldsUsers (body : Json F) (users : List (String × String)) : Prop :=
  ∃ msgs, (body.get "messages").bind Json.elements = some msgs ∧ List.Forall₂ HoldsUser msgs users

/-- The message of the response carries these calls. -/
def HoldsCalls (response : Json F) (calls : List ToolCall) : Prop :=
  ∃ node tcs, ((response.get "choices").bind (Json.nth 0)).bind (·.get "message") = some node ∧
    (node.get "tool_calls").bind Json.elements = some tcs ∧ List.Forall₂ HoldsCall tcs calls

/-- The message answers the call. -/
def Answers (call : ToolCall) (msg : Json F) : Prop := ∃ text, msg = toolResultMsg call.id text

/-- The first list of messages. -/
def opening (users : List (String × String)) : List (Json F) :=
  sysMsg :: users.map fun user => message user.1 user.2

/-- The system message, the user's messages, one message that repeats the calls, and one answer
to each. -/
def Conversation (users : List (String × String)) (calls : List ToolCall) (msgs : List (Json F)) :
    Prop :=
  ∃ toolMsgs, msgs = opening users ++ [assistantMsg (calls.map ToolCall.json)] ++ toolMsgs ∧
    List.Forall₂ Answers calls toolMsgs

/-- A loop over what holds the `cs` gives what `f` gives of each. -/
theorem mapM_eq_some_of_forall₂ {α γ : Type*} {β : Type*} {f : α → Option β} {g : γ → β}
    {R : α → γ → Prop} (hf : ∀ a c, R a c → f a = some (g c)) {l : List α} {cs : List γ}
    (h : List.Forall₂ R l cs) : l.mapM f = some (cs.map g) := by
  induction h with
  | nil => rfl
  | cons hac _ ih => simp [hf _ _ hac, ih]

theorem userMsgs_eq {body : Json F} {users : List (String × String)} (h : HoldsUsers body users) :
    userMsgs body = some (users.map fun user => message user.1 user.2) := by
  obtain ⟨msgs, hmsgs, hall⟩ := h
  rw [userMsgs, hmsgs]
  refine mapM_eq_some_of_forall₂ (fun msg user hold => ?_) hall
  simp [userMsg, hold.1, hold.2]

theorem tCalls_eq {tcs : List (Json F)} {calls : List ToolCall}
    (h : List.Forall₂ HoldsCall tcs calls) :
    tcs.mapM tCall = some (calls.map ToolCall.json) := by
  refine mapM_eq_some_of_forall₂ (fun tc call hold => ?_) h
  obtain ⟨hid, htype, hname, hargs⟩ := hold
  simp [tCall, hid, htype, hname, hargs]

/-! ### One call -/

def IsSearch (name : String) : Prop := name = "searchDatabase" ∨ name = "searchDatabaseKeywords"

/-- No frequency, or one that `std::stod` takes. -/
def FreqParses (w : World F) (freq : String) : Prop :=
  freq = "" ∨ (LogStore.stod w.inRange freq.toList).isSome = true

/-- A search has arguments that can be read: the empty list, or an object in which `freq` and
`keyword` are strings, if they are there, and `freq` parses. -/
def Answerable (w : World F) (call : ToolCall) : Prop :=
  IsSearch call.name → ∃ args, w.load call.arguments = some args ∧
    (args = .list [] ∨ ∃ fields, args = .object fields ∧
      (∀ v, fields.lookup "freq" = some v → ∃ t, v = .string t ∧ FreqParses w t) ∧
      ∀ v, fields.lookup "keyword" = some v → ∃ t, v = .string t)

theorem argument_nil (key : String) : argument (some (.list [] : Json F)) key = some "" := rfl

theorem argument_object (fields : List (String × Json F)) (key : String) :
    argument (some (.object fields)) key = (fields.lookup key).elim (some "") Json.s := by
  cases hv : fields.lookup key <;> simp [argument, Json.has, Json.stringAt, Json.get, hv]

/-- Both arguments are read, and the frequency parses. -/
def Reads (w : World F) (args : Option (Json F)) : Prop :=
  ∃ freq keyword, argument args "freq" = some freq ∧ argument args "keyword" = some keyword ∧
    FreqParses w freq

theorem elim_eq_some_iff {o : Option (Json F)} {P : String → Prop} (hempty : P "") :
    (∃ t, o.elim (some "") Json.s = some t ∧ P t) ↔ ∀ v, o = some v → ∃ t, v = .string t ∧ P t := by
  cases o with
  | none => simp [hempty]
  | some v => simp [Json.s_eq_some_iff]

theorem answerable_iff {call : ToolCall} (hname : IsSearch call.name) :
    Answerable w call ↔ Reads w (w.load call.arguments) := by
  unfold Answerable Reads
  cases hload : w.load call.arguments with
  | none => simp [hname, argument]
  | some args =>
    cases args with
    | list l =>
      cases l with
      | nil => simp [hname, argument_nil, FreqParses]
      | cons x l => simp [hname, argument, Json.has]
    | object fields =>
      have hfreq := elim_eq_some_iff (o := fields.lookup "freq") (P := FreqParses w) (.inl rfl)
      have hkeyword := elim_eq_some_iff (o := fields.lookup "keyword") (P := fun _ => True) trivial
      simp only [and_true] at hkeyword
      simp only [hname, true_imp_iff, Option.some.injEq, exists_eq_left', reduceCtorEq,
        false_or, Json.object.injEq, argument_object, ← hfreq, ← hkeyword]
      constructor
      · rintro ⟨⟨freq, hf, hp⟩, keyword, hk⟩
        exact ⟨freq, keyword, hf, hk, hp⟩
      · rintro ⟨freq, keyword, hf, hk, hp⟩
        exact ⟨⟨freq, hf, hp⟩, keyword, hk⟩
    | _ => simp [hname, argument, Json.has]

/-- The search is a filter, whose placeholders can be bound exactly if the frequency parses. -/
theorem advancedSearch_eq_filter (w : World F) (replies : ℕ → Reply) (freq keyword : String) :
    ∃ bound, advancedSearch w replies freq.toList keyword.toList = Database.filter replies bound ∧
      (bound.isSome = true ↔ FreqParses w freq) := by
  have hbinds : ∀ (stod : Text → Option ℚ),
    ((LogStore.Filters.mk freq.toList [] keyword.toList [] []).binds
      stod fun _ => none).isSome = true ↔ (freq = "" ∨ (stod freq.toList).isSome = true) := by
    intro stod
    have hnone :=
      Database.binds_eq_none_iff stod (fun _ => none) ⟨freq.toList, [], keyword.toList, [], []⟩
    rw [Option.isSome_iff_ne_none, Ne, hnone]
    cases hs : stod freq.toList <;> simp [Database.Unparsed, hs, String.toList_eq_nil_iff]
  unfold advancedSearch FreqParses
  by_cases hempty : freq = ""
  · subst hempty
    refine ⟨_, rfl, ?_⟩
    simpa using hbinds fun _ => none
  have hlist : freq.toList.isEmpty = false := by simpa using hempty
  simp only [hlist, Bool.false_eq_true, if_false]
  rcases LogStore.stod w.inRange freq.toList with _ | (x | negative | _)
  · refine ⟨_, rfl, ?_⟩
    simpa using hbinds fun _ => none
  · refine ⟨_, rfl, ?_⟩
    simpa using hbinds fun _ => some x
  · exact ⟨_, rfl, by simp⟩
  · exact ⟨_, rfl, by simp⟩

theorem filter_isSome {bound : Option (LogStore.RadioLogs → List RadioLog)}
    (h : bound.isSome = true) (db : Db) : (Database.filter replies bound db).1.isSome = true := by
  obtain ⟨results, rfl⟩ := Option.isSome_iff_exists.1 h
  rcases hopen : Database.sqlite3Open replies db with ⟨ok, opened⟩
  simp only [Database.filter, hopen]
  split_ifs
  · rcases Database.sqlite3Prepare replies opened with ⟨_ | stmt, db'⟩ <;> rfl
  · rfl

theorem dbResultText_isSome_of_answerable {call : ToolCall} (h : Answerable w call)
    (replies : ℕ → Reply) (db : Db) :
    (dbResultText w replies call.name (w.load call.arguments) db).1.isSome = true := by
  unfold dbResultText
  split_ifs with hname
  · obtain ⟨freq, keyword, hf, hk, hparses⟩ := (answerable_iff hname).1 h
    obtain ⟨bound, hsearch, hbound⟩ := advancedSearch_eq_filter w replies freq keyword
    simp only [hf, hk, Option.bind_some, Option.map_some, hsearch]
    rw [Option.isSome_map]
    exact filter_isSome (hbound.2 hparses) db
  · rfl

/-- On a database that works, a call whose result is there was answerable, and the table is
still there. -/
theorem answerable_of_dbResultText (hs : Sound replies) {call : ToolCall} {db : Db}
    {t : LogStore.RadioLogs} (ht : db.radioLogs = some t)
    (h : (dbResultText w replies call.name (w.load call.arguments) db).1.isSome = true) :
    Answerable w call ∧
      (dbResultText w replies call.name (w.load call.arguments) db).2.radioLogs = some t := by
  by_cases hname : IsSearch call.name
  · rw [answerable_iff hname]
    simp only [dbResultText, if_pos (show _ ∨ _ from hname)] at h ⊢
    cases hf : argument (w.load call.arguments) "freq" with
    | none => simp [hf] at h
    | some freq =>
      cases hk : argument (w.load call.arguments) "keyword" with
      | none => simp [hf, hk] at h
      | some keyword =>
        obtain ⟨bound, hsearch, hbound⟩ := advancedSearch_eq_filter w replies freq keyword
        simp only [hf, hk, Option.bind_some, Option.map_some, hsearch, Option.isSome_map,
          hs.filter ht] at h ⊢
        obtain ⟨results, rfl⟩ := Option.isSome_iff_exists.1 h
        exact ⟨⟨freq, keyword, hf, hk, hbound.1 rfl⟩, hs.filter_radioLogs ht results⟩
  · refine ⟨fun hsearch => absurd hsearch hname, ?_⟩
    rw [dbResultText, if_neg (show ¬ (_ ∨ _) from hname)]
    exact ht

/-- What a round of the answering loop makes of a call. -/
theorem answerCall_eq {tc : Json F} {call : ToolCall} (h : HoldsCall tc call) (db : Db) :
    answerCall w replies tc db =
      ((dbResultText w replies call.name (w.load call.arguments) db).1.map (toolResultMsg call.id),
        (dbResultText w replies call.name (w.load call.arguments) db).2) := by
  obtain ⟨hid, -, hname, hargs⟩ := h
  simp only [answerCall, hid, hname, hargs, Option.bind_some, Option.map_some]

/-! ### All calls -/

variable {tcs : List (Json F)} {calls : List ToolCall}

/-- A round fails and ends the loop, or goes on with the next call. -/
theorem answerCalls_cons (w : World F) (replies : ℕ → Reply) (tc : Json F) (tcs : List (Json F))
    (db : Db) :
    ((answerCall w replies tc db).1 = none ∧ (answerCalls w replies (tc :: tcs) db).1 = none) ∨
    ∃ msg, (answerCall w replies tc db).1 = some msg ∧
      answerCalls w replies (tc :: tcs) db =
        ((answerCalls w replies tcs (answerCall w replies tc db).2).1.map (msg :: ·),
          (answerCalls w replies tcs (answerCall w replies tc db).2).2) := by
  rcases hcall : answerCall w replies tc db with ⟨_ | msg, db'⟩
  · exact .inl ⟨rfl, by simp only [answerCalls, hcall]⟩
  · exact .inr ⟨msg, rfl, by simp only [answerCalls, hcall]⟩

/-- The answers are in step with the calls. -/
theorem answerCalls_answers (h : List.Forall₂ HoldsCall tcs calls) :
    ∀ (db : Db) (msgs : List (Json F)),
    (answerCalls w replies tcs db).1 = some msgs → List.Forall₂ Answers calls msgs := by
  induction h with
  | nil =>
    intro db msgs hmsgs
    obtain rfl := Option.some.inj hmsgs
    exact .nil
  | @cons tc call tcs calls hcall _ ih =>
    intro db msgs hmsgs
    rcases answerCalls_cons w replies tc tcs db with ⟨-, hnone⟩ | ⟨msg, hmsg, hcons⟩
    · rw [hnone] at hmsgs
      cases hmsgs
    · rw [hcons] at hmsgs
      obtain ⟨rest, hrest, rfl⟩ := Option.map_eq_some_iff.1 hmsgs
      rw [answerCall_eq hcall] at hmsg
      obtain ⟨text, -, rfl⟩ := Option.map_eq_some_iff.1 hmsg
      exact .cons ⟨text, rfl⟩ (ih _ rest hrest)

theorem answerCalls_isSome_of_answerable (h : List.Forall₂ HoldsCall tcs calls) :
    ∀ db : Db, (∀ call ∈ calls, Answerable w call) →
      (answerCalls w replies tcs db).1.isSome = true := by
  induction h with
  | nil => exact fun db _ => rfl
  | @cons tc call tcs calls hcall _ ih =>
    intro db hall
    obtain ⟨hfirst, hrest⟩ := List.forall_mem_cons.1 hall
    have hsome := dbResultText_isSome_of_answerable hfirst replies db
    rcases answerCalls_cons w replies tc tcs db with ⟨hnone, -⟩ | ⟨msg, -, hcons⟩
    · rw [answerCall_eq hcall, Option.map_eq_none_iff] at hnone
      simp [hnone] at hsome
    · rw [hcons, Option.isSome_map]
      exact ih _ hrest

/-- On a database that works no other calls are all answered. -/
theorem answerable_of_answerCalls (hs : Sound replies) (h : List.Forall₂ HoldsCall tcs calls)
    {t : LogStore.RadioLogs} : ∀ db : Db, db.radioLogs = some t →
      (answerCalls w replies tcs db).1.isSome = true → ∀ call ∈ calls, Answerable w call := by
  induction h with
  | nil => exact fun _ _ _ => nofun
  | @cons tc call tcs calls hcall _ ih =>
    intro db ht hsome
    rcases answerCalls_cons w replies tc tcs db with ⟨-, hnone⟩ | ⟨msg, hmsg, hcons⟩
    · simp [hnone] at hsome
    · rw [answerCall_eq hcall] at hmsg hcons
      have hresult : (dbResultText w replies call.name (w.load call.arguments) db).1.isSome
          = true := by
        obtain ⟨text, htext, -⟩ := Option.map_eq_some_iff.1 hmsg
        simp [htext]
      obtain ⟨hfirst, ht'⟩ := answerable_of_dbResultText hs ht hresult
      rw [hcons, Option.isSome_map] at hsome
      exact List.forall_mem_cons.2 ⟨hfirst, ih _ ht' hsome⟩

/-! ### The handler -/

/-- The request has the user's messages, and the model answers it with the calls. -/
structure Asked (w : World F) (req : String) (users : List (String × String))
    (calls : List ToolCall) : Prop where
  apiKey_ne : w.apiKey ≠ ""
  body : ∃ body, w.load req = some body ∧ HoldsUsers body users
  response : ∃ response, w.load (w.callOpenAI (payload (opening users))) = some response ∧
    HoldsCalls response calls

/-- The handler has reached the second request, with the whole conversation. -/
def Answered (chat : Chat F) (users : List (String × String)) (calls : List ToolCall) : Prop :=
  ∃ msgs, chat.payloads = [payload (opening users), payload2 msgs] ∧ Conversation users calls msgs

variable {req : String} {users : List (String × String)}

theorem messageNode_eq {text : String} {response node : Json F}
    (hload : w.load text = some response)
    (hnode : ((response.get "choices").bind (Json.nth 0)).bind (·.get "message") = some node) :
    messageNode w text = some (some node) := by
  obtain ⟨choice, hchoice, -⟩ := Option.bind_eq_some_iff.1 hnode
  obtain ⟨choices, hchoices, -⟩ := Option.bind_eq_some_iff.1 hchoice
  obtain ⟨fields, rfl, hlookup⟩ := Json.get_eq_some_iff.1 hchoices
  have hhas : (Json.object fields).has "choices" = some true := by simp [Json.has, hlookup]
  simp only [messageNode, hload, hhas, Option.bind_some, if_true, hnode, Option.map_some]

theorem has_eq_of_get_bind {j : Json F} {key : String} {α : Type*} {f : Json F → Option α} {a : α}
    (h : (j.get key).bind f = some a) : j.has key = some true := by
  obtain ⟨fields, v, rfl, hv, -⟩ := Json.bind_get_eq_some_iff.1 h
  simp [Json.has, hv]

/-- The handler comes down to the loop that answers the calls. -/
theorem agentChat_eq (h : Asked w req users calls) : ∃ tcs, List.Forall₂ HoldsCall tcs calls ∧
    ∀ (replies : ℕ → Reply) (db : Db),
      ((answerCalls w replies tcs db).1 = none →
        (agentChat w replies req db).payloads = [payload (opening users)] ∧
          (agentChat w replies req db).response = none) ∧
      ∀ toolMsgs, (answerCalls w replies tcs db).1 = some toolMsgs →
        (agentChat w replies req db).payloads = [payload (opening users), payload2
          (opening users ++ [assistantMsg (calls.map ToolCall.json)] ++ toolMsgs)] := by
  obtain ⟨body, hload, husers⟩ := h.body
  obtain ⟨response, hresponse, node, tcs, hnode, htcs, hcalls⟩ := h.response
  refine ⟨tcs, hcalls, fun replies db => ?_⟩
  have hmsgs : messages2 w replies body node db =
      ((answerCalls w replies tcs db).1.map
        (opening users ++ [assistantMsg (calls.map ToolCall.json)] ++ ·),
        (answerCalls w replies tcs db).2) := by
    simp only [messages2, userMsgs_eq husers, htcs, tCalls_eq hcalls, Option.bind_some,
      Option.map_some, opening]
  have hfirst := messageNode_eq hresponse hnode
  have htool := has_eq_of_get_bind htcs
  unfold opening at hfirst
  constructor
  · intro hnone
    rw [hnone, Option.map_none] at hmsgs
    simp only [agentChat, hload, if_neg h.apiKey_ne, userMsgs_eq husers, hfirst, htool, hmsgs,
      opening, and_self]
  · intro toolMsgs hsome
    rw [hsome, Option.map_some] at hmsgs
    simp only [agentChat, hload, if_neg h.apiKey_ne, userMsgs_eq husers, hfirst, htool, hmsgs,
      opening]

/-- Either the loop goes through and the second request is made, with the whole conversation, or it
fails and the handler has ended with the first. -/
theorem agentChat_outcome (h : Asked w req users calls) : ∃ tcs, List.Forall₂ HoldsCall tcs calls ∧
    ∀ (replies : ℕ → Reply) (db : Db),
      ((answerCalls w replies tcs db).1.isSome = true ∧
        Answered (agentChat w replies req db) users calls) ∨
      ((answerCalls w replies tcs db).1 = none ∧
        ¬ Answered (agentChat w replies req db) users calls ∧
        (agentChat w replies req db).payloads = [payload (opening users)] ∧
        (agentChat w replies req db).response = none) := by
  obtain ⟨tcs, htcs, hchat⟩ := agentChat_eq h
  refine ⟨tcs, htcs, fun replies db => ?_⟩
  cases hmsgs : (answerCalls w replies tcs db).1 with
  | none =>
    obtain ⟨hpayloads, hresponse⟩ := (hchat replies db).1 hmsgs
    refine .inr ⟨rfl, ?_, hpayloads, hresponse⟩
    rintro ⟨msgs, htwo, -⟩
    simp [hpayloads] at htwo
  | some toolMsgs =>
    have hanswers := answerCalls_answers htcs db toolMsgs hmsgs
    exact .inl ⟨rfl, _, (hchat replies db).2 toolMsgs hmsgs, toolMsgs, rfl, hanswers⟩

/-- If every call is answerable, all are answered, whatever the database does. On a database that
works they are answered in no other case, and where they are not, an exception has ended the handler
before the second request. -/
theorem tool_calls_answered (w : World F) (req : String) (users : List (String × String))
    (calls : List ToolCall) (h : Asked w req users calls) :
    ((∀ call ∈ calls, Answerable w call) →
      ∀ (replies : ℕ → Reply) (db : Db), Answered (agentChat w replies req db) users calls) ∧
    (∀ (replies : ℕ → Reply) (db : Db), Sound replies → db.radioLogs.isSome = true →
      (Answered (agentChat w replies req db) users calls ↔ ∀ call ∈ calls, Answerable w call)) ∧
    ∀ (replies : ℕ → Reply) (db : Db), ¬ Answered (agentChat w replies req db) users calls →
      (agentChat w replies req db).payloads = [payload (opening users)] ∧
        (agentChat w replies req db).response = none := by
  obtain ⟨tcs, htcs, hchat⟩ := agentChat_outcome h
  have hall : (∀ call ∈ calls, Answerable w call) →
      ∀ (replies : ℕ → Reply) (db : Db), Answered (agentChat w replies req db) users calls := by
    intro hall replies db
    have hsome : (answerCalls w replies tcs db).1.isSome = true :=
      answerCalls_isSome_of_answerable htcs db hall
    rcases hchat replies db with ⟨-, hans⟩ | ⟨hnone, -⟩
    · exact hans
    · simp [hnone] at hsome
  refine ⟨hall, fun replies db hs ht => ⟨fun hans => ?_, fun h => hall h replies db⟩,
    fun replies db hno => ?_⟩
  · obtain ⟨t, ht⟩ := Option.isSome_iff_exists.1 ht
    rcases hchat replies db with ⟨hsome, -⟩ | ⟨-, hno, -⟩
    · exact answerable_of_answerCalls hs htcs db ht hsome
    · exact absurd hans hno
  · rcases hchat replies db with ⟨-, hans⟩ | ⟨-, -, hended⟩
    · exact absurd hans hno
    · exact hended

/-- A search with these arguments. -/
def search (arguments : String) : ToolCall := ⟨"call_1", "function", "searchDatabase", arguments⟩

/-- A user asks one question, and the model asks for one search; `args` is what its arguments
load as. -/
def asking (arguments : String) (args : Option (Json ℚ)) : World ℚ where
  load text :=
    if text = "request" then some (.object [("messages", .list [message "user" "Any logs?"])])
    else if text = "response" then some (.object [("choices", .list [.object [
      ("message", .object [("tool_calls", .list [(search arguments).json])])]])])
    else if text = arguments then args
    else none
  callOpenAI _ := "response"
  apiKey := "key"
  inRange _ := true
  doubleText _ := ""

theorem asked_asking (arguments : String) (args : Option (Json ℚ)) :
    Asked (asking arguments args) "request" [("user", "Any logs?")] [search arguments] where
  apiKey_ne := by simp [asking]
  body := ⟨_, rfl, _, rfl, .cons ⟨rfl, rfl⟩ .nil⟩
  response := ⟨_, rfl, _, _, rfl, rfl, .cons ⟨rfl, rfl, rfl, rfl⟩ .nil⟩

/-- A database with the table and no logs in it. -/
def emptyDb : Db := ⟨some Table.empty, 0, []⟩

/-- A search by a frequency is answered. -/
theorem tool_calls_answered_frequency :
    let arguments := "\x7b\"freq\":\"154.28\"\x7d"
    let w := asking arguments (some (.object [("freq", .string "154.28")]))
    Asked w "request" [("user", "Any logs?")] [search arguments] ∧
      Answered (agentChat w (fun _ => ⟨true, id⟩) "request" emptyDb) [("user", "Any logs?")]
        [search arguments] := by
  intro arguments w
  have hasked := asked_asking arguments (some (.object [("freq", .string "154.28")]))
  refine ⟨hasked, (tool_calls_answered w "request" _ _ hasked).1 ?_ _ emptyDb⟩
  simp only [List.mem_singleton, forall_eq]
  refine fun _ => ⟨_, rfl, .inr ⟨_, rfl, ?_, nofun⟩⟩
  rintro _ ⟨⟩
  exact ⟨"154.28", rfl, .inr (by decide +kernel)⟩

/-- Arguments that are no JSON, a frequency that is a number, one that is a name, and arguments that
are a number: each ends the handler before the second request, on a database that works. -/
theorem searches_without_answer :
    let chat (arguments : String) (args : Option (Json ℚ)) : Chat ℚ :=
      agentChat (asking arguments args) (fun _ => ⟨true, id⟩) "request" emptyDb
    let unanswered (chat : Chat ℚ) : Prop := chat.payloads.length = 1 ∧ chat.response = none
    unanswered (chat "freq=154.28" none) ∧
    unanswered (chat "\x7b\"freq\":154.28\x7d" (some (.object [("freq", .number 154.28)]))) ∧
    unanswered (chat "\x7b\"freq\":\"FM\"\x7d" (some (.object [("freq", .string "FM")]))) ∧
    unanswered (chat "154.28" (some (.number 154.28))) := by
  decide +kernel

end AgentChat

end AetherGuard
