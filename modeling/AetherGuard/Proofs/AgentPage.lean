import AetherGuard.AgentPage
import AetherGuard.Lib.Threads
import AetherGuard.Proofs.AgentChat
import AetherGuard.Proofs.Bus

/-!
# A conversation with the agent

The conversation on the page is questions with their answers, and one question more while a request
is under way (`Inv`); so what is posted is the last question after at most two with their answers,
and each answer stands below the question it is the answer to.
-/

namespace AetherGuard

namespace AgentPage

open Database (Db Reply)
open AgentChat (Chat World)

variable {F : Type*} {w : World F} {stringify : Json F → String} {trim : String → String}
  {s : AgentPage F}

/-! ### Conversations -/

theorem talk_concat (past : List (String × String)) (question content : String) :
    talk (past ++ [(question, content)])
      = talk past ++ [⟨.user, question⟩] ++ [⟨.assistant, content⟩] := by
  simp [talk]

theorem length_talk (past : List (String × String)) : (talk past).length = 2 * past.length := by
  induction past with
  | nil => rfl
  | cons turn past ih =>
    rw [talk, List.flatMap_cons, List.length_append, List.length_cons, ← talk, ih]
    simp
    omega

theorem drop_talk : ∀ (n : ℕ) (past : List (String × String)),
    (talk past).drop (2 * n) = talk (past.drop n)
  | 0, _ => rfl
  | _ + 1, [] => by simp [talk]
  | n + 1, turn :: past => by
    rw [Nat.mul_succ, List.drop_succ_cons, ← drop_talk n past]
    rfl

theorem recentHistory_talk (past : List (String × String)) :
    (talk past).drop ((talk past).length - 4) = talk (past.drop (past.length - 2)) := by
  rw [length_talk, ← drop_talk]
  congr 1
  omega

/-! ### What holds of the page -/

variable (w stringify) in
/-- The runs of the handler so far, against the conversation and the questions in it that have an
answer. -/
structure Log (messages : List AgentMessage) (past : List (String × String))
    (chats : List (List AgentMessage × Chat F)) : Prop where
  ran : ∀ msgs chat, (msgs, chat) ∈ chats →
    ∃ replies db, chat = AgentChat.agentChat w replies (stringify (body msgs)) db
  asked : ∀ msgs chat, (msgs, chat) ∈ chats →
    ∃ before question, talk before ++ [⟨.user, question⟩] <+: messages
      ∧ msgs = request before question
  answered : ∀ k question content, past[k]? = some (question, content) →
    content = "Connection error."
      ∨ ∃ chat, (request (past.take k) question, chat) ∈ chats ∧ content = answer chat.response

variable (w stringify) in
inductive Inv (s : AgentPage F) : Prop
  | idle (past : List (String × String)) (messages : s.agentMessages = talk past)
    (thinking : s.isAgentThinking = false) (fetches : s.fetches = [])
    (log : Log w stringify s.agentMessages past s.chats) (count : s.chats.length ≤ past.length)
  | thinking (past : List (String × String)) (question : String)
    (response : Option (Option AgentChat.Response))
    (messages : s.agentMessages = talk past ++ [⟨.user, question⟩])
    (thinking : s.isAgentThinking = true)
    (fetches : s.fetches = [⟨request past question, response⟩])
    (log : Log w stringify s.agentMessages past s.chats)
    (count : s.chats.length ≤ past.length + response.toList.length)
    (handled : ∀ r, response = some r →
      ∃ chat, (request past question, chat) ∈ s.chats ∧ r = chat.response)

theorem Inv.log (h : Inv w stringify s) : ∃ past, Log w stringify s.agentMessages past s.chats := by
  obtain ⟨past, -, -, -, hlog, -⟩ | ⟨past, -, -, -, -, -, hlog, -, -⟩ := h
  · exact ⟨past, hlog⟩
  · exact ⟨past, hlog⟩

theorem init_inv (db : Db) : Inv w stringify (init db) :=
  .idle [] rfl rfl rfl ⟨fun _ _ h => by simp [init] at h, fun _ _ h => by simp [init] at h,
    fun _ _ _ h => by simp at h⟩ le_rfl

theorem handleAgentSubmit_inv (h : Inv w stringify s) :
    Inv w stringify (s.handleAgentSubmit trim) := by
  unfold handleAgentSubmit
  dsimp only
  split_ifs with hguard
  · exact h
  · obtain ⟨past, hm, ht, hf, hlog, hcount⟩ |
      ⟨past, question, response, hm, ht, hf, hlog, hcount, hh⟩ := h
    · refine .thinking past (trim s.agentInput) none (by rw [hm]) rfl ?_ ?_ hcount fun _ h => by
        simp at h
      · rw [hf, hm, recentHistory_talk]
        rfl
      · refine ⟨hlog.ran, fun msgs chat hmem => ?_, hlog.answered⟩
        obtain ⟨before, question, hle, hmsgs⟩ := hlog.asked msgs chat hmem
        exact ⟨before, question, hle.trans (List.prefix_append _ _), hmsgs⟩
    · exact absurd (.inr ht) hguard

/-- A request that is under way is the only one, and posts the question that is open. -/
theorem Inv.fetch (h : Inv w stringify s) {i : ℕ} {f : Fetch} (hget : s.fetches[i]? = some f) :
    i = 0 ∧ ∃ past question, f.newMessages = request past question
      ∧ s.agentMessages = talk past ++ [⟨.user, question⟩] ∧ s.isAgentThinking = true
      ∧ s.fetches = [f] ∧ Log w stringify s.agentMessages past s.chats
      ∧ s.chats.length ≤ past.length + f.response.toList.length
      ∧ ∀ r, f.response = some r →
        ∃ chat, (request past question, chat) ∈ s.chats ∧ r = chat.response := by
  obtain ⟨past, hm, ht, hf, hlog, hcount⟩ | ⟨past, question, response, hm, ht, hf, hlog, hcount, hh⟩
    := h
  · rw [hf] at hget
    simp at hget
  · rw [hf, List.getElem?_singleton] at hget
    split_ifs at hget with hi
    obtain rfl := Option.some.inj hget
    exact ⟨hi, past, question, rfl, hm, ht, hf, hlog, hcount, hh⟩

theorem handle_inv (h : Inv w stringify s) (i : ℕ) (replies : ℕ → Reply) :
    Inv w stringify (s.handle w stringify i replies) := by
  unfold handle
  split
  next newMessages hget =>
    obtain ⟨rfl, past, question, rfl, hm, ht, hf, hlog, hcount, -⟩ := h.fetch hget
    -- the request is now one of those the handler has run for
    let chat := AgentChat.agentChat w replies (stringify (body (request past question))) s.db
    refine .thinking past question (some chat.response) hm ht ?_ ⟨?_, ?_, ?_⟩ ?_ ?_
    · rw [hf]
      rfl
    · intro msgs chat hmem
      rcases List.mem_append.1 hmem with hmem | hmem
      · exact hlog.ran msgs chat hmem
      · obtain ⟨rfl, rfl⟩ := Prod.mk.inj (List.mem_singleton.1 hmem)
        exact ⟨replies, s.db, rfl⟩
    · intro msgs chat hmem
      rcases List.mem_append.1 hmem with hmem | hmem
      · exact hlog.asked msgs chat hmem
      · obtain ⟨rfl, rfl⟩ := Prod.mk.inj (List.mem_singleton.1 hmem)
        exact ⟨past, question, hm ▸ List.prefix_rfl, rfl⟩
    · intro k q content hk
      obtain herr | ⟨chat, hmem, hans⟩ := hlog.answered k q content hk
      · exact .inl herr
      · exact .inr ⟨chat, List.mem_append_left _ hmem, hans⟩
    · rw [List.length_append]
      exact Nat.add_le_add hcount le_rfl
    · rintro r ⟨⟩
      exact ⟨_, List.mem_append_right _ (List.mem_singleton.2 rfl), rfl⟩
  next => exact h

/-- What the page adds when a request is over answers the question that is open. -/
theorem finish_inv {past : List (String × String)} {question content : String}
    {response : Option (Option AgentChat.Response)}
    (hm : s.agentMessages = talk past ++ [⟨.user, question⟩])
    (hf : s.fetches = [⟨request past question, response⟩])
    (hlog : Log w stringify s.agentMessages past s.chats)
    (hcount : s.chats.length ≤ past.length + response.toList.length)
    (hc : content = "Connection error."
      ∨ ∃ chat, (request past question, chat) ∈ s.chats ∧ content = answer chat.response) :
    Inv w stringify (s.finish 0 content) := by
  have hone : response.toList.length ≤ 1 := by cases response <;> simp
  refine .idle (past ++ [(question, content)]) ?_ rfl ?_ ⟨hlog.ran, ?_, ?_⟩ ?_
  · rw [talk_concat, ← hm]
    rfl
  · rw [finish, hf]
    rfl
  · intro msgs chat hmem
    obtain ⟨before, q, hle, hmsgs⟩ := hlog.asked msgs chat hmem
    exact ⟨before, q, hle.trans (List.prefix_append _ _), hmsgs⟩
  · intro k q a hk
    rcases Threads.getElem?_concat_cases hk with hk | ⟨rfl, heq⟩
    · have hlt : k < past.length := (List.getElem?_eq_some_iff.1 hk).1
      rw [List.take_append_of_le_length hlt.le]
      exact hlog.answered k q a hk
    · cases heq
      rw [List.take_left]
      exact hc
  · rw [List.length_append, List.length_singleton]
    exact hcount.trans (Nat.add_le_add_left hone _)

theorem settle_inv (h : Inv w stringify s) (i : ℕ) : Inv w stringify (s.settle i) := by
  unfold settle
  split
  next newMessages response hget =>
    obtain ⟨rfl, past, question, rfl, hm, -, hf, hlog, hcount, hh⟩ := h.fetch hget
    obtain ⟨chat, hmem, rfl⟩ := hh _ rfl
    exact finish_inv hm hf hlog hcount (.inr ⟨chat, hmem, rfl⟩)
  next => exact h

theorem fail_inv (h : Inv w stringify s) (i : ℕ) : Inv w stringify (s.fail i) := by
  unfold fail
  split
  next fetch hget =>
    obtain ⟨rfl, past, question, hmsgs, hm, -, hf, hlog, hcount, -⟩ := h.fetch hget
    obtain ⟨newMessages, response⟩ := fetch
    obtain rfl : newMessages = request past question := hmsgs
    exact finish_inv hm hf hlog hcount (.inl rfl)
  next => exact h

theorem step_inv (s : AgentPage F) (a : Act) (h : Inv w stringify s) :
    Inv w stringify (s.step w stringify trim a) := by
  cases a with
  | input agentInput =>
    obtain ⟨past, hm, ht, hf, hlog, hcount⟩ |
      ⟨past, question, response, hm, ht, hf, hlog, hcount, hh⟩ := h
    · exact .idle past hm ht hf hlog hcount
    · exact .thinking past question response hm ht hf hlog hcount hh
  | submit => exact handleAgentSubmit_inv h
  | handle i replies => exact handle_inv h i replies
  | settle i => exact settle_inv h i
  | fail i => exact fail_inv h i

theorem run_inv (db : Db) (as : List Act) :
    Inv w stringify (Machine.run (step w stringify trim) (init db) as) :=
  Machine.run_inv step_inv as _ (init_inv db)

/-! ### What the model is sent -/

theorem userMsgs_body (msgs : List AgentMessage) :
    AgentChat.userMsgs (body msgs : Json F) = some (msgs.map AgentMessage.json) := by
  have hholds : AgentChat.HoldsUsers (body msgs : Json F)
      (msgs.map fun msg => (msg.role.text, msg.content)) := by
    refine ⟨_, rfl, List.forall₂_map_left_iff.2 (List.forall₂_map_right_iff.2 ?_)⟩
    exact List.forall₂_same.2 fun msg _ => ⟨rfl, rfl⟩
  rw [AgentChat.userMsgs_eq hholds, List.map_map]
  rfl

/-- Whatever becomes of a chat whose messages can be read, they are sent first. -/
theorem payloads_agentChat {req : String} {doc : Json F} {users : List (Json F)}
    (hload : w.load req = some doc) (hkey : w.apiKey ≠ "")
    (husers : AgentChat.userMsgs doc = some users) (replies : ℕ → Reply) (db : Db) :
    ∃ rest, (AgentChat.agentChat w replies req db).payloads
      = AgentChat.payload (AgentChat.sysMsg :: users) :: rest := by
  unfold AgentChat.agentChat
  simp only [hload, if_neg hkey, husers]
  split
  · exact ⟨_, rfl⟩
  · exact ⟨_, rfl⟩
  · split
    · exact ⟨_, rfl⟩
    · exact ⟨_, rfl⟩
    · split
      · exact ⟨_, rfl⟩
      · exact ⟨_, rfl⟩

end AgentPage

open AgentPage Database AgentChat

variable {F : Type*}

/-- Whatever the user enters, whenever requests are handled, answered or lost: the conversation is
questions with their answers, and one question more exactly while a request is under way, of which
there is never another; each answer is a connection error or the response of a run of the handler
for the question above it, after the two before; and the handler has not run more often than there
are questions. -/
theorem agent_answers_in_place (w : World F) (stringify : Json F → String) (trim : String → String)
    (db : Db) (as : List AgentPage.Act) :
    let s := Machine.run (AgentPage.step w stringify trim) (AgentPage.init db) as
    s.fetches.length = s.isAgentThinking.toNat
      ∧ ∃ (past : List (String × String)) (questions : List String),
        s.agentMessages = talk past ++ questions.map (⟨.user, ·⟩)
        ∧ questions.length = s.isAgentThinking.toNat
        ∧ s.chats.length ≤ past.length + questions.length
        ∧ ∀ k question content, past[k]? = some (question, content) →
          content = "Connection error." ∨ ∃ chat,
            (request (past.take k) question, chat) ∈ s.chats ∧ content = answer chat.response := by
  intro s
  obtain ⟨past, hm, ht, hf, hlog, hcount⟩ |
      ⟨past, question, response, hm, ht, hf, hlog, hcount, -⟩ :=
    AgentPage.run_inv (w := w) db as
  · refine ⟨by rw [hf, ht]; rfl, past, [], ?_, by rw [ht]; rfl, hcount, hlog.answered⟩
    rw [hm, List.map_nil, List.append_nil]
  · have hone : response.toList.length ≤ 1 := by cases response <;> simp
    exact ⟨by rw [hf, ht]; rfl, past, [question], hm, by rw [ht]; rfl,
      hcount.trans (Nat.add_le_add_left hone _), hlog.answered⟩

/-- If the API has a key and loads what the page wrote as the document it was written from, a run
of the handler for a request of the page sends the model its system message and then, word for
word and with their roles, a question of the conversation after the two questions before it and
their answers. -/
theorem agent_hears_conversation (w : World F) (stringify : Json F → String)
    (trim : String → String) (db : Db) (as : List AgentPage.Act) (s : AgentPage F)
    (hs : s = Machine.run (AgentPage.step w stringify trim) (AgentPage.init db) as)
    (hkey : w.apiKey ≠ "") (msgs : List AgentMessage) (chat : Chat F)
    (hmem : (msgs, chat) ∈ s.chats) (hload : w.load (stringify (body msgs)) = some (body msgs)) :
    ∃ past question rest,
      talk past ++ [⟨.user, question⟩] <+: s.agentMessages ∧ msgs = request past question
        ∧ chat.payloads
          = payload (sysMsg :: (request past question).map AgentMessage.json) :: rest := by
  have hinv : Inv w stringify s := hs ▸ AgentPage.run_inv db as
  obtain ⟨_, hlog⟩ := hinv.log
  obtain ⟨before, question, hle, rfl⟩ := hlog.asked msgs chat hmem
  obtain ⟨replies, db', rfl⟩ := hlog.ran _ chat hmem
  obtain ⟨rest, hrest⟩ := payloads_agentChat hload hkey (userMsgs_body _) replies db'
  exact ⟨before, question, rest, hle, rfl, hrest⟩

open Crow

mutual

/-- What writes the document, its numbers whole. -/
def toWValue : Json ℕ → WValue ℕ
  | .null => .null
  | .bool b => .bool b
  | .number n => .unsigned n
  | .string t => .string (bytes t)
  | .list l => .list (elementsToWValue l)
  | .object o => .object (membersToWValue o)

def elementsToWValue : List (Json ℕ) → List (WValue ℕ)
  | [] => []
  | x :: l => toWValue x :: elementsToWValue l

def membersToWValue : List (String × Json ℕ) → List (Bytes × WValue ℕ)
  | [] => []
  | (key, x) :: o => (bytes key, toWValue x) :: membersToWValue o

end

/-- A document of texts with one byte for each character, as the page writes it. -/
def asciiText (x : Json ℕ) : String := latin1 ((toWValue x).dump onAir)

/-- The handler with crow's parser, a key, and a model that never asks for a search. -/
def terse : World ℕ where
  load text := busLoad onAirRead (bytes text)
  callOpenAI _ := "\x7b\"choices\": [\x7b\"message\": \x7b\"content\": \"None.\"\x7d\x7d]\x7d"
  apiKey := "key"
  inRange _ := true
  doubleText _ := ""

theorem terse_load {x : Json ℕ} (hheight : (toWValue x).height ≤ 5000)
    (hx : (toWValue x).toJson onAir onAirRead = x) : terse.load (asciiText x) = some x := by
  show busLoad onAirRead (bytes (asciiText x)) = some x
  rw [asciiText, bytes_latin1, busLoad, load_dump, if_pos hheight, Option.map_some, loaded_toJson,
    hx]

/-- A question, from the keyboard to its answer on the page. -/
def ask (question : String) : List AgentPage.Act :=
  [.input question, .submit, .handle 0 fun _ => ⟨true, id⟩, .settle 0]

/-- The third question is sent after the two before it and their answers. -/
theorem agent_hears_conversation_asked :
    let s := Machine.run (AgentPage.step terse asciiText id) (AgentPage.init emptyDb)
      (ask "Any logs?" ++ ask "At \"97\"?" ++ ask "Why?")
    ∃ chat ∈ s.chats.map Prod.snd, ∃ rest, chat.payloads = payload [sysMsg,
      message "user" "Any logs?", message "assistant" "None.", message "user" "At \"97\"?",
      message "assistant" "None.", message "user" "Why?"] :: rest := by
  intro s
  let msgs : List AgentMessage := [⟨.user, "Any logs?"⟩, ⟨.assistant, "None."⟩,
    ⟨.user, "At \"97\"?"⟩, ⟨.assistant, "None."⟩, ⟨.user, "Why?"⟩]
  have hasked : msgs ∈ s.chats.map Prod.fst := by decide +kernel
  obtain ⟨⟨_, chat⟩, hmem, rfl⟩ := List.mem_map.1 hasked
  have hload : terse.load (asciiText (AgentPage.body msgs)) = some (AgentPage.body msgs) :=
    terse_load (by decide) rfl
  obtain ⟨past, question, rest, -, hmsgs, hrest⟩ := agent_hears_conversation terse asciiText id
    emptyDb _ s rfl (by decide) msgs chat hmem hload
  rw [← hmsgs] at hrest
  exact ⟨chat, List.mem_map_of_mem hmem, rest, hrest⟩

end AetherGuard
