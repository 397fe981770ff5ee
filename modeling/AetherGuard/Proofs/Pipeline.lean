import AetherGuard.Lib.Threads
import AetherGuard.Pipeline

/-!
# How often a recording is transcribed and summarized

Every client reacts to every broadcast, so one `record_complete` becomes as many requests as there
are clients, and each of their results is broadcast again. `potential` weighs what is under way by
what may still come of it: with weights that only fall from a message to what it leads to
(`Weights`), only a new `record_complete` raises it. Where each broadcast goes to at most `k`
clients (`SentToAtMost`) this bounds the commands that go back to one recording by `k` of the first
stage and `k * k` of the second, so by one of each where there is one client at a time.
-/

namespace AetherGuard

namespace Client

open Machine Threads

variable {F : Type*} {k : ℕ}

/-- What may come of a message, where an update may reach `k` clients. -/
structure Weights (F : Type*) (k : ℕ) where
  update : Tagged (Update F) → ℕ
  request : Tagged (Request F) → ℕ
  command : Tagged (AiCommand F) → ℕ
  done : Tagged (AiCommand F) → ℕ
  request_le : ∀ r u useOpenAI req, Update.request useOpenAI u = some req →
    request ⟨r, req⟩ ≤ update ⟨r, u⟩
  command_le : ∀ r req, command ⟨r, req.command⟩ ≤ request ⟨r, req⟩
  done_le : ∀ r c out, done ⟨r, c⟩ + k * update ⟨r, c.result out⟩ ≤ command ⟨r, c⟩

namespace Pipeline

variable {s : Pipeline F} (w : Weights F k)

def inboxWeight (c : Browser F) : ℕ := (c.inbox.map w.update).sum

def potential (s : Pipeline F) : ℕ :=
  k * (s.wsUpdates.map w.update).sum + (s.clients.map (inboxWeight w)).sum
    + (s.requests.map w.request).sum + (s.aiCommands.map w.command).sum
    + (s.working.toList.map w.command).sum + (s.processed.map w.done).sum

theorem inboxWeight_sendText (c : Browser F) (u : Tagged (Update F)) :
    inboxWeight w (Browser.sendText c u) = inboxWeight w c + c.connected.toNat * w.update u := by
  unfold Browser.sendText
  cases hc : c.connected <;> simp [inboxWeight]

theorem sum_sendText (u : Tagged (Update F)) : ∀ cs : List (Browser F),
    ((cs.map (Browser.sendText · u)).map (inboxWeight w)).sum
      = (cs.map (inboxWeight w)).sum + cs.countP (·.connected) * w.update u
  | [] => by simp
  | c :: cs => by
    have hc := inboxWeight_sendText w c u
    have hcs := sum_sendText u cs
    simp only [List.map_cons, List.sum_cons, List.countP_cons, hc, hcs]
    cases c.connected <;> simp [Nat.add_mul] <;> omega

/-- At most `k` clients are connected when an update is sent to them. -/
def SentToAtMost (k : ℕ) (s : Pipeline F) : Act F → Prop
  | .redisListener => s.clients.countP (·.connected) ≤ k
  | _ => True

instance (k : ℕ) (s : Pipeline F) (a : Act F) : Decidable (SentToAtMost k s a) := by
  unfold SentToAtMost
  split <;> infer_instance

theorem sentToAtMost_length (s : Pipeline F) (a : Act F) : SentToAtMost s.clients.length s a := by
  cases a <;> first | exact List.countP_le_length | trivial

/-- No step adds a client, and only a `record_complete` counts a recording. -/
theorem step_frame (a : Act F) : (s.step a).clients.length = s.clients.length
    ∧ ((∀ freq, a ≠ .recordComplete freq) → (s.step a).records = s.records) := by
  cases a with
  | recordComplete freq => exact ⟨rfl, fun h => absurd rfl (h freq)⟩
  | redisListener =>
    simp only [step, redisListenerThread]
    split <;> simp
  | onmessage i =>
    simp only [step, onmessage]
    split
    · simp
    · split <;> simp
  | close i =>
    simp only [step, close]
    split <;> simp
  | connect i useOpenAI =>
    simp only [step, connect]
    split
    · simp
    · split_ifs <;> simp
  | endpoint j arrives =>
    simp only [step, endpoint]
    split <;> simp
  | take =>
    simp only [step, take]
    split <;> simp
  | worker out =>
    simp only [step, worker]
    split <;> simp

theorem redisListenerThread_potential (hk : s.clients.countP (·.connected) ≤ k) :
    s.redisListenerThread.potential w ≤ s.potential w := by
  unfold redisListenerThread
  split
  · exact le_rfl
  · rename_i u rest hq
    have hle := Nat.mul_le_mul_right (w.update u) hk
    simp only [potential, hq, List.map_cons, List.sum_cons, Nat.mul_add, sum_sendText]
    omega

theorem onmessage_potential (i : ℕ) : (s.onmessage i).potential w ≤ s.potential w := by
  unfold onmessage
  split
  · exact le_rfl
  · rename_i c hi
    split
    · exact le_rfl
    · rename_i u rest hinbox
      have hset := sum_map_set_add hi { c with inbox := rest } (inboxWeight w)
      have hpop : inboxWeight w c = w.update u + inboxWeight w { c with inbox := rest } := by
        simp [inboxWeight, hinbox]
      simp only [potential, List.map_append, List.sum_append]
      cases hreq : u.item.request c.useOpenAI with
      | none =>
        simp only [Option.map_none, Option.toList_none, List.map_nil, List.sum_nil]
        omega
      | some req =>
        have hle : w.request ⟨u.record, req⟩ ≤ w.update u :=
          w.request_le u.record u.item c.useOpenAI req hreq
        simp only [Option.map_some, Option.toList_some, List.map_cons, List.map_nil, List.sum_cons,
          List.sum_nil]
        omega

theorem close_potential (i : ℕ) : (s.close i).potential w ≤ s.potential w := by
  unfold close
  split
  · exact le_rfl
  · rename_i c hi
    have hset := sum_map_set_add hi { c with connected := false, inbox := [] } (inboxWeight w)
    have hnil : inboxWeight w { c with connected := false, inbox := [] } = 0 := rfl
    simp only [potential]
    omega

theorem connect_potential (i : ℕ) (useOpenAI : Bool) :
    (s.connect i useOpenAI).potential w ≤ s.potential w := by
  unfold connect
  split
  · exact le_rfl
  · rename_i c hi
    split_ifs
    · exact le_rfl
    · have hset := sum_map_set_add hi ⟨true, useOpenAI, []⟩ (inboxWeight w)
      have hnil : inboxWeight w ⟨true, useOpenAI, []⟩ = 0 := rfl
      simp only [potential]
      omega

theorem endpoint_potential (j : ℕ) (arrives : Bool) :
    (s.endpoint j arrives).potential w ≤ s.potential w := by
  unfold endpoint
  split
  · exact le_rfl
  · rename_i r hj
    have hsum := sum_map_eraseIdx hj w.request
    have hle : w.command ⟨r.record, r.item.command⟩ ≤ w.request r := w.command_le r.record r.item
    simp only [potential]
    split_ifs
    · simp only [List.map_append, List.map_cons, List.map_nil, List.sum_append, List.sum_cons,
        List.sum_nil]
      omega
    · omega

theorem take_potential : s.take.potential w ≤ s.potential w := by
  unfold take
  split
  · rename_i c rest hw hq
    simp only [potential, hw, hq, Option.toList_some, Option.toList_none, List.map_cons,
      List.map_nil, List.sum_cons, List.sum_nil]
    omega
  · exact le_rfl

theorem worker_potential (out : String) : (s.worker out).potential w ≤ s.potential w := by
  unfold worker
  split
  · exact le_rfl
  · rename_i c hw
    have hle : w.done c + k * w.update ⟨c.record, c.item.result out⟩ ≤ w.command c :=
      w.done_le c.record c.item out
    simp only [potential, hw, Option.toList_some, Option.toList_none, List.map_append,
      List.map_cons, List.map_nil, List.sum_append, List.sum_cons, List.sum_nil, Nat.mul_add,
      Nat.add_zero]
    omega

/-- Only a new recording raises the potential. -/
theorem step_potential (a : Act F) (hk : SentToAtMost k s a) :
    (s.step a).potential w ≤ s.potential w
      ∨ ∃ freq, a = .recordComplete freq ∧ (s.step a).records = s.records + 1
        ∧ (s.step a).potential w
          = s.potential w + k * w.update ⟨s.records, .recordComplete freq⟩ := by
  cases a with
  | recordComplete freq =>
    refine .inr ⟨freq, rfl, rfl, ?_⟩
    simp only [step, recordComplete, potential, List.map_append, List.map_cons, List.map_nil,
      List.sum_append, List.sum_cons, List.sum_nil, Nat.mul_add]
    omega
  | redisListener => exact .inl (redisListenerThread_potential w hk)
  | onmessage i => exact .inl (onmessage_potential w i)
  | close i => exact .inl (close_potential w i)
  | connect i useOpenAI => exact .inl (connect_potential w i useOpenAI)
  | endpoint j arrives => exact .inl (endpoint_potential w j arrives)
  | take => exact .inl (take_potential w)
  | worker out => exact .inl (worker_potential w out)

theorem records_le_step (a : Act F) : s.records ≤ (s.step a).records := by
  by_cases ha : ∃ freq, a = .recordComplete freq
  · obtain ⟨freq, rfl⟩ := ha
    exact Nat.le_succ _
  · exact ((step_frame a).2 fun freq hf => ha ⟨freq, hf⟩).ge

/-- Before recording `r` is published nothing goes back to it, and after that at most `B` does. -/
structure Bounded (r B : ℕ) (s : Pipeline F) : Prop where
  before : s.records ≤ r → s.potential w = 0
  after : s.potential w ≤ B

theorem init_bounded (n r B : ℕ) : Bounded w r B (init n) := by
  have hpot : (init n : Pipeline F).potential w = 0 := by simp [init, potential, inboxWeight]
  exact ⟨fun _ => hpot, hpot ▸ Nat.zero_le B⟩

theorem step_bounded {r B : ℕ} (hnew : ∀ freq, k * w.update ⟨r, .recordComplete freq⟩ ≤ B)
    (hother : ∀ r' freq, r' ≠ r → w.update ⟨r', .recordComplete freq⟩ = 0) (s : Pipeline F)
    (a : Act F) (hk : SentToAtMost k s a) (h : Bounded w r B s) : Bounded w r B (s.step a) := by
  have hrec := records_le_step (s := s) a
  refine ⟨fun hr => ?_, ?_⟩
  · have hzero := h.before (hrec.trans hr)
    rcases step_potential w a hk with hle | ⟨freq, -, hsucc, heq⟩
    · omega
    · rw [heq, hzero, hother s.records freq (by omega)]
      simp
  · have hafter := h.after
    rcases step_potential w a hk with hle | ⟨freq, -, -, heq⟩
    · exact hle.trans hafter
    · by_cases hr : s.records = r
      · rw [heq, h.before hr.le, hr, Nat.zero_add]
        exact hnew freq
      · rw [heq, hother s.records freq hr]
        simpa using hafter

theorem run_potential {r B : ℕ} (hnew : ∀ freq, k * w.update ⟨r, .recordComplete freq⟩ ≤ B)
    (hother : ∀ r' freq, r' ≠ r → w.update ⟨r', .recordComplete freq⟩ = 0) {n : ℕ}
    {as : List (Act F)} (h : Meets step (SentToAtMost k) (init n) as) :
    (run step (init n) as).potential w ≤ B :=
  (run_inv_of_meets (step_bounded w hnew hother) as (init n) h (init_bounded w n r B)).after

theorem sum_map_toNat {β : Type*} (p : β → Bool) : ∀ l : List β,
    (l.map fun x => (p x).toNat).sum = l.countP p
  | [] => rfl
  | x :: l => by
    rw [List.map_cons, List.sum_cons, sum_map_toNat p l, List.countP_cons, Nat.add_comm]
    cases p x <;> rfl

end Pipeline

/-- A transcription of a recording that `p` picks counts one, from the `record_complete` until it
is processed, or for good. -/
def transcribeWeights (k : ℕ) (p : ℕ → F → Bool) (forGood : Bool) : Weights F k where
  update u := match u.item with
    | .recordComplete freq => (p u.record freq).toNat
    | _ => 0
  request req := match req.item with
    | .transcribe _ freq => (p req.record freq).toNat
    | _ => 0
  command c := (c.item.transcribes && p c.record c.item.freq).toNat
  done c := (forGood && (c.item.transcribes && p c.record c.item.freq)).toNat
  request_le := by
    rintro r (_ | _ | _ | _) useOpenAI req hreq <;> cases hreq <;> simp
  command_le := by
    rintro r (⟨_ | _, freq⟩ | ⟨_ | _, text, freq⟩) <;>
      simp [Request.command, AiCommand.transcribes, AiCommand.freq]
  done_le := by
    rintro r c out
    cases hc : c.transcribes <;> cases forGood <;> simp [AiCommand.result, hc]

/-- A summary for recording `r` counts one from the `transcription_complete` on, and a transcription
as many as there are clients. -/
def summarizeWeights (F : Type*) (k r : ℕ) : Weights F k where
  update u := match u.item with
    | .recordComplete _ => k * (u.record == r).toNat
    | .transcriptionComplete _ _ => (u.record == r).toNat
    | _ => 0
  request req := match req.item with
    | .transcribe _ _ => k * (req.record == r).toNat
    | .summarize _ _ _ => (req.record == r).toNat
  command c := if c.item.transcribes then k * (c.record == r).toNat else (c.record == r).toNat
  done c := (!c.item.transcribes && c.record == r).toNat
  request_le := by
    rintro r' (_ | _ | _ | _) useOpenAI req hreq <;> cases hreq <;> simp
  command_le := by
    rintro r' (⟨_ | _, freq⟩ | ⟨_ | _, text, freq⟩) <;>
      simp [Request.command, AiCommand.transcribes]
  done_le := by
    rintro r' c out
    cases hc : c.transcribes <;> simp [AiCommand.result, hc]

namespace Pipeline

theorem commands_le (r : ℕ) {n : ℕ} {as : List (Act F)}
    (h : Meets step (SentToAtMost k) (init n) as) :
    (run step (init n) as).transcribed r ≤ k ∧ (run step (init n) as).summarized r ≤ k * k := by
  constructor
  · have hle := run_potential (transcribeWeights k (fun r' (_ : F) => r' == r) true) (r := r)
      (B := k) (by simp [transcribeWeights]) (by simp +contextual [transcribeWeights]) h
    rw [transcribed, ← sum_map_toNat]
    exact (Nat.le_add_left _ _).trans hle
  · have hle := run_potential (summarizeWeights F k r) (r := r) (B := k * k)
      (by simp [summarizeWeights]) (by simp +contextual [summarizeWeights]) h
    rw [summarized, ← sum_map_toNat]
    exact (Nat.le_add_left _ _).trans hle

/-- Where every update is sent to at most one client, each recording is transcribed and summarized
at most once. -/
theorem pipeline_once_of_one_connected (n : ℕ) (as : List (Act F))
    (h : Meets step (SentToAtMost 1) (init n) as) (r : ℕ) :
    (run step (init n) as).transcribed r ≤ 1 ∧ (run step (init n) as).summarized r ≤ 1 :=
  commands_le r h

/-- The worker takes a command and answers it. -/
def answer (out : String) : List (Act ℕ) := [.take, .worker out]

/-- Two clients react to every update, and the worker to all that comes of it. -/
def twoClients : List (Act ℕ) :=
  ([.recordComplete 100, .redisListener, .onmessage 0, .onmessage 1, .endpoint 0 true,
    .endpoint 0 true] : List (Act ℕ))
  ++ (List.replicate 2 (answer "text")).flatten
  ++ [.redisListener, .redisListener, .onmessage 0, .onmessage 0, .onmessage 1, .onmessage 1]
  ++ List.replicate 4 (.endpoint 0 true) ++ (List.replicate 4 (answer "summary")).flatten

/-- One recording is transcribed twice and summarized four times. -/
theorem pipeline_run_twice :
    (run step (init 2) twoClients).transcribed 0 = 2
    ∧ (run step (init 2) twoClients).summarized 0 = 4 := by
  decide +kernel

/-- The second client closes its socket before the update is sent. -/
def oneConnected : List (Act ℕ) :=
  [.recordComplete 100, .close 1, .redisListener, .onmessage 0, .endpoint 0 true]
    ++ answer "text" ++ [.redisListener, .onmessage 0, .endpoint 0 true] ++ answer "summary"

theorem pipeline_once_of_one_connected_second_closed :
    (run step (init 2) oneConnected).transcribed 0 = 1
    ∧ (run step (init 2) oneConnected).summarized 0 = 1
    ∧ (run step (init 2) oneConnected).transcribed 0 ≤ 1
    ∧ (run step (init 2) oneConnected).summarized 0 ≤ 1 :=
  ⟨by decide +kernel, by decide +kernel,
    pipeline_once_of_one_connected (F := ℕ) 2 _ (by decide +kernel) 0⟩

end Pipeline

end Client

end AetherGuard
