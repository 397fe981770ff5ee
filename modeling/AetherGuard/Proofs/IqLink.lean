import AetherGuard.Proofs.DataClients
import AetherGuard.Proofs.IqDelivery

/-!
# What the filters hear was captured

The frames that the sender began are the first that the ring was given (`SenderOk`), and every one
of them is good: an empty buffer is never accepted. A client's socket took a part of the frames
begun since it was added, and the reader has read the first of these; on earlier connections it read
frames that were begun before (`Reads`). So the payloads read are some of the frames, in order, and
what the daemon carries of them reaches the filters in order. All this as long as no thread of the
relay sends a control line on a descriptor that has become a data client's.
-/

namespace AetherGuard

open Machine
open scoped List

/-! ### Out of the relay -/

namespace Relay

namespace State

variable {s : State}

/-- Every buffer that the ring accepted, or is about to, has samples. -/
def HasSamples (s : State) : Prop :=
  (∀ buf ∈ s.accepted, buf.samples ≠ []) ∧ ∀ buf, s.producer = .testReady buf → buf.samples ≠ []

theorem init_hasSamples : HasSamples State.init := ⟨nofun, nofun⟩

theorem HasSamples.offer (h : s.HasSamples) (buf : IqBuffer) : (s.offer buf).HasSamples := by
  unfold State.offer
  split
  · split_ifs with hskip
    · exact h
    · refine ⟨h.1, fun b hb => ?_⟩
      simp only [Producer.testReady.injEq] at hb
      exact hb ▸ fun hnil => hskip (.inr hnil)
  · exact h

theorem HasSamples.broadcastAudio (h : s.HasSamples) : s.broadcastAudio.HasSamples := by
  simp only [State.broadcastAudio]
  split <;> rename_i hp
  case h_2 buf =>
    split_ifs
    · exact ⟨h.1, fun _ hb => by cases hb⟩
    · refine ⟨fun b hb => ?_, fun _ hb => by cases hb⟩
      rcases List.mem_append.1 hb with hb | hb
      · exact h.1 b hb
      · exact (List.mem_singleton.1 hb) ▸ h.2 buf hp
  case h_1 => exact h
  all_goals exact ⟨h.1, fun _ hb => by cases hb⟩

theorem HasSamples.dataSenderThread (h : s.HasSamples) : s.dataSenderThread.HasSamples := by
  simp only [State.dataSenderThread]
  split
  · split_ifs <;> exact h
  all_goals exact h

theorem HasSamples.step (h : s.HasSamples) (a : Act) : (s.step a).HasSamples := by
  cases a with
  | offer buf => exact h.offer buf
  | producer => exact h.broadcastAudio
  | sender => exact h.dataSenderThread
  | setMode mode => exact h

/-- The buffer that `broadcastAudio` has yet to find a slot for. -/
def pending (s : State) : List IqBuffer :=
  match s.producer with
  | .testReady buf => [buf]
  | _ => []

theorem pending_offer (s : State) (buf : IqBuffer) : (s.offer buf).accepted = s.accepted
    ∧ (s.offer buf).pending <+ s.pending ++ (match s.producer with | .idle => [buf] | _ => []) := by
  unfold State.offer
  split
  · rename_i hp
    split_ifs
    · exact ⟨rfl, List.sublist_append_left _ _⟩
    · refine ⟨rfl, ?_⟩
      simp only [pending, hp]
      exact List.Sublist.refl _
  · exact ⟨rfl, List.sublist_append_left _ _⟩

/-- `broadcastAudio` accepts its buffer or gives it up. -/
theorem pending_broadcastAudio (s : State) :
    s.broadcastAudio.accepted ++ s.broadcastAudio.pending <+ s.accepted ++ s.pending := by
  simp only [State.broadcastAudio, pending]
  split <;> rename_i hp
  case h_2 =>
    split_ifs
    · exact List.Sublist.append_left (List.nil_sublist _) _
    · simp only [List.append_nil, hp]
      exact List.Sublist.refl _
  case h_1 => simp only [hp]; exact List.Sublist.refl _
  all_goals simp only [hp]; exact List.Sublist.refl _

theorem pending_dataSenderThread (s : State) :
    s.dataSenderThread.accepted ++ s.dataSenderThread.pending <+ s.accepted ++ s.pending := by
  simp only [State.dataSenderThread]
  split
  · split_ifs <;> exact List.Sublist.refl _
  all_goals exact List.Sublist.refl _

/-- Only its own thread moves the sender on. -/
theorem sender_step (s : State) {a : Act} (ha : a ≠ .sender) :
    (s.step a).sender = s.sender ∧ (s.step a).frames = s.frames := by
  cases a with
  | offer buf =>
    simp only [step, offer]
    split
    · split_ifs <;> exact ⟨rfl, rfl⟩
    · exact ⟨rfl, rfl⟩
  | producer =>
    simp only [step, broadcastAudio]
    split
    case h_2 => split_ifs <;> exact ⟨rfl, rfl⟩
    all_goals exact ⟨rfl, rfl⟩
  | sender => exact absurd rfl ha
  | setMode mode => exact ⟨rfl, rfl⟩

end State

/-- What a client's socket took starts the frames begun since it was added. -/
theorem DataClients.Stream.received_starts {e : Endian} {frames : List Frame} {c : DataClient}
    (h : DataClients.Stream e frames c) {a : ℕ} (ha : c.added = some a) :
    c.received e <+: (frames.drop a).flatMap (·.bytes e) := by
  refine List.IsPrefix.trans ?_ ((h.consecutive a ha).flatMap _)
  have hfull := h.full
  rw [DataClient.received]
  rcases List.eq_nil_or_concat c.sends with hnil | ⟨calls, call, hcalls⟩
  · rw [hnil]
    exact List.prefix_rfl
  · rw [List.concat_eq_append] at hcalls
    rw [hcalls] at hfull ⊢
    rw [List.dropLast_concat] at hfull
    rw [List.flatMap_append, List.map_append, List.flatMap_append, flatMap_bytes_of_full hfull,
      List.prefix_append_right_inj]
    simpa [SendCall.bytes] using List.take_prefix _ _

namespace DataClients

variable {e : Endian} {s : DataClients} {k : ℕ}

/-- The number of frames begun when client `k` was added, once it is. -/
def since (s : DataClients) (k : ℕ) : Option ℕ := s.clients[k]?.bind (·.added)

theorem since_modifyClient {fd : ℕ} {f : DataClient → DataClient}
    (hf : ∀ c, (f c).added = c.added) :
    ((s.modifyClient fd f)[k]?.bind (·.added)) = s.since k := by
  unfold modifyClient since
  split
  · rename_i j hfd
    rw [List.getElem?_modify]
    cases s.clients[k]? with
    | none => rfl
    | some c =>
      show (if j = k then f c else c).added = c.added
      split_ifs
      · exact hf c
      · rfl
  · rfl

/-- A step adds the client, with the frames begun so far behind it, or leaves alone when it was
added; and no begun frame is taken back. -/
theorem since_step (h : Inv e s) (a : Act) (k : ℕ) :
    s.frames <+: (s.step e a).frames ∧ ((s.step e a).since k = s.since k
      ∨ s.since k = none ∧ (s.step e a).since k = some s.frames.length
        ∧ (s.step e a).frames = s.frames) := by
  cases a with
  | accept fd =>
    simp only [step, accept]
    split
    · refine ⟨List.prefix_rfl, .inl ?_⟩
      rcases lt_trichotomy k s.clients.length with hk | rfl | hk
      · rw [since, List.getElem?_append_left hk]
        rfl
      · simp [since]
      · rw [since, List.getElem?_eq_none (by simpa using hk), since,
          List.getElem?_eq_none hk.le]
    · exact ⟨List.prefix_rfl, .inl rfl⟩
  | acceptor =>
    simp only [step, dataAcceptThread]
    split
    · exact ⟨List.prefix_rfl, .inl rfl⟩
    · exact ⟨List.prefix_rfl, .inl rfl⟩
    · rename_i fd hacc _
      obtain ⟨j, hfd, hj⟩ := h.accepted hacc
      refine ⟨List.prefix_rfl, ?_⟩
      simp only [since, addDataClient, modifyClient_of_client hfd, List.getElem?_modify]
      by_cases hjk : j = k
      · subst hjk
        simp [hj]
      · simp [hjk]
  | frame frame =>
    simp only [step, takeFrame]
    split <;> exact ⟨List.prefix_rfl, .inl rfl⟩
  | sender n =>
    simp only [step, dataSenderThread]
    split
    · exact ⟨List.prefix_rfl, .inl rfl⟩
    · exact ⟨List.prefix_append _ _, .inl rfl⟩
    · exact ⟨List.prefix_rfl, .inl (since_modifyClient fun _ => rfl)⟩
    · exact ⟨List.prefix_rfl, .inl rfl⟩
    · exact ⟨List.prefix_rfl, .inl (since_modifyClient fun _ => rfl)⟩
    · exact ⟨List.prefix_rfl, .inl rfl⟩
  | other fd =>
    simp only [step, otherThread]
    split <;> exact ⟨List.prefix_rfl, .inl rfl⟩

end DataClients

end Relay

namespace IqLink

variable {e : Endian} {s : IqLink}

/-- The frame on its way from the ring to the clients. -/
def SenderOk (s : IqLink) : Prop :=
  match s.clients.sender with
  | .idle =>
    match s.ring.sender with
    | .testReady | .copy _ => s.ring.frames = s.clients.frames
    | .clearReady _ | .incRead => ∃ frame, s.ring.frames = s.clients.frames ++ [frame]
  | .lock frame => s.ring.sender = .testReady ∧ s.ring.frames = s.clients.frames ++ [frame]
  | .sending _ _ _ | .removing _ => s.ring.sender = .testReady ∧ s.ring.frames = s.clients.frames

theorem SenderOk.begun (h : s.SenderOk) : s.clients.frames <+: s.ring.frames := by
  unfold SenderOk at h
  split at h
  · split at h
    · exact h ▸ List.prefix_rfl
    · exact h ▸ List.prefix_rfl
    · obtain ⟨frame, h⟩ := h
      exact h ▸ List.prefix_append _ _
    · obtain ⟨frame, h⟩ := h
      exact h ▸ List.prefix_append _ _
  · exact h.2 ▸ List.prefix_append _ _
  · exact h.2 ▸ List.prefix_rfl
  · exact h.2 ▸ List.prefix_rfl

/-- The number of frames begun when the relay added the present connection, once it has. -/
def since (s : IqLink) : Option ℕ := (s.peer s.stream.conn).bind s.clients.since

/-- On the present connection the first of the frames begun since it was added were read, and
before it frames begun before. -/
structure Reads (e : Endian) (s : IqLink) (before now : List (List Int16)) : Prop where
  fed : s.fed = before ++ now
  now : match s.since with
    | none => before <+ s.clients.frames.map (·.payload) ∧ now = [] ∧ s.consumed = 0
    | some a => before <+ (s.clients.frames.take a).map (·.payload)
      ∧ ∃ m, a + m ≤ s.clients.frames.length
        ∧ now = ((s.clients.frames.drop a).take m).map (·.payload)
        ∧ s.consumed = (((s.clients.frames.drop a).take m).flatMap (·.bytes e)).length

structure Inv (e : Endian) (s : IqLink) : Prop where
  ring : s.ring.Inv
  fifo : Queue.Fifo 64 s.ring.queue
  samples : s.ring.HasSamples
  clients : s.clients.Inv e
  sender : s.SenderOk
  stream : s.stream.Carries s.fed.flatten
  peer : ∀ c k, s.peer c = some k → c ≤ s.stream.conn
  strays : ∀ k, s.strays k = []
  reads : ∃ before now, s.Reads e before now

theorem init_inv : Inv e init where
  ring := Relay.State.init_inv
  fifo := Queue.Fifo.empty 64
  samples := Relay.State.init_hasSamples
  clients := Relay.DataClients.init_inv
  sender := rfl
  stream := Daemon.IqStream.init_carries
  peer := nofun
  strays := fun _ => rfl
  reads := ⟨[], [], rfl, List.Sublist.slnil, rfl, rfl⟩

/-! What the invariant says of the frames -/

theorem Inv.frames_sublist (h : Inv e s) :
    s.clients.frames.Sublist (s.ring.accepted.map Relay.IqBuffer.cut) :=
  h.sender.begun.sublist.trans h.fifo.taken_le_put.sublist

theorem Inv.frame_valid (h : Inv e s) {frame : Frame} (hf : frame ∈ s.clients.frames) :
    ValidPayload frame.payload ∧ frame.bytes e = encodePayload e frame.payload := by
  obtain ⟨buf, hbuf, rfl⟩ := List.mem_map.1 (h.frames_sublist.subset hf)
  exact Relay.cut_valid e (h.samples.1 buf hbuf)

theorem Inv.drop_valid (h : Inv e s) (n : ℕ) :
    ∀ q ∈ (s.clients.frames.drop n).map (·.payload), ValidPayload q := by
  intro q hq
  obtain ⟨frame, hf, rfl⟩ := List.mem_map.1 hq
  exact (h.frame_valid (List.mem_of_mem_drop hf)).1

theorem Inv.flatMap_drop (h : Inv e s) (n : ℕ) :
    (s.clients.frames.drop n).flatMap (·.bytes e)
      = ((s.clients.frames.drop n).map (·.payload)).flatMap (encodePayload e) := by
  rw [List.flatMap_map]
  exact List.flatMap_congr fun frame hf => (h.frame_valid (List.mem_of_mem_drop hf)).2

theorem Reads.sublist {before now : List (List Int16)} (h : s.Reads e before now) :
    s.fed <+ s.clients.frames.map (·.payload) := by
  rw [h.fed]
  have hnow := h.now
  split at hnow
  · obtain ⟨hbefore, rfl, -⟩ := hnow
    rwa [List.append_nil]
  · rename_i a ha
    obtain ⟨hbefore, m, -, rfl, -⟩ := hnow
    have hsplit := congrArg (List.map (·.payload)) (List.take_append_drop a s.clients.frames)
    rw [← hsplit, List.map_append]
    exact hbefore.append ((List.take_sublist m _).map _)

theorem Inv.fed_sublist (h : Inv e s) : s.fed <+ s.clients.frames.map (·.payload) := by
  obtain ⟨before, now, hreads⟩ := h.reads
  exact hreads.sublist

theorem ValidPayload.even {p : List Int16} (h : ValidPayload p) : Even p.length := by
  obtain ⟨count, -, -, hlen⟩ := h
  exact ⟨count, by omega⟩

theorem Inv.fed_even (h : Inv e s) : ∀ p ∈ s.fed, Even p.length := by
  intro p hp
  obtain ⟨frame, hframe, rfl⟩ := List.mem_map.1 (h.fed_sublist.subset hp)
  exact ValidPayload.even (h.frame_valid hframe).1

/-- The filters heard a part of what the ring accepted, in order. -/
theorem Inv.heard_sublist (h : Inv e s) : s.heard <+ s.ring.accepted.flatMap (pairs ·.samples) := by
  have hcut : ∀ buf ∈ s.ring.accepted, pairs buf.cut.payload <+ pairs buf.samples := by
    intro buf hbuf
    have heven := ValidPayload.even (Relay.cut_valid e (h.samples.1 buf hbuf)).1
    obtain ⟨t, ht⟩ : buf.cut.payload <+: buf.samples := List.take_prefix _ _
    rw [← ht, pairs_append heven]
    exact List.sublist_append_left _ _
  have hfed : s.fed <+ s.ring.accepted.map fun buf => buf.cut.payload := by
    have hmap := h.frames_sublist.map Frame.payload
    rw [List.map_map] at hmap
    exact h.fed_sublist.trans hmap
  have hpairs := h.stream.heard
  rw [pairs_flatten h.fed_even] at hpairs
  refine hpairs.trans ((hfed.flatMap pairs).trans ?_)
  rw [List.flatMap_map]
  exact List.Sublist.flatMap_right _ hcut

/-! What the daemon reads -/

/-- What has been sent and not been read is a part of the frames still to be read. -/
theorem Inv.readable_starts (h : Inv e s) {a m : ℕ} (ha : s.since = some a)
    (hm : s.consumed = (((s.clients.frames.drop a).take m).flatMap (·.bytes e)).length) :
    s.readable e <+: (s.clients.frames.drop (a + m)).flatMap (·.bytes e) := by
  simp only [since, Option.bind_eq_some_iff] at ha
  obtain ⟨k, hk, hadded⟩ := ha
  simp only [Relay.DataClients.since, Option.bind_eq_some_iff] at hadded
  obtain ⟨c, hc, hadd⟩ := hadded
  have hreceived : s.received e = c.received e := by
    simp only [received, hk, hc, h.strays k, Option.bind_some, Option.map_some, Option.getD_some,
      spliced, List.foldr_nil]
  obtain ⟨t, ht⟩ := (h.clients.stream k c hc).received_starts hadd
  rw [readable, hreceived]
  have hdrop := congrArg (List.drop s.consumed) ht
  rw [← List.take_append_drop m (s.clients.frames.drop a), List.flatMap_append,
    List.drop_left' hm.symm, List.drop_drop, List.drop_append] at hdrop
  exact ⟨_, hdrop⟩

/-- Nothing is sent before the relay has added the connection. -/
theorem Inv.readable_eq_nil (h : Inv e s) (hs : s.since = none) : s.readable e = [] := by
  have hreceived : s.received e = [] := by
    rcases hk : s.peer s.stream.conn with _ | k
    · rw [received, hk, Option.bind_none, Option.getD_none]
    · rcases hc : s.clients.clients[k]? with _ | c
      · rw [received, hk, Option.bind_some, hc, Option.map_none, Option.getD_none]
      · have hadd : c.added = none := by
          simpa only [since, hk, Option.bind_some, Relay.DataClients.since, hc] using hs
        simp only [received, hk, hc, h.strays k, Option.bind_some, Option.map_some,
          Option.getD_some, spliced, List.foldr_nil, Relay.DataClient.received,
          (h.clients.phase k c hc).sends_nil hadd, List.flatMap_nil]
  rw [readable, hreceived, List.drop_nil]

/-- A payload is read that is the next of the frames begun since the connection was added. -/
theorem Inv.next_frame (h : Inv e s) {p : List Int16} {ps : List (List Int16)}
    (hp : (tcpReader e [s.readable e]).fed = p :: ps) {before now : List (List Int16)}
    (hreads : s.Reads e before now) :
    ∃ a m frame, s.since = some a ∧ (s.clients.frames.drop a)[m]? = some frame
      ∧ frame.payload = p ∧ before <+ (s.clients.frames.take a).map (·.payload)
      ∧ now = ((s.clients.frames.drop a).take m).map (·.payload)
      ∧ s.consumed = (((s.clients.frames.drop a).take m).flatMap (·.bytes e)).length := by
  have hnow := hreads.now
  split at hnow
  · rename_i hs
    rw [h.readable_eq_nil hs, (tcpReader_empty e).1] at hp
    exact absurd hp (by simp)
  · rename_i a ha
    obtain ⟨hbefore, m, hm, hnow, hconsumed⟩ := hnow
    have hstarts := h.readable_starts ha hconsumed
    rw [h.flatMap_drop] at hstarts
    obtain ⟨qs, hqs⟩ := fed_head e (h.drop_valid (a + m)) hstarts hp
    obtain ⟨frame, rest, hdrop, rfl, -⟩ := List.map_eq_cons_iff.1 hqs
    refine ⟨a, m, frame, ha, ?_, rfl, hbefore, hnow, hconsumed⟩
    rw [List.getElem?_drop, ← List.head?_drop, hdrop]
    rfl

/-- What has been sent and not been read is a part of a stream of good frames. -/
theorem Inv.readable_part (h : Inv e s) : ∃ (qs : List (List Int16)) (t : List UInt8),
    (∀ q ∈ qs, ValidPayload q) ∧ s.readable e ++ t = qs.flatMap (encodePayload e) := by
  obtain ⟨before, now, hreads⟩ := h.reads
  have hnow := hreads.now
  split at hnow
  · rename_i hs
    exact ⟨[], [], nofun, by rw [h.readable_eq_nil hs]; rfl⟩
  · rename_i a ha
    obtain ⟨-, m, -, -, hconsumed⟩ := hnow
    obtain ⟨t, ht⟩ := h.readable_starts ha hconsumed
    exact ⟨_, t, h.drop_valid (a + m), by rw [ht, h.flatMap_drop]⟩

theorem Inv.exit_readable (h : Inv e s) (n : ℕ) :
    (tcpReader e [(s.readable e).take n]).exit = .headerRead
      ∨ (tcpReader e [(s.readable e).take n]).exit = .payloadRead := by
  by_cases hnil : (s.readable e).take n = []
  · rw [hnil]
    exact .inl (tcpReader_empty e).2
  · obtain ⟨qs, t, hqs, ht⟩ := h.readable_part
    rw [← List.take_append_drop n (s.readable e), List.append_assoc] at ht
    exact exit_of_part e [(s.readable e).take n] (by simpa using hnil) hqs
      (by rw [List.flatten_singleton]; exact ht)

/-! What a step keeps -/

/-- The reader's place among the frames stays where it is when the relay begins another, or adds a
client. -/
theorem Reads.of_step {t : IqLink} {before now : List (List Int16)} (h : s.Reads e before now)
    (hinv : s.clients.Inv e) (a : Relay.DataClients.Act) (hclients : t.clients = s.clients.step e a)
    (hpeer : t.peer t.stream.conn = s.peer s.stream.conn) (hconsumed : t.consumed = s.consumed)
    (hfed : t.fed = s.fed) : t.Reads e before now := by
  refine ⟨hfed.trans h.fed, ?_⟩
  have hnow := h.now
  have hframes : s.clients.frames <+: t.clients.frames :=
    hclients ▸ (Relay.DataClients.since_step hinv a 0).1
  have hsince : t.since = s.since ∨ s.since = none ∧ t.since = some s.clients.frames.length
      ∧ t.clients.frames = s.clients.frames := by
    unfold since
    rw [hpeer, hclients]
    cases s.peer s.stream.conn with
    | none => exact .inl rfl
    | some k => exact (Relay.DataClients.since_step hinv a k).2
  obtain ⟨new, hnew⟩ := hframes
  rw [hconsumed]
  rcases hsince with hsince | ⟨hnone, hsome, hsame⟩
  · rw [hsince, ← hnew]
    split at hnow
    · exact ⟨hnow.1.trans ((List.sublist_append_left _ _).map _), hnow.2⟩
    · rename_i a' ha'
      obtain ⟨hbefore, m, hm, hnow⟩ := hnow
      refine ⟨?_, m, ?_, ?_⟩
      · rwa [List.take_append_of_le_length (by omega)]
      · rw [List.length_append]
        omega
      · rw [List.drop_append_of_le_length (by omega), List.take_append_of_le_length (by
          rw [List.length_drop]
          omega)]
        exact hnow
  · rw [hsome, hsame]
    rw [hnone] at hnow
    obtain ⟨hbefore, rfl, hzero⟩ := hnow
    exact ⟨by rwa [List.take_length], 0, by simp, by simp, by simpa using hzero⟩

/-- What a step of the relay has to show. -/
theorem Inv.of_relay (h : Inv e s) {ring : Relay.State} {clients : Relay.DataClients}
    (hring : ring = s.ring ∨ s.ring.accepted.length < 2 ^ 31 ∧ ∃ a, ring = s.ring.step a)
    (hclients : clients = s.clients ∨ ∃ a, clients = s.clients.step e a)
    (hsender : SenderOk { s with ring := ring, clients := clients }) :
    Inv e { s with ring := ring, clients := clients } := by
  have hr : ring.Inv ∧ Queue.Fifo 64 ring.queue ∧ ring.HasSamples := by
    rcases hring with rfl | ⟨hb, a, rfl⟩
    · exact ⟨h.ring, h.fifo, h.samples⟩
    · exact ⟨Relay.State.step_inv a hb h.ring, (Relay.State.step_refines h.ring hb a).fifo h.fifo,
        h.samples.step a⟩
  have hc : clients.Inv e ∧ ∃ before now,
      Reads e { s with ring := ring, clients := clients } before now := by
    obtain ⟨before, now, hreads⟩ := h.reads
    rcases hclients with rfl | ⟨a, rfl⟩
    · exact ⟨h.clients, before, now, hreads.fed, hreads.now⟩
    · exact ⟨Relay.DataClients.step_inv a h.clients, before, now,
        hreads.of_step h.clients a rfl rfl rfl rfl⟩
  exact ⟨hr.1, hr.2.1, hr.2.2, hc.1, hsender, h.stream, h.peer, h.strays, hc.2⟩

theorem Inv.ring_step (h : Inv e s) (hb : s.ring.accepted.length < 2 ^ 31) {a : Relay.Act}
    (ha : a ≠ .sender) : Inv e { s with ring := s.ring.step a } := by
  refine h.of_relay (.inr ⟨hb, a, rfl⟩) (.inl rfl) ?_
  obtain ⟨hsender, hframes⟩ := s.ring.sender_step ha
  have hok := h.sender
  simp only [SenderOk, hsender, hframes] at hok ⊢
  exact hok

theorem Inv.sender_step (h : Inv e s) (hb : s.ring.accepted.length < 2 ^ 31) (n : Option ℕ) :
    Inv e (s.dataSenderThread e n) := by
  have hsender := h.sender
  unfold SenderOk at hsender
  unfold dataSenderThread
  split
  · rename_i frame hc hr hlast
    simp only [hc, hr] at hsender
    obtain ⟨frame', hframe⟩ := hsender
    rw [hframe, List.getLast?_concat, Option.some.injEq] at hlast
    subst hlast
    refine h.of_relay (.inr ⟨hb, .sender, rfl⟩) (.inr ⟨.frame frame', rfl⟩) ?_
    simp only [SenderOk, Relay.DataClients.takeFrame, hc, Relay.State.dataSenderThread, hr]
    exact ⟨trivial, hframe⟩
  · rename_i hc hno
    refine h.of_relay (.inr ⟨hb, .sender, rfl⟩) (.inl rfl) ?_
    simp only [hc] at hsender
    simp only [SenderOk, hc]
    rcases hr : s.ring.sender with _ | idx | idx | _ <;> simp only [hr] at hsender hno <;>
      simp only [Relay.State.dataSenderThread, hr]
    · split_ifs
      · exact hsender
      · simp only [hr]
        exact hsender
    · exact ⟨_, congrArg (· ++ [_]) hsender⟩
    · exact hsender
    · obtain ⟨frame, hframe⟩ := hsender
      exact absurd (by rw [hframe, List.getLast?_concat]) (hno frame trivial)
  · rename_i hidle _
    refine h.of_relay (.inl rfl) (.inr ⟨.sender n, rfl⟩) ?_
    simp only [SenderOk]
    rcases hc : s.clients.sender with
        _ | frame | ⟨frame, _ | ⟨fd, todo⟩, deadFds⟩ | (_ | ⟨fd, deadFds⟩) <;>
      simp only [hc] at hsender <;> simp only [Relay.DataClients.dataSenderThread, hc]
    · exact absurd hc hidle
    · exact hsender
    · exact hsender
    · exact hsender
    · rw [hsender.1]
      exact hsender.2
    · exact hsender

theorem Inv.clients_step (h : Inv e s) (a : Relay.DataClients.Act)
    (hsender : (s.clients.step e a).sender = s.clients.sender)
    (hframes : (s.clients.step e a).frames = s.clients.frames) :
    Inv e { s with clients := s.clients.step e a } := by
  refine h.of_relay (.inl rfl) (.inr ⟨a, rfl⟩) ?_
  have hok := h.sender
  simp only [SenderOk, hsender, hframes] at hok ⊢
  exact hok

theorem Inv.of_peer (h : Inv e s) {c k : ℕ} (hc : c ≤ s.stream.conn) (hnone : s.peer c = none)
    (hk : s.clients.since k = none) :
    Inv e { s with peer := Function.update s.peer c (some k) } := by
  obtain ⟨before, now, hreads⟩ := h.reads
  refine ⟨h.ring, h.fifo, h.samples, h.clients, h.sender, h.stream, fun c' k' hpeer => ?_,
    h.strays, before, now, hreads.fed, ?_⟩
  · by_cases hcc : c' = c
    · exact hcc ▸ hc
    · simp only [Function.update_of_ne hcc] at hpeer
      exact h.peer c' k' hpeer
  · have hsince : since { s with peer := Function.update s.peer c (some k) } = s.since := by
      simp only [since]
      by_cases hcc : s.stream.conn = c
      · rw [hcc, Function.update_self, hnone, Option.bind_some, hk]
        rfl
      · rw [Function.update_of_ne hcc]
    rw [hsince]
    exact hreads.now

theorem Inv.accept (h : Inv e s) (fd : ℕ) (conn : Option ℕ) : Inv e (s.accept fd conn) := by
  have haccept : s.clients.acceptor = .accepting → s.clients.fds fd = none →
      Inv e { s with clients := s.clients.accept fd } := by
    intro hacc hfree
    refine h.clients_step (.accept fd) ?_ ?_
    all_goals simp only [Relay.DataClients.step, Relay.DataClients.accept, hacc, hfree]
  unfold IqLink.accept
  split
  · rename_i c hacc hfree
    split_ifs with hc
    · obtain ⟨-, hle, hnone⟩ := hc
      refine (haccept hacc hfree).of_peer hle hnone ?_
      simp [Relay.DataClients.since, Relay.DataClients.accept, hacc, hfree]
    · exact h
  · rename_i hacc hfree
    exact haccept hacc hfree
  · exact h

/-- What a step of the daemon on its stream has to show. -/
theorem Inv.of_stream (h : Inv e s) {stream : Daemon.IqStream} (hconn : stream.conn = s.stream.conn)
    (hstream : stream.Carries s.fed.flatten) : Inv e { s with stream := stream } := by
  obtain ⟨before, now, hreads⟩ := h.reads
  have hsince : since { s with stream := stream } = s.since := by simp only [since, hconn]
  refine ⟨h.ring, h.fifo, h.samples, h.clients, h.sender, hstream, hconn ▸ h.peer, h.strays, before,
    now, hreads.fed, ?_⟩
  rw [hsince]
  exact hreads.now

theorem Inv.connect (h : Inv e s) : Inv e s.connect := by
  unfold IqLink.connect
  split
  · rename_i hr
    have hconn : s.stream.connect.conn = s.stream.conn + 1 := by
      simp only [Daemon.IqStream.connect, hr]
    have hnew : s.peer (s.stream.conn + 1) = none := by
      rcases hpeer : s.peer (s.stream.conn + 1) with _ | k
      · rfl
      · exact absurd (h.peer _ k hpeer) (by omega)
    refine ⟨h.ring, h.fifo, h.samples, h.clients, h.sender, h.stream.connect, fun c k hpeer => ?_,
      h.strays, s.fed, [], (List.append_nil _).symm, ?_⟩
    · exact hconn ▸ (h.peer c k hpeer).trans (Nat.le_succ _)
    · simp only [since, hconn, hnew, Option.bind_none]
      exact ⟨h.fed_sublist, trivial, trivial⟩
  · exact h

theorem Inv.recvFrame (h : Inv e s) : Inv e (s.recvFrame e) := by
  unfold IqLink.recvFrame
  split
  · rename_i p ps hr hp
    split_ifs with hsize
    · obtain ⟨before, now, hreads⟩ := h.reads
      obtain ⟨a, m, frame, ha, hget, rfl, hbefore, hnow, hconsumed⟩ := h.next_frame hp hreads
      have hm : a + m < s.clients.frames.length := by
        have hlt := (List.getElem?_eq_some_iff.1 hget).1
        rw [List.length_drop] at hlt
        omega
      have hmem : frame ∈ s.clients.frames := List.mem_of_mem_drop (List.mem_of_getElem? hget)
      have hconn : (s.stream.frame (payload frame.payload hsize)).conn = s.stream.conn := by
        simp only [Daemon.IqStream.frame, hr]
      have htake : (s.clients.frames.drop a).take (m + 1)
          = (s.clients.frames.drop a).take m ++ [frame] := by
        rw [List.take_add_one, hget]
        rfl
      refine ⟨h.ring, h.fifo, h.samples, h.clients, h.sender, ?_, hconn ▸ h.peer, h.strays, before,
        now ++ [frame.payload], by rw [hreads.fed, List.append_assoc], ?_⟩
      · rw [List.flatten_append, List.flatten_singleton]
        exact h.stream.frame (even_flatten h.fed_even) hr (payload frame.payload hsize)
      · simp only [since, hconn]
        rw [show (s.peer s.stream.conn).bind s.clients.since = some a from ha]
        refine ⟨hbefore, m + 1, by omega, ?_, ?_⟩
        · rw [htake, List.map_append, ← hnow, List.map_singleton]
        · rw [htake, List.flatMap_append, List.length_append, ← hconsumed, List.flatMap_singleton,
            (h.frame_valid hmem).2, length_encodePayload]
    · exact h
  · exact h

theorem Inv.endConn (h : Inv e s) (n : ℕ) : Inv e (s.endConn e n) := by
  unfold IqLink.endConn
  split
  · refine h.of_stream ?_ (h.stream.endConn _)
    unfold Daemon.IqStream.endConn
    split <;> rfl
  · exact h

theorem Inv.ctrlResponse (h : Inv e s) {fd : ℕ} {line : List UInt8}
    (hm : s.misdirects (.ctrlResponse fd line) = false) : Inv e (s.sendCtrlResponse e fd line) := by
  unfold sendCtrlResponse
  split
  · rename_i k hfd
    simp [misdirects, hfd] at hm
  · exact h

theorem step_inv (h : Inv e s) (hring : s.ring.accepted.length < 2 ^ 31)
    (hpool : s.stream.pool.accepted.length < 2 ^ 31) (a : Act) (hm : s.misdirects a = false) :
    Inv e (s.step e a) := by
  cases a with
  | offer buf => exact h.ring_step hring (a := .offer buf) (by simp)
  | producer => exact h.ring_step hring (a := .producer) (by simp)
  | setMode mode => exact h.ring_step hring (a := .setMode mode) (by simp)
  | sender n => exact h.sender_step hring n
  | accept fd conn => exact h.accept fd conn
  | acceptor =>
    refine h.clients_step .acceptor ?_ ?_
    all_goals
      simp only [Relay.DataClients.step, Relay.DataClients.dataAcceptThread]
      split <;> rfl
  | other fd =>
    refine h.clients_step (.other fd) ?_ ?_
    all_goals
      simp only [Relay.DataClients.step, Relay.DataClients.otherThread]
      split <;> rfl
  | ctrlResponse fd line => exact h.ctrlResponse hm
  | connect => exact h.connect
  | recvFrame => exact h.recvFrame
  | endConn n => exact h.endConn n
  | setScanning b => exact h.of_stream rfl (h.stream.setScanning b)
  | reader =>
    refine h.of_stream ?_ (h.stream.feedIQToPool hpool)
    simp only [Daemon.IqStream.feedIQToPool]
    split
    · split
      · split_ifs <;> rfl
      · rfl
    · rfl
  | demod => exact h.of_stream rfl (h.stream.demodThread hpool)

/-! What a run keeps -/

/-- What a step does to the ring: nothing, or one step of the ring itself, where only the hardware
offers. -/
theorem step_ring (s : IqLink) (a : Act) : (s.step e a).ring = s.ring
    ∨ ∃ b, (s.step e a).ring = s.ring.step b ∧ ∀ buf, b = .offer buf → a = .offer buf := by
  cases a with
  | offer buf => exact .inr ⟨.offer buf, rfl, fun _ h => by cases h; rfl⟩
  | producer => exact .inr ⟨.producer, rfl, by simp⟩
  | setMode mode => exact .inr ⟨.setMode mode, rfl, by simp⟩
  | sender n =>
    simp only [step, dataSenderThread]
    split
    · exact .inr ⟨.sender, rfl, by simp⟩
    · exact .inr ⟨.sender, rfl, by simp⟩
    · exact .inl rfl
  | accept fd conn =>
    simp only [step, accept]
    split
    · split_ifs <;> exact .inl rfl
    · exact .inl rfl
    · exact .inl rfl
  | ctrlResponse fd line =>
    simp only [step, sendCtrlResponse]
    split <;> exact .inl rfl
  | connect =>
    simp only [step, connect]
    split <;> exact .inl rfl
  | recvFrame =>
    simp only [step, recvFrame]
    split
    · split_ifs <;> exact .inl rfl
    · exact .inl rfl
  | endConn n =>
    simp only [step, endConn]
    split <;> exact .inl rfl
  | acceptor | other fd | setScanning b | reader | demod => exact .inl rfl

/-- What a step does to the daemon's stream: nothing, or one step of the stream itself. -/
theorem step_stream (s : IqLink) (a : Act) : (s.step e a).stream = s.stream
    ∨ ∃ b, (s.step e a).stream = s.stream.step b := by
  cases a with
  | sender n =>
    simp only [step, dataSenderThread]
    split <;> exact .inl rfl
  | accept fd conn =>
    simp only [step, accept]
    split
    · split_ifs <;> exact .inl rfl
    · exact .inl rfl
    · exact .inl rfl
  | ctrlResponse fd line =>
    simp only [step, sendCtrlResponse]
    split <;> exact .inl rfl
  | connect =>
    simp only [step, connect]
    split
    · exact .inr ⟨.connect, rfl⟩
    · exact .inl rfl
  | recvFrame =>
    simp only [step, recvFrame]
    split
    · split_ifs
      · exact .inr ⟨.frame _, rfl⟩
      · exact .inl rfl
    · exact .inl rfl
  | endConn n =>
    simp only [step, endConn]
    split
    · exact .inr ⟨.endConn _, rfl⟩
    · exact .inl rfl
  | setScanning b => exact .inr ⟨.setScanning b, rfl⟩
  | reader => exact .inr ⟨.reader, rfl⟩
  | demod => exact .inr ⟨.demod, rfl⟩
  | offer buf | producer | setMode mode | acceptor | other fd => exact .inl rfl

theorem ring_accepted_le (s : IqLink) (a : Act) :
    s.ring.accepted.length ≤ (s.step e a).ring.accepted.length := by
  rcases s.step_ring a with heq | ⟨b, heq, -⟩ <;> rw [heq]
  exact s.ring.accepted_le_step b

theorem pool_accepted_le (s : IqLink) (a : Act) :
    s.stream.pool.accepted.length ≤ (s.step e a).stream.pool.accepted.length := by
  rcases s.step_stream a with heq | ⟨b, heq⟩ <;> rw [heq]
  exact s.stream.accepted_le_step b

theorem run_inv (e : Endian) (as : List Act)
    (hm : Meets (step e) (fun s a => s.misdirects a = false) init as)
    (hring : (run (step e) init as).ring.accepted.length < 2 ^ 31)
    (hpool : (run (step e) init as).stream.pool.accepted.length < 2 ^ 31) :
    Inv e (run (step e) init as) := by
  refine run_inv_of_meets_lt (B := 2 ^ 31)
    (m := fun s => max s.ring.accepted.length s.stream.pool.accepted.length)
    (fun s a => max_le_max (ring_accepted_le s a) (pool_accepted_le s a)) (fun s a hm hb h => ?_) as
    init hm (max_lt hring hpool) init_inv
  have hlt := max_lt_iff.1 hb
  exact step_inv h ((ring_accepted_le s a).trans_lt hlt.1) ((pool_accepted_le s a).trans_lt hlt.2) a
    hm

theorem accepted_step (s : IqLink) (a : Act) :
    (s.step e a).ring.accepted ++ (s.step e a).ring.pending
      <+ s.ring.accepted ++ s.ring.pending ++ s.offered a := by
  have hstay : s.ring.accepted ++ s.ring.pending
      <+ s.ring.accepted ++ s.ring.pending ++ s.offered a := List.sublist_append_left _ _
  rcases s.step_ring a with heq | ⟨b, heq, hoffer⟩ <;> rw [heq]
  · exact hstay
  · cases b with
    | offer buf =>
      obtain rfl := hoffer buf rfl
      obtain ⟨hacc, hpending⟩ := s.ring.pending_offer buf
      simp only [Relay.State.step, hacc, List.append_assoc]
      exact List.Sublist.append_left hpending _
    | producer => exact s.ring.pending_broadcastAudio.trans hstay
    | sender => exact s.ring.pending_dataSenderThread.trans hstay
    | setMode mode => exact hstay

/-- The buffers that the ring accepted were handed over by the hardware, each for one of
its calls. -/
theorem accepted_sublist (e : Endian) (as : List Act) :
    (run (step e) init as).ring.accepted <+ gives (step e) offered init as := by
  have hrun := run_sublist_append_gives
    (f := fun s : IqLink => s.ring.accepted ++ s.ring.pending) (accepted_step (e := e)) as init
  exact (List.sublist_append_left _ _).trans hrun

end IqLink

/-- As long as no control line is sent on a data client's descriptor, and with fewer than `2 ^ 31`
buffers and chunks accepted: whatever the interleaving, and through full rings, short sends, lost
connections and scans, the I/Q pairs that the filters saw are pairs that the hardware handed over,
whole, in the order in which it did and none of them twice. -/
theorem filters_hear_captured (e : Endian) (as : List IqLink.Act) (s : IqLink)
    (hs : s = run (IqLink.step e) IqLink.init as)
    (hm : Meets (IqLink.step e) (fun s a => s.misdirects a = false) IqLink.init as)
    (hring : s.ring.accepted.length < 2 ^ 31) (hpool : s.stream.pool.accepted.length < 2 ^ 31) :
    s.heard <+ IqLink.captured e as := by
  subst hs
  have hheard := (IqLink.run_inv e as hm hring hpool).heard_sublist
  rw [IqLink.captured, List.flatMap_def, pairs_flatten ?_, List.flatMap_map]
  · exact hheard.trans ((IqLink.accepted_sublist e as).flatMap _)
  · intro l hl
    obtain ⟨buf, -, rfl⟩ := List.mem_map.1 hl
    exact Nat.even_iff.2 buf.even

theorem even_replicate (x : Int16) : (List.replicate 32768 x).length % 2 = 0 := by
  rw [List.length_replicate]

theorem replicate_lt (x : Int16) : (List.replicate 32768 x).length < 2 ^ 32 := by
  rw [List.length_replicate]
  norm_num

/-- A buffer of one chunk of one value. -/
def wave (x : Int16) : Relay.IqBuffer := ⟨List.replicate 32768 x, even_replicate x, replicate_lt x⟩

open IqLink in
/-- Of two buffers the first is offered during a scan. -/
theorem filters_hear_captured_second_buffer :
    let as := attach ++ [.setMode .scanning, .offer (wave 9), .setMode .idle]
      ++ deliver .little (wave 7) ++ digest
    let s := run (step .little) init as
    captured .little as = pairs (wave 9).samples ++ pairs (wave 7).samples
      ∧ s.heard = pairs (wave 7).samples ∧ s.heard <+ captured .little as := by
  intro as s
  -- the offer during the scan leaves no trace
  have hs : s = run (step .little) init (attach ++ deliver .little (wave 7) ++ digest) := by
    simp only [s, as, run_append]
    rfl
  have hcaptured : captured .little as = pairs (wave 9).samples ++ pairs (wave 7).samples := by
    have hoffered : gives (step .little) offered init as = [wave 9] ++ [wave 7] ++ [] := by
      simp only [as, gives_append]
      rfl
    rw [captured, hoffered, List.append_nil, List.flatMap_append, List.flatMap_singleton,
      List.flatMap_singleton, pairs_append (Nat.even_iff.2 (wave 9).even)]
  obtain ⟨hheard, hring, hpool⟩ := run_digested List.length_replicate s hs
  refine ⟨hcaptured, hheard, filters_hear_captured .little as s rfl ?_ ?_ ?_⟩
  · exact Meets.of_forall (by simp [as, attach, deliver, digest, misdirects]) _
  · rw [hring]
    decide
  · rw [hpool]
    decide

/-- As long as no control line is sent on a data client's descriptor, and with fewer than `2 ^ 31`
buffers and chunks accepted, the reader never meets a bad magic word or a bad count, wherever the
connection breaks; so the exit that leaves `g_stream_gap` alone is never taken. -/
theorem reader_exits_announced (e : Endian) (as : List IqLink.Act) (s : IqLink)
    (hs : s = run (IqLink.step e) IqLink.init as)
    (hm : Meets (IqLink.step e) (fun s a => s.misdirects a = false) IqLink.init as)
    (hring : s.ring.accepted.length < 2 ^ 31) (hpool : s.stream.pool.accepted.length < 2 ^ 31)
    (n : ℕ) :
    (tcpReader e [(s.readable e).take n]).exit = .headerRead
      ∨ (tcpReader e [(s.readable e).take n]).exit = .payloadRead := by
  subst hs
  exact (IqLink.run_inv e as hm hring hpool).exit_readable n

open IqLink in
theorem reader_exits_announced_mid_frame :
    let s := run (step .little) init (attach ++ deliver .little ⟨[1, 2], rfl, by decide⟩)
    s.readable .little = [0x49, 0x51, 0x50, 0x43, 0, 0, 0, 1, 1, 0, 2, 0]
      ∧ ((tcpReader .little [(s.readable .little).take 10]).exit = .headerRead
        ∨ (tcpReader .little [(s.readable .little).take 10]).exit = .payloadRead) := by
  intro s
  obtain ⟨hread, hring, hstream⟩ := run_delivered .little ⟨[1, 2], rfl, by decide⟩ (by simp) s rfl
  refine ⟨hread.trans (by decide), reader_exits_announced .little _ s rfl ?_ ?_ ?_ 10⟩
  · exact Meets.of_forall (by simp [attach, deliver, misdirects]) _
  · rw [hring]
    decide
  · rw [hstream]
    decide

end AetherGuard
