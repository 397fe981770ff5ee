import AetherGuard.DataClients
import AetherGuard.Lib.Queue
import AetherGuard.Lib.Threads

/-!
# What a data client receives

Between its accept and its close a client is in one of three phases: accepted and about to be
added, listed in `g_data_clients`, or closed (`Phase`). A listed client has been sent every frame
begun since it was added, but for the one that is being sent if its turn has not come, and it is
among the dead descriptors exactly when a send to it was short or failed. Since these descriptors
are closed only after they were taken off the list, and a free number is given out only after it
was closed, neither a frame nor a close reaches another client.
-/

namespace AetherGuard

namespace Relay

open Machine Threads

variable {e : Endian}

theorem DataClient.full_of_not_dead {c : DataClient} (h : ¬ c.dead e = true) :
    ∀ call ∈ c.sends, call.full e = true := by
  simpa [DataClient.dead] using h

theorem DataClient.dead_append (c : DataClient) (call : SendCall) :
    ({ c with sends := c.sends ++ [call] } : DataClient).dead e
      = (c.dead e || !call.full e) := by
  simp [DataClient.dead]

theorem flatMap_bytes_of_full {calls : List SendCall} (h : ∀ call ∈ calls, call.full e = true) :
    calls.flatMap (·.bytes e) = (calls.map (·.frame)).flatMap (·.bytes e) := by
  rw [List.flatMap_map]
  refine List.flatMap_congr fun call hcall => ?_
  have hfull := h call hcall
  simp only [SendCall.full, beq_iff_eq] at hfull
  rw [SendCall.bytes, hfull, Option.getD_some, List.take_length]

namespace DataClients

variable {s t : DataClients} {k : ℕ} {c : DataClient}

/-- Where client `k` is in its life. -/
inductive Phase (e : Endian) (s : DataClients) (k : ℕ) (c : DataClient) : Prop
  | accepted (fd : ℕ) (hfd : s.fds fd = some (.client k)) (hacc : s.acceptor = .addDataClient fd)
    (hc : c = ⟨none, [], 0⟩)
  | listed (fd a : ℕ) (hfd : s.fds fd = some (.client k)) (hlist : fd ∈ s.gDataClients)
    (hadd : c.added = some a)
    (hcount : a + c.sends.length + (if fd ∈ s.sender.todo then 1 else 0) = s.frames.length)
    (hdead : c.dead e = true ↔ fd ∈ s.sender.deadFds) (hclose : c.closes = 0)
  | closed (a : ℕ) (hfd : ∀ fd, s.fds fd ≠ some (.client k)) (hadd : c.added = some a)
    (hdead : c.dead e = true) (hclose : c.closes = 1)

/-- What was sent to a client: consecutive frames, all but the last in full. -/
structure Stream (e : Endian) (frames : List Frame) (c : DataClient) : Prop where
  consecutive : ∀ a, c.added = some a → c.sends.map (·.frame) <+: frames.drop a
  full : ∀ call ∈ c.sends.dropLast, call.full e = true

structure Inv (e : Endian) (s : DataClients) : Prop where
  phase : ∀ (k : ℕ) c, s.clients[k]? = some c → Phase e s k c
  stream : ∀ (k : ℕ) c, s.clients[k]? = some c → Stream e s.frames c
  lt : ∀ fd k, s.fds fd = some (.client k) → k < s.clients.length
  inj : ∀ fd fd' k, s.fds fd = some (.client k) → s.fds fd' = some (.client k) → fd = fd'
  nodup : s.gDataClients.Nodup
  opened : ∀ fd ∈ s.gDataClients, ∃ k, s.fds fd = some (.client k)
  adding : ∀ fd, s.acceptor = .addDataClient fd →
    fd ∉ s.gDataClients ∧ ∃ k, s.fds fd = some (.client k)
  once : (s.sender.todo ++ s.sender.deadFds).Nodup
  work : ∀ fd ∈ s.sender.todo ++ s.sender.deadFds, fd ∈ s.gDataClients
  frame : ∀ frame todo deadFds, s.sender = .sending frame todo deadFds →
    s.frames.getLast? = some frame

theorem init_inv : Inv e init where
  phase := nofun
  stream := nofun
  lt := nofun
  inj := nofun
  nodup := List.nodup_nil
  opened := nofun
  adding := nofun
  once := List.nodup_nil
  work := nofun
  frame := nofun

/-- The client a listed descriptor stands for. -/
theorem Inv.listed (h : Inv e s) {fd : ℕ} (hlist : fd ∈ s.gDataClients) :
    ∃ k c a, s.fds fd = some (.client k) ∧ s.clients[k]? = some c ∧ c.added = some a
      ∧ a + c.sends.length + (if fd ∈ s.sender.todo then 1 else 0) = s.frames.length
      ∧ (c.dead e = true ↔ fd ∈ s.sender.deadFds) ∧ c.closes = 0 := by
  obtain ⟨k, hfd⟩ := h.opened fd hlist
  have hk := List.getElem?_eq_getElem (h.lt fd k hfd)
  cases h.phase k _ hk with
  | accepted fd' hfd' hacc =>
    obtain rfl := h.inj fd fd' k hfd hfd'
    exact absurd hlist (h.adding fd hacc).1
  | listed fd' a hfd' _ hadd hcount hdead hclose =>
    obtain rfl := h.inj fd fd' k hfd hfd'
    exact ⟨k, _, a, hfd, hk, hadd, hcount, hdead, hclose⟩
  | closed a hfd' => exact absurd hfd (hfd' fd)

/-- The client that is about to be added. -/
theorem Inv.accepted (h : Inv e s) {fd : ℕ} (hacc : s.acceptor = .addDataClient fd) :
    ∃ k, s.fds fd = some (.client k) ∧ s.clients[k]? = some ⟨none, [], 0⟩ := by
  obtain ⟨hlist, k, hfd⟩ := h.adding fd hacc
  have hk := List.getElem?_eq_getElem (h.lt fd k hfd)
  cases h.phase k _ hk with
  | accepted fd' hfd' hacc' hc => exact ⟨k, hfd, hk.trans (congrArg some hc)⟩
  | listed fd' a hfd' hlist' =>
    obtain rfl := h.inj fd fd' k hfd hfd'
    exact absurd hlist' hlist
  | closed a hfd' => exact absurd hfd (hfd' fd)

/-- A step that touches no list and no client's descriptor. -/
theorem Inv.of_same (h : Inv e s)
    (hfds : ∀ fd k, t.fds fd = some (.client k) ↔ s.fds fd = some (.client k))
    (hclients : t.clients = s.clients) (hlist : t.gDataClients = s.gDataClients)
    (hacc : t.acceptor = s.acceptor) (hframes : t.frames = s.frames)
    (htodo : t.sender.todo = s.sender.todo) (hdead : t.sender.deadFds = s.sender.deadFds)
    (hsend : ∀ frame todo deadFds, t.sender = .sending frame todo deadFds → t.sender = s.sender) :
    Inv e t where
  phase k c hk := by
    cases h.phase k c (hclients ▸ hk) with
    | accepted fd hfd ha hc => exact .accepted fd ((hfds fd k).2 hfd) (hacc.trans ha) hc
    | listed fd a hfd hl hadd hcount hd hclose =>
      refine .listed fd a ((hfds fd k).2 hfd) (hlist ▸ hl) hadd ?_ (hdead ▸ hd) hclose
      rw [htodo, hframes, hcount]
    | closed a hfd hadd hd hclose =>
      exact .closed a (fun fd => (hfds fd k).not.2 (hfd fd)) hadd hd hclose
  stream k c hk := hframes ▸ h.stream k c (hclients ▸ hk)
  lt fd k hfd := hclients ▸ h.lt fd k ((hfds fd k).1 hfd)
  inj fd fd' k hfd hfd' := h.inj fd fd' k ((hfds fd k).1 hfd) ((hfds fd' k).1 hfd')
  nodup := hlist ▸ h.nodup
  opened fd hfd := (h.opened fd (hlist ▸ hfd)).imp fun k => (hfds fd k).2
  adding fd ha := by
    rw [hlist]
    exact (h.adding fd (hacc ▸ ha)).imp_right fun ⟨k, hk⟩ => ⟨k, (hfds fd k).2 hk⟩
  once := by rw [htodo, hdead]; exact h.once
  work := by rw [htodo, hdead, hlist]; exact h.work
  frame frame todo deadFds hs := by
    rw [hframes]
    exact h.frame frame todo deadFds ((hsend frame todo deadFds hs) ▸ hs)

theorem takeFrame_inv (h : Inv e s) (frame : Frame) : Inv e (s.takeFrame frame) := by
  unfold takeFrame
  split
  · rename_i hs
    exact h.of_same (fun _ _ => Iff.rfl) rfl rfl rfl rfl (by rw [hs]; rfl) (by rw [hs]; rfl) nofun
  · exact h

theorem otherThread_inv (h : Inv e s) (fd : ℕ) : Inv e (s.otherThread fd) := by
  have hkeeps : ∀ sock, (∀ k, s.fds fd ≠ some (.client k)) → (∀ k, sock ≠ some (.client k)) →
      Inv e { s with fds := Function.update s.fds fd sock } := by
    intro sock hfd hsock
    refine h.of_same (fun fd' k => ?_) rfl rfl rfl rfl rfl rfl fun _ _ _ _ => rfl
    by_cases hne : fd' = fd
    · subst hne
      simp [hfd k, hsock k]
    · simp [Function.update_of_ne hne]
  unfold otherThread
  split <;> rename_i hfd
  · exact hkeeps _ (by rw [hfd]; nofun) nofun
  · exact hkeeps _ (by rw [hfd]; nofun) nofun
  · exact h

theorem modifyClient_of_client {fd : ℕ} (hfd : s.fds fd = some (.client k))
    (f : DataClient → DataClient) : s.modifyClient fd f = s.clients.modify k f := by
  simp only [modifyClient, hfd]

theorem accept_inv (h : Inv e s) (fd : ℕ) : Inv e (s.accept fd) := by
  unfold accept
  split
  · rename_i hacc hfree
    have hold : ∀ fd' k, s.fds fd' = some (.client k) → fd' ≠ fd := by
      rintro fd' k hfd' rfl
      exact absurd (hfree.symm.trans hfd') nofun
    have hfds : ∀ fd' k, Function.update s.fds fd (some (.client s.clients.length)) fd'
        = some (.client k) → (fd' = fd ∧ k = s.clients.length) ∨ s.fds fd' = some (.client k) := by
      intro fd' k hfd'
      by_cases hne : fd' = fd
      · subst hne
        simp only [Function.update_self, Option.some.injEq, DataSock.client.injEq] at hfd'
        exact .inl ⟨rfl, hfd'.symm⟩
      · exact .inr (by simpa [Function.update_of_ne hne] using hfd')
    refine ⟨fun k c hk => ?_, fun k c hk => ?_, fun fd' k hfd' => ?_, fun fd₁ fd₂ k h₁ h₂ => ?_,
      h.nodup, fun fd' hlist => ?_, fun fd' hadd => ?_, h.once, h.work, h.frame⟩
    · rcases getElem?_concat_cases hk with hk | ⟨rfl, rfl⟩
      · cases h.phase k c hk with
        | accepted fd' hfd' hacc' => exact absurd (hacc.symm.trans hacc') nofun
        | listed fd' a hfd' hlist hadd hcount hdead hclose =>
          refine .listed fd' a ?_ hlist hadd hcount hdead hclose
          exact (Function.update_of_ne (hold fd' k hfd') _ _).trans hfd'
        | closed a hfd' hadd hdead hclose =>
          refine .closed a (fun fd' hfd'' => ?_) hadd hdead hclose
          rcases hfds fd' k hfd'' with ⟨-, rfl⟩ | hfd''
          · simp at hk
          · exact hfd' fd' hfd''
      · exact .accepted fd (Function.update_self ..) rfl rfl
    · rcases getElem?_concat_cases hk with hk | ⟨rfl, rfl⟩
      · exact h.stream k c hk
      · exact ⟨nofun, nofun⟩
    · rw [List.length_append]
      rcases hfds fd' k hfd' with ⟨-, rfl⟩ | hfd'
      · exact Nat.lt_succ_self _
      · exact Nat.lt_succ_of_lt (h.lt fd' k hfd')
    · rcases hfds fd₁ k h₁ with ⟨he₁, hk₁⟩ | h₁' <;> rcases hfds fd₂ k h₂ with ⟨he₂, hk₂⟩ | h₂'
      · exact he₁.trans he₂.symm
      · exact absurd (h.lt fd₂ k h₂') (by omega)
      · exact absurd (h.lt fd₁ k h₁') (by omega)
      · exact h.inj fd₁ fd₂ k h₁' h₂'
    · obtain ⟨k, hk⟩ := h.opened fd' hlist
      exact ⟨k, (Function.update_of_ne (hold fd' k hk) _ _).trans hk⟩
    · obtain rfl : fd = fd' := Acceptor.addDataClient.inj hadd
      refine ⟨fun hlist => ?_, _, Function.update_self ..⟩
      obtain ⟨k, hk⟩ := h.opened fd hlist
      exact hold fd k hk rfl
  · exact h

theorem addDataClient_inv (h : Inv e s) {fd : ℕ} (hacc : s.acceptor = .addDataClient fd)
    (htodo : s.sender.todo = []) :
    Inv e { s.addDataClient fd with acceptor := .accepting } := by
  obtain ⟨k₀, hfd₀, hk₀⟩ := h.accepted hacc
  obtain ⟨hnew, -⟩ := h.adding fd hacc
  unfold addDataClient
  rw [modifyClient_of_client hfd₀]
  refine ⟨fun k c hk => ?_, fun k c hk => ?_, fun fd' k hfd' => ?_, h.inj, ?_, fun fd' hlist => ?_,
    nofun, h.once, fun fd' hw => List.mem_append_left _ (h.work fd' hw), h.frame⟩
  · rcases getElem?_modify_cases hk with ⟨rfl, c', hc', rfl⟩ | ⟨hne, hk⟩
    · obtain rfl := Option.some.inj (hk₀.symm.trans hc')
      refine .listed fd s.frames.length hfd₀
        (List.mem_append_right _ (List.mem_singleton.2 rfl)) rfl (by simp [htodo]) ?_ rfl
      exact ⟨nofun, fun hd => absurd (h.work fd (List.mem_append_right _ hd)) hnew⟩
    · cases h.phase k c hk with
      | accepted fd' hfd' hacc' =>
        obtain rfl := Acceptor.addDataClient.inj (hacc.symm.trans hacc')
        exact absurd (DataSock.client.inj (Option.some.inj (hfd'.symm.trans hfd₀))) hne
      | listed fd' a hfd' hlist hadd hcount hdead hclose =>
        exact .listed fd' a hfd' (List.mem_append_left _ hlist) hadd hcount hdead hclose
      | closed a hfd' hadd hdead hclose => exact .closed a hfd' hadd hdead hclose
  · rcases getElem?_modify_cases hk with ⟨rfl, c', hc', rfl⟩ | ⟨-, hk⟩
    · obtain rfl := Option.some.inj (hk₀.symm.trans hc')
      exact ⟨fun _ _ => List.nil_prefix, nofun⟩
    · exact h.stream k c hk
  · simpa using h.lt fd' k hfd'
  · simpa using h.nodup.concat hnew
  · rcases List.mem_append.1 hlist with hlist | hlist
    · exact h.opened fd' hlist
    · rw [List.mem_singleton.1 hlist]
      exact ⟨k₀, hfd₀⟩

theorem dataAcceptThread_inv (h : Inv e s) : Inv e s.dataAcceptThread := by
  unfold dataAcceptThread
  split
  · exact h
  · exact h
  · rename_i fd hacc hns
    refine addDataClient_inv h hacc ?_
    cases hs : s.sender with
    | sending frame todo deadFds => exact absurd hs (hns frame todo deadFds)
    | _ => rfl

/-- The sender takes the mutex and begins with its frame. -/
theorem lock_inv (h : Inv e s) {frame : Frame} (hs : s.sender = .lock frame) :
    Inv e { s with
      sender := .sending frame s.gDataClients []
      frames := s.frames ++ [frame] } := by
  refine ⟨fun k c hk => ?_, fun k c hk => ⟨fun a ha => ?_, (h.stream k c hk).full⟩, h.lt, h.inj,
    h.nodup, h.opened, h.adding, ?_, fun fd hw => ?_, ?_⟩
  · cases h.phase k c hk with
    | accepted fd hfd hacc hc => exact .accepted fd hfd hacc hc
    | listed fd a hfd hlist hadd hcount hdead hclose =>
      rw [hs] at hcount hdead
      refine .listed fd a hfd hlist hadd ?_ hdead hclose
      simp only [DataSender.todo, List.not_mem_nil, if_false, hlist, if_true,
        List.length_append, List.length_singleton] at hcount ⊢
      omega
    | closed a hfd hadd hdead hclose => exact .closed a hfd hadd hdead hclose
  · rw [List.drop_append]
    exact ((h.stream k c hk).consecutive a ha).trans (List.prefix_append _ _)
  · simpa [DataSender.todo, DataSender.deadFds] using h.nodup
  · simpa [DataSender.todo, DataSender.deadFds] using hw
  · rintro _ _ _ ⟨⟩
    exact List.getLast?_concat

/-- The sender sends its frame to the next client. -/
theorem send_inv (h : Inv e s) {frame : Frame} {fd : ℕ} {todo deadFds : List ℕ}
    (hs : s.sender = .sending frame (fd :: todo) deadFds) (sent : Option ℕ) :
    Inv e { s with
      clients := s.modifyClient fd fun c => { c with sends := c.sends ++ [⟨frame, sent⟩] }
      sender := .sending frame todo
        (if SendCall.full e ⟨frame, sent⟩ then deadFds else deadFds ++ [fd]) } := by
  have honce := h.once
  have hwork := h.work
  have hlast := h.frame _ _ _ hs
  rw [hs] at honce hwork
  simp only [DataSender.todo, DataSender.deadFds, List.cons_append, List.nodup_cons,
    List.mem_append, not_or] at honce
  obtain ⟨⟨htodo, hdeadFds⟩, honce⟩ := honce
  obtain ⟨k₀, c₀, a₀, hfd₀, hk₀, hadd₀, hcount₀, hdead₀, hclose₀⟩ :=
    h.listed (hwork fd (List.mem_cons_self ..))
  rw [hs] at hcount₀ hdead₀
  simp only [DataSender.todo, DataSender.deadFds, List.mem_cons, true_or, if_true] at hcount₀ hdead₀
  have hfull := DataClient.full_of_not_dead (hdead₀.not.2 hdeadFds)
  have hmem : ∀ fd', fd' ≠ fd → (fd' ∈ (if SendCall.full e ⟨frame, sent⟩ then deadFds
      else deadFds ++ [fd]) ↔ fd' ∈ deadFds) := by
    intro fd' hne
    split_ifs <;> simp [hne]
  rw [modifyClient_of_client hfd₀]
  refine ⟨fun k c hk => ?_, fun k c hk => ?_, fun fd' k hfd' => ?_, h.inj, h.nodup, h.opened,
    h.adding, ?_, fun fd' hw => ?_, ?_⟩
  · rcases getElem?_modify_cases hk with ⟨rfl, c', hc', rfl⟩ | ⟨hne, hk⟩
    · obtain rfl := Option.some.inj (hk₀.symm.trans hc')
      refine .listed fd a₀ hfd₀ (hwork fd (List.mem_cons_self ..)) hadd₀ ?_ ?_ hclose₀
      · simp only [DataSender.todo, htodo, if_false, List.length_append, List.length_singleton]
        omega
      · rw [DataClient.dead_append, Bool.or_eq_true, hdead₀]
        simp only [DataSender.deadFds, hdeadFds, false_or]
        split_ifs with hf <;> simp [hf, hdeadFds]
    · cases h.phase k c hk with
      | accepted fd' hfd' hacc hc => exact .accepted fd' hfd' hacc hc
      | listed fd' a hfd' hlist hadd hcount hdead hclose =>
        have hfd : fd' ≠ fd := by
          rintro rfl
          exact hne (DataSock.client.inj (Option.some.inj (hfd'.symm.trans hfd₀)))
        rw [hs] at hcount hdead
        simp only [DataSender.todo, DataSender.deadFds, List.mem_cons, hfd, false_or]
          at hcount hdead
        exact .listed fd' a hfd' hlist hadd hcount (hdead.trans (hmem fd' hfd).symm) hclose
      | closed a hfd' hadd hdead hclose => exact .closed a hfd' hadd hdead hclose
  · rcases getElem?_modify_cases hk with ⟨rfl, c', hc', rfl⟩ | ⟨-, hk⟩
    · obtain rfl := Option.some.inj (hk₀.symm.trans hc')
      refine ⟨fun a ha => ?_, by simpa using hfull⟩
      obtain rfl : a₀ = a := Option.some.inj (hadd₀.symm.trans ha)
      rw [List.map_append]
      refine Queue.take_le_put ((h.stream _ _ hk₀).consecutive a₀ hadd₀) ?_
      rw [List.getElem?_drop, List.length_map, ← hlast, List.getLast?_eq_getElem?]
      congr 1
      omega
    · exact h.stream k c hk
  · simpa using h.lt fd' k hfd'
  · simp only [DataSender.todo, DataSender.deadFds]
    split_ifs
    · exact honce
    · rw [← List.append_assoc]
      simpa using honce.concat (by simp [htodo, hdeadFds])
  · simp only [DataSender.todo, DataSender.deadFds, List.mem_append] at hw
    by_cases hne : fd' = fd
    · subst hne
      exact hwork fd' (List.mem_cons_self ..)
    · rw [hmem fd' hne] at hw
      exact hwork fd' (List.mem_cons_of_mem _ (List.mem_append.2 hw))
  · rintro _ _ _ ⟨⟩
    exact hlast

/-- A dead client is taken off the list and closed. -/
theorem remove_inv (h : Inv e s) {fd : ℕ} {deadFds : List ℕ}
    (hs : s.sender = .removing (fd :: deadFds)) :
    Inv e { s.removeDataClient fd with sender := .removing deadFds } := by
  have honce := h.once
  have hwork := h.work
  rw [hs] at honce hwork
  obtain ⟨hdeadFds, honce⟩ := List.nodup_cons.1 honce
  have hlisted := hwork fd (List.mem_cons_self ..)
  obtain ⟨k₀, c₀, a₀, hfd₀, hk₀, hadd₀, -, hdead₀, hclose₀⟩ := h.listed hlisted
  rw [hs] at hdead₀
  have hfds : ∀ fd' k, Function.update s.fds fd none fd' = some (.client k) →
      fd' ≠ fd ∧ s.fds fd' = some (.client k) := by
    intro fd' k hfd'
    by_cases hne : fd' = fd
    · subst hne
      simp at hfd'
    · exact ⟨hne, by simpa [Function.update_of_ne hne] using hfd'⟩
  have hkeep : ∀ fd' k, fd' ≠ fd → s.fds fd' = some (.client k) →
      Function.update s.fds fd none fd' = some (.client k) := fun fd' k hne hfd' =>
    (Function.update_of_ne hne _ _).trans hfd'
  unfold removeDataClient
  rw [modifyClient_of_client hfd₀]
  refine ⟨fun k c hk => ?_, fun k c hk => ?_, fun fd' k hfd' => ?_, fun fd₁ fd₂ k h₁ h₂ => ?_,
    h.nodup.filter _, fun fd' hlist => ?_, fun fd' hacc => ?_, honce, fun fd' hw => ?_, nofun⟩
  · rcases getElem?_modify_cases hk with ⟨rfl, c', hc', rfl⟩ | ⟨hne, hk⟩
    · obtain rfl := Option.some.inj (hk₀.symm.trans hc')
      refine .closed a₀ (fun fd' hfd' => ?_) hadd₀ (hdead₀.2 (List.mem_cons_self ..))
        (by simp [hclose₀])
      obtain ⟨hne, hfd'⟩ := hfds fd' _ hfd'
      exact hne (h.inj fd' fd _ hfd' hfd₀)
    · have hother : ∀ fd', s.fds fd' = some (.client k) → fd' ≠ fd := by
        rintro fd' hfd' rfl
        exact hne (DataSock.client.inj (Option.some.inj (hfd'.symm.trans hfd₀)))
      cases h.phase k c hk with
      | accepted fd' hfd' hacc hc =>
        exact .accepted fd' (hkeep fd' k (hother fd' hfd') hfd') hacc hc
      | listed fd' a hfd' hlist hadd hcount hdead hclose =>
        have hfd := hother fd' hfd'
        rw [hs] at hcount hdead
        simp only [DataSender.deadFds, List.mem_cons, hfd, false_or] at hdead
        refine .listed fd' a (hkeep fd' k hfd hfd') ?_ hadd hcount hdead hclose
        exact List.mem_filter.2 ⟨hlist, by simpa using hfd⟩
      | closed a hfd' hadd hdead hclose =>
        exact .closed a (fun fd' hfd'' => hfd' fd' (hfds fd' k hfd'').2) hadd hdead hclose
  · rcases getElem?_modify_cases hk with ⟨rfl, c', hc', rfl⟩ | ⟨-, hk⟩
    · exact ⟨(h.stream k c' hc').consecutive, (h.stream k c' hc').full⟩
    · exact h.stream k c hk
  · simpa using h.lt fd' k (hfds fd' k hfd').2
  · exact h.inj fd₁ fd₂ k (hfds fd₁ k h₁).2 (hfds fd₂ k h₂).2
  · obtain ⟨hlist, hne⟩ := List.mem_filter.1 hlist
    exact (h.opened fd' hlist).imp fun k => hkeep fd' k (by simpa using hne)
  · obtain ⟨hlist, k, hk⟩ := h.adding fd' hacc
    refine ⟨fun hl => hlist (List.mem_filter.1 hl).1, k, hkeep fd' k ?_ hk⟩
    rintro rfl
    exact hlist hlisted
  · refine List.mem_filter.2 ⟨hwork fd' (List.mem_cons_of_mem _ hw), ?_⟩
    simp only [decide_eq_true_eq]
    rintro rfl
    exact hdeadFds hw

theorem dataSenderThread_inv (h : Inv e s) (n : Option ℕ) : Inv e (s.dataSenderThread e n) := by
  unfold dataSenderThread
  split <;> rename_i hs
  · exact h
  · exact lock_inv h hs
  · exact send_inv h hs _
  · exact h.of_same (fun _ _ => Iff.rfl) rfl rfl rfl rfl (by rw [hs]; rfl) (by rw [hs]; rfl) nofun
  · exact remove_inv h hs
  · exact h.of_same (fun _ _ => Iff.rfl) rfl rfl rfl rfl (by rw [hs]; rfl) (by rw [hs]; rfl) nofun

theorem step_inv (a : Act) (h : Inv e s) : Inv e (s.step e a) := by
  cases a with
  | accept fd => exact accept_inv h fd
  | acceptor => exact dataAcceptThread_inv h
  | frame frame => exact takeFrame_inv h frame
  | sender n => exact dataSenderThread_inv h n
  | other fd => exact otherThread_inv h fd

theorem Phase.sends_nil (h : Phase e s k c) (hadd : c.added = none) : c.sends = [] := by
  cases h with
  | accepted fd hfd hacc hc => rw [hc]
  | listed fd a hfd hlist hadd' => exact absurd (hadd.symm.trans hadd') nofun
  | closed a hfd hadd' => exact absurd (hadd.symm.trans hadd') nofun

theorem Stream.wholeFrames {frames : List Frame} (h : Stream e frames c)
    (hnone : c.added = none → c.sends = []) : c.WholeFrames e frames := by
  unfold DataClient.WholeFrames
  split
  · exact hnone ‹_›
  · rename_i a ha
    have hpre := h.consecutive a ha
    by_cases hd : c.dead e = true
    · -- the last send is the one that was short
      obtain ⟨calls, last, hc⟩ : ∃ calls last, c.sends = calls ++ [last] := by
        refine ⟨c.sends.dropLast, c.sends.getLast ?_, (List.dropLast_append_getLast _).symm⟩
        rintro hnil
        simp [DataClient.dead, hnil] at hd
      have hfull := h.full
      rw [hc, List.dropLast_concat] at hfull
      rw [hc, List.map_append] at hpre
      have htake := List.prefix_iff_eq_take.1 ((List.prefix_append _ _).trans hpre)
      rw [List.length_map] at htake
      refine ⟨calls.length, last.bytes e, ?_, ?_, h.full⟩
      · rw [DataClient.received, hc, List.flatMap_append, flatMap_bytes_of_full hfull, ← htake]
        simp
      · rw [if_pos hd]
        refine ⟨last.frame, ?_, List.take_prefix _ _, by simp [hc]⟩
        obtain ⟨rest, hrest⟩ := hpre
        rw [← List.getElem?_drop, ← hrest]
        simp
    · refine ⟨c.sends.length, [], ?_, by simp [hd], h.full⟩
      have htake := List.prefix_iff_eq_take.1 hpre
      rw [List.length_map] at htake
      rw [DataClient.received, flatMap_bytes_of_full (DataClient.full_of_not_dead hd), ← htake,
        List.append_nil]

theorem Inv.faithful (h : Inv e s) : s.Faithful e where
  nodup := h.nodup
  opened := h.opened
  whole c hc := by
    obtain ⟨k, hk⟩ := List.mem_iff_getElem?.1 hc
    exact (h.stream k c hk).wholeFrames (h.phase k c hk).sends_nil
  upToDate fd hlist _ := by
    obtain ⟨k, c, a, hfd, hk, hadd, hcount, -⟩ := h.listed hlist
    exact ⟨k, c, a, hfd, hk, hadd, hcount⟩
  closed k c hk hd := by
    cases h.phase k c hk with
    | accepted fd hfd hacc hc =>
      rw [hc] at hd
      exact absurd hd nofun
    | listed fd a hfd hlist hadd hcount hdead hclose =>
      exact .inr ⟨hclose, fd, hdead.1 hd, hfd⟩
    | closed a hfd hadd hdead hclose => exact .inl hclose
  kept c hc hd := by
    obtain ⟨k, hk⟩ := List.mem_iff_getElem?.1 hc
    cases h.phase k c hk with
    | accepted fd hfd hacc hc => rw [hc]
    | listed fd a hfd hlist hadd hcount hdead hclose => exact hclose
    | closed a hfd hadd hdead => exact absurd (hd.symm.trans hdead) nofun

/-- The sender's steps until it is idle. -/
def senderSteps (s : DataClients) : ℕ :=
  match s.sender with
  | .idle => 0
  | .removing deadFds => deadFds.length + 1
  | .sending _ todo deadFds => 2 * todo.length + deadFds.length + 2
  | .lock _ => 2 * s.gDataClients.length + 3

theorem sender_progress (hs : s.sender ≠ .idle) :
    (s.dataSenderThread e none).senderSteps < s.senderSteps := by
  unfold dataSenderThread
  split <;> rename_i hsender <;> simp only [senderSteps, hsender]
  · exact absurd hsender hs
  · simp
  · simp only [List.length_cons]
    split_ifs
    · omega
    · rw [List.length_append, List.length_singleton]
      omega
  · simp
  · simp
  · simp

theorem frames_step (s : DataClients) (a : Act) :
    (s.step e a).frames ++ (s.step e a).sender.held
      = s.frames ++ s.sender.held ++ s.taken a := by
  cases a with
  | accept fd =>
    simp only [step, accept, taken, List.append_nil]
    split <;> rfl
  | acceptor =>
    simp only [step, dataAcceptThread, taken, List.append_nil]
    split <;> rfl
  | frame frame =>
    simp only [step, takeFrame, taken]
    split
    · rename_i hs
      simp [hs, DataSender.held]
    · rename_i hs
      rw [if_neg hs, List.append_nil]
  | sender n =>
    simp only [step, dataSenderThread, taken, List.append_nil]
    split <;> rename_i hs <;> simp [hs, DataSender.held, removeDataClient]
  | other fd =>
    simp only [step, otherThread, taken, List.append_nil]
    split <;> rfl

/-- The frames that clients are sent are those taken out of the ring, in that order and none left
out but the one the sender is waiting with. Every client gets them as `Faithful` says, and steps of
the sender alone close every client on which a send was short or failed. -/
theorem data_clients_faithful (e : Endian) (as : List Act) :
    (run (step e) init as).frames ++ (run (step e) init as).sender.held
      = gives (step e) taken init as
    ∧ (run (step e) init as).Faithful e
    ∧ ∃ bs : List Act, (∀ a ∈ bs, a = .sender none) ∧
      ∀ c ∈ (run (step e) init (as ++ bs)).clients, c.dead e = true → c.closes = 1 := by
  have hrun : ∀ as, Inv e (run (step e) init as) := fun as =>
    Machine.run_inv (fun _ => step_inv) as init init_inv
  have htaken := run_eq_append_gives (f := fun s : DataClients => s.frames ++ s.sender.held)
    (frames_step (e := e)) as init
  refine ⟨htaken, (hrun as).faithful, ?_⟩
  obtain ⟨bs, hbs, -, hidle⟩ : ∃ bs : List Act, (∀ a ∈ bs, a = .sender none) ∧ True
      ∧ (run (step e) (run (step e) init as) bs).sender = .idle :=
    exists_run (I := fun _ => True) (D := fun s => s.sender = .idle) senderSteps
      (fun s _ hs => ⟨.sender none, rfl, trivial, sender_progress hs⟩) _ trivial
  refine ⟨bs, hbs, fun c hc hd => ?_⟩
  rw [← run_append] at hidle
  obtain ⟨k, hk⟩ := List.mem_iff_getElem?.1 hc
  rcases (hrun (as ++ bs)).faithful.closed k c hk hd with hclose | ⟨-, fd, hfd, -⟩
  · exact hclose
  · rw [hidle] at hfd
    exact absurd hfd List.not_mem_nil

/-- A client that takes one frame and the first ten bytes of the next is closed; the one that was
added in between has taken the second frame, and the third goes to it alone. -/
theorem data_clients_faithful_short_send :
    let first : Frame := ⟨1, [5, 6]⟩
    let second : Frame := ⟨1, [7, 8]⟩
    let third : Frame := ⟨1, [9, 10]⟩
    let as : List Act := [.accept 4, .acceptor, .frame first, .sender none, .sender (some 12),
      .sender none, .sender none, .accept 5, .acceptor, .frame second, .sender none,
      .sender (some 10), .sender (some 12), .sender none, .sender none, .sender none,
      .frame third, .sender none, .sender (some 12)]
    let s := run (step .little) init as
    s.frames = [first, second, third] ∧ s.gDataClients = [5]
    ∧ s.clients.map (fun c => (c.added, c.received .little, c.closes))
      = [(some 0, first.bytes .little ++ (second.bytes .little).take 10, 1),
        (some 1, second.bytes .little ++ third.bytes .little, 0)]
    ∧ s.Faithful .little := by
  intro first second third as s
  exact ⟨by decide +kernel, by decide +kernel, by decide +kernel,
    (data_clients_faithful .little as).2.1⟩

end DataClients

end Relay

end AetherGuard
