import AetherGuard.LiveClients
import AetherGuard.Proofs.Control

/-!
# Who keeps live listening on

One flag stands for all pages: the daemon raises it for a `start`, or only retunes if it is up, and
lowers it for a `stop`, whichever page posted it. A page that is opened posts a `stop`, so it cuts
the pages that listen; and a page's own `stop` cuts it if it overtakes the `start` posted after it.
Where the requests of one page reach the API in the order they were posted, and the flag is lowered
for a page only while no other page listens (`Quiet`), no page that listens is cut.
-/

namespace AetherGuard

open Daemon Machine Threads

variable {F : Type*}

/-- The request whose command the listener handles. -/
def Daemon.Listener.live : Listener F → Option (LiveRequest F)
  | .liveTestScanning f _ | .liveTestLive f | .liveRetune f | .liveStart f => some (.start f)
  | .stopTestLive | .stopClear => some .stop
  | _ => none

/-- What a step of the listener does about live listening, by its outcome. -/
inductive LiveStep (s t : Control F) : Option Bool → Prop
  | acts (r : LiveRequest F) (hs : s.listener.live = some r) (ht : t.listener.live = none)
    (hflag : t.gLiveListen = r.isStart) : LiveStep s t (some true)
  | refuses (ht : t.listener.live = none) (hflag : t.gLiveListen = s.gLiveListen) :
    LiveStep s t (some false)
  | goesOn (ht : t.listener.live = s.listener.live) (hflag : t.gLiveListen = s.gLiveListen)
    (hretune : ∀ f, t.listener = .liveRetune f → s.gLiveListen = true) : LiveStep s t none

theorem commandListener_liveStep (s : Control F) (ok : Bool)
    (h : ∀ f, s.listener = .liveRetune f → s.gLiveListen = true) :
    LiveStep s (s.commandListener ok) s.liveOutcome := by
  unfold Control.commandListener Control.liveOutcome
  cases hl : s.listener <;> simp only
  case idle => exact .goesOn rfl rfl h
  case liveRetune f => exact .acts (.start f) (by rw [hl]; rfl) rfl (h f hl)
  case liveStart f => exact .acts _ (by rw [hl]; rfl) rfl rfl
  case stopClear => exact .acts _ (by rw [hl]; rfl) rfl rfl
  case stopTestLive =>
    split_ifs with hf
    · exact .goesOn (by rw [hl]; rfl) rfl nofun
    · exact .acts .stop (by rw [hl]; rfl) rfl (Bool.eq_false_of_not_eq_true hf)
  case liveTestScanning f freqProvided =>
    split_ifs
    · exact .refuses rfl rfl
    · exact .goesOn (by rw [hl]; rfl) rfl nofun
  case liveTestLive f =>
    split_ifs with hf
    · exact .goesOn (by rw [hl]; rfl) rfl fun _ _ => hf
    · exact .goesOn (by rw [hl]; rfl) rfl nofun
  all_goals
    refine .goesOn ?_ rfl ?_ <;> (try split_ifs) <;> first | rw [hl]; rfl | nofun

theorem LiveRequest.eq_stop {r : LiveRequest F} (h : r.isStart = false) : r = .stop := by
  cases r with
  | start f => cases h
  | stop => rfl

theorem stopClear_of_acts {s : Control F} (hs : s.listener.live = some .stop)
    (hflag : s.gLiveListen = true) (hout : s.liveOutcome = some true) :
    s.listener = .stopClear := by
  unfold Control.liveOutcome at hout
  cases hl : s.listener <;> simp only [hl, Listener.live] at hs hout ⊢ <;> first
    | exact absurd hout (by rw [hflag]; exact nofun)
    | cases hs

theorem receive_live {s : Control F} (hl : s.listener = .idle) (c : SdrCommand F) :
    (s.receive c.command).listener.live = c.posted.map (·.request)
    ∧ (s.receive c.command).gLiveListen = s.gLiveListen
    ∧ ∀ f, (s.receive c.command).listener ≠ .liveRetune f := by
  unfold Control.receive
  rw [hl]
  cases c with
  | live r =>
    obtain ⟨i, n, q⟩ := r
    cases q <;> exact ⟨rfl, rfl, nofun⟩
  | other c h =>
    obtain ⟨name, freq⟩ := c
    cases name <;> first | exact ⟨rfl, rfl, nofun⟩ | exact absurd h nofun

namespace LiveClients

variable {s : LiveClients F}

/-- The requests acted on and those under way, in the order in which the daemon comes to them. -/
def history (s : LiveClients F) : List (Posted F) :=
  s.acted.reverse ++ s.handling.toList ++ s.sdrCommands.filterMap (·.posted) ++ s.requests

/-- `b` is of another page, or was posted after `a`. -/
def Before (a b : Posted F) : Prop := a.page = b.page → a.num < b.num

structure LiveInv (s : LiveClients F) : Prop where
  handled : s.daemon.listener.live = s.handling.map (·.request)
  retune : ∀ f, s.daemon.listener = .liveRetune f → s.daemon.gLiveListen = true
  ordered : s.history.Pairwise Before
  posted : ∀ r ∈ s.history, ∃ p, s.pages[r.page]? = some p ∧ r.num < p.posted
  flag : ∀ i, s.Listening i → s.daemon.gLiveListen = true

theorem init_liveInv (freq : F) : LiveInv (init freq : LiveClients F) :=
  ⟨rfl, nofun, .nil, nofun, fun _ ⟨_, hp, _⟩ => by cases hp⟩

/-- A page posts a request, and may change otherwise. -/
theorem post_liveInv (h : LiveInv s) {i : ℕ} {q : LivePage F} (hi : s.pages[i]? = some q)
    {p : LivePage F} (hp : p.posted = q.posted) (r : LiveRequest F) : LiveInv (s.post i p r) := by
  have hlt : i < s.pages.length := (List.getElem?_eq_some_iff.1 hi).1
  have hbelow : ∀ a ∈ s.history, a.page = i → a.num < p.posted := by
    rintro a ha rfl
    obtain ⟨q', hq', hn⟩ := h.posted a ha
    obtain rfl := Option.some.inj (hi.symm.trans hq')
    omega
  have hhist : (s.post i p r).history = s.history ++ [⟨i, p.posted, r⟩] := by
    simp only [history, post, List.append_assoc]
  refine ⟨h.handled, h.retune, ?_, ?_, ?_⟩
  · rw [hhist]
    refine List.pairwise_append.2 ⟨h.ordered, List.pairwise_singleton _ _, fun a ha b hb => ?_⟩
    obtain rfl := List.mem_singleton.1 hb
    exact hbelow a ha
  · rw [hhist]
    intro a ha
    by_cases hai : a.page = i
    · refine ⟨_, by rw [hai]; exact List.getElem?_set_self hlt, ?_⟩
      rcases List.mem_append.1 ha with ha | ha
      · exact (hbelow a ha hai).trans (Nat.lt_succ_self _)
      · obtain rfl := List.mem_singleton.1 ha
        exact Nat.lt_succ_self _
    · rcases List.mem_append.1 ha with ha | ha
      · obtain ⟨q', hq', hn⟩ := h.posted a ha
        exact ⟨q', by rw [post, List.getElem?_set_ne (Ne.symm hai)]; exact hq', hn⟩
      · obtain rfl := List.mem_singleton.1 ha
        exact absurd rfl hai
  · rintro j ⟨p', hp', a, ha, haj, hnum, hstart⟩
    rcases getElem?_set_cases hp' with ⟨rfl, rfl⟩ | ⟨-, hp'⟩
    · -- the page has posted something since
      have hmem : a ∈ s.history := by
        simp only [history, List.mem_append, List.mem_reverse]
        exact .inl (.inl (.inl ha))
      have := hbelow a hmem haj
      simp only at hnum
      omega
    · exact h.flag j ⟨p', hp', a, ha, haj, hnum, hstart⟩

theorem mem_history_of_acted {r : Posted F} (h : r ∈ s.acted) : r ∈ s.history := by
  simp only [history, List.mem_append, List.mem_reverse]
  exact .inl (.inl (.inl h))

/-- A page is added, or changed without posting. -/
theorem LiveInv.pages (h : LiveInv s) {pages : List (LivePage F)}
    (hkeep : ∀ (i : ℕ) p, s.pages[i]? = some p → ∃ p', pages[i]? = some p' ∧ p'.posted = p.posted) :
    LiveInv { s with pages := pages } := by
  refine ⟨h.handled, h.retune, h.ordered, fun r hr => ?_, ?_⟩
  · obtain ⟨p, hp, hn⟩ := h.posted r hr
    obtain ⟨p', hp', hposted⟩ := hkeep _ p hp
    exact ⟨p', hp', hposted ▸ hn⟩
  · rintro i ⟨p', hp', r, hr, rfl, hnum, hstart⟩
    obtain ⟨p, hp, -⟩ := h.posted r (mem_history_of_acted hr)
    obtain ⟨p'', hp'', hposted⟩ := hkeep _ p hp
    obtain rfl := Option.some.inj (hp''.symm.trans hp')
    exact h.flag _ ⟨p, hp, r, hr, rfl, hnum.trans hposted, hstart⟩

theorem mount_liveInv (h : LiveInv s) : LiveInv s.mount := by
  have hpages : LiveInv { s with pages := s.pages ++ [⟨false, none, true, 0⟩] } :=
    h.pages fun i p hp =>
      ⟨p, (List.getElem?_append_left (List.getElem?_eq_some_iff.1 hp).1).trans hp, rfl⟩
  exact post_liveInv hpages (by simp) rfl _

theorem set_liveInv (h : LiveInv s) (i : ℕ) (isListeningLive : Bool) (selectedStation : Option F) :
    LiveInv (s.set i isListeningLive selectedStation) := by
  unfold set
  split
  · exact h
  · rename_i p hp
    have hlt := (List.getElem?_eq_some_iff.1 hp).1
    split_ifs
    · refine post_liveInv (post_liveInv h hp ?_ _) (List.getElem?_set_self hlt) ?_ _ <;> rfl
    · refine post_liveInv h hp ?_ _
      rfl
    · exact h

theorem unmount_liveInv (h : LiveInv s) (i : ℕ) : LiveInv (s.unmount i) := by
  unfold unmount
  split
  · exact h
  · rename_i p hp
    split_ifs
    · refine post_liveInv h hp ?_ _
      rfl
    · refine h.pages fun j q hq => ?_
      by_cases hj : j = i
      · obtain rfl := hj
        obtain rfl := Option.some.inj (hp.symm.trans hq)
        exact ⟨_, List.getElem?_set_self (List.getElem?_eq_some_iff.1 hp).1, rfl⟩
      · exact ⟨q, by rw [List.getElem?_set_ne (Ne.symm hj)]; exact hq, rfl⟩
    · exact h

/-- Requests are lost or go on to the daemon. -/
theorem LiveInv.requests (h : LiveInv s) {t : LiveClients F} (hd : t.daemon = s.daemon)
    (hp : t.pages = s.pages) (ha : t.acted = s.acted) (hh : t.handling = s.handling)
    (hsub : ∀ r ∈ t.history, r ∈ s.history) (hord : t.history.Pairwise Before) : LiveInv t := by
  refine ⟨?_, ?_, hord, fun r hr => ?_, fun i hi => ?_⟩
  · rw [hd, hh]
    exact h.handled
  · rw [hd]
    exact h.retune
  · rw [hp]
    exact h.posted r (hsub r hr)
  · rw [hd]
    refine h.flag i ?_
    rw [Listening, hp, ha] at hi
    exact hi

def Quiet (s : LiveClients F) : Act F → Prop
  | .endpoint j true => ∀ r ∈ s.requests[j]?, ∀ r' ∈ s.requests.take j, r'.page ≠ r.page
  | .listener _ => match s.daemon.listener, s.handling with
    | .stopClear, some r => ∀ i < s.pages.length, i ≠ r.page → ¬ s.Listening i
    | _, _ => True
  | _ => True

instance (s : LiveClients F) (a : Act F) : Decidable (s.Quiet a) := by
  unfold Quiet
  split
  · infer_instance
  · split <;> infer_instance
  · infer_instance

/-- The `j`-th request goes to the front of those under way, past requests of other pages. -/
theorem pairwise_eraseIdx {l : List (Posted F)} {j : ℕ} {r : Posted F} (hj : l[j]? = some r)
    (h : l.Pairwise Before) (hfirst : ∀ r' ∈ l.take j, r'.page ≠ r.page) :
    (r :: l.eraseIdx j).Pairwise Before := by
  obtain ⟨hlt, rfl⟩ := List.getElem?_eq_some_iff.1 hj
  have hsplit : l = l.take j ++ l[j] :: l.drop (j + 1) := by simp
  refine List.pairwise_cons.2 ⟨fun r' hr' => ?_, h.sublist (List.eraseIdx_sublist l j)⟩
  rw [List.eraseIdx_eq_take_drop_succ] at hr'
  rcases List.mem_append.1 hr' with hr' | hr'
  · exact fun he => absurd he.symm (hfirst r' hr')
  · rw [hsplit] at h
    exact (List.pairwise_cons.1 (List.pairwise_append.1 h).2.1).1 r' hr'

theorem endpoint_liveInv (h : LiveInv s) (j : ℕ) (arrives : Bool)
    (hg : s.Quiet (.endpoint j arrives)) : LiveInv (s.endpoint j arrives) := by
  unfold endpoint
  split
  · exact h
  · rename_i r hj
    have hsub := List.eraseIdx_sublist s.requests j
    cases arrives with
    | false =>
      have hlost : List.Sublist
          (history { s with requests := s.requests.eraseIdx j }) s.history :=
        (List.Sublist.refl _).append hsub
      exact h.requests rfl rfl rfl rfl (fun _ hr => hlost.subset hr) (h.ordered.sublist hlost)
    | true =>
      have hord := List.pairwise_append.1 h.ordered
      have hmove := pairwise_eraseIdx hj hord.2.1 (hg r hj)
      have hmem : ∀ r' ∈ r :: s.requests.eraseIdx j, r' ∈ s.requests := by
        intro r' hr'
        rcases List.mem_cons.1 hr' with rfl | hr'
        · exact List.mem_of_getElem? hj
        · exact hsub.subset hr'
      have hhist : ({ s with
          requests := s.requests.eraseIdx j
          sdrCommands := s.sdrCommands ++ [.live r] } : LiveClients F).history
          = s.acted.reverse ++ s.handling.toList ++ s.sdrCommands.filterMap (·.posted)
            ++ (r :: s.requests.eraseIdx j) := by
        simp [history, SdrCommand.posted]
      refine h.requests rfl rfl rfl rfl (fun r' hr' => ?_) ?_
      · rw [if_pos rfl, hhist] at hr'
        exact List.mem_append.2 ((List.mem_append.1 hr').imp id (hmem r'))
      · rw [if_pos rfl, hhist]
        exact List.pairwise_append.2 ⟨hord.1, hmove, fun a ha b hb => hord.2.2 a ha b (hmem b hb)⟩

theorem publish_liveInv (h : LiveInv s) (c : Command F) : LiveInv (s.publish c) := by
  unfold publish
  split_ifs with hc
  · have hhist : ({ s with sdrCommands := s.sdrCommands ++ [.other c hc] } : LiveClients F).history
        = s.history := by
      simp [history, SdrCommand.posted]
    exact h.requests rfl rfl rfl rfl (fun _ hr => hhist ▸ hr) (hhist ▸ h.ordered)
  · exact h

theorem takeCommand_liveInv (h : LiveInv s) : LiveInv s.takeCommand := by
  unfold takeCommand
  split
  · rename_i c rest hq hl
    obtain ⟨hlive, hflag, hretune⟩ := receive_live hl c
    have hnone : s.handling = none := by
      have := h.handled
      rw [hl] at this
      exact Option.map_eq_none_iff.1 this.symm
    have hhist : ({ s with
        daemon := s.daemon.receive c.command
        sdrCommands := rest
        handling := c.posted } : LiveClients F).history = s.history := by
      cases c <;> simp [history, hnone, hq, SdrCommand.posted]
    refine ⟨hlive, fun f hf => absurd hf (hretune f), hhist ▸ h.ordered, fun r hr => ?_,
      fun i hi => ?_⟩
    · rw [hhist] at hr
      exact h.posted r hr
    · exact hflag.trans (h.flag i hi)
  · exact h

/-- A page listens after the daemon acted on `r` because it did before, or because of `r`. -/
theorem Listening.of_cons {r : Posted F} {i : ℕ} {d : Control F} {handling : Option (Posted F)}
    (h : Listening { s with daemon := d, handling := handling, acted := r :: s.acted } i) :
    s.Listening i ∨ (r.page = i ∧ r.request.isStart = true) := by
  obtain ⟨p, hp, r', hr', hpage, hnum, hstart⟩ := h
  rcases List.mem_cons.1 hr' with rfl | hr'
  · exact .inr ⟨hpage, hstart⟩
  · exact .inl ⟨p, hp, r', hr', hpage, hnum, hstart⟩

/-- While the listener handles a request of a page, that page is not listening. -/
theorem not_listening_of_handling (h : LiveInv s) {r : Posted F} (hr : s.handling = some r) :
    ¬ s.Listening r.page := by
  rintro ⟨p, hp, r', hr', hpage, hnum, -⟩
  have hmem : r ∈ s.history := by simp [history, hr]
  obtain ⟨q, hq, hlt⟩ := h.posted r hmem
  obtain rfl := Option.some.inj (hq.symm.trans hp)
  have hord := (List.pairwise_append.1 (List.pairwise_append.1 (List.pairwise_append.1
    h.ordered).1).1).2.2
  have hbefore : r'.num < r.num :=
    hord r' (List.mem_reverse.2 hr') r (by simp [hr]) hpage
  omega

/-- A `stop` that the daemon acts on cuts nobody. -/
theorem not_listening_of_stop (h : LiveInv s) {ok : Bool} (hg : s.Quiet (.listener ok))
    {r : Posted F} (hr : s.handling = some r) (hout : s.daemon.liveOutcome = some true)
    (hstop : r.request.isStart = false) (i : ℕ) : ¬ s.Listening i := by
  intro hi
  have hlive := h.handled
  rw [hr, Option.map_some, LiveRequest.eq_stop hstop] at hlive
  have hclear := stopClear_of_acts hlive (h.flag i hi) hout
  by_cases hpage : i = r.page
  · exact not_listening_of_handling h hr (hpage ▸ hi)
  · simp only [Quiet, hclear, hr] at hg
    obtain ⟨p, hp, -⟩ := id hi
    exact hg i (List.getElem?_eq_some_iff.1 hp).1 hpage hi

theorem commandListener_liveInv (h : LiveInv s) (ok : Bool) (hg : s.Quiet (.listener ok)) :
    LiveInv (s.commandListener ok) := by
  have hstep := commandListener_liveStep s.daemon ok h.retune
  unfold commandListener
  generalize hout : s.daemon.liveOutcome = out at hstep
  cases hstep with
  | acts q hs ht hflag =>
    have hq := h.handled
    rw [hs] at hq
    obtain ⟨r, hr, rfl⟩ := Option.map_eq_some_iff.1 hq.symm
    simp only [Option.isSome_some, if_true, hr, Option.toList_some, List.singleton_append]
    have hhist : ({ s with
        daemon := s.daemon.commandListener ok
        handling := none
        acted := r :: s.acted } : LiveClients F).history = s.history := by
      simp [history, hr]
    refine ⟨ht, fun f hf => ?_, hhist ▸ h.ordered, fun r' hr' => ?_, fun i hi => ?_⟩
    · rw [hf] at ht
      cases ht
    · rw [hhist] at hr'
      exact h.posted r' hr'
    · rw [hflag]
      cases hstart : r.request.isStart with
      | true => rfl
      | false =>
        rcases hi.of_cons with hi | ⟨-, hi⟩
        · exact absurd hi (not_listening_of_stop h hg hr hout hstart i)
        · exact absurd (hstart.symm.trans hi) nofun
  | refuses ht hflag =>
    simp only [Option.isSome_some, if_true, Option.some.injEq, Bool.false_eq_true, if_false]
    have hsub : ({ s with
        daemon := s.daemon.commandListener ok
        handling := none } : LiveClients F).history.Sublist s.history := by
      simp only [history, Option.toList_none, List.append_nil, List.append_assoc]
      exact (List.Sublist.refl _).append (List.sublist_append_right _ _)
    refine ⟨ht, fun f hf => ?_, h.ordered.sublist hsub, fun r hr => h.posted r (hsub.subset hr),
      fun i hi => hflag.trans (h.flag i hi)⟩
    rw [hf] at ht
    cases ht
  | goesOn ht hflag hretune =>
    exact ⟨ht.trans h.handled, fun f hf => hflag.trans (hretune f hf), h.ordered, h.posted,
      fun i hi => hflag.trans (h.flag i hi)⟩

/-- The daemon's other threads leave the listener and the flag alone. -/
theorem LiveInv.keep (h : LiveInv s) {d : Control F} (hl : d.listener = s.daemon.listener)
    (hf : d.gLiveListen = s.daemon.gLiveListen) : LiveInv { s with daemon := d } := by
  refine ⟨?_, ?_, h.ordered, h.posted, fun i hi => hf.trans (h.flag i hi)⟩
  · rw [hl]
    exact h.handled
  · rw [hl, hf]
    exact h.retune

theorem step_liveInv (a : Act F) (hg : s.Quiet a) (h : LiveInv s) : LiveInv (s.step a) := by
  cases a with
  | mount => exact mount_liveInv h
  | set i isListeningLive selectedStation => exact set_liveInv h i isListeningLive selectedStation
  | unmount i => exact unmount_liveInv h i
  | endpoint j arrives => exact endpoint_liveInv h j arrives hg
  | publish c => exact publish_liveInv h c
  | takeCommand => exact takeCommand_liveInv h
  | listener ok => exact commandListener_liveInv h ok hg
  | recorder i ok =>
    obtain ⟨_, _, _, _, hrec⟩ := Control.recorderThread_eq s.daemon i ok
    exact h.keep (by rw [hrec]) (by rw [hrec])
  | live i ok =>
    obtain ⟨_, _, hlive⟩ := Control.liveThread_eq s.daemon i ok
    exact h.keep (by rw [hlive]) (by rw [hlive])
  | scanComplete => exact h.keep rfl rfl
  | output =>
    obtain ⟨_, _, hout⟩ := Control.outputThread_eq s.daemon
    exact h.keep (by rw [hout]) (by rw [hout])

/-- While the requests of each page arrive in order and no stop is carried out for one page while
another listens, `g_live_listen` is up whenever a page listens, also with requests under way. -/
theorem live_listen_of_quiet (freq : F) (as : List (Act F)) (h : Meets step Quiet (init freq) as)
    (i : ℕ) (hi : (run step (init freq) as).Listening i) :
    (run step (init freq) as).daemon.gLiveListen = true :=
  (run_inv_of_meets (fun _ => step_liveInv) as (init freq) h (init_liveInv freq)).flag i hi

/-- A page is opened, and the first one starts listening once that page's `stop` was handled. -/
def listens : List (Act ℕ) :=
  [.mount, .endpoint 0 true, .takeCommand, .listener true, .set 0 true (some 100),
    .endpoint 0 true, .takeCommand, .listener true, .listener true, .listener true]

/-- A page is opened. -/
def opens : List (Act ℕ) :=
  [.mount, .endpoint 0 true, .takeCommand, .listener true, .listener true]

/-- A page that is opened cuts another that listens. -/
theorem live_cut_by_other_page :
    (run step (init 88) (listens ++ opens)).Listening 0
    ∧ (run step (init 88) (listens ++ opens)).Settled
    ∧ (run step (init 88) (listens ++ opens)).daemon.gScanning = false
    ∧ (run step (init 88) (listens ++ opens)).daemon.gLiveListen = false :=
  ⟨by decide +kernel, ⟨rfl, rfl, rfl⟩, rfl, rfl⟩

/-- The page that listens changes its station. -/
def retunes : List (Act ℕ) :=
  [.set 0 true (some 101), .endpoint 0 true, .endpoint 0 true, .takeCommand, .listener true,
    .listener true, .takeCommand, .listener true, .listener true, .listener true]

/-- The second page starts listening too. -/
def joins : List (Act ℕ) :=
  [.set 1 true (some 102), .endpoint 0 true, .takeCommand, .listener true, .listener true,
    .listener true]

/-- Two pages are open; one listens and changes its station, then the other listens as well. -/
theorem live_listen_of_quiet_two_pages :
    (run step (init 88) (opens ++ listens ++ retunes ++ joins)).Listening 0
    ∧ (run step (init 88) (opens ++ listens ++ retunes ++ joins)).Listening 1
    ∧ (run step (init 88) (opens ++ listens ++ retunes ++ joins)).daemon.gLiveListen = true :=
  ⟨by decide +kernel, by decide +kernel,
    live_listen_of_quiet (F := ℕ) 88 _ (by decide +kernel) 1 (by decide +kernel)⟩

end LiveClients

end AetherGuard
