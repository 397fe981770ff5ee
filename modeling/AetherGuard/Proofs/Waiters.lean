import AetherGuard.Waiters
import AetherGuard.Proofs.Control

/-!
# Nobody waits in vain

A `SCAN` or a `RECORD` that the daemon's guards refuse is dropped without a word, a recorder that
finds no open file ends without a word, a `scan_complete` can be published before the handler has
subscribed, and a client can be away when its event is sent. Each of these leaves somebody waiting
for ever. Where none of them happens (`Answers`), a pending scan ends only by publishing its event
to every handler that waits, and a pending recording only by publishing its own.
-/

namespace AetherGuard

open Daemon Machine Threads

variable {F : Type*}

/-- What a step of a recorder does to the recorders. -/
inductive RecorderStep (s : Control F) (i : ℕ) (rs : List (Recorder F)) : Prop
  | stay (h : rs = s.recorders)
  | move (r : Recorder F) (pc : RecorderPc) (hi : s.recorders[i]? = some r)
    (h : rs = s.recorders.set i { r with pc := pc }) (hdone : pc = .done → r.pc = .publish
      ∨ r.pc = .abort)
    (habort : pc = .abort → r.pc = .checkWav ∧ s.wav.gWavFile = none)

theorem recorderThread_step (s : Control F) (i : ℕ) (ok : Bool) :
    RecorderStep s i (s.recorderThread i ok).recorders := by
  unfold Control.recorderThread
  split
  · exact .stay rfl
  · rename_i r hi
    split <;> rename_i hpc
    case h_11 => exact .stay rfl
    case h_1 =>
      refine .move r _ hi rfl ?_ ?_ <;> split_ifs <;> exact nofun
    case h_5 =>
      refine .move r _ hi rfl ?_ ?_ <;> split_ifs with hf
      · exact nofun
      · exact nofun
      · exact fun _ => ⟨hpc, Option.isNone_iff_eq_none.1 hf⟩
      · exact nofun
    case h_6 => exact .move r .done hi rfl (fun _ => .inr hpc) nofun
    case h_10 => exact .move r .done hi rfl (fun _ => .inl hpc) nofun
    all_goals exact .move r _ hi rfl nofun nofun

namespace Gateway

variable {g : Gateway F}

theorem ScanPending.publish (h : g.ScanPending) (c : Command F) : (g.publish c).ScanPending :=
  h.imp_left fun ⟨c', hc', hs⟩ => ⟨c', List.mem_append_left _ hc', hs⟩

theorem RecordPending.publish {f : F} (h : g.RecordPending f) (c : Command F) :
    (g.publish c).RecordPending f :=
  h.imp_left fun ⟨c', hc', hs⟩ => ⟨c', List.mem_append_left _ hc', hs⟩

theorem ScanPending.takeCommand (h : g.ScanPending) : g.takeCommand.ScanPending := by
  unfold Gateway.takeCommand
  split
  · rename_i c rest hq hl
    unfold Control.receive
    rw [hl]
    rcases h with ⟨c', hc', hs⟩ | hs | hs
    · rw [hq] at hc'
      rcases List.mem_cons.1 hc' with rfl | hc'
      · obtain ⟨name, freq⟩ := c'
        cases name <;> first | exact .inr (.inl rfl) | cases hs
      · exact .inl ⟨c', hc', hs⟩
    · rw [hl] at hs
      cases hs
    · exact .inr (.inr hs)
  · exact h

theorem RecordPending.takeCommand {f : F} (h : g.RecordPending f) :
    g.takeCommand.RecordPending f := by
  unfold Gateway.takeCommand
  split
  · rename_i c rest hq hl
    unfold Control.receive
    rw [hl]
    rcases h with ⟨c', hc', hr⟩ | hr | hr
    · rw [hq] at hc'
      rcases List.mem_cons.1 hc' with rfl | hc'
      · obtain ⟨name, freq⟩ := c'
        cases name <;> cases freq <;> first | exact .inr (.inl hr) | cases hr
      · exact .inl ⟨c', hc', hr⟩
    · rw [hl] at hr
      cases hr
    · exact .inr (.inr hr)
  · exact h

/-- The listener's next step refuses no `SCAN` but for a scan that is running, and no `RECORD` but
for a recording of the same frequency. -/
def Accepts (g : Gateway F) : Prop :=
  match g.daemon.listener with
  | .recordTestScanning f => g.daemon.gScanning = true → g.Recording f
  | .recordTestRecording f => g.daemon.gRecording = true → g.Recording f
  | .scanTestRecording => g.daemon.gRecording = false
  | .scanTestLive => g.daemon.gLiveListen = false
  | _ => True

theorem commandListener_gScanning {s : Control F} (h : s.gScanning = true) (ok : Bool) :
    (s.commandListener ok).gScanning = true := by
  unfold Control.commandListener
  split <;> first | exact h | rfl

theorem ScanPending.listener (h : g.ScanPending) (hg : g.Accepts) (ok : Bool) :
    (g.daemonStep (.listener ok)).ScanPending := by
  rcases h with hc | hs | hs
  · exact .inl hc
  · unfold Accepts at hg
    refine .inr ?_
    change (g.daemon.commandListener ok).listener.scans = true
      ∨ (g.daemon.commandListener ok).gScanning = true
    cases hl : g.daemon.listener with
    | scanTestScanning =>
      simp only [Control.commandListener, hl]
      split_ifs with hscan
      · exact .inr hscan
      · exact .inl rfl
    | scanTestRecording =>
      simp only [hl] at hg
      simp only [Control.commandListener, hl, hg]
      exact .inl rfl
    | scanTestLive =>
      simp only [hl] at hg
      simp only [Control.commandListener, hl, hg]
      exact .inl rfl
    | scanSet => exact .inr (by simp only [Control.commandListener, hl])
    | _ =>
      rw [hl] at hs
      cases hs
  · exact .inr (.inr (commandListener_gScanning hs ok))

theorem Recording.listener {f : F} (h : g.Recording f) (ok : Bool) :
    (g.daemonStep (.listener ok)).Recording f := by
  obtain ⟨r, hr, hf, hpc⟩ := h
  refine ⟨r, ?_, hf, hpc⟩
  change r ∈ (g.daemon.commandListener ok).recorders
  obtain ⟨-, heq | ⟨f', heq⟩⟩ := Control.recorders_commandListener g.daemon ok
  · rw [heq]
    exact hr
  · rw [heq]
    exact List.mem_append_left _ hr

theorem RecordPending.listener {f : F} (h : g.RecordPending f) (hg : g.Accepts) (ok : Bool) :
    (g.daemonStep (.listener ok)).RecordPending f := by
  rcases h with hc | hr | hr
  · exact .inl hc
  · unfold Accepts at hg
    have hkeep := fun h : g.Recording f => Recording.listener h ok
    refine .inr ?_
    change (g.daemon.commandListener ok).listener.records = some f ∨ _
    cases hl : g.daemon.listener with
    | recordTestScanning f' =>
      rw [hl] at hr
      obtain rfl := Option.some.inj hr
      simp only [hl] at hg
      by_cases hscan : g.daemon.gScanning = true
      · exact .inr (hkeep (hg hscan))
      · simp only [Control.commandListener, hl, if_neg hscan]
        exact .inl rfl
    | recordTestRecording f' =>
      rw [hl] at hr
      obtain rfl := Option.some.inj hr
      simp only [hl] at hg
      by_cases hrec : g.daemon.gRecording = true
      · exact .inr (hkeep (hg hrec))
      · simp only [Control.commandListener, hl, if_neg hrec]
        exact .inl rfl
    | recordStart f' =>
      rw [hl] at hr
      obtain rfl := Option.some.inj hr
      refine .inr ⟨⟨f', .testLive⟩, ?_, rfl, nofun⟩
      simp only [daemonStep, Control.step, Control.commandListener, hl]
      exact List.mem_append_right _ (List.mem_singleton.2 rfl)
    | _ =>
      rw [hl] at hr
      cases hr
  · exact .inr (.inr (hr.listener ok))

theorem ScanPending.keep (h : g.ScanPending) {d : Control F}
    (hl : d.listener = g.daemon.listener) (hs : d.gScanning = g.daemon.gScanning) :
    ScanPending { g with daemon := d } := by
  unfold ScanPending
  rw [hl, hs]
  exact h

theorem RecordPending.keep {f : F} (h : g.RecordPending f) {d : Control F}
    (hl : d.listener = g.daemon.listener) (hr : d.recorders = g.daemon.recorders) :
    RecordPending { g with daemon := d } f := by
  unfold RecordPending Recording
  rw [hl, hr]
  exact h

/-- A recording ends by publishing its `record_complete`. -/
theorem RecordPending.recorder {f : F} (h : g.RecordPending f) (i : ℕ) (ok : Bool)
    (hno : ∀ r ∈ g.daemon.recorders, r.pc ≠ .abort) :
    (g.daemonStep (.recorder i ok)).RecordPending f
      ∨ g.daemon.publishes (.recorder i ok) = some (i, f) := by
  rcases h with hc | hr | ⟨r, hr, hf, hpc⟩
  · exact .inl (.inl hc)
  · obtain ⟨_, _, _, _, hrec⟩ := Control.recorderThread_eq g.daemon i ok
    refine .inl (.inr (.inl ?_))
    change (g.daemon.recorderThread i ok).listener.records = some f
    rw [hrec]
    exact hr
  · cases recorderThread_step g.daemon i ok with
    | stay hs => exact .inl (.inr (.inr ⟨r, by rw [← hs] at hr; exact hr, hf, hpc⟩))
    | move r' pc hi hs hdone habort =>
      obtain ⟨j, hj⟩ := List.mem_iff_getElem?.1 hr
      by_cases hij : j = i
      · obtain rfl := hij
        obtain rfl := Option.some.inj (hi.symm.trans hj)
        by_cases hd : pc = .done
        · rcases hdone hd with hp | hp
          · obtain ⟨f', pc'⟩ := r'
            obtain rfl : pc' = .publish := hp
            obtain rfl : f' = f := hf
            exact .inr (by simp only [Control.publishes, hi])
          · exact absurd hp (hno r' hr)
        · refine .inl (.inr (.inr ⟨{ r' with pc := pc }, ?_, hf, hd⟩))
          change _ ∈ (g.daemon.recorderThread j ok).recorders
          rw [hs]
          exact List.mem_set (List.getElem?_eq_some_iff.1 hi).1 _
      · refine .inl (.inr (.inr ⟨r, List.mem_iff_getElem?.2 ⟨j, ?_⟩, hf, hpc⟩))
        change (g.daemon.recorderThread i ok).recorders[j]? = some r
        rw [hs, List.getElem?_set_ne (Ne.symm hij)]
        exact hj

end Gateway

/-- The handler has its event, or there will be one. -/
def Wideband.Served (pending : Prop) : Wideband F → Prop
  | .published => pending
  | .waiting inbox => .scanComplete ∈ inbox ∨ pending
  | .answered => True

theorem Wideband.Served.mono {p q : Prop} (hpq : p → q) {h : Wideband F} (hs : h.Served p) :
    h.Served q := by
  cases h with
  | published => exact hpq hs
  | waiting inbox => exact hs.imp_right hpq
  | answered => trivial

theorem Wideband.Served.deliver {p : Prop} (u : WsUpdate F) {h : Wideband F} (hs : h.Served p) :
    (h.deliver u).Served p := by
  cases h with
  | published => exact hs
  | waiting inbox => exact hs.imp_left (List.mem_append_left _)
  | answered => trivial

/-- The client is there for each event it waits for, and the event has come to it, is on the way,
or will be. -/
def StatusClient.Served (wsUpdates : List (WsUpdate F)) (g : Gateway F) (c : StatusClient F) :
    Prop :=
  ∀ f ∈ c.waits, c.connected = true
    ∧ (.recordComplete f ∈ c.inbox ∨ .recordComplete f ∈ wsUpdates ∨ g.RecordPending f)

theorem StatusClient.Served.mono {us vs : List (WsUpdate F)} {g g' : Gateway F}
    (h : ∀ f, .recordComplete f ∈ us ∨ g.RecordPending f →
      .recordComplete f ∈ vs ∨ g'.RecordPending f) {c : StatusClient F} (hc : c.Served us g) :
    c.Served vs g' :=
  fun f hf => (hc f hf).imp_right (Or.imp_right (h f))

theorem StatusClient.Served.sendText {u : WsUpdate F} {us : List (WsUpdate F)} {g : Gateway F}
    {c : StatusClient F} (h : c.Served (u :: us) g) : (c.sendText u).Served us g := by
  unfold StatusClient.sendText
  split_ifs with hconn
  · intro f hf
    obtain ⟨-, hin | hu | hr⟩ := h f hf
    · exact ⟨hconn, .inl (List.mem_append_left _ hin)⟩
    · rcases List.mem_cons.1 hu with rfl | hu
      · exact ⟨hconn, .inl (List.mem_append_right _ (List.mem_singleton.2 rfl))⟩
      · exact ⟨hconn, .inr (.inl hu)⟩
    · exact ⟨hconn, .inr (.inr hr)⟩
  · exact fun f hf => absurd (h f hf).1 hconn

theorem StatusClient.Served.onmessage [DecidableEq F] {us : List (WsUpdate F)} {g : Gateway F}
    {c : StatusClient F} (h : c.Served us g) : c.onmessage.Served us g := by
  unfold StatusClient.onmessage
  split
  · exact h
  · rename_i rest hin
    intro f hf
    refine (h f hf).imp_right (Or.imp_left fun hm => ?_)
    rw [hin] at hm
    exact (List.mem_cons.1 hm).resolve_left nofun
  · rename_i f' rest hin
    intro f hf
    obtain ⟨hf, hne⟩ := List.mem_filter.1 hf
    refine (h f hf).imp_right (Or.imp_left fun hm => ?_)
    rw [hin] at hm
    refine (List.mem_cons.1 hm).resolve_left fun he => ?_
    exact (of_decide_eq_true hne) (WsUpdate.recordComplete.inj he)

namespace Waiters

variable {s : Waiters F}

structure WaitInv (s : Waiters F) : Prop where
  handlers : ∀ h ∈ s.handlers, h.Served s.ScanPending
  clients : ∀ c ∈ s.clients, c.Served s.wsUpdates s.gateway
  noAbort : ∀ r ∈ s.gateway.daemon.recorders, r.pc ≠ .abort

theorem WaitInv.noOrphan (h : WaitInv s) : s.NoOrphan := by
  refine ⟨fun inbox hi => h.handlers _ hi, fun c hc f hf => ?_⟩
  obtain ⟨hconn, hev⟩ := h.clients c hc f hf
  exact hev.imp_right (Or.imp_left fun hu => ⟨hconn, hu⟩)

theorem init_waitInv (freq : F) : WaitInv (init freq : Waiters F) := ⟨nofun, nofun, nofun⟩

/-- The gateway goes on, and what was pending still is. -/
theorem WaitInv.keep (h : WaitInv s) {g : Gateway F}
    (hs : s.gateway.ScanPending → g.ScanPending)
    (hr : ∀ f, s.gateway.RecordPending f → g.RecordPending f)
    (hno : ∀ r ∈ g.daemon.recorders, r.pc ≠ .abort) : WaitInv { s with gateway := g } :=
  ⟨fun w hw => (h.handlers w hw).mono (Or.imp_left hs),
    fun c hc => (h.clients c hc).mono fun f => Or.imp_right (hr f), hno⟩

/-- A thread goes on that is neither the listener nor a recorder. -/
theorem WaitInv.thread (h : WaitInv s) {d : Control F}
    (hl : d.listener = s.gateway.daemon.listener) (hs : d.gScanning = s.gateway.daemon.gScanning)
    (hr : d.recorders = s.gateway.daemon.recorders) :
    WaitInv { s with gateway := { s.gateway with daemon := d } } :=
  h.keep (·.keep hl hs) (fun _ hf => hf.keep hl hr) (hr ▸ h.noAbort)

theorem publish_waitInv (h : WaitInv s) (c : Command F) :
    WaitInv { s with gateway := s.gateway.publish c } :=
  h.keep (·.publish c) (fun _ hr => hr.publish c) h.noAbort

theorem wideband_waitInv (h : WaitInv s) : WaitInv s.wideband := by
  refine ⟨fun w hw => ?_, (publish_waitInv h scanCommand).clients, h.noAbort⟩
  rcases List.mem_append.1 hw with hw | hw
  · exact (publish_waitInv h scanCommand).handlers w hw
  · obtain rfl := List.mem_singleton.1 hw
    exact .inl (.inl ⟨scanCommand, List.mem_append_right _ (List.mem_singleton.2 rfl), rfl⟩)

/-- Handler `i` goes on. -/
theorem WaitInv.setHandler (h : WaitInv s) (i : ℕ) {w : Wideband F} (hw : w.Served s.ScanPending) :
    WaitInv { s with handlers := s.handlers.set i w } := by
  refine ⟨fun w' hw' => ?_, h.clients, h.noAbort⟩
  rcases List.mem_or_eq_of_mem_set hw' with hw' | rfl
  · exact h.handlers w' hw'
  · exact hw

theorem subscribe_waitInv (h : WaitInv s) (i : ℕ) : WaitInv (s.subscribe i) := by
  unfold subscribe
  split
  · rename_i hi
    exact h.setHandler i (.inr (h.handlers _ (List.mem_of_getElem? hi)))
  · exact h

theorem redisGetReply_waitInv (h : WaitInv s) (i : ℕ) : WaitInv (s.redisGetReply i) := by
  unfold redisGetReply
  split
  · exact h.setHandler i trivial
  · rename_i f rest hi
    refine h.setHandler i ((h.handlers _ (List.mem_of_getElem? hi)).imp_left fun hm => ?_)
    exact (List.mem_cons.1 hm).resolve_left nofun
  · exact h

/-- Client `i` changes. -/
theorem WaitInv.modifyClient (h : WaitInv s) (i : ℕ) {f : StatusClient F → StatusClient F}
    (hf : ∀ c ∈ s.clients[i]?, (f c).Served s.wsUpdates s.gateway) :
    WaitInv { s with clients := s.clients.modify i f } := by
  refine ⟨h.handlers, fun c hc => ?_, h.noAbort⟩
  rcases mem_modify_cases hc with hc | ⟨c', hc', rfl⟩
  · exact h.clients c hc
  · exact hf c' hc'

/-- Nobody is refused or aborted; a `scan_complete` is published when every handler has subscribed,
and a client is connected while it waits. -/
def Answers (s : Waiters F) : Act F → Prop
  | .daemon (.listener _) => s.gateway.Accepts
  | .daemon (.recorder i _) => ∀ r ∈ s.gateway.daemon.recorders[i]?, r.pc = .checkWav →
      s.gateway.daemon.wav.gWavFile ≠ none
  | .publishScan => .published ∉ s.handlers
  | .record j true => ∀ p ∈ s.posts[j]?, ∀ c ∈ s.clients[p.1]?, c.connected = true
  | .close i => ∀ c ∈ s.clients[i]?, c.waits = []
  | _ => True

theorem record_waitInv (h : WaitInv s) (j : ℕ) (arrives : Bool)
    (hg : s.Answers (.record j arrives)) : WaitInv (s.record j arrives) := by
  unfold record
  split
  · exact h
  · rename_i i f hj
    cases arrives with
    | false => exact ⟨h.handlers, h.clients, h.noAbort⟩
    | true =>
      have hpub := publish_waitInv h (recordCommand f)
      have hserved : ∀ c ∈ s.clients[i]?, StatusClient.Served s.wsUpdates
          (s.gateway.publish (recordCommand f)) { c with waits := f :: c.waits } := by
        intro c hc f' hf'
        rcases List.mem_cons.1 hf' with rfl | hf'
        · exact ⟨hg _ hj c hc, .inr (.inr (.inl ⟨recordCommand f',
            List.mem_append_right _ (List.mem_singleton.2 rfl), rfl⟩))⟩
        · exact hpub.clients c (List.mem_of_getElem? hc) f' hf'
      have hmod := hpub.modifyClient i hserved
      exact ⟨hmod.handlers, hmod.clients, hmod.noAbort⟩

theorem listener_waitInv (h : WaitInv s) (ok : Bool) (hg : s.gateway.Accepts) :
    WaitInv (s.daemonStep (.listener ok)) := by
  refine h.keep (fun hs => hs.listener hg ok) (fun f hr => hr.listener hg ok) ?_
  change ∀ r ∈ (s.gateway.daemon.commandListener ok).recorders, r.pc ≠ .abort
  obtain ⟨-, heq | ⟨f, heq⟩⟩ := Control.recorders_commandListener s.gateway.daemon ok
  · rw [heq]
    exact h.noAbort
  · rw [heq]
    intro r hr
    rcases List.mem_append.1 hr with hr | hr
    · exact h.noAbort r hr
    · obtain rfl := List.mem_singleton.1 hr
      exact nofun

theorem recorder_noAbort (h : WaitInv s) (i : ℕ) (ok : Bool)
    (hg : s.Answers (.daemon (.recorder i ok))) :
    ∀ r ∈ (s.gateway.daemonStep (.recorder i ok)).daemon.recorders, r.pc ≠ .abort := by
  change ∀ r ∈ (s.gateway.daemon.recorderThread i ok).recorders, r.pc ≠ .abort
  cases recorderThread_step s.gateway.daemon i ok with
  | stay hs =>
    rw [hs]
    exact h.noAbort
  | move r pc hi hs hdone habort =>
    rw [hs]
    intro r' hr'
    rcases List.mem_or_eq_of_mem_set hr' with hr' | rfl
    · exact h.noAbort r' hr'
    · intro hpc
      obtain ⟨hcheck, hnone⟩ := habort hpc
      exact hg r hi hcheck hnone

theorem recorder_waitInv (h : WaitInv s) (i : ℕ) (ok : Bool)
    (hg : s.Answers (.daemon (.recorder i ok))) : WaitInv (s.daemonStep (.recorder i ok)) := by
  obtain ⟨_, _, _, _, hrec⟩ := Control.recorderThread_eq s.gateway.daemon i ok
  have hs : s.gateway.ScanPending → (s.gateway.daemonStep (.recorder i ok)).ScanPending :=
    fun hs => hs.keep (by rw [Control.step, hrec]) (by rw [Control.step, hrec])
  have hr := fun f (hr : s.gateway.RecordPending f) => hr.recorder i ok h.noAbort
  have hno := recorder_noAbort h i ok hg
  simp only [daemonStep]
  cases hp : s.gateway.daemon.publishes (.recorder i ok) with
  | none => exact h.keep hs (fun f hf => (hr f hf).resolve_right (by simp [hp])) hno
  | some e =>
    refine ⟨fun w hw => ?_, fun c hc => (h.clients c hc).mono fun f => ?_, hno⟩
    · obtain ⟨w', hw', rfl⟩ := List.mem_map.1 hw
      exact ((h.handlers w' hw').mono (Or.imp_left hs)).deliver _
    · rintro (hu | hf)
      · exact .inl (List.mem_append_left _ hu)
      · rcases hr f hf with hf | he
        · exact .inr hf
        · obtain rfl : e = (i, f) := Option.some.inj (hp.symm.trans he)
          exact .inl (List.mem_append_right _ (List.mem_singleton.2 rfl))

theorem daemonStep_waitInv (h : WaitInv s) (a : Control.Act F) (hg : s.Answers (.daemon a)) :
    WaitInv (s.daemonStep a) := by
  cases a with
  | command c => exact h
  | scanComplete => exact h
  | listener ok => exact listener_waitInv h ok hg
  | recorder i ok => exact recorder_waitInv h i ok hg
  | live i ok =>
    obtain ⟨_, _, hlive⟩ := Control.liveThread_eq s.gateway.daemon i ok
    exact h.thread (d := s.gateway.daemon.liveThread i ok) (by rw [hlive]) (by rw [hlive])
      (by rw [hlive])
  | output =>
    obtain ⟨_, _, hout⟩ := Control.outputThread_eq s.gateway.daemon
    exact h.thread (d := s.gateway.daemon.outputThread) (by rw [hout]) (by rw [hout])
      (by rw [hout])

theorem scanComplete_waitInv (h : WaitInv s) : WaitInv s.scanComplete := by
  unfold scanComplete
  split_ifs
  · exact h
  · exact ⟨fun w hw => (h.handlers w hw).mono fun _ => .inr rfl,
      fun c hc => (h.clients c hc).mono fun f => Or.imp_right fun hf => hf.keep rfl rfl, h.noAbort⟩

theorem publishScan_waitInv (h : WaitInv s) (hg : s.Answers .publishScan) :
    WaitInv s.publishScan := by
  unfold publishScan
  split_ifs
  · refine ⟨fun w hw => ?_, fun c hc => (h.clients c hc).mono fun f => ?_, h.noAbort⟩
    · obtain ⟨w', hw', rfl⟩ := List.mem_map.1 hw
      cases w' with
      | published => exact absurd hw' hg
      | waiting inbox => exact .inl (List.mem_append_right _ (List.mem_singleton.2 rfl))
      | answered => trivial
    · exact Or.imp_left (List.mem_append_left _)
  · exact h

theorem redisListenerThread_waitInv (h : WaitInv s) : WaitInv s.redisListenerThread := by
  unfold redisListenerThread
  split
  · exact h
  · rename_i u rest hu
    refine ⟨h.handlers, fun c hc => ?_, h.noAbort⟩
    obtain ⟨c', hc', rfl⟩ := List.mem_map.1 hc
    have hserved := h.clients c' hc'
    rw [hu] at hserved
    exact hserved.sendText

variable [DecidableEq F]

theorem step_waitInv (a : Act F) (hg : s.Answers a) (h : WaitInv s) : WaitInv (s.step a) := by
  cases a with
  | tune freq => exact publish_waitInv h _
  | live start freq => exact publish_waitInv h _
  | wideband => exact wideband_waitInv h
  | subscribe i => exact subscribe_waitInv h i
  | redisGetReply i => exact redisGetReply_waitInv h i
  | newClient =>
    refine ⟨h.handlers, fun c hc => ?_, h.noAbort⟩
    rcases List.mem_append.1 hc with hc | hc
    · exact h.clients c hc
    · obtain rfl := List.mem_singleton.1 hc
      exact nofun
  | close i => exact h.modifyClient i fun c hc f hf => absurd (hg c hc ▸ hf) List.not_mem_nil
  | connect i =>
    exact h.modifyClient i fun c hc f hf => ⟨rfl, (h.clients c (List.mem_of_getElem? hc) f hf).2⟩
  | handleScan i freq => exact ⟨h.handlers, h.clients, h.noAbort⟩
  | record j arrives => exact record_waitInv h j arrives hg
  | takeCommand =>
    refine h.keep (·.takeCommand) (fun _ hf => hf.takeCommand) ?_
    unfold Gateway.takeCommand
    split
    · unfold Control.receive
      split <;> exact h.noAbort
    · exact h.noAbort
  | daemon a => exact daemonStep_waitInv h a hg
  | scanComplete => exact scanComplete_waitInv h
  | publishScan => exact publishScan_waitInv h hg
  | redisListener => exact redisListenerThread_waitInv h
  | onmessage i =>
    exact h.modifyClient i fun c hc => (h.clients c (List.mem_of_getElem? hc)).onmessage

/-- While nobody is refused or aborted, handlers subscribe before the scan's answer is published and
clients stay connected while they wait, nobody waits for an event that is not to come. -/
theorem no_orphan_of_answers (freq : F) (as : List (Act F))
    (h : Meets step Answers (init freq) as) : (run step (init freq) as).NoOrphan :=
  (run_inv_of_meets (fun _ => step_waitInv) as (init freq) h (init_waitInv freq)).noOrphan

instance (g : Gateway F) : Decidable g.Accepts := by
  unfold Gateway.Accepts
  split <;> infer_instance

instance (s : Waiters F) (a : Act F) : Decidable (s.Answers a) := by
  unfold Answers
  split <;> infer_instance

/-- The listener takes a command and handles it in `n` steps. -/
def handles (n : ℕ) : List (Act ℕ) :=
  .takeCommand :: List.replicate n (.daemon (.listener true))

/-- A client asks for a recording of `f`, and the API answers. -/
def asks (i f : ℕ) : List (Act ℕ) := [.newClient, .handleScan i f, .record 0 true]

/-- Another client's recording, and then a handler's scan, are refused because of the first's. -/
def refused : List (Act ℕ) :=
  asks 0 100 ++ handles 3 ++ asks 1 101 ++ handles 2 ++ [.wideband, .subscribe 0] ++ handles 2

/-- The second client and the handler wait, and nothing is pending for either. -/
theorem waiters_orphaned :
    (∃ c ∈ (run step (init 88) refused).clients, 101 ∈ c.waits ∧ c.inbox = [])
    ∧ .waiting [] ∈ (run step (init 88) refused).handlers
    ∧ (run step (init 88) refused).wsUpdates = []
    ∧ ¬ (run step (init 88) refused).gateway.RecordPending 101
    ∧ ¬ (run step (init 88) refused).ScanPending
    ∧ ¬ (run step (init 88) refused).NoOrphan := by
  have hwaits : .waiting [] ∈ (run step (init 88) refused).handlers := by decide +kernel
  have hscan : ¬ (run step (init 88) refused).ScanPending := by decide +kernel
  refine ⟨by decide +kernel, hwaits, rfl, by decide +kernel, hscan, fun h => ?_⟩
  rcases h.wideband [] hwaits with hin | hs
  · cases hin
  · exact hscan hs

/-- A scan, and after it a recording; the client has yet to be sent its event. -/
def answered : List (Act ℕ) :=
  [.wideband, .subscribe 0] ++ handles 5 ++ [.scanComplete, .publishScan] ++ asks 0 100
    ++ handles 3 ++ List.replicate 8 (.daemon (.recorder 0 true))

theorem no_orphan_of_answers_scan_and_recording :
    (run step (init 88) answered).handlers = [.waiting [.scanComplete, .recordComplete 100]]
    ∧ (run step (init 88) answered).wsUpdates = [.scanComplete, .recordComplete 100]
    ∧ (run step (init 88) answered).clients.map (·.waits) = [[100]]
    ∧ (run step (init 88) answered).NoOrphan :=
  ⟨rfl, rfl, rfl, no_orphan_of_answers (F := ℕ) 88 _ (by decide +kernel)⟩

end Waiters

end AetherGuard
