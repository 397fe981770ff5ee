import AetherGuard.Lib.Threads
import AetherGuard.RelayControl

/-!
# Scan threads and the mode of the relay

`SCAN` starts a thread whatever the mode is, and a thread that ends resets the mode whatever other
threads are at work; the answer goes to the connection that is served when it is sent. So the mode
`SCANNING` always means that a thread is scanning (`ModeInv`), and where a `SCAN` comes only after
the threads before it have reset the mode, a thread that is scanning also means `SCANNING`
(`AloneInv`). Where a connection does not end while a thread has yet to answer, each answer goes
back to where its `SCAN` came from (`OriginInv`).
-/

namespace AetherGuard

namespace Relay

open Machine Threads

variable {F S : Type*}

/-- The descriptor `controlServerThread` is reading from. -/
def Server.serving : Server S → Option ℕ
  | .reading fd | .load fd _ | .send fd _ _ => some fd
  | _ => none

namespace RelayControl

variable {s t : RelayControl S} {a : Act F S}

/-- A `SCAN` comes only when every scan thread has reset the mode. -/
def ScansAlone (s : RelayControl S) : Act F S → Prop
  | .line .scan => s.scanning = 0
  | _ => True

/-- A `SCAN` comes only when every scan thread has answered. -/
def ScansAnswered (s : RelayControl S) : Act F S → Prop
  | .line .scan => s.running = 0
  | _ => True

/-- A connection ends only when every scan thread has answered. -/
def StaysConnected (s : RelayControl S) : Act F S → Prop
  | .hangup => ∀ t ∈ s.scans, t.pc.running = false
  | _ => True

instance (s : RelayControl S) (a : Act F S) : Decidable (s.ScansAlone a) := by
  unfold ScansAlone
  split <;> infer_instance

instance (s : RelayControl S) (a : Act F S) : Decidable (s.ScansAnswered a) := by
  unfold ScansAnswered
  split <;> infer_instance

instance (s : RelayControl S) (a : Act F S) : Decidable (s.StaysConnected a) := by
  unfold StaysConnected
  split <;> infer_instance

/-- The next step of a thread at `pc` is its last. -/
def Ends (s : RelayControl S) : ScanPc S → Prop
  | .load _ => s.gCtrlClientFd = none
  | .send _ _ => True
  | _ => False

/-- What a step does to the mode and the scan threads. -/
inductive ModeStep (s : RelayControl S) : Act F S → DeviceMode → List (ScanThread S) → Prop
  | stay (a : Act F S) : ModeStep s a s.gMode s.scans
  | start (origin : ℕ) : ModeStep s (.line .scan) .scanning (s.scans ++ [⟨origin, .sweep⟩])
  | move (i : ℕ) (stations : S) (ok : Bool) (th : ScanThread S) (pc : ScanPc S)
    (hi : s.scans[i]? = some th) (hrun : th.pc.running = true)
    (hpc : pc.scanning = th.pc.scanning) (hend : pc.running = true ∨ s.Ends th.pc) :
    ModeStep s (.scan i stations ok) s.gMode (s.scans.set i { th with pc := pc })
  | reset (i : ℕ) (stations : S) (ok : Bool) (th : ScanThread S) (found : S)
    (hi : s.scans[i]? = some th) (hpc : th.pc = .resetMode found) :
    ModeStep s (.scan i stations ok) .idle (s.scans.set i { th with pc := .load found })

theorem ModeStep.of_eq (hm : t.gMode = s.gMode) (hs : t.scans = s.scans) :
    ModeStep s a t.gMode t.scans := by
  rw [hm, hs]
  exact .stay a

theorem sendOn_scans (s : RelayControl S) (fd : ℕ) (response : Response S) (origin : Option ℕ)
    (ok : Bool) : (s.sendOn fd response origin ok).scans = s.scans := by
  unfold sendOn
  split <;> rfl

theorem sendOn_gMode (s : RelayControl S) (fd : ℕ) (response : Response S) (origin : Option ℕ)
    (ok : Bool) : (s.sendOn fd response origin ok).gMode = s.gMode := by
  unfold sendOn
  split <;> rfl

theorem line_modeStep (s : RelayControl S) (l : CtrlLine F) :
    ModeStep s (.line l : Act F S) (s.line l).gMode (s.line l).scans := by
  unfold line
  split
  · split
    · exact .start _
    · split <;> exact .stay _
  · exact .stay _

theorem controlServerThread_modeStep (s : RelayControl S) (ok : Bool) :
    ModeStep s a (s.controlServerThread ok).gMode (s.controlServerThread ok).scans := by
  unfold controlServerThread
  split
  · exact .stay a
  · split_ifs
    · exact .stay a
    · split <;> exact .stay a
  · exact .of_eq (sendOn_gMode s _ _ none ok) (sendOn_scans s _ _ none ok)
  · exact .stay a
  · exact .stay a
  · exact .stay a

theorem scanThread_modeStep (s : RelayControl S) (i : ℕ) (stations : S) (ok : Bool) :
    ModeStep s (.scan i stations ok : Act F S) (s.scanThread i stations ok).gMode
      (s.scanThread i stations ok).scans := by
  unfold scanThread
  split
  · exact .stay _
  · rename_i th hi
    split <;> rename_i hpc
    · exact .move i stations ok th _ hi (by rw [hpc]; rfl) (by rw [hpc]; rfl) (.inl rfl)
    · exact .reset i stations ok th _ hi hpc
    · split_ifs
      · exact .stay _
      · split <;> rename_i hfd
        · exact .move i stations ok th _ hi (by rw [hpc]; rfl) (by rw [hpc]; rfl) (.inl rfl)
        · refine .move i stations ok th _ hi (by rw [hpc]; rfl) (by rw [hpc]; rfl) (.inr ?_)
          rw [hpc]
          exact hfd
    · rename_i found dst
      have hend : s.Ends th.pc := by rw [hpc]; trivial
      have hmove := ModeStep.move (F := F) i stations ok th .done hi (by rw [hpc]; rfl)
        (by rw [hpc]; rfl) (.inr hend)
      simpa only [setScan, sendOn_scans, sendOn_gMode] using hmove
    · exact .stay _

theorem step_modeStep (s : RelayControl S) (a : Act F S) :
    ModeStep s a (s.step a).gMode (s.step a).scans := by
  cases a with
  | accept fd =>
    simp only [step, accept]
    split <;> exact .stay _
  | line l => exact line_modeStep s l
  | hangup =>
    simp only [step, hangup]
    split <;> exact .stay _
  | server ok => exact controlServerThread_modeStep s ok
  | scan i stations ok => exact scanThread_modeStep s i stations ok
  | data fd =>
    simp only [step, dataServer]
    split <;> exact .stay _

theorem countP_move {i : ℕ} {th : ScanThread S} (hi : s.scans[i]? = some th) (pc : ScanPc S)
    (p : ScanPc S → Bool) :
    (s.scans.set i { th with pc := pc }).countP (fun th => p th.pc) + (p th.pc).toNat
      = s.scans.countP (fun th => p th.pc) + (p pc).toNat :=
  countP_set_add hi _

theorem countP_start (s : RelayControl S) (origin : ℕ) (p : ScanPc S → Bool) :
    (s.scans ++ [(⟨origin, .sweep⟩ : ScanThread S)]).countP (fun th => p th.pc)
      = s.scans.countP (fun th => p th.pc) + (p .sweep).toNat := by
  rw [List.countP_append, List.countP_singleton]
  cases p .sweep <;> rfl

/-- The mode `SCANNING` means that a thread is scanning. -/
def ModeInv (s : RelayControl S) : Prop := s.gMode = .scanning → 0 < s.scanning

theorem step_modeInv (a : Act F S) (h : ModeInv s) : ModeInv (s.step a) := by
  unfold ModeInv scanning at *
  have hs := step_modeStep s a
  generalize (s.step a).gMode = m, (s.step a).scans = ths at hs
  cases hs with
  | stay => exact h
  | start origin =>
    intro _
    rw [countP_start]
    exact Nat.succ_pos _
  | move i stations ok th pc hi hrun hpc hend =>
    intro hm
    have hpos := h hm
    have hcount := countP_move hi pc ScanPc.scanning
    rw [hpc] at hcount
    omega
  | reset => exact nofun

/-- At most one thread is scanning, and then the mode is `SCANNING`. -/
structure AloneInv (s : RelayControl S) : Prop where
  single : s.scanning ≤ 1
  mode : 0 < s.scanning → s.gMode = .scanning

theorem init_aloneInv : AloneInv (init : RelayControl S) := ⟨Nat.zero_le 1, nofun⟩

theorem step_aloneInv (a : Act F S) (hg : s.ScansAlone a) (h : AloneInv s) :
    AloneInv (s.step a) := by
  obtain ⟨hone, hmode⟩ := h
  have hs := step_modeStep s a
  suffices h : (s.step a).scans.countP (fun th => th.pc.scanning) ≤ 1
      ∧ (0 < (s.step a).scans.countP (fun th => th.pc.scanning) → (s.step a).gMode = .scanning) from
    ⟨h.1, h.2⟩
  generalize (s.step a).gMode = m, (s.step a).scans = ths at hs
  cases hs with
  | stay => exact ⟨hone, hmode⟩
  | start origin =>
    have hzero : s.scans.countP (fun th => th.pc.scanning) = 0 := hg
    refine ⟨?_, fun _ => rfl⟩
    rw [countP_start, hzero]
    exact le_rfl
  | move i stations ok th pc hi hrun hpc hend =>
    have hcount := countP_move hi pc ScanPc.scanning
    rw [hpc, Nat.add_right_cancel_iff] at hcount
    rw [hcount]
    exact ⟨hone, hmode⟩
  | reset i stations ok th found hi hpc =>
    have hcount := countP_move hi (.load found) ScanPc.scanning
    have hth : th.pc.scanning = true := by rw [hpc]; rfl
    have hle : s.scans.countP (fun th => th.pc.scanning) ≤ 1 := hone
    rw [hth, show (ScanPc.load found).scanning = false from rfl, Bool.toNat_true,
      Bool.toNat_false] at hcount
    exact ⟨by omega, fun hpos => by omega⟩

theorem step_running (a : Act F S) (hg : s.ScansAnswered a) (h : s.running ≤ 1) :
    (s.step a).running ≤ 1 := by
  have hs := step_modeStep s a
  unfold running at *
  generalize (s.step a).gMode = m, (s.step a).scans = ths at hs
  cases hs with
  | stay => exact h
  | start origin =>
    rw [countP_start, show s.scans.countP (fun th => th.pc.running) = 0 from hg]
    exact le_rfl
  | move i stations ok th pc hi hrun hpc hend =>
    have hcount := countP_move hi pc ScanPc.running
    have := Bool.toNat_le pc.running
    rw [hrun, Bool.toNat_true] at hcount
    omega
  | reset i stations ok th found hi hpc =>
    have hcount := countP_move hi (.load found) ScanPc.running
    rw [hpc] at hcount
    exact (Nat.add_right_cancel hcount).trans_le h

/-- Threads go on running until the last step of one of them. -/
theorem running_step (a : Act F S) (h : 0 < s.running) : 0 < (s.step a).running
    ∨ ∃ i stations ok th, a = .scan i stations ok ∧ s.scans[i]? = some th ∧ s.Ends th.pc := by
  have hs := step_modeStep s a
  unfold running at *
  generalize (s.step a).gMode = m, (s.step a).scans = ths at hs
  cases hs with
  | stay => exact .inl h
  | start origin =>
    rw [countP_start]
    exact .inl (Nat.add_pos_left h _)
  | move i stations ok th pc hi hrun hpc hend =>
    rcases hend with hrun' | hend
    · have hcount := countP_move hi pc ScanPc.running
      rw [hrun, hrun'] at hcount
      exact .inl (h.trans_eq (Nat.add_right_cancel hcount).symm)
    · exact .inr ⟨i, stations, ok, th, rfl, hi, hend⟩
  | reset i stations ok th found hi hpc =>
    have hcount := countP_move hi (.load found) ScanPc.running
    rw [hpc] at hcount
    exact .inl (h.trans_eq (Nat.add_right_cancel hcount).symm)

/-- While a thread has yet to answer, its connection is the one that is served. -/
structure OriginInv (s : RelayControl S) : Prop where
  stored : ∀ fd, s.server = .storeFd fd → ∃ conn, s.fds fd = some (.ctrl conn)
  served : ∀ fd, s.server.serving = some fd →
    s.gCtrlClientFd = some fd ∧ ∃ conn, s.fds fd = some (.ctrl conn)
  threads : ∀ th ∈ s.scans, th.pc.running = true →
    ∃ fd, s.server.serving = some fd ∧ s.fds fd = some (.ctrl th.origin)
      ∧ ∀ stations dst, th.pc = .send stations dst → dst = fd
  answers : s.AnswersOrigin

theorem init_originInv : OriginInv (init : RelayControl S) := ⟨nofun, nofun, nofun, nofun⟩

/-- Without a thread that has yet to answer, only the descriptors matter. -/
theorem OriginInv.of_answered (hrun : ∀ th ∈ t.scans, th.pc.running = false)
    (hstored : ∀ fd, t.server = .storeFd fd → ∃ conn, t.fds fd = some (.ctrl conn))
    (hserved : ∀ fd, t.server.serving = some fd →
      t.gCtrlClientFd = some fd ∧ ∃ conn, t.fds fd = some (.ctrl conn))
    (hans : t.AnswersOrigin) : OriginInv t :=
  ⟨hstored, hserved, fun th hth h => absurd (h.symm.trans (hrun th hth)) nofun, hans⟩

theorem OriginInv.answered (h : OriginInv s) (hserving : s.server.serving = none) :
    ∀ th ∈ s.scans, th.pc.running = false := by
  intro th hth
  by_contra hrun
  obtain ⟨fd, hfd, -⟩ := h.threads th hth (by simpa using hrun)
  exact absurd (hserving.symm.trans hfd) nofun

/-- The server goes on with the same connection. -/
theorem OriginInv.of_serving (h : OriginInv s) {fd : ℕ} (hs : s.server.serving = some fd)
    (ht : t.server.serving = some fd) (hfds : t.fds = s.fds)
    (hfd : t.gCtrlClientFd = s.gCtrlClientFd) (hscans : t.scans = s.scans)
    (hans : t.AnswersOrigin) : OriginInv t := by
  have hserving : t.server.serving = s.server.serving := ht.trans hs.symm
  refine ⟨fun fd' hstore => ?_, ?_, ?_, hans⟩
  · rw [hstore] at ht
    exact absurd ht nofun
  · rw [hserving, hfds, hfd]
    exact h.served
  · rw [hserving, hfds, hscans]
    exact h.threads

theorem accept_originInv (h : OriginInv s) (fd : ℕ) : OriginInv (s.accept fd) := by
  unfold accept
  split
  · rename_i hserver hfree
    refine .of_answered (h.answered (by rw [hserver]; rfl)) ?_ nofun h.answers
    rintro _ ⟨⟩
    exact ⟨s.conns, Function.update_self ..⟩
  · exact h

theorem line_originInv (h : OriginInv s) (l : CtrlLine F) : OriginInv (s.line l) := by
  unfold line
  split
  · rename_i fd hserver
    have hserving : s.server.serving = some fd := by rw [hserver]; rfl
    split
    · obtain ⟨-, conn, hconn⟩ := h.served fd hserving
      refine ⟨h.stored, h.served, fun th hth hrun => ?_, h.answers⟩
      rcases List.mem_append.1 hth with hth | hth
      · exact h.threads th hth hrun
      · rw [List.mem_singleton.1 hth]
        exact ⟨fd, hserving, by simp [connOf, hconn], nofun⟩
    · split
      · exact h.of_serving hserving rfl rfl rfl rfl h.answers
      · exact h
  · exact h

theorem hangup_originInv (h : OriginInv s) (hg : ∀ th ∈ s.scans, th.pc.running = false) :
    OriginInv s.hangup := by
  unfold hangup
  split
  · exact .of_answered hg nofun nofun h.answers
  · exact h

theorem OriginInv.sendOn (h : OriginInv s) (fd : ℕ) (response : Response S) (origin : Option ℕ)
    (ok : Bool) (hconn : ∀ conn ∈ origin, s.fds fd = some (.ctrl conn)) :
    OriginInv (s.sendOn fd response origin ok) := by
  unfold RelayControl.sendOn
  split
  · rename_i sock hsock
    refine ⟨h.stored, h.served, h.threads, fun e he conn horigin => ?_⟩
    simp only at he
    split_ifs at he
    · rcases List.mem_cons.1 he with rfl | he
      · exact Option.some.inj (hsock.symm.trans (hconn conn horigin))
      · exact h.answers e he conn horigin
    · exact h.answers e he conn horigin
  · exact h

theorem controlServerThread_originInv (h : OriginInv s) (ok : Bool) :
    OriginInv (s.controlServerThread ok) := by
  unfold controlServerThread
  split <;> rename_i hserver
  · rename_i fd
    refine .of_answered (h.answered (by rw [hserver]; rfl)) nofun ?_ h.answers
    rintro _ ⟨⟩
    exact ⟨rfl, h.stored fd hserver⟩
  · split_ifs
    · exact h
    · split <;> exact h.of_serving (by rw [hserver]; rfl) rfl rfl rfl rfl h.answers
  · rename_i fd response dst
    have hsent := h.sendOn dst response none ok nofun
    have hserving : (s.sendOn dst response none ok).server.serving = some fd := by
      unfold RelayControl.sendOn
      split <;> rw [hserver] <;> rfl
    exact hsent.of_serving hserving rfl rfl rfl rfl hsent.answers
  · exact .of_answered (h.answered (by rw [hserver]; rfl)) nofun nofun h.answers
  · exact .of_answered (h.answered (by rw [hserver]; rfl)) nofun nofun h.answers
  · exact h

theorem OriginInv.setScan (h : OriginInv s) {i : ℕ} {th : ScanThread S}
    (hi : s.scans[i]? = some th) (hrun : th.pc.running = true) (pc : ScanPc S) (mode : DeviceMode)
    (mtx : Bool) (hpc : ∀ stations dst, pc = .send stations dst → s.gCtrlClientFd = some dst) :
    OriginInv { s.setScan i th pc with gMode := mode, gCtrlSendMtx := mtx } := by
  refine ⟨h.stored, h.served, fun th' hth' hrun' => ?_, h.answers⟩
  rcases List.mem_or_eq_of_mem_set hth' with hth' | rfl
  · exact h.threads th' hth' hrun'
  · obtain ⟨fd, hserving, hconn, -⟩ := h.threads th (List.mem_of_getElem? hi) hrun
    refine ⟨fd, hserving, hconn, fun stations dst hsend => ?_⟩
    exact Option.some.inj ((hpc stations dst hsend).symm.trans (h.served fd hserving).1)

theorem scanThread_originInv (h : OriginInv s) (i : ℕ) (stations : S) (ok : Bool) :
    OriginInv (s.scanThread i stations ok) := by
  unfold scanThread
  split
  · exact h
  · rename_i th hi
    split <;> rename_i hpc
    · exact h.setScan hi (by rw [hpc]; rfl) _ s.gMode s.gCtrlSendMtx nofun
    · exact h.setScan hi (by rw [hpc]; rfl) _ .idle s.gCtrlSendMtx nofun
    · split_ifs
      · exact h
      · split <;> rename_i hfd
        · refine h.setScan hi (by rw [hpc]; rfl) _ s.gMode true ?_
          rintro _ _ ⟨⟩
          exact hfd
        · exact h.setScan hi (by rw [hpc]; rfl) _ s.gMode s.gCtrlSendMtx nofun
    · rename_i found dst
      obtain ⟨fd, -, hconn, hdst⟩ := h.threads th (List.mem_of_getElem? hi) (by rw [hpc]; rfl)
      obtain rfl : dst = fd := hdst found dst hpc
      have hsent := h.sendOn dst (.scanComplete found) (some th.origin) ok
        (by rintro _ ⟨⟩; exact hconn)
      refine hsent.setScan ?_ (by rw [hpc]; rfl) _ _ false nofun
      rw [sendOn_scans, hi]
    · exact h

theorem dataServer_originInv (h : OriginInv s) (fd : ℕ) : OriginInv (s.dataServer fd) := by
  have hkeeps : ∀ sock, (∀ conn, s.fds fd ≠ some (.ctrl conn)) →
      OriginInv { s with fds := Function.update s.fds fd sock } := by
    intro sock hfree
    have hne : ∀ fd' conn, s.fds fd' = some (.ctrl conn) →
        Function.update s.fds fd sock fd' = some (.ctrl conn) := by
      intro fd' conn hconn
      rw [Function.update_of_ne _ _ _, hconn]
      rintro rfl
      exact hfree conn hconn
    refine ⟨fun fd' hstore => ?_, fun fd' hserving => ?_, fun th hth hrun => ?_, h.answers⟩
    · exact (h.stored fd' hstore).imp fun conn => hne fd' conn
    · exact ⟨(h.served fd' hserving).1, (h.served fd' hserving).2.imp fun conn => hne fd' conn⟩
    · obtain ⟨fd', hserving, hconn, hdst⟩ := h.threads th hth hrun
      exact ⟨fd', hserving, hne fd' _ hconn, hdst⟩
  unfold dataServer
  split <;> rename_i hfd
  · exact hkeeps _ (by rw [hfd]; nofun)
  · exact hkeeps _ (by rw [hfd]; nofun)
  · exact h

theorem step_originInv (a : Act F S) (hg : s.StaysConnected a) (h : OriginInv s) :
    OriginInv (s.step a) := by
  cases a with
  | accept fd => exact accept_originInv h fd
  | line l => exact line_originInv h l
  | hangup => exact hangup_originInv h hg
  | server ok => exact controlServerThread_originInv h ok
  | scan i stations ok => exact scanThread_originInv h i stations ok
  | data fd => exact dataServer_originInv h fd

/-- The mode says `SCANNING` only while a scan runs, and all the while if no `SCAN` comes during
one; with every `SCAN` after the last answer at most one scan runs; and while no connection ends
under a scan, each answer goes to the connection that asked. -/
theorem relay_scan_faithful (as : List (Act F S)) :
    ((run step init as).gMode = .scanning → 0 < (run step (init : RelayControl S) as).scanning)
    ∧ (Meets step ScansAlone (init : RelayControl S) as →
      ((run step init as).gMode = .scanning ↔ 0 < (run step (init : RelayControl S) as).scanning))
    ∧ (Meets step ScansAnswered (init : RelayControl S) as →
      (run step (init : RelayControl S) as).running ≤ 1)
    ∧ (Meets step StaysConnected (init : RelayControl S) as →
      (run step (init : RelayControl S) as).AnswersOrigin) := by
  have hmode : ModeInv (run step (init : RelayControl S) as) :=
    Machine.run_inv (fun _ a => step_modeInv a) as init nofun
  refine ⟨hmode, fun halone => ⟨hmode, ?_⟩, fun hansw => ?_, fun hstays => ?_⟩
  · exact (run_inv_of_meets (fun _ => step_aloneInv) as init halone init_aloneInv).mode
  · exact run_inv_of_meets (I := fun s => s.running ≤ 1) (fun _ => step_running) as init hansw
      (Nat.zero_le 1)
  · exact (run_inv_of_meets (fun _ => step_originInv) as init hstays init_originInv).answers

/-- A connection on descriptor `3` asks for a scan. -/
def connectAndScan : List (Act ℕ Unit) := [.accept 3, .server true, .line .scan]

/-- The connection is given up and the next one accepted, on the same descriptor. -/
def reconnect : List (Act ℕ Unit) :=
  [.hangup, .server true, .server true, .accept 3, .server true]

/-- A scan thread's steps up to its answer. -/
def scanSteps (n : ℕ) : List (Act ℕ Unit) := List.replicate n (.scan 0 () true)

/-- The mode is reset before the answer is sent; a second `SCAN` starts a second thread; and after
a reconnect the answer goes to a connection that asked for nothing. -/
theorem relay_scan_unfaithful :
    ((run step init (connectAndScan ++ scanSteps 2)).running = 1
      ∧ (run step init (connectAndScan ++ scanSteps 2)).gMode = .idle)
    ∧ (run step init (connectAndScan ++ [.line .scan])).running = 2
    ∧ (run step init (connectAndScan ++ reconnect ++ scanSteps 4)).log
      = [⟨.ctrl 1, .scanComplete (), some 0⟩]
    ∧ ¬ (run step init (connectAndScan ++ reconnect ++ scanSteps 4)).AnswersOrigin := by
  refine ⟨⟨by decide +kernel, by decide +kernel⟩, by decide +kernel, rfl, fun h => ?_⟩
  exact absurd (h _ (List.mem_singleton.2 rfl) 0 rfl) (by decide)

/-- A scan, its answer, a second scan and its answer on one connection. -/
def twoScans : List (Act ℕ Unit) :=
  connectAndScan ++ scanSteps 4 ++ [.line .scan] ++ List.replicate 4 (.scan 1 () true)

theorem relay_scan_faithful_two_scans :
    ((run step init twoScans).gMode = .scanning ↔ 0 < (run step init twoScans).scanning)
    ∧ (run step init twoScans).running ≤ 1
    ∧ (run step init twoScans).AnswersOrigin := by
  obtain ⟨-, hmode, hrunning, horigin⟩ := relay_scan_faithful twoScans
  exact ⟨hmode (by decide +kernel), hrunning (by decide +kernel), horigin (by decide +kernel)⟩

end RelayControl

end Relay

end AetherGuard
