import AetherGuard.Lib.Descriptors
import AetherGuard.CtrlSocket
import AetherGuard.Proofs.RelayControl

/-!
# Where control messages go

In the daemon as in the relay, one thread owns the control connection and publishes its descriptor,
and another thread may have loaded the descriptor when the owner closes it. From then on that thread
holds a number that is free, and that the data connection may be given. So every message goes to the
control connection exactly when the owner never closes between another thread's load and its send.
-/

namespace AetherGuard

open Machine Descriptors

namespace Daemon

/-- The descriptor `ctrlReaderThread` has open. -/
def CtrlReader.fd? : CtrlReader → Option ℕ
  | .connecting => none
  | .storeFd fd | .receiving fd | .clearFd fd | .closeFd fd => some fd

namespace CtrlSocket

variable {s : CtrlSocket}

/-- `ctrlReaderThread` closes its descriptor only when no thread has loaded it and not sent yet. -/
def ClosesUnloaded (s : CtrlSocket) : Act → Prop
  | .ctrlReader => ∀ fd dst, s.ctrlReader = .closeFd fd → s.gCtrlMtx ≠ some (.send dst)
  | _ => True

structure Inv (s : CtrlSocket) : Prop where
  owns : Owns (· = .ctrl) s.fds s.ctrlReader.fd?
  stored : ∀ fd, s.gCtrlFd = some fd → s.ctrlReader = .receiving fd ∨ s.ctrlReader = .clearFd fd
  loaded : ∀ dst, s.gCtrlMtx = some (.send dst) → s.ctrlReader.fd? = some dst
  data : ∀ fd, s.tcpReader = .receiving fd → s.fds fd = some .data

theorem init_inv : init.Inv := ⟨⟨nofun, nofun⟩, nofun, nofun, nofun⟩

theorem Inv.sendsOnCtrl (h : s.Inv) : s.SendsOnCtrl := by
  intro dst hdst
  obtain ⟨_, hfd, rfl⟩ := h.owns.opened dst (h.loaded dst hdst)
  exact hfd

theorem ctrlConnect_inv (h : s.Inv) (fd : ℕ) : (s.ctrlConnect fd).Inv := by
  unfold ctrlConnect
  split
  · rename_i hpc hfree
    have howns := h.owns
    rw [hpc] at howns
    refine ⟨howns.acquire rfl, fun x hx => ?_, fun x hx => ?_, fun x hx => ?_⟩
    · simpa [hpc] using h.stored x hx
    · simpa [hpc, CtrlReader.fd?] using h.loaded x hx
    · exact update_eq_of_ne (h.data x hx) (by simp [hfree])
  · exact h

/-- `ctrlReaderThread` goes on with its descriptor, and perhaps stores it or -1. -/
theorem Inv.move (h : s.Inv) {pc : CtrlReader} {fd? : Option ℕ} (hpc : pc.fd? = s.ctrlReader.fd?)
    (hfd : ∀ fd, fd? = some fd → pc = .receiving fd ∨ pc = .clearFd fd) :
    Inv { s with gCtrlFd := fd?, ctrlReader := pc } := by
  refine ⟨?_, hfd, fun dst hdst => ?_, h.data⟩
  · rw [hpc]
    exact h.owns
  · rw [hpc]
    exact h.loaded dst hdst

theorem ctrlHangup_inv (h : s.Inv) : s.ctrlHangup.Inv := by
  unfold ctrlHangup
  split
  · rename_i fd hpc
    refine h.move (by rw [hpc]; rfl) fun x hx => ?_
    simpa [hpc] using h.stored x hx
  · exact h

theorem ctrlReaderThread_inv (h : s.Inv) (hg : s.ClosesUnloaded .ctrlReader) :
    s.ctrlReaderThread.Inv := by
  unfold ctrlReaderThread
  split
  · rename_i fd hpc
    exact h.move (by rw [hpc]; rfl) fun x hx => .inl (congrArg _ (Option.some.inj hx))
  · rename_i fd hpc
    exact h.move (by rw [hpc]; rfl) nofun
  · rename_i fd hpc
    have howns := h.owns
    rw [hpc] at howns
    refine ⟨howns.release, fun x hx => ?_, fun x hx => absurd hx (hg fd x hpc), fun x hx => ?_⟩
    · simpa [hpc] using h.stored x hx
    · obtain ⟨_, hctrl, rfl⟩ := howns.opened fd rfl
      exact update_eq_of_ne (h.data x hx) (by simp [hctrl])
  · exact h

theorem tcpConnect_inv (h : s.Inv) (fd : ℕ) : (s.tcpConnect fd).Inv := by
  unfold tcpConnect
  split
  · rename_i hpc hfree
    refine ⟨h.owns.other (by simp [hfree]) (by simp), h.stored, h.loaded, fun x hx => ?_⟩
    obtain rfl : fd = x := TcpReader.receiving.inj hx
    exact Function.update_self ..
  · exact h

theorem tcpClose_inv (h : s.Inv) : s.tcpClose.Inv := by
  unfold tcpClose
  split
  · rename_i fd hpc
    exact ⟨h.owns.other (by simp [h.data fd hpc]) (by simp), h.stored, h.loaded, nofun⟩
  · exact h

theorem lock_inv (h : s.Inv) : s.lock.Inv := by
  unfold lock
  split
  · exact ⟨h.owns, h.stored, nofun, h.data⟩
  · exact h

theorem sendCtrlCommand_inv (h : s.Inv) : s.sendCtrlCommand.Inv := by
  unfold sendCtrlCommand
  split
  · exact h
  · refine ⟨h.owns, h.stored, fun dst hdst => ?_, h.data⟩
    obtain ⟨fd, hfd, hsend⟩ := Option.map_eq_some_iff.1 hdst
    obtain rfl : fd = dst := Sender.send.inj hsend
    rcases h.stored fd hfd with hpc | hpc <;> simp only [hpc] <;> rfl
  · exact ⟨h.owns, h.stored, nofun, h.data⟩

theorem step_inv (a : Act) (hg : s.ClosesUnloaded a) (h : s.Inv) : (s.step a).Inv := by
  cases a with
  | ctrlConnect fd => exact ctrlConnect_inv h fd
  | ctrlHangup => exact ctrlHangup_inv h
  | ctrlReader => exact ctrlReaderThread_inv h hg
  | tcpConnect fd => exact tcpConnect_inv h fd
  | tcpClose => exact tcpClose_inv h
  | lock => exact lock_inv h
  | sender => exact sendCtrlCommand_inv h

/-- After a close between a load and its send, the next send is on a descriptor that is not open. -/
theorem not_sendsOnCtrl (a : Act) (h : s.Inv) (hg : ¬ s.ClosesUnloaded a) :
    ¬ (s.step a).SendsOnCtrl := by
  cases a <;> simp only [ClosesUnloaded, not_true_eq_false, not_forall, not_not] at hg
  obtain ⟨fd, dst, hpc, hdst⟩ := hg
  have hfd : some fd = some dst := by rw [← h.loaded dst hdst, hpc]; rfl
  obtain rfl := Option.some.inj hfd
  intro hsends
  have := hsends fd (by simpa [step, ctrlReaderThread, hpc] using hdst)
  simp [step, ctrlReaderThread, hpc] at this

theorem forall_sendsOnCtrl_iff (as : List Act) :
    (∀ bs, bs <+: as → (run step init bs).SendsOnCtrl) ↔ Meets step ClosesUnloaded init as :=
  forall_prefix_iff_meets (I := Inv) (P := SendsOnCtrl) (G := ClosesUnloaded)
    (fun _ a => step_inv a) (fun _ => Inv.sendsOnCtrl) (fun _ a => not_sendsOnCtrl a) as init
    init_inv

end CtrlSocket

end Daemon

namespace Relay

variable {F S : Type*}

/-- The descriptor `controlServerThread` has open. -/
def Server.fd? : Server S → Option ℕ
  | .accepting => none
  | .storeFd fd | .reading fd | .load fd _ | .send fd _ _ | .clearFd fd | .closeFd fd => some fd

/-- The descriptor it has stored in `g_ctrl_client_fd`. -/
def Server.stored : Server S → Option ℕ
  | .reading fd | .load fd _ | .send fd _ _ | .clearFd fd => some fd
  | _ => none

theorem Server.fd?_of_stored {server : Server S} {fd : ℕ} (h : server.stored = some fd) :
    server.fd? = some fd := by
  cases server <;> first | exact h | cases h

namespace RelayControl

variable {s t : RelayControl S}

/-- The next step of a thread is to send on `dst`. -/
def SendingTo (s : RelayControl S) (dst : ℕ) : Prop :=
  (∃ fd response, s.server = .send fd response dst) ∨
    ∃ th ∈ s.scans, ∃ stations, th.pc = .send stations dst

/-- If the next step of a thread is to send, it sends on the open control connection. -/
def SendsOnCtrl (s : RelayControl S) : Prop :=
  ∀ dst, s.SendingTo dst → ∃ conn, s.fds dst = some (.ctrl conn)

/-- `controlServerThread` closes its descriptor only when no scan thread has loaded it and not sent
yet. -/
def ClosesUnloaded (s : RelayControl S) : Act F S → Prop
  | .server _ => ∀ fd, s.server = .closeFd fd → ∀ th ∈ s.scans, ∀ stations dst,
      th.pc ≠ .send stations dst
  | _ => True

structure SocketInv (s : RelayControl S) : Prop where
  owns : Owns (fun sock => ∃ conn, sock = .ctrl conn) s.fds s.server.fd?
  stored : ∀ fd, s.gCtrlClientFd = some fd → s.server.stored = some fd
  own : ∀ fd response dst, s.server = .send fd response dst → dst = fd
  loaded : ∀ th ∈ s.scans, ∀ stations dst, th.pc = .send stations dst → s.server.fd? = some dst

theorem init_socketInv : SocketInv (init : RelayControl S) := ⟨⟨nofun, nofun⟩, nofun, nofun, nofun⟩

theorem SocketInv.sendsOnCtrl (h : SocketInv s) : s.SendsOnCtrl := by
  intro dst hdst
  have hfd : s.server.fd? = some dst := by
    rcases hdst with ⟨fd, response, hserver⟩ | ⟨th, hth, stations, hpc⟩
    · rw [h.own fd response dst hserver, hserver]
      rfl
    · exact h.loaded th hth stations dst hpc
  obtain ⟨_, hsock, conn, rfl⟩ := h.owns.opened dst hfd
  exact ⟨conn, hsock⟩

/-- The server goes on with its descriptor. -/
theorem SocketInv.of_server (h : SocketInv s) (hfds : t.fds = s.fds) (hscans : t.scans = s.scans)
    (hfd : t.server.fd? = s.server.fd?)
    (hstored : ∀ fd, t.gCtrlClientFd = some fd → t.server.stored = some fd)
    (hown : ∀ fd response dst, t.server = .send fd response dst → dst = fd) : SocketInv t := by
  refine ⟨?_, hstored, hown, fun th hth stations dst hpc => ?_⟩
  · rw [hfds, hfd]
    exact h.owns
  · rw [hfd]
    exact h.loaded th (hscans ▸ hth) stations dst hpc

/-- The server goes on with its descriptor, which stays stored if it was. -/
theorem SocketInv.of_stored (h : SocketInv s) (hfds : t.fds = s.fds) (hscans : t.scans = s.scans)
    (hgfd : t.gCtrlClientFd = s.gCtrlClientFd) (hfd : t.server.fd? = s.server.fd?)
    (hstored : t.server.stored = s.server.stored)
    (hown : ∀ fd response dst, t.server = .send fd response dst → dst = fd) : SocketInv t := by
  refine h.of_server hfds hscans hfd ?_ hown
  rw [hgfd, hstored]
  exact h.stored

/-- The scan threads go on, and none loads but the stored descriptor. -/
theorem SocketInv.of_scans (h : SocketInv s) (hfds : t.fds = s.fds) (hserver : t.server = s.server)
    (hfd : t.gCtrlClientFd = s.gCtrlClientFd)
    (hloaded : ∀ th ∈ t.scans, th ∈ s.scans ∨ ∀ stations dst, th.pc = .send stations dst →
      s.gCtrlClientFd = some dst) : SocketInv t := by
  refine ⟨?_, ?_, ?_, fun th hth stations dst hpc => ?_⟩
  · rw [hfds, hserver]
    exact h.owns
  · rw [hfd, hserver]
    exact h.stored
  · rw [hserver]
    exact h.own
  · rw [hserver]
    rcases hloaded th hth with hold | hnew
    · exact h.loaded th hold stations dst hpc
    · exact Server.fd?_of_stored (h.stored dst (hnew stations dst hpc))

theorem accept_socketInv (h : SocketInv s) (fd : ℕ) : SocketInv (s.accept fd) := by
  unfold accept
  split
  · rename_i hserver hfree
    have howns := h.owns
    rw [hserver] at howns
    refine ⟨howns.acquire ⟨s.conns, rfl⟩, fun x hx => ?_, nofun, fun th hth stations dst hpc => ?_⟩
    · simpa [hserver, Server.stored] using h.stored x hx
    · simpa [hserver, Server.fd?] using h.loaded th hth stations dst hpc
  · exact h

theorem line_socketInv (h : SocketInv s) (l : CtrlLine F) : SocketInv (s.line l) := by
  unfold line
  split
  · rename_i fd hserver
    split
    · refine h.of_scans rfl rfl rfl fun th hth => ?_
      rcases List.mem_append.1 hth with hth | hth
      · exact .inl hth
      · rw [List.mem_singleton.1 hth]
        exact .inr nofun
    · split
      · exact h.of_stored rfl rfl rfl (by rw [hserver]; rfl) (by rw [hserver]; rfl) nofun
      · exact h
  · exact h

theorem hangup_socketInv (h : SocketInv s) : SocketInv s.hangup := by
  unfold hangup
  split
  · rename_i fd hserver
    exact h.of_stored rfl rfl rfl (by rw [hserver]; rfl) (by rw [hserver]; rfl) nofun
  · exact h

theorem sendOn_frame (s : RelayControl S) (fd : ℕ) (response : Response S) (origin : Option ℕ)
    (ok : Bool) : (s.sendOn fd response origin ok).fds = s.fds ∧
      (s.sendOn fd response origin ok).server = s.server ∧
      (s.sendOn fd response origin ok).gCtrlClientFd = s.gCtrlClientFd := by
  unfold sendOn
  split <;> exact ⟨rfl, rfl, rfl⟩

theorem controlServerThread_socketInv (h : SocketInv s) (ok : Bool)
    (hg : s.ClosesUnloaded (.server ok : Act F S)) : SocketInv (s.controlServerThread ok) := by
  unfold controlServerThread
  split
  · rename_i fd hserver
    exact h.of_server rfl rfl (by rw [hserver]; rfl) (fun x hx => hx) nofun
  · rename_i fd response hserver
    split_ifs with hmtx
    · exact h
    · split
      · rename_i dst hdst
        have hstored := h.stored dst hdst
        rw [hserver] at hstored
        obtain rfl : fd = dst := Option.some.inj hstored
        refine h.of_stored rfl rfl rfl (by rw [hserver]; rfl) (by rw [hserver]; rfl) ?_
        rintro _ _ _ ⟨⟩
        rfl
      · rename_i hnone
        exact h.of_server rfl rfl (by rw [hserver]; rfl) (by simp [hnone]) nofun
  · rename_i fd response dst hserver
    obtain ⟨hfds, -, hfd⟩ := sendOn_frame s dst response none ok
    exact h.of_stored hfds (sendOn_scans ..) hfd (by rw [hserver]; rfl) (by rw [hserver]; rfl) nofun
  · rename_i fd hserver
    exact h.of_server rfl rfl (by rw [hserver]; rfl) nofun nofun
  · rename_i fd hserver
    have howns := h.owns
    rw [hserver] at howns
    refine ⟨howns.release, fun x hx => ?_, nofun, fun th hth stations dst hpc =>
      absurd hpc (hg fd hserver th hth stations dst)⟩
    simpa [hserver, Server.stored] using h.stored x hx
  · exact h

theorem SocketInv.setScan (h : SocketInv s) (i : ℕ) (th : ScanThread S) {pc : ScanPc S}
    (hfds : t.fds = s.fds) (hserver : t.server = s.server)
    (hfd : t.gCtrlClientFd = s.gCtrlClientFd)
    (hscans : t.scans = s.scans.set i { th with pc := pc })
    (hpc : ∀ stations dst, pc = .send stations dst → s.gCtrlClientFd = some dst) : SocketInv t := by
  refine h.of_scans hfds hserver hfd fun u hu => ?_
  rw [hscans] at hu
  rcases List.mem_or_eq_of_mem_set hu with hu | rfl
  · exact .inl hu
  · exact .inr hpc

theorem scanThread_socketInv (h : SocketInv s) (i : ℕ) (stations : S) (ok : Bool) :
    SocketInv (s.scanThread i stations ok) := by
  unfold scanThread
  split
  · exact h
  · rename_i th hth
    split
    · exact h.setScan i th rfl rfl rfl rfl nofun
    · exact h.setScan i th rfl rfl rfl rfl nofun
    · split_ifs with hmtx
      · exact h
      · split
        · rename_i dst hdst
          refine h.setScan i th rfl rfl rfl rfl ?_
          rintro _ _ ⟨⟩
          exact hdst
        · exact h.setScan i th rfl rfl rfl rfl nofun
    · rename_i found dst hpc
      obtain ⟨hfds, hserver, hfd⟩ := sendOn_frame s dst (.scanComplete found) (some th.origin) ok
      have hscans := congrArg (·.set i { th with pc := .done })
        (sendOn_scans s dst (.scanComplete found) (some th.origin) ok)
      exact h.setScan i th hfds hserver hfd hscans nofun
    · exact h

theorem dataServer_socketInv (h : SocketInv s) (fd : ℕ) : SocketInv (s.dataServer fd) := by
  unfold dataServer
  split
  · rename_i hfree
    exact ⟨h.owns.other (by simp [hfree]) (by simp), h.stored, h.own, h.loaded⟩
  · rename_i hdata
    exact ⟨h.owns.other (by simp [hdata]) (by simp), h.stored, h.own, h.loaded⟩
  · exact h

theorem step_socketInv (a : Act F S) (hg : s.ClosesUnloaded a) (h : SocketInv s) :
    SocketInv (s.step a) := by
  cases a with
  | accept fd => exact accept_socketInv h fd
  | line l => exact line_socketInv h l
  | hangup => exact hangup_socketInv h
  | server ok => exact controlServerThread_socketInv h ok hg
  | scan i stations ok => exact scanThread_socketInv h i stations ok
  | data fd => exact dataServer_socketInv h fd

theorem not_sendsOnCtrl (a : Act F S) (h : SocketInv s) (hg : ¬ s.ClosesUnloaded a) :
    ¬ (s.step a).SendsOnCtrl := by
  cases a <;> simp only [ClosesUnloaded, not_true_eq_false, not_forall, not_not] at hg
  obtain ⟨fd, hserver, th, hth, stations, dst, hpc⟩ := hg
  have hfd : some fd = some dst := by rw [← h.loaded th hth stations dst hpc, hserver]; rfl
  obtain rfl := Option.some.inj hfd
  intro hsends
  obtain ⟨conn, hconn⟩ := hsends fd
    (.inr ⟨th, by simpa [step, controlServerThread, hserver] using hth, stations, hpc⟩)
  simp [step, controlServerThread, hserver] at hconn

theorem forall_sendsOnCtrl_iff (as : List (Act F S)) :
    (∀ bs, bs <+: as → (run step init bs).SendsOnCtrl) ↔ Meets step ClosesUnloaded init as :=
  forall_prefix_iff_meets (I := SocketInv) (P := SendsOnCtrl) (G := ClosesUnloaded)
    (fun _ a => step_socketInv a) (fun _ => SocketInv.sendsOnCtrl) (fun _ a => not_sendsOnCtrl a)
    as init init_socketInv

end RelayControl

end Relay

/-- In the daemon and in the relay, every message is sent on the control connection all along a run
exactly when the owner never closes between another thread's load and its send. -/
theorem ctrl_sends_iff {F S : Type*} :
    (∀ as : List Daemon.CtrlSocket.Act,
      (∀ bs, bs <+: as → (run Daemon.CtrlSocket.step .init bs).SendsOnCtrl) ↔
        Meets Daemon.CtrlSocket.step Daemon.CtrlSocket.ClosesUnloaded .init as) ∧
    ∀ as : List (Relay.RelayControl.Act F S),
      (∀ bs, bs <+: as → (run Relay.RelayControl.step .init bs).SendsOnCtrl) ↔
        Meets Relay.RelayControl.step Relay.RelayControl.ClosesUnloaded .init as :=
  ⟨Daemon.CtrlSocket.forall_sendsOnCtrl_iff, Relay.RelayControl.forall_sendsOnCtrl_iff⟩

open Daemon.CtrlSocket in
/-- The daemon's sender, and the relay's scan thread, are about to send on 3, which the data
connection was given after the control connection closed it. -/
theorem ctrl_message_in_data_stream :
    (let s := run step init [.ctrlConnect 3, .ctrlReader, .lock, .sender, .ctrlHangup, .ctrlReader,
      .ctrlReader, .tcpConnect 3]
    s.gCtrlMtx = some (.send 3) ∧ s.fds 3 = some .data) ∧
    let t := run Relay.RelayControl.step (.init : Relay.RelayControl Unit)
      ([.accept 3, .server true, .line .scan, .scan 0 () true, .scan 0 () true, .scan 0 () true,
        .hangup, .server true, .server true, .data 3] : List (Relay.RelayControl.Act Unit Unit))
    t.scans = [⟨0, .send () 3⟩] ∧ t.fds 3 = some .data :=
  ⟨⟨rfl, rfl⟩, rfl, rfl⟩

end AetherGuard
