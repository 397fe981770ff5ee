import AetherGuard.Proofs.Control
import AetherGuard.Proofs.RelayControl
import AetherGuard.ScanLink

/-!
# The daemon waits for a scan

`SCAN` sets `g_scanning` before a send that nobody checks, and only a `scan_complete` takes the flag
down. A `SCAN` that is not sent, one sent behind the start of another message, a connection that
breaks with either message on it, and an answer sent to nobody, to another connection than the
daemon's or behind the start of another answer each leave the daemon in scan mode for good. Where
none of these happens, `ScanPending` goes on from the listener to the wire, from there to a scan
thread and back.
-/

namespace AetherGuard

open Daemon Relay Machine

variable {F S : Type*}

def Relay.CtrlLine.isScan : CtrlLine F → Bool
  | .scan => true
  | _ => false

def Relay.Response.isScanComplete : Option (Response S) → Bool
  | some (.scanComplete _) => true
  | _ => false

namespace Daemon.Control

variable {s : Control F} {a : Act F}

theorem scanning_step (ha : a ≠ .scanComplete) (h : (s.step a).gScanning = true) :
    s.gScanning = true ∨ (s.step a).listener = .scanSend := by
  have hs := step_spec s a
  generalize s.step a = t at h hs
  cases hs with
  | setScanning => exact .inr rfl
  | scanComplete => exact absurd rfl ha
  | _ => exact .inl h

theorem listener_of_scanSend (h : s.listener = .scanSend) (ha : ∀ ok, a ≠ .listener ok) :
    (s.step a).listener = .scanSend := by
  cases a with
  | command c => simp only [step, receive, h]
  | listener ok => exact absurd rfl (ha ok)
  | recorder i ok =>
    obtain ⟨_, _, _, _, hrec⟩ := recorderThread_eq s i ok
    rw [step, hrec]
    exact h
  | live i ok =>
    obtain ⟨_, _, hlive⟩ := liveThread_eq s i ok
    rw [step, hlive]
    exact h
  | scanComplete => exact h
  | output =>
    obtain ⟨_, _, hout⟩ := outputThread_eq s
    rw [step, hout]
    exact h

end Daemon.Control

theorem Relay.RelayControl.running_line {s : RelayControl S} (h : ∃ fd, s.server = .reading fd) :
    0 < (s.line (.scan : CtrlLine F)).running := by
  obtain ⟨fd, hfd⟩ := h
  simp only [line, hfd, running]
  rw [countP_start]
  exact Nat.succ_pos _

namespace ScanLink

variable {s : ScanLink F S}

/-- What a scan thread sends next reaches the daemon, as a line of its own. -/
def Answers (s : ScanLink F S) (ok : Bool) : ScanPc S → Prop
  | .load _ => s.relay.gCtrlClientFd.isSome = true
  | .send _ dst => ok = true ∧ ∃ n ∈ s.gCtrlFd, s.up n = true ∧ s.relay.fds dst = some (.ctrl n)
      ∧ (s.toDaemon n).cut = false
  | _ => True

instance (s : ScanLink F S) (ok : Bool) (pc : ScanPc S) : Decidable (s.Answers ok pc) := by
  unfold Answers
  split <;> infer_instance

/-- Every `SCAN` is sent on the daemon's connection, which is up, and not behind the start of
another message; no connection breaks while a `SCAN` or a `scan_complete` is on its way; and a scan
thread answers on the daemon's connection. -/
def Delivers (s : ScanLink F S) : Act F S → Prop
  | .breakConn n =>
    (∀ l ∈ (s.toRelay n).lines, l.isScan = false)
      ∧ ∀ r ∈ (s.toDaemon n).lines, Response.isScanComplete r = false
  | .daemon (.listener ok) dst _ =>
    match s.daemon.listener with
    | .scanSend =>
      ok = true ∧ ∃ n ∈ s.gCtrlFd, dst = some n ∧ s.up n = true ∧ (s.toRelay n).cut = false
    | _ => True
  | .relay (.scan i _ ok) _ => ∀ th ∈ s.relay.scans[i]?, s.Answers ok th.pc
  | _ => True

instance (s : ScanLink F S) (a : Act F S) : Decidable (s.Delivers a) := by
  unfold Delivers
  split
  · infer_instance
  · split <;> infer_instance
  · infer_instance
  · infer_instance

/-- The scan that the daemon waits for is pending, and no answer to it is lost. -/
structure Inv (s : ScanLink F S) : Prop where
  pending : s.daemon.gScanning = true → s.ScanPending
  kept : ∀ n, s.up n = false → ∀ r ∈ (s.toDaemon n).lines, Response.isScanComplete r = false

theorem init_inv (freq : F) : Inv (init freq : ScanLink F S) := ⟨nofun, nofun⟩

section Push

variable {β : Type*} {up : ℕ → Bool} {pipes : ℕ → Pipe β} {n k : ℕ} {x y : β} {ok : Bool}
  {w : Sending β}

theorem mem_push_of_mem (hy : y ∈ (pipes k).lines) : y ∈ (push up pipes n x ok w k).lines := by
  unfold push
  split_ifs
  · by_cases hk : k = n
    · subst hk
      rw [Function.update_self, Pipe.send]
      cases ok
      · exact hy
      · exact List.mem_append_left _ hy
    · rwa [Function.update_of_ne hk]
  · exact hy

/-- A message that is taken in full, and not behind the start of another, is on its way. -/
theorem mem_push_self (hup : up n = true) (hcut : (pipes n).cut = false) :
    x ∈ (push up pipes n x true w n).lines := by
  simp [push, hup, Pipe.send, hcut]

theorem push_of_down (hk : up k = false) : push up pipes n x ok w k = pipes k := by
  unfold push
  split_ifs with hup
  · refine Function.update_of_ne ?_ _ _
    rintro rfl
    exact Bool.false_ne_true (hk.symm.trans hup)
  · rfl

end Push

theorem connect_inv (h : Inv s) : Inv s.connect := by
  unfold connect
  split
  · rename_i hfd
    refine ⟨fun hsc => ?_, fun n hn => h.kept n ?_⟩
    · rcases h.pending hsc with hl | ⟨n, hn, -⟩ | hrun | ⟨n, -, hn, -⟩
      · exact .inl hl
      · exact absurd (hfd.symm.trans hn) nofun
      · exact .inr (.inr (.inl hrun))
      · exact absurd (hfd.symm.trans hn) nofun
    · by_cases hne : n = s.conns
      · subst hne
        simp at hn
      · simpa [Function.update_of_ne hne] using hn
  · exact h

theorem breakConn_inv (h : Inv s) {n : ℕ} (hg : s.Delivers (.breakConn n)) :
    Inv (s.breakConn n) := by
  obtain ⟨hscan, hcomplete⟩ := hg
  refine ⟨fun hsc => ?_, fun k hk => ?_⟩
  · rcases h.pending hsc with hl | ⟨k, hk, hup, hmem⟩ | hrun | hback
    · exact .inl hl
    · refine .inr (.inl ⟨k, hk, ?_, hmem⟩)
      have hne : k ≠ n := by
        rintro rfl
        exact absurd (hscan _ hmem) nofun
      simpa [breakConn, Function.update_of_ne hne] using hup
    · exact .inr (.inr (.inl hrun))
    · exact .inr (.inr (.inr hback))
  · by_cases hne : k = n
    · subst hne
      exact hcomplete
    · exact h.kept k (by simpa [breakConn, Function.update_of_ne hne] using hk)

theorem mem_command {e : Option (Message F × Bool)} {dst : Option ℕ} {w : Sending (CtrlLine F)}
    {n : ℕ} {l : CtrlLine F} (hl : l ∈ (s.toRelay n).lines) : l ∈ (s.command e dst w n).lines := by
  unfold command
  split
  · exact mem_push_of_mem hl
  · exact hl

/-- A step of the daemon that does not send the `SCAN` loses none. -/
theorem Inv.daemonStep (h : Inv s) {a : Control.Act F} (ha : a ≠ .scanComplete)
    {toRelay : ℕ → Pipe (CtrlLine F)}
    (hgrow : ∀ n, ∀ l ∈ (s.toRelay n).lines, l ∈ (toRelay n).lines)
    (hsend : ∀ ok, a = .listener ok → s.daemon.listener = .scanSend →
      ∃ n, s.gCtrlFd = some n ∧ s.up n = true ∧ .scan ∈ (toRelay n).lines) :
    Inv { s with daemon := s.daemon.step a, toRelay := toRelay } := by
  refine ⟨fun hsc => ?_, h.kept⟩
  rcases Control.scanning_step ha hsc with hsc | hl
  · rcases h.pending hsc with hl | ⟨n, hn, hup, hmem⟩ | hrun | hback
    · by_cases hlis : ∃ ok, a = .listener ok
      · obtain ⟨ok, hok⟩ := hlis
        exact .inr (.inl (hsend ok hok hl))
      · exact .inl (Control.listener_of_scanSend hl fun ok hok => hlis ⟨ok, hok⟩)
    · exact .inr (.inl ⟨n, hn, hup, hgrow n _ hmem⟩)
    · exact .inr (.inr (.inl hrun))
    · exact .inr (.inr (.inr hback))
  · exact .inl hl

theorem daemonStep_inv (h : Inv s) {a : Control.Act F} {dst : Option ℕ} {w : Sending (CtrlLine F)}
    (hg : s.Delivers (.daemon a dst w)) : Inv (s.daemonStep a dst w) := by
  unfold ScanLink.daemonStep
  split
  · exact h
  · rename_i ha
    refine h.daemonStep ha (fun _ _ => mem_command) ?_
    rintro ok rfl hl
    simp only [Delivers, hl] at hg
    obtain ⟨rfl, n, hn, rfl, hup, hcut⟩ := hg
    refine ⟨n, hn, hup, ?_⟩
    simp only [command, Control.sends, hl]
    exact mem_push_self hup hcut

theorem hear_eq {response : Option (Response S)} (h : Response.isScanComplete response = false)
    (d : Control F) : hear d response = d := by
  unfold hear
  split
  · exact absurd h nofun
  · rfl

theorem gScanning_hear {response : Option (Response S)} (d : Control F)
    (h : Response.isScanComplete response = true) : (hear d response).gScanning = false := by
  unfold Response.isScanComplete at h
  split at h
  · rfl
  · cases h

theorem ctrlReaderThread_inv (h : Inv s) : Inv s.ctrlReaderThread := by
  unfold ctrlReaderThread
  split
  · exact h
  · rename_i n hn
    split
    · exact h
    · rename_i response rest hq
      have hsub : ∀ k,
          ∀ r ∈ (Function.update s.toDaemon n { s.toDaemon n with lines := rest } k).lines,
          r ∈ (s.toDaemon k).lines := by
        intro k r hr
        by_cases hk : k = n
        · subst hk
          rw [hq]
          exact List.mem_cons_of_mem _ (by simpa using hr)
        · simpa [Function.update_of_ne hk] using hr
      refine ⟨fun hsc => ?_, fun k hk r hr => h.kept k hk r (hsub k r hr)⟩
      cases hend : Response.isScanComplete response with
      | true => exact absurd ((gScanning_hear s.daemon hend).symm.trans hsc) Bool.false_ne_true
      | false =>
        rw [show hear s.daemon response = s.daemon from hear_eq hend s.daemon] at hsc ⊢
        rcases h.pending hsc with hl | hgo | hrun | ⟨k, stations, hk, hmem⟩
        · exact .inl hl
        · exact .inr (.inl hgo)
        · exact .inr (.inr (.inl hrun))
        · obtain rfl : n = k := Option.some.inj (hn.symm.trans hk)
          refine .inr (.inr (.inr ⟨n, stations, hn, ?_⟩))
          rw [hq] at hmem
          rcases List.mem_cons.1 hmem with rfl | hmem
          · cases hend
          · simpa using hmem

theorem ctrlReaderHangup_inv (h : Inv s) : Inv s.ctrlReaderHangup := by
  unfold ctrlReaderHangup
  split
  · rename_i n hn
    split_ifs with hup
    · exact h
    · refine ⟨fun hsc => ?_, h.kept⟩
      rcases h.pending hsc with hl | ⟨k, hk, hk', -⟩ | hrun | ⟨k, stations, hk, hmem⟩
      · exact .inl hl
      · obtain rfl : n = k := Option.some.inj (hn.symm.trans hk)
        exact absurd hk' hup
      · exact .inr (.inr (.inl hrun))
      · obtain rfl : n = k := Option.some.inj (hn.symm.trans hk)
        exact absurd (h.kept n (by simpa using hup) _ hmem) nofun
  · exact h

/-- A step of the relay that ends no scan thread and takes no `SCAN` off the wire loses none. -/
theorem Inv.relayStep (h : Inv s) {relay : RelayControl S}
    {toRelay : ℕ → Pipe (CtrlLine F)} {toDaemon : ℕ → Pipe (Option (Response S))}
    (hrun : 0 < s.relay.running → 0 < relay.running
      ∨ ∃ n stations, s.gCtrlFd = some n ∧ some (.scanComplete stations) ∈ (toDaemon n).lines)
    (hscan : ∀ n, .scan ∈ (s.toRelay n).lines → .scan ∈ (toRelay n).lines ∨ 0 < relay.running)
    (hgrow : ∀ n, ∀ r ∈ (s.toDaemon n).lines, r ∈ (toDaemon n).lines)
    (hup : ∀ n, s.up n = false → toDaemon n = s.toDaemon n) :
    Inv { s with relay := relay, toRelay := toRelay, toDaemon := toDaemon } := by
  refine ⟨fun hsc => ?_, fun n hn r (hr : r ∈ (toDaemon n).lines) =>
    h.kept n hn r (hup n hn ▸ hr)⟩
  rcases h.pending hsc with hl | ⟨n, hn, hup', hmem⟩ | hrun' | ⟨n, stations, hn, hmem⟩
  · exact .inl hl
  · rcases hscan n hmem with hmem | hrun'
    · exact .inr (.inl ⟨n, hn, hup', hmem⟩)
    · exact .inr (.inr (.inl hrun'))
  · exact .inr (.inr (hrun hrun'))
  · exact .inr (.inr (.inr ⟨n, stations, hn, hgrow n _ hmem⟩))

theorem serving_reading {n : ℕ} (h : s.serving = some n) : ∃ fd, s.relay.server = .reading fd := by
  unfold serving at h
  split at h
  · exact ⟨_, ‹_›⟩
  · cases h

theorem mem_deliver {e : Option (Relay.Sock × Response S × Bool)}
    {w : Sending (Option (Response S))} {n : ℕ} {r : Option (Response S)}
    (hr : r ∈ (s.toDaemon n).lines) : r ∈ (s.deliver e w n).lines := by
  unfold deliver
  split
  · exact mem_push_of_mem hr
  · exact hr

theorem deliver_of_down (e : Option (Relay.Sock × Response S × Bool))
    (w : Sending (Option (Response S))) {n : ℕ} (hn : s.up n = false) :
    s.deliver e w n = s.toDaemon n := by
  unfold deliver
  split
  · exact push_of_down hn
  · rfl

/-- An action of the relay other than a scan thread's last ends no thread. -/
theorem running_of_not_scan {a : RelayControl.Act F S}
    (ha : ∀ i stations ok, a ≠ .scan i stations ok) (hrun : 0 < s.relay.running) :
    0 < (s.relay.step a).running := by
  rcases RelayControl.running_step a hrun with hrun | ⟨i, stations, ok, -, rfl, -⟩
  · exact hrun
  · exact absurd rfl (ha i stations ok)

/-- The relay's reading a line takes it off the wire; a `SCAN` starts a thread. -/
theorem line_inv (h : Inv s) (l : CtrlLine F) (w : Sending (Option (Response S))) :
    Inv (s.relayStep (.line l) w) := by
  simp only [ScanLink.relayStep]
  split
  · exact h
  · rename_i n hn
    split
    · exact h
    · rename_i l rest hq
      refine h.relayStep (fun hrun => .inl ?_) (fun k hk => ?_) (fun _ _ => id) fun _ _ => rfl
      · exact running_of_not_scan (a := .line l) nofun hrun
      · by_cases hne : k = n
        · subst hne
          rw [hq] at hk
          rcases List.mem_cons.1 hk with rfl | hk
          · exact .inr (RelayControl.running_line (serving_reading hn))
          · exact .inl (by simpa using hk)
        · exact .inl (by simpa [Function.update_of_ne hne] using hk)

theorem scanThread_inv (h : Inv s) {i : ℕ} {stations : S} {ok : Bool}
    {w : Sending (Option (Response S))} (hg : s.Delivers (.relay (.scan i stations ok) w)) :
    Inv (s.relayStep (.scan i stations ok) w) := by
  refine h.relayStep (fun hrun => ?_) (fun _ => .inl) (fun _ _ => mem_deliver)
    fun _ => deliver_of_down _ w
  rcases RelayControl.running_step (.scan i stations ok : RelayControl.Act F S) hrun with
    hrun | ⟨_, _, _, th, ⟨⟩, hi, hend⟩
  · exact .inl hrun
  · have hanswers := hg th hi
    obtain ⟨origin, pc⟩ := th
    cases pc with
    | sweep | resetMode | done => exact hend.elim
    | load found =>
      rw [Answers, show s.relay.gCtrlClientFd = none from hend] at hanswers
      exact absurd hanswers nofun
    | send found dst =>
      obtain ⟨rfl, n, hn, hup, hfd, hcut⟩ := hanswers
      refine .inr ⟨n, found, hn, ?_⟩
      simp only [deliver, RelayControl.sends, hi, hfd, Option.map_some]
      exact mem_push_self hup hcut

theorem relayStep_inv (h : Inv s) {a : RelayControl.Act F S} {w : Sending (Option (Response S))}
    (hg : s.Delivers (.relay a w)) : Inv (s.relayStep a w) := by
  cases a with
  | accept fd =>
    simp only [ScanLink.relayStep]
    split_ifs
    · exact h.relayStep (fun hrun => .inl (running_of_not_scan (a := .accept fd) nofun hrun))
        (fun _ => .inl) (fun _ _ => id) fun _ _ => rfl
    · exact h
  | line l => exact line_inv h l w
  | hangup =>
    simp only [ScanLink.relayStep]
    split
    · split_ifs
      · exact h
      · exact h.relayStep (fun hrun => .inl (running_of_not_scan (a := .hangup) nofun hrun))
          (fun _ => .inl) (fun _ _ => id) fun _ _ => rfl
    · exact h
  | server ok =>
    exact h.relayStep (fun hrun => .inl (running_of_not_scan (a := .server ok) nofun hrun))
      (fun _ => .inl) (fun _ _ => mem_deliver) fun _ => deliver_of_down _ w
  | scan i stations ok => exact scanThread_inv h hg
  | data fd =>
    exact h.relayStep (fun hrun => .inl (running_of_not_scan (a := .data fd) nofun hrun))
      (fun _ => .inl) (fun _ _ => mem_deliver) fun _ => deliver_of_down _ w

theorem step_inv (a : Act F S) (hg : s.Delivers a) (h : Inv s) : Inv (s.step a) := by
  cases a with
  | connect => exact connect_inv h
  | breakConn n => exact breakConn_inv h hg
  | daemon a dst w => exact daemonStep_inv h hg
  | ctrlReader => exact ctrlReaderThread_inv h
  | ctrlHangup => exact ctrlReaderHangup_inv h
  | relay a w => exact relayStep_inv h hg

/-- In a run where every `SCAN` and every `scan_complete` gets through, a daemon in scan mode has a
`SCAN` on its way, a scan thread at work for it, or a `scan_complete` on its way back. -/
theorem scan_pending_of_delivers (freq : F) (as : List (Act F S))
    (h : Meets step Delivers (init freq) as)
    (hsc : (run step (init freq) as).daemon.gScanning = true) :
    (run step (init freq) as).ScanPending :=
  (run_inv_of_meets (fun _ => step_inv) as (init freq) h (init_inv freq)).pending hsc

/-- A step of the listener, whose message goes to `dst`. -/
def listen (ok : Bool) (dst : Option ℕ) : Act ℕ Unit := .daemon (.listener ok) dst ⟨true, .bad⟩

/-- A `SCAN` command, up to the send. -/
def scanCommand : List (Act ℕ Unit) :=
  .daemon (.command ⟨.scan, .absent⟩) none ⟨false, .bad⟩ :: List.replicate 4 (listen true none)

/-- Without a connection the `SCAN` is sent to nobody, and the daemon waits for its answer. -/
theorem scan_sent_to_nobody :
    (run step (init 100) (scanCommand ++ [listen false none])).daemon.gScanning = true
    ∧ ¬ (run step (init 100) (scanCommand ++ [listen false none])).ScanPending := by
  refine ⟨by decide +kernel, ?_⟩
  rintro (hl | ⟨n, hn, -⟩ | hrun | ⟨n, -, hn, -⟩)
  · cases hl
  · cases hn
  · cases hrun
  · cases hn

def relayActs (as : List (RelayControl.Act ℕ Unit)) : List (Act ℕ Unit) :=
  as.map (Act.relay · ⟨false, none⟩)

/-- The start of a `TUNE` is left on the wire, and the `SCAN` behind it is read as the rest of one
line. -/
example :
    let s := run step (init 100) ([.connect] ++ relayActs [.accept 3, .server true]
      ++ [.daemon (.command ⟨.tune, .value 101⟩) none ⟨false, .bad⟩, listen true none,
        listen false (some 0)]
      ++ scanCommand ++ [listen true (some 0)] ++ relayActs [.line .scan])
    s.daemon.gScanning = true ∧ (s.toRelay 0).lines.length = 0 ∧ s.relay.running = 0
      ∧ (s.toDaemon 0).lines.length = 0 := by
  decide +kernel

/-- A scan over a connection that is up, up to its answer. -/
def scanAnswered : List (Act ℕ Unit) :=
  [.connect] ++ relayActs [.accept 3, .server true] ++ scanCommand ++ [listen true (some 0)]
    ++ relayActs (.line .scan :: List.replicate 4 (.scan 0 () true))

theorem scan_pending_of_delivers_answered :
    (run step (init 100) scanAnswered).daemon.gScanning = true
    ∧ (run step (init 100) scanAnswered).ScanPending :=
  ⟨by decide +kernel, scan_pending_of_delivers 100 scanAnswered (by decide +kernel)
    (by decide +kernel)⟩

end ScanLink

end AetherGuard
