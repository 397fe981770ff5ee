import AetherGuard.Proofs.FrameParts
import AetherGuard.Proofs.IqCarried
import AetherGuard.Proofs.RelayRing

/-!
# A buffer's way to the filters

With both ends at rest and one client, a buffer that the hardware hands over goes through the ring
and out to the client (`run_deliver`), the daemon reads its frame, and where it is exactly one chunk
the filters hear its samples (`run_digested`).
-/

namespace AetherGuard

open Machine

namespace Relay

/-- A buffer with samples is sent as a good frame. -/
theorem cut_valid (e : Endian) {buf : IqBuffer} (h : buf.samples ≠ []) :
    ValidPayload buf.cut.payload ∧ buf.cut.bytes e = encodePayload e buf.cut.payload := by
  have hpos := List.length_pos_iff.2 h
  have heven := buf.even
  have hlen : buf.cut.payload.length = 2 * min (buf.samples.length / 2) 16384 := by
    simp only [IqBuffer.cut, List.length_take]
    omega
  refine ⟨⟨_, by omega, by omega, hlen⟩, ?_⟩
  rw [encodePayload, hlen, Nat.mul_div_cancel_left _ (by norm_num)]
  rfl

end Relay

namespace IqLink

variable {e : Endian} {s : IqLink} {fd k : ℕ} {buf : Relay.IqBuffer}

/-- The hardware hands a buffer over, and `dataSenderThread` sends it to its one client. -/
def deliver (e : Endian) (buf : Relay.IqBuffer) : List Act :=
  .offer buf :: List.replicate 5 .producer
    ++ List.replicate 8 (.sender (some (buf.cut.bytes e).length))

/-- The relay is at rest and has one client. -/
structure OneClient (s : IqLink) (fd k : ℕ) : Prop where
  ring : s.ring.Quiet
  sender : s.clients.sender = .idle
  listed : s.clients.gDataClients = [fd]
  opened : s.clients.fds fd = some (.client k)

theorem run_deliver (h : OneClient s fd k) (hne : buf.samples ≠ [])
    (hb : s.ring.accepted.length + 1 < 2 ^ 31) :
    run (step e) s (deliver e buf) = { s with
      ring := run Relay.State.step s.ring (Relay.State.pass buf)
      clients := { s.clients with
        frames := s.clients.frames ++ [buf.cut]
        clients := s.clients.clients.modify k fun c =>
          { c with sends := c.sends ++ [⟨buf.cut, some (buf.cut.bytes e).length⟩] } } } := by
  obtain ⟨hquiet, hsender, hlisted, hopened⟩ := h
  obtain ⟨-, -, -, hring, hframes, idx, hfind⟩ := hquiet.broadcast buf hne hb
  obtain ⟨-, -, hpass⟩ := hquiet.pass buf hne hb
  set n := some (buf.cut.bytes e).length with hn
  set ring₁ := run Relay.State.step s.ring (Relay.State.broadcast buf) with hring₁
  have hsplit : run Relay.State.step s.ring (Relay.State.pass buf)
      = { ring₁ with
          sender := .copy idx }.dataSenderThread.dataSenderThread.dataSenderThread := by
    rw [← hfind]
    exact run_append Relay.State.step s.ring (Relay.State.broadcast buf) (List.replicate 4 .sender)
  have hbuilt : (ring₁.gRelayPool idx).frame = buf.cut := by
    have hlast : ring₁.frames ++ [(ring₁.gRelayPool idx).frame] = s.ring.frames ++ [buf.cut] := by
      rw [← hpass, hsplit]
      rfl
    rw [hframes] at hlast
    simpa using hlast
  have htest : IqLink.dataSenderThread e { s with ring := ring₁ } n
      = { s with ring := { ring₁ with sender := .copy idx } } := by
    simp only [dataSenderThread, hsender, hring, hfind]
  have hbuild : run (step e) { s with ring := { ring₁ with sender := .copy idx } }
      (List.replicate 3 (.sender n)) = { s with
        ring := run Relay.State.step s.ring (Relay.State.pass buf)
        clients := { s.clients with sender := .lock buf.cut } } := by
    rw [hsplit]
    simp only [run, List.replicate, List.foldl, step, dataSenderThread, hsender,
      Relay.State.dataSenderThread, List.getLast?_concat, hbuilt, Relay.DataClients.takeFrame]
  have hsend : run (step e) { s with
        ring := run Relay.State.step s.ring (Relay.State.pass buf)
        clients := { s.clients with sender := .lock buf.cut } } (List.replicate 4 (.sender n))
      = { s with
          ring := run Relay.State.step s.ring (Relay.State.pass buf)
          clients := { s.clients with
            frames := s.clients.frames ++ [buf.cut]
            clients := s.clients.clients.modify k fun c =>
              { c with sends := c.sends ++ [⟨buf.cut, n⟩] } } } := by
    simp only [run, List.replicate, List.foldl, step, dataSenderThread,
      Relay.DataClients.dataSenderThread, hlisted, Relay.DataClients.sendResult,
      Relay.DataClients.modifyClient, hopened, hn, Option.map_some, min_self, Relay.SendCall.full,
      beq_self_eq_true, if_true, ← hsender]
  show run (step e) (IqLink.dataSenderThread e { s with ring := ring₁ } n)
    (List.replicate 3 (.sender n) ++ List.replicate 4 (.sender n)) = _
  rw [htest, run_append, hbuild, hsend]

/-- The daemon connects, and the relay takes it as its client. -/
def attach : List Act := [.connect, .accept 4 (some 1), .acceptor]

theorem attach_oneClient (e : Endian) : OneClient (run (step e) init attach) 4 0 :=
  ⟨Relay.State.init_quiet, rfl, rfl, rfl⟩

/-- The first buffer delivered is what the daemon can read. -/
theorem run_delivered (e : Endian) (buf : Relay.IqBuffer) (hne : buf.samples ≠ []) (s : IqLink)
    (hs : s = run (step e) init (attach ++ deliver e buf)) :
    s.readable e = encodePayload e buf.cut.payload ∧ s.ring.accepted = [buf]
      ∧ s.stream = run Daemon.IqStream.step Daemon.IqStream.init [.connect] := by
  have hb : (run (step e) init attach).ring.accepted.length + 1 < 2 ^ 31 :=
    Nat.one_lt_two_pow (by decide)
  obtain ⟨-, hacc, -⟩ := (attach_oneClient e).ring.pass buf hne hb
  rw [hs, run_append, run_deliver (attach_oneClient e) hne hb]
  refine ⟨?_, hacc, rfl⟩
  rw [← (Relay.cut_valid e hne).2]
  show List.take _ (buf.cut.bytes e) ++ [] = _
  rw [List.append_nil]
  exact List.take_length

/-- The reader takes a frame of one chunk, and the demodulator goes through it. -/
def digest : List Act := .recvFrame :: (List.replicate 8 .reader ++ List.replicate 6 .demod)

/-- Steps of a thread of the daemon on its stream. -/
theorem run_replicate {a : Act} {b : Daemon.IqStream.Act}
    (h : ∀ t, step e t a = { t with stream := t.stream.step b }) (n : ℕ) (t : IqLink) :
    run (step e) t (List.replicate n a)
      = { t with stream := run Daemon.IqStream.step t.stream (List.replicate n b) } := by
  have hrun : run (step e) t ((List.replicate n b).map fun _ => a)
      = { t with stream := run Daemon.IqStream.step t.stream (List.replicate n b) } := by
    refine run_map (g := fun stream => { t with stream := stream }) _ (fun c hc _ => ?_) t.stream
    rw [List.eq_of_mem_replicate hc]
    exact h _
  rwa [List.map_replicate] at hrun

/-- What the reader and the demodulator do is one chunk through the daemon's stream. -/
theorem run_digest {s : IqLink} {p : List Int16}
    (hsize : 2 ≤ p.length ∧ p.length ≤ 131072 ∧ p.length % 2 = 0)
    (hr : s.stream.reader = .receiving) (hfed : (tcpReader e [s.readable e]).fed = [p]) :
    (run (step e) s digest).ring = s.ring ∧ (run (step e) s digest).stream
      = run Daemon.IqStream.step s.stream (Daemon.IqStream.oneChunk (payload p hsize)) := by
  have hrecv : s.recvFrame e = { s with
      stream := s.stream.frame (payload p hsize)
      consumed := s.consumed + (8 + 2 * p.length)
      fed := s.fed ++ [p] } := by
    simp only [recvFrame, hfed, hr, dif_pos hsize]
  have hrun : run (step e) s digest = run (step e) (run (step e) (s.recvFrame e)
      (List.replicate 8 .reader)) (List.replicate 6 .demod) := run_append ..
  have hchunk : run Daemon.IqStream.step s.stream (Daemon.IqStream.oneChunk (payload p hsize))
      = run Daemon.IqStream.step (run Daemon.IqStream.step (s.stream.frame (payload p hsize))
        (List.replicate 8 .reader)) (List.replicate 6 .demod) := run_append ..
  rw [hrun, hchunk, run_replicate (b := .demod) (fun _ => rfl),
    run_replicate (b := .reader) (fun _ => rfl), hrecv]
  exact ⟨rfl, rfl⟩

/-- A buffer of exactly one chunk is heard. -/
theorem run_digested (hlen : buf.samples.length = 32768) (s : IqLink)
    (hs : s = run (step e) init (attach ++ deliver e buf ++ digest)) :
    s.heard = pairs buf.samples ∧ s.ring.accepted = [buf] ∧ s.stream.pool.accepted.length = 1 := by
  have hne : buf.samples ≠ [] := by
    intro hnil
    rw [hnil] at hlen
    exact absurd hlen (by decide)
  have hcut : buf.cut.payload = buf.samples := by
    simp only [Relay.IqBuffer.cut, hlen]
    exact List.take_of_length_le hlen.le
  have hvalid : ValidPayload buf.samples := hcut ▸ (Relay.cut_valid e hne).1
  have hsize : 2 ≤ buf.samples.length ∧ buf.samples.length ≤ 131072
      ∧ buf.samples.length % 2 = 0 := by omega
  obtain ⟨s₁, hs₁⟩ : ∃ s₁, s₁ = run (step e) init (attach ++ deliver e buf) := ⟨_, rfl⟩
  obtain ⟨hread, hacc, hstream⟩ := run_delivered e buf hne s₁ hs₁
  obtain ⟨hring, hchunk⟩ := run_digest (e := e) hsize (by rw [hstream]; rfl)
    (by rw [hread, hcut, fed_encodePayload e hvalid])
  obtain ⟨t, ht, -, -, -, hlen', htrace⟩ := Daemon.IqStream.run_oneChunk
    Daemon.IqStream.quiet_connect (p := payload buf.samples hsize)
    (by show buf.samples.length / 2 = _; rw [hlen]; rfl)
  rw [hstream, show _ = t from ht] at hchunk
  rw [hs, run_append, ← hs₁, hring, heard, hchunk, htrace]
  refine ⟨?_, hacc, hlen'⟩
  show ([] ++ ([] ++ Daemon.samples (Daemon.tag 1 0 buf.samples))).filterMap values = _
  rw [List.nil_append, List.nil_append, Daemon.filterMap_samples, Daemon.cellPairs,
    Daemon.map_value_tag]

end IqLink

end AetherGuard
