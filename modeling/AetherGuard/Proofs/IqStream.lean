import AetherGuard.Proofs.IqPool
import AetherGuard.IqStream

/-!
# Where the filters run on across a break of the stream

A break of the stream is announced by `g_stream_gap`, one flag beside a queue of up to 32 chunks
and a staging buffer that may hold samples from before the break. The filters run on across a break
when the flag is not raised (the exit on a bad count, a frame skipped during a scan), when it is
taken down while samples from before the break are still on their way (in the pool or the staging
buffer, or behind a dropped chunk), and when the demodulator finds the next chunk without looking
at the flag again. In runs where none of this happens (`Gapless`) the samples on their way are one
piece of one connection (`Piece`), it starts where the filters stopped unless the flag is up, and so
any two samples not parted by a reset are neighbours.
-/

namespace AetherGuard

namespace Daemon

open Machine

/-- The cells are those of connection `conn` from place `pos` on. -/
def Piece (conn : ℕ) : ℕ → List Cell → Prop
  | _, [] => True
  | pos, c :: l => c.conn = conn ∧ c.pos = pos ∧ Piece conn (pos + 1) l

theorem piece_append {conn : ℕ} : ∀ {pos : ℕ} {l m : List Cell},
    Piece conn pos (l ++ m) ↔ Piece conn pos l ∧ Piece conn (pos + l.length) m
  | pos, [], m => by simp [Piece]
  | pos, c :: l, m => by
    simp only [List.cons_append, Piece, piece_append (l := l), List.length_cons, and_assoc]
    rw [show pos + (l.length + 1) = pos + 1 + l.length by omega]

theorem piece_tag (conn : ℕ) : ∀ (pos : ℕ) (l : List Int16), Piece conn pos (tag conn pos l)
  | _, [] => trivial
  | pos, _ :: l => ⟨rfl, rfl, piece_tag conn (pos + 1) l⟩

theorem length_tag (conn : ℕ) : ∀ (pos : ℕ) (l : List Int16), (tag conn pos l).length = l.length
  | _, [] => rfl
  | pos, _ :: l => by simp only [tag, List.length_cons, length_tag conn (pos + 1) l]

/-- The first sample of a piece of stream is at its start. -/
theorem head_samples {conn pos : ℕ} {l : List Cell} (h : Piece conn pos l) {e : Event Cell}
    (he : (samples l).head? = some e) : ∃ i q, e = .sample i q ∧ i.conn = conn ∧ i.pos = pos := by
  match l, h, he with
  | i :: q :: l, h, he =>
    simp only [samples, List.head?_cons, Option.some.injEq] at he
    exact ⟨i, q, he.symm, h.1, h.2.1⟩

/-- The last sample of a piece of stream is at its end. -/
theorem last_samples {conn : ℕ} : ∀ (pos : ℕ) {l : List Cell}, Piece conn pos l → Even l.length →
    ∀ {i q : Cell}, (samples l).getLast? = some (.sample i q) →
      i.conn = conn ∧ i.pos + 2 = pos + l.length
  | pos, [], _, _, _, _, he => by simp [samples] at he
  | pos, [_], _, hev, _, _, _ => by simp at hev
  | pos, [i, q], h, _, i', q', he => by
    simp only [samples, List.getLast?_singleton, Option.some.injEq, Event.sample.injEq] at he
    obtain ⟨rfl, rfl⟩ := he
    simp [h.1, h.2.1]
  | pos, [_, _, _], _, hev, _, _, _ => by simp [Nat.even_iff] at hev
  | pos, i :: q :: i' :: q' :: l, h, hev, _, _, he => by
    obtain ⟨-, -, -, -, hrest⟩ := h
    have hev' : Even (i' :: q' :: l).length := by
      simpa [Nat.even_add_one, Nat.not_even_iff_odd] using hev
    have := last_samples (pos + 1 + 1) hrest hev' (by simpa [samples] using he)
    simp only [List.length_cons] at this ⊢
    omega

/-- A piece of stream is seen without a break. -/
theorem isChain_samples {conn : ℕ} : ∀ (pos : ℕ) {l : List Cell}, Piece conn pos l →
    (samples l).IsChain Follows
  | _, [], _ => by simp [samples]
  | _, [_], _ => by simp [samples]
  | _, [_, _], _ => by simp [samples]
  | _, [_, _, _], _ => by simp [samples]
  | pos, i :: q :: i' :: q' :: l, h => by
    obtain ⟨hi, hip, -, -, hrest⟩ := h
    have ih := isChain_samples (pos + 1 + 1) hrest
    simp only [samples] at ih ⊢
    refine List.isChain_cons_cons.2 ⟨⟨hrest.1.trans hi.symm, ?_⟩, ih⟩
    rw [hrest.2.1, hip]

theorem samples_ne_nil {α : Type*} : ∀ {l : List α}, 2 ≤ l.length → samples l ≠ []
  | [], h => by simp at h
  | [_], h => by simp at h
  | _ :: _ :: _, _ => nofun

theorem mem_samples {α : Type*} : ∀ {l : List α} {e : Event α}, e ∈ samples l →
    ∃ i q, e = .sample i q
  | [], _, h => by simp [samples] at h
  | [_], _, h => by simp [samples] at h
  | i :: q :: l, e, h => by
    rcases List.mem_cons.1 h with rfl | h
    · exact ⟨i, q, rfl⟩
    · exact mem_samples h

theorem isChain_append_reset {l : List (Event Cell)} (h : l.IsChain Follows) :
    (l ++ [Event.reset]).IsChain Follows := by
  refine List.isChain_append.2 ⟨h, List.isChain_singleton _, fun x _ y hy => ?_⟩
  simp only [List.head?_cons, Option.mem_def, Option.some.injEq] at hy
  subst hy
  cases x <;> trivial

namespace Pool

variable {α : Type*} {s : Pool α}

/-- The feeder finds its slot in use. -/
def Full (s : Pool α) : Prop :=
  match s.feeder with
  | .testInUse _ => (s.iqPool (slotIndex poolSize s.iqWriteIdx)).inUse = true
  | _ => False

/-- The demodulator finds the next chunk ready. -/
def Finds (s : Pool α) : Prop :=
  match s.demod with
  | .testReady => (s.iqPool (slotIndex poolSize s.iqReadIdx)).ready = true
  | .spin idx (_ + 1) => (s.iqPool idx).ready = true
  | _ => False

/-- The cells on their way through the pool, in order. -/
def queued (s : Pool α) : List α :=
  (s.accepted.drop s.processed.length).flatten ++
    match s.feeder with
    | .testInUse chunk => chunk.toList
    | _ => []

theorem process_eq (h : Inv s) {idx : ℤ} (hd : s.demod = .process idx) :
    s.accepted[s.processed.length]? = some (s.iqPool idx).cells := by
  have hok := h.demodOk
  simp only [DemodOk, hd] at hok
  obtain ⟨rfl, hret, hlt, hproc⟩ := hok
  rw [hproc]
  exact h.stores _ hret.le hlt

theorem processed_le_accepted (h : Inv s) : s.processed.length ≤ s.accepted.length :=
  (processed_le h).trans ((claimed_bounds h).1.trans (claimed_bounds h).2.2)

theorem queued_offer (hf : s.feeder = .idle) (chunk : Chunk α) :
    (s.offer chunk).queued = s.queued ++ chunk.toList := by
  simp [queued, offer, hf]

/-- A step of the feeder that finds its slot free keeps what is on its way. -/
theorem queued_feedIQToPool (h : Inv s) (hfull : ¬ s.Full) (hf : s.feeder ≠ .raiseGap) :
    s.feedIQToPool.queued = s.queued ∧ s.feedIQToPool.gStreamGap = s.gStreamGap
      ∧ s.feedIQToPool.feeder ≠ .raiseGap := by
  unfold Full at hfull
  simp only [feedIQToPool, queued]
  split <;> rename_i hp <;> simp only [hp] at hfull
  case h_2 chunk =>
    rw [if_neg hfull]
    refine ⟨?_, rfl, by simp⟩
    rw [List.drop_append_of_le_length (processed_le_accepted h), hp]
    simp
  case h_3 => exact absurd hp hf
  case h_1 => exact ⟨by simp [hp], rfl, by simp [hp]⟩
  all_goals exact ⟨by simp only [hp], rfl, by simp⟩

theorem trace_feedIQToPool (s : Pool α) : s.feedIQToPool.trace = s.trace
    ∧ s.feedIQToPool.demod = s.demod ∧ s.feedIQToPool.processed = s.processed := by
  simp only [feedIQToPool]
  split
  case h_2 => split_ifs <;> exact ⟨rfl, rfl, rfl⟩
  all_goals exact ⟨rfl, rfl, rfl⟩

theorem feeder_demodThread (s : Pool α) : s.demodThread.feeder = s.feeder := by
  simp only [demodThread]
  split <;> try rfl
  all_goals split_ifs <;> rfl

/-- A step of the demodulator looks at the flag, or processes a chunk, or leaves both alone. -/
theorem demodThread_cases (s : Pool α) :
    (s.demod = .exchangeGap ∧ s.demodThread.processed = s.processed
        ∧ s.demodThread.gStreamGap = false ∧ s.demodThread.demod = .testReady
        ∧ s.demodThread.trace = if s.gStreamGap then s.trace ++ [.reset] else s.trace)
      ∨ (∃ idx, s.demod = .process idx ∧ s.demodThread.gStreamGap = s.gStreamGap
        ∧ s.demodThread.demod = .clearReady idx
        ∧ s.demodThread.processed = s.processed ++ [(s.iqPool idx).cells]
        ∧ s.demodThread.trace = s.trace ++ samples (s.iqPool idx).cells)
      ∨ (s.demodThread.processed = s.processed ∧ s.demodThread.gStreamGap = s.gStreamGap
        ∧ s.demodThread.trace = s.trace
        ∧ ∀ idx, s.demodThread.demod = .process idx → s.Finds) := by
  unfold Finds
  simp only [demodThread]
  split <;> rename_i hd
  · exact .inl ⟨hd, rfl, rfl, rfl, rfl⟩
  · refine .inr (.inr ?_)
    split_ifs with hready
    · exact ⟨rfl, rfl, rfl, fun _ _ => by simpa [hd] using hready⟩
    · exact ⟨rfl, rfl, rfl, by simp⟩
  · exact .inr (.inr ⟨rfl, rfl, rfl, by simp⟩)
  · refine .inr (.inr ?_)
    split_ifs with hready
    · exact ⟨rfl, rfl, rfl, fun _ _ => by simpa [hd] using hready⟩
    · exact ⟨rfl, rfl, rfl, by simp⟩
  · exact .inr (.inl ⟨_, hd, rfl, rfl, rfl, rfl⟩)
  · exact .inr (.inr ⟨rfl, rfl, rfl, by simp⟩)
  · exact .inr (.inr ⟨rfl, rfl, rfl, by simp⟩)
  · exact .inr (.inr ⟨rfl, rfl, rfl, by simp⟩)

end Pool

namespace IqStream

variable {s t : IqStream}

/-- The cells of the frame that are not staged yet. -/
def rest (s : IqStream) : List Cell :=
  match s.reader with
  | .feeding rest => rest
  | _ => []

/-- The cells received and not yet processed, in order. -/
def unprocessed (s : IqStream) : List Cell := s.pool.queued ++ s.staging.1 ++ s.rest

/-- No sample was the last thing the filters saw, unless the flag is up. -/
def Fresh (s : IqStream) : Prop :=
  ∀ i q, s.pool.trace.getLast? = some (.sample i q) → s.pool.gStreamGap = true

/-- The step lets no break of the stream past the flag. A frame is skipped, and a connection ended,
only with every cell received processed; if this does not raise the flag, the filters are fresh. No
chunk is dropped, and the demodulator finds a chunk only with the flag down. -/
def Gapless (s : IqStream) : Act → Prop
  | .frame _ => s.reader = .receiving → s.gScanning = true → s.unprocessed = [] ∧ s.Fresh
  | .endConn exit =>
    s.reader = .receiving → s.unprocessed = [] ∧ (exit = .invalidCount → s.Fresh)
  | .reader => ¬ s.pool.Full
  | .demod => s.pool.Finds → s.pool.gStreamGap = false
  | _ => True

/-- If a sample was the last thing the filters saw, then the flag is up or place `p` of the present
connection comes right after it. -/
def Joins (s : IqStream) (p : ℕ) : Prop :=
  ∀ i q, s.pool.trace.getLast? = some (.sample i q) → s.pool.gStreamGap = true
    ∨ s.reader ≠ .disconnected ∧ i.conn = s.conn ∧ i.pos + 2 = p

structure Inv (s : IqStream) : Prop where
  pool : s.pool.Inv
  size : ∀ c ∈ s.pool.accepted, c.length = iqChunkSize * 2
  noDrop : s.pool.feeder ≠ .raiseGap
  idle : (∀ rest, s.reader ≠ .feeding rest) → s.pool.feeder = .idle
  held : s.pool.gStreamGap = true → ∀ idx, s.pool.demod ≠ .process idx
  drained : s.reader = .disconnected → s.unprocessed = []
  joined : ∃ p, Piece s.conn p s.unprocessed ∧ p + s.unprocessed.length = s.received ∧ s.Joins p
  trace : s.pool.trace.IsChain Follows

theorem init_inv : Inv init where
  pool := Pool.init_inv _
  size := nofun
  noDrop := nofun
  idle := fun _ => rfl
  held := nofun
  drained := fun _ => rfl
  joined := ⟨0, trivial, rfl, nofun⟩
  trace := List.isChain_nil

/-- What a step has to show that leaves the cells on their way and the trace alone. -/
theorem Inv.of_unprocessed (h : Inv s) (hpool : t.pool.Inv)
    (hsize : ∀ c ∈ t.pool.accepted, c.length = iqChunkSize * 2)
    (hdrop : t.pool.feeder ≠ .raiseGap)
    (hidle : (∀ rest, t.reader ≠ .feeding rest) → t.pool.feeder = .idle)
    (hheld : t.pool.gStreamGap = true → ∀ idx, t.pool.demod ≠ .process idx)
    (hgap : t.pool.gStreamGap = s.pool.gStreamGap) (htrace : t.pool.trace = s.pool.trace)
    (hconn : t.conn = s.conn) (hrec : t.received = s.received)
    (hun : t.unprocessed = s.unprocessed)
    (hdis : t.reader = .disconnected ↔ s.reader = .disconnected) : Inv t := by
  obtain ⟨p, hp, hlen, hj⟩ := h.joined
  refine ⟨hpool, hsize, hdrop, hidle, hheld, fun hd => ?_, ⟨p, ?_, ?_, ?_⟩, ?_⟩
  · rw [hun]
    exact h.drained (hdis.1 hd)
  · rw [hun, hconn]
    exact hp
  · rw [hun, hrec]
    exact hlen
  · unfold Joins at hj ⊢
    rw [htrace, hgap, hconn, ne_eq, hdis]
    exact hj
  · rw [htrace]
    exact h.trace

theorem connect_inv (h : Inv s) : Inv s.connect := by
  unfold connect
  split
  · rename_i hr
    obtain ⟨p, -, -, hj⟩ := h.joined
    have hun : unprocessed { s with reader := .receiving, conn := s.conn + 1, received := 0 }
        = [] := by
      have := h.drained hr
      simp only [unprocessed, rest, hr] at this ⊢
      exact this
    refine ⟨h.pool, h.size, h.noDrop, fun _ => h.idle (by simp [hr]), h.held, nofun,
      ⟨0, ?_, ?_, fun i q hl => ?_⟩, h.trace⟩
    · rw [hun]
      trivial
    · rw [hun]
      rfl
    · rcases hj i q hl with hg | ⟨hne, -⟩
      · exact .inl hg
      · exact absurd hr hne
  · exact h

theorem frame_inv (h : Inv s) {payload : Payload} (hg : s.Gapless (.frame payload)) :
    Inv (s.frame payload) := by
  unfold frame
  split
  · rename_i hr
    obtain ⟨p, hp, hlen, hj⟩ := h.joined
    split_ifs with hscan
    · -- the frame is skipped: nothing is on its way, and the filters have nothing to run on from
      obtain ⟨hnil, hfresh⟩ := hg hr hscan
      have hun : unprocessed { s with
          reader := .receiving, received := s.received + payload.data.length } = [] := by
        simp only [unprocessed, rest, hr] at hnil ⊢
        exact hnil
      refine ⟨h.pool, h.size, h.noDrop, fun _ => h.idle (by simp [hr]), h.held, nofun,
        ⟨s.received + payload.data.length, ?_, ?_, fun i q hl => .inl (hfresh i q hl)⟩, h.trace⟩
      · rw [hun]
        trivial
      · rw [hun]
        rfl
    · have hun : unprocessed { s with
          reader := .feeding (tag s.conn s.received payload.data)
          received := s.received + payload.data.length }
            = s.unprocessed ++ tag s.conn s.received payload.data := by
        simp [unprocessed, rest, hr]
      refine ⟨h.pool, h.size, h.noDrop, fun hn => absurd rfl (hn _), h.held, nofun,
        ⟨p, ?_, ?_, fun i q hl => ?_⟩, h.trace⟩
      · rw [hun, piece_append, hlen]
        exact ⟨hp, piece_tag _ _ _⟩
      · rw [hun, List.length_append, length_tag]
        simp only
        omega
      · rcases hj i q hl with hgap | ⟨-, hj⟩
        · exact .inl hgap
        · exact .inr ⟨nofun, hj⟩
  · exact h

/-- The chunk being processed is the first on its way. -/
theorem unprocessed_process {idx : ℤ} (hd : s.pool.demod = .process idx)
    (hget : s.pool.accepted[s.pool.processed.length]? = some (s.pool.iqPool idx).cells) :
    s.unprocessed = (s.pool.iqPool idx).cells
      ++ unprocessed { s with pool := s.pool.demodThread } := by
  obtain ⟨hk, hcells⟩ := List.getElem?_eq_some_iff.1 hget
  simp only [unprocessed, Pool.queued, Pool.demodThread, hd, rest, List.length_append,
    List.length_singleton]
  rw [List.drop_eq_getElem_cons hk, hcells]
  simp

/-- While a chunk is being processed something is on its way. -/
theorem Inv.unprocessed_ne_nil (h : Inv s) {idx : ℤ} (hd : s.pool.demod = .process idx) :
    s.unprocessed ≠ [] := by
  intro hnil
  have hget := Pool.process_eq h.pool hd
  have hlen := h.size _ (List.mem_of_getElem? hget)
  rw [unprocessed_process hd hget] at hnil
  rw [(List.append_eq_nil_iff.1 hnil).1] at hlen
  simp [iqChunkSize] at hlen

theorem endConn_inv (h : Inv s) {exit : ReaderExit} (hg : s.Gapless (.endConn exit)) :
    Inv (s.endConn exit) := by
  unfold endConn
  split
  · rename_i hr
    obtain ⟨hnil, hfresh⟩ := hg hr
    have hidle := h.idle (by simp [hr])
    have hun : unprocessed { s with reader := .disconnected } = [] := by
      simp only [unprocessed, rest, hr] at hnil ⊢
      exact hnil
    have hheld : ∀ idx, s.pool.demod ≠ .process idx := fun idx hd => h.unprocessed_ne_nil hd hnil
    split_ifs with hexit
    · refine ⟨h.pool, h.size, h.noDrop, fun _ => hidle, h.held, fun _ => hun,
        ⟨s.received, ?_, ?_, fun i q hl => .inl (hfresh hexit i q hl)⟩, h.trace⟩
      · rw [hun]
        trivial
      · rw [hun]
        rfl
    · have hun' : unprocessed { s with reader := .disconnected, pool := s.pool.raiseGap } = [] :=
        hun
      refine ⟨Pool.raiseGap_inv h.pool, h.size, h.noDrop, fun _ => hidle, fun _ => hheld,
        fun _ => hun', ⟨s.received, ?_, ?_, fun _ _ _ => .inl rfl⟩, h.trace⟩
      · rw [hun']
        trivial
      · rw [hun']
        rfl
  · exact h

theorem feedIQToPool_inv (h : Inv s) (hb : s.pool.accepted.length < 2 ^ 31)
    (hg : ¬ s.pool.Full) : Inv s.feedIQToPool := by
  unfold feedIQToPool
  split
  · rename_i rest hr
    have hnd : s.reader ≠ .disconnected := by simp [hr]
    split
    · rename_i hf
      split_ifs with hrest hshort
      · refine h.of_unprocessed h.pool h.size h.noDrop (fun _ => hf) h.held rfl rfl rfl rfl ?_ ?_
        · simp [unprocessed, IqStream.rest, hr, hrest]
        · simp [hnd]
      · -- the whole frame fits: the buffer is left short, and the next frame adds to it
        have htake : rest.take (iqChunkSize * 2 - s.staging.1.length) = rest := by
          refine List.take_of_length_le ?_
          simp only [staged, List.length_append, List.length_take] at hshort
          omega
        refine h.of_unprocessed h.pool h.size h.noDrop (fun _ => hf) h.held rfl rfl rfl rfl ?_ ?_
        · simp [unprocessed, IqStream.rest, hr, staged, htake]
        · simp [hnd]
      · refine h.of_unprocessed (Pool.offer_inv h.pool _) ?_ ?_ (fun hn => absurd rfl (hn _)) ?_
          ?_ ?_ rfl rfl ?_ ?_
        · rw [Pool.accepted_offer]
          exact h.size
        · simp [Pool.offer, hf]
        · simpa [Pool.offer, hf] using h.held
        · simp [Pool.offer, hf]
        · simp [Pool.offer, hf]
        · simp [unprocessed, Pool.queued_offer hf, IqStream.rest, hr, staged]
        · simp [hnd]
    · obtain ⟨hq, hgap, hdrop⟩ := Pool.queued_feedIQToPool h.pool hg h.noDrop
      obtain ⟨htrace, hdemod, -⟩ := Pool.trace_feedIQToPool s.pool
      refine h.of_unprocessed (Pool.feedIQToPool_inv h.pool hb) ?_ hdrop
        (fun hn => absurd hr (hn _)) ?_ hgap htrace rfl rfl ?_ Iff.rfl
      · rcases Pool.accepted_feedIQToPool s.pool with hacc | ⟨chunk, -, hacc⟩
        · rw [hacc]
          exact h.size
        · rw [hacc]
          intro c hc
          rcases List.mem_append.1 hc with hc | hc
          · exact h.size c hc
          · rw [List.mem_singleton.1 hc, Vector.length_toList]
      · rw [hgap, hdemod]
        exact h.held
      · simp only [unprocessed, hq, IqStream.rest]
  · exact h

theorem demodThread_inv (h : Inv s) (hb : s.pool.accepted.length < 2 ^ 31)
    (hg : s.pool.Finds → s.pool.gStreamGap = false) :
    Inv { s with pool := s.pool.demodThread } := by
  have hpool := Pool.demodThread_inv h.pool hb
  have hacc := Pool.accepted_demodThread s.pool
  have hfeed := Pool.feeder_demodThread s.pool
  have hsize : ∀ c ∈ s.pool.demodThread.accepted, c.length = iqChunkSize * 2 := by
    rw [hacc]
    exact h.size
  have hdrop : s.pool.demodThread.feeder ≠ .raiseGap := by
    rw [hfeed]
    exact h.noDrop
  have hidle : (∀ rest, s.reader ≠ .feeding rest) → s.pool.demodThread.feeder = .idle := by
    rw [hfeed]
    exact h.idle
  rcases Pool.demodThread_cases s.pool with ⟨hd, hproc, hgap, hd', htr⟩
    | ⟨idx, hd, hgap, hd', hproc, htr⟩ | ⟨hproc, hgap, htr, hfind⟩
  · have hun : unprocessed { s with pool := s.pool.demodThread } = s.unprocessed := by
      simp only [unprocessed, Pool.queued, hacc, hproc, hfeed, rest]
    obtain ⟨p, hp, hlen, hj⟩ := h.joined
    refine ⟨hpool, hsize, hdrop, hidle, fun hg' => ?_, fun hr => hun.trans (h.drained hr),
      ⟨p, hun ▸ hp, hun ▸ hlen, fun i q hl => ?_⟩, ?_⟩
    · exact absurd (hgap.symm.trans hg') nofun
    · simp only [htr] at hl
      split_ifs at hl with hflag
      · simp at hl
      · rcases hj i q hl with hup | hj
        · exact absurd hup hflag
        · exact .inr hj
    · simp only [htr]
      split_ifs
      · exact isChain_append_reset h.trace
      · exact h.trace
  · -- the next chunk starts the piece on its way, and the piece starts where the filters stopped
    obtain ⟨p, hp, hlen, hj⟩ := h.joined
    have hget := Pool.process_eq h.pool hd
    have hun := unprocessed_process hd hget
    have hcells := h.size _ (List.mem_of_getElem? hget)
    have hflag : s.pool.gStreamGap = false := by
      by_contra hup
      exact h.held (by simpa using hup) idx hd
    rw [hun, piece_append] at hp
    have hconn : s.reader ≠ .disconnected := fun hr => h.unprocessed_ne_nil hd (h.drained hr)
    refine ⟨hpool, hsize, hdrop, hidle, fun hg' => ?_, fun hr => absurd hr hconn,
      ⟨p + iqChunkSize * 2, ?_, ?_, fun i q hl => ?_⟩, ?_⟩
    · exact absurd (hgap.symm.trans hg') (by rw [hflag]; nofun)
    · rw [← hcells]
      exact hp.2
    · rw [hun, List.length_append, hcells] at hlen
      simp only
      omega
    · have hne := samples_ne_nil (l := (s.pool.iqPool idx).cells) (by rw [hcells]; decide)
      simp only [htr, List.getLast?_append, List.getLast?_eq_some_getLast hne,
        Option.some_or] at hl
      have hlast := last_samples p hp.1 (by rw [hcells]; decide)
        ((List.getLast?_eq_some_getLast hne).trans hl)
      rw [hcells] at hlast
      exact .inr ⟨hconn, hlast⟩
    · simp only [htr]
      refine List.isChain_append.2 ⟨h.trace, isChain_samples p hp.1, fun x hx y hy => ?_⟩
      obtain ⟨i', q', rfl, hc', hp'⟩ := head_samples hp.1 hy
      cases x with
      | reset => trivial
      | sample i q =>
        rcases hj i q hx with hup | ⟨-, hc, hpos⟩
        · exact absurd (hflag.symm.trans hup) nofun
        · exact ⟨hc'.trans hc.symm, hp'.trans hpos.symm⟩
  · refine h.of_unprocessed hpool hsize hdrop hidle (fun hg' idx hd => ?_) hgap htr rfl rfl ?_
      Iff.rfl
    · simp only at hg' hd
      rw [hgap, hg (hfind idx hd)] at hg'
      cases hg'
    · simp only [unprocessed, Pool.queued, hacc, hproc, hfeed, rest]

theorem step_inv (a : Act) (hb : s.pool.accepted.length < 2 ^ 31) (hg : s.Gapless a)
    (h : Inv s) : Inv (s.step a) := by
  cases a with
  | connect => exact connect_inv h
  | frame payload => exact frame_inv h hg
  | endConn exit => exact endConn_inv h hg
  | setScanning b =>
    exact h.of_unprocessed h.pool h.size h.noDrop h.idle h.held rfl rfl rfl rfl rfl Iff.rfl
  | reader => exact feedIQToPool_inv h hb hg
  | demod => exact demodThread_inv h hb hg

end IqStream

open IqStream in
/-- In a run with fewer than `2 ^ 31` accepted chunks whose steps let no break of the stream past
the flag, any two samples the filters saw one after the other without a reset came one after the
other on one connection. -/
theorem filters_continuous_of_gapless (as : List Act)
    (h : Meets step (fun s a => s.pool.accepted.length < 2 ^ 31 ∧ s.Gapless a) init as) :
    (run step init as).pool.trace.IsChain Follows :=
  (run_inv_of_meets (I := IqStream.Inv) (fun _ a hg => IqStream.step_inv a hg.1 hg.2) as _ h
    IqStream.init_inv).trace

namespace IqStream

variable {s : IqStream}

/-- All quiet: the buffer empty, the pool free, both threads at the top of their loops. -/
structure Quiet (s : IqStream) : Prop where
  reader : s.reader = .receiving
  scanning : s.gScanning = false
  staging : s.staging.1 = []
  feeder : s.pool.feeder = .idle
  demod : s.pool.demod = .exchangeGap
  indices : s.pool.iqReadIdx = s.pool.iqWriteIdx
  free : ∀ i, (s.pool.iqPool i).inUse = false ∧ (s.pool.iqPool i).ready = false
  processed : s.pool.processed.length = s.pool.accepted.length

theorem Quiet.unprocessed (h : Quiet s) : s.unprocessed = [] := by
  simp [IqStream.unprocessed, Pool.queued, rest, h.reader, h.feeder, h.staging, h.processed]

/-- A frame of exactly one chunk, through the pool and the filters. -/
def oneChunk (p : Payload) : List Act :=
  .frame p :: List.replicate 8 .reader ++ List.replicate 6 .demod

theorem frame_offers (h : Quiet s) {p : Payload} (hp : p.numSamples = iqChunkSize) :
    ∃ chunk : Chunk Cell, chunk.toList = tag s.conn s.received p.data
      ∧ run step s [.frame p, .reader] = { s with
        reader := .feeding []
        received := s.received + p.data.length
        pool := { s.pool with feeder := .testInUse chunk } } := by
  have hlen : (tag s.conn s.received p.data).length = iqChunkSize * 2 := by
    rw [length_tag, p.size, hp]
  have hstaging : s.staging = ⟨[], by decide⟩ := Subtype.ext h.staging
  have hne : tag s.conn s.received p.data ≠ [] := by
    intro h0
    rw [h0] at hlen
    simp [iqChunkSize] at hlen
  have htake : (tag s.conn s.received p.data).take (iqChunkSize * 2)
      = tag s.conn s.received p.data := List.take_of_length_le hlen.le
  have hdrop : (tag s.conn s.received p.data).drop (iqChunkSize * 2) = [] :=
    List.drop_eq_nil_of_le hlen.le
  refine ⟨⟨(tag s.conn s.received p.data).toArray, by simpa using hlen⟩, by simp, ?_⟩
  simp [run, step, frame, feedIQToPool, h.reader, h.scanning, h.feeder, hstaging, staged, hne,
    htake, hdrop, hlen, Pool.offer]

/-- What the filters see of a chunk found quiet: a reset if the flag is up, and its samples. -/
def heard (s : IqStream) (p : Payload) : List (Event Cell) :=
  (if s.pool.gStreamGap then [.reset] else []) ++ samples (tag s.conn s.received p.data)

/-- One chunk through the quiet pool leaves all quiet and the flag down. -/
theorem run_oneChunk (h : Quiet s) {p : Payload} (hp : p.numSamples = iqChunkSize) :
    ∃ t, run step s (oneChunk p) = t ∧ Quiet t ∧ t.conn = s.conn ∧ t.pool.gStreamGap = false
      ∧ t.pool.accepted.length = s.pool.accepted.length + 1
      ∧ t.pool.trace = s.pool.trace ++ heard s p := by
  obtain ⟨chunk, hchunk, hframe⟩ := frame_offers h hp
  have hacts : oneChunk p = [.frame p, .reader] ++ List.replicate 7 .reader
      ++ List.replicate 6 .demod := rfl
  have hu := (h.free (slotIndex poolSize s.pool.iqWriteIdx)).1
  have hcells : IqSlot.cells ⟨chunk, iqChunkSize, true, true⟩ = chunk.toList :=
    List.take_of_length_le (by simp [Nat.mul_comm])
  refine ⟨_, rfl, ?_⟩
  rw [hacts, run_append, run_append, hframe, heard, ← hchunk, ← hcells]
  simp only [run, step, feedIQToPool, Pool.feedIQToPool, Pool.demodThread, List.replicate,
    List.foldl, hu, h.demod, h.indices, modifySlot_modifySlot, modifySlot_self,
    Bool.false_eq_true, if_false, if_true, List.length_append, List.length_singleton]
  refine ⟨⟨rfl, h.scanning, h.staging, rfl, rfl, rfl, fun i => ?_, ?_⟩, trivial, trivial, trivial,
    ?_⟩
  · rcases eq_or_ne i (slotIndex poolSize s.pool.iqWriteIdx) with rfl | hi
    · simp
    · simp only [modifySlot_ne _ _ hi]
      exact h.free i
  · simp [h.processed]
  · split_ifs <;> simp

theorem meets_oneChunk (h : Quiet s) {p : Payload} (hp : p.numSamples = iqChunkSize)
    (hb : s.pool.accepted.length + 1 < 2 ^ 31) :
    Meets step (fun s a => s.pool.accepted.length < 2 ^ 31 ∧ s.Gapless a) s (oneChunk p) := by
  obtain ⟨chunk, hchunk, hframe⟩ := frame_offers h hp
  have hu := (h.free (slotIndex poolSize s.pool.iqWriteIdx)).1
  have hb' : s.pool.accepted.length < 2 ^ 31 := by omega
  have hlen : (s.pool.accepted ++ [chunk.toList]).length < 2 ^ 31 := by simpa using hb
  have hacts : oneChunk p = [.frame p, .reader] ++ (List.replicate 7 .reader
      ++ List.replicate 6 .demod) := rfl
  rw [hacts]
  refine Meets.append ⟨⟨hb', fun _ hs => absurd (h.scanning.symm.trans hs) nofun⟩, ⟨?_, ?_⟩,
    trivial⟩ ?_
  · simp only [step, frame, h.reader]
    exact hb'
  · simp [step, frame, h.reader, Gapless, Pool.Full, h.feeder]
  · rw [hframe]
    simp only [Meets, step, feedIQToPool, Pool.feedIQToPool, Pool.demodThread, List.replicate,
      List.cons_append, List.nil_append, Gapless, Pool.Full, Pool.Finds, hu, h.demod,
      h.indices, modifySlot_modifySlot, modifySlot_self, Bool.false_eq_true, if_false, if_true,
      hb', hlen, not_false_eq_true, false_implies, and_true,
      implies_true]

theorem quiet_connect : Quiet (run step init [.connect]) :=
  ⟨rfl, rfl, rfl, rfl, rfl, rfl, fun _ => ⟨rfl, rfl⟩, rfl⟩

/-- The end of a connection and the next one leave all as quiet as before; but for the exit on a
bad count, the flag is up. -/
theorem quiet_reconnect (h : Quiet s) (exit : ReaderExit) :
    ∃ t, run step s [.endConn exit, .connect] = t ∧ Quiet t ∧ t.conn = s.conn + 1
      ∧ t.received = 0 ∧ t.pool = if exit = .invalidCount then s.pool else s.pool.raiseGap := by
  refine ⟨_, rfl, ?_⟩
  simp only [run, List.foldl, step, endConn, connect, h.reader]
  refine ⟨?_, trivial, trivial, trivial⟩
  split_ifs <;>
    exact ⟨rfl, h.scanning, h.staging, h.feeder, h.demod, h.indices, h.free, h.processed⟩

end IqStream

/-- Samples of two connections one after the other are a break. -/
theorem not_isChain_of_conn_ne {c c' p p' : ℕ} {l m : List Cell} (hl : Piece c p l)
    (hm : Piece c' p' m) (hev : Even l.length) (h2 : 2 ≤ l.length) (h2' : 2 ≤ m.length)
    (hne : c' ≠ c) : ¬ (samples l ++ samples m).IsChain Follows := by
  intro h
  have hjoin := (List.isChain_append.1 h).2.2
  have hl' := List.getLast?_eq_some_getLast (samples_ne_nil h2)
  have hm' := List.head?_eq_some_head (samples_ne_nil h2')
  obtain ⟨i', q', he', hc', -⟩ := head_samples hm hm'
  have hf := hjoin _ hl' _ hm'
  obtain ⟨i, q, he⟩ := mem_samples (List.getLast_mem (samples_ne_nil h2))
  rw [he] at hl'
  rw [he, he'] at hf
  exact hne (hc'.symm.trans (hf.1.trans (last_samples p hl hev hl').1))

/-- A chunk's worth of zeros. -/
def silence : Payload :=
  ⟨iqChunkSize, by decide, by decide, List.replicate (iqChunkSize * 2) 0, List.length_replicate⟩

open IqStream in
/-- A chunk on one connection, a frame with a bad count, and a chunk on the next connection: the
filters go from the one to the other without a reset. -/
theorem filters_run_on_after_bad_count :
    ¬ (run step init ([.connect] ++ oneChunk silence ++ [.endConn .invalidCount, .connect]
      ++ oneChunk silence)).pool.trace.IsChain Follows := by
  obtain ⟨t, ht, htq, htc, htg, -, htt⟩ := run_oneChunk quiet_connect (p := silence) rfl
  obtain ⟨u, hu, huq, huc, -, hpool⟩ := quiet_reconnect htq .invalidCount
  obtain ⟨v, hv, -, -, -, -, hvt⟩ := run_oneChunk huq (p := silence) rfl
  rw [if_pos rfl] at hpool
  rw [run_append, run_append, run_append, ht, hu, hv, hvt, hpool, htt, heard, heard, hpool, htg,
    huc, htc]
  have hlen : ∀ c r, (tag c r silence.data).length = iqChunkSize * 2 := fun c r => by
    rw [length_tag, silence.size]
    rfl
  refine not_isChain_of_conn_ne (piece_tag _ _ _) (piece_tag _ _ _) ?_ ?_ ?_ (Nat.succ_ne_self _)
  · rw [hlen]
    decide
  · rw [hlen]
    decide
  · rw [hlen]
    decide

open IqStream in
/-- A chunk on one connection, a disconnect, and a chunk on the next connection. -/
theorem filters_continuous_of_gapless_reconnect :
    (run step init ([.connect] ++ oneChunk silence ++ [.endConn .headerRead, .connect]
        ++ oneChunk silence)).pool.trace
          = samples (tag 1 0 silence.data) ++ .reset :: samples (tag 2 0 silence.data)
      ∧ (run step init ([.connect] ++ oneChunk silence ++ [.endConn .headerRead, .connect]
        ++ oneChunk silence)).pool.trace.IsChain Follows := by
  obtain ⟨t, ht, htq, htc, htg, hta, htt⟩ := run_oneChunk quiet_connect (p := silence) rfl
  obtain ⟨u, hu, huq, huc, hur, hpool⟩ := quiet_reconnect htq .headerRead
  obtain ⟨v, hv, -, -, -, -, hvt⟩ := run_oneChunk huq (p := silence) rfl
  rw [if_neg (by decide)] at hpool
  have hta' : t.pool.accepted.length = 1 := hta
  refine ⟨?_, filters_continuous_of_gapless _ (Meets.append (Meets.append (Meets.append
    ⟨⟨by decide, trivial⟩, trivial⟩ (meets_oneChunk quiet_connect rfl (by decide))) ?_) ?_)⟩
  · rw [run_append, run_append, run_append, ht, hu, hv, hvt, heard, hpool, Pool.raiseGap, htt, huc,
      hur, htc]
    rfl
  · rw [run_append, ht]
    have hacc : (t.step (.endConn .headerRead)).pool.accepted = t.pool.accepted := by
      simp [step, endConn, htq.reader, Pool.raiseGap]
    refine ⟨⟨by omega, fun _ => ⟨htq.unprocessed, nofun⟩⟩, ⟨?_, trivial⟩, trivial⟩
    rw [hacc]
    omega
  · rw [run_append, run_append, ht, hu]
    refine meets_oneChunk huq rfl ?_
    rw [hpool]
    simp only [Pool.raiseGap]
    omega

end Daemon

end AetherGuard
