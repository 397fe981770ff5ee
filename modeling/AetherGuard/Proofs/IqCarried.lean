import AetherGuard.Proofs.IqStream
import AetherGuard.IqLink

/-!
# What the daemon's stream carries

The chunks that the pool accepted, the one it is offered, the staging buffer and the rest of the
frame are pieces of what was received, each of whole I/Q pairs. A step moves cells from one piece to
the next or leaves some out: a frame skipped during a scan, a chunk for which there is no slot. So
the pairs of the pieces are a part of the pairs received, in order (`Carries`), and those that the
filters saw are the first of them (`Carries.heard`).
-/

namespace AetherGuard

open Machine
open scoped List

/-! ### Pairs -/

section Pairs

variable {α β : Type*}

theorem pairs_append : ∀ {l m : List α}, Even l.length → pairs (l ++ m) = pairs l ++ pairs m
  | [], _, _ => rfl
  | [_], _, h => by simp at h
  | i :: q :: l, m, h => by
    have hl : Even l.length := by simpa [Nat.even_add_one] using h
    simp only [List.cons_append, pairs, pairs_append hl]

theorem pairs_flatten {ls : List (List α)} (h : ∀ l ∈ ls, Even l.length) :
    pairs ls.flatten = ls.flatMap pairs := by
  induction ls with
  | nil => rfl
  | cons l ls ih =>
    rw [List.flatten_cons, pairs_append (h l List.mem_cons_self), List.flatMap_cons,
      ih fun m hm => h m (List.mem_cons_of_mem _ hm)]

theorem even_flatten {ls : List (List α)} (h : ∀ l ∈ ls, Even l.length) :
    Even ls.flatten.length := by
  induction ls with
  | nil => exact Even.zero
  | cons l ls ih =>
    rw [List.flatten_cons, List.length_append]
    exact (h l List.mem_cons_self).add (ih fun m hm => h m (List.mem_cons_of_mem _ hm))

end Pairs

namespace Daemon

theorem map_value_tag (conn : ℕ) : ∀ (pos : ℕ) (l : List Int16), (tag conn pos l).map Cell.value = l
  | _, [] => rfl
  | pos, v :: l => by rw [tag, List.map_cons, map_value_tag conn (pos + 1) l]

/-- The I/Q pairs of cells. -/
def cellPairs (cells : List Cell) : List (Int16 × Int16) := pairs (cells.map Cell.value)

/-- The chunk that the feeder has yet to find a slot for. -/
def Pool.offered {α : Type*} (s : Pool α) : List α :=
  match s.feeder with
  | .testInUse chunk => chunk.toList
  | _ => []

theorem filterMap_samples : ∀ l : List Cell,
    (samples l).filterMap IqLink.values = cellPairs l
  | [] => rfl
  | [_] => rfl
  | i :: q :: l => by
    rw [samples, List.filterMap_cons, filterMap_samples l]
    rfl

theorem cellPairs_append {l m : List Cell} (h : Even l.length) :
    cellPairs (l ++ m) = cellPairs l ++ cellPairs m := by
  rw [cellPairs, List.map_append, pairs_append (by rwa [List.length_map])]
  rfl

namespace Pool

variable {α : Type*} {s : Pool α}

/-- A step of the feeder moves the offered chunk to the accepted ones, or drops it, or leaves both
alone. -/
theorem feedIQToPool_offered (s : Pool α) :
    (s.feedIQToPool.accepted = s.accepted ++ [s.offered] ∧ s.feedIQToPool.offered = [])
      ∨ (s.feedIQToPool.accepted = s.accepted ∧ s.feedIQToPool.offered = [])
      ∨ (s.feedIQToPool.accepted = s.accepted ∧ s.feedIQToPool.offered = s.offered) := by
  simp only [feedIQToPool, offered]
  split <;> rename_i hp
  case h_2 chunk =>
    split_ifs
    · exact .inr (.inl ⟨rfl, rfl⟩)
    · exact .inl ⟨by simp only [hp], rfl⟩
  case h_1 => exact .inr (.inr ⟨rfl, by simp only [hp]⟩)
  all_goals exact .inr (.inr ⟨rfl, by simp only [hp]⟩)

end Pool

namespace IqStream

variable {s t : IqStream} {fed p : List Int16}

/-- The cells in the pool and on their way to it, piece by piece. -/
def pieces (s : IqStream) : List (List Cell) :=
  s.pool.accepted ++ [s.pool.offered, s.staging.1, s.rest]

theorem pieces_even_iff : (∀ piece ∈ s.pieces, Even piece.length) ↔
    (∀ chunk ∈ s.pool.accepted, Even chunk.length) ∧ Even s.pool.offered.length
      ∧ Even s.staging.1.length ∧ Even s.rest.length := by
  simp only [pieces, List.mem_append, List.mem_cons, List.not_mem_nil, or_false, or_imp, forall_and,
    forall_eq]

/-- What the stream carries is left of what was received, pair by pair, and the filters saw the
chunks that the pool accepted first. -/
structure Carries (fed : List Int16) (s : IqStream) : Prop where
  pool : s.pool.Inv
  idle : (∀ rest, s.reader ≠ .feeding rest) → s.pool.feeder = .idle
  even : ∀ piece ∈ s.pieces, Even piece.length
  kept : s.pieces.flatMap cellPairs <+ pairs fed
  processed : s.pool.processed <+: s.pool.accepted
  trace : s.pool.trace.filterMap IqLink.values = s.pool.processed.flatMap cellPairs

theorem init_carries : Carries [] init where
  pool := Pool.init_inv _
  idle := fun _ => rfl
  even := pieces_even_iff.2 ⟨nofun, Even.zero, Even.zero, Even.zero⟩
  kept := List.Sublist.slnil
  processed := List.prefix_rfl
  trace := rfl

/-- What a step has to show that leaves the pool alone. -/
theorem Carries.of_pool (h : Carries fed s) {reader : Reader} {conn received : ℕ}
    {staging : Staging} {gScanning : Bool} {fed' : List Int16}
    (hidle : (∀ rest, reader ≠ .feeding rest) → s.pool.feeder = .idle)
    (heven : Even staging.1.length ∧
      Even (rest ⟨reader, conn, received, staging, gScanning, s.pool⟩).length)
    (hkept : (pieces ⟨reader, conn, received, staging, gScanning, s.pool⟩).flatMap cellPairs
      <+ pairs fed') : Carries fed' ⟨reader, conn, received, staging, gScanning, s.pool⟩ where
  pool := h.pool
  idle := hidle
  even := by
    obtain ⟨hacc, hoff, -, -⟩ := pieces_even_iff.1 h.even
    exact pieces_even_iff.2 ⟨hacc, hoff, heven⟩
  kept := hkept
  processed := h.processed
  trace := h.trace

theorem Carries.staging_even (h : Carries fed s) : Even s.staging.1.length :=
  (pieces_even_iff.1 h.even).2.2.1

theorem Carries.rest_even (h : Carries fed s) : Even s.rest.length :=
  (pieces_even_iff.1 h.even).2.2.2

theorem Carries.connect (h : Carries fed s) : Carries fed s.connect := by
  unfold IqStream.connect
  split
  · rename_i hr
    refine h.of_pool (fun _ => h.idle (by simp [hr])) ⟨h.staging_even, Even.zero⟩ ?_
    have hkept := h.kept
    simp only [pieces, rest, hr] at hkept ⊢
    exact hkept
  · exact h

theorem Carries.frame (h : Carries fed s) (hfed : Even fed.length) (hr : s.reader = .receiving)
    (payload : Payload) : Carries (fed ++ payload.data) (s.frame payload) := by
  have hpayload : Even payload.data.length := ⟨payload.numSamples, by rw [payload.size]; omega⟩
  have hkept := h.kept
  simp only [pieces, rest, hr] at hkept
  simp only [IqStream.frame, hr]
  refine h.of_pool (fun _ => h.idle (by simp [hr])) ⟨h.staging_even, ?_⟩ ?_
  · by_cases hscan : s.gScanning = true
    · simp [rest, hscan]
    · simpa [rest, hscan, length_tag] using hpayload
  · rw [pairs_append hfed]
    by_cases hscan : s.gScanning = true
    · refine List.Sublist.trans ?_ (hkept.trans (List.sublist_append_left _ _))
      simp [pieces, rest, hscan]
    · refine List.Sublist.trans ?_ (hkept.append (List.Sublist.refl _))
      simp [pieces, rest, hscan, cellPairs, map_value_tag, pairs]

theorem Carries.endConn (h : Carries fed s) (exit : ReaderExit) : Carries fed (s.endConn exit) := by
  unfold IqStream.endConn
  split
  · rename_i hr
    have hclosed : Carries fed { s with reader := .disconnected } := by
      refine h.of_pool (fun _ => h.idle (by simp [hr])) ⟨h.staging_even, Even.zero⟩ ?_
      have hkept := h.kept
      simp only [pieces, rest, hr] at hkept ⊢
      exact hkept
    split_ifs
    · exact hclosed
    · exact ⟨Pool.raiseGap_inv hclosed.pool, hclosed.idle, hclosed.even, hclosed.kept,
        hclosed.processed, hclosed.trace⟩
  · exact h

theorem Carries.setScanning (h : Carries fed s) (b : Bool) :
    Carries fed { s with gScanning := b } :=
  ⟨h.pool, h.idle, h.even, h.kept, h.processed, h.trace⟩

/-- The loop that fills the staging buffer: a full one goes to the pool. -/
theorem Carries.stage (h : Carries fed s) {rest : List Cell} (hr : s.reader = .feeding rest)
    (hf : s.pool.feeder = .idle) (hfull : ¬ (s.staged rest).length < iqChunkSize * 2) :
    Carries fed { s with
      reader := .feeding (rest.drop (iqChunkSize * 2 - s.staging.1.length))
      staging := ⟨[], by decide⟩
      pool := s.pool.offer ⟨(s.staged rest).toArray, s.staged_length rest hfull⟩ } := by
  have hstaging := h.staging_even
  have hrest := h.rest_even
  have hsize := s.staged_length rest hfull
  have hkept := h.kept
  simp only [List.size_toArray] at hsize
  simp only [IqStream.rest, hr] at hrest
  have hsplit : s.staged rest ++ rest.drop (iqChunkSize * 2 - s.staging.1.length)
      = s.staging.1 ++ rest := by
    rw [staged, List.append_assoc, List.take_append_drop]
  have hchunk : Even (s.staged rest).length := by rw [hsize]; exact ⟨iqChunkSize, by omega⟩
  have hdrop : Even (rest.drop (iqChunkSize * 2 - s.staging.1.length)).length := by
    have hsum := congrArg List.length hsplit
    rw [List.length_append, List.length_append] at hsum
    exact (Nat.even_add.1 (hsum ▸ hstaging.add hrest)).1 hchunk
  have hpool := Pool.offer_inv h.pool ⟨(s.staged rest).toArray, s.staged_length rest hfull⟩
  simp only [Pool.offer, hf] at hpool ⊢
  refine ⟨hpool, fun hno => absurd rfl (hno _), ?_, ?_, h.processed, h.trace⟩
  · exact pieces_even_iff.2 ⟨(pieces_even_iff.1 h.even).1, hchunk, Even.zero, hdrop⟩
  · simp only [pieces, Pool.offered, IqStream.rest, hr, hf, List.flatMap_append, List.flatMap_cons,
      List.flatMap_nil, Vector.toList_mk, List.append_nil] at hkept ⊢
    rw [← cellPairs_append hstaging, ← hsplit, cellPairs_append hchunk] at hkept
    exact hkept

/-- A step of the feeder on the pool keeps every piece but a chunk that it drops. -/
theorem Carries.feed (h : Carries fed s) (hb : s.pool.accepted.length < 2 ^ 31)
    {rest : List Cell} (hr : s.reader = .feeding rest) :
    Carries fed { s with pool := s.pool.feedIQToPool } := by
  have hpool := Pool.feedIQToPool_inv h.pool hb
  obtain ⟨htrace, -, hproc⟩ := Pool.trace_feedIQToPool s.pool
  have hrest : IqStream.rest { s with pool := s.pool.feedIQToPool } = s.rest := rfl
  obtain ⟨hacc, hoff, hstaging, hrestEven⟩ := pieces_even_iff.1 h.even
  have hkept := h.kept
  refine ⟨hpool, fun hno => absurd hr (hno _), pieces_even_iff.2 ?_, ?_, ?_,
    by rw [htrace, hproc, h.trace]⟩
  all_goals rcases Pool.feedIQToPool_offered s.pool with ⟨ha, ho⟩ | ⟨ha, ho⟩ | ⟨ha, ho⟩
  · rw [ha, ho]
    refine ⟨fun chunk hc => ?_, Even.zero, hstaging, hrestEven⟩
    rcases List.mem_append.1 hc with hc | hc
    · exact hacc chunk hc
    · exact (List.mem_singleton.1 hc) ▸ hoff
  · rw [ha, ho]
    exact ⟨hacc, Even.zero, hstaging, hrestEven⟩
  · rw [ha, ho]
    exact ⟨hacc, hoff, hstaging, hrestEven⟩
  · simpa [pieces, hrest, ha, ho, cellPairs, pairs] using hkept
  · refine List.Sublist.trans ?_ hkept
    simp [pieces, hrest, ha, ho, cellPairs, pairs]
  · simpa only [pieces, hrest, ha, ho] using hkept
  · rw [ha, hproc]
    exact h.processed.trans (List.prefix_append _ _)
  · rw [ha, hproc]
    exact h.processed
  · rw [ha, hproc]
    exact h.processed

theorem Carries.feedIQToPool (h : Carries fed s) (hb : s.pool.accepted.length < 2 ^ 31) :
    Carries fed s.feedIQToPool := by
  have hstaging := h.staging_even
  have hrest := h.rest_even
  have hkept := h.kept
  unfold IqStream.feedIQToPool
  split
  · rename_i rest hr
    simp only [IqStream.rest, hr] at hrest
    simp only [pieces, IqStream.rest, hr] at hkept
    split
    · rename_i hf
      split_ifs with hnil hshort
      · subst hnil
        refine h.of_pool (fun _ => hf) ⟨hstaging, Even.zero⟩ ?_
        exact hkept
      · -- Short of a chunk, all of the frame fits into the staging buffer.
        have hall : s.staged rest = s.staging.1 ++ rest := by
          rw [staged, List.take_of_length_le]
          simp only [staged, List.length_append, List.length_take] at hshort
          omega
        refine h.of_pool (fun _ => hf) ⟨?_, Even.zero⟩ ?_
        · show Even (s.staged rest).length
          rw [hall, List.length_append]
          exact hstaging.add hrest
        · simp only [pieces, IqStream.rest, hall, List.flatMap_append, List.flatMap_cons,
            List.flatMap_nil, List.append_nil, cellPairs_append hstaging] at hkept ⊢
          simpa [cellPairs, pairs, Pool.offered, hf] using hkept
      · exact h.stage hr hf hshort
    · exact h.feed hb hr
  · exact h

theorem Carries.demodThread (h : Carries fed s) (hb : s.pool.accepted.length < 2 ^ 31) :
    Carries fed { s with pool := s.pool.demodThread } := by
  have hpool := Pool.demodThread_inv h.pool hb
  have hacc := Pool.accepted_demodThread s.pool
  have hfeeder := Pool.feeder_demodThread s.pool
  have hpieces : pieces { s with pool := s.pool.demodThread } = s.pieces := by
    simp only [pieces, Pool.offered, hacc, hfeeder]
    rfl
  refine ⟨hpool, fun hno => by rw [hfeeder]; exact h.idle hno, hpieces ▸ h.even,
    hpieces ▸ h.kept, ?_, ?_⟩
  all_goals
    rcases Pool.demodThread_cases s.pool with ⟨-, hproc, -, -, htrace⟩
      | ⟨idx, hd, -, -, hproc, htrace⟩ | ⟨hproc, -, htrace, -⟩
  · rw [hacc, hproc]
    exact h.processed
  · rw [hacc, hproc]
    exact Queue.take_le_put h.processed (Pool.process_eq h.pool hd)
  · rw [hacc, hproc]
    exact h.processed
  · rw [htrace, hproc, ← h.trace]
    split_ifs
    · simp [IqLink.values]
    · rfl
  · rw [htrace, hproc, List.filterMap_append, h.trace, filterMap_samples, List.flatMap_append,
      List.flatMap_singleton]
  · rw [htrace, hproc, h.trace]

theorem accepted_le_step (s : IqStream) (a : Act) :
    s.pool.accepted.length ≤ (s.step a).pool.accepted.length := by
  cases a with
  | connect =>
    simp only [step, IqStream.connect]
    split <;> exact le_rfl
  | frame payload =>
    simp only [step, IqStream.frame]
    split <;> exact le_rfl
  | endConn exit =>
    simp only [step, IqStream.endConn]
    split
    · split_ifs <;> exact le_rfl
    · exact le_rfl
  | setScanning b => exact le_rfl
  | reader =>
    simp only [step, IqStream.feedIQToPool]
    split
    · split
      · split_ifs
        · exact le_rfl
        · exact le_rfl
        · exact (congrArg List.length (Pool.accepted_offer _ _)).ge
      · exact Pool.accepted_le_step s.pool .feeder
    · exact le_rfl
  | demod => exact Pool.accepted_le_step s.pool .demod

/-- The pairs that the filters saw are left of those received, in order. -/
theorem Carries.heard (h : Carries fed s) :
    s.pool.trace.filterMap IqLink.values <+ pairs fed := by
  rw [h.trace]
  refine List.Sublist.trans ?_ h.kept
  obtain ⟨waiting, hw⟩ := h.processed
  rw [pieces, ← hw, List.append_assoc, List.flatMap_append]
  exact List.sublist_append_left _ _

end IqStream

end Daemon

end AetherGuard
