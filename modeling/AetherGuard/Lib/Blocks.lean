import Mathlib.Tactic

/-!
# Cutting a list into blocks

A list is cut into consecutive blocks of `n`, and a remainder shorter than `n`. There is one way to
do so: blocks of `n` and a short rest that together make up the list are its blocks and its
remainder (`Cut.eq_blocks`), however the list came in.
-/

namespace AetherGuard

namespace Blocks

variable {β : Type*} {n : ℕ} {l x b rest : List β} {done : List (List β)}

/-- The full blocks of `n`. -/
def blocks (n : ℕ) (l : List β) : List (List β) :=
  (List.range (l.length / n)).map fun k => (l.drop (n * k)).take n

/-- What follows the last full block. -/
def remainder (n : ℕ) (l : List β) : List β := l.drop (n * (l.length / n))

/-- `done` and then `rest` make up `l`, the first in blocks of `n`. -/
structure Cut (n : ℕ) (l : List β) (done : List (List β)) (rest : List β) : Prop where
  flatten : done.flatten ++ rest = l
  full : ∀ b ∈ done, b.length = n
  short : rest.length < n

theorem Cut.nil (hn : 0 < n) : Cut n ([] : List β) [] [] := ⟨rfl, by simp, hn⟩

theorem Cut.extend (h : Cut n l done rest) (hx : (rest ++ x).length < n) :
    Cut n (l ++ x) done (rest ++ x) :=
  ⟨by rw [← h.flatten, List.append_assoc], h.full, hx⟩

theorem Cut.complete (h : Cut n l done rest) (hx : (rest ++ x).length = n) :
    Cut n (l ++ x) (done ++ [rest ++ x]) [] := by
  refine ⟨by simp [← h.flatten], fun b hb => ?_, Nat.zero_lt_of_lt h.short⟩
  rcases List.mem_append.1 hb with hb | hb
  · exact h.full b hb
  · rwa [List.mem_singleton.1 hb]

theorem length_append_div (hn : 0 < n) (hb : b.length = n) :
    (b ++ l).length / n = l.length / n + 1 := by
  rw [List.length_append, hb, Nat.add_div_left _ hn]

theorem blocks_append (hn : 0 < n) (hb : b.length = n) : blocks n (b ++ l) = b :: blocks n l := by
  have hrest : ∀ k, ((b ++ l).drop (n * (k + 1))).take n = (l.drop (n * k)).take n := by
    intro k
    rw [Nat.mul_succ, Nat.add_comm, ← hb, ← List.drop_drop, List.drop_left]
  rw [blocks, length_append_div hn hb, List.range_succ_eq_map, List.map_cons, List.map_map]
  congr 1
  · rw [Nat.mul_zero, List.drop_zero, ← hb, List.take_left]
  · exact List.map_congr_left fun k _ => hrest k

theorem remainder_append (hn : 0 < n) (hb : b.length = n) :
    remainder n (b ++ l) = remainder n l := by
  rw [remainder, length_append_div hn hb, Nat.mul_succ, Nat.add_comm, ← List.drop_drop, ← hb,
    List.drop_left, hb]
  rfl

theorem Cut.eq_blocks (h : Cut n l done rest) : done = blocks n l ∧ rest = remainder n l := by
  have hn : 0 < n := Nat.zero_lt_of_lt h.short
  induction done generalizing l with
  | nil =>
    obtain rfl : rest = l := h.flatten
    simp [blocks, remainder, Nat.div_eq_of_lt h.short]
  | cons b done ih =>
    have hb : b.length = n := h.full b List.mem_cons_self
    have htail : Cut n (done.flatten ++ rest) done rest :=
      ⟨rfl, fun c hc => h.full c (List.mem_cons_of_mem _ hc), h.short⟩
    obtain ⟨hdone, hrest⟩ := ih htail
    have hl : l = b ++ (done.flatten ++ rest) := by
      rw [← h.flatten, List.flatten_cons, List.append_assoc]
    rw [hl, blocks_append hn hb, remainder_append hn hb, ← hdone]
    exact ⟨rfl, hrest⟩

/-- The cells of block `k`. -/
theorem getElem?_blocks {k i : ℕ} (hk : (blocks n l)[k]? = some b) (hi : i < n) :
    b[i]? = l[n * k + i]? := by
  simp only [blocks, List.getElem?_map, Option.map_eq_some_iff] at hk
  obtain ⟨j, hj, rfl⟩ := hk
  obtain rfl : k = j := by simpa using (List.getElem?_eq_some_iff.1 hj).2
  rw [List.getElem?_take_of_lt hi, List.getElem?_drop]

end Blocks

end AetherGuard
