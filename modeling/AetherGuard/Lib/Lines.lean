import Mathlib.Tactic

/-!
# Lines of a stream

A stream is cut at a separator into the segments that end with one (`terminated`) and what follows
the last (`tail`). When more of the stream comes in, the lines it adds are those of the tail with
the new part behind it (`terminated_append`), so a reader need only keep the tail.
-/

namespace AetherGuard

namespace Lines

variable {α : Type*} [DecidableEq α] {sep : α} {l r : List α}

/-- The segments that end with a separator, without it. -/
def terminated (sep : α) (l : List α) : List (List α) := (l.splitOn sep).dropLast

/-- What follows the last separator. -/
def tail (sep : α) (l : List α) : List α := (l.splitOn sep).getLast (List.splitOn_ne_nil sep l)

theorem splitOn_of_notMem (h : sep ∉ l) : l.splitOn sep = [l] :=
  List.splitOnP_eq_singleton fun x hx => by
    simpa using fun he : x = sep => h (he ▸ hx)

theorem splitOn_append_cons (h : sep ∉ l) : (l ++ sep :: r).splitOn sep = l :: r.splitOn sep := by
  refine List.splitOnP_append_cons_of_forall_mem (p := (· == sep)) (fun x hx => ?_) sep
    (beq_self_eq_true sep) r
  simpa using fun he : x = sep => h (he ▸ hx)

theorem terminated_of_notMem (h : sep ∉ l) : terminated sep l = [] := by
  rw [terminated, splitOn_of_notMem h]
  rfl

theorem tail_of_notMem (h : sep ∉ l) : tail sep l = l := by
  simp only [tail, splitOn_of_notMem h, List.getLast_singleton]

theorem terminated_append_cons (h : sep ∉ l) :
    terminated sep (l ++ sep :: r) = l :: terminated sep r := by
  rw [terminated, splitOn_append_cons h, List.dropLast_cons_of_ne_nil (List.splitOn_ne_nil sep r)]
  rfl

theorem tail_append_cons (h : sep ∉ l) : tail sep (l ++ sep :: r) = tail sep r := by
  simp only [tail, splitOn_append_cons h, List.getLast_cons (List.splitOn_ne_nil sep r)]

/-- Over a stream, line by line. -/
theorem induction (sep : α) {motive : List α → Prop} (notMem : ∀ l, sep ∉ l → motive l)
    (line : ∀ l r, sep ∉ l → motive r → motive (l ++ sep :: r)) (l : List α) : motive l := by
  induction hn : l.length using Nat.strong_induction_on generalizing l with
  | _ n ih =>
    by_cases h : sep ∈ l
    · obtain ⟨s, r, rfl, hs⟩ := List.eq_append_cons_of_mem h
      refine line s r hs (ih r.length ?_ r rfl)
      rw [← hn, List.length_append, List.length_cons]
      omega
    · exact notMem l h

theorem terminated_append (l r : List α) :
    terminated sep (l ++ r) = terminated sep l ++ terminated sep (tail sep l ++ r) := by
  induction l using Lines.induction sep with
  | notMem l h => rw [terminated_of_notMem h, tail_of_notMem h, List.nil_append]
  | line s l h ih =>
    rw [List.append_assoc, List.cons_append, terminated_append_cons h, terminated_append_cons h,
      tail_append_cons h, ih, List.cons_append]

theorem tail_append (l r : List α) : tail sep (l ++ r) = tail sep (tail sep l ++ r) := by
  induction l using Lines.induction sep with
  | notMem l h => rw [tail_of_notMem h]
  | line s l h ih =>
    rw [List.append_assoc, List.cons_append, tail_append_cons h, tail_append_cons h, ih]

theorem terminated_flatMap {ls : List (List α)} (h : ∀ l ∈ ls, sep ∉ l) :
    terminated sep (ls.flatMap fun l => l ++ [sep]) = ls := by
  induction ls with
  | nil => exact terminated_of_notMem List.not_mem_nil
  | cons l ls ih =>
    rw [List.flatMap_cons, List.append_assoc, List.singleton_append,
      terminated_append_cons (h l List.mem_cons_self),
      ih fun x hx => h x (List.mem_cons_of_mem _ hx)]

theorem tail_flatMap {ls : List (List α)} (h : ∀ l ∈ ls, sep ∉ l) :
    tail sep (ls.flatMap fun l => l ++ [sep]) = [] := by
  induction ls with
  | nil => exact tail_of_notMem List.not_mem_nil
  | cons l ls ih =>
    rw [List.flatMap_cons, List.append_assoc, List.singleton_append,
      tail_append_cons (h l List.mem_cons_self), ih fun x hx => h x (List.mem_cons_of_mem _ hx)]

end Lines

end AetherGuard
