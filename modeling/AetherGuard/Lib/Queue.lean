import AetherGuard.Lib.Machine

/-!
# A bounded queue

What a ring of `N` slots is for: items are put in, taken out in the order they were put in, and a
taken item's place is given back. `Queue` keeps the whole history, so that nothing is lost, taken
twice or reordered exactly when what was taken starts what was put in (`Fifo`). A machine whose
steps are queue steps, read through an abstraction, is such a queue along every run.
-/

namespace AetherGuard

/-- The items put in and taken out so far, and how many places were given back. -/
structure Queue (β : Type*) where
  put : List β
  taken : List β
  released : ℕ

namespace Queue

variable {β : Type*} {N : ℕ} {q q' : Queue β}

/-- One step of a queue with `N` places. -/
inductive Step (N : ℕ) : Queue β → Queue β → Prop
  | stay (q : Queue β) : Step N q q
  | put (q : Queue β) (x : β) (h : q.put.length < q.released + N) :
    Step N q { q with put := q.put ++ [x] }
  | take (q : Queue β) (x : β) (h : q.put[q.taken.length]? = some x) :
    Step N q { q with taken := q.taken ++ [x] }
  | release (q : Queue β) (h : q.released < q.taken.length) :
    Step N q { q with released := q.released + 1 }

/-- What was taken starts what was put in, and at most `N` items hold a place. -/
structure Fifo (N : ℕ) (q : Queue β) : Prop where
  taken_le_put : q.taken <+: q.put
  released_le : q.released ≤ q.taken.length
  room : q.put.length ≤ q.released + N

theorem Fifo.empty (N : ℕ) : Fifo N (⟨[], [], 0⟩ : Queue β) := ⟨List.nil_prefix, le_rfl, by simp⟩

theorem take_le_put {l m : List β} {x : β} (h : l <+: m) (hx : m[l.length]? = some x) :
    l ++ [x] <+: m := by
  obtain ⟨t, rfl⟩ := h
  rw [List.getElem?_append_right le_rfl, Nat.sub_self] at hx
  rcases t with _ | ⟨y, t⟩
  · simp at hx
  · simp only [List.getElem?_cons_zero, Option.some.injEq] at hx
    subst hx
    exact ⟨t, by simp⟩

theorem Step.taken_le (h : Step N q q') : q.taken <+: q'.taken := by
  cases h with
  | take => exact List.prefix_append _ _
  | _ => exact List.prefix_rfl

theorem Step.fifo (h : Step N q q') (hq : Fifo N q) : Fifo N q' := by
  obtain ⟨hpre, hrel, hroom⟩ := hq
  cases h with
  | stay => exact ⟨hpre, hrel, hroom⟩
  | put x hlt =>
    refine ⟨hpre.trans (List.prefix_append _ _), hrel, ?_⟩
    simp only [List.length_append, List.length_singleton]
    omega
  | take x hx =>
    refine ⟨take_le_put hpre hx, ?_, hroom⟩
    simp only [List.length_append, List.length_singleton]
    omega
  | release hlt =>
    refine ⟨hpre, hlt, ?_⟩
    simp only
    omega

/-- The items put in are those taken out, in order, and those still waiting, at most `N`. -/
theorem Fifo.split (h : Fifo N q) : ∃ waiting, q.put = q.taken ++ waiting ∧ waiting.length ≤ N := by
  obtain ⟨t, ht⟩ := h.taken_le_put
  refine ⟨t, ht.symm, ?_⟩
  have hlen := congrArg List.length ht
  rw [List.length_append] at hlen
  have := h.room
  have := h.released_le
  omega

end Queue

end AetherGuard
