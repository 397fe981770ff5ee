import Mathlib.Tactic

/-!
# A list of threads

The threads of one kind, or the clients of one server, are a list, and a step of one of them sets
the entry at its index. A set changes a count over the list by what it changes at that index; where
at most one entry has a property, the index of that entry is known.
-/

namespace AetherGuard

namespace Threads

variable {β : Type*} {p : β → Bool}

theorem getElem?_set_cases {l : List β} {i j : ℕ} {x y : β} (h : (l.set i x)[j]? = some y) :
    (j = i ∧ y = x) ∨ (j ≠ i ∧ l[j]? = some y) := by
  rw [List.getElem?_set] at h
  split_ifs at h with hij hlt
  · exact .inl ⟨hij.symm, (Option.some.inj h).symm⟩
  · exact .inr ⟨fun he => hij he.symm, h⟩

theorem getElem?_concat_cases {l : List β} {j : ℕ} {x y : β} (h : (l ++ [x])[j]? = some y) :
    l[j]? = some y ∨ (j = l.length ∧ y = x) := by
  rcases lt_or_ge j l.length with hj | hj
  · rw [List.getElem?_append_left hj] at h
    exact .inl h
  · rw [List.getElem?_append_right hj, List.getElem?_singleton] at h
    split_ifs at h with hz
    exact .inr ⟨by omega, (Option.some.inj h).symm⟩

theorem getElem?_modify_cases {l : List β} {i j : ℕ} {f : β → β} {y : β}
    (h : (l.modify i f)[j]? = some y) :
    (j = i ∧ ∃ x, l[i]? = some x ∧ y = f x) ∨ (j ≠ i ∧ l[j]? = some y) := by
  rw [List.getElem?_modify] at h
  obtain ⟨x, hx, rfl⟩ := Option.map_eq_some_iff.1 h
  by_cases hij : i = j
  · subst hij
    exact .inl ⟨rfl, x, hx, by simp⟩
  · exact .inr ⟨fun he => hij he.symm, by simpa [hij] using hx⟩

theorem mem_modify_cases {l : List β} {i : ℕ} {f : β → β} {y : β} (h : y ∈ l.modify i f) :
    y ∈ l ∨ ∃ x, l[i]? = some x ∧ y = f x := by
  obtain ⟨j, hj⟩ := List.mem_iff_getElem?.1 h
  rcases getElem?_modify_cases hj with ⟨-, hx⟩ | ⟨-, hj⟩
  · exact .inr hx
  · exact .inl (List.mem_of_getElem? hj)

theorem mem_set_of_ne {l : List β} {i : ℕ} {x y : β} (hx : x ∈ l) (hne : l[i]? ≠ some x) :
    x ∈ l.set i y := by
  obtain ⟨j, hj⟩ := List.mem_iff_getElem?.1 hx
  refine List.mem_iff_getElem?.2 ⟨j, ?_⟩
  rw [List.getElem?_set, if_neg ?_, hj]
  rintro rfl
  exact hne hj

theorem countP_pos {l : List β} {i : ℕ} {x : β} (h : l[i]? = some x) (hx : p x = true) :
    0 < l.countP p :=
  List.countP_pos_iff.2 ⟨x, List.mem_of_getElem? h, hx⟩

theorem countP_set_add {l : List β} {i : ℕ} {x : β} (h : l[i]? = some x) (y : β) :
    (l.set i y).countP p + (p x).toNat = l.countP p + (p y).toNat := by
  obtain ⟨hi, rfl⟩ := List.getElem?_eq_some_iff.1 h
  rw [List.countP_set hi]
  cases hx : p l[i] with
  | false => cases p y <;> simp
  | true =>
    have := countP_pos h hx
    cases p y <;> simp <;> omega

theorem sum_map_set_add {l : List β} {i : ℕ} {x : β} (h : l[i]? = some x) (y : β) (w : β → ℕ) :
    ((l.set i y).map w).sum + w x = (l.map w).sum + w y := by
  induction l generalizing i with
  | nil => simp at h
  | cons z l ih =>
    cases i with
    | zero =>
      simp only [List.getElem?_cons_zero, Option.some.injEq] at h
      subst h
      simp only [List.set_cons_zero, List.map_cons, List.sum_cons]
      omega
    | succ i =>
      have := ih (by simpa using h)
      simp only [List.set_cons_succ, List.map_cons, List.sum_cons]
      omega

theorem sum_map_eraseIdx {l : List β} {i : ℕ} {x : β} (h : l[i]? = some x) (w : β → ℕ) :
    w x + ((l.eraseIdx i).map w).sum = (l.map w).sum := by
  obtain ⟨hi, rfl⟩ := List.getElem?_eq_some_iff.1 h
  have hperm := (List.getElem_cons_eraseIdx_perm hi).map w
  simpa using hperm.sum_eq

theorem index_unique_of_countP_le_one : ∀ {l : List β} {i j : ℕ} {x y : β},
    l.countP p ≤ 1 → l[i]? = some x → p x = true → l[j]? = some y → p y = true → i = j
  | [], _, _, _, _, _, hi, _, _, _ => by simp at hi
  | z :: l, 0, 0, _, _, _, _, _, _, _ => rfl
  | z :: l, 0, j + 1, x, y, hc, hi, hx, hj, hy => by
    simp only [List.getElem?_cons_zero, Option.some.injEq] at hi
    subst hi
    have : 0 < l.countP p := countP_pos (by simpa using hj) hy
    rw [List.countP_cons_of_pos hx] at hc
    omega
  | z :: l, i + 1, 0, x, y, hc, hi, hx, hj, hy => by
    simp only [List.getElem?_cons_zero, Option.some.injEq] at hj
    subst hj
    have : 0 < l.countP p := countP_pos (by simpa using hi) hx
    rw [List.countP_cons_of_pos hy] at hc
    omega
  | z :: l, i + 1, j + 1, x, y, hc, hi, hx, hj, hy => by
    have hc' : l.countP p ≤ 1 := by
      rw [List.countP_cons] at hc
      omega
    exact congrArg (· + 1)
      (index_unique_of_countP_le_one hc' (by simpa using hi) hx (by simpa using hj) hy)

end Threads

end AetherGuard
