import Mathlib.Data.List.Nodup

/-!
# Merging two lists

The elements of a second list are appended to a first one, each unless an element there is taken for
the same (`addNew`). Where `same` is coarser than equality, elements are lost, and
`subset_foldl_addNew_iff` says which.
-/

namespace AetherGuard

namespace Merge

variable {α : Type*} {same : α → α → Bool} {xs ys : List α} {a b c : α}

def addNew (same : α → α → Bool) (xs : List α) (c : α) : List α :=
  if xs.any fun e => same e c then xs else xs ++ [c]

theorem addNew_cases (same : α → α → Bool) (xs : List α) (c : α) :
    (addNew same xs c = xs ∧ ∃ e ∈ xs, same e c = true) ∨
      (addNew same xs c = xs ++ [c] ∧ ∀ e ∈ xs, same e c = false) := by
  by_cases h : xs.any (fun e => same e c) = true
  · exact .inl ⟨if_pos h, List.any_eq_true.1 h⟩
  · exact .inr ⟨if_neg h, by simpa using h⟩

theorem prefix_foldl_addNew (same : α → α → Bool) (xs ys : List α) :
    xs <+: ys.foldl (addNew same) xs := by
  induction ys generalizing xs with
  | nil => exact List.prefix_rfl
  | cons c ys ih =>
    refine List.IsPrefix.trans ?_ (ih _)
    rcases addNew_cases same xs c with ⟨h, -⟩ | ⟨h, -⟩
    · exact ⟨[], by simp [h]⟩
    · exact ⟨[c], h.symm⟩

theorem mem_or_mem_of_mem_foldl (h : a ∈ ys.foldl (addNew same) xs) : a ∈ xs ∨ a ∈ ys := by
  induction ys generalizing xs with
  | nil => exact .inl h
  | cons c ys ih =>
    rcases ih h with h | h
    · rcases addNew_cases same xs c with ⟨hm, -⟩ | ⟨hm, -⟩ <;> rw [hm] at h
      · exact .inl h
      · rcases List.mem_append.1 h with h | h
        · exact .inl h
        · exact .inr (List.mem_singleton.1 h ▸ List.mem_cons_self)
    · exact .inr (List.mem_cons_of_mem _ h)

theorem nodup_foldl_addNew (hrefl : ∀ a, same a a = true) (h : xs.Nodup) :
    (ys.foldl (addNew same) xs).Nodup := by
  induction ys generalizing xs with
  | nil => exact h
  | cons c ys ih =>
    refine ih ?_
    rcases addNew_cases same xs c with ⟨hm, -⟩ | ⟨hm, hnew⟩ <;> rw [hm]
    · exact h
    · rw [← List.concat_eq_append]
      refine h.concat fun hc => ?_
      simpa [hrefl] using hnew c hc

/-- Every element is represented, if perhaps by another that is taken for the same. -/
theorem exists_same_of_mem (hrefl : ∀ a, same a a = true) (xs : List α) (h : c ∈ ys) :
    ∃ e ∈ ys.foldl (addNew same) xs, same e c = true := by
  induction ys generalizing xs with
  | nil => simp at h
  | cons d ys ih =>
    rcases List.mem_cons.1 h with rfl | h
    · have hrep : ∃ e ∈ addNew same xs c, same e c = true := by
        rcases addNew_cases same xs c with ⟨hm, hsame⟩ | ⟨hm, -⟩ <;> rw [hm]
        · exact hsame
        · exact ⟨c, by simp, hrefl c⟩
      obtain ⟨e, he, hsame⟩ := hrep
      exact ⟨e, (prefix_foldl_addNew same (addNew same xs c) ys).subset he, hsame⟩
    · exact ih _ h

/-- Two elements taken for the same were both in the first list. -/
theorem eq_or_mem_of_same (hsymm : ∀ a b, same a b = same b a)
    (ha : a ∈ ys.foldl (addNew same) xs) (hb : b ∈ ys.foldl (addNew same) xs)
    (hsame : same a b = true) : a = b ∨ (a ∈ xs ∧ b ∈ xs) := by
  induction ys generalizing xs with
  | nil => exact .inr ⟨ha, hb⟩
  | cons c ys ih =>
    rcases ih ha hb with h | ⟨ha, hb⟩
    · exact .inl h
    rcases addNew_cases same xs c with ⟨hm, -⟩ | ⟨hm, hnew⟩ <;> rw [hm] at ha hb
    · exact .inr ⟨ha, hb⟩
    · rcases List.mem_append.1 ha with ha | ha <;> rcases List.mem_append.1 hb with hb | hb
      · exact .inr ⟨ha, hb⟩
      · rw [List.mem_singleton.1 hb, hnew a ha] at hsame
        contradiction
      · rw [List.mem_singleton.1 ha, hsymm, hnew b hb] at hsame
        contradiction
      · exact .inl ((List.mem_singleton.1 ha).trans (List.mem_singleton.1 hb).symm)

/-- The merge has the whole second list exactly when no element that is new in it is taken for
another element of the two. -/
theorem subset_foldl_addNew_iff (hrefl : ∀ a, same a a = true)
    (hsymm : ∀ a b, same a b = same b a) :
    ys ⊆ ys.foldl (addNew same) xs ↔
      ∀ c ∈ ys, c ∉ xs → ∀ e ∈ xs ++ ys, e ≠ c → ¬ same e c = true := by
  constructor
  · intro hsub c hc hnew e he hne hsame
    have hem : e ∈ ys.foldl (addNew same) xs := by
      rcases List.mem_append.1 he with he | he
      · exact (prefix_foldl_addNew _ _ _).subset he
      · exact hsub he
    rcases eq_or_mem_of_same hsymm hem (hsub hc) hsame with h | h
    · exact hne h
    · exact hnew h.2
  · intro h c hc
    by_cases hold : c ∈ xs
    · exact (prefix_foldl_addNew _ _ _).subset hold
    · obtain ⟨e, he, hsame⟩ := exists_same_of_mem hrefl xs hc
      have hec : e = c := by
        by_contra hne
        exact h c hc hold e (List.mem_append.2 (mem_or_mem_of_mem_foldl he)) hne hsame
      exact hec ▸ he

end Merge

end AetherGuard
