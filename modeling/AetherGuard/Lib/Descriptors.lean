import Mathlib.Tactic

/-!
# A descriptor table

Descriptors are numbers in a table that says what each open one stands for. One thread may own the
only descriptor of a kind `p`: it opens it on a free number and closes it, and what other threads
open and close is of other kinds (`Owns`).
-/

namespace AetherGuard

namespace Descriptors

variable {β : Type*} {p : β → Prop} {fds : ℕ → Option β} {o : Option ℕ} {fd k : ℕ} {x y : β}

/-- `o` is the only descriptor of kind `p`, if there is one. -/
structure Owns (p : β → Prop) (fds : ℕ → Option β) (o : Option ℕ) : Prop where
  only : ∀ fd x, fds fd = some x → p x → o = some fd
  opened : ∀ fd, o = some fd → ∃ x, fds fd = some x ∧ p x

theorem update_cases {v : Option β} (h : Function.update fds fd v k = some y) :
    (k = fd ∧ v = some y) ∨ (k ≠ fd ∧ fds k = some y) := by
  by_cases hk : k = fd
  · subst hk
    exact .inl ⟨rfl, by rwa [Function.update_self] at h⟩
  · exact .inr ⟨hk, by rwa [Function.update_of_ne hk] at h⟩

theorem update_eq_of_ne {v : Option β} (hk : fds k = some x) (hfd : fds fd ≠ some x) :
    Function.update fds fd v k = some x := by
  rw [Function.update_of_ne, hk]
  rintro rfl
  exact hfd hk

theorem Owns.acquire (h : Owns p fds none) (hx : p x) :
    Owns p (Function.update fds fd (some x)) (some fd) := by
  refine ⟨fun k y hk hy => ?_, fun k hk => ?_⟩
  · rcases update_cases hk with ⟨rfl, -⟩ | ⟨-, hk⟩
    · rfl
    · exact absurd (h.only k y hk hy) (by simp)
  · obtain rfl : fd = k := Option.some.inj hk
    exact ⟨x, Function.update_self .., hx⟩

theorem Owns.release (h : Owns p fds (some fd)) : Owns p (Function.update fds fd none) none := by
  refine ⟨fun k y hk hy => ?_, by simp⟩
  rcases update_cases hk with ⟨-, hv⟩ | ⟨hne, hk⟩
  · simp at hv
  · exact absurd (Option.some.inj (h.only k y hk hy)).symm hne

/-- A number that is no descriptor of kind `p` is opened as another kind, or closed. -/
theorem Owns.other (h : Owns p fds o) (hfd : ∀ y, fds fd = some y → ¬ p y) {v : Option β}
    (hv : ∀ y, v = some y → ¬ p y) : Owns p (Function.update fds fd v) o := by
  refine ⟨fun k y hk hy => ?_, fun k hk => ?_⟩
  · rcases update_cases hk with ⟨rfl, rfl⟩ | ⟨-, hk⟩
    · exact absurd hy (hv y rfl)
    · exact h.only k y hk hy
  · obtain ⟨y, hy, hpy⟩ := h.opened k hk
    exact ⟨y, update_eq_of_ne hy fun hfd' => hfd y hfd' hpy, hpy⟩

end Descriptors

end AetherGuard
