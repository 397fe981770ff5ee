import Mathlib.Tactic

/-!
# Streams of frames

A framing encodes values as strings of symbols and can tell the first frame of a stream
(`Framing.next`). `Framing.Parses` is the loop that takes frames off a stream until there is none;
what it takes is the longest run of whole frames the stream starts with, whatever follows
(`Parses.longest`), and from the frames of a list and nothing more it takes that list
(`parses_encode`).
-/

namespace AetherGuard

variable {α β : Type*}

structure Framing (α β : Type*) where
  Valid : β → Prop
  encode : β → List α
  next : List α → Option (β × List α)
  next_encode : ∀ x r, Valid x → next (encode x ++ r) = some (x, r)
  of_next : ∀ {l x r}, next l = some (x, r) → Valid x ∧ l = encode x ++ r

namespace Framing

variable (F : Framing α β)

/-- Taking frames off `l` until there is none gives `xs` and leaves `r`. -/
inductive Parses : List α → List β → List α → Prop
  | stop {l : List α} (h : F.next l = none) : Parses l [] l
  | frame {l r r' : List α} {x : β} {xs : List β} (h : F.next l = some (x, r))
    (hr : Parses r xs r') : Parses l (x :: xs) r'

/-- `xs` are the whole frames `l` starts with, as many as there are, and `r` is what follows. -/
def IsLongest (l : List α) (xs : List β) (r : List α) : Prop :=
  (∀ x ∈ xs, F.Valid x) ∧ l = xs.flatMap F.encode ++ r
    ∧ ∀ ys r', (∀ y ∈ ys, F.Valid y) → l = ys.flatMap F.encode ++ r' → ys <+: xs

variable {F}

theorem Parses.longest {l r : List α} {xs : List β} (h : F.Parses l xs r) :
    F.IsLongest l xs r := by
  induction h with
  | @stop l h =>
    refine ⟨by simp, by simp, ?_⟩
    rintro (_ | ⟨y, ys⟩) r' hv hl
    · exact List.nil_prefix
    · rw [hl, List.flatMap_cons, List.append_assoc, F.next_encode y _ (hv y (by simp))] at h
      simp at h
  | @frame l r r' x xs h _ ih =>
    obtain ⟨hval, heq, hmax⟩ := ih
    obtain ⟨hx, rfl⟩ := F.of_next h
    refine ⟨?_, ?_, ?_⟩
    · simpa using ⟨hx, hval⟩
    · rw [List.flatMap_cons, List.append_assoc, ← heq]
    · rintro (_ | ⟨y, ys⟩) r'' hv hl
      · exact List.nil_prefix
      · rw [hl, List.flatMap_cons, List.append_assoc, F.next_encode y _ (hv y (by simp)),
          Option.some.injEq, Prod.mk.injEq] at h
        obtain ⟨rfl, hr⟩ := h
        obtain ⟨t, rfl⟩ := hmax ys r'' (fun z hz => hv z (by simp [hz])) hr.symm
        exact ⟨t, rfl⟩

/-- A stream parses in one way only. -/
theorem Parses.unique {l r r' : List α} {xs ys : List β} (h : F.Parses l xs r)
    (h' : F.Parses l ys r') : xs = ys ∧ r = r' := by
  induction h generalizing ys r' with
  | stop h =>
    cases h' with
    | stop _ => exact ⟨rfl, rfl⟩
    | frame h' _ => rw [h] at h'; simp at h'
  | frame h _ ih =>
    cases h' with
    | stop h' => rw [h] at h'; simp at h'
    | frame h' hr =>
      rw [h, Option.some.injEq, Prod.mk.injEq] at h'
      obtain ⟨rfl, rfl⟩ := h'
      obtain ⟨rfl, rfl⟩ := ih hr
      exact ⟨rfl, rfl⟩

theorem parses_encode (h : F.next [] = none) :
    ∀ xs : List β, (∀ x ∈ xs, F.Valid x) → F.Parses (xs.flatMap F.encode) xs []
  | [], _ => .stop h
  | x :: xs, hv => by
    have hx := F.next_encode x (xs.flatMap F.encode) (hv x (by simp))
    rw [← List.flatMap_cons] at hx
    exact .frame hx (parses_encode h xs fun y hy => hv y (by simp [hy]))

end Framing

end AetherGuard
