import Mathlib.Tactic

/-!
# Pattern matching with two wildcards

A pattern is a text in which `many` stands for any text and `one` for any character; every other
character stands for itself, up to `fold`. A text without wildcards, put between two `many`s,
matches the texts that contain it (`like_infix`).
-/

namespace AetherGuard

namespace Like

variable {C : Type*} [DecidableEq C] (fold : C → C) (many one : C)

def like : List C → List C → Bool
  | [], t => t.isEmpty
  | c :: p, t =>
    if c = many then t.tails.any (like p)
    else
      match t with
      | [] => false
      | x :: t => (c = one || fold c = fold x) && like p t

/-- A character that is no wildcard. -/
def Literal (c : C) : Prop := c ≠ many ∧ c ≠ one

/-- A text that `p` matches: nothing for `many`, `x` for `one`. -/
def sample (x : C) (p : List C) : List C :=
  (p.filter (· ≠ many)).map fun c => if c = one then x else c

variable {fold many one}

theorem like_many (p t : List C) :
    like fold many one (many :: p) t ↔ ∃ s, s <:+ t ∧ like fold many one p s = true := by
  simp [like, List.mem_tails]

theorem like_many_of_like {p t : List C} (h : like fold many one p t = true) :
    like fold many one (many :: p) t = true :=
  (like_many p t).2 ⟨t, List.suffix_rfl, h⟩

theorem like_many_nil (t : List C) : like fold many one [many] t = true :=
  (like_many [] t).2 ⟨[], List.nil_suffix, rfl⟩

theorem like_cons {c : C} (hc : c ≠ many) (p : List C) (x : C) (t : List C) :
    like fold many one (c :: p) (x :: t) =
      ((c = one || fold c = fold x) && like fold many one p t) := by
  rw [like, if_neg hc]

/-- Literals match a stretch equal to them up to `fold`. -/
theorem like_literals_append {q : List C} (hq : ∀ c ∈ q, Literal many one c) (p t : List C) :
    like fold many one (q ++ p) t = true ↔
      ∃ u v, t = u ++ v ∧ u.map fold = q.map fold ∧ like fold many one p v = true := by
  induction q generalizing t with
  | nil => simp
  | cons c q ih =>
    have hc := hq c List.mem_cons_self
    have ih := ih fun d hd => hq d (List.mem_cons_of_mem _ hd)
    cases t with
    | nil =>
      rw [List.cons_append, like, if_neg hc.1]
      simp
    | cons x t =>
      rw [List.cons_append, like_cons hc.1]
      simp only [hc.2, decide_false, Bool.false_or, Bool.and_eq_true, decide_eq_true_eq, ih]
      constructor
      · rintro ⟨hx, u, v, rfl, hu, hv⟩
        exact ⟨x :: u, v, rfl, by simp [hu, hx], hv⟩
      · rintro ⟨u, v, huv, hu, hv⟩
        rcases u with _ | ⟨y, u⟩
        · simp at hu
        · simp only [List.map_cons, List.cons.injEq, List.cons_append] at hu huv
          obtain ⟨rfl, rfl⟩ := huv
          exact ⟨hu.1.symm, u, v, rfl, hu.2, hv⟩

theorem like_infix {q : List C} (hq : ∀ c ∈ q, Literal many one c) (t : List C) :
    like fold many one (many :: (q ++ [many])) t = true ↔ q.map fold <:+: t.map fold := by
  rw [like_many]
  constructor
  · rintro ⟨s, ⟨w, rfl⟩, hs⟩
    obtain ⟨u, v, rfl, hu, -⟩ := (like_literals_append hq [many] s).1 hs
    exact ⟨w.map fold, v.map fold, by simp [hu]⟩
  · rintro ⟨w, v, hwv⟩
    rw [List.append_assoc] at hwv
    obtain ⟨w', s, rfl, -, hs⟩ := List.append_eq_map_iff.1 hwv
    obtain ⟨u, v', rfl, hu, -⟩ := List.append_eq_map_iff.1 hs.symm
    exact ⟨u ++ v', ⟨w', rfl⟩,
      (like_literals_append hq [many] _).2 ⟨u, v', rfl, hu, like_many_nil v'⟩⟩

theorem like_sample (x : C) (p : List C) : like fold many one p (sample many one x p) = true := by
  induction p with
  | nil => rfl
  | cons c p ih =>
    by_cases hc : c = many
    · subst hc
      have hs : sample c one x (c :: p) = sample c one x p := by simp [sample]
      rw [hs]
      exact like_many_of_like ih
    · have hs : sample many one x (c :: p) =
          (if c = one then x else c) :: sample many one x p := by simp [sample, hc]
      rw [hs, like_cons hc, ih]
      by_cases ho : c = one <;> simp [ho]

theorem literal_of_mem_sample {x : C} (hx : Literal many one x) {p : List C} {c : C}
    (hc : c ∈ sample many one x p) : Literal many one c := by
  obtain ⟨d, hd, rfl⟩ := List.mem_map.1 hc
  have hmany : d ≠ many := by simpa using (List.mem_filter.1 hd).2
  split_ifs with h
  · exact hx
  · exact ⟨hmany, h⟩

end Like

end AetherGuard
