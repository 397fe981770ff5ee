import Mathlib.Tactic

/-!
# Runs of a machine

A machine takes one step for each action, whichever thread or peer the action belongs to, so an
interleaving is a list of actions and a run is a fold. What one step keeps, every run keeps
(`run_inv`); where a step only keeps it under a condition, the condition is asked of each step of
the run (`run_inv_of_meets`), or of a count that only grows (`run_inv_of_lt`), or both
(`run_inv_of_meets_lt`). A list that each step extends by what its action gives, or by a part of it,
has grown by what the run gives (`run_eq_append_gives`, `run_sublist_append_gives`). A run of a part
of a machine is a run of the whole (`run_map`).
-/

namespace AetherGuard

namespace Machine

variable {σ α : Type*} (step : σ → α → σ)

/-- The state a list of actions leads to. -/
def run (s : σ) (as : List α) : σ := as.foldl step s

theorem run_append (s : σ) (as bs : List α) :
    run step s (as ++ bs) = run step (run step s as) bs := by
  simp [run, List.foldl_append]

/-- Where `f` of an action does to `g` of a state what the action does to the state, so does a run:
the run of a part of a machine is a run of the whole. -/
theorem run_map {τ β : Type*} {step : σ → α → σ} {step' : τ → β → τ} {f : α → β} {g : σ → τ} :
    ∀ (as : List α), (∀ a ∈ as, ∀ s, step' (g s) (f a) = g (step s a)) →
      ∀ s, run step' (g s) (as.map f) = g (run step s as)
  | [], _, _ => rfl
  | a :: as, h, s => by
    rw [List.map_cons, run, List.foldl_cons, h a List.mem_cons_self]
    exact run_map as (fun b hb => h b (List.mem_cons_of_mem a hb)) (step s a)

/-- Each action of the run is taken in a state where it meets `G`. -/
def Meets (G : σ → α → Prop) : σ → List α → Prop
  | _, [] => True
  | s, a :: as => G s a ∧ Meets G (step s a) as

instance Meets.decidable (G : σ → α → Prop) [∀ s a, Decidable (G s a)] :
    ∀ (s : σ) (as : List α), Decidable (Meets step G s as)
  | _, [] => .isTrue trivial
  | s, a :: as =>
    have := Meets.decidable G (step s a) as
    inferInstanceAs (Decidable (_ ∧ _))

variable {step}

theorem Meets.append {G : σ → α → Prop} : ∀ {s : σ} {as bs : List α}, Meets step G s as →
    Meets step G (run step s as) bs → Meets step G s (as ++ bs)
  | _, [], _, _, hb => hb
  | _, _ :: _, _, ha, hb => ⟨ha.1, Meets.append ha.2 hb⟩

theorem Meets.of_forall {G : σ → α → Prop} : ∀ {as : List α}, (∀ a ∈ as, ∀ s, G s a) →
    ∀ s, Meets step G s as
  | [], _, _ => trivial
  | a :: _, h, s => ⟨h a List.mem_cons_self s,
      Meets.of_forall (fun b hb => h b (List.mem_cons_of_mem _ hb)) _⟩

theorem run_inv_of_meets {I : σ → Prop} {G : σ → α → Prop}
    (h : ∀ s a, G s a → I s → I (step s a)) :
    ∀ (as : List α) (s : σ), Meets step G s as → I s → I (run step s as)
  | [], _, _, hs => hs
  | a :: as, s, hm, hs => run_inv_of_meets h as (step s a) hm.2 (h s a hm.1 hs)

theorem run_inv {I : σ → Prop} (h : ∀ s a, I s → I (step s a)) :
    ∀ (as : List α) (s : σ), I s → I (run step s as)
  | [], _, hs => hs
  | a :: as, s, hs => run_inv h as (step s a) (h s a hs)

/-- Where `P` fails right after any step that does not meet `G`, and meeting `G` keeps what `P`
needs, `P` holds all along a run exactly when every step meets `G`. -/
theorem forall_prefix_iff_meets {I P : σ → Prop} {G : σ → α → Prop}
    (hkeep : ∀ s a, G s a → I s → I (step s a)) (hP : ∀ s, I s → P s)
    (hbad : ∀ s a, I s → ¬ G s a → ¬ P (step s a)) :
    ∀ (as : List α) (s : σ), I s →
      ((∀ bs, bs <+: as → P (run step s bs)) ↔ Meets step G s as)
  | [], s, hs => by simpa [run, Meets] using hP s hs
  | a :: as, s, hs => by
    have hmeets : (∀ bs, bs <+: a :: as → P (run step s bs)) → G s a := by
      intro h
      by_contra hg
      exact hbad s a hs hg (h [a] ⟨as, rfl⟩)
    constructor
    · intro h
      have hg := hmeets h
      refine ⟨hg, (forall_prefix_iff_meets hkeep hP hbad as _ (hkeep s a hg hs)).1 ?_⟩
      intro bs hbs
      exact h (a :: bs) (List.prefix_cons_inj a |>.2 hbs)
    · rintro ⟨hg, hm⟩ bs hbs
      rcases List.prefix_cons_iff.1 hbs with rfl | ⟨cs, rfl, hcs⟩
      · exact hP s hs
      · exact (forall_prefix_iff_meets hkeep hP hbad as _ (hkeep s a hg hs)).2 hm cs hcs

variable (step) in
/-- What the actions of a run give, each in the state it is taken in. -/
def gives {β : Type*} (out : σ → α → List β) : σ → List α → List β
  | _, [] => []
  | s, a :: as => out s a ++ gives out (step s a) as

theorem gives_append {β : Type*} {out : σ → α → List β} : ∀ (as bs : List α) (s : σ),
    gives step out s (as ++ bs) = gives step out s as ++ gives step out (run step s as) bs
  | [], _, _ => rfl
  | a :: as, bs, s => by
    rw [List.cons_append, gives, gives, gives_append as bs (step s a), List.append_assoc]
    rfl

theorem run_eq_append_gives {β : Type*} {out : σ → α → List β} {f : σ → List β}
    (h : ∀ s a, f (step s a) = f s ++ out s a) :
    ∀ (as : List α) (s : σ), f (run step s as) = f s ++ gives step out s as
  | [], s => (List.append_nil (f s)).symm
  | a :: as, s => by
    have hrest := run_eq_append_gives h as (step s a)
    rw [h, List.append_assoc] at hrest
    exact hrest

theorem run_sublist_append_gives {β : Type*} {out : σ → α → List β} {f : σ → List β}
    (h : ∀ s a, (f (step s a)).Sublist (f s ++ out s a)) :
    ∀ (as : List α) (s : σ), (f (run step s as)).Sublist (f s ++ gives step out s as)
  | [], s => (List.append_nil (f s)).symm ▸ List.Sublist.refl _
  | a :: as, s => by
    have hrest := run_sublist_append_gives h as (step s a)
    have hstep := (h s a).append (List.Sublist.refl (gives step out (step s a) as))
    rw [List.append_assoc] at hstep
    exact hrest.trans hstep

theorem le_run {m : σ → ℕ} (hm : ∀ s a, m s ≤ m (step s a)) :
    ∀ (as : List α) (s : σ), m s ≤ m (run step s as)
  | [], _ => le_rfl
  | a :: as, s => (hm s a).trans (le_run hm as (step s a))

/-- A measure that every step lowers has come down by the length of the run. -/
theorem run_le_sub {m : σ → ℕ} (hm : ∀ s a, m (step s a) ≤ m s - 1) :
    ∀ (as : List α) (s : σ), m (run step s as) ≤ m s - as.length
  | [], _ => le_rfl
  | a :: as, s => by
    have hfirst := hm s a
    have hrest := run_le_sub hm as (step s a)
    rw [List.length_cons]
    exact hrest.trans (by omega)

/-- What a step keeps while a growing count stays below `B` holds at the end of a run that ends
below `B`. -/
theorem run_inv_of_lt {I : σ → Prop} {m : σ → ℕ} {B : ℕ} (hm : ∀ s a, m s ≤ m (step s a))
    (h : ∀ s a, m (step s a) < B → I s → I (step s a)) :
    ∀ (as : List α) (s : σ), m (run step s as) < B → I s → I (run step s as)
  | [], _, _, hs => hs
  | a :: as, s, hB, hs =>
    run_inv_of_lt hm h as (step s a) hB (h s a ((le_run hm as (step s a)).trans_lt hB) hs)

/-- Both at once: each step meets its condition, and the run ends below `B`. -/
theorem run_inv_of_meets_lt {I : σ → Prop} {G : σ → α → Prop} {m : σ → ℕ} {B : ℕ}
    (hm : ∀ s a, m s ≤ m (step s a)) (h : ∀ s a, G s a → m (step s a) < B → I s → I (step s a)) :
    ∀ (as : List α) (s : σ), Meets step G s as → m (run step s as) < B → I s → I (run step s as)
  | [], _, _, _, hs => hs
  | a :: as, s, hmeets, hB, hs =>
    run_inv_of_meets_lt hm h as (step s a) hmeets.2 hB
      (h s a hmeets.1 ((le_run hm as (step s a)).trans_lt hB) hs)

/-- Where some action of the kind `A` always keeps `I` and lowers a measure until `D` holds, such
actions alone lead to `D`. -/
theorem exists_run {I D : σ → Prop} {A : α → Prop} (μ : σ → ℕ)
    (h : ∀ s, I s → ¬ D s → ∃ a, A a ∧ I (step s a) ∧ μ (step s a) < μ s) (s : σ) (hs : I s) :
    ∃ as : List α, (∀ a ∈ as, A a) ∧ I (run step s as) ∧ D (run step s as) := by
  induction hn : μ s using Nat.strong_induction_on generalizing s with
  | _ n ih =>
    by_cases hd : D s
    · exact ⟨[], by simp, hs, hd⟩
    · obtain ⟨a, ha, hI, hlt⟩ := h s hs hd
      obtain ⟨as, has, hI', hD⟩ := ih _ (hn ▸ hlt) (step s a) hI rfl
      exact ⟨a :: as, by simpa using ⟨ha, has⟩, hI', hD⟩

end Machine

end AetherGuard
