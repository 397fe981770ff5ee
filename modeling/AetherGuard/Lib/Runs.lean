import Mathlib.Tactic

/-!
# Maximal runs

A run of `p` that has come as far as `j` starts at an index `i` before which `p` fails, and `p`
holds from `i` up to `j` (`RunTo`). It is maximal among the first `n` indices when it ends with them
or because `p` fails at `j` (`IsRun`). Of the indices of a stretch at which `q` holds, one is the
first with the greatest value of `f` (`FirstMax`).
-/

namespace AetherGuard

namespace Runs

variable {p q : ℕ → Prop} {i j k m n : ℕ}

/-- `p` holds from `i` to before `j`, and not before `i`. -/
structure RunTo (p : ℕ → Prop) (i j : ℕ) : Prop where
  lt : i < j
  holds : ∀ k, i ≤ k → k < j → p k
  left : i = 0 ∨ ¬ p (i - 1)

/-- A maximal run of `p` among the indices below `n`. -/
structure IsRun (p : ℕ → Prop) (n i j : ℕ) : Prop extends RunTo p i j where
  le : j ≤ n
  right : j = n ∨ ¬ p j

/-- A run that ended before index `n`. -/
structure Ended (p : ℕ → Prop) (n i j : ℕ) : Prop extends RunTo p i j where
  lt_end : j < n
  right : ¬ p j

theorem isRun_iff : IsRun p n i j ↔ Ended p n i j ∨ (RunTo p i j ∧ j = n) := by
  constructor
  · intro h
    rcases h.right with hj | hj
    · exact .inr ⟨h.toRunTo, hj⟩
    · rcases h.le.lt_or_eq with hlt | heq
      · exact .inl ⟨h.toRunTo, hlt, hj⟩
      · exact .inr ⟨h.toRunTo, heq⟩
  · rintro (h | ⟨h, rfl⟩)
    · exact ⟨h.toRunTo, h.lt_end.le, .inr h.right⟩
    · exact ⟨h, le_rfl, .inl rfl⟩

theorem ended_succ_iff : Ended p (n + 1) i j ↔ Ended p n i j ∨ (RunTo p i j ∧ j = n ∧ ¬ p n) := by
  constructor
  · intro h
    rcases Nat.lt_succ_iff_lt_or_eq.1 h.lt_end with hlt | rfl
    · exact .inl ⟨h.toRunTo, hlt, h.right⟩
    · exact .inr ⟨h.toRunTo, rfl, h.right⟩
  · rintro (h | ⟨h, rfl, hp⟩)
    · exact ⟨h.toRunTo, Nat.lt_succ_of_lt h.lt_end, h.right⟩
    · exact ⟨h, Nat.lt_succ_self _, hp⟩

theorem RunTo.succ (h : RunTo p i n) (hp : p n) : RunTo p i (n + 1) := by
  refine ⟨Nat.lt_succ_of_lt h.lt, fun k hik hk => ?_, h.left⟩
  rcases Nat.lt_succ_iff_lt_or_eq.1 hk with hk | rfl
  · exact h.holds k hik hk
  · exact hp

theorem runTo_singleton (hp : p n) (hleft : n = 0 ∨ ¬ p (n - 1)) : RunTo p n (n + 1) := by
  refine ⟨Nat.lt_succ_self n, fun k hnk hk => ?_, hleft⟩
  obtain rfl : k = n := by omega
  exact hp

/-- Two runs that have come to one place started at one place. -/
theorem RunTo.start_unique {i' : ℕ} (h : RunTo p i n) (h' : RunTo p i' n) : i = i' := by
  have hle : ∀ {a b : ℕ}, RunTo p a n → RunTo p b n → b ≤ a := by
    intro a b ha hb
    by_contra hlt
    rcases hb.left with h0 | hnot
    · omega
    · exact hnot (ha.holds (b - 1) (by omega) (by have := hb.lt; omega))
  exact le_antisymm (hle h' h) (hle h h')

/-- No run comes as far as an index just after a failure. -/
theorem not_runTo (hleft : n = 0 ∨ ¬ p (n - 1)) : ¬ RunTo p i n := by
  intro h
  have := h.lt
  rcases hleft with rfl | hnot
  · omega
  · exact hnot (h.holds (n - 1) (by omega) (by omega))

/-- A run that ended lies before one that has come further. -/
theorem Ended.lt_start {i' j' : ℕ} (h : Ended p n i j) (h' : RunTo p i' j') (hj : j < j') :
    j < i' := by
  by_contra hle
  exact h.right (h'.holds j (by omega) hj)

/-- The maximal runs are disjoint. -/
theorem IsRun.unique {i' j' : ℕ} (h : IsRun p n i j) (h' : IsRun p n i' j') (him : i ≤ m)
    (hmj : m < j) (him' : i' ≤ m) (hmj' : m < j') : i = i' ∧ j = j' := by
  have hstart : ∀ {a b a' b' : ℕ}, IsRun p n a b → IsRun p n a' b' → a' ≤ m → m < b → a' ≤ a := by
    intro a b a' b' hab hab' ha' hb
    by_contra hlt
    rcases hab'.left with h0 | hnot
    · omega
    · exact hnot (hab.holds (a' - 1) (by omega) (by omega))
  have hend : ∀ {a b a' b' : ℕ}, IsRun p n a b → IsRun p n a' b' → a' ≤ m → m < b → b' ≤ b := by
    intro a b a' b' hab hab' ha' hb
    by_contra hlt
    rcases hab.right with hn | hnot
    · have := hab'.le
      omega
    · exact hnot (hab'.holds b (by omega) (by omega))
  exact ⟨le_antisymm (hstart h' h him hmj') (hstart h h' him' hmj),
    le_antisymm (hend h' h him hmj') (hend h h' him' hmj)⟩

section FirstMax

variable {T : Type*} [LinearOrder T] {f : ℕ → T}

/-- `m` is the first index of `q` in the stretch from `i` to before `j` at which `f` is greatest. -/
structure FirstMax (q : ℕ → Prop) (f : ℕ → T) (i j m : ℕ) : Prop where
  ge : i ≤ m
  lt : m < j
  sel : q m
  max : ∀ k, i ≤ k → k < j → q k → f k ≤ f m
  first : ∀ k, i ≤ k → k < m → q k → f k < f m

theorem FirstMax.unique {m' : ℕ} (h : FirstMax q f i j m) (h' : FirstMax q f i j m') : m = m' := by
  rcases lt_trichotomy m m' with hlt | heq | hlt
  · exact absurd (h'.first m h.ge hlt h.sel) (not_lt.2 (h.max m' h'.ge h'.lt h'.sel))
  · exact heq
  · exact absurd (h.first m' h'.ge hlt h'.sel) (not_lt.2 (h'.max m h.ge h.lt h.sel))

theorem FirstMax.keep (h : FirstMax q f i j m) (hj : q j → f j ≤ f m) :
    FirstMax q f i (j + 1) m := by
  refine ⟨h.ge, Nat.lt_succ_of_lt h.lt, h.sel, fun k hik hk hq => ?_, h.first⟩
  rcases Nat.lt_succ_iff_lt_or_eq.1 hk with hk | rfl
  · exact h.max k hik hk hq
  · exact hj hq

theorem FirstMax.next (hij : i ≤ j) (hq : q j) (hlt : ∀ k, i ≤ k → k < j → q k → f k < f j) :
    FirstMax q f i (j + 1) j := by
  refine ⟨hij, Nat.lt_succ_self j, hq, fun k hik hk hqk => ?_, hlt⟩
  rcases Nat.lt_succ_iff_lt_or_eq.1 hk with hk | rfl
  · exact (hlt k hik hk hqk).le
  · exact le_rfl

theorem exists_firstMax (h : ∃ k, i ≤ k ∧ k < j ∧ q k) : ∃ m, FirstMax q f i j m := by
  induction j with
  | zero =>
    obtain ⟨k, -, hk, -⟩ := h
    omega
  | succ j ih =>
    by_cases hbefore : ∃ k, i ≤ k ∧ k < j ∧ q k
    · obtain ⟨m, hm⟩ := ih hbefore
      by_cases hnext : q j ∧ f m < f j
      · exact ⟨j, .next (hm.ge.trans hm.lt.le) hnext.1 fun k hik hkj hqk =>
          (hm.max k hik hkj hqk).trans_lt hnext.2⟩
      · exact ⟨m, hm.keep fun hq => not_lt.1 fun hlt => hnext ⟨hq, hlt⟩⟩
    · obtain ⟨k, hik, hkj, hqk⟩ := h
      rcases Nat.lt_succ_iff_lt_or_eq.1 hkj with hkj | rfl
      · exact absurd ⟨k, hik, hkj, hqk⟩ hbefore
      · exact ⟨k, .next hik hqk fun l hil hlk hql => absurd ⟨l, hil, hlk, hql⟩ hbefore⟩

end FirstMax

end Runs

end AetherGuard
