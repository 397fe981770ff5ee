import Mathlib.Tactic

/-!
# Statements with placeholders

The condition of a statement is a list of clauses that must all hold, and a clause is a list of
conditions of which one must hold. Each condition has a number of placeholders. The placeholders of
the whole statement are numbered from 1, from left to right, and a value is bound to a number. When
the numbers are bound in order to the values of each clause in turn, each clause reads its own
values (`holds_supplied`).
-/

namespace AetherGuard

namespace Statement

variable {A V R : Type*}

/-- The values bound so far, and the number of the next placeholder to bind. -/
structure Binder (V : Type*) where
  bindIdx : ℕ
  binds : List (ℕ × V)

def Binder.start : Binder V := ⟨1, []⟩

def Binder.bind (b : Binder V) (v : V) : Binder V := ⟨b.bindIdx + 1, b.binds ++ [(b.bindIdx, v)]⟩

/-- The value of each placeholder, the first being number 1; the last binding counts. -/
def param (binds : List (ℕ × V)) (i : ℕ) : Option V := binds.reverse.lookup (i + 1)

/-- Every placeholder below the next has been bound once, in order, to the values `vs`. -/
structure Binder.Bound (b : Binder V) (vs : List V) : Prop where
  next : b.bindIdx = vs.length + 1
  binds_eq : b.binds = (List.range' 1 vs.length).zip vs

theorem Binder.Bound.start : (Binder.start : Binder V).Bound [] := ⟨rfl, rfl⟩

theorem Binder.Bound.bind {b : Binder V} {vs : List V} (h : b.Bound vs) (v : V) :
    (b.bind v).Bound (vs ++ [v]) := by
  refine ⟨by simp [Binder.bind, h.next], ?_⟩
  have hone : [(vs.length + 1, v)] = (List.range' (1 + vs.length) 1).zip [v] := by
    simp [Nat.add_comm]
  rw [Binder.bind, h.binds_eq, h.next, hone, ← List.zip_append (by simp), List.range'_append_1]
  simp

theorem Binder.Bound.bindAll {b : Binder V} {vs : List V} (h : b.Bound vs) (ws : List V) :
    (ws.foldl Binder.bind b).Bound (vs ++ ws) := by
  induction ws generalizing b vs with
  | nil => simpa using h
  | cons w ws ih => simpa using ih (h.bind w)

theorem Binder.Bound.bindIf {b : Binder V} {vs : List V} (h : b.Bound vs) (given : Bool)
    (ws : List V) :
    (if given then ws.foldl Binder.bind b else b).Bound (vs ++ if given then ws else []) := by
  cases given
  · simpa using h
  · exact h.bindAll ws

theorem lookup_zip_range' (vs : List V) (n i : ℕ) :
    ((List.range' n vs.length).zip vs).lookup (n + i) = vs[i]? := by
  induction vs generalizing n i with
  | nil => simp
  | cons v vs ih =>
    rw [List.length_cons, List.range'_succ, List.zip_cons_cons]
    cases i with
    | zero => simp
    | succ i =>
      have hne : (n + (i + 1) == n) = false := by simp
      rw [List.lookup_cons, hne, List.getElem?_cons_succ, ← ih (n + 1) i, Nat.add_right_comm,
        Nat.add_assoc]

theorem lookup_reverse_of_nodup {l : List (ℕ × V)} (h : (l.map Prod.fst).Nodup) (i : ℕ) :
    l.reverse.lookup i = l.lookup i := by
  induction l with
  | nil => rfl
  | cons p l ih =>
    obtain ⟨j, v⟩ := p
    rw [List.map_cons, List.nodup_cons] at h
    rw [List.reverse_cons, List.lookup_append, ih h.2, List.lookup_cons, List.lookup_cons,
      List.lookup_nil]
    by_cases hij : i = j
    · subst hij
      have hnone : l.lookup i = none := by
        rw [List.lookup_eq_none_iff]
        intro p hp
        have : p.1 ≠ i := fun he => h.1 (List.mem_map.2 ⟨p, hp, he⟩)
        simpa using this.symm
      simp [hnone]
    · have hne : (i == j) = false := by simpa using hij
      simp [hne]

theorem Binder.Bound.param {b : Binder V} {vs : List V} (h : b.Bound vs) :
    param b.binds = fun i => vs[i]? := by
  funext i
  rw [Statement.param, h.binds_eq, lookup_reverse_of_nodup, Nat.add_comm, lookup_zip_range']
  rw [List.map_fst_zip (by simp)]
  exact List.nodup_range'

section Conditions

variable (arity : A → ℕ) (meets : A → List (Option V) → R → Bool)

/-- The placeholders of a clause. -/
def holes (c : List A) : ℕ := (c.map arity).sum

def clauseHolds : List A → (ℕ → Option V) → R → Bool
  | [], _, _ => false
  | a :: c, env, r =>
    meets a ((List.range (arity a)).map env) r || clauseHolds c (fun i => env (arity a + i)) r

def holds : List (List A) → (ℕ → Option V) → R → Bool
  | [], _, _ => true
  | c :: w, env, r =>
    clauseHolds arity meets c env r && holds w (fun i => env (holes arity c + i)) r

variable {arity meets}

theorem clauseHolds_congr : ∀ {c : List A} {env env' : ℕ → Option V} (r : R),
    (∀ i < holes arity c, env i = env' i) →
      clauseHolds arity meets c env r = clauseHolds arity meets c env' r
  | [], _, _, _, _ => rfl
  | a :: c, env, env', r, h => by
    have hsum : holes arity (a :: c) = arity a + holes arity c := by simp [holes]
    rw [hsum] at h
    have hargs : (List.range (arity a)).map env = (List.range (arity a)).map env' :=
      List.map_congr_left fun i hi => h i (by have := List.mem_range.1 hi; omega)
    rw [clauseHolds, clauseHolds, hargs,
      clauseHolds_congr r fun i hi => h (arity a + i) (Nat.add_lt_add_left hi _)]

/-- `w` lists clauses, each with the values meant for it. -/
theorem holds_supplied {w : List (List A × List V)} (r : R)
    (hw : ∀ p ∈ w, p.2.length = holes arity p.1) :
    holds arity meets (w.map Prod.fst) (fun i => (w.flatMap Prod.snd)[i]?) r =
      w.all fun p => clauseHolds arity meets p.1 (fun i => p.2[i]?) r := by
  induction w with
  | nil => rfl
  | cons p w ih =>
    have hlen := hw p List.mem_cons_self
    have hown : clauseHolds arity meets p.1 (fun i => (p.2 ++ w.flatMap Prod.snd)[i]?) r =
        clauseHolds arity meets p.1 (fun i => p.2[i]?) r :=
      clauseHolds_congr r fun i hi => List.getElem?_append_left (hlen ▸ hi)
    have hrest : (fun i => (p.2 ++ w.flatMap Prod.snd)[holes arity p.1 + i]?) =
        fun i => (w.flatMap Prod.snd)[i]? := by
      funext i
      rw [← hlen, List.getElem?_append_right (by omega), Nat.add_sub_cancel_left]
    rw [List.map_cons, List.flatMap_cons, holds, hown, hrest,
      ih fun q hq => hw q (List.mem_cons_of_mem _ hq), List.all_cons]

end Conditions

end Statement

end AetherGuard
