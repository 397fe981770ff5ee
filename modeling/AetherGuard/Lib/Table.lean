import Mathlib.Tactic
import Mathlib.Data.List.Sort

/-!
# A table with a primary key

The rows of a table are a list in which no two have one key. A row that is written replaces the row
of its key, a delete takes away the rows that meet a condition, and a query lists those that meet
one, the greatest value of an attribute first. What a history of writes leaves is, for each key, the
last write of that key (`mem_foldl_insertOrReplace`).
-/

namespace AetherGuard

@[ext]
structure Table {R K : Type*} (key : R → K) where
  rows : List R
  nodup : (rows.map key).Nodup

namespace Table

variable {R K : Type*} {key : R → K} {t : Table key} {r r' x : R}

def empty : Table key := ⟨[], List.nodup_nil⟩

def deleteWhere (t : Table key) (p : R → Bool) : Table key :=
  ⟨t.rows.filter fun r => !p r, t.nodup.sublist (List.filter_sublist.map key)⟩

/-- The rows that meet `p`, in non-increasing order of `f`. -/
def selectDesc {T : Type*} [LinearOrder T] (t : Table key) (f : R → T) (p : R → Bool) : List R :=
  (t.rows.filter p).insertionSort fun a b => f b ≤ f a

/-- The rows that meet `p`, in non-decreasing order of `f`. -/
def selectAsc {T : Type*} [LinearOrder T] (t : Table key) (f : R → T) (p : R → Bool) : List R :=
  (t.rows.filter p).insertionSort fun a b => f a ≤ f b

theorem eq_of_key_eq (hr : r ∈ t.rows) (hr' : r' ∈ t.rows) (h : key r = key r') : r = r' :=
  List.inj_on_of_nodup_map t.nodup hr hr' h

theorem mem_deleteWhere {p : R → Bool} :
    r ∈ (t.deleteWhere p).rows ↔ r ∈ t.rows ∧ p r = false := by
  simp [deleteWhere]

theorem deleteWhere_eq_self {p : R → Bool} (h : ∀ r ∈ t.rows, p r = false) :
    t.deleteWhere p = t := by
  ext1
  exact List.filter_eq_self.2 fun r hr => by simp [h r hr]

section Insert

variable [DecidableEq K]

def insertOrReplace (t : Table key) (x : R) : Table key where
  rows := (t.deleteWhere fun r => key r = key x).rows ++ [x]
  nodup := by
    rw [List.map_append, List.map_singleton]
    refine (t.deleteWhere _).nodup.append (List.nodup_singleton _) ?_
    intro k hk hx
    obtain ⟨r, hr, rfl⟩ := List.mem_map.1 hk
    have hne := (mem_deleteWhere.1 hr).2
    simp_all

theorem mem_insertOrReplace :
    r ∈ (t.insertOrReplace x).rows ↔ r = x ∨ (r ∈ t.rows ∧ key r ≠ key x) := by
  simp only [insertOrReplace, List.mem_append, mem_deleteWhere, decide_eq_false_iff_not,
    List.mem_singleton]
  exact or_comm

theorem mem_foldl_insertOrReplace (xs : List R) :
    r ∈ (xs.foldl insertOrReplace (empty : Table key)).rows ↔
      xs.reverse.find? (fun x => key x = key r) = some r := by
  induction xs using List.reverseRecOn with
  | nil => simp [empty]
  | append_singleton xs x ih =>
    rw [List.foldl_append, List.foldl_cons, List.foldl_nil, mem_insertOrReplace, ih,
      List.reverse_append, List.reverse_singleton, List.singleton_append, List.find?_cons]
    by_cases hk : key x = key r
    · simp [hk, eq_comm]
    · have hne : r ≠ x := fun h => hk (congrArg key h.symm)
      simp [hk, hne, Ne.symm hk]

/-- Every table is what the writes of its rows leave. -/
theorem foldl_insertOrReplace_rows (t : Table key) :
    (t.rows.foldl insertOrReplace (empty : Table key)).rows = t.rows := by
  suffices h : ∀ (l : List R) (u : Table key), (u.rows ++ l).map key |>.Nodup →
      (l.foldl insertOrReplace u).rows = u.rows ++ l by
    simpa [empty] using h t.rows empty (by simpa [empty] using t.nodup)
  intro l
  induction l with
  | nil => simp
  | cons x l ih =>
    intro u hu
    have hfresh : ∀ r ∈ u.rows, decide (key r = key x) = false := by
      intro r hr
      rw [List.map_append, List.map_cons, List.nodup_append] at hu
      simpa using hu.2.2 (key r) (List.mem_map_of_mem hr) (key x) (by simp)
    have hrows : (u.insertOrReplace x).rows = u.rows ++ [x] :=
      congrArg (fun v : Table key => v.rows ++ [x]) (deleteWhere_eq_self hfresh)
    rw [List.foldl_cons, ih _ (by simpa [hrows] using hu), hrows, List.append_assoc,
      List.singleton_append]

end Insert

section Select

variable {T : Type*} [LinearOrder T] (f : R → T) (p : R → Bool)

theorem mem_selectDesc : r ∈ t.selectDesc f p ↔ r ∈ t.rows ∧ p r = true := by
  rw [selectDesc, (List.perm_insertionSort _ _).mem_iff, List.mem_filter]

theorem nodup_selectDesc : (t.selectDesc f p).Nodup := by
  rw [selectDesc, (List.perm_insertionSort _ _).nodup_iff]
  exact t.nodup.of_map.filter p

theorem length_selectDesc_le : (t.selectDesc f p).length ≤ t.rows.length := by
  rw [selectDesc, List.length_insertionSort]
  exact List.length_filter_le p t.rows

theorem pairwise_selectDesc : (t.selectDesc f p).Pairwise fun a b => f b ≤ f a := by
  have : Std.Total fun a b : R => f b ≤ f a := ⟨fun a b => le_total (f b) (f a)⟩
  have : IsTrans R fun a b => f b ≤ f a := ⟨fun _ _ _ hab hbc => hbc.trans hab⟩
  exact List.pairwise_insertionSort _ _

end Select

end Table

end AetherGuard
