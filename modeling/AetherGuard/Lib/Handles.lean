import Mathlib.Tactic

/-!
# Handles that are taken and given back

A log of the handles that some code takes and gives back. It is balanced if no handle is taken twice
and the handles given back are those that were taken, each once; then as many are open at its end as
at its start.
-/

namespace AetherGuard

namespace Handles

variable {H : Type*}

inductive Event (H : Type*)
  | taken (h : H)
  | given (h : H)
  deriving DecidableEq

def takes (log : List (Event H)) : List H :=
  log.filterMap fun | .taken h => some h | .given _ => none

def gives (log : List (Event H)) : List H :=
  log.filterMap fun | .taken _ => none | .given h => some h

structure Balanced (log : List (Event H)) : Prop where
  nodup : (takes log).Nodup
  perm : (takes log).Perm (gives log)

/-- The handles left open. -/
def opened (log : List (Event H)) : ℤ := (takes log).length - (gives log).length

theorem opened_append (log new : List (Event H)) :
    opened (log ++ new) = opened log + opened new := by
  simp only [opened, takes, gives, List.filterMap_append, List.length_append, Nat.cast_add]
  ring

theorem Balanced.opened_append {new : List (Event H)} (h : Balanced new) (log : List (Event H)) :
    opened (log ++ new) = opened log := by
  have hzero : opened new = 0 := by rw [opened, h.perm.length_eq, sub_self]
  rw [Handles.opened_append, hzero, add_zero]

/-- A handle that is not given back. -/
theorem not_balanced_of_notMem {log : List (Event H)} {h : H} (ht : h ∈ takes log)
    (hg : h ∉ gives log) :
    ¬ Balanced log :=
  fun hb => hg (hb.perm.mem_iff.1 ht)

end Handles

end AetherGuard
