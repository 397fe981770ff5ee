import Mathlib.Tactic

/-!
# Fixed arrays

A fixed array is a `Vector`. `memcpy` overwrites its first cells from a buffer; the cells it wrote
read back as the buffer's first (`take_memcpy`), the others are as before. `memcpyAt` starts at any
cell of the array and of the buffer, and fails when it would leave either. `store` writes one cell.
-/

namespace AetherGuard

variable {β : Type*} {m : ℕ}

/-- `dst` with its first `n` cells overwritten from `src`. -/
def memcpy (dst : Vector β m) (src : List β) (n : ℕ) : Vector β m :=
  Vector.ofFn fun i => if i < n then src.getD i dst[i] else dst[i]

theorem take_memcpy (dst : Vector β m) {src : List β} {n : ℕ} (hsrc : n ≤ src.length)
    (hm : n ≤ m) : (memcpy dst src n).toList.take n = src.take n := by
  apply List.ext_getElem
  · simp only [List.length_take, Vector.length_toList]
    omega
  · intro i h1 h2
    simp only [List.length_take, Vector.length_toList] at h1 h2
    have hi : i < src.length := by omega
    have hn : i < n := by omega
    simp [memcpy, hn, hi]

/-- `dst` with `n` cells from `pos` on overwritten by those of `src` from `offset` on, if both have
so many. -/
def memcpyAt (dst : Vector β m) (pos : ℕ) (src : List β) (offset n : ℕ) : Option (Vector β m) :=
  if pos + n ≤ m ∧ offset + n ≤ src.length then
    some (Vector.ofFn fun i =>
      if pos ≤ i ∧ i < pos + n then src.getD (offset + (i - pos)) dst[i] else dst[i])
  else none

theorem exists_memcpyAt (dst : Vector β m) {pos : ℕ} {src : List β} {offset n : ℕ}
    (hm : pos + n ≤ m) (hsrc : offset + n ≤ src.length) :
    ∃ dst', memcpyAt dst pos src offset n = some dst' ∧
      dst'.toList.take (pos + n) = dst.toList.take pos ++ (src.drop offset).take n := by
  refine ⟨_, if_pos ⟨hm, hsrc⟩, List.ext_getElem ?_ ?_⟩
  · simp only [List.length_take, List.length_append, Vector.length_toList, List.length_drop]
    omega
  · intro i h1 h2
    simp only [List.length_take, Vector.length_toList] at h1
    rcases Nat.lt_or_ge i pos with hi | hi
    · rw [List.getElem_append_left (by simp; omega)]
      simp [show ¬ pos ≤ i by omega]
    · have hlt : i < pos + n := by omega
      have hidx : offset + (i - pos) < src.length := by omega
      have hlen : (dst.toList.take pos).length = pos := by
        rw [List.length_take, Vector.length_toList]
        omega
      rw [List.getElem_append_right (by omega)]
      simp [hi, hlt, hidx, hlen]

/-- `a` with cell `i` set, as `a[i] = x` does within bounds. -/
def store (a : Vector β m) (i : ℕ) (x : β) : Vector β m := a.setIfInBounds i x

theorem take_store (a : Vector β m) {i : ℕ} (x : β) (h : i < m) :
    (store a i x).toList.take (i + 1) = a.toList.take i ++ [x] := by
  apply List.ext_getElem
  · simp only [List.length_take, List.length_append, Vector.length_toList, List.length_singleton]
    omega
  · intro j h1 h2
    simp only [List.length_take, Vector.length_toList] at h1
    rcases Nat.lt_or_ge j i with hj | hj
    · rw [List.getElem_append_left (by simp; omega)]
      simp [store, show i ≠ j by omega]
    · have : j = i := by omega
      subst this
      simp [store]

end AetherGuard
