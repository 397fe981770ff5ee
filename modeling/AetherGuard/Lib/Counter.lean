import Mathlib.Data.Int.ModEq
import Mathlib.Tactic

/-!
# Signed ring counters

A ring addressed by a 32-bit signed counter that is only ever incremented. The counter wraps
modulo `2 ^ 32` into the negative numbers, and the remainder rounds toward zero, so the slot it
points at is the count modulo the ring's size only while the count is below `2 ^ 31`.
-/

namespace AetherGuard

/-- The counter after `k` increments from zero. -/
def ticks (k : ℕ) : Int32 := (fun c => c + 1)^[k] 0

/-- `counter % n` as C computes it: the remainder takes the counter's sign. -/
def slotIndex (n counter : Int32) : ℤ := (counter % n).toInt

/-- The slot of the `k`-th item in a ring of `N`. -/
def ringSlot (N k : ℕ) : ℤ := ((k % N : ℕ) : ℤ)

theorem ticks_succ (k : ℕ) : ticks (k + 1) = ticks k + 1 :=
  Function.iterate_succ_apply' _ _ _

theorem ticks_eq (k : ℕ) : ticks k = Int32.ofNat k := by
  induction k with
  | zero => rfl
  | succ k ih => rw [ticks_succ, ih, Int32.ofNat_add]; rfl

/-- Below `2 ^ 31` modulo `2 ^ 32` the counter is the count; past it, it is `2 ^ 32` less. -/
theorem ticks_toInt (k : ℕ) : (ticks k).toInt =
    if k % 2 ^ 32 < 2 ^ 31 then ((k % 2 ^ 32 : ℕ) : ℤ) else ((k % 2 ^ 32 : ℕ) : ℤ) - 2 ^ 32 := by
  rw [ticks_eq, Int32.toInt_ofNat', Int.bmod_def]
  simp only [Int32.size]
  split_ifs <;> omega

/-- Two items less than a ring apart are in different slots. -/
theorem ringSlot_inj {N j k : ℕ} (lo : ℕ) (hj : lo ≤ j) (hj' : j < lo + N) (hk : lo ≤ k)
    (hk' : k < lo + N) (h : ringSlot N j = ringSlot N k) : j = k := by
  have hm : j % N = k % N := Int.ofNat_inj.1 h
  rcases Nat.le_total j k with hle | hle
  · have hd := Nat.eq_zero_of_dvd_of_lt ((Nat.modEq_iff_dvd' hle).1 hm) (by omega)
    omega
  · have hd := Nat.eq_zero_of_dvd_of_lt ((Nat.modEq_iff_dvd' hle).1 hm.symm) (by omega)
    omega

section Index

variable {n : Int32} {N : ℕ}

theorem slotIndex_ticks_of_lt (hn : n.toInt = N) {k : ℕ} (hk : k < 2 ^ 31) :
    slotIndex n (ticks k) = ringSlot N k := by
  have hm : k % 2 ^ 32 = k := Nat.mod_eq_of_lt (hk.trans (by norm_num))
  rw [slotIndex, Int32.toInt_mod, hn, ticks_toInt, hm, if_pos hk, ringSlot,
    Int.ofNat_tmod]

theorem ticks_modEq (hd : N ∣ 2 ^ 31) (k : ℕ) : (ticks k).toInt ≡ k [ZMOD N] := by
  have hd' : (N : ℤ) ∣ 2 ^ 32 := by
    have h31 : (N : ℤ) ∣ 2 ^ 31 := by exact_mod_cast hd
    exact h31.trans (pow_dvd_pow 2 (by norm_num))
  have hk : ((k % 2 ^ 32 : ℕ) : ℤ) ≡ k [ZMOD N] := by
    push_cast
    exact (Int.mod_modEq _ _).of_dvd hd'
  rw [ticks_toInt]
  split_ifs
  · exact hk
  · exact (Int.ModEq.sub hk ((Int.modEq_zero_iff_dvd).2 hd')).trans (by simp)

/-- Wrapped or not, the index is the count modulo the ring's size. -/
theorem slotIndex_modEq (hn : n.toInt = N) (hd : N ∣ 2 ^ 31) (k : ℕ) :
    slotIndex n (ticks k) ≡ k [ZMOD N] := by
  refine Int.ModEq.trans ?_ (ticks_modEq hd k)
  rw [slotIndex, Int32.toInt_mod, hn, Int.tmod_def]
  exact (Int.modEq_iff_dvd).2 ⟨(ticks k).toInt.tdiv N, by ring⟩

theorem slotIndex_succ_modEq (hn : n.toInt = N) (hd : N ∣ 2 ^ 31) (k : ℕ) :
    slotIndex n (ticks (k + 1)) ≡ slotIndex n (ticks k) + 1 [ZMOD N] := by
  have h := slotIndex_modEq hn hd (k + 1)
  push_cast at h
  exact h.trans ((slotIndex_modEq hn hd k).symm.add_right 1)

theorem slotIndex_lt (hn : n.toInt = N) (hN : 0 < N) (k : ℕ) : slotIndex n (ticks k) < N := by
  rw [slotIndex, Int32.toInt_mod, hn]
  exact Int.tmod_lt_of_pos _ (by exact_mod_cast hN)

/-- A negative counter's remainder is negative, or zero where the count is a multiple. -/
theorem slotIndex_nonneg_iff (hn : n.toInt = N) (hd : N ∣ 2 ^ 31) (k : ℕ) :
    0 ≤ slotIndex n (ticks k) ↔ k % 2 ^ 32 < 2 ^ 31 ∨ N ∣ k := by
  constructor
  · intro h
    by_contra hc
    push Not at hc
    obtain ⟨hge, hndvd⟩ := hc
    have hneg : (ticks k).toInt ≤ 0 := by
      rw [ticks_toInt, if_neg (by omega)]
      omega
    have hz : slotIndex n (ticks k) = 0 := by
      refine le_antisymm ?_ h
      rw [slotIndex, Int32.toInt_mod, hn]
      have := Int.tmod_nonneg (a := -(ticks k).toInt) N (by omega)
      rw [Int.neg_tmod] at this
      omega
    apply hndvd
    have := slotIndex_modEq hn hd k
    rw [hz] at this
    exact_mod_cast (Int.modEq_zero_iff_dvd).1 this.symm
  · rintro (h | h)
    · rw [slotIndex, Int32.toInt_mod, hn, ticks_toInt, if_pos h]
      exact Int.tmod_nonneg _ (by positivity)
    · refine le_of_eq ?_
      have hk : (N : ℤ) ∣ (ticks k).toInt :=
        (Int.modEq_zero_iff_dvd).1
          ((ticks_modEq hd k).trans ((Int.modEq_zero_iff_dvd).2 (by exact_mod_cast h)))
      rw [slotIndex, Int32.toInt_mod, hn, Int.tmod_eq_zero_of_dvd hk]

end Index

end AetherGuard
