import Mathlib.Algebra.Order.Floor.Semifield
import AetherGuard.Resampler

/-!
# Where the resampler interpolates

After `n` values the phase is `4 n` modulo 125, in units of `1 / 125`, and it has passed 1 once for
each multiple of 125 up to `4 n`. The `k`-th sample is made at the first value at or after position
`125 k / 4`, and the weight `t` is how far that value lies past the position. The value before
should therefore have the weight `t` and the present one `1 - t`; the code has them the other way
round.
-/

namespace AetherGuard

namespace Resampler

variable {a : ℕ → ℚ} {n k : ℕ}

/-- The value at which the `k`-th sample is made: `125 k / 4`, rounded up. -/
def madeAt (k : ℕ) : ℕ := (125 * k + 3) / 4

/-- How far that value lies past the position of the `k`-th sample. -/
def overshoot (k : ℕ) : ℚ := madeAt k - 125 * k / 4

/-- The `k`-th sample as the code makes it. -/
def kthSample (a : ℕ → ℚ) (k : ℕ) : Sample :=
  ⟨overshoot k, clamp (a (madeAt k - 1) * (1 - overshoot k) + a (madeAt k) * overshoot k)⟩

theorem overshoot_eq (k : ℕ) : overshoot k = ((4 * madeAt k - 125 * k : ℕ) : ℚ) / 4 := by
  have hle : 125 * k ≤ 4 * madeAt k := by
    unfold madeAt
    omega
  rw [overshoot, Nat.cast_sub hle]
  push_cast
  ring

theorem overshoot_nonneg (k : ℕ) : 0 ≤ overshoot k := by
  rw [overshoot_eq]
  positivity

theorem overshoot_lt_one (k : ℕ) : overshoot k < 1 := by
  have hlt : 4 * madeAt k - 125 * k < 4 := by
    unfold madeAt
    omega
  rw [overshoot_eq, div_lt_one (by norm_num)]
  exact_mod_cast hlt

theorem overshoot_eq_half_iff (k : ℕ) : overshoot k = 1 / 2 ↔ k % 4 = 2 := by
  have hnat : 4 * madeAt k - 125 * k = 2 ↔ k % 4 = 2 := by
    unfold madeAt
    omega
  rw [← hnat, overshoot_eq, div_eq_iff (by norm_num)]
  norm_num
  exact_mod_cast Iff.rfl

/-- The phase after `n` values. -/
def phase (n : ℕ) : ℚ := ((4 * n % 125 : ℕ) : ℚ) / 125

theorem phase_add_ratio (n : ℕ) : phase n + resampRatio = ((4 * n % 125 + 4 : ℕ) : ℚ) / 125 := by
  unfold phase resampRatio
  push_cast
  ring

theorem one_le_phase_add_ratio_iff (n : ℕ) : phase n + resampRatio ≥ 1 ↔ 125 ≤ 4 * n % 125 + 4 := by
  rw [phase_add_ratio, ge_iff_le, one_le_div (by norm_num)]
  exact_mod_cast Iff.rfl

section Step

variable {prev cur : ℚ} {samples : List Sample}

theorem step_of_lt (h : ¬ 125 ≤ 4 * n % 125 + 4) :
    step ⟨phase n, prev, samples⟩ cur = ⟨phase (n + 1), cur, samples⟩ := by
  have hmod : 4 * (n + 1) % 125 = 4 * n % 125 + 4 := by omega
  have hlt := mt (one_le_phase_add_ratio_iff n).1 h
  simp only [step, if_neg hlt]
  rw [phase_add_ratio, phase, hmod]

/-- The phase passes 1: the sample is that of the multiple of 125 between `4 n` and `4 (n + 1)`. -/
theorem step_of_le (h : 125 ≤ 4 * n % 125 + 4) :
    let t := overshoot (4 * n / 125 + 1)
    step ⟨phase n, prev, samples⟩ cur =
      ⟨phase (n + 1), cur, samples ++ [⟨t, clamp (prev * (1 - t) + cur * t)⟩]⟩ := by
  have hmod : 4 * (n + 1) % 125 = 4 * n % 125 + 4 - 125 := by omega
  have hphase : phase n + resampRatio - 1 = phase (n + 1) := by
    rw [phase_add_ratio, phase, hmod, Nat.cast_sub h]
    push_cast
    ring
  have ht : phase (n + 1) / resampRatio = overshoot (4 * n / 125 + 1) := by
    have hnat : 4 * (n + 1) % 125 = 4 * madeAt (4 * n / 125 + 1) - 125 * (4 * n / 125 + 1) := by
      unfold madeAt
      omega
    rw [overshoot_eq, ← hnat, phase, resampRatio]
    ring
  have hge := (one_le_phase_add_ratio_iff n).2 h
  simp only [step, if_pos hge, hphase, ht]

end Step

theorem after_succ (a : ℕ → ℚ) (n : ℕ) : after a (n + 1) = step (after a n) (a (n + 1)) := by
  rw [after, List.range_succ, List.map_append, Machine.run_append]
  rfl

theorem after_eq (h0 : a 0 = 0) (n : ℕ) :
    after a n = ⟨phase n, a n, (List.range (4 * n / 125)).map fun j => kthSample a (j + 1)⟩ := by
  induction n with
  | zero => simp [after, Machine.run, init, phase, h0]
  | succ n ih =>
    rw [after_succ, ih]
    by_cases hwrap : 125 ≤ 4 * n % 125 + 4
    · have hcount : 4 * (n + 1) / 125 = 4 * n / 125 + 1 := by omega
      have hmade : madeAt (4 * n / 125 + 1) = n + 1 := by
        unfold madeAt
        omega
      rw [step_of_le hwrap, hcount, List.range_succ, List.map_append]
      simp [kthSample, hmade]
    · have hcount : 4 * (n + 1) / 125 = 4 * n / 125 := by omega
      rw [step_of_lt hwrap, hcount]

theorem interpolant_eq (a : ℕ → ℚ) (k : ℕ) :
    interpolant a (125 * k / 4) =
      a (madeAt k - 1) * overshoot k + a (madeAt k) * (1 - overshoot k) := by
  have hfloor : ⌊(125 * k / 4 : ℚ)⌋₊ = 125 * k / 4 := by
    exact_mod_cast Nat.floor_div_eq_div (K := ℚ) (125 * k) 4
  rw [interpolant, hfloor]
  by_cases hdvd : 125 * k % 4 = 0
  · have hmade : madeAt k = 125 * k / 4 := by
      unfold madeAt
      omega
    have hexact : ((125 * k / 4 : ℕ) : ℚ) = 125 * k / 4 := by
      rw [Nat.cast_div (by omega) (by norm_num)]
      push_cast
      rfl
    have hzero : overshoot k = 0 := by
      rw [overshoot, hmade, hexact, sub_self]
    rw [hmade, hexact, hzero]
    ring
  · have hmade : madeAt k = 125 * k / 4 + 1 := by
      unfold madeAt
      omega
    have hover : overshoot k = ((125 * k / 4 : ℕ) : ℚ) + 1 - 125 * k / 4 := by
      rw [overshoot, hmade]
      push_cast
      rfl
    rw [hmade, hover, Nat.add_sub_cancel]
    ring

theorem clamp_of_mem {x : ℚ} (h : |x| ≤ 1) : clamp x = x := by
  obtain ⟨hlo, hhi⟩ := abs_le.1 h
  simp [clamp, not_lt.2 hlo, not_lt.2 hhi]

theorem abs_mix_le {x y t : ℚ} (hx : |x| ≤ 1) (hy : |y| ≤ 1) (h0 : 0 ≤ t) (h1 : t ≤ 1) :
    |x * (1 - t) + y * t| ≤ 1 := by
  rw [abs_le] at *
  constructor <;> nlinarith

theorem kthSample_eq_interpolant_iff (hbound : ∀ n, |a n| ≤ 1) (k : ℕ) :
    (kthSample a k).sample = interpolant a (125 * k / 4) ↔
      k % 4 = 2 ∨ a (madeAt k - 1) = a (madeAt k) := by
  have hclamp : (kthSample a k).sample =
      a (madeAt k - 1) * (1 - overshoot k) + a (madeAt k) * overshoot k :=
    clamp_of_mem (abs_mix_le (hbound _) (hbound _) (overshoot_nonneg k) (overshoot_lt_one k).le)
  rw [hclamp, interpolant_eq, ← sub_eq_zero, ← overshoot_eq_half_iff,
    ← sub_eq_zero (a := a (madeAt k - 1))]
  have hdiff : a (madeAt k - 1) * (1 - overshoot k) + a (madeAt k) * overshoot k -
      (a (madeAt k - 1) * overshoot k + a (madeAt k) * (1 - overshoot k)) =
        (1 - 2 * overshoot k) * (a (madeAt k - 1) - a (madeAt k)) := by
    ring
  rw [hdiff, mul_eq_zero]
  refine or_congr_left ?_
  constructor <;> intro h <;> linarith

theorem ceil_position (hk : 0 < k) : ⌈(125 * k / 4 : ℚ)⌉₊ = madeAt k := by
  have hpos : 0 < madeAt k := by
    unfold madeAt
    omega
  have hnonneg := overshoot_nonneg k
  have hlt := overshoot_lt_one k
  rw [overshoot] at hnonneg hlt
  rw [Nat.ceil_eq_iff hpos.ne', Nat.cast_sub hpos]
  push_cast
  constructor <;> linarith

/-- The count and the weights are right; the `k`-th sample is the interpolant at `125 k / 4` exactly
when its position is halfway between two values, or the two values around it are equal. -/
theorem resampler_interpolates_iff (a : ℕ → ℚ) (h0 : a 0 = 0) (hbound : ∀ n, |a n| ≤ 1) (n : ℕ) :
    (after a n).samples.length = ⌊(4 * n / 125 : ℚ)⌋₊ ∧
    ∀ j s, (after a n).samples[j]? = some s →
      0 ≤ s.t ∧ s.t < 1 ∧
      (s.sample = interpolant a (125 * (j + 1 : ℕ) / 4) ↔ (j + 1) % 4 = 2 ∨
        a (⌈(125 * (j + 1 : ℕ) / 4 : ℚ)⌉₊ - 1) = a ⌈(125 * (j + 1 : ℕ) / 4 : ℚ)⌉₊) := by
  rw [after_eq h0]
  constructor
  · have hfloor : ⌊(4 * n / 125 : ℚ)⌋₊ = 4 * n / 125 := by
      exact_mod_cast Nat.floor_div_eq_div (K := ℚ) (4 * n) 125
    rw [hfloor, List.length_map, List.length_range]
  · intro j s hs
    simp only [List.getElem?_map, Option.map_eq_some_iff] at hs
    obtain ⟨i, hi, rfl⟩ := hs
    obtain rfl : j = i := by simpa using (List.getElem?_eq_some_iff.1 hi).2
    rw [ceil_position j.succ_pos]
    exact ⟨overshoot_nonneg _, overshoot_lt_one _, kthSample_eq_interpolant_iff hbound _⟩

/-- Values that jump from 0 to 1 at the first sample: the weights are swapped. -/
theorem resampler_swaps_weights :
    let a : ℕ → ℚ := fun n => if n < 32 then 0 else 1
    (after a 32).samples = [⟨3 / 4, 3 / 4⟩] ∧ interpolant a (125 * 1 / 4) = 1 / 4 := by
  decide +kernel

theorem resampler_interpolates_iff_constant :
    (fun n : ℕ => if n = 0 then (0 : ℚ) else 1) 0 = 0 ∧
    (∀ n, |(fun n : ℕ => if n = 0 then (0 : ℚ) else 1) n| ≤ 1) ∧
    ∀ s, (after (fun n => if n = 0 then 0 else 1) 32).samples[0]? = some s →
      s.sample = interpolant (fun n => if n = 0 then 0 else 1) (125 * (0 + 1 : ℕ) / 4) := by
  have hbound : ∀ n : ℕ, |(fun n : ℕ => if n = 0 then (0 : ℚ) else 1) n| ≤ 1 := by
    intro n
    dsimp only
    split_ifs <;> norm_num
  refine ⟨rfl, hbound, fun s hs => ?_⟩
  refine ((resampler_interpolates_iff _ rfl hbound 32).2 0 s hs).2.2.2 (.inr ?_)
  decide +kernel

end Resampler

end AetherGuard
