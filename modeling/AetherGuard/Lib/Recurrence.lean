import Mathlib

/-!
# Linear recurrences driven by a sequence

`u (n + 1) = p * u n + w n` with `‖p‖ < 1` forgets where it started: it stays bounded if `w` does
(`norm_le`), and tends to 0 if `w` does (`tendsto_zero`). A recurrence of order 2 is two of order 1,
one behind the other, with the roots of its polynomial (`Stable`). Real coefficients have both roots
inside the unit circle where `|a2| < 1` and `|a1| < 1 + a2` (`stable_of_lt`).
-/

namespace AetherGuard

namespace Recurrence

open Filter Topology

section Order1

variable {𝕜 : Type*} [NormedField 𝕜] {p : 𝕜} {u w : ℕ → 𝕜} {M : ℝ}

/-- From any place on: what is left of the start, and what the drive adds up to. -/
theorem norm_le_pow (hp : ‖p‖ < 1) (h : ∀ n, u (n + 1) = p * u n + w n) {N : ℕ}
    (hw : ∀ n, N ≤ n → ‖w n‖ ≤ M) :
    ∀ k, ‖u (N + k)‖ ≤ ‖p‖ ^ k * ‖u N‖ + M / (1 - ‖p‖)
  | 0 => by
    have hM : 0 ≤ M := (norm_nonneg _).trans (hw N le_rfl)
    have hpos : 0 < 1 - ‖p‖ := by linarith
    have := div_nonneg hM hpos.le
    simpa using this
  | k + 1 => by
    have hpos : 0 < 1 - ‖p‖ := by linarith
    have ih := norm_le_pow hp h hw k
    have hstep : ‖u (N + (k + 1))‖ ≤ ‖p‖ * ‖u (N + k)‖ + M := by
      rw [← add_assoc, h, ← norm_mul]
      exact (norm_add_le _ _).trans (add_le_add le_rfl (hw _ (Nat.le_add_right N k)))
    have hsum : M / (1 - ‖p‖) = ‖p‖ * (M / (1 - ‖p‖)) + M := by
      field_simp
      ring
    calc ‖u (N + (k + 1))‖ ≤ ‖p‖ * ‖u (N + k)‖ + M := hstep
      _ ≤ ‖p‖ * (‖p‖ ^ k * ‖u N‖ + M / (1 - ‖p‖)) + M := by gcongr
      _ = ‖p‖ ^ (k + 1) * ‖u N‖ + (‖p‖ * (M / (1 - ‖p‖)) + M) := by ring
      _ = ‖p‖ ^ (k + 1) * ‖u N‖ + M / (1 - ‖p‖) := by rw [← hsum]

theorem norm_le (hp : ‖p‖ < 1) (h : ∀ n, u (n + 1) = p * u n + w n) (hw : ∀ n, ‖w n‖ ≤ M)
    (n : ℕ) : ‖u n‖ ≤ ‖u 0‖ + M / (1 - ‖p‖) := by
  have hle := norm_le_pow hp h (N := 0) (fun n _ => hw n) n
  rw [zero_add] at hle
  have hpow : ‖p‖ ^ n * ‖u 0‖ ≤ ‖u 0‖ :=
    mul_le_of_le_one_left (norm_nonneg _) (pow_le_one₀ (norm_nonneg _) hp.le)
  linarith

theorem tendsto_zero (hp : ‖p‖ < 1) (h : ∀ n, u (n + 1) = p * u n + w n)
    (hw : Tendsto w atTop (𝓝 0)) : Tendsto u atTop (𝓝 0) := by
  have hpos : 0 < 1 - ‖p‖ := by linarith
  rw [Metric.tendsto_atTop]
  intro ε hε
  obtain ⟨N, hN⟩ := (Metric.tendsto_atTop.1 hw) (ε / 2 * (1 - ‖p‖)) (by positivity)
  have hdrive : ∀ n, N ≤ n → ‖w n‖ ≤ ε / 2 * (1 - ‖p‖) := by
    intro n hn
    rw [← dist_zero_right]
    exact (hN n hn).le
  have hpow : Tendsto (fun k => ‖p‖ ^ k * ‖u N‖) atTop (𝓝 0) := by
    simpa using (tendsto_pow_atTop_nhds_zero_of_lt_one (norm_nonneg p) hp).mul_const ‖u N‖
  obtain ⟨K, hK⟩ := (Metric.tendsto_atTop.1 hpow) (ε / 2) (by positivity)
  refine ⟨N + K, fun n hn => ?_⟩
  obtain ⟨k, rfl⟩ := Nat.exists_eq_add_of_le (le_of_add_le_left hn)
  have hle := norm_le_pow hp h hdrive k
  have hstart := hK k (by omega)
  rw [Real.dist_0_eq_abs, abs_of_nonneg (by positivity)] at hstart
  rw [mul_div_assoc, div_self hpos.ne', mul_one] at hle
  rw [dist_zero_right]
  linarith

end Order1

section Order2

/-- The roots of `z ^ 2 + a1 * z + a2` lie inside the unit circle. -/
def Stable (a1 a2 : ℝ) : Prop :=
  ∃ p q : ℂ, p + q = -a1 ∧ p * q = a2 ∧ ‖p‖ < 1 ∧ ‖q‖ < 1

variable {a1 a2 : ℝ} {y w : ℕ → ℂ} {M : ℝ}

/-- With real roots: `√D < 2 - |a1|` for the discriminant `D`. -/
theorem stable_of_real (h2 : |a2| < 1) (h1 : |a1| < 1 + a2) (hD : 0 ≤ a1 ^ 2 - 4 * a2) :
    Stable a1 a2 := by
  have ha2 := (abs_lt.1 h2).2
  have hroot : √(a1 ^ 2 - 4 * a2) < 2 - |a1| := by
    rw [Real.sqrt_lt' (by linarith)]
    nlinarith [sq_abs a1]
  have hsq := Real.sq_sqrt hD
  have hnonneg := Real.sqrt_nonneg (a1 ^ 2 - 4 * a2)
  set r := √(a1 ^ 2 - 4 * a2)
  have hlt : ∀ x : ℝ, |x| = r → ‖(((-a1 + x) / 2 : ℝ) : ℂ)‖ < 1 := by
    intro x hx
    rw [Complex.norm_real, Real.norm_eq_abs, abs_div, abs_two, div_lt_one two_pos]
    have htri := abs_add_le (-a1) x
    rw [abs_neg] at htri
    linarith
  refine ⟨((-a1 + r) / 2 : ℝ), ((-a1 + -r) / 2 : ℝ), ?_, ?_, hlt r (abs_of_nonneg hnonneg),
    hlt (-r) (by rw [abs_neg, abs_of_nonneg hnonneg])⟩
  · rw [← Complex.ofReal_add, ← Complex.ofReal_neg]
    congr 1
    ring
  · rw [← Complex.ofReal_mul]
    congr 1
    linarith [hsq]

/-- With a pair of conjugate roots: the square of their norm is `a2`. -/
theorem stable_of_conj (h2 : |a2| < 1) (hD : a1 ^ 2 - 4 * a2 < 0) : Stable a1 a2 := by
  have hsq := Real.sq_sqrt (show 0 ≤ -(a1 ^ 2 - 4 * a2) by linarith)
  set r := √(-(a1 ^ 2 - 4 * a2))
  have hlt : ∀ x : ℝ, x ^ 2 = r ^ 2 → ‖(⟨-a1 / 2, x / 2⟩ : ℂ)‖ < 1 := by
    intro x hx
    rw [← sq_lt_one_iff₀ (norm_nonneg _), Complex.sq_norm, Complex.normSq_mk]
    nlinarith [(abs_lt.1 h2).2]
  refine ⟨⟨-a1 / 2, r / 2⟩, ⟨-a1 / 2, -r / 2⟩, ?_, ?_, hlt r rfl, hlt (-r) (neg_sq r)⟩
  · apply Complex.ext
    · rw [Complex.add_re, Complex.neg_re, Complex.ofReal_re]
      ring
    · rw [Complex.add_im, Complex.neg_im, Complex.ofReal_im]
      ring
  · apply Complex.ext
    · rw [Complex.mul_re, Complex.ofReal_re]
      linarith [hsq]
    · rw [Complex.mul_im, Complex.ofReal_im]
      ring

theorem stable_of_lt (h2 : |a2| < 1) (h1 : |a1| < 1 + a2) : Stable a1 a2 := by
  rcases le_or_gt 0 (a1 ^ 2 - 4 * a2) with hD | hD
  · exact stable_of_real h2 h1 hD
  · exact stable_of_conj h2 hD

/-- The part that one root leaves follows the other root. -/
theorem order1_of_order2 {p q : ℂ} (hsum : p + q = -a1) (hprod : p * q = a2)
    (h : ∀ n, y (n + 2) = -a1 * y (n + 1) - a2 * y n + w n) (n : ℕ) :
    y (n + 2) - p * y (n + 1) = q * (y (n + 1) - p * y n) + w n := by
  rw [h, ← hsum, ← hprod]
  ring

/-- Bounded by a multiple of what drives it and of where it starts. -/
theorem Stable.norm_le (hs : Stable a1 a2) : ∃ K : ℝ, 0 ≤ K ∧ ∀ (y w : ℕ → ℂ) (M : ℝ),
    (∀ n, y (n + 2) = -a1 * y (n + 1) - a2 * y n + w n) → ‖y 0‖ ≤ M → ‖y 1‖ ≤ M →
      (∀ n, ‖w n‖ ≤ M) → ∀ n, ‖y n‖ ≤ K * M := by
  obtain ⟨p, q, hsum, hprod, hp, hq⟩ := hs
  have hp' : 0 < 1 - ‖p‖ := by linarith
  have hq' : 0 < 1 - ‖q‖ := by linarith
  refine ⟨1 + (1 + ‖p‖ + 1 / (1 - ‖q‖)) / (1 - ‖p‖), by positivity, fun y w M h h0 h1 hw n => ?_⟩
  have hM : 0 ≤ M := (norm_nonneg _).trans h0
  have hinner : ∀ n, ‖y (n + 1) - p * y n‖ ≤ (1 + ‖p‖ + 1 / (1 - ‖q‖)) * M := by
    intro n
    have hle := Recurrence.norm_le hq (u := fun n => y (n + 1) - p * y n)
      (order1_of_order2 hsum hprod h) hw n
    have hstart : ‖y 1 - p * y 0‖ ≤ M + ‖p‖ * M := by
      refine (norm_sub_le _ _).trans (add_le_add h1 ?_)
      rw [norm_mul]
      gcongr
    calc ‖y (n + 1) - p * y n‖ ≤ ‖y 1 - p * y 0‖ + M / (1 - ‖q‖) := hle
      _ ≤ M + ‖p‖ * M + M / (1 - ‖q‖) := by gcongr
      _ = (1 + ‖p‖ + 1 / (1 - ‖q‖)) * M := by ring
  have houter := Recurrence.norm_le hp (u := y) (w := fun n => y (n + 1) - p * y n)
    (fun n => by ring) hinner n
  calc ‖y n‖ ≤ ‖y 0‖ + (1 + ‖p‖ + 1 / (1 - ‖q‖)) * M / (1 - ‖p‖) := houter
    _ ≤ M + (1 + ‖p‖ + 1 / (1 - ‖q‖)) * M / (1 - ‖p‖) := by gcongr
    _ = (1 + (1 + ‖p‖ + 1 / (1 - ‖q‖)) / (1 - ‖p‖)) * M := by ring

theorem Stable.tendsto_zero (hs : Stable a1 a2)
    (h : ∀ n, y (n + 2) = -a1 * y (n + 1) - a2 * y n + w n) (hw : Tendsto w atTop (𝓝 0)) :
    Tendsto y atTop (𝓝 0) := by
  obtain ⟨p, q, hsum, hprod, hp, hq⟩ := hs
  have hinner : Tendsto (fun n => y (n + 1) - p * y n) atTop (𝓝 0) :=
    Recurrence.tendsto_zero hq (order1_of_order2 hsum hprod h) hw
  exact Recurrence.tendsto_zero hp (fun n => by ring) hinner

end Order2

end Recurrence

end AetherGuard
