import AetherGuard.Lib.Recurrence
import AetherGuard.FmDemod

/-!
# The low-pass filters

Without rounding a filter's outputs are the solution of its equation (`outputs_unique`), so that I
and Q through two filters are `I + iQ` through one. A filter whose poles lie inside the unit circle
forgets how it started: bounded inputs give bounded outputs, and inputs close to `A * z ^ n` give
outputs close to it times the gain at `z`. The poles of `lowPass` do so for every cutoff below half
the sample rate; its gain is 1 at rest and 0 at half the sample rate only.
-/

namespace AetherGuard

namespace Daemon

open Filter Topology

namespace Biquad

section Ring

variable {R : Type*} [CommRing R] {f : Biquad R} {x y : ℕ → R} {n : ℕ}

/-- As it is made, and after a reset. -/
def Fresh (f : Biquad R) : Prop := f.x1 = 0 ∧ f.x2 = 0 ∧ f.y1 = 0 ∧ f.y2 = 0

/-- Without rounding. -/
theorem process_id (f : Biquad R) (x : R) : f.process id x
    = (f.b0 * x + f.b1 * f.x1 + f.b2 * f.x2 - f.a1 * f.y1 - f.a2 * f.y2,
      { f with
        x1 := x
        x2 := f.x1
        y1 := f.b0 * x + f.b1 * f.x1 + f.b2 * f.x2 - f.a1 * f.y1 - f.a2 * f.y2
        y2 := f.y1 }) := rfl

theorem after_succ (f : Biquad R) (x : ℕ → R) (n : ℕ) :
    f.after id x (n + 1) = { f with
      x1 := x n
      x2 := (f.after id x n).x1
      y1 := f.outputs id x n
      y2 := (f.after id x n).y1 } := by
  induction n with
  | zero => rfl
  | succ n ih =>
    rw [after, process_id, outputs, process_id]
    simp only [ih]

theorem outputs_zero (h : f.Fresh) : f.outputs id x 0 = f.b0 * x 0 := by
  obtain ⟨h1, h2, h3, h4⟩ := h
  simp only [outputs, after, process_id, h1, h2, h3, h4]
  ring

theorem outputs_one (h : f.Fresh) :
    f.outputs id x 1 = f.b0 * x 1 + f.b1 * x 0 - f.a1 * f.outputs id x 0 := by
  obtain ⟨h1, -, h3, -⟩ := h
  rw [outputs, process_id, after_succ]
  simp only [after, h1, h3]
  ring

theorem outputs_add_two : f.outputs id x (n + 2) = f.b0 * x (n + 2) + f.b1 * x (n + 1) + f.b2 * x n
    - f.a1 * f.outputs id x (n + 1) - f.a2 * f.outputs id x n := by
  rw [outputs, process_id, after_succ, after_succ]

/-- The outputs are what satisfies the filter's equation. -/
theorem outputs_unique (h : f.Fresh) (h0 : y 0 = f.b0 * x 0)
    (h1 : y 1 = f.b0 * x 1 + f.b1 * x 0 - f.a1 * y 0)
    (h2 : ∀ n, y (n + 2) = f.b0 * x (n + 2) + f.b1 * x (n + 1) + f.b2 * x n - f.a1 * y (n + 1)
      - f.a2 * y n) : f.outputs id x = y := by
  funext n
  induction n using Nat.twoStepInduction with
  | zero => rw [outputs_zero h, h0]
  | one => rw [outputs_one h, outputs_zero h, h1, h0]
  | more n ih ih' => rw [outputs_add_two, ih, ih', h2]

end Ring

section Complex

variable {f : Biquad ℝ} {i q : ℕ → ℝ}

/-- The filter on complex inputs. -/
def toComplex (f : Biquad ℝ) : Biquad ℂ :=
  ⟨f.b0, f.b1, f.b2, f.a1, f.a2, f.x1, f.x2, f.y1, f.y2⟩

theorem Fresh.toComplex (h : f.Fresh) : f.toComplex.Fresh := by
  obtain ⟨h1, h2, h3, h4⟩ := h
  simp [Fresh, Biquad.toComplex, h1, h2, h3, h4]

/-- I and Q through two filters are `I + iQ` through one. -/
theorem outputs_toComplex (h : f.Fresh) (i q : ℕ → ℝ) :
    f.toComplex.outputs id (fun n => ⟨i n, q n⟩) = fun n =>
      ⟨f.outputs id i n, f.outputs id q n⟩ := by
  refine outputs_unique h.toComplex ?_ ?_ fun n => ?_
  · apply Complex.ext
    · simp [outputs_zero h, toComplex]
    · simp [outputs_zero h, toComplex]
  · apply Complex.ext
    · simp [outputs_one h, toComplex]
    · simp [outputs_one h, toComplex]
  · apply Complex.ext
    · simp [outputs_add_two, toComplex]
    · simp [outputs_add_two, toComplex]

/-- The factor at which a stable filter passes on `z ^ n`. -/
noncomputable def gain (f : Biquad ℝ) (z : ℂ) : ℂ :=
  (f.b0 * z ^ 2 + f.b1 * z + f.b2) / (z ^ 2 + f.a1 * z + f.a2)

/-- The filter forgets its inputs. -/
def Stable (f : Biquad ℝ) : Prop := Recurrence.Stable f.a1 f.a2

theorem Stable.denom_ne_zero (hs : f.Stable) {z : ℂ} (hz : ‖z‖ = 1) :
    z ^ 2 + f.a1 * z + f.a2 ≠ 0 := by
  obtain ⟨p, q, hsum, hprod, hp, hq⟩ := hs
  have hfactor : z ^ 2 + f.a1 * z + f.a2 = (z - p) * (z - q) := by
    rw [← hprod, show (f.a1 : ℂ) = -(p + q) by rw [hsum, neg_neg]]
    ring
  rw [hfactor]
  refine mul_ne_zero ?_ ?_
  · rw [sub_ne_zero]
    rintro rfl
    exact hp.ne hz
  · rw [sub_ne_zero]
    rintro rfl
    exact hq.ne hz

/-- Inputs that come close to `A * z ^ n` give outputs that come close to it, times the gain. -/
theorem Stable.outputs_tendsto (hs : f.Stable) {z : ℂ} (hz : ‖z‖ = 1) {A : ℂ} {x : ℕ → ℂ}
    (hx : Tendsto (fun n => x n - A * z ^ n) atTop (𝓝 0)) :
    Tendsto (fun n => f.toComplex.outputs id x n - f.gain z * A * z ^ n) atTop (𝓝 0) := by
  have hdenom := hs.denom_ne_zero hz
  have hgain : f.gain z * (z ^ 2 + f.a1 * z + f.a2) = f.b0 * z ^ 2 + f.b1 * z + f.b2 :=
    div_mul_cancel₀ _ hdenom
  have hshift : ∀ k, Tendsto (fun n => x (n + k) - A * z ^ (n + k)) atTop (𝓝 0) :=
    fun k => hx.comp (tendsto_add_atTop_nat k)
  refine Recurrence.Stable.tendsto_zero hs (w := fun n => f.b0 * (x (n + 2) - A * z ^ (n + 2))
    + f.b1 * (x (n + 1) - A * z ^ (n + 1)) + f.b2 * (x n - A * z ^ n)) (fun n => ?_) ?_
  · simp only [outputs_add_two, toComplex]
    have hpow : f.gain z * A * z ^ n * (z ^ 2 + f.a1 * z + f.a2)
        = A * z ^ n * (f.b0 * z ^ 2 + f.b1 * z + f.b2) := by
      rw [← hgain]
      ring
    linear_combination -hpow
  · have hsum := (((hshift 2).const_mul (f.b0 : ℂ)).add ((hshift 1).const_mul (f.b1 : ℂ))).add
      (hx.const_mul (f.b2 : ℂ))
    simpa using hsum

theorem outputs_ofReal (h : f.Fresh) (x : ℕ → ℝ) :
    f.toComplex.outputs id (fun n => (x n : ℂ)) = fun n => ((f.outputs id x n : ℝ) : ℂ) := by
  refine outputs_unique h.toComplex ?_ ?_ fun n => ?_
  · rw [outputs_zero h]
    push_cast
    rfl
  · rw [outputs_one h]
    push_cast
    rfl
  · rw [outputs_add_two]
    push_cast
    rfl

/-- With a gain of 1 at rest, outputs settle where the inputs do. -/
theorem Stable.outputs_settle (hs : f.Stable) (h : f.Fresh) (hgain : f.gain 1 = 1) {x : ℕ → ℝ}
    {L : ℝ} (hx : Tendsto x atTop (𝓝 L)) : Tendsto (f.outputs id x) atTop (𝓝 L) := by
  have hin : Tendsto (fun n => (x n : ℂ) - L * 1 ^ n) atTop (𝓝 0) := by
    have hre := (Complex.continuous_ofReal.tendsto L).comp hx
    simpa using hre.sub_const (L : ℂ)
  have hout := hs.outputs_tendsto norm_one hin
  rw [outputs_ofReal h] at hout
  simp only [hgain, one_pow, mul_one, one_mul] at hout
  have hre := (Complex.continuous_re.tendsto 0).comp hout
  have hsub : Tendsto (fun n => f.outputs id x n - L) atTop (𝓝 0) := by
    simpa [Function.comp_def] using hre
  simpa using hsub.add_const L

/-- Bounded inputs give outputs bounded by a multiple of the bound, the same for all of them. -/
theorem Stable.outputs_le (hs : f.Stable) (h : f.Fresh) : ∃ K : ℝ, ∀ (x : ℕ → ℝ) (M : ℝ),
    (∀ n, |x n| ≤ M) → ∀ n, |f.outputs id x n| ≤ K * M := by
  obtain ⟨K, hK, hbound⟩ := Recurrence.Stable.norm_le hs
  set C := |f.b0| + |f.b1| + |f.b2| + |f.a1| * |f.b0| with hC
  refine ⟨K * C, fun x M hx n => ?_⟩
  have hmul : ∀ (b : ℝ) n, |b * x n| ≤ |b| * M := by
    intro b n
    rw [abs_mul]
    exact mul_le_mul_of_nonneg_left (hx n) (abs_nonneg b)
  have hM : 0 ≤ M := (abs_nonneg _).trans (hx 0)
  have hb1 : 0 ≤ |f.b1| * M := by positivity
  have hb2 : 0 ≤ |f.b2| * M := by positivity
  have hab : 0 ≤ |f.a1| * |f.b0| * M := by positivity
  have hCM : C * M = |f.b0| * M + |f.b1| * M + |f.b2| * M + |f.a1| * |f.b0| * M := by
    rw [hC]
    ring
  have hle := hbound (fun n => ((f.outputs id x n : ℝ) : ℂ))
    (fun n => ((f.b0 * x (n + 2) + f.b1 * x (n + 1) + f.b2 * x n : ℝ) : ℂ)) (C * M) (fun n => ?_) ?_
    ?_ (fun n => ?_) n
  · rw [Complex.norm_real, Real.norm_eq_abs] at hle
    linarith
  · rw [outputs_add_two]
    push_cast
    ring
  · rw [Complex.norm_real, Real.norm_eq_abs, outputs_zero h, hCM]
    have := hmul f.b0 0
    linarith
  · rw [Complex.norm_real, Real.norm_eq_abs, outputs_one h, outputs_zero h, hCM]
    have htri := abs_sub (f.b0 * x 1 + f.b1 * x 0) (f.a1 * (f.b0 * x 0))
    have hsum := abs_add_le (f.b0 * x 1) (f.b1 * x 0)
    have hlast : |f.a1 * (f.b0 * x 0)| ≤ |f.a1| * |f.b0| * M := by
      rw [abs_mul, mul_assoc]
      exact mul_le_mul_of_nonneg_left (hmul f.b0 0) (abs_nonneg _)
    have h0 := hmul f.b0 1
    have h1 := hmul f.b1 0
    linarith
  · rw [Complex.norm_real, Real.norm_eq_abs, hCM]
    have htri := abs_add_three (f.b0 * x (n + 2)) (f.b1 * x (n + 1)) (f.b2 * x n)
    have h0 := hmul f.b0 (n + 2)
    have h1 := hmul f.b1 (n + 1)
    have h2 := hmul f.b2 n
    linarith

end Complex

section LowPass

variable {fc fs Q : ℝ}

theorem lowPass_exact (fc fs Q : ℝ) : lowPass .exact fc fs Q =
    let w0 := 2 * Real.pi * fc / fs
    let alpha := Real.sin w0 / (2 * Q)
    { b0 := (1 - Real.cos w0) / 2 / (1 + alpha)
      b1 := (1 - Real.cos w0) / (1 + alpha)
      b2 := (1 - Real.cos w0) / 2 / (1 + alpha)
      a1 := -2 * Real.cos w0 / (1 + alpha)
      a2 := (1 - alpha) / (1 + alpha)
      x1 := 0
      x2 := 0
      y1 := 0
      y2 := 0 } := rfl

theorem lowPass_fresh (fc fs Q : ℝ) : (lowPass .exact fc fs Q).Fresh := ⟨rfl, rfl, rfl, rfl⟩

/-- Below half the sample rate the angle lies within the upper half circle. -/
theorem sin_pos_of_lt (hfc : 0 < fc) (hfs : fc < fs / 2) :
    0 < Real.sin (2 * Real.pi * fc / fs) := by
  have hpos : 0 < fs := by linarith
  refine Real.sin_pos_of_pos_of_lt_pi (by positivity) ?_
  rw [div_lt_iff₀ hpos]
  nlinarith [Real.pi_pos]

theorem abs_cos_lt_one {w : ℝ} (h : 0 < Real.sin w) : |Real.cos w| < 1 := by
  rw [← sq_lt_one_iff_abs_lt_one]
  nlinarith [Real.sin_sq_add_cos_sq w, mul_pos h h]

theorem lowPass_stable (hfc : 0 < fc) (hfs : fc < fs / 2) (hQ : 0 < Q) :
    (lowPass .exact fc fs Q).Stable := by
  have hsin := sin_pos_of_lt hfc hfs
  have hcos := abs_lt.1 (abs_cos_lt_one hsin)
  set w := 2 * Real.pi * fc / fs
  have halpha : 0 < Real.sin w / (2 * Q) := by positivity
  set alpha := Real.sin w / (2 * Q)
  have ha0 : 0 < 1 + alpha := by linarith
  refine Recurrence.stable_of_lt ?_ ?_
  · show |(1 - alpha) / (1 + alpha)| < 1
    rw [abs_div, abs_of_pos ha0, div_lt_one ha0, abs_lt]
    constructor <;> linarith
  · show |-2 * Real.cos w / (1 + alpha)| < 1 + (1 - alpha) / (1 + alpha)
    have hsum : 1 + (1 - alpha) / (1 + alpha) = 2 / (1 + alpha) := by
      field_simp
      ring
    rw [hsum, abs_div, abs_of_pos ha0, div_lt_div_iff_of_pos_right ha0, abs_lt]
    constructor <;> linarith

/-- The numerator has its double zero at half the sample rate. -/
theorem lowPass_numerator (fc fs Q : ℝ) (z : ℂ) :
    (lowPass .exact fc fs Q).b0 * z ^ 2 + (lowPass .exact fc fs Q).b1 * z
    + (lowPass .exact fc fs Q).b2
      = (lowPass .exact fc fs Q).b0 * (z + 1) ^ 2 := by
  simp only [lowPass_exact]
  push_cast
  ring

theorem lowPass_gain_one (hfc : 0 < fc) (hfs : fc < fs / 2) (hQ : 0 < Q) :
    (lowPass .exact fc fs Q).gain 1 = 1 := by
  have hdenom := (lowPass_stable hfc hfs hQ).denom_ne_zero norm_one
  rw [gain, div_eq_one_iff_eq hdenom, lowPass_numerator]
  have hsin := sin_pos_of_lt hfc hfs
  set w := 2 * Real.pi * fc / fs with hw
  have ha0 : 1 + Real.sin w / (2 * Q) ≠ 0 := by positivity
  simp only [lowPass_exact, ← hw]
  have hreal : (1 - Real.cos w) / 2 / (1 + Real.sin w / (2 * Q)) * (1 + 1) ^ 2
      = 1 ^ 2 + -2 * Real.cos w / (1 + Real.sin w / (2 * Q)) * 1
        + (1 - Real.sin w / (2 * Q)) / (1 + Real.sin w / (2 * Q)) := by
    field_simp
    ring
  exact_mod_cast congrArg Complex.ofReal hreal

theorem lowPass_gain_ne_zero (hfc : 0 < fc) (hfs : fc < fs / 2) (hQ : 0 < Q) {z : ℂ}
    (hz : ‖z‖ = 1) (hne : z ≠ -1) : (lowPass .exact fc fs Q).gain z ≠ 0 := by
  have hsin := sin_pos_of_lt hfc hfs
  have hcos := (abs_lt.1 (abs_cos_lt_one hsin)).2
  have hb0 : (lowPass .exact fc fs Q).b0 ≠ 0 := by
    simp only [lowPass_exact]
    set w := 2 * Real.pi * fc / fs
    have h1 : 0 < 1 - Real.cos w := by linarith
    positivity
  rw [gain, lowPass_numerator]
  refine div_ne_zero (mul_ne_zero (Complex.ofReal_ne_zero.2 hb0) (pow_ne_zero 2 ?_))
    ((lowPass_stable hfc hfs hQ).denom_ne_zero hz)
  rwa [Ne, add_eq_zero_iff_eq_neg]

end LowPass

end Biquad

/-- Without rounding, every low-pass filter with its cutoff below half the sample rate keeps bounded
inputs bounded, by one factor for all of them, and settles where its input does. -/
theorem lowPass_bounded_settles {fc fs Q : ℝ} (hfc : 0 < fc) (hfs : fc < fs / 2) (hQ : 0 < Q) :
    (∃ K : ℝ, ∀ (x : ℕ → ℝ) (M : ℝ), (∀ n, |x n| ≤ M) →
        ∀ n, |(Biquad.lowPass .exact fc fs Q).outputs id x n| ≤ K * M)
      ∧ ∀ (x : ℕ → ℝ) (L : ℝ), Tendsto x atTop (𝓝 L) →
        Tendsto ((Biquad.lowPass .exact fc fs Q).outputs id x) atTop (𝓝 L) := by
  have hstable := Biquad.lowPass_stable hfc hfs hQ
  have hfresh := Biquad.lowPass_fresh fc fs Q
  exact ⟨hstable.outputs_le hfresh,
    fun x L => hstable.outputs_settle hfresh (Biquad.lowPass_gain_one hfc hfs hQ)⟩

/-- The first audio filter on a constant. -/
theorem lowPass_bounded_settles_audio :
    Tendsto ((Biquad.lowPass .exact 15000 500000 (5412 / 10000)).outputs id fun _ => 1) atTop
      (𝓝 1) :=
  (lowPass_bounded_settles (by norm_num) (by norm_num) (by norm_num)).2 _ 1 tendsto_const_nhds

end Daemon

end AetherGuard
