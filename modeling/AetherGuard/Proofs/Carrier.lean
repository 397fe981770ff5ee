import AetherGuard.Proofs.FmDemod

/-!
# A steady carrier gives a steady level

A carrier that is `ω` per sample off the tuned frequency comes out of the channel filters as itself,
times their gains, once they have forgotten how they started. The change of its phase is then close
to `ω` (`wrap_arg_sub` takes the turns out), the audio filters and the de-emphasis settle there, and
every value that the resampler makes lies between two of theirs.
-/

namespace AetherGuard

namespace Daemon

open Filter Topology

namespace FmDemod

/-! ### The discriminator -/

/-- The tests take one turn out, in either direction. -/
theorem wrap_add_turn {r : ℝ} (hlo : -Real.pi < r) (hhi : r < Real.pi) {k : ℤ}
    (hk : k = -1 ∨ k = 0 ∨ k = 1) : wrap .exact (r + 2 * Real.pi * k) = r := by
  have hpi : Arith.exact.pi = Real.pi := rfl
  have hsingle : Arith.exact.single = id := rfl
  have hdouble : Arith.exact.double = id := rfl
  simp only [wrap, hpi, hsingle, hdouble, id_eq]
  rcases hk with rfl | rfl | rfl <;> push_cast <;> split_ifs <;> linarith

/-- The difference of two phases, less the turns, is the phase of the quotient. -/
theorem wrap_arg_sub {x y : ℂ} (hx : x ≠ 0) (hy : y ≠ 0) (hslit : y / x ∈ Complex.slitPlane) :
    wrap .exact (y.arg - x.arg) = (y / x).arg := by
  have hangle : ((y.arg - x.arg : ℝ) : Real.Angle) = ((y / x).arg : ℝ) := by
    rw [Complex.arg_div_coe_angle hy hx]
    rfl
  obtain ⟨k, hk⟩ := Real.Angle.angle_eq_iff_two_pi_dvd_sub.1 hangle
  have hlt := (Complex.arg_le_pi (y / x)).lt_of_ne (Complex.mem_slitPlane_iff_arg.1 hslit).1
  have hgt := Complex.neg_pi_lt_arg (y / x)
  have hpi := Real.pi_pos
  have hx1 := Complex.neg_pi_lt_arg x
  have hx2 := Complex.arg_le_pi x
  have hy1 := Complex.neg_pi_lt_arg y
  have hy2 := Complex.arg_le_pi y
  -- the two differ by less than one turn and a half
  have hklt : k < 2 := by
    have : (k : ℝ) < 2 := by nlinarith
    exact_mod_cast this
  have hkgt : -2 < k := by
    have : -2 < (k : ℝ) := by nlinarith
    exact_mod_cast this
  rw [sub_eq_iff_eq_add'] at hk
  rw [hk]
  exact wrap_add_turn hgt hlt (by omega)

section Carrier

variable {i q : ℕ → ℝ} {A z : ℂ} {ω : ℝ}

/-- The filtered samples, as `I + iQ`. -/
noncomputable def filtered (i q : ℕ → ℝ) (n : ℕ) : ℂ := ⟨filteredI i n, filteredI q n⟩

theorem filtered_eq (i q : ℕ → ℝ) : filtered i q
    = Arith.exact.ch2.toComplex.outputs id
      (Arith.exact.ch1.toComplex.outputs id fun n => ⟨i n, q n⟩) := by
  have hch1 : Arith.exact.ch1.Fresh := Biquad.lowPass_fresh _ _ _
  have hch2 : Arith.exact.ch2.Fresh := Biquad.lowPass_fresh _ _ _
  rw [Biquad.outputs_toComplex hch1, Biquad.outputs_toComplex hch2]
  rfl

theorem double_pos {x : ℝ} (h : 0 < x) : 0 < Arith.exact.double x := h

/-- The factor at which both channel filters pass on `z ^ n`. -/
noncomputable def channelGain (z : ℂ) : ℂ := Arith.exact.ch2.gain z * Arith.exact.ch1.gain z

theorem channelGain_ne_zero (hz : ‖z‖ = 1) (hne : z ≠ -1) : channelGain z ≠ 0 :=
  mul_ne_zero
    (Biquad.lowPass_gain_ne_zero (by norm_num) (by norm_num) (double_pos (by norm_num)) hz hne)
    (Biquad.lowPass_gain_ne_zero (by norm_num) (by norm_num) (double_pos (by norm_num)) hz hne)

theorem filtered_tendsto (hz : ‖z‖ = 1)
    (hin : Tendsto (fun n => (⟨i n, q n⟩ : ℂ) - A * z ^ n) atTop (𝓝 0)) :
    Tendsto (fun n => filtered i q n - channelGain z * A * z ^ n) atTop (𝓝 0) := by
  have hch1 : Arith.exact.ch1.Stable :=
    Biquad.lowPass_stable (by norm_num) (by norm_num) (double_pos (by norm_num))
  have hch2 : Arith.exact.ch2.Stable :=
    Biquad.lowPass_stable (by norm_num) (by norm_num) (double_pos (by norm_num))
  have h := hch2.outputs_tendsto hz (hch1.outputs_tendsto hz hin)
  simpa only [filtered_eq, channelGain, mul_assoc] using h

/-- From one filtered sample to the next the carrier turns by `z`. -/
theorem filtered_div_tendsto (hz : ‖z‖ = 1) (hne : z ≠ -1) (hA : A ≠ 0)
    (hin : Tendsto (fun n => (⟨i n, q n⟩ : ℂ) - A * z ^ n) atTop (𝓝 0)) :
    (∀ᶠ n in atTop, filtered i q n ≠ 0)
      ∧ Tendsto (fun n => filtered i q (n + 1) / filtered i q n) atTop
        (𝓝 z) := by
  have hz0 : z ≠ 0 := by
    rintro rfl
    simp at hz
  have hB : channelGain z * A ≠ 0 := mul_ne_zero (channelGain_ne_zero hz hne) hA
  set B := channelGain z * A
  -- the filtered samples with the carrier taken out
  have hstill : Tendsto (fun n => filtered i q n / z ^ n) atTop (𝓝 B) := by
    have hsmall : Tendsto (fun n => (filtered i q n - B * z ^ n) / z ^ n) atTop
        (𝓝 0) := by
      rw [tendsto_zero_iff_norm_tendsto_zero]
      have hnorm := tendsto_zero_iff_norm_tendsto_zero.1 (filtered_tendsto hz hin)
      simpa [norm_div, norm_pow, hz] using hnorm
    have hadd := hsmall.add_const B
    rw [zero_add] at hadd
    refine hadd.congr fun n => ?_
    have hpow := pow_ne_zero n hz0
    field_simp
    ring
  have hnear := hstill.eventually_ne hB
  refine ⟨hnear.mono fun n hn h0 => hn (by rw [h0, zero_div]), ?_⟩
  have hquot := ((hstill.comp (tendsto_add_atTop_nat 1)).div hstill hB).mul_const z
  rw [div_self hB, one_mul] at hquot
  refine hquot.congr' (hnear.mono fun n hn => ?_)
  have hpow := pow_ne_zero n hz0
  have hfil : filtered i q n ≠ 0 := fun h0 => hn (by rw [h0, zero_div])
  simp only [Function.comp_apply, Pi.div_apply, pow_succ]
  field_simp

/-- The discriminator settles at the angle by which the carrier turns. -/
theorem phaseDiffs_tendsto (hz : ‖z‖ = 1) (hslit : z ∈ Complex.slitPlane) (hA : A ≠ 0)
    (hin : Tendsto (fun n => (⟨i n, q n⟩ : ℂ) - A * z ^ n) atTop (𝓝 0)) :
    Tendsto (phaseDiffs i q) atTop (𝓝 z.arg) := by
  have hne : z ≠ -1 := by
    rintro rfl
    norm_num [Complex.mem_slitPlane_iff] at hslit
  obtain ⟨hnz, hdiv⟩ := filtered_div_tendsto hz hne hA hin
  rw [← tendsto_add_atTop_iff_nat 1]
  refine ((Complex.continuousAt_arg hslit).tendsto.comp hdiv).congr' ?_
  have hnz' := (tendsto_add_atTop_nat 1).eventually hnz
  have hin' := hdiv.eventually (Complex.isOpen_slitPlane.mem_nhds hslit)
  filter_upwards [hnz, hnz', hin'] with n hn hn' hs
  exact (wrap_arg_sub hn hn' hs).symm

theorem deD_lt_one : ‖Arith.exact.deD‖ < 1 := by
  have hexp : Arith.exact.deD = Real.exp (-1 / (75 / 1000000 * 500000)) := rfl
  rw [Real.norm_eq_abs, hexp, abs_of_pos (Real.exp_pos _), Real.exp_lt_one_iff]
  norm_num

theorem prevAudios_tendsto (h : Tendsto (phaseDiffs i q) atTop (𝓝 ω)) :
    Tendsto (prevAudios i q) atTop (𝓝 (2 * ω)) := by
  have haud1 : Tendsto (Arith.exact.aud1.outputs id (phaseDiffs i q)) atTop (𝓝 ω) :=
    (Biquad.lowPass_stable (by norm_num) (by norm_num) (double_pos (by norm_num))).outputs_settle
      (Biquad.lowPass_fresh _ _ _)
      (Biquad.lowPass_gain_one (by norm_num) (by norm_num) (double_pos (by norm_num))) h
  have haud : Tendsto (audios i q) atTop (𝓝 ω) :=
    (Biquad.lowPass_stable (by norm_num) (by norm_num) (double_pos (by norm_num))).outputs_settle
      (Biquad.lowPass_fresh _ _ _)
      (Biquad.lowPass_gain_one (by norm_num) (by norm_num) (double_pos (by norm_num))) haud1
  have hdrive : Tendsto (fun n => (1 - Arith.exact.deD) * (audios i q n - ω)) atTop
      (𝓝 0) := by
    simpa using (haud.sub_const ω).const_mul (1 - Arith.exact.deD)
  have hde := Recurrence.tendsto_zero deD_lt_one (u := fun n => deStates i q n - ω)
    (fun n => by simp only [deStates]; ring) hdrive
  have hsum := (hde.add_const ω).mul_const 2
  simp only [sub_add_cancel, zero_add, mul_comm ω] at hsum
  exact hsum

end Carrier

/-! ### What is stored -/

theorem abs_clamp_sub_le (x y : ℝ) : |clamp x - clamp y| ≤ |x - y| := by
  rw [abs_le]
  have h1 := neg_abs_le (x - y)
  have h2 := le_abs_self (x - y)
  have h3 := abs_nonneg (x - y)
  simp only [clamp]
  split_ifs <;> constructor <;> linarith

/-- The cast drops less than 1. -/
theorem abs_toPcm_sub_lt (x : ℝ) : |(toPcm .exact x : ℝ) - 32767 * x| < 1 := by
  have hsingle : Arith.exact.single = id := rfl
  rw [abs_lt]
  simp only [toPcm, hsingle, id_eq]
  split_ifs
  · have h1 := Int.floor_le (x * 32767)
    have h2 := Int.lt_floor_add_one (x * 32767)
    constructor <;> linarith
  · have h1 := Int.le_ceil (x * 32767)
    have h2 := Int.ceil_lt_add_one (x * 32767)
    constructor <;> linarith

theorem resampPhases_mem (n : ℕ) : 0 ≤ resampPhases n ∧ resampPhases n < 1 := by
  induction n with
  | zero => exact ⟨le_rfl, zero_lt_one⟩
  | succ n ih =>
    obtain ⟨h0, h1, -⟩ := keepsTime_unrounded Arith.exact_unrounded _ 0 0 ih.1 ih.2
    exact ⟨h0, h1⟩

/-- What is stored comes from between the audio before a sample and the audio after it. -/
theorem storedAt_between {i q : ℕ → ℝ} {n : ℕ} {v : ℤ} (hv : v ∈ storedAt .exact i q n) :
    ∃ t : ℝ, 0 ≤ t ∧ t < 1 ∧ v = toPcm .exact (clamp (prevAudios i q n * (1 - t)
      + prevAudios i q (n + 1) * t)) := by
  rw [storedAt_eq] at hv
  rcases resample_unrounded Arith.exact_unrounded (prevAudios i q n) (prevAudios i q (n + 1))
    (resampPhases_mem n).2 with ⟨hnone, -⟩ | ⟨t, ht0, ht1, hsome, -⟩
  · simp [hnone] at hv
  · rw [hsome, Option.map_some, Option.mem_some_iff] at hv
    exact ⟨t, ht0, ht1, hv.symm⟩

/-- Values go on being stored: without one the phase would pass 1 within 32 samples. -/
theorem exists_stored (i q : ℕ → ℝ) (N : ℕ) : ∃ n ≥ N, (storedAt .exact i q n).isSome := by
  by_contra! hnone
  have hstep : ∀ n ≥ N, resampPhases (n + 1) = resampPhases n + 4 / 125 := by
    intro n hn
    have hn := hnone n hn
    rw [storedAt_eq] at hn
    rw [resampPhases, ← resample_snd _ _ (prevAudios i q n) (prevAudios i q (n + 1))]
    rcases resample_unrounded Arith.exact_unrounded (prevAudios i q n) (prevAudios i q (n + 1))
      (resampPhases_mem n).2 with ⟨-, hphase, -⟩ | ⟨t, -, -, hsome, -⟩
    · exact hphase
    · simp [hsome] at hn
  have hphase : ∀ k : ℕ, resampPhases (N + k) = resampPhases N + k * (4 / 125) := by
    intro k
    induction k with
    | zero => simp
    | succ k ih =>
      rw [← Nat.add_assoc, hstep _ (Nat.le_add_right N k), ih]
      push_cast
      ring
  have h32 := hphase 32
  have hlt := (resampPhases_mem (N + 32)).2
  have hnonneg := (resampPhases_mem N).1
  norm_num at h32
  linarith

/-- Between two numbers close to `L` every number is. -/
theorem abs_between_sub_lt {a b t L ε : ℝ} (ht0 : 0 ≤ t) (ht1 : t < 1) (ha : |a - L| < ε)
    (hb : |b - L| < ε) : |a * (1 - t) + b * t - L| < ε := by
  rw [abs_lt] at ha hb ⊢
  constructor <;> nlinarith

theorem storedAt_settles {i q : ℕ → ℝ} {L : ℝ}
    (h : Tendsto (prevAudios i q) atTop (𝓝 L)) {ε : ℝ} (hε : 0 < ε) :
    ∃ N, ∀ n ≥ N, ∀ v ∈ storedAt .exact i q n, |(v : ℝ) - 32767 * clamp L| < 1 + ε := by
  obtain ⟨N, hN⟩ := Metric.tendsto_atTop.1 h (ε / 32767) (by positivity)
  refine ⟨N, fun n hn v hv => ?_⟩
  obtain ⟨t, ht0, ht1, rfl⟩ := storedAt_between hv
  have hclose := abs_between_sub_lt ht0 ht1 (hN n hn) (hN (n + 1) (by omega))
  set x := prevAudios i q n * (1 - t) + prevAudios i q (n + 1) * t
  have hcast := abs_lt.1 (abs_toPcm_sub_lt (clamp x))
  have hclamp := abs_lt.1 ((abs_clamp_sub_le x L).trans_lt hclose)
  have hmul : 32767 * (ε / 32767) = ε := by field_simp
  rw [abs_lt]
  constructor <;> linarith

end FmDemod

/-- Without rounding, a carrier of any strength and phase that turns by `ω` per sample, less
than half a turn: values go on being stored, and they come to within 1 of the full scale times
`2 ω`, clipped. -/
theorem carrier_settles {A ω : ℝ} (hA : 0 < A) (hω : |ω| < Real.pi) (φ : ℝ) {ε : ℝ} (hε : 0 < ε) :
    let stored := FmDemod.storedAt .exact (fun k => A * Real.cos (φ + ω * k))
      (fun k => A * Real.sin (φ + ω * k))
    (∀ N, ∃ n ≥ N, (stored n).isSome)
      ∧ ∃ N, ∀ n ≥ N, ∀ v ∈ stored n, |(v : ℝ) - 32767 * FmDemod.clamp (2 * ω)| < 1 + ε := by
  obtain ⟨hlo, hhi⟩ := abs_lt.1 hω
  set z := Complex.exp (ω * Complex.I)
  have hz : ‖z‖ = 1 := Complex.norm_exp_ofReal_mul_I ω
  have harg : z.arg = ω := Complex.arg_exp_mul_I ω ▸ (toIocMod_eq_self _).2 ⟨hlo, by linarith⟩
  have hslit : z ∈ Complex.slitPlane := by
    rw [Complex.mem_slitPlane_iff_arg, harg]
    exact ⟨hhi.ne, Complex.exp_ne_zero _⟩
  have hin : ∀ k : ℕ, (⟨A * Real.cos (φ + ω * k), A * Real.sin (φ + ω * k)⟩ : ℂ)
      = A * Complex.exp (φ * Complex.I) * z ^ k := by
    intro k
    have hexp : Complex.exp (φ * Complex.I) * z ^ k
        = Complex.exp ((φ + ω * k : ℝ) * Complex.I) := by
      rw [← Complex.exp_nat_mul, ← Complex.exp_add]
      congr 1
      push_cast
      ring
    rw [mul_assoc, hexp]
    apply Complex.ext
    · rw [Complex.re_ofReal_mul, Complex.exp_ofReal_mul_I_re]
    · rw [Complex.im_ofReal_mul, Complex.exp_ofReal_mul_I_im]
  have hamp : (A : ℂ) * Complex.exp (φ * Complex.I) ≠ 0 :=
    mul_ne_zero (Complex.ofReal_ne_zero.2 hA.ne') (Complex.exp_ne_zero _)
  have hdiff := FmDemod.phaseDiffs_tendsto hz hslit hamp
    (i := fun k => A * Real.cos (φ + ω * k)) (q := fun k => A * Real.sin (φ + ω * k))
    (by simp only [hin, sub_self]; exact tendsto_const_nhds)
  rw [harg] at hdiff
  exact ⟨FmDemod.exists_stored _ _, FmDemod.storedAt_settles (FmDemod.prevAudios_tendsto hdiff) hε⟩

/-- A quarter of a turn per sample, which the gain takes beyond full scale. -/
theorem carrier_settles_clipped :
    let stored := FmDemod.storedAt .exact (fun k => 100 * Real.cos (0 + Real.pi / 2 * k))
      (fun k => 100 * Real.sin (0 + Real.pi / 2 * k))
    (∀ N, ∃ n ≥ N, (stored n).isSome)
      ∧ ∃ N, ∀ n ≥ N, ∀ v ∈ stored n, |(v : ℝ) - 32767| < 1 + 1 := by
  have hclip : FmDemod.clamp (2 * (Real.pi / 2)) = 1 := by
    have := Real.pi_gt_three
    simp only [FmDemod.clamp]
    split_ifs <;> linarith
  have hsettles := carrier_settles (A := 100) (ω := Real.pi / 2) (by norm_num) (by
    have := Real.pi_pos
    rw [abs_of_pos (by positivity)]
    linarith) 0 one_pos
  rw [hclip, mul_one] at hsettles
  exact hsettles

end Daemon

end AetherGuard
