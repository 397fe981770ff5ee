import AetherGuard.Resampler
import AetherGuard.Proofs.Biquad

/-!
# What the demodulator makes of a signal

In exact arithmetic the demodulator is, from its start on, six filters one behind the other, each on
the whole sequence that the one before it gives (`run_inputs`), and its last stage is the resampler
(`step_resampler`). The resampler's phase moves on by the ratio of the rates at each sample, up to
what rounding does (`KeepsTime`), whatever comes in (`pcm_rate_and_range`). A reset forgets all but
that phase (`audio_after_gap`). The channel filters are linear and `atan2` sees a direction only, so
without rounding the strength of the signal does not matter (`audio_gain_invariant`).
-/

namespace AetherGuard

namespace Daemon

open Filter Topology

/-- The event is a sample. -/
def Event.isSample {α : Type*} : Event α → Bool
  | .sample _ _ => true
  | .reset => false

/-- The sample, `c` times as strong. -/
def Event.scale {α : Type*} [Mul α] (c : α) : Event α → Event α
  | .sample i q => .sample (c * i) (c * q)
  | .reset => .reset

/-- The filter after inputs `c` times as strong. -/
def Biquad.scale {R : Type*} [Mul R] (c : R) (f : Biquad R) : Biquad R :=
  { f with x1 := c * f.x1, x2 := c * f.x2, y1 := c * f.y1, y2 := c * f.y2 }

theorem Biquad.process_scale {R : Type*} [CommRing R] (c : R) (f : Biquad R) (x : R) :
    (f.scale c).process id (c * x) = (c * (f.process id x).1, (f.process id x).2.scale c) := by
  have hout : ((f.scale c).process id (c * x)).1 = c * (f.process id x).1 := by
    simp only [process_id, scale]
    ring
  refine Prod.ext hout ?_
  exact Biquad.ext rfl rfl rfl rfl rfl rfl rfl hout rfl

theorem Biquad.reset_scale {R : Type*} [CommRing R] (c : R) (f : Biquad R) :
    (f.scale c).reset = f.reset.scale c :=
  Biquad.ext rfl rfl rfl rfl rfl (mul_zero c).symm (mul_zero c).symm (mul_zero c).symm
    (mul_zero c).symm

theorem Biquad.Fresh.scale {R : Type*} [CommRing R] {f : Biquad R} (h : f.Fresh) (c : R) :
    f.scale c = f := by
  obtain ⟨h1, h2, h3, h4⟩ := h
  simp only [Biquad.scale, h1, h2, h3, h4, mul_zero]
  exact Biquad.ext rfl rfl rfl rfl rfl h1.symm h2.symm h3.symm h4.symm

/-- The same computation without rounding. -/
structure Arith.Unrounded {R : Type*} (A : Arith R) : Prop where
  single : A.single = id
  double : A.double = id

theorem Arith.exact_unrounded : Arith.exact.Unrounded := ⟨rfl, rfl⟩

theorem Arith.Unrounded.resampRatio {R : Type*} [Field R] {A : Arith R} (hA : A.Unrounded) :
    A.resampRatio = 16000 / 500000 := by
  rw [Arith.resampRatio, hA.single, hA.double]
  rfl

namespace FmDemod

section Field

variable {R : Type*} [Field R] [LinearOrder R] [FloorRing R] (A : Arith R)

theorem run_append (s : FmDemod R) (events more : List (Event R)) :
    run A s (events ++ more) = ((run A s events).1 ++ (run A (run A s events).2 more).1,
      (run A (run A s events).2 more).2) := by
  induction events generalizing s with
  | nil => rfl
  | cons e events ih =>
    rw [List.cons_append, run, ih]
    simp only [run, List.append_assoc]

theorem run_concat (s : FmDemod R) (events : List (Event R)) (e : Event R) :
    (run A s (events ++ [e])).2 = ((run A s events).2.event A e).2 := by
  rw [run_append]
  rfl

omit [FloorRing R] in
/-- The phase runs on whatever the audio is. -/
theorem resample_snd (phase prev cur : R) :
    (resample A phase prev cur).2 = (resample A phase 0 0).2 := by
  simp only [resample]
  split_ifs <;> rfl

end Field

/-! ### Sequences of samples -/

section Sequences

variable (i q : ℕ → ℝ)

/-- The outputs of the filters on I. -/
noncomputable def filteredI : ℕ → ℝ := Arith.exact.ch2.outputs id (Arith.exact.ch1.outputs id i)

/-- The phase of the filtered samples. -/
noncomputable def phases (n : ℕ) : ℝ := Arith.exact.atan2 (filteredI q n) (filteredI i n)

/-- `prev_phase` before sample `n`. -/
noncomputable def prevPhases : ℕ → ℝ
  | 0 => 0
  | n + 1 => phases i q n

noncomputable def phaseDiffs (n : ℕ) : ℝ := wrap Arith.exact (phases i q n - prevPhases i q n)

/-- The outputs of the audio filters. -/
noncomputable def audios : ℕ → ℝ :=
  Arith.exact.aud2.outputs id (Arith.exact.aud1.outputs id (phaseDiffs i q))

/-- `de_state` before sample `n`. -/
noncomputable def deStates : ℕ → ℝ
  | 0 => 0
  | n + 1 => (1 - Arith.exact.deD) * audios i q n + Arith.exact.deD * deStates n

/-- `prev_audio` before sample `n`. -/
noncomputable def prevAudios (n : ℕ) : ℝ := currentAudio Arith.exact (deStates i q n)

/-- `resamp_phase` before sample `n`. -/
noncomputable def resampPhases : ℕ → ℝ
  | 0 => 0
  | n + 1 => (resample Arith.exact (resampPhases n) 0 0).2

theorem run_inputs (n : ℕ) : (run Arith.exact (init Arith.exact) (inputs i q n)).2 = {
    chI1 := Arith.exact.ch1.after id i n
    chI2 := Arith.exact.ch2.after id (Arith.exact.ch1.outputs id i) n
    chQ1 := Arith.exact.ch1.after id q n
    chQ2 := Arith.exact.ch2.after id (Arith.exact.ch1.outputs id q) n
    prevPhase := prevPhases i q n
    aud1 := Arith.exact.aud1.after id (phaseDiffs i q) n
    aud2 := Arith.exact.aud2.after id (Arith.exact.aud1.outputs id (phaseDiffs i q)) n
    deState := deStates i q n
    resampPhase := resampPhases n
    prevAudio := prevAudios i q n } := by
  induction n with
  | zero =>
    simp [inputs, run, init, prevPhases, deStates, resampPhases, prevAudios, currentAudio,
      Arith.exact, Biquad.after]
  | succ n ih =>
    have hsucc : inputs i q (n + 1) = inputs i q n ++ [.sample (i n) (q n)] := by
      rw [inputs, List.range_succ, List.map_append]
      rfl
    rw [hsucc, run_concat, ih, resampPhases,
      ← resample_snd _ _ (prevAudios i q n) (prevAudios i q (n + 1))]
    rfl

/-- What is stored at sample `n`. -/
theorem storedAt_eq (n : ℕ) : storedAt Arith.exact i q n
    = (resample Arith.exact (resampPhases n) (prevAudios i q n) (prevAudios i q (n + 1))).1.map
      (toPcm Arith.exact) := by
  rw [storedAt, run_inputs]
  rfl

end Sequences

/-! ### How many values, and which -/

section Ordered

variable {R : Type*} [Field R] [LinearOrder R] [IsStrictOrderedRing R] {A : Arith R}

/-- At each sample the phase, and the values made, go on by the ratio of the rates, up to `δ`. -/
def KeepsTime (A : Arith R) (δ : R) : Prop := ∀ phase prev cur, 0 ≤ phase → phase < 1 →
  0 ≤ (resample A phase prev cur).2 ∧ (resample A phase prev cur).2 < 1
    ∧ |(resample A phase prev cur).2 + (resample A phase prev cur).1.toList.length
      - (phase + 4 / 125)| ≤ δ

/-- Without rounding a value lies between the audio before and the present one. -/
theorem resample_unrounded (hA : A.Unrounded) {phase : R} (prev cur : R) (h1 : phase < 1) :
    ((resample A phase prev cur).1 = none ∧ (resample A phase prev cur).2 = phase + 4 / 125
        ∧ (resample A phase prev cur).2 < 1)
      ∨ ∃ t : R, 0 ≤ t ∧ t < 1
        ∧ (resample A phase prev cur).1 = some (clamp (prev * (1 - t) + cur * t))
        ∧ (resample A phase prev cur).2 = phase + 4 / 125 - 1
        ∧ 0 ≤ (resample A phase prev cur).2 := by
  have hratio : (16000 / 500000 : R) = 4 / 125 := by norm_num
  simp only [resample, hA.resampRatio, hA.single, id_eq, hratio]
  split_ifs with hge
  · refine .inr ⟨(phase + 4 / 125 - 1) / (4 / 125), ?_, ?_, rfl, rfl, by linarith⟩
    · exact div_nonneg (by linarith) (by norm_num)
    · rw [div_lt_one (by norm_num)]
      linarith
  · exact .inl ⟨rfl, rfl, not_le.1 hge⟩

theorem keepsTime_unrounded (hA : A.Unrounded) : KeepsTime A 0 := by
  intro phase prev cur h0 h1
  rcases resample_unrounded hA prev cur h1 with ⟨hnone, hphase, hlt⟩
    | ⟨t, -, -, hsome, hphase, hnonneg⟩
  · rw [hnone, hphase]
    rw [hphase] at hlt
    exact ⟨by linarith, hlt, by simp⟩
  · rw [hsome, hphase]
    rw [hphase] at hnonneg
    exact ⟨hnonneg, by linarith, by simp⟩

section Ieee

variable [FloorRing R] (libm : Libm R)

theorem abs_nearest_two_sub_le {p : ℕ} {emin k : ℤ} {x : R} (hx : |x| < 2 ^ k)
    (hk : emin ≤ k - p) : |FloatRound.nearest 2 p emin x - x| ≤ 2 ^ (k - p) / 2 := by
  have h := FloatRound.abs_nearest_sub_le one_lt_two (x := x) (by rwa [Nat.cast_ofNat]) hk
  rwa [Nat.cast_ofNat] at h

theorem abs_single_sub_le {x : R} {k : ℤ} (hx : |x| < 2 ^ k) (hk : -125 ≤ k) :
    |(Arith.ieee libm).single x - x| ≤ 2 ^ (k - 24) / 2 :=
  abs_nearest_two_sub_le hx (by push_cast; omega)

theorem abs_resampRatio_sub_le : |(Arith.ieee libm).resampRatio - 4 / 125| ≤ 1 / 2 ^ 28 := by
  have hdouble : |(Arith.ieee libm).double (16000 / 500000) - 16000 / 500000|
      ≤ 2 ^ (-4 - 53 : ℤ) / 2 :=
    abs_nearest_two_sub_le (by norm_num [abs_of_pos]) (by norm_num)
  have hd := abs_le.1 hdouble
  norm_num at hd
  set d := (Arith.ieee libm).double (16000 / 500000) with hdef
  have hsingle : |(Arith.ieee libm).single d - d| ≤ 2 ^ (-4 - 24 : ℤ) / 2 :=
    abs_single_sub_le libm (by rw [abs_lt]; norm_num; constructor <;> linarith) (by norm_num)
  have hs := abs_le.1 hsingle
  norm_num at hs
  rw [Arith.resampRatio, ← hdef, abs_le]
  norm_num
  constructor <;> linarith

/-- In `float` arithmetic a sample moves the phase on by `4 / 125`, up to `2 ^ -23`. -/
theorem keepsTime_ieee : KeepsTime (Arith.ieee libm) (1 / 2 ^ 23) := by
  intro phase prev cur h0 h1
  have hratio := abs_le.1 (abs_resampRatio_sub_le libm)
  set ratio := (Arith.ieee libm).resampRatio with hdef
  norm_num at hratio
  have hsum := abs_le.1 (abs_single_sub_le libm (x := phase + ratio) (k := 1)
    (by rw [abs_lt]; norm_num; constructor <;> linarith) (by norm_num))
  norm_num at hsum
  have hnonneg : ∀ x, 0 ≤ x → 0 ≤ (Arith.ieee libm).single x := fun x =>
    FloatRound.nearest_nonneg one_lt_two
  simp only [resample, ← hdef]
  split_ifs with hge
  · set x := (Arith.ieee libm).single (phase + ratio)
    have hdiff := abs_le.1 (abs_single_sub_le libm (x := x - 1) (k := -4)
      (by rw [abs_lt]; norm_num; constructor <;> linarith) (by norm_num))
    norm_num at hdiff
    refine ⟨hnonneg _ (by linarith), by linarith, ?_⟩
    rw [abs_le]
    norm_num
    constructor <;> linarith
  · refine ⟨hnonneg _ (by linarith), not_le.1 hge, ?_⟩
    rw [abs_le]
    norm_num
    constructor <;> linarith

end Ieee

variable [FloorRing R]

/-- Samples count, resets do not. -/
theorem run_count {δ : R} (hA : KeepsTime A δ) (events : List (Event R)) : ∀ s : FmDemod R,
    0 ≤ s.resampPhase → s.resampPhase < 1 →
      0 ≤ (run A s events).2.resampPhase ∧ (run A s events).2.resampPhase < 1
        ∧ |(run A s events).2.resampPhase + (run A s events).1.length
          - (s.resampPhase + events.countP (·.isSample) * (4 / 125))|
          ≤ events.countP (·.isSample) * δ := by
  induction events with
  | nil => exact fun s h0 h1 => ⟨h0, h1, by simp [run]⟩
  | cons e events ih =>
    intro s h0 h1
    cases e with
    | reset => exact ih s.reset h0 h1
    | sample i q =>
      obtain ⟨h0', h1', hstep⟩ := hA s.resampPhase s.prevAudio (s.sample A i q).2.prevAudio h0 h1
      have hnext : (resample A s.resampPhase s.prevAudio (s.sample A i q).2.prevAudio).2
          = (s.sample A i q).2.resampPhase := rfl
      have hout : (resample A s.resampPhase s.prevAudio (s.sample A i q).2.prevAudio).1
          = (s.sample A i q).1 := rfl
      rw [hnext, hout] at hstep
      rw [hnext] at h0' h1'
      obtain ⟨ih0, ih1, ihlen⟩ := ih (s.sample A i q).2 h0' h1'
      refine ⟨ih0, ih1, ?_⟩
      have hlen : (run A s (.sample i q :: events)).1.length
          = (s.sample A i q).1.toList.length + (run A (s.sample A i q).2 events).1.length := by
        simp only [run, event, List.length_append, Option.length_toList, Option.isSome_map]
      have hend : (run A s (.sample i q :: events)).2 = (run A (s.sample A i q).2 events).2 := rfl
      rw [hlen, hend, List.countP_cons_of_pos rfl]
      rw [abs_le] at hstep ihlen ⊢
      push_cast
      constructor <;> linarith

/-- 63 samples last longer than two output values, so that one is made. -/
theorem run_replicate_ne_nil {δ : R} (hA : KeepsTime A δ) (hδ : δ ≤ 1 / 2 ^ 23) {s : FmDemod R}
    (h0 : 0 ≤ s.resampPhase) (h1 : s.resampPhase < 1) (i q : R) :
    (run A s (List.replicate 63 (.sample i q))).1 ≠ [] := by
  intro hnil
  obtain ⟨-, hlt, hcount⟩ := run_count hA (List.replicate 63 (.sample i q)) s h0 h1
  have hsamples : (List.replicate 63 (Event.sample i q)).countP (·.isSample) = 63 := by
    rw [List.countP_replicate]
    rfl
  rw [hnil, hsamples, abs_le] at hcount
  norm_num at hcount hδ
  linarith

end Ordered

/-- Without rounding the last stage is the resampler on its own. -/
theorem step_resampler {A : Arith ℚ} (hA : A.Unrounded) (s : FmDemod ℚ) (i q : ℚ)
    (samples : List Resampler.Sample) :
    let r := Resampler.step ⟨s.resampPhase, s.prevAudio, samples⟩ (s.sample A i q).2.prevAudio
    r.resampPhase = (s.sample A i q).2.resampPhase ∧ r.prevAudio = (s.sample A i q).2.prevAudio
      ∧ r.samples.map (·.sample) = samples.map (·.sample) ++ (s.sample A i q).1.toList := by
  have hsample : ∀ cur, resample A s.resampPhase s.prevAudio cur
      = if s.resampPhase + Resampler.resampRatio ≥ 1 then
          (some (Resampler.clamp (s.prevAudio
            * (1 - (s.resampPhase + Resampler.resampRatio - 1) / Resampler.resampRatio)
            + cur * ((s.resampPhase + Resampler.resampRatio - 1) / Resampler.resampRatio))),
          s.resampPhase + Resampler.resampRatio - 1)
        else (none, s.resampPhase + Resampler.resampRatio) := by
    intro cur
    simp only [resample, hA.resampRatio, hA.single, id_eq]
    rfl
  have hlast : (s.sample A i q).2.resampPhase
        = (resample A s.resampPhase s.prevAudio (s.sample A i q).2.prevAudio).2
      ∧ (s.sample A i q).1
        = (resample A s.resampPhase s.prevAudio (s.sample A i q).2.prevAudio).1 := ⟨rfl, rfl⟩
  rw [hlast.1, hlast.2, hsample]
  simp only [Resampler.step]
  split_ifs
  · exact ⟨rfl, rfl, by rw [List.map_append]; rfl⟩
  · exact ⟨rfl, rfl, (List.append_nil _).symm⟩

/-! ### The strength of the signal -/

section Scale

variable {R : Type*} [Field R] [LinearOrder R] [FloorRing R] {A : Arith R} {c : R}

/-- After a signal `c` times as strong only the channel filters are different. -/
def louder (c : R) (s : FmDemod R) : FmDemod R :=
  { s with
    chI1 := s.chI1.scale c
    chI2 := s.chI2.scale c
    chQ1 := s.chQ1.scale c
    chQ2 := s.chQ2.scale c }

omit [FloorRing R] in
theorem sample_louder (hA : A.Unrounded) (hatan : ∀ y x, A.atan2 (c * y) (c * x) = A.atan2 y x)
    (s : FmDemod R) (i q : R) : (s.louder c).sample A (c * i) (c * q)
      = ((s.sample A i q).1, (s.sample A i q).2.louder c) := by
  simp only [sample, louder, hA.double, hA.single, Biquad.process_scale, id_eq, hatan]

theorem event_louder (hA : A.Unrounded) (hatan : ∀ y x, A.atan2 (c * y) (c * x) = A.atan2 y x)
    (s : FmDemod R) (e : Event R) :
    (s.louder c).event A (e.scale c) = ((s.event A e).1, (s.event A e).2.louder c) := by
  cases e with
  | reset => simp only [Event.scale, event, reset, louder, Biquad.reset_scale]
  | sample i q => simp only [Event.scale, event, sample_louder hA hatan]

theorem run_louder (hA : A.Unrounded) (hatan : ∀ y x, A.atan2 (c * y) (c * x) = A.atan2 y x)
    (events : List (Event R)) : ∀ s : FmDemod R,
      run A (s.louder c) (events.map (Event.scale c))
        = ((run A s events).1, (run A s events).2.louder c) := by
  induction events with
  | nil => exact fun s => rfl
  | cons e events ih =>
    intro s
    simp only [List.map_cons, run, event_louder hA hatan, ih]

end Scale

/-! ### Resets -/

section Reset

variable {R : Type*} [Field R] [LinearOrder R] {A : Arith R} {s : FmDemod R}

/-- The filters are those that `lowPass` made, whatever they hold. -/
def Built (A : Arith R) (s : FmDemod R) : Prop :=
  s.chI1.reset = A.ch1 ∧ s.chI2.reset = A.ch2 ∧ s.chQ1.reset = A.ch1 ∧ s.chQ2.reset = A.ch2
    ∧ s.aud1.reset = A.aud1 ∧ s.aud2.reset = A.aud2

omit [LinearOrder R] in
theorem init_built (A : Arith R) : (init A).Built A := ⟨rfl, rfl, rfl, rfl, rfl, rfl⟩

omit [LinearOrder R] in
theorem reset_eq (h : s.Built A) : s.reset = { init A with resampPhase := s.resampPhase } := by
  obtain ⟨h1, h2, h3, h4, h5, h6⟩ := h
  simp only [reset, init, h1, h2, h3, h4, h5, h6]

variable [FloorRing R]

theorem event_built (h : s.Built A) (e : Event R) : (s.event A e).2.Built A := by
  cases e with
  | reset => exact h
  | sample i q => exact h

theorem run_built (events : List (Event R)) :
    ∀ {s : FmDemod R}, s.Built A → (run A s events).2.Built A := by
  induction events with
  | nil => exact fun h => h
  | cons e events ih => exact fun h => ih (event_built h e)

/-- The phase depends on the number of samples only. -/
theorem run_resampPhase (events : List (Event R)) : ∀ s : FmDemod R,
    (run A s events).2.resampPhase
      = (fun phase => (resample A phase 0 0).2)^[events.countP (·.isSample)] s.resampPhase := by
  induction events with
  | nil => exact fun s => rfl
  | cons e events ih =>
    intro s
    cases e with
    | reset => exact ih s.reset
    | sample i q =>
      have hnext : (s.sample A i q).2.resampPhase = (resample A s.resampPhase 0 0).2 :=
        resample_snd A s.resampPhase s.prevAudio (s.sample A i q).2.prevAudio
      rw [List.countP_cons_of_pos rfl, Function.iterate_succ_apply, ← hnext]
      exact ih (s.sample A i q).2

end Reset

end FmDemod

open FmDemod

/-- In any arithmetic, what is made of the samples after a reset depends on those before it only
through their number. -/
theorem audio_after_gap {R : Type*} [Field R] [LinearOrder R] [FloorRing R] (A : Arith R)
    (before before' after : List (Event R))
    (h : before.countP (·.isSample) = before'.countP (·.isSample)) :
    (run A (run A (init A) (before ++ [.reset])).2 after).1
      = (run A (run A (init A) (before' ++ [.reset])).2 after).1 := by
  have hreset : ∀ events : List (Event R), (run A (init A) (events ++ [.reset])).2
      = { init A with resampPhase :=
          (fun phase => (resample A phase 0 0).2)^[events.countP (·.isSample)] 0 } := by
    intro events
    have hphase := run_resampPhase (A := A) events (init A)
    rw [run_concat]
    refine (reset_eq (run_built events (init_built A))).trans ?_
    rw [hphase]
    rfl
  rw [hreset, hreset, h]

/-- One sample was received before the gap, 63 come after it. -/
theorem audio_after_gap_one_before :
    let A := Arith.ieee Libm.real
    let pcm := (run A (run A (init A) ([.sample 1 2] ++ [.reset])).2
      (List.replicate 63 (.sample 3 4))).1
    pcm ≠ [] ∧ pcm = (run A (run A (init A) ([.sample 5 6] ++ [.reset])).2
      (List.replicate 63 (.sample 3 4))).1 := by
  intro A pcm
  obtain ⟨h0, h1, -⟩ := run_count (keepsTime_ieee Libm.real) ([.sample 1 2] ++ [.reset]) (init A)
    le_rfl zero_lt_one
  exact ⟨run_replicate_ne_nil (keepsTime_ieee Libm.real) le_rfl h0 h1 3 4,
    audio_after_gap A _ _ _ rfl⟩

/-- Without rounding the audio does not depend on how strong the signal is. -/
theorem audio_gain_invariant {c : ℝ} (hc : 0 < c) (events : List (Event ℝ)) :
    (run .exact (init .exact) (events.map (Event.scale c))).1
      = (run .exact (init .exact) events).1 := by
  have hatan : ∀ y x, Arith.exact.atan2 (c * y) (c * x) = Arith.exact.atan2 y x := by
    intro y x
    have hmul : (⟨c * x, c * y⟩ : ℂ) = (c : ℂ) * ⟨x, y⟩ := by
      apply Complex.ext <;> simp
    show Complex.arg ⟨c * x, c * y⟩ = Complex.arg ⟨x, y⟩
    rw [hmul, Complex.arg_real_mul _ hc]
  have hinit : (init Arith.exact).louder c = init Arith.exact := by
    have hch1 : Arith.exact.ch1.Fresh := Biquad.lowPass_fresh _ _ _
    have hch2 : Arith.exact.ch2.Fresh := Biquad.lowPass_fresh _ _ _
    simp only [louder, init, hch1.scale, hch2.scale]
  have hrun := run_louder Arith.exact_unrounded hatan events (init Arith.exact)
  rw [hinit] at hrun
  rw [hrun]

/-- A signal twice as strong, long enough for a value to be made. -/
theorem audio_gain_invariant_doubled :
    let pcm := (run .exact (init .exact) (List.replicate 63 (.sample 1 3))).1
    pcm ≠ [] ∧ (run .exact (init .exact) ((List.replicate 63 (.sample 1 3)).map (Event.scale 2))).1
      = pcm := by
  intro pcm
  exact ⟨run_replicate_ne_nil (keepsTime_unrounded Arith.exact_unrounded) (by positivity) le_rfl
    zero_lt_one 1 3, audio_gain_invariant two_pos _⟩

end Daemon

end AetherGuard
