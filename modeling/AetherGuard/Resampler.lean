import AetherGuard.Lib.Machine

/-!
# The resampler

`demodThread` turns its 500 kHz audio into 16 kHz by a phase accumulator: each value adds the ratio
of the rates to the phase, and when the phase passes 1 a sample is made from this value and the one
before. The arithmetic is that of the rationals.
-/

namespace AetherGuard

namespace Resampler

/-- `AUDIO_RATE / IQ_RATE` -/
def resampRatio : ℚ := 16000 / 500000

/-- A sample, with the weight it was made with. -/
structure Sample where
  t : ℚ
  sample : ℚ
  deriving DecidableEq

/-- The phase, the value before, and the samples so far. -/
structure State where
  resampPhase : ℚ
  prevAudio : ℚ
  samples : List Sample

def init : State := ⟨0, 0, []⟩

def clamp (sample : ℚ) : ℚ :=
  let sample := if sample > 1 then 1 else sample
  if sample < -1 then -1 else sample

def step (s : State) (currentAudio : ℚ) : State :=
  let resampPhase := s.resampPhase + resampRatio
  if resampPhase ≥ 1 then
    let resampPhase := resampPhase - 1
    let t := resampPhase / resampRatio
    let sample := s.prevAudio * (1 - t) + currentAudio * t
    ⟨resampPhase, currentAudio, s.samples ++ [⟨t, clamp sample⟩]⟩
  else ⟨resampPhase, currentAudio, s.samples⟩

/-- The state after the values `a 1, .., a n`. -/
def after (a : ℕ → ℚ) (n : ℕ) : State :=
  Machine.run step init ((List.range n).map fun i => a (i + 1))

/-- The linear interpolant of the points `(n, a n)`. -/
def interpolant (a : ℕ → ℚ) (x : ℚ) : ℚ :=
  a ⌊x⌋₊ + (x - ⌊x⌋₊) * (a (⌊x⌋₊ + 1) - a ⌊x⌋₊)

end Resampler

end AetherGuard
