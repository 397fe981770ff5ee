import Mathlib
import AetherGuard.IqPool
import AetherGuard.Lib.FloatRound

/-!
# The FM demodulator

What `demodThread` computes from the samples and resets that it sees: two low-pass filters on each
of I and Q, the change of the phase from one sample to the next, two low-pass filters and a
de-emphasis on that, and the resampler, whose samples are clamped and stored as 16-bit values. Each
result of an operation is rounded as the source's types say. The two roundings and what the C
library computes are the parameter `Arith`: `Arith.ieee` rounds as IEEE 754 does, `Arith.exact` is
the same computation on the reals. No operation here overflows, so there are no infinities.
-/

namespace AetherGuard

namespace Daemon

/-- What the C library computes. -/
structure Libm (R : Type*) where
  sin : R → R
  cos : R → R
  exp : R → R
  /-- `std::atan2` on `float` -/
  atan2 : R → R → R
  /-- `M_PI` -/
  pi : R

/-- The library, and the `float` and the `double` that a result is rounded to. -/
structure Arith (R : Type*) extends Libm R where
  single : R → R
  double : R → R

noncomputable def Libm.real : Libm ℝ where
  sin := Real.sin
  cos := Real.cos
  exp := Real.exp
  atan2 y x := Complex.arg ⟨x, y⟩
  pi := Real.pi

/-- `float` has 24 binary digits down to `2 ^ -149`, `double` has 53 down to `2 ^ -1074`. -/
def Arith.ieee {R : Type*} [Field R] [LinearOrder R] [IsStrictOrderedRing R] [FloorRing R]
    (libm : Libm R) : Arith R where
  toLibm := libm
  single := FloatRound.nearest 2 24 (-149)
  double := FloatRound.nearest 2 53 (-1074)

noncomputable def Arith.exact : Arith ℝ where
  toLibm := Libm.real
  single := id
  double := id

/-- A second-order filter: its coefficients, and the last two inputs and outputs. -/
@[ext]
structure Biquad (R : Type*) where
  b0 : R
  b1 : R
  b2 : R
  a1 : R
  a2 : R
  x1 : R
  x2 : R
  y1 : R
  y2 : R

namespace Biquad

variable {R : Type*}

def process [Ring R] (double : R → R) (f : Biquad R) (x : R) : R × Biquad R :=
  let out := double (double (double (double (double (f.b0 * x) + double (f.b1 * f.x1))
    + double (f.b2 * f.x2)) - double (f.a1 * f.y1)) - double (f.a2 * f.y2))
  (out, { f with x1 := x, x2 := f.x1, y1 := out, y2 := f.y1 })

def reset [Zero R] (f : Biquad R) : Biquad R := { f with x1 := 0, x2 := 0, y1 := 0, y2 := 0 }

def lowPass [Field R] (A : Arith R) (fc fs Q : R) : Biquad R :=
  let w0 := A.double (A.double (A.double (2 * A.pi) * fc) / fs)
  let alpha := A.double (A.sin w0 / A.double (2 * Q))
  let cosw0 := A.cos w0
  let a0 := A.double (1 + alpha)
  { b0 := A.double (A.double (A.double (1 - cosw0) / 2) / a0)
    b1 := A.double (A.double (1 - cosw0) / a0)
    b2 := A.double (A.double (A.double (1 - cosw0) / 2) / a0)
    a1 := A.double (A.double (-2 * cosw0) / a0)
    a2 := A.double (A.double (1 - alpha) / a0)
    x1 := 0
    x2 := 0
    y1 := 0
    y2 := 0 }

/-- The filter after the inputs `x 0, .., x (n - 1)`. -/
def after [Ring R] (double : R → R) (f : Biquad R) (x : ℕ → R) : ℕ → Biquad R
  | 0 => f
  | n + 1 => ((f.after double x n).process double (x n)).2

/-- What it makes of the input `x n`. -/
def outputs [Ring R] (double : R → R) (f : Biquad R) (x : ℕ → R) (n : ℕ) : R :=
  ((f.after double x n).process double (x n)).1

end Biquad

namespace Arith

variable {R : Type*} [Field R] (A : Arith R)

/-- `ch_i1` and `ch_q1` as they are made, at an `IQ_RATE` of 500000. -/
def ch1 : Biquad R := .lowPass A 100000 500000 (A.double (5412 / 10000))

/-- `ch_i2` and `ch_q2` -/
def ch2 : Biquad R := .lowPass A 100000 500000 (A.double (13066 / 10000))

def aud1 : Biquad R := .lowPass A 15000 500000 (A.double (5412 / 10000))

def aud2 : Biquad R := .lowPass A 15000 500000 (A.double (13066 / 10000))

/-- `de_d` -/
def deD : R := A.exp (A.double (-1 / A.double (A.double (75 / 1000000) * 500000)))

/-- `RESAMP_RATIO` -/
def resampRatio : R := A.single (A.double (16000 / 500000))

end Arith

/-- The variables of `demodThread` that live on from sample to sample. -/
structure FmDemod (R : Type*) where
  chI1 : Biquad R
  chI2 : Biquad R
  chQ1 : Biquad R
  chQ2 : Biquad R
  prevPhase : R
  aud1 : Biquad R
  aud2 : Biquad R
  deState : R
  resampPhase : R
  prevAudio : R

namespace FmDemod

variable {R : Type*} [Field R] [LinearOrder R] (A : Arith R)

def init : FmDemod R where
  chI1 := A.ch1
  chI2 := A.ch2
  chQ1 := A.ch1
  chQ2 := A.ch2
  prevPhase := 0
  aud1 := A.aud1
  aud2 := A.aud2
  deState := 0
  resampPhase := 0
  prevAudio := 0

/-- What `demodThread` does where it took `g_stream_gap` down; the resampler keeps its phase. -/
def reset (s : FmDemod R) : FmDemod R :=
  { s with
    chI1 := s.chI1.reset
    chI2 := s.chI2.reset
    chQ1 := s.chQ1.reset
    chQ2 := s.chQ2.reset
    aud1 := s.aud1.reset
    aud2 := s.aud2.reset
    deState := 0
    prevPhase := 0
    prevAudio := 0 }

/-- The two tests on `phase_diff`, a `float`; `M_PI` is a `double`. -/
def wrap (phaseDiff : R) : R :=
  let phaseDiff := if phaseDiff > A.pi then A.single (A.double (phaseDiff - A.double (2 * A.pi)))
    else phaseDiff
  if phaseDiff < -A.pi then A.single (A.double (phaseDiff + A.double (2 * A.pi))) else phaseDiff

def clamp (sample : R) : R :=
  let sample := if sample > 1 then 1 else sample
  if sample < -1 then -1 else sample

/-- The resampler: the sample it makes, if any, and its phase. -/
def resample (resampPhase prevAudio currentAudio : R) : Option R × R :=
  let resampPhase := A.single (resampPhase + A.resampRatio)
  if resampPhase ≥ 1 then
    let resampPhase := A.single (resampPhase - 1)
    let t := A.single (resampPhase / A.resampRatio)
    let sample := A.single (A.single (prevAudio * A.single (1 - t)) + A.single (currentAudio * t))
    (some (clamp sample), resampPhase)
  else (none, resampPhase)

/-- `current_audio` -/
def currentAudio (deState : R) : R := A.single (A.single deState * 2)

/-- A turn of the loop over a chunk. -/
def sample (s : FmDemod R) (rawI rawQ : R) : Option R × FmDemod R :=
  let (i1, chI1) := s.chI1.process A.double rawI
  let (fi, chI2) := s.chI2.process A.double i1
  let (q1, chQ1) := s.chQ1.process A.double rawQ
  let (fq, chQ2) := s.chQ2.process A.double q1
  let currentPhase := A.atan2 (A.single fq) (A.single fi)
  let phaseDiff := wrap A (A.single (currentPhase - s.prevPhase))
  let (u, aud1) := s.aud1.process A.double phaseDiff
  let (audio, aud2) := s.aud2.process A.double u
  let deState := A.double (A.double (A.double (1 - A.deD) * audio) + A.double (A.deD * s.deState))
  let (out, resampPhase) := resample A s.resampPhase s.prevAudio (currentAudio A deState)
  (out, ⟨chI1, chI2, chQ1, chQ2, currentPhase, aud1, aud2, deState, resampPhase,
    currentAudio A deState⟩)

/-- `static_cast<int16_t>(sample * 32767.0f)`, as an integer. -/
def toPcm [FloorRing R] (sample : R) : ℤ :=
  let scaled := A.single (sample * 32767)
  if 0 ≤ scaled then ⌊scaled⌋ else ⌈scaled⌉

variable [FloorRing R]

def event (s : FmDemod R) : Event R → Option ℤ × FmDemod R
  | .reset => (none, s.reset)
  | .sample i q => ((s.sample A i q).1.map (toPcm A), (s.sample A i q).2)

/-- The values made from a sequence of samples and resets, and the variables after it. -/
def run (s : FmDemod R) : List (Event R) → List ℤ × FmDemod R
  | [] => ([], s)
  | e :: events =>
    let (pcm, s') := run (s.event A e).2 events
    ((s.event A e).1.toList ++ pcm, s')

/-- The samples `(i 0, q 0), .., (i (n - 1), q (n - 1))`. -/
def inputs (i q : ℕ → R) (n : ℕ) : List (Event R) := (List.range n).map fun k => .sample (i k) (q k)

/-- The value stored at the sample `(i n, q n)`, if one is. -/
def storedAt (i q : ℕ → R) (n : ℕ) : Option ℤ :=
  ((run A (init A) (inputs i q n)).2.event A (.sample (i n) (q n))).1

end FmDemod

end Daemon

end AetherGuard
