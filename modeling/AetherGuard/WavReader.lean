import AetherGuard.Lib.Riff
import AetherGuard.Messages

/-!
# Reading a WAV file

`read_wav` reads 44 bytes into a packed `wav_header` and takes the number of channels, the bits per
sample and the size of the data from it, whatever else the file says. Then it reads one 16-bit
sample per frame, and skips another one if there are two channels. No read is checked: a short read
leaves the rest of its target as it was, and after it the stream reads nothing more. What an
uninitialised variable holds is a parameter: its bytes, for the header and for each sample. The host
is little-endian.
-/

namespace AetherGuard

namespace WavReader

/-- An `ifstream`: what is still to be read, and whether no read has failed. -/
structure Stream where
  rest : Bytes
  good : Bool

/-- The bytes a read of `n` delivers, and the stream after it. -/
def Stream.read (s : Stream) (n : ℕ) : Bytes × Stream :=
  if s.good then (s.rest.take n, ⟨s.rest.drop n, n ≤ s.rest.length⟩) else ([], s)

/-- A variable's bytes after a read into it. -/
def overlay (got : Bytes) (junk : ℕ → UInt8) (j : ℕ) : UInt8 := got[j]?.getD (junk j)

/-- The fields of `wav_header` that decide what is read. -/
structure Header where
  channels : UInt16
  bitsPerSample : UInt16
  dataSize : UInt32

def field16 (b : ℕ → UInt8) (i : ℕ) : UInt16 := (Endian.little.int16 (b i) (b (i + 1))).toUInt16

def field32 (b : ℕ → UInt8) (i : ℕ) : UInt32 :=
  Endian.little.word32 [b i, b (i + 1), b (i + 2), b (i + 3)]

def wavHeader (b : ℕ → UInt8) : Header := ⟨field16 b 22, field16 b 34, field32 b 40⟩

/-- `num_samples`, unless its divisor is zero: a division of unsigned words, converted to `int`. -/
def numSamples (h : Header) : Option ℤ :=
  let divisor := h.channels.toNat * (h.bitsPerSample.toNat / 8)
  if divisor = 0 then none else some (Int.bmod (h.dataSize.toNat / divisor : ℕ) (2 ^ 32))

/-- A sample, and whether all of it was read from the file. -/
structure Sample where
  value : Int16
  fromFile : Bool
  deriving DecidableEq

/-- The loop of `read_wav`, from sample `i` on. -/
def readSamples (junk : ℕ → ℕ → UInt8) (stereo : Bool) : ℕ → ℕ → Stream → List Sample
  | 0, _, _ => []
  | n + 1, i, s =>
    let (got, s₁) := s.read 2
    let b := overlay got (junk i)
    let s₂ := if stereo then (s₁.read 2).2 else s₁
    ⟨Endian.little.int16 (b 0) (b 1), got.length == 2⟩ :: readSamples junk stereo n (i + 1) s₂

inductive Outcome
  | divisionByZero
  /-- The call returns `false`. -/
  | failed
  /-- `resize` is called with a negative number. -/
  | badSize (numSamples : ℤ)
  /-- The call returns `true` with these samples. -/
  | read (samples : List Sample)
  deriving DecidableEq

/-- What variables hold before they are read. -/
structure Junk where
  header : ℕ → UInt8
  sample : ℕ → ℕ → UInt8

/-- `read_wav` on a file with this content, or on one that does not open. -/
def readWav (junk : Junk) (file : Option Bytes) : Outcome :=
  match file with
  | none => .failed
  | some content =>
    let (got, s) := Stream.read ⟨content, true⟩ 44
    let header := wavHeader (overlay got junk.header)
    match numSamples header with
    | none => .divisionByZero
    | some n =>
      if header.bitsPerSample ≠ 16 then .failed
      else if n < 0 then .badSize n
      else .read (readSamples junk.sample (header.channels == 2) n.toNat 0 s)

end WavReader

end AetherGuard
