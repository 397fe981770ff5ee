import AetherGuard.Lib.Bytes

/-!
# Sound in RIFF files

A RIFF file of the form `WAVE` is a sequence of chunks, each an identifier of four bytes, the length
of its body and the body, padded to an even length. One of them is the format chunk, whose first
sixteen bytes say how the sound is coded and which may go on after them; a later one is the data
chunk. Other chunks may stand anywhere. The sound is 16-bit PCM: frames of one sample per channel,
one after the other.
-/

namespace AetherGuard

namespace Riff

/-- A length field. -/
def size32 (n : ℕ) : List UInt8 := Endian.little.bytes32 (UInt32.ofNat n)

def word16 (x : UInt16) : List UInt8 := Endian.little.bytes16 x.toInt16

def word32 (x : UInt32) : List UInt8 := Endian.little.bytes32 x

def riffId : List UInt8 := [0x52, 0x49, 0x46, 0x46]

def waveId : List UInt8 := [0x57, 0x41, 0x56, 0x45]

def fmtId : List UInt8 := [0x66, 0x6d, 0x74, 0x20]

def dataId : List UInt8 := [0x64, 0x61, 0x74, 0x61]

def chunk (id body : List UInt8) : List UInt8 :=
  id ++ size32 body.length ++ body ++ List.replicate (body.length % 2) 0

/-- A chunk other than the two that describe and hold the sound. -/
structure OtherChunk where
  id : List UInt8
  body : List UInt8
  id_length : id.length = 4
  id_ne_fmt : id ≠ fmtId
  id_ne_data : id ≠ dataId

def OtherChunk.bytes (c : OtherChunk) : List UInt8 := chunk c.id c.body

/-- What a file of 16-bit sound consists of. -/
structure Layout where
  /-- The chunks before the format chunk, between it and the data chunk, and after that. -/
  first : List OtherChunk
  between : List OtherChunk
  last : List OtherChunk
  formatTag : UInt16
  channels : UInt16
  sampleRate : UInt32
  byteRate : UInt32
  blockAlign : UInt16
  /-- What the format chunk holds after its sixteen bytes. -/
  extra : List UInt8
  frames : List (List Int16)

namespace Layout

variable (w : Layout)

def fmtBody : List UInt8 :=
  word16 w.formatTag ++ word16 w.channels ++ word32 w.sampleRate ++ word32 w.byteRate
    ++ word16 w.blockAlign ++ word16 16 ++ w.extra

def samples : List Int16 := w.frames.flatten

def dataBody : List UInt8 := w.samples.flatMap Endian.little.bytes16

def content : List UInt8 :=
  waveId ++ w.first.flatMap OtherChunk.bytes ++ chunk fmtId w.fmtBody
    ++ w.between.flatMap OtherChunk.bytes ++ chunk dataId w.dataBody
      ++ w.last.flatMap OtherChunk.bytes

def bytes : List UInt8 := riffId ++ size32 w.content.length ++ w.content

end Layout

/-- A well-formed file of 16-bit sound. -/
structure Wav extends Layout where
  channels_ne_zero : channels ≠ 0
  frame_length : ∀ frame ∈ frames, frame.length = channels.toNat
  fits : toLayout.content.length < 2 ^ 32

end Riff

end AetherGuard
