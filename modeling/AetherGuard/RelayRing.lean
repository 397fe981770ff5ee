import AetherGuard.Lib.Machine
import AetherGuard.Lib.Window
import AetherGuard.Wire

/-!
# The relay's ring

`broadcastAudio`, called by the hardware callback, and `dataSenderThread` share a pool of 64 slots.
Each owns one counter and moves to the slot its counter points at; the slot's `ready` flag says
whose turn it is. One action is one atomic step of one of the two, or a change of `g_mode` by the
control thread. Besides the code's variables the state keeps what happened: the buffers accepted,
how many of their slots were published and released, and the frames built.
-/

namespace AetherGuard

namespace Relay

/-- `relay::POOL_SIZE` -/
def poolSize : Int32 := 64

inductive DeviceMode
  | idle
  | scanning
  | recording
  | liveListen
  deriving DecidableEq

/-- A buffer as `StreamACallback` passes it on: I and Q interleaved, sized by an `unsigned int`. -/
structure IqBuffer where
  samples : List Int16
  even : samples.length % 2 = 0
  size_lt : samples.length < 2 ^ 32

/-- `num_iq_pairs` -/
def IqBuffer.numIqPairs (buf : IqBuffer) : UInt32 :=
  if (UInt32.ofNat (buf.samples.length / 2)).toNat > slotSamples then UInt32.ofNat slotSamples
  else UInt32.ofNat (buf.samples.length / 2)

/-- The next step of `broadcastAudio`. -/
inductive Producer
  | idle
  | testReady (buf : IqBuffer)
  | copy (idx : ℤ) (buf : IqBuffer)
  | setNumSamples (idx : ℤ) (buf : IqBuffer)
  | setReady (idx : ℤ)
  | incWrite

/-- The next step of `dataSenderThread`. -/
inductive Sender
  | testReady
  | copy (idx : ℤ)
  | clearReady (idx : ℤ)
  | incRead

structure State where
  gMode : DeviceMode
  gRelayPool : ℤ → RelaySlot
  gRelayWrite : Int32
  gRelayRead : Int32
  producer : Producer
  sender : Sender
  accepted : List IqBuffer
  published : ℕ
  released : ℕ
  frames : List Frame

def State.init : State where
  gMode := .idle
  gRelayPool := fun _ => ⟨Vector.replicate _ 0, 0, false⟩
  gRelayWrite := 0
  gRelayRead := 0
  producer := .idle
  sender := .testReady
  accepted := []
  published := 0
  released := 0
  frames := []

/-- `broadcastAudio` up to its test of `g_mode`. -/
def State.offer (s : State) (buf : IqBuffer) : State :=
  match s.producer with
  | .idle =>
    if s.gMode = .scanning ∨ buf.samples = [] then s else { s with producer := .testReady buf }
  | _ => s

def State.broadcastAudio (s : State) : State :=
  match s.producer with
  | .idle => s
  | .testReady buf =>
    let idx := slotIndex poolSize s.gRelayWrite
    if (s.gRelayPool idx).ready then { s with producer := .idle }
    else { s with producer := .copy idx buf, accepted := s.accepted ++ [buf] }
  | .copy idx buf =>
    { s with
      gRelayPool := modifySlot s.gRelayPool idx fun slot =>
        { slot with data := memcpy slot.data buf.samples (buf.numIqPairs * 2).toNat }
      producer := .setNumSamples idx buf }
  | .setNumSamples idx buf =>
    { s with
      gRelayPool := modifySlot s.gRelayPool idx fun slot =>
        { slot with numSamples := buf.numIqPairs }
      producer := .setReady idx }
  | .setReady idx =>
    { s with
      gRelayPool := modifySlot s.gRelayPool idx fun slot => { slot with ready := true }
      producer := .incWrite
      published := s.published + 1 }
  | .incWrite => { s with gRelayWrite := s.gRelayWrite + 1, producer := .idle }

def State.dataSenderThread (s : State) : State :=
  match s.sender with
  | .testReady =>
    let idx := slotIndex poolSize s.gRelayRead
    if (s.gRelayPool idx).ready then { s with sender := .copy idx } else s
  | .copy idx =>
    { s with frames := s.frames ++ [(s.gRelayPool idx).frame], sender := .clearReady idx }
  | .clearReady idx =>
    { s with
      gRelayPool := modifySlot s.gRelayPool idx fun slot => { slot with ready := false }
      sender := .incRead
      released := s.released + 1 }
  | .incRead => { s with gRelayRead := s.gRelayRead + 1, sender := .testReady }

inductive Act
  | offer (buf : IqBuffer)
  | producer
  | sender
  | setMode (mode : DeviceMode)

def State.step (s : State) : Act → State
  | .offer buf => s.offer buf
  | .producer => s.broadcastAudio
  | .sender => s.dataSenderThread
  | .setMode mode => { s with gMode := mode }

/-- Action `a` gives the offered buffer up without accepting it. -/
def State.Rejects (s : State) (buf : IqBuffer) : Act → Prop
  | .offer b => b = buf ∧ s.producer = .idle ∧ (s.offer b).producer = .idle
  | .producer => s.producer = .testReady buf ∧ s.broadcastAudio.producer = .idle
  | _ => False

/-- Both threads are about to touch the data of slot `idx`. -/
def State.Races (s : State) (idx : ℤ) : Prop :=
  (∃ buf, s.producer = .copy idx buf ∨ s.producer = .setNumSamples idx buf)
    ∧ s.sender = .copy idx

/-- What is to be sent of a buffer: its first `min (size / 2) 16384` pairs. -/
def IqBuffer.cut (buf : IqBuffer) : Frame :=
  let pairs := min (buf.samples.length / 2) 16384
  ⟨UInt32.ofNat pairs, buf.samples.take (2 * pairs)⟩

end Relay

end AetherGuard
