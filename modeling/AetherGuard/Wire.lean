import AetherGuard.Lib.Bytes
import AetherGuard.Lib.Memory

/-!
# The IQ stream between relay and daemon

The relay's `dataSenderThread` copies a slot of its ring into a frame (`RelaySlot.frame`) and sends
it as a magic word and a pair count in network order followed by the raw 16-bit samples
(`Frame.bytes`). The daemon's `tcpReaderThread` reads the stream back with `recvExact`, which
loops over `recv` until it has all the bytes asked for, and hands each payload to `feedIQToPool`;
`tcpReader` is one connection's inner loop, with the payloads it feeds and the exit it takes.
-/

namespace AetherGuard

/-! ## The relay's side -/

/-- `relay::SLOT_SAMPLES`, I/Q pairs in a slot. -/
def slotSamples : ℕ := 16384

structure RelaySlot where
  data : Vector Int16 (slotSamples * 2)
  numSamples : UInt32
  ready : Bool

/-- What `dataSenderThread` takes out of a slot. -/
structure Frame where
  numSamples : UInt32
  payload : List Int16
  deriving DecidableEq

def RelaySlot.frame (slot : RelaySlot) : Frame :=
  ⟨slot.numSamples, slot.data.toList.take (slot.numSamples * 2).toNat⟩

/-- The frame as it is sent, by a host of byte order `e`. -/
def Frame.bytes (e : Endian) (f : Frame) : List UInt8 :=
  e.bytes32 (e.htonl 0x49515043) ++ e.bytes32 (e.htonl f.numSamples) ++ f.payload.flatMap e.bytes16

/-! ## The daemon's side -/

/-- `IQ_HEADER_MAGIC` -/
def iqHeaderMagic : UInt32 := 0x49515043

/-- The pieces in which a connection's bytes will arrive; after the last the peer has closed. -/
abbrev Socket := List (List UInt8)

/-- `recv(fd, p, n, 0)`: what is there of the next piece, up to `n` bytes. -/
def recv : Socket → ℕ → List UInt8 × Socket
  | [], _ => ([], [])
  | p :: ps, n => (p.take n, if p.length ≤ n then ps else p.drop n :: ps)

theorem recv_flatten (sock : Socket) (n : ℕ) :
    (recv sock n).1 ++ (recv sock n).2.flatten = sock.flatten := by
  rcases sock with _ | ⟨p, ps⟩
  · rfl
  · simp only [recv]
    split_ifs with h
    · rw [List.take_of_length_le h, List.flatten_cons]
    · rw [List.flatten_cons, ← List.append_assoc, List.take_append_drop, List.flatten_cons]

theorem recv_length_le (sock : Socket) (n : ℕ) : (recv sock n).1.length ≤ n := by
  rcases sock with _ | ⟨p, ps⟩
  · simp [recv]
  · simp only [recv, List.length_take]
    omega

/-- What `recvExact` leaves: whether it got all its bytes, those it got, and the socket. -/
structure Received where
  ok : Bool
  buf : List UInt8
  sock : Socket

def recvExact (sock : Socket) (n : ℕ) : Received :=
  if n = 0 then ⟨true, [], sock⟩
  else if (recv sock n).1 = [] then ⟨false, [], (recv sock n).2⟩
  else
    let rest := recvExact (recv sock n).2 (n - (recv sock n).1.length)
    { rest with buf := (recv sock n).1 ++ rest.buf }
termination_by n
decreasing_by
  have := List.length_pos_iff.2 ‹(recv sock n).1 ≠ []›
  omega

/-- Nothing is lost between the buffer and what is still to come. -/
theorem recvExact_flatten (sock : Socket) (n : ℕ) :
    (recvExact sock n).buf ++ (recvExact sock n).sock.flatten = sock.flatten := by
  fun_induction recvExact sock n with
  | case1 sock => rfl
  | case2 sock n hn h =>
    have := recv_flatten sock n
    rw [h, List.nil_append] at this
    exact this
  | case3 sock n hn h rest ih =>
    rw [← recv_flatten sock n, ← ih, List.append_assoc]

theorem recvExact_buf_length (sock : Socket) (n : ℕ) (h : (recvExact sock n).ok = true) :
    (recvExact sock n).buf.length = n := by
  fun_induction recvExact sock n with
  | case1 sock => rfl
  | case2 sock n hn h' => simp at h
  | case3 sock n hn h' rest ih =>
    have hle := recv_length_le sock n
    have hlen : rest.buf.length = n - (recv sock n).1.length := ih h
    simp only [List.length_append, hlen]
    omega

/-- The exits of `tcpReaderThread`'s inner loop. -/
inductive ReaderExit
  | headerRead
  | badMagic
  | invalidCount
  | payloadRead
  deriving DecidableEq

/-- One connection's inner loop: the buffers it fed, its exit, and what it left unread. -/
structure ReaderRun where
  fed : List (List Int16)
  exit : ReaderExit
  sock : Socket

/-- `tcpReaderThread` between a connect and its close, on a host of byte order `e`. -/
def tcpReader (e : Endian) (sock : Socket) : ReaderRun :=
  let header := recvExact sock 8
  let magic := e.ntohl (e.word32 (header.buf.take 4))
  let numSamples := e.ntohl (e.word32 (header.buf.drop 4))
  if header.ok = false then ⟨[], .headerRead, header.sock⟩
  else if magic ≠ iqHeaderMagic then ⟨[], .badMagic, header.sock⟩
  else if numSamples = 0 ∨ numSamples > 65536 then ⟨[], .invalidCount, header.sock⟩
  else
    let payload := recvExact header.sock ((numSamples * 2).toNat * 2)
    if payload.ok = false then ⟨[], .payloadRead, payload.sock⟩
    else
      let rest := tcpReader e payload.sock
      { rest with fed := e.int16s payload.buf :: rest.fed }
termination_by sock.flatten.length
decreasing_by
  have hh : (recvExact sock 8).ok = true := by simpa using ‹¬ header.ok = false›
  have h1 := congrArg List.length (recvExact_flatten sock 8)
  have h2 := congrArg List.length (recvExact_flatten header.sock ((numSamples * 2).toNat * 2))
  have h3 := recvExact_buf_length sock 8 hh
  rw [List.length_append] at h1 h2
  change payload.sock.flatten.length < sock.flatten.length
  simp only [header, payload] at *
  omega

end AetherGuard
