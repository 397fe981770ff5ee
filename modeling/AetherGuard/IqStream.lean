import AetherGuard.IqPool
import AetherGuard.Wire

/-!
# The daemon's sample stream

`tcpReaderThread` and `demodThread` over many connections. The reader takes one frame after the
other, `feedIQToPool` cuts their samples into chunks through a staging buffer that outlives the
connection, and the chunks go through the pool. Each cell carries the connection it came on and its
place among the samples of that connection, so that the trace of the pool tells which samples the
filters saw one after the other. `g_scanning` changes at any time. One action is a connection being
made or ended, a frame arriving, or one step of the reader on the frame or of the demodulator.
-/

namespace AetherGuard

namespace Daemon

/-- A received `int16_t`, the connection it came on and its place in that stream. -/
structure Cell where
  conn : ℕ
  pos : ℕ
  value : Int16

/-- The cells of a payload that starts at place `pos` of connection `conn`. -/
def tag (conn : ℕ) : ℕ → List Int16 → List Cell
  | _, [] => []
  | pos, v :: l => ⟨conn, pos, v⟩ :: tag conn (pos + 1) l

/-- What follows a good header: a count of I/Q pairs within the reader's limits, and their cells. -/
structure Payload where
  numSamples : ℕ
  pos : 0 < numSamples
  le : numSamples ≤ 65536
  data : List Int16
  size : data.length = numSamples * 2

/-- Where `tcpReaderThread` is; `feeding` holds the part of the frame not yet staged. -/
inductive Reader
  | disconnected
  | receiving
  | feeding (rest : List Cell)

/-- `staging_buf` up to `staging_len`. -/
abbrev Staging := { l : List Cell // l.length < iqChunkSize * 2 }

structure IqStream where
  reader : Reader
  conn : ℕ
  received : ℕ
  staging : Staging
  gScanning : Bool
  pool : Pool Cell

namespace IqStream

def init : IqStream where
  reader := .disconnected
  conn := 0
  received := 0
  staging := ⟨[], by decide⟩
  gScanning := false
  pool := Pool.init ⟨0, 0, 0⟩

def connect (s : IqStream) : IqStream :=
  match s.reader with
  | .disconnected => { s with reader := .receiving, conn := s.conn + 1, received := 0 }
  | _ => s

/-- A frame has been read; `feedIQToPool` begins, and gives up at once during a scan. -/
def frame (s : IqStream) (payload : Payload) : IqStream :=
  match s.reader with
  | .receiving =>
    { s with
      reader := if s.gScanning then .receiving
        else .feeding (tag s.conn s.received payload.data)
      received := s.received + payload.data.length }
  | _ => s

/-- The reader leaves its inner loop; the exit on a bad count leaves `g_stream_gap` alone. -/
def endConn (s : IqStream) (exit : ReaderExit) : IqStream :=
  match s.reader with
  | .receiving =>
    { s with
      reader := .disconnected
      pool := if exit = .invalidCount then s.pool else s.pool.raiseGap }
  | _ => s

/-- The staging buffer after a `memcpy` of as much of the frame as fits. -/
def staged (s : IqStream) (rest : List Cell) : List Cell :=
  s.staging.1 ++ rest.take (iqChunkSize * 2 - s.staging.1.length)

theorem staged_length (s : IqStream) (rest : List Cell)
    (h : ¬ (s.staged rest).length < iqChunkSize * 2) :
    (s.staged rest).toArray.size = iqChunkSize * 2 := by
  have := s.staging.2
  simp only [staged, List.size_toArray, List.length_append, List.length_take] at h ⊢
  omega

/-- A step of `feedIQToPool`: on the pool while a full chunk is being handed over, otherwise of
the loop that fills the staging buffer. -/
def feedIQToPool (s : IqStream) : IqStream :=
  match s.reader with
  | .feeding rest =>
    match s.pool.feeder with
    | .idle =>
      if rest = [] then { s with reader := .receiving }
      else if h : (s.staged rest).length < iqChunkSize * 2 then
        { s with reader := .receiving, staging := ⟨s.staged rest, h⟩ }
      else
        { s with
          reader := .feeding (rest.drop (iqChunkSize * 2 - s.staging.1.length))
          staging := ⟨[], by decide⟩
          pool := s.pool.offer ⟨(s.staged rest).toArray, s.staged_length rest h⟩ }
    | _ => { s with pool := s.pool.feedIQToPool }
  | _ => s

inductive Act
  | connect
  | frame (payload : Payload)
  | endConn (exit : ReaderExit)
  | setScanning (b : Bool)
  | reader
  | demod

def step (s : IqStream) : Act → IqStream
  | .connect => s.connect
  | .frame payload => s.frame payload
  | .endConn exit => s.endConn exit
  | .setScanning b => { s with gScanning := b }
  | .reader => s.feedIQToPool
  | .demod => { s with pool := s.pool.demodThread }

end IqStream

/-- Two samples one after the other came one after the other on one connection; a reset parts any
two. -/
def Follows : Event Cell → Event Cell → Prop
  | .sample i _, .sample i' _ => i'.conn = i.conn ∧ i'.pos = i.pos + 2
  | _, _ => True

end Daemon

end AetherGuard
