import AetherGuard.PcmPool
import AetherGuard.Lib.Bytes

/-!
# Live audio, from the PCM pool to the page

While `g_live_listen` is set, `outputThread` publishes the bytes of each slot it empties on
`live_audio`. The API's `redisListenerThread` is subscribed to that channel and sends each message
to every connection in `audio_clients`, which `/ws/audio` fills and empties as connections open and
close. A page that listens opens such a connection together with an audio context, and schedules
each message it gets as one buffer of that context, right after the buffer before or, if that one
has ended, a moment from now. The connection, the context and the time to play next are refs of the
component: an effect replaces them whenever the listening state or the station changes, and the
handler of a connection reads whatever they hold when a message comes.

A page keeps the pairs of connection and context it has made, and its refs are places among them. A
message reaches the page after it was sent, in order, and a connection that breaks loses the last
ones under way. The times are the page's own numbers, with rounded sums (`Clock`). For the model
only the state keeps the chunks published and the messages broadcast, and a connection the messages
the page took from it.
-/

namespace AetherGuard

open Daemon

namespace LiveAudio

/-- The page's arithmetic on times. A sum is rounded, but a time plus a duration is never before
that time. -/
structure Clock (T : Type*) [LinearOrder T] [Zero T] where
  add : T → T → T
  /-- `audioBuffer.duration` of `n` frames at 16000 Hz. -/
  duration : ℕ → T
  /-- `0.05` -/
  lead : T
  duration_nonneg : ∀ n, 0 ≤ duration n
  lead_nonneg : 0 ≤ lead
  le_add : ∀ t d, 0 ≤ d → t ≤ add t d

/-- The times without rounding. -/
def Clock.exact : Clock ℚ where
  add := (· + ·)
  duration n := n / 16000
  lead := 1 / 20
  duration_nonneg n := by positivity
  lead_nonneg := by norm_num
  le_add t d h := by linarith

/-- A buffer source: the time of the context when it was made, the time given to `start`, and the
samples of its buffer. -/
structure Source (T : Type*) where
  madeAt : T
  start : T
  pcm16 : List Int16
  deriving DecidableEq

/-- Whether the API has the connection in `audio_clients`. -/
inductive Member
  | connecting
  | inserted
  | erased
  deriving DecidableEq

/-- A connection to `/ws/audio` and the audio context made with it. -/
structure Session (T : Type*) where
  member : Member
  /-- The page has called `close` on the connection, and gets no more messages. -/
  closing : Bool
  inbox : List (List UInt8)
  currentTime : T
  closed : Bool
  sources : List (Source T)
  since : ℕ
  taken : List (List UInt8)
  deriving DecidableEq

structure Page (T : Type*) where
  mounted : Bool
  sessions : List (Session T)
  wsRef : Option ℕ
  audioCtxRef : Option ℕ
  nextPlayTimeRef : T
  deriving DecidableEq

inductive Listener
  | subscribing
  | listening
  | ended
  deriving DecidableEq

end LiveAudio

open LiveAudio

structure LiveAudio (T : Type*) where
  pool : PcmPool Int16
  gLiveListen : Bool
  published : List (List Int16)
  listener : Listener
  liveAudio : List (List UInt8)
  broadcast : List (List UInt8)
  pages : List (Page T)

namespace LiveAudio

variable {T : Type*} [LinearOrder T] [Zero T]

/-! ## The page -/

/-- `new Int16Array(event.data)` and `createBuffer`: the first throws on an odd number of bytes,
the second on no samples. -/
def int16Array (e : Endian) (data : List UInt8) : Option (List Int16) :=
  if data.length % 2 = 1 ∨ data = [] then none else some (e.int16s data)

/-- `channelData` -/
def Source.channelData (src : Source T) : List ℚ := src.pcm16.map fun x => x.toInt / 32768

def Source.stop (clk : Clock T) (src : Source T) : T :=
  clk.add src.start (clk.duration src.pcm16.length)

namespace Page

def init : Page T := ⟨true, [], none, none, 0⟩

def modify (p : Page T) (k : ℕ) (f : Session T → Session T) : Page T :=
  { p with sessions := p.sessions.modify k f }

/-- `if (wsRef.current) wsRef.current.close()` -/
def closeSocket (p : Page T) : Page T :=
  match p.wsRef with
  | none => p
  | some k => p.modify k fun sess => { sess with closing := true }

/-- `if (audioCtxRef.current) audioCtxRef.current.close()` -/
def closeContext (p : Page T) : Page T :=
  match p.audioCtxRef with
  | none => p
  | some k => p.modify k fun sess => { sess with closed := true }

def cleanup (p : Page T) : Page T := p.closeSocket.closeContext

/-- The effect, with whether the page listens to a station. -/
def effect (p : Page T) (listening : Bool) : Page T :=
  if listening then
    { p with
      sessions := p.sessions ++ [⟨.connecting, false, [], 0, false, [], 0, []⟩]
      audioCtxRef := some p.sessions.length
      nextPlayTimeRef := 0
      wsRef := some p.sessions.length }
  else { p.closeSocket.closeContext with wsRef := none, audioCtxRef := none }

/-- The listening state or the station changes: cleanup, then effect. -/
def render (p : Page T) (listening : Bool) : Page T :=
  if p.mounted then p.cleanup.effect listening else p

def unmount (p : Page T) : Page T :=
  if p.mounted then { p.cleanup with mounted := false } else p

/-- `nextPlayTimeRef` once an underrun is made good. -/
def nextPlayTime (clk : Clock T) (p : Page T) (currentTime : T) : T :=
  if p.nextPlayTimeRef < currentTime then clk.add currentTime clk.lead else p.nextPlayTimeRef

/-- `source.start(nextPlayTime)` in the `k`-th context, whose time is `currentTime`. -/
def schedule (clk : Clock T) (p : Page T) (k : ℕ) (currentTime : T) (pcm16 : List Int16) : Page T :=
  let src : Source T := ⟨currentTime, p.nextPlayTime clk currentTime, pcm16⟩
  { p.modify k fun sess => { sess with sources := sess.sources ++ [src] } with
    nextPlayTimeRef := src.stop clk }

/-- `onmessage`, whichever connection the message came on. -/
def onmessage (e : Endian) (clk : Clock T) (p : Page T) (data : List UInt8) : Page T :=
  match p.audioCtxRef with
  | none => p
  | some k =>
    match p.sessions[k]?, int16Array e data with
    | some sess, some pcm16 => p.schedule clk k sess.currentTime pcm16
    | _, _ => p

/-- The next message of the `k`-th connection comes to the page. -/
def receive (e : Endian) (clk : Clock T) (p : Page T) (k : ℕ) : Page T :=
  match p.sessions[k]? with
  | none => p
  | some sess =>
    match sess.inbox with
    | [] => p
    | data :: rest =>
      let p' := p.modify k fun sess => { sess with inbox := rest, taken := sess.taken ++ [data] }
      if sess.closing then p' else p'.onmessage e clk data

/-- The time of the `k`-th context goes on to `t`. -/
def tick (p : Page T) (k : ℕ) (t : T) : Page T :=
  p.modify k fun sess =>
    if sess.closed then sess else { sess with currentTime := max sess.currentTime t }

/-- `/ws/audio` opens the `k`-th connection, after `sent` messages were broadcast. -/
def onopen (p : Page T) (k sent : ℕ) : Page T :=
  p.modify k fun sess =>
    if sess.member = .connecting then { sess with member := .inserted, since := sent } else sess

/-- `/ws/audio` closes the `k`-th connection, of whose messages under way `n` still arrive. -/
def onclose (p : Page T) (k n : ℕ) : Page T :=
  p.modify k fun sess =>
    if sess.member = .inserted then { sess with member := .erased, inbox := sess.inbox.take n }
    else sess

/-- `send_binary` on the page's connections in `audio_clients`. -/
def send (p : Page T) (payload : List UInt8) : Page T :=
  { p with
    sessions := p.sessions.map fun sess =>
      if sess.member = .inserted then { sess with inbox := sess.inbox ++ [payload] } else sess }

end Page

/-! ## The system -/

def init (T : Type*) : LiveAudio T := ⟨.init 0, false, [], .subscribing, [], [], []⟩

/-- The bytes of a slot's samples, as a host of byte order `e` holds them. -/
def payload (e : Endian) (pcm : List Int16) : List UInt8 := pcm.flatMap e.bytes16

/-- `PUBLISH live_audio`: only a subscriber gets it. -/
def publish (e : Endian) (s : LiveAudio T) (pcm : List Int16) : LiveAudio T :=
  { s with
    published := s.published ++ [pcm]
    liveAudio := if s.listener = .listening then s.liveAudio ++ [payload e pcm] else s.liveAudio }

/-- `outputThread`, with whether its connection to Redis holds. -/
def outputThread (e : Endian) (s : LiveAudio T) (ok : Bool) : LiveAudio T :=
  let s' := match s.pool.output with
    | .write idx => if s.gLiveListen && ok then s.publish e (s.pool.pcmPool idx).pcm else s
    | _ => s
  { s' with pool := s.pool.outputThread }

/-- `redisListenerThread` takes the next message of `live_audio`. -/
def redisListenerThread (s : LiveAudio T) : LiveAudio T :=
  match s.listener, s.liveAudio with
  | .listening, payload :: rest =>
    { s with
      liveAudio := rest
      broadcast := s.broadcast ++ [payload]
      pages := s.pages.map (·.send payload) }
  | _, _ => s

def modifyPage (s : LiveAudio T) (i : ℕ) (f : Page T → Page T) : LiveAudio T :=
  { s with pages := s.pages.modify i f }

inductive Act (T : Type*)
  | startChunk
  | sample (x : Int16)
  | demod
  | output (ok : Bool)
  | setLive (on : Bool)
  | subscribe
  | endListener
  | redisListener
  | mount
  | render (i : ℕ) (listening : Bool)
  | unmount (i : ℕ)
  | onopen (i k : ℕ)
  | onclose (i k n : ℕ)
  | receive (i k : ℕ)
  | tick (i k : ℕ) (t : T)

def step (e : Endian) (clk : Clock T) (s : LiveAudio T) : Act T → LiveAudio T
  | .startChunk => { s with pool := s.pool.startChunk }
  | .sample x => { s with pool := s.pool.sample x }
  | .demod => { s with pool := s.pool.demodThread }
  | .output ok => s.outputThread e ok
  | .setLive on => { s with gLiveListen := on }
  | .subscribe => if s.listener = .subscribing then { s with listener := .listening } else s
  | .endListener => { s with listener := .ended, liveAudio := [] }
  | .redisListener => s.redisListenerThread
  | .mount => { s with pages := s.pages ++ [.init] }
  | .render i listening => s.modifyPage i (·.render listening)
  | .unmount i => s.modifyPage i (·.unmount)
  | .onopen i k => s.modifyPage i (·.onopen k s.broadcast.length)
  | .onclose i k n => s.modifyPage i (·.onclose k n)
  | .receive i k => s.modifyPage i (·.receive e clk k)
  | .tick i k t => s.modifyPage i (·.tick k t)

/-- The sample an action of the demodulator puts out. -/
def resampled (s : LiveAudio T) : Act T → List Int16
  | .sample x => s.pool.resampled (.sample x)
  | _ => []

/-- The samples that the demodulator puts out in a run. -/
def generated (e : Endian) (clk : Clock T) (s : LiveAudio T) (as : List (Act T)) : List Int16 :=
  Machine.gives (step e clk) resampled s as

end LiveAudio

end AetherGuard
