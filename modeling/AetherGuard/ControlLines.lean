import AetherGuard.Messages
import AetherGuard.Lib.Lines

/-!
# The lines of the control connection

Both ends send a message as its JSON text and a newline, in one `send`, and both read the connection
with a loop of their own: what `recv` returns goes to `line_buf`, and every line that is complete
there is taken off and, unless it is empty, handed to the JSON parser. In the relay the loop's body
is in a `try`, in the daemon it is not, so that a line it cannot handle ends the thread and with it
the process. `sendCtrlCommand` tells its caller whether all of the message was sent, and does
nothing about the rest.
-/

namespace AetherGuard

namespace ControlLines

def newline : UInt8 := 10

/-- `line_buf`, the lines handed to the parser so far, and whether the thread is still running. -/
structure LineReader where
  lineBuf : Bytes
  lines : List Bytes
  running : Bool

namespace LineReader

/-- The loop over the complete lines in `line_buf`; `throws` are the lines whose handling ends the
thread. -/
def extract (throws : Bytes → Bool) (r : LineReader) : LineReader :=
  match _hpos : r.lineBuf.idxOf? newline with
  | none => r
  | some pos =>
    let line := r.lineBuf.take pos
    let rest := r.lineBuf.drop (pos + 1)
    if line.isEmpty then extract throws { r with lineBuf := rest }
    else if throws line then ⟨rest, r.lines ++ [line], false⟩
    else extract throws { r with lineBuf := rest, lines := r.lines ++ [line] }
termination_by r.lineBuf.length
decreasing_by
  all_goals
    obtain ⟨hlt, -⟩ := List.idxOf?_eq_some_iff.1 _hpos
    simp only [List.length_drop]
    omega

def recv (throws : Bytes → Bool) (r : LineReader) (chunk : Bytes) : LineReader :=
  if r.running then extract throws { r with lineBuf := r.lineBuf ++ chunk } else r

/-- The reader of a connection on which `recv` has returned `chunks`. -/
def readAll (throws : Bytes → Bool) (chunks : List Bytes) : LineReader :=
  chunks.foldl (recv throws) ⟨[], [], true⟩

end LineReader

/-- The daemon's end. -/
def ctrlReaderThread {F : Type*} (load : Bytes → Option (Json F)) (chunks : List Bytes) :
    LineReader :=
  .readAll (fun line => (load line).any fun json => (Daemon.eventOf json).isNone) chunks

/-- The relay's end. -/
def controlServerThread (chunks : List Bytes) : LineReader := .readAll (fun _ => false) chunks

/-- What `sendCtrlCommand` returns, and the bytes it puts on the connection, when `send` returns
`sent`; `none` is an error. -/
def sendCtrlCommand (jsonStr : Bytes) (sent : Option ℕ) : Bool × Bytes :=
  let msg := jsonStr ++ [newline]
  (sent = some msg.length, msg.take (sent.getD 0))

/-- Messages, the texts that the daemon's JSON library writes for them, and how the relay's parses a
text. -/
structure Codec (M : Type*) where
  dump : M → Bytes
  parse : Bytes → Option M
  parse_dump : ∀ m, parse (dump m) = some m
  dump_ne_nil : ∀ m, dump m ≠ []
  newline_notMem : ∀ m, newline ∉ dump m

variable {M : Type*}

/-- A call of `sendCtrlCommand`; `send` never takes more than it is given. -/
structure Send (c : Codec M) where
  cmd : M
  sent : Option ℕ
  sent_le : ∀ n ∈ sent, n ≤ (c.dump cmd).length + 1

variable {c : Codec M}

/-- What the call returns. -/
def Send.ok (s : Send c) : Bool := (sendCtrlCommand (c.dump s.cmd) s.sent).1

/-- What the call puts on the connection. -/
def Send.bytes (s : Send c) : Bytes := (sendCtrlCommand (c.dump s.cmd) s.sent).2

/-- What the calls put on the connection. -/
def wire (sends : List (Send c)) : Bytes := sends.flatMap Send.bytes

/-- The commands whose call returned true. -/
def succeeded (sends : List (Send c)) : List M := (sends.filter Send.ok).map Send.cmd

/-- The commands that the relay parses. -/
def parsed (c : Codec M) (chunks : List Bytes) : List M :=
  (controlServerThread chunks).lines.filterMap c.parse

end ControlLines

end AetherGuard
