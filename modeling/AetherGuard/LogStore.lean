import Mathlib.Data.List.TakeWhile
import AetherGuard.Lib.Machine
import AetherGuard.Lib.Table
import AetherGuard.Lib.Statement
import AetherGuard.Lib.Like

/-!
# The log store

The API keeps the finished logs in the SQLite table `RadioLogs`, whose primary key is the frequency,
the time and the location. A text is a sequence of characters. The code binds every text with length
-1, so that SQLite takes it up to its first NUL, and reads every text back as a C string: a stored
text has no NUL. Statements are assumed to succeed.
-/

namespace AetherGuard

abbrev Text := List Char

def nul : Char := Char.ofNat 0

/-- `s.c_str()`, read up to its first NUL. -/
def cStr (s : Text) : Text := s.takeWhile (· ≠ nul)

theorem nul_notMem_cStr (s : Text) : nul ∉ cStr s := by
  intro h
  simpa using List.mem_takeWhile_imp h

/-- A text as the database stores it. -/
abbrev DbText := { s : Text // nul ∉ s }

/-- `sqlite3_bind_text` with length -1 -/
def bindText (s : Text) : DbText := ⟨cStr s, nul_notMem_cStr s⟩

@[ext]
structure RadioLog where
  freq : ℚ
  time : ℤ
  location : Text
  rawT : Text
  summary : Text
  channelName : Text
  audioFilePath : Text
  deriving DecidableEq

namespace LogStore

/-- A row of `RadioLogs`. -/
@[ext]
structure Row where
  freq : ℚ
  time : ℤ
  location : DbText
  rawT : DbText
  summary : DbText
  channelName : DbText
  audioFilePath : DbText
  deriving DecidableEq

/-- `PRIMARY KEY (freq, time, location)` -/
def Row.key (r : Row) : ℚ × ℤ × DbText := (r.freq, r.time, r.location)

abbrev RadioLogs := Table Row.key

def populateLogFromStmt (r : Row) : RadioLog where
  freq := r.freq
  time := r.time
  location := cStr r.location.1
  rawT := cStr r.rawT.1
  summary := cStr r.summary.1
  channelName := cStr r.channelName.1
  audioFilePath := cStr r.audioFilePath.1

/-- A value bound to a placeholder, a text as SQLite takes it. -/
inductive Value
  | real (x : ℚ)
  | int (n : ℤ)
  | text (s : Text)
  deriving DecidableEq

inductive Column
  | location
  | rawT
  | summary
  | channelName
  deriving DecidableEq

def Column.name : Column → String
  | .location => "location"
  | .rawT => "rawT"
  | .summary => "summary"
  | .channelName => "channelName"

def Row.text (r : Row) : Column → DbText
  | .location => r.location
  | .rawT => r.rawT
  | .summary => r.summary
  | .channelName => r.channelName

/-- `LIKE` -/
def like (pattern text : Text) : Bool := Like.like Char.toLower '%' '_' pattern text

/-- What the statements ask of a row. -/
inductive Cond
  | freqNear
  | freqBetween
  | timeEq
  | timeBetween
  | locationEq
  | like (c : Column)
  deriving DecidableEq

namespace Cond

def sql : Cond → String
  | freqNear => "ABS(freq - ?) < 0.005"
  | freqBetween => "freq BETWEEN ? AND ?"
  | timeEq => "time = ?"
  | timeBetween => "time BETWEEN ? AND ?"
  | locationEq => "location = ?"
  | like c => c.name ++ " LIKE ?"

def arity : Cond → ℕ
  | freqBetween | timeBetween => 2
  | freqNear | timeEq | locationEq | like _ => 1

/-- An unbound placeholder is NULL, and a comparison with it never holds. -/
def meets : Cond → List (Option Value) → Row → Bool
  | freqNear, [some (.real f)], r => |r.freq - f| < 5 / 1000
  | freqBetween, [some (.real lo), some (.real hi)], r => lo ≤ r.freq ∧ r.freq ≤ hi
  | timeEq, [some (.int n)], r => r.time = n
  | timeBetween, [some (.int lo), some (.int hi)], r => lo ≤ r.time ∧ r.time ≤ hi
  | locationEq, [some (.text s)], r => r.location.1 = s
  | like c, [some (.text s)], r => LogStore.like s (r.text c).1
  | _, _, _ => false

end Cond

/-- The rows a statement's condition selects, its placeholders bound by `binds`. -/
def selects (cond : List (List Cond)) (binds : List (ℕ × Value)) (r : Row) : Bool :=
  Statement.holds Cond.arity Cond.meets cond (Statement.param binds) r

/-- `SELECT .. WHERE cond ORDER BY time DESC`, its rows read back. -/
def select (t : RadioLogs) (cond : List (List Cond)) (binds : List (ℕ × Value)) : List RadioLog :=
  (t.selectDesc Row.time (selects cond binds)).map populateLogFromStmt

/-- The seven arguments of `insertLog`, bound. -/
def toRow (log : RadioLog) : Row where
  freq := log.freq
  time := log.time
  location := bindText log.location
  rawT := bindText log.rawT
  summary := bindText log.summary
  channelName := bindText log.channelName
  audioFilePath := bindText log.audioFilePath

def insertLog (t : RadioLogs) (log : RadioLog) : RadioLogs := t.insertOrReplace (toRow log)

def getAllLogs (t : RadioLogs) : List RadioLog := select t [] []

/-- Whether a row was deleted, and the table left. -/
def removeLog (t : RadioLogs) (freq : ℚ) (time : ℤ) (location : Text) : ℕ × RadioLogs :=
  let t' := t.deleteWhere (selects [[.freqNear], [.timeEq], [.locationEq]]
    [(1, .real freq), (2, .int time), (3, .text (bindText location).1)])
  let changes := t.rows.length - t'.rows.length
  (if changes > 0 then 1 else 0, t')

/-- The three logs of `seedDatabase`, at time `now`. -/
def seedLogs (now : ℤ) : List RadioLog :=
  [⟨154280 / 1000, now, "North Precinct".toList, "Officer needs assistance.".toList,
      "Officer request".toList, "Bham Police 1".toList, "/api/audio/audio.wav".toList⟩,
    ⟨462562 / 1000, now - 300, "Greystone".toList, "Order is ready at window two.".toList,
      "Drive-thru comms".toList, "Fast Food Ops".toList, "/api/audio/audio.wav".toList⟩,
    ⟨160230 / 1000, now - 3600, "Rail Yard".toList, "Train 42 is cleared on track 3.".toList,
      "Train clearance".toList, "Railroad Ch 1".toList, "/api/audio/audio.wav".toList⟩]

def seedDatabase (t : RadioLogs) (now : ℤ) : RadioLogs :=
  if (getAllLogs t).isEmpty then (seedLogs now).foldl insertLog t else t

inductive Act
  | save (log : RadioLog)
  | delete (freq : ℚ) (time : ℤ) (location : Text)
  | seed (now : ℤ)

def step (t : RadioLogs) : Act → RadioLogs
  | .save log => insertLog t log
  | .delete freq time location => (removeLog t freq time location).2
  | .seed now => seedDatabase t now

end LogStore

end AetherGuard
