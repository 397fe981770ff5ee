import AetherGuard.LogSearch
import AetherGuard.Lib.Handles

/-!
# The database behind the log store

The functions of the log store with everything that SQLite may answer. Each call to `sqlite3_open`,
`sqlite3_prepare_v2`, `sqlite3_step` or `sqlite3_exec` takes the next reply: whether it succeeds,
and what other connections have made of the table before it, which may be anything: rows come and
go, and the table is dropped or created again. A statement that needs the table also fails when
there is none, and the rows of a query are those of the table at its first step. The database logs
the connections and statements that are taken and given back; `sqlite3_open` gives out a connection
even when it fails, and `sqlite3_prepare_v2` a statement only when it succeeds. A handle is named by
the number of the call that gave it out.
-/

namespace AetherGuard

namespace Database

open LogStore (RadioLogs)

structure Reply where
  ok : Bool
  others : Option RadioLogs → Option RadioLogs

inductive Handle
  | connection (call : ℕ)
  | statement (call : ℕ)
  deriving DecidableEq

structure Db where
  /-- The table, if it exists. -/
  radioLogs : Option RadioLogs
  calls : ℕ
  handles : List (Handles.Event Handle)

/-- What a statement makes of the table, where it can be carried out. -/
abbrev Effect := Option RadioLogs → Option (Option RadioLogs)

def log (db : Db) (event : Handles.Event Handle) : Db :=
  { db with handles := db.handles ++ [event] }

section Calls

variable (replies : ℕ → Reply) (db : Db)

/-- The next call is made, and finds the database so. -/
def found : Db :=
  { db with
    radioLogs := (replies db.calls).others db.radioLogs
    calls := db.calls + 1 }

def sqlite3Open : Bool × Db :=
  ((replies db.calls).ok, log (found replies db) (.taken (.connection db.calls)))

def sqlite3Close (connection : ℕ) : Db := log db (.given (.connection connection))

def sqlite3Prepare : Option ℕ × Db :=
  if (replies db.calls).ok && (found replies db).radioLogs.isSome then
    (some db.calls, log (found replies db) (.taken (.statement db.calls)))
  else (none, found replies db)

/-- Finalizing the null pointer does nothing. -/
def sqlite3Finalize : Option ℕ → Db
  | none => db
  | some stmt => log db (.given (.statement stmt))

/-- `sqlite3_exec`, or the `sqlite3_step` of a statement that changes the table. -/
def sqlite3Exec (effect : Effect) : Bool × Db :=
  match effect (found replies db).radioLogs with
  | some table =>
    if (replies db.calls).ok then (true, { found replies db with radioLogs := table })
    else (false, found replies db)
  | none => (false, found replies db)

end Calls

variable (replies : ℕ → Reply)

/-- The loop over `sqlite3_step`, up to the first result that is not `SQLITE_ROW`. -/
def stepRows : List RadioLog → Db → List RadioLog × Db
  | [], db => ([], found replies db)
  | row :: rows, db =>
    if (replies db.calls).ok then
      let (logs, db) := stepRows rows (found replies db)
      (row :: logs, db)
    else ([], found replies db)

def query (results : RadioLogs → List RadioLog) (db : Db) : List RadioLog × Db :=
  match (found replies db).radioLogs with
  | none => ([], found replies db)
  | some table => stepRows replies (results table) db

/-- `CREATE TABLE IF NOT EXISTS` -/
def create : Effect := fun table => some (some (table.getD Table.empty))

/-- `INSERT OR REPLACE` of one log -/
def insertOrReplace (log : RadioLog) : Effect :=
  fun table => table.map fun t => some (LogStore.insertLog t log)

/-- `INSERT` of logs, which fails as a whole where a key is taken. -/
def insertAll (logs : List RadioLog) : Effect :=
  fun table => table.bind fun t =>
    if t.rows.any fun r => logs.any fun l => r.key = (LogStore.toRow l).key then none
    else some (some (logs.foldl LogStore.insertLog t))

/-- `DROP TABLE IF EXISTS` -/
def drop : Effect := fun _ => some none

def createTable (db : Db) : Bool × Db :=
  let connection := db.calls
  let (ok, db) := sqlite3Open replies db
  if ok then
    let (_, db) := sqlite3Exec replies db create
    (true, sqlite3Close db connection)
  else (false, db)

def insertLog (log : RadioLog) (db : Db) : Db :=
  let connection := db.calls
  let (ok, db) := sqlite3Open replies db
  if ok then
    match sqlite3Prepare replies db with
    | (none, db) => sqlite3Close db connection
    | (some stmt, db) =>
      let (_, db) := sqlite3Exec replies db (insertOrReplace log)
      sqlite3Close (sqlite3Finalize db stmt) connection
  else db

def getAllLogs (db : Db) : List RadioLog × Db :=
  let connection := db.calls
  let (ok, db) := sqlite3Open replies db
  if ok then
    match sqlite3Prepare replies db with
    | (none, db) => ([], sqlite3Close db connection)
    | (some stmt, db) =>
      let (logs, db) := query replies LogStore.getAllLogs db
      (logs, sqlite3Close (sqlite3Finalize db stmt) connection)
  else ([], db)

/-- `sqlite3_changes` of a connection whose only statement failed is 0. -/
def removeLog (freq : ℚ) (time : ℤ) (location : Text) (db : Db) : ℕ × Db :=
  let connection := db.calls
  let (ok, db) := sqlite3Open replies db
  if ok then
    match sqlite3Prepare replies db with
    | (none, db) => (0, sqlite3Close db connection)
    | (some stmt, db) =>
      let changed := (found replies db).radioLogs.elim 0
        fun t => (LogStore.removeLog t freq time location).1
      let (done, db) := sqlite3Exec replies db
        fun table => table.map fun t => some (LogStore.removeLog t freq time location).2
      (if done then changed else 0, sqlite3Close (sqlite3Finalize db stmt) connection)
  else (0, db)

/-- The filters of the log store, all written alike: `bound` is what the statement selects once its
placeholders are bound, or none if binding them throws, and then nothing catches it. -/
def filter (bound : Option (RadioLogs → List RadioLog)) (db : Db) : Option (List RadioLog) × Db :=
  let connection := db.calls
  let (ok, db) := sqlite3Open replies db
  if ok then
    match sqlite3Prepare replies db with
    | (none, db) => (some [], sqlite3Close (sqlite3Finalize db none) connection)
    | (some stmt, db) =>
      match bound with
      | none => (none, db)
      | some results =>
        let (logs, db) := query replies results db
        (some logs, sqlite3Close (sqlite3Finalize db stmt) connection)
  else (some [], db)

def filterByFrequency (freq : ℚ) : Db → Option (List RadioLog) × Db :=
  filter replies (some fun t => LogStore.filterByFrequency t freq)

def filterByLocation (loc : Text) : Db → Option (List RadioLog) × Db :=
  filter replies (some fun t => LogStore.filterByLocation t loc)

/-- Alone among the filters this one lists the oldest first. -/
def filterByTime (unixTime : ℤ) : Db → Option (List RadioLog) × Db :=
  filter replies (some fun t => (t.selectAsc LogStore.Row.time (LogStore.selects [[.timeBetween]]
    [(1, .int unixTime), (2, .int (unixTime + 59))])).map LogStore.populateLogFromStmt)

def filterByChannelName (channel : Text) : Db → Option (List RadioLog) × Db :=
  filter replies (some fun t => LogStore.filterByChannelName t channel)

def filterByTimeRange (startTimestamp endTimestamp : ℤ) : Db → Option (List RadioLog) × Db :=
  filter replies (some fun t =>
    LogStore.select t [[.timeBetween]] [(1, .int startTimestamp), (2, .int endTimestamp)])

def searchDatabaseKeywords (keyword : Text) (limit : ℤ) : Db → Option (List RadioLog) × Db :=
  filter replies (some fun t => LogStore.searchDatabaseKeywords t keyword limit)

def advancedSearch (stod : Text → Option ℚ) (stoll : Text → Option ℤ) (F : LogStore.Filters) :
    Db → Option (List RadioLog) × Db :=
  filter replies ((F.binds stod stoll).map fun b t => LogStore.select t F.cond b.binds)

/-! ### The handlers -/

/-- A failed open leaves the connection open, here too. -/
def seedDatabase (now : ℤ) (db : Db) : Db :=
  let (logs, db) := getAllLogs replies db
  if !logs.isEmpty then db
  else
    let connection := db.calls
    let (ok, db) := sqlite3Open replies db
    if ok then
      let (_, db) := sqlite3Exec replies db (insertAll (LogStore.seedLogs now))
      sqlite3Close db connection
    else db

/-- The `status` of the response, and the database after it. -/
abbrev Handler := Db → String × Db

/-- `/api/dev/seed` -/
def apiDevSeed (now : ℤ) : Handler := fun db =>
  ("database_seeded_successfully", seedDatabase replies now db)

/-- `/api/logs/save`, once the fields of the body are read. -/
def apiLogsSave (freq : ℚ) (time : ℤ) (location rawT summary channelName : Text) : Handler :=
  fun db => ("success", insertLog replies
    ⟨freq, time, location, rawT, summary, channelName, "/api/audio/audio.wav".toList⟩ db)

/-- `/api/dev/clear` -/
def apiDevClear : Handler := fun db =>
  let connection := db.calls
  let (ok, db) := sqlite3Open replies db
  let db :=
    if ok then
      let (_, db) := sqlite3Exec replies db drop
      (createTable replies (sqlite3Close db connection)).2
    else db
  ("database_wiped_and_recreated", db)

end Database

end AetherGuard
