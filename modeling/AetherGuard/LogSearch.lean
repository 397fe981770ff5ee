import Mathlib.Data.Char
import Mathlib.Data.List.Lex
import AetherGuard.LogStore

/-!
# Searching the logs

Every filter is a query of the log store. `advancedSearch` writes its statement and binds its
placeholders in two passes over the filters that are given, and `/api/search` merges the results of
two filters. `std::stod` and `std::stoll` are parameters: `none` is the exception they throw.
-/

namespace AetherGuard

namespace LogStore

open Statement (Binder)

/-- The order of the primary key's index. -/
def Row.keyLe (a b : Row) : Prop :=
  a.freq < b.freq ∨ a.freq = b.freq
    ∧ (a.time < b.time ∨ a.time = b.time ∧ a.location.1 ≤ b.location.1)

instance : DecidableRel Row.keyLe := fun _ _ => inferInstanceAs (Decidable (_ ∨ _ ∧ (_ ∨ _ ∧ _)))

/-- Alone among the statements this one reads the rows through the index, so rows of one time are
listed in the order of the key. -/
def filterByFrequency (t : RadioLogs) (freq : ℚ) : List RadioLog :=
  let rows := t.rows.filter (selects [[.freqBetween]]
    [(1, .real (freq - 1 / 100)), (2, .real (freq + 1 / 100))])
  ((rows.insertionSort Row.keyLe).insertionSort fun a b => b.time ≤ a.time).map populateLogFromStmt

/-- `"%" + s + "%"` -/
def pattern (s : Text) : Text := '%' :: (s ++ ['%'])

def filterByLocation (t : RadioLogs) (loc : Text) : List RadioLog :=
  select t [[.like .location]] [(1, .text (bindText (pattern loc)).1)]

def filterByChannelName (t : RadioLogs) (channel : Text) : List RadioLog :=
  select t [[.like .channelName]] [(1, .text (bindText (pattern channel)).1)]

/-- A negative `LIMIT` is none. -/
def searchDatabaseKeywords (t : RadioLogs) (keyword : Text) (limit : ℤ) : List RadioLog :=
  let query := (bindText (pattern keyword)).1
  let results := select t [[.like .summary, .like .rawT]] [(1, .text query), (2, .text query)]
  if limit < 0 then results else results.take limit.toNat

/-- The arguments of `advancedSearch`; an empty one is not given. -/
structure Filters where
  freqStr : Text
  loc : Text
  keyword : Text
  startStr : Text
  endStr : Text

/-- The statement of `advancedSearch`. -/
def Filters.sql (F : Filters) : String :=
  let sql := "SELECT freq, time, location, rawT, summary, channelName, audioFilePath " ++
    "FROM RadioLogs WHERE 1=1"
  let sql := if !F.freqStr.isEmpty then sql ++ " AND ABS(freq - ?) < 0.005" else sql
  let sql := if !F.loc.isEmpty then sql ++ " AND location LIKE ?" else sql
  let sql := if !F.keyword.isEmpty then
      sql ++ " AND (summary LIKE ? OR rawT LIKE ? OR channelName LIKE ?)" else sql
  let sql := if !F.startStr.isEmpty && !F.endStr.isEmpty then
      sql ++ " AND time BETWEEN ? AND ?" else sql
  sql ++ " ORDER BY time DESC;"

/-- The condition that the statement's text denotes. -/
def Filters.cond (F : Filters) : List (List Cond) :=
  (if !F.freqStr.isEmpty then [[.freqNear]] else []) ++
  (if !F.loc.isEmpty then [[.like .location]] else []) ++
  (if !F.keyword.isEmpty then [[.like .summary, .like .rawT, .like .channelName]] else []) ++
  (if !F.startStr.isEmpty && !F.endStr.isEmpty then [[.timeBetween]] else [])

def Filters.bindLoc (F : Filters) (b : Binder Value) : Binder Value :=
  if !F.loc.isEmpty then b.bind (.text (bindText (pattern F.loc)).1) else b

def Filters.bindKeyword (F : Filters) (b : Binder Value) : Binder Value :=
  if !F.keyword.isEmpty then
    let keyQuery := Value.text (bindText (pattern F.keyword)).1
    ((b.bind keyQuery).bind keyQuery).bind keyQuery
  else b

section Parse

variable (stod : Text → Option ℚ) (stoll : Text → Option ℤ)

def Filters.bindFreq (F : Filters) (b : Binder Value) : Option (Binder Value) :=
  if !F.freqStr.isEmpty then (stod F.freqStr).map fun f => b.bind (.real f) else some b

def Filters.bindTimes (F : Filters) (b : Binder Value) : Option (Binder Value) :=
  if !F.startStr.isEmpty && !F.endStr.isEmpty then do
    let b ← (stoll F.startStr).map fun n => b.bind (.int n)
    (stoll F.endStr).map fun n => b.bind (.int n)
  else some b

/-- The binds of `advancedSearch`. -/
def Filters.binds (F : Filters) : Option (Binder Value) := do
  let b ← F.bindFreq stod .start
  F.bindTimes stoll (F.bindKeyword (F.bindLoc b))

def advancedSearch (t : RadioLogs) (F : Filters) : Option (List RadioLog) := do
  let b ← F.binds stod stoll
  some (select t F.cond b.binds)

/-- `existingLog` stops `chanLog` from being added. -/
def sameLog (existingLog chanLog : RadioLog) : Bool :=
  existingLog.time = chanLog.time ∧ existingLog.freq = chanLog.freq

def mergeLog (logs : List RadioLog) (chanLog : RadioLog) : List RadioLog :=
  if logs.any fun existingLog => sameLog existingLog chanLog then logs else logs ++ [chanLog]

/-- `/api/search` -/
def search (t : RadioLogs) (q : Text) : List RadioLog :=
  if q.isEmpty then getAllLogs t
  else
    match stod q with
    | some freq => filterByFrequency t freq
    | none => (filterByChannelName t q).foldl mergeLog (filterByLocation t q)

end Parse

end LogStore

end AetherGuard
