import AetherGuard.Database

/-!
# The handles of each function

Every function opens one connection, and all but `createTable` prepare one statement on it. What
they log of them depends on three things only: whether the open fails, whether the statement is
prepared, and whether binding its placeholders throws. A connection that fails to open is never
closed, and an exception leaves both the statement and the connection open; on every other way out
both are given back.
-/

namespace AetherGuard

namespace Database

open Handles (Balanced)

variable {replies : ℕ → Reply} {db : Db}

/-- The functions that use the database, with their arguments. -/
inductive Call
  | createTable
  | insertLog (log : RadioLog)
  | getAllLogs
  | removeLog (freq : ℚ) (time : ℤ) (location : Text)
  | filterByFrequency (freq : ℚ)
  | filterByLocation (loc : Text)
  | filterByTime (unixTime : ℤ)
  | filterByChannelName (channel : Text)
  | filterByTimeRange (startTimestamp endTimestamp : ℤ)
  | searchDatabaseKeywords (keyword : Text) (limit : ℤ)
  | advancedSearch (F : LogStore.Filters)

section Parse

variable (stod : Text → Option ℚ) (stoll : Text → Option ℤ)

/-- The database when the call has finished, by return or by exception. -/
def Call.run (replies : ℕ → Reply) (db : Db) : Call → Db
  | .createTable => (Database.createTable replies db).2
  | .insertLog log => Database.insertLog replies log db
  | .getAllLogs => (Database.getAllLogs replies db).2
  | .removeLog freq time location => (Database.removeLog replies freq time location db).2
  | .filterByFrequency freq => (Database.filterByFrequency replies freq db).2
  | .filterByLocation loc => (Database.filterByLocation replies loc db).2
  | .filterByTime unixTime => (Database.filterByTime replies unixTime db).2
  | .filterByChannelName channel => (Database.filterByChannelName replies channel db).2
  | .filterByTimeRange startTimestamp endTimestamp =>
    (Database.filterByTimeRange replies startTimestamp endTimestamp db).2
  | .searchDatabaseKeywords keyword limit =>
    (Database.searchDatabaseKeywords replies keyword limit db).2
  | .advancedSearch F => (Database.advancedSearch replies stod stoll F db).2

/-- A filter that is given is rejected by `std::stod` or `std::stoll`. -/
def Unparsed (F : LogStore.Filters) : Prop :=
  F.freqStr ≠ [] ∧ stod F.freqStr = none ∨
    F.startStr ≠ [] ∧ F.endStr ≠ [] ∧ (stoll F.startStr = none ∨ stoll F.endStr = none)

/-- Binding the call's placeholders throws. -/
def Call.Throws : Call → Prop
  | .advancedSearch F => Unparsed stod stoll F
  | _ => False

theorem bindFreq_eq_none_iff (F : LogStore.Filters) (b : Statement.Binder LogStore.Value) :
    F.bindFreq stod b = none ↔ F.freqStr ≠ [] ∧ stod F.freqStr = none := by
  unfold LogStore.Filters.bindFreq
  cases F.freqStr <;> simp

theorem bindTimes_eq_none_iff (F : LogStore.Filters) (b : Statement.Binder LogStore.Value) :
    F.bindTimes stoll b = none ↔
      F.startStr ≠ [] ∧ F.endStr ≠ [] ∧ (stoll F.startStr = none ∨ stoll F.endStr = none) := by
  unfold LogStore.Filters.bindTimes
  cases hs : F.startStr with
  | nil => simp
  | cons c cs =>
    cases he : F.endStr with
    | nil => simp
    | cons d ds => cases stoll (c :: cs) <;> cases stoll (d :: ds) <;> simp

theorem binds_eq_none_iff (F : LogStore.Filters) :
    F.binds stod stoll = none ↔ Unparsed stod stoll F := by
  unfold Unparsed LogStore.Filters.binds
  rw [← bindFreq_eq_none_iff stod F .start]
  cases F.bindFreq stod .start with
  | none => simp
  | some b => simp [bindTimes_eq_none_iff]

end Parse

/-! ### What is logged -/

/-- The statement is prepared. -/
def prepared (replies : ℕ → Reply) (db : Db) : Bool :=
  (sqlite3Prepare replies (sqlite3Open replies db).2).1.isSome

/-- The events of a function that opens a connection, prepares a statement, and may throw
after that. -/
def events (replies : ℕ → Reply) (db : Db) (throws : Bool) : List (Handles.Event Handle) :=
  let connection := Handle.connection db.calls
  let statement := Handle.statement (db.calls + 1)
  if (replies db.calls).ok then
    if prepared replies db then
      if throws then [.taken connection, .taken statement]
      else [.taken connection, .taken statement, .given statement, .given connection]
    else [.taken connection, .given connection]
  else [.taken connection]

@[simp] theorem exec_handles (replies : ℕ → Reply) (db : Db) (effect : Effect) :
    (sqlite3Exec replies db effect).2.handles = db.handles := by
  unfold sqlite3Exec
  split
  · split <;> rfl
  · rfl

@[simp] theorem stepRows_handles (replies : ℕ → Reply) (rows : List RadioLog) :
    ∀ db : Db, (stepRows replies rows db).2.handles = db.handles := by
  induction rows with
  | nil => exact fun db => rfl
  | cons row rows ih =>
    intro db
    unfold stepRows
    split
    · exact ih (found replies db)
    · rfl

@[simp] theorem query_handles (replies : ℕ → Reply) (results : LogStore.RadioLogs → List RadioLog)
    (db : Db) : (query replies results db).2.handles = db.handles := by
  unfold query
  split
  · rfl
  · exact stepRows_handles replies _ db

/-- Either the open fails, or the statement is not prepared, or it is, as the call after
the open. -/
theorem open_prepare_cases (replies : ℕ → Reply) (db : Db) :
    (replies db.calls).ok = false ∨
    (replies db.calls).ok = true ∧ prepared replies db = false ∧
      (∃ db', sqlite3Prepare replies (sqlite3Open replies db).2 = (none, db') ∧
        db'.handles = db.handles ++ [.taken (.connection db.calls)]) ∨
    (replies db.calls).ok = true ∧ prepared replies db = true ∧
      ∃ db', sqlite3Prepare replies (sqlite3Open replies db).2 = (some (db.calls + 1), db') ∧
        db'.handles = db.handles
          ++ [.taken (.connection db.calls), .taken (.statement (db.calls + 1))] := by
  cases hopen : (replies db.calls).ok with
  | false => exact .inl rfl
  | true =>
    right
    unfold prepared sqlite3Prepare
    split
    · refine .inr ⟨rfl, rfl, _, rfl, ?_⟩
      simp [log, found, sqlite3Open]
    · exact .inl ⟨rfl, rfl, _, rfl, rfl⟩

theorem createTable_handles (replies : ℕ → Reply) (db : Db) :
    (createTable replies db).2.handles = db.handles ++
      if (replies db.calls).ok then
        [.taken (.connection db.calls), .given (.connection db.calls)]
      else [.taken (.connection db.calls)] := by
  unfold createTable
  cases hopen : (replies db.calls).ok <;>
    simp [sqlite3Open, hopen, sqlite3Close, log, found]

theorem insertLog_handles (replies : ℕ → Reply) (log : RadioLog) (db : Db) :
    (insertLog replies log db).handles = db.handles ++ events replies db false := by
  rcases open_prepare_cases replies db with hopen | ⟨hopen, hprep, db', hstmt, hh⟩ |
    ⟨hopen, hprep, db', hstmt, hh⟩
  · simp [insertLog, events, hopen, sqlite3Open, Database.log, found]
  · have hok : (sqlite3Open replies db).1 = true := hopen
    simp [insertLog, events, hopen, hprep, hok, hstmt, hh, sqlite3Close, Database.log]
  · have hok : (sqlite3Open replies db).1 = true := hopen
    simp [insertLog, events, hopen, hprep, hok, hstmt, hh, sqlite3Close, sqlite3Finalize,
      Database.log]

theorem getAllLogs_handles (replies : ℕ → Reply) (db : Db) :
    (getAllLogs replies db).2.handles = db.handles ++ events replies db false := by
  rcases open_prepare_cases replies db with hopen | ⟨hopen, hprep, db', hstmt, hh⟩ |
    ⟨hopen, hprep, db', hstmt, hh⟩
  · simp [getAllLogs, events, hopen, sqlite3Open, log, found]
  · have hok : (sqlite3Open replies db).1 = true := hopen
    simp [getAllLogs, events, hopen, hprep, hok, hstmt, hh, sqlite3Close, log]
  · have hok : (sqlite3Open replies db).1 = true := hopen
    simp [getAllLogs, events, hopen, hprep, hok, hstmt, hh, sqlite3Close, sqlite3Finalize, log]

theorem removeLog_handles (replies : ℕ → Reply) (freq : ℚ) (time : ℤ) (location : Text) (db : Db) :
    (removeLog replies freq time location db).2.handles
    = db.handles ++ events replies db false := by
  rcases open_prepare_cases replies db with hopen | ⟨hopen, hprep, db', hstmt, hh⟩ |
    ⟨hopen, hprep, db', hstmt, hh⟩
  · simp [removeLog, events, hopen, sqlite3Open, log, found]
  · have hok : (sqlite3Open replies db).1 = true := hopen
    simp [removeLog, events, hopen, hprep, hok, hstmt, hh, sqlite3Close, log]
  · have hok : (sqlite3Open replies db).1 = true := hopen
    simp [removeLog, events, hopen, hprep, hok, hstmt, hh, sqlite3Close, sqlite3Finalize, log]

theorem filter_handles (replies : ℕ → Reply) (bound : Option (LogStore.RadioLogs → List RadioLog))
    (db : Db) :
    (filter replies bound db).2.handles = db.handles ++ events replies db bound.isNone := by
  rcases open_prepare_cases replies db with hopen | ⟨hopen, hprep, db', hstmt, hh⟩ |
    ⟨hopen, hprep, db', hstmt, hh⟩
  · simp [filter, events, hopen, sqlite3Open, log, found]
  · have hok : (sqlite3Open replies db).1 = true := hopen
    simp [filter, events, hopen, hprep, hok, hstmt, hh, sqlite3Close, sqlite3Finalize, log]
  · have hok : (sqlite3Open replies db).1 = true := hopen
    cases bound <;>
      simp [filter, events, hopen, hprep, hok, hstmt, hh, sqlite3Close, sqlite3Finalize, log]

/-! ### Balance -/

theorem not_balanced_connection (c : ℕ) : ¬ Balanced [.taken (Handle.connection c)] :=
  Handles.not_balanced_of_notMem List.mem_cons_self List.not_mem_nil

theorem balanced_connection (c : ℕ) :
    Balanced [.taken (Handle.connection c), .given (Handle.connection c)] :=
  ⟨List.nodup_singleton _, List.Perm.refl _⟩

theorem balanced_events_iff (replies : ℕ → Reply) (db : Db) (throws : Bool) :
    Balanced (events replies db throws) ↔
      (replies db.calls).ok = true ∧ (throws = true → prepared replies db = false) := by
  have hleak := not_balanced_connection db.calls
  have hclosed := balanced_connection db.calls
  have hthrown : ¬ Balanced
      [.taken (Handle.connection db.calls), .taken (Handle.statement (db.calls + 1))] :=
    Handles.not_balanced_of_notMem List.mem_cons_self List.not_mem_nil
  have hwhole : Balanced
      [.taken (Handle.connection db.calls), .taken (Handle.statement (db.calls + 1)),
        .given (Handle.statement (db.calls + 1)), .given (Handle.connection db.calls)] := by
    refine ⟨?_, List.Perm.swap _ _ _⟩
    simp [Handles.takes]
  unfold events
  split_ifs with hopen hprep hthrows <;> simp_all

variable (stod : Text → Option ℚ) (stoll : Text → Option ℤ)

/-- Every call logs one connection, and a statement if it prepares one. -/
theorem Call.exists_events (replies : ℕ → Reply) (db : Db) (call : Call) :
    ∃ new, (call.run stod stoll replies db).handles = db.handles ++ new ∧
      (Balanced new ↔ (replies db.calls).ok = true ∧
        (call.Throws stod stoll → prepared replies db = false)) := by
  have hfilter : ∀ results,
      (filter replies (some results) db).2.handles = db.handles ++ events replies db false :=
    fun results => filter_handles replies (some results) db
  have hbalanced : Balanced (events replies db false) ↔
      (replies db.calls).ok = true ∧ (False → prepared replies db = false) := by
    simp [balanced_events_iff]
  cases call with
  | createTable =>
    refine ⟨_, createTable_handles replies db, ?_⟩
    have hno : ¬ Call.createTable.Throws stod stoll := id
    split_ifs with hopen
    · simpa [hopen, hno] using balanced_connection db.calls
    · simpa [hopen] using not_balanced_connection db.calls
  | insertLog log => exact ⟨_, insertLog_handles replies log db, hbalanced⟩
  | getAllLogs => exact ⟨_, getAllLogs_handles replies db, hbalanced⟩
  | removeLog freq time location =>
    exact ⟨_, removeLog_handles replies freq time location db, hbalanced⟩
  | filterByFrequency freq => exact ⟨_, hfilter _, hbalanced⟩
  | filterByLocation loc => exact ⟨_, hfilter _, hbalanced⟩
  | filterByTime unixTime => exact ⟨_, hfilter _, hbalanced⟩
  | filterByChannelName channel => exact ⟨_, hfilter _, hbalanced⟩
  | filterByTimeRange startTimestamp endTimestamp => exact ⟨_, hfilter _, hbalanced⟩
  | searchDatabaseKeywords keyword limit => exact ⟨_, hfilter _, hbalanced⟩
  | advancedSearch F =>
    refine ⟨_, filter_handles replies _ db, ?_⟩
    rw [balanced_events_iff, Option.isNone_map, Option.isNone_iff_eq_none, binds_eq_none_iff]
    rfl

/-- When a call has finished, every handle it took has been given back once exactly when its open
did not fail and no exception left `advancedSearch` after its statement was prepared; and then as
many handles are open as before it. -/
theorem handles_balanced_iff (replies : ℕ → Reply) (db : Db) (call : Call) :
    ∃ new, (call.run stod stoll replies db).handles = db.handles ++ new ∧
      (Balanced new ↔ (replies db.calls).ok = true ∧
        (call.Throws stod stoll → prepared replies db = false)) ∧
      (Balanced new →
        Handles.opened (call.run stod stoll replies db).handles = Handles.opened db.handles) := by
  obtain ⟨new, hnew, hiff⟩ := call.exists_events stod stoll replies db
  refine ⟨new, hnew, hiff, fun hb => ?_⟩
  rw [hnew, hb.opened_append]

/-- A failed open leaves a connection, and a frequency that is no number a connection and
a statement. -/
theorem failed_open_and_bad_filter_leak :
    Handles.opened (Call.run (fun _ => none) (fun _ => none) (fun _ => ⟨false, id⟩)
      ⟨some Table.empty, 0, []⟩ .getAllLogs).handles = 1 ∧
    Handles.opened (Call.run (fun _ => none) (fun _ => none) (fun _ => ⟨true, id⟩)
      ⟨some Table.empty, 0, []⟩ (.advancedSearch ⟨['x'], [], [], [], []⟩)).handles = 2 := by
  decide

end Database

end AetherGuard
