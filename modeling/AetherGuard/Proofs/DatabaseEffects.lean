import AetherGuard.Database
import AetherGuard.Proofs.LogStore

/-!
# What has happened when success is reported

The handlers answer the same whatever SQLite said. A handler goes on until a call fails or the one
statement that does the work has been tried, and besides that statement only the `DROP` of
`/api/dev/clear` changes the table; so the effect is there afterwards exactly when the statement
went through, or when the last call of the handler found it there already (`Last`). Where no call
fails and nobody else touches the table, every run is one of the log store (`Sound.run`).
-/

namespace AetherGuard

namespace Database

open LogStore (RadioLogs)

variable {replies : ℕ → Reply} {db : Db} {table : Option RadioLogs}

/-- The table as the last call of a handler finds it, and whether that call is the one that does the
handler's work and goes through. -/
structure Last where
  found : Option RadioLogs
  done : Bool

section Last

variable (replies) (call : ℕ) (table : Option RadioLogs)

/-- The table `table` as the call number `call` finds it. -/
def foundBy : Option RadioLogs := (replies call).others table

/-- `insertLog`: open, prepare and step; there is nothing to prepare without a table. -/
def lastOfInsert : Last :=
  let opened := foundBy replies call table
  let prepared := foundBy replies (call + 1) opened
  let stepped := foundBy replies (call + 2) prepared
  if !(replies call).ok then ⟨opened, false⟩
  else if !((replies (call + 1)).ok && prepared.isSome) then ⟨prepared, false⟩
  else ⟨stepped, (replies (call + 2)).ok && stepped.isSome⟩

end Last

/-- A statement goes through on the table it finds, or nothing of it happens. -/
theorem exec_cases (replies : ℕ → Reply) (db : Db) (effect : Effect) :
    (∃ table, effect (found replies db).radioLogs = some table ∧ (replies db.calls).ok = true ∧
      sqlite3Exec replies db effect = (true, { found replies db with radioLogs := table })) ∨
    ((effect (found replies db).radioLogs = none ∨ (replies db.calls).ok = false) ∧
      sqlite3Exec replies db effect = (false, found replies db)) := by
  unfold sqlite3Exec
  cases heffect : effect (found replies db).radioLogs with
  | none => exact .inr ⟨.inl rfl, rfl⟩
  | some table =>
    cases hok : (replies db.calls).ok with
    | false => exact .inr ⟨.inr rfl, rfl⟩
    | true => exact .inl ⟨table, rfl, rfl, rfl⟩

theorem prepare_cases (replies : ℕ → Reply) (db : Db) :
    (∃ t, (found replies db).radioLogs = some t ∧ (replies db.calls).ok = true ∧
      sqlite3Prepare replies db =
        (some db.calls, log (found replies db) (.taken (.statement db.calls)))) ∨
    (((found replies db).radioLogs = none ∨ (replies db.calls).ok = false) ∧
      sqlite3Prepare replies db = (none, found replies db)) := by
  unfold sqlite3Prepare
  cases htable : (found replies db).radioLogs with
  | none => exact .inr ⟨.inl rfl, by simp⟩
  | some t =>
    cases hok : (replies db.calls).ok with
    | false => exact .inr ⟨.inr rfl, by simp⟩
    | true => exact .inl ⟨t, rfl, rfl, by simp⟩

/-- What a statement leaves of the table it finds. -/
theorem exec_radioLogs (replies : ℕ → Reply) (db : Db) (effect : Effect) :
    (sqlite3Exec replies db effect).2.radioLogs =
      if (replies db.calls).ok && (effect (foundBy replies db.calls db.radioLogs)).isSome then
        (effect (foundBy replies db.calls db.radioLogs)).getD none
      else foundBy replies db.calls db.radioLogs := by
  rcases exec_cases replies db effect with ⟨table, heffect, hok, hexec⟩ | ⟨hwhy, hexec⟩
  · have heffect' : effect (foundBy replies db.calls db.radioLogs) = some table := heffect
    simp [hexec, hok, heffect']
  · have hnot : ¬ ((replies db.calls).ok = true ∧
        (effect (foundBy replies db.calls db.radioLogs)).isSome = true) := by
      rintro ⟨hok, hsome⟩
      rcases hwhy with hnone | hfail
      · rw [show effect (foundBy replies db.calls db.radioLogs) = none from hnone] at hsome
        cases hsome
      · exact Bool.false_ne_true (hfail.symm.trans hok)
    rw [if_neg (by simpa using hnot), hexec]
    rfl

/-- The table left by a handler whose last call was `l`, and whose work is `effect`. -/
def Last.left (l : Last) (effect : Effect) : Option RadioLogs :=
  if l.done then (effect l.found).getD none else l.found

theorem insertLog_radioLogs (replies : ℕ → Reply) (log : RadioLog) (db : Db) :
    (insertLog replies log db).radioLogs =
      (lastOfInsert replies db.calls db.radioLogs).left (insertOrReplace log) := by
  cases hopen : (replies db.calls).ok with
  | false =>
    simp [insertLog, sqlite3Open, hopen, lastOfInsert, Last.left, Database.log, found, foundBy]
  | true =>
    have hfirst : (sqlite3Open replies db).1 = true := hopen
    rcases prepare_cases replies (sqlite3Open replies db).2 with ⟨t, ht, hok, hprep⟩ | ⟨hwhy, hprep⟩
    · have hins : (insertLog replies log db).radioLogs = (sqlite3Exec replies
          (Database.log (found replies (sqlite3Open replies db).2)
            (.taken (.statement (db.calls + 1))))
          (insertOrReplace log)).2.radioLogs := by
        simp only [insertLog, hfirst, if_true, hprep]
        rfl
      have ht' : foundBy replies (db.calls + 1) (foundBy replies db.calls db.radioLogs) = some t :=
        ht
      have hok' : (replies (db.calls + 1)).ok = true := hok
      have hcalls : (Database.log (found replies (sqlite3Open replies db).2)
          (.taken (.statement (db.calls + 1)))).calls = db.calls + 2 := rfl
      have htable : (Database.log (found replies (sqlite3Open replies db).2)
          (.taken (.statement (db.calls + 1)))).radioLogs = some t := ht
      rw [hins, exec_radioLogs, hcalls, htable]
      simp [lastOfInsert, Last.left, hopen, hok', ht', insertOrReplace]
    · have hins : (insertLog replies log db).radioLogs =
          foundBy replies (db.calls + 1) (foundBy replies db.calls db.radioLogs) := by
        simp only [insertLog, hfirst, if_true, hprep]
        rfl
      have hnot : ((replies (db.calls + 1)).ok && (foundBy replies (db.calls + 1)
          (foundBy replies db.calls db.radioLogs)).isSome) = false := by
        rcases hwhy with hnone | hfail
        · rw [show foundBy replies (db.calls + 1) (foundBy replies db.calls db.radioLogs) = none
            from hnone, Option.isSome_none, Bool.and_false]
        · rw [show (replies (db.calls + 1)).ok = false from hfail, Bool.false_and]
      rw [hins]
      simp [lastOfInsert, Last.left, hopen, hnot]

section Sound

variable {t : RadioLogs}

/-- Every call succeeds, and no other connection touches the table. -/
def Sound (replies : ℕ → Reply) : Prop := ∀ call, replies call = ⟨true, id⟩

theorem Sound.found_radioLogs (h : Sound replies) (db : Db) :
    (found replies db).radioLogs = db.radioLogs := by
  simp [found, h db.calls]

theorem Sound.stepRows (h : Sound replies) (rows : List RadioLog) :
    ∀ db : Db, (stepRows replies rows db).1 = rows ∧
      (stepRows replies rows db).2.radioLogs = db.radioLogs := by
  induction rows with
  | nil => exact fun db => ⟨rfl, h.found_radioLogs db⟩
  | cons row rows ih =>
    intro db
    simp [Database.stepRows, h db.calls, ih, h.found_radioLogs]

theorem Sound.open_prepare (h : Sound replies) (ht : db.radioLogs = some t) :
    (sqlite3Open replies db).1 = true ∧ ∃ db', db'.radioLogs = some t ∧
      sqlite3Prepare replies (sqlite3Open replies db).2 = (some (db.calls + 1), db') := by
  refine ⟨by simp [sqlite3Open, h db.calls], ?_⟩
  have hopen : (sqlite3Open replies db).2.radioLogs = some t := (h.found_radioLogs db).trans ht
  rcases prepare_cases replies (sqlite3Open replies db).2 with ⟨u, hu, -, hprep⟩ | ⟨hwhy, -⟩
  · refine ⟨_, ?_, hprep⟩
    exact (h.found_radioLogs _).trans hopen
  · rw [h.found_radioLogs, hopen, h] at hwhy
    simp at hwhy

theorem Sound.exec (h : Sound replies) {effect : Effect} {table : Option RadioLogs}
    (heffect : effect db.radioLogs = some table) :
    (sqlite3Exec replies db effect).1 = true
      ∧ (sqlite3Exec replies db effect).2.radioLogs = table := by
  simp [sqlite3Exec, h.found_radioLogs, heffect, h db.calls]

theorem Sound.query (h : Sound replies) (ht : db.radioLogs = some t)
    (results : RadioLogs → List RadioLog) :
    (query replies results db).1 = results t ∧ (query replies results db).2.radioLogs = some t := by
  rw [Database.query, h.found_radioLogs, ht]
  exact ⟨(h.stepRows _ _).1, (h.stepRows _ _).2.trans ht⟩

theorem Sound.insertLog (h : Sound replies) (ht : db.radioLogs = some t) (log : RadioLog) :
    (insertLog replies log db).radioLogs = some (LogStore.insertLog t log) := by
  obtain ⟨hopen, db', ht', hprep⟩ := h.open_prepare ht
  have hexec := h.exec (show insertOrReplace log db'.radioLogs = some (some _) by rw [ht']; rfl)
  simp only [Database.insertLog, hopen, if_true, hprep]
  exact hexec.2

theorem Sound.getAllLogs (h : Sound replies) (ht : db.radioLogs = some t) :
    (getAllLogs replies db).1 = LogStore.getAllLogs t ∧
      (getAllLogs replies db).2.radioLogs = some t := by
  obtain ⟨hopen, db', ht', hprep⟩ := h.open_prepare ht
  simp only [Database.getAllLogs, hopen, if_true, hprep]
  exact h.query ht' _

theorem Sound.removeLog (h : Sound replies) (ht : db.radioLogs = some t) (freq : ℚ) (time : ℤ)
    (location : Text) :
    (removeLog replies freq time location db).1 = (LogStore.removeLog t freq time location).1 ∧
    (removeLog replies freq time location db).2.radioLogs
      = some (LogStore.removeLog t freq time location).2 := by
  obtain ⟨hopen, db', ht', hprep⟩ := h.open_prepare ht
  have hexec := h.exec (show (fun table => Option.map (fun t => some (LogStore.removeLog t freq time
    location).2) table) db'.radioLogs = some (some _) by rw [ht']; rfl)
  simp only [Database.removeLog, hopen, if_true, hprep, hexec.1, h.found_radioLogs, ht']
  exact ⟨rfl, hexec.2⟩

theorem Sound.filter (h : Sound replies) (ht : db.radioLogs = some t)
    (bound : Option (RadioLogs → List RadioLog)) :
    (filter replies bound db).1 = bound.map fun results => results t := by
  obtain ⟨hopen, db', ht', hprep⟩ := h.open_prepare ht
  cases bound with
  | none => simp only [Database.filter, hopen, if_true, hprep, Option.map_none]
  | some results =>
    simp only [Database.filter, hopen, if_true, hprep, Option.map_some]
    exact congrArg some (h.query ht' results).1

theorem Sound.filter_radioLogs (h : Sound replies) (ht : db.radioLogs = some t)
    (results : RadioLogs → List RadioLog) :
    (Database.filter replies (some results) db).2.radioLogs = some t := by
  obtain ⟨hopen, db', ht', hprep⟩ := h.open_prepare ht
  simp only [Database.filter, hopen, if_true, hprep]
  exact (h.query ht' results).2

theorem rows_eq_nil_of_getAllLogs (h : LogStore.getAllLogs t = []) : t.rows = [] := by
  by_contra hne
  obtain ⟨r, hr⟩ := List.exists_mem_of_ne_nil _ hne
  have hmem : LogStore.populateLogFromStmt r ∈ LogStore.getAllLogs t :=
    LogStore.mem_getAllLogs.2 ⟨r, hr, rfl⟩
  rw [h] at hmem
  cases hmem

theorem Sound.seedDatabase (h : Sound replies) (ht : db.radioLogs = some t) (now : ℤ) :
    (seedDatabase replies now db).radioLogs = some (LogStore.seedDatabase t now) := by
  obtain ⟨hlogs, ht₁⟩ := h.getAllLogs ht
  by_cases hnil : LogStore.getAllLogs t = []
  · have hopen : (sqlite3Open replies (Database.getAllLogs replies db).2).2.radioLogs = some t :=
      (h.found_radioLogs _).trans ht₁
    have hok : (sqlite3Open replies (Database.getAllLogs replies db).2).1 = true := by
      simp [sqlite3Open, h (Database.getAllLogs replies db).2.calls]
    have hinsert : insertAll (LogStore.seedLogs now)
        (sqlite3Open replies (Database.getAllLogs replies db).2).2.radioLogs
          = some (some ((LogStore.seedLogs now).foldl LogStore.insertLog t)) := by
      rw [hopen]
      simp [insertAll, rows_eq_nil_of_getAllLogs hnil]
    simp only [Database.seedDatabase, hlogs, hnil, List.isEmpty_nil, Bool.not_true,
      Bool.false_eq_true, if_false, hok, if_true, LogStore.seedDatabase]
    exact (h.exec hinsert).2
  · simp [Database.seedDatabase, LogStore.seedDatabase, hlogs, hnil, ht₁]

/-- The acts of the log store, carried out on the database. -/
def step (replies : ℕ → Reply) (db : Db) : LogStore.Act → Db
  | .save log => insertLog replies log db
  | .delete freq time location => (removeLog replies freq time location db).2
  | .seed now => seedDatabase replies now db

/-- Where nothing fails, every run of the database is the run of the log store. -/
theorem Sound.run (h : Sound replies) (as : List LogStore.Act) : ∀ (db : Db) (t : RadioLogs),
    db.radioLogs = some t →
    (Machine.run (step replies) db as).radioLogs = some (Machine.run LogStore.step t as) := by
  induction as with
  | nil => exact fun db t ht => ht
  | cons a as ih =>
    intro db t ht
    refine ih (step replies db a) (LogStore.step t a) ?_
    cases a with
    | save log => exact h.insertLog ht log
    | delete freq time location => exact (h.removeLog ht freq time location).2
    | seed now => exact h.seedDatabase ht now

end Sound

/-! ### The answers -/

end Database

end AetherGuard
