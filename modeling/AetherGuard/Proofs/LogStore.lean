import AetherGuard.LogStore

/-!
# What saving and deleting logs does

A text without NUL is stored and read back as it is, so that a row and the log read from it
determine each other. Then the store is the map from keys to the last log saved under them. With a
NUL in a text it is not: texts are cut, and two locations that are cut to the same text are one key.
A delete takes every row of its time and location within 0.005 of its frequency, the addressed row
among them.
-/

namespace AetherGuard

theorem cStr_eq_self {s : Text} (h : nul ∉ s) : cStr s = s :=
  List.takeWhile_eq_self_iff.2 fun c hc => by
    simpa using fun he : c = nul => h (he ▸ hc)

@[simp]
theorem cStr_val (d : DbText) : cStr d.1 = d.1 := cStr_eq_self d.2

@[simp]
theorem bindText_val (d : DbText) : bindText d.1 = d := Subtype.ext (cStr_val d)

theorem bindText_inj {s s' : Text} (h : nul ∉ s) (h' : nul ∉ s') :
    bindText s = bindText s' ↔ s = s' := by
  rw [Subtype.ext_iff]
  exact iff_of_eq (congrArg₂ Eq (cStr_eq_self h) (cStr_eq_self h'))

def RadioLog.key (log : RadioLog) : ℚ × ℤ × Text := (log.freq, log.time, log.location)

def RadioLog.NulFree (log : RadioLog) : Prop :=
  nul ∉ log.location ∧ nul ∉ log.rawT ∧ nul ∉ log.summary ∧ nul ∉ log.channelName ∧
    nul ∉ log.audioFilePath
  deriving Decidable

namespace LogStore

variable {t : RadioLogs} {r r' : Row} {log : RadioLog}

@[simp]
theorem toRow_populateLogFromStmt (r : Row) : toRow (populateLogFromStmt r) = r := by
  ext1 <;> simp [toRow, populateLogFromStmt]

theorem populateLogFromStmt_injective : Function.Injective populateLogFromStmt :=
  Function.LeftInverse.injective toRow_populateLogFromStmt

theorem populateLogFromStmt_toRow (h : log.NulFree) : populateLogFromStmt (toRow log) = log := by
  obtain ⟨h₁, h₂, h₃, h₄, h₅⟩ := h
  ext1 <;> simp [toRow, populateLogFromStmt, bindText, cStr_eq_self, *]

theorem nulFree_populateLogFromStmt (r : Row) : (populateLogFromStmt r).NulFree :=
  ⟨nul_notMem_cStr _, nul_notMem_cStr _, nul_notMem_cStr _, nul_notMem_cStr _, nul_notMem_cStr _⟩

theorem key_toRow_eq_iff {log' : RadioLog} (h : log.NulFree) (h' : log'.NulFree) :
    (toRow log).key = (toRow log').key ↔ log.key = log'.key := by
  simp [Row.key, RadioLog.key, toRow, bindText_inj h.1 h'.1]

theorem key_populateLogFromStmt_eq_iff :
    (populateLogFromStmt r).key = (populateLogFromStmt r').key ↔ r.key = r'.key := by
  rw [← key_toRow_eq_iff (nulFree_populateLogFromStmt r) (nulFree_populateLogFromStmt r')]
  simp

/-! ### Queries -/

section Select

variable {cond : List (List Cond)} {binds : List (ℕ × Value)}

theorem mem_select : log ∈ select t cond binds ↔
    ∃ r ∈ t.rows, selects cond binds r = true ∧ populateLogFromStmt r = log := by
  simp only [select, List.mem_map, Table.mem_selectDesc, and_assoc]

theorem nodup_select : (select t cond binds).Nodup :=
  (Table.nodup_selectDesc _ _).map populateLogFromStmt_injective

theorem pairwise_select : (select t cond binds).Pairwise fun a b => b.time ≤ a.time :=
  List.pairwise_map.2 (Table.pairwise_selectDesc _ _)

theorem nodup_map_key_select : ((select t cond binds).map RadioLog.key).Nodup := by
  refine List.Nodup.map_on ?_ nodup_select
  intro a ha b hb hab
  obtain ⟨r, hr, -, rfl⟩ := mem_select.1 ha
  obtain ⟨r', hr', -, rfl⟩ := mem_select.1 hb
  rw [t.eq_of_key_eq hr hr' (key_populateLogFromStmt_eq_iff.1 hab)]

end Select

theorem mem_getAllLogs : log ∈ getAllLogs t ↔ ∃ r ∈ t.rows, populateLogFromStmt r = log := by
  simp [getAllLogs, mem_select, selects, Statement.holds]

/-- A query whose condition on a row is `P` of its log finds the logs with `P`. -/
theorem mem_select_iff {cond : List (List Cond)} {binds : List (ℕ × Value)} {P : RadioLog → Prop}
    (h : ∀ r, selects cond binds r = true ↔ P (populateLogFromStmt r)) :
    log ∈ select t cond binds ↔ log ∈ getAllLogs t ∧ P log := by
  rw [mem_select, mem_getAllLogs]
  constructor
  · rintro ⟨r, hr, hsel, rfl⟩
    exact ⟨⟨r, hr, rfl⟩, (h r).1 hsel⟩
  · rintro ⟨⟨r, hr, rfl⟩, hP⟩
    exact ⟨r, hr, (h r).2 hP, rfl⟩

/-! ### Saving -/

/-- The table after the logs were saved, one after the other. -/
def saved (logs : List RadioLog) : RadioLogs := logs.foldl insertLog Table.empty

/-- The last of the logs with the key of `log`. -/
def lastSaved (logs : List RadioLog) (log : RadioLog) : Option RadioLog :=
  logs.reverse.find? fun x => x.key = log.key

theorem mem_saved (logs : List RadioLog) :
    r ∈ (saved logs).rows ↔
      (logs.reverse.find? fun x => (toRow x).key = r.key).map toRow = some r := by
  have hfold : saved logs = (logs.map toRow).foldl Table.insertOrReplace Table.empty := by
    rw [saved, List.foldl_map]
    rfl
  rw [hfold, Table.mem_foldl_insertOrReplace, ← List.map_reverse, List.find?_map]
  rfl

theorem find?_toRow_eq_lastSaved {logs : List RadioLog} (hlogs : ∀ x ∈ logs, x.NulFree)
    (r : Row) : (logs.reverse.find? fun x => (toRow x).key = r.key) =
      lastSaved logs (populateLogFromStmt r) := by
  refine List.find?_congr fun x hx => ?_
  have h := key_toRow_eq_iff (hlogs x (List.mem_reverse.1 hx)) (nulFree_populateLogFromStmt r)
  rw [toRow_populateLogFromStmt] at h
  exact decide_eq_decide.2 h

theorem mem_of_lastSaved {logs : List RadioLog} {x : RadioLog} (h : lastSaved logs log = some x) :
    x ∈ logs :=
  List.mem_reverse.1 (List.mem_of_find?_eq_some h)

theorem mem_getAllLogs_saved {logs : List RadioLog} (hlogs : ∀ x ∈ logs, x.NulFree) :
    log ∈ getAllLogs (saved logs) ↔ lastSaved logs log = some log := by
  rw [mem_getAllLogs]
  constructor
  · rintro ⟨r, hr, rfl⟩
    rw [mem_saved, find?_toRow_eq_lastSaved hlogs] at hr
    obtain ⟨x, hx, rfl⟩ := Option.map_eq_some_iff.1 hr
    rwa [populateLogFromStmt_toRow (hlogs x (mem_of_lastSaved hx))] at hx ⊢
  · intro h
    have hfree := hlogs log (mem_of_lastSaved h)
    refine ⟨toRow log, ?_, populateLogFromStmt_toRow hfree⟩
    rw [mem_saved, find?_toRow_eq_lastSaved hlogs, populateLogFromStmt_toRow hfree, h]
    rfl

theorem lastSaved_concat_of_ne {logs : List RadioLog} {new : RadioLog} (h : new.key ≠ log.key) :
    lastSaved (logs ++ [new]) log = lastSaved logs log := by
  simp [lastSaved, h]

/-- With no NUL in any text, the store is a map in which the last writer wins. -/
theorem getAllLogs_last_writer (logs : List RadioLog) (hlogs : ∀ x ∈ logs, x.NulFree) :
    ((getAllLogs (saved logs)).map RadioLog.key).Nodup ∧
    (∀ log, log ∈ getAllLogs (saved logs) ↔ lastSaved logs log = some log) ∧
    (getAllLogs (saved logs)).Pairwise (fun a b => b.time ≤ a.time) ∧
    ∀ new : RadioLog, new.NulFree → (∀ x ∈ logs, x.key ≠ new.key) →
      ∀ log ∈ getAllLogs (saved logs), log ∈ getAllLogs (saved (logs ++ [new])) := by
  refine ⟨nodup_map_key_select, fun _ => mem_getAllLogs_saved hlogs, pairwise_select, ?_⟩
  intro new hnew hfresh log hlog
  have hlogs' : ∀ x ∈ logs ++ [new], x.NulFree := by
    intro x hx
    rcases List.mem_append.1 hx with hx | hx
    · exact hlogs x hx
    · rwa [List.mem_singleton.1 hx]
  rw [mem_getAllLogs_saved hlogs] at hlog
  have hne : new.key ≠ log.key := (hfresh log (mem_of_lastSaved hlog)).symm
  rw [mem_getAllLogs_saved hlogs', lastSaved_concat_of_ne hne]
  exact hlog

/-- A log's texts are kept only if they have no NUL. -/
theorem getAllLogs_saved_singleton (log : RadioLog) :
    getAllLogs (saved [log]) = [log] ↔ log.NulFree := by
  have hall : getAllLogs (saved [log]) = [populateLogFromStmt (toRow log)] := rfl
  rw [hall, List.cons.injEq, and_iff_left rfl]
  constructor
  · intro h
    rw [← h]
    exact nulFree_populateLogFromStmt _
  · exact populateLogFromStmt_toRow

/-- A log whose other texts are one character each. -/
def sampleLog (freq : ℚ) (time : ℤ) (location : Text) : RadioLog :=
  ⟨freq, time, location, ['r'], ['s'], ['c'], ['a']⟩

theorem sampleLog_nulFree (freq : ℚ) (time : ℤ) {location : Text} (h : nul ∉ location) :
    (sampleLog freq time location).NulFree :=
  ⟨h, show nul ∉ ['r'] ∧ nul ∉ ['s'] ∧ nul ∉ ['c'] ∧ nul ∉ ['a'] by decide⟩

/-- The second log is saved under a new key, and the first is gone. -/
theorem log_lost_by_nul :
    (sampleLog 100 7 ['a']).key ≠ (sampleLog 100 7 ['a', nul, 'b']).key ∧
    getAllLogs (saved [sampleLog 100 7 ['a']]) = [sampleLog 100 7 ['a']] ∧
    getAllLogs (saved [sampleLog 100 7 ['a'],
      { sampleLog 100 7 ['a', nul, 'b'] with summary := ['t'] }]) =
        [{ sampleLog 100 7 ['a'] with summary := ['t'] }] := by
  decide +kernel

theorem getAllLogs_last_writer_new_key :
    (∀ x ∈ [sampleLog 100 7 ['a'], sampleLog 99 8 ['a']], x.NulFree) ∧
    (sampleLog 100 7 ['b']).NulFree ∧
    sampleLog 100 7 ['a'] ∈ getAllLogs (saved [sampleLog 100 7 ['a'], sampleLog 99 8 ['a']]) ∧
    sampleLog 100 7 ['a'] ∈ getAllLogs (saved ([sampleLog 100 7 ['a'], sampleLog 99 8 ['a']] ++
      [sampleLog 100 7 ['b']])) := by
  have hlogs : ∀ x ∈ [sampleLog 100 7 ['a'], sampleLog 99 8 ['a']], x.NulFree := by
    decide +kernel
  obtain ⟨-, hmem, -, hkeep⟩ := getAllLogs_last_writer _ hlogs
  have hfirst := (hmem (sampleLog 100 7 ['a'])).2 (by decide +kernel)
  exact ⟨hlogs, by decide +kernel, hfirst,
    hkeep _ (by decide +kernel) (by decide +kernel) _ hfirst⟩

/-! ### Deleting -/

/-- The table without `log`. -/
def without (t : RadioLogs) (log : RadioLog) : RadioLogs :=
  t.deleteWhere fun r => populateLogFromStmt r = log

/-- `log` is one that a delete with this key would take. -/
def Addressed (freq : ℚ) (time : ℤ) (location : Text) (log : RadioLog) : Prop :=
  log.time = time ∧ log.location = location ∧ |log.freq - freq| < 5 / 1000
  deriving Decidable

theorem selects_removeLog (freq : ℚ) (time : ℤ) (location : Text) :
    selects [[.freqNear], [.timeEq], [.locationEq]]
      [(1, .real freq), (2, .int time), (3, .text (bindText location).1)] r = true ↔
        Addressed freq time (cStr location) (populateLogFromStmt r) := by
  simp [selects, Statement.holds, Statement.clauseHolds, Statement.holes, Statement.param,
    Cond.arity, Cond.meets, Addressed, populateLogFromStmt, bindText, List.range_succ,
    List.lookup_cons]
  tauto

theorem removeLog_of_addressed {freq : ℚ} {time : ℤ} {location : Text}
    (hlog : log ∈ getAllLogs t) (haddr : Addressed freq time (cStr location) log) :
    (removeLog t freq time location).1 = 1 := by
  obtain ⟨r, hr, rfl⟩ := mem_getAllLogs.1 hlog
  have hsel := (selects_removeLog freq time location).2 haddr
  refine if_pos (Nat.sub_pos_of_lt ?_)
  exact List.length_filter_lt_length_iff_exists.2 ⟨r, hr, by simp [hsel]⟩

theorem mem_removeLog {freq : ℚ} {time : ℤ} {location : Text} :
    r ∈ (removeLog t freq time location).2.rows ↔
      r ∈ t.rows ∧ ¬ Addressed freq time (cStr location) (populateLogFromStmt r) := by
  rw [← selects_removeLog freq time location, Bool.not_eq_true]
  exact Table.mem_deleteWhere

theorem addressed_self (log : RadioLog) : Addressed log.freq log.time log.location log :=
  ⟨rfl, rfl, by norm_num⟩

theorem removeLog_self_iff (hlog : log ∈ getAllLogs t) :
    removeLog t log.freq log.time log.location = (1, without t log) ↔
      ∀ log' ∈ getAllLogs t, Addressed log.freq log.time log.location log' → log' = log := by
  obtain ⟨r, hr, rfl⟩ := mem_getAllLogs.1 hlog
  have hcut : cStr (populateLogFromStmt r).location = (populateLogFromStmt r).location :=
    cStr_eq_self (nulFree_populateLogFromStmt r).1
  set log := populateLogFromStmt r
  constructor
  · intro heq log' hlog' haddr
    obtain ⟨r', hr', rfl⟩ := mem_getAllLogs.1 hlog'
    by_contra hne
    have hkept : r' ∈ (without t log).rows := Table.mem_deleteWhere.2 ⟨hr', by simpa using hne⟩
    rw [← show (removeLog t log.freq log.time log.location).2 = without t log by rw [heq],
      mem_removeLog, hcut] at hkept
    exact hkept.2 haddr
  · intro honly
    have haddr : Addressed log.freq log.time (cStr log.location) log := by
      rw [hcut]
      exact addressed_self log
    refine Prod.ext (removeLog_of_addressed hlog haddr) (Table.ext ?_)
    refine List.filter_congr fun r' hr' => congrArg (!·) ?_
    rw [Bool.eq_iff_iff, selects_removeLog, hcut, decide_eq_true_eq]
    constructor
    · exact honly _ (mem_getAllLogs.2 ⟨r', hr', rfl⟩)
    · intro he
      rw [he]
      exact addressed_self log

theorem removeLog_absent_iff (freq : ℚ) (time : ℤ) (location : Text) :
    removeLog t freq time location = (0, t) ↔
      ∀ log ∈ getAllLogs t, ¬ Addressed freq time (cStr location) log := by
  constructor
  · intro heq log hlog haddr
    exact absurd ((removeLog_of_addressed hlog haddr).symm.trans (congrArg Prod.fst heq))
      one_ne_zero
  · intro habsent
    have hkeep : (removeLog t freq time location).2 = t := by
      refine Table.deleteWhere_eq_self fun r hr => ?_
      rw [← Bool.not_eq_true, selects_removeLog]
      exact habsent _ (mem_getAllLogs.2 ⟨r, hr, rfl⟩)
    refine Prod.ext (if_neg ?_) hkeep
    rw [show t.deleteWhere _ = t from hkeep]
    simp

/-- Every table is one that saves lead to. -/
theorem exists_run (t : RadioLogs) : ∃ as, Machine.run step Table.empty as = t := by
  refine ⟨t.rows.map fun r => .save (populateLogFromStmt r), Table.ext ?_⟩
  rw [Machine.run, List.foldl_map]
  have hstep : (fun (u : RadioLogs) r => step u (.save (populateLogFromStmt r))) =
      Table.insertOrReplace := by
    funext u r
    simp [step, insertLog]
  rw [hstep, Table.foldl_insertOrReplace_rows]

/-- A delete removes the addressed log alone exactly when no other log of its time and location is
within 0.005 of its frequency; a key changes nothing exactly when no log is addressed by it with its
location cut at its first NUL. -/
theorem removeLog_exact (t : RadioLogs) :
    (∀ log ∈ getAllLogs t, removeLog t log.freq log.time log.location = (1, without t log) ↔
      ∀ log' ∈ getAllLogs t, Addressed log.freq log.time log.location log' → log' = log) ∧
    ∀ (freq : ℚ) (time : ℤ) (location : Text), removeLog t freq time location = (0, t) ↔
      ∀ log ∈ getAllLogs t, ¬ Addressed freq time (cStr location) log :=
  ⟨fun _ hlog => removeLog_self_iff hlog, removeLog_absent_iff⟩

/-- The delete of one log takes another; the delete of a key that no log has takes one. -/
theorem delete_takes_other_logs :
    let near := Machine.run step Table.empty
      [.save (sampleLog (997 / 10) 7 ['a']), .save (sampleLog (99701 / 1000) 7 ['a'])]
    (getAllLogs near).length = 2 ∧
    (removeLog near (997 / 10) 7 ['a']).1 = 1 ∧
    getAllLogs (removeLog near (997 / 10) 7 ['a']).2 = [] ∧
    let one := Machine.run step Table.empty [.save (sampleLog 100 7 ['a'])]
    getAllLogs one = [sampleLog 100 7 ['a']] ∧
    (removeLog one 100 7 ['a', nul]).1 = 1 ∧
    getAllLogs (removeLog one 100 7 ['a', nul]).2 = [] := by
  decide +kernel

theorem removeLog_exact_two_logs :
    let two := saved [sampleLog 100 7 ['a'], sampleLog 99 7 ['a']]
    removeLog two 100 7 ['a'] = (1, without two (sampleLog 100 7 ['a'])) ∧
    removeLog two 98 7 ['a'] = (0, two) ∧
    removeLog two 99 7 ['a', nul] ≠ (0, two) := by
  intro two
  obtain ⟨hself, habsent⟩ := removeLog_exact two
  refine ⟨(hself (sampleLog 100 7 ['a']) (by decide +kernel)).2 (by decide +kernel),
    (habsent 98 7 ['a']).2 (by decide +kernel), ?_⟩
  rw [Ne, habsent 99 7 ['a', nul]]
  decide +kernel

end LogStore

end AetherGuard
