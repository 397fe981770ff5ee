import AetherGuard.Lib.Merge
import AetherGuard.Lib.Strtod
import AetherGuard.LogSearch
import AetherGuard.Proofs.LogStore

/-!
# What the searches find

`advancedSearch` binds each clause's placeholders to that clause's values, so it finds the logs that
meet every given filter. A text filter puts the user's text between two wildcards: it looks for that
text exactly when the text has no wildcard of its own and no NUL. The merge of `/api/search` takes
two logs of one time and frequency for the same log, whatever their locations.
-/

namespace AetherGuard

namespace LogStore

open Statement (Binder)

variable {stod : Text → Option ℚ} {stoll : Text → Option ℤ} {t : RadioLogs} {F F' : Filters}
  {r : Row} {log : RadioLog} {q : Text} {pat : Text → Text}

/-! ### The statement of `advancedSearch` -/

/-- Every numeric filter that is given parses. -/
structure Filters.Parses (stod : Text → Option ℚ) (stoll : Text → Option ℤ) (F : Filters) :
    Prop where
  freqStr : F.freqStr ≠ [] → (stod F.freqStr).isSome
  startStr : F.startStr ≠ [] → (stoll F.startStr).isSome
  endStr : F.endStr ≠ [] → (stoll F.endStr).isSome

def Filters.NulFree (F : Filters) : Prop := nul ∉ F.loc ∧ nul ∉ F.keyword
  deriving Decidable

/-- The clause of a filter with its values, if the filter is given. -/
def clauseIf (given : Bool) (clause : List Cond) (values : List Value) :
    List (List Cond × List Value) :=
  if given then [(clause, values)] else []

section Patterns

variable (stod : Text → Option ℚ) (stoll : Text → Option ℤ) (pat : Text → Text)

/-- The clauses of the given filters, each with its values, where `pat` is the pattern of a text. -/
def Filters.clauses (F : Filters) : List (List Cond × List Value) :=
  clauseIf (!F.freqStr.isEmpty) [.freqNear] [.real ((stod F.freqStr).getD 0)] ++
  clauseIf (!F.loc.isEmpty) [.like .location] [.text (pat F.loc)] ++
  clauseIf (!F.keyword.isEmpty) [.like .summary, .like .rawT, .like .channelName]
    [.text (pat F.keyword), .text (pat F.keyword), .text (pat F.keyword)] ++
  clauseIf (!F.startStr.isEmpty && !F.endStr.isEmpty) [.timeBetween]
    [.int ((stoll F.startStr).getD 0), .int ((stoll F.endStr).getD 0)]

/-- The log meets every filter that is given, where `pat` is the pattern of a text. -/
def Filters.Matched (F : Filters) (log : RadioLog) : Prop :=
  (F.freqStr ≠ [] → |log.freq - (stod F.freqStr).getD 0| < 5 / 1000) ∧
  (F.loc ≠ [] → like (pat F.loc) log.location = true) ∧
  (F.keyword ≠ [] → like (pat F.keyword) log.summary = true ∨
    like (pat F.keyword) log.rawT = true ∨ like (pat F.keyword) log.channelName = true) ∧
  (F.startStr ≠ [] ∧ F.endStr ≠ [] → (stoll F.startStr).getD 0 ≤ log.time ∧
    log.time ≤ (stoll F.endStr).getD 0)
  deriving Decidable

/-- The clauses of the given filters, each with the values meant for it. -/
def Filters.supplied (F : Filters) : List (List Cond × List Value) := F.clauses stod stoll pattern

/-- The log meets every filter that is given. -/
def Filters.Satisfied (F : Filters) (log : RadioLog) : Prop := F.Matched stod stoll pattern log
  deriving Decidable

end Patterns

/-- The pattern of a text as SQLite gets it. -/
def boundPattern (q : Text) : Text := (bindText (pattern q)).1

/-- `F'` has the filters of `F`, and perhaps more. -/
structure Filters.Extends (F F' : Filters) : Prop where
  freqStr : F.freqStr = [] ∨ F'.freqStr = F.freqStr
  loc : F.loc = [] ∨ F'.loc = F.loc
  keyword : F.keyword = [] ∨ F'.keyword = F.keyword
  startStr : F.startStr = [] ∨ F'.startStr = F.startStr
  endStr : F.endStr = [] ∨ F'.endStr = F.endStr

/-- The text of a clause. -/
def clauseSql : List Cond → String
  | [c] => c.sql
  | cs => "(" ++ String.intercalate " OR " (cs.map Cond.sql) ++ ")"

/-- The text of a statement that asks for every clause. -/
def statementSql (cond : List (List Cond)) : String :=
  "SELECT freq, time, location, rawT, summary, channelName, audioFilePath " ++
    "FROM RadioLogs WHERE 1=1" ++ String.join (cond.map fun c => " AND " ++ clauseSql c) ++
    " ORDER BY time DESC;"

theorem Filters.map_fst_clauses (F : Filters) (stod : Text → Option ℚ) (stoll : Text → Option ℤ)
    (pat : Text → Text) : (F.clauses stod stoll pat).map Prod.fst = F.cond := by
  simp only [clauses, cond, clauseIf, List.map_append, apply_ite (List.map Prod.fst), List.map_cons,
    List.map_nil]

theorem Filters.sql_eq (F : Filters) : F.sql = statementSql F.cond := by
  unfold Filters.sql Filters.cond
  cases F.freqStr.isEmpty <;> cases F.loc.isEmpty <;> cases F.keyword.isEmpty <;>
    cases (!F.startStr.isEmpty && !F.endStr.isEmpty) <;> rfl

theorem Filters.count_placeholders (F : Filters) :
    F.sql.toList.count '?' = (F.cond.map (Statement.holes Cond.arity)).sum := by
  have hselect :
      "SELECT freq, time, location, rawT, summary, channelName, audioFilePath ".toList.count '?'
        = 0 := by
    decide
  have hwhere : "FROM RadioLogs WHERE 1=1".toList.count '?' = 0 := by decide
  have hfreq : " AND ABS(freq - ?) < 0.005".toList.count '?' = 1 := by decide
  have hloc : " AND location LIKE ?".toList.count '?' = 1 := by decide
  have hkey :
      " AND (summary LIKE ? OR rawT LIKE ? OR channelName LIKE ?)".toList.count '?' = 3 := by
    decide
  have htime : " AND time BETWEEN ? AND ?".toList.count '?' = 2 := by decide
  have horder : " ORDER BY time DESC;".toList.count '?' = 0 := by decide
  unfold Filters.sql Filters.cond
  cases F.freqStr.isEmpty <;> cases F.loc.isEmpty <;> cases F.keyword.isEmpty <;>
    cases (!F.startStr.isEmpty && !F.endStr.isEmpty) <;>
    simp only [Bool.not_true, Bool.not_false, Bool.false_eq_true, if_true, if_false,
      String.toList_append, List.count_append, hselect, hwhere, hfreq, hloc, hkey, htime,
      horder] <;>
    rfl

theorem Filters.holes_clauses (F : Filters) :
    ∀ p ∈ F.clauses stod stoll pat, p.2.length = Statement.holes Cond.arity p.1 := by
  intro p hp
  simp only [clauses, clauseIf, List.mem_append, List.mem_ite_nil_right, List.mem_singleton] at hp
  rcases hp with ((⟨-, rfl⟩ | ⟨-, rfl⟩) | ⟨-, rfl⟩) | ⟨-, rfl⟩ <;> rfl

theorem flatMap_clauseIf (given : Bool) (c : List Cond) (vs : List Value) :
    (clauseIf given c vs).flatMap Prod.snd = if given then vs else [] := by
  cases given <;> simp [clauseIf]

theorem nul_mem_pattern : nul ∈ pattern q ↔ nul ∈ q := by
  have hmeta : nul ≠ '%' := by decide
  simp [pattern, hmeta]

theorem boundPattern_eq (h : nul ∉ q) : boundPattern q = pattern q :=
  cStr_eq_self (mt nul_mem_pattern.1 h)

theorem Filters.bindFreq_eq (hF : F.Parses stod stoll) (b : Binder Value) :
    F.bindFreq stod b = some (if !F.freqStr.isEmpty then
      [Value.real ((stod F.freqStr).getD 0)].foldl Binder.bind b else b) := by
  unfold Filters.bindFreq
  split_ifs with h
  · obtain ⟨f, hf⟩ := Option.isSome_iff_exists.1 (hF.freqStr (by simpa using h))
    simp [hf]
  · rfl

theorem Filters.bindTimes_eq (hF : F.Parses stod stoll) (b : Binder Value) :
    F.bindTimes stoll b = some (if !F.startStr.isEmpty && !F.endStr.isEmpty then
      [Value.int ((stoll F.startStr).getD 0), .int ((stoll F.endStr).getD 0)].foldl Binder.bind b
        else b) := by
  unfold Filters.bindTimes
  split_ifs with h
  · simp only [Bool.and_eq_true, Bool.not_eq_true', List.isEmpty_eq_false_iff] at h
    obtain ⟨n, hn⟩ := Option.isSome_iff_exists.1 (hF.startStr h.1)
    obtain ⟨m, hm⟩ := Option.isSome_iff_exists.1 (hF.endStr h.2)
    simp [hn, hm]
  · rfl

/-- The two passes keep step: the placeholders are bound in order to the values of each clause. -/
theorem Filters.exists_binds (hF : F.Parses stod stoll) :
    ∃ b, F.binds stod stoll = some b ∧
      b.Bound ((F.clauses stod stoll boundPattern).flatMap Prod.snd) := by
  have hfreq := Binder.Bound.start.bindIf (!F.freqStr.isEmpty)
    [Value.real ((stod F.freqStr).getD 0)]
  have hloc := hfreq.bindIf (!F.loc.isEmpty) [.text (boundPattern F.loc)]
  have hkeyword := hloc.bindIf (!F.keyword.isEmpty)
    [.text (boundPattern F.keyword), .text (boundPattern F.keyword), .text (boundPattern F.keyword)]
  have htimes := hkeyword.bindIf (!F.startStr.isEmpty && !F.endStr.isEmpty)
    [.int ((stoll F.startStr).getD 0), .int ((stoll F.endStr).getD 0)]
  simp only [clauses, List.flatMap_append, flatMap_clauseIf]
  refine ⟨_, ?_, htimes⟩
  simp only [binds, bindFreq_eq hF, Option.bind_eq_bind, Option.bind_some, bindTimes_eq hF, bindLoc,
    bindKeyword, boundPattern, List.foldl_cons, List.foldl_nil]

/-- Without NUL the values that are bound are the ones meant. -/
theorem Filters.NulFree.clauses_eq (h : F.NulFree) :
    F.clauses stod stoll boundPattern = F.supplied stod stoll := by
  simp only [Filters.supplied, Filters.clauses, boundPattern_eq h.1, boundPattern_eq h.2]

theorem Filters.mem_clauses_text {q : Text} (hq : q ≠ []) (h : q = F.loc ∨ q = F.keyword) :
    .text (pat q) ∈ (F.clauses stod stoll pat).flatMap Prod.snd := by
  simp only [clauses, List.flatMap_append, flatMap_clauseIf, List.mem_append]
  rcases h with rfl | rfl
  · exact .inl (.inl (.inr (by simp [hq])))
  · exact .inl (.inr (by simp [hq]))

theorem Filters.nul_notMem_bound {q : Text}
    (h : .text q ∈ (F.clauses stod stoll boundPattern).flatMap Prod.snd) : nul ∉ q := by
  simp only [clauses, List.flatMap_append, flatMap_clauseIf, List.mem_append,
    List.mem_ite_nil_right, List.mem_cons, List.not_mem_nil, Value.text.injEq, reduceCtorEq,
    or_false, or_self, and_false, false_or] at h
  rcases h with ⟨-, rfl⟩ | ⟨-, rfl⟩
  · exact (bindText (pattern F.loc)).2
  · exact (bindText (pattern F.keyword)).2

/-- If the values bound are the ones meant, there was no NUL to cut a pattern short. -/
theorem Filters.nulFree_of_bound_eq (h : (F.clauses stod stoll boundPattern).flatMap Prod.snd =
    (F.supplied stod stoll).flatMap Prod.snd) : F.NulFree := by
  have hfree : ∀ q, q = F.loc ∨ q = F.keyword → nul ∉ q := by
    intro q hq hnul
    have hmem : .text (pattern q) ∈ (F.supplied stod stoll).flatMap Prod.snd :=
      mem_clauses_text (List.ne_nil_of_mem hnul) hq
    exact nul_notMem_bound (h ▸ hmem) (nul_mem_pattern.2 hnul)
  exact ⟨hfree _ (.inl rfl), hfree _ (.inr rfl)⟩

theorem all_clauseIf (given : Bool) (c : List Cond) (vs : List Value)
    (p : List Cond × List Value → Bool) :
    (clauseIf given c vs).all p = true ↔ (given = true → p (c, vs) = true) := by
  cases given <;> simp [clauseIf]

theorem Filters.selects_iff {b : Binder Value}
    (hb : b.Bound ((F.clauses stod stoll pat).flatMap Prod.snd)) :
    selects F.cond b.binds r = true ↔ F.Matched stod stoll pat (populateLogFromStmt r) := by
  rw [selects, hb.param, ← F.map_fst_clauses stod stoll pat,
    Statement.holds_supplied r F.holes_clauses]
  simp only [clauses, List.all_append, Bool.and_eq_true, all_clauseIf]
  simp [Statement.clauseHolds, Cond.arity, Cond.meets, List.range_succ, Matched,
    populateLogFromStmt, Row.text, and_assoc]

theorem Filters.Matched.mono (h : F.Extends F') (hlog : F'.Matched stod stoll pat log) :
    F.Matched stod stoll pat log := by
  obtain ⟨hfreq, hloc, hkeyword, htimes⟩ := hlog
  refine ⟨fun hne => ?_, fun hne => ?_, fun hne => ?_, fun ⟨hne, hne'⟩ => ?_⟩
  · rw [h.freqStr.resolve_left hne] at hfreq
    exact hfreq hne
  · rw [h.loc.resolve_left hne] at hloc
    exact hloc hne
  · rw [h.keyword.resolve_left hne] at hkeyword
    exact hkeyword hne
  · rw [h.startStr.resolve_left hne, h.endStr.resolve_left hne'] at htimes
    exact htimes ⟨hne, hne'⟩

theorem advancedSearch_eq {b : Binder Value} (hb : F.binds stod stoll = some b) :
    advancedSearch stod stoll t F = some (select t F.cond b.binds) := by
  simp [advancedSearch, hb]

/-- What `advancedSearch` finds, NUL or not. -/
theorem mem_advancedSearch (hF : F.Parses stod stoll) {logs : List RadioLog}
    (h : advancedSearch stod stoll t F = some logs) :
    log ∈ logs ↔ log ∈ getAllLogs t ∧ F.Matched stod stoll boundPattern log := by
  obtain ⟨b, hb, hbound⟩ := F.exists_binds hF
  obtain rfl : select t F.cond b.binds = logs :=
    Option.some.inj ((advancedSearch_eq hb).symm.trans h)
  exact mem_select_iff fun r => F.selects_iff hbound

theorem Filters.NulFree.matched_iff (h : F.NulFree) :
    F.Matched stod stoll boundPattern log ↔ F.Satisfied stod stoll log := by
  simp only [Filters.Satisfied, Filters.Matched, boundPattern_eq h.1, boundPattern_eq h.2]

theorem advancedSearch_mono (hext : F.Extends F') (hF : F.Parses stod stoll)
    (hF' : F'.Parses stod stoll) {logs logs' : List RadioLog}
    (h : advancedSearch stod stoll t F = some logs)
    (h' : advancedSearch stod stoll t F' = some logs') : logs' ⊆ logs := by
  intro log hlog
  obtain ⟨hall, hmatch⟩ := (mem_advancedSearch hF' h').1 hlog
  exact (mem_advancedSearch hF h).2 ⟨hall, hmatch.mono hext⟩

theorem Filters.length_clauses (F : Filters) :
    ((F.clauses stod stoll pat).flatMap Prod.snd).length = F.sql.toList.count '?' := by
  rw [count_placeholders, ← F.map_fst_clauses stod stoll pat,
    List.map_map, List.length_flatMap]
  exact congrArg List.sum (List.map_congr_left fun p hp => F.holes_clauses p hp)

/-- Each placeholder of the statement is bound once, to the value meant for it, the result is the
logs that meet the given filters, each once and the newest first, and a further filter adds none:
exactly when no text filter has a NUL. -/
theorem advancedSearch_exact_iff (stod : Text → Option ℚ) (stoll : Text → Option ℤ) (t : RadioLogs)
    (F : Filters) (hF : F.Parses stod stoll) :
    (F.sql = statementSql ((F.supplied stod stoll).map Prod.fst) ∧
      (∃ b, F.binds stod stoll = some b ∧ b.binds = (List.range' 1 (F.sql.toList.count '?')).zip
        ((F.supplied stod stoll).flatMap Prod.snd) ∧
        ((F.supplied stod stoll).flatMap Prod.snd).length = F.sql.toList.count '?') ∧
      ∃ logs, advancedSearch stod stoll t F = some logs ∧
        (∀ log, log ∈ logs ↔ log ∈ getAllLogs t ∧ F.Satisfied stod stoll log) ∧
        logs.Nodup ∧ logs.Pairwise (fun a b => b.time ≤ a.time) ∧
        ∀ F' : Filters, F.Extends F' → F'.Parses stod stoll →
          ∀ logs', advancedSearch stod stoll t F' = some logs' → logs' ⊆ logs) ↔
    F.NulFree := by
  obtain ⟨b, hb, hbound⟩ := F.exists_binds hF
  have hbinds := hbound.binds_eq
  rw [F.length_clauses] at hbinds
  constructor
  · rintro ⟨-, ⟨b', hb', hzip, -⟩, -⟩
    obtain rfl : b = b' := Option.some.inj (hb.symm.trans hb')
    have hvalues := congrArg (List.map Prod.snd) (hbinds.symm.trans hzip)
    rw [List.map_snd_zip (by simp [F.length_clauses]),
      List.map_snd_zip (by simp [Filters.supplied, F.length_clauses])] at hvalues
    exact Filters.nulFree_of_bound_eq hvalues
  · intro hnul
    have hres := advancedSearch_eq (t := t) hb
    refine ⟨by rw [Filters.supplied, F.map_fst_clauses, F.sql_eq],
      ⟨b, hb, by rw [hbinds, hnul.clauses_eq], F.length_clauses⟩, _, hres, fun log => ?_,
      nodup_select, pairwise_select, fun F' hext hF' logs' hres' => ?_⟩
    · rw [mem_advancedSearch hF hres, hnul.matched_iff]
    · exact advancedSearch_mono hext hF hF' hres hres'

/-- A NUL in the keyword cuts the pattern that is bound, and with it the filter. -/
theorem advancedSearch_cut_by_nul :
    let F : Filters := ⟨[], [], [nul, 'x'], [], []⟩
    (F.supplied (fun _ => none) fun _ => none) =
      [([.like .summary, .like .rawT, .like .channelName],
        List.replicate 3 (.text (pattern [nul, 'x'])))] ∧
    ((F.binds (fun _ => none) fun _ => none).map (·.binds)) =
      some [(1, .text ['%']), (2, .text ['%']), (3, .text ['%'])] ∧
    advancedSearch (fun _ => none) (fun _ => none) (saved [sampleLog 100 7 ['a']]) F =
      some [sampleLog 100 7 ['a']] ∧
    ¬ F.Satisfied (fun _ => none) (fun _ => none) (sampleLog 100 7 ['a']) := by
  decide +kernel

/-- A decimal frequency and a place, of three logs the one that has both. -/
theorem advancedSearch_exact_iff_two_filters :
    let stod := Strtod.decimal.scan
    let F : Filters := ⟨"100.0".toList, "A".toList, [], [], []⟩
    let t := saved [sampleLog 100 7 ['a'], sampleLog 100 8 ['b'], sampleLog 99 7 ['a']]
    F.Parses stod (fun _ => none) ∧ F.NulFree ∧
    (F.supplied stod fun _ => none) =
      [([.freqNear], [.real 100]), ([.like .location], [.text "%A%".toList])] ∧
    advancedSearch stod (fun _ => none) t F = some [sampleLog 100 7 ['a']] ∧
    (∀ log, log ∈ [sampleLog 100 7 ['a']] ↔
      log ∈ getAllLogs t ∧ F.Satisfied stod (fun _ => none) log) := by
  intro stod F t
  have hF : F.Parses stod (fun _ => none) :=
    ⟨fun _ => by decide +kernel, fun h => absurd rfl h, fun h => absurd rfl h⟩
  have hlogs : advancedSearch stod (fun _ => none) t F = some [sampleLog 100 7 ['a']] := by
    decide +kernel
  obtain ⟨-, -, logs, hres, hmem, -⟩ :=
    (advancedSearch_exact_iff stod (fun _ => none) t F hF).2 (by decide)
  obtain rfl := Option.some.inj (hlogs.symm.trans hres)
  exact ⟨hF, by decide, by decide +kernel, hlogs, hmem⟩

/-! ### Text filters -/

/-- `s` contains `q`, up to the case of ASCII letters. -/
def Contains (q s : Text) : Prop := q.map Char.toLower <:+: s.map Char.toLower

/-- The characters that a pattern does not take as themselves. -/
def Special (c : Char) : Prop := c = '%' ∨ c = '_' ∨ c = nul

instance : DecidablePred Special :=
  fun c => inferInstanceAs (Decidable (c = '%' ∨ c = '_' ∨ c = nul))

def Plain (q : Text) : Prop := ∀ c ∈ q, ¬ Special c

def textOf (log : RadioLog) : Column → Text
  | .location => log.location
  | .rawT => log.rawT
  | .summary => log.summary
  | .channelName => log.channelName

/-- No letter becomes a special character when it is put in lower case. -/
theorem eq_of_toLower_special {c d : Char} (hc : Special c) (h : d.toLower = c) : d = c := by
  unfold Char.toLower at h
  split_ifs at h with hupper
  · exfalso
    have hval : d.val + ('a'.val - 'A'.val) = c.val := congrArg Char.val h
    obtain ⟨hlo, hhi⟩ := hupper
    rw [ge_iff_le, UInt32.le_iff_toNat_le] at hlo
    rw [UInt32.le_iff_toNat_le] at hhi
    have hsum := congrArg UInt32.toNat hval
    rw [UInt32.toNat_add] at hsum
    have hlt : c.val.toNat < 97 := by rcases hc with rfl | rfl | rfl <;> decide
    have hA : 'A'.val.toNat = 65 := by decide
    have hZ : 'Z'.val.toNat = 90 := by decide
    have hcase : ('a'.val - 'A'.val).toNat = 32 := by decide
    omega
  · exact h

theorem not_contains_of_special {c : Char} (hc : Special c) (hq : c ∈ q) {s : Text} (hs : c ∉ s) :
    ¬ Contains q s := by
  intro h
  obtain ⟨d, hd, hdc⟩ := List.mem_map.1 (h.subset (List.mem_map_of_mem hq))
  have hlower : c.toLower = c := by rcases hc with rfl | rfl | rfl <;> decide
  exact hs (eq_of_toLower_special hc (hdc.trans hlower) ▸ hd)

theorem Plain.nul_notMem (h : Plain q) : nul ∉ q := fun hq => h nul hq (.inr (.inr rfl))

theorem like_pattern_iff (h : Plain q) (s : Text) : like (pattern q) s = true ↔ Contains q s :=
  Like.like_infix (fun c hc => ⟨fun he => h c hc (.inl he), fun he => h c hc (.inr (.inl he))⟩) s

theorem mem_select_like {c : Column} {p : Text} :
    log ∈ select t [[.like c]] [(1, .text p)] ↔
      log ∈ getAllLogs t ∧ like p (textOf log c) = true := by
  refine mem_select_iff (P := fun log => like p (textOf log c) = true) fun r => ?_
  cases c <;> simp [selects, Statement.holds, Statement.clauseHolds, Statement.param, Cond.arity,
    Cond.meets, textOf, populateLogFromStmt, Row.text]

theorem mem_searchDatabaseKeywords {limit : ℤ} (hlimit : t.rows.length ≤ limit) :
    log ∈ searchDatabaseKeywords t q limit ↔ log ∈ getAllLogs t ∧
      (like (bindText (pattern q)).1 log.summary = true ∨
        like (bindText (pattern q)).1 log.rawT = true) := by
  have hlen : (select t [[.like .summary, .like .rawT]] [(1, .text (bindText (pattern q)).1),
      (2, .text (bindText (pattern q)).1)]).length ≤ t.rows.length :=
    (List.length_map _).trans_le (Table.length_selectDesc_le _ _)
  rw [searchDatabaseKeywords, if_neg (by omega), List.take_of_length_le (by omega)]
  refine mem_select_iff (P := fun log => like (bindText (pattern q)).1 log.summary = true ∨
    like (bindText (pattern q)).1 log.rawT = true) fun r => ?_
  simp [selects, Statement.holds, Statement.clauseHolds, Statement.param, Cond.arity, Cond.meets,
    List.lookup_cons, populateLogFromStmt, Row.text]

/-- On the table `t`, every text filter with the text `q` finds the logs that contain it. -/
structure FindsSubstring (stod : Text → Option ℚ) (stoll : Text → Option ℤ) (q : Text)
    (t : RadioLogs) (limit : ℤ) : Prop where
  location : ∀ log, log ∈ filterByLocation t q ↔ log ∈ getAllLogs t ∧ Contains q log.location
  channelName : ∀ log, log ∈ filterByChannelName t q ↔
    log ∈ getAllLogs t ∧ Contains q log.channelName
  keywords : ∀ log, log ∈ searchDatabaseKeywords t q limit ↔
    log ∈ getAllLogs t ∧ (Contains q log.summary ∨ Contains q log.rawT)
  loc : ∃ logs, advancedSearch stod stoll t ⟨[], q, [], [], []⟩ = some logs ∧
    ∀ log, log ∈ logs ↔ log ∈ getAllLogs t ∧ Contains q log.location
  keyword : ∃ logs, advancedSearch stod stoll t ⟨[], [], q, [], []⟩ = some logs ∧
    ∀ log, log ∈ logs ↔ log ∈ getAllLogs t ∧
      (Contains q log.summary ∨ Contains q log.rawT ∨ Contains q log.channelName)

theorem exists_advancedSearch (hF : F.Parses stod stoll) (hnul : F.NulFree) :
    ∃ logs, advancedSearch stod stoll t F = some logs ∧
      ∀ log, log ∈ logs ↔ log ∈ getAllLogs t ∧ F.Satisfied stod stoll log := by
  obtain ⟨b, hb, -⟩ := F.exists_binds hF
  have hres := advancedSearch_eq (t := t) hb
  exact ⟨_, hres, fun _ => (mem_advancedSearch hF hres).trans (and_congr_right' hnul.matched_iff)⟩

theorem Plain.findsSubstring (h : Plain q) (hq : q ≠ []) {limit : ℤ}
    (hlimit : t.rows.length ≤ limit) : FindsSubstring stod stoll q t limit := by
  have hbound : (bindText (pattern q)).1 = pattern q := boundPattern_eq h.nul_notMem
  have hparses : ∀ loc keyword, Filters.Parses stod stoll ⟨[], loc, keyword, [], []⟩ :=
    fun _ _ => ⟨absurd rfl, absurd rfl, absurd rfl⟩
  refine ⟨fun log => ?_, fun log => ?_, fun log => ?_, ?_, ?_⟩
  · rw [filterByLocation, hbound, mem_select_like, like_pattern_iff h]
    rfl
  · rw [filterByChannelName, hbound, mem_select_like, like_pattern_iff h]
    rfl
  · rw [mem_searchDatabaseKeywords hlimit, hbound, like_pattern_iff h, like_pattern_iff h]
  · obtain ⟨logs, hlogs, hmem⟩ := exists_advancedSearch (t := t) (hparses q [])
      ⟨h.nul_notMem, List.not_mem_nil⟩
    refine ⟨logs, hlogs, fun log => ?_⟩
    simp [hmem, Filters.Satisfied, Filters.Matched, like_pattern_iff h, hq]
  · obtain ⟨logs, hlogs, hmem⟩ := exists_advancedSearch (t := t) (hparses [] q)
      ⟨List.not_mem_nil, h.nul_notMem⟩
    refine ⟨logs, hlogs, fun log => ?_⟩
    simp [hmem, Filters.Satisfied, Filters.Matched, like_pattern_iff h, hq]

/-- A text that the pattern of `q` matches and that has no special character. -/
theorem exists_plain_like (q : Text) :
    ∃ s, Plain s ∧ like (bindText (pattern q)).1 s = true := by
  refine ⟨Like.sample '%' '_' 'a' (bindText (pattern q)).1, fun c hc hspecial => ?_,
    Like.like_sample 'a' _⟩
  have hlit : Like.Literal '%' '_' c :=
    Like.literal_of_mem_sample (by unfold Like.Literal; decide) hc
  rcases hspecial with rfl | rfl | rfl
  · exact hlit.1 rfl
  · exact hlit.2 rfl
  · obtain ⟨d, hd, hdc⟩ := List.mem_map.1 hc
    split_ifs at hdc
    · exact absurd hdc (by decide)
    · exact (bindText (pattern q)).2 (hdc ▸ (List.mem_filter.1 hd).1)

/-- A text filter finds the logs that contain its text, whatever the table, exactly when the text
has neither a wildcard nor a NUL. -/
theorem text_filters_substring_iff (stod : Text → Option ℚ) (stoll : Text → Option ℤ) (q : Text)
    (hq : q ≠ []) :
    (∀ (t : RadioLogs) (limit : ℤ), t.rows.length ≤ limit → FindsSubstring stod stoll q t limit) ↔
      Plain q := by
  constructor
  · intro hfinds c hc hspecial
    obtain ⟨s, hs, hlike⟩ := exists_plain_like q
    have hmem : sampleLog 100 7 s ∈ getAllLogs (saved [sampleLog 100 7 s]) := by
      rw [(getAllLogs_saved_singleton _).2 (sampleLog_nulFree 100 7 hs.nul_notMem)]
      exact List.mem_singleton_self _
    have hfound : sampleLog 100 7 s ∈ filterByLocation (saved [sampleLog 100 7 s]) q :=
      mem_select_like.2 ⟨hmem, hlike⟩
    have hcontains := (((hfinds _ _ le_rfl).location _).1 hfound).2
    exact not_contains_of_special hspecial hc (fun h => hs c h hspecial) hcontains
  · exact fun h t limit hlimit => h.findsSubstring hq hlimit

/-- The text `_` finds a log without it, and so does a wildcard between two letters. -/
theorem text_filters_match_wildcards :
    filterByLocation (saved [sampleLog 100 7 ['a']]) ['_'] = [sampleLog 100 7 ['a']] ∧
    ¬ Contains ['_'] ['a'] ∧
    filterByLocation (saved [sampleLog 100 7 ['a', 'x', 'b']]) ['a', '%', 'b'] =
      [sampleLog 100 7 ['a', 'x', 'b']] ∧
    ¬ Contains ['a', '%', 'b'] ['a', 'x', 'b'] :=
  ⟨by decide +kernel, not_contains_of_special (.inr (.inl rfl)) (by decide) (by decide),
    by decide +kernel, not_contains_of_special (.inl rfl) (by decide) (by decide)⟩

theorem text_filters_substring_iff_fm :
    Plain ['F', 'M'] ∧
    ∀ (t : RadioLogs) (limit : ℤ), t.rows.length ≤ limit →
      FindsSubstring (fun _ => none) (fun _ => none) ['F', 'M'] t limit := by
  have h : Plain ['F', 'M'] := by simp [Plain, Special, nul]
  exact ⟨h, (text_filters_substring_iff _ _ _ (by decide)).2 h⟩

/-! ### The merge of `/api/search` -/

theorem sameLog_iff {a b : RadioLog} : sameLog a b = true ↔ a.time = b.time ∧ a.freq = b.freq := by
  simp [sameLog]

theorem sameLog_self (a : RadioLog) : sameLog a a = true := sameLog_iff.2 ⟨rfl, rfl⟩

theorem sameLog_comm (a b : RadioLog) : sameLog a b = sameLog b a := by
  rw [Bool.eq_iff_iff, sameLog_iff, sameLog_iff, eq_comm, eq_comm (a := a.freq)]

theorem mergeLog_eq_addNew : mergeLog = Merge.addNew sameLog := rfl

theorem search_eq (hq : q ≠ []) (htext : stod q = none) : search stod t q =
    (filterByChannelName t q).foldl (Merge.addNew sameLog) (filterByLocation t q) := by
  rw [← mergeLog_eq_addNew]
  simp [search, hq, htext]

/-- The merge has the logs of both filters, each once, and no others, except that a channel log is
lost when another log of the two has its time and frequency. -/
theorem search_union_iff (stod : Text → Option ℚ) (t : RadioLogs) (q : Text) (hq : q ≠ [])
    (htext : stod q = none) :
    (∀ log ∈ search stod t q, log ∈ filterByLocation t q ∨ log ∈ filterByChannelName t q) ∧
    (search stod t q).Nodup ∧
    filterByLocation t q ⊆ search stod t q ∧
    (filterByChannelName t q ⊆ search stod t q ↔
      ∀ c ∈ filterByChannelName t q, c ∉ filterByLocation t q →
        ∀ e ∈ filterByLocation t q ++ filterByChannelName t q, e ≠ c →
          ¬ (e.time = c.time ∧ e.freq = c.freq)) := by
  rw [search_eq hq htext]
  refine ⟨fun _ => Merge.mem_or_mem_of_mem_foldl,
    Merge.nodup_foldl_addNew sameLog_self nodup_select,
    (Merge.prefix_foldl_addNew _ _ _).subset, ?_⟩
  rw [Merge.subset_foldl_addNew_iff sameLog_self sameLog_comm]
  simp only [sameLog_iff]

/-- Two logs of one time and frequency at two places, both found, and one lost. -/
theorem search_loses_other_place :
    filterByChannelName (saved [sampleLog 100 7 ['a'], sampleLog 100 7 ['b']]) ['c'] =
      [sampleLog 100 7 ['a'], sampleLog 100 7 ['b']] ∧
    search (fun _ => none) (saved [sampleLog 100 7 ['a'], sampleLog 100 7 ['b']]) ['c'] =
      [sampleLog 100 7 ['a']] := by
  decide +kernel

theorem search_union_iff_two_times :
    filterByChannelName (saved [sampleLog 100 7 ['a'], sampleLog 100 8 ['b']]) ['c'] ⊆
      search (fun _ => none) (saved [sampleLog 100 7 ['a'], sampleLog 100 8 ['b']]) ['c'] :=
  (search_union_iff (fun _ => none) (saved [sampleLog 100 7 ['a'], sampleLog 100 8 ['b']]) ['c']
    (by decide) rfl).2.2.2.2 (by decide +kernel)

end LogStore

end AetherGuard
