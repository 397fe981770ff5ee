import AetherGuard.LogsApi
import AetherGuard.Proofs.Bus
import AetherGuard.Proofs.DatabaseEffects

/-!
# What the answers say of the logs

An answer that lists logs is read back as those logs (`shownEntries_logList`), whatever the order of
the members, as far as their numbers are printed so that they are read back. So the database behind
the endpoints can be seen through the answers: what a route finds is what it answers with, and a log
that is saved is listed as it was sent, in the place of the one with its key, if the statement that
saves it went through.
-/

namespace AetherGuard

namespace LogsApi

open Crow LogStore
open Database (Db Reply Sound)

variable {c : Codec} {log : RadioLog} {e : Entry}

/-! ### One answer -/

/-- The log's numbers are read back from what is printed of them. -/
structure Prints (c : Codec) (e : Entry) : Prop where
  freq : ∃ n, floatToJson c.lexicalCast (c.fmt.general e.freq) = .number n ∧ n.d = e.freq
  time : (c.lexicalCast (Decimal.ofInt e.time).text).i = e.time

theorem busLoad_value {v : WValue ℚ} (h : v.height ≤ 5000) :
    busLoad c.lexicalCast (v.dump c.fmt) = some (v.toJson c.fmt c.lexicalCast) := by
  rw [busLoad, load_dump, if_pos h, Option.map_some, loaded_toJson]

theorem elementsToJson_eq (l : List (WValue ℚ)) : WValue.elementsToJson c.fmt c.lexicalCast l
    = l.map fun v => v.toJson c.fmt c.lexicalCast := by
  induction l with
  | nil => rfl
  | cons v l ih => rw [WValue.elementsToJson, ih, List.map_cons]

theorem heightElements_le {l : List (WValue ℚ)} {n : ℕ} (h : ∀ v ∈ l, v.height ≤ n) :
    WValue.heightElements l ≤ n := by
  induction l with
  | nil => exact Nat.zero_le n
  | cons v l ih =>
    rw [WValue.heightElements]
    exact max_le (h v List.mem_cons_self) (ih fun v hv => h v (List.mem_cons_of_mem _ hv))

theorem object_height {o : Members ℚ} (h : Flat o) : (object c o).height = 1 := by
  have hflat : Flat (c.shuffle.order o) := fun kx hkx => h kx ((c.shuffle.perm o).mem_iff.1 hkx)
  rw [object, WValue.height, heightMembers_eq_zero hflat]

/-- A member of an object is found, in whatever order they come. -/
theorem object_get {o : Members ℚ} (hnd : (o.map fun kx => latin1 kx.1).Nodup) {key : String}
    (hkey : latin1 (bytes key) = key) {v : WValue ℚ} (hv : (bytes key, v) ∈ o) :
    ((object c o).toJson c.fmt c.lexicalCast).get key = some (v.toJson c.fmt c.lexicalCast) := by
  have hperm := (c.shuffle.perm o).map fun kx => (latin1 kx.1, kx.2.toJson c.fmt c.lexicalCast)
  have hnd' : ((o.map fun kx => (latin1 kx.1, kx.2.toJson c.fmt c.lexicalCast)).map
      Prod.fst).Nodup := by rwa [List.map_map]
  rw [object, WValue.toJson, Json.get, membersToJson_eq, lookup_of_perm hperm hnd',
    lookup_eq_some_iff hnd']
  exact List.mem_map.2 ⟨_, hv, by rw [hkey]⟩

theorem members_flat (shape : Shape) (e : Entry) : Flat (shape.members e) := by
  intro kx hkx
  rcases List.mem_append.1 hkx with hkx | hkx
  · simp only [List.mem_cons, List.not_mem_nil, or_false] at hkx
    rcases hkx with rfl | rfl | rfl | rfl | rfl | rfl <;> simp only [WValue.height]
  · split_ifs at hkx
    · rw [List.mem_singleton.1 hkx, WValue.height]
    · simp at hkx

theorem members_keys (listing : Listing) (e : Entry) :
    ((listing.shape.members e).map fun kx => latin1 kx.1).Nodup := by
  have hkeys : ∀ (rawT : String) (path : Bool), latin1 (bytes rawT) = rawT →
      (((Shape.mk rawT path).members e).map fun kx => latin1 kx.1)
        = ["freq", "time", "location", "name", "summary"] ++ [rawT]
          ++ if path then ["audioFilePath"] else [] := by
    intro rawT path hraw
    cases path <;> simp only [Shape.members, List.map_append, List.map_cons, List.map_nil, hraw] <;>
      rfl
  cases listing <;> simp only [Listing.shape] <;> rw [hkeys _ _ rfl] <;> decide

theorem shownEntry_object (listing : Listing) (hp : Prints c e) :
    shownEntry listing.shape ((object c (listing.shape.members e)).toJson c.fmt c.lexicalCast)
      = some (listing.shape.shown e) := by
  obtain ⟨n, hfreq, hd⟩ := hp.freq
  have hget : ∀ (key : String) (v : WValue ℚ), latin1 (bytes key) = key →
      (bytes key, v) ∈ listing.shape.members e →
      ((object c (listing.shape.members e)).toJson c.fmt c.lexicalCast).get key
        = some (v.toJson c.fmt c.lexicalCast) :=
    fun _ _ hkey hv => object_get (members_keys listing e) hkey hv
  have h1 := hget "freq" (.double e.freq) rfl (by simp [Shape.members])
  have h2 := hget "time" (.signed e.time) rfl (by simp [Shape.members])
  have h3 := hget "location" (.string e.location) rfl (by simp [Shape.members])
  have h4 := hget "name" (.string e.channelName) rfl (by simp [Shape.members])
  have h5 := hget "summary" (.string e.summary) rfl (by simp [Shape.members])
  have hraw : latin1 (bytes listing.shape.rawT) = listing.shape.rawT := by
    cases listing <;> simp only [Listing.shape] <;> rfl
  have h6 := hget listing.shape.rawT (.string e.rawT) hraw (by simp [Shape.members])
  rw [WValue.toJson, hfreq] at h1
  simp only [WValue.toJson] at h2 h3 h4 h5 h6
  have htime := hp.time
  simp only [shownEntry, h1, h2, h3, h4, h5, h6, Option.bind_some, Json.d, Json.s, Shape.shown,
    bytes_latin1, hd, htime]
  split_ifs with hpath
  · have h7 := hget "audioFilePath" (.string e.audioFilePath) rfl (by simp [Shape.members, hpath])
    rw [WValue.toJson] at h7
    simp only [h7, Option.bind_some, Json.s, Option.map_some, bytes_latin1]
  · rfl

theorem mapM_map_eq_some {α β γ : Type*} {l : List α} {f : α → β} {g : β → Option γ} {k : α → γ}
    (h : ∀ a ∈ l, g (f a) = some (k a)) : (l.map f).mapM g = some (l.map k) := by
  induction l with
  | nil => rfl
  | cons a l ih =>
    rw [List.map_cons, List.mapM_cons, h a List.mem_cons_self,
      ih fun x hx => h x (List.mem_cons_of_mem _ hx)]
    rfl

/-- A list of logs is read back from the answer. -/
theorem shownEntries_logList (listing : Listing) {logs : List RadioLog}
    (hp : ∀ log ∈ logs, Prints c (.ofLog c log)) :
    shownEntries c listing.shape (logList c listing.shape logs)
      = some (logs.map fun log => listing.shape.shown (.ofLog c log)) := by
  have hheight : (WValue.list (logs.map fun log =>
      object c (listing.shape.members (.ofLog c log)))).height ≤ 5000 := by
    have hle : WValue.heightElements (logs.map fun log =>
        object c (listing.shape.members (.ofLog c log))) ≤ 1 := by
      refine heightElements_le fun v hv => ?_
      obtain ⟨log, -, rfl⟩ := List.mem_map.1 hv
      exact (object_height (members_flat listing.shape _)).le
    rw [WValue.height]
    omega
  rw [shownEntries, logList, makeCorsResponse, busLoad_value hheight, Option.bind_some,
    WValue.toJson, elementsToJson_eq, List.map_map]
  exact mapM_map_eq_some fun log hlog => shownEntry_object listing (hp log hlog)

/-! ### A log that is saved -/

/-- The log that `/api/logs/save` stores. -/
def Entry.toLog (c : Codec) (e : Entry) : RadioLog :=
  ⟨e.freq, e.time, c.decode e.location, c.decode e.rawT, c.decode e.summary,
    c.decode e.channelName, "/api/audio/audio.wav".toList⟩

/-- The bytes are those of characters, none of them NUL. -/
def Readable (c : Codec) (b : Bytes) : Prop := nul ∉ c.decode b ∧ c.encode (c.decode b) = b

/-- The texts of the request are those of characters. -/
structure Entry.Readable (c : Codec) (e : Entry) : Prop where
  location : LogsApi.Readable c e.location
  rawT : LogsApi.Readable c e.rawT
  summary : LogsApi.Readable c e.summary
  channelName : LogsApi.Readable c e.channelName

theorem Entry.Readable.nulFree (h : e.Readable c) : (e.toLog c).NulFree :=
  ⟨h.location.1, h.rawT.1, h.summary.1, h.channelName.1,
    (by decide : nul ∉ "/api/audio/audio.wav".toList)⟩

theorem ofLog_toLog (h : e.Readable c) (hpath : e.audioFilePath = bytes "/api/audio/audio.wav") :
    Entry.ofLog c (e.toLog c) = e := by
  have hall : "/api/audio/audio.wav".toList.all (·.toNat < 128) = true := by decide
  have hascii : c.encode "/api/audio/audio.wav".toList = bytes "/api/audio/audio.wav" :=
    c.encode_ascii _ fun a ha => of_decide_eq_true (List.all_eq_true.1 hall a ha)
  obtain ⟨freq, time, location, rawT, summary, channelName, path⟩ := e
  obtain rfl : path = bytes "/api/audio/audio.wav" := hpath
  simp only [Entry.ofLog, Entry.toLog, h.location.2, h.rawT.2, h.summary.2, h.channelName.2, hascii]

theorem savedEntry_path {body : RValue} (h : savedEntry c body = some e) :
    e.audioFilePath = bytes "/api/audio/audio.wav" := by
  simp only [savedEntry, Option.bind_eq_some_iff, Option.map_eq_some_iff] at h
  obtain ⟨-, -, -, -, -, -, -, -, -, -, -, -, rfl⟩ := h
  rfl

theorem mem_insertLog {t : RadioLogs} {x : RadioLog} (h : log.NulFree) :
    x ∈ getAllLogs (insertLog t log) ↔ x = log ∨ (x ∈ getAllLogs t ∧ x.key ≠ log.key) := by
  have hrows : x ∈ getAllLogs (insertLog t log) ↔ x = populateLogFromStmt (toRow log)
      ∨ (x ∈ getAllLogs t ∧ (toRow x).key ≠ (toRow log).key) := by
    simp only [mem_getAllLogs, insertLog, Table.mem_insertOrReplace]
    constructor
    · rintro ⟨r, rfl | ⟨hr, hkey⟩, rfl⟩
      · exact .inl rfl
      · exact .inr ⟨⟨r, hr, rfl⟩, by simpa using hkey⟩
    · rintro (rfl | ⟨⟨r, hr, rfl⟩, hkey⟩)
      · exact ⟨_, .inl rfl, rfl⟩
      · exact ⟨r, .inr ⟨hr, by simpa using hkey⟩, rfl⟩
  rw [hrows, populateLogFromStmt_toRow h]
  refine or_congr Iff.rfl (and_congr_right fun hx => not_congr ?_)
  obtain ⟨row, -, rfl⟩ := mem_getAllLogs.1 hx
  exact key_toRow_eq_iff (nulFree_populateLogFromStmt row) h

variable {inRange : ℚ → Bool} {stod : Text → Option ℚ} {stoll : Text → Option ℤ}
  {replies : ℕ → Reply} {db : Db}

theorem respond_save {body : Bytes} {doc : RValue} (hload : load body = some doc)
    (he : savedEntry c doc = some e) :
    respond c inRange stod stoll replies db (.save body)
      = (status c "success", Database.insertLog replies (e.toLog c) db) := by
  simp only [respond, save, hload, he]
  rfl

theorem respond_logs (hs : Sound replies) {t : RadioLogs} (ht : db.radioLogs = some t) :
    (respond c inRange stod stoll replies db (.list .logs)).1
      = logList c Listing.logs.shape (getAllLogs t) := by
  rw [respond, list, Listing.find, ← (hs.getAllLogs ht).1]
  rfl

end LogsApi

open LogsApi LogStore
open Database (Db Reply Sound lastOfInsert)

/-- A request to save a log whose texts are those of characters other than NUL is answered with
success whatever SQLite's calls return. If its statement went through on a table, `/api/logs` then
lists the log with every text byte for byte as it was sent, in the place of the log with its key,
and every other log of that table as before; if not, it lists what the last call found. This
supposes that the calls of the listing succeed and that the numbers are printed so that they are
read back. -/
theorem saved_log_listed (c : Codec) (inRange : ℚ → Bool) (stod : Text → Option ℚ)
    (stoll : Text → Option ℤ) (replies replies' : ℕ → Reply) (db : Db) (body : Bytes)
    (doc : Crow.RValue) (e : Entry) (hload : Crow.load body = some doc)
    (he : savedEntry c doc = some e) (hread : e.Readable c) :
    let saved := respond c inRange stod stoll replies db (.save body)
    let last := lastOfInsert replies db.calls db.radioLogs
    saved.1 = status c "success"
      ∧ ∀ t, last.found = some t → Sound replies' → Prints c e →
        (∀ x ∈ getAllLogs t, Prints c (.ofLog c x)) →
        ∃ entries, shownEntries c Listing.logs.shape
            (respond c inRange stod stoll replies' saved.2 (.list .logs)).1 = some entries
          ∧ ∀ x, x ∈ entries ↔ (last.done = true ∧ x = e)
            ∨ ∃ log ∈ getAllLogs t, x = .ofLog c log
              ∧ (last.done = true → log.key ≠ (e.toLog c).key) := by
  intro saved last
  have hsaved : saved = (status c "success", Database.insertLog replies (e.toLog c) db) :=
    respond_save hload he
  have hself := ofLog_toLog hread (savedEntry_path he)
  refine ⟨by rw [hsaved], fun t hfound hs hp hps => ?_⟩
  -- the logs that the table holds once the handler is done
  have htable : ∃ t', saved.2.radioLogs = some t' ∧ ∀ x, x ∈ getAllLogs t' ↔
      (last.done = true ∧ x = e.toLog c)
        ∨ (x ∈ getAllLogs t ∧ (last.done = true → x.key ≠ (e.toLog c).key)) := by
    rw [hsaved, Database.insertLog_radioLogs, Database.Last.left, hfound]
    by_cases hdone : last.done = true
    · refine ⟨insertLog t (e.toLog c), by rw [if_pos hdone]; rfl, fun x => ?_⟩
      simpa [hdone] using mem_insertLog hread.nulFree
    · exact ⟨t, by rw [if_neg hdone], by simp [hdone]⟩
  obtain ⟨t', ht', hmem⟩ := htable
  rw [respond_logs hs ht']
  refine ⟨_, shownEntries_logList .logs fun x hx => ?_, fun x => ?_⟩
  · rcases (hmem x).1 hx with ⟨-, rfl⟩ | ⟨hx, -⟩
    · rwa [hself]
    · exact hps x hx
  · simp only [List.mem_map, hmem]
    constructor
    · rintro ⟨log, ⟨hdone, rfl⟩ | ⟨hlog, hkey⟩, rfl⟩
      · exact .inl ⟨hdone, hself⟩
      · exact .inr ⟨log, hlog, rfl, hkey⟩
    · rintro (⟨hdone, rfl⟩ | ⟨log, hlog, rfl, hkey⟩)
      · exact ⟨_, .inl ⟨hdone, rfl⟩, hself⟩
      · exact ⟨log, .inr ⟨hlog, hkey⟩, rfl⟩

/-- Whole numbers, and characters of one byte. -/
def wholeNumbers : Codec where
  shuffle := ⟨id, fun _ => .refl _⟩
  fmt := ⟨fun x => some (Crow.Decimal.ofInt x.num), fun _ => none⟩
  lexicalCast b := ⟨b.foldl (fun n a => 10 * n + (a.toNat - 48)) 0,
    b.foldl (fun n a => 10 * n + (a.toNat - 48)) 0⟩
  decode b := b.map fun a => Char.ofNat a.toNat
  encode x := x.map Crow.ch
  encode_ascii _ _ := rfl

/-- The body of a request to save a log. -/
def ferryBody : Bytes :=
  Crow.bytes "\x7b\"freq\": 97, \"time\": 5, \"location\": \"Pier \\\"2\\\"\", "
    ++ Crow.bytes "\"rawT\": \"a\\\\b\", \"summary\": \"\", \"channelName\": \"Ferry\"\x7d"

def ferry : Entry :=
  ⟨97, 5, Crow.bytes "Pier \"2\"", Crow.bytes "a\\b", [], Crow.bytes "Ferry",
    Crow.bytes "/api/audio/audio.wav"⟩

theorem ferryBody_saved : (Crow.load ferryBody).bind (savedEntry wholeNumbers) = some ferry := by
  decide +kernel

/-- A table that has a log with the key of the ferry's, and one of the police. -/
def twoLogs : RadioLogs :=
  insertLog (insertLog Table.empty ⟨97, 5, "Pier \"2\"".toList, [], [], "Old".toList, []⟩)
    ⟨154, 4, "North".toList, [], [], "Police".toList, []⟩

def police : Entry := ⟨154, 4, Crow.bytes "North", [], [], Crow.bytes "Police", []⟩

theorem getAllLogs_twoLogs : (getAllLogs twoLogs).map (Entry.ofLog wholeNumbers)
    = [{ ferry with rawT := [], channelName := Crow.bytes "Old", audioFilePath := [] },
      police] := by
  decide +kernel
theorem prints_whole {e : Entry} (hfreq : e.freq = 97 ∨ e.freq = 154)
    (htime : e.time = 5 ∨ e.time = 4) : Prints wholeNumbers e := by
  have hread : ∀ n : ℕ, n ∈ [97, 154, 5, 4] →
      wholeNumbers.lexicalCast (Crow.Decimal.ofInt n).text = ⟨n, n⟩ ∧
        wholeNumbers.lexicalCast (Crow.trim (Crow.Decimal.ofInt n).text) = ⟨n, n⟩ := by
    intro n hn
    simp only [List.mem_cons, List.not_mem_nil, or_false] at hn
    rcases hn with rfl | rfl | rfl | rfl <;>
      simp [Crow.Decimal.text, Crow.Decimal.ofInt, Crow.Decimal.natDigits, Crow.Decimal.fracText,
        Crow.Decimal.expText] <;> decide +kernel
  constructor
  · rcases hfreq with h | h <;> rw [h]
    · exact ⟨_, rfl, congrArg Num.d (hread 97 (by simp)).2⟩
    · exact ⟨_, rfl, congrArg Num.d (hread 154 (by simp)).2⟩
  · rcases htime with h | h <;> rw [h]
    · exact congrArg Num.i (hread 5 (by simp)).1
    · exact congrArg Num.i (hread 4 (by simp)).1

/-- A log with quotes and a backslash, saved in the place of one with its key. -/
theorem saved_log_listed_ferry :
    let sound : ℕ → Reply := fun _ => ⟨true, id⟩
    let saved := respond wholeNumbers (fun _ => true) (fun _ => none) (fun _ => none) sound
      ⟨some twoLogs, 0, []⟩ (.save ferryBody)
    ∃ entries, shownEntries wholeNumbers Listing.logs.shape
        (respond wholeNumbers (fun _ => true) (fun _ => none) (fun _ => none) sound saved.2
          (.list .logs)).1 = some entries
      ∧ ∀ x, x ∈ entries ↔ x = ferry ∨ x = police := by
  intro sound saved
  obtain ⟨doc, hload, he⟩ := Option.bind_eq_some_iff.1 ferryBody_saved
  have hread : ferry.Readable wholeNumbers := by
    constructor <;> constructor <;> decide +kernel
  have hprints : ∀ x ∈ getAllLogs twoLogs, Prints wholeNumbers (.ofLog wholeNumbers x) := by
    intro x hx
    have hmem := List.mem_map_of_mem (f := Entry.ofLog wholeNumbers) hx
    rw [getAllLogs_twoLogs, List.mem_pair] at hmem
    rcases hmem with h | h <;> rw [h]
    · exact prints_whole (.inl rfl) (.inl rfl)
    · exact prints_whole (.inr rfl) (.inr rfl)
  obtain ⟨entries, hshown, hmem⟩ := (saved_log_listed wholeNumbers (fun _ => true) (fun _ => none)
    (fun _ => none) sound sound ⟨some twoLogs, 0, []⟩ ferryBody doc ferry hload he hread).2
      twoLogs rfl (fun _ => rfl) (prints_whole (.inl rfl) (.inl rfl)) hprints
  have hothers : ((getAllLogs twoLogs).filter fun log =>
      log.key ≠ (ferry.toLog wholeNumbers).key).map (Entry.ofLog wholeNumbers) = [police] := by
    decide +kernel
  refine ⟨entries, hshown, fun x => (hmem x).trans ⟨?_, ?_⟩⟩
  · rintro (⟨-, rfl⟩ | ⟨log, hlog, rfl, hkey⟩)
    · exact .inl rfl
    · have hkept : log ∈ (getAllLogs twoLogs).filter fun log =>
          log.key ≠ (ferry.toLog wholeNumbers).key :=
        List.mem_filter.2 ⟨hlog, decide_eq_true (hkey rfl)⟩
      exact .inr (List.mem_singleton.1 (hothers ▸ List.mem_map_of_mem hkept))
  · rintro (rfl | rfl)
    · exact .inl ⟨rfl, rfl⟩
    · obtain ⟨log, hlog, hpolice⟩ := List.mem_map.1 (hothers ▸ List.mem_singleton_self police)
      obtain ⟨hlog, hkey⟩ := List.mem_filter.1 hlog
      exact .inr ⟨log, hlog, hpolice.symm, fun _ => of_decide_eq_true hkey⟩

end AetherGuard
