import AetherGuard.Bus
import AetherGuard.Database
import AetherGuard.SearchDispatch

/-!
# The log endpoints

The API's handlers for the logs, from the bytes of a request to the bytes of the answer: a body is
loaded, its members are taken for numbers and strings, the database is asked or changed, and the
answer is the text of a `wvalue`. A member that is not there or is of another type throws, and is
answered with 500. What `lexical_cast` makes of a number's text and `snprintf` of a number, the
order of members in a text and the characters that SQLite takes bytes for are parameters (`Codec`),
and so are the results of SQLite's calls.
-/

namespace AetherGuard

namespace LogsApi

open Crow LogStore
open Database (Db Reply)

/-- What `d()` and `i()` make of a text. -/
structure Num where
  d : ℚ
  i : ℤ
  deriving DecidableEq

structure Codec where
  shuffle : Shuffle ℚ
  fmt : Format ℚ
  lexicalCast : Bytes → Num
  /-- The characters of a text that is bound. -/
  decode : Bytes → Text
  /-- The bytes of a column. -/
  encode : Text → Bytes
  encode_ascii : ∀ x : Text, (∀ a ∈ x, a.toNat < 128) → encode x = x.map ch

/-- A log as the API has it, its texts as bytes. -/
structure Entry where
  freq : ℚ
  time : ℤ
  location : Bytes
  rawT : Bytes
  summary : Bytes
  channelName : Bytes
  audioFilePath : Bytes
  deriving DecidableEq

variable (c : Codec)

/-- A log that is read from the database. -/
def Entry.ofLog (log : RadioLog) : Entry :=
  ⟨log.freq, log.time, c.encode log.location, c.encode log.rawT, c.encode log.summary,
    c.encode log.channelName, c.encode log.audioFilePath⟩

/-! ### Requests -/

/-- `body[key]` -/
def member (body : RValue) (key : String) : Option RValue :=
  match body with
  | .object l => l.lookup (bytes key)
  | _ => none

def d : RValue → Option ℚ
  | .number text => some (c.lexicalCast text).d
  | _ => none

/-- A string is taken for a number as well, as it stands in the text. -/
def i : RValue → Option ℤ
  | .number text | .string text _ => some (c.lexicalCast text).i
  | _ => none

def s : RValue → Option Bytes
  | .string t hasEscaping => some (stringValue t hasEscaping)
  | _ => none

/-- What `/api/logs/save` takes out of the body, and its path. -/
def savedEntry (body : RValue) : Option Entry :=
  (member body "freq").bind (d c) |>.bind fun freq =>
  (member body "time").bind (i c) |>.bind fun time =>
  (member body "location").bind s |>.bind fun location =>
  (member body "rawT").bind s |>.bind fun rawT =>
  (member body "summary").bind s |>.bind fun summary =>
  (member body "channelName").bind s |>.map fun channelName =>
    ⟨freq, time, location, rawT, summary, channelName, bytes "/api/audio/audio.wav"⟩

/-- The arguments of `removeLog` in `/api/logs/delete`. -/
def addressed (body : RValue) : Option (ℚ × ℤ × Bytes) :=
  (member body "freq").bind (d c) |>.bind fun freq =>
  (member body "time").bind (i c) |>.bind fun time =>
  (member body "location").bind s |>.map fun location => (freq, time, location)

/-! ### Answers -/

structure Response where
  code : ℕ
  body : Bytes
  deriving DecidableEq

def object (o : Members ℚ) : WValue ℚ := .object (c.shuffle.order o)

def makeCorsResponse (body : WValue ℚ) (code : ℕ) : Response := ⟨code, body.dump c.fmt⟩

/-- `makeCorsResponse` with a `status`. -/
def status (value : String) : Response :=
  makeCorsResponse c (object c [(bytes "status", .string (bytes value))]) 200

/-- `makeCorsResponse` with an error. -/
def failure (message : String) (code : ℕ) : Response :=
  makeCorsResponse c (object c
    [(bytes "status", .string (bytes "error")), (bytes "message", .string (bytes message))]) code

/-- What a handler that throws is answered with. -/
def thrown : Response := ⟨500, []⟩

/-- The members of a log that a route answers with: the key of its raw text, and whether the path of
its audio is one of them. -/
structure Shape where
  rawT : String
  audioFilePath : Bool

def Shape.members (shape : Shape) (e : Entry) : Members ℚ :=
  [(bytes "freq", .double e.freq), (bytes "time", .signed e.time),
    (bytes "location", .string e.location), (bytes "name", .string e.channelName),
    (bytes "summary", .string e.summary), (bytes shape.rawT, .string e.rawT)]
    ++ if shape.audioFilePath then [(bytes "audioFilePath", .string e.audioFilePath)] else []

/-- The answer that lists logs. -/
def logList (shape : Shape) (logs : List RadioLog) : Response :=
  makeCorsResponse c (.list (logs.map fun log => object c (shape.members (.ofLog c log)))) 200

/-! ### The routes that list logs -/

inductive Listing
  | logs
  | filterChannel (name : Bytes)
  | search (q : Bytes)
  | searchAdvanced (freq loc keyword start stop : Bytes)

def Listing.shape : Listing → Shape
  | .logs | .searchAdvanced .. => ⟨"rawT", true⟩
  | .filterChannel _ => ⟨"rawT", false⟩
  | .search _ => ⟨"text", false⟩

variable (inRange : ℚ → Bool) (stod : Text → Option ℚ) (stoll : Text → Option ℤ)
  (replies : ℕ → Reply)

/-- `/api/search`; no stored frequency lies between two infinities, or between values that
are none. -/
def apiSearch (q : Text) (db : Db) : Option (List RadioLog) × Db :=
  match searchBranch inRange q with
  | .all => (Database.getAllLogs replies db).map some id
  | .frequency (.finite freq) => Database.filterByFrequency replies freq db
  | .frequency (.inf _) => Database.filter replies (some fun _ => []) db
  | .frequency .nan => Database.filter replies (some fun _ => []) db
  | .text =>
    let (locLogs, db) := Database.filterByLocation replies q db
    let (chanLogs, db) := Database.filterByChannelName replies q db
    (locLogs.bind fun locLogs => chanLogs.map fun chanLogs => chanLogs.foldl mergeLog locLogs, db)

/-- The logs that a route asks for; `none` is an exception. -/
def Listing.find (db : Db) : Listing → Option (List RadioLog) × Db
  | .logs => (Database.getAllLogs replies db).map some id
  | .filterChannel name =>
    if name.isEmpty then (some [], db)
    else Database.filterByChannelName replies (c.decode name) db
  | .search q => apiSearch inRange replies (c.decode q) db
  | .searchAdvanced freq loc keyword start stop =>
    Database.advancedSearch replies stod stoll
      ⟨c.decode freq, c.decode loc, c.decode keyword, c.decode start, c.decode stop⟩ db

/-! ### All routes -/

inductive Request
  | list (listing : Listing)
  | save (body : Bytes)
  | delete (body : Bytes)
  | seed (now : ℤ)
  | clear

def list (listing : Listing) (db : Db) : Response × Db :=
  match listing.find c inRange stod stoll replies db with
  | (none, db) => (thrown, db)
  | (some logs, db) => (logList c listing.shape logs, db)

def save (body : Bytes) (db : Db) : Response × Db :=
  match load body with
  | none => (failure c "Invalid JSON" 400, db)
  | some doc =>
    match savedEntry c doc with
    | none => (thrown, db)
    | some e => (Database.apiLogsSave replies e.freq e.time (c.decode e.location) (c.decode e.rawT)
        (c.decode e.summary) (c.decode e.channelName) db).map (status c) id

def delete (body : Bytes) (db : Db) : Response × Db :=
  match load body with
  | none => (failure c "Invalid JSON" 400, db)
  | some doc =>
    match addressed c doc with
    | none => (thrown, db)
    | some (freq, time, location) =>
      match Database.removeLog replies freq time (c.decode location) db with
      | (0, db) => (failure c "Log not found" 404, db)
      | (_, db) => (status c "success", db)

/-- A request, with the answer and the database after it. -/
def respond (db : Db) : Request → Response × Db
  | .list listing => list c inRange stod stoll replies listing db
  | .save body => save c replies body db
  | .delete body => delete c replies body db
  | .seed now => (Database.apiDevSeed replies now db).map (status c) id
  | .clear => (Database.apiDevClear replies db).map (status c) id

/-! ### What is in an answer -/

/-- The log in an element of the answer. -/
def shownEntry (shape : Shape) (x : Json Num) : Option Entry :=
  (x.get "freq").bind Json.d |>.bind fun freq =>
  (x.get "time").bind Json.d |>.bind fun time =>
  (x.get "location").bind Json.s |>.bind fun location =>
  (x.get shape.rawT).bind Json.s |>.bind fun rawT =>
  (x.get "summary").bind Json.s |>.bind fun summary =>
  (x.get "name").bind Json.s |>.bind fun name =>
  (if shape.audioFilePath then (x.get "audioFilePath").bind Json.s else some "").map fun path =>
    ⟨freq.d, time.i, bytes location, bytes rawT, bytes summary, bytes name, bytes path⟩

/-- The logs in an answer, read with `crow::json::load`. -/
def shownEntries (shape : Shape) (r : Response) : Option (List Entry) :=
  (busLoad c.lexicalCast r.body).bind fun x =>
    match x with
    | .list l => l.mapM (shownEntry shape)
    | _ => none

/-- What an answer says of a log. -/
def Shape.shown (shape : Shape) (e : Entry) : Entry :=
  if shape.audioFilePath then e else { e with audioFilePath := [] }

end LogsApi

end AetherGuard
