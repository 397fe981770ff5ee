import AetherGuard.Messages

/-!
# The JSON library

Every message between the API, the daemon and the AI worker is written by `wvalue::dump` and read by
`crow::json::load`. The text is a list of bytes; a NUL in it is where the reader's C string ends,
and no branch of the reader but the last test in `parse` takes one. What `snprintf` makes of a
floating-point number is a parameter, as a `Decimal`, which is what `%g` and `%f` give for a finite
one. The members of an object come in the order of the container that holds them.
-/

namespace AetherGuard

namespace Crow

/-- A character of the source. -/
def ch (c : Char) : UInt8 := c.toUInt8

/-- A string of the source. -/
def bytes (s : String) : Bytes := s.toList.map ch

def quote : UInt8 := 34

def backslash : UInt8 := 92

def openBrace : UInt8 := 123

def closeBrace : UInt8 := 125

/-! ### Strings -/

/-- `to_hex` -/
def toHex (c : UInt8) : UInt8 :=
  let c := c &&& 0xf
  if c < 10 then ch '0' + c else ch 'a' + c - 10

def escapeChar (c : UInt8) : Bytes :=
  if c = quote then [backslash, quote]
  else if c = backslash then [backslash, backslash]
  else if c = 10 then [backslash, ch 'n']
  else if c = 8 then [backslash, ch 'b']
  else if c = 12 then [backslash, ch 'f']
  else if c = 13 then [backslash, ch 'r']
  else if c = 9 then [backslash, ch 't']
  else if c < 0x20 then [backslash, ch 'u', ch '0', ch '0', toHex (c / 16), toHex (c % 16)]
  else [c]

def escape (str : Bytes) : Bytes := str.flatMap escapeChar

def dumpString (str : Bytes) : Bytes := quote :: (escape str ++ [quote])

/-- `check` -/
def isHex (c : UInt8) : Bool :=
  (ch '0' ≤ c && c ≤ ch '9') || (ch 'a' ≤ c && c ≤ ch 'f') || (ch 'A' ≤ c && c ≤ ch 'F')

/-- The characters that may follow a backslash, but for `u`. -/
def escapes : Bytes := [quote, backslash, ch '/', ch 'b', ch 'f', ch 'n', ch 'r', ch 't']

/-- The loop of `decode_string`: the text up to the quote, `has_escaping`, and what follows. -/
def decodeChars (hasEscaping : Bool) : Bytes → Option (Bytes × Bool × Bytes)
  | [] => none
  | c :: data =>
    if c ≠ quote ∧ c ≠ backslash ∧ c ≠ 0 then
      (decodeChars hasEscaping data).map fun (text, rest) => (c :: text, rest)
    else if c = quote then some ([], hasEscaping, data)
    else if c = backslash then
      match data with
      | [] => none
      | u :: data =>
        if u = ch 'u' then
          match data with
          | c1 :: c2 :: c3 :: c4 :: data =>
            if isHex c1 && isHex c2 && isHex c3 && isHex c4 then
              (decodeChars true data).map fun (text, rest) =>
                (c :: u :: c1 :: c2 :: c3 :: c4 :: text, rest)
            else none
          | _ => none
        else if u ∈ escapes then
          (decodeChars true data).map fun (text, rest) => (c :: u :: text, rest)
        else none
    else none

/-- `from_hex` -/
def fromHex (c : UInt8) : ℕ :=
  if c ≥ ch 'a' then c.toNat - (ch 'a').toNat + 10
  else if c ≥ ch 'A' then c.toNat - (ch 'A').toNat + 10
  else c.toNat - (ch '0').toNat

/-- The bytes that are put for a `\u` escape. -/
def codeBytes (code : ℕ) : Bytes :=
  if code ≥ 0x800 then
    [UInt8.ofNat (0xE0 ||| code >>> 12), UInt8.ofNat (0x80 ||| code >>> 6 &&& 0x3F),
      UInt8.ofNat (0x80 ||| code &&& 0x3F)]
  else if code ≥ 0x80 then
    [UInt8.ofNat (0xC0 ||| code >>> 6), UInt8.ofNat (0x80 ||| code &&& 0x3F)]
  else [UInt8.ofNat code]

/-- What is put for a backslash and `c`, if anything is. -/
def unescapeChar (c : UInt8) : Bytes :=
  if c = quote then [quote]
  else if c = backslash then [backslash]
  else if c = ch '/' then [ch '/']
  else if c = ch 'b' then [8]
  else if c = ch 'f' then [12]
  else if c = ch 'n' then [10]
  else if c = ch 'r' then [13]
  else if c = ch 't' then [9]
  else []

/-- The loop of `unescape`. -/
def unescape : Bytes → Bytes
  | [] => []
  | c :: head =>
    if c = backslash then
      match head with
      | [] => []
      | u :: head =>
        if u = ch 'u' then
          match head with
          | c1 :: c2 :: c3 :: c4 :: head =>
            codeBytes (fromHex c1 <<< 12 + fromHex c2 <<< 8 + fromHex c3 <<< 4 + fromHex c4)
              ++ unescape head
          | _ => []
        else unescapeChar u ++ unescape head
    else c :: unescape head

/-! ### Numbers -/

/-- The text of a number as C prints it: digits, those behind the point, and the sign and digits of
the exponent. -/
structure Decimal where
  neg : Bool
  int : List (Fin 10)
  frac : List (Fin 10)
  exp : Option (Bool × List (Fin 10))
  /-- No zeros in front. -/
  int_ok : int = [0] ∨ ∃ d ds, int = d :: ds ∧ d ≠ 0
  /-- An exponent is not 0, and a number with one starts with another digit. -/
  exp_ok : ∀ e ∈ exp, (∃ d ∈ e.2, d ≠ 0) ∧ int ≠ [0]

namespace Decimal

def digit (d : Fin 10) : UInt8 := UInt8.ofNat (48 + d.val)

/-- The text of what is behind the point. -/
def fracText : List (Fin 10) → Bytes
  | [] => []
  | d :: ds => ch '.' :: (d :: ds).map digit

/-- The text of the exponent. -/
def expText : Option (Bool × List (Fin 10)) → Bytes
  | none => []
  | some (neg, digits) => ch 'e' :: ch (if neg then '-' else '+') :: digits.map digit

def text (x : Decimal) : Bytes :=
  (if x.neg then [ch '-'] else []) ++ x.int.map digit ++ fracText x.frac ++ expText x.exp

/-- The number that digits give. -/
def ofDigits (digits : List (Fin 10)) : ℕ := digits.foldl (fun n d => 10 * n + d.val) 0

/-- The factor that the exponent gives. -/
def scale : Option (Bool × List (Fin 10)) → ℚ
  | none => 1
  | some (neg, digits) => if neg then (10 ^ ofDigits digits)⁻¹ else 10 ^ ofDigits digits

def value (x : Decimal) : ℚ :=
  (if x.neg then -1 else 1) * (ofDigits (x.int ++ x.frac) / 10 ^ x.frac.length) * scale x.exp

/-- `std::to_string` -/
def natDigits (n : ℕ) : List (Fin 10) :=
  if n = 0 then [0] else (Nat.digits 10 n).reverse.map (Fin.ofNat 10)

theorem natDigits_ok (n : ℕ) : natDigits n = [0] ∨ ∃ d ds, natDigits n = d :: ds ∧ d ≠ 0 := by
  unfold natDigits
  split_ifs with hn
  · exact .inl rfl
  · right
    have hne : Nat.digits 10 n ≠ [] := Nat.digits_ne_nil_iff_ne_zero.2 hn
    have hlt := Nat.digits_lt_base (b := 10) (by norm_num) (List.getLast_mem hne)
    have hnz := Nat.getLast_digit_ne_zero 10 hn
    refine ⟨Fin.ofNat 10 ((Nat.digits 10 n).getLast hne),
      ((Nat.digits 10 n).dropLast.reverse).map (Fin.ofNat 10), ?_, ?_⟩
    · conv_lhs => rw [← List.dropLast_append_getLast hne]
      simp
    · rw [Ne, Fin.ext_iff, Fin.val_ofNat, Nat.mod_eq_of_lt hlt]
      exact hnz

/-- An integer, signed or not. -/
def ofInt (n : ℤ) : Decimal where
  neg := n < 0
  int := natDigits n.natAbs
  frac := []
  exp := none
  int_ok := natDigits_ok n.natAbs
  exp_ok := nofun

end Decimal

/-- `f_state` -/
inductive FState
  | start
  | decp
  | zero

/-- The loop over `outbuf`, at the position `p`; the result is `o` at its end. -/
def trailing : FState → ℕ → Option ℕ → Bytes → Option ℕ
  | _, _, o, [] => o
  | .start, p, o, c :: text =>
    if c = ch '.' then
      match text with
      | [] => o
      | fch :: rest =>
        if fch = ch '0' then trailing .decp (p + 2) o rest
        else trailing .decp (p + 1) o (fch :: rest)
    else trailing .start (p + 1) o text
  | .decp, p, o, c :: text =>
    if c = ch '0' then trailing .zero (p + 1) (some p) text else trailing .decp (p + 1) o text
  | .zero, p, o, c :: text =>
    if c ≠ ch '0' then trailing .decp (p + 1) none text else trailing .zero (p + 1) o text

/-- What is written of `outbuf`. -/
def trim (outbuf : Bytes) : Bytes :=
  match trailing .start 0 none outbuf with
  | some o => outbuf.take o
  | none => outbuf

inductive NumberParsingState
  | minus
  | afterMinus
  | zeroFirst
  | digits
  | digitsAfterPoints
  | e
  | digitsAfterE
  | invalid
  deriving DecidableEq

namespace NumberParsingState

def onZero : NumberParsingState → NumberParsingState
  | minus | afterMinus => zeroFirst
  | digits => digits
  | digitsAfterPoints => digitsAfterPoints
  | e | digitsAfterE => digitsAfterE
  | zeroFirst | invalid => invalid

def onDigit : NumberParsingState → NumberParsingState
  | minus | afterMinus | digits => digits
  | digitsAfterPoints => digitsAfterPoints
  | e | digitsAfterE => digitsAfterE
  | zeroFirst | invalid => invalid

def onPoint : NumberParsingState → NumberParsingState
  | zeroFirst | digits => digitsAfterPoints
  | _ => invalid

def onMinus : NumberParsingState → NumberParsingState
  | minus => afterMinus
  | e => digitsAfterE
  | _ => invalid

def onPlus : NumberParsingState → NumberParsingState
  | e => digitsAfterE
  | _ => invalid

def onE : NumberParsingState → NumberParsingState
  | digits | digitsAfterPoints => e
  | _ => invalid

/-- The states in which a number may end. -/
def accepts : NumberParsingState → Bool
  | zeroFirst | digits | digitsAfterPoints | digitsAfterE => true
  | _ => false

end NumberParsingState

def isDigit (c : UInt8) : Bool := ch '0' ≤ c && c ≤ ch '9'

/-- The cases of the `switch`, but for the default. -/
def onChar (c : UInt8) : Option (NumberParsingState → NumberParsingState) :=
  if c = ch '0' then some .onZero
  else if isDigit c then some .onDigit
  else if c = ch '.' then some .onPoint
  else if c = ch '-' then some .onMinus
  else if c = ch '+' then some .onPlus
  else if c = ch 'e' ∨ c = ch 'E' then some .onE
  else none

/-- The loop of `decode_number`; `inner` is whether it is in the loop inside, which goes on over the
digits behind a digit other than 0. The result is the number's text and what follows. -/
def decodeNumber (state : NumberParsingState) (inner : Bool) : Bytes → Option (Bytes × Bytes)
  | [] => if state.accepts then some ([], []) else none
  | c :: data =>
    if inner && isDigit c then
      (decodeNumber state true data).map fun (text, rest) => (c :: text, rest)
    else
      match onChar c with
      | some next =>
        if next state = .invalid then none
        else (decodeNumber (next state) (c ≠ ch '0' && isDigit c) data).map fun (text, rest) =>
          (c :: text, rest)
      | none => if state.accepts then some ([], c :: data) else none

/-! ### Documents -/

/-- `rvalue`: a document as it is read, its strings as they stand in the text. -/
inductive RValue
  | null
  | bool (b : Bool)
  | number (text : Bytes)
  | string (text : Bytes) (hasEscaping : Bool)
  | list (l : List RValue)
  | object (l : List (Bytes × RValue))

/-- `rvalue::s`, of a string. -/
def stringValue (text : Bytes) (hasEscaping : Bool) : Bytes :=
  if hasEscaping then unescape text else text

/-- `ws_skip` -/
def wsSkip (data : Bytes) : Bytes := data.dropWhile (· ∈ [ch ' ', 9, 13, 10])

/-- `consume` -/
def consume (c : UInt8) : Bytes → Option Bytes
  | c' :: data => if c' = c then some data else none
  | [] => none

def decodeString (data : Bytes) : Option ((Bytes × Bool) × Bytes) :=
  (consume quote data).bind fun data =>
    (decodeChars false data).map fun (text, hasEscaping, rest) => ((text, hasEscaping), rest)

/-- A word that `decode_value` knows. -/
def decodeWord (word : String) (v : RValue) (data : Bytes) : Option (RValue × Bytes) :=
  if data.take word.length = bytes word then some (v, data.drop word.length) else none

def maxDepth : ℕ := 10000

mutual

/-- `decode_value`, with fuel for the calls it makes. -/
def decodeValue : ℕ → ℕ → Bytes → Option (RValue × Bytes)
  | 0, _, _ => none
  | fuel + 1, depth, data =>
    let c := data.headD 0
    if c = ch '[' then decodeList fuel (depth + 1) data
    else if c = openBrace then decodeObject fuel (depth + 1) data
    else if c = quote then
      (decodeString data).map fun ((text, hasEscaping), rest) => (.string text hasEscaping, rest)
    else if c = ch 't' then decodeWord "true" (.bool true) data
    else if c = ch 'f' then decodeWord "false" (.bool false) data
    else if c = ch 'n' then decodeWord "null" .null data
    else (decodeNumber .minus false data).map fun (text, rest) => (.number text, rest)
termination_by structural fuel => fuel

def decodeList : ℕ → ℕ → Bytes → Option (RValue × Bytes)
  | 0, _, _ => none
  | fuel + 1, depth, data =>
    (consume (ch '[') data).bind fun data =>
      if depth > maxDepth then none
      else
        let data := wsSkip data
        if data.headD 0 = ch ']' then some (.list [], data.tail)
        else (decodeElements fuel depth data).map fun (l, rest) => (.list l, rest)
termination_by structural fuel => fuel

/-- The loop of `decode_list`. -/
def decodeElements : ℕ → ℕ → Bytes → Option (List RValue × Bytes)
  | 0, _, _ => none
  | fuel + 1, depth, data =>
    (decodeValue fuel (depth + 1) data).bind fun (v, data) =>
      let data := wsSkip data
      if data.headD 0 = ch ']' then some ([v], data.tail)
      else
        (consume (ch ',') data).bind fun data =>
          (decodeElements fuel depth (wsSkip data)).map fun (l, rest) => (v :: l, rest)
termination_by structural fuel => fuel

def decodeObject : ℕ → ℕ → Bytes → Option (RValue × Bytes)
  | 0, _, _ => none
  | fuel + 1, depth, data =>
    (consume openBrace data).bind fun data =>
      if depth > maxDepth then none
      else
        let data := wsSkip data
        if data.headD 0 = closeBrace then some (.object [], data.tail)
        else (decodeMembers fuel depth data).map fun (l, rest) => (.object l, rest)
termination_by structural fuel => fuel

/-- The loop of `decode_object`. -/
def decodeMembers : ℕ → ℕ → Bytes → Option (List (Bytes × RValue) × Bytes)
  | 0, _, _ => none
  | fuel + 1, depth, data =>
    (decodeString data).bind fun ((text, hasEscaping), data) =>
      (consume (ch ':') (wsSkip data)).bind fun data =>
        let key := stringValue text hasEscaping
        (decodeValue fuel (depth + 1) (wsSkip data)).bind fun (v, data) =>
          let data := wsSkip data
          if data.headD 0 = closeBrace then some ([(key, v)], data.tail)
          else
            (consume (ch ',') data).bind fun data =>
              (decodeMembers fuel depth (wsSkip data)).map fun (l, rest) => ((key, v) :: l, rest)
termination_by structural fuel => fuel

end

/-- `parse`, as `load` calls it; there are at most three calls for a character. -/
def load (data : Bytes) : Option RValue :=
  (decodeValue (3 * data.length + 1) 0 (wsSkip data)).bind fun (ret, data) =>
    if (wsSkip data).headD 0 = 0 then some ret else none

/-- `wvalue`: a document to be written. -/
inductive WValue (F : Type*)
  | null
  | bool (b : Bool)
  | double (d : F)
  | float (d : F)
  | signed (si : ℤ)
  | unsigned (ui : ℕ)
  | string (s : Bytes)
  | list (l : List (WValue F))
  | object (o : List (Bytes × WValue F))

/-- What `snprintf` makes of a floating-point number; `none` if it is not finite. -/
structure Format (F : Type*) where
  /-- `"%.*g"` -/
  general : F → Option Decimal
  /-- `"%f"` -/
  fixed : F → Option Decimal

namespace WValue

variable {F : Type*} (fmt : Format F)

/-- A floating-point number from what `snprintf` made of it. -/
def dumpFloat : Option Decimal → Bytes
  | none => bytes "null"
  | some outbuf => trim outbuf.text

mutual

/-- `dump_internal`, without indentation. -/
def dump : WValue F → Bytes
  | .null => bytes "null"
  | .bool b => if b then bytes "true" else bytes "false"
  | .double d => dumpFloat (fmt.general d)
  | .float d => dumpFloat (fmt.fixed d)
  | .signed si => (Decimal.ofInt si).text
  | .unsigned ui => (Decimal.ofInt ui).text
  | .string s => dumpString s
  | .list l => ch '[' :: (dumpElements true l ++ [ch ']'])
  | .object o => openBrace :: (dumpMembers true o ++ [closeBrace])

def dumpElements (first : Bool) : List (WValue F) → Bytes
  | [] => []
  | x :: l => (if first then [] else [ch ',']) ++ dump x ++ dumpElements false l

def dumpMembers (first : Bool) : List (Bytes × WValue F) → Bytes
  | [] => []
  | (key, x) :: o =>
    (if first then [] else [ch ',']) ++ dumpString key ++ [ch ':'] ++ dump x ++ dumpMembers false o

end

end WValue

/-! ### The documents as the program sees them -/

/-- A `std::string`, each byte as a character. -/
def latin1 (s : Bytes) : String := String.ofList (s.map fun c => Char.ofNat c.toNat)

section ToJson

variable {F N : Type*}

mutual

/-- What the accesses to a document see; `read` is `lexical_cast`. -/
def RValue.toJson (read : Bytes → N) : RValue → Json N
  | .null => .null
  | .bool b => .bool b
  | .number text => .number (read text)
  | .string text hasEscaping => .string (latin1 (stringValue text hasEscaping))
  | .list l => .list (elementsToJson read l)
  | .object l => .object (membersToJson read l)

def elementsToJson (read : Bytes → N) : List RValue → List (Json N)
  | [] => []
  | v :: l => v.toJson read :: elementsToJson read l

def membersToJson (read : Bytes → N) : List (Bytes × RValue) → List (String × Json N)
  | [] => []
  | (key, v) :: l => (latin1 key, v.toJson read) :: membersToJson read l

end

/-- What a floating-point number is for the reader of its text. -/
def floatToJson (read : Bytes → N) : Option Decimal → Json N
  | none => .null
  | some outbuf => .number (read (trim outbuf.text))

namespace WValue

mutual

/-- The document that is meant; a number is the one that is read from its text. -/
def toJson (fmt : Format F) (read : Bytes → N) : WValue F → Json N
  | .null => .null
  | .bool b => .bool b
  | .double d => floatToJson read (fmt.general d)
  | .float d => floatToJson read (fmt.fixed d)
  | .signed si => .number (read (Decimal.ofInt si).text)
  | .unsigned ui => .number (read (Decimal.ofInt ui).text)
  | .string s => .string (latin1 s)
  | .list l => .list (elementsToJson fmt read l)
  | .object o => .object (membersToJson fmt read o)

def elementsToJson (fmt : Format F) (read : Bytes → N) : List (WValue F) → List (Json N)
  | [] => []
  | x :: l => x.toJson fmt read :: elementsToJson fmt read l

def membersToJson (fmt : Format F) (read : Bytes → N) :
    List (Bytes × WValue F) → List (String × Json N)
  | [] => []
  | (key, x) :: o => (latin1 key, x.toJson fmt read) :: membersToJson fmt read o

end

end WValue

end ToJson

end Crow

end AetherGuard
