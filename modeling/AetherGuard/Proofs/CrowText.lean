import Mathlib.Data.List.DropRight
import AetherGuard.CrowJson

/-!
# Strings and numbers in JSON text

`decode_string` takes what `escape` wrote up to the closing quote, and `unescape` gives the string
back. `decode_number` takes the text of a `Decimal` and stops behind it. What `dump` cuts off such a
text are zeros at its end: behind the point that changes nothing, but where there is an exponent
they are the exponent's.
-/

namespace AetherGuard

namespace Crow

/-! ### Strings -/

/-- The code of a `\u` escape. -/
def hexCode (c1 c2 c3 c4 : UInt8) : ℕ :=
  fromHex c1 <<< 12 + fromHex c2 <<< 8 + fromHex c3 <<< 4 + fromHex c4

/-- What the reader takes for the byte `c`. -/
inductive Written (c : UInt8) : Bytes → Prop
  | self (hq : c ≠ quote) (hb : c ≠ backslash) (hc : ¬ c < 0x20) : Written c [c]
  | short {u : UInt8} (hmem : u ∈ escapes) (hu : u ≠ ch 'u') (h : unescapeChar u = [c]) :
    Written c [backslash, u]
  | code {c1 c2 c3 c4 : UInt8} (hhex : (isHex c1 && isHex c2 && isHex c3 && isHex c4) = true)
    (h : codeBytes (hexCode c1 c2 c3 c4) = [c]) : Written c [backslash, ch 'u', c1, c2, c3, c4]

theorem control_code :
    ∀ n < 32, (isHex (ch '0') && isHex (ch '0') && isHex (toHex (UInt8.ofNat n / 16))
      && isHex (toHex (UInt8.ofNat n % 16))) = true
    ∧ codeBytes
      (hexCode (ch '0') (ch '0') (toHex (UInt8.ofNat n / 16)) (toHex (UInt8.ofNat n % 16)))
      = [UInt8.ofNat n] := by
  decide

theorem escapeChar_written (c : UInt8) : Written c (escapeChar c) := by
  unfold escapeChar
  split_ifs with hq hb hn hb' hf hr ht hc
  · exact .short (by decide) (by decide) (by rw [hq]; rfl)
  · exact .short (by decide) (by decide) (by rw [hb]; rfl)
  · exact .short (by decide) (by decide) (hn ▸ rfl)
  · exact .short (by decide) (by decide) (hb' ▸ rfl)
  · exact .short (by decide) (by decide) (hf ▸ rfl)
  · exact .short (by decide) (by decide) (hr ▸ rfl)
  · exact .short (by decide) (by decide) (ht ▸ rfl)
  · have hcode := control_code c.toNat (UInt8.lt_iff_toNat_lt.1 hc)
    rw [UInt8.ofNat_toNat] at hcode
    exact .code hcode.1 hcode.2
  · exact .self hq hb hc

theorem decodeChars_written {c : UInt8} {w : Bytes} (h : Written c w) (hasEscaping : Bool)
    (data : Bytes) : decodeChars hasEscaping (w ++ data)
      = (decodeChars (hasEscaping || w != [c]) data).map fun (text, rest) => (w ++ text, rest) := by
  have hbq : backslash ≠ quote := by decide
  cases h with
  | self hq hb hc =>
    have h0 : c ≠ 0 := by
      rintro rfl
      exact hc (by decide)
    rw [bne_self_eq_false, Bool.or_false, List.singleton_append, decodeChars.eq_def]
    simp only [ne_eq, hq, hb, h0, not_false_eq_true, and_self, if_true]
    rfl
  | @short u hmem hu h =>
    have hlong : (hasEscaping || [backslash, u] != [c]) = true := by simp
    rw [hlong, List.cons_append, decodeChars.eq_def]
    simp [hbq, hmem, hu]
  | @code c1 c2 c3 c4 hhex h =>
    have hlong : (hasEscaping || [backslash, ch 'u', c1, c2, c3, c4] != [c]) = true := by simp
    rw [hlong, List.cons_append, decodeChars.eq_def]
    simp [hbq, hhex]

theorem unescape_written {c : UInt8} {w : Bytes} (h : Written c w) (text : Bytes) :
    unescape (w ++ text) = c :: unescape text := by
  cases h with
  | self hq hb hc =>
    rw [List.singleton_append, unescape.eq_def]
    simp only [hb, if_false]
  | short hmem hu h =>
    rw [List.cons_append, unescape.eq_def]
    simp [hu, h]
  | code hhex h =>
    simp only [List.cons_append, List.nil_append, unescape, if_true]
    rw [← hexCode, h, List.singleton_append]

theorem unescape_escape (s : Bytes) : unescape (escape s) = s := by
  induction s with
  | nil => rfl
  | cons c s ih =>
    rw [escape, List.flatMap_cons, unescape_written (escapeChar_written c), ← escape, ih]

/-- What `has_escaping` is at the end of `s`. -/
def hasEscapes (s : Bytes) : Bool := s.any fun c => escapeChar c != [c]

theorem decodeChars_escape (s rest : Bytes) (hasEscaping : Bool) :
    decodeChars hasEscaping (escape s ++ quote :: rest)
      = some (escape s, hasEscaping || hasEscapes s, rest) := by
  induction s generalizing hasEscaping with
  | nil =>
    rw [escape, List.flatMap_nil, List.nil_append, decodeChars.eq_def]
    simp [hasEscapes]
  | cons c s ih =>
    rw [escape, List.flatMap_cons, List.append_assoc, decodeChars_written (escapeChar_written c),
      ← escape, ih]
    simp [hasEscapes, Bool.or_assoc]

theorem decodeString_dumpString (s rest : Bytes) :
    decodeString (dumpString s ++ rest) = some ((escape s, hasEscapes s), rest) := by
  have hdata : dumpString s ++ rest = quote :: (escape s ++ quote :: rest) := by
    simp [dumpString]
  rw [hdata, decodeString, consume, if_pos rfl, Option.bind_some, decodeChars_escape]
  rfl

theorem escape_of_not_hasEscapes {s : Bytes} (h : hasEscapes s = false) : escape s = s := by
  induction s with
  | nil => rfl
  | cons c s ih =>
    simp only [hasEscapes, List.any_cons, Bool.or_eq_false_iff, bne_eq_false_iff_eq] at h
    rw [escape, List.flatMap_cons, h.1, ← escape, ih h.2]
    rfl

/-- The reader gets the string that was written. -/
theorem stringValue_escape (s : Bytes) : stringValue (escape s) (hasEscapes s) = s := by
  rw [stringValue]
  split_ifs with h
  · exact unescape_escape s
  · exact escape_of_not_hasEscapes (by simpa using h)

theorem le_of_isHex {c : UInt8} (h : isHex c = true) : 0x20 ≤ c := by
  have hle : ∀ a : UInt8, 0x20 ≤ a → a ≤ c → 0x20 ≤ c := fun a ha hac => UInt8.le_trans ha hac
  simp only [isHex, Bool.or_eq_true, Bool.and_eq_true, decide_eq_true_eq] at h
  rcases h with (⟨h, -⟩ | ⟨h, -⟩) | ⟨h, -⟩
  · exact hle _ (by decide) h
  · exact hle _ (by decide) h
  · exact hle _ (by decide) h

theorem le_of_mem_written {c b : UInt8} {w : Bytes} (h : Written c w) (hb : b ∈ w) : 0x20 ≤ b := by
  cases h with
  | self hq hb' hc =>
    rw [List.mem_singleton.1 hb]
    exact UInt8.not_lt.1 hc
  | short hmem hu h =>
    have hall : escapes.all (0x20 ≤ ·) = true := by decide
    simp only [List.mem_cons, List.not_mem_nil, or_false] at hb
    rcases hb with rfl | rfl
    · decide
    · exact of_decide_eq_true (List.all_eq_true.1 hall _ hmem)
  | code hhex h =>
    simp only [Bool.and_eq_true] at hhex
    obtain ⟨⟨⟨h1, h2⟩, h3⟩, h4⟩ := hhex
    simp only [List.mem_cons, List.not_mem_nil, or_false] at hb
    rcases hb with rfl | rfl | rfl | rfl | rfl | rfl
    · decide
    · decide
    · exact le_of_isHex h1
    · exact le_of_isHex h2
    · exact le_of_isHex h3
    · exact le_of_isHex h4

theorem le_of_mem_dumpString {s : Bytes} {b : UInt8} (hb : b ∈ dumpString s) : 0x20 ≤ b := by
  simp only [dumpString, List.mem_cons, List.mem_append, List.not_mem_nil, or_false] at hb
  rcases hb with rfl | hb | rfl
  · decide
  · obtain ⟨c, -, hb⟩ := List.mem_flatMap.1 hb
    exact le_of_mem_written (escapeChar_written c) hb
  · decide

/-! ### Numbers -/

namespace Decimal

theorem isDigit_digit (d : Fin 10) : isDigit (digit d) = true := by
  revert d
  decide

theorem digit_eq_zero_iff (d : Fin 10) : digit d = ch '0' ↔ d = 0 := by
  revert d
  decide

end Decimal

open Decimal NumberParsingState

/-- The states that a digit does not change. -/
def Absorbs (state : NumberParsingState) : Prop :=
  state.onZero = state ∧ state.onDigit = state ∧ state ≠ .invalid

instance (state : NumberParsingState) : Decidable (Absorbs state) :=
  inferInstanceAs (Decidable (_ ∧ _ ∧ _))

theorem onChar_of_isDigit {c : UInt8} (h : isDigit c = true) :
    onChar c = some (if c = ch '0' then .onZero else .onDigit) := by
  rw [onChar]
  split_ifs <;> rfl

theorem decodeNumber_of_absorbs {state : NumberParsingState} (h : Absorbs state) {c : UInt8}
    (hc : isDigit c = true) (inner : Bool) (data : Bytes) : ∃ inner',
      decodeNumber state inner (c :: data)
        = (decodeNumber state inner' data).map fun (text, rest) => (c :: text, rest) := by
  cases inner with
  | true => exact ⟨true, by simp [decodeNumber, hc]⟩
  | false =>
    have hnext :
        (if c = ch '0' then NumberParsingState.onZero else NumberParsingState.onDigit) state
          = state := by
      split_ifs
      · exact h.1
      · exact h.2.1
    refine ⟨c ≠ ch '0' && isDigit c, ?_⟩
    simp only [decodeNumber, Bool.false_and, Bool.false_eq_true, if_false, onChar_of_isDigit hc,
      hnext, if_neg h.2.2]

/-- In such a state the loop inside makes no difference. -/
theorem decodeNumber_inner {state : NumberParsingState} (h : Absorbs state) (data : Bytes) :
    decodeNumber state true data = decodeNumber state false data := by
  induction data with
  | nil => rfl
  | cons c data ih =>
    by_cases hc : isDigit c = true
    · obtain ⟨i, hi⟩ := decodeNumber_of_absorbs h hc true data
      obtain ⟨j, hj⟩ := decodeNumber_of_absorbs h hc false data
      have hij : decodeNumber state i data = decodeNumber state j data := by
        cases i <;> cases j <;> simp [ih]
      rw [hi, hj, hij]
    · simp [decodeNumber, hc]

theorem decodeNumber_digits {state : NumberParsingState} (h : Absorbs state) (ds : List (Fin 10))
    (data : Bytes) : decodeNumber state false (ds.map digit ++ data)
      = (decodeNumber state false data).map fun (text, rest) => (ds.map digit ++ text, rest) := by
  induction ds with
  | nil => simp
  | cons d ds ih =>
    obtain ⟨inner, hinner⟩ := decodeNumber_of_absorbs h (isDigit_digit d) false
      (ds.map digit ++ data)
    have hfalse : decodeNumber state inner (ds.map digit ++ data)
        = decodeNumber state false (ds.map digit ++ data) := by
      cases inner with
      | true => exact decodeNumber_inner h _
      | false => rfl
    rw [List.map_cons, List.cons_append, hinner, hfalse, ih, Option.map_map]
    rfl

/-- What may follow a number. -/
def Stops (rest : Bytes) : Prop := ∀ c ∈ rest.head?, onChar c = none

theorem decodeNumber_stops {state : NumberParsingState} (h : state.accepts = true) {rest : Bytes}
    (hrest : Stops rest) : decodeNumber state false rest = some ([], rest) := by
  cases rest with
  | nil => simp [decodeNumber, h]
  | cons c rest => simp [decodeNumber, h, hrest c rfl]

/-- The step that a character takes, other than a digit behind another. -/
theorem decodeNumber_next {state state' : NumberParsingState} {c : UInt8}
    {next : NumberParsingState → NumberParsingState} (hc : onChar c = some next)
    (hnext : next state = state') (hne : state' ≠ .invalid)
    (hdigit : c ≠ ch '0' → isDigit c = true → Absorbs state') (data : Bytes) :
    decodeNumber state false (c :: data)
      = (decodeNumber state' false data).map fun (text, rest) => (c :: text, rest) := by
  have hinner : decodeNumber state' (c ≠ ch '0' && isDigit c) data
      = decodeNumber state' false data := by
    cases h : (decide (c ≠ ch '0') && isDigit c) with
    | false => rfl
    | true =>
      obtain ⟨h0, h1⟩ := (Bool.and_eq_true _ _).mp h
      exact decodeNumber_inner (hdigit (of_decide_eq_true h0) h1) data
  simp only [decodeNumber, Bool.false_and, Bool.false_eq_true, if_false, hc, hnext, if_neg hne,
    hinner]

theorem digits_absorbs : Absorbs .digits := by decide

theorem digitsAfterPoints_absorbs : Absorbs .digitsAfterPoints := by decide

theorem digitsAfterE_absorbs : Absorbs .digitsAfterE := by decide

section Number

variable {rest : Bytes}

/-- From a state that may end a number, or go on with an exponent. -/
theorem decodeNumber_expText {state : NumberParsingState} (hstate : state.accepts = true)
    {exp : Option (Bool × List (Fin 10))} (hexp : exp ≠ none → state.onE = .e)
    (hrest : Stops rest) :
    decodeNumber state false (expText exp ++ rest) = some (expText exp, rest) := by
  match exp with
  | none => exact decodeNumber_stops hstate hrest
  | some (neg, ds) =>
    have hsign : onChar (ch (if neg then '-' else '+'))
        = some (if neg then NumberParsingState.onMinus else .onPlus) := by
      cases neg <;> rfl
    have hsign' : (if neg then NumberParsingState.onMinus else .onPlus) .e = .digitsAfterE := by
      cases neg <;> rfl
    have hdigit : isDigit (ch (if neg then '-' else '+')) = false := by
      cases neg <;> decide
    rw [expText, List.cons_append, decodeNumber_next (show onChar (ch 'e') = some .onE from rfl)
      (hexp nofun) (by decide) (by decide), List.cons_append,
      decodeNumber_next hsign hsign' (by decide) (by simp [hdigit]),
      decodeNumber_digits digitsAfterE_absorbs, decodeNumber_stops rfl hrest]
    simp

/-- From behind the first digits. -/
theorem decodeNumber_fracText {state : NumberParsingState}
    (hstate : state = .zeroFirst ∨ state = .digits) (x : Decimal)
    (hexp : x.exp ≠ none → state = .digits) (hrest : Stops rest) :
    decodeNumber state false (fracText x.frac ++ (expText x.exp ++ rest))
      = some (fracText x.frac ++ expText x.exp, rest) := by
  match x.frac with
  | [] =>
    refine decodeNumber_expText ?_ (fun he => ?_) hrest
    · rcases hstate with rfl | rfl <;> rfl
    · rw [hexp he]
      rfl
  | d :: ds =>
    have hpoint : state.onPoint = .digitsAfterPoints := by
      rcases hstate with rfl | rfl <;> rfl
    rw [fracText, List.cons_append,
      decodeNumber_next (show onChar (ch '.') = some .onPoint from rfl) hpoint (by decide)
        (by decide),
      decodeNumber_digits digitsAfterPoints_absorbs,
      decodeNumber_expText rfl (fun _ => rfl) hrest]
    simp

/-- From the first digit on. -/
theorem decodeNumber_intText {state : NumberParsingState}
    (hstate : state = .minus ∨ state = .afterMinus) (x : Decimal) (hrest : Stops rest) :
    decodeNumber state false (x.int.map digit ++ (fracText x.frac ++ (expText x.exp ++ rest)))
      = some (x.int.map digit ++ (fracText x.frac ++ expText x.exp), rest) := by
  rcases x.int_ok with hint | ⟨d, ds, hint, hd⟩
  · have hnoexp : x.exp ≠ none → NumberParsingState.zeroFirst = .digits := by
      intro he
      obtain ⟨e, he⟩ := Option.ne_none_iff_exists'.1 he
      exact absurd hint (x.exp_ok e he).2
    have hzero : state.onZero = .zeroFirst := by
      rcases hstate with rfl | rfl <;> rfl
    rw [hint, List.map_singleton, List.singleton_append,
      decodeNumber_next (show onChar (digit 0) = some .onZero from rfl) hzero (by decide)
        (fun h => absurd rfl h),
      decodeNumber_fracText (.inl rfl) x hnoexp hrest]
    simp
  · have hdigit : state.onDigit = .digits := by
      rcases hstate with rfl | rfl <;> rfl
    have hchar : onChar (digit d) = some .onDigit := by
      rw [onChar_of_isDigit (isDigit_digit d), if_neg (mt (digit_eq_zero_iff d).1 hd)]
    rw [hint, List.map_cons, List.cons_append,
      decodeNumber_next hchar hdigit (by decide) (fun _ _ => digits_absorbs),
      decodeNumber_digits digits_absorbs,
      decodeNumber_fracText (.inr rfl) x (fun _ => rfl) hrest]
    simp

/-- The text of a number is read to its end. -/
theorem decodeNumber_text (x : Decimal) (hrest : Stops rest) :
    decodeNumber .minus false (x.text ++ rest) = some (x.text, rest) := by
  have hsplit : ∀ r, x.text ++ r = (if x.neg then [ch '-'] else [])
      ++ (x.int.map digit ++ (fracText x.frac ++ (expText x.exp ++ r))) := by
    intro r
    simp only [text, List.append_assoc]
  have hnil := hsplit []
  rw [List.append_nil, List.append_nil] at hnil
  rw [hsplit, hnil]
  split_ifs
  · rw [List.singleton_append, decodeNumber_next (show onChar (ch '-') = some .onMinus from rfl)
      (show NumberParsingState.onMinus .minus = .afterMinus from rfl) (by decide) (by decide),
      decodeNumber_intText (.inr rfl) x hrest]
    rfl
  · exact decodeNumber_intText (.inl rfl) x hrest

end Number

/-! ### Zeros at the end -/

/-- Where `o` is at the end of a text behind the point. -/
def zerosFrom (p : ℕ) : Bytes → Option ℕ
  | [] => none
  | c :: text => if (c :: text).all (· = ch '0') then some p else zerosFrom (p + 1) text

theorem trailing_decp_zero (text : Bytes) : ∀ p,
    trailing .decp p none text = zerosFrom p text
      ∧ ∀ o, trailing .zero p (some o) text
        = if text.all (· = ch '0') then some o else zerosFrom p text := by
  induction text with
  | nil => exact fun p => ⟨rfl, fun o => rfl⟩
  | cons c text ih =>
    intro p
    obtain ⟨ih1, ih2⟩ := ih (p + 1)
    by_cases hc : c = ch '0'
    · simp only [trailing, hc, if_true, ih2, zerosFrom, List.all_cons, decide_true, Bool.true_and,
        ne_eq, not_true_eq_false, if_false]
      refine ⟨trivial, fun o => ?_⟩
      split_ifs <;> rfl
    · simp [trailing, hc, ih1, zerosFrom]

section DropZeros

variable {α : Type*} {p : α → Bool}

theorem rdropWhile_cons (a : α) (l : List α) :
    (a :: l).rdropWhile p = if (a :: l).all p then [] else a :: l.rdropWhile p := by
  rw [List.rdropWhile, List.reverse_cons, List.dropWhile_append]
  by_cases hl : l.all p
  · have hnil : l.reverse.dropWhile p = [] := by simpa using hl
    have hnil' : l.rdropWhile p = [] := by rw [List.rdropWhile, hnil, List.reverse_nil]
    rw [hnil, hnil']
    by_cases ha : p a <;> simp [ha, hl]
  · have hne : l.reverse.dropWhile p ≠ [] := by simpa using hl
    rw [if_neg (by simpa using hne), if_neg (by simp [hl]), List.rdropWhile]
    simp

theorem rdropWhile_map {β : Type*} (f : β → α) (l : List β) :
    (l.map f).rdropWhile p = (l.rdropWhile (p ∘ f)).map f := by
  rw [List.rdropWhile, ← List.map_reverse, List.dropWhile_map, ← List.map_reverse, List.rdropWhile]

/-- What comes behind something that is kept is cut on its own. -/
theorem rdropWhile_append_cons {a : α} (ha : p a = false) (l r : List α) :
    (l ++ a :: r).rdropWhile p = l ++ a :: r.rdropWhile p := by
  induction l with
  | nil => rw [List.nil_append, rdropWhile_cons, if_neg (by simp [ha]), List.nil_append]
  | cons b l ih =>
    rw [List.cons_append, rdropWhile_cons, if_neg (by simp [ha]), ih, List.cons_append]

end DropZeros

theorem take_zerosFrom (text : Bytes) (p : ℕ) :
    (match zerosFrom p text with
      | some o => text.take (o - p)
      | none => text) = text.rdropWhile (· = ch '0') ∧ ∀ o ∈ zerosFrom p text, p ≤ o := by
  induction text generalizing p with
  | nil => exact ⟨rfl, nofun⟩
  | cons c text ih =>
    obtain ⟨ih1, ih2⟩ := ih (p + 1)
    rw [rdropWhile_cons, zerosFrom]
    split_ifs with hall
    · simp
    · rw [← ih1]
      cases hz : zerosFrom (p + 1) text with
      | none => exact ⟨rfl, nofun⟩
      | some o =>
        have hle := ih2 o hz
        refine ⟨?_, fun o' ho' => ?_⟩
        · show (c :: text).take (o - p) = c :: text.take (o - (p + 1))
          rw [show o - p = o - (p + 1) + 1 by omega, List.take_succ_cons]
        · cases ho'
          omega

theorem trailing_start {a : Bytes} (ha : ch '.' ∉ a) (p : ℕ) (text : Bytes) :
    trailing .start p none (a ++ text) = trailing .start (p + a.length) none text := by
  induction a generalizing p with
  | nil => rfl
  | cons c a ih =>
    obtain ⟨hc, ha⟩ := List.ne_and_not_mem_of_not_mem_cons ha
    rw [List.cons_append, trailing.eq_def]
    simp only [if_neg hc.symm]
    rw [ih ha, List.length_cons, add_assoc, add_comm 1]

/-- Without a point nothing is cut off. -/
theorem trim_of_notMem {text : Bytes} (h : ch '.' ∉ text) : trim text = text := by
  have hnone : trailing .start 0 none text = none := by
    have := trailing_start h 0 []
    rw [List.append_nil] at this
    rw [this]
    rfl
  rw [trim, hnone]

/-- Behind a point the zeros at the end are, but for one right behind it. -/
theorem trim_point {a : Bytes} (ha : ch '.' ∉ a) (c : UInt8) (text : Bytes) :
    trim (a ++ ch '.' :: c :: text) = a ++ ch '.' :: c :: text.rdropWhile (· = ch '0') := by
  have htrailing : trailing .start 0 none (a ++ ch '.' :: c :: text)
      = zerosFrom (a.length + 2) text := by
    rw [trailing_start ha, zero_add]
    by_cases hc : c = ch '0'
    · simp only [trailing, hc, if_true, (trailing_decp_zero text _).1]
    · have hpoint : trailing .start a.length none (ch '.' :: c :: text)
          = trailing .decp (a.length + 1) none (c :: text) := by
        simp only [trailing, if_true, if_neg hc]
      rw [hpoint, (trailing_decp_zero _ _).1, zerosFrom, if_neg (by simp [hc])]
  obtain ⟨htake, hle⟩ := take_zerosFrom text (a.length + 2)
  rw [trim, htrailing, ← htake]
  cases hz : zerosFrom (a.length + 2) text with
  | none => rfl
  | some o =>
    obtain ⟨k, rfl⟩ := Nat.exists_eq_add_of_le (hle o hz)
    show (a ++ ch '.' :: c :: text).take (a.length + 2 + k)
      = a ++ ch '.' :: c :: text.take (a.length + 2 + k - (a.length + 2))
    rw [add_assoc, List.take_length_add_append, show 2 + k = k + 1 + 1 by omega,
      List.take_succ_cons, List.take_succ_cons,
      show a.length + (k + 1 + 1) - (a.length + 2) = k by omega]

namespace Decimal

/-- The digits without the zeros at their end. -/
def dropZeros (ds : List (Fin 10)) : List (Fin 10) := ds.rdropWhile (digit · = ch '0')

theorem map_dropZeros (ds : List (Fin 10)) :
    (ds.map digit).rdropWhile (· = ch '0') = (dropZeros ds).map digit :=
  rdropWhile_map digit ds

theorem mem_dropZeros {ds : List (Fin 10)} {d : Fin 10} (hd : d ∈ ds) (h0 : d ≠ 0) :
    d ∈ dropZeros ds := by
  induction ds with
  | nil => exact hd
  | cons a ds ih =>
    have hall : ¬ ((a :: ds).all fun x => decide (digit x = ch '0')) = true := by
      simp only [List.all_eq_true, decide_eq_true_eq, digit_eq_zero_iff]
      exact fun h => h0 (h d hd)
    rw [dropZeros, rdropWhile_cons, if_neg hall]
    rcases List.mem_cons.1 hd with rfl | hd
    · exact List.mem_cons_self
    · exact List.mem_cons_of_mem a (ih hd)

/-- What is left behind the point. -/
def trimmedFrac : List (Fin 10) → Option (Bool × List (Fin 10)) → List (Fin 10)
  | d :: ds, none => d :: dropZeros ds
  | frac, _ => frac

/-- What is left of the exponent. -/
def trimmedExp : List (Fin 10) → Option (Bool × List (Fin 10)) → Option (Bool × List (Fin 10))
  | _ :: _, some (neg, ds) => some (neg, dropZeros ds)
  | _, exp => exp

theorem trimmedExp_ok (x : Decimal) :
    ∀ e ∈ trimmedExp x.frac x.exp, (∃ d ∈ e.2, d ≠ 0) ∧ x.int ≠ [0] := by
  intro e he
  cases hfrac : x.frac with
  | nil =>
    rw [hfrac] at he
    exact x.exp_ok e he
  | cons d ds =>
    cases hexp : x.exp with
    | none =>
      rw [hfrac, hexp] at he
      cases he
    | some e' =>
      obtain ⟨neg, es⟩ := e'
      rw [hfrac, hexp] at he
      cases he
      obtain ⟨⟨d, hd, h0⟩, hint⟩ := x.exp_ok (neg, es) hexp
      exact ⟨⟨d, mem_dropZeros hd h0, h0⟩, hint⟩

/-- The number that is written for `x`. -/
def trimmed (x : Decimal) : Decimal where
  neg := x.neg
  int := x.int
  frac := trimmedFrac x.frac x.exp
  exp := trimmedExp x.frac x.exp
  int_ok := x.int_ok
  exp_ok := trimmedExp_ok x

theorem point_notMem_digits (ds : List (Fin 10)) : ch '.' ∉ ds.map digit := by
  intro h
  obtain ⟨d, -, hd⟩ := List.mem_map.1 h
  revert hd
  revert d
  decide

theorem point_notMem_front (neg : Bool) (int : List (Fin 10)) :
    ch '.' ∉ (if neg then [ch '-'] else []) ++ int.map digit := by
  rw [List.mem_append, not_or]
  refine ⟨?_, point_notMem_digits int⟩
  cases neg <;> decide

theorem point_notMem_expText (exp : Option (Bool × List (Fin 10))) : ch '.' ∉ expText exp := by
  match exp with
  | none => exact List.not_mem_nil
  | some (neg, ds) =>
    rw [expText, List.mem_cons, List.mem_cons, not_or, not_or]
    refine ⟨by decide, ?_, point_notMem_digits ds⟩
    cases neg <;> decide

theorem rdropWhile_expText (l : Bytes) (neg : Bool) (es : List (Fin 10)) :
    (l ++ expText (some (neg, es))).rdropWhile (· = ch '0')
      = l ++ expText (some (neg, dropZeros es)) := by
  have hsign : decide (ch (if neg then '-' else '+') = ch '0') = false := by
    cases neg <;> decide
  have hsplit : ∀ es, l ++ expText (some (neg, es))
      = (l ++ [ch 'e']) ++ ch (if neg then '-' else '+') :: es.map digit := by
    intro es
    simp [expText]
  rw [hsplit, hsplit, rdropWhile_append_cons (p := fun c => decide (c = ch '0')) hsign,
    map_dropZeros]

theorem trim_text (x : Decimal) : trim x.text = x.trimmed.text := by
  obtain ⟨neg, int, frac, exp, hint, hexp⟩ := x
  cases frac with
  | nil =>
    have hpoint : ch '.' ∉ (if neg then [ch '-'] else []) ++ int.map digit ++ []
        ++ expText exp := by
      rw [List.append_nil, List.mem_append, not_or]
      exact ⟨point_notMem_front neg int, point_notMem_expText exp⟩
    exact trim_of_notMem hpoint
  | cons d ds =>
    have htext : ∀ ds exp, (if neg then [ch '-'] else []) ++ int.map digit ++ fracText (d :: ds)
        ++ expText exp = ((if neg then [ch '-'] else []) ++ int.map digit)
          ++ ch '.' :: digit d :: (ds.map digit ++ expText exp) := by
      intro ds exp
      simp [fracText]
    cases exp with
    | none =>
      show trim ((if neg then [ch '-'] else []) ++ int.map digit ++ fracText (d :: ds)
        ++ expText none)
        = (if neg then [ch '-'] else []) ++ int.map digit ++ fracText (d :: dropZeros ds)
          ++ expText none
      rw [htext, htext, trim_point (point_notMem_front neg int), expText, List.append_nil,
        List.append_nil, map_dropZeros]
    | some e =>
      obtain ⟨eneg, es⟩ := e
      show trim ((if neg then [ch '-'] else []) ++ int.map digit ++ fracText (d :: ds)
          ++ expText (some (eneg, es)))
        = (if neg then [ch '-'] else []) ++ int.map digit ++ fracText (d :: ds)
          ++ expText (some (eneg, dropZeros es))
      rw [htext, htext, trim_point (point_notMem_front neg int), rdropWhile_expText]

/-! ### The value -/

theorem ofDigits_append (a b : List (Fin 10)) :
    ofDigits (a ++ b) = ofDigits a * 10 ^ b.length + ofDigits b := by
  have hfoldl : ∀ (b : List (Fin 10)) (n : ℕ), b.foldl (fun n d => 10 * n + d.val) n
      = n * 10 ^ b.length + ofDigits b := by
    intro b
    induction b with
    | nil => intro n; simp [ofDigits]
    | cons d b ih =>
      intro n
      have hd : ofDigits (d :: b) = d.val * 10 ^ b.length + ofDigits b := by
        rw [ofDigits, List.foldl_cons, ih, mul_zero, zero_add]
      rw [List.foldl_cons, ih, hd, List.length_cons, pow_succ]
      ring
  rw [ofDigits, List.foldl_append, hfoldl]
  rfl

theorem ofDigits_zeros (k : ℕ) : ofDigits (List.replicate k 0) = 0 := by
  induction k with
  | zero => rfl
  | succ k ih =>
    rw [List.replicate_succ', ofDigits_append, ih]
    rfl

/-- What is dropped are zeros, and some are where the last digit is one. -/
theorem exists_zeros (ds : List (Fin 10)) :
    ∃ k, ds = dropZeros ds ++ List.replicate k 0 ∧ (k = 0 ↔ ds.getLast? ≠ some 0) := by
  have hsplit : dropZeros ds ++ ds.rtakeWhile (digit · = ch '0') = ds :=
    List.rdropWhile_append_rtakeWhile ..
  have hzeros : ds.rtakeWhile (digit · = ch '0')
      = List.replicate (ds.rtakeWhile (digit · = ch '0')).length 0 :=
    List.eq_replicate_of_mem fun d hd => by
      simpa [digit_eq_zero_iff] using List.mem_rtakeWhile_imp hd
  refine ⟨(ds.rtakeWhile (digit · = ch '0')).length, by rw [← hzeros, hsplit], ?_⟩
  rw [List.length_eq_zero_iff, List.rtakeWhile_eq_nil_iff]
  constructor
  · rintro h hlast
    obtain ⟨init, rfl⟩ := List.getLast?_eq_some_iff.1 hlast
    exact h (by simp) (by simp [digit_eq_zero_iff])
  · intro h hne hlast
    rw [decide_eq_true_eq, digit_eq_zero_iff] at hlast
    exact h (by rw [List.getLast?_eq_some_getLast hne, hlast])

theorem ofDigits_pos {ds : List (Fin 10)} (h : ∃ d ∈ ds, d ≠ 0) : 0 < ofDigits ds := by
  obtain ⟨d, hd, h0⟩ := h
  obtain ⟨a, b, rfl⟩ := List.append_of_mem hd
  have hd : 0 < ofDigits [d] := by
    rw [Nat.pos_iff_ne_zero]
    intro h
    exact h0 (Fin.ext (by simpa [ofDigits] using h))
  rw [ofDigits_append, ← List.singleton_append, ofDigits_append]
  positivity

theorem mantissa_pos {x : Decimal} (h : x.exp ≠ none) : 0 < ofDigits (x.int ++ x.frac) := by
  obtain ⟨e, he⟩ := Option.ne_none_iff_exists'.1 h
  have hint := (x.exp_ok e he).2
  rcases x.int_ok with h0 | ⟨d, ds, hds, hd⟩
  · exact absurd h0 hint
  · exact ofDigits_pos ⟨d, by simp [hds], hd⟩

/-- Zeros behind the point do not count. -/
theorem ofDigits_dropZeros_div (a ds : List (Fin 10)) :
    (ofDigits (a ++ dropZeros ds) : ℚ) / 10 ^ (dropZeros ds).length
      = ofDigits (a ++ ds) / 10 ^ ds.length := by
  obtain ⟨k, hk, -⟩ := exists_zeros ds
  set ds' := dropZeros ds
  rw [hk, ← List.append_assoc, ofDigits_append _ (List.replicate k 0), ofDigits_zeros,
    List.length_append, List.length_replicate, pow_add]
  push_cast
  field_simp
  ring

/-- Zeros of the exponent do. -/
theorem ofDigits_dropZeros_eq_iff {ds : List (Fin 10)} (h : ∃ d ∈ ds, d ≠ 0) :
    ofDigits (dropZeros ds) = ofDigits ds ↔ ds.getLast? ≠ some 0 := by
  obtain ⟨k, hk, hlast⟩ := exists_zeros ds
  have hpos : 0 < ofDigits (dropZeros ds) := by
    obtain ⟨d, hd, h0⟩ := h
    exact ofDigits_pos ⟨d, mem_dropZeros hd h0, h0⟩
  have hmul : ofDigits ds = ofDigits (dropZeros ds) * 10 ^ k := by
    conv_lhs => rw [hk]
    rw [ofDigits_append, ofDigits_zeros, List.length_replicate, add_zero]
  rw [← hlast, hmul]
  constructor
  · intro heq
    have hone : 10 ^ k = 1 := Nat.eq_of_mul_eq_mul_left hpos (by rw [← heq, mul_one])
    simpa using hone
  · rintro rfl
    simp

theorem scale_eq_iff (neg : Bool) (a b : List (Fin 10)) :
    scale (some (neg, a)) = scale (some (neg, b)) ↔ ofDigits a = ofDigits b := by
  have hinj : (10 : ℚ) ^ ofDigits a = 10 ^ ofDigits b ↔ ofDigits a = ofDigits b :=
    pow_right_inj₀ (by norm_num) (by norm_num)
  cases neg with
  | true => exact inv_inj.trans hinj
  | false => exact hinj

/-- The number that is written is the one that was printed unless there are a point and an exponent
that ends with a 0. -/
theorem trimmed_value_iff (x : Decimal) : x.trimmed.value = x.value
    ↔ x.frac = [] ∨ ∀ e ∈ x.exp, e.2.getLast? ≠ some 0 := by
  have hmantissa := x.mantissa_pos
  obtain ⟨neg, int, frac, exp, hint, hexp⟩ := x
  cases frac with
  | nil => exact ⟨fun _ => .inl rfl, fun _ => rfl⟩
  | cons d ds =>
    cases exp with
    | none =>
      refine ⟨fun _ => .inr nofun, fun _ => ?_⟩
      have hdiv := ofDigits_dropZeros_div (int ++ [d]) ds
      rw [List.append_assoc, List.append_assoc, List.singleton_append,
        List.singleton_append] at hdiv
      have hdiv' : (ofDigits (int ++ d :: dropZeros ds) : ℚ) / 10 ^ (d :: dropZeros ds).length
          = ofDigits (int ++ d :: ds) / 10 ^ (d :: ds).length := by
        rw [List.length_cons, List.length_cons, pow_succ, pow_succ, ← div_div, ← div_div, hdiv]
      exact congrArg (fun m => (if neg then -1 else 1) * m * 1) hdiv'
    | some e =>
      obtain ⟨eneg, es⟩ := e
      have hpos : (0 : ℚ) < ofDigits (int ++ d :: ds) := by exact_mod_cast hmantissa nofun
      have hne : (if neg then -1 else 1) * ((ofDigits (int ++ d :: ds) : ℚ) / 10 ^ (d :: ds).length)
          ≠ 0 := by
        have hsign : (if neg then (-1 : ℚ) else 1) ≠ 0 := by
          split_ifs <;> norm_num
        positivity
      have hiff :
          (if neg then -1 else 1) * ((ofDigits (int ++ d :: ds) : ℚ) / 10 ^ (d :: ds).length)
            * scale (some (eneg, dropZeros es))
          = (if neg then -1 else 1) * ((ofDigits (int ++ d :: ds) : ℚ) / 10 ^ (d :: ds).length)
            * scale (some (eneg, es)) ↔ es.getLast? ≠ some 0 := by
        rw [mul_right_inj' hne, scale_eq_iff, ofDigits_dropZeros_eq_iff (hexp _ rfl).1]
      refine hiff.trans ⟨fun h => .inr fun e he => ?_, fun h => ?_⟩
      · cases he
        exact h
      · exact h.resolve_left nofun _ rfl

theorem le_of_mem_digits {ds : List (Fin 10)} {b : UInt8} (hb : b ∈ ds.map digit) : 0x20 ≤ b := by
  have hdigit : ∀ d, 0x20 ≤ digit d := by decide
  obtain ⟨d, -, rfl⟩ := List.mem_map.1 hb
  exact hdigit d

theorem le_of_mem_text {x : Decimal} {b : UInt8} (hb : b ∈ x.text) : 0x20 ≤ b := by
  simp only [text, List.mem_append] at hb
  rcases hb with ((hb | hb) | hb) | hb
  · split_ifs at hb
    · rw [List.mem_singleton.1 hb]
      decide
    · cases hb
  · exact le_of_mem_digits hb
  · cases hfrac : x.frac with
    | nil => rw [hfrac] at hb; cases hb
    | cons d ds =>
      rw [hfrac, fracText, List.mem_cons] at hb
      rcases hb with rfl | hb
      · decide
      · exact le_of_mem_digits hb
  · match hexp : x.exp with
    | none => rw [hexp] at hb; cases hb
    | some (neg, ds) =>
      rw [hexp, expText, List.mem_cons, List.mem_cons] at hb
      rcases hb with rfl | rfl | hb
      · decide
      · cases neg <;> decide
      · exact le_of_mem_digits hb

/-! ### The text says which number it is -/

theorem digit_injective : Function.Injective digit := by
  intro a b
  revert a b
  decide

/-- Digits end where something else starts. -/
theorem digits_append_inj {a b : List (Fin 10)} {r r' : Bytes}
    (hr : ∀ c ∈ r.head?, isDigit c = false) (hr' : ∀ c ∈ r'.head?, isDigit c = false)
    (h : a.map digit ++ r = b.map digit ++ r') :
    a = b ∧ r = r' := by
  induction a generalizing b with
  | nil =>
    cases b with
    | nil => exact ⟨rfl, h⟩
    | cons d b =>
      rw [List.map_nil, List.nil_append, List.map_cons, List.cons_append] at h
      have := hr (digit d) (by rw [h]; rfl)
      rw [isDigit_digit] at this
      cases this
  | cons d a ih =>
    cases b with
    | nil =>
      rw [List.map_nil, List.nil_append, List.map_cons, List.cons_append] at h
      have := hr' (digit d) (by rw [← h]; rfl)
      rw [isDigit_digit] at this
      cases this
    | cons d' b =>
      simp only [List.map_cons, List.cons_append, List.cons.injEq] at h
      obtain ⟨hab, hrr⟩ := ih h.2
      exact ⟨by rw [digit_injective h.1, hab], hrr⟩

theorem expText_head (exp : Option (Bool × List (Fin 10))) :
    ∀ c ∈ (expText exp).head?, isDigit c = false := by
  match exp with
  | none => exact nofun
  | some (neg, ds) =>
    intro c hc
    cases hc
    decide

theorem fracText_head (frac : List (Fin 10)) (exp : Option (Bool × List (Fin 10))) :
    ∀ c ∈ (fracText frac ++ expText exp).head?, isDigit c = false := by
  cases frac with
  | nil => exact expText_head exp
  | cons d ds =>
    intro c hc
    cases hc
    decide

theorem expText_injective : Function.Injective expText := by
  intro a b h
  match a, b with
  | none, none => rfl
  | none, some (neg, ds) => cases h
  | some (neg, ds), none => cases h
  | some (neg, ds), some (neg', ds') =>
    simp only [expText, List.cons.injEq, true_and] at h
    have hneg : neg = neg' := by
      have hch := h.1
      revert hch
      cases neg <;> cases neg' <;> decide
    rw [hneg, List.map_injective_iff.2 digit_injective h.2]

theorem fracText_append_inj {a b : List (Fin 10)} {e e' : Option (Bool × List (Fin 10))}
    (h : fracText a ++ expText e = fracText b ++ expText e') : a = b ∧ e = e' := by
  cases a with
  | nil =>
    cases b with
    | nil => exact ⟨rfl, expText_injective h⟩
    | cons d b =>
      have hmem : ch '.' ∈ expText e := by
        rw [fracText, List.nil_append] at h
        rw [h]
        exact List.mem_cons_self
      exact absurd hmem (point_notMem_expText e)
  | cons d a =>
    cases b with
    | nil =>
      have hmem : ch '.' ∈ expText e' := by
        rw [fracText, fracText, List.nil_append] at h
        rw [← h]
        exact List.mem_cons_self
      exact absurd hmem (point_notMem_expText e')
    | cons d' b =>
      simp only [fracText, List.cons_append, List.cons.injEq, true_and] at h
      obtain ⟨hab, he⟩ := digits_append_inj (expText_head e) (expText_head e') h
      exact ⟨hab, expText_injective he⟩

theorem sign_append_inj {neg neg' : Bool} {x y : Decimal} {r r' : Bytes}
    (h : (if neg then [ch '-'] else []) ++ (x.int.map digit ++ r)
      = (if neg' then [ch '-'] else []) ++ (y.int.map digit ++ r')) :
    neg = neg' ∧ x.int.map digit ++ r = y.int.map digit ++ r' := by
  have hhead : ∀ (x : Decimal) (r l : Bytes), x.int.map digit ++ r ≠ ch '-' :: l := by
    intro x r l h
    have hne : ∀ d, digit d ≠ ch '-' := by decide
    rcases x.int_ok with hint | ⟨d, ds, hint, -⟩
    · rw [hint] at h
      exact hne 0 (List.cons.inj h).1
    · rw [hint] at h
      exact hne d (List.cons.inj h).1
  cases neg <;> cases neg'
  · exact ⟨rfl, h⟩
  · exact absurd h (hhead x r _)
  · exact absurd h.symm (hhead y r' _)
  · exact ⟨rfl, (List.cons.inj h).2⟩

theorem text_injective : Function.Injective text := by
  intro x y h
  simp only [text, List.append_assoc] at h
  obtain ⟨hneg, h⟩ := sign_append_inj h
  obtain ⟨hint, h⟩ := digits_append_inj (fracText_head x.frac x.exp) (fracText_head y.frac y.exp) h
  obtain ⟨hfrac, hexp⟩ := fracText_append_inj h
  obtain ⟨neg, int, frac, exp, h1, h2⟩ := x
  obtain ⟨neg', int', frac', exp', h1', h2'⟩ := y
  cases hneg
  cases hint
  cases hfrac
  cases hexp
  rfl

end Decimal

end Crow

end AetherGuard
