import Mathlib.Tactic

/-!
# The numbers of `strtod`

`strtod` skips blanks, takes a sign, and reads the longest text that is a number: `inf` or `nan` in
any letter case, a hexadecimal number after `0x`, or a decimal number. What stands behind the number
does not matter. It finds a number exactly where a digit, a point with a digit behind it, `inf` or
`nan` follows the blanks and the sign (`isSome_strtod_iff`), and on a text that is a decimal literal
as a whole it finds the literal's value (`strtod_text`).
-/

namespace AetherGuard

namespace Strtod

inductive Value
  | finite (x : ℚ)
  | inf (negative : Bool)
  | nan
  deriving DecidableEq

/-- `isspace` -/
def isBlank (c : Char) : Bool := c ∈ [' ', '\t', '\n', '\x0b', '\x0c', '\r']

/-- A notation for numbers: its digits, and the letter and the base of its exponent. -/
structure Radix where
  isDigit : Char → Bool
  digit : Char → ℕ
  base : ℕ
  isExponent : Char → Bool
  exponentBase : ℕ

def decimal : Radix where
  isDigit := Char.isDigit
  digit c := c.toNat - '0'.toNat
  base := 10
  isExponent c := c ∈ ['e', 'E']
  exponentBase := 10

def hexadecimal : Radix where
  isDigit c := c.isDigit || c.toLower ∈ ['a', 'b', 'c', 'd', 'e', 'f']
  digit c := if c.isDigit then c.toNat - '0'.toNat else c.toLower.toNat - 'a'.toNat + 10
  base := 16
  isExponent c := c ∈ ['p', 'P']
  exponentBase := 2

/-- Whether a minus sign was read, and the rest. -/
def takeSign : List Char → Bool × List Char
  | [] => (false, [])
  | c :: l => if c = '-' then (true, l) else if c = '+' then (false, l) else (false, c :: l)

namespace Radix

variable (r : Radix)

def number (digits : List Char) : ℕ := digits.foldl (fun n c => n * r.base + r.digit c) 0

/-- The exponent at the start of the text; its digits are decimal, and none is exponent 0. -/
def scanExponent : List Char → ℤ
  | [] => 0
  | c :: l =>
    if r.isExponent c then
      let (negative, l) := takeSign l
      let n := decimal.number (l.takeWhile Char.isDigit)
      if negative then -n else n
    else 0

/-- The digits after a point at the start of the text, and what follows them. -/
def scanFraction : List Char → List Char × List Char
  | [] => ([], [])
  | c :: l => if c = '.' then (l.takeWhile r.isDigit, l.dropWhile r.isDigit) else ([], c :: l)

/-- The value with these digits before and after the point, and this exponent. -/
def value (int frac : List Char) (exponent : ℤ) : ℚ :=
  r.number (int ++ frac) / r.base ^ frac.length * (r.exponentBase : ℚ) ^ exponent

/-- The number at the start of the text. -/
def scan (l : List Char) : Option ℚ :=
  let int := l.takeWhile r.isDigit
  let (frac, rest) := r.scanFraction (l.dropWhile r.isDigit)
  if int = [] ∧ frac = [] then none else some (r.value int frac (r.scanExponent rest))

end Radix

/-- The text starts with the word, in any letter case. -/
def startsWith (word l : List Char) : Bool := (l.take word.length).map Char.toLower = word

/-- What follows `0x`. -/
def afterHexMark : List Char → Option (List Char)
  | c :: x :: l => if c = '0' ∧ x ∈ ['x', 'X'] then some l else none
  | _ => none

/-- The number after the sign. -/
def unsigned (l : List Char) : Option Value :=
  if startsWith ['i', 'n', 'f'] l then some (.inf false)
  else if startsWith ['n', 'a', 'n'] l then some .nan
  else (((afterHexMark l).bind hexadecimal.scan).or (decimal.scan l)).map .finite

def Value.neg : Value → Value
  | .finite x => .finite (-x)
  | .inf negative => .inf !negative
  | .nan => .nan

/-- The number that `strtod` finds, if it finds one. -/
def strtod (l : List Char) : Option Value :=
  let (negative, l) := takeSign (l.dropWhile isBlank)
  (unsigned l).map fun v => if negative then v.neg else v

/-! ### Where there is a number -/

/-- A digit, or a point with a digit behind it. -/
def startsDecimal : List Char → Bool
  | [] => false
  | [c] => c.isDigit
  | c :: d :: _ => c.isDigit || c = '.' && d.isDigit

/-- After its blanks and its sign the text starts like a number. -/
def NumberStart (l : List Char) : Prop :=
  let l := (takeSign (l.dropWhile isBlank)).2
  startsDecimal l = true ∨ startsWith ['i', 'n', 'f'] l = true ∨ startsWith ['n', 'a', 'n'] l = true

instance (l : List Char) : Decidable (NumberStart l) := inferInstanceAs (Decidable (_ ∨ _ ∨ _))

theorem isSome_scan (r : Radix) (l : List Char) :
    (r.scan l).isSome = true ↔
      l.takeWhile r.isDigit ≠ [] ∨ (r.scanFraction (l.dropWhile r.isDigit)).1 ≠ [] := by
  rcases hscan : r.scanFraction (l.dropWhile r.isDigit) with ⟨frac, rest⟩
  simp only [Radix.scan, hscan]
  split_ifs with hnone
  · simp [hnone]
  · simpa using not_and_or.1 hnone

theorem isSome_scan_decimal (l : List Char) :
    (decimal.scan l).isSome = true ↔ startsDecimal l = true := by
  rw [isSome_scan]
  cases l with
  | nil => simp [Radix.scanFraction, startsDecimal]
  | cons c l =>
    by_cases hc : c.isDigit = true
    · have hstart : startsDecimal (c :: l) = true := by cases l <;> simp [startsDecimal, hc]
      simp [decimal, hc, hstart]
    · -- no digit first: only a point with a digit behind it is left
      have hdrop : (c :: l).dropWhile decimal.isDigit = c :: l := by simp [decimal, hc]
      have htake : (c :: l).takeWhile decimal.isDigit = [] := by simp [decimal, hc]
      rw [hdrop, htake]
      by_cases hp : c = '.'
      · cases l with
        | nil => simp [Radix.scanFraction, startsDecimal, hp]
        | cons d l =>
          by_cases hd : d.isDigit = true <;>
            simp [Radix.scanFraction, startsDecimal, decimal, hp, hd]
      · cases l <;> simp [Radix.scanFraction, startsDecimal, hp, hc]

theorem startsDecimal_of_afterHexMark {l rest : List Char} (h : afterHexMark l = some rest) :
    startsDecimal l = true := by
  rcases l with _ | ⟨c, _ | ⟨x, l⟩⟩
  · cases h
  · cases h
  · simp only [afterHexMark] at h
    split_ifs at h with hmark
    rw [hmark.1]
    rfl

theorem isSome_unsigned_iff (l : List Char) :
    (unsigned l).isSome = true ↔ startsDecimal l = true ∨ startsWith ['i', 'n', 'f'] l = true
      ∨ startsWith ['n', 'a', 'n'] l = true := by
  unfold unsigned
  split_ifs with hinf hnan
  · simp [hinf]
  · simp [hnan]
  · rw [Option.isSome_map, Option.isSome_or, Bool.or_eq_true, isSome_scan_decimal]
    have hhex : ((afterHexMark l).bind hexadecimal.scan).isSome = true →
        startsDecimal l = true := by
      intro hsome
      obtain ⟨v, hv⟩ := Option.isSome_iff_exists.1 hsome
      obtain ⟨rest, hrest, -⟩ := Option.bind_eq_some_iff.1 hv
      exact startsDecimal_of_afterHexMark hrest
    simp only [hinf, hnan, Bool.false_eq_true, or_false]
    exact or_iff_right_of_imp hhex

/-- `strtod` finds a number exactly where the text starts like one. -/
theorem isSome_strtod_iff (l : List Char) : (strtod l).isSome = true ↔ NumberStart l := by
  unfold strtod NumberStart
  rw [Option.isSome_map]
  exact isSome_unsigned_iff _

/-! ### Decimal literals -/

/-- An exponent: its letter, its sign and its digits. -/
structure Exponent where
  letter : Char
  sign : List Char
  digits : List Char
  letter_mem : letter ∈ ['e', 'E']
  sign_mem : sign ∈ [[], ['+'], ['-']]
  digits_isDigit : ∀ c ∈ digits, c.isDigit = true
  digits_ne_nil : digits ≠ []

/-- A text that is a decimal number, blanks around it aside. -/
structure Literal where
  lead : List Char
  sign : List Char
  int : List Char
  point : Bool
  frac : List Char
  exponent : Option Exponent
  trail : List Char
  lead_blank : ∀ c ∈ lead, isBlank c = true
  sign_mem : sign ∈ [[], ['+'], ['-']]
  int_isDigit : ∀ c ∈ int, c.isDigit = true
  frac_isDigit : ∀ c ∈ frac, c.isDigit = true
  frac_of_point : point = false → frac = []
  digits_ne_nil : int ≠ [] ∨ frac ≠ []
  trail_blank : ∀ c ∈ trail, isBlank c = true

def Exponent.text (e : Exponent) : List Char := e.letter :: (e.sign ++ e.digits)

def signed (sign : List Char) (n : ℤ) : ℤ := if sign = ['-'] then -n else n

def Exponent.value (e : Exponent) : ℤ := signed e.sign (decimal.number e.digits)

namespace Literal

variable (d : Literal)

/-- What follows the digits. -/
def afterDigits : List Char := (d.exponent.elim [] Exponent.text) ++ d.trail

/-- What follows the sign. -/
def body : List Char := d.int ++ ((if d.point then '.' :: d.frac else []) ++ d.afterDigits)

def text : List Char := d.lead ++ (d.sign ++ d.body)

def value : ℚ :=
  let x := decimal.value d.int d.frac (d.exponent.elim 0 Exponent.value)
  if d.sign = ['-'] then -x else x

end Literal

/-- The next character, if there is one, does not meet `p`. -/
def Stops (p : Char → Bool) (l : List Char) : Prop := ∀ c ∈ l.head?, p c = false

@[simp] theorem stops_cons {p : Char → Bool} {c : Char} {l : List Char} :
    Stops p (c :: l) ↔ p c = false := by
  simp [Stops]

theorem takeWhile_append_of_stops {p : Char → Bool} {l rest : List Char} (hl : ∀ c ∈ l, p c = true)
    (hrest : Stops p rest) : (l ++ rest).takeWhile p = l ∧ (l ++ rest).dropWhile p = rest := by
  rw [List.takeWhile_append_of_pos hl, List.dropWhile_append_of_pos hl]
  cases rest with
  | nil => simp
  | cons c rest =>
    simp [stops_cons.1 hrest]

theorem scanFraction_of_stops (r : Radix) {l : List Char} (hl : Stops (fun c => c = '.') l) :
    r.scanFraction l = ([], l) := by
  cases l with
  | nil => rfl
  | cons c l =>
    simp only [stops_cons, decide_eq_false_iff_not] at hl
    rw [Radix.scanFraction, if_neg hl]

theorem stops_of_blank {p : Char → Bool} {l : List Char} (hl : ∀ c ∈ l, isBlank c = true)
    (hp : ∀ c, isBlank c = true → p c = false) : Stops p l := by
  intro c hc
  exact hp c (hl c (List.mem_of_mem_head? hc))

/-- What holds of no blank is checked on the six of them. -/
theorem eq_false_of_blank {p : Char → Bool}
    (hp : [' ', '\t', '\n', '\x0b', '\x0c', '\r'].all (fun c => !p c) = true) (c : Char)
    (hc : isBlank c = true) : p c = false := by
  rw [isBlank, decide_eq_true_eq] at hc
  have hnot := List.all_eq_true.1 hp c hc
  simpa using hnot

theorem isDigit_of_blank (c : Char) (h : isBlank c = true) : c.isDigit = false :=
  eq_false_of_blank (by decide) c h

theorem takeSign_append {sign l : List Char} (hs : sign ∈ [[], ['+'], ['-']])
    (hl : Stops (fun c => c = '-' ∨ c = '+') l) :
    takeSign (sign ++ l) = (decide (sign = ['-']), l) := by
  simp only [List.mem_cons, List.not_mem_nil, or_false] at hs
  rcases hs with rfl | rfl | rfl
  · cases l with
    | nil => rfl
    | cons c l =>
      simp only [stops_cons, decide_eq_false_iff_not, not_or] at hl
      simp [takeSign, hl]
  · rfl
  · rfl

theorem stops_sign_of_isDigit {l : List Char} (hl : ∀ c ∈ l, c.isDigit = true) (hne : l ≠ [])
    (rest : List Char) : Stops (fun c => c = '-' ∨ c = '+') (l ++ rest) := by
  obtain ⟨d, l, rfl⟩ := List.exists_cons_of_ne_nil hne
  have hd := hl d List.mem_cons_self
  rw [List.cons_append, stops_cons, decide_eq_false_iff_not]
  rintro (rfl | rfl) <;> simp at hd

theorem Exponent.scan (e : Exponent) {rest : List Char} (hrest : Stops Char.isDigit rest) :
    decimal.scanExponent (e.text ++ rest) = e.value := by
  have hletter : decimal.isExponent e.letter = true := by
    have := e.letter_mem
    simpa [decimal] using this
  have hsign :=
    takeSign_append e.sign_mem (stops_sign_of_isDigit e.digits_isDigit e.digits_ne_nil rest)
  have hdigits := (takeWhile_append_of_stops e.digits_isDigit hrest).1
  rw [Exponent.text, List.cons_append, List.append_assoc, Radix.scanExponent, if_pos hletter, hsign,
    Exponent.value, signed]
  simp [hdigits]

namespace Literal

variable (d : Literal)

theorem stops_trail (p : Char → Bool) (hp : ∀ c, isBlank c = true → p c = false) :
    Stops p d.trail :=
  stops_of_blank d.trail_blank hp

/-- What follows the digits starts with the exponent's letter or a blank. -/
theorem stops_afterDigits (p : Char → Bool) (he : p 'e' = false) (hE : p 'E' = false)
    (hp : ∀ c, isBlank c = true → p c = false) : Stops p d.afterDigits := by
  unfold afterDigits
  cases d.exponent with
  | none => exact d.stops_trail p hp
  | some e =>
    have hmem := e.letter_mem
    simp only [List.mem_cons, List.not_mem_nil, or_false] at hmem
    rw [Option.elim_some, Exponent.text, List.cons_append, stops_cons]
    rcases hmem with h | h <;> rw [h] <;> assumption

theorem scanExponent_afterDigits :
    decimal.scanExponent d.afterDigits = d.exponent.elim 0 Exponent.value := by
  unfold afterDigits
  cases d.exponent with
  | none =>
    have hstop := d.stops_trail decimal.isExponent (eq_false_of_blank (by decide))
    show decimal.scanExponent d.trail = 0
    cases htrail : d.trail with
    | nil => rfl
    | cons c l =>
      have hc := hstop c (by simp [htrail])
      rw [Radix.scanExponent, if_neg (by simp [hc])]
  | some e => exact e.scan (d.stops_trail Char.isDigit isDigit_of_blank)

theorem scan_body : decimal.scan d.body =
    some (decimal.value d.int d.frac (d.exponent.elim 0 Exponent.value)) := by
  have hafter := d.stops_afterDigits Char.isDigit (by decide) (by decide) isDigit_of_blank
  have hne : ¬ (d.int = [] ∧ d.frac = []) := fun h => d.digits_ne_nil.elim (· h.1) (· h.2)
  have hexp := d.scanExponent_afterDigits
  -- with the point or without it, the scan splits the body where it was put together
  have hsplit : ∃ rest, d.body.takeWhile decimal.isDigit = d.int ∧
      d.body.dropWhile decimal.isDigit = rest ∧
      decimal.scanFraction rest = (d.frac, d.afterDigits) := by
    unfold body
    cases hpoint : d.point with
    | false =>
      obtain ⟨hint, hrest⟩ := takeWhile_append_of_stops d.int_isDigit hafter
      refine ⟨d.afterDigits, hint, hrest, ?_⟩
      rw [d.frac_of_point hpoint]
      exact scanFraction_of_stops decimal
        (d.stops_afterDigits _ (by decide) (by decide) (eq_false_of_blank (by decide)))
    | true =>
      have hstop : Stops Char.isDigit ('.' :: d.frac ++ d.afterDigits) := stops_cons.2 (by decide)
      obtain ⟨hint, hrest⟩ := takeWhile_append_of_stops d.int_isDigit hstop
      obtain ⟨hfrac, hrest'⟩ := takeWhile_append_of_stops d.frac_isDigit hafter
      refine ⟨_, hint, hrest, ?_⟩
      rw [List.cons_append, Radix.scanFraction, if_pos rfl]
      exact Prod.ext hfrac hrest'
  obtain ⟨rest, hint, hrest, hfrac⟩ := hsplit
  simp only [Radix.scan, hint, hrest, hfrac, hexp, if_neg hne]

end Literal

def digits : List Char := ['0', '1', '2', '3', '4', '5', '6', '7', '8', '9']

theorem mem_digits {c : Char} (h : c.isDigit = true) : c ∈ digits := by
  have hrange : 48 ≤ c.toNat ∧ c.toNat ≤ 57 := by
    simpa [Char.isDigit, UInt32.le_iff_toNat_le] using h
  have hc := Char.ofNat_toNat c
  generalize c.toNat = n at hrange hc
  obtain ⟨hlow, hhigh⟩ := hrange
  subst hc
  interval_cases n <;> decide

/-- Every character of a literal. -/
def alphabet : List Char :=
  [' ', '\t', '\n', '\x0b', '\x0c', '\r'] ++ digits ++ ['+', '-', '.', 'e', 'E']

theorem mem_alphabet_of_isDigit {c : Char} (h : c.isDigit = true) : c ∈ alphabet :=
  List.mem_append_left _ (List.mem_append_right _ (mem_digits h))

theorem mem_alphabet_of_isBlank {c : Char} (h : isBlank c = true) : c ∈ alphabet :=
  List.mem_append_left _ (List.mem_append_left _ (by simpa [isBlank] using h))

theorem mem_alphabet_of_sign {sign : List Char} (hs : sign ∈ [[], ['+'], ['-']]) {c : Char}
    (hc : c ∈ sign) : c ∈ alphabet := by
  simp only [List.mem_cons, List.not_mem_nil, or_false] at hs
  rcases hs with rfl | rfl | rfl
  · cases hc
  · rw [List.mem_singleton.1 hc]
    decide
  · rw [List.mem_singleton.1 hc]
    decide

theorem Exponent.mem_alphabet (e : Exponent) : ∀ c ∈ e.text, c ∈ alphabet := by
  intro c hc
  simp only [Exponent.text, List.mem_cons, List.mem_append] at hc
  rcases hc with rfl | hc | hc
  · have hmem := e.letter_mem
    simp only [List.mem_cons, List.not_mem_nil, or_false] at hmem
    rcases hmem with h | h <;> rw [h] <;> decide
  · exact mem_alphabet_of_sign e.sign_mem hc
  · exact mem_alphabet_of_isDigit (e.digits_isDigit c hc)

namespace Literal

variable (d : Literal)

theorem mem_alphabet : ∀ c ∈ d.text, c ∈ alphabet := by
  intro c hc
  simp only [text, body, afterDigits, List.mem_append] at hc
  rcases hc with hc | hc | hc | hc | hc | hc
  · exact mem_alphabet_of_isBlank (d.lead_blank c hc)
  · exact mem_alphabet_of_sign d.sign_mem hc
  · exact mem_alphabet_of_isDigit (d.int_isDigit c hc)
  · split_ifs at hc
    · rcases List.mem_cons.1 hc with rfl | hc
      · decide
      · exact mem_alphabet_of_isDigit (d.frac_isDigit c hc)
    · cases hc
  · cases he : d.exponent with
    | none => simp [he] at hc
    | some e => exact e.mem_alphabet c (by simpa [he] using hc)
  · exact mem_alphabet_of_isBlank (d.trail_blank c hc)

/-- The body starts with a digit or a point. -/
theorem exists_body : ∃ c l, d.body = c :: l ∧ c ∈ digits ++ ['.'] := by
  unfold body
  cases hint : d.int with
  | cons c l =>
    refine ⟨c, _, rfl, List.mem_append_left _ (mem_digits (d.int_isDigit c ?_))⟩
    simp [hint]
  | nil =>
    have hpoint : d.point = true := by
      by_contra hno
      have hfrac := d.frac_of_point (by simpa using hno)
      exact d.digits_ne_nil.elim (· hint) (· hfrac)
    exact ⟨'.', d.frac ++ d.afterDigits, by simp [hpoint], by decide⟩

theorem stops_body {p : Char → Bool} (hp : ∀ c ∈ digits ++ ['.'], p c = false) :
    Stops p d.body := by
  obtain ⟨c, l, hbody, hc⟩ := d.exists_body
  rw [hbody, stops_cons]
  exact hp c hc

theorem unsigned_body : unsigned d.body =
    some (.finite (decimal.value d.int d.frac (d.exponent.elim 0 Exponent.value))) := by
  obtain ⟨c, l, hbody, hc⟩ := d.exists_body
  have hword : ∀ x word, x ∉ (digits ++ ['.']).map Char.toLower →
      startsWith (x :: word) d.body = false := by
    intro x word hx
    rw [hbody, startsWith, decide_eq_false_iff_not]
    intro heq
    have hhead : c.toLower = x := by
      simp only [List.length_cons, List.take_succ_cons, List.map_cons, List.cons.injEq] at heq
      exact heq.1
    exact hx (hhead ▸ List.mem_map_of_mem hc)
  have hhex : afterHexMark d.body = none := by
    have hmem : ∀ c ∈ d.body, c ∈ alphabet := fun c hc =>
      d.mem_alphabet c (List.mem_append_right _ (List.mem_append_right _ hc))
    rw [hbody] at hmem ⊢
    cases l with
    | nil => rfl
    | cons x l =>
      have hx := hmem x (by simp)
      rw [afterHexMark, if_neg]
      rintro ⟨-, hmark⟩
      simp only [List.mem_cons, List.not_mem_nil, or_false] at hmark
      rcases hmark with rfl | rfl <;> exact absurd hx (by decide)
  rw [unsigned, hword 'i' _ (by decide), hword 'n' _ (by decide), hhex, d.scan_body]
  rfl

/-- On a decimal literal `strtod` finds the literal's value. -/
theorem strtod_text : strtod d.text = some (.finite d.value) := by
  have hblank : Stops isBlank (d.sign ++ d.body) := by
    have hs := d.sign_mem
    simp only [List.mem_cons, List.not_mem_nil, or_false] at hs
    rcases hs with h | h | h <;> rw [h]
    · exact d.stops_body (by simp [digits, isBlank])
    · exact stops_cons.2 (by decide)
    · exact stops_cons.2 (by decide)
  have hsign : Stops (fun c => c = '-' ∨ c = '+') d.body :=
    d.stops_body (by simp [digits])
  have hdrop : d.text.dropWhile isBlank = d.sign ++ d.body :=
    (takeWhile_append_of_stops d.lead_blank hblank).2
  rw [strtod, hdrop, takeSign_append d.sign_mem hsign]
  simp only [d.unsigned_body, Option.map_some, Literal.value]
  by_cases hneg : d.sign = ['-'] <;> simp [hneg, Value.neg]

end Literal

end Strtod

end AetherGuard
