import Mathlib.Tactic

/-!
# JSON documents and accesses that throw

A document, and the accesses of a library that throws: to a member of what is no object, to a member
that is not there, and to a value as what it is not. `none` is the exception, or that the access is
undefined.

A second library adds what is missing: the member or the element asked for becomes a null, and a
null becomes the object or the list that it is taken for. It throws on every other value of the
wrong type, and says what kind of error it was.
-/

namespace AetherGuard

/-- A JSON document; its numbers are of type `N`. -/
inductive Json (N : Type*)
  | null
  | bool (b : Bool)
  | number (n : N)
  | string (s : String)
  | list (l : List (Json N))
  | object (fields : List (String × Json N))

namespace Json

variable {N : Type*} {j v : Json N} {key : String}

/-- The member `key`. -/
def get (j : Json N) (key : String) : Option (Json N) :=
  match j with
  | .object fields => fields.lookup key
  | _ => none

/-- Whether there is a member `key`. A list is searched as an object is, but the keys of its
elements were never set: only for the empty list is the answer defined. -/
def has (j : Json N) (key : String) : Option Bool :=
  match j with
  | .object fields => some (fields.lookup key).isSome
  | .list [] => some false
  | _ => none

/-- The value of a string. -/
def s : Json N → Option String
  | .string s => some s
  | _ => none

/-- The value of a number. -/
def d : Json N → Option N
  | .number n => some n
  | _ => none

/-- The element with index `i` of a list. -/
def nth (i : ℕ) : Json N → Option (Json N)
  | .list l => l[i]?
  | _ => none

/-- What a loop over the value goes through: the elements of a list, or the values of an object. -/
def elements : Json N → Option (List (Json N))
  | .list l => some l
  | .object fields => some (fields.map Prod.snd)
  | _ => none

/-- The string at the end of a path of keys. -/
def stringAt (j : Json N) : List String → Option String
  | [] => j.s
  | key :: path => (j.get key).bind (stringAt · path)

theorem s_eq_some_iff {t : String} : v.s = some t ↔ v = .string t := by
  cases v <;> simp [s]

theorem d_eq_some_iff {n : N} : v.d = some n ↔ v = .number n := by
  cases v <;> simp [d]

theorem get_eq_some_iff : j.get key = some v ↔ ∃ fields, j = .object fields ∧
    fields.lookup key = some v := by
  cases j <;> simp [get]

/-- A member read as a string, or as a number. -/
theorem bind_get_eq_some_iff {β : Type*} {f : Json N → Option β} {y : β} :
    (j.get key).bind f = some y ↔ ∃ fields v, j = .object fields ∧ fields.lookup key = some v ∧
      f v = some y := by
  simp only [Option.bind_eq_some_iff, get_eq_some_iff]
  constructor
  · rintro ⟨v, ⟨fields, rfl, hv⟩, hy⟩
    exact ⟨fields, v, rfl, hv, hy⟩
  · rintro ⟨fields, v, rfl, hv, hy⟩
    exact ⟨v, ⟨fields, rfl, hv⟩, hy⟩

/-! ### Accesses that add what is missing -/

inductive Error
  | parseError
  | typeError
  | outOfRange
  deriving DecidableEq

/-- Whether there is a member `key`; only an object has members. -/
def contains (j : Json N) (key : String) : Bool :=
  match j with
  | .object fields => (fields.lookup key).isSome
  | _ => false

def isEmpty : Json N → Bool
  | .null => true
  | .list l => l.isEmpty
  | .object fields => fields.isEmpty
  | _ => false

/-- The member `key`. -/
def member (key : String) : Json N → Except Error (Json N)
  | .object fields => .ok ((fields.lookup key).getD .null)
  | .null => .ok .null
  | _ => .error .typeError

/-- The element with index `i`. -/
def item (i : ℕ) : Json N → Except Error (Json N)
  | .list l => .ok (l.getD i .null)
  | .null => .ok .null
  | _ => .error .typeError

/-- The value as a string. -/
def text : Json N → Except Error String
  | .string s => .ok s
  | _ => .error .typeError

section Agree

variable {α : Type*} {f : Json N → Except Error α} {g : Json N → Option α}

/-- The exception of the first library is a type error of the second. -/
def orTypeError : Option α → Except Error α
  | some a => .ok a
  | none => .error .typeError

theorem text_eq (j : Json N) : j.text = orTypeError j.s := by
  cases j <;> rfl

/-- What cannot be made of a null is made of a member exactly when it is there. -/
theorem member_bind (hf : ∀ v, f v = orTypeError (g v)) (hnull : g .null = none) (j : Json N)
    (key : String) : (j.member key).bind f = orTypeError ((j.get key).bind g) := by
  cases j with
  | object fields =>
    show f ((fields.lookup key).getD .null) = orTypeError ((fields.lookup key).bind g)
    cases fields.lookup key with
    | none => exact (hf .null).trans (by rw [hnull]; rfl)
    | some v => exact hf v
  | null => exact (hf .null).trans (by rw [hnull]; rfl)
  | _ => rfl

theorem item_bind (hf : ∀ v, f v = orTypeError (g v)) (hnull : g .null = none) (j : Json N)
    (i : ℕ) : (j.item i).bind f = orTypeError ((j.nth i).bind g) := by
  cases j with
  | list l =>
    show f (l.getD i .null) = orTypeError (l[i]?.bind g)
    rw [List.getD_eq_getElem?_getD]
    cases l[i]? with
    | none => exact (hf .null).trans (by rw [hnull]; rfl)
    | some v => exact hf v
  | null => exact (hf .null).trans (by rw [hnull]; rfl)
  | _ => rfl

end Agree

theorem contains_eq (j : Json N) (key : String) : j.contains key = (j.get key).isSome := by
  cases j <;> rfl

end Json

end AetherGuard
