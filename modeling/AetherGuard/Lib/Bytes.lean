import Mathlib.Tactic

/-!
# Integers as bytes

The memory images of 16- and 32-bit integers on a host of either byte order, and the network order
of 32-bit words. Laying out a word in network order gives its bytes with the most significant
first on every host (`bytes32_htonl`), and reading them back gives the word (`ntohl_word32`); the
image of a 16-bit integer reads back on a host of the same order (`int16s_flatMap_bytes16`).
-/

namespace AetherGuard

/-- The order in which a host lays out the bytes of an integer. -/
inductive Endian
  | little
  | big
  deriving DecidableEq

/-- The bytes of a word, most significant first. -/
def be32 (x : UInt32) : List UInt8 :=
  [UInt8.ofNat (x.toNat / 2 ^ 24), UInt8.ofNat (x.toNat / 2 ^ 16), UInt8.ofNat (x.toNat / 2 ^ 8),
    UInt8.ofNat x.toNat]

/-- The word with these bytes, most significant first. -/
def ofBe32 : List UInt8 → UInt32
  | [a, b, c, d] =>
    UInt32.ofNat (a.toNat * 2 ^ 24 + b.toNat * 2 ^ 16 + c.toNat * 2 ^ 8 + d.toNat)
  | _ => 0

namespace Endian

/-- The memory image of a word. -/
def bytes32 : Endian → UInt32 → List UInt8
  | .big, x => be32 x
  | .little, x => (be32 x).reverse

/-- The word with this memory image. -/
def word32 : Endian → List UInt8 → UInt32
  | .big, l => ofBe32 l
  | .little, l => ofBe32 l.reverse

/-- The word whose image on this host is `x`'s bytes in network order. -/
def htonl (e : Endian) (x : UInt32) : UInt32 := e.word32 (be32 x)

/-- The word whose bytes in network order are `x`'s image on this host. -/
def ntohl (e : Endian) (x : UInt32) : UInt32 := ofBe32 (e.bytes32 x)

/-- The memory image of a 16-bit integer. -/
def bytes16 : Endian → Int16 → List UInt8
  | .big, x => [UInt8.ofNat (x.toUInt16.toNat / 2 ^ 8), UInt8.ofNat x.toUInt16.toNat]
  | .little, x => [UInt8.ofNat x.toUInt16.toNat, UInt8.ofNat (x.toUInt16.toNat / 2 ^ 8)]

/-- The 16-bit integer with bytes `a`, `b` in memory. -/
def int16 : Endian → UInt8 → UInt8 → Int16
  | .big, a, b => (UInt16.ofNat (a.toNat * 2 ^ 8 + b.toNat)).toInt16
  | .little, a, b => (UInt16.ofNat (b.toNat * 2 ^ 8 + a.toNat)).toInt16

/-- A memory area read as an array of 16-bit integers. -/
def int16s (e : Endian) : List UInt8 → List Int16
  | a :: b :: l => e.int16 a b :: int16s e l
  | _ => []

end Endian

theorem be32_length (x : UInt32) : (be32 x).length = 4 := rfl

theorem ofBe32_be32 (x : UInt32) : ofBe32 (be32 x) = x := by
  apply UInt32.toNat_inj.1
  have := x.toNat_lt
  simp only [be32, ofBe32, UInt8.toNat_ofNat', UInt32.toNat_ofNat']
  omega

theorem be32_ofBe32 {l : List UInt8} (h : l.length = 4) : be32 (ofBe32 l) = l := by
  obtain ⟨a, b, c, d, rfl⟩ : ∃ a b c d, l = [a, b, c, d] := by
    rcases l with _ | ⟨a, _ | ⟨b, _ | ⟨c, _ | ⟨d, _ | ⟨_, _⟩⟩⟩⟩⟩ <;> simp at h
    exact ⟨a, b, c, d, rfl⟩
  have ha := a.toNat_lt
  have hb := b.toNat_lt
  have hc := c.toNat_lt
  have hd := d.toNat_lt
  simp only [be32, ofBe32, UInt32.toNat_ofNat', List.cons.injEq, and_true, ← UInt8.toNat_inj,
    UInt8.toNat_ofNat']
  refine ⟨?_, ?_, ?_, ?_⟩ <;> omega

namespace Endian

variable (e : Endian)

theorem bytes32_word32 {l : List UInt8} (h : l.length = 4) : e.bytes32 (e.word32 l) = l := by
  cases e
  · simp only [bytes32, word32]
    rw [be32_ofBe32 (by simpa using h), List.reverse_reverse]
  · exact be32_ofBe32 h

theorem bytes32_htonl (x : UInt32) : e.bytes32 (e.htonl x) = be32 x :=
  e.bytes32_word32 (be32_length x)

theorem ntohl_word32 {l : List UInt8} (h : l.length = 4) : e.ntohl (e.word32 l) = ofBe32 l := by
  rw [ntohl, bytes32_word32 e h]

theorem bytes16_length (x : Int16) : (e.bytes16 x).length = 2 := by
  cases e <;> rfl

theorem int16s_bytes16_append (x : Int16) (l : List UInt8) :
    e.int16s (e.bytes16 x ++ l) = x :: e.int16s l := by
  have hx : x.toUInt16.toInt16 = x := by simp
  have hlt := x.toUInt16.toNat_lt
  cases e <;> simp only [bytes16, List.cons_append, List.nil_append, int16s, int16,
    List.cons.injEq, and_true, UInt8.toNat_ofNat']
  all_goals
    conv_rhs => rw [← hx]
    congr 1
    apply UInt16.toNat_inj.1
    rw [UInt16.toNat_ofNat']
    omega

theorem int16_toUInt16_toNat (a b : UInt8) :
    (little.int16 a b).toUInt16.toNat = a.toNat + 2 ^ 8 * b.toNat := by
  have ha := a.toNat_lt
  have hb := b.toNat_lt
  simp only [int16, UInt16.toUInt16_toInt16, UInt16.toNat_ofNat']
  omega

theorem word32_toNat (a b c d : UInt8) :
    (little.word32 [a, b, c, d]).toNat
      = a.toNat + 2 ^ 8 * b.toNat + 2 ^ 16 * c.toNat + 2 ^ 24 * d.toNat := by
  have ha := a.toNat_lt
  have hb := b.toNat_lt
  have hc := c.toNat_lt
  have hd := d.toNat_lt
  simp only [word32, List.reverse_cons, List.reverse_nil, List.nil_append, List.cons_append, ofBe32,
    UInt32.toNat_ofNat']
  omega

theorem int16s_flatMap_bytes16 : ∀ l : List Int16, e.int16s (l.flatMap e.bytes16) = l
  | [] => rfl
  | x :: l => by
    rw [List.flatMap_cons, int16s_bytes16_append, int16s_flatMap_bytes16 l]

theorem flatMap_bytes16_length (l : List Int16) : (l.flatMap e.bytes16).length = 2 * l.length := by
  induction l with
  | nil => rfl
  | cons x l ih => rw [List.flatMap_cons, List.length_append, bytes16_length, ih,
      List.length_cons]; omega

theorem bytes16_int16 (a b : UInt8) : e.bytes16 (e.int16 a b) = [a, b] := by
  have ha := a.toNat_lt
  have hb := b.toNat_lt
  cases e <;> simp only [bytes16, int16, UInt16.toUInt16_toInt16, UInt16.toNat_ofNat',
    List.cons.injEq, and_true, ← UInt8.toNat_inj, UInt8.toNat_ofNat']
  all_goals constructor <;> omega

/-- An area of whole integers is the image of the integers read from it. -/
theorem flatMap_bytes16_int16s : ∀ (n : ℕ) {l : List UInt8}, l.length = 2 * n →
    (e.int16s l).flatMap e.bytes16 = l ∧ (e.int16s l).length = n
  | 0, l, h => by
    rw [Nat.mul_zero, List.length_eq_zero_iff] at h
    subst h
    exact ⟨rfl, rfl⟩
  | n + 1, l, h => by
    obtain ⟨a, b, l, rfl⟩ : ∃ a b l', l = a :: b :: l' := by
      rcases l with _ | ⟨a, _ | ⟨b, l⟩⟩ <;> simp at h
      · omega
      · exact ⟨a, b, l, rfl⟩
    obtain ⟨h1, h2⟩ := flatMap_bytes16_int16s n (l := l) (by simp at h; omega)
    refine ⟨?_, by simp [int16s, h2]⟩
    rw [int16s, List.flatMap_cons, bytes16_int16, h1]
    rfl

end Endian

end AetherGuard
