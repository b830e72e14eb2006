/-
Rounding a rational to a binary floating-point format: to nearest, ties to
even, with gradual underflow. The last lemmas say when the result is an
integer (`nearest_integer_iff`), when it is zero (`nearest_eq_zero_iff`), and
when there is none because the number is too large or too small for the
format (`round_eq_none_iff`).
-/
import Mathlib.Algebra.Order.Floor.Ring
import Mathlib.Algebra.Order.Group.Unbundled.Int
import Mathlib.Data.Int.Log
import Mathlib.Data.Rat.Floor
import Mathlib.Tactic.Linarith
import Mathlib.Tactic.Positivity

namespace RestifyCapl.Lib

variable {x y : ℚ} {k : ℤ}

-- =============================================================== to integers

/-- The nearest integer, and the even one of two. -/
def roundEven (y : ℚ) : ℤ :=
  if y - ⌊y⌋ < 1 / 2 then ⌊y⌋
  else if 1 / 2 < y - ⌊y⌋ then ⌊y⌋ + 1
  else if ⌊y⌋ % 2 = 0 then ⌊y⌋ else ⌊y⌋ + 1

theorem abs_sub_roundEven_le (y : ℚ) : |y - roundEven y| ≤ 1 / 2 := by
  have hlow := Int.floor_le y
  have hhigh := Int.lt_floor_add_one y
  unfold roundEven
  split
  next h =>
    rw [abs_le]
    constructor <;> linarith
  next h =>
    split
    next h' =>
      push_cast
      rw [abs_le]
      constructor <;> linarith
    next h' =>
      split
      next =>
        rw [abs_le]
        constructor <;> linarith
      next =>
        push_cast
        rw [abs_le]
        constructor <;> linarith

/-- An even integer at most one half away is the nearest. -/
theorem roundEven_of_even (hk : k % 2 = 0) (h : |y - k| ≤ 1 / 2) : roundEven y = k := by
  rw [abs_le] at h
  obtain ⟨hlow, hhigh⟩ := h
  by_cases hge : (k : ℚ) ≤ y
  · have hfloor : ⌊y⌋ = k := by
      rw [Int.floor_eq_iff]
      constructor <;> linarith
    unfold roundEven
    rw [hfloor]
    by_cases hlt : y - k < 1 / 2
    · rw [if_pos hlt]
    · rw [if_neg hlt, if_neg (by linarith), if_pos hk]
  · have hfloor : ⌊y⌋ = k - 1 := by
      rw [Int.floor_eq_iff]
      push_cast
      constructor <;> linarith
    unfold roundEven
    rw [hfloor]
    push_cast
    rw [if_neg (by linarith)]
    by_cases hgt : 1 / 2 < y - (k - 1)
    · rw [if_pos hgt]
      omega
    · rw [if_neg hgt, if_neg (by omega)]
      omega

-- ================================================================ to formats

/-- A binary format: the bits of a significand, the exponent of the smallest
spacing, and the exponent all numbers stay below. -/
structure Format where
  precision : Nat
  minExp : Int
  maxExp : Int

namespace Format

variable {F : Format}

/-- The exponent of the spacing at a number. -/
def ulpExp (F : Format) (x : ℚ) : ℤ :=
  max (Int.log 2 |x| - (F.precision - 1)) F.minExp

/-- The spacing of the format at a number. -/
def ulp (F : Format) (x : ℚ) : ℚ := 2 ^ F.ulpExp x

/-- The multiple of the spacing that is nearest, the even one of two. -/
def nearest (F : Format) (x : ℚ) : ℚ := roundEven (x / F.ulp x) * F.ulp x

/-- What is at least this large is rounded past all numbers. -/
def limit (F : Format) : ℚ := 2 ^ F.maxExp - 2 ^ (F.maxExp - F.precision - 1)

/-- The nearest number, unless the result would be infinite, or zero for a
number that is not. -/
def round (F : Format) (x : ℚ) : Option ℚ :=
  if F.limit ≤ |x| then none
  else if x ≠ 0 ∧ F.nearest x = 0 then none
  else some (F.nearest x)

theorem ulp_pos (F : Format) (x : ℚ) : 0 < F.ulp x := zpow_pos (by norm_num) _

/-- The nearest number is within half a spacing. -/
theorem abs_sub_nearest_le (F : Format) (x : ℚ) :
    |x - F.nearest x| ≤ F.ulp x / 2 := by
  have hpos := F.ulp_pos x
  have hround := abs_sub_roundEven_le (x / F.ulp x)
  have hsplit : x - F.nearest x
      = (x / F.ulp x - roundEven (x / F.ulp x)) * F.ulp x := by
    unfold nearest
    rw [sub_mul, div_mul_cancel₀ x hpos.ne']
  rw [hsplit, abs_mul, abs_of_pos hpos]
  calc |x / F.ulp x - roundEven (x / F.ulp x)| * F.ulp x
      ≤ 1 / 2 * F.ulp x := mul_le_mul_of_nonneg_right hround hpos.le
    _ = F.ulp x / 2 := by ring

/-- A multiple of twice the spacing at most half a spacing away is the
nearest. -/
theorem nearest_of_even {m : ℤ} (hm : m % 2 = 0) (h : |x - m * F.ulp x| ≤ F.ulp x / 2) :
    F.nearest x = m * F.ulp x := by
  have hpos := F.ulp_pos x
  have hhalf : |x / F.ulp x - m| ≤ 1 / 2 := by
    have hsplit : x / F.ulp x - m = (x - m * F.ulp x) / F.ulp x := by
      rw [sub_div, mul_div_cancel_right₀ _ hpos.ne']
    rw [hsplit, abs_div, abs_of_pos hpos, div_le_iff₀ hpos]
    linarith
  unfold nearest
  rw [roundEven_of_even hm hhalf]

/-- Where the spacing is below one, the nearest number is an integer exactly
when an integer is within half a spacing. -/
theorem nearest_integer_iff (hexp : F.ulpExp x < 0) :
    (∃ k : ℤ, F.nearest x = k) ↔ ∃ k : ℤ, |x - k| ≤ F.ulp x / 2 := by
  constructor
  · rintro ⟨k, hk⟩
    exact ⟨k, hk ▸ F.abs_sub_nearest_le x⟩
  · rintro ⟨k, hk⟩
    obtain ⟨j, hj⟩ : ∃ j : ℕ, F.ulpExp x = -((j : ℤ) + 1) :=
      ⟨(-F.ulpExp x - 1).toNat, by omega⟩
    have hunit : (2 : ℚ) ^ (j + 1) * F.ulp x = 1 := by
      unfold ulp
      rw [hj, zpow_neg, ← Nat.cast_succ, zpow_natCast]
      exact mul_inv_cancel₀ (by positivity)
    have hmul : ((k * 2 ^ (j + 1) : ℤ) : ℚ) * F.ulp x = k := by
      push_cast
      rw [mul_assoc, hunit, mul_one]
    refine ⟨k, ?_⟩
    rw [nearest_of_even (m := k * 2 ^ (j + 1)) ?_ (by rwa [hmul]), hmul]
    rw [pow_succ, ← mul_assoc]
    exact Int.mul_emod_left _ 2

/-- An integer is then a number of the format. -/
theorem nearest_intCast {k : ℤ} (hexp : F.ulpExp k < 0) : F.nearest k = k := by
  have hpos := F.ulp_pos k
  obtain ⟨k', hk'⟩ := (nearest_integer_iff hexp).mpr ⟨k, by
    rw [sub_self, abs_zero]
    positivity⟩
  have hulp : F.ulp k < 1 := zpow_lt_one_of_neg₀ one_lt_two hexp
  have hclose : |((k - k' : ℤ) : ℚ)| < 1 := by
    have hle := F.abs_sub_nearest_le k
    rw [hk'] at hle
    push_cast
    linarith
  rw [← Int.cast_abs] at hclose
  have hzero : k - k' = 0 := Int.abs_lt_one_iff.mp (by exact_mod_cast hclose)
  rw [hk', sub_eq_zero.mp hzero]

theorem ulpExp_eq (F : Format) (x : ℚ) :
    F.ulpExp x = Int.log 2 |x| - (F.precision - 1) ∧ F.minExp < F.ulpExp x
      ∨ F.ulpExp x = F.minExp := by
  unfold ulpExp
  rcases le_or_gt (Int.log 2 |x| - (F.precision - 1)) F.minExp with h | h
  · exact Or.inr (max_eq_right h)
  · left
    rw [max_eq_left h.le]
    exact ⟨rfl, h⟩

/-- What is at most half the smallest spacing is rounded to zero. -/
theorem nearest_eq_zero_iff (hp : 0 < F.precision) (hx : x ≠ 0) :
    F.nearest x = 0 ↔ |x| ≤ 2 ^ (F.minExp - 1) := by
  have hpos := F.ulp_pos x
  have hzero : F.nearest x = 0 ↔ |x| ≤ F.ulp x / 2 := by
    constructor
    · intro h
      have hle := F.abs_sub_nearest_le x
      rwa [h, sub_zero] at hle
    · intro h
      rw [nearest_of_even (m := 0) rfl (by simpa using h)]
      simp
  rw [hzero]
  rcases F.ulpExp_eq x with ⟨hexp, hlt⟩ | hexp
  · have hle : F.ulp x ≤ |x| := by
      refine le_trans ?_ (Int.zpow_log_le_self one_lt_two (abs_pos.mpr hx))
      unfold ulp
      rw [hexp]
      exact zpow_le_zpow_right₀ (by norm_num) (by omega)
    have hmin : (2 : ℚ) ^ (F.minExp - 1) < F.ulp x :=
      zpow_lt_zpow_right₀ (by norm_num) (by omega)
    refine iff_of_false ?_ ?_ <;> linarith
  · unfold ulp
    rw [hexp, zpow_sub_one₀ (by norm_num)]
    rfl

theorem round_eq_none_iff (hp : 0 < F.precision) :
    F.round x = none ↔ F.limit ≤ |x| ∨ x ≠ 0 ∧ |x| ≤ 2 ^ (F.minExp - 1) := by
  unfold round
  by_cases hlimit : F.limit ≤ |x|
  · rw [if_pos hlimit]
    exact iff_of_true rfl (Or.inl hlimit)
  · rw [if_neg hlimit]
    by_cases hx : x = 0
    · rw [if_neg (fun h => h.1 hx)]
      refine iff_of_false nofun ?_
      rintro (h | h)
      · exact hlimit h
      · exact h.1 hx
    · have hiff := nearest_eq_zero_iff hp hx
      by_cases hzero : F.nearest x = 0
      · rw [if_pos ⟨hx, hzero⟩]
        exact iff_of_true rfl (Or.inr ⟨hx, hiff.mp hzero⟩)
      · rw [if_neg (fun h => hzero h.2)]
        refine iff_of_false nofun ?_
        rintro (h | h)
        · exact hlimit h
        · exact hzero (hiff.mpr h.2)

theorem round_eq_some {v : ℚ} (h : F.round x = some v) : v = F.nearest x := by
  unfold round at h
  split at h
  next => cases h
  next =>
    split at h
    next => cases h
    next => exact (Option.some.inj h).symm

end Format

end RestifyCapl.Lib
