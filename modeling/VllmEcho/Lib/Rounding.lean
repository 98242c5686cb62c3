import Mathlib

/-!
# Rounding to double precision

A nonnegative rational is rounded to 53 significant bits, to nearest with ties to even; exponents
are unbounded.  `IsRounding` collects what is used of this rounding.
-/

namespace VllmEcho.Lib

def roundEven (x : ℚ) : ℤ :=
  if Int.fract x < 1 / 2 ∨ (Int.fract x = 1 / 2 ∧ ⌊x⌋ % 2 = 0) then ⌊x⌋ else ⌊x⌋ + 1

def ulp (x : ℚ) : ℚ := 2 ^ (Int.log 2 x - 52)

def toFloat64 (x : ℚ) : ℚ := roundEven (x / ulp x) * ulp x

/-- A rounding of nonnegative numbers that is exact on the numbers of its format and on their halves
and otherwise off by at most half a unit of 53 bits. -/
structure IsRounding (fl : ℚ → ℚ) : Prop where
  idem : ∀ x, 0 ≤ x → fl (fl x) = fl x
  half : ∀ x, 0 ≤ x → fl x = x → fl (x / 2) = x / 2
  error : ∀ x, 0 ≤ x → |fl x - x| ≤ x / 2 ^ 53

theorem IsRounding.zero {fl : ℚ → ℚ} (hfl : IsRounding fl) : fl 0 = 0 := by
  have herror := hfl.error 0 le_rfl
  rw [sub_zero, zero_div] at herror
  exact abs_nonpos_iff.mp herror

/-! ## Double precision -/

variable {x : ℚ}

theorem roundEven_intCast (n : ℤ) : roundEven n = n := by
  simp [roundEven]

theorem abs_roundEven_sub_le (x : ℚ) : |roundEven x - x| ≤ 1 / 2 := by
  have hfract := Int.fract_add_floor x
  have hlt := Int.fract_lt_one x
  have hnonneg := Int.fract_nonneg x
  unfold roundEven
  split
  · rename_i hdown
    have hle : Int.fract x ≤ 1 / 2 := hdown.elim le_of_lt fun h => h.1.le
    rw [abs_le]
    constructor <;> linarith
  · rename_i hup
    have hge : 1 / 2 ≤ Int.fract x := not_lt.mp fun h => hup (Or.inl h)
    push_cast
    rw [abs_le]
    constructor <;> linarith

theorem ulp_pos (x : ℚ) : 0 < ulp x := by
  unfold ulp
  positivity

/-- A positive number lies between `2 ^ 52` and `2 ^ 53` units. -/
theorem div_ulp_mem (hx : 0 < x) : 2 ^ 52 ≤ x / ulp x ∧ x / ulp x < 2 ^ 53 := by
  have hlow := Int.zpow_log_le_self (b := 2) (by norm_num) hx
  have hhigh := Int.lt_zpow_succ_log_self (b := 2) (by norm_num) x
  have hsplit : ∀ k : ℤ, (2 : ℚ) ^ (Int.log 2 x + k) = 2 ^ (52 + k) * ulp x := by
    intro k
    rw [ulp, ← zpow_add₀ two_ne_zero]
    congr 1
    omega
  have hzero := hsplit 0
  have hone := hsplit 1
  norm_num at hzero hone hlow hhigh
  constructor
  · rw [le_div_iff₀ (ulp_pos x)]
    linarith
  · rw [div_lt_iff₀ (ulp_pos x)]
    linarith

theorem abs_toFloat64_sub_le (hx : 0 ≤ x) : |toFloat64 x - x| ≤ x / 2 ^ 53 := by
  rcases hx.eq_or_lt with rfl | hpos
  · simp [toFloat64, roundEven]
  have hulp := ulp_pos x
  have hround := abs_roundEven_sub_le (x / ulp x)
  have hunits := (div_ulp_mem hpos).1
  calc
    |toFloat64 x - x| = |(roundEven (x / ulp x) - x / ulp x) * ulp x| := by
      rw [toFloat64, sub_mul, div_mul_cancel₀ _ hulp.ne']
    _ = |roundEven (x / ulp x) - x / ulp x| * ulp x := by rw [abs_mul, abs_of_pos hulp]
    _ ≤ 1 / 2 * ulp x := mul_le_mul_of_nonneg_right hround hulp.le
    _ ≤ x / 2 ^ 53 := by
      rw [le_div_iff₀ hulp] at hunits
      linarith

theorem ulp_half (hx : 0 < x) : ulp (x / 2) = ulp x / 2 := by
  have hlog : Int.log 2 (x / 2) = Int.log 2 x - 1 := by
    apply eq_of_forall_le_iff
    intro k
    rw [← Int.zpow_le_iff_le_log (by norm_num) (half_pos hx), le_sub_iff_add_le,
      ← Int.zpow_le_iff_le_log (by norm_num) hx, le_div_iff₀ two_pos, Nat.cast_two,
      ← zpow_add_one₀ two_ne_zero]
  rw [ulp, hlog, show Int.log 2 x - 1 - 52 = Int.log 2 x - 52 - 1 by ring,
    zpow_sub_one₀ two_ne_zero]
  rfl

theorem toFloat64_half (hx : 0 ≤ x) : toFloat64 (x / 2) = toFloat64 x / 2 := by
  rcases hx.eq_or_lt with rfl | hpos
  · simp [toFloat64, roundEven]
  rw [toFloat64, ulp_half hpos, div_div_div_cancel_right₀ two_ne_zero, toFloat64, mul_div_assoc]

/-- A whole number of its own units is not changed. -/
theorem toFloat64_of_eq_mul {k : ℤ} (hk : x = k * ulp x) : toFloat64 x = x := by
  have hdiv : x / ulp x = k := (div_eq_iff (ulp_pos x).ne').mpr hk
  rw [toFloat64, hdiv, roundEven_intCast, ← hk]

theorem ulp_eq {k : ℤ} (hlow : 2 ^ 52 * 2 ^ k ≤ x) (hhigh : x < 2 ^ 53 * 2 ^ k) :
    ulp x = 2 ^ k := by
  have hpos : 0 < x := lt_of_lt_of_le (by positivity) hlow
  have hpow : ∀ n : ℕ, (2 : ℚ) ^ n * 2 ^ k = 2 ^ (n + k) := by
    intro n
    rw [zpow_add₀ two_ne_zero, zpow_natCast]
  rw [hpow] at hlow hhigh
  have hle := (Int.zpow_le_iff_le_log (b := 2) (by norm_num) hpos).mp (by exact_mod_cast hlow)
  have hlt := (Int.lt_zpow_iff_log_lt (b := 2) (by norm_num) hpos).mp (by exact_mod_cast hhigh)
  rw [ulp]
  congr 1
  omega

/-- Rounding a rounded value changes nothing. -/
theorem toFloat64_idem (hx : 0 ≤ x) : toFloat64 (toFloat64 x) = toFloat64 x := by
  rcases hx.eq_or_lt with rfl | hpos
  · simp [toFloat64, roundEven]
  have hround := abs_le.mp (abs_roundEven_sub_le (x / ulp x))
  obtain ⟨hlow, hhigh⟩ := div_ulp_mem hpos
  have hulp : ulp x = 2 ^ (Int.log 2 x - 52) := rfl
  have hunit : (0 : ℚ) < 2 ^ (Int.log 2 x - 52) := by positivity
  show toFloat64 (roundEven (x / ulp x) * ulp x) = roundEven (x / ulp x) * ulp x
  generalize roundEven (x / ulp x) = m at hround ⊢
  rw [hulp] at hround hlow hhigh ⊢
  have hge : (2 ^ 52 : ℤ) ≤ m := by
    have hlt : ((2 ^ 52 : ℤ) : ℚ) < m + 1 := by push_cast; linarith
    exact Int.lt_add_one_iff.mp (by exact_mod_cast hlt)
  have hle : m ≤ (2 ^ 53 : ℤ) := by
    have hlt : (m : ℚ) < ((2 ^ 53 : ℤ) : ℚ) + 1 := by push_cast; linarith
    exact Int.lt_add_one_iff.mp (by exact_mod_cast hlt)
  rcases hle.eq_or_lt with heq | hlt
  · -- rounded up to the next power of two, where the unit is twice as large
    have hnext : (m : ℚ) * 2 ^ (Int.log 2 x - 52) = 2 ^ 52 * 2 ^ (Int.log 2 x - 52 + 1) := by
      rw [heq, zpow_add_one₀ two_ne_zero]
      ring
    refine toFloat64_of_eq_mul (k := 2 ^ 52) ?_
    rw [hnext, ulp_eq le_rfl (mul_lt_mul_of_pos_right (by norm_num) (by positivity))]
    rfl
  · refine toFloat64_of_eq_mul (k := m) ?_
    rw [ulp_eq (mul_le_mul_of_nonneg_right (by exact_mod_cast hge) hunit.le)
      (mul_lt_mul_of_pos_right (by exact_mod_cast hlt) hunit)]

theorem isRounding_toFloat64 : IsRounding toFloat64 where
  idem _ := toFloat64_idem
  half x hx hfl := by rw [toFloat64_half hx, hfl]
  error _ := abs_toFloat64_sub_le

end VllmEcho.Lib
