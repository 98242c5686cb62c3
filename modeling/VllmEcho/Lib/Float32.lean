import Mathlib

/-!
# Rounding natural numbers to single precision

A natural number is rounded to 24 significant bits, to nearest with ties to even.  Rounding is
monotone, and exact up to `2 ^ 24`.
-/

namespace VllmEcho

variable (e n : Nat)

namespace Lib

def roundAt : Nat :=
  if 2 ^ e < 2 * (n % 2 ^ e) ∨ (2 * (n % 2 ^ e) = 2 ^ e ∧ n / 2 ^ e % 2 = 1) then
    (n / 2 ^ e + 1) * 2 ^ e
  else n / 2 ^ e * 2 ^ e

def toFloat32 : Nat := roundAt (n.log2 - 23) n

theorem div_mul_le_roundAt : n / 2 ^ e * 2 ^ e ≤ roundAt e n := by
  unfold roundAt
  split
  · exact Nat.mul_le_mul_right _ (Nat.le_succ _)
  · exact Nat.le_refl _

theorem roundAt_le_succ_mul : roundAt e n ≤ (n / 2 ^ e + 1) * 2 ^ e := by
  unfold roundAt
  split
  · exact Nat.le_refl _
  · exact Nat.mul_le_mul_right _ (Nat.le_succ _)

theorem roundAt_mono {n m : Nat} (hle : n ≤ m) : roundAt e n ≤ roundAt e m := by
  have hquot : n / 2 ^ e ≤ m / 2 ^ e := Nat.div_le_div_right hle
  by_cases hlt : n / 2 ^ e < m / 2 ^ e
  · calc
      roundAt e n ≤ (n / 2 ^ e + 1) * 2 ^ e := roundAt_le_succ_mul e n
      _ ≤ m / 2 ^ e * 2 ^ e := Nat.mul_le_mul_right _ hlt
      _ ≤ roundAt e m := div_mul_le_roundAt e m
  have hsame : n / 2 ^ e = m / 2 ^ e := by omega
  have hrem : n % 2 ^ e ≤ m % 2 ^ e := by
    have hn := Nat.div_add_mod n (2 ^ e)
    have hm := Nat.div_add_mod m (2 ^ e)
    rw [hsame] at hn
    omega
  -- with the same quotient the one that is rounded up is the larger one
  unfold roundAt
  rw [hsame]
  split
  · rename_i hup
    rw [if_pos (by omega)]
  · split
    · exact Nat.mul_le_mul_right _ (Nat.le_succ _)
    · exact Nat.le_refl _

theorem toFloat32_le_pow : toFloat32 n ≤ 2 ^ (24 + (n.log2 - 23)) := by
  have hlt : n < 2 ^ (24 + (n.log2 - 23)) :=
    Nat.lt_of_lt_of_le Nat.lt_log2_self (Nat.pow_le_pow_right (by decide) (by omega))
  have hquot : n / 2 ^ (n.log2 - 23) < 2 ^ 24 := by
    apply Nat.div_lt_of_lt_mul
    rw [← Nat.pow_add, Nat.add_comm]
    exact hlt
  calc
    toFloat32 n ≤ (n / 2 ^ (n.log2 - 23) + 1) * 2 ^ (n.log2 - 23) := roundAt_le_succ_mul _ _
    _ ≤ 2 ^ 24 * 2 ^ (n.log2 - 23) := Nat.mul_le_mul_right _ hquot
    _ = 2 ^ (24 + (n.log2 - 23)) := (Nat.pow_add ..).symm

theorem pow_le_toFloat32 {n : Nat} (hbig : 23 < n.log2) : 2 ^ n.log2 ≤ toFloat32 n := by
  have hne : n ≠ 0 := by
    intro hzero
    rw [hzero] at hbig
    exact absurd hbig (by decide)
  have hquot : 2 ^ 23 ≤ n / 2 ^ (n.log2 - 23) := by
    apply (Nat.le_div_iff_mul_le (Nat.pow_pos (by decide))).mpr
    rw [← Nat.pow_add, show 23 + (n.log2 - 23) = n.log2 by omega]
    exact Nat.log2_self_le hne
  calc
    2 ^ n.log2 = 2 ^ 23 * 2 ^ (n.log2 - 23) := by
      rw [← Nat.pow_add, show 23 + (n.log2 - 23) = n.log2 by omega]
    _ ≤ n / 2 ^ (n.log2 - 23) * 2 ^ (n.log2 - 23) := Nat.mul_le_mul_right _ hquot
    _ ≤ toFloat32 n := div_mul_le_roundAt _ _

theorem toFloat32_mono {n m : Nat} (hle : n ≤ m) : toFloat32 n ≤ toFloat32 m := by
  have hlog : n.log2 ≤ m.log2 := by
    rw [Nat.log2_eq_log_two, Nat.log2_eq_log_two]
    exact Nat.log_mono_right hle
  by_cases hsame : n.log2 - 23 = m.log2 - 23
  · unfold toFloat32
    rw [hsame]
    exact roundAt_mono _ hle
  · -- a larger exponent starts where the smaller one ends
    calc
      toFloat32 n ≤ 2 ^ (24 + (n.log2 - 23)) := toFloat32_le_pow n
      _ ≤ 2 ^ m.log2 := Nat.pow_le_pow_right (by decide) (by omega)
      _ ≤ toFloat32 m := pow_le_toFloat32 (by omega)

end Lib

end VllmEcho
