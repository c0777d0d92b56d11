import Mathlib.Analysis.SpecialFunctions.Pow.Real

/-!
# Fractions of roots

The first `b` bits of the fractional part of a root of a natural number, and how integers tell them.
-/

namespace Libaergo.Lib

/-- The first `b` bits of the fractional part of the `r`-th root of `p`. -/
noncomputable def rootFraction (r b p : ℕ) : ℕ := ⌊Int.fract ((p : ℝ) ^ (r : ℝ)⁻¹) * 2 ^ b⌋₊

/-- **They are `k` if the root lies between `c + k / 2 ^ b` and the next such fraction.** -/
lemma rootFraction_eq {r b p c k : ℕ} (hr : r ≠ 0) (hk : k < 2 ^ b) (hlo : (c * 2 ^ b + k) ^ r ≤ p * 2 ^ (b * r))
    (hhi : p * 2 ^ (b * r) < (c * 2 ^ b + k + 1) ^ r) : rootFraction r b p = k := by
  obtain ⟨x, hx⟩ : ∃ x : ℝ, x = (p : ℝ) ^ (r : ℝ)⁻¹ := ⟨_, rfl⟩
  have hx0 : 0 ≤ x := hx ▸ Real.rpow_nonneg (Nat.cast_nonneg p) _
  have hpow : x ^ r = p := hx ▸ Real.rpow_inv_natCast_pow (Nat.cast_nonneg p) hr
  have hscaled : (x * 2 ^ b) ^ r = ((p * 2 ^ (b * r) : ℕ) : ℝ) := by
    rw [mul_pow, hpow, ← pow_mul]
    push_cast
    rfl
  have hscaled0 : 0 ≤ x * 2 ^ b := by positivity
  have hge : ((c * 2 ^ b + k : ℕ) : ℝ) ≤ x * 2 ^ b := by
    refine le_of_pow_le_pow_left₀ hr hscaled0 ?_
    rw [hscaled]
    exact_mod_cast hlo
  have hlt : x * 2 ^ b < ((c * 2 ^ b + k + 1 : ℕ) : ℝ) := by
    refine lt_of_pow_lt_pow_left₀ r (Nat.cast_nonneg _) ?_
    rw [hscaled]
    exact_mod_cast hhi
  have hpos : (0 : ℝ) < 2 ^ b := by positivity
  have hk' : (k : ℝ) + 1 ≤ 2 ^ b := by exact_mod_cast hk
  push_cast at hge hlt
  have hfloor : ⌊x⌋ = (c : ℤ) := by
    rw [Int.floor_eq_iff]
    constructor
    · have hmul : (c : ℝ) * 2 ^ b ≤ x * 2 ^ b := by
        have hk0 : (0 : ℝ) ≤ k := Nat.cast_nonneg k
        linarith
      exact_mod_cast le_of_mul_le_mul_right hmul hpos
    · have hmul : x * 2 ^ b < (c + 1) * 2 ^ b := by linarith
      exact_mod_cast lt_of_mul_lt_mul_right hmul hpos.le
  rw [rootFraction, ← hx, Int.fract, hfloor, sub_mul, Nat.floor_eq_iff (by push_cast; linarith)]
  push_cast
  constructor <;> linarith

end Libaergo.Lib
