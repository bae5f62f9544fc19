import Mathlib.Algebra.BigOperators.Ring.Finset
import Mathlib.Algebra.Order.BigOperators.Group.Finset
import Mathlib.Algebra.Order.Ring.Int
import Mathlib.Tactic.Positivity
import Mathlib.Tactic.Ring

/-!
# Sums of shifted products

A filter in fixed point adds up products of a coefficient and a sample, each
shifted right before it is added. A shift rounds towards minus infinity, so the
sum is not the shifted sum of the products, but it still moves by a multiple of
the coefficients' sum when all samples move by a multiple of the scale. The
distance of a filtered signal from a bound is therefore the filtered distance
of its samples, corrected by how far the coefficients' sum is from 1.

## Main definitions

- `ShiftedSum.shiftedSum` — the sum of the shifted products

## Main results

- `ShiftedSum.shiftedSum_add` — moving all samples by a multiple of the scale
- `ShiftedSum.shiftedSum_nonneg`, `ShiftedSum.shiftedSum_neg` — the sign of the sum
-/

namespace ShiftedSum

variable {ι : Type} [Fintype ι]

/-- The sum of the products of coefficients and samples, each shifted right. -/
def shiftedSum (k : ℕ) (coeff sample : ι → ℤ) : ℤ := ∑ j, (coeff j * sample j) >>> k

theorem shiftRight_add_mul (x c : ℤ) (k : ℕ) : (x + c * 2 ^ k) >>> k = x >>> k + c := by
  have hscale : (2 : ℤ) ^ k ≠ 0 := by positivity
  rw [Int.shiftRight_eq_div_pow, Int.shiftRight_eq_div_pow]
  push_cast
  exact Int.add_mul_ediv_right x c hscale

theorem shiftRight_mono {x y : ℤ} (hle : x ≤ y) (k : ℕ) : x >>> k ≤ y >>> k := by
  have hscale : (0 : ℤ) < (2 ^ k : ℕ) := by positivity
  rw [Int.shiftRight_eq_div_pow, Int.shiftRight_eq_div_pow]
  exact Int.ediv_le_ediv hscale hle

theorem shiftRight_nonneg {x : ℤ} (h : 0 ≤ x) (k : ℕ) : 0 ≤ x >>> k := by
  rw [Int.shiftRight_eq_div_pow]
  positivity

theorem shiftRight_neg {x : ℤ} (h : x < 0) (k : ℕ) : x >>> k < 0 := by
  rw [Int.shiftRight_eq_div_pow]
  apply Int.ediv_neg_of_neg_of_pos h
  positivity

/-- Moving all samples by a multiple of the scale moves the sum by as many
    times the sum of the coefficients. -/
theorem shiftedSum_add (k : ℕ) (coeff sample : ι → ℤ) (c : ℤ) :
    shiftedSum k coeff (fun j => sample j + c * 2 ^ k) =
      shiftedSum k coeff sample + c * ∑ j, coeff j := by
  rw [shiftedSum, shiftedSum, Finset.mul_sum, ← Finset.sum_add_distrib]
  apply Finset.sum_congr rfl
  intro j _
  have hproduct : coeff j * (sample j + c * 2 ^ k) = coeff j * sample j + c * coeff j * 2 ^ k := by
    ring
  rw [hproduct, shiftRight_add_mul]

section Sign

variable {k : ℕ} {coeff sample : ι → ℤ} (hcoeff : ∀ j, 0 ≤ coeff j)

include hcoeff

theorem shiftedSum_nonneg (hsample : ∀ j, 0 ≤ sample j) : 0 ≤ shiftedSum k coeff sample := by
  apply Finset.sum_nonneg
  intro j _
  exact shiftRight_nonneg (mul_nonneg (hcoeff j) (hsample j)) k

/-- One positive coefficient makes the sum of negative samples negative. -/
theorem shiftedSum_neg (hsample : ∀ j, sample j < 0) (hpos : ∃ j, 0 < coeff j) :
    shiftedSum k coeff sample < 0 := by
  obtain ⟨i, hi⟩ := hpos
  apply Finset.sum_neg'
  · intro j _
    rcases (hcoeff j).eq_or_lt with hzero | hj
    · rw [← hzero, zero_mul, Int.zero_shiftRight]
    · exact (shiftRight_neg (mul_neg_of_pos_of_neg hj (hsample j)) k).le
  · exact ⟨i, Finset.mem_univ i, shiftRight_neg (mul_neg_of_pos_of_neg hi (hsample i)) k⟩

end Sign

end ShiftedSum
