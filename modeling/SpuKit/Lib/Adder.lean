import Mathlib.Data.BitVec
import Mathlib.Tactic.Ring
import Mathlib.Tactic.Linarith
import Mathlib.Tactic.LinearCombination

/-!
# Adders with a carry

An adder of `w` bits takes two vectors and a carry and returns their sum; the
carries between the bits are those of `BitVec.carry`. Its signed overflow can be
read off the sign bits, and the carry into a bit off the bits of the operands
and the sum. Two adders one after the other, with the carry of the lower one as
the input of the upper one, are an adder of the concatenated vectors. With the
complement of one operand an adder subtracts.

## Main definitions

- `Adder.sum` — the sum, without the last carry
- `Adder.overflow` — the signed sum is out of range

## Main results

- `Adder.toNat_sum_add_carry` — the sum with its last carry is exact
- `Adder.getLsbD_xor_sum` — the carry into a bit
- `Adder.msb_and_xor_sum` — the overflow from the sign bits
- `Adder.toNat_sum_not`, `Adder.carry_not`, `Adder.overflow_not` — subtraction
- `Adder.sum_append`, `Adder.carry_append`, `Adder.overflow_append` — a chain of
  two adders
-/

namespace Adder

variable {w v : ℕ}

/-- The sum of two vectors and a carry. -/
def sum (x y : BitVec w) (c : Bool) : BitVec w := x + y + BitVec.setWidth w (BitVec.ofBool c)

/-- The sum of the signed values and the carry is not a signed value. -/
def overflow (x y : BitVec w) (c : Bool) : Bool :=
  decide (x.toInt + y.toInt + c.toNat < -2 ^ (w - 1) ∨ 2 ^ (w - 1) ≤ x.toInt + y.toInt + c.toNat)

section One

variable (x y : BitVec w) (c : Bool)

theorem toNat_sum : (sum x y c).toNat = (x.toNat + y.toNat + c.toNat) % 2 ^ w := by
  simp only [sum, BitVec.toNat_add, BitVec.toNat_setWidth, BitVec.toNat_ofBool, Nat.mod_add_mod,
    Nat.add_mod_mod]

/-- **The sum with its last carry is exact.** -/
theorem toNat_sum_add_carry :
    (sum x y c).toNat + 2 ^ w * (BitVec.carry w x y c).toNat = x.toNat + y.toNat + c.toNat := by
  have hx := x.isLt
  have hy := y.isLt
  have hc := Bool.toNat_le c
  rw [toNat_sum, BitVec.carry_width]
  by_cases h : 2 ^ w ≤ x.toNat + y.toNat + c.toNat
  · rw [decide_eq_true h, Bool.toNat_true, Nat.mul_one, Nat.mod_eq_sub_mod h,
      Nat.mod_eq_of_lt (by omega), Nat.sub_add_cancel h]
  · rw [decide_eq_false h, Bool.toNat_false, Nat.mul_zero, Nat.add_zero,
      Nat.mod_eq_of_lt (by omega)]

/-- **Carry into a bit**: it is the exclusive or of the bits. -/
theorem getLsbD_xor_sum {i : ℕ} (hi : i < w) :
    (x ^^^ y ^^^ sum x y c).getLsbD i = BitVec.carry i x y c := by
  rw [BitVec.getLsbD_xor, BitVec.getLsbD_xor, sum, BitVec.getLsbD_add_add_bool hi]
  cases x.getLsbD i <;> cases y.getLsbD i <;> cases BitVec.carry i x y c <;> rfl

/-- **Overflow**: the sign of the sum differs from both signs. -/
theorem msb_and_xor_sum (hw : 0 < w) :
    ((x ^^^ sum x y c) &&& (y ^^^ sum x y c)).msb = overflow x y c := by
  have hsum := toNat_sum_add_carry x y c
  have hx := BitVec.msb_eq_decide x
  have hy := BitVec.msb_eq_decide y
  have hs := BitVec.msb_eq_decide (sum x y c)
  rw [BitVec.msb_and, BitVec.msb_xor, BitVec.msb_xor, overflow, BitVec.toInt_eq_msb_cond x,
    BitVec.toInt_eq_msb_cond y]
  have hpow := Nat.two_pow_pred_mul_two hw
  have hc := Bool.toNat_le c
  have hcast : (2 : ℤ) ^ (w - 1) = ((2 ^ (w - 1) : ℕ) : ℤ) := by norm_num
  rw [hcast]
  generalize 2 ^ (w - 1) = half at hx hy hs hpow ⊢
  generalize x.msb = sx at hx ⊢
  generalize y.msb = sy at hy ⊢
  generalize (sum x y c).msb = ss at hs ⊢
  generalize BitVec.carry w x y c = k at hsum
  subst hx hy hs
  rw [Bool.eq_iff_iff]
  simp only [Bool.and_eq_true, bne_iff_ne, decide_eq_true_iff, ne_eq, decide_eq_decide]
  cases k <;> simp only [Bool.toNat_true, Bool.toNat_false] at hsum <;> split <;> split <;> omega

end One

section Complement

variable (x y : BitVec w) (b : Bool)

theorem natCast_not (y : BitVec w) : ((~~~y).toNat : ℤ) = 2 ^ w - 1 - y.toNat := by
  have hy := y.isLt
  rw [BitVec.toNat_not, Nat.cast_sub (by omega), Nat.cast_sub (Nat.two_pow_pos w)]
  norm_num

theorem toInt_not (hw : 0 < w) (y : BitVec w) : (~~~y).toInt = -1 - y.toInt := by
  rw [BitVec.toInt_eq_msb_cond, BitVec.toInt_eq_msb_cond y, BitVec.msb_not, decide_eq_true hw,
    natCast_not]
  cases y.msb <;> simp <;> ring

/-- The carry into a bit is set if there is no borrow from it. -/
theorem carry_not {i : ℕ} (hi : i ≤ w) : BitVec.carry i x (~~~y) (!b) =
    decide (y.toNat % 2 ^ i + b.toNat ≤ x.toNat % 2 ^ i) := by
  have hnot : (~~~y).toNat % 2 ^ i = 2 ^ i - 1 - y.toNat % 2 ^ i := by
    rw [← BitVec.toNat_setWidth, BitVec.setWidth_not hi, BitVec.toNat_not, BitVec.toNat_setWidth]
  have hy := Nat.mod_lt y.toNat (Nat.two_pow_pos i)
  rw [BitVec.carry, hnot, decide_eq_decide]
  cases b <;> simp only [Bool.not_false, Bool.not_true, Bool.toNat_false, Bool.toNat_true] <;> omega

/-- **Difference**: the sum with the complement, where a missing carry is a
    borrow. -/
theorem toNat_sum_not : ((sum x (~~~y) (!b)).toNat : ℤ) =
    ((x.toNat : ℤ) - y.toNat - b.toNat) % 2 ^ w := by
  have hcarry : ((!b).toNat : ℤ) = 1 - b.toNat := by
    cases b <;> rfl
  rw [toNat_sum]
  push_cast [natCast_not, hcarry]
  rw [← Int.add_mul_emod_self_left (x.toNat - y.toNat - b.toNat : ℤ) (2 ^ w) 1]
  congr 1
  ring

/-- The overflow of the difference. -/
theorem overflow_not (hw : 0 < w) : overflow x (~~~y) (!b) =
    decide (x.toInt - y.toInt - b.toNat < -2 ^ (w - 1) ∨
      2 ^ (w - 1) ≤ x.toInt - y.toInt - b.toNat) := by
  have htotal : x.toInt + (~~~y).toInt + (!b).toNat = x.toInt - y.toInt - b.toNat := by
    rw [toInt_not hw]
    cases b <;> simp <;> ring
  rw [overflow, htotal]

end Complement

section Chain

variable (hi hi' : BitVec w) (lo lo' : BitVec v) (c : Bool)

theorem toNat_append (hi : BitVec w) (lo : BitVec v) :
    (hi ++ lo).toNat = hi.toNat * 2 ^ v + lo.toNat := by
  rw [BitVec.toNat_append, ← Nat.shiftLeft_add_eq_or_of_lt lo.isLt, Nat.shiftLeft_eq]

/-- A remainder does not change the order of quotients. -/
theorem mul_add_lt_mul_iff {n a b r : ℤ} (hr : 0 ≤ r) (hrn : r < n) :
    n * a + r < n * b ↔ a < b := by
  constructor
  · intro h
    by_contra hle
    have hmul := mul_le_mul_of_nonneg_left (not_lt.mp hle) (hr.trans hrn.le)
    linarith
  · intro h
    have hmul := mul_le_mul_of_nonneg_left (Int.add_one_le_of_lt h) (hr.trans hrn.le)
    linarith

/-- **Chain**: the lower adder hands its carry to the upper one. -/
theorem sum_append : sum (hi ++ lo) (hi' ++ lo') c =
    sum hi hi' (BitVec.carry v lo lo' c) ++ sum lo lo' c := by
  have hlo := toNat_sum_add_carry lo lo' c
  have hhi := toNat_sum_add_carry hi hi' (BitVec.carry v lo lo' c)
  have hlt := (sum hi hi' (BitVec.carry v lo lo' c) ++ sum lo lo' c).isLt
  apply BitVec.eq_of_toNat_eq
  rw [toNat_append] at hlt ⊢
  rw [toNat_sum, toNat_append, toNat_append]
  generalize (sum hi hi' (BitVec.carry v lo lo' c)).toNat = s at hhi hlt ⊢
  generalize (sum lo lo' c).toNat = s' at hlo hlt ⊢
  generalize (BitVec.carry v lo lo' c).toNat = k at hlo hhi
  generalize (BitVec.carry w hi hi' (BitVec.carry v lo lo' c)).toNat = k' at hhi
  have htotal : hi.toNat * 2 ^ v + lo.toNat + (hi'.toNat * 2 ^ v + lo'.toNat) + c.toNat =
      s * 2 ^ v + s' + 2 ^ (w + v) * k' :=
    calc
      _ = (hi.toNat + hi'.toNat) * 2 ^ v + (lo.toNat + lo'.toNat + c.toNat) := by ring
      _ = (hi.toNat + hi'.toNat + k) * 2 ^ v + s' := by rw [← hlo]; ring
      _ = s * 2 ^ v + s' + 2 ^ (w + v) * k' := by rw [← hhi]; ring
  rw [htotal, Nat.add_mul_mod_self_left, Nat.mod_eq_of_lt hlt]

/-- The carries of the upper adder. -/
theorem carry_append (i : ℕ) : BitVec.carry (v + i) (hi ++ lo) (hi' ++ lo') c =
    BitVec.carry i hi hi' (BitVec.carry v lo lo' c) := by
  have hlo := toNat_sum_add_carry lo lo' c
  have hlt := (sum lo lo' c).isLt
  have hmod : ∀ (hi : BitVec w) (lo : BitVec v),
      (hi ++ lo).toNat % 2 ^ (v + i) = hi.toNat % 2 ^ i * 2 ^ v + lo.toNat := by
    intro hi lo
    have hdiv : (hi.toNat * 2 ^ v + lo.toNat) / 2 ^ v = hi.toNat := by
      rw [Nat.mul_comm, Nat.mul_add_div (Nat.two_pow_pos v), Nat.div_eq_of_lt lo.isLt,
        Nat.add_zero]
    rw [toNat_append, Nat.pow_add, Nat.mod_mul, hdiv, Nat.mul_comm _ (2 ^ v),
      Nat.mul_add_mod_self_left, Nat.mod_eq_of_lt lo.isLt, Nat.add_comm, Nat.mul_comm]
  have htotal : ∀ h h' : ℕ, h * 2 ^ v + lo.toNat + (h' * 2 ^ v + lo'.toNat) + c.toNat =
      2 ^ v * (h + h' + (BitVec.carry v lo lo' c).toNat) + (sum lo lo' c).toNat := by
    intro h h'
    calc
      _ = (h + h') * 2 ^ v + (lo.toNat + lo'.toNat + c.toNat) := by ring
      _ = _ := by rw [← hlo]; ring
  rw [BitVec.carry, BitVec.carry.eq_def i, hmod, hmod, htotal, decide_eq_decide, ge_iff_le,
    ge_iff_le, Nat.pow_add, Nat.mul_comm (2 ^ v) (2 ^ i),
    ← Nat.le_div_iff_mul_le (Nat.two_pow_pos v), Nat.mul_add_div (Nat.two_pow_pos v),
    Nat.div_eq_of_lt hlt, Nat.add_zero]

/-- The overflow is that of the upper adder. -/
theorem overflow_append (hw : 0 < w) : overflow (hi ++ lo) (hi' ++ lo') c =
    overflow hi hi' (BitVec.carry v lo lo' c) := by
  have hlo : ((sum lo lo' c).toNat : ℤ) + 2 ^ v * (BitVec.carry v lo lo' c).toNat =
      lo.toNat + lo'.toNat + c.toNat := by
    exact_mod_cast toNat_sum_add_carry lo lo' c
  have hlt : ((sum lo lo' c).toNat : ℤ) < 2 ^ v := by
    exact_mod_cast (sum lo lo' c).isLt
  have hne : (w == 0) = false := beq_eq_false_iff_ne.mpr hw.ne'
  have hpow : (2 : ℤ) ^ (w + v - 1) = 2 ^ v * 2 ^ (w - 1) := by
    rw [← pow_add]
    congr 1
    omega
  have htotal : (2 : ℤ) ^ v * hi.toInt + lo.toNat + (2 ^ v * hi'.toInt + lo'.toNat) + c.toNat =
      2 ^ v * (hi.toInt + hi'.toInt + (BitVec.carry v lo lo' c).toNat) + (sum lo lo' c).toNat := by
    linear_combination -hlo
  rw [overflow, overflow, BitVec.toInt_append, BitVec.toInt_append, hne, decide_eq_decide, hpow]
  simp only [Bool.false_eq_true, if_false]
  rw [htotal, ← mul_neg, mul_add_lt_mul_iff (Int.natCast_nonneg _) hlt, ← not_lt,
    mul_add_lt_mul_iff (Int.natCast_nonneg _) hlt, not_lt]

end Chain

end Adder
