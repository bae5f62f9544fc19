import SpuKit.Spc700.Execute

/-!
# The division

DIV divides YA by X if the quotient has at most nine bits, and else a smaller
number by a larger one. Neither divisor is zero, and what the second branch
computes are bytes without a conversion.

## Main definitions

- `dividend`, `divisor` — what is divided, in either branch
- `quotient`, `remainder` — what is assigned to A and Y, before the conversion

## Main results

- `aluDiv_run` — what the division computes
- `div_exact` — it is total, and exact as long as the quotient fits in nine bits
-/

namespace SpuKit.Spc700

open Program (outcome)

/-- The condition of the branch: the quotient has at most nine bits. -/
def NineBits (c : Cpu) : Prop := (c.y.toNat : Int) < (c.x.toNat : Int) <<< (1 : Nat)

instance (c : Cpu) : Decidable (NineBits c) := inferInstanceAs (Decidable (_ < _))

def dividend (c : Cpu) : Int :=
  if NineBits c then (getYa c).toNat else (getYa c).toNat - (c.x.toNat : Int) <<< (9 : Nat)

def divisor (c : Cpu) : Int := if NineBits c then c.x.toNat else 0x100 - c.x.toNat

/-- What is assigned to A. -/
def quotient (c : Cpu) : Int :=
  if NineBits c then (dividend c).tdiv (divisor c) else 0xff - (dividend c).tdiv (divisor c)

/-- What is assigned to Y. -/
def remainder (c : Cpu) : Int :=
  if NineBits c then (dividend c).tmod (divisor c) else c.x.toNat + (dividend c).tmod (divisor c)

/-- **Division**: the flags V and H are set from the operands, N and Z from A. -/
theorem aluDiv_run (c : Cpu) : (aluDiv c).2 =
    { c with
      a := toByte (quotient c)
      y := toByte (remainder c)
      halfCarry := decide (c.x &&& 0xf ≤ c.y &&& 0xf)
      overflow := decide (c.x ≤ c.y)
      zero := toByte (quotient c) == 0
      negative := toByte (quotient c) &&& 0x80 != 0 } := by
  by_cases h : NineBits c
  · rw [quotient, remainder, dividend, divisor, if_pos h, if_pos h, if_pos h, if_pos h]
    rw [NineBits] at h
    simp only [aluDiv, bind, StateT.bind, get, getThe, MonadStateOf.get, StateT.get, pure, h,
      if_true]
    rfl
  · rw [quotient, remainder, dividend, divisor, if_neg h, if_neg h, if_neg h, if_neg h]
    rw [NineBits] at h
    simp only [aluDiv, bind, StateT.bind, get, getThe, MonadStateOf.get, StateT.get, pure, h,
      if_false]
    rfl

section Division

variable (c : Cpu)

theorem nineBits_iff : NineBits c ↔ c.y.toNat < 2 * c.x.toNat := by
  rw [NineBits, Int.shiftLeft_eq]
  omega

theorem toNat_getYa : (getYa c).toNat = c.y.toNat * 256 + c.a.toNat := toNat_wordOf c.y c.a

/-- **No division by zero**: X is not zero if it divides. -/
theorem divisor_pos : 0 < divisor c := by
  have hx := c.x.isLt
  rw [divisor]
  split
  · next h =>
    rw [nineBits_iff] at h
    omega
  · omega

theorem dividend_nonneg : 0 ≤ dividend c := by
  have hya := toNat_getYa c
  rw [dividend]
  split
  · omega
  · next h =>
    rw [nineBits_iff] at h
    rw [Int.shiftLeft_eq]
    omega

/-- In the first branch the values are those of the natural numbers. -/
theorem quotient_of_nineBits {c : Cpu} (h : NineBits c) :
    quotient c = ((getYa c).toNat / c.x.toNat : Nat) ∧
      remainder c = ((getYa c).toNat % c.x.toNat : Nat) := by
  rw [quotient, remainder, dividend, divisor, if_pos h, if_pos h, if_pos h, if_pos h]
  exact ⟨Int.ofNat_tdiv .., Int.ofNat_tmod ..⟩

theorem toNat_toByte (n : Nat) : (toByte n).toNat = n % 256 := by
  rw [toByte, BitVec.toNat_ofInt]
  omega

theorem toNat_toByte_of_bounds {val : Int} (hlo : 0 ≤ val) (hhi : val ≤ 255) :
    ((toByte val).toNat : Int) = val := by
  rw [toByte, BitVec.toNat_ofInt]
  omega

/-- **First branch**: only the quotient may be cut off. -/
theorem toNat_div_of_nineBits {c : Cpu} (h : NineBits c) :
    (aluDiv c).2.a.toNat = (getYa c).toNat / c.x.toNat % 256 ∧
      (aluDiv c).2.y.toNat = (getYa c).toNat % c.x.toNat := by
  obtain ⟨hquotient, hremainder⟩ := quotient_of_nineBits h
  have hx := c.x.isLt
  have hpos : 0 < c.x.toNat := by
    rw [nineBits_iff] at h
    omega
  have hlt := Nat.mod_lt (getYa c).toNat hpos
  rw [aluDiv_run, hquotient, hremainder]
  exact ⟨toNat_toByte _, (toNat_toByte _).trans (Nat.mod_eq_of_lt (by omega))⟩

/-- **Second branch**: the dividend is less than 256 times the divisor. -/
theorem quotient_bounds {c : Cpu} (h : ¬ NineBits c) :
    (0 ≤ quotient c ∧ quotient c ≤ 255) ∧ 0 ≤ remainder c ∧ remainder c ≤ 255 := by
  have hpos := divisor_pos c
  have hnonneg := dividend_nonneg c
  have hdivisor : divisor c = 0x100 - c.x.toNat := by
    rw [divisor, if_neg h]
  have hdividend : dividend c < 256 * divisor c := by
    have hy := c.y.isLt
    have ha := c.a.isLt
    have hya := toNat_getYa c
    rw [hdivisor, dividend, if_neg h, Int.shiftLeft_eq]
    omega
  have hquotient : 0 ≤ (dividend c).tdiv (divisor c) ∧ (dividend c).tdiv (divisor c) ≤ 255 := by
    rw [Int.tdiv_eq_ediv_of_nonneg hnonneg]
    exact ⟨Int.ediv_nonneg hnonneg hpos.le,
      Int.lt_add_one_iff.mp (Int.ediv_lt_of_lt_mul hpos hdividend)⟩
  have hremainder := Int.tmod_nonneg (divisor c) hnonneg
  have hlt := Int.tmod_lt_of_pos (dividend c) hpos
  rw [quotient, remainder, if_neg h, if_neg h]
  omega

end Division

/-- **DIV is total and exact**: it never divides by zero, its results are the
    quotient and the remainder as long as the quotient has nine bits, and else they
    are bytes without a conversion. -/
theorem div_exact (m : Machine) :
    ∃ c', outcome insnDivwYaX m = some ((), m.withCpu c') ∧
      c'.a = toByte (quotient m.cpu) ∧ c'.y = toByte (remainder m.cpu) ∧ divisor m.cpu ≠ 0 ∧
      (m.cpu.y.toNat < m.cpu.x.toNat →
        c'.overflow = false ∧
        c'.a.toNat * m.cpu.x.toNat + c'.y.toNat = (getYa m.cpu).toNat ∧
        c'.y.toNat < m.cpu.x.toNat) ∧
      (m.cpu.x.toNat ≤ m.cpu.y.toNat → m.cpu.y.toNat < 2 * m.cpu.x.toNat →
        c'.overflow = true ∧
        c'.a.toNat = (getYa m.cpu).toNat / m.cpu.x.toNat % 256 ∧
        c'.y.toNat = (getYa m.cpu).toNat % m.cpu.x.toNat) ∧
      (2 * m.cpu.x.toNat ≤ m.cpu.y.toNat →
        c'.overflow = true ∧
        (0 ≤ quotient m.cpu ∧ quotient m.cpu ≤ 255) ∧
        (0 ≤ remainder m.cpu ∧ remainder m.cpu ≤ 255) ∧
        (c'.a.toNat : Int) = quotient m.cpu ∧ (c'.y.toNat : Int) = remainder m.cpu ∧
        0 ≤ dividend m.cpu ∧ 0 < divisor m.cpu ∧
        0 ≤ (dividend m.cpu).tdiv (divisor m.cpu) ∧ 0 ≤ (dividend m.cpu).tmod (divisor m.cpu)) := by
  have hpos := divisor_pos m.cpu
  have hnonneg := dividend_nonneg m.cpu
  have hover : (aluDiv m.cpu).2.overflow = decide (m.cpu.x.toNat ≤ m.cpu.y.toNat) := by
    rw [aluDiv_run]
    rfl
  refine ⟨(aluDiv m.cpu).2, rfl, by rw [aluDiv_run], by rw [aluDiv_run], hpos.ne', ?_, ?_, ?_⟩
  · intro hlt
    obtain ⟨ha, hy⟩ := toNat_div_of_nineBits ((nineBits_iff m.cpu).mpr (by omega))
    have hbyte : (getYa m.cpu).toNat / m.cpu.x.toNat < 256 := by
      have hcarry := m.cpu.a.isLt
      rw [Nat.div_lt_iff_lt_mul (by omega), toNat_getYa]
      omega
    rw [hover, ha, hy, Nat.mod_eq_of_lt hbyte]
    exact ⟨decide_eq_false (by omega), Nat.div_add_mod' .., Nat.mod_lt _ (by omega)⟩
  · intro hle hlt
    rw [hover]
    exact ⟨decide_eq_true hle, toNat_div_of_nineBits ((nineBits_iff m.cpu).mpr hlt)⟩
  · intro hle
    have hnine : ¬ NineBits m.cpu := by
      rw [nineBits_iff]
      omega
    obtain ⟨hquotient, hremainder⟩ := quotient_bounds hnine
    have ha := toNat_toByte_of_bounds hquotient.1 hquotient.2
    have hy := toNat_toByte_of_bounds hremainder.1 hremainder.2
    rw [hover, aluDiv_run]
    exact ⟨decide_eq_true (by omega), hquotient, hremainder, ha, hy, hnonneg, hpos,
      Int.tdiv_nonneg hnonneg hpos.le, Int.tmod_nonneg _ hnonneg⟩

end SpuKit.Spc700
