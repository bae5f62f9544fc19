import SpuKit.Lib.Adder
import SpuKit.Spc700.Modes

/-!
# Arithmetic on the integers

`adc` is an adder of eight bits with the carry flag as its carry, and the other
functions are made of it: subtraction adds the complement, and a word is added
by two adders one after the other. Comparisons are computed on integers instead.

## Main definitions

- `flagsOfSum` — the flags of an adder of words
- `nzc` — the flags that a comparison sets
- `Adds`, `Subtracts`, `Tests` — results and flags in terms of the integers

## Main results

- `adc_run` — `adc` is an adder
- `aluAddw_run`, `aluSubw_run` — two of them are an adder of words
- `aluCmp_run`, `aluCmpw_run` — comparisons
- `arithmetic` — all operations match the integers
-/

namespace SpuKit.Spc700

open Program (outcome)

-- ════════════════════════════════════════════════════════════════════════
-- The adder
-- ════════════════════════════════════════════════════════════════════════

theorem toNat_ofFlag {w : ℕ} (hw : 0 < w) (flag : Bool) :
    (ofFlag flag : BitVec w).toNat = flag.toNat := by
  have hone : 1 < 2 ^ w := Nat.one_lt_two_pow hw.ne'
  cases flag with
  | false => exact Nat.zero_mod _
  | true => exact Nat.mod_eq_of_lt hone

/-- The test of a single bit. -/
theorem and_twoPow_ne_zero {w i : ℕ} (hi : i < w) (x : BitVec w) :
    (x &&& BitVec.twoPow w i != 0) = x.getLsbD i := by
  have hpow : BitVec.twoPow w i ≠ 0 := by
    intro h
    have hbit := congrArg (·.getLsbD i) h
    simp [hi] at hbit
  rw [BitVec.and_twoPow]
  cases x.getLsbD i with
  | false => exact bne_self_eq_false _
  | true => exact bne_iff_ne.mpr hpow

/-- The test of the bits of the high byte. -/
theorem and_high_ne_zero (word : Word) :
    (word &&& 0xff00 != 0) = decide (256 ≤ word.toNat) := by
  have hshift : word &&& (0xff00 : Word) = (word >>> 8) <<< 8 := by
    apply BitVec.eq_of_getLsbD_eq
    intro k hk
    have hmask : (0xff00 : Word).getLsbD k = decide (8 ≤ k) := by
      have hall : ∀ k : Fin 16, (0xff00 : Word).getLsbD k = decide (8 ≤ k.val) := by decide
      exact hall ⟨k, hk⟩
    rw [BitVec.getLsbD_and, hmask, BitVec.getLsbD_shiftLeft, BitVec.getLsbD_ushiftRight]
    by_cases h : k < 8
    · simp [h, Nat.not_le.mpr h]
    · simp [h, hk, Nat.le_of_not_lt h]
  have hval : (word &&& (0xff00 : Word)).toNat = word.toNat / 256 * 256 := by
    have hlt := word.isLt
    rw [hshift, BitVec.toNat_shiftLeft, BitVec.toNat_ushiftRight, Nat.shiftRight_eq_div_pow,
      Nat.shiftLeft_eq]
    omega
  rw [Bool.eq_iff_iff, bne_iff_ne, decide_eq_true_iff, Ne, BitVec.toNat_eq, hval]
  show ¬ word.toNat / 256 * 256 = 0 ↔ _
  omega

/-- **`adc` is an adder** with the carry flag as its carry. -/
theorem adc_run (a b : Byte) (c : Cpu) : adc a b c =
    (Adder.sum a b c.carry,
      { c with
        carry := BitVec.carry 8 a b c.carry
        halfCarry := BitVec.carry 4 a b c.carry
        overflow := Adder.overflow a b c.carry }) := by
  have ha := a.isLt
  have hb := b.isLt
  have hc := Bool.toNat_le c.carry
  have hresult : (a.setWidth 16 + b.setWidth 16 + ofFlag c.carry : Word).toNat =
      a.toNat + b.toNat + c.carry.toNat := by
    rw [BitVec.toNat_add, BitVec.toNat_add, toNat_ofFlag (by decide), BitVec.toNat_setWidth,
      BitVec.toNat_setWidth]
    omega
  have htrunc : (a.setWidth 16 + b.setWidth 16 + ofFlag c.carry : Word).setWidth 8 =
      Adder.sum a b c.carry := by
    apply BitVec.eq_of_toNat_eq
    rw [BitVec.toNat_setWidth, hresult, Adder.toNat_sum]
  have hcarry := and_high_ne_zero (a.setWidth 16 + b.setWidth 16 + ofFlag c.carry)
  have hhalf : ((a ^^^ b ^^^ Adder.sum a b c.carry) &&& 0x10 != 0) =
      BitVec.carry 4 a b c.carry :=
    (and_twoPow_ne_zero (w := 8) (i := 4) (by decide) _).trans
      (Adder.getLsbD_xor_sum a b c.carry (by decide))
  have hover : ((a ^^^ Adder.sum a b c.carry) &&& (b ^^^ Adder.sum a b c.carry) &&& 0x80 != 0) =
      Adder.overflow a b c.carry :=
    (and_twoPow_ne_zero (w := 8) (i := 7) (by decide) _).trans
      (Adder.msb_and_xor_sum a b c.carry (by decide))
  rw [hresult, ← BitVec.carry_width (w := 8)] at hcarry
  show ((a.setWidth 16 + b.setWidth 16 + ofFlag c.carry : Word).setWidth 8,
    { c with
      carry := (a.setWidth 16 + b.setWidth 16 + ofFlag c.carry : Word) &&& 0xff00 != 0
      halfCarry := (a ^^^ b ^^^
        (a.setWidth 16 + b.setWidth 16 + ofFlag c.carry : Word).setWidth 8) &&& 0x10 != 0
      overflow := (a ^^^ (a.setWidth 16 + b.setWidth 16 + ofFlag c.carry : Word).setWidth 8) &&&
        (b ^^^ (a.setWidth 16 + b.setWidth 16 + ofFlag c.carry : Word).setWidth 8) &&&
        0x80 != 0 }) = _
  rw [htrunc, hcarry, hhalf, hover]

/-- Subtraction is an adder with the complement. -/
theorem sbc_run (a b : Byte) (c : Cpu) : sbc a b c =
    (Adder.sum a (~~~b) c.carry,
      { c with
        carry := BitVec.carry 8 a (~~~b) c.carry
        halfCarry := BitVec.carry 4 a (~~~b) c.carry
        overflow := Adder.overflow a (~~~b) c.carry }) :=
  adc_run a (~~~b) c

-- ════════════════════════════════════════════════════════════════════════
-- Words
-- ════════════════════════════════════════════════════════════════════════

/-- The flags of a 16-bit sum of `x`, `y` and a carry. -/
def flagsOfSum (x y : Word) (carry : Bool) (c : Cpu) : Cpu :=
  { c with
    carry := BitVec.carry 16 x y carry
    halfCarry := BitVec.carry 12 x y carry
    overflow := Adder.overflow x y carry
    zero := Adder.sum x y carry == 0
    negative := (Adder.sum x y carry).msb }

/-- The test of the sign bit of a word. -/
theorem and_sign_ne_zero (word : Word) : (word &&& 0x8000 != 0) = word.msb :=
  and_twoPow_ne_zero (w := 16) (i := 15) (by decide) word

/-- **Chain**: the carry of the lower bytes goes into the sum of the upper ones. -/
theorem adc_chain (hi lo hi' lo' : Byte) (carry : Bool) (c : Cpu) :
    (do
      modify fun c : Cpu => { c with carry := carry }
      let sumLo ← adc lo lo'
      let sumHi ← adc hi hi'
      let result : Word := sumLo.setWidth 16 ||| (sumHi.setWidth 16 <<< 8)
      setZn16 result
      pure result : Alu Word) c =
    (Adder.sum (wordOf hi lo) (wordOf hi' lo') carry,
      flagsOfSum (wordOf hi lo) (wordOf hi' lo') carry c) := by
  have hresult : (Adder.sum lo lo' carry).setWidth 16 |||
      ((Adder.sum hi hi' (BitVec.carry 8 lo lo' carry)).setWidth 16 <<< 8) =
        Adder.sum (wordOf hi lo) (wordOf hi' lo') carry := by
    rw [BitVec.or_comm]
    exact BitVec.setWidth_append_eq_shiftLeft_setWidth_or.symm.trans
      (Adder.sum_append hi hi' lo lo' carry).symm
  have hcarry := Adder.carry_append hi hi' lo lo' carry 8
  have hhalf := Adder.carry_append hi hi' lo lo' carry 4
  have hover := Adder.overflow_append hi hi' lo lo' carry (by decide)
  simp only [bind, StateT.bind, modify, modifyGet, MonadStateOf.modifyGet, StateT.modifyGet, pure,
    adc_run, setZn16, hresult, and_sign_ne_zero, ← hcarry, ← hhalf, ← hover]
  rfl

theorem aluAddw_run (a b : Word) (c : Cpu) :
    aluAddw a b c = (Adder.sum a b false, flagsOfSum a b false c) := by
  have hchain := adc_chain ((a >>> 8).setWidth 8) (a.setWidth 8) ((b >>> 8).setWidth 8)
    (b.setWidth 8) false c
  rw [wordOf_bytes, wordOf_bytes] at hchain
  exact hchain

theorem aluSubw_run (a b : Word) (c : Cpu) :
    aluSubw a b c = (Adder.sum a (~~~b) true, flagsOfSum a (~~~b) true c) := by
  have hnot : wordOf (~~~((b >>> 8).setWidth 8)) (~~~(b.setWidth 8)) = ~~~b := by
    rw [wordOf, ← BitVec.not_append]
    exact congrArg (~~~·) (wordOf_bytes b)
  have hchain := adc_chain ((a >>> 8).setWidth 8) (a.setWidth 8) (~~~((b >>> 8).setWidth 8))
    (~~~(b.setWidth 8)) true c
  rw [wordOf_bytes, hnot] at hchain
  exact hchain

-- ════════════════════════════════════════════════════════════════════════
-- Comparisons
-- ════════════════════════════════════════════════════════════════════════

/-- The flags of a comparison: N, Z and C. -/
def nzc (c : Cpu) : Bool × Bool × Bool := (c.negative, c.zero, c.carry)

/-- Without a borrow the difference is that of the integers. -/
theorem sum_not_true {w : ℕ} (x y : BitVec w) :
    Adder.sum x (~~~y) true = BitVec.ofInt w ((x.toNat : ℤ) - y.toNat) := by
  have hdiff := Adder.toNat_sum_not x y false
  rw [Bool.toNat_false, Nat.cast_zero, sub_zero] at hdiff
  apply BitVec.eq_of_toNat_eq
  rw [BitVec.toNat_ofInt, Nat.cast_pow, Nat.cast_ofNat, ← hdiff]
  rfl

/-- Without a borrow the carry says which operand is larger. -/
theorem carry_not_true {w : ℕ} (x y : BitVec w) :
    BitVec.carry w x (~~~y) true = decide (0 ≤ (x.toNat : ℤ) - y.toNat) := by
  have hcarry := Adder.carry_not x y false (le_refl w)
  rw [Bool.toNat_false, Nat.mod_eq_of_lt x.isLt, Nat.mod_eq_of_lt y.isLt] at hcarry
  refine hcarry.trans (decide_eq_decide.mpr ?_)
  omega

/-- **CMP** sets the flags like SBC with the carry flag set. -/
theorem aluCmp_run (a b : Byte) (c : Cpu) :
    nzc (aluCmp a b c).2 = nzc (aluSbc a b { c with carry := true }).2 := by
  have hsbc := sbc_run a b { c with carry := true }
  simp only [aluSbc, aluCmp, setZn, setZ, bind, StateT.bind, modify, modifyGet,
    MonadStateOf.modifyGet, StateT.modifyGet, pure, hsbc, nzc, sum_not_true,
    carry_not_true]
  rfl

/-- **CMPW** sets the flags like SUBW. -/
theorem aluCmpw_run (operand : Word) (c : Cpu) :
    nzc (aluCmpw operand c).2 = nzc (aluSubw (getYa c) operand c).2 := by
  rw [aluSubw_run, flagsOfSum, sum_not_true, carry_not_true]
  refine congrArg₂ Prod.mk ?_ rfl
  exact and_sign_ne_zero _

/-- An operation on YA and the word that is loaded. -/
theorem outcome_aluYa_load (alu : Word → Alu Unit) (m : Machine) :
    outcome (aluYa alu) m =
      (outcome (memLoadWord (Mode.dp.encoded m)) (m.advance 1)).map fun r =>
        ((), r.2.withCpu (alu r.1 r.2.cpu).2) := by
  simp only [aluYa, Program.outcome_bind, outcome_directPage, Option.bind_some, outcome_onCpu]
  exact (Option.map_eq_bind ..).symm

-- ════════════════════════════════════════════════════════════════════════
-- Integers
-- ════════════════════════════════════════════════════════════════════════

/-- A result and flags are those of the sum of two operands and a carry. The half
    carry comes out of the `half` low bits. -/
structure Adds {w : ℕ} (half : ℕ) (x y : BitVec w) (cin : Bool) (r : BitVec w × Cpu) : Prop where
  result : r.1.toNat = (x.toNat + y.toNat + cin.toNat) % 2 ^ w
  carry : r.2.carry = decide (2 ^ w ≤ x.toNat + y.toNat + cin.toNat)
  halfCarry : r.2.halfCarry =
    decide (2 ^ half ≤ x.toNat % 2 ^ half + y.toNat % 2 ^ half + cin.toNat)
  overflow : r.2.overflow =
    decide (x.toInt + y.toInt + cin.toNat < -2 ^ (w - 1) ∨
      2 ^ (w - 1) ≤ x.toInt + y.toInt + cin.toNat)

/-- A result and flags are those of the difference of two operands and a borrow.
    The carry flag is set if nothing is borrowed, and so is the half carry. -/
structure Subtracts {w : ℕ} (half : ℕ) (x y : BitVec w) (borrow : Bool) (r : BitVec w × Cpu) :
    Prop where
  result : (r.1.toNat : ℤ) = ((x.toNat : ℤ) - y.toNat - borrow.toNat) % 2 ^ w
  carry : r.2.carry = decide (0 ≤ (x.toNat : ℤ) - y.toNat - borrow.toNat)
  halfCarry : r.2.halfCarry =
    decide (y.toNat % 2 ^ half + borrow.toNat ≤ x.toNat % 2 ^ half)
  overflow : r.2.overflow =
    decide (x.toInt - y.toInt - borrow.toNat < -2 ^ (w - 1) ∨
      2 ^ (w - 1) ≤ x.toInt - y.toInt - borrow.toNat)

/-- The flags Z and N of a result. -/
structure Tests {w : ℕ} (r : BitVec w × Cpu) : Prop where
  zero : r.2.zero = decide (r.1.toNat = 0)
  negative : r.2.negative = decide (r.1.toInt < 0)

section Integers

variable {w half : ℕ} {x y : BitVec w} {r : BitVec w × Cpu}

theorem adds_of_adder {cin : Bool} (hresult : r.1 = Adder.sum x y cin)
    (hcarry : r.2.carry = BitVec.carry w x y cin)
    (hhalf : r.2.halfCarry = BitVec.carry half x y cin)
    (hover : r.2.overflow = Adder.overflow x y cin) : Adds half x y cin r where
  result := by rw [hresult, Adder.toNat_sum]
  carry := by rw [hcarry, BitVec.carry_width]
  halfCarry := hhalf
  overflow := hover

theorem subtracts_of_adder (hw : 0 < w) (hle : half ≤ w) {borrow : Bool}
    (hresult : r.1 = Adder.sum x (~~~y) (!borrow))
    (hcarry : r.2.carry = BitVec.carry w x (~~~y) (!borrow))
    (hhalf : r.2.halfCarry = BitVec.carry half x (~~~y) (!borrow))
    (hover : r.2.overflow = Adder.overflow x (~~~y) (!borrow)) : Subtracts half x y borrow r where
  result := by rw [hresult, Adder.toNat_sum_not]
  carry := by
    rw [hcarry, Adder.carry_not x y borrow (le_refl w), Nat.mod_eq_of_lt x.isLt,
      Nat.mod_eq_of_lt y.isLt, decide_eq_decide]
    omega
  halfCarry := by rw [hhalf, Adder.carry_not x y borrow hle]
  overflow := by rw [hover, Adder.overflow_not x y borrow hw]

end Integers

theorem tests_flagsOfSum (x y : Word) (carry : Bool) (c : Cpu) :
    Tests (Adder.sum x y carry, flagsOfSum x y carry c) where
  zero := decide_eq_decide.mpr (BitVec.toNat_eq (x := Adder.sum x y carry))
  negative := (BitVec.msb_eq_toInt : (Adder.sum x y carry).msb = _)

/-- **Arithmetic matches the integers**: `adc` and `sbc` on bytes, `aluAddw` and
    `aluSubw` on words, and the comparisons are subtractions. -/
theorem arithmetic :
    (∀ a b c, Adds 4 a b c.carry (adc a b c)) ∧
    (∀ a b c, Subtracts 4 a b (!c.carry) (sbc a b c)) ∧
    (∀ a b c, Adds 12 a b false (aluAddw a b c) ∧ Tests (aluAddw a b c)) ∧
    (∀ a b c, Subtracts 12 a b false (aluSubw a b c) ∧ Tests (aluSubw a b c)) ∧
    (∀ m, (outcome insnCmpwYaD m).map (fun r => nzc r.2.cpu) =
      (outcome insnSubwYaDp m).map fun r => nzc r.2.cpu) ∧
    ∀ a b c, nzc (aluCmp a b c).2 = nzc (aluSbc a b { c with carry := true }).2 := by
  refine ⟨fun a b c => ?_, fun a b c => ?_, fun a b c => ?_, fun a b c => ?_, fun m => ?_,
    aluCmp_run⟩
  · rw [adc_run]
    exact adds_of_adder rfl rfl rfl rfl
  · have hborrow : (!!c.carry) = c.carry := Bool.not_not _
    rw [sbc_run]
    refine subtracts_of_adder (by decide) (by decide) ?_ ?_ ?_ ?_ <;> rw [hborrow]
  · rw [aluAddw_run]
    exact ⟨adds_of_adder rfl rfl rfl rfl, tests_flagsOfSum ..⟩
  · rw [aluSubw_run]
    exact ⟨subtracts_of_adder (by decide) (by decide) rfl rfl rfl rfl, tests_flagsOfSum ..⟩
  · rw [insnCmpwYaD, insnSubwYaDp, outcome_aluYa_load, outcome_aluYa_load, Option.map_map,
      Option.map_map]
    congr 1
    funext r
    exact aluCmpw_run r.1 r.2.cpu

end SpuKit.Spc700
