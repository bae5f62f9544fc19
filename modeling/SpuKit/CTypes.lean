import Mathlib.Logic.Function.Basic
import Mathlib.Data.BitVec

/-!
# Machine integers of the source

The unsigned and the narrow types of the C sources are bit vectors, so that
wrap-around is the wrap-around of the type. A C `int` is an unbounded `Int`:
the ranges of the intermediate values are theorems, not part of the type.
-/

namespace SpuKit

/-- `uint8_t` -/
abbrev Byte := BitVec 8

/-- `uint16_t` -/
abbrev Word := BitVec 16

/-- `int16_t`: the bits of a 16-bit word, whose value is `toInt`. -/
abbrev Short := BitVec 16

-- The array sizes of the source, so that all literal indices share one proof
-- that they are positive.

instance (priority := 2000) neZero3 : NeZero (3 : Nat) := ⟨by decide⟩

instance (priority := 2000) neZero4 : NeZero (4 : Nat) := ⟨by decide⟩

instance (priority := 2000) neZero8 : NeZero (8 : Nat) := ⟨by decide⟩

instance (priority := 2000) neZero16 : NeZero (16 : Nat) := ⟨by decide⟩

instance (priority := 2000) neZero64 : NeZero (64 : Nat) := ⟨by decide⟩

instance (priority := 2000) neZero128 : NeZero (128 : Nat) := ⟨by decide⟩

/-- The implicit conversion of an `int` to `int16_t`. -/
def toShort (val : Int) : Short := BitVec.ofInt 16 val

/-- The implicit conversion of an `int` to `uint8_t`. -/
def toByte (val : Int) : Byte := BitVec.ofInt 8 val

/-- The implicit conversion of an `int` to `unsigned int`. -/
def toUnsigned (val : Int) : Nat := (BitVec.ofInt 32 val).toNat

/-- `(hi << 8) | lo` as a `uint16_t` -/
def wordOf (hi lo : Byte) : Word := hi ++ lo

theorem toNat_wordOf (hi lo : Byte) : (wordOf hi lo).toNat = hi.toNat * 256 + lo.toNat := by
  rw [wordOf, BitVec.toNat_append, ← Nat.shiftLeft_add_eq_or_of_lt lo.isLt, Nat.shiftLeft_eq]

/-- A word has one high and one low byte. -/
theorem wordOf_inj {hi lo hi' lo' : Byte} :
    wordOf hi lo = wordOf hi' lo' ↔ hi = hi' ∧ lo = lo' := by
  constructor
  · intro h
    have hval := congrArg BitVec.toNat h
    rw [toNat_wordOf, toNat_wordOf] at hval
    have hlo := lo.isLt
    have hlo' := lo'.isLt
    exact ⟨BitVec.eq_of_toNat_eq (by omega), BitVec.eq_of_toNat_eq (by omega)⟩
  · rintro ⟨rfl, rfl⟩
    rfl

@[simp] theorem lo_wordOf (hi lo : Byte) : (wordOf hi lo).setWidth 8 = lo := by
  apply BitVec.eq_of_toNat_eq
  rw [BitVec.toNat_setWidth, toNat_wordOf]
  have hlo := lo.isLt
  omega

@[simp] theorem hi_wordOf (hi lo : Byte) : (wordOf hi lo >>> 8).setWidth 8 = hi := by
  apply BitVec.eq_of_toNat_eq
  rw [BitVec.toNat_setWidth, BitVec.toNat_ushiftRight, toNat_wordOf, Nat.shiftRight_eq_div_pow]
  have hlo := lo.isLt
  have hhi := hi.isLt
  omega

/-- A word is made of its bytes. -/
theorem wordOf_bytes (val : Word) : wordOf ((val >>> 8).setWidth 8) (val.setWidth 8) = val := by
  rw [wordOf]
  apply BitVec.eq_of_getLsbD_eq
  intro k hk
  rw [BitVec.getLsbD_append]
  by_cases h : k < 8
  · simp [h]
  · have hk' : 8 + (k - 8) = k := by omega
    have hlt : k - 8 < 8 := by omega
    simp [h, hk', hlt]

/-- The values of an `int16_t`. -/
theorem short_bounds (v : Short) : -0x8000 ≤ v.toInt ∧ v.toInt ≤ 0x7fff :=
  ⟨BitVec.le_toInt v, BitVec.toInt_le⟩

theorem toInt_toShort {val : Int} (hlo : -0x8000 ≤ val) (hhi : val ≤ 0x7fff) :
    (toShort val).toInt = val := by
  rw [toShort, BitVec.toInt_ofInt, Int.bmod_eq_of_le] <;> omega

/-- The conversion keeps the values of the type and no others. -/
theorem toInt_toShort_eq_iff (val : Int) :
    (toShort val).toInt = val ↔ -0x8000 ≤ val ∧ val ≤ 0x7fff := by
  constructor
  · intro heq
    have hbounds := short_bounds (toShort val)
    rwa [heq] at hbounds
  · exact fun h => toInt_toShort h.1 h.2

/-- Saturate an `int` to 16 bits. -/
def clamp16 (val : Int) : Short :=
  if (toShort val).toInt ≠ val then
    ((BitVec.ofInt 32 val).sshiftRight 31 ^^^ 0x7fff).setWidth 16
  else toShort val

/-- Saturation by the sign bit of an `int`. -/
theorem toInt_clamp16 {val : Int} (hlo : -0x80000000 ≤ val) (hhi : val < 0x80000000) :
    (clamp16 val).toInt = max (-0x8000) (min val 0x7fff) := by
  have hval : (BitVec.ofInt 32 val).toInt = val := by
    rw [BitVec.toInt_ofInt, Int.bmod_eq_of_le] <;> omega
  have hshift : ((BitVec.ofInt 32 val).sshiftRight 31).toInt = val >>> (31 : Nat) := by
    rw [BitVec.toInt_sshiftRight, hval]
  rw [clamp16]
  by_cases h : (toShort val).toInt = val
  · have hrange := (toInt_toShort_eq_iff val).mp h
    rw [if_neg (not_not.mpr h), h]
    omega
  · have hrange := mt (toInt_toShort_eq_iff val).mpr h
    rw [if_pos h]
    rw [Int.shiftRight_eq_div_pow] at hshift
    by_cases hneg : val < 0
    · have hones : (BitVec.ofInt 32 val).sshiftRight 31 = -1#32 := by
        apply BitVec.eq_of_toInt_eq
        rw [hshift]
        show _ = (-1 : Int)
        omega
      rw [hones]
      show (-0x8000 : Int) = _
      omega
    · have hzero : (BitVec.ofInt 32 val).sshiftRight 31 = 0#32 := by
        apply BitVec.eq_of_toInt_eq
        rw [hshift]
        show _ = (0 : Int)
        omega
      rw [hzero]
      show (0x7fff : Int) = _
      omega

end SpuKit
