import SpuKit.Dsp.Cursor
import SpuKit.Lib.Predictor

/-!
# What one group decodes to

The four samples of a group as the outputs of a predictive decoder: the scaled
nibbles are its inputs, the two samples before the group its history, and the
four filters its predictors.

## Main definitions

- `predictor` — the filters, as fractions of the two samples before
- `GroupAt`, `GroupAt.input` — where a group lies, and its scaled nibbles
- `historyOf` — the two samples a voice decoded last

## Main results

- `groupSamples_eq` — a group is predicted from unrounded samples
- `historyOf_brrSample4` — the next group continues from rounded ones
-/

namespace SpuKit

open Predictor

section Coefficients

theorem coeff1Mul_eq (p : Int) : coeff1Mul p = 15 * p / 16 := by
  rw [coeff1Mul, Int.shiftRight_eq_div_pow]
  omega

theorem coeff2Mul_eq (p : Int) : coeff2Mul p = 61 * p / 32 := by
  rw [coeff2Mul, Int.shiftRight_eq_div_pow, Int.shiftLeft_eq]
  omega

theorem coeff3Mul_eq (p : Int) : coeff3Mul p = 115 * p / 64 := by
  rw [coeff3Mul, Int.shiftRight_eq_div_pow, Int.shiftLeft_eq]
  omega

theorem coeff4Mul_eq (p : Int) : coeff4Mul p = 13 * p / 16 := by
  rw [coeff4Mul, Int.shiftRight_eq_div_pow]
  omega

end Coefficients

/-- What a filter predicts from the previous sample and the one before it. -/
def predictor (filter : Byte) (p q : Int) : Int :=
  if filter = 0 <<< 2 then 0
  else if filter = 1 <<< 2 then 15 * p / 16
  else if filter = 2 <<< 2 then 61 * p / 32 - 15 * q / 16
  else 115 * p / 64 - 13 * q / 16

section Filters

variable (x p q : Int)

theorem add_predictor0 : x + predictor (0 <<< 2) p q = x := add_zero x

theorem add_predictor1 : x + predictor (1 <<< 2) p q = brrFilter1 x p := by
  rw [brrFilter1, coeff1Mul_eq]
  rfl

theorem add_predictor2 : x + predictor (2 <<< 2) p q = brrFilter2 x p q := by
  rw [brrFilter2, coeff1Mul_eq, coeff2Mul_eq, add_sub_assoc]
  rfl

theorem add_predictor3 : x + predictor (3 <<< 2) p q = brrFilter3 x p q := by
  rw [brrFilter3, coeff3Mul_eq, coeff4Mul_eq, add_sub_assoc]
  rfl

end Filters

/-- A prediction grows at most fourfold. -/
theorem predictor_bounds (filter : Byte) {bound x p q : Int} (hbound : 0x4000 ≤ bound)
    (hx : -0x4000 ≤ x ∧ x ≤ 0x3800) (hp : -bound ≤ p ∧ p ≤ bound) (hq : -bound ≤ q ∧ q ≤ bound) :
    -(4 * bound) ≤ x + predictor filter p q ∧ x + predictor filter p q ≤ 4 * bound := by
  rw [predictor]
  split_ifs
  · omega
  · omega
  · omega
  · omega

/-- The value saturated to 16 bits. -/
def saturate (val : Int) : Int := max (-0x8000) (min val 0x7fff)

/-- Where `brr_sample4` finds a group: its block, the offset of its two bytes and
    the header. -/
structure GroupAt where
  addr : Word
  off : Byte
  hdr : Byte

def VState.groupAt (st : VState) : GroupAt := ⟨st.brrAddr, st.brrOff, st.brrHdr⟩

namespace GroupAt

variable (m : Mem) (g : GroupAt)

def filter : Byte := g.hdr &&& (0x03 <<< 2)

def shift : Nat := if (g.hdr >>> 4).toNat > 12 then 12 else (g.hdr >>> 4).toNat

/-- The two bytes of the group. -/
def byte (k : Fin 2) : Byte :=
  m.load (g.addr.toNat + (if k = 0 then g.off else g.off + 1).toNat)

/-- The four signed nibbles, in the order in which they are decoded. -/
def nibble : Fin 4 → Short
  | 0 => (brrPairExtract (g.byte m 0)).s0
  | 1 => (brrPairExtract (g.byte m 0)).s1
  | 2 => (brrPairExtract (g.byte m 1)).s0
  | 3 => (brrPairExtract (g.byte m 1)).s1

/-- A nibble times `2 ^ shift`, halved. -/
def input (k : Fin 4) : Int := (g.nibble m k).toInt * 2 ^ g.shift / 2

/-- The four samples as functions of the two before them. -/
def inputs : List Input :=
  (List.finRange 4).map fun k p q => g.input m k + predictor g.filter p q

theorem shift_le : g.shift ≤ 12 := by
  rw [shift]
  split <;> omega

/-- Scaling a nibble does not overflow. -/
theorem scaled_nibble (n : BitVec 4) {shift : Nat} (h : shift < 13) :
    let val := (n.signExtend 16).toInt
    (-8 ≤ val ∧ val ≤ 7) ∧
      (toShort ((val <<< shift) >>> (1 : Nat))).toInt = val * 2 ^ shift / 2 ∧
      -0x4000 ≤ val * 2 ^ shift / 2 ∧ val * 2 ^ shift / 2 ≤ 0x3800 := by
  have hall : ∀ n : BitVec 4, ∀ s : Nat, s < 13 → let val := (n.signExtend 16).toInt
      (-8 ≤ val ∧ val ≤ 7) ∧
        (toShort ((val <<< s) >>> (1 : Nat))).toInt = val * 2 ^ s / 2 ∧
        -0x4000 ≤ val * 2 ^ s / 2 ∧ val * 2 ^ s / 2 ≤ 0x3800 := by decide +kernel
  exact hall n shift h

theorem nibble_spec (k : Fin 4) :
    (-8 ≤ (g.nibble m k).toInt ∧ (g.nibble m k).toInt ≤ 7) ∧
      (toShort (((g.nibble m k).toInt <<< g.shift) >>> (1 : Nat))).toInt = g.input m k ∧
      -0x4000 ≤ g.input m k ∧ g.input m k ≤ 0x3800 := by
  have hshift : g.shift < 13 := Nat.lt_succ_of_le g.shift_le
  match k with
  | 0 | 1 | 2 | 3 => exact scaled_nibble _ hshift

end GroupAt

/-- The two samples a voice decoded last, the newest first. -/
def historyOf (st : VState) : Int × Int :=
  ((vfilterState st).val.old.toInt, (vfilterState st).val.older.toInt)

section Group

variable (m : Mem) (st : VState)

/-- The switch of `brr_sample4` as one predictor. -/
theorem brrPredict_val (hdr : Byte) (in0 in1 : BrrPair) (prev : BrrFilterState) :
    let F := predictor (hdr &&& (0x03 <<< 2))
    let a := in0.s0.toInt + F prev.old.toInt prev.older.toInt
    let b := in0.s1.toInt + F a prev.old.toInt
    let c := in1.s0.toInt + F b a
    (brrPredict (hdr &&& (0x03 <<< 2)) in0 in1 prev).val = (a, b, c, in1.s1.toInt + F c b) := by
  intro F a b c
  rcases filter_cases hdr with h | h | h | h
  · simp only [a, b, c, F, h, add_predictor0]
    rfl
  · simp only [a, b, c, F, h, add_predictor1]
    rfl
  · simp only [a, b, c, F, h, add_predictor2]
    rfl
  · simp only [a, b, c, F, h, add_predictor3]
    rfl

/-- The predictions of a group, each from unrounded ones. -/
theorem groupOf_eq :
    [(groupOf m st).1, (groupOf m st).2.1, (groupOf m st).2.2.1, (groupOf m st).2.2.2] =
      closedLoop id (st.groupAt.inputs m) (historyOf st) := by
  have hinput := fun k => (st.groupAt.nibble_spec m k).2.1
  let pair (k : Fin 2) := brrPairScale (brrPairExtract (st.groupAt.byte m k)) st.groupAt.shift
  have h0 : (pair 0).s0.toInt = st.groupAt.input m 0 := hinput 0
  have h1 : (pair 0).s1.toInt = st.groupAt.input m 1 := hinput 1
  have h2 : (pair 1).s0.toInt = st.groupAt.input m 2 := hinput 2
  have h3 : (pair 1).s1.toInt = st.groupAt.input m 3 := hinput 3
  have hgroup : groupOf m st =
      (brrPredict st.groupAt.filter (pair 0) (pair 1) (vfilterState st).val).val := rfl
  rw [hgroup, GroupAt.filter, brrPredict_val, h0, h1, h2, h3]
  rfl

/-- The predictions of a group fit into an `int`. -/
theorem groupOf_bounds :
    ∀ u ∈ [(groupOf m st).1, (groupOf m st).2.1, (groupOf m st).2.2.1, (groupOf m st).2.2.2],
      -0x800000 ≤ u ∧ u ≤ 0x800000 := by
  have hsample : ∀ s : Short, -0x8000 ≤ s.toInt ∧ s.toInt ≤ 0x8000 := by
    intro s
    exact ⟨(short_bounds s).1, (short_bounds s).2.trans (by decide)⟩
  have hgrow : ∀ f ∈ st.groupAt.inputs m, ∀ b, 0x4000 ≤ b → ∀ p q, -b ≤ p ∧ p ≤ b →
      -b ≤ q ∧ q ≤ b → -(4 * b) ≤ f p q ∧ f p q ≤ 4 * b := by
    intro f hf b hb p q hp hq
    obtain ⟨k, -, rfl⟩ := List.mem_map.mp hf
    exact predictor_bounds st.groupAt.filter hb (st.groupAt.nibble_spec m k).2.2 hp hq
  have hbounds := closedLoop_bounds (by decide) (by decide) hgrow (b := 0x8000) (by decide)
    (h := historyOf st) (hsample (vfilterState st).val.old) (hsample (vfilterState st).val.older)
  have hlength : (st.groupAt.inputs m).length = 4 := rfl
  rw [hlength] at hbounds
  rw [groupOf_eq]
  exact hbounds

/-- **A group** is predicted from unrounded samples and rounded at its end. -/
theorem groupSamples_eq :
    (groupSamples m st).map BitVec.toInt =
      (closedLoop id (st.groupAt.inputs m) (historyOf st)).map saturate := by
  have hbounds := groupOf_bounds m st
  rw [← groupOf_eq]
  have hsamples : groupSamples m st = [(groupOf m st).1, (groupOf m st).2.1,
      (groupOf m st).2.2.1, (groupOf m st).2.2.2].map clamp16 := rfl
  rw [hsamples, List.map_map]
  apply List.map_congr_left
  intro u hu
  have hrange := hbounds u hu
  exact toInt_clamp16 (by omega) (by omega)

end Group

section History

variable (m : Mem) {st : VState} (hpos : st.bufPos = 0 ∨ st.bufPos = 4 ∨ st.bufPos = 8)

include hpos

/-- The filter state is read right behind the ring position. -/
theorem vfilterState_val :
    (vfilterState st).val =
      ⟨ringSlot st.buf ((st.bufPos.toNat + 10) % 12),
        ringSlot st.buf ((st.bufPos.toNat + 11) % 12)⟩ := by
  rw [vfilterState]
  rcases hpos with h | h | h <;> rw [h] <;> rfl

/-- The next group continues from the last two samples of this one. -/
theorem historyOf_brrSample4 :
    historyOf (brrSample4 m st).val =
      advance (historyOf st) ((groupSamples m st).map BitVec.toInt) := by
  have hval : (brrSample4 m st).val =
      { fetched st with buf := nextBuf m st, bufPos := nextBufPos st.bufPos } := by
    rw [brrSample4_val, brrStore4_val]
    rfl
  have hwin : Ring.IsWindow 12 (ringSlot (nextBuf m st)) (nextBufPos st.bufPos).toNat
      (groupSamples m st) :=
    RingHolds.decode m (Ring.isWindow_nil _ _ _) hpos
  have hlength : (groupSamples m st).length = 4 := rfl
  have holder := hwin.slot_eq (k := 10) (by decide) (by rw [hlength]; decide)
  have hold := hwin.slot_eq (k := 11) (by decide) (by rw [hlength]; decide)
  rw [hlength] at holder hold
  have hnext : (brrSample4 m st).val.bufPos = 0 ∨ (brrSample4 m st).val.bufPos = 4 ∨
      (brrSample4 m st).val.bufPos = 8 := by
    rw [hval]
    exact nextBufPos_bounded hpos
  rw [historyOf, vfilterState_val hnext, hval, ← Option.some.inj holder, ← Option.some.inj hold]
  rfl

end History

end SpuKit
