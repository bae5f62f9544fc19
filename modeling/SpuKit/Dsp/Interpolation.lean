import SpuKit.Dsp.Solo
import SpuKit.Lib.ShiftedSum
import Mathlib.Algebra.BigOperators.Fin
import Mathlib.Data.List.GetD

/-!
# The range of the interpolation

The four taps of a phase are meant to add up to 2048, the scale of the shift.
They do so up to one: at some phases they add up to 2049, and four samples at
the same end of the 16-bit range then interpolate to a value beyond it, which
the narrowing to `int16_t` turns into one of the opposite sign.

## Main definitions

- `phase`, `gaussTap`, `tapSample` — what `interpolate` reads
- `Headroom` — the samples keep away from the ends of the range

## Main results

- `interpolate_val` — the interpolation as a filter of four taps
- `interpolate_fits_iff` — when the interpolation stays within 16 bits
-/

namespace SpuKit

open ShiftedSum

/-- `interp_mid`: the phase between two samples. -/
def phase (st : VState) : Byte := toByte (st.interpPos >>> (4 : Nat))

/-- The four coefficients at a phase, for the oldest sample first. -/
def gaussTap (mid : Byte) : Fin 4 → Int
  | 0 => (gauss (255 - mid.toNat + 0)).val
  | 1 => (gauss (255 - mid.toNat + 256)).val
  | 2 => (gauss (mid.toNat + 256)).val
  | 3 => (gauss (mid.toNat + 0)).val

def gaussTapSum (mid : Byte) : Int := ∑ j, gaussTap mid j

/-- The four samples at the cursor, the oldest first. -/
def tapSample (st : VState) (j : Fin 4) : Int :=
  (bufLoadWrapped st
    (st.bufPos + (toByte (st.interpPos >>> (12 : Nat)) &&& 0x7) + BitVec.ofNat 8 j)).val.toInt

/-- The sum of the four shifted products. -/
def interpolation (st : VState) : Int := shiftedSum 11 (gaussTap (phase st)) (tapSample st)

theorem interpolate_val (st : VState) :
    (interpolate st).val = interpolation st - interpolation st % 2 := by
  rw [interpolation, shiftedSum, Fin.sum_univ_four]
  rfl

theorem tapSample_bounds (st : VState) (j : Fin 4) :
    -32768 ≤ tapSample st j ∧ tapSample st j ≤ 32767 :=
  short_bounds (bufLoadWrapped st
    (st.bufPos + (toByte (st.interpPos >>> (12 : Nat)) &&& 0x7) + BitVec.ofNat 8 j)).val

section Taps

/-- The sums of the four taps of a table, phase by phase: taps 0 and 1 walk
    their half of the table backwards. -/
def tapSums (table : List Int) : List Int :=
  List.zipWith (· + ·)
    (List.zipWith (· + ·) (table.take 256).reverse (table.drop 256).reverse)
    (List.zipWith (· + ·) (table.drop 256) (table.take 256))

theorem getD_tapSums {table : List Int} (hlen : table.length = 512) {n : Nat} (hn : n < 256) :
    n < (tapSums table).length ∧
      (tapSums table).getD n 0 =
        table.getD (255 - n) 0 + table.getD (511 - n) 0 +
          (table.getD (256 + n) 0 + table.getD n 0) := by
  have hlength : (tapSums table).length = 256 := by simp [tapSums, hlen]
  have hrev : 256 + (255 - n) = 511 - n := by omega
  refine ⟨by omega, ?_⟩
  rw [List.getD_eq_getElem _ _ (by omega), List.getD_eq_getElem _ _ (by omega),
    List.getD_eq_getElem _ _ (by omega), List.getD_eq_getElem _ _ (by omega),
    List.getD_eq_getElem _ _ (by omega)]
  simp [tapSums, hlen, hrev]

/-- The table as a list, which the bounds below walk once. -/
theorem gauss_val (n : Nat) : (gauss n).val = gaussTable.toList.getD n 0 := by
  simp only [gauss, Int.toNat_natCast, Array.getD_eq_getD_getElem?, List.getD_eq_getElem?_getD,
    Array.getElem?_toList]

theorem gaussTable_length : gaussTable.toList.length = 512 := by decide +kernel

theorem gauss_bounds (index : Int) : 0 ≤ (gauss index).val ∧ (gauss index).val ≤ 0x7fff := by
  have hall : ∀ x ∈ gaussTable.toList, 0 ≤ x ∧ x ≤ 0x7fff := by decide +kernel
  show 0 ≤ (gauss index.toNat).val ∧ (gauss index.toNat).val ≤ 0x7fff
  rw [gauss_val, List.getD_eq_getElem?_getD]
  cases hget : gaussTable.toList[index.toNat]? with
  | none => decide
  | some x => exact hall x (List.mem_of_getElem? hget)

/-- The taps by their place in the table. -/
theorem gaussTap_eq (mid : Byte) :
    gaussTap mid 0 = gaussTable.toList.getD (255 - mid.toNat) 0 ∧
      gaussTap mid 1 = gaussTable.toList.getD (511 - mid.toNat) 0 ∧
      gaussTap mid 2 = gaussTable.toList.getD (256 + mid.toNat) 0 ∧
      gaussTap mid 3 = gaussTable.toList.getD mid.toNat 0 := by
  have hlt := mid.isLt
  have h0 : (255 - mid.toNat + 0 : Int) = (255 - mid.toNat : Nat) := by omega
  have h1 : (255 - mid.toNat + 256 : Int) = (511 - mid.toNat : Nat) := by omega
  have h2 : (mid.toNat + 256 : Int) = (256 + mid.toNat : Nat) := by omega
  have h3 : (mid.toNat + 0 : Int) = (mid.toNat : Nat) := by omega
  simp only [gaussTap, h0, h1, h2, h3, gauss_val, and_self]

theorem gaussTap_bounds (mid : Byte) (j : Fin 4) :
    0 ≤ gaussTap mid j ∧ gaussTap mid j ≤ 0x7fff := by
  match j with
  | 0 | 1 | 2 | 3 => exact gauss_bounds _

theorem gaussTap_one_pos (mid : Byte) : 0 < gaussTap mid 1 := by
  have hall : ∀ x ∈ gaussTable.toList.drop 256, 0 < x := by decide +kernel
  have hlen := gaussTable_length
  have hlt := mid.isLt
  have hsplit : 511 - mid.toNat = 256 + (255 - mid.toNat) := by omega
  rw [(gaussTap_eq mid).2.1, List.getD_eq_getElem _ _ (by omega)]
  apply hall
  rw [List.mem_drop_iff_getElem]
  exact ⟨255 - mid.toNat, by omega, by simp only [hsplit]⟩

/-- The taps of a phase add up to the scale, up to one. -/
theorem gaussTapSum_bounds (mid : Byte) :
    2047 ≤ gaussTapSum mid ∧ gaussTapSum mid ≤ 2049 := by
  have hall : ∀ x ∈ tapSums gaussTable.toList, 2047 ≤ x ∧ x ≤ 2049 := by decide +kernel
  obtain ⟨hlt, hsum⟩ := getD_tapSums gaussTable_length mid.isLt
  obtain ⟨h0, h1, h2, h3⟩ := gaussTap_eq mid
  have hmem := hall _ (List.getElem_mem hlt)
  rw [← List.getD_eq_getElem _ 0, hsum, ← h0, ← h1, ← h2, ← h3] at hmem
  rw [gaussTapSum, Fin.sum_univ_four]
  omega

/-- The phases at which an interpolation can leave the range. -/
example : (tapSums gaussTable.toList).countP (2048 < ·) = 46 := by decide +kernel

end Taps

/-- What the taps make of the distances of the samples from the lower end of
    the range. -/
def roomBelow (st : VState) : Int :=
  shiftedSum 11 (gaussTap (phase st)) fun j => tapSample st j + 32768

/-- What the taps make of the distances of the samples from 32768, rounded
    up. -/
def roomAbove (st : VState) : Int :=
  -shiftedSum 11 (gaussTap (phase st)) fun j => tapSample st j - 32768

/-- The four samples keep away from both ends of the range. -/
def Headroom (st : VState) : Prop := 16 ≤ roomBelow st ∧ 16 < roomAbove st

section Range

variable (st : VState)

theorem interpolation_below :
    interpolation st = roomBelow st - 16 * gaussTapSum (phase st) := by
  have hmove := shiftedSum_add 11 (gaussTap (phase st)) (tapSample st) 16
  rw [roomBelow, interpolation, gaussTapSum]
  norm_num at hmove
  omega

theorem interpolation_above :
    interpolation st = 16 * gaussTapSum (phase st) - roomAbove st := by
  have hmove := shiftedSum_add 11 (gaussTap (phase st)) (tapSample st) (-16)
  rw [roomAbove, interpolation, gaussTapSum]
  norm_num [← sub_eq_add_neg] at hmove
  omega

theorem roomBelow_nonneg : 0 ≤ roomBelow st := by
  apply shiftedSum_nonneg fun j => (gaussTap_bounds (phase st) j).1
  intro j
  have := tapSample_bounds st j
  omega

theorem roomAbove_pos : 0 < roomAbove st := by
  have hneg : shiftedSum 11 (gaussTap (phase st)) (fun j => tapSample st j - 32768) < 0 := by
    apply shiftedSum_neg fun j => (gaussTap_bounds (phase st) j).1
    · intro j
      have := tapSample_bounds st j
      omega
    · exact ⟨1, gaussTap_one_pos (phase st)⟩
  rw [roomAbove]
  omega

end Range

/-- **The range of the interpolation.** The interpolation stays within 16 bits,
    so that narrowing it to `int16_t` loses nothing, exactly when the taps of
    its phase do not add up to more than their scale or the samples keep away
    from both ends of the range. -/
theorem interpolate_fits_iff (st : VState) :
    ((-0x8000 ≤ (interpolate st).val ∧ (interpolate st).val ≤ 0x7fff) ∧
      (toShort (interpolate st).val).toInt = (interpolate st).val) ↔
    gaussTapSum (phase st) ≤ 2048 ∨ Headroom st := by
  have hbelow := interpolation_below st
  have habove := interpolation_above st
  have hroomBelow := roomBelow_nonneg st
  have hroomAbove := roomAbove_pos st
  have hsum := gaussTapSum_bounds (phase st)
  rw [toInt_toShort_eq_iff, and_self, interpolate_val, Headroom]
  constructor
  · rintro ⟨hlo, hhi⟩
    by_cases hphase : gaussTapSum (phase st) ≤ 2048
    · exact Or.inl hphase
    · right
      constructor <;> omega
  · rintro (hphase | ⟨hlo, hhi⟩)
    · constructor <;> omega
    · constructor <;> omega

theorem loudSource_spec :
    let w := (runOps (countdownOps ++ fullLevelOps) (keyedOn loudSource)).val
    let st := primed w.mem 0 (ticked w.dsp)
    st.env = 0x7f0 ∧ (interpolate st).val = -32784 := by
  have hquiet : EchoQuiet 0 keyOnOps ⟨loudSource, .zero⟩ := by decide +kernel
  obtain ⟨hmem, hsame⟩ := keyedOn_spec hquiet
  have hops : EchoQuiet 0 (countdownOps ++ fullLevelOps) (soloKeyedOn loudSource) := by
    decide +kernel
  obtain ⟨hmem', hsame', -⟩ := soloRun_spec hmem hsame hops
  intro w st
  have hst : st = primed (soloRun 0 (countdownOps ++ fullLevelOps) (soloKeyedOn loudSource)).val.mem
      0 (ticked (soloRun 0 (countdownOps ++ fullLevelOps) (soloKeyedOn loudSource)).val.dsp) := by
    rw [← hmem', ← hsame'.ticked.primed_eq]
  rw [hst]
  decide +kernel

/-- Four samples of -32768 interpolate to -32784, which narrows to 32752. -/
theorem interpolate_overflows :
    ¬ ∀ w, Reachable w → ∀ i, let st := primed w.mem i (ticked w.dsp)
      st.env ≠ 0 → -0x8000 ≤ (interpolate st).val ∧ (interpolate st).val ≤ 0x7fff := by
  intro h
  obtain ⟨henv, hval⟩ := loudSource_spec
  have hreach := (keyedOn_reachable loudSource).step (countdownOps ++ fullLevelOps)
  have hrange := (h _ hreach 0 (by rw [henv]; decide)).1
  rw [hval] at hrange
  revert hrange
  decide

end SpuKit
