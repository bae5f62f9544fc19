import SpuKit.Dsp.Counters
import SpuKit.Lib.Periodic
import Mathlib.Logic.Function.Iterate

/-!
# The periods of the rates

Each rate counter is stepped by a prescaler of period 1, 3 or 5, and a rate
fires when the masked counter is zero just after it was stepped. The masks are
one below a power of two, so the wrap of the 32-bit counters is not seen and
every rate fires with its exact period for ever.

## Main definitions

- `ratePeriod` — the period of a rate
- `Counters.At` — where the counters are so many samples after `ctr_init`

## Main results

- `Counters.At.ctrRun` — a sample moves the counters on
- `ctrRead_firesEvery` — when a rate fires
- `rates_fire_periodically` — once in every period, and rate 0 never
-/

namespace SpuKit

/-- The counter that paces a rate. -/
def rateCounter (r : Fin 32) : Fin 3 := Fin.ofNat 3 (ctrNumber r).toNat

/-- `ctr_rate[c] * (ctr_mask[r] + 1)` for the counter `c` of the rate. -/
def ratePeriod (r : Fin 32) : Nat :=
  (ctrRate (rateCounter r)).toNat * ((ctrMask r).toNat + 1)

/-- How far into its period each prescaler starts. -/
def ctrPhase : Fin 3 → Nat := ![0, 1, 2]

/-- Where the counters are `t` samples after `ctr_init`: the prescalers count
    down from their periods, and each counter was stepped once in every period. -/
structure Counters.At (t : Nat) (c : Counters) : Prop where
  internal : ∀ k, (c.internal k).toNat =
    (ctrRate k).toNat - (t + ctrPhase k) % (ctrRate k).toNat
  out : ∀ k, c.out k = ctrInitial k + BitVec.ofNat 32 ((t + ctrPhase k) / (ctrRate k).toNat)

theorem Counters.at_init : Counters.At 0 ctrInit where
  internal := by decide
  out := by decide

section Prescaler

variable (k : Fin 3) (period : Byte) (c : Counters)

theorem ctrPrescale_of_ne {j : Fin 3} (h : j ≠ k) :
    (ctrPrescale k period c).internal j = c.internal j ∧
      (ctrPrescale k period c).out j = c.out j := by
  rw [ctrPrescale]
  split <;> simp [h]

theorem ctrPrescale_self :
    (ctrPrescale k period c).internal k =
        (if c.internal k - 1 = 0 then period else c.internal k - 1) ∧
      (ctrPrescale k period c).out k =
        if c.internal k - 1 = 0 then c.out k + 1 else c.out k := by
  rw [ctrPrescale]
  simp only [Function.update_self]
  split_ifs <;> simp

variable {k period c} {start : BitVec 32} {t : Nat}

/-- One step of a prescaler that is `t` steps into its run. -/
theorem ctrPrescale_at (hperiod : 0 < period.toNat)
    (hinternal : (c.internal k).toNat = period.toNat - t % period.toNat)
    (hout : c.out k = start + BitVec.ofNat 32 (t / period.toNat)) :
    ((ctrPrescale k period c).internal k).toNat = period.toNat - (t + 1) % period.toNat ∧
      (ctrPrescale k period c).out k =
        start + BitVec.ofNat 32 ((t + 1) / period.toNat) := by
  obtain ⟨hint', hout'⟩ := ctrPrescale_self k period c
  have hlt : t % period.toNat < period.toNat := Nat.mod_lt _ hperiod
  have hone : (1 : Byte).toNat = 1 := rfl
  have hsub : (c.internal k - 1).toNat = period.toNat - t % period.toNat - 1 := by
    rw [BitVec.toNat_sub_of_le (by rw [BitVec.le_def, hinternal, hone]; omega), hinternal, hone]
  have hzero : c.internal k - 1 = 0 ↔ t % period.toNat + 1 = period.toNat := by
    have hnat : (0 : Byte).toNat = 0 := rfl
    rw [← BitVec.toNat_inj, hsub, hnat]
    omega
  rw [hint', hout', hout]
  by_cases hlast : t % period.toNat + 1 = period.toNat
  · -- the period is over: reload, and step the counter
    obtain ⟨hdiv, hmod⟩ := Periodic.succ_of_last hlast
    rw [if_pos (hzero.mpr hlast), if_pos (hzero.mpr hlast), hdiv, hmod, BitVec.add_assoc,
      BitVec.ofNat_add]
    exact ⟨rfl, rfl⟩
  · obtain ⟨hdiv, hmod⟩ := Periodic.succ_of_not_last hperiod hlast
    rw [if_neg (fun h => hlast (hzero.mp h)), if_neg (fun h => hlast (hzero.mp h)), hdiv, hmod,
      hsub]
    exact ⟨by omega, rfl⟩

end Prescaler

/-- The first counter has no prescaler. -/
theorem ctrRun_zero (c : Counters) :
    (ctrRun c).internal 0 = c.internal 0 ∧ (ctrRun c).out 0 = c.out 0 + 1 := by
  have h01 : (0 : Fin 3) ≠ 1 := by decide
  have h02 : (0 : Fin 3) ≠ 2 := by decide
  rw [ctrRun]
  rw [(ctrPrescale_of_ne 2 5 _ h02).1, (ctrPrescale_of_ne 2 5 _ h02).2,
    (ctrPrescale_of_ne 1 3 _ h01).1, (ctrPrescale_of_ne 1 3 _ h01).2]
  exact ⟨rfl, Function.update_self (0 : Fin 3) (c.out 0 + 1) c.out⟩

/-- **Step**: a sample moves all three counters on. -/
theorem Counters.At.ctrRun {t : Nat} {c : Counters} (h : Counters.At t c) :
    Counters.At (t + 1) (ctrRun c) := by
  have hcounter : ∀ k, ((SpuKit.ctrRun c).internal k).toNat =
        (ctrRate k).toNat - (t + ctrPhase k + 1) % (ctrRate k).toNat ∧
      (SpuKit.ctrRun c).out k =
        ctrInitial k + BitVec.ofNat 32 ((t + ctrPhase k + 1) / (ctrRate k).toNat) := by
    intro k
    have hint := h.internal k
    have hout := h.out k
    match k with
    | 0 =>
      have hone : (ctrRate 0).toNat = 1 := rfl
      have hsucc : BitVec.ofNat 32 (t + ctrPhase 0 + 1) = BitVec.ofNat 32 (t + ctrPhase 0) + 1 :=
        BitVec.ofNat_add _ _
      rw [hone, Nat.mod_one] at hint
      rw [hone, Nat.div_one] at hout
      rw [(ctrRun_zero c).1, (ctrRun_zero c).2, hone, Nat.mod_one, Nat.div_one, hout,
        hsucc, BitVec.add_assoc]
      exact ⟨hint, rfl⟩
    | 1 =>
      have h12 : (1 : Fin 3) ≠ 2 := by decide
      have h10 : (1 : Fin 3) ≠ 0 := by decide
      rw [SpuKit.ctrRun, (ctrPrescale_of_ne 2 5 _ h12).1, (ctrPrescale_of_ne 2 5 _ h12).2]
      exact ctrPrescale_at (by decide) hint
        ((Function.update_of_ne h10 (c.out 0 + 1) c.out).trans hout)
    | 2 =>
      have h21 : (2 : Fin 3) ≠ 1 := by decide
      have h20 : (2 : Fin 3) ≠ 0 := by decide
      exact ctrPrescale_at (by decide)
        ((congrArg BitVec.toNat (ctrPrescale_of_ne 1 3 _ h21).1).trans hint)
        ((ctrPrescale_of_ne 1 3 _ h21).2.trans
          ((Function.update_of_ne h20 (c.out 0 + 1) c.out).trans hout))
  constructor
  · intro k
    rw [(hcounter k).1, Nat.add_right_comm]
  · intro k
    rw [(hcounter k).2, Nat.add_right_comm]

/-- The counters after any number of samples. -/
theorem Counters.at_iterate (t : Nat) : Counters.At t (SpuKit.ctrRun^[t] ctrInit) := by
  induction t with
  | zero => exact Counters.at_init
  | succ t ih =>
    rw [Function.iterate_succ_apply']
    exact ih.ctrRun

/-- The masks are one below a power of two that the counters wrap at. -/
theorem masked_eq_zero_iff (r : Fin 32) (x : BitVec 32) :
    x &&& (ctrMask r).setWidth 32 = 0 ↔ x.toNat % ((ctrMask r).toNat + 1) = 0 := by
  have hmask : ∀ r : Fin 32, ∃ b : Fin 12, (ctrMask r).toNat = 2 ^ b.val - 1 := by decide
  obtain ⟨b, hb⟩ := hmask r
  have hpos : 0 < 2 ^ b.val := Nat.two_pow_pos _
  have hzero : (0 : BitVec 32).toNat = 0 := rfl
  rw [← BitVec.toNat_inj, BitVec.toNat_and, BitVec.toNat_setWidth, Nat.mod_eq_of_lt (by omega), hb,
    Nat.and_two_pow_sub_one_eq_mod, hzero, Nat.sub_add_cancel hpos]

/-- The wrap of a counter is not seen through a mask. -/
theorem mod_mask_add (r : Fin 32) (start : BitVec 32) (q : Nat) :
    (start + BitVec.ofNat 32 q).toNat % ((ctrMask r).toNat + 1) =
      (start.toNat + q) % ((ctrMask r).toNat + 1) := by
  have hdvd : ∀ r : Fin 32, (ctrMask r).toNat + 1 ∣ 2 ^ 32 := by decide
  rw [BitVec.toNat_add, BitVec.toNat_ofNat, Nat.add_mod_mod, Nat.mod_mod_of_dvd _ (hdvd r)]

theorem ctrRead_eq (c : Counters) (r : Fin 32) :
    ctrRead c r =
      if r = 0 then false
      else if c.out (rateCounter r) &&& (ctrMask r).setWidth 32 ≠ 0 then false
      else c.internal (rateCounter r) == ctrRate (rateCounter r) := by
  have hself : Fin.ofNat 32 r.val = r := Fin.ofNat_val_eq_self r
  simp only [ctrRead, hself]
  rfl

/-- When a rate fires, on counters that are `t` samples into their run. -/
theorem Counters.At.ctrRead_iff {t : Nat} {c : Counters} (h : Counters.At t c) {r : Fin 32}
    (hr : r ≠ 0) :
    ctrRead c r = true ↔
      (t + (ctrPhase (rateCounter r) +
        (ctrRate (rateCounter r)).toNat * (ctrInitial (rateCounter r)).toNat)) % ratePeriod r =
          0 := by
  have hpos : ∀ k, 0 < (ctrRate k).toNat := by decide
  have hint := h.internal (rateCounter r)
  have hreload : c.internal (rateCounter r) = ctrRate (rateCounter r) ↔
      (t + ctrPhase (rateCounter r)) % (ctrRate (rateCounter r)).toNat = 0 := by
    have hlt := Nat.mod_lt (t + ctrPhase (rateCounter r)) (hpos (rateCounter r))
    rw [← BitVec.toNat_inj, hint]
    omega
  have hmasked : c.out (rateCounter r) &&& (ctrMask r).setWidth 32 = 0 ↔
      ((ctrInitial (rateCounter r)).toNat +
        (t + ctrPhase (rateCounter r)) / (ctrRate (rateCounter r)).toNat) %
          ((ctrMask r).toNat + 1) = 0 := by
    rw [masked_eq_zero_iff, h.out, mod_mask_add]
  have hread : ctrRead c r = true ↔
      c.out (rateCounter r) &&& (ctrMask r).setWidth 32 = 0 ∧
        c.internal (rateCounter r) = ctrRate (rateCounter r) := by
    rw [ctrRead_eq, if_neg hr]
    split_ifs with hmask
    · exact iff_of_false not_false fun hfire => hmask hfire.1
    · rw [beq_iff_eq]
      exact (and_iff_right (not_not.mp hmask)).symm
  rw [hread, hreload, hmasked, ratePeriod, ← Nat.add_assoc, ← Periodic.cascade (hpos _)]
  exact And.comm

theorem ratePeriod_pos (r : Fin 32) : 0 < ratePeriod r := by
  have hpos : ∀ k, 0 < (ctrRate k).toNat := by decide
  exact Nat.mul_pos (hpos _) (Nat.succ_pos _)

/-- A rate but the first is a periodic signal over the samples since
    `ctr_init`. -/
theorem ctrRead_firesEvery {r : Fin 32} (hr : r ≠ 0) :
    Periodic.FiresEvery (ratePeriod r)
      (ctrPhase (rateCounter r) +
        (ctrRate (rateCounter r)).toNat * (ctrInitial (rateCounter r)).toNat)
      fun t => ctrRead (ctrRun^[t] ctrInit) r = true :=
  fun t => (Counters.at_iterate t).ctrRead_iff hr

/-- **Exact periods.** From `ctr_init` on, every rate from 1 to 31 fires after
    exactly one of any `ctr_rate * (ctr_mask + 1)` consecutive samples, however
    often the 32-bit counters wrapped; rate 0 never fires. -/
theorem rates_fire_periodically (r : Fin 32) (n : Nat) :
    if r = 0 then ctrRead (ctrRun^[n] ctrInit) r = false
    else ∃! k, n < k ∧ k ≤ n + ratePeriod r ∧ ctrRead (ctrRun^[k] ctrInit) r = true := by
  split
  · next hr =>
    rw [hr]
    rfl
  · next hr => exact (ctrRead_firesEvery hr).existsUnique (ratePeriod_pos r) n

end SpuKit
