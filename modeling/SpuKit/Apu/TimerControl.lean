import SpuKit.Apu

/-!
# What CTRL does to the timers

Bits 0 to 2 of CTRL should each control the timer of their number: a divider is
latched when the bit is toggled on, as the comment on the divider registers
says, and a timer that is on already goes on. The source sets a timer up
whenever its bit is stored as set, and its branch for bit 2 sets up timer 1.

## Main definitions

- `ctrlTimer` — what a bit should do to its timer
- `CtrlExact` — the store does no more and no less to a timer

## Main results

- `ctrl_timers_iff` — which stores treat which timer as they should
-/

namespace SpuKit

/-- The bit of CTRL that controls a timer. -/
def ctrlT : Fin 3 → Byte
  | 0 => ctrlT0
  | 1 => ctrlT1
  | 2 => ctrlT2

/-- A timer together with its output register. -/
def timerOf (index : Fin 3) (a : Apu) : Timer × Byte := (a.t index, a.s (apuTout index))

/-- What storing its bit should do to a timer: 0 disables it, 1 sets it up from
    its divider if it is disabled, and leaves it alone if it is enabled. -/
def ctrlTimer (bit : Bool) (div : Byte) (p : Timer × Byte) : Timer × Byte :=
  if bit = false then ({ p.1 with enabled := false }, p.2)
  else if p.1.enabled = true then p
  else ({ cycles := 0, target := if div = 0 then 256 else div.setWidth 16, enabled := true }, 0)

/-- The timer is just as its divider would set it up now. -/
def JustStarted (index : Fin 3) (a : Apu) : Prop :=
  timerOf index a = (timerInit (a.s (apuTdiv index)), 0)

instance (index : Fin 3) (a : Apu) : Decidable (JustStarted index a) :=
  inferInstanceAs (Decidable (_ = _))

/-- The store treats the timer as it should:

    * timer 0, unless it is on and stays on, and has counted since it was set up;
    * timer 1, unless the same holds of it, or bit 2 sets it up instead of bit 1;
    * timer 2, unless it is to be turned on. -/
def CtrlExact (byte : Byte) (a : Apu) : Fin 3 → Prop
  | 0 => byte &&& ctrlT0 ≠ 0 → (a.t 0).enabled = true → JustStarted 0 a
  | 1 => (byte &&& ctrlT1 = 0 → byte &&& ctrlT2 = 0) ∧
      (byte &&& ctrlT1 ≠ 0 → (a.t 1).enabled = true → JustStarted 1 a)
  | 2 => byte &&& ctrlT2 ≠ 0 → (a.t 2).enabled = true

instance CtrlExact.decidable (byte : Byte) (a : Apu) :
    (index : Fin 3) → Decidable (CtrlExact byte a index)
  | 0 => inferInstanceAs (Decidable (_ → _))
  | 1 => inferInstanceAs (Decidable (_ ∧ _))
  | 2 => inferInstanceAs (Decidable (_ → _))

section Outputs

variable (byte : Byte) (a : Apu)

@[simp] theorem timerEnable_tout (index k : Fin 3) (a : Apu) :
    (timerEnable index a).s (apuTout k) = if k = index then 0 else a.s (apuTout k) :=
  (Function.update_apply ..).trans (if_congr (by revert index k; decide) rfl rfl)

/-- Clearing ports clears no output. -/
theorem update_io_tout (s : Sram) (i j : Fin 4) (k : Fin 3) :
    Function.update (Function.update s (apuIo i) 0) (apuIo j) 0 (apuTout k) = s (apuTout k) := by
  have hne : ∀ (i : Fin 4) (k : Fin 3), apuTout k ≠ apuIo i := by decide
  rw [Function.update_of_ne (hne j k), Function.update_of_ne (hne i k)]

theorem apuCtrlRegs_tout0 :
    (apuCtrlRegs byte a).s (apuTout 0) = if byte &&& ctrlT0 ≠ 0 then 0 else a.s (apuTout 0) := by
  simp only [apuCtrlRegs, apply_ite Apu.s, apply_ite (fun s : Sram => s (apuTout 0)),
    update_io_tout, ite_self]
  by_cases h0 : byte &&& ctrlT0 = 0#8 <;> by_cases h1 : byte &&& ctrlT1 = 0#8 <;>
    by_cases h2 : byte &&& ctrlT2 = 0#8 <;> simp [h0, h1, h2]

theorem apuCtrlRegs_tout1 :
    (apuCtrlRegs byte a).s (apuTout 1) =
      if byte &&& ctrlT1 ≠ 0 ∨ byte &&& ctrlT2 ≠ 0 then 0 else a.s (apuTout 1) := by
  simp only [apuCtrlRegs, apply_ite Apu.s, apply_ite (fun s : Sram => s (apuTout 1)),
    update_io_tout, ite_self]
  by_cases h0 : byte &&& ctrlT0 = 0#8 <;> by_cases h1 : byte &&& ctrlT1 = 0#8 <;>
    by_cases h2 : byte &&& ctrlT2 = 0#8 <;> simp [h0, h1, h2]

/-- The output of timer 2 is never cleared. -/
theorem apuCtrlRegs_tout2 : (apuCtrlRegs byte a).s (apuTout 2) = a.s (apuTout 2) := by
  simp only [apuCtrlRegs, apply_ite Apu.s, apply_ite (fun s : Sram => s (apuTout 2)),
    update_io_tout, ite_self]
  by_cases h0 : byte &&& ctrlT0 = 0#8 <;> by_cases h1 : byte &&& ctrlT1 = 0#8 <;>
    by_cases h2 : byte &&& ctrlT2 = 0#8 <;> simp [h0, h1, h2]

end Outputs

section Timers

variable (byte : Byte) (a : Apu)

/-- A timer that was set up is as it should be, unless it was to go on. -/
theorem timerInit_eq_ctrlTimer_iff (div : Byte) (p : Timer × Byte) :
    (timerInit div, 0) = ctrlTimer true div p ↔ (p.1.enabled = true → p = (timerInit div, 0)) := by
  rw [ctrlTimer]
  rw [if_neg (by decide)]
  by_cases he : p.1.enabled = true
  · rw [if_pos he]
    exact ⟨fun h _ => h.symm, fun h => (h he).symm⟩
  · rw [if_neg he]
    refine iff_of_true ?_ fun h => absurd h he
    by_cases hdiv : div = 0 <;> simp [timerInit, hdiv]

/-- Bit 0 sets timer 0 up or disables it. -/
theorem timerOf_zero_apuCtrlRegs_iff :
    timerOf 0 (apuCtrlRegs byte a) =
        ctrlTimer (byte &&& ctrlT0 != 0) (a.s (apuTdiv 0)) (timerOf 0 a) ↔
      (byte &&& ctrlT0 ≠ 0 → (a.t 0).enabled = true → JustStarted 0 a) := by
  by_cases h0 : byte &&& ctrlT0 = 0
  · rw [timerOf, apuCtrlRegs_t0, apuCtrlRegs_tout0, if_neg (not_not.mpr h0),
      if_neg (not_not.mpr h0), h0]
    exact iff_of_true rfl fun h => absurd rfl h
  · rw [timerOf, apuCtrlRegs_t0, apuCtrlRegs_tout0, if_pos h0, if_pos h0, bne_iff_ne.mpr h0,
      timerInit_eq_ctrlTimer_iff]
    exact ⟨fun h _ => h, fun h => h h0⟩

/-- Bit 1 or bit 2 sets timer 1 up. -/
theorem timerOf_one_apuCtrlRegs_iff :
    timerOf 1 (apuCtrlRegs byte a) =
        ctrlTimer (byte &&& ctrlT1 != 0) (a.s (apuTdiv 1)) (timerOf 1 a) ↔
      (byte &&& ctrlT1 = 0 → byte &&& ctrlT2 = 0) ∧
        (byte &&& ctrlT1 ≠ 0 → (a.t 1).enabled = true → JustStarted 1 a) := by
  rw [timerOf, apuCtrlRegs_t1, apuCtrlRegs_tout1]
  by_cases h1 : byte &&& ctrlT1 = 0
  · by_cases h2 : byte &&& ctrlT2 = 0
    · rw [if_neg (by simp [h1, h2]), if_neg (by simp [h1, h2]), h1]
      exact iff_of_true rfl ⟨fun _ => h2, fun h => absurd rfl h⟩
    · -- timer 1 is enabled although its bit is clear
      rw [if_pos (Or.inr h2), if_pos (Or.inr h2), h1]
      refine iff_of_false (fun h => ?_) fun h => h2 (h.1 rfl)
      have henabled : true = false := congrArg (fun p => p.1.enabled) h
      exact absurd henabled (by decide)
  · rw [if_pos (Or.inl h1), if_pos (Or.inl h1), bne_iff_ne.mpr h1, timerInit_eq_ctrlTimer_iff]
    exact ⟨fun h => ⟨fun hz => absurd hz h1, fun _ => h⟩, fun h => h.2 h1⟩

/-- Bit 2 disables timer 2 and never sets it up. -/
theorem timerOf_two_apuCtrlRegs_iff :
    timerOf 2 (apuCtrlRegs byte a) =
        ctrlTimer (byte &&& ctrlT2 != 0) (a.s (apuTdiv 2)) (timerOf 2 a) ↔
      (byte &&& ctrlT2 ≠ 0 → (a.t 2).enabled = true) := by
  rw [timerOf, apuCtrlRegs_t2, apuCtrlRegs_tout2]
  by_cases h2 : byte &&& ctrlT2 = 0
  · rw [if_neg (not_not.mpr h2), h2]
    exact iff_of_true rfl fun h => absurd rfl h
  · rw [if_pos h2, bne_iff_ne.mpr h2, ctrlTimer, if_neg (by decide)]
    by_cases he : (timerOf 2 a).1.enabled = true
    · rw [if_pos he]
      exact iff_of_true rfl fun _ => he
    · rw [if_neg he]
      refine iff_of_false (fun h => ?_) fun h => he (h h2)
      exact he (congrArg (fun p => p.1.enabled) h)

/-- The byte of CTRL itself is no part of a timer. -/
theorem timerOf_update_ctrl (index : Fin 3) :
    timerOf index { a with s := Function.update a.s apuCtrl byte } = timerOf index a :=
  Prod.ext rfl (Function.update_of_ne (apuTout_plain index).1 ..)

theorem tdiv_update_ctrl (s : Sram) (index : Fin 3) :
    Function.update s apuCtrl byte (apuTdiv index) = s (apuTdiv index) := by
  have hne : ∀ index : Fin 3, apuTdiv index ≠ apuCtrl := by decide
  exact Function.update_of_ne (hne index) ..

theorem justStarted_update_ctrl (index : Fin 3) :
    JustStarted index { a with s := Function.update a.s apuCtrl byte } ↔ JustStarted index a := by
  simp only [JustStarted, timerOf_update_ctrl, tdiv_update_ctrl]

end Timers

/-- **What CTRL does to the timers.** A store to CTRL returns, and it does to a
    timer what the bit of its number should do, given the timer, its output and
    its divider alone, just when it is one of the stores that get it right. -/
theorem ctrl_timers_iff (b : Build) (byte : Byte) (m : Machine) :
    ∃ m', apuMmioStore b (apuAddr apuCtrl) byte m = some ((), m') ∧
      ∀ index : Fin 3,
        timerOf index m'.apu =
            ctrlTimer (byte &&& ctrlT index != 0) (m.apu.s (apuTdiv index))
              (timerOf index m.apu) ↔
          CtrlExact byte m.apu index := by
  refine ⟨_, apuMmioStore_ctrl b byte m, fun index => ?_⟩
  rw [apuCtrlStore, apuSetShowIplRom_apu, ← timerOf_update_ctrl byte m.apu index,
    ← tdiv_update_ctrl byte m.apu.s index]
  match index with
  | 0 =>
    rw [CtrlExact, ← justStarted_update_ctrl byte]
    exact timerOf_zero_apuCtrlRegs_iff byte _
  | 1 =>
    rw [CtrlExact, ← justStarted_update_ctrl byte]
    exact timerOf_one_apuCtrlRegs_iff byte _
  | 2 => exact timerOf_two_apuCtrlRegs_iff byte _

/-- Bit 2 enables timer 1 and leaves timer 2 disabled. -/
theorem ctrl_enables_other_timer :
    ¬ ∀ (byte : Byte) (m m' : Machine),
      apuMmioStore .fast (apuAddr apuCtrl) byte m = some ((), m') →
        ∀ index : Fin 3, timerOf index m'.apu =
          ctrlTimer (byte &&& ctrlT index != 0) (m.apu.s (apuTdiv index))
            (timerOf index m.apu) := by
  intro h
  have htimer := h ctrlT2 .init _ (apuMmioStore_ctrl .fast ctrlT2 .init) 2
  revert htimer
  decide +kernel

end SpuKit
