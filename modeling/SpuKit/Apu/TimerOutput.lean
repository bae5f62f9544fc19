import SpuKit.Apu.Clocks
import SpuKit.Lib.StepSystem

/-!
# What the timer outputs count

A timer output should count the periods of its timer since it was last read,
modulo 16. Two places of the source get in the way. `APU_OFF` is 0 for a
register number, so that a load of any output clears the one of timer 0 and no
other. And a store to a register sets it, also when it is an output.

## Main definitions

- `TimerOp` — a tick, a load of an output, or a store to a register
- `periodsSince` — the periods since the last load
- `CountsPeriods` — a load returns these periods, modulo 16
- `KeepsCount` — the operation meets neither of the exceptions

## Main results

- `countsPeriods_step` — one operation keeps the count just when `KeepsCount`
- `timer_out_counts_iff` — so does a run
-/

namespace SpuKit

/-- What happens to the timers. -/
inductive TimerOp where
  /-- `timer_tick(index)` -/
  | tick (index : Fin 3)
  /-- `_apu_mmio_load` of an output -/
  | load (index : Fin 3)
  /-- `_apu_mmio_store` to a register other than CTRL -/
  | store (reg : { reg : Fin 16 // reg ≠ apuCtrl }) (byte : Byte)
  deriving DecidableEq

/-- What an observer of the timers sees. -/
inductive TimerEvent where
  /-- an event of the clocks -/
  | clock (e : ClockEvent)
  /-- the output of a timer is loaded -/
  | load (index : Fin 3)
  deriving DecidableEq

/-- One operation. There is no machine behind an abort of the process. -/
def TimerOp.step (b : Build) : TimerOp → Option Machine → Traced TimerEvent (Option Machine)
  | _, none => pure none
  | .tick index, some m => some <$> (timerTick index m).tag .clock
  | .load index, some m => do
    Traced.emit (.load index)
    pure ((apuMmioLoad (apuAddr (apuTout index)) m).map Prod.snd)
  | .store reg byte, some m => pure ((apuMmioStore b (apuAddr reg) byte m).map Prod.snd)

/-- One event moves the number of periods since the last load on. -/
def countPeriod (index : Fin 3) (n : Nat) : TimerEvent → Nat
  | .clock (.period k) => if k = index then n + 1 else n
  | .clock _ => n
  | .load k => if k = index then 0 else n

/-- The periods a timer completed since its output was last loaded, or since
    the start. -/
def periodsSince (index : Fin 3) (es : List TimerEvent) : Nat := es.foldl (countPeriod index) 0

/-- What a load of the output would return. -/
def loadTout (index : Fin 3) (m : Machine) : Option Byte :=
  (apuMmioLoad (apuAddr (apuTout index))).run' m

/-- A load of the output returns the periods since the last load, modulo 16. -/
def CountsPeriods (index : Fin 3) (es : List TimerEvent) : Option Machine → Prop
  | none => True
  | some m => loadTout index m = some (BitVec.ofNat 8 (periodsSince index es % 16))

instance CountsPeriods.decidable (index : Fin 3) (es : List TimerEvent) :
    (s : Option Machine) → Decidable (CountsPeriods index es s)
  | none => isTrue trivial
  | some _ => inferInstanceAs (Decidable (_ = _))

/-- The operation keeps the count of the output: a load that clears the wrong
    output finds 0 there, and a store to the output finds its byte there. -/
def KeepsCount (index : Fin 3) : TimerOp → Option Machine → Prop
  | _, none => True
  | .tick _, some _ => True
  | .load k, some m => (if index = 0 then k ≠ 0 else k = index) → m.apu.s (apuTout index) = 0
  | .store reg byte, some m => reg.val = apuTout index → byte = m.apu.s (apuTout index)

instance KeepsCount.decidable (index : Fin 3) :
    (op : TimerOp) → (s : Option Machine) → Decidable (KeepsCount index op s)
  | .tick _, none | .load _, none | .store _ _, none | .tick _, some _ => isTrue trivial
  | .load _, some _ | .store _ _, some _ => inferInstanceAs (Decidable (_ → _))

section Load

variable (k : Fin 3) (m : Machine)

/-- A load of any output returns it and clears the one of timer 0. -/
theorem apuMmioLoad_tout :
    apuMmioLoad (apuAddr (apuTout k)) m =
      some (m.apu.s (apuTout k),
        { m with apu := { m.apu with s := Function.update m.apu.s (apuTout 0) 0 } }) := by
  have hreg : ∀ k : Fin 3,
      apuTout k = apuTout 0 ∨ apuTout k = apuTout 1 ∨ apuTout k = apuTout 2 := by
    decide
  have hout := hreg k
  obtain ⟨-, hdata, hio⟩ := apuTout_plain k
  rw [apuMmioLoad_run, mmioLoadRegs, apuReg_apuAddr, if_neg hdata, if_neg hio, if_pos hout,
    apuOff_tout]
  rfl

theorem countsPeriods_iff (index : Fin 3) (es : List TimerEvent) (m : Machine) :
    CountsPeriods index es (some m) ↔
      (m.apu.s (apuTout index)).toNat = periodsSince index es % 16 := by
  have hload : loadTout index m = some (m.apu.s (apuTout index)) := by
    rw [loadTout, StateT.run'_eq, StateT.run, apuMmioLoad_tout]
    rfl
  have hlt : periodsSince index es % 16 % 2 ^ 8 = periodsSince index es % 16 := by omega
  rw [CountsPeriods, hload, Option.some_inj, ← BitVec.toNat_inj, BitVec.toNat_ofNat, hlt]

end Load

section Step

variable {index : Fin 3} {es : List TimerEvent} {m : Machine}

theorem periodsSince_append (es es' : List TimerEvent) :
    periodsSince index (es ++ es') = es'.foldl (countPeriod index) (periodsSince index es) :=
  List.foldl_append

theorem countsPeriods_tick (k : Fin 3) (h : CountsPeriods index es (some m)) :
    CountsPeriods index (es ++ (timerTick k m).events.map .clock) (some (timerTick k m).val) := by
  rw [countsPeriods_iff] at h ⊢
  have hs : (timerTick k m).val.apu.s = (doTimerTick k m.apu).val.s := rfl
  rw [periodsSince_append, timerTick_events, doTimerTick_events, hs, doTimerTick_s]
  by_cases hc : TickCompletes k m.apu
  · rw [if_pos hc, if_pos hc]
    by_cases hk : k = index
    · subst hk
      rw [toutAdvance_self, toNat_and_fifteen, BitVec.toNat_add, h]
      simp [countPeriod]
    · rw [toutAdvance_of_ne k (fun heq => hk (apuTout_injective heq).symm), h]
      simp [countPeriod, hk]
  · rw [if_neg hc, if_neg hc, h]
    rfl

theorem countsPeriods_load (k : Fin 3) (h : CountsPeriods index es (some m)) :
    CountsPeriods index (es ++ [.load k])
        ((apuMmioLoad (apuAddr (apuTout k)) m).map Prod.snd) ↔
      ((if index = 0 then k ≠ 0 else k = index) → m.apu.s (apuTout index) = 0) := by
  rw [countsPeriods_iff] at h
  rw [apuMmioLoad_tout, Option.map_some, countsPeriods_iff, periodsSince_append]
  simp only [List.foldl_cons, List.foldl_nil, countPeriod]
  by_cases hi : index = 0
  · subst hi
    rw [Function.update_self, if_pos rfl]
    by_cases hk : k = 0
    · simp [hk]
    · rw [if_neg hk, ← h, ← BitVec.toNat_inj]
      simp [hk, eq_comm]
  · rw [Function.update_of_ne (fun heq => hi (apuTout_injective heq)), if_neg hi]
    by_cases hk : k = index
    · rw [if_pos hk, ← BitVec.toNat_inj]
      simp [hk]
    · rw [if_neg hk]
      simp [hk, h]

theorem countsPeriods_store (b : Build) (reg : { reg : Fin 16 // reg ≠ apuCtrl }) (byte : Byte)
    (h : CountsPeriods index es (some m)) :
    CountsPeriods index es ((apuMmioStore b (apuAddr reg) byte m).map Prod.snd) ↔
      (reg.val = apuTout index → byte = m.apu.s (apuTout index)) := by
  rw [countsPeriods_iff] at h
  have hctrl : apuReg (apuAddr reg) ≠ apuCtrl := by
    rw [apuReg_apuAddr]
    exact reg.property
  rw [apuMmioStore_run, Option.map_map]
  simp only [if_neg hctrl]
  cases hp : mmioStoreRegs (apuAddr reg) byte m.apu m.dsp with
  | none =>
    -- only a store to the DSP registers aborts
    refine iff_of_true trivial fun hreg => ?_
    obtain ⟨hctrl, hdata, hio⟩ := apuTout_plain index
    simp [mmioStoreRegs, hreg, hctrl, hdata, hio] at hp
  | some p =>
    have hs := (mmioStoreRegs_of_ne_ctrl hctrl hp).1
    rw [apuReg_apuAddr] at hs
    rw [Option.map_some, countsPeriods_iff, ← h, BitVec.toNat_inj]
    simp only [Function.comp_apply, hs, Function.update_apply]
    by_cases hreg : apuTout index = reg
    · simp [hreg]
    · simp [hreg, Ne.symm hreg]

/-- **Step**: an operation keeps the count of an output just when it meets
    neither of the exceptions. -/
theorem countsPeriods_step (b : Build) (op : TimerOp) (s : Option Machine)
    (h : CountsPeriods index es s) :
    CountsPeriods index (es ++ (op.step b s).events) (op.step b s).val ↔ KeepsCount index op s := by
  cases s with
  | none => cases op <;> exact iff_of_true trivial trivial
  | some m =>
    cases op with
    | tick k =>
      rw [TimerOp.step, Traced.events_map, Traced.events_tag]
      exact iff_of_true (countsPeriods_tick k h) trivial
    | load k => exact countsPeriods_load k h
    | store reg byte =>
      rw [TimerOp.step, Traced.events_pure, List.append_nil]
      exact countsPeriods_store b reg byte h

end Step

/-- **What the timer outputs count.** Start with an output of 0 and run any
    ticks, loads of outputs and stores to registers other than CTRL. A load of
    the output returns the periods since the last load, modulo 16, at every
    point of the run, just when every operation keeps the count. -/
theorem timer_out_counts_iff (b : Build) (index : Fin 3) (ops : List TimerOp) (m : Machine)
    (h : m.apu.s (apuTout index) = 0) :
    (∀ pre post, ops = pre ++ post →
        CountsPeriods index (StepSystem.run (TimerOp.step b) pre (some m)).events
          (StepSystem.run (TimerOp.step b) pre (some m)).val) ↔
      StepSystem.Along (TimerOp.step b) (KeepsCount index) ops (some m) := by
  have hstart : CountsPeriods index [] (some m) := by
    rw [countsPeriods_iff, h]
    rfl
  simpa using StepSystem.run_history_iff (KeepsCount index) (CountsPeriods index)
    (fun op s es => countsPeriods_step b op s) hstart

/-- The machine after a program that enabled timer 1 with a period of one tick. -/
def timer1Started : Machine :=
  ((do apuMmioStore .fast (apuAddr (apuTdiv 1)) 1
       apuMmioStore .fast (apuAddr apuCtrl) ctrlT1 : Exec Unit) .init).elim .init Prod.snd

/-- Ticks, loads of other outputs and the first load of its own leave the count
    of timer 1 exact. -/
theorem timer_out_counts_first_load :
    let run := StepSystem.run (TimerOp.step .fast)
      [.tick 1, .tick 1, .load 0, .load 2, .store ⟨apuTout 0, by decide⟩ 7] (some timer1Started)
    CountsPeriods 1 run.events run.val :=
  (timer_out_counts_iff .fast 1 _ timer1Started (by decide +kernel)).mpr (by decide +kernel) _ []
    (List.append_nil _).symm

/-- A load does not clear T1OUT: after one period it is loaded as 1 twice. -/
theorem tout_not_cleared :
    ¬ ∀ (index : Fin 3) (ops : List TimerOp) (m : Machine), (m.apu.t index).enabled = true →
      m.apu.s (apuTout index) = 0 →
      ∀ pre post, ops = pre ++ post →
        CountsPeriods index (StepSystem.run (TimerOp.step .fast) pre (some m)).events
          (StepSystem.run (TimerOp.step .fast) pre (some m)).val := by
  intro h
  have hcount := h 1 [.tick 1, .load 1] timer1Started (by decide +kernel) (by decide +kernel)
    [.tick 1, .load 1] [] rfl
  revert hcount
  decide +kernel

end SpuKit
