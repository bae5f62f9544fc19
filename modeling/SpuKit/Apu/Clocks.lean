import SpuKit.Apu

/-!
# The clocks of the APU

The CPU loop calls `_apu_update_clocks` with its cycle counter. Every 16 cycles
timer 2 ticks, every 32 the DSP outputs a sample, and every 128 timers 0 and 1
tick. A timer counts ticks up to its target and then advances its output.

## Main definitions

- `ClockEvent` — instrumentation of the clocks
- `doTimerTick` — one tick of a timer
- `dspRun32` — one sample of the DSP
- `apuUpdateClocks`
-/

namespace SpuKit

/-- What an observer of the clocks sees. -/
inductive ClockEvent where
  /-- `timer_tick(index)` is called -/
  | tick (index : Fin 3)
  /-- the timer completed a period -/
  | period (index : Fin 3)
  /-- `_dsp_run32` outputs a sample -/
  | sample (s : Sample)
  /-- an `xassert` is evaluated -/
  | assertion (holds : Bool)
  deriving DecidableEq

/-- The registers after `tout[index]++; tout[index] &= 0xf`. -/
def toutAdvance (index : Fin 3) (s : Sram) : Sram :=
  Function.update s (apuTout index) ((s (apuTout index) + 1) &&& 0xf)

/-- `do_timer_tick` -/
def doTimerTick (index : Fin 3) (a : Apu) : Traced ClockEvent Apu :=
  let t := a.t index
  if ¬ t.enabled then pure a
  else
    let cycles := t.cycles + 1
    if t.target ≤ cycles then do
      Traced.emit (.period index)
      pure
        { a with
          t := Function.update a.t index { t with cycles := 0 }
          s := toutAdvance index a.s }
    else
      pure { a with t := Function.update a.t index { t with cycles := cycles } }

def timerTick (index : Fin 3) (m : Machine) : Traced ClockEvent Machine := do
  Traced.emit (.tick index)
  let a ← doTimerTick index m.apu
  pure { m with apu := a }

/-- `_dsp_run32`, up to what becomes of the sample. -/
def dspRun32 (beyond : Nat → Byte) (m : Machine) : Traced ClockEvent Machine := do
  let (s, mem, d) := (nextSample ⟨m.aram, beyond⟩ m.dsp).val
  Traced.emit (.sample s)
  pure { m with aram := mem.aram, dsp := d }

/-- `_apu_update_clocks` -/
def apuUpdateClocks (beyond : Nat → Byte) (cycle : BitVec 32) (m : Machine) :
    Traced ClockEvent Machine := do
  Traced.emit (.assertion (cycle &&& 0x0f == 0))
  let m ← timerTick 2 m
  let m ← if cycle &&& 0x1f = 0 then dspRun32 beyond m else pure m
  if cycle &&& 0x7f = 0 then do
    let m ← timerTick 0 m
    timerTick 1 m
  else
    pure m

/-- A sample is one event, and leaves the APU alone. -/
theorem dspRun32_spec (beyond : Nat → Byte) (m : Machine) :
    (∃ s, (dspRun32 beyond m).events = [.sample s]) ∧
      (dspRun32 beyond m).val.apu = m.apu ∧ (dspRun32 beyond m).val.cpu = m.cpu := by
  rw [dspRun32]
  rcases (nextSample ⟨m.aram, beyond⟩ m.dsp).val with ⟨s, mem, d⟩
  exact ⟨⟨s, rfl⟩, rfl, rfl⟩

section Tick

variable (index : Fin 3) (a : Apu)

/-- The periods a tick completes. -/
def TickCompletes : Prop := (a.t index).enabled = true ∧ (a.t index).target ≤ (a.t index).cycles + 1

instance : Decidable (TickCompletes index a) := inferInstanceAs (Decidable (_ ∧ _))

/-- **The cases of a tick**: it completes a period, it moves the count on, or the
    timer is disabled. -/
theorem doTimerTick_of_completes (h : TickCompletes index a) :
    doTimerTick index a =
      ⟨{ a with
          t := Function.update a.t index { a.t index with cycles := 0 }
          s := toutAdvance index a.s }, [.period index]⟩ := by
  rw [doTimerTick]
  simp only [h.1, not_true, if_false, if_pos h.2]
  rfl

theorem doTimerTick_of_running (he : (a.t index).enabled = true) (h : ¬ TickCompletes index a) :
    doTimerTick index a =
      ⟨{ a with
          t := Function.update a.t index
            { a.t index with cycles := (a.t index).cycles + 1 } }, []⟩ := by
  have ht : ¬ (a.t index).target ≤ (a.t index).cycles + 1 := fun ht => h ⟨he, ht⟩
  rw [doTimerTick]
  simp only [he, not_true, if_false, if_neg ht]
  rfl

theorem doTimerTick_of_disabled (he : (a.t index).enabled = false) :
    doTimerTick index a = ⟨a, []⟩ := by
  rw [doTimerTick]
  simp only [he, Bool.false_eq_true, not_false_eq_true, if_true]
  rfl

theorem doTimerTick_of_not_completes (h : ¬ TickCompletes index a) :
    (doTimerTick index a).events = [] ∧ (doTimerTick index a).val.s = a.s := by
  cases he : (a.t index).enabled with
  | true =>
    rw [doTimerTick_of_running index a he h]
    exact ⟨rfl, rfl⟩
  | false =>
    rw [doTimerTick_of_disabled index a he]
    exact ⟨rfl, rfl⟩

theorem doTimerTick_events :
    (doTimerTick index a).events = if TickCompletes index a then [.period index] else [] := by
  by_cases h : TickCompletes index a
  · rw [if_pos h, doTimerTick_of_completes index a h]
  · rw [if_neg h, (doTimerTick_of_not_completes index a h).1]

theorem doTimerTick_s :
    (doTimerTick index a).val.s = if TickCompletes index a then toutAdvance index a.s else a.s := by
  by_cases h : TickCompletes index a
  · rw [if_pos h, doTimerTick_of_completes index a h]
  · rw [if_neg h, (doTimerTick_of_not_completes index a h).2]

/-- A tick leaves the other timers alone. -/
theorem doTimerTick_t_of_ne {k : Fin 3} (hk : k ≠ index) :
    (doTimerTick index a).val.t k = a.t k := by
  cases he : (a.t index).enabled with
  | false => rw [doTimerTick_of_disabled index a he]
  | true =>
    by_cases hc : TickCompletes index a
    · rw [doTimerTick_of_completes index a hc]
      exact Function.update_of_ne hk ..
    · rw [doTimerTick_of_running index a he hc]
      exact Function.update_of_ne hk ..

theorem apuTout_injective : Function.Injective apuTout := by
  decide

theorem toutAdvance_self (s : Sram) :
    toutAdvance index s (apuTout index) = (s (apuTout index) + 1) &&& 0xf :=
  Function.update_self ..

theorem toutAdvance_of_ne {reg : Fin 16} (h : reg ≠ apuTout index) (s : Sram) :
    toutAdvance index s reg = s reg :=
  Function.update_of_ne h ..

theorem toNat_and_fifteen (v : Byte) : (v &&& 0xf).toNat = v.toNat % 16 := by
  rw [BitVec.toNat_and]
  exact Nat.and_two_pow_sub_one_eq_mod v.toNat 4

theorem timerTick_events (k : Fin 3) (m : Machine) :
    (timerTick k m).events = .tick k :: (doTimerTick k m.apu).events :=
  congrArg (ClockEvent.tick k :: ·) (List.append_nil _)

end Tick

/-- The sample of `_apu_update_clocks`. -/
def sampleClock (beyond : Nat → Byte) (cycle : BitVec 32) (m : Machine) :
    Traced ClockEvent Machine :=
  if cycle &&& 0x1f = 0 then dspRun32 beyond m else pure m

/-- The slow timers of `_apu_update_clocks`. -/
def slowClock (cycle : BitVec 32) (m : Machine) : Traced ClockEvent Machine :=
  if cycle &&& 0x7f = 0 then do
    let m ← timerTick 0 m
    timerTick 1 m
  else pure m

theorem apuUpdateClocks_eq (beyond : Nat → Byte) (cycle : BitVec 32) (m : Machine) :
    apuUpdateClocks beyond cycle m = (do
      Traced.emit (.assertion (cycle &&& 0x0f == 0))
      let m ← timerTick 2 m
      let m ← sampleClock beyond cycle m
      slowClock cycle m) := by
  unfold apuUpdateClocks sampleClock slowClock
  by_cases hsample : cycle &&& 0x1f = 0 <;> by_cases hslow : cycle &&& 0x7f = 0 <;>
    simp only [hsample, hslow, if_true, if_false, pure_bind, bind_pure]

/-- The clocks leave the CPU alone. -/
theorem apuUpdateClocks_cpu (beyond : Nat → Byte) (cycle : BitVec 32) (m : Machine) :
    (apuUpdateClocks beyond cycle m).val.cpu = m.cpu := by
  have hsample : ∀ m, (sampleClock beyond cycle m).val.cpu = m.cpu := by
    intro m
    rw [sampleClock]
    split
    · exact (dspRun32_spec beyond m).2.2
    · rfl
  have hslow : ∀ m, (slowClock cycle m).val.cpu = m.cpu := by
    intro m
    rw [slowClock]
    split <;> rfl
  rw [apuUpdateClocks_eq]
  exact (hslow _).trans (hsample _)

end SpuKit
