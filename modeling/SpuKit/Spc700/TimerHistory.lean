import SpuKit.Apu.TimerControl
import SpuKit.Spc700.ClockRatios
import SpuKit.Spc700.DeviceHistory

/-!
# The timers as their history

A timer, its divider and its output are told by the accesses and the ticks of a
run. A store to CTRL sets a timer up from its divider; from there it divides the
ticks, whatever the program does in between, and its output counts the periods
from the byte that it was last set to. What sets an output is not what should: a
load of any output sets the one of timer 0, and a store to CTRL with the bit of
timer 2 sets up timer 1.

## Main definitions

- `TimerUnit` — a timer with its divider and its output
- `setsOut` — the byte that an event leaves in an output
- `timerMonitor` — the monitor of a timer
- `TimerUnit.Counting` — the timer is enabled, and its count below its target

## Main results

- `timer_watched` — a timer is told by the events of every run
- `TimerUnit.Counting.after` — a timer between two stores to CTRL
- `runInsns_timer` — a timer that a program started
- `runInsns_timer2` — no program starts timer 2
-/

namespace SpuKit.Spc700

/-- Does a byte stored to CTRL set the timer up? -/
def ctrlStarts : Fin 3 → Byte → Bool
  | 0, byte => byte &&& ctrlT0 != 0
  | 1, byte => byte &&& ctrlT1 != 0 || byte &&& ctrlT2 != 0
  | 2, _ => false

/-- A timer, its divider and its output. -/
structure TimerUnit where
  timer : Timer
  div : Byte
  out : Byte
  deriving DecidableEq

/-- The timer of a machine. -/
def timerUnit (k : Fin 3) (m : Machine) : TimerUnit where
  timer := m.apu.t k
  div := m.apu.s (apuTdiv k)
  out := m.apu.s (apuTout k)

/-- The timer after a store to CTRL. -/
def TimerUnit.control (k : Fin 3) (byte : Byte) (u : TimerUnit) : Timer :=
  if ctrlStarts k byte then timerInit u.div
  else if byte &&& ctrlT k = 0 then { u.timer with enabled := false }
  else u.timer

/-- The next tick completes a period. -/
def TimerUnit.Completes (u : TimerUnit) : Prop :=
  u.timer.enabled = true ∧ u.timer.target ≤ u.timer.cycles + 1

instance (u : TimerUnit) : Decidable u.Completes := inferInstanceAs (Decidable (_ ∧ _))

/-- The timer after a tick. -/
def TimerUnit.tick (u : TimerUnit) : Timer :=
  if u.Completes then { u.timer with cycles := 0 }
  else if u.timer.enabled then { u.timer with cycles := u.timer.cycles + 1 }
  else u.timer

/-- The byte that an event leaves in the output of a timer, when it sets it. -/
def setsOut (k : Fin 3) : CpuEvent → Option Byte
  | .store at_ byte =>
    if at_ = ctrlAt then if ctrlStarts k byte then some 0 else none
    else if at_ = apuAddr (apuTout k) then some byte
    else none
  | .load at_ => if k = 0 ∧ ∃ j, at_ = apuAddr (apuTout j) then some 0 else none
  | _ => none

/-- What an event does to a timer. -/
def TimerUnit.next (k : Fin 3) (u : TimerUnit) : CpuEvent → TimerUnit
  | .store at_ byte =>
    { timer := if at_ = ctrlAt then u.control k byte else u.timer
      div := if at_ = apuAddr (apuTdiv k) then byte else u.div
      out := (setsOut k (.store at_ byte)).getD u.out }
  | .load at_ => { u with out := (setsOut k (.load at_)).getD u.out }
  | .clock e =>
    if e = .tick k then
      { u with
        timer := u.tick
        out := if u.Completes then (u.out + 1) &&& 0xf else u.out }
    else u
  | _ => u

/-- The monitor of a timer. -/
def timerMonitor (k : Fin 3) : Monitor TimerUnit CpuEvent where
  next := TimerUnit.next k
  ok _ _ := True

-- ════════════════════════════════════════════════════════════════════════
-- What the primitives do to a timer
-- ════════════════════════════════════════════════════════════════════════

theorem plainReg_tdiv : ∀ k, PlainReg (apuTdiv k) := by decide

theorem timer_cases : ∀ k : Fin 3, k = 0 ∨ k = 1 ∨ k = 2 := by decide

/-- A store to CTRL does to a timer what its bits say. -/
theorem apuCtrlRegs_timer (byte : Byte) (a : Apu) (k : Fin 3) :
    (apuCtrlRegs byte a).t k =
      if ctrlStarts k byte then timerInit (a.s (apuTdiv k))
      else if byte &&& ctrlT k = 0 then { a.t k with enabled := false }
      else a.t k := by
  obtain rfl | rfl | rfl := timer_cases k
  · rw [apuCtrlRegs_t0]
    by_cases h0 : byte &&& ctrlT0 = 0#8 <;> simp [ctrlStarts, ctrlT, h0]
  · rw [apuCtrlRegs_t1]
    by_cases h1 : byte &&& ctrlT1 = 0#8 <;> by_cases h2 : byte &&& ctrlT2 = 0#8 <;>
      simp [ctrlStarts, ctrlT, h1, h2]
  · rw [apuCtrlRegs_t2]
    by_cases h2 : byte &&& ctrlT2 = 0#8 <;> simp [ctrlStarts, ctrlT, h2]

theorem apuCtrlRegs_tout (byte : Byte) (a : Apu) (k : Fin 3) :
    (apuCtrlRegs byte a).s (apuTout k) =
      if ctrlStarts k byte then 0 else a.s (apuTout k) := by
  obtain rfl | rfl | rfl := timer_cases k
  · rw [apuCtrlRegs_tout0]
    simp [ctrlStarts]
  · rw [apuCtrlRegs_tout1]
    simp [ctrlStarts]
  · exact apuCtrlRegs_tout2 byte a

section Access

variable {addr : Word} {byte : Byte} {u : Unit} {m m' : Machine}

/-- Where no register is stored to, the address is none of theirs. -/
theorem ne_apuAddr (h : ¬ apuMmioAddress addr = true) (reg : Fin 16) : addr ≠ apuAddr reg := by
  rintro rfl
  exact h (apuMmioAddress_apuAddr reg)

/-- A store leaves the timers alone unless it is to CTRL, and an output unless
    it is to CTRL or to the output. -/
theorem memStore_timer (k : Fin 3) (h : SpuKit.memStore .fast addr byte m = some (u, m')) :
    m'.apu.t k = (if addr = ctrlAt then (timerUnit k m).control k byte else m.apu.t k) ∧
      m'.apu.s (apuTout k) = (setsOut k (.store addr byte)).getD (m.apu.s (apuTout k)) := by
  have htout := (apuTout_plain k).1
  rw [memStore_run] at h
  obtain ⟨p, hp, heq⟩ := Option.map_eq_some_iff.mp h
  obtain ⟨-, rfl⟩ := Prod.mk.inj heq
  rw [storeMem_apu, setsOut]
  unfold storeRegs at hp
  split at hp
  · next hmmio =>
    by_cases hctrl : apuReg addr = apuCtrl
    · have haddr : addr = ctrlAt := (apuMmioAddress_eq_iff hmmio _).mp hctrl
      rw [mmioStoreRegs, if_pos hctrl] at hp
      obtain rfl := Option.some.inj hp
      simp only [if_pos haddr]
      simp only [apuCtrlRegs_timer, apuCtrlRegs_tout, hctrl, tdiv_update_ctrl,
        Function.update_of_ne htout]
      refine ⟨rfl, ?_⟩
      split <;> rfl
    · have haddr : addr ≠ ctrlAt := fun h => hctrl ((apuMmioAddress_eq_iff hmmio _).mpr h)
      obtain ⟨hs, ht⟩ := mmioStoreRegs_of_ne_ctrl hctrl hp
      simp only [if_neg haddr, hs, ht]
      refine ⟨trivial, ?_⟩
      have hreg : apuTout k = apuReg addr ↔ addr = apuAddr (apuTout k) :=
        eq_comm.trans (apuMmioAddress_eq_iff hmmio _)
      rw [Function.update_apply, apply_ite (fun o : Option Byte => o.getD (m.apu.s (apuTout k)))]
      exact if_congr hreg rfl rfl
  · next hmmio =>
    obtain rfl := Option.some.inj hp
    have haddr : addr ≠ ctrlAt := ne_apuAddr hmmio _
    simp only [if_neg haddr, if_neg (ne_apuAddr hmmio (apuTout k))]
    exact ⟨trivial, rfl⟩

/-- A load leaves the timers alone, and an output unless it is that of timer 0
    and the load is of any of them. -/
theorem memLoad_timer (k : Fin 3) (h : SpuKit.memLoad .fast addr m = some (byte, m')) :
    m'.apu.t = m.apu.t ∧
      m'.apu.s (apuTout k) = (setsOut k (.load addr)).getD (m.apu.s (apuTout k)) := by
  have houts : ∀ reg : Fin 16, (∃ j, reg = apuTout j) ↔
      reg = apuTout 0 ∨ reg = apuTout 1 ∨ reg = apuTout 2 := by
    decide
  have hplain := apuTout_plain
  rw [memLoad_run] at h
  rw [setsOut]
  split at h
  · next hmmio =>
    have hex : ∀ j, addr = apuAddr (apuTout j) ↔ apuReg addr = apuTout j :=
      fun j => (apuMmioAddress_eq_iff hmmio _).symm
    obtain ⟨p, hp, heq⟩ := Option.map_eq_some_iff.mp h
    obtain ⟨-, rfl⟩ := Prod.mk.inj heq
    simp only [hex]
    unfold mmioLoadRegs at hp
    split at hp
    · next hdata =>
      obtain ⟨byte, -, rfl⟩ := Option.map_eq_some_iff.mp hp
      rw [if_neg]
      · exact ⟨rfl, rfl⟩
      · rintro ⟨-, j, hj⟩
        exact (hplain j).2.1 (hj.symm.trans hdata)
    split at hp
    · next hio =>
      obtain ⟨byte, -, rfl⟩ := Option.map_eq_some_iff.mp hp
      rw [if_neg]
      · exact ⟨rfl, rfl⟩
      · rintro ⟨-, j, hj⟩
        exact (hplain j).2.2 (hj ▸ hio)
    split at hp
    · next hout =>
      obtain rfl := Option.some.inj hp
      refine ⟨rfl, ?_⟩
      show Function.update m.apu.s (apuTout _) 0 (apuTout k) = _
      rw [apuOff_tout, Function.update_apply]
      show (if apuTout k = apuTout 0 then 0 else m.apu.s (apuTout k)) = _
      by_cases hk : k = 0
      · rw [if_pos (congrArg apuTout hk), if_pos ⟨hk, (houts _).mpr hout⟩]
        rfl
      · rw [if_neg fun h => hk (apuTout_injective h), if_neg fun h => hk h.1]
        rfl
    · next hout =>
      obtain rfl := Option.some.inj hp
      rw [if_neg fun h => hout ((houts _).mp h.2)]
      exact ⟨rfl, rfl⟩
  · next hmmio =>
    obtain ⟨-, rfl⟩ := Prod.mk.inj (Option.some.inj h)
    rw [if_neg]
    · exact ⟨rfl, rfl⟩
    · rintro ⟨-, j, hj⟩
      exact ne_apuAddr hmmio _ hj

end Access

section Clocks

variable {k : Fin 3} {m : Machine}

/-- A timer follows the events of a part of the clocks. -/
def Follows (k : Fin 3) (x : Machine → Traced ClockEvent Machine) : Prop :=
  ∀ m, timerUnit k (x m).val =
    (timerMonitor k).after (timerUnit k m) ((x m).events.map .clock)

theorem Follows.bind {x y : Machine → Traced ClockEvent Machine} (hx : Follows k x)
    (hy : Follows k y) : Follows k fun m => x m >>= y := by
  intro m
  rw [Traced.events_bind, List.map_append, Monitor.after_append, ← hx m]
  exact hy _

theorem Follows.ite {c : Prop} [Decidable c] {x y : Machine → Traced ClockEvent Machine}
    (hx : Follows k x) (hy : Follows k y) : Follows k fun m => if c then x m else y m := by
  intro m
  dsimp only
  split
  · exact hx m
  · exact hy m

theorem follows_pure : Follows k pure := fun _ => rfl

theorem follows_timerTick (j : Fin 3) : Follows k (timerTick j) := by
  intro m
  have hdiv := (ClockAccess.timerTick j m).plain _ (plainReg_tdiv k)
  have hevents : (timerMonitor k).after (timerUnit k m) ((timerTick j m).events.map .clock) =
      (timerUnit k m).next k (.clock (.tick j)) := by
    rw [timerTick_events, doTimerTick_events]
    split <;> rfl
  have hout : (timerTick j m).val.apu.s = if TickCompletes j m.apu then toutAdvance j m.apu.s
      else m.apu.s := doTimerTick_s j m.apu
  rw [hevents, TimerUnit.next]
  by_cases hj : j = k
  · subst hj
    rw [if_pos rfl, timerUnit, hdiv, hout]
    have hiff : (timerUnit j m).Completes ↔ TickCompletes j m.apu := Iff.rfl
    have ht : (timerTick j m).val.apu.t j = (timerUnit j m).tick := by
      show (doTimerTick j m.apu).val.t j = _
      rw [TimerUnit.tick]
      by_cases hc : TickCompletes j m.apu
      · rw [if_pos (hiff.mpr hc), doTimerTick_of_completes j m.apu hc]
        exact Function.update_self ..
      · rw [if_neg fun h => hc (hiff.mp h)]
        cases he : (m.apu.t j).enabled with
        | true =>
          rw [if_pos (show (timerUnit j m).timer.enabled = true from he),
            doTimerTick_of_running j m.apu he hc]
          exact Function.update_self ..
        | false =>
          rw [if_neg (show ¬ (timerUnit j m).timer.enabled = true by
            rw [show (timerUnit j m).timer.enabled = false from he]; decide),
            doTimerTick_of_disabled j m.apu he]
          rfl
    rw [ht]
    refine congrArg (TimerUnit.mk _ _) ?_
    by_cases hc : TickCompletes j m.apu
    · rw [if_pos hc, if_pos (hiff.mpr hc), toutAdvance_self]
      rfl
    · rw [if_neg hc, if_neg fun h => hc (hiff.mp h)]
      rfl
  · rw [if_neg fun h => hj (ClockEvent.tick.inj h), timerUnit, hdiv, hout]
    have ht : (timerTick j m).val.apu.t k = m.apu.t k := doTimerTick_t_of_ne j m.apu (Ne.symm hj)
    rw [ht, apply_ite (fun s : Sram => s (apuTout k)),
      toutAdvance_of_ne j (fun heq => hj (apuTout_injective heq).symm), ite_self]
    rfl

theorem follows_dspRun32 (beyond : Nat → Byte) : Follows k (dspRun32 beyond) := by
  intro m
  obtain ⟨⟨s, hs⟩, hapu, -⟩ := dspRun32_spec beyond m
  rw [hs, timerUnit, hapu]
  rfl

theorem follows_updateClocks (beyond : Nat → Byte) (cycle : BitVec 32) :
    Follows k (updateClocks beyond cycle) := by
  have hslow : Follows k (slowClock cycle) :=
    .ite (.bind (follows_timerTick 0) (follows_timerTick 1)) follows_pure
  have hsample : Follows k (sampleClock beyond cycle) := .ite (follows_dspRun32 beyond) follows_pure
  have hassert : Follows k fun m =>
      Traced.emit (ClockEvent.assertion (cycle &&& 0x0f == 0)) >>= fun _ => pure m :=
    fun _ => rfl
  refine Follows.ite (c := cycle &&& 0xf = 0) (fun m => ?_) follows_pure
  rw [apuUpdateClocks_eq]
  exact hassert.bind ((follows_timerTick 2).bind (hsample.bind hslow)) m

end Clocks

/-- **A timer is told by the events** of every run, whatever the program does. -/
theorem timer_watched (k : Fin 3) : Watches (timerMonitor k) (timerUnit k) where
  cpu _ _ := rfl
  other _ e he := by cases e <;> first | rfl | cases he
  load addr m byte m' h _ := by
    obtain ⟨ht, hout⟩ := memLoad_timer k h
    rw [timerUnit, ht, hout, (memLoad_access h).plain _ (plainReg_tdiv k)]
    rfl
  store addr byte m u m' h _ := by
    obtain ⟨ht, hout⟩ := memStore_timer k h
    rw [timerUnit, ht, hout, (memStore_access h).plain _ (plainReg_tdiv k)]
    rfl
  clocks beyond cycle m _ := follows_updateClocks beyond cycle m

-- ════════════════════════════════════════════════════════════════════════
-- Between two stores to CTRL
-- ════════════════════════════════════════════════════════════════════════

/-- The ticks of a timer among the events. -/
def ticks (k : Fin 3) (es : List CpuEvent) : Nat := (clocksOf es).count (.tick k)

@[simp] theorem ticks_nil (k : Fin 3) : ticks k [] = 0 := rfl

theorem ticks_append (k : Fin 3) (es es' : List CpuEvent) :
    ticks k (es ++ es') = ticks k es + ticks k es' := by
  rw [ticks, clocksOf_append, List.count_append]
  rfl

theorem ticks_cons (k : Fin 3) (e : CpuEvent) (es : List CpuEvent) :
    ticks k (e :: es) = ticks k [e] + ticks k es :=
  ticks_append k [e] es

theorem ticks_singleton (k : Fin 3) (e : CpuEvent) :
    ticks k [e] = if e = .clock (.tick k) then 1 else 0 := by
  by_cases he : e = .clock (.tick k)
  · subst he
    rw [if_pos rfl]
    exact List.count_singleton_self
  · rw [if_neg he]
    refine List.count_eq_zero.mpr fun hmem => he ?_
    obtain ⟨e', he', hclock⟩ := List.mem_filterMap.mp hmem
    obtain rfl := List.mem_singleton.mp he'
    cases e' <;> first | cases hclock; rfl | cases hclock

/-- What sets an output is no tick. -/
theorem ticks_of_setsOut {k : Fin 3} {e : CpuEvent} {byte : Byte} (h : setsOut k e = some byte) :
    ticks k [e] = 0 := by
  rw [ticks_singleton, if_neg]
  rintro rfl
  cases h

namespace TimerUnit

variable {k : Fin 3} {u u' u'' : TimerUnit} {e : CpuEvent} {es es' : List CpuEvent}

/-- The timer is enabled, and its count is below its target. -/
structure Counting (u : TimerUnit) : Prop where
  enabled : u.timer.enabled = true
  below : u.timer.cycles.toNat < u.timer.target.toNat

/-- From `u` to `u'` the timer divided the ticks among the events by its target,
    and when none of the events set its output, this counted the periods. -/
structure Divided (k : Fin 3) (u u' : TimerUnit) (es : List CpuEvent) : Prop where
  enabled : u'.timer.enabled = u.timer.enabled
  target : u'.timer.target = u.timer.target
  cycles : u'.timer.cycles.toNat = (u.timer.cycles.toNat + ticks k es) % u.timer.target.toNat
  out : (∀ e ∈ es, setsOut k e = none) →
    u'.out.toNat % 16 =
      (u.out.toNat + (u.timer.cycles.toNat + ticks k es) / u.timer.target.toNat) % 16

namespace Divided

theorem counting (h : Divided k u u' es) (hu : u.Counting) : u'.Counting where
  enabled := h.enabled.trans hu.enabled
  below := by
    rw [h.cycles, h.target]
    exact Nat.mod_lt _ (Nat.zero_lt_of_lt hu.below)

/-- An event that is no tick of the timer leaves its count alone. -/
theorem of_timer (hu : u.Counting) (ht : u'.timer = u.timer) (hticks : ticks k es = 0)
    (hout : (∀ e ∈ es, setsOut k e = none) → u'.out = u.out) : Divided k u u' es where
  enabled := by rw [ht]
  target := by rw [ht]
  cycles := by rw [ht, hticks, Nat.add_zero, Nat.mod_eq_of_lt hu.below]
  out hnone := by rw [hout hnone, hticks, Nat.add_zero, Nat.div_eq_of_lt hu.below, Nat.add_zero]

theorem append (h : Divided k u u' es) (h' : Divided k u' u'' es') :
    Divided k u u'' (es ++ es') where
  enabled := h'.enabled.trans h.enabled
  target := h'.target.trans h.target
  cycles := by rw [h'.cycles, h.cycles, h.target, ticks_append, Nat.mod_add_mod, Nat.add_assoc]
  out hnone := by
    obtain ⟨hfirst, hsecond⟩ := List.forall_mem_append.mp hnone
    rw [h'.out hsecond, Nat.add_mod, h.out hfirst, ← Nat.add_mod, h.cycles, h.target, Nat.add_assoc,
      Divides.div_add_mod_div, ticks_append, Nat.add_assoc]

/-- A tick of the timer. -/
theorem tick (hu : u.Counting) : Divided k u (u.next k (.clock (.tick k))) [.clock (.tick k)] := by
  have hlt := hu.below
  have hsucc : (u.timer.cycles + 1).toNat = u.timer.cycles.toNat + 1 := by
    rw [BitVec.toNat_add]
    exact Nat.mod_eq_of_lt (Nat.lt_of_le_of_lt hlt u.timer.target.isLt)
  have hticks : ticks k [.clock (.tick k)] = 1 := by rw [ticks_singleton, if_pos rfl]
  rw [TimerUnit.next, if_pos rfl]
  by_cases hc : u.Completes
  · -- the count has reached the target
    have hlast : u.timer.cycles.toNat + 1 = u.timer.target.toNat := by
      have hle : u.timer.target.toNat ≤ (u.timer.cycles + 1).toNat := hc.2
      rw [hsucc] at hle
      exact Nat.le_antisymm hlt hle
    rw [TimerUnit.tick, if_pos hc, if_pos hc]
    refine ⟨rfl, rfl, ?_, fun _ => ?_⟩
    · rw [hticks, hlast, Nat.mod_self]
      rfl
    · rw [hticks, hlast, Nat.div_self (Nat.zero_lt_of_lt hlt)]
      rw [toNat_and_fifteen, BitVec.toNat_add, Nat.mod_mod]
      exact Nat.mod_mod_of_dvd _ (by decide)
  · have hnext : u.timer.cycles.toNat + 1 < u.timer.target.toNat := by
      refine Nat.lt_of_not_le fun hle => hc ⟨hu.enabled, ?_⟩
      rw [BitVec.le_def, hsucc]
      exact hle
    rw [TimerUnit.tick, if_neg hc, if_neg hc, if_pos hu.enabled]
    refine ⟨rfl, rfl, ?_, fun _ => ?_⟩
    · rw [hticks, Nat.mod_eq_of_lt hnext, hsucc]
    · rw [hticks, Nat.div_eq_of_lt hnext, Nat.add_zero]

end Divided

/-- **Step**: an event other than a store to CTRL. -/
theorem Counting.next (hu : u.Counting) (hctrl : ∀ byte, e ≠ .store ctrlAt byte) :
    Divided k u (u.next k e) [e] := by
  have hone : (∀ x ∈ [e], setsOut k x = none) → setsOut k e = none :=
    fun h => h e (List.mem_singleton_self e)
  by_cases htick : e = .clock (.tick k)
  · subst htick
    exact .tick hu
  have hticks : ticks k [e] = 0 := by rw [ticks_singleton, if_neg htick]
  cases e with
  | store at_ byte =>
    have hne : at_ ≠ ctrlAt := fun h => hctrl byte (h ▸ rfl)
    refine .of_timer hu (if_neg hne) hticks fun h => ?_
    rw [TimerUnit.next, hone h]
    rfl
  | load at_ =>
    refine .of_timer hu rfl hticks fun h => ?_
    rw [TimerUnit.next, hone h]
    rfl
  | clock c =>
    rw [TimerUnit.next, if_neg fun h => htick (congrArg CpuEvent.clock h)]
    exact .of_timer hu rfl hticks fun _ => rfl
  | fetch _ | operand _ | branchTaken | pushWord _ => exact .of_timer hu rfl hticks fun _ => rfl

/-- **Run**: a timer between two stores to CTRL. -/
theorem Counting.after (hu : u.Counting) (hctrl : ∀ byte, CpuEvent.store ctrlAt byte ∉ es) :
    Divided k u ((timerMonitor k).after u es) es := by
  induction es generalizing u with
  | nil => exact .of_timer hu rfl rfl fun _ => rfl
  | cons e es ih =>
    have hstep : Divided k u (u.next k e) [e] :=
      hu.next fun byte h => hctrl byte (h ▸ List.mem_cons_self)
    have hrest := ih (hstep.counting hu) fun byte h => hctrl byte (List.mem_cons_of_mem _ h)
    exact hstep.append hrest

/-- The output after an event that sets it. -/
theorem next_out {byte : Byte} (h : setsOut k e = some byte) : (u.next k e).out = byte := by
  cases e with
  | store at_ b => exact congrArg (Option.getD · u.out) h
  | load at_ => exact congrArg (Option.getD · u.out) h
  | _ => cases h

/-- The divider is the last byte stored to it. -/
theorem after_div (es : List CpuEvent) (u : TimerUnit) :
    ((timerMonitor k).after u es).div = (lastStored (apuAddr (apuTdiv k))).after u.div es := by
  induction es generalizing u with
  | nil => rfl
  | cons e es ih =>
    rw [Monitor.after_cons, Monitor.after_cons, ih]
    have hnext : ((timerMonitor k).next u e).div =
        (lastStored (apuAddr (apuTdiv k))).next u.div e := by
      cases e with
      | clock c =>
        show (TimerUnit.next k u (.clock c)).div = u.div
        rw [TimerUnit.next]
        split <;> rfl
      | _ => rfl
    rw [hnext]

end TimerUnit

-- ════════════════════════════════════════════════════════════════════════
-- From a store to CTRL
-- ════════════════════════════════════════════════════════════════════════

/-- The ticks of a period. -/
def timerPeriod (div : Byte) : Nat := if div = 0 then 256 else div.toNat

theorem timerInit_eq (div : Byte) :
    timerInit div =
      { cycles := 0, target := BitVec.ofNat 16 (timerPeriod div), enabled := true } := by
  have htarget : (if div ≠ 0 then div.setWidth 16 else 0x100 : Word) =
      BitVec.ofNat 16 (timerPeriod div) := by
    rw [timerPeriod]
    by_cases hdiv : div = 0
    · rw [if_neg (not_not.mpr hdiv), if_pos hdiv]
      rfl
    · rw [if_pos hdiv, if_neg hdiv, BitVec.ofNat_toNat]
  rw [timerInit, htarget]

theorem timerPeriod_pos (div : Byte) : 0 < timerPeriod div := by
  rw [timerPeriod]
  split
  · decide
  · next hdiv => exact Nat.pos_of_ne_zero fun h => hdiv (BitVec.eq_of_toNat_eq h)

theorem toNat_timerPeriod (div : Byte) :
    (BitVec.ofNat 16 (timerPeriod div)).toNat = timerPeriod div := by
  have hlt := div.isLt
  rw [BitVec.toNat_ofNat]
  refine Nat.mod_eq_of_lt ?_
  rw [timerPeriod]
  split <;> omega

/-- A timer that a store to CTRL has just set up. -/
theorem TimerUnit.next_ctrl {k : Fin 3} {byte : Byte} (hstarts : ctrlStarts k byte = true)
    (u : TimerUnit) :
    (u.next k (.store ctrlAt byte)).timer = timerInit u.div ∧
      (u.next k (.store ctrlAt byte)).Counting := by
  have htimer : (u.next k (.store ctrlAt byte)).timer = timerInit u.div := by
    show (if ctrlAt = ctrlAt then u.control k byte else u.timer) = _
    rw [if_pos rfl, TimerUnit.control, if_pos hstarts]
  refine ⟨htimer, ?_, ?_⟩
  · rw [htimer]
    rfl
  · rw [htimer, timerInit_eq, toNat_timerPeriod]
    exact timerPeriod_pos _

/-- The timer behind the store that sets it up and any events before the next one. -/
theorem TimerUnit.after_setUp {k : Fin 3} (u : TimerUnit) {byte : Byte} {part : List CpuEvent}
    (hstarts : ctrlStarts k byte = true) (hpart : ∀ byte, CpuEvent.store ctrlAt byte ∉ part) :
    let v := (timerMonitor k).after u (.store ctrlAt byte :: part)
    v.Counting ∧ v.timer.target = BitVec.ofNat 16 (timerPeriod u.div) ∧
      v.timer.cycles.toNat = ticks k part % timerPeriod u.div := by
  intro v
  obtain ⟨htimer, hcounting⟩ := TimerUnit.next_ctrl hstarts u
  rw [timerInit_eq] at htimer
  have hdivided : TimerUnit.Divided k (u.next k (.store ctrlAt byte)) v part :=
    hcounting.after hpart
  have hcycles := hdivided.cycles
  rw [htimer] at hcycles
  refine ⟨hdivided.counting hcounting, ?_, ?_⟩
  · rw [hdivided.target, htimer]
  · rw [hcycles, toNat_timerPeriod]
    exact congrArg (· % timerPeriod u.div) (Nat.zero_add _)

-- ════════════════════════════════════════════════════════════════════════
-- Timer 2
-- ════════════════════════════════════════════════════════════════════════

/-- **Step**: no event enables timer 2, and only a store sets its output. -/
theorem TimerUnit.next_timer2 {u : TimerUnit} (hu : u.timer.enabled = false) (e : CpuEvent) :
    (u.next 2 e).timer.enabled = false ∧
      (u.next 2 e).out = (lastStored (apuAddr (apuTout 2))).next u.out e := by
  cases e with
  | store at_ byte =>
    have hstarts : ¬ ctrlStarts 2 byte = true := Bool.false_ne_true
    refine ⟨?_, ?_⟩
    · show (if at_ = ctrlAt then u.control 2 byte else u.timer).enabled = false
      rw [TimerUnit.control, if_neg hstarts]
      split_ifs <;> first | rfl | exact hu
    · have hne : ctrlAt ≠ apuAddr (apuTout 2) := by decide
      show (setsOut 2 (.store at_ byte)).getD u.out =
        if at_ = apuAddr (apuTout 2) then byte else u.out
      rw [setsOut, if_neg hstarts]
      by_cases hctrl : at_ = ctrlAt
      · rw [if_pos hctrl, if_neg (hctrl ▸ hne)]
        rfl
      · rw [if_neg hctrl, apply_ite (fun o : Option Byte => o.getD u.out)]
        rfl
  | load at_ =>
    refine ⟨hu, ?_⟩
    show (setsOut 2 (.load at_)).getD u.out = u.out
    rw [setsOut, if_neg fun h => absurd h.1 (by decide)]
    rfl
  | clock c =>
    have hc : ¬ u.Completes := by
      rintro ⟨he, -⟩
      rw [hu] at he
      cases he
    have htick : u.tick = u.timer := by
      rw [TimerUnit.tick, if_neg hc, hu]
      rfl
    rw [TimerUnit.next, if_neg hc, htick]
    split <;> exact ⟨hu, rfl⟩
  | fetch _ | operand _ | branchTaken | pushWord _ => exact ⟨hu, rfl⟩

/-- **Run** -/
theorem TimerUnit.after_timer2 {u : TimerUnit} (hu : u.timer.enabled = false)
    (es : List CpuEvent) :
    ((timerMonitor 2).after u es).timer.enabled = false ∧
      ((timerMonitor 2).after u es).out = (lastStored (apuAddr (apuTout 2))).after u.out es := by
  induction es generalizing u with
  | nil => exact ⟨hu, rfl⟩
  | cons e es ih =>
    obtain ⟨henabled, hout⟩ := TimerUnit.next_timer2 hu e
    have hrest := ih henabled
    rw [hout] at hrest
    exact hrest

section Start

variable {beyond : Nat → Byte} {n : Nat} {cycle : BitVec 32} {m m' : Machine}
  {r : Option (BitVec 32)} {es : List CpuEvent}

/-- A run whose events are known. -/
theorem exists_returns {α : Type} {x : Insn α} (hval : (Program.exec x m).val.isSome = true)
    (hevents : (Program.exec x m).events = es) : ∃ a m', x.Returns m a m' es := by
  obtain ⟨⟨a, m'⟩, hend⟩ := Option.isSome_iff_exists.mp hval
  exact ⟨a, m', Traced.ext hend hevents⟩

theorem runInsns_timerUnit (k : Fin 3) (h : (runInsns beyond n cycle).Returns m r m' es) :
    timerUnit k m' = (timerMonitor k).after (timerUnit k m) es :=
  (timer_watched k).tracks (runInsns_built beyond n cycle) h
    ((timerMonitor k).accepts_of_ok _ fun _ _ _ => trivial)

/-- The events from the store up to the one that set the output. -/
theorem exists_part {k : Fin 3} {byte set : Byte} {e : CpuEvent}
    {post init rest : List CpuEvent}
    (hsplit : .store ctrlAt byte :: post = init ++ e :: rest) (hset : setsOut k e = some set) :
    ∃ part, init ++ [e] = .store ctrlAt byte :: part ∧ post = part ++ rest ∧
      ticks k part = ticks k init := by
  have happend : .store ctrlAt byte :: post = (init ++ [e]) ++ rest := by
    rw [hsplit, List.append_assoc, List.singleton_append]
  obtain ⟨hnil, -⟩ | ⟨part, hhead, rfl⟩ := List.cons_eq_append_iff.mp happend
  · cases List.append_ne_nil_of_right_ne_nil init (List.cons_ne_nil e []) hnil
  refine ⟨part, hhead, rfl, ?_⟩
  have hcount := congrArg (ticks k) hhead
  rw [ticks_append, ticks_of_setsOut hset, ticks_cons, ticks_singleton, if_neg nofun,
    Nat.zero_add, Nat.add_zero] at hcount
  exact hcount.symm

/-- **The timers keep time**: take a run and its last store to CTRL, one that sets
    the timer up. Whatever the program does, the timer has divided the ticks since
    by the divider that was last stored before, and its output has counted the
    periods since it was last set, from the byte it was set to. -/
theorem runInsns_timer {k : Fin 3} {pre post : List CpuEvent} {byte : Byte}
    (h : (runInsns beyond n cycle).Returns m r m' es)
    (hes : es = pre ++ .store ctrlAt byte :: post)
    (hlast : ∀ byte, CpuEvent.store ctrlAt byte ∉ post) (hstarts : ctrlStarts k byte = true) :
    let div := (lastStored (apuAddr (apuTdiv k))).after (m.apu.s (apuTdiv k)) pre
    let period := timerPeriod div
    m'.apu.t k =
        { cycles := BitVec.ofNat 16 (ticks k post % period)
          target := BitVec.ofNat 16 period
          enabled := true } ∧
      ∀ init e rest set, .store ctrlAt byte :: post = init ++ e :: rest →
        setsOut k e = some set → (∀ e ∈ rest, setsOut k e = none) →
          (m'.apu.s (apuTout k)).toNat % 16 =
            (set.toNat + (ticks k post / period - ticks k init / period)) % 16 := by
  intro div period
  have hunit := runInsns_timerUnit k h
  rw [hes, Monitor.after_append] at hunit
  generalize hu : (timerMonitor k).after (timerUnit k m) pre = u at hunit
  have hdiv : u.div = div := by
    rw [← hu, TimerUnit.after_div]
    rfl
  have hperiod : (BitVec.ofNat 16 period).toNat = period := toNat_timerPeriod div
  refine ⟨?_, fun init e rest set hsplit hset hnone => ?_⟩
  · obtain ⟨hcount, htarget, hcycles⟩ := u.after_setUp hstarts hlast
    rw [hdiv] at htarget hcycles
    have ht : m'.apu.t k = ((timerMonitor k).after u (.store ctrlAt byte :: post)).timer :=
      congrArg TimerUnit.timer hunit
    rw [ht]
    refine Timer.ext ?_ htarget hcount.enabled
    rw [← hcycles, BitVec.ofNat_toNat, BitVec.setWidth_eq]
  · -- the timer just behind the event that set its output
    obtain ⟨part, hhead, rfl, hticks⟩ := exists_part hsplit hset
    have hpost : ∀ byte, CpuEvent.store ctrlAt byte ∉ part ∧ CpuEvent.store ctrlAt byte ∉ rest :=
      fun byte => not_or.mp fun h => hlast byte (List.mem_append.mpr h)
    obtain ⟨hcount, htarget, hcycles⟩ := u.after_setUp hstarts fun byte => (hpost byte).1
    have hdivided : TimerUnit.Divided k _ _ rest := hcount.after fun byte => (hpost byte).2
    have hout : ((timerMonitor k).after u (.store ctrlAt byte :: part)).out = set := by
      rw [← hhead, Monitor.after_append]
      exact TimerUnit.next_out hset
    have hend := hdivided.out hnone
    rw [← Monitor.after_append, List.cons_append, ← hunit, hout, hcycles, htarget, hdiv,
      hperiod] at hend
    rw [show m'.apu.s (apuTout k) = (timerUnit k m').out from rfl, hend, ticks_append, ← hticks,
      ← Divides.div_add_mod_div (ticks k part), Nat.add_sub_cancel_left]

/-- T1DIV is set to 1, timer 1 is set up through the bit of timer 2, and T1OUT is
    set to 5. -/
def timerProgram : Machine :=
  .ofProgram [0x8f, 0x01, 0xfb, 0x8f, 0x04, 0xf1, 0x8f, 0x05, 0xfe] .init

/-- The clocks behind the last instruction complete a period. -/
theorem runInsns_timer_set :
    ∃ r m' es, (runInsns (fun _ => 0) 3 116).Returns timerProgram r m' es ∧
      m'.apu.t 1 = ⟨0, 1, true⟩ ∧ (m'.apu.s (apuTout 1)).toNat % 16 = 6 := by
  let pre : List CpuEvent :=
    [.fetch 0x200, .fetch 0x201, .operand (.immediate 1), .fetch 0x202,
      .operand (.directPage .only 0xfb), .store 0xfb 1,
      .fetch 0x203, .fetch 0x204, .operand (.immediate 4), .fetch 0x205,
      .operand (.directPage .only 0xf1)]
  let post : List CpuEvent :=
    [.fetch 0x206, .fetch 0x207, .operand (.immediate 5), .fetch 0x208,
      .operand (.directPage .only 0xfe), .store 0xfe 5,
      .clock (.assertion true), .clock (.tick 2), .clock (.sample silence), .clock (.tick 0),
      .clock (.tick 1), .clock (.period 1)]
  obtain ⟨r, m', hrun⟩ : ∃ r m', (runInsns (fun _ => 0) 3 116).Returns timerProgram r m'
      (pre ++ .store ctrlAt 4 :: post) :=
    exists_returns (by decide +kernel) (by decide +kernel)
  have hlast : ∀ byte, CpuEvent.store ctrlAt byte ∉ post := by
    intro byte hmem
    simp only [post, List.mem_cons, reduceCtorEq, false_or, CpuEvent.store.injEq, List.not_mem_nil,
      or_false] at hmem
    exact absurd hmem.1 (by decide)
  obtain ⟨htimer, hout⟩ := runInsns_timer (k := 1) hrun rfl hlast rfl
  refine ⟨_, _, _, hrun, htimer.trans (by decide +kernel), ?_⟩
  exact (hout (.store ctrlAt 4 :: post.take 5) _ (post.drop 6) 5 rfl rfl (by decide)).trans
    (by decide +kernel)

/-- **Timer 2**: no program sets it up, and while it is disabled its output is
    the last byte stored to it. -/
theorem runInsns_timer2 (h : (runInsns beyond n cycle).Returns m r m' es)
    (hoff : (m.apu.t 2).enabled = false) :
    (m'.apu.t 2).enabled = false ∧
      m'.apu.s (apuTout 2) =
        (lastStored (apuAddr (apuTout 2))).after (m.apu.s (apuTout 2)) es := by
  have hend := TimerUnit.after_timer2 (u := timerUnit 2 m) hoff es
  rw [← runInsns_timerUnit 2 h] at hend
  exact hend

/-- CTRL and then T2OUT are stored to. -/
def timer2Program : Machine :=
  .ofProgram [0x8f, 0x04, 0xf1, 0x8f, 0x07, 0xff] .init

theorem runInsns_timer2_stored :
    ∃ r m' es, (runInsns (fun _ => 0) 2 0).Returns timer2Program r m' es ∧
      (m'.apu.t 2).enabled = false ∧ m'.apu.s (apuTout 2) = 7 := by
  obtain ⟨r, m', hrun⟩ : ∃ r m', (runInsns (fun _ => 0) 2 0).Returns timer2Program r m' _ :=
    exists_returns (by decide +kernel) rfl
  obtain ⟨hoff, hout⟩ := runInsns_timer2 hrun rfl
  exact ⟨r, m', _, hrun, hoff, hout.trans (by decide +kernel)⟩

end Start

end SpuKit.Spc700
