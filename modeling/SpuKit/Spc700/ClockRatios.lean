import SpuKit.Spc700.InsnStream

/-!
# The ratios of the clocks

The loop counts four cycles for every instruction, and the mask tests on the
count divide it further: a tick of timer 2 every four instructions, a sample
every eight, and ticks of the timers 0 and 1 every thirty-two. The count wraps at
a multiple of all of these, so that the ratios are exact over runs of any length.
A timer that is left alone divides its ticks by its target.

## Main definitions

- `clocksOf` — the events of the clocks
- `Divides` — a timer has divided the ticks of a stretch

## Main results

- `count_runInsns` — the ratio of a divider of the cycle count
- `clock_ratios` — all ratios, over every run
-/

namespace SpuKit.Spc700

/-- The event of the clocks, if it is one. -/
def CpuEvent.clock? : CpuEvent → Option ClockEvent
  | .clock e => some e
  | _ => none

/-- The events of the clocks. -/
def clocksOf (es : List CpuEvent) : List ClockEvent := es.filterMap CpuEvent.clock?

theorem clocksOf_append (es es' : List CpuEvent) :
    clocksOf (es ++ es') = clocksOf es ++ clocksOf es' := List.filterMap_append ..

theorem clocksOf_map (ces : List ClockEvent) : clocksOf (ces.map .clock) = ces := by
  rw [clocksOf, List.filterMap_map]
  exact List.filterMap_some

theorem NoClocks.clocksOf {es : List CpuEvent} (h : NoClocks es) : clocksOf es = [] := by
  refine List.filterMap_eq_nil_iff.mpr fun e he => ?_
  cases e with
  | clock c => exact absurd he (h c)
  | _ => rfl

section Iterating

variable {beyond : Nat → Byte} {cycle : BitVec 32} {shape : Shape} {m m₁ m' : Machine}
  {es₁ es : List CpuEvent} (h : Iterating beyond cycle m shape m₁ m' es₁ es)
include h

theorem Iterating.noClocks : NoClocks (.fetch m.cpu.pc :: es₁) :=
  (noClocks_singleton fun _ => CpuEvent.noConfusion).append h.fetching.frame.clocks

/-- The events of the clocks in one round of the loop. -/
theorem Iterating.clocksOf_eq : clocksOf es = (updateClocks beyond (cycle + 4) m₁).events := by
  rw [h.events, clocksOf_append, h.noClocks.clocksOf, clocksOf_map, List.nil_append]

end Iterating

/-- Does the event output a sample? -/
def isSample : ClockEvent → Bool
  | .sample _ => true
  | _ => false

-- ════════════════════════════════════════════════════════════════════════
-- The cycle count
-- ════════════════════════════════════════════════════════════════════════

/-- The mask tests see the cycle count as it would be without wrapping. -/
theorem cycle_and_mask (k j : Nat) (hk : k ≤ 32) :
    BitVec.ofNat 32 j &&& BitVec.ofNat 32 (2 ^ k - 1) = 0 ↔ 2 ^ k ∣ j := by
  have hdvd : 2 ^ k ∣ 2 ^ 32 := Nat.pow_dvd_pow 2 hk
  have hlt : 2 ^ k - 1 < 2 ^ 32 := by
    have := Nat.le_of_dvd (by decide) hdvd
    omega
  rw [← BitVec.toNat_inj, BitVec.toNat_and, BitVec.toNat_ofNat, BitVec.toNat_ofNat,
    Nat.mod_eq_of_lt hlt, Nat.and_two_pow_sub_one_eq_mod, Nat.mod_mod_of_dvd _ hdvd]
  exact (Nat.dvd_iff_mod_eq_zero).symm

section Counts

variable {P : ClockEvent → Bool} (hperiod : ∀ index, P (.period index) = false)
include hperiod

theorem countP_timerTick (index : Fin 3) (m : Machine) :
    (timerTick index m).events.countP P = (P (.tick index)).toNat := by
  rw [timerTick_events, doTimerTick_events, List.countP_cons]
  split <;> cases P (.tick index) <;> simp [hperiod]

/-- What the clocks do after one instruction, counted. -/
theorem countP_updateClocks {c : Bool} (hsample : ∀ s, P (.sample s) = c) (beyond : Nat → Byte)
    (cycle : BitVec 32) (m : Machine) :
    (updateClocks beyond cycle m).events.countP P =
      if cycle &&& 0xf = 0 then
        (P (.assertion true)).toNat + (P (.tick 2)).toNat +
          (if cycle &&& 0x1f = 0 then c.toNat else 0) +
          (if cycle &&& 0x7f = 0 then (P (.tick 0)).toNat + (P (.tick 1)).toNat else 0)
      else 0 := by
  rw [updateClocks]
  by_cases hf : cycle &&& 0xf = 0
  · have hassert : (cycle &&& 0x0f == 0) = true := beq_iff_eq.mpr hf
    have hdsp : ∀ m, (sampleClock beyond cycle m).events.countP P =
        if cycle &&& 0x1f = 0 then c.toNat else 0 := by
      intro m
      rw [sampleClock, apply_ite Traced.events, apply_ite (List.countP P)]
      refine if_congr Iff.rfl ?_ rfl
      obtain ⟨⟨s, hs⟩, -, -⟩ := dspRun32_spec beyond m
      rw [hs, List.countP_singleton, hsample]
      cases c <;> rfl
    have hslow : ∀ m, (slowClock cycle m).events.countP P =
        if cycle &&& 0x7f = 0 then (P (.tick 0)).toNat + (P (.tick 1)).toNat else 0 := by
      intro m
      rw [slowClock, apply_ite Traced.events, apply_ite (List.countP P)]
      refine if_congr Iff.rfl ?_ rfl
      rw [Traced.events_bind, List.countP_append, countP_timerTick hperiod,
        countP_timerTick hperiod]
    rw [if_pos hf, if_pos hf, apuUpdateClocks_eq, hassert]
    simp only [Traced.events_bind, Traced.events_emit, List.countP_append, hdsp, hslow,
      countP_timerTick hperiod, List.countP_singleton]
    cases P (.assertion true) <;> simp [Nat.add_assoc]
  · rw [if_neg hf, if_neg hf]
    rfl

end Counts

/-- **Divider**: what happens once for every `d` instructions happens `n / d` times in
    `n` of them. The phase is that of the instructions before. -/
theorem count_runInsns {P : ClockEvent → Bool} {beyond : Nat → Byte} {d : Nat}
    (hstep : ∀ j m, (updateClocks beyond (BitVec.ofNat 32 (4 * j)) m).events.countP P =
      if d ∣ j then 1 else 0)
    (n j : Nat) {m m' : Machine} {cycle : BitVec 32} {es : List CpuEvent}
    (h : (runInsns beyond n (BitVec.ofNat 32 (4 * j))).Returns m (some cycle) m' es) :
    (clocksOf es).countP P + j / d = (j + n) / d := by
  induction n generalizing j m es with
  | zero =>
    obtain ⟨-, -, rfl⟩ := Program.returns_pure.mp h
    exact Nat.zero_add _
  | succ n ih =>
    obtain ⟨r, m₀, es₀, es₁, hround, hrest, rfl⟩ := Program.returns_bind.mp h
    obtain ⟨rfl, -, -⟩ | ⟨rfl, shape, m₁, es₂, hiter⟩ := (iteration_does _ _).returns hround
    · obtain ⟨hnone, -, -⟩ := Program.returns_pure.mp hrest
      cases hnone
    have hnext : BitVec.ofNat 32 (4 * j) + 4 = BitVec.ofNat 32 (4 * (j + 1)) := by
      rw [Nat.mul_add, BitVec.ofNat_add]
      rfl
    have hcount : (clocksOf es₀).countP P = if d ∣ j + 1 then 1 else 0 := by
      rw [hiter.clocksOf_eq, hnext, hstep]
    rw [hnext] at hrest
    have hih := ih (j + 1) hrest
    rw [Nat.succ_div, Nat.add_right_comm] at hih
    rw [clocksOf_append, List.countP_append, hcount, ← Nat.add_assoc]
    omega

-- ════════════════════════════════════════════════════════════════════════
-- The timers
-- ════════════════════════════════════════════════════════════════════════

/-- The timer is enabled, and its count is below its target. -/
structure Counting (index : Fin 3) (a : Apu) : Prop where
  enabled : (a.t index).enabled = true
  below : (a.t index).cycles.toNat < (a.t index).target.toNat

/-- From `a` to `a'` the timer divided the ticks among the events by its target:
    the quotient is the number of its periods, the remainder its new count. -/
structure Divides (index : Fin 3) (a a' : Apu) (ces : List ClockEvent) : Prop where
  enabled : (a'.t index).enabled = (a.t index).enabled
  target : (a'.t index).target = (a.t index).target
  cycles : (a'.t index).cycles.toNat =
    ((a.t index).cycles.toNat + ces.count (.tick index)) % (a.t index).target.toNat
  periods : ces.count (.period index) =
    ((a.t index).cycles.toNat + ces.count (.tick index)) / (a.t index).target.toNat
  tout : (a'.s (apuTout index)).toNat % 16 =
    ((a.s (apuTout index)).toNat + ces.count (.period index)) % 16

namespace Divides

variable {index : Fin 3} {a a' a'' : Apu} {ces ces' : List ClockEvent}

theorem counting (h : Divides index a a' ces) (ha : Counting index a) : Counting index a' where
  enabled := h.enabled.trans ha.enabled
  below := by
    rw [h.cycles, h.target]
    exact Nat.mod_lt _ (Nat.zero_lt_of_lt ha.below)

theorem of_timer {count : Word} (ht : a'.t index = { a.t index with cycles := count })
    (hcycles : count.toNat =
      ((a.t index).cycles.toNat + ces.count (.tick index)) % (a.t index).target.toNat)
    (hperiods : ces.count (.period index) =
      ((a.t index).cycles.toNat + ces.count (.tick index)) / (a.t index).target.toNat)
    (htout : (a'.s (apuTout index)).toNat % 16 =
      ((a.s (apuTout index)).toNat + ces.count (.period index)) % 16) :
    Divides index a a' ces where
  enabled := by rw [ht]
  target := by rw [ht]
  cycles := by rw [ht, hcycles]
  periods := hperiods
  tout := htout

/-- Other events leave the timer alone. -/
theorem of_eq (ha : Counting index a) (ht : a'.t index = a.t index)
    (hs : a'.s (apuTout index) = a.s (apuTout index)) (htick : ces.count (.tick index) = 0)
    (hperiod : ces.count (.period index) = 0) : Divides index a a' ces where
  enabled := by rw [ht]
  target := by rw [ht]
  cycles := by rw [ht, htick, Nat.add_zero, Nat.mod_eq_of_lt ha.below]
  periods := by rw [htick, hperiod, Nat.add_zero, Nat.div_eq_of_lt ha.below]
  tout := by rw [hs, hperiod, Nat.add_zero]

/-- What is divided later adds up with the remainder of what was divided before. -/
theorem div_add_mod_div (x y p : Nat) : x / p + (x % p + y) / p = (x + y) / p := by
  obtain rfl | hp := Nat.eq_zero_or_pos p
  · simp only [Nat.div_zero]
  · have hx : x + y = x % p + y + p * (x / p) := by
      have := Nat.mod_add_div x p
      omega
    rw [hx, Nat.add_mul_div_left _ _ hp, Nat.add_comm]

/-- The remainder of the first stretch is carried into the second. -/
theorem append (h : Divides index a a' ces) (h' : Divides index a' a'' ces') :
    Divides index a a'' (ces ++ ces') where
  enabled := h'.enabled.trans h.enabled
  target := h'.target.trans h.target
  cycles := by
    rw [h'.cycles, h.cycles, h.target, List.count_append, Nat.mod_add_mod, Nat.add_assoc]
  periods := by
    rw [List.count_append, List.count_append, h.periods, h'.periods, h.cycles, h.target,
      div_add_mod_div, Nat.add_assoc]
  tout := by
    rw [h'.tout, List.count_append, Nat.add_mod, h.tout, ← Nat.add_mod, Nat.add_assoc]

/-- A tick of the timer. -/
theorem tick (ha : Counting index a) :
    Divides index a (doTimerTick index a).val (.tick index :: (doTimerTick index a).events) := by
  have hlt := ha.below
  have hmax := (a.t index).target.isLt
  have hsucc : ((a.t index).cycles + 1).toNat = (a.t index).cycles.toNat + 1 := by
    rw [BitVec.toNat_add]
    exact Nat.mod_eq_of_lt (Nat.lt_of_le_of_lt hlt hmax)
  by_cases hc : TickCompletes index a
  · -- the count has reached the target
    have hlast : (a.t index).cycles.toNat + 1 = (a.t index).target.toNat := by
      have hle : (a.t index).target.toNat ≤ ((a.t index).cycles + 1).toNat := hc.2
      rw [hsucc] at hle
      exact Nat.le_antisymm hlt hle
    rw [doTimerTick_of_completes index a hc]
    have htick : [ClockEvent.tick index, .period index].count (.tick index) = 1 := by simp
    have hperiod : [ClockEvent.tick index, .period index].count (.period index) = 1 := by simp
    refine of_timer (Function.update_self ..) ?_ ?_ ?_
    · rw [htick, hlast, Nat.mod_self]
      rfl
    · rw [htick, hperiod, hlast, Nat.div_self (Nat.zero_lt_of_lt hlt)]
    · show (toutAdvance index a.s (apuTout index)).toNat % 16 = _
      rw [hperiod, toutAdvance_self, toNat_and_fifteen, BitVec.toNat_add, Nat.mod_mod]
      exact Nat.mod_mod_of_dvd _ (by decide)
  · have hnext : (a.t index).cycles.toNat + 1 < (a.t index).target.toNat := by
      refine Nat.lt_of_not_le fun hle => hc ⟨ha.enabled, ?_⟩
      rw [BitVec.le_def, hsucc]
      exact hle
    rw [doTimerTick_of_running index a ha.enabled hc]
    have htick : [ClockEvent.tick index].count (.tick index) = 1 := by simp
    have hperiod : [ClockEvent.tick index].count (.period index) = 0 := by simp
    refine of_timer (Function.update_self ..) ?_ ?_ ?_
    · rw [htick, Nat.mod_eq_of_lt hnext, hsucc]
    · rw [htick, hperiod, Nat.div_eq_of_lt hnext]
    · rw [hperiod, Nat.add_zero]

/-- A tick of another timer. -/
theorem tick_of_ne {k : Fin 3} (hk : k ≠ index) (ha : Counting index a) :
    Divides index a (doTimerTick k a).val (.tick k :: (doTimerTick k a).events) := by
  have ht : (doTimerTick k a).val.t index = a.t index := doTimerTick_t_of_ne k a hk.symm
  have hs : (doTimerTick k a).val.s (apuTout index) = a.s (apuTout index) := by
    rw [doTimerTick_s, apply_ite (fun s : Sram => s (apuTout index)),
      toutAdvance_of_ne k (fun heq => hk (apuTout_injective heq).symm), ite_self]
  refine of_eq ha ht hs ?_ ?_
  · rw [doTimerTick_events]
    split <;> simp [hk]
  · rw [doTimerTick_events]
    split <;> simp [hk]

theorem timerTick (k : Fin 3) {m : Machine} (ha : Counting index m.apu) :
    Divides index m.apu (timerTick k m).val.apu (timerTick k m).events := by
  rw [timerTick_events]
  by_cases hk : k = index
  · subst hk
    exact tick ha
  · exact tick_of_ne hk ha

/-- One part of the clocks after the other. -/
theorem bind {m : Machine} {x : Traced ClockEvent Machine}
    {f : Machine → Traced ClockEvent Machine} (ha : Counting index m.apu)
    (hx : Divides index m.apu x.val.apu x.events)
    (hf : ∀ m, Counting index m.apu → Divides index m.apu (f m).val.apu (f m).events) :
    Divides index m.apu (x >>= f).val.apu (x >>= f).events :=
  hx.append (hf _ (hx.counting ha))

theorem nil (ha : Counting index a) : Divides index a a [] := of_eq ha rfl rfl rfl rfl

theorem sampleClock (beyond : Nat → Byte) (cycle : BitVec 32) {m : Machine}
    (ha : Counting index m.apu) :
    Divides index m.apu (sampleClock beyond cycle m).val.apu
      (sampleClock beyond cycle m).events := by
  rw [SpuKit.sampleClock]
  split
  · obtain ⟨⟨s, hs⟩, hapu, -⟩ := dspRun32_spec beyond m
    rw [hs, hapu]
    exact of_eq ha rfl rfl (by simp) (by simp)
  · exact nil ha

theorem slowClock (cycle : BitVec 32) {m : Machine} (ha : Counting index m.apu) :
    Divides index m.apu (slowClock cycle m).val.apu (slowClock cycle m).events := by
  rw [SpuKit.slowClock]
  split
  · exact bind ha (timerTick 0 ha) fun _ ha => timerTick 1 ha
  · exact nil ha

/-- **Step**: what the clocks do after one instruction. -/
theorem updateClocks (beyond : Nat → Byte) (cycle : BitVec 32) {m : Machine}
    (ha : Counting index m.apu) :
    Divides index m.apu (updateClocks beyond cycle m).val.apu
      (updateClocks beyond cycle m).events := by
  rw [Spc700.updateClocks]
  split
  · rw [apuUpdateClocks_eq]
    have hassert : Divides index m.apu m.apu
        (Traced.emit (ClockEvent.assertion (cycle &&& 0x0f == 0))).events :=
      of_eq ha rfl rfl (by simp) (by simp)
    exact hassert.append (bind ha (timerTick 2 ha) fun _ ha =>
      bind ha (sampleClock beyond cycle ha) fun _ ha => slowClock cycle ha)
  · exact nil ha

/-- **Run**: a stretch in which no instruction accesses a register. -/
theorem runInsns {beyond : Nat → Byte} (n : Nat) {cycle cycle' : BitVec 32} {m m' : Machine}
    {es : List CpuEvent}
    (h : (runInsns beyond n cycle).Returns m (some cycle') m' es) (havoid : AvoidsMmio es)
    (ha : Counting index m.apu) : Divides index m.apu m'.apu (clocksOf es) := by
  induction n generalizing cycle m es with
  | zero =>
    obtain ⟨-, rfl, rfl⟩ := Program.returns_pure.mp h
    exact nil ha
  | succ n ih =>
    obtain ⟨r, m₀, es₀, es₁, hround, hrest, rfl⟩ := Program.returns_bind.mp h
    obtain ⟨rfl, -, -⟩ | ⟨rfl, shape, m₁, es₂, hiter⟩ := (iteration_does _ _).returns hround
    · obtain ⟨hnone, -, -⟩ := Program.returns_pure.mp hrest
      cases hnone
    obtain ⟨havoid₀, havoid₁⟩ := avoidsMmio_append.mp havoid
    have hround : Divides index m.apu m₀.apu (clocksOf es₀) := by
      rw [hiter.clocksOf_eq, hiter.clocks]
      have hinsn : m₁.apu = m.apu := by
        refine hiter.fetching.frame.apu fun e he => havoid₀ e ?_
        rw [hiter.events]
        exact List.mem_append_left _ (List.mem_cons_of_mem _ he)
      rw [← hinsn] at ha ⊢
      exact updateClocks beyond _ ha
    rw [clocksOf_append]
    exact hround.append (ih hrest havoid₁ (hround.counting ha))

end Divides

-- ════════════════════════════════════════════════════════════════════════
-- The ratios
-- ════════════════════════════════════════════════════════════════════════

/-- No assertion failed. -/
def AllHold (es : List CpuEvent) : Prop := ∀ b, .clock (.assertion b) ∈ es → b = true

theorem AllHold.append {es es' : List CpuEvent} (h : AllHold es) (h' : AllHold es') :
    AllHold (es ++ es') := by
  intro b hb
  obtain hb | hb := List.mem_append.mp hb
  · exact h b hb
  · exact h' b hb

theorem NoClocks.allHold {es : List CpuEvent} (h : NoClocks es) : AllHold es :=
  fun _ hb => absurd hb (h _)

/-- **Step**: the loop only calls the clocks when their assertion holds. -/
theorem updateClocks_allHold (beyond : Nat → Byte) (cycle : BitVec 32) (m : Machine) :
    AllHold ((updateClocks beyond cycle m).events.map .clock) := by
  have hcount : (updateClocks beyond cycle m).events.countP (· == .assertion false) = 0 := by
    rw [countP_updateClocks (fun _ => rfl) (c := false) (fun _ => rfl)]
    simp
  intro b hb
  obtain ⟨e, he, heq⟩ := List.mem_map.mp hb
  obtain rfl := CpuEvent.clock.inj heq
  cases b with
  | true => rfl
  | false => exact absurd (beq_self_eq_true _) (List.countP_eq_zero.mp hcount _ he)

theorem iteration_allHold (beyond : Nat → Byte) (cycle : BitVec 32) :
    (iteration beyond cycle).Does (fun _ _ _ es => AllHold es) AllHold where
  returns hret := by
    obtain ⟨-, -, hclocks⟩ | ⟨-, shape, m₁, es₁, hiter⟩ := (iteration_does _ _).returns hret
    · exact hclocks.allHold
    · rw [hiter.events]
      exact hiter.noClocks.allHold.append (updateClocks_allHold beyond _ m₁)
  stops hstop := ((iteration_does _ _).stops hstop).clocks.allHold

/-- **Run**: the assertion never fails, however the run ends. -/
theorem runInsns_allHold (beyond : Nat → Byte) (n : Nat) (cycle : BitVec 32) :
    (runInsns beyond n cycle).Does (fun _ _ _ es => AllHold es) AllHold := by
  induction n generalizing cycle with
  | zero => exact Program.Does.pure fun _ => noClocks_nil.allHold
  | succ n ih =>
    refine Program.Does.bind (iteration_allHold beyond cycle)
      (S := fun _ _ _ _ es => AllHold es) (fun r => ?_) (fun _ _ _ _ _ h h' => h.append h')
      (fun _ _ _ _ _ _ _ h h' => h.append h')
    cases r with
    | none => exact Program.Does.pure fun _ => noClocks_nil.allHold
    | some cycle' => exact ih cycle'

/-- A mask test on the cycle count is a test on the number of the instruction. -/
theorem mask_iff (k j d : Nat) (hk : k ≤ 32) (hd : 2 ^ k = 4 * d) :
    BitVec.ofNat 32 (4 * j) &&& BitVec.ofNat 32 (2 ^ k - 1) = 0 ↔ d ∣ j := by
  rw [cycle_and_mask k _ hk, hd]
  exact Nat.mul_dvd_mul_iff_left (by decide)

/-- The dividers of the loop, for what is neither a period nor an assertion. -/
theorem countP_step {P : ClockEvent → Bool} {c : Bool}
    (hperiod : ∀ index, P (.period index) = false) (hassert : P (.assertion true) = false)
    (hsample : ∀ s, P (.sample s) = c) (beyond : Nat → Byte) (j : Nat) (m : Machine) :
    (updateClocks beyond (BitVec.ofNat 32 (4 * j)) m).events.countP P =
      (if 4 ∣ j then (P (.tick 2)).toNat else 0) + (if 8 ∣ j then c.toNat else 0) +
        (if 32 ∣ j then (P (.tick 0)).toNat + (P (.tick 1)).toNat else 0) := by
  have h4 : BitVec.ofNat 32 (4 * j) &&& 0xf = 0 ↔ 4 ∣ j := mask_iff 4 j 4 (by decide) rfl
  have h8 : BitVec.ofNat 32 (4 * j) &&& 0x1f = 0 ↔ 8 ∣ j := mask_iff 5 j 8 (by decide) rfl
  have h32 : BitVec.ofNat 32 (4 * j) &&& 0x7f = 0 ↔ 32 ∣ j := mask_iff 7 j 32 (by decide) rfl
  rw [countP_updateClocks hperiod hsample, hassert]
  simp only [h4, h8, h32, Bool.toNat_false, Nat.zero_add]
  by_cases hj : 4 ∣ j
  · rw [if_pos hj, if_pos hj]
  · -- what happens less often only happens when this does
    have hj8 : ¬ 8 ∣ j := fun h => hj (Nat.dvd_trans (by decide) h)
    have hj32 : ¬ 32 ∣ j := fun h => hj (Nat.dvd_trans (by decide) h)
    rw [if_neg hj, if_neg hj, if_neg hj8, if_neg hj32]

/-- **Clock domains keep exact ratios.** In every run of the loop the assertion of the
    clocks holds. After `n` instructions, `n / 8` samples were output, timer 2
    got `n / 4` ticks, and timers 0 and 1 got `n / 32` ticks each. Over any stretch
    of the run in which no instruction accesses a register, a timer that counts
    divides its ticks by its target. -/
theorem clock_ratios (beyond : Nat → Byte) (n : Nat) (m : Machine) :
    AllHold (Program.exec (runInsns beyond n 0) m).events ∧
      ∀ cycle m₁ es, (runInsns beyond n 0).Returns m (some cycle) m₁ es →
        (clocksOf es).countP isSample = n / 8 ∧
        (clocksOf es).count (.tick 2) = n / 4 ∧
        (clocksOf es).count (.tick 0) = n / 32 ∧
        (clocksOf es).count (.tick 1) = n / 32 ∧
        ∀ k cycle' m₂ es', (runInsns beyond k cycle).Returns m₁ (some cycle') m₂ es' →
          AvoidsMmio es' → ∀ index, Counting index m₁.apu →
            Divides index m₁.apu m₂.apu (clocksOf es') := by
  refine ⟨(runInsns_allHold beyond n 0).always m, fun cycle m₁ es hrun => ?_⟩
  have hcount : ∀ (P : ClockEvent → Bool) (d : Nat),
      (∀ j m, (updateClocks beyond (BitVec.ofNat 32 (4 * j)) m).events.countP P =
        if d ∣ j then 1 else 0) → (clocksOf es).countP P = n / d := by
    intro P d hstep
    have h := count_runInsns hstep n 0 hrun
    rwa [Nat.zero_div, Nat.add_zero, Nat.zero_add] at h
  refine ⟨hcount _ 8 fun j m => ?_, hcount _ 4 fun j m => ?_, hcount _ 32 fun j m => ?_,
    hcount _ 32 fun j m => ?_, fun k cycle' m₂ es' hrun' havoid index ha =>
      Divides.runInsns k hrun' havoid ha⟩
  · rw [countP_step (fun _ => rfl) rfl (c := true) (fun _ => rfl)]
    show (if 4 ∣ j then 0 else 0) + (if 8 ∣ j then 1 else 0) + (if 32 ∣ j then 0 + 0 else 0) = _
    simp
  · rw [countP_step (fun _ => rfl) rfl (c := false) (fun _ => rfl)]
    show (if 4 ∣ j then 1 else 0) + (if 8 ∣ j then 0 else 0) + (if 32 ∣ j then 0 + 0 else 0) = _
    simp
  · rw [countP_step (fun _ => rfl) rfl (c := false) (fun _ => rfl)]
    show (if 4 ∣ j then 0 else 0) + (if 8 ∣ j then 0 else 0) + (if 32 ∣ j then 1 + 0 else 0) = _
    simp
  · rw [countP_step (fun _ => rfl) rfl (c := false) (fun _ => rfl)]
    show (if 4 ∣ j then 0 else 0) + (if 8 ∣ j then 0 else 0) + (if 32 ∣ j then 0 + 1 else 0) = _
    simp

/-- Four `nop` instructions give timer 2 a tick, which completes a period. -/
theorem clock_ratios_four_nops :
    let m : Machine := { Machine.init with
      apu := { Apu.init with t := Function.update Apu.init.t 2 ⟨0, 1, true⟩ } }
    let es : List CpuEvent := [.fetch 0, .fetch 1, .fetch 2, .fetch 3,
      .clock (.assertion true), .clock (.tick 2), .clock (.period 2)]
    ∃ m', (runInsns (fun _ => 0) 4 0).Returns m (some 16) m' es ∧
      Divides 2 m.apu m'.apu (clocksOf es) := by
  intro m es
  have hrun : (runInsns (fun _ => 0) 4 0).Returns m (some 16) _ es := rfl
  have havoid : AvoidsMmio es := by
    simp [AvoidsMmio, es, CpuEvent.address?]
  exact ⟨_, hrun, ((clock_ratios (fun _ => 0) 0 m).2 _ _ _ rfl).2.2.2.2 4 16 _ _ hrun havoid 2
    ⟨rfl, by decide⟩⟩

end SpuKit.Spc700
