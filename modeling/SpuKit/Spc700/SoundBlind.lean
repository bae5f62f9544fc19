import SpuKit.Spc700.DeviceHistory

/-!
# The program does not hear the sound

The CPU and the DSP share the RAM and the register file of the DSP. As long as
samples are taken with the echo unit kept from writing, and no register is
loaded that the DSP writes itself, nothing the DSP computes reaches the program:
two machines that differ only in their sound run alike.

## Main definitions

- `SoundBlind` — the two machines differ only in their sound
- `soundGuard` — accesses that do not depend on the sound
- `CpuEvent.isSample` — the only events that may differ

## Main results

- `runInsns_soundBlind` — they run alike
-/

namespace SpuKit.Spc700

/-- The machines agree on everything but the state of the DSP and the registers
    it writes itself. -/
structure SoundBlind (m m' : Machine) : Prop where
  cpu : m.cpu = m'.cpu
  aram : m.aram = m'.aram
  extraRam : m.extraRam = m'.extraRam
  showRom : m.showRom = m'.showRom
  apu : m.apu = m'.apu
  regs : SameControl m.dsp.regs m'.dsp.regs

/-- Samples are only taken while FLG keeps the echo unit from writing, and no
    register is loaded that the DSP writes itself. -/
def soundGuard : Monitor DspPort CpuEvent where
  next := DspPort.next
  ok p
    | .clock (.sample _) => p.flg &&& flgEchoDisabled ≠ 0
    | .load addr => addr = dspDataAt → p.addr &&& 0x80 = 0 → ControlReg p.reg
    | _ => True

/-- Is this the sound? -/
def CpuEvent.isSample : CpuEvent → Bool
  | .clock (.sample _) => true
  | _ => false

/-- The events that are not the sound. -/
def silent (e : CpuEvent) : Bool := !e.isSample

theorem SoundBlind.withCpu {m m' : Machine} (h : SoundBlind m m') (c : Cpu) :
    SoundBlind (m.withCpu c) (m'.withCpu c) :=
  ⟨rfl, h.aram, h.extraRam, h.showRom, h.apu, h.regs⟩

/-- Storing the same byte to a register keeps the others alike. -/
theorem SameControl.store {regs regs' : Regs} (h : SameControl regs regs') (addr : Fin 0x80)
    (byte : Byte) : SameControl (SpuKit.store regs addr byte) (SpuKit.store regs' addr byte) := by
  intro r hr
  unfold SpuKit.store
  split
  · rw [Function.update_apply, Function.update_apply, h r hr]
  · rw [Function.update_apply, Function.update_apply, h r hr]

section Access

variable {m m' : Machine} {addr : Word} {byte : Byte}

/-- A load of anything but a register the DSP writes. -/
theorem memLoad_soundBlind (h : SoundBlind m m')
    (hok : addr = dspDataAt → (dspPort m).addr &&& 0x80 = 0 → ControlReg (dspPort m).reg) :
    Option.Rel (fun p q => p.1 = q.1 ∧ SoundBlind p.2 q.2) (SpuKit.memLoad .fast addr m)
      (SpuKit.memLoad .fast addr m') := by
  rw [memLoad_run, memLoad_run]
  split
  · next hmmio =>
    have hload : mmioLoadRegs addr m.apu m.dsp = mmioLoadRegs addr m'.apu m'.dsp := by
      rw [mmioLoadRegs, mmioLoadRegs, ← h.apu]
      split
      · next hdata =>
        have hreg := hok ((apuMmioAddress_eq_iff hmmio _).mp hdata)
        rw [dspLoad, dspLoad]
        split
        · rfl
        · next hlow =>
          have hsame := h.regs _ (hreg (not_not.mp hlow))
          exact congrArg (fun byte => (some byte).map (·, m.apu)) hsame
      · rfl
    rw [hload]
    cases mmioLoadRegs addr m'.apu m'.dsp with
    | none => exact .none
    | some p => exact .some ⟨rfl, h.cpu, h.aram, h.extraRam, h.showRom, rfl, h.regs⟩
  · refine .some ⟨?_, h⟩
    rw [loadMem, loadMem, h.showRom, h.aram]

theorem storeMem_soundBlind (h : SoundBlind m m') :
    SoundBlind (storeMem .fast addr byte m) (storeMem .fast addr byte m') := by
  have hshow : ∀ shown, SoundBlind (apuSetShowIplRom .fast shown m)
      (apuSetShowIplRom .fast shown m') := by
    intro shown
    refine ⟨?_, ?_, ?_, ?_, ?_, ?_⟩
    · simp only [apuSetShowIplRom_cpu, h.cpu]
    · simp only [apuSetShowIplRom_aram, h.aram, h.extraRam, h.showRom]
    · simp only [apuSetShowIplRom_extraRam, h.aram, h.extraRam, h.showRom]
    · simp only [apuSetShowIplRom_showRom]
    · simp only [apuSetShowIplRom_apu, h.apu]
    · simp only [apuSetShowIplRom_dsp]
      exact h.regs
  have hpoke : ∀ {m m' : Machine}, SoundBlind m m' → SoundBlind (m.poke addr byte)
      (m'.poke addr byte) := by
    rintro m m' ⟨hcpu, haram, hextra, hrom, hapu, hregs⟩
    refine ⟨hcpu, ?_, hextra, hrom, hapu, hregs⟩
    simp only [Machine.poke, haram]
  unfold storeMem
  split
  · exact hpoke (hshow _)
  · exact hpoke h

/-- A store. -/
theorem memStore_soundBlind (h : SoundBlind m m') :
    Option.Rel (fun p q => p.1 = q.1 ∧ SoundBlind p.2 q.2) (SpuKit.memStore .fast addr byte m)
      (SpuKit.memStore .fast addr byte m') := by
  have hregs : Option.Rel (fun p q => p.1 = q.1 ∧ SameControl p.2.regs q.2.regs)
      (storeRegs addr byte m.apu m.dsp) (storeRegs addr byte m'.apu m'.dsp) := by
    have hsame : Option.Rel (fun p q : Apu × Dsp => p.1 = q.1 ∧ SameControl p.2.regs q.2.regs)
        (some (m.apu, m.dsp)) (some (m'.apu, m'.dsp)) := .some ⟨h.apu, h.regs⟩
    rw [storeRegs, storeRegs]
    split
    · rw [mmioStoreRegs, mmioStoreRegs, ← h.apu]
      split
      · exact .some ⟨rfl, h.regs⟩
      split
      · rw [dspStore, dspStore]
        split
        · exact .none
        · exact .some ⟨rfl, SameControl.store h.regs _ byte⟩
      split
      · cases ioStore _ byte _ with
        | none => exact .none
        | some a => exact .some ⟨rfl, h.regs⟩
      · exact .some ⟨rfl, h.regs⟩
    · exact hsame
  rw [memStore_run, memStore_run]
  cases hrun : storeRegs addr byte m.apu m.dsp with
  | none =>
    rw [hrun] at hregs
    cases hrun' : storeRegs addr byte m'.apu m'.dsp with
    | none => exact .none
    | some q =>
      rw [hrun'] at hregs
      cases hregs
  | some p =>
    rw [hrun] at hregs
    cases hrun' : storeRegs addr byte m'.apu m'.dsp with
    | none =>
      rw [hrun'] at hregs
      cases hregs
    | some q =>
      rw [hrun'] at hregs
      cases hregs with
      | some hpq =>
        refine .some ⟨rfl, storeMem_soundBlind ?_⟩
        exact ⟨h.cpu, h.aram, h.extraRam, h.showRom, hpq.1, hpq.2⟩

end Access

-- ════════════════════════════════════════════════════════════════════════
-- The clocks
-- ════════════════════════════════════════════════════════════════════════

/-- Is this the sound? -/
def isSampleClock : ClockEvent → Bool
  | .sample _ => true
  | _ => false

/-- The two computations of the clocks differ only in the sound. -/
def ClocksAlike (x y : Traced ClockEvent Machine) : Prop :=
  SoundBlind x.val y.val ∧
    y.events.filter (!isSampleClock ·) = x.events.filter (!isSampleClock ·)

theorem ClocksAlike.bind {x y : Traced ClockEvent Machine}
    {f g : Machine → Traced ClockEvent Machine} (h : ClocksAlike x y)
    (hfg : ClocksAlike (f x.val) (g y.val)) : ClocksAlike (x >>= f) (y >>= g) := by
  refine ⟨hfg.1, ?_⟩
  rw [Traced.events_bind, Traced.events_bind, List.filter_append, List.filter_append, h.2, hfg.2]

section Clocks

variable {m m' : Machine} (beyond beyond' : Nat → Byte)

theorem timerTick_alike (index : Fin 3) (h : SoundBlind m m') :
    ClocksAlike (timerTick index m) (timerTick index m') := by
  refine ⟨⟨h.cpu, h.aram, h.extraRam, h.showRom, ?_, h.regs⟩, ?_⟩
  · show (doTimerTick index m.apu).val = (doTimerTick index m'.apu).val
    rw [h.apu]
  · rw [timerTick_events, timerTick_events, h.apu]

/-- A sample that writes no echo. -/
theorem dspRun32_alike (h : SoundBlind m m') (hecho : ¬ EchoWrites m.dsp.regs) :
    ClocksAlike (dspRun32 beyond m) (dspRun32 beyond' m') := by
  have haccess := ClockAccess.dspRun32 beyond m
  have haccess' := ClockAccess.dspRun32 beyond' m'
  have hecho' : ¬ EchoWrites m'.dsp.regs := by
    rwa [EchoWrites, ← h.regs regFlg control_flg]
  obtain ⟨⟨s, hs⟩, hapu, -⟩ := dspRun32_spec beyond m
  obtain ⟨⟨s', hs'⟩, hapu', -⟩ := dspRun32_spec beyond' m'
  refine ⟨⟨?_, ?_, ?_, ?_, ?_, fun r hr => ?_⟩, ?_⟩
  · rw [haccess.cpu, haccess'.cpu, h.cpu]
  · rw [haccess.aram hecho, haccess'.aram hecho', h.aram]
  · rw [haccess.extraRam, haccess'.extraRam, h.extraRam]
  · rw [haccess.showRom, haccess'.showRom, h.showRom]
  · rw [hapu, hapu', h.apu]
  · rw [haccess.regs r hr, haccess'.regs r hr, h.regs r hr]
  · rw [hs, hs']
    rfl

/-- The clocks, when the sample they take writes no echo. -/
theorem updateClocks_alike (cycle : BitVec 32) (h : SoundBlind m m')
    (hecho : ∀ s, .sample s ∈ (updateClocks beyond cycle m).events → ¬ EchoWrites m.dsp.regs) :
    ClocksAlike (updateClocks beyond cycle m) (updateClocks beyond' cycle m') := by
  rw [updateClocks] at hecho ⊢
  rw [updateClocks]
  by_cases hdue : cycle &&& 0xf = 0
  · rw [if_pos hdue, if_pos hdue]
    rw [if_pos hdue] at hecho
    rw [apuUpdateClocks_eq] at hecho ⊢
    rw [apuUpdateClocks_eq]
    have htick := timerTick_alike 2 h
    have hsample : ClocksAlike (sampleClock beyond cycle (timerTick 2 m).val)
        (sampleClock beyond' cycle (timerTick 2 m').val) := by
      rw [sampleClock, sampleClock]
      by_cases hcycle : cycle &&& 0x1f = 0
      · rw [if_pos hcycle, if_pos hcycle]
        refine dspRun32_alike beyond beyond' htick.1 ?_
        obtain ⟨⟨s, hs⟩, -⟩ := dspRun32_spec beyond (timerTick 2 m).val
        refine hecho s ?_
        simp only [Traced.events_bind, sampleClock, if_pos hcycle, hs]
        simp
      · rw [if_neg hcycle, if_neg hcycle]
        exact ⟨htick.1, rfl⟩
    have hslow : ∀ {m m' : Machine}, SoundBlind m m' →
        ClocksAlike (slowClock cycle m) (slowClock cycle m') := by
      intro m m' h
      rw [slowClock, slowClock]
      split
      · exact (timerTick_alike 0 h).bind (timerTick_alike 1 (timerTick_alike 0 h).1)
      · exact ⟨h, rfl⟩
    have htail : ClocksAlike
        (timerTick 2 m >>= fun m => sampleClock beyond cycle m >>= slowClock cycle)
        (timerTick 2 m' >>= fun m => sampleClock beyond' cycle m >>= slowClock cycle) :=
      htick.bind (hsample.bind (hslow hsample.1))
    exact ⟨htail.1, congrArg (_ :: ·) htail.2⟩
  · rw [if_neg hdue, if_neg hdue]
    exact ⟨h, rfl⟩

end Clocks

theorem filter_silent_clocks (es : List ClockEvent) :
    (es.map CpuEvent.clock).filter silent = (es.filter (!isSampleClock ·)).map .clock := by
  rw [List.filter_map]
  congr 1
  refine List.filter_congr fun e _ => ?_
  cases e <;> rfl

-- ════════════════════════════════════════════════════════════════════════
-- Programs
-- ════════════════════════════════════════════════════════════════════════

/-- From machines that differ only in their sound the computations go alike,
    when the accesses of the first do not depend on the sound. -/
abbrev Alike {α : Type} (x y : Insn α) : Prop :=
  Program.Shadows soundGuard dspPort SoundBlind silent x y

section Alike

variable {beyond beyond' : Nat → Byte}

theorem onClocks_alike (cycle : BitVec 32) :
    Alike (onClocks (updateClocks beyond cycle)) (onClocks (updateClocks beyond' cycle)) := by
  intro m m' h haccepts
  rw [exec_onClocks] at haccepts ⊢
  rw [exec_onClocks]
  have hecho := (accepts_clocks DspPort.next_clock _ _).mp haccepts
  obtain ⟨hblind, hes⟩ := updateClocks_alike beyond beyond' cycle h
    fun s hs => hecho _ hs
  refine ⟨?_, .some ⟨rfl, hblind⟩⟩
  rw [filter_silent_clocks, filter_silent_clocks, hes]

/-- Every primitive goes alike. -/
theorem primitive_alike (α : Type) (x : Insn α) (hx : Primitive beyond α x) : Alike x x := by
  cases hx with
  | fetch =>
    intro m m' h _
    have hnext : SoundBlind (afterFetch m) (afterFetch m') := by
      rw [afterFetch, afterFetch, ← h.cpu]
      exact h.withCpu _
    rw [exec_fetchInsn, exec_fetchInsn, ← h.cpu, ← h.aram]
    exact ⟨rfl, .some ⟨rfl, hnext⟩⟩
  | operand o => exact fun m m' h _ => ⟨rfl, .some ⟨rfl, h⟩⟩
  | branchTaken => exact fun m m' h _ => ⟨rfl, .some ⟨rfl, h⟩⟩
  | pushed word => exact fun m m' h _ => ⟨rfl, .some ⟨rfl, h⟩⟩
  | load addr =>
    intro m m' h haccepts
    rw [exec_memLoad] at haccepts ⊢
    rw [exec_memLoad]
    exact ⟨rfl, memLoad_soundBlind h haccepts.1⟩
  | store addr byte =>
    intro m m' h _
    rw [exec_memStore, exec_memStore]
    exact ⟨rfl, memStore_soundBlind h⟩
  | onCpu x =>
    intro m m' h _
    refine ⟨rfl, .some ⟨?_, ?_⟩⟩
    · rw [h.cpu]
    · rw [h.cpu]
      exact h.withCpu _
  | clocks cycle => exact onClocks_alike cycle

theorem soundGuard_tracks {α : Type} {x : Insn α} (hx : Built beyond x) :
    x.Tracks soundGuard dspPort :=
  (dspPort_watched soundGuard.ok).tracks hx

theorem built_alike {α : Type} {x : Insn α} (hx : Built beyond x) : Alike x x :=
  hx.shadows (dspPort_watched soundGuard.ok).primitive primitive_alike

theorem iteration_alike (cycle : BitVec 32) :
    Alike (iteration beyond cycle) (iteration beyond' cycle) := by
  have hfetch : Built beyond fetchInsn := built_fetchInsn
  refine Program.Shadows.bind (soundGuard_tracks hfetch) (built_alike hfetch) fun opcode => ?_
  cases hcb : handlerOf opcode with
  | none => exact Program.Shadows.pure none
  | some cb =>
    have hbuilt := handlerOf_built beyond hcb
    refine Program.Shadows.bind (soundGuard_tracks hbuilt) (built_alike hbuilt) fun _ => ?_
    exact Program.Shadows.bind (soundGuard_tracks (.primitive (.clocks _))) (onClocks_alike _)
      fun _ => Program.Shadows.pure _

/-- **Step and run**: any number of rounds goes alike. -/
theorem runInsns_alike (n : Nat) (cycle : BitVec 32) :
    Alike (runInsns beyond n cycle) (runInsns beyond' n cycle) := by
  induction n generalizing cycle with
  | zero => exact Program.Shadows.pure _
  | succ n ih =>
    refine Program.Shadows.bind (soundGuard_tracks (iteration_built beyond cycle))
      (iteration_alike cycle) fun r => ?_
    cases r with
    | none => exact Program.Shadows.pure none
    | some cycle => exact ih cycle

end Alike

/-- **The program does not hear the sound.** Take two machines that differ at most
    in the voices, the echo unit and the other state of the DSP, in the registers
    the DSP writes itself and in the bytes beyond RAM. When a run of the first
    takes its samples with the echo unit kept from writing and loads none of these
    registers, the second has the same run but for its samples, and again differs
    only in its sound. -/
theorem runInsns_soundBlind {beyond : Nat → Byte} (beyond' : Nat → Byte) {n : Nat}
    {cycle : BitVec 32} {m m' t : Machine} {r : Option (BitVec 32)} {es : List CpuEvent}
    (h : SoundBlind m t) (hrun : (runInsns beyond n cycle).Returns m r m' es)
    (hguard : soundGuard.Accepts (dspPort m) es) :
    ∃ t' es', (runInsns beyond' n cycle).Returns t r t' es' ∧ SoundBlind m' t' ∧
      es'.filter silent = es.filter silent :=
  (runInsns_alike n cycle).returns h hrun hguard

/-- A machine at a `nop`, with the echo unit kept from writing. -/
def echoDisabled (d : Dsp) : Machine :=
  { Machine.ofProgram [0x00] .init with
    dsp := { d with regs := Function.update (fun _ => 0) regFlg flgEchoDisabled } }

/-- A round that takes a sample, from two machines whose voices are keyed on
    differently. -/
theorem runInsns_soundBlind_nop :
    ∃ r m' es t' es', (runInsns (fun _ => 0) 1 28).Returns (echoDisabled .zero) r m' es ∧
      (runInsns (fun _ => 0xff) 1 28).Returns
        (echoDisabled { Dsp.zero with kon := 0xff, echoOffset := 4 }) r t' es' ∧
      m'.apu = t'.apu := by
  have hrun : (runInsns (fun _ => 0) 1 28).Returns (echoDisabled .zero) _ _ _ := rfl
  have hblind : SoundBlind (echoDisabled .zero)
      (echoDisabled { Dsp.zero with kon := 0xff, echoOffset := 4 }) :=
    ⟨rfl, rfl, rfl, rfl, rfl, fun _ _ => rfl⟩
  have hflg : flgEchoDisabled &&& flgEchoDisabled ≠ 0 := by decide
  obtain ⟨t', es', hrun', hblind', -⟩ := runInsns_soundBlind (fun _ => 0xff) hblind hrun
    ⟨trivial, trivial, trivial, hflg, trivial⟩
  exact ⟨_, _, _, t', es', hrun, hrun', hblind'.apu⟩

end SpuKit.Spc700
