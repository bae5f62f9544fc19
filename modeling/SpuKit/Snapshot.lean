import SpuKit.Apu

/-!
# Loading a snapshot

`setup_spc700` loads an SPC file in three steps: the CPU with its RAM, the APU
from the registers mirrored in RAM, and the DSP registers. `main` does so for
one file after the other in the same process, so what a step leaves alone is
left over from the file before.

## Main definitions

- `SpcFile` — what `setup_spc700` uses of `struct spc_file`
- `spc700Restore`, `setupSpc700`
- `AgreesFor` — the parts of two machines that survive loading a file are equal

## Main results

- `setupSpc700_eq_iff` — when two machines are the same after loading a file
-/

namespace SpuKit

/-- `struct spc_file`, without what is only printed. `pc` is the value
    `convert_regs` passes on: on a little-endian host `le32toh` leaves it as it
    is. -/
structure SpcFile where
  regs : Spc700Regs
  ram : Word → Byte
  dspRegs : Regs
  extraRam : Fin 0x40 → Byte

/-- `spc700_restore`: the ROM stays shown or hidden as it was. -/
def spc700Restore (r : Spc700Regs) (ram : Word → Byte) (extra : Fin 0x40 → Byte) (m : Machine) :
    Machine :=
  { m with cpu := setRegs r m.cpu, aram := ram, extraRam := extra }

def apuStateFromAram (aram : Word → Byte) : Sram :=
  fun k => aram (apuMmioBase + BitVec.ofNat 16 k)

def setupSpc700 (b : Build) (spc : SpcFile) (m : Machine) : Machine :=
  let m := spc700Restore spc.regs spc.ram spc.extraRam m
  let m := apuRestore b (apuStateFromAram spc.ram) m
  { m with dsp := dspRestore spc.dspRegs m.dsp }

/-- The byte a file stores to CTRL. -/
def SpcFile.ctrl (spc : SpcFile) : Byte := apuStateFromAram spc.ram apuCtrl

/-- The two machines agree on what loading the file leaves over:

    * whether the ROM is shown, unless the file has the same bytes in the window
      of its RAM and in its extra RAM, and these are the ROM if it shows it;
    * the DSP, but for its registers and rate counters;
    * the output ports;
    * the count and the target of every timer the store to CTRL does not set up,
      which is never timer 2, and whether timer 2 is enabled if the file does
      not disable it. -/
structure AgreesFor (b : Build) (spc : SpcFile) (m m' : Machine) : Prop where
  rom : b = .fast → m.showRom = m'.showRom ∨
    spc.extraRam = window spc.ram ∧ (ctrlShowsRom spc.ctrl = true → window spc.ram = iplRom)
  dsp : { m.dsp with regs := m'.dsp.regs, ctr := m'.dsp.ctr } = m'.dsp
  ports : m.apu.ioOut = m'.apu.ioOut
  timer0 : spc.ctrl &&& ctrlT0 = 0 →
    { m.apu.t 0 with enabled := false } = { m'.apu.t 0 with enabled := false }
  timer1 : spc.ctrl &&& ctrlT1 = 0 → spc.ctrl &&& ctrlT2 = 0 →
    { m.apu.t 1 with enabled := false } = { m'.apu.t 1 with enabled := false }
  timer2 : { m.apu.t 2 with enabled := false } = { m'.apu.t 2 with enabled := false }
  enabled2 : spc.ctrl &&& ctrlT2 ≠ 0 → (m.apu.t 2).enabled = (m'.apu.t 2).enabled

section Parts

variable (b : Build) (spc : SpcFile) (m : Machine)

@[simp] theorem setupSpc700_cpu : (setupSpc700 b spc m).cpu = setRegs spc.regs m.cpu := by
  simp [setupSpc700, spc700Restore, apuRestore, apuCtrlStore]

@[simp] theorem setupSpc700_dsp : (setupSpc700 b spc m).dsp = dspRestore spc.dspRegs m.dsp := by
  simp [setupSpc700, spc700Restore, apuRestore, apuCtrlStore]

@[simp] theorem setupSpc700_showRom :
    (setupSpc700 b spc m).showRom = ctrlShowsRom spc.ctrl := by
  simp [setupSpc700, spc700Restore, apuRestore, apuCtrlStore, SpcFile.ctrl]

@[simp] theorem setupSpc700_apu :
    (setupSpc700 b spc m).apu =
      { s := apuStateFromAram spc.ram
        ioIn := fun k => apuStateFromAram spc.ram (apuIo k)
        ioOut := m.apu.ioOut
        t := (apuCtrlRegs spc.ctrl { m.apu with s := apuStateFromAram spc.ram }).t } := by
  simp [setupSpc700, spc700Restore, apuRestore, apuCtrlStore, SpcFile.ctrl]

theorem setupSpc700_aram :
    (setupSpc700 b spc m).aram =
      if b = .fast ∧ ctrlShowsRom spc.ctrl ≠ m.showRom then
        copyWindow spc.ram (if ctrlShowsRom spc.ctrl then iplRom else spc.extraRam)
      else spc.ram :=
  apuSetShowIplRom_aram ..

theorem setupSpc700_extraRam :
    (setupSpc700 b spc m).extraRam =
      if b = .fast ∧ ctrlShowsRom spc.ctrl ≠ m.showRom ∧ ctrlShowsRom spc.ctrl = true then
        window spc.ram
      else spc.extraRam :=
  apuSetShowIplRom_extraRam ..

end Parts

section Two

variable (b : Build) (spc : SpcFile) (m m' : Machine)

/-- Copying bytes to the window changes nothing just when they are there. -/
theorem copyWindow_eq_self_iff (aram : Word → Byte) (src : Fin 0x40 → Byte) :
    copyWindow aram src = aram ↔ src = window aram := by
  constructor
  · intro h
    rw [← h, window_copyWindow]
  · rintro rfl
    exact copyWindow_window aram

theorem self_eq_copyWindow_iff (aram : Word → Byte) (src : Fin 0x40 → Byte) :
    aram = copyWindow aram src ↔ src = window aram :=
  eq_comm.trans (copyWindow_eq_self_iff aram src)

theorem setupSpc700_ram_eq_iff :
    ((setupSpc700 b spc m).aram = (setupSpc700 b spc m').aram ∧
        (setupSpc700 b spc m).extraRam = (setupSpc700 b spc m').extraRam) ↔
      (b = .fast → m.showRom = m'.showRom ∨
        spc.extraRam = window spc.ram ∧
          (ctrlShowsRom spc.ctrl = true → window spc.ram = iplRom)) := by
  rw [setupSpc700_aram, setupSpc700_aram, setupSpc700_extraRam, setupSpc700_extraRam]
  generalize ctrlShowsRom spc.ctrl = shown
  cases b with
  | accurate => simp
  | fast =>
    by_cases hsame : m.showRom = m'.showRom
    · simp [hsame]
    -- the file finds the ROM as its CTRL wants it in just one of the machines
    · have hother : m'.showRom = !m.showRom := by
        cases h : m.showRom <;> cases h' : m'.showRom <;> simp_all
      rw [hother]
      cases shown <;> cases m.showRom <;>
        simp [copyWindow_eq_self_iff, self_eq_copyWindow_iff, eq_comm (a := iplRom),
          eq_comm (a := window spc.ram) (b := spc.extraRam), and_comm]

theorem dspRestore_eq_iff (saved : Regs) (d d' : Dsp) :
    dspRestore saved d = dspRestore saved d' ↔
      { d with regs := d'.regs, ctr := d'.ctr } = d' := by
  simp [dspRestore, dspInit, Dsp.ext_iff]

/-- Two choices with the same first alternative. -/
theorem ite_eq_ite_iff {α : Type} (p : Prop) [Decidable p] (x y z : α) :
    (if p then x else y) = (if p then x else z) ↔ (¬ p → y = z) := by
  by_cases h : p
  · simp [h]
  · simp [h]

/-- A timer the store to CTRL disables keeps its count and its target, one it
    enables keeps nothing. -/
theorem setupSpc700_t0_eq_iff :
    (setupSpc700 b spc m).apu.t 0 = (setupSpc700 b spc m').apu.t 0 ↔
      (spc.ctrl &&& ctrlT0 = 0 →
        { m.apu.t 0 with enabled := false } = { m'.apu.t 0 with enabled := false }) := by
  rw [setupSpc700_apu, setupSpc700_apu, apuCtrlRegs_t0, apuCtrlRegs_t0, ite_eq_ite_iff, not_not]

theorem setupSpc700_t1_eq_iff :
    (setupSpc700 b spc m).apu.t 1 = (setupSpc700 b spc m').apu.t 1 ↔
      (spc.ctrl &&& ctrlT1 = 0 → spc.ctrl &&& ctrlT2 = 0 →
        { m.apu.t 1 with enabled := false } = { m'.apu.t 1 with enabled := false }) := by
  rw [setupSpc700_apu, setupSpc700_apu, apuCtrlRegs_t1, apuCtrlRegs_t1, ite_eq_ite_iff, not_or,
    not_not, not_not, and_imp]

/-- Timer 2 keeps everything. -/
theorem setupSpc700_t2_eq_iff :
    (setupSpc700 b spc m).apu.t 2 = (setupSpc700 b spc m').apu.t 2 ↔
      { m.apu.t 2 with enabled := false } = { m'.apu.t 2 with enabled := false } ∧
        (spc.ctrl &&& ctrlT2 ≠ 0 → (m.apu.t 2).enabled = (m'.apu.t 2).enabled) := by
  rw [setupSpc700_apu, setupSpc700_apu, apuCtrlRegs_t2, apuCtrlRegs_t2]
  by_cases h : spc.ctrl &&& ctrlT2 = 0
  · rw [if_neg (not_not.mpr h), if_neg (not_not.mpr h)]
    exact ⟨fun heq => ⟨heq, fun hne => absurd h hne⟩, fun heq => heq.1⟩
  · rw [if_pos h, if_pos h, Timer.ext_iff, Timer.ext_iff]
    exact ⟨fun heq => ⟨⟨heq.1, heq.2.1, rfl⟩, fun _ => heq.2.2⟩,
      fun heq => ⟨heq.1.1, heq.1.2.1, heq.2 h⟩⟩

theorem setupSpc700_apu_eq_iff :
    (setupSpc700 b spc m).apu = (setupSpc700 b spc m').apu ↔
      m.apu.ioOut = m'.apu.ioOut ∧
        (setupSpc700 b spc m).apu.t 0 = (setupSpc700 b spc m').apu.t 0 ∧
        (setupSpc700 b spc m).apu.t 1 = (setupSpc700 b spc m').apu.t 1 ∧
        (setupSpc700 b spc m).apu.t 2 = (setupSpc700 b spc m').apu.t 2 := by
  rw [setupSpc700_apu, setupSpc700_apu, Apu.ext_iff]
  constructor
  · rintro ⟨-, -, hports, ht⟩
    exact ⟨hports, congrFun ht 0, congrFun ht 1, congrFun ht 2⟩
  · rintro ⟨hports, h0, h1, h2⟩
    refine ⟨rfl, rfl, hports, funext fun k => ?_⟩
    match k with
    | 0 => exact h0
    | 1 => exact h1
    | 2 => exact h2

end Two

/-- **What a loaded file determines.** Two machines are the same after loading a
    file just when they agreed on what loading leaves over. -/
theorem setupSpc700_eq_iff (b : Build) (spc : SpcFile) (m m' : Machine) :
    setupSpc700 b spc m = setupSpc700 b spc m' ↔ AgreesFor b spc m m' := by
  constructor
  · intro h
    have hram := (setupSpc700_ram_eq_iff b spc m m').mp
      ⟨congrArg Machine.aram h, congrArg Machine.extraRam h⟩
    obtain ⟨hports, h0, h1, h2⟩ := (setupSpc700_apu_eq_iff b spc m m').mp (congrArg Machine.apu h)
    have hdsp := congrArg Machine.dsp h
    rw [setupSpc700_dsp, setupSpc700_dsp] at hdsp
    obtain ⟨h2, henabled⟩ := (setupSpc700_t2_eq_iff b spc m m').mp h2
    exact
      { rom := hram
        dsp := (dspRestore_eq_iff _ _ _).mp hdsp
        ports := hports
        timer0 := (setupSpc700_t0_eq_iff b spc m m').mp h0
        timer1 := (setupSpc700_t1_eq_iff b spc m m').mp h1
        timer2 := h2
        enabled2 := henabled }
  · intro h
    obtain ⟨haram, hextra⟩ := (setupSpc700_ram_eq_iff b spc m m').mpr h.rom
    refine Machine.ext ?_ haram hextra ?_ ?_ ?_
    · rw [setupSpc700_cpu, setupSpc700_cpu, setRegs_const]
    · rw [setupSpc700_showRom, setupSpc700_showRom]
    · exact (setupSpc700_apu_eq_iff b spc m m').mpr ⟨h.ports,
        (setupSpc700_t0_eq_iff b spc m m').mpr h.timer0,
        (setupSpc700_t1_eq_iff b spc m m').mpr h.timer1,
        (setupSpc700_t2_eq_iff b spc m m').mpr ⟨h.timer2, h.enabled2⟩⟩
    · rw [setupSpc700_dsp, setupSpc700_dsp]
      exact (dspRestore_eq_iff _ _ _).mpr h.dsp

/-- A file whose CTRL byte shows the ROM and whose first opcode is not
    implemented. -/
def haltingFile : SpcFile where
  regs := { pc := 0x200, a := 0, x := 0, y := 0, psw := 0, sp := 0xef }
  ram addr := if addr = 0x00f1 then 0x80 else if addr = 0x0200 then 0xff else 0
  dspRegs := fun _ => 0
  extraRam := fun _ => 0

/-- `spc700_run_forever` returns at the first opcode: only the program counter
    has moved. -/
def haltAtOnce (m : Machine) : Machine := { m with cpu := { m.cpu with pc := m.cpu.pc + 1 } }

/-- Loading the file a second time, after its run ended, does not give the
    machine the first time gave: the ROM is already shown, so it is not copied
    over the RAM of the file. -/
theorem second_load_differs :
    setupSpc700 .fast haltingFile (haltAtOnce (setupSpc700 .fast haltingFile .init)) ≠
      setupSpc700 .fast haltingFile .init := by
  intro h
  have hbyte := congrArg (fun m => m.aram 0xffc0) h
  revert hbyte
  decide +kernel

end SpuKit
