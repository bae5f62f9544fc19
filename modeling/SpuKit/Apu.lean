import SpuKit.Spc700.IplRom

/-!
# APU registers

The sixteen memory-mapped registers at 0xf0: control, the window to the DSP
registers, the ports to the host and the timers. Translated from `apu.c`,
without its traces.

## Main definitions

- `timerInit`, `timerDisable`, `timerEnable`
- `apuCtrlStore` — a store to CTRL
- `apuMmioStore`, `apuMmioLoad` — the CPU accesses a register
- `apuRestore` — load the registers of a snapshot
-/

namespace SpuKit

def ctrlT0 : Byte := 0x01
def ctrlT1 : Byte := 0x02
def ctrlT2 : Byte := 0x04
def ctrlIoc01 : Byte := 0x10
def ctrlIoc23 : Byte := 0x20
def ctrlBootRom : Byte := 0x80

def apuMmioBase : Word := 0x00f0
def apuIo0 : Word := 0x00f4

def apuMmioAddress (addr : Word) : Bool := addr &&& 0xfff0 == apuMmioBase

def apuReg (addr : Word) : Fin 16 := Fin.ofNat 16 (addr &&& 0x0f).toNat

/-- The address of a register. -/
def apuAddr (reg : Fin 16) : Word := apuMmioBase + BitVec.ofNat 16 reg

@[simp] theorem apuReg_apuAddr : ∀ reg : Fin 16, apuReg (apuAddr reg) = reg := by
  decide

@[simp] theorem apuMmioAddress_apuAddr : ∀ reg : Fin 16, apuMmioAddress (apuAddr reg) = true := by
  decide

/-- `APU_OFF`: the macro masks its first argument and ignores the second. -/
def apuOff (x _y : Nat) : Nat := x - (x &&& 0x0f)

/-- The offset of every output is that of timer 0. -/
theorem apuOff_tout (reg : Fin 16) : apuOff reg (apuTout 0) = 0 := by
  revert reg
  decide

/-- The outputs are none of the registers a store or a load does more for. -/
theorem apuTout_plain : ∀ k : Fin 3, apuTout k ≠ apuCtrl ∧ apuTout k ≠ apuDspData ∧
    ¬ (apuTout k = apuIo 0 ∨ apuTout k = apuIo 1 ∨ apuTout k = apuIo 2 ∨ apuTout k = apuIo 3) := by
  decide

def timerInit (divReg : Byte) : Timer where
  cycles := 0
  target := if divReg ≠ 0 then divReg.setWidth 16 else 0x100
  enabled := true

def timerDisable (index : Fin 3) (a : Apu) : Apu :=
  { a with t := Function.update a.t index { a.t index with enabled := false } }

def timerEnable (index : Fin 3) (a : Apu) : Apu :=
  { a with
    t := Function.update a.t index (timerInit (a.s (apuTdiv index)))
    s := Function.update a.s (apuTout index) 0 }

@[simp] theorem timerDisable_s (index : Fin 3) (a : Apu) : (timerDisable index a).s = a.s := rfl

@[simp] theorem timerDisable_t (index k : Fin 3) (a : Apu) :
    (timerDisable index a).t k =
      if k = index then { a.t index with enabled := false } else a.t k :=
  Function.update_apply ..

@[simp] theorem timerEnable_t (index k : Fin 3) (a : Apu) :
    (timerEnable index a).t k =
      if k = index then timerInit (a.s (apuTdiv index)) else a.t k :=
  Function.update_apply ..

/-- Enabling a timer clears its output and no divider. -/
@[simp] theorem timerEnable_tdiv (index k : Fin 3) (a : Apu) :
    (timerEnable index a).s (apuTdiv k) = a.s (apuTdiv k) :=
  Function.update_of_ne (by simp only [apuTdiv, apuTout, ne_eq, Fin.mk.injEq]; omega) ..

/-- The timers and ports of `apu_ctrl_store`. The branch of timer 2 enables
    timer 1, as the source does. -/
def apuCtrlRegs (byte : Byte) (a : Apu) : Apu :=
  let a := if byte &&& ctrlT0 ≠ 0 then timerEnable 0 a else timerDisable 0 a
  let a := if byte &&& ctrlT1 ≠ 0 then timerEnable 1 a else timerDisable 1 a
  let a := if byte &&& ctrlT2 ≠ 0 then timerEnable 1 a else timerDisable 2 a
  let a :=
    if byte &&& ctrlIoc01 ≠ 0 then
      { a with s := Function.update (Function.update a.s (apuIo 0) 0) (apuIo 1) 0 }
    else a
  if byte &&& ctrlIoc23 ≠ 0 then
    { a with s := Function.update (Function.update a.s (apuIo 2) 0) (apuIo 3) 0 }
  else a

/-- Does a byte stored to CTRL show the ROM? -/
def ctrlShowsRom (byte : Byte) : Bool := byte &&& ctrlBootRom != 0

def apuCtrlStore (b : Build) (byte : Byte) (m : Machine) : Machine :=
  apuSetShowIplRom b (ctrlShowsRom byte) { m with apu := apuCtrlRegs byte m.apu }

/-- A store to CTRL leaves the ports alone. -/
@[simp] theorem apuCtrlRegs_ioIn (byte : Byte) (a : Apu) : (apuCtrlRegs byte a).ioIn = a.ioIn := by
  simp only [apuCtrlRegs, timerEnable, timerDisable, apply_ite Apu.ioIn, ite_self]

@[simp] theorem apuCtrlRegs_ioOut (byte : Byte) (a : Apu) :
    (apuCtrlRegs byte a).ioOut = a.ioOut := by
  simp only [apuCtrlRegs, timerEnable, timerDisable, apply_ite Apu.ioOut, ite_self]

theorem apuCtrlRegs_t0 (byte : Byte) (a : Apu) :
    (apuCtrlRegs byte a).t 0 =
      if byte &&& ctrlT0 ≠ 0 then timerInit (a.s (apuTdiv 0))
      else { a.t 0 with enabled := false } := by
  simp only [apuCtrlRegs, apply_ite Apu.t, ite_self]
  by_cases h0 : byte &&& ctrlT0 = 0#8 <;> by_cases h1 : byte &&& ctrlT1 = 0#8 <;>
    by_cases h2 : byte &&& ctrlT2 = 0#8 <;> simp [h0, h1, h2]

/-- Timer 1 after a store to CTRL: it is also set up by the bit of timer 2. -/
theorem apuCtrlRegs_t1 (byte : Byte) (a : Apu) :
    (apuCtrlRegs byte a).t 1 =
      if byte &&& ctrlT1 ≠ 0 ∨ byte &&& ctrlT2 ≠ 0 then timerInit (a.s (apuTdiv 1))
      else { a.t 1 with enabled := false } := by
  simp only [apuCtrlRegs, apply_ite Apu.t, ite_self]
  by_cases h0 : byte &&& ctrlT0 = 0#8 <;> by_cases h1 : byte &&& ctrlT1 = 0#8 <;>
    by_cases h2 : byte &&& ctrlT2 = 0#8 <;> simp [h0, h1, h2]

/-- Timer 2 after a store to CTRL: it is never set up. -/
theorem apuCtrlRegs_t2 (byte : Byte) (a : Apu) :
    (apuCtrlRegs byte a).t 2 =
      if byte &&& ctrlT2 ≠ 0 then a.t 2 else { a.t 2 with enabled := false } := by
  simp only [apuCtrlRegs, apply_ite Apu.t, ite_self]
  by_cases h0 : byte &&& ctrlT0 = 0#8 <;> by_cases h1 : byte &&& ctrlT1 = 0#8 <;>
    by_cases h2 : byte &&& ctrlT2 = 0#8 <;> simp [h0, h1, h2]

def ioLoad (addr : Word) (a : Apu) : Option Byte :=
  if h : addr.toNat < 4 then some (a.ioIn ⟨addr.toNat, h⟩) else none

def ioStore (addr : Word) (byte : Byte) (a : Apu) : Option Apu :=
  if h : addr.toNat < 4 then
    some { a with ioOut := Function.update a.ioOut ⟨addr.toNat, h⟩ byte }
  else none

/-- `_dsp_store`: a store to the upper half of the register space aborts. -/
def dspStore (addr byte : Byte) (d : Dsp) : Option Dsp :=
  if addr &&& 0x80 ≠ 0 then none
  else some { d with regs := store d.regs (Fin.ofNat 0x80 (addr &&& 0x7f).toNat) byte }

/-- `_dsp_load`: a load from the upper half of the register space aborts. -/
def dspLoad (addr : Byte) (d : Dsp) : Option Byte :=
  if addr &&& 0x80 ≠ 0 then none
  else some (d.regs (Fin.ofNat 0x80 (addr &&& 0x7f).toNat))

def apuMmioStore (b : Build) (addr : Word) (byte : Byte) : Exec Unit := do
  let reg := apuReg addr
  modify fun m => { m with apu := { m.apu with s := Function.update m.apu.s reg byte } }
  if reg = apuCtrl then
    modify (apuCtrlStore b byte)
  else if reg = apuDspData then
    let m ← get
    let d ← dspStore (m.apu.s apuDspAddr) byte m.dsp
    set { m with dsp := d }
  else if reg = apuIo 0 ∨ reg = apuIo 1 ∨ reg = apuIo 2 ∨ reg = apuIo 3 then
    let m ← get
    let a ← ioStore (addr - apuIo0) byte m.apu
    set { m with apu := a }

/-- `_apu_mmio_load`: a load of any of the timer outputs clears the one of
    timer 0, since `APU_OFF` is 0 for a register number. -/
def apuMmioLoad (addr : Word) : Exec Byte := do
  let reg := apuReg addr
  let m ← get
  let byte := m.apu.s reg
  if reg = apuDspData then
    dspLoad (m.apu.s apuDspAddr) m.dsp
  else if reg = apuIo 0 ∨ reg = apuIo 1 ∨ reg = apuIo 2 ∨ reg = apuIo 3 then
    ioLoad (addr - apuIo0) m.apu
  else if reg = apuTout 0 ∨ reg = apuTout 1 ∨ reg = apuTout 2 then
    let tout := apuTout (Fin.ofNat 3 (apuOff reg (apuTout 0)))
    set { m with apu := { m.apu with s := Function.update m.apu.s tout 0 } }
    pure byte
  else
    pure byte

/-- `apu_restore`: the registers are set again after the store to CTRL, the
    output ports are left alone. -/
def apuRestore (b : Build) (st : Sram) (m : Machine) : Machine :=
  let m := { m with apu := { m.apu with s := st } }
  let m := apuCtrlStore b (st apuCtrl) m
  { m with apu := { m.apu with s := st, ioIn := fun k => st (apuIo k) } }

/-- What a store to a register does to the APU and the DSP. -/
def mmioStoreRegs (addr : Word) (byte : Byte) (a : Apu) (d : Dsp) : Option (Apu × Dsp) :=
  let a := { a with s := Function.update a.s (apuReg addr) byte }
  if apuReg addr = apuCtrl then some (apuCtrlRegs byte a, d)
  else if apuReg addr = apuDspData then (dspStore (a.s apuDspAddr) byte d).map (a, ·)
  else if apuReg addr = apuIo 0 ∨ apuReg addr = apuIo 1 ∨ apuReg addr = apuIo 2 ∨
      apuReg addr = apuIo 3 then
    (ioStore (addr - apuIo0) byte a).map (·, d)
  else some (a, d)

/-- A store to a register changes the APU and the DSP; the rest of the machine
    only sees the ROM being shown or hidden. -/
theorem apuMmioStore_run (b : Build) (addr : Word) (byte : Byte) (m : Machine) :
    apuMmioStore b addr byte m = (mmioStoreRegs addr byte m.apu m.dsp).map fun p =>
      ((), if apuReg addr = apuCtrl then
          apuSetShowIplRom b (ctrlShowsRom byte) { m with apu := p.1, dsp := p.2 }
        else { m with apu := p.1, dsp := p.2 }) := by
  rw [apuMmioStore, mmioStoreRegs]
  rw [Exec.modify_bind]
  by_cases hctrl : apuReg addr = apuCtrl
  · simp only [if_pos hctrl]
    rfl
  simp only [if_neg hctrl]
  by_cases hdata : apuReg addr = apuDspData
  · rw [if_pos hdata, if_pos hdata, Exec.get_bind, Exec.lift_bind, Option.map_map]
    cases dspStore _ byte m.dsp <;> rfl
  rw [if_neg hdata, if_neg hdata]
  by_cases hio : apuReg addr = apuIo 0 ∨ apuReg addr = apuIo 1 ∨ apuReg addr = apuIo 2 ∨
      apuReg addr = apuIo 3
  · rw [if_pos hio, if_pos hio, Exec.get_bind, Exec.lift_bind, Option.map_map]
    cases ioStore _ byte _ <;> rfl
  · rw [if_neg hio, if_neg hio]
    rfl

/-- A store to CTRL returns. -/
theorem apuMmioStore_ctrl (b : Build) (byte : Byte) (m : Machine) :
    apuMmioStore b (apuAddr apuCtrl) byte m =
      some ((), apuCtrlStore b byte
        { m with apu := { m.apu with s := Function.update m.apu.s apuCtrl byte } }) := by
  have hreg : apuReg (apuAddr apuCtrl) = apuCtrl := apuReg_apuAddr _
  simp only [apuMmioStore_run, mmioStoreRegs, hreg, if_true, Option.map_some]
  rfl

theorem mmioStoreRegs_ioIn {addr : Word} {byte : Byte} {a : Apu} {d : Dsp} {p : Apu × Dsp}
    (h : mmioStoreRegs addr byte a d = some p) : p.1.ioIn = a.ioIn := by
  unfold mmioStoreRegs at h
  split at h
  · obtain rfl := Option.some.inj h
    exact apuCtrlRegs_ioIn ..
  split at h
  · obtain ⟨d', -, rfl⟩ := Option.map_eq_some_iff.mp h
    rfl
  split at h
  · obtain ⟨a', ha, rfl⟩ := Option.map_eq_some_iff.mp h
    unfold ioStore at ha
    split at ha
    · obtain rfl := Option.some.inj ha
      rfl
    · cases ha
  · obtain rfl := Option.some.inj h
    rfl

/-- Apart from CTRL, a store sets its own register and leaves the timers
    alone. -/
theorem mmioStoreRegs_of_ne_ctrl {addr : Word} {byte : Byte} {a : Apu} {d : Dsp} {p : Apu × Dsp}
    (hctrl : apuReg addr ≠ apuCtrl) (h : mmioStoreRegs addr byte a d = some p) :
    p.1.s = Function.update a.s (apuReg addr) byte ∧ p.1.t = a.t := by
  unfold mmioStoreRegs at h
  rw [if_neg hctrl] at h
  split at h
  · obtain ⟨d', -, rfl⟩ := Option.map_eq_some_iff.mp h
    exact ⟨rfl, rfl⟩
  split at h
  · obtain ⟨a', ha, rfl⟩ := Option.map_eq_some_iff.mp h
    unfold ioStore at ha
    split at ha
    · obtain rfl := Option.some.inj ha
      exact ⟨rfl, rfl⟩
    · cases ha
  · obtain rfl := Option.some.inj h
    exact ⟨rfl, rfl⟩

/-- What a load of a register does to the APU. -/
def mmioLoadRegs (addr : Word) (a : Apu) (d : Dsp) : Option (Byte × Apu) :=
  if apuReg addr = apuDspData then (dspLoad (a.s apuDspAddr) d).map (·, a)
  else if apuReg addr = apuIo 0 ∨ apuReg addr = apuIo 1 ∨ apuReg addr = apuIo 2 ∨
      apuReg addr = apuIo 3 then
    (ioLoad (addr - apuIo0) a).map (·, a)
  else if apuReg addr = apuTout 0 ∨ apuReg addr = apuTout 1 ∨ apuReg addr = apuTout 2 then
    let tout := apuTout (Fin.ofNat 3 (apuOff (apuReg addr) (apuTout 0)))
    some (a.s (apuReg addr), { a with s := Function.update a.s tout 0 })
  else some (a.s (apuReg addr), a)

/-- A load of a register changes nothing but the APU. -/
theorem apuMmioLoad_run (addr : Word) (m : Machine) :
    apuMmioLoad addr m = (mmioLoadRegs addr m.apu m.dsp).map fun p =>
      (p.1, { m with apu := p.2 }) := by
  rw [apuMmioLoad, mmioLoadRegs]
  rw [Exec.get_bind]
  by_cases hdata : apuReg addr = apuDspData
  · rw [if_pos hdata, if_pos hdata, Exec.lift_run, Option.map_map]
    rfl
  rw [if_neg hdata, if_neg hdata]
  by_cases hio : apuReg addr = apuIo 0 ∨ apuReg addr = apuIo 1 ∨ apuReg addr = apuIo 2 ∨
      apuReg addr = apuIo 3
  · rw [if_pos hio, if_pos hio, Exec.lift_run, Option.map_map]
    rfl
  rw [if_neg hio, if_neg hio]
  by_cases hout : apuReg addr = apuTout 0 ∨ apuReg addr = apuTout 1 ∨ apuReg addr = apuTout 2
  · rw [if_pos hout, if_pos hout]
    rfl
  · rw [if_neg hout, if_neg hout]
    rfl

end SpuKit
