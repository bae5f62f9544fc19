import SpuKit.Apu

/-!
# The memory map

Every load and store of the CPU goes through `mem_load` and `mem_store`: the
registers at 0xf0 first, then the ROM in the accurate build, then audio RAM.

## Main definitions

- `memStore`, `memLoad` — `mem_store`, `mem_load`
- `storesCtrl` — is this the address of CTRL?

## Main results

- `memStore_run`, `memLoad_run` — an access as one change of the machine
- `memLoad_eq_none`, `memStore_eq_none` — the only access that aborts
-/

namespace SpuKit

/-- `mem_store`: stores to the registers are forwarded to RAM. -/
def memStore (b : Build) (addr : Word) (byte : Byte) : Exec Unit := do
  if apuMmioAddress addr then
    apuMmioStore b addr byte
  modify fun m => { m with aram := Function.update m.aram addr byte }

def memLoad (b : Build) (addr : Word) : Exec Byte := do
  if apuMmioAddress addr then
    apuMmioLoad addr
  else
    let m ← get
    if b = .accurate ∧ m.showRom ∧ iplRomAddress addr then
      pure (iplRomLoad addr)
    else
      pure (m.aram addr)

/-- Is this the address of CTRL? -/
def storesCtrl (addr : Word) : Bool := apuMmioAddress addr && apuReg addr == apuCtrl

/-- What a store does to the APU and the DSP. -/
def storeRegs (addr : Word) (byte : Byte) (a : Apu) (d : Dsp) : Option (Apu × Dsp) :=
  if apuMmioAddress addr then mmioStoreRegs addr byte a d else some (a, d)

/-- What a store does to the memory: it shows or hides the ROM if it is to
    CTRL, and is then forwarded to RAM. -/
def storeMem (b : Build) (addr : Word) (byte : Byte) (m : Machine) : Machine :=
  let m := if storesCtrl addr then apuSetShowIplRom b (ctrlShowsRom byte) m else m
  { m with aram := Function.update m.aram addr byte }

/-- A store changes the APU and the DSP, and then the memory. -/
theorem memStore_run (b : Build) (addr : Word) (byte : Byte) (m : Machine) :
    memStore b addr byte m = (storeRegs addr byte m.apu m.dsp).map fun p =>
      ((), storeMem b addr byte { m with apu := p.1, dsp := p.2 }) := by
  rw [memStore, storeRegs]
  by_cases hmmio : apuMmioAddress addr = true
  · rw [if_pos hmmio, if_pos hmmio, Exec.bind_run, apuMmioStore_run, Option.bind_map]
    cases mmioStoreRegs addr byte m.apu m.dsp with
    | none => rfl
    | some p =>
      simp only [storeMem, storesCtrl, hmmio, Bool.true_and, beq_iff_eq]
      rfl
  · rw [if_neg hmmio, if_neg hmmio]
    simp only [storeMem, storesCtrl, hmmio]
    rfl

/-- The byte a load that is not of a register returns. -/
def loadMem (b : Build) (addr : Word) (m : Machine) : Byte :=
  if b = .accurate ∧ m.showRom ∧ iplRomAddress addr then iplRomLoad addr else m.aram addr

/-- A load of a register may change the APU, any other load changes nothing. -/
theorem memLoad_run (b : Build) (addr : Word) (m : Machine) :
    memLoad b addr m =
      if apuMmioAddress addr then
        (mmioLoadRegs addr m.apu m.dsp).map fun p => (p.1, { m with apu := p.2 })
      else some (loadMem b addr m, m) := by
  rw [memLoad, loadMem]
  by_cases hmmio : apuMmioAddress addr = true
  · rw [if_pos hmmio, if_pos hmmio, apuMmioLoad_run]
  · rw [if_neg hmmio, if_neg hmmio, Exec.get_bind]
    split <;> rfl

/-- The registers are where the mask test says. -/
theorem apuMmioAddress_iff (addr : Word) :
    apuMmioAddress addr = true ↔ addr = apuAddr (apuReg addr) := by
  constructor
  · intro h
    rw [apuMmioAddress, beq_iff_eq] at h
    have hbits : addr &&& 0xfff0 ||| addr &&& 0x0f = addr := by
      rw [← BitVec.and_or_distrib_left]
      exact BitVec.and_allOnes
    have hlow : addr &&& 0x0f = BitVec.ofNat 16 (apuReg addr) := by
      have hlt : (addr &&& 0x0f).toNat < 16 := by
        rw [BitVec.toNat_and]
        exact Nat.lt_of_le_of_lt Nat.and_le_right (by decide)
      apply BitVec.eq_of_toNat_eq
      rw [BitVec.toNat_ofNat, apuReg, Fin.val_ofNat, Nat.mod_eq_of_lt hlt]
      omega
    have hadd : ∀ reg : Fin 16, apuMmioBase ||| BitVec.ofNat 16 reg = apuAddr reg := by
      decide
    rw [h, hlow, hadd] at hbits
    exact hbits.symm
  · intro h
    rw [h]
    exact apuMmioAddress_apuAddr _

/-- The ports are in the range of `io_load` and `io_store`. -/
theorem ioOffset_lt {addr : Word} (hmmio : apuMmioAddress addr = true)
    (hio : apuReg addr = apuIo 0 ∨ apuReg addr = apuIo 1 ∨ apuReg addr = apuIo 2 ∨
      apuReg addr = apuIo 3) : (addr - apuIo0).toNat < 4 := by
  have hoff : ∀ reg : Fin 16, reg = apuIo 0 ∨ reg = apuIo 1 ∨ reg = apuIo 2 ∨ reg = apuIo 3 →
      (apuAddr reg - apuIo0).toNat < 4 := by
    decide
  rw [(apuMmioAddress_iff addr).mp hmmio]
  exact hoff _ hio

section Access

variable {b : Build} {addr : Word} {byte : Byte} {u : Unit} {m m' : Machine}

/-- Only a load of DSPDATA can abort. -/
theorem memLoad_eq_none (h : memLoad b addr m = none) :
    addr = apuAddr apuDspData ∧ m.apu.s apuDspAddr &&& 0x80 ≠ 0 := by
  rw [memLoad_run] at h
  split at h
  · next hmmio =>
    rw [Option.map_eq_none_iff, mmioLoadRegs] at h
    split at h
    · next hdata =>
      refine ⟨hdata ▸ (apuMmioAddress_iff addr).mp hmmio, fun hlow => ?_⟩
      rw [Option.map_eq_none_iff, dspLoad, if_neg (not_not_intro hlow)] at h
      cases h
    split at h
    · next hio =>
      rw [Option.map_eq_none_iff, ioLoad, dif_pos (ioOffset_lt hmmio hio)] at h
      cases h
    split at h <;> cases h
  · cases h

/-- Only a store to DSPDATA can abort. -/
theorem memStore_eq_none (h : memStore b addr byte m = none) :
    addr = apuAddr apuDspData ∧ m.apu.s apuDspAddr &&& 0x80 ≠ 0 := by
  rw [memStore_run, Option.map_eq_none_iff, storeRegs] at h
  split at h
  · next hmmio =>
    rw [mmioStoreRegs] at h
    split at h
    · cases h
    split at h
    · next hdata =>
      refine ⟨hdata ▸ (apuMmioAddress_iff addr).mp hmmio, fun hlow => ?_⟩
      have hkeep : Function.update m.apu.s (apuReg addr) byte apuDspAddr = m.apu.s apuDspAddr :=
        Function.update_of_ne (by rw [hdata]; decide) ..
      simp only [Option.map_eq_none_iff, dspStore, hkeep, if_neg (not_not_intro hlow)] at h
      cases h
    split at h
    · next hio =>
      rw [Option.map_eq_none_iff, ioStore, dif_pos (ioOffset_lt hmmio hio)] at h
      cases h
    · cases h
  · cases h

/-- A load leaves the CPU and the memory alone. -/
theorem memLoad_keeps (h : memLoad b addr m = some (byte, m')) :
    m'.cpu = m.cpu ∧ m'.aram = m.aram := by
  rw [memLoad_run] at h
  split at h
  · obtain ⟨p, -, heq⟩ := Option.map_eq_some_iff.mp h
    obtain ⟨-, rfl⟩ := Prod.mk.inj heq
    exact ⟨rfl, rfl⟩
  · obtain ⟨-, rfl⟩ := Prod.mk.inj (Option.some.inj h)
    exact ⟨rfl, rfl⟩

/-- A load that is not of a register changes nothing. -/
theorem memLoad_of_not_mmio (hmmio : ¬ apuMmioAddress addr = true)
    (h : memLoad b addr m = some (byte, m')) : m' = m := by
  rw [memLoad_run, if_neg hmmio] at h
  exact (Prod.mk.inj (Option.some.inj h)).2.symm

/-- A store leaves the CPU alone. -/
theorem memStore_cpu (h : memStore b addr byte m = some (u, m')) : m'.cpu = m.cpu := by
  rw [memStore_run] at h
  obtain ⟨p, -, heq⟩ := Option.map_eq_some_iff.mp h
  obtain ⟨-, rfl⟩ := Prod.mk.inj heq
  simp only [storeMem, apply_ite Machine.cpu, apuSetShowIplRom_cpu, ite_self]

/-- A store that is not to a register only changes the memory. -/
theorem memStore_of_not_mmio (hmmio : ¬ apuMmioAddress addr = true)
    (h : memStore b addr byte m = some (u, m')) :
    m' = { m with aram := Function.update m.aram addr byte } := by
  have hctrl : ¬ storesCtrl addr = true := fun hc => hmmio (Bool.and_eq_true_iff.mp hc).1
  rw [memStore_run, storeRegs, if_neg hmmio] at h
  obtain ⟨-, rfl⟩ := Prod.mk.inj (Option.some.inj h)
  rw [storeMem, if_neg hctrl]

end Access

end SpuKit
