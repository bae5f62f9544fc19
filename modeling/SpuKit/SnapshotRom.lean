import SpuKit.Snapshot
import SpuKit.Spc700.IplOverlay

/-!
# The RAM under the ROM of a snapshot

An SPC file holds 64 bytes of extra RAM: the bytes the program finds in the
window once it hides the IPL ROM. `spc700_restore` loads them into `extra_ram`,
but when the file shows the ROM, `apu_restore` then saves the RAM of the file
over them.

## Main definitions

- `UnderRom` — the bytes the window has when the ROM is hidden
- `RomSurvives` — what the CPU should see after loading a file

## Main results

- `UnderRom.exec` — only stores to the window change these bytes
- `rom_survives_iff` — for which files the CPU sees it
-/

namespace SpuKit

/-- The byte a load returns. -/
def loadByte (b : Build) (addr : Word) (m : Machine) : Option Byte := (memLoad b addr).run' m

/-- The operation is no store to the window. -/
def MemOp.sparesWindow : MemOp → Bool
  | .store addr _ => !iplRomAddress addr
  | .load _ | .showIplRom _ => true

/-- What the CPU should see after a file was loaded at the start of the process:
    the RAM of the file, with the ROM in the window if the file shows it, and
    the extra RAM there once the program hides the ROM. -/
structure RomSurvives (b : Build) (spc : SpcFile) : Prop where
  outside : ∀ addr, apuMmioAddress addr = false → iplRomAddress addr = false →
    loadByte b addr (setupSpc700 b spc .init) = some (spc.ram addr)
  shown : ctrlShowsRom spc.ctrl = true → ∀ addr, iplRomAddress addr = true →
    loadByte b addr (setupSpc700 b spc .init) = some (iplRomLoad addr)
  hidden : ctrlShowsRom spc.ctrl = false → ∀ addr, iplRomAddress addr = true →
    loadByte b addr (setupSpc700 b spc .init) = some (spc.ram addr)
  cleared : ctrlShowsRom spc.ctrl = true → ∀ (ops : List MemOp) (byte : Byte) (m : Machine),
    (∀ op ∈ ops, op.sparesWindow = true) → ctrlShowsRom byte = false →
    (do ops.forM (MemOp.exec b); memStore b (apuAddr apuCtrl) byte : Exec Unit)
      (setupSpc700 b spc .init) = some ((), m) →
    ∀ addr, iplRomAddress addr = true → loadByte b addr m = some (spc.extraRam (windowIndex addr))

/-- The bytes the window has when the ROM is hidden. -/
def UnderRom (b : Build) (bytes : Fin 0x40 → Byte) (m : Machine) : Prop :=
  if b = .fast ∧ m.showRom = true then m.extraRam = bytes else window m.aram = bytes

section Loads

variable {b : Build} {addr : Word} {m : Machine}

theorem loadByte_eq (h : apuMmioAddress addr = false) :
    loadByte b addr m = some (loadMem b addr m) := by
  rw [loadByte, StateT.run'_eq, StateT.run, memLoad_run, if_neg (by simp [h])]
  rfl

/-- The window holds no register. -/
theorem apuMmioAddress_of_window (h : iplRomAddress addr = true) : apuMmioAddress addr = false := by
  rw [iplRomAddress_iff] at h
  obtain ⟨k, rfl⟩ : ∃ k : Fin 0x40, addr = iplRomBase + BitVec.ofNat 16 k :=
    ⟨windowIndex addr, (base_add_windowIndex h).symm⟩
  revert k
  decide

/-- A load from the window, while the ROM is hidden. -/
theorem loadMem_hidden (h : m.showRom = false) : loadMem b addr m = m.aram addr := by
  rw [loadMem, if_neg (by simp [h])]

end Loads

namespace UnderRom

variable {b : Build} {bytes : Fin 0x40 → Byte} {m m' : Machine}

theorem regs (h : UnderRom b bytes m) (a : Apu) (d : Dsp) :
    UnderRom b bytes { m with apu := a, dsp := d } := h

/-- Showing or hiding the ROM changes no byte under it. -/
theorem setShow (h : UnderRom b bytes m) (shown : Bool) :
    UnderRom b bytes (apuSetShowIplRom b shown m) := by
  unfold UnderRom at *
  rw [apuSetShowIplRom_showRom, apuSetShowIplRom_aram, apuSetShowIplRom_extraRam]
  cases b with
  | accurate => simpa using h
  | fast => cases shown <;> cases hrom : m.showRom <;> simpa [hrom] using h

/-- A store outside the window changes no byte under the ROM. -/
theorem storeMem (h : UnderRom b bytes m) {addr : Word} (hout : iplRomAddress addr = false)
    (byte : Byte) : UnderRom b bytes (storeMem b addr byte m) := by
  have hwindow : ∀ aram : Word → Byte, window (Function.update aram addr byte) = window aram := by
    intro aram
    funext k
    have hne : iplRomBase + BitVec.ofNat 16 k ≠ addr := by
      rintro rfl
      rw [(iplRomAddress_iff _).mpr (base_le_base_add k)] at hout
      cases hout
    rw [window, window, Function.update_of_ne hne]
  rw [SpuKit.storeMem]
  split
  · have hset := h.setShow (ctrlShowsRom byte)
    unfold UnderRom at *
    rwa [hwindow]
  · unfold UnderRom at *
    rwa [hwindow]

theorem memStore (h : UnderRom b bytes m) {addr : Word} (hout : iplRomAddress addr = false)
    {byte : Byte} {u : Unit} (hrun : memStore b addr byte m = some (u, m')) :
    UnderRom b bytes m' := by
  rw [memStore_run] at hrun
  obtain ⟨p, -, heq⟩ := Option.map_eq_some_iff.mp hrun
  obtain ⟨-, rfl⟩ := Prod.mk.inj heq
  exact (h.regs p.1 p.2).storeMem hout byte

/-- **Step**: an operation that spares the window changes no byte under the
    ROM. -/
theorem exec (h : UnderRom b bytes m) {op : MemOp} (hop : op.sparesWindow = true) {u : PUnit}
    (hrun : op.exec b m = some (u, m')) : UnderRom b bytes m' := by
  cases op with
  | store addr byte => exact h.memStore (by simpa [MemOp.sparesWindow] using hop) hrun
  | load addr =>
    rw [MemOp.exec, Exec.bind_run, memLoad_run] at hrun
    obtain ⟨p, hp, heq⟩ := Option.bind_eq_some_iff.mp hrun
    obtain ⟨-, rfl⟩ := Prod.mk.inj (Option.some.inj heq)
    split at hp
    · obtain ⟨q, -, rfl⟩ := Option.map_eq_some_iff.mp hp
      exact h.regs q.2 m.dsp
    · obtain rfl := Option.some.inj hp
      exact h
  | showIplRom shown =>
    obtain ⟨-, rfl⟩ := Prod.mk.inj (Option.some.inj hrun)
    exact h.setShow shown

theorem forM (h : UnderRom b bytes m) {ops : List MemOp}
    (hops : ∀ op ∈ ops, op.sparesWindow = true) {u : PUnit}
    (hrun : ops.forM (MemOp.exec b) m = some (u, m')) : UnderRom b bytes m' := by
  induction ops generalizing m with
  | nil =>
    obtain ⟨-, rfl⟩ := Prod.mk.inj (Option.some.inj hrun)
    exact h
  | cons op ops ih =>
    rw [List.forall_mem_cons] at hops
    rw [Exec.forM_cons_run] at hrun
    obtain ⟨p, hp, hrest⟩ := Option.bind_eq_some_iff.mp hrun
    exact ih (h.exec hops.1 hp) hops.2 hrest

/-- Once the ROM is hidden, loads from the window return the bytes under it. -/
theorem loadByte (h : UnderRom b bytes m) (hrom : m.showRom = false) {addr : Word}
    (haddr : iplRomAddress addr = true) :
    loadByte b addr m = some (bytes (windowIndex addr)) := by
  rw [UnderRom, if_neg (by simp [hrom])] at h
  rw [loadByte_eq (apuMmioAddress_of_window haddr), loadMem_hidden hrom, ← h,
    window_windowIndex m.aram ((iplRomAddress_iff addr).mp haddr)]

end UnderRom

section Loaded

variable (b : Build) (spc : SpcFile)

/-- What is under the ROM after loading is the RAM of the file. -/
theorem setupSpc700_underRom : UnderRom b (window spc.ram) (setupSpc700 b spc .init) := by
  rw [UnderRom, setupSpc700_showRom, setupSpc700_aram, setupSpc700_extraRam]
  cases b with
  | accurate => simp
  | fast => cases h : ctrlShowsRom spc.ctrl <;> simp [Machine.init]

theorem memStore_ctrl_showRom {byte : Byte} {m m' : Machine} {u : Unit}
    (h : memStore b (apuAddr apuCtrl) byte m = some (u, m')) :
    m'.showRom = ctrlShowsRom byte := by
  have hctrl : storesCtrl (apuAddr apuCtrl) = true := by decide
  rw [memStore_run] at h
  obtain ⟨p, -, heq⟩ := Option.map_eq_some_iff.mp h
  obtain ⟨-, rfl⟩ := Prod.mk.inj heq
  simp [storeMem, hctrl]

/-- A store to CTRL returns. -/
theorem memStore_ctrl_returns (byte : Byte) (m : Machine) :
    ∃ m', memStore b (apuAddr apuCtrl) byte m = some ((), m') := by
  have hmmio : apuMmioAddress (apuAddr apuCtrl) = true := apuMmioAddress_apuAddr _
  have hreg : apuReg (apuAddr apuCtrl) = apuCtrl := apuReg_apuAddr _
  rw [memStore_run, storeRegs, if_pos hmmio, mmioStoreRegs, if_pos hreg]
  exact ⟨_, rfl⟩

theorem loadMem_outside {addr : Word} (h : iplRomAddress addr = false) :
    loadMem b addr (setupSpc700 b spc .init) = spc.ram addr := by
  have hout : ¬ iplRomBase ≤ addr := fun hin => by
    rw [(iplRomAddress_iff addr).mpr hin] at h
    cases h
  rw [loadMem, if_neg (by simp [h]), setupSpc700_aram]
  split
  · rw [copyWindow, if_neg hout]
  · rfl

theorem loadMem_shown (h : ctrlShowsRom spc.ctrl = true) {addr : Word}
    (haddr : iplRomAddress addr = true) :
    loadMem b addr (setupSpc700 b spc .init) = iplRomLoad addr := by
  rw [loadMem, setupSpc700_showRom, setupSpc700_aram, h]
  cases b with
  | accurate => rw [if_pos ⟨rfl, rfl, haddr⟩]
  | fast =>
    rw [if_neg (by simp), if_pos ⟨rfl, by simp [Machine.init]⟩, if_pos rfl, copyWindow,
      if_pos ((iplRomAddress_iff addr).mp haddr), iplRomLoad]

theorem loadMem_file_hidden (h : ctrlShowsRom spc.ctrl = false) (addr : Word) :
    loadMem b addr (setupSpc700 b spc .init) = spc.ram addr := by
  rw [loadMem_hidden (by rw [setupSpc700_showRom, h]), setupSpc700_aram, h,
    if_neg (by simp [Machine.init])]

end Loaded

/-- **The RAM under the ROM of a snapshot.** After loading a file at the start
    of the process, the CPU sees what it should just when the file hides the
    ROM or has the same bytes in its extra RAM and in the window of its RAM. -/
theorem rom_survives_iff (b : Build) (spc : SpcFile) :
    RomSurvives b spc ↔ (ctrlShowsRom spc.ctrl = true → spc.extraRam = window spc.ram) := by
  constructor
  · intro h hshown
    obtain ⟨m, hrun⟩ := memStore_ctrl_returns b 0 (setupSpc700 b spc .init)
    have hunder := (setupSpc700_underRom b spc).memStore (by decide) hrun
    funext k
    have haddr := (iplRomAddress_iff _).mpr (base_le_base_add k)
    have hextra := h.cleared hshown [] 0 m (by simp) (by decide) hrun _ haddr
    rw [hunder.loadByte (memStore_ctrl_showRom b hrun) haddr, windowIndex_base_add] at hextra
    exact (Option.some.inj hextra).symm
  · intro h
    refine ⟨fun addr hmmio hout => ?_, fun hshown addr haddr => ?_, fun hhidden addr haddr => ?_,
      fun hshown ops byte m hops hbyte hrun addr haddr => ?_⟩
    · rw [loadByte_eq hmmio, loadMem_outside b spc hout]
    · rw [loadByte_eq (apuMmioAddress_of_window haddr), loadMem_shown b spc hshown haddr]
    · rw [loadByte_eq (apuMmioAddress_of_window haddr), loadMem_file_hidden b spc hhidden]
    · rw [Exec.bind_run] at hrun
      obtain ⟨p, hp, hstore⟩ := Option.bind_eq_some_iff.mp hrun
      have hunder := ((setupSpc700_underRom b spc).forM hops hp).memStore (by decide) hstore
      rw [hunder.loadByte ((memStore_ctrl_showRom b hstore).trans hbyte) haddr, h hshown]

/-- A file that shows the ROM, with 0x55 in all of its extra RAM. -/
def extraRamFile : SpcFile where
  regs := { pc := 0x200, a := 0, x := 0, y := 0, psw := 0, sp := 0xef }
  ram addr := if addr = 0x00f1 then 0x80 else 0
  dspRegs := fun _ => 0
  extraRam := fun _ => 0x55

/-- Once the program hides the ROM, the window has the bytes of the RAM, not
    those of the extra RAM. -/
theorem extra_ram_lost : ¬ ∀ spc : SpcFile, RomSurvives .fast spc := by
  intro h
  have hbyte := (h extraRamFile).cleared (by decide) [] 0 _ (by simp) (by decide) rfl 0xffc0
    (by decide)
  revert hbyte
  decide +kernel

end SpuKit
