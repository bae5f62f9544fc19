import SpuKit.Spc700.Memory
import SpuKit.Lib.Relational

/-!
# The two builds of the memory map

The default build of the memory map against the one with `ACCURATE_IPL_ROM`.
Both run the same loads, stores and toggles in lockstep. They return the same
bytes, except where a store went to the window of the ROM while the ROM was
shown: the default build overwrites its copy of the ROM, and throws the byte
away when the ROM is hidden; the accurate build stores it under the ROM.

## Main definitions

- `MemOp`, `MemOp.exec` — what the CPU does to the memory map
- `loadAfter` — the byte a load returns after a list of operations
- `Overlay` — which bytes of the window tell the builds apart
- `Overlaid` — the relation between the two builds

## Main results

- `Overlaid.exec` — one operation keeps the relation
- `fast_refines_accurate` — loads agree outside the exceptions
-/

namespace SpuKit

/-- What the CPU does to the memory map. -/
inductive MemOp where
  /-- `mem_store` -/
  | store (addr : Word) (byte : Byte)
  /-- `mem_load` -/
  | load (addr : Word)
  /-- `_apu_set_show_ipl_rom` -/
  | showIplRom (shown : Bool)

/-- Execute one operation. -/
def MemOp.exec (b : Build) : MemOp → Exec PUnit
  | .store addr byte => memStore b addr byte
  | .load addr => do
    let _ ← memLoad b addr
    pure ⟨⟩
  | .showIplRom shown => modify (apuSetShowIplRom b shown)

/-- The byte a load returns after a list of operations, or nothing if the
    process aborts. -/
def loadAfter (b : Build) (ops : List MemOp) (addr : Word) (m : Machine) : Option Byte :=
  StateT.run' (do ops.forM (MemOp.exec b); memLoad b addr) m

/-- What the operations so far did to the window. -/
structure Overlay where
  /-- the ROM is shown -/
  shown : Bool
  /-- the address was stored to since the ROM was last turned on -/
  dirty : Word → Bool
  /-- the most recent store to the address was made while the ROM was shown -/
  lost : Word → Bool

/-- Nothing was stored, and the ROM is hidden. -/
def Overlay.start : Overlay where
  shown := false
  dirty := fun _ => false
  lost := fun _ => false

/-- The ROM is shown or hidden. -/
def Overlay.setShow (shown : Bool) (o : Overlay) : Overlay :=
  if shown = o.shown then o else { o with shown := shown, dirty := fun _ => false }

/-- A byte is stored in RAM. -/
def Overlay.store (addr : Word) (o : Overlay) : Overlay :=
  { o with
    dirty := Function.update o.dirty addr o.shown
    lost := Function.update o.lost addr o.shown }

/-- One operation. -/
def Overlay.step : MemOp → Overlay → Overlay
  | .store addr byte, o =>
    (if storesCtrl addr then o.setShow (ctrlShowsRom byte) else o).store addr
  | .load _, o => o
  | .showIplRom shown, o => o.setShow shown

/-- The overlay after a list of operations. -/
def overlayAfter (ops : List MemOp) : Overlay := ops.foldl (fun o op => o.step op) .start

/-- Is this an address of the window whose byte may differ? While the ROM is
    shown, one that was stored to since it was turned on; while the ROM is
    hidden, one whose most recent store was made while it was shown. -/
def Overlay.stale (o : Overlay) (addr : Word) : Bool :=
  iplRomAddress addr && if o.shown then o.dirty addr else o.lost addr

/-- The default build `m` next to the accurate build `m'`. -/
structure Overlaid (o : Overlay) (m m' : Machine) : Prop where
  apu : m'.apu = m.apu
  dsp : m'.dsp = m.dsp
  fast_rom : m.showRom = o.shown
  accurate_rom : m'.showRom = o.shown
  outside : ∀ addr, ¬ iplRomBase ≤ addr → m'.aram addr = m.aram addr
  hidden : o.shown = false → ∀ addr, iplRomBase ≤ addr → o.lost addr = false →
    m'.aram addr = m.aram addr
  copied : o.shown = true → ∀ addr, iplRomBase ≤ addr → o.dirty addr = false →
    m.aram addr = iplRomLoad addr
  saved : o.shown = true → ∀ addr, iplRomBase ≤ addr → o.lost addr = false →
    m'.aram addr = m.extraRam (windowIndex addr)

namespace Overlaid

variable {o : Overlay} {m m' : Machine}

theorem start {m : Machine} (h : m.showRom = false) (extra : Fin 0x40 → Byte) :
    Overlaid .start m { m with extraRam := extra } where
  apu := rfl
  dsp := rfl
  fast_rom := h
  accurate_rom := h
  outside _ _ := rfl
  hidden _ _ _ _ := rfl
  copied hshown := absurd hshown Bool.false_ne_true
  saved hshown := absurd hshown Bool.false_ne_true

theorem regs (h : Overlaid o m m') (a : Apu) (d : Dsp) :
    Overlaid o { m with apu := a, dsp := d } { m' with apu := a, dsp := d } :=
  { h with apu := rfl, dsp := rfl }

theorem setShow (h : Overlaid o m m') (shown : Bool) :
    Overlaid (o.setShow shown) (apuSetShowIplRom .fast shown m)
      (apuSetShowIplRom .accurate shown m') := by
  rw [Overlay.setShow]
  by_cases hsame : shown = o.shown
  · rw [if_pos hsame, apuSetShowIplRom_same (hsame.trans h.fast_rom.symm)]
    exact { h with accurate_rom := hsame }
  rw [if_neg hsame]
  cases shown with
  | true =>
    -- the RAM in the window is saved before the ROM is copied over it
    have hoff : o.shown = false := by simpa using Ne.symm hsame
    rw [apuSetShowIplRom_show (h.fast_rom.trans hoff)]
    exact
      { apu := h.apu
        dsp := h.dsp
        fast_rom := rfl
        accurate_rom := rfl
        outside := fun addr hout => by
          simp only [copyWindow, if_neg hout]
          exact h.outside addr hout
        hidden := fun hfalse => absurd hfalse.symm Bool.false_ne_true
        copied := fun _ addr hin _ => by
          simp only [copyWindow, if_pos hin]
          rfl
        saved := fun _ addr hin hlost => by
          simp only [window_windowIndex m.aram hin]
          exact h.hidden hoff addr hin hlost }
  | false =>
    have hon : o.shown = true := by simpa using Ne.symm hsame
    rw [apuSetShowIplRom_hide (h.fast_rom.trans hon)]
    exact
      { apu := h.apu
        dsp := h.dsp
        fast_rom := rfl
        accurate_rom := rfl
        outside := fun addr hout => by
          simp only [copyWindow, if_neg hout]
          exact h.outside addr hout
        hidden := fun _ addr hin hlost => by
          simp only [copyWindow, if_pos hin]
          exact h.saved hon addr hin hlost
        copied := fun htrue => absurd htrue Bool.false_ne_true
        saved := fun htrue => absurd htrue Bool.false_ne_true }

/-- A byte is stored in RAM. -/
theorem store (h : Overlaid o m m') (addr : Word) (byte : Byte) :
    Overlaid (o.store addr) { m with aram := Function.update m.aram addr byte }
      { m' with aram := Function.update m'.aram addr byte } where
  apu := h.apu
  dsp := h.dsp
  fast_rom := h.fast_rom
  accurate_rom := h.accurate_rom
  outside a hout := by
    by_cases ha : a = addr
    · simp [ha]
    · simpa [ha] using h.outside a hout
  hidden hoff a hin hlost := by
    by_cases ha : a = addr
    · simp [ha]
    · simp only [Overlay.store, Function.update_of_ne ha] at hlost ⊢
      exact h.hidden hoff a hin hlost
  copied hon a hin hdirty := by
    by_cases ha : a = addr
    · subst ha
      simp only [Overlay.store, Function.update_self] at hdirty
      exact absurd (hon.symm.trans hdirty) (by decide)
    · simp only [Overlay.store, Function.update_of_ne ha] at hdirty ⊢
      exact h.copied hon a hin hdirty
  saved hon a hin hlost := by
    by_cases ha : a = addr
    · subst ha
      simp only [Overlay.store, Function.update_self] at hlost
      exact absurd (hon.symm.trans hlost) (by decide)
    · simp only [Overlay.store, Function.update_of_ne ha] at hlost ⊢
      exact h.saved hon a hin hlost

/-- Loads that are not of a register return the same byte, unless it is stale. -/
theorem loadMem_eq (h : Overlaid o m m') {addr : Word} (hfresh : o.stale addr = false) :
    loadMem .accurate addr m' = loadMem .fast addr m := by
  have hfast : loadMem .fast addr m = m.aram addr := if_neg (by simp)
  rw [hfast, loadMem, h.accurate_rom]
  by_cases hin : iplRomBase ≤ addr
  · have haddr := (iplRomAddress_iff addr).mpr hin
    rw [Overlay.stale, haddr, Bool.true_and] at hfresh
    cases hshown : o.shown with
    | true =>
      rw [hshown, if_pos rfl] at hfresh
      rw [if_pos ⟨rfl, rfl, haddr⟩, h.copied hshown addr hin hfresh]
    | false =>
      rw [hshown, if_neg Bool.false_ne_true] at hfresh
      rw [if_neg fun hrom => Bool.false_ne_true hrom.2.1, h.hidden hshown addr hin hfresh]
  · have haddr := mt (iplRomAddress_iff addr).mp hin
    rw [if_neg fun hrom => haddr hrom.2.2, h.outside addr hin]

theorem storeMem (h : Overlaid o m m') (addr : Word) (byte : Byte) :
    Overlaid (o.step (.store addr byte)) (storeMem .fast addr byte m)
      (storeMem .accurate addr byte m') := by
  by_cases hctrl : storesCtrl addr = true
  · simp only [SpuKit.storeMem, Overlay.step, if_pos hctrl]
    exact (h.setShow _).store addr byte
  · simp only [SpuKit.storeMem, Overlay.step, if_neg hctrl]
    exact h.store addr byte

end Overlaid

theorem memStore_lockstep (addr : Word) (byte : Byte) (o : Overlay) :
    Relational.Triple (Overlaid o) (memStore .fast addr byte) (memStore .accurate addr byte)
      fun _ _ => Overlaid (o.step (.store addr byte)) := by
  intro m m' h
  rw [memStore_run, memStore_run, h.apu, h.dsp]
  cases storeRegs addr byte m.apu m.dsp with
  | none => exact .none
  | some p => exact .some ((h.regs p.1 p.2).storeMem addr byte)

theorem memLoad_lockstep (addr : Word) (o : Overlay) :
    Relational.Triple (Overlaid o) (memLoad .fast addr) (memLoad .accurate addr)
      fun byte byte' m m' => Overlaid o m m' ∧ (o.stale addr = false → byte' = byte) := by
  intro m m' h
  rw [memLoad_run, memLoad_run, h.apu, h.dsp]
  split
  · cases mmioLoadRegs addr m.apu m.dsp with
    | none => exact .none
    | some p => exact .some ⟨h.regs p.2 m.dsp, fun _ => rfl⟩
  · exact .some ⟨h, h.loadMem_eq⟩

/-- **Step**: one operation keeps the relation. -/
theorem Overlaid.exec (op : MemOp) (o : Overlay) :
    Relational.Triple (Overlaid o) (op.exec .fast) (op.exec .accurate)
      fun _ _ => Overlaid (o.step op) := by
  cases op with
  | store addr byte => exact memStore_lockstep addr byte o
  | load addr =>
    exact (memLoad_lockstep addr o).bind fun _ _ => Relational.Triple.pure fun _ _ h => h.1
  | showIplRom shown => exact fun m m' h => .some (h.setShow shown)

/-- **The default build follows the accurate one.** Start both builds from the
    same registers and RAM with the ROM hidden and run the same operations. A
    load returns the same byte in both, unless it is of an address of the
    window that was stored to since the ROM was turned on and the ROM is still
    shown, or whose most recent store was made while the ROM was shown and the
    ROM is now hidden. -/
theorem fast_refines_accurate (ops : List MemOp) (addr : Word) (m : Machine)
    (extra : Fin 0x40 → Byte) (hhidden : m.showRom = false)
    (hfresh : (overlayAfter ops).stale addr = false) :
    loadAfter .fast ops addr m = loadAfter .accurate ops addr { m with extraRam := extra } := by
  have hops := Relational.Triple.forM Overlaid.exec ops .start
  have hload := hops.bind fun _ _ => memLoad_lockstep addr (overlayAfter ops)
  exact (hload.run'_eq (fun _ _ _ _ h => h.2 hfresh) (Overlaid.start hhidden extra)).symm

/-- A store to the RAM under the ROM while it is hidden is read back in both
    builds, also after the ROM was shown and hidden again. -/
theorem fast_refines_accurate_hidden_store :
    loadAfter .fast [.store 0xffc0 0x12, .store 0x00f1 0x80, .load 0xffc0, .store 0x00f1 0x00]
        0xffc0 .init =
      loadAfter .accurate
        [.store 0xffc0 0x12, .store 0x00f1 0x80, .load 0xffc0, .store 0x00f1 0x00]
        0xffc0 { Machine.init with extraRam := fun _ => 0 } :=
  fast_refines_accurate _ _ _ _ rfl (by decide)

/-- A store to the window while the ROM is shown: the default build loads it
    back and loses it when the ROM is hidden, the accurate build does
    neither. -/
theorem shown_store_differs :
    loadAfter .fast [.store 0x00f1 0x80, .store 0xffc0 0x12] 0xffc0 .init = some 0x12 ∧
      loadAfter .accurate [.store 0x00f1 0x80, .store 0xffc0 0x12] 0xffc0 .init = some 0xcd ∧
      loadAfter .fast [.store 0x00f1 0x80, .store 0xffc0 0x12, .store 0x00f1 0x00] 0xffc0 .init =
        some 0 ∧
      loadAfter .accurate [.store 0x00f1 0x80, .store 0xffc0 0x12, .store 0x00f1 0x00] 0xffc0
        .init = some 0x12 := by
  decide +kernel

end SpuKit
