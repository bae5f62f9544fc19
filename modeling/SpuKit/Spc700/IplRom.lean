import SpuKit.Machine

/-!
# The IPL ROM

The boot ROM in the top 64 bytes of the address space. Bit 7 of CTRL shows and
hides it, in one of two ways. The accurate build leaves audio RAM alone and
redirects loads. The default build copies the ROM over audio RAM, so that
loads and instruction fetches need no test, and keeps the RAM under it in
`extra_ram`.

## Main definitions

- `Build` — is `ACCURATE_IPL_ROM` defined?
- `iplRom` — the contents of the ROM
- `iplRomAddress`, `iplRomLoad`
- `apuSetShowIplRom` — show or hide the ROM
-/

namespace SpuKit

/-- The two builds of the memory map. -/
inductive Build where
  /-- the default build -/
  | fast
  /-- the build with `ACCURATE_IPL_ROM` -/
  | accurate
  deriving DecidableEq

def iplRom : Fin 0x40 → Byte :=
  ![0xcd, 0xef,
    0xbd,
    0xe8, 0x00,
    0xc6,
    0x1d,
    0xd0, 0xfc,
    0x8f, 0xaa, 0xf4,
    0x8f, 0xbb, 0xf5,
    0x78, 0xcc, 0xf4,
    0xd0, 0xfb,
    0x2f, 0x19,
    0xeb, 0xf4,
    0xd0, 0xfc,
    0x7e, 0xf4,
    0xd0, 0x0b,
    0xe4, 0xf5,
    0xcb, 0xf4,
    0xd7, 0x00,
    0xfc,
    0xd0, 0xf3,
    0xab, 0x01,
    0x10, 0xef,
    0x7e, 0xf4,
    0x10, 0xeb,
    0xba, 0xf6,
    0xda, 0x00,
    0xba, 0xf4,
    0xc4, 0xf4,
    0xdd,
    0x5d,
    0xd0, 0xdb,
    0x1f, 0x00, 0x00,
    0xc0, 0xff]

def iplRomBase : Word := 0xffc0

def iplRomAddress (addr : Word) : Bool := addr &&& 0xffc0 == iplRomBase

/-- The offset of an address in the 64 bytes from `IPL_ROM_BASE` on. -/
def windowIndex (addr : Word) : Fin 0x40 := Fin.ofNat 0x40 (addr - iplRomBase).toNat

def iplRomLoad (addr : Word) : Byte := iplRom (windowIndex addr)

/-- `memcpy(dst, aram + IPL_ROM_BASE, IPL_ROM_SIZE)` -/
def window (aram : Word → Byte) : Fin 0x40 → Byte :=
  fun k => aram (iplRomBase + BitVec.ofNat 16 k)

/-- `memcpy(aram + IPL_ROM_BASE, src, IPL_ROM_SIZE)` -/
def copyWindow (aram : Word → Byte) (src : Fin 0x40 → Byte) : Word → Byte :=
  fun addr => if iplRomBase ≤ addr then src (windowIndex addr) else aram addr

def apuSetShowIplRom : Build → Bool → Machine → Machine
  | .accurate, shown, m => { m with showRom := shown }
  | .fast, shown, m =>
    if shown = m.showRom then m
    else if shown then
      { m with
        showRom := shown
        extraRam := window m.aram
        aram := copyWindow m.aram iplRom }
    else
      { m with
        showRom := shown
        aram := copyWindow m.aram m.extraRam }

theorem apuSetShowIplRom_same {m : Machine} {shown : Bool} (h : shown = m.showRom) :
    apuSetShowIplRom .fast shown m = m :=
  if_pos h

theorem apuSetShowIplRom_show {m : Machine} (h : m.showRom = false) :
    apuSetShowIplRom .fast true m =
      { m with
        showRom := true
        extraRam := window m.aram
        aram := copyWindow m.aram iplRom } := by
  rw [apuSetShowIplRom, h]
  rfl

theorem apuSetShowIplRom_hide {m : Machine} (h : m.showRom = true) :
    apuSetShowIplRom .fast false m =
      { m with
        showRom := false
        aram := copyWindow m.aram m.extraRam } := by
  rw [apuSetShowIplRom, h]
  rfl

@[simp] theorem apuSetShowIplRom_cpu (b : Build) (shown : Bool) (m : Machine) :
    (apuSetShowIplRom b shown m).cpu = m.cpu := by
  cases b <;> simp only [apuSetShowIplRom, apply_ite Machine.cpu, ite_self]

@[simp] theorem apuSetShowIplRom_apu (b : Build) (shown : Bool) (m : Machine) :
    (apuSetShowIplRom b shown m).apu = m.apu := by
  cases b <;> simp only [apuSetShowIplRom, apply_ite Machine.apu, ite_self]

@[simp] theorem apuSetShowIplRom_dsp (b : Build) (shown : Bool) (m : Machine) :
    (apuSetShowIplRom b shown m).dsp = m.dsp := by
  cases b <;> simp only [apuSetShowIplRom, apply_ite Machine.dsp, ite_self]

@[simp] theorem apuSetShowIplRom_showRom (b : Build) (shown : Bool) (m : Machine) :
    (apuSetShowIplRom b shown m).showRom = shown := by
  cases b with
  | accurate => rfl
  | fast =>
    simp only [apuSetShowIplRom, apply_ite Machine.showRom, ite_self]
    split
    · next h => exact h.symm
    · rfl

/-- The RAM changes in the default build, when the ROM is shown or hidden. -/
theorem apuSetShowIplRom_aram (b : Build) (shown : Bool) (m : Machine) :
    (apuSetShowIplRom b shown m).aram =
      if b = .fast ∧ shown ≠ m.showRom then
        copyWindow m.aram (if shown then iplRom else m.extraRam)
      else m.aram := by
  cases b with
  | accurate => rfl
  | fast =>
    by_cases hsame : shown = m.showRom
    · simp [apuSetShowIplRom, hsame]
    · cases shown <;> simp [apuSetShowIplRom, hsame]

/-- The saved bytes change in the default build, when the ROM is shown. -/
theorem apuSetShowIplRom_extraRam (b : Build) (shown : Bool) (m : Machine) :
    (apuSetShowIplRom b shown m).extraRam =
      if b = .fast ∧ shown ≠ m.showRom ∧ shown = true then window m.aram else m.extraRam := by
  cases b with
  | accurate => rfl
  | fast =>
    by_cases hsame : shown = m.showRom
    · simp [apuSetShowIplRom, hsame]
    · cases shown <;> simp [apuSetShowIplRom, hsame]

theorem windowIndex_base_add (k : Fin 0x40) :
    windowIndex (iplRomBase + BitVec.ofNat 16 k) = k := by
  revert k
  decide

theorem base_le_base_add (k : Fin 0x40) : iplRomBase ≤ iplRomBase + BitVec.ofNat 16 k := by
  revert k
  decide

theorem base_add_windowIndex {addr : Word} (h : iplRomBase ≤ addr) :
    iplRomBase + BitVec.ofNat 16 (windowIndex addr) = addr := by
  have hbase : iplRomBase.toNat = 0xffc0 := rfl
  have hle : 0xffc0 ≤ addr.toNat := h
  have hsub : (addr - iplRomBase).toNat = addr.toNat - 0xffc0 := by
    rw [BitVec.toNat_sub, hbase]
    omega
  apply BitVec.eq_of_toNat_eq
  rw [BitVec.toNat_add, BitVec.toNat_ofNat, windowIndex, hbase, Fin.val_ofNat, hsub]
  omega

/-- The mask test selects the addresses from the base on. -/
theorem iplRomAddress_iff (addr : Word) : iplRomAddress addr = true ↔ iplRomBase ≤ addr := by
  rw [iplRomAddress, beq_iff_eq]
  constructor
  · intro h
    have hle : addr.toNat &&& (0xffc0 : Word).toNat ≤ addr.toNat := Nat.and_le_left
    rw [← BitVec.toNat_and, h] at hle
    exact hle
  · intro h
    have hmask : ∀ k : Fin 0x40, (iplRomBase + BitVec.ofNat 16 k) &&& 0xffc0 = iplRomBase := by
      decide
    rw [← base_add_windowIndex h]
    exact hmask _

theorem window_windowIndex (aram : Word → Byte) {addr : Word} (h : iplRomBase ≤ addr) :
    window aram (windowIndex addr) = aram addr := by
  rw [window, base_add_windowIndex h]

@[simp] theorem window_copyWindow (aram : Word → Byte) (src : Fin 0x40 → Byte) :
    window (copyWindow aram src) = src := by
  funext k
  rw [window, copyWindow, if_pos (base_le_base_add k), windowIndex_base_add]

@[simp] theorem copyWindow_window (aram : Word → Byte) : copyWindow aram (window aram) = aram := by
  funext addr
  rw [copyWindow]
  split
  · next h => exact window_windowIndex aram h
  · rfl

end SpuKit
