import SpuKit.Dsp.Run
import SpuKit.Spc700.Registers

/-!
# State of the emulator

The static variables of the three emulator modules: the CPU and the memory of
`spc700.c`, the registers, ports and timers of `apu.c`, and the DSP of `dsp.c`.

`struct apu_state` is only ever accessed through a union with `uint8_t
sram[16]`, so it is modelled as these sixteen bytes, with the fields of the
struct at their offsets.

## Main definitions

- `Sram` — `struct apu_state`
- `Timer`, `Apu` — the static variables of `apu.c`
- `Machine` — all of it
- `Exec` — a computation on the machine that may abort the process
-/

namespace SpuKit

/-- `struct apu_state`, as the sixteen bytes of its union with `sram`. -/
abbrev Sram := Fin 16 → Byte

/-- The offset of `ctrl` -/
def apuCtrl : Fin 16 := 1

/-- The offset of `dsp_addr` -/
def apuDspAddr : Fin 16 := 2

/-- The offset of `dsp_data` -/
def apuDspData : Fin 16 := 3

/-- The offsets of `io_in` -/
def apuIo (k : Fin 4) : Fin 16 := ⟨4 + k, by omega⟩

/-- The offsets of `tdiv` -/
def apuTdiv (k : Fin 3) : Fin 16 := ⟨10 + k, by omega⟩

/-- The offsets of `tout` -/
def apuTout (k : Fin 3) : Fin 16 := ⟨13 + k, by omega⟩

/-- `struct timer` -/
@[ext]
structure Timer where
  cycles : Word
  target : Word
  enabled : Bool
  deriving DecidableEq

/-- The static variables of `apu.c`. -/
@[ext]
structure Apu where
  s : Sram
  ioIn : Fin 4 → Byte
  ioOut : Fin 4 → Byte
  t : Fin 3 → Timer

/-- The static variables of `apu.c` at the start of the process. -/
def Apu.init : Apu where
  s := fun _ => 0
  ioIn := fun _ => 0
  ioOut := fun _ => 0
  t := fun _ => ⟨0, 0, false⟩

/-- The static variables of the emulator. -/
@[ext]
structure Machine where
  cpu : Cpu
  aram : Word → Byte
  extraRam : Fin 0x40 → Byte
  showRom : Bool
  apu : Apu
  dsp : Dsp

/-- The emulator at the start of the process. -/
def Machine.init : Machine where
  cpu := .init
  aram := fun _ => 0
  extraRam := fun _ => 0
  showRom := false
  apu := .init
  dsp := .zero

/-- A computation on the machine. It fails where the source calls `abort` or an
    `xassert` does not hold. -/
abbrev Exec := StateT Machine Option

namespace Exec

variable {α β : Type}

theorem modify_bind (f : Machine → Machine) (k : PUnit → Exec β) (m : Machine) :
    ((modify f : Exec PUnit) >>= k) m = k ⟨⟩ (f m) := rfl

theorem get_bind (k : Machine → Exec β) (m : Machine) : ((get : Exec Machine) >>= k) m = k m m :=
  rfl

theorem lift_bind (x : Option α) (k : α → Exec β) (m : Machine) :
    ((liftM x : Exec α) >>= k) m = x.bind (k · m) := by
  cases x <;> rfl

theorem lift_run (x : Option α) (m : Machine) : (liftM x : Exec α) m = x.map (·, m) := by
  cases x <;> rfl

theorem bind_run (x : Exec α) (k : α → Exec β) (m : Machine) :
    (x >>= k) m = (x m).bind fun p => k p.1 p.2 := rfl

theorem forM_cons_run {ω : Type} (f : ω → Exec PUnit) (op : ω) (ops : List ω) (m : Machine) :
    (op :: ops).forM f m = (f op m).bind fun p => ops.forM f p.2 := rfl

end Exec

end SpuKit
