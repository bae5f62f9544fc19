import SpuKit.CTypes

/-!
# CPU registers

The registers of the SPC700. The flags of the program status word are kept as
separate variables.

## Main definitions

- `Cpu` — the registers and flags
- `pswDecompose` — set the flags from a status word
- `Spc700Regs`, `setRegs` — set all registers
-/

namespace SpuKit

/-- The CPU registers of `spc700.c`. -/
@[ext]
structure Cpu where
  pc : Word
  a : Byte
  x : Byte
  y : Byte
  sp : Byte
  carry : Bool
  zero : Bool
  pswI : Bool
  halfCarry : Bool
  pswB : Bool
  pswP : Bool
  overflow : Bool
  negative : Bool

/-- The CPU registers at the start of the process. -/
def Cpu.init : Cpu where
  pc := 0
  a := 0
  x := 0
  y := 0
  sp := 0
  carry := false
  zero := false
  pswI := false
  halfCarry := false
  pswB := false
  pswP := false
  overflow := false
  negative := false

/-- `psw_decompose`: the flags from bit 0 on are C, Z, I, H, B, P, V and N. -/
def pswDecompose (psw : Byte) (c : Cpu) : Cpu :=
  { c with
    carry := psw.getLsbD 0
    zero := psw.getLsbD 1
    pswI := psw.getLsbD 2
    halfCarry := psw.getLsbD 3
    pswB := psw.getLsbD 4
    pswP := psw.getLsbD 5
    overflow := psw.getLsbD 6
    negative := psw.getLsbD 7 }

/-- `struct spc700_regs` -/
structure Spc700Regs where
  pc : Word
  a : Byte
  x : Byte
  y : Byte
  psw : Byte
  sp : Byte

def setRegs (r : Spc700Regs) (c : Cpu) : Cpu :=
  pswDecompose r.psw { c with pc := r.pc, a := r.a, x := r.x, y := r.y, sp := r.sp }

/-- Setting the registers leaves nothing of what was there before. -/
theorem setRegs_const (r : Spc700Regs) (c c' : Cpu) : setRegs r c' = setRegs r c := rfl

end SpuKit
