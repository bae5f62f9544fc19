import SpuKit.Disasm.OpcodeTbl
import SpuKit.CTypes

/-!
# The disassembler

`Dis` of `meta/__main__.py`. The operand bytes of an opcode are unpacked by a
`Struct` that is made of the formats of its operands, and printed in the order of
the tokens.

## Main definitions

- `Fmt`, `Struct` — the formats of `struct`, on a little-endian host
- `Dis`, `disOf` — the table by opcode
- `DisInsn`, `DisInsn.line` — one instruction and the line printed for it
- `disInsns`, `dis` — the disassembler
-/

namespace SpuKit.Disasm

/-- The formats of `Adr.fmt`: `H`, `B` and `b`. -/
inductive Fmt where
  | uint16
  | uint8
  | int8
  deriving DecidableEq

def Fmt.size : Fmt → Nat
  | .uint16 => 2
  | .uint8 | .int8 => 1

/-- A `Struct` with native alignment. -/
abbrev Struct := List Fmt

/-- The first offset from `off` on that is a multiple of the size. -/
def alignTo (off size : Nat) : Nat := (off + size - 1) / size * size

/-- The offset after a field. -/
def Fmt.next (off : Nat) (f : Fmt) : Nat := alignTo off f.size + f.size

/-- `Struct.size` -/
def Struct.size (s : Struct) : Nat := s.foldl Fmt.next 0

def Fmt.unpack (f : Fmt) (buf : List Byte) (off : Nat) : Int :=
  match f with
  | .uint16 => (wordOf (buf.getD (off + 1) 0) (buf.getD off 0)).toNat
  | .uint8 => (buf.getD off 0).toNat
  | .int8 => (buf.getD off 0).toInt

def Struct.unpackFrom (buf : List Byte) : Nat → Struct → List Int
  | _, [] => []
  | off, f :: fs => f.unpack buf (alignTo off f.size) :: unpackFrom buf (f.next off) fs

/-- `Struct.unpack` -/
def Struct.unpack (s : Struct) (buf : List Byte) : List Int := s.unpackFrom buf 0

/-- The table of `Adr.fmt` -/
def adrFmt (adr : List Char) : Option Fmt :=
  [(['!', 'a'], Fmt.uint16),
    (['#', 'i'], .uint8),
    (['d'], .uint8),
    (['r'], .int8),
    (['m', '.', 'b'], .uint16),
    (['v'], .uint8)].lookup adr

/-- The digits of a number with at least the given width, zero-padded. -/
def hexDigits (width n : Nat) : List Char :=
  let digits := Nat.toDigits 16 n
  List.replicate (width - digits.length) '0' ++ digits

/-- The format `0` width `x`: the sign counts for the width. -/
def fmtHex (width : Nat) (v : Int) : List Char :=
  if v < 0 then '-' :: hexDigits (width - 1) v.natAbs else hexDigits width v.natAbs

def fmtX8 (v : Int) (_addr : Option Nat) : List Char := '$' :: fmtHex 2 v

def fmtX16 (v : Int) (_addr : Option Nat) : List Char := '$' :: fmtHex 4 v

def fmtImm (v : Int) (_addr : Option Nat) : List Char := '#' :: '$' :: fmtHex 2 v

/-- `_fmt_rel`: the sum is not reduced to the address space. -/
def fmtRel (v : Int) : Option Nat → List Char
  | none => (toString v).toList
  | some addr => '$' :: fmtHex 4 (addr + v)

def fmtMembit (v : Int) (_addr : Option Nat) : List Char :=
  let bit := v >>> (13 : Nat)
  let mem := v % 0x2000
  '$' :: fmtHex 4 mem ++ '.' :: (toString bit).toList

/-- `_ftab` -/
def ftab (adr : List Char) : Option (Int → Option Nat → List Char) :=
  [(['!', 'a'], fmtX16),
    (['d'], fmtX8),
    (['v'], fmtX8),
    (['r'], fmtRel),
    (['#', 'i'], fmtImm),
    (['m', '.', 'b'], fmtMembit)].lookup adr

structure DisOp where
  mnemonic : List Char
  oprStruct : Struct
  disToks : List Token

/-- `_adr`: the operands among the tokens. -/
def adrs (toks : List Token) : List (List Char) :=
  toks.filterMap fun
    | .adr adr => some adr
    | .reg _ | .sym _ => none

/-- `op`, which fails for an operand that has no format. -/
def disOp (d : OpDef) : Option DisOp := do
  let toks := d.optoks.flatten
  let s ← (adrs toks).mapM adrFmt
  pure ⟨d.mnemonic, s, toks⟩

/-- `_tab`, a dictionary: of two definitions of an opcode the later one is in it. -/
abbrev Dis := Nat → Option DisOp

/-- `self._tab[d.opcode] = op(d)` -/
def Dis.insert (tab : Dis) (d : OpDef) : Option Dis := do
  let op ← disOp d
  pure (Function.update tab d.opcode (some op))

/-- `Dis.__init__` -/
def disOf (opcodeTbl : List OpDef) : Option Dis := opcodeTbl.foldlM Dis.insert fun _ => none

/-- What `dis` knows of one instruction when it prints it. -/
structure DisInsn where
  mnemonic : List Char
  toks : List Token
  operands : List Int
  addr : Option Nat
  nextAddr : Option Nat

/-- `_fmt`: the operands are printed in the order of the tokens. -/
def fmtToks (addr : Option Nat) : List Token → List Int → List (List Char)
  | [], _ => []
  | .adr adr :: toks, v :: vs => ((ftab adr).elim [] fun f => f v addr) :: fmtToks addr toks vs
  | .adr _ :: _, [] => []
  | .reg s :: toks, vs | .sym s :: toks, vs => s :: fmtToks addr toks vs

/-- The line that is printed: the mnemonic is padded to six characters. -/
def DisInsn.line (i : DisInsn) : List Char :=
  let args := (fmtToks i.nextAddr i.toks i.operands).flatten
  let line := i.mnemonic ++ List.replicate (6 - i.mnemonic.length) ' ' ++ args
  match i.addr with
  | none => line
  | some addr => fmtHex 4 addr ++ ':' :: ' ' :: line

/-- The instructions of `dis`, until the bytes end or stop short of an
    instruction, or an opcode is not in the table. There are no more of them than
    bytes. -/
def disInsnsFrom (tab : Dis) : Nat → List Byte → Option Nat → List DisInsn
  | 0, _, _ | _, [], _ => []
  | n + 1, curOp :: b, addr =>
    match tab curOp.toNat with
    | none => []
    | some op =>
      let size := op.oprStruct.size
      if b.length < size then []
      else
        let nextAddr := addr.map (· + 1 + size)
        ⟨op.mnemonic, op.disToks, op.oprStruct.unpack (b.take size), addr, nextAddr⟩ ::
          disInsnsFrom tab n (b.drop size) nextAddr

def disInsns (tab : Dis) (b : List Byte) (addr : Option Nat) : List DisInsn :=
  disInsnsFrom tab b.length b addr

/-- `Dis.dis` -/
def dis (tab : Dis) (b : List Byte) (addr : Option Nat) : List (List Char) :=
  (disInsns tab b addr).map DisInsn.line

end SpuKit.Disasm
