import SpuKit.Lib.Program
import SpuKit.Apu.Clocks
import SpuKit.Spc700.Memory

/-!
# Operands of the CPU

How the instructions of `spc700.c` fetch their operands and access memory, in
the default build: instructions are fetched from audio RAM, everything else goes
through the memory map. The instrumentation records what an observer of the
instruction stream and of the memory map would see.

## Main definitions

- `Operand`, `CpuEvent` — what the instrumentation records
- `Insn` — a computation of the CPU
- `fetchInsn`, `memLoad`, `memStore` — the stream and the memory map
- `directPage`, `absolute`, `bitaddr`, ... — the addressing modes
- `pushByte`, `popByte` — the stack
-/

namespace SpuKit.Spc700

/-- `bitaddr_t` -/
structure BitAddr where
  addr : BitVec 13
  bit : BitVec 3
  deriving DecidableEq

/-- Which operand a byte fetched with `direct_page` is. -/
inductive Place where
  /-- the only one of the instruction -/
  | only
  /-- the first one fetched, where the value comes from -/
  | source
  /-- the second one fetched, where the result goes -/
  | destination
  deriving DecidableEq

/-- An operand of an instruction, as it was fetched. -/
inductive Operand where
  /-- fetched with `immediate` -/
  | immediate (byte : Byte)
  /-- fetched with `direct_page` or `direct_page_x` -/
  | directPage (place : Place) (byte : Byte)
  /-- fetched with `relative` -/
  | relative (disp : Byte)
  /-- fetched with `absolute` -/
  | absolute (addr : Word)
  /-- fetched with `bitaddr` -/
  | bitaddr (addr : BitAddr)
  deriving DecidableEq

/-- What an observer of the CPU sees. -/
inductive CpuEvent where
  /-- `fetch_insn` with the program counter at the address -/
  | fetch (addr : Word)
  /-- an operand is complete -/
  | operand (o : Operand)
  /-- `mem_load` -/
  | load (addr : Word)
  /-- `mem_store` -/
  | store (addr : Word) (byte : Byte)
  /-- `branch_taken` -/
  | branchTaken
  /-- `push_word` -/
  | pushWord (word : Word)
  /-- the clocks of the APU are updated -/
  | clock (e : ClockEvent)
  deriving DecidableEq

/-- A computation of the CPU. It stops where the source calls `abort`. -/
abbrev Insn := Program CpuEvent Machine

/-- A computation on the registers and flags alone. -/
abbrev Alu := StateM Cpu

def onCpu {α : Type} (x : Alu α) : Insn α := fun m =>
  ⟨some ((x m.cpu).1, { m with cpu := (x m.cpu).2 }), []⟩

def getCpu : Insn Cpu := onCpu get

def modifyCpu (f : Cpu → Cpu) : Insn PUnit := onCpu (modify f)

def onMemory {α : Type} (x : Exec α) : Insn α := fun m => ⟨x m, []⟩

def memLoad (addr : Word) : Insn Byte := do
  Program.emit (.load addr)
  onMemory (SpuKit.memLoad .fast addr)

def memStore (addr : Word) (byte : Byte) : Insn Unit := do
  Program.emit (.store addr byte)
  onMemory (SpuKit.memStore .fast addr byte)

def memLoadWord (addr : Word) : Insn Word := do
  let lo ← memLoad (addr + 0)
  let hi ← memLoad (addr + 1)
  pure (wordOf hi lo)

def memStoreWord (addr word : Word) : Insn Unit := do
  memStore (addr + 0) (word.setWidth 8)
  memStore (addr + 1) ((word >>> 8).setWidth 8)

/-- `fetch_insn`: instructions are fetched from RAM, also under the registers. -/
def fetchInsn : Insn Byte := do
  let m ← get
  Program.emit (.fetch m.cpu.pc)
  set { m with cpu := { m.cpu with pc := m.cpu.pc + 1 } }
  pure (m.aram m.cpu.pc)

/-- `relative`, whose value is the bits of an `int8_t` -/
def relative : Insn Byte := do
  let disp ← fetchInsn
  Program.emit (.operand (.relative disp))
  pure disp

def immediate : Insn Byte := do
  let byte ← fetchInsn
  Program.emit (.operand (.immediate byte))
  pure byte

def directPageEffective (addr : Byte) (c : Cpu) : Word := wordOf (if c.pswP then 1 else 0) addr

/-- `direct_page` -/
def directPageAs (place : Place) : Insn Word := do
  let lo ← fetchInsn
  Program.emit (.operand (.directPage place lo))
  let c ← getCpu
  pure (directPageEffective lo c)

def directPage : Insn Word := directPageAs .only

/-- d+X - direct page address, indexed by X register -/
def directPageX : Insn Word := do
  let lo ← fetchInsn
  Program.emit (.operand (.directPage .only lo))
  let c ← getCpu
  pure (directPageEffective (lo + c.x) c)

/-- (d)+Y - pointer from direct page, indexed by Y register -/
def directPageIndirectY : Insn Word := do
  let indAddr ← directPage
  let word ← memLoadWord indAddr
  let c ← getCpu
  pure (word + c.y.setWidth 16)

/-- (d+X) - at direct page, indexed by X, is a pointer -/
def directPageXIndirect : Insn Word := do
  let addr ← directPageX
  memLoadWord addr

/-- (X) X register is a pointer into direct page -/
def indirectX : Insn Word := do
  let c ← getCpu
  pure (directPageEffective c.x c)

/-- (Y) Y register is a pointer into direct page -/
def indirectY : Insn Word := do
  let c ← getCpu
  pure (directPageEffective c.y c)

/-- The two bytes of `absolute`. -/
def fetchWord : Insn Word := do
  let lo ← fetchInsn
  let hi ← fetchInsn
  pure (wordOf hi lo)

/-- !a - next two bytes after instruction encode the effective address -/
def absolute : Insn Word := do
  let addr ← fetchWord
  Program.emit (.operand (.absolute addr))
  pure addr

/-- !a+X - absolute address, indexed by X register -/
def absoluteX : Insn Word := do
  let addr ← absolute
  let c ← getCpu
  pure (addr + c.x.setWidth 16)

/-- !a+Y - absolute address, indexed by Y register -/
def absoluteY : Insn Word := do
  let addr ← absolute
  let c ← getCpu
  pure (addr + c.y.setWidth 16)

/-- (!a+X) - absolute address, indexed by X, is a pointer -/
def absoluteXIndirect : Insn Word := do
  let addr ← absoluteX
  memLoadWord addr

def bitaddrInit (word : Word) : BitAddr where
  addr := word.setWidth 13
  bit := (word >>> 13).setWidth 3

/-- `bitaddr`: the word that `absolute` fetches is split. -/
def bitaddr : Insn BitAddr := do
  let word ← fetchWord
  Program.emit (.operand (.bitaddr (bitaddrInit word)))
  pure (bitaddrInit word)

/-- The mask of a bit. -/
def BitAddr.mask (b : BitAddr) : Byte := (1 : Byte) <<< b.bit.toNat

def bitaddrLoad (b : BitAddr) : Insn Bool := do
  let byte ← memLoad (b.addr.setWidth 16)
  pure (byte &&& b.mask != 0)

def bitaddrStore (b : BitAddr) (val : Bool) : Insn Unit := do
  let byte ← memLoad (b.addr.setWidth 16)
  let result := if val then byte ||| b.mask else byte &&& ~~~ b.mask
  memStore (b.addr.setWidth 16) result

def stackAddr (c : Cpu) : Word := wordOf 1 c.sp

def pushByte (byte : Byte) : Insn Unit := do
  let c ← getCpu
  memStore (stackAddr c) byte
  modifyCpu fun c => { c with sp := c.sp - 1 }

def popByte : Insn Byte := do
  modifyCpu fun c => { c with sp := c.sp + 1 }
  let c ← getCpu
  memLoad (stackAddr c)

def pushWord (word : Word) : Insn Unit := do
  Program.emit (.pushWord word)
  pushByte ((word >>> 8).setWidth 8)
  pushByte (word.setWidth 8)

def popWord : Insn Word := do
  let lo ← popByte
  let hi ← popByte
  pure (wordOf hi lo)

end SpuKit.Spc700
