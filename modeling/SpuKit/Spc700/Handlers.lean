import SpuKit.Spc700.Alu

/-!
# The instructions

The handlers of `spc700.c`, in its order as far as the families allow. Handlers
that only differ in an addressing mode, an operation or a bit are instances of
one definition.

## Main definitions

- `tcall`, `setDb`, `clrDb`, `bbsDb`, `bbcDb` — the functions behind the handlers
  with a number in their name
- `rmw`, `aluA`, `aluDpDp`, `aluIxIy`, `cmpWith`, `load`, `store`, `branchIf` —
  the families
- `insn...` — the handlers
-/

namespace SpuKit.Spc700

-- ════════════════════════════════════════════════════════════════════════
-- Control
-- ════════════════════════════════════════════════════════════════════════

/-- `pc += disp; branch_taken()` -/
def branch (disp : Byte) : Insn Unit := do
  modifyCpu fun c => { c with pc := c.pc + disp.signExtend 16 }
  Program.emit .branchTaken

/-- The branch of a conditional. -/
def branchWhen (taken : Bool) (disp : Byte) : Insn Unit :=
  if taken then branch disp else pure ()

def call (addr : Word) : Insn Unit := do
  let c ← getCpu
  pushWord c.pc
  modifyCpu fun c => { c with pc := addr }

def tcall (slot : Byte) : Insn Unit := do
  let tblAddr : Word := 0xffc0 + ((0xf - (slot &&& 0xf)).setWidth 16 <<< 1)
  let addr ← memLoadWord tblAddr
  call addr

def insnNop : Insn Unit := pure ()

def insnCallAbs : Insn Unit := do
  let addr ← absolute
  call addr

def insnTcall0 : Insn Unit := tcall 0
def insnTcall1 : Insn Unit := tcall 1
def insnTcall2 : Insn Unit := tcall 2
def insnTcall3 : Insn Unit := tcall 3
def insnTcall4 : Insn Unit := tcall 4
def insnTcall5 : Insn Unit := tcall 5
def insnTcall6 : Insn Unit := tcall 6
def insnTcall7 : Insn Unit := tcall 7
def insnTcall8 : Insn Unit := tcall 8

/-- The source calls slot 0 here. -/
def insnTcall9 : Insn Unit := tcall 0

def insnTcall10 : Insn Unit := tcall 10
def insnTcall11 : Insn Unit := tcall 11
def insnTcall12 : Insn Unit := tcall 12
def insnTcall13 : Insn Unit := tcall 13
def insnTcall14 : Insn Unit := tcall 14
def insnTcall15 : Insn Unit := tcall 15

def jumpTo (mode : Insn Word) : Insn Unit := do
  let addr ← mode
  modifyCpu fun c => { c with pc := addr }

def insnJmpAbsxInd : Insn Unit := jumpTo absoluteXIndirect
def insnJmpAbs : Insn Unit := jumpTo absolute
def insnRet : Insn Unit := jumpTo popWord

def insnBra : Insn Unit := do
  let disp ← relative
  branch disp

def branchIf (cond : Cpu → Bool) : Insn Unit := do
  let disp ← relative
  let c ← getCpu
  branchWhen (cond c) disp

def insnBcc : Insn Unit := branchIf fun c => !c.carry
def insnBcs : Insn Unit := branchIf fun c => c.carry
def insnBpl : Insn Unit := branchIf fun c => !c.negative
def insnBmi : Insn Unit := branchIf fun c => c.negative
def insnBne : Insn Unit := branchIf fun c => !c.zero
def insnBeq : Insn Unit := branchIf fun c => c.zero

/-- The branch is taken before the counter is stored. -/
def insnDbnzDp : Insn Unit := do
  let addr ← directPage
  let operand ← memLoad addr
  let result := operand - 1
  let disp ← relative
  modifyCpu fun c => { c with zero := result == 0 }
  branchWhen (result != 0) disp
  memStore addr result

def insnDbnzY : Insn Unit := do
  let c ← getCpu
  let result := c.y - 1
  let disp ← relative
  branchWhen (result != 0) disp
  modifyCpu fun c => { c with y := result }

def cbne (mode : Insn Word) : Insn Unit := do
  let addr ← mode
  let operand ← memLoad addr
  let disp ← relative
  let c ← getCpu
  branchWhen (operand != c.a) disp

def insnCbneDpRel : Insn Unit := cbne directPage
def insnCbneDpxRel : Insn Unit := cbne directPageX

-- ════════════════════════════════════════════════════════════════════════
-- Bits of the direct page
-- ════════════════════════════════════════════════════════════════════════

def setDb (bit : Nat) : Insn Unit := do
  let addr ← directPage
  let operand ← memLoad addr
  memStore addr (operand ||| ((1 : Byte) <<< bit))

def clrDb (bit : Nat) : Insn Unit := do
  let addr ← directPage
  let operand ← memLoad addr
  memStore addr (operand &&& ~~~ ((1 : Byte) <<< bit))

/-- `bbs_db` and `bbc_db`: branch if the bit is as wanted. -/
def branchOnBit (wanted : Bool) (bit : Nat) : Insn Unit := do
  let addr ← directPage
  let disp ← relative
  let operand ← memLoad addr
  branchWhen ((operand &&& ((1 : Byte) <<< bit) != 0) == wanted) disp

def bbsDb (bit : Nat) : Insn Unit := branchOnBit true bit
def bbcDb (bit : Nat) : Insn Unit := branchOnBit false bit

def insnSetDb0 : Insn Unit := setDb 0
def insnSetDb1 : Insn Unit := setDb 1
def insnSetDb2 : Insn Unit := setDb 2
def insnSetDb3 : Insn Unit := setDb 3
def insnSetDb4 : Insn Unit := setDb 4
def insnSetDb5 : Insn Unit := setDb 5
def insnSetDb6 : Insn Unit := setDb 6
def insnSetDb7 : Insn Unit := setDb 7

def insnClrDb0 : Insn Unit := clrDb 0
def insnClrDb1 : Insn Unit := clrDb 1
def insnClrDb2 : Insn Unit := clrDb 2
def insnClrDb3 : Insn Unit := clrDb 3
def insnClrDb4 : Insn Unit := clrDb 4
def insnClrDb5 : Insn Unit := clrDb 5
def insnClrDb6 : Insn Unit := clrDb 6
def insnClrDb7 : Insn Unit := clrDb 7

def insnBbsDb0 : Insn Unit := bbsDb 0
def insnBbsDb1 : Insn Unit := bbsDb 1
def insnBbsDb2 : Insn Unit := bbsDb 2
def insnBbsDb3 : Insn Unit := bbsDb 3
def insnBbsDb4 : Insn Unit := bbsDb 4
def insnBbsDb5 : Insn Unit := bbsDb 5
def insnBbsDb6 : Insn Unit := bbsDb 6
def insnBbsDb7 : Insn Unit := bbsDb 7

def insnBbcDb0 : Insn Unit := bbcDb 0
def insnBbcDb1 : Insn Unit := bbcDb 1
def insnBbcDb2 : Insn Unit := bbcDb 2
def insnBbcDb3 : Insn Unit := bbcDb 3
def insnBbcDb4 : Insn Unit := bbcDb 4
def insnBbcDb5 : Insn Unit := bbcDb 5
def insnBbcDb6 : Insn Unit := bbcDb 6
def insnBbcDb7 : Insn Unit := bbcDb 7

-- ════════════════════════════════════════════════════════════════════════
-- Operations on one byte
-- ════════════════════════════════════════════════════════════════════════

/-- Read, modify and write a byte in memory. -/
def rmw (mode : Insn Word) (alu : Byte → Alu Byte) : Insn Unit := do
  let addr ← mode
  let operand ← memLoad addr
  let result ← onCpu (alu operand)
  memStore addr result

/-- Modify the A register. -/
def onA (alu : Byte → Alu Byte) : Alu Unit := do
  let c ← get
  let result ← alu c.a
  modify fun c => { c with a := result }

/-- Modify the X register. -/
def onX (alu : Byte → Alu Byte) : Alu Unit := do
  let c ← get
  let result ← alu c.x
  modify fun c => { c with x := result }

/-- Modify the Y register. -/
def onY (alu : Byte → Alu Byte) : Alu Unit := do
  let c ← get
  let result ← alu c.y
  modify fun c => { c with y := result }

def insnAslDp : Insn Unit := rmw directPage aluAsl
def insnAslAbs : Insn Unit := rmw absolute aluAsl
def insnAslDpx : Insn Unit := rmw directPageX aluAsl
def insnAslA : Insn Unit := onCpu (onA aluAsl)
def insnRolDp : Insn Unit := rmw directPage aluRol
def insnRolAbs : Insn Unit := rmw absolute aluRol
def insnRolDpx : Insn Unit := rmw directPageX aluRol
def insnRolA : Insn Unit := onCpu (onA aluRol)
def insnLsrDp : Insn Unit := rmw directPage aluLsr
def insnLsrAbs : Insn Unit := rmw absolute aluLsr
def insnLsrDpx : Insn Unit := rmw directPageX aluLsr
def insnLsrA : Insn Unit := onCpu (onA aluLsr)
def insnRorDp : Insn Unit := rmw directPage aluRor
def insnRorAbs : Insn Unit := rmw absolute aluRor
def insnRorDpx : Insn Unit := rmw directPageX aluRor
def insnRorA : Insn Unit := onCpu (onA aluRor)
def insnDecDp : Insn Unit := rmw directPage decremented
def insnDecAbs : Insn Unit := rmw absolute decremented
def insnDecDpx : Insn Unit := rmw directPageX decremented
def insnDecA : Insn Unit := onCpu (onA decremented)
def insnDecX : Insn Unit := onCpu (onX decremented)
def insnDecY : Insn Unit := onCpu (onY decremented)
def insnIncDp : Insn Unit := rmw directPage incremented

/-- The flags are set after the store here. -/
def insnIncAbs : Insn Unit := do
  let addr ← absolute
  let operand ← memLoad addr
  let result := operand + 1
  memStore addr result
  onCpu (setZn result)

def insnIncDpx : Insn Unit := rmw directPageX incremented
def insnIncA : Insn Unit := onCpu (onA incremented)
def insnIncX : Insn Unit := onCpu (onX incremented)
def insnIncY : Insn Unit := onCpu (onY incremented)

def insnXcn : Insn Unit := onCpu do
  let c ← get
  let result := (c.a <<< 4) ||| (c.a >>> 4)
  setZn result
  modify fun c => { c with a := result }

-- ════════════════════════════════════════════════════════════════════════
-- Operations on two bytes
-- ════════════════════════════════════════════════════════════════════════

/-- `op A,m` -/
def aluA (mode : Insn Word) (alu : Byte → Byte → Alu Byte) : Insn Unit := do
  let addr ← mode
  let operand ← memLoad addr
  onCpu (onA fun a => alu a operand)

/-- `op A,#i` -/
def aluAImm (alu : Byte → Byte → Alu Byte) : Insn Unit := do
  let imm ← immediate
  onCpu (onA fun a => alu a imm)

/-- `op d,d` -/
def aluDpDp (alu : Byte → Byte → Alu Byte) : Insn Unit := do
  let src ← directPageAs .source
  let dst ← directPageAs .destination
  let srcVal ← memLoad src
  let dstVal ← memLoad dst
  let result ← onCpu (alu srcVal dstVal)
  memStore dst result

/-- `op d,#i` of the operations that do not care about the order. -/
def aluImmDp (alu : Byte → Byte → Alu Byte) : Insn Unit := do
  let imm ← immediate
  let addr ← directPage
  let operand ← memLoad addr
  let result ← onCpu (alu imm operand)
  memStore addr result

/-- `op d,#i` of `adc` and `sbc` -/
def aluDpImm (alu : Byte → Byte → Alu Byte) : Insn Unit := do
  let imm ← immediate
  let addr ← directPage
  let operand ← memLoad addr
  let result ← onCpu (alu operand imm)
  memStore addr result

/-- `op (X),(Y)` -/
def aluIxIy (alu : Byte → Byte → Alu Byte) : Insn Unit := do
  let dst ← indirectX
  let src ← indirectY
  let srcVal ← memLoad src
  let dstVal ← memLoad dst
  let result ← onCpu (alu srcVal dstVal)
  memStore dst result

def insnOrADp : Insn Unit := aluA directPage aluOr
def insnOrAAbs : Insn Unit := aluA absolute aluOr
def insnOrAIx : Insn Unit := aluA indirectX aluOr
def insnOrADxInd : Insn Unit := aluA directPageXIndirect aluOr
def insnOrAImm : Insn Unit := aluAImm aluOr
def insnOrDpDp : Insn Unit := aluDpDp aluOr
def insnOrADpx : Insn Unit := aluA directPageX aluOr
def insnOrAAbsx : Insn Unit := aluA absoluteX aluOr
def insnOrAAbsy : Insn Unit := aluA absoluteY aluOr
def insnOrADpiy : Insn Unit := aluA directPageIndirectY aluOr
def insnOrDpImm : Insn Unit := aluImmDp aluOr
def insnOrIxIy : Insn Unit := aluIxIy aluOr

def insnAndADp : Insn Unit := aluA directPage aluAnd
def insnAndAAbs : Insn Unit := aluA absolute aluAnd
def insnAndAIx : Insn Unit := aluA indirectX aluAnd
def insnAndADxInd : Insn Unit := aluA directPageXIndirect aluAnd
def insnAndAImm : Insn Unit := aluAImm aluAnd
def insnAndDpDp : Insn Unit := aluDpDp aluAnd
def insnAndADpx : Insn Unit := aluA directPageX aluAnd
def insnAndAAbsx : Insn Unit := aluA absoluteX aluAnd
def insnAndAAbsy : Insn Unit := aluA absoluteY aluAnd
def insnAndADpiy : Insn Unit := aluA directPageIndirectY aluAnd
def insnAndDpImm : Insn Unit := aluImmDp aluAnd
def insnAndIxIy : Insn Unit := aluIxIy aluAnd

def insnEorADp : Insn Unit := aluA directPage aluEor
def insnEorAAbs : Insn Unit := aluA absolute aluEor
def insnEorAIx : Insn Unit := aluA indirectX aluEor
def insnEorADxInd : Insn Unit := aluA directPageXIndirect aluEor
def insnEorAImm : Insn Unit := aluAImm aluEor
def insnEorDpDp : Insn Unit := aluDpDp aluEor
def insnEorADpx : Insn Unit := aluA directPageX aluEor
def insnEorAAbsx : Insn Unit := aluA absoluteX aluEor
def insnEorAAbsy : Insn Unit := aluA absoluteY aluEor
def insnEorADpiy : Insn Unit := aluA directPageIndirectY aluEor
def insnEorDpImm : Insn Unit := aluImmDp aluEor
def insnEorIxIy : Insn Unit := aluIxIy aluEor

def insnAdcADp : Insn Unit := aluA directPage aluAdc
def insnAdcAAbs : Insn Unit := aluA absolute aluAdc
def insnAdcAIx : Insn Unit := aluA indirectX aluAdc
def insnAdcADxInd : Insn Unit := aluA directPageXIndirect aluAdc
def insnAdcAImm : Insn Unit := aluAImm aluAdc
def insnAdcDpDp : Insn Unit := aluDpDp aluAdc
def insnAdcADpx : Insn Unit := aluA directPageX aluAdc
def insnAdcAAbsx : Insn Unit := aluA absoluteX aluAdc
def insnAdcAAbsy : Insn Unit := aluA absoluteY aluAdc
def insnAdcADpiy : Insn Unit := aluA directPageIndirectY aluAdc
def insnAdcDpImm : Insn Unit := aluDpImm aluAdc
def insnAdcIxIy : Insn Unit := aluIxIy aluAdc

def insnSbcADp : Insn Unit := aluA directPage aluSbc
def insnSbcAAbs : Insn Unit := aluA absolute aluSbc
def insnSbcAIx : Insn Unit := aluA indirectX aluSbc
def insnSbcADxInd : Insn Unit := aluA directPageXIndirect aluSbc
def insnSbcAImm : Insn Unit := aluAImm aluSbc
def insnSbcDpDp : Insn Unit := aluDpDp aluSbc
def insnSbcADpx : Insn Unit := aluA directPageX aluSbc
def insnSbcAAbsx : Insn Unit := aluA absoluteX aluSbc
def insnSbcAAbsy : Insn Unit := aluA absoluteY aluSbc
def insnSbcADpiy : Insn Unit := aluA directPageIndirectY aluSbc
def insnSbcDpImm : Insn Unit := aluDpImm aluSbc
def insnSbcIxIy : Insn Unit := aluIxIy aluSbc

/-- Compare a register with a byte in memory. -/
def cmpWith (reg : Cpu → Byte) (mode : Insn Word) : Insn Unit := do
  let addr ← mode
  let operand ← memLoad addr
  let c ← getCpu
  onCpu (aluCmp (reg c) operand)

/-- Compare a register with an immediate value. -/
def cmpImm (reg : Cpu → Byte) : Insn Unit := do
  let imm ← immediate
  let c ← getCpu
  onCpu (aluCmp (reg c) imm)

def insnCmpADp : Insn Unit := cmpWith Cpu.a directPage
def insnCmpAAbs : Insn Unit := cmpWith Cpu.a absolute
def insnCmpAIx : Insn Unit := cmpWith Cpu.a indirectX
def insnCmpADxInd : Insn Unit := cmpWith Cpu.a directPageXIndirect
def insnCmpAImm : Insn Unit := cmpImm Cpu.a
def insnCmpADpx : Insn Unit := cmpWith Cpu.a directPageX
def insnCmpAAbsx : Insn Unit := cmpWith Cpu.a absoluteX
def insnCmpAAbsy : Insn Unit := cmpWith Cpu.a absoluteY
def insnCmpADpiy : Insn Unit := cmpWith Cpu.a directPageIndirectY
def insnCmpXImm : Insn Unit := cmpImm Cpu.x
def insnCmpYDp : Insn Unit := cmpWith Cpu.y directPage
def insnCmpYImm : Insn Unit := cmpImm Cpu.y

def insnCmpDpDp : Insn Unit := do
  let src ← directPageAs .source
  let dst ← directPageAs .destination
  let srcVal ← memLoad src
  let dstVal ← memLoad dst
  onCpu (aluCmp srcVal dstVal)

def insnCmpDpImm : Insn Unit := do
  let imm ← immediate
  let addr ← directPage
  let operand ← memLoad addr
  onCpu (aluCmp operand imm)

def insnCmpIxIy : Insn Unit := do
  let dst ← indirectX
  let src ← indirectY
  let srcVal ← memLoad src
  let dstVal ← memLoad dst
  onCpu (aluCmp srcVal dstVal)

-- ════════════════════════════════════════════════════════════════════════
-- Moves
-- ════════════════════════════════════════════════════════════════════════

def setA (operand : Byte) : Alu Unit := modify fun c => { c with a := operand }
def setX (operand : Byte) : Alu Unit := modify fun c => { c with x := operand }
def setY (operand : Byte) : Alu Unit := modify fun c => { c with y := operand }

/-- Load a register, which sets the flags. -/
def load (set : Byte → Alu Unit) (mode : Insn Word) : Insn Unit := do
  let addr ← mode
  let operand ← memLoad addr
  onCpu do
    setZn operand
    set operand

/-- Load a register with an immediate value. -/
def loadImm (set : Byte → Alu Unit) : Insn Unit := do
  let operand ← immediate
  onCpu do
    setZn operand
    set operand

/-- Store a register. -/
def store (reg : Cpu → Byte) (mode : Insn Word) : Insn Unit := do
  let addr ← mode
  let c ← getCpu
  memStore addr (reg c)

/-- Copy a register. -/
def copy (reg : Cpu → Byte) (set : Byte → Alu Unit) : Insn Unit := onCpu do
  let c ← get
  setZn (reg c)
  set (reg c)

def insnMovXA : Insn Unit := copy Cpu.a setX
def insnMovAX : Insn Unit := copy Cpu.x setA
def insnMovAY : Insn Unit := copy Cpu.y setA
def insnMovYA : Insn Unit := copy Cpu.a setY

def insnMovYImm : Insn Unit := loadImm setY
def insnMovXImm : Insn Unit := loadImm setX
def insnMovAImm : Insn Unit := loadImm setA

def insnMovYDp : Insn Unit := load setY directPage
def insnMovYDpx : Insn Unit := load setY directPageX
def insnMovYAbs : Insn Unit := load setY absolute

def insnMovXAbs : Insn Unit := do
  let addr ← absolute
  let operand ← memLoad addr
  onCpu do
    setX operand
    setZn operand

/-- This load does not set the flags. -/
def insnMovXDp : Insn Unit := do
  let addr ← directPage
  let operand ← memLoad addr
  onCpu (setX operand)

def insnMovADp : Insn Unit := load setA directPage
def insnMovAAbs : Insn Unit := load setA absolute
def insnMovAIx : Insn Unit := load setA indirectX
def insnMovADxInd : Insn Unit := load setA directPageXIndirect
def insnMovADpx : Insn Unit := load setA directPageX
def insnMovAAbsx : Insn Unit := load setA absoluteX
def insnMovAAbsy : Insn Unit := load setA absoluteY
def insnMovADpiy : Insn Unit := load setA directPageIndirectY

def insnMovDpY : Insn Unit := store Cpu.y directPage
def insnMovDpxY : Insn Unit := store Cpu.y directPageX
def insnMovAbsY : Insn Unit := store Cpu.y absolute
def insnMovDpX : Insn Unit := store Cpu.x directPage
def insnMovAbsX : Insn Unit := store Cpu.x absolute
def insnMovDpA : Insn Unit := store Cpu.a directPage
def insnMovAbsA : Insn Unit := store Cpu.a absolute
def insnMovIxA : Insn Unit := store Cpu.a indirectX

/-- The pointer is not followed here. -/
def insnMovDxIndA : Insn Unit := store Cpu.a directPageX

def insnMovDpxA : Insn Unit := store Cpu.a directPageX
def insnMovAbsxA : Insn Unit := store Cpu.a absoluteX
def insnMovAbsyA : Insn Unit := store Cpu.a absoluteY
def insnMovDpiyA : Insn Unit := store Cpu.a directPageIndirectY

def insnMovDpImm : Insn Unit := do
  let imm ← immediate
  let addr ← directPage
  memStore addr imm

def insnMovDpDp : Insn Unit := do
  let src ← directPageAs .source
  let dst ← directPageAs .destination
  let operand ← memLoad src
  memStore dst operand

def push (reg : Cpu → Byte) : Insn Unit := do
  let c ← getCpu
  pushByte (reg c)

def pop (set : Byte → Alu Unit) : Insn Unit := do
  let operand ← popByte
  onCpu (set operand)

def insnPushPsw : Insn Unit := push pswCompose
def insnPushA : Insn Unit := push Cpu.a
def insnPushX : Insn Unit := push Cpu.x
def insnPushY : Insn Unit := push Cpu.y
def insnPopA : Insn Unit := pop setA
def insnPopPsw : Insn Unit := pop fun psw => modify (pswDecompose psw)
def insnPopX : Insn Unit := pop setX
def insnPopY : Insn Unit := pop setY

-- ════════════════════════════════════════════════════════════════════════
-- Flags
-- ════════════════════════════════════════════════════════════════════════

def insnClrc : Insn Unit := modifyCpu fun c => { c with carry := false }
def insnSetc : Insn Unit := modifyCpu fun c => { c with carry := true }
def insnNotc : Insn Unit := modifyCpu fun c => { c with carry := !c.carry }
def insnClrv : Insn Unit := modifyCpu fun c => { c with overflow := false, halfCarry := false }
def insnClrp : Insn Unit := modifyCpu fun c => { c with pswP := false }
def insnSetp : Insn Unit := modifyCpu fun c => { c with pswP := true }
def insnEi : Insn Unit := modifyCpu fun c => { c with pswI := true }
def insnDi : Insn Unit := modifyCpu fun c => { c with pswI := false }

/-- Combine the carry flag with a bit in memory. -/
def carryWith (op : Bool → Bool → Bool) : Insn Unit := do
  let operand ← bitaddr
  let bit ← bitaddrLoad operand
  modifyCpu fun c => { c with carry := op c.carry bit }

def insnOr1 : Insn Unit := carryWith fun carry bit => carry || bit
def insnOr1Not : Insn Unit := carryWith fun carry bit => carry || !bit
def insnAnd1 : Insn Unit := carryWith fun carry bit => carry && bit
def insnAnd1Not : Insn Unit := carryWith fun carry bit => carry && !bit
def insnEor1 : Insn Unit := carryWith fun carry bit => carry ^^ bit
def insnMov1Load : Insn Unit := carryWith fun _ bit => bit

def insnMov1Store : Insn Unit := do
  let operand ← bitaddr
  let c ← getCpu
  bitaddrStore operand c.carry

def insnNot1 : Insn Unit := do
  let operand ← bitaddr
  let byte ← memLoad (operand.addr.setWidth 16)
  memStore (operand.addr.setWidth 16) (byte ^^^ operand.mask)

/-- `tset1` and `tclr1`: the flags are those of A minus the byte. -/
def testAndStore (op : Byte → Byte → Byte) : Insn Unit := do
  let addr ← absolute
  let operand ← memLoad addr
  let c ← getCpu
  let out := op operand c.a
  let result := c.a - operand
  memStore addr out
  onCpu (setZn result)

def insnTset1Abs : Insn Unit := testAndStore fun operand a => operand ||| a
def insnTclr1Abs : Insn Unit := testAndStore fun operand a => operand &&& ~~~ a

-- ════════════════════════════════════════════════════════════════════════
-- Words
-- ════════════════════════════════════════════════════════════════════════

/-- `decw` and `incw`: the flags are those of the word, and its low byte is
    stored. -/
def stepWord (step : Word) : Insn Unit := do
  let addr ← directPage
  let operand ← memLoadWord addr
  let result := operand + step
  onCpu (setZn16 result)
  memStore addr (result.setWidth 8)

def insnDecwDp : Insn Unit := stepWord (-1)
def insnIncwDp : Insn Unit := stepWord 1

/-- An operation on YA and a word in the direct page. -/
def aluYa (alu : Word → Alu Unit) : Insn Unit := do
  let addr ← directPage
  let operand ← memLoadWord addr
  onCpu (alu operand)

def insnCmpwYaD : Insn Unit := aluYa aluCmpw

def insnAddwYaDp : Insn Unit := aluYa fun operand => do
  let c ← get
  let result ← aluAddw (getYa c) operand
  setYa result

def insnSubwYaDp : Insn Unit := aluYa fun operand => do
  let c ← get
  let result ← aluSubw (getYa c) operand
  setYa result

def insnMovwYaDp : Insn Unit := aluYa fun operand => do
  setYa operand
  setZn16 operand

def insnMovwDpYa : Insn Unit := do
  let addr ← directPage
  let c ← getCpu
  memStoreWord addr (getYa c)

def insnDivwYaX : Insn Unit := onCpu aluDiv
def insnMulYa : Insn Unit := onCpu aluMul

end SpuKit.Spc700
