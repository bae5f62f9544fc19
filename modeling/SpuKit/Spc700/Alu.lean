import SpuKit.Spc700.Addressing

/-!
# Arithmetic of the CPU

The functions of `spc700.c` that compute a result from operands and set the
flags. None of them reads or changes memory or the program counter.

## Main definitions

- `setZ`, `setZn`, `setZn16` — the flags of a result
- `aluAsl`, ..., `aluSbc` — the 8-bit operations
- `aluAddw`, `aluSubw`, `aluCmp`, `aluDiv`, `aluMul`
- `pswCompose`, `getYa`, `setYa`
- `KeepsPc` — the program counter is left alone

## Main results

- `keepsPc_div` — the division leaves the program counter alone
-/

namespace SpuKit.Spc700

/-- The status word is made of the flags that `pswDecompose` sets. -/
def pswCompose (c : Cpu) : Byte :=
  BitVec.ofBool c.negative ++ BitVec.ofBool c.overflow ++ BitVec.ofBool c.pswP ++
    BitVec.ofBool c.pswB ++ BitVec.ofBool c.halfCarry ++ BitVec.ofBool c.pswI ++
    BitVec.ofBool c.zero ++ BitVec.ofBool c.carry

def getYa (c : Cpu) : Word := wordOf c.y c.a

def setYa (ya : Word) : Alu Unit :=
  modify fun c => { c with y := (ya >>> 8).setWidth 8, a := ya.setWidth 8 }

/-- Set zero flag for an ALU op -/
def setZ (result : Byte) : Alu Unit := modify fun c => { c with zero := result == 0 }

/-- Set zero and negative flag for an ALU op -/
def setZn (result : Byte) : Alu Unit := do
  setZ result
  modify fun c => { c with negative := result &&& 0x80 != 0 }

def setZn16 (result : Word) : Alu Unit :=
  modify fun c => { c with zero := result == 0, negative := result &&& 0x8000 != 0 }

/-- A flag as the integer it converts to. -/
def ofFlag {w : Nat} (flag : Bool) : BitVec w := if flag then 1 else 0

def aluAsl (operand : Byte) : Alu Byte := do
  let result := operand <<< 1
  modify fun c => { c with carry := operand &&& 0x80 != 0 }
  setZn result
  pure result

def aluRol (operand : Byte) : Alu Byte := do
  let c ← get
  let result : Word := (operand.setWidth 16 <<< 1) ||| ofFlag c.carry
  let trunc : Byte := result.setWidth 8
  set { c with carry := result &&& 0x100 != 0 }
  setZn trunc
  pure trunc

def aluLsr (operand : Byte) : Alu Byte := do
  let result := operand >>> 1
  modify fun c => { c with carry := operand &&& 0x1 != 0 }
  setZn result
  pure result

def aluRor (operand : Byte) : Alu Byte := do
  let c ← get
  let result : Byte := (ofFlag c.carry <<< 7) ||| (operand >>> 1)
  set { c with carry := operand &&& 0x1 != 0 }
  setZn result
  pure result

def aluOr (a b : Byte) : Alu Byte := do
  let result := a ||| b
  setZn result
  pure result

def aluAnd (a b : Byte) : Alu Byte := do
  let result := a &&& b
  setZn result
  pure result

def aluEor (a b : Byte) : Alu Byte := do
  let result := a ^^^ b
  setZn result
  pure result

def adc (a b : Byte) : Alu Byte := do
  let c ← get
  let result : Word := a.setWidth 16 + b.setWidth 16 + ofFlag c.carry
  let trunc : Byte := result.setWidth 8
  set { c with
    carry := result &&& 0xff00 != 0
    halfCarry := (a ^^^ b ^^^ trunc) &&& 0x10 != 0
    overflow := (a ^^^ trunc) &&& (b ^^^ trunc) &&& 0x80 != 0 }
  pure trunc

def sbc (a b : Byte) : Alu Byte := adc a (~~~ b)

def aluAdc (a b : Byte) : Alu Byte := do
  let result ← adc a b
  setZn result
  pure result

def aluSbc (a b : Byte) : Alu Byte := do
  let result ← sbc a b
  setZn result
  pure result

/-- `alu_addw`, with the left operand of `|` evaluated first -/
def aluAddw (a b : Word) : Alu Word := do
  modify fun c => { c with carry := false }
  let lo ← adc (a.setWidth 8) (b.setWidth 8)
  let hi ← adc ((a >>> 8).setWidth 8) ((b >>> 8).setWidth 8)
  let result := lo.setWidth 16 ||| (hi.setWidth 16 <<< 8)
  setZn16 result
  pure result

/-- `alu_subw`, with the left operand of `|` evaluated first -/
def aluSubw (a b : Word) : Alu Word := do
  modify fun c => { c with carry := true }
  let lo ← sbc (a.setWidth 8) (b.setWidth 8)
  let hi ← sbc ((a >>> 8).setWidth 8) ((b >>> 8).setWidth 8)
  let result := lo.setWidth 16 ||| (hi.setWidth 16 <<< 8)
  setZn16 result
  pure result

def aluCmp (a b : Byte) : Alu Unit := do
  let cmp : Int := a.toNat - b.toNat
  modify fun c => { c with carry := decide (0 ≤ cmp) }
  setZn (toByte cmp)

/-- The comparison of `insn_cmpw_ya_d`. -/
def aluCmpw (operand : Word) : Alu Unit := do
  let c ← get
  let result : Int := (getYa c).toNat - operand.toNat
  set { c with carry := decide (0 ≤ result) }
  setZn16 (toShort result)

/-- The body of `insn_divw_ya_x`. The quotient and the remainder of a C `int`
    are rounded towards zero. -/
def aluDiv : Alu Unit := do
  let c ← get
  let ya : Int := (getYa c).toNat
  let x : Int := c.x.toNat
  modify fun c => { c with
    halfCarry := decide (c.x &&& 0xf ≤ c.y &&& 0xf)
    overflow := decide (c.x ≤ c.y) }
  if (c.y.toNat : Int) < x <<< (1 : Nat) then
    modify fun c => { c with a := toByte (ya.tdiv x), y := toByte (ya.tmod x) }
  else
    modify fun c => { c with
      a := toByte (0xff - (ya - x <<< (9 : Nat)).tdiv (0x100 - x))
      y := toByte (x + (ya - x <<< (9 : Nat)).tmod (0x100 - x)) }
  let c ← get
  setZn c.a

/-- The body of `insn_mul_ya`. -/
def aluMul : Alu Unit := do
  let c ← get
  let result : Word := c.a.setWidth 16 * c.y.setWidth 16
  setZn16 result
  setYa result

/-- `operand - 1`, with its flags -/
def decremented (operand : Byte) : Alu Byte := do
  let result := operand - 1
  setZn result
  pure result

/-- `operand + 1`, with its flags -/
def incremented (operand : Byte) : Alu Byte := do
  let result := operand + 1
  setZn result
  pure result

/-- A computation that leaves the program counter alone. For all but the division
    this holds by definition. -/
def KeepsPc {α : Type} (x : Alu α) : Prop := ∀ c, (x c).2.pc = c.pc

/-- Both branches of the division leave the program counter alone. -/
theorem keepsPc_div : KeepsPc aluDiv := by
  intro c
  by_cases h : (c.y.toNat : Int) < (c.x.toNat : Int) <<< (1 : Nat)
  · simp only [aluDiv, bind, StateT.bind, get, getThe, MonadStateOf.get, StateT.get, pure, h,
      if_true]
    rfl
  · simp only [aluDiv, bind, StateT.bind, get, getThe, MonadStateOf.get, StateT.get, pure, h,
      if_false]
    rfl

end SpuKit.Spc700
