import SpuKit.Spc700.Execute

/-!
# Addressing modes

What the helpers of `spc700.c` compute: the address that the operand bytes and
the registers encode, and for two of the modes the address that a pointer in
the direct page holds.

## Main definitions

- `Mode` — the modes with a byte in memory
- `Mode.encoded` — the address that the operand bytes and the registers give
- `Mode.pointers`, `Mode.address` — the bytes of the pointer and the effective
  address

## Main results

- `outcome_helper_of_direct`, `outcome_helper_of_indirect` — what the helper
  returns, wherever the pointer is
- `outcome_helper` — the effective address
-/

namespace SpuKit.Spc700

open Program (outcome)

/-- The addressing modes with a byte in memory. -/
inductive Mode where
  /-- d -/
  | dp
  /-- d+X -/
  | dpx
  /-- !a -/
  | abs
  /-- !a+X -/
  | absx
  /-- !a+Y -/
  | absy
  /-- (X) -/
  | ix
  /-- [d+X] -/
  | dxInd
  /-- [d]+Y -/
  | dpiy
  deriving DecidableEq

/-- The word at an address of audio RAM. -/
def wordAt (aram : Word → Byte) (addr : Word) : Word := wordOf (aram (addr + 1)) (aram addr)

namespace Mode

/-- The function of the source that computes the effective address. -/
def helper : Mode → Insn Word
  | dp => directPage
  | dpx => directPageX
  | abs => absolute
  | absx => absoluteX
  | absy => absoluteY
  | ix => indirectX
  | dxInd => directPageXIndirect
  | dpiy => directPageIndirectY

/-- The number of operand bytes. -/
def size : Mode → Nat
  | dp | dpx | dxInd | dpiy => 1
  | abs | absx | absy => 2
  | ix => 0

/-- The address that the operand bytes and the registers give. The program
    counter of the machine is at the operand bytes. -/
def encoded (mode : Mode) (m : Machine) : Word :=
  match mode with
  | dp | dpiy => directPageEffective (m.aram m.cpu.pc) m.cpu
  | dpx | dxInd => directPageEffective (m.aram m.cpu.pc + m.cpu.x) m.cpu
  | abs => wordAt m.aram m.cpu.pc
  | absx => wordAt m.aram m.cpu.pc + m.cpu.x.setWidth 16
  | absy => wordAt m.aram m.cpu.pc + m.cpu.y.setWidth 16
  | ix => directPageEffective m.cpu.x m.cpu

/-- Is there a pointer at the encoded address? -/
def isIndirect : Mode → Bool
  | dxInd | dpiy => true
  | _ => false

/-- What is added to a pointer. -/
def index (mode : Mode) (c : Cpu) : Word :=
  match mode with
  | dpiy => c.y.setWidth 16
  | _ => 0

/-- The addresses of the bytes of the pointer. -/
def pointers (mode : Mode) (m : Machine) : List Word :=
  if mode.isIndirect then [mode.encoded m, mode.encoded m + 1] else []

/-- The effective address. -/
def address (mode : Mode) (m : Machine) : Word :=
  if mode.isIndirect then wordAt m.aram (mode.encoded m) + mode.index m.cpu else mode.encoded m

/-- The addresses of all bytes in memory that the mode reads. -/
def operands (mode : Mode) (m : Machine) : List Word := mode.address m :: mode.pointers m

end Mode

/-- The encoded address depends on the operand bytes, the index registers and the
    P flag. -/
theorem Mode.encoded_congr {mode : Mode} {m m' : Machine} (hx : m'.cpu.x = m.cpu.x)
    (hy : m'.cpu.y = m.cpu.y) (hp : m'.cpu.pswP = m.cpu.pswP)
    (hcode : ∀ k, k < mode.size →
      m'.aram (m'.cpu.pc + BitVec.ofNat 16 k) = m.aram (m.cpu.pc + BitVec.ofNat 16 k)) :
    mode.encoded m' = mode.encoded m := by
  have hbyte : 0 < mode.size → m'.aram m'.cpu.pc = m.aram m.cpu.pc := by
    intro h
    have h0 := hcode 0 h
    rwa [BitVec.add_zero, BitVec.add_zero] at h0
  have hword : mode.size = 2 → wordAt m'.aram m'.cpu.pc = wordAt m.aram m.cpu.pc := by
    intro h
    have h1 : m'.aram (m'.cpu.pc + 1) = m.aram (m.cpu.pc + 1) := hcode 1 (by omega)
    rw [wordAt, wordAt, h1, hbyte (by omega)]
  cases mode with
  | dp => simp only [encoded, directPageEffective, hbyte (by decide), hp]
  | dpx => simp only [encoded, directPageEffective, hbyte (by decide), hx, hp]
  | abs => exact hword rfl
  | absx => simp only [encoded, hword rfl, hx]
  | absy => simp only [encoded, hword rfl, hy]
  | ix => simp only [encoded, directPageEffective, hx, hp]
  | dxInd => simp only [encoded, directPageEffective, hbyte (by decide), hx, hp]
  | dpiy => simp only [encoded, directPageEffective, hbyte (by decide), hp]

section Helpers

variable {mode : Mode} {m m' : Machine} {addr word : Word}

/-- Loading a word leaves the CPU and the memory alone. -/
theorem memLoadWord_keeps (h : outcome (memLoadWord addr) m = some (word, m')) :
    m'.cpu = m.cpu ∧ m'.aram = m.aram := by
  simp only [memLoadWord, Program.outcome_bind, outcome_memLoad] at h
  obtain ⟨⟨lo, m₁⟩, hlo, h⟩ := Option.bind_eq_some_iff.mp h
  obtain ⟨⟨hi, m₂⟩, hhi, h⟩ := Option.bind_eq_some_iff.mp h
  obtain ⟨rfl, rfl⟩ := Prod.mk.inj (Option.some.inj h)
  obtain ⟨hcpu, haram⟩ := memLoad_keeps hlo
  obtain ⟨hcpu', haram'⟩ := memLoad_keeps hhi
  exact ⟨hcpu'.trans hcpu, haram'.trans haram⟩

theorem outcome_absolute (m : Machine) :
    outcome absolute m = some (wordAt m.aram m.cpu.pc, m.advance 2) := by
  rw [outcome, absolute, Program.exec_bind_of_returns (exec_fetchWord m)]
  rfl

/-- Without a pointer the encoded address is the effective one. -/
theorem outcome_helper_of_direct (h : mode.isIndirect = false) (m : Machine) :
    outcome mode.helper m = some (mode.encoded m, m.advance mode.size) := by
  cases mode with
  | dp => rfl
  | dpx => rfl
  | abs => exact outcome_absolute m
  | absx =>
    simp only [Mode.helper, absoluteX, Program.outcome_bind, outcome_absolute, Option.bind_some]
    rfl
  | absy =>
    simp only [Mode.helper, absoluteY, Program.outcome_bind, outcome_absolute, Option.bind_some]
    rfl
  | ix =>
    show some (Mode.ix.encoded m, m) = some (Mode.ix.encoded m, m.advance 0)
    rw [advance_zero]
  | dxInd => cases h
  | dpiy => cases h

/-- The pointer is loaded through the memory map. -/
theorem outcome_helper_of_indirect (h : mode.isIndirect = true) (m : Machine) :
    outcome mode.helper m =
      (outcome (memLoadWord (mode.encoded m)) (m.advance mode.size)).map fun p =>
        (p.1 + mode.index m.cpu, p.2) := by
  cases mode with
  | dxInd =>
    have hpage : outcome directPageX m = some (Mode.dxInd.encoded m, m.advance 1) := rfl
    have hadd : (fun p : Word × Machine => (p.1 + Mode.dxInd.index m.cpu, p.2)) = id := by
      funext p
      exact Prod.ext (BitVec.add_zero p.1) rfl
    simp only [Mode.helper, directPageXIndirect, Program.outcome_bind, hpage, Option.bind_some,
      hadd, Option.map_id, Mode.size]
    rfl
  | dpiy =>
    have hpage : outcome directPage m = some (Mode.dpiy.encoded m, m.advance 1) := rfl
    simp only [Mode.helper, directPageIndirectY, Program.outcome_bind, hpage, Option.bind_some,
      outcome_getCpu, Program.outcome_pure, Mode.size]
    generalize hword : outcome (memLoadWord (Mode.dpiy.encoded m)) (m.advance 1) = w
    cases w with
    | none => rfl
    | some p =>
      rw [Option.bind_some, Option.map_some, (memLoadWord_keeps hword).1]
      rfl
  | dp => cases h
  | dpx => cases h
  | abs => cases h
  | absx => cases h
  | absy => cases h
  | ix => cases h

/-- The bytes of a word in the direct page. -/
def PlainWord (m : Machine) : Prop :=
  Plain (Mode.dp.encoded m) ∧ Plain (Mode.dp.encoded m + 1)

instance (m : Machine) : Decidable (PlainWord m) := inferInstanceAs (Decidable (_ ∧ _))

/-- The word in the direct page. -/
def dpWord (m : Machine) : Word := wordAt m.aram (Mode.dp.encoded m)

theorem outcome_directPage (m : Machine) :
    outcome directPage m = some (Mode.dp.encoded m, m.advance 1) := rfl

/-- An operation on YA and a word outside of the registers. -/
theorem outcome_aluYa (h : PlainWord m) (alu : Word → Alu Unit) :
    outcome (aluYa alu) m =
      some ((), m.withCpu (alu (dpWord m) (m.advance 1).cpu).2) := by
  simp only [aluYa, Program.outcome_bind, outcome_directPage, Option.bind_some,
    outcome_memLoadWord _ h.1 h.2, outcome_onCpu]
  rfl

end Helpers

end SpuKit.Spc700
