import Mathlib.Tactic.FinCases
import SpuKit.Spc700.Arithmetic
import SpuKit.Spc700.Modes

/-!
# Conditional branches

A conditional branch reads an operand and a displacement, and sets the program
counter. Two of them, the forms of DBNZ, also count their operand down. None is
meant to touch a flag, and only DBNZ d,r does.

## Main definitions

- `Branch` — the conditional branches, with their opcodes, operands and handlers
- `Branch.counted` — the operand of DBNZ is counted down
- `Undisturbed` — nothing has changed but the program counter and that operand

## Main results

- `execute_branch` — where a branch goes, and what it leaves
- `branch_undisturbed_iff` — which branches leave the flags alone
-/

namespace SpuKit.Spc700

open Program (outcome)

/-- The conditional branches that have a handler. -/
inductive Branch where
  | bpl
  | bmi
  | bcc
  | bcs
  | bne
  | beq
  | bbs (bit : Fin 8)
  | bbc (bit : Fin 8)
  /-- CBNE d,r -/
  | cbneDp
  /-- CBNE d+X,r -/
  | cbneDpx
  /-- DBNZ d,r -/
  | dbnzDp
  /-- DBNZ Y,r -/
  | dbnzY
  deriving DecidableEq

/-- Where a branch goes whose displacement follows the other operand bytes. -/
def displaced (taken : Bool) (size : ℕ) (m : Machine) : Word :=
  let next := m.cpu.pc + BitVec.ofNat 16 (size + 1)
  if taken then next + (m.aram (m.cpu.pc + BitVec.ofNat 16 size)).signExtend 16 else next

namespace Branch

def opcode : Branch → Byte
  | bpl => 0x10
  | bmi => 0x30
  | bcc => 0x90
  | bcs => 0xb0
  | bne => 0xd0
  | beq => 0xf0
  | bbs bit => (BitVec.ofNat 8 bit <<< 5) ||| 0x03
  | bbc bit => (BitVec.ofNat 8 bit <<< 5) ||| 0x13
  | cbneDp => 0x2e
  | cbneDpx => 0xde
  | dbnzDp => 0x6e
  | dbnzY => 0xfe

/-- The handler of the branch. -/
def handler : Branch → Insn Unit
  | bpl => insnBpl
  | bmi => insnBmi
  | bcc => insnBcc
  | bcs => insnBcs
  | bne => insnBne
  | beq => insnBeq
  | bbs bit => bbsDb bit
  | bbc bit => bbcDb bit
  | cbneDp => insnCbneDpRel
  | cbneDpx => insnCbneDpxRel
  | dbnzDp => insnDbnzDp
  | dbnzY => insnDbnzY

/-- The addressing mode of the operand in memory. -/
def mode : Branch → Option Mode
  | bbs _ | bbc _ | cbneDp | dbnzDp => some .dp
  | cbneDpx => some .dpx
  | _ => none

/-- The address of the operand in memory, with the program counter at the operand
    bytes. -/
def operands (b : Branch) (m : Machine) : List Word := b.mode.toList.map fun mode => mode.encoded m

/-- The number of operand bytes in front of the displacement. -/
def size (b : Branch) : ℕ := if b.mode.isSome then 1 else 0

/-- The byte at the operand of the forms with d. -/
def dpByte (m : Machine) : Byte := m.aram (Mode.dp.encoded m)

/-- Is the branch taken? The program counter is at the operand bytes. -/
def taken (b : Branch) (m : Machine) : Bool :=
  match b with
  | bpl => !m.cpu.negative
  | bmi => m.cpu.negative
  | bcc => !m.cpu.carry
  | bcs => m.cpu.carry
  | bne => !m.cpu.zero
  | beq => m.cpu.zero
  | bbs bit => (dpByte m).getLsbD bit
  | bbc bit => !(dpByte m).getLsbD bit
  | cbneDp => dpByte m != m.cpu.a
  | cbneDpx => m.aram (Mode.dpx.encoded m) != m.cpu.a
  | dbnzDp => dpByte m != 1
  | dbnzY => m.cpu.y != 1

/-- Where the CPU goes on. -/
def target (b : Branch) (m : Machine) : Word := displaced (b.taken m) b.size m

/-- The machine with the operand of DBNZ counted down. -/
def counted (b : Branch) (m : Machine) : Machine :=
  match b with
  | dbnzDp => m.poke (Mode.dp.encoded m) (dpByte m - 1)
  | dbnzY => m.withCpu { m.cpu with y := m.cpu.y - 1 }
  | _ => m

/-- What a branch leaves: DBNZ d,r sets Z from the count. -/
def finish (b : Branch) (m : Machine) : Machine :=
  (b.counted m).withCpu { (b.counted m).cpu with
    pc := b.target m
    zero := if b = dbnzDp then dpByte m == 1 else m.cpu.zero }

end Branch

theorem handlerOf_branch (b : Branch) : handlerOf b.opcode = some b.handler := by
  cases b with
  | bbs bit => fin_cases bit <;> rfl
  | bbc bit => fin_cases bit <;> rfl
  | _ => rfl

-- ════════════════════════════════════════════════════════════════════════
-- One branch
-- ════════════════════════════════════════════════════════════════════════

section Branch

variable {b : Branch} {m m' : Machine}

theorem outcome_relative (m : Machine) :
    outcome relative m = some (m.aram m.cpu.pc, m.advance 1) := rfl

theorem outcome_branchWhen (taken : Bool) (disp : Byte) (m : Machine) :
    outcome (branchWhen taken disp) m = some ((), m.withCpu { m.cpu with
      pc := if taken then m.cpu.pc + disp.signExtend 16 else m.cpu.pc }) := by
  cases taken <;> rfl

/-- The branches on a flag. -/
theorem outcome_branchIf (cond : Cpu → Bool) (m : Machine) :
    outcome (branchIf cond) m = some ((), m.withCpu { m.cpu with
      pc := displaced (cond (m.advance 1).cpu) 0 m }) := by
  simp only [branchIf, Program.outcome_bind, outcome_relative, Option.bind_some, outcome_getCpu,
    outcome_branchWhen, displaced, BitVec.add_zero]
  rfl

/-- The branches on a bit of the direct page. -/
theorem outcome_branchOnBit (hplain : Plain (Mode.dp.encoded m)) (wanted : Bool) (bit : Fin 8) :
    outcome (branchOnBit wanted bit) m = some ((), m.withCpu { m.cpu with
      pc := displaced ((Branch.dpByte m).getLsbD bit == wanted) 1 m }) := by
  have hbit : (m.aram (Mode.dp.encoded m) &&& ((1 : Byte) <<< bit.val) != 0) =
      (Branch.dpByte m).getLsbD bit := and_twoPow_ne_zero bit.isLt _
  simp only [branchOnBit, Program.outcome_bind, outcome_directPage, outcome_relative,
    Option.bind_some, outcome_memLoad, memLoad_plain hplain, outcome_branchWhen, advance_advance,
    advance_aram, hbit]
  rfl

/-- CBNE compares an operand with A. -/
theorem outcome_cbne {mode : Mode} (hmode : mode.isIndirect = false) (hsize : mode.size = 1)
    (hplain : Plain (mode.encoded m)) :
    outcome (cbne mode.helper) m = some ((), m.withCpu { m.cpu with
      pc := displaced (m.aram (mode.encoded m) != m.cpu.a) 1 m }) := by
  simp only [cbne, Program.outcome_bind, outcome_helper_of_direct hmode, hsize, outcome_relative,
    Option.bind_some, outcome_memLoad, memLoad_plain hplain, outcome_getCpu, outcome_branchWhen,
    advance_advance, advance_aram]
  rfl

theorem sub_one_ne_zero (byte : Byte) : (byte - 1 != 0) = (byte != 1) := by
  rw [bne, bne, Bool.eq_iff_iff]
  simp [BitVec.sub_eq_iff_eq_add]

/-- DBNZ d,r sets Z before it stores the count. -/
theorem outcome_dbnzDp (hplain : Plain (Mode.dp.encoded m)) :
    outcome insnDbnzDp m = some ((), (m.poke (Mode.dp.encoded m) (Branch.dpByte m - 1)).withCpu
      { m.cpu with
        pc := displaced (Branch.dpByte m != 1) 1 m
        zero := Branch.dpByte m == 1 }) := by
  have hne : (m.aram (Mode.dp.encoded m) - 1 != 0) = (Branch.dpByte m != 1) := sub_one_ne_zero _
  have heq : (m.aram (Mode.dp.encoded m) - 1 == 0) = (Branch.dpByte m == 1) := by
    rw [← Bool.not_inj_iff]
    exact hne
  simp only [insnDbnzDp, Program.outcome_bind, outcome_directPage, outcome_relative,
    Option.bind_some, outcome_memLoad, memLoad_plain hplain, outcome_modifyCpu,
    outcome_branchWhen, outcome_memStore, memStore_plain hplain, advance_advance, advance_aram,
    hne, heq]
  rfl

theorem outcome_dbnzY (m : Machine) :
    outcome insnDbnzY m = some ((), m.withCpu { m.cpu with
      pc := displaced (m.cpu.y != 1) 0 m
      y := m.cpu.y - 1 }) := by
  simp only [insnDbnzY, Program.outcome_bind, outcome_getCpu, outcome_relative, Option.bind_some,
    outcome_branchWhen, outcome_modifyCpu, sub_one_ne_zero, displaced, BitVec.add_zero]
  rfl

/-- What the handler does, when the operand in memory is outside of the registers. -/
theorem outcome_branch (b : Branch) (hplain : ∀ addr ∈ b.operands m, Plain addr) :
    outcome b.handler m = some ((), b.finish m) := by
  cases b with
  | bpl | bmi | bcc | bcs | bne | beq => exact outcome_branchIf _ m
  | bbs bit =>
    refine (outcome_branchOnBit (hplain _ (List.mem_singleton_self _)) true bit).trans ?_
    rw [beq_true]
    rfl
  | bbc bit =>
    refine (outcome_branchOnBit (hplain _ (List.mem_singleton_self _)) false bit).trans ?_
    rw [beq_false]
    rfl
  | cbneDp =>
    have hcbne := outcome_cbne (rfl : Mode.dp.isIndirect = false) rfl
      (hplain _ (List.mem_singleton_self _))
    exact hcbne
  | cbneDpx =>
    have hcbne := outcome_cbne (rfl : Mode.dpx.isIndirect = false) rfl
      (hplain _ (List.mem_singleton_self _))
    exact hcbne
  | dbnzDp => exact outcome_dbnzDp (hplain _ (List.mem_singleton_self _))
  | dbnzY => exact outcome_dbnzY m

/-- **Branch**: the program counter is set, the operand of DBNZ counted down, and Z
    set by DBNZ d,r. -/
theorem execute_branch (hop : m.aram m.cpu.pc = b.opcode)
    (hplain : ∀ addr ∈ b.operands (m.advance 1), Plain addr) :
    execute m = some (b.finish (m.advance 1)) := by
  rw [execute_of_handler hop (handlerOf_branch b), outcome_branch b hplain]
  rfl

end Branch

-- ════════════════════════════════════════════════════════════════════════
-- Flags
-- ════════════════════════════════════════════════════════════════════════

/-- From `m` to `m'` nothing has changed but the program counter and the operand
    that DBNZ counts down. -/
structure Undisturbed (b : Branch) (m m' : Machine) : Prop where
  cpu : m'.cpu = { m.cpu with
    pc := m'.cpu.pc
    y := if b = .dbnzY then m.cpu.y - 1 else m.cpu.y }
  memory : m'.aram =
    if b = .dbnzDp then
      Function.update m.aram (Mode.dp.encoded (m.advance 1)) (Branch.dpByte (m.advance 1) - 1)
    else m.aram
  others : m' = { m with cpu := m'.cpu, aram := m'.aram }

/-- What a branch leaves is undisturbed if Z is. -/
theorem undisturbed_finish (b : Branch) (m : Machine) :
    Undisturbed b m (b.finish (m.advance 1)) ↔
      (b.finish (m.advance 1)).cpu.zero = m.cpu.zero := by
  constructor
  · intro h
    rw [h.cpu]
  · intro hzero
    cases b with
    | dbnzDp => exact ⟨Cpu.ext rfl rfl rfl rfl rfl rfl hzero rfl rfl rfl rfl rfl rfl, rfl, rfl⟩
    | _ => exact ⟨rfl, rfl, rfl⟩

theorem finish_zero (b : Branch) (m : Machine) :
    (b.finish m).cpu.zero = if b = .dbnzDp then Branch.dpByte m == 1 else m.cpu.zero := rfl

/-- **Frame of a branch**: it leaves the flags, the registers and the memory alone,
    but for the operand that DBNZ counts down. DBNZ d,r sets Z when the count
    reaches 0 and clears it otherwise, so it does so if Z was like that before. -/
theorem branch_undisturbed_iff (b : Branch) (m : Machine) (hop : m.aram m.cpu.pc = b.opcode)
    (hplain : ∀ addr ∈ b.operands (m.advance 1), Plain addr) :
    (∃ m', execute m = some m' ∧ Undisturbed b m m') ↔
      (b = .dbnzDp → (m.cpu.zero = true ↔ Branch.dpByte (m.advance 1) = 1)) := by
  have hrun : (∃ m', some (b.finish (m.advance 1)) = some m' ∧ Undisturbed b m m') ↔
      Undisturbed b m (b.finish (m.advance 1)) :=
    ⟨fun ⟨m', heq, h⟩ => Option.some.inj heq ▸ h, fun h => ⟨_, rfl, h⟩⟩
  rw [execute_branch hop hplain, hrun, undisturbed_finish, finish_zero]
  by_cases hb : b = .dbnzDp
  · rw [if_pos hb, Bool.eq_iff_iff, beq_iff_eq]
    exact ⟨fun h _ => h.symm, fun h => (h hb).symm⟩
  · rw [if_neg hb]
    exact ⟨fun _ h => absurd h hb, fun _ => rfl⟩

/-- DBNZ $10,$203 with 0 at 0x10, and Z set. -/
def dbnzAfterZero : Machine := Machine.ofProgram [0x6e, 0x10, 0x00] { Cpu.init with zero := true }

theorem opcode_dbnzAfterZero :
    dbnzAfterZero.aram dbnzAfterZero.cpu.pc = Branch.dbnzDp.opcode := rfl

theorem plain_dbnzAfterZero :
    ∀ addr ∈ Branch.dbnzDp.operands (dbnzAfterZero.advance 1), Plain addr := by
  refine List.forall_mem_cons.mpr ⟨?_, fun _ h => by cases h⟩
  decide

theorem branch_undisturbed_dbnz :
    (∃ m', execute dbnzAfterZero = some m' ∧ Undisturbed .dbnzDp dbnzAfterZero m') ↔
      (Branch.dbnzDp = .dbnzDp → (dbnzAfterZero.cpu.zero = true ↔
        Branch.dpByte (dbnzAfterZero.advance 1) = 1)) :=
  branch_undisturbed_iff .dbnzDp dbnzAfterZero opcode_dbnzAfterZero plain_dbnzAfterZero

/-- Z is cleared there, although the branch is taken. -/
theorem branch_disturbs_zero : ¬ ∀ (b : Branch) (m : Machine), m.aram m.cpu.pc = b.opcode →
    (∀ addr ∈ b.operands (m.advance 1), Plain addr) →
    ∃ m', execute m = some m' ∧ Undisturbed b m m' := by
  intro h
  obtain ⟨m', hrun, hsame⟩ := h .dbnzDp dbnzAfterZero opcode_dbnzAfterZero plain_dbnzAfterZero
  rw [execute_branch opcode_dbnzAfterZero plain_dbnzAfterZero] at hrun
  obtain rfl := Option.some.inj hrun
  rw [undisturbed_finish, finish_zero] at hsame
  exact absurd hsame (by decide)

end SpuKit.Spc700
