import SpuKit.Spc700.PageOne

/-!
# Executing one instruction

The effect of an instruction on the machine, without the events on the way and
without the clocks that are updated between instructions. Outside of the
registers an access of the memory map is an access of audio RAM.

## Main definitions

- `Plain` — an address outside of the registers
- `Machine.poke`, `Machine.withCpu`, `Machine.advance` — the changes of a machine
  that instructions are made of
- `execute` — the instruction at the program counter

## Main results

- `memLoad_plain`, `memStore_plain` — an access outside of the registers
- `outcome_memLoadWord`, `outcome_memStoreWord` — two of them
- `iteration_executes` — a round of the loop executes one instruction
-/

namespace SpuKit

/-- The address is outside of 0xf0..0xff, where the registers are. -/
def Plain (addr : Word) : Prop := ¬ (0xf0 ≤ addr.toNat ∧ addr.toNat ≤ 0xff)

instance (addr : Word) : Decidable (Plain addr) := inferInstanceAs (Decidable (¬ _))

theorem plain_iff {addr : Word} : Plain addr ↔ ¬ apuMmioAddress addr = true := by
  refine not_congr ⟨fun ⟨hlo, hhi⟩ => ?_, fun h => ?_⟩
  · have haddr : addr = apuAddr ⟨addr.toNat - 0xf0, by omega⟩ := by
      apply BitVec.eq_of_toNat_eq
      rw [apuAddr, apuMmioBase, BitVec.toNat_add, BitVec.toNat_ofNat]
      show addr.toNat = (0xf0 + (addr.toNat - 0xf0) % 65536) % 65536
      omega
    rw [haddr]
    exact apuMmioAddress_apuAddr _
  · have hreg : ∀ reg : Fin 16, 0xf0 ≤ (apuAddr reg).toNat ∧ (apuAddr reg).toNat ≤ 0xff := by
      decide
    rw [(apuMmioAddress_iff addr).mp h]
    exact hreg _

/-- The two bytes of a word are different ones. -/
theorem next_ne (addr : Word) : addr + 1 ≠ addr := by
  intro h
  have hval : (addr + 1).toNat = (addr.toNat + 1) % 65536 := BitVec.toNat_add addr 1
  rw [h] at hval
  have hlt := addr.isLt
  omega

/-- The machine with a byte of audio RAM set. -/
def Machine.poke (m : Machine) (addr : Word) (byte : Byte) : Machine :=
  { m with aram := Function.update m.aram addr byte }

/-- The machine with other registers. -/
def Machine.withCpu (m : Machine) (c : Cpu) : Machine := { m with cpu := c }

/-- The machine with the program counter behind the next bytes. -/
def Machine.advance (m : Machine) (n : Nat) : Machine :=
  m.withCpu { m.cpu with pc := m.cpu.pc + BitVec.ofNat 16 n }

/-- A machine at a program at 0x200, with 0 in the rest of the memory. -/
def Machine.ofProgram (bytes : List Byte) (c : Cpu) : Machine :=
  { Machine.init with
    aram := fun addr => bytes.getD (addr - 0x200).toNat 0
    cpu := { c with pc := 0x200 } }

theorem ofProgram_opcode (op : Byte) (bytes : List Byte) (c : Cpu) :
    (Machine.ofProgram (op :: bytes) c).aram 0x200 = op := rfl

theorem ofProgram_operand (op operand : Byte) (bytes : List Byte) (c : Cpu) :
    (Machine.ofProgram (op :: operand :: bytes) c).aram 0x201 = operand := rfl

section Machine

variable (m : Machine) (addr : Word) (byte : Byte) (c c' : Cpu) (n k : Nat)

@[simp] theorem poke_cpu : (m.poke addr byte).cpu = m.cpu := rfl

@[simp] theorem poke_apu : (m.poke addr byte).apu = m.apu := rfl

@[simp] theorem poke_self : (m.poke addr byte).aram addr = byte := Function.update_self ..

@[simp] theorem withCpu_cpu : (m.withCpu c).cpu = c := rfl

@[simp] theorem withCpu_aram : (m.withCpu c).aram = m.aram := rfl

@[simp] theorem withCpu_apu : (m.withCpu c).apu = m.apu := rfl

@[simp] theorem withCpu_withCpu : (m.withCpu c).withCpu c' = m.withCpu c' := rfl

@[simp] theorem withCpu_poke : (m.withCpu c).poke addr byte = (m.poke addr byte).withCpu c := rfl

@[simp] theorem advance_aram : (m.advance n).aram = m.aram := rfl

@[simp] theorem advance_zero : m.advance 0 = m := by
  rw [Machine.advance, BitVec.add_zero]
  rfl

theorem advance_advance : (m.advance n).advance k = m.advance (n + k) := by
  rw [Machine.advance, Machine.advance, Machine.advance, withCpu_withCpu, BitVec.ofNat_add,
    ← BitVec.add_assoc]
  rfl

variable {m addr byte}

theorem poke_of_ne {other : Word} (h : other ≠ addr) :
    (m.poke addr byte).aram other = m.aram other :=
  Function.update_of_ne h ..

end Machine

section Access

variable {addr : Word}

/-- A load outside of the registers is a load from RAM. -/
theorem memLoad_plain (h : Plain addr) (m : Machine) :
    memLoad .fast addr m = some (m.aram addr, m) := by
  rw [memLoad_run, if_neg (plain_iff.mp h), loadMem, if_neg]
  rintro ⟨hbuild, -⟩
  cases hbuild

/-- A store outside of the registers is a store to RAM. -/
theorem memStore_plain (h : Plain addr) (byte : Byte) (m : Machine) :
    memStore .fast addr byte m = some ((), m.poke addr byte) := by
  have hctrl : ¬ storesCtrl addr = true := fun hc => plain_iff.mp h (Bool.and_eq_true_iff.mp hc).1
  rw [memStore_run, storeRegs, if_neg (plain_iff.mp h), Option.map_some, storeMem, if_neg hctrl]
  rfl

end Access

namespace Spc700

open Program (outcome)

section Outcomes

variable {α : Type} (m : Machine)

@[simp] theorem outcome_onCpu (x : Alu α) :
    outcome (onCpu x) m = some ((x m.cpu).1, m.withCpu (x m.cpu).2) := rfl

@[simp] theorem outcome_getCpu : outcome getCpu m = some (m.cpu, m) := rfl

@[simp] theorem outcome_modifyCpu (f : Cpu → Cpu) :
    outcome (modifyCpu f) m = some (⟨⟩, m.withCpu (f m.cpu)) := rfl

@[simp] theorem outcome_fetchInsn : outcome fetchInsn m = some (m.aram m.cpu.pc, m.advance 1) :=
  rfl

@[simp] theorem outcome_immediate : outcome immediate m = some (m.aram m.cpu.pc, m.advance 1) :=
  rfl

@[simp] theorem outcome_memLoad (addr : Word) :
    outcome (memLoad addr) m = SpuKit.memLoad .fast addr m := rfl

@[simp] theorem outcome_memStore (addr : Word) (byte : Byte) :
    outcome (memStore addr byte) m = SpuKit.memStore .fast addr byte m := rfl

@[simp] theorem outcome_onClocks (x : Machine → Traced ClockEvent Machine) :
    outcome (onClocks x) m = some ((), (x m).val) := rfl

variable {addr : Word}

theorem outcome_memLoadWord (h : Plain addr) (h' : Plain (addr + 1)) :
    outcome (memLoadWord addr) m = some (wordOf (m.aram (addr + 1)) (m.aram addr), m) := by
  have hlo : addr + 0 = addr := BitVec.add_zero addr
  simp only [memLoadWord, hlo, Program.outcome_bind, outcome_memLoad, memLoad_plain h,
    memLoad_plain h', Option.bind_some, Program.outcome_pure]

theorem outcome_memStoreWord (h : Plain addr) (h' : Plain (addr + 1)) (word : Word) :
    outcome (memStoreWord addr word) m =
      some ((), (m.poke addr (word.setWidth 8)).poke (addr + 1) ((word >>> 8).setWidth 8)) := by
  have hlo : addr + 0 = addr := BitVec.add_zero addr
  simp only [memStoreWord, hlo, Program.outcome_bind, outcome_memStore, memStore_plain h,
    memStore_plain h', Option.bind_some]

end Outcomes

-- ════════════════════════════════════════════════════════════════════════
-- Instructions
-- ════════════════════════════════════════════════════════════════════════

/-- The machine after the instruction at the program counter. There is none if
    the opcode has no handler or the instruction aborts. -/
def execute (m : Machine) : Option Machine :=
  (handlerOf (m.aram m.cpu.pc)).bind fun cb => (outcome cb (m.advance 1)).map Prod.snd

theorem execute_of_handler {m : Machine} {opcode : Byte} {cb : Insn Unit}
    (hop : m.aram m.cpu.pc = opcode) (hcb : handlerOf opcode = some cb) :
    execute m = (outcome cb (m.advance 1)).map Prod.snd := by
  rw [execute, hop, hcb, Option.bind_some]

/-- **Round**: one instruction is executed, and then the clocks are updated. -/
theorem iteration_executes (beyond : Nat → Byte) (cycle : BitVec 32) (m m' : Machine) :
    outcome (iteration beyond cycle) m = some (some (cycle + 4), m') ↔
      ∃ m₁, execute m = some m₁ ∧ (updateClocks beyond (cycle + 4) m₁).val = m' := by
  rw [iteration, Program.outcome_bind, outcome_fetchInsn, Option.bind_some, execute]
  cases handlerOf (m.aram m.cpu.pc) with
  | none => simp
  | some cb =>
    rw [Option.bind_some]
    simp only [Program.outcome_bind]
    cases outcome cb (m.advance 1) with
    | none => simp
    | some p => simp

end Spc700

end SpuKit
