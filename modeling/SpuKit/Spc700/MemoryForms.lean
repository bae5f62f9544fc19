import SpuKit.Spc700.AluBlock
import SpuKit.Spc700.Arithmetic

/-!
# Operations from memory to memory

The operations on two bytes have forms whose destination is in memory: d,d,
(X),(Y) and d,#i. The first two hand the source to the operation before the
destination, so that they subtract and compare the wrong way round.

## Main definitions

- `Form` — the forms, with their opcodes, addresses and handlers
- `OnA` — the operation on A, executed with other operands and the same flags
- `Form.Computes` — a form does to its destination what the operation does to A

## Main results

- `outcome_form` — which operand a form hands over first
- `alu_comm` — the order matters for SBC and CMP only
- `memory_forms_iff` — when a form does what the operation on A does
-/

namespace SpuKit.Spc700

open Program (outcome)

/-- The forms of an operation whose destination is in memory. -/
inductive Form where
  /-- d,d -/
  | dpDp
  /-- (X),(Y) -/
  | ixIy
  /-- d,#i -/
  | dpImm
  deriving DecidableEq

namespace Form

/-- The column of the opcode table. -/
def column : Form → Byte
  | dpDp => 0x09
  | ixIy => 0x19
  | dpImm => 0x18

def opcode (form : Form) (op : AluOp) : Byte := (op.row <<< 5) ||| form.column

/-- The number of operand bytes. -/
def size : Form → ℕ
  | dpDp | dpImm => 2
  | ixIy => 0

/-- The address of the destination, with the program counter at the operand
    bytes. The second one that is fetched is that of the destination. -/
def destination (form : Form) (m : Machine) : Word :=
  match form with
  | dpDp | dpImm => directPageEffective (m.aram (m.cpu.pc + 1)) m.cpu
  | ixIy => directPageEffective m.cpu.x m.cpu

/-- The addresses of the operands in memory. -/
def operands (form : Form) (m : Machine) : List Word :=
  form.destination m ::
    match form with
    | dpDp => [directPageEffective (m.aram m.cpu.pc) m.cpu]
    | ixIy => [directPageEffective m.cpu.y m.cpu]
    | dpImm => []

/-- The byte at the destination. -/
def target (form : Form) (m : Machine) : Byte := m.aram (form.destination m)

/-- The byte of the source. -/
def value (form : Form) (m : Machine) : Byte :=
  match form with
  | dpDp => m.aram (directPageEffective (m.aram m.cpu.pc) m.cpu)
  | ixIy => m.aram (directPageEffective m.cpu.y m.cpu)
  | dpImm => m.aram m.cpu.pc

/-- The operands, in the order in which the form hands them over: the source comes
    first but in d,#i, where the destination does. -/
def args (form : Form) (m : Machine) : Byte × Byte :=
  match form with
  | dpImm => (form.target m, form.value m)
  | _ => (form.value m, form.target m)

/-- The handler of the form. -/
def handler : Form → AluOp → Insn Unit
  | dpDp, .cmp => insnCmpDpDp
  | dpDp, op => aluDpDp op.alu
  | ixIy, .cmp => insnCmpIxIy
  | ixIy, op => aluIxIy op.alu
  | dpImm, .cmp => insnCmpDpImm
  | dpImm, .or => aluImmDp aluOr
  | dpImm, .and => aluImmDp aluAnd
  | dpImm, .eor => aluImmDp aluEor
  | dpImm, op => aluDpImm op.alu

end Form

theorem handlerOf_form (form : Form) (op : AluOp) :
    handlerOf (form.opcode op) = some (form.handler op) := by
  cases form <;> cases op <;> rfl

-- ════════════════════════════════════════════════════════════════════════
-- The order of the operands
-- ════════════════════════════════════════════════════════════════════════

/-- The operations with a first and a second operand. -/
def AluOp.IsOrdered (op : AluOp) : Prop := op = .sbc ∨ op = .cmp

instance (op : AluOp) : Decidable op.IsOrdered := inferInstanceAs (Decidable (_ ∨ _))

/-- The flags N, V, H, Z and C. -/
def aluFlags (c : Cpu) : Bool × Bool × Bool × Bool × Bool :=
  (c.negative, c.overflow, c.halfCarry, c.zero, c.carry)

section Order

variable {op : AluOp}

theorem adc_comm (a b : Byte) : adc a b = adc b a := by
  funext c
  have hcarry : BitVec.carry 8 a b c.carry = BitVec.carry 8 b a c.carry := by
    rw [BitVec.carry, BitVec.carry, Nat.add_comm (a.toNat % _)]
  have hhalf : BitVec.carry 4 a b c.carry = BitVec.carry 4 b a c.carry := by
    rw [BitVec.carry, BitVec.carry, Nat.add_comm (a.toNat % _)]
  rw [adc_run, adc_run, Adder.sum, Adder.sum, Adder.overflow, Adder.overflow, hcarry, hhalf,
    BitVec.add_comm a b, Int.add_comm a.toInt]

/-- **Order**: it matters for SBC and CMP only. -/
theorem alu_comm (h : ¬ op.IsOrdered) (x y : Byte) : op.alu x y = op.alu y x := by
  cases op with
  | or => simp only [AluOp.alu, aluOr, BitVec.or_comm x]
  | and => simp only [AluOp.alu, aluAnd, BitVec.and_comm x]
  | eor => simp only [AluOp.alu, aluEor, BitVec.xor_comm x]
  | adc => simp only [AluOp.alu, aluAdc, adc_comm x]
  | sbc => exact absurd (Or.inl rfl) h
  | cmp => exact absurd (Or.inr rfl) h

/-- SBC and CMP tell the operands apart by the carry flag. -/
theorem alu_swap (h : op.IsOrdered) (x y : Byte) (c : Cpu) :
    (op.alu x y c).2.carry = (op.alu y x c).2.carry ↔ x = y := by
  have hle : ∀ flag : Bool, (decide (y.toNat + flag.toNat ≤ x.toNat) =
      decide (x.toNat + flag.toNat ≤ y.toNat)) ↔ x = y := by
    intro flag
    rw [decide_eq_decide, BitVec.toNat_eq]
    cases flag <;> simp only [Bool.toNat_false, Bool.toNat_true] <;> omega
  obtain rfl | rfl := h
  · have hcarry : ∀ x y : Byte, (aluSbc x y c).2.carry =
        decide (y.toNat + (!c.carry).toNat ≤ x.toNat) := by
      intro x y
      have hnot := Adder.carry_not x y (!c.carry) (le_refl 8)
      rw [Bool.not_not, Nat.mod_eq_of_lt x.isLt, Nat.mod_eq_of_lt y.isLt] at hnot
      have hrun := congrArg (fun r => r.2.carry) (sbc_run x y c)
      exact hrun.trans hnot
    show (aluSbc x y c).2.carry = (aluSbc y x c).2.carry ↔ x = y
    rw [hcarry, hcarry, hle]
  · have hcarry : ∀ x y : Byte, (AluOp.cmp.alu x y c).2.carry =
        decide (y.toNat + false.toNat ≤ x.toNat) := by
      intro x y
      refine decide_eq_decide.mpr ?_
      rw [Bool.toNat_false]
      omega
    rw [hcarry, hcarry, hle]

/-- The result and the flags depend on the operands and on the flags. -/
theorem alu_congr (op : AluOp) (x y : Byte) {c c' : Cpu} (h : aluFlags c = aluFlags c') :
    (op.alu x y c).1 = (op.alu x y c').1 ∧
      aluFlags (op.alu x y c).2 = aluFlags (op.alu x y c').2 := by
  simp only [aluFlags, Prod.mk.injEq] at h
  obtain ⟨-, hover, hhalf, -, hcarry⟩ := h
  cases op <;>
    simp only [aluFlags, AluOp.alu, aluOr, aluAnd, aluEor, aluCmp, aluAdc, aluSbc, adc_run, sbc_run,
      setZn, setZ, bind, StateT.bind, modify, modifyGet, MonadStateOf.modifyGet, StateT.modifyGet,
      pure, hover, hhalf, hcarry] <;>
    exact ⟨rfl, rfl⟩

end Order

-- ════════════════════════════════════════════════════════════════════════
-- Forms
-- ════════════════════════════════════════════════════════════════════════

/-- A comparison stores nothing. -/
def AluOp.storing (op : AluOp) (m : Machine) (addr : Word) (result : Byte) : Machine :=
  if op = .cmp then m else m.poke addr result

/-- What a form leaves in memory and in the registers. -/
def Form.finish (form : Form) (op : AluOp) (m : Machine) : Machine :=
  (op.storing (m.advance form.size) (form.destination m)
    (op.alu (form.args m).1 (form.args m).2 (m.advance form.size).cpu).1).withCpu
    (op.alu (form.args m).1 (form.args m).2 (m.advance form.size).cpu).2

section Form

variable {form : Form} {op : AluOp} {m : Machine}

theorem outcome_directPageAs (place : Place) (m : Machine) :
    outcome (directPageAs place) m =
      some (directPageEffective (m.aram m.cpu.pc) m.cpu, m.advance 1) := rfl

theorem outcome_indirectX (m : Machine) :
    outcome indirectX m = some (directPageEffective m.cpu.x m.cpu, m) := rfl

theorem outcome_indirectY (m : Machine) :
    outcome indirectY m = some (directPageEffective m.cpu.y m.cpu, m) := rfl

/-- OR, AND and EOR d,#i -/
theorem outcome_aluImmDp (op : AluOp) (hplain : Plain (Mode.dp.encoded (m.advance 1)))
    (hop : ¬ op.IsOrdered) :
    outcome (aluImmDp op.alu) m = some ((), Form.dpImm.finish op m) := by
  simp only [aluImmDp, Program.outcome_bind, outcome_immediate, outcome_directPage,
    Option.bind_some, outcome_memLoad, outcome_onCpu, outcome_memStore, memLoad_plain hplain,
    memStore_plain hplain, advance_advance, alu_comm hop (m.aram m.cpu.pc)]
  cases op with
  | cmp => exact absurd (Or.inr rfl) hop
  | _ => rfl

/-- ADC and SBC d,#i -/
theorem outcome_aluDpImm (op : AluOp) (hplain : Plain (Mode.dp.encoded (m.advance 1)))
    (hop : op ≠ .cmp) :
    outcome (aluDpImm op.alu) m = some ((), Form.dpImm.finish op m) := by
  simp only [aluDpImm, Program.outcome_bind, outcome_immediate, outcome_directPage,
    Option.bind_some, outcome_memLoad, outcome_onCpu, outcome_memStore, memLoad_plain hplain,
    memStore_plain hplain, advance_advance]
  rw [Form.finish, AluOp.storing, if_neg hop]
  rfl

/-- **Form**: the operation is applied to the operands, and its result is stored
    at the destination. -/
theorem outcome_form (hplain : ∀ addr ∈ form.operands m, Plain addr) (op : AluOp) :
    outcome (form.handler op) m = some ((), form.finish op m) := by
  have hdst := hplain _ (List.mem_cons_self ..)
  cases form with
  | dpDp =>
    have hsrc : Plain (directPageEffective (m.aram m.cpu.pc) m.cpu) :=
      hplain _ (List.mem_cons_of_mem _ (List.mem_singleton_self _))
    have hdst' : Plain (directPageEffective ((m.advance 1).aram (m.advance 1).cpu.pc)
      (m.advance 1).cpu) := hdst
    cases op <;>
      simp only [Form.handler, aluDpDp, insnCmpDpDp, Program.outcome_bind, outcome_directPageAs,
        Option.bind_some, outcome_memLoad, outcome_onCpu, outcome_memStore, memLoad_plain hsrc,
        memLoad_plain hdst', memStore_plain hdst', advance_advance] <;> rfl
  | ixIy =>
    have hsrc : Plain (directPageEffective m.cpu.y m.cpu) :=
      hplain _ (List.mem_cons_of_mem _ (List.mem_singleton_self _))
    have hdst' : Plain (directPageEffective m.cpu.x m.cpu) := hdst
    rw [Form.finish, Form.size, advance_zero]
    cases op <;>
      simp only [Form.handler, aluIxIy, insnCmpIxIy, Program.outcome_bind, outcome_indirectX,
        outcome_indirectY, Option.bind_some, outcome_memLoad, outcome_onCpu, outcome_memStore,
        memLoad_plain hsrc, memLoad_plain hdst', memStore_plain hdst'] <;> rfl
  | dpImm =>
    have hdst' : Plain (Mode.dp.encoded (m.advance 1)) := hdst
    cases op with
    | or => exact outcome_aluImmDp .or hdst' (by decide)
    | and => exact outcome_aluImmDp .and hdst' (by decide)
    | eor => exact outcome_aluImmDp .eor hdst' (by decide)
    | adc => exact outcome_aluDpImm .adc hdst' (by decide)
    | sbc => exact outcome_aluDpImm .sbc hdst' (by decide)
    | cmp =>
      simp only [Form.handler, insnCmpDpImm, Program.outcome_bind, outcome_immediate,
        outcome_directPage, Option.bind_some, outcome_memLoad, outcome_onCpu,
        memLoad_plain hdst', advance_advance]
      rfl

/-- The operation on A is executed from `n` to `n'`, with A and the operand as
    given and the flags of `c`. -/
structure OnA (op : AluOp) (a operand : Byte) (c : Cpu) (n n' : Machine) : Prop where
  a : n.cpu.a = a
  flags : aluFlags n.cpu = aluFlags c
  operand : ∃ src n₁, n.aram n.cpu.pc = op.opcode src ∧
    outcome src.fetch (n.advance 1) = some (operand, n₁)
  executes : execute n = some n'

/-- The form does to its destination what the operation does to A, and a
    comparison leaves it as it is. The program counter is at the opcode. -/
def Form.Computes (form : Form) (op : AluOp) (m : Machine) : Prop :=
  ∃ m', execute m = some m' ∧
    ∀ n n', OnA op (form.target (m.advance 1)) (form.value (m.advance 1)) m.cpu n n' →
      aluFlags m'.cpu = aluFlags n'.cpu ∧
      m'.aram = if op = .cmp then m.aram
        else Function.update m.aram (form.destination (m.advance 1)) n'.cpu.a

/-- The registers after the operation on A. -/
theorem OnA.result {a operand : Byte} {c : Cpu} {n n' : Machine} (h : OnA op a operand c n n') :
    n'.cpu.a = (op.alu a operand c).1 ∧ aluFlags n'.cpu = aluFlags (op.alu a operand c).2 := by
  obtain ⟨src, n₁, hop, hfetch⟩ := h.operand
  have hn' := h.executes
  rw [execute_alu hop, hfetch, Option.map_some] at hn'
  have ha : n₁.cpu.a = a := by
    rw [fetch_keeps hfetch]
    exact h.a
  have hflags : aluFlags n₁.cpu = aluFlags c := by
    rw [fetch_keeps hfetch]
    exact h.flags
  obtain ⟨hresult, hflags'⟩ := alu_congr op a operand hflags
  rw [← Option.some.inj hn', withCpu_cpu, ← hresult, ← hflags', ← ha]
  exact ⟨rfl, rfl⟩

/-- There is such an operation, with an immediate operand. -/
theorem exists_onA (op : AluOp) (a operand : Byte) (c : Cpu) :
    ∃ n n', OnA op a operand c n n' := by
  let n : Machine := .ofProgram [op.opcode .imm, operand] { c with a := a }
  have hop : n.aram n.cpu.pc = op.opcode .imm := ofProgram_opcode ..
  have hoperand : n.aram 0x201 = operand := ofProgram_operand ..
  have hpc : (n.advance 1).cpu.pc = 0x201 := rfl
  have hfetch : outcome Source.imm.fetch (n.advance 1) =
      some (operand, (n.advance 1).advance 1) := by
    rw [Source.fetch, outcome_immediate, hpc, advance_aram, hoperand]
  exact ⟨n, _, rfl, rfl, ⟨.imm, _, hop, hfetch⟩, execute_alu hop⟩

/-- The forms whose order does not matter. -/
theorem alu_args (h : op.IsOrdered → form = .dpImm ∨ form.target m = form.value m) :
    op.alu (form.args m).1 (form.args m).2 = op.alu (form.target m) (form.value m) := by
  by_cases hop : op.IsOrdered
  · obtain rfl | heq := h hop
    · rfl
    · cases form with
      | dpImm => rfl
      | dpDp => exact congrArg₂ op.alu heq.symm heq
      | ixIy => exact congrArg₂ op.alu heq.symm heq
  · cases form with
    | dpImm => rfl
    | _ => exact alu_comm hop _ _

theorem execute_form (hop : m.aram m.cpu.pc = form.opcode op)
    (hplain : ∀ addr ∈ form.operands (m.advance 1), Plain addr) :
    execute m = some (form.finish op (m.advance 1)) := by
  rw [execute_of_handler hop (handlerOf_form form op), outcome_form hplain, Option.map_some]

/-- A form that hands over the operands in the other order is told apart. -/
theorem Form.Computes.same_bytes (h : form.Computes op m) (hop : m.aram m.cpu.pc = form.opcode op)
    (hplain : ∀ addr ∈ form.operands (m.advance 1), Plain addr) (hordered : op.IsOrdered) :
    form = .dpImm ∨ form.target (m.advance 1) = form.value (m.advance 1) := by
  obtain ⟨m', hm', honA⟩ := h
  obtain rfl := Option.some.inj (hm'.symm.trans (execute_form hop hplain))
  by_contra hne
  obtain ⟨hform, hbytes⟩ := not_or.mp hne
  have hargs : form.args (m.advance 1) =
      (form.value (m.advance 1), form.target (m.advance 1)) := by
    cases form with
    | dpImm => exact absurd rfl hform
    | _ => rfl
  have hflags : aluFlags ((m.advance 1).advance form.size).cpu = aluFlags m.cpu := rfl
  obtain ⟨n, n', hn⟩ := exists_onA op (form.target (m.advance 1)) (form.value (m.advance 1)) m.cpu
  have hresult := (honA n n' hn).1.trans hn.result.2
  rw [Form.finish, withCpu_cpu, (alu_congr op _ _ hflags).2, hargs] at hresult
  have hcarry := congrArg (fun flags => flags.2.2.2.2) hresult
  exact hbytes ((alu_swap hordered _ _ m.cpu).mp hcarry).symm

/-- A form computes what it should when the order does not matter. -/
theorem Form.computes (hop : m.aram m.cpu.pc = form.opcode op)
    (hplain : ∀ addr ∈ form.operands (m.advance 1), Plain addr)
    (h : op.IsOrdered → form = .dpImm ∨ form.target (m.advance 1) = form.value (m.advance 1)) :
    form.Computes op m := by
  refine ⟨_, execute_form hop hplain, fun n n' hn => ?_⟩
  have hflags : aluFlags ((m.advance 1).advance form.size).cpu = aluFlags m.cpu := rfl
  have halu := alu_congr op (form.target (m.advance 1)) (form.value (m.advance 1)) hflags
  obtain ⟨hresult, hflags'⟩ := hn.result
  rw [Form.finish, alu_args h, withCpu_cpu, withCpu_aram, hflags', hresult, halu.1, halu.2]
  refine ⟨rfl, ?_⟩
  rw [AluOp.storing]
  split <;> rfl

end Form

/-- **Forms on memory**: they do to the destination what the operation on A does
    to A, but for SBC and CMP on two different bytes in memory. -/
theorem memory_forms_iff (form : Form) (op : AluOp) (m : Machine)
    (hop : m.aram m.cpu.pc = form.opcode op)
    (hplain : ∀ addr ∈ form.operands (m.advance 1), Plain addr) :
    form.Computes op m ↔
      (op = .sbc ∨ op = .cmp →
        form = .dpImm ∨ form.target (m.advance 1) = form.value (m.advance 1)) :=
  ⟨fun h => h.same_bytes hop hplain, Form.computes hop hplain⟩

/-- An operation $11,$10, with 1 at 0x11 and 0 at 0x10 -/
def formSample (op : AluOp) : Machine :=
  (Machine.ofProgram [Form.dpDp.opcode op, 0x10, 0x11] .init).poke 0x11 1

theorem plain_formSample (op : AluOp) :
    ∀ addr ∈ Form.dpDp.operands ((formSample op).advance 1), Plain addr := by
  refine List.forall_mem_cons.mpr ⟨?_, List.forall_mem_cons.mpr ⟨?_, fun _ h => by cases h⟩⟩
  · cases op <;> decide
  · cases op <;> decide

/-- OR $11,$10 -/
theorem memory_forms_sample : Form.dpDp.Computes .or (formSample .or) :=
  (memory_forms_iff .dpDp .or _ rfl (plain_formSample _)).mpr (by decide)

/-- CMP $11,$10 compares the source with the destination, and not the destination
    with the source. -/
theorem cmp_swapped : ¬ ∀ (form : Form) (op : AluOp) (m : Machine),
    m.aram m.cpu.pc = form.opcode op →
    (∀ addr ∈ form.operands (m.advance 1), Plain addr) → form.Computes op m := by
  intro h
  have hcomputes := h .dpDp .cmp (formSample .cmp) rfl (plain_formSample _)
  have hbytes : ¬ Form.dpDp.target ((formSample .cmp).advance 1) =
      Form.dpDp.value ((formSample .cmp).advance 1) := by
    decide
  exact (hcomputes.same_bytes rfl (plain_formSample _) (Or.inr rfl)).elim (by decide) hbytes

end SpuKit.Spc700
