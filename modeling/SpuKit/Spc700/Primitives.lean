import SpuKit.Lib.Monitor
import SpuKit.Spc700.Run

/-!
# What the instructions are put together from

Every handler is put together from eight primitives: it fetches bytes, records
what it has fetched or done, goes through the memory map, and computes on the
registers. The loop adds the clocks. What holds of the primitives and is kept by
sequences holds of every run of the loop.

## Main definitions

- `Primitive` — the primitives
- `Built` — a computation put together from them

## Main results

- `handlerOf_built` — every handler
- `runInsns_built` — every number of rounds of the loop
-/

namespace SpuKit.Spc700

/-- What the instructions and the loop are put together from. -/
inductive Primitive (beyond : Nat → Byte) : (α : Type) → Insn α → Prop
  | fetch : Primitive beyond Byte fetchInsn
  | operand (o : Operand) : Primitive beyond Unit (Program.emit (.operand o))
  | branchTaken : Primitive beyond Unit (Program.emit .branchTaken)
  | pushed (word : Word) : Primitive beyond Unit (Program.emit (.pushWord word))
  | load (addr : Word) : Primitive beyond Byte (memLoad addr)
  | store (addr : Word) (byte : Byte) : Primitive beyond Unit (memStore addr byte)
  | onCpu {α : Type} (x : Alu α) : Primitive beyond α (onCpu x)
  | clocks (cycle : BitVec 32) : Primitive beyond Unit (onClocks (updateClocks beyond cycle))

/-- A computation put together from the primitives. -/
abbrev Built (beyond : Nat → Byte) {α : Type} (x : Insn α) : Prop :=
  Program.Generated (Primitive beyond) x

section Modes

variable {beyond : Nat → Byte}

theorem built_pure {α : Type} (a : α) : Built beyond (pure a) := .pure a

theorem built_fetchInsn : Built beyond fetchInsn := .primitive .fetch

theorem built_operand (o : Operand) : Built beyond (Program.emit (.operand o)) :=
  .primitive (.operand o)

theorem built_memLoad (addr : Word) : Built beyond (memLoad addr) := .primitive (.load addr)

theorem built_memStore (addr : Word) (byte : Byte) : Built beyond (memStore addr byte) :=
  .primitive (.store addr byte)

theorem built_onCpu {α : Type} (x : Alu α) : Built beyond (onCpu x) := .primitive (.onCpu x)

theorem built_getCpu : Built beyond getCpu := built_onCpu _

theorem built_modifyCpu (f : Cpu → Cpu) : Built beyond (modifyCpu f) := built_onCpu _

theorem built_relative : Built beyond relative :=
  built_fetchInsn.bind fun _ => (built_operand _).bind fun _ => built_pure _

theorem built_immediate : Built beyond immediate :=
  built_fetchInsn.bind fun _ => (built_operand _).bind fun _ => built_pure _

theorem built_directPageAs (place : Place) : Built beyond (directPageAs place) :=
  built_fetchInsn.bind fun _ => (built_operand _).bind fun _ =>
    built_getCpu.bind fun _ => built_pure _

theorem built_directPage : Built beyond directPage := built_directPageAs .only

theorem built_directPageX : Built beyond directPageX :=
  built_fetchInsn.bind fun _ => (built_operand _).bind fun _ =>
    built_getCpu.bind fun _ => built_pure _

theorem built_memLoadWord (addr : Word) : Built beyond (memLoadWord addr) :=
  (built_memLoad _).bind fun _ => (built_memLoad _).bind fun _ => built_pure _

theorem built_memStoreWord (addr word : Word) : Built beyond (memStoreWord addr word) :=
  (built_memStore _ _).bind fun _ => built_memStore _ _

theorem built_directPageIndirectY : Built beyond directPageIndirectY :=
  built_directPage.bind fun _ => (built_memLoadWord _).bind fun _ =>
    built_getCpu.bind fun _ => built_pure _

theorem built_directPageXIndirect : Built beyond directPageXIndirect :=
  built_directPageX.bind fun _ => built_memLoadWord _

theorem built_indirectX : Built beyond indirectX := built_getCpu.bind fun _ => built_pure _

theorem built_indirectY : Built beyond indirectY := built_getCpu.bind fun _ => built_pure _

theorem built_fetchWord : Built beyond fetchWord :=
  built_fetchInsn.bind fun _ => built_fetchInsn.bind fun _ => built_pure _

theorem built_absolute : Built beyond absolute :=
  built_fetchWord.bind fun _ => (built_operand _).bind fun _ => built_pure _

theorem built_absoluteX : Built beyond absoluteX :=
  built_absolute.bind fun _ => built_getCpu.bind fun _ => built_pure _

theorem built_absoluteY : Built beyond absoluteY :=
  built_absolute.bind fun _ => built_getCpu.bind fun _ => built_pure _

theorem built_absoluteXIndirect : Built beyond absoluteXIndirect :=
  built_absoluteX.bind fun _ => built_memLoadWord _

theorem built_bitaddr : Built beyond bitaddr :=
  built_fetchWord.bind fun _ => (built_operand _).bind fun _ => built_pure _

theorem built_bitaddrLoad (b : BitAddr) : Built beyond (bitaddrLoad b) :=
  (built_memLoad _).bind fun _ => built_pure _

theorem built_bitaddrStore (b : BitAddr) (val : Bool) : Built beyond (bitaddrStore b val) :=
  (built_memLoad _).bind fun _ => built_memStore _ _

theorem built_pushByte (byte : Byte) : Built beyond (pushByte byte) :=
  built_getCpu.bind fun _ => (built_memStore _ _).bind fun _ => built_modifyCpu _

theorem built_popByte : Built beyond popByte :=
  (built_modifyCpu _).bind fun _ => built_getCpu.bind fun _ => built_memLoad _

theorem built_pushWord (word : Word) : Built beyond (pushWord word) :=
  .bind (.primitive (.pushed word)) fun _ => (built_pushByte _).bind fun _ => built_pushByte _

theorem built_popWord : Built beyond popWord :=
  built_popByte.bind fun _ => built_popByte.bind fun _ => built_pure _

end Modes

section Families

variable {beyond : Nat → Byte} {mode : Insn Word}

theorem built_nop : Built beyond insnNop := built_pure ()

theorem built_branch (disp : Byte) : Built beyond (branch disp) :=
  (built_modifyCpu _).bind fun _ => .primitive .branchTaken

theorem built_branchWhen (taken : Bool) (disp : Byte) : Built beyond (branchWhen taken disp) := by
  cases taken with
  | true => exact built_branch disp
  | false => exact built_pure ()

theorem built_call (addr : Word) : Built beyond (call addr) :=
  built_getCpu.bind fun _ => (built_pushWord _).bind fun _ => built_modifyCpu _

theorem built_callAbs : Built beyond insnCallAbs := built_absolute.bind fun _ => built_call _

theorem built_tcall (slot : Byte) : Built beyond (tcall slot) :=
  (built_memLoadWord _).bind fun _ => built_call _

theorem built_jumpTo (hmode : Built beyond mode) : Built beyond (jumpTo mode) :=
  hmode.bind fun _ => built_modifyCpu _

theorem built_bra : Built beyond insnBra := built_relative.bind fun _ => built_branch _

theorem built_branchIf (cond : Cpu → Bool) : Built beyond (branchIf cond) :=
  built_relative.bind fun _ => built_getCpu.bind fun _ => built_branchWhen _ _

theorem built_dbnzDp : Built beyond insnDbnzDp :=
  built_directPage.bind fun _ => (built_memLoad _).bind fun _ => built_relative.bind fun _ =>
    (built_modifyCpu _).bind fun _ => (built_branchWhen _ _).bind fun _ => built_memStore _ _

theorem built_dbnzY : Built beyond insnDbnzY :=
  built_getCpu.bind fun _ => built_relative.bind fun _ =>
    (built_branchWhen _ _).bind fun _ => built_modifyCpu _

theorem built_cbne (hmode : Built beyond mode) : Built beyond (cbne mode) :=
  hmode.bind fun _ => (built_memLoad _).bind fun _ => built_relative.bind fun _ =>
    built_getCpu.bind fun _ => built_branchWhen _ _

theorem built_branchOnBit (wanted : Bool) (bit : Nat) : Built beyond (branchOnBit wanted bit) :=
  built_directPage.bind fun _ => built_relative.bind fun _ =>
    (built_memLoad _).bind fun _ => built_branchWhen _ _

theorem built_setDb (bit : Nat) : Built beyond (setDb bit) :=
  built_directPage.bind fun _ => (built_memLoad _).bind fun _ => built_memStore _ _

theorem built_clrDb (bit : Nat) : Built beyond (clrDb bit) :=
  built_directPage.bind fun _ => (built_memLoad _).bind fun _ => built_memStore _ _

theorem built_rmw (alu : Byte → Alu Byte) (hmode : Built beyond mode) :
    Built beyond (rmw mode alu) :=
  hmode.bind fun _ => (built_memLoad _).bind fun _ =>
    (built_onCpu _).bind fun _ => built_memStore _ _

theorem built_incAbs : Built beyond insnIncAbs :=
  built_absolute.bind fun _ => (built_memLoad _).bind fun _ =>
    (built_memStore _ _).bind fun _ => built_onCpu _

variable (alu : Byte → Byte → Alu Byte)

theorem built_aluA (hmode : Built beyond mode) : Built beyond (aluA mode alu) :=
  hmode.bind fun _ => (built_memLoad _).bind fun _ => built_onCpu _

theorem built_aluAImm : Built beyond (aluAImm alu) := built_immediate.bind fun _ => built_onCpu _

theorem built_aluDpDp : Built beyond (aluDpDp alu) :=
  (built_directPageAs _).bind fun _ => (built_directPageAs _).bind fun _ =>
    (built_memLoad _).bind fun _ => (built_memLoad _).bind fun _ =>
      (built_onCpu _).bind fun _ => built_memStore _ _

theorem built_aluImmDp : Built beyond (aluImmDp alu) :=
  built_immediate.bind fun _ => built_directPage.bind fun _ => (built_memLoad _).bind fun _ =>
    (built_onCpu _).bind fun _ => built_memStore _ _

theorem built_aluDpImm : Built beyond (aluDpImm alu) :=
  built_immediate.bind fun _ => built_directPage.bind fun _ => (built_memLoad _).bind fun _ =>
    (built_onCpu _).bind fun _ => built_memStore _ _

theorem built_aluIxIy : Built beyond (aluIxIy alu) :=
  built_indirectX.bind fun _ => built_indirectY.bind fun _ => (built_memLoad _).bind fun _ =>
    (built_memLoad _).bind fun _ => (built_onCpu _).bind fun _ => built_memStore _ _

theorem built_cmpWith (reg : Cpu → Byte) (hmode : Built beyond mode) :
    Built beyond (cmpWith reg mode) :=
  hmode.bind fun _ => (built_memLoad _).bind fun _ => built_getCpu.bind fun _ => built_onCpu _

theorem built_cmpImm (reg : Cpu → Byte) : Built beyond (cmpImm reg) :=
  built_immediate.bind fun _ => built_getCpu.bind fun _ => built_onCpu _

theorem built_cmpDpDp : Built beyond insnCmpDpDp :=
  (built_directPageAs _).bind fun _ => (built_directPageAs _).bind fun _ =>
    (built_memLoad _).bind fun _ => (built_memLoad _).bind fun _ => built_onCpu _

theorem built_cmpDpImm : Built beyond insnCmpDpImm :=
  built_immediate.bind fun _ => built_directPage.bind fun _ =>
    (built_memLoad _).bind fun _ => built_onCpu _

theorem built_cmpIxIy : Built beyond insnCmpIxIy :=
  built_indirectX.bind fun _ => built_indirectY.bind fun _ =>
    (built_memLoad _).bind fun _ => (built_memLoad _).bind fun _ => built_onCpu _

theorem built_load (set : Byte → Alu Unit) (hmode : Built beyond mode) :
    Built beyond (load set mode) :=
  hmode.bind fun _ => (built_memLoad _).bind fun _ => built_onCpu _

theorem built_loadImm (set : Byte → Alu Unit) : Built beyond (loadImm set) :=
  built_immediate.bind fun _ => built_onCpu _

theorem built_store (reg : Cpu → Byte) (hmode : Built beyond mode) :
    Built beyond (store reg mode) :=
  hmode.bind fun _ => built_getCpu.bind fun _ => built_memStore _ _

theorem built_movXAbs : Built beyond insnMovXAbs :=
  built_absolute.bind fun _ => (built_memLoad _).bind fun _ => built_onCpu _

theorem built_movXDp : Built beyond insnMovXDp :=
  built_directPage.bind fun _ => (built_memLoad _).bind fun _ => built_onCpu _

theorem built_movDpImm : Built beyond insnMovDpImm :=
  built_immediate.bind fun _ => built_directPage.bind fun _ => built_memStore _ _

theorem built_movDpDp : Built beyond insnMovDpDp :=
  (built_directPageAs _).bind fun _ => (built_directPageAs _).bind fun _ =>
    (built_memLoad _).bind fun _ => built_memStore _ _

theorem built_push (reg : Cpu → Byte) : Built beyond (push reg) :=
  built_getCpu.bind fun _ => built_pushByte _

theorem built_pop (set : Byte → Alu Unit) : Built beyond (pop set) :=
  built_popByte.bind fun _ => built_onCpu _

theorem built_carryWith (op : Bool → Bool → Bool) : Built beyond (carryWith op) :=
  built_bitaddr.bind fun _ => (built_bitaddrLoad _).bind fun _ => built_modifyCpu _

theorem built_mov1Store : Built beyond insnMov1Store :=
  built_bitaddr.bind fun _ => built_getCpu.bind fun _ => built_bitaddrStore _ _

theorem built_not1 : Built beyond insnNot1 :=
  built_bitaddr.bind fun _ => (built_memLoad _).bind fun _ => built_memStore _ _

theorem built_testAndStore (op : Byte → Byte → Byte) : Built beyond (testAndStore op) :=
  built_absolute.bind fun _ => (built_memLoad _).bind fun _ => built_getCpu.bind fun _ =>
    (built_memStore _ _).bind fun _ => built_onCpu _

theorem built_stepWord (step : Word) : Built beyond (stepWord step) :=
  built_directPage.bind fun _ => (built_memLoadWord _).bind fun _ =>
    (built_onCpu _).bind fun _ => built_memStore _ _

theorem built_aluYa (op : Word → Alu Unit) : Built beyond (aluYa op) :=
  built_directPage.bind fun _ => (built_memLoadWord _).bind fun _ => built_onCpu _

theorem built_movwDpYa : Built beyond insnMovwDpYa :=
  built_directPage.bind fun _ => built_getCpu.bind fun _ => built_memStoreWord _ _

end Families

-- ════════════════════════════════════════════════════════════════════════
-- The table and the loop
-- ════════════════════════════════════════════════════════════════════════

/-- A place of the table is empty, or its handler is put together from the
    primitives. -/
def BuiltOrNull (beyond : Nat → Byte) : Option (Insn Unit) → Prop
  | some cb => Built beyond cb
  | none => True

set_option maxRecDepth 2000 in
/-- The table, in its order. -/
theorem opcodeTbl_built (beyond : Nat → Byte) : ∀ o ∈ opcodeTbl, BuiltOrNull beyond o := by
  simp only [opcodeTbl, List.forall_mem_cons]
  refine ⟨built_nop, built_tcall _, built_setDb _, built_branchOnBit _ _,
    built_aluA _ built_directPage, built_aluA _ built_absolute, built_aluA _ built_indirectX,
    built_aluA _ built_directPageXIndirect, built_aluAImm _, built_aluDpDp _, built_carryWith _,
    built_rmw _ built_directPage, built_rmw _ built_absolute, built_push _, built_testAndStore _,
    True.intro, built_branchIf _, built_tcall _, built_clrDb _, built_branchOnBit _ _,
    built_aluA _ built_directPageX, built_aluA _ built_absoluteX, built_aluA _ built_absoluteY,
    built_aluA _ built_directPageIndirectY, built_aluImmDp _, built_aluIxIy _, built_stepWord _,
    built_rmw _ built_directPageX, built_onCpu _, built_onCpu _, True.intro,
    built_jumpTo built_absoluteXIndirect, built_onCpu _, built_tcall _, built_setDb _,
    built_branchOnBit _ _, built_aluA _ built_directPage, built_aluA _ built_absolute,
    built_aluA _ built_indirectX, built_aluA _ built_directPageXIndirect, built_aluAImm _,
    built_aluDpDp _, built_carryWith _, built_rmw _ built_directPage, built_rmw _ built_absolute,
    built_push _, built_cbne built_directPage, built_bra, built_branchIf _, built_tcall _,
    built_clrDb _, built_branchOnBit _ _, built_aluA _ built_directPageX,
    built_aluA _ built_absoluteX, built_aluA _ built_absoluteY,
    built_aluA _ built_directPageIndirectY, built_aluImmDp _, built_aluIxIy _, built_stepWord _,
    built_rmw _ built_directPageX, built_onCpu _, built_onCpu _, True.intro, built_callAbs,
    built_onCpu _, built_tcall _, built_setDb _, built_branchOnBit _ _,
    built_aluA _ built_directPage, built_aluA _ built_absolute, built_aluA _ built_indirectX,
    built_aluA _ built_directPageXIndirect, built_aluAImm _, built_aluDpDp _, built_carryWith _,
    built_rmw _ built_directPage, built_rmw _ built_absolute, built_push _, built_testAndStore _,
    True.intro, True.intro, built_tcall _, built_clrDb _, built_branchOnBit _ _,
    built_aluA _ built_directPageX, built_aluA _ built_absoluteX, built_aluA _ built_absoluteY,
    built_aluA _ built_directPageIndirectY, built_aluImmDp _, built_aluIxIy _, built_aluYa _,
    built_rmw _ built_directPageX, built_onCpu _, built_onCpu _, True.intro,
    built_jumpTo built_absolute, built_onCpu _, built_tcall _, built_setDb _, built_branchOnBit _ _,
    built_cmpWith _ built_directPage, built_cmpWith _ built_absolute,
    built_cmpWith _ built_indirectX, built_cmpWith _ built_directPageXIndirect, built_cmpImm _,
    built_cmpDpDp, built_carryWith _, built_rmw _ built_directPage, built_rmw _ built_absolute,
    built_push _, built_dbnzDp, built_jumpTo built_popWord, True.intro, built_tcall _,
    built_clrDb _, built_branchOnBit _ _, built_cmpWith _ built_directPageX,
    built_cmpWith _ built_absoluteX, built_cmpWith _ built_absoluteY,
    built_cmpWith _ built_directPageIndirectY, built_cmpDpImm, built_cmpIxIy, built_aluYa _,
    built_rmw _ built_directPageX, built_onCpu _, built_onCpu _, built_cmpWith _ built_directPage,
    True.intro, built_onCpu _, built_tcall _, built_setDb _, built_branchOnBit _ _,
    built_aluA _ built_directPage, built_aluA _ built_absolute, built_aluA _ built_indirectX,
    built_aluA _ built_directPageXIndirect, built_aluAImm _, built_aluDpDp _, built_carryWith _,
    built_rmw _ built_directPage, built_rmw _ built_absolute, built_loadImm _, built_pop _,
    built_movDpImm, built_branchIf _, built_tcall _, built_clrDb _, built_branchOnBit _ _,
    built_aluA _ built_directPageX, built_aluA _ built_absoluteX, built_aluA _ built_absoluteY,
    built_aluA _ built_directPageIndirectY, built_aluDpImm _, built_aluIxIy _, built_aluYa _,
    built_rmw _ built_directPageX, built_onCpu _, True.intro, built_onCpu _, built_onCpu _,
    built_onCpu _, built_tcall _, built_setDb _, built_branchOnBit _ _,
    built_aluA _ built_directPage, built_aluA _ built_absolute, built_aluA _ built_indirectX,
    built_aluA _ built_directPageXIndirect, built_aluAImm _, built_aluDpDp _, built_carryWith _,
    built_rmw _ built_directPage, built_incAbs, built_cmpImm _, built_pop _, True.intro,
    built_branchIf _, built_tcall _, built_clrDb _, built_branchOnBit _ _,
    built_aluA _ built_directPageX, built_aluA _ built_absoluteX, built_aluA _ built_absoluteY,
    built_aluA _ built_directPageIndirectY, built_aluDpImm _, built_aluIxIy _, built_aluYa _,
    built_rmw _ built_directPageX, built_onCpu _, True.intro, True.intro, True.intro, built_onCpu _,
    built_tcall _, built_setDb _, built_branchOnBit _ _, built_store _ built_directPage,
    built_store _ built_absolute, built_store _ built_indirectX, built_store _ built_directPageX,
    built_cmpImm _, built_store _ built_absolute, built_mov1Store, built_store _ built_directPage,
    built_store _ built_absolute, built_loadImm _, built_pop _, built_onCpu _, built_branchIf _,
    built_tcall _, built_clrDb _, built_branchOnBit _ _, built_store _ built_directPageX,
    built_store _ built_absoluteX, built_store _ built_absoluteY,
    built_store _ built_directPageIndirectY, built_store _ built_directPage, True.intro,
    built_movwDpYa, built_store _ built_directPageX, built_onCpu _, built_onCpu _,
    built_cbne built_directPageX, True.intro, built_onCpu _, built_tcall _, built_setDb _,
    built_branchOnBit _ _, built_load _ built_directPage, built_load _ built_absolute,
    built_load _ built_indirectX, built_load _ built_directPageXIndirect, built_loadImm _,
    built_movXAbs, built_not1, built_load _ built_directPage, built_load _ built_absolute,
    built_onCpu _, built_pop _, True.intro, built_branchIf _, built_tcall _, built_clrDb _,
    built_branchOnBit _ _, built_load _ built_directPageX, built_load _ built_absoluteX,
    built_load _ built_absoluteY, built_load _ built_directPageIndirectY, built_movXDp, True.intro,
    built_movDpDp, built_load _ built_directPageX, built_onCpu _, built_onCpu _, built_dbnzY,
    True.intro, fun _ h => ?_⟩
  cases h

variable (beyond : Nat → Byte)

/-- **Handlers**: each of them is put together from the primitives. -/
theorem handlerOf_built {opcode : Byte} {cb : Insn Unit} (h : handlerOf opcode = some cb) :
    Built beyond cb := by
  rw [handlerOf, Option.join_eq_some_iff] at h
  exact opcodeTbl_built beyond (some cb) (List.mem_of_getElem? h)

theorem iteration_built (cycle : BitVec 32) : Built beyond (iteration beyond cycle) := by
  refine built_fetchInsn.bind fun opcode => ?_
  cases hcb : handlerOf opcode with
  | none => exact built_pure none
  | some cb =>
    exact (handlerOf_built beyond hcb).bind fun _ =>
      .bind (.primitive (.clocks _)) fun _ => built_pure _

/-- **Rounds**: so is every number of rounds. -/
theorem runInsns_built (n : Nat) (cycle : BitVec 32) : Built beyond (runInsns beyond n cycle) := by
  induction n generalizing cycle with
  | zero => exact built_pure _
  | succ n ih =>
    refine (iteration_built beyond cycle).bind fun r => ?_
    cases r with
    | none => exact built_pure none
    | some cycle => exact ih cycle

end SpuKit.Spc700
