import SpuKit.Disasm.Dis
import SpuKit.Spc700.InsnStream

/-!
# The two opcode tables

The table of the disassembler next to the one of the emulator. For every
instruction with a handler the disassembler has the operands that the handler
fetches, though not always in the same order.

## Main definitions

- `disOpOf` — what the disassembler knows of an opcode
- `printedAdrs` — the operands of a shape in the order they are printed

## Main results

- `disOpOf_of_shape` — what the disassembler knows of an opcode with a handler
-/

namespace SpuKit.Disasm

open Spc700

/-- The table of the disassembler for `tbl/spc700.opcode.tbl`. -/
def spc700Dis : Option Dis := do
  let opcodeTbl ← loadOpcodeTbl opcodeTblLines
  disOf opcodeTbl

def disOpOf (opcode : Byte) : Option DisOp := do
  let tab ← spc700Dis
  tab opcode.toNat

/-- The notation of an operand in the table. -/
def adrOf : Role → List Char
  | .immediate => ['#', 'i']
  | .directPage _ => ['d']
  | .relative => ['r']
  | .absolute => ['!', 'a']
  | .bitaddr => ['m', '.', 'b']

/-- The destination is printed first and fetched last, and a displacement is both
    printed and fetched last. -/
def printOrder {α : Type} (flow : Flow) (operands : List α) : List α :=
  if flow = .branch then operands else operands.reverse

/-- The operands of a shape as the disassembler prints them. -/
def printedAdrs (shape : Shape) : List (List Char) :=
  printOrder shape.flow (shape.roles.map adrOf)

/-- How an instruction ends by its mnemonic, when it is no branch. -/
def jumps : List (List Char) := [['j', 'm', 'p'], ['r', 'e', 't']]

def calls : List (List Char) := [['c', 'a', 'l', 'l'], ['t', 'c', 'a', 'l', 'l']]

def flowOf (op : DisOp) : Flow :=
  if ['r'] ∈ adrs op.disToks then .branch
  else if op.mnemonic ∈ jumps then .jump
  else if op.mnemonic ∈ calls then .call
  else .straight

/-- The disassembler knows the operands and the kind of an instruction. -/
def Knows (shape : Shape) (op : DisOp) : Prop :=
  adrs op.disToks = printedAdrs shape ∧ flowOf op = shape.flow

instance (shape : Shape) (op : DisOp) : Decidable (Knows shape op) :=
  inferInstanceAs (Decidable (_ ∧ _))

/-- A row of the table has formats for its operands, and agrees with the handler
    of its opcode if there is one. -/
def rowAgrees (d : OpDef) : Bool :=
  (disOp d).any fun op =>
    (shapeOf (BitVec.ofNat 8 d.opcode)).all fun shape => decide (Knows shape op)

/-- The opcodes in the order of the table, which goes by the low digit first. -/
def swapDigits (opcode : Nat) : Nat := opcode % 16 * 16 + opcode / 16

/-- All rows agree, and there is one for every opcode. -/
def tableAgrees (opcodeTbl : List OpDef) : Bool :=
  opcodeTbl.all rowAgrees &&
    opcodeTbl.map OpDef.opcode == (List.range 256).map swapDigits

set_option maxRecDepth 4000 in
/-- The whole table is read and checked row by row. -/
theorem opcodeTblLines_agree : (loadOpcodeTbl opcodeTblLines).any tableAgrees = true := by
  decide +kernel

/-- **Dictionary**: every entry comes from a definition of its opcode. -/
theorem disOf_from {defs : List OpDef} (hok : ∀ d ∈ defs, (disOp d).isSome) (init : Dis) :
    ∃ tab, defs.foldlM Dis.insert init = some tab ∧
      ∀ opcode, (∃ d ∈ defs, d.opcode = opcode ∧ tab opcode = disOp d) ∨
        (∀ d ∈ defs, d.opcode ≠ opcode) ∧ tab opcode = init opcode := by
  induction defs generalizing init with
  | nil => exact ⟨init, rfl, fun opcode => Or.inr ⟨fun d hd => absurd hd List.not_mem_nil, rfl⟩⟩
  | cons d defs ih =>
    obtain ⟨op, hop⟩ := Option.isSome_iff_exists.mp (hok d List.mem_cons_self)
    obtain ⟨tab, htab, hfrom⟩ := ih (fun d' hd' => hok d' (List.mem_cons_of_mem _ hd'))
      (Function.update init d.opcode (some op))
    refine ⟨tab, ?_, fun opcode => ?_⟩
    · rw [List.foldlM_cons, Dis.insert, hop]
      exact htab
    obtain ⟨d', hd', heq⟩ | ⟨hnone, heq⟩ := hfrom opcode
    · exact Or.inl ⟨d', List.mem_cons_of_mem _ hd', heq⟩
    · by_cases hopcode : d.opcode = opcode
      · subst hopcode
        rw [Function.update_self] at heq
        exact Or.inl ⟨d, List.mem_cons_self, rfl, heq.trans hop.symm⟩
      · rw [Function.update_of_ne (Ne.symm hopcode)] at heq
        refine Or.inr ⟨fun d' hd' => ?_, heq⟩
        obtain rfl | hd' := List.mem_cons.mp hd'
        · exact hopcode
        · exact hnone d' hd'

theorem disOp_mapM {d : OpDef} {op : DisOp} (h : disOp d = some op) :
    (adrs op.disToks).mapM adrFmt = some op.oprStruct := by
  obtain ⟨s, hs, heq⟩ := Option.bind_eq_some_iff.mp h
  obtain rfl := Option.some.inj heq
  exact hs

theorem mem_swapDigits {opcode : Nat} (h : opcode < 256) :
    opcode ∈ (List.range 256).map swapDigits := by
  refine List.mem_map.mpr ⟨swapDigits opcode, List.mem_range.mpr ?_, ?_⟩
  · rw [swapDigits]
    omega
  · unfold swapDigits
    omega

/-- **What the disassembler knows.** It has every opcode with a handler, with the
    operands that the handler fetches. -/
theorem disOpOf_of_shape {opcode : Byte} {shape : Shape} (h : shapeOf opcode = some shape) :
    ∃ op, disOpOf opcode = some op ∧ Knows shape op ∧
      (adrs op.disToks).mapM adrFmt = some op.oprStruct := by
  obtain ⟨defs, hdefs, hagree⟩ := (Option.any_eq_true ..).mp opcodeTblLines_agree
  obtain ⟨hrows, hopcodes⟩ := Bool.and_eq_true_iff.mp hagree
  have hrow : ∀ d ∈ defs, rowAgrees d = true := List.all_eq_true.mp hrows
  have hok : ∀ d ∈ defs, (disOp d).isSome := by
    intro d hd
    obtain ⟨op, hop, -⟩ := (Option.any_eq_true ..).mp (hrow d hd)
    exact Option.isSome_iff_exists.mpr ⟨op, hop⟩
  obtain ⟨tab, htab, hfrom⟩ := disOf_from hok fun _ => none
  have hmem : opcode.toNat ∈ defs.map OpDef.opcode := by
    rw [beq_iff_eq.mp hopcodes]
    exact mem_swapDigits opcode.isLt
  obtain ⟨d, hd, hdop⟩ := List.mem_map.mp hmem
  obtain ⟨d, hd, hdop, heq⟩ | ⟨hnone, -⟩ := hfrom opcode.toNat
  · obtain ⟨op, hop, hknows⟩ := (Option.any_eq_true ..).mp (hrow d hd)
    have hbyte : BitVec.ofNat 8 d.opcode = opcode := by
      rw [hdop, BitVec.ofNat_toNat, BitVec.setWidth_eq]
    rw [hbyte, h, Option.all_some] at hknows
    refine ⟨op, ?_, of_decide_eq_true hknows, disOp_mapM hop⟩
    have hdis : spc700Dis = some tab := by
      rw [spc700Dis, hdefs]
      exact htab
    rw [disOpOf, hdis]
    exact heq.trans hop
  · exact absurd hdop (hnone d hd)

end SpuKit.Disasm
