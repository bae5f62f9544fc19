import SpuKit.Disasm.InsnLength
import SpuKit.Spc700.PageOne

/-!
# The operands of an instruction

What a line of the disassembler says about the operands of an instruction, next
to what the emulator does with them. An operand stands for its role in the
instruction: the immediate value, the direct-page byte an instruction works on,
or, where there are two of them, the source or the destination, which is printed
first.

The disassembler gives the operand bytes to the operands in the order they are
printed, which is not the order they are fetched in if there are two of them, and
it does not reduce the target of a branch to the address space.

## Main definitions

- `Label` — a role and the numbers that stand for it
- `Agrees` — a printed instruction says what a round did
- `LineAgrees` — it does so for every machine
- `AgreeWhen` — when it does

## Main results

- `operands_agree_iff` — the two tools agree just then
-/

namespace SpuKit.Disasm

open Spc700

/-- A role, and the numbers that stand for the operand in it. -/
abbrev Label := Role × List Int

/-- The label of an operand that was fetched. A displacement is told by its target. -/
def labelOf : Operand → Option Label
  | .immediate byte => some (.immediate, [(byte.toNat : Int)])
  | .directPage place byte => some (.directPage place, [(byte.toNat : Int)])
  | .absolute addr => some (.absolute, [(addr.toNat : Int)])
  | .bitaddr b => some (.bitaddr, [(b.addr.toNat : Int), (b.bit.toNat : Int)])
  | .relative _ => none

/-- The labels of the operands that were fetched. -/
def fetchedLabels (es : List CpuEvent) : List Label :=
  es.filterMap fun
    | .operand o => labelOf o
    | _ => none

/-- The role of a printed operand by its notation. -/
def roleOf (adr : List Char) : Option Role :=
  [(['#', 'i'], Role.immediate),
    (['d'], .directPage .only),
    (['r'], .relative),
    (['!', 'a'], .absolute),
    (['m', '.', 'b'], .bitaddr)].lookup adr

/-- The roles of the printed operands. Of two direct-page bytes the first one
    printed is the destination. -/
def rolesOf (adrs : List (List Char)) : List Role :=
  if adrs = [['d'], ['d']] then [.directPage .destination, .directPage .source]
  else adrs.filterMap roleOf

/-- The label of a printed operand: the numbers in its text. -/
def printedLabel : Role → Int → Option Label
  | .bitaddr, v => some (.bitaddr, [v % 0x2000, v >>> (13 : Nat)])
  | .relative, _ => none
  | role, v => some (role, [v])

/-- The printed operands and their values. -/
def DisInsn.printed (i : DisInsn) : List (Role × Int) := (rolesOf (adrs i.toks)).zip i.operands

def DisInsn.labels (i : DisInsn) : List Label :=
  i.printed.filterMap fun p => printedLabel p.1 p.2

/-- The number printed for the target of a branch. -/
def DisInsn.target (i : DisInsn) : Option Int := do
  let addr ← i.nextAddr
  let p ← i.printed.find? fun p => p.1 = .relative
  pure (addr + p.2)

/-- A printed instruction says what a round did: it gives every operand its role,
    and the target of the branch if it was taken. -/
structure Agrees (i : DisInsn) (m' : Machine) (es : List CpuEvent) : Prop where
  operands : i.labels.Perm (fetchedLabels es)
  target : .branchTaken ∈ es → i.target = some (m'.cpu.pc.toNat : Int)

/-- The machine is at an instruction of these bytes. -/
structure At (opcode b₁ b₂ : Byte) (addr : Word) (m : Machine) : Prop where
  pc : m.cpu.pc = addr
  opcode : m.aram addr = opcode
  fst : m.aram (addr + 1) = b₁
  snd : m.aram (addr + 1 + 1) = b₂

/-- The first line that is printed for the bytes agrees with every round of every
    machine at them. -/
def LineAgrees (opcode b₁ b₂ : Byte) (addr : Word) : Prop :=
  ∃ tab i rest, spc700Dis = some tab ∧
    disInsns tab [opcode, b₁, b₂] (some addr.toNat) = i :: rest ∧
    ∀ beyond cycle m cycle' m' es, At opcode b₁ b₂ addr m →
      (iteration beyond cycle).Returns m (some cycle') m' es → Agrees i m' es

/-- The target of a branch, as it is without the wrap of the address space. -/
def unwrapped (op : DisOp) (b₁ b₂ : Byte) (addr : Word) : Int :=
  let size := op.oprStruct.size
  addr.toNat + 1 + size + ([b₁, b₂].getD (size - 1) 0).toInt

/-- The operands that are fetched in another order than they are printed in are the
    same byte, and the target of a branch is in the address space. -/
structure AgreeWhen (op : DisOp) (b₁ b₂ : Byte) (addr : Word) : Prop where
  bytes : adrs op.disToks = [['d'], ['#', 'i']] ∨ adrs op.disToks = [['d'], ['d']] → b₁ = b₂
  target : ['r'] ∈ adrs op.disToks →
    0 ≤ unwrapped op b₁ b₂ addr ∧ unwrapped op b₁ b₂ addr < 0x10000

theorem fetchedLabels_trail (es : List CpuEvent) : fetchedLabels (trail es) = fetchedLabels es := by
  refine filterMap_trail (fun e he => ?_) es
  cases e <;> first | rfl | cases he

/-- The labels of operands in the instruction stream. -/
def labelsAt (aram : Word → Byte) (pc : Word) (roles : List Role) : List Label :=
  fetchedLabels (Spc700.stream aram pc roles)

/-- The instruction as it is printed first. -/
def printedInsn (op : DisOp) (b₁ b₂ : Byte) (addr : Word) : DisInsn :=
  let size := op.oprStruct.size
  ⟨op.mnemonic, op.disToks, op.oprStruct.unpack ([b₁, b₂].take size), some addr.toNat,
    some (addr.toNat + 1 + size)⟩

theorem fetchedLabels_append (es es' : List CpuEvent) :
    fetchedLabels (es ++ es') = fetchedLabels es ++ fetchedLabels es' :=
  List.filterMap_append ..

/-- The end of an instruction has no operands. -/
theorem fetchedLabels_ends {flow : Flow} {m m' : Machine} {es : List CpuEvent}
    (h : flow.Ends m m' es) : fetchedLabels es = [] := by
  obtain rfl | ⟨-, rfl⟩ | ⟨-, rfl⟩ := h.events <;> rfl

/-- The operands of a round are those in the instruction stream. -/
theorem Iterating.fetchedLabels_eq {beyond : Nat → Byte} {cycle : BitVec 32} {shape : Shape}
    {m m₁ m' : Machine} {es₁ es : List CpuEvent}
    (h : Iterating beyond cycle m shape m₁ m' es₁ es) :
    fetchedLabels es = labelsAt m.aram (m.cpu.pc + 1) shape.roles := by
  obtain ⟨m₀, tail, htrail, hends, -, -⟩ := h.trail_eq
  rw [← fetchedLabels_trail, htrail, fetchedLabels_append, fetchedLabels_ends hends,
    List.append_nil]
  rfl

/-- Only branches are taken. -/
theorem Iterating.flow_of_taken {beyond : Nat → Byte} {cycle : BitVec 32} {shape : Shape}
    {m m₁ m' : Machine} {es₁ es : List CpuEvent}
    (h : Iterating beyond cycle m shape m₁ m' es₁ es) (htaken : .branchTaken ∈ es) :
    shape.flow = .branch := by
  obtain ⟨m₀, tail, htrail, hends, -, -⟩ := h.trail_eq
  rw [branchTaken_mem_iff htrail] at htaken
  obtain rfl | ⟨hflow, -⟩ | ⟨-, rfl⟩ := hends.events
  · cases htaken
  · exact hflow
  · cases List.mem_singleton.mp htaken

/-- The address and the bit of a word. -/
theorem bitaddr_label (w : Word) :
    printedLabel .bitaddr (w.toNat : Int) = labelOf (.bitaddr (bitaddrInit w)) := by
  have haddr : ((w.toNat : Int)) % 0x2000 = ((w.setWidth 13).toNat : Int) := by
    rw [BitVec.toNat_setWidth]
    rfl
  have hbit : (w.toNat : Int) >>> (13 : Nat) = (((w >>> 13).setWidth 3).toNat : Int) := by
    rw [BitVec.toNat_setWidth, BitVec.toNat_ushiftRight, Nat.mod_eq_of_lt]
    · rfl
    · rw [Nat.shiftRight_eq_div_pow]
      omega
  rw [printedLabel, labelOf, bitaddrInit, haddr, hbit]

/-- The shapes whose operands are fetched in another order than they are printed in. -/
def Swaps (shape : Shape) : Prop := shape = .immDp ∨ shape = .dpDp

/-- The labels of operand bytes in the order of the roles. -/
def labelsOf (roles : List Role) (s : Struct) (b₁ b₂ : Byte) : List Label :=
  (roles.zip (s.unpack ([b₁, b₂].take s.size))).filterMap fun p => printedLabel p.1 p.2

/-- Without a swap the operands are printed as they are fetched. -/
theorem labelsOf_eq {shape : Shape} {s : Struct} (aram : Word → Byte) (pc : Word)
    (hmem : shape ∈ Shape.all) (hstruct : (printedAdrs shape).mapM adrFmt = some s)
    (hswaps : ¬ Swaps shape) :
    labelsOf (rolesOf (printedAdrs shape)) s (aram pc) (aram (pc + 1)) =
      labelsAt aram pc shape.roles := by
  simp only [Shape.all, List.mem_cons, List.not_mem_nil, or_false] at hmem
  obtain rfl | rfl | rfl | rfl | rfl | rfl | rfl | rfl | rfl | rfl | rfl | rfl | rfl := hmem <;>
    obtain rfl := Option.some.inj hstruct
  case inr.inr.inr.inl => exact absurd (Or.inr rfl) hswaps
  case inr.inr.inr.inr.inl => exact absurd (Or.inl rfl) hswaps
  case inr.inr.inr.inr.inr.inr.inl =>
    exact congrArg (fun l : Option Label => l.toList) (bitaddr_label _)
  all_goals rfl

/-- Two labels of one kind of number each are the same in any order just if the
    numbers are. -/
theorem swap_perm_iff (r r' : Role) (hne : r ≠ r') (b₁ b₂ : Byte) :
    [(r, [(b₁.toNat : Int)]), (r', [(b₂.toNat : Int)])].Perm
      [(r', [(b₁.toNat : Int)]), (r, [(b₂.toNat : Int)])] ↔ b₁ = b₂ := by
  constructor
  · intro hperm
    have hmem := hperm.mem_iff.mp List.mem_cons_self
    obtain heq | hmem := List.mem_cons.mp hmem
    · exact absurd (Prod.mk.inj heq).1 hne
    · obtain ⟨heq, -⟩ := List.cons.inj (Prod.mk.inj (List.mem_singleton.mp hmem)).2
      exact BitVec.eq_of_toNat_eq (Int.ofNat.inj heq)
  · rintro rfl
    exact List.Perm.swap ..

/-- **Operands**: the labels are the same, unless two operand bytes are swapped. -/
theorem labels_perm_iff {shape : Shape} {op : DisOp} (aram : Word → Byte) (pc addr : Word)
    (hmem : shape ∈ Shape.all) (hadrs : adrs op.disToks = printedAdrs shape)
    (hstruct : (printedAdrs shape).mapM adrFmt = some op.oprStruct) :
    (printedInsn op (aram pc) (aram (pc + 1)) addr).labels.Perm (labelsAt aram pc shape.roles) ↔
      (Swaps shape → aram pc = aram (pc + 1)) := by
  have hlabels : (printedInsn op (aram pc) (aram (pc + 1)) addr).labels =
      labelsOf (rolesOf (printedAdrs shape)) op.oprStruct (aram pc) (aram (pc + 1)) := by
    rw [DisInsn.labels, DisInsn.printed, ← hadrs]
    rfl
  rw [hlabels]
  by_cases hswaps : Swaps shape
  · rw [imp_iff_right hswaps]
    obtain rfl | rfl := hswaps
    · rw [← Option.some.inj hstruct]
      exact swap_perm_iff (.directPage .only) .immediate Role.noConfusion _ _
    · rw [← Option.some.inj hstruct]
      exact swap_perm_iff (.directPage .destination) (.directPage .source) (by decide) _ _
  · rw [labelsOf_eq aram pc hmem hstruct hswaps]
    exact iff_of_true (List.Perm.refl _) fun h => absurd h hswaps

-- ════════════════════════════════════════════════════════════════════════
-- The target of a branch
-- ════════════════════════════════════════════════════════════════════════

/-- A branch has one operand byte or two, and the last one is the displacement. -/
theorem branch_shape {shape : Shape} (hmem : shape ∈ Shape.all) (hflow : shape.flow = .branch) :
    shape = .rel ∨ shape = .dpRel := by
  have hbranches : ∀ shape ∈ Shape.all, shape.flow = .branch → shape = .rel ∨ shape = .dpRel := by
    decide
  exact hbranches shape hmem hflow

/-- The target of a branch is printed without the wrap. -/
theorem printedInsn_target {shape : Shape} {op : DisOp} (b₁ b₂ : Byte) (addr : Word)
    (hmem : shape ∈ Shape.all) (hflow : shape.flow = .branch)
    (hadrs : adrs op.disToks = printedAdrs shape)
    (hstruct : (printedAdrs shape).mapM adrFmt = some op.oprStruct) :
    (printedInsn op b₁ b₂ addr).target = some (unwrapped op b₁ b₂ addr) := by
  have hprinted : (printedInsn op b₁ b₂ addr).printed =
      (rolesOf (printedAdrs shape)).zip
        (op.oprStruct.unpack ([b₁, b₂].take op.oprStruct.size)) := by
    rw [DisInsn.printed, ← hadrs]
    rfl
  have hnext : (printedInsn op b₁ b₂ addr).nextAddr =
      some (addr.toNat + 1 + op.oprStruct.size) := rfl
  rw [DisInsn.target, hnext, hprinted, unwrapped]
  obtain rfl | rfl := branch_shape hmem hflow
  · rw [← Option.some.inj hstruct]
    rfl
  · rw [← Option.some.inj hstruct]
    rfl

/-- The target of a branch, as the emulator has it. -/
theorem toNat_target (addr : Word) (disp : Byte) (size : Nat) :
    ((nextPc addr size + disp.signExtend 16).toNat : Int) =
      (addr.toNat + 1 + size + disp.toInt) % 0x10000 := by
  have hsum : nextPc addr size + disp.signExtend 16 =
      BitVec.ofInt 16 (addr.toNat + 1 + size + disp.toInt) := by
    rw [BitVec.ofInt_add, BitVec.ofInt_add, BitVec.ofInt_add, BitVec.ofInt_natCast,
      BitVec.ofInt_natCast, BitVec.ofNat_toNat, BitVec.setWidth_eq]
    rfl
  rw [hsum, BitVec.toNat_ofInt]
  exact Int.toNat_of_nonneg (Int.emod_nonneg _ (by decide))

/-- A number is what it wraps to just if it is in the address space. -/
theorem eq_wrap_iff (v : Int) : v = v % 0x10000 ↔ 0 ≤ v ∧ v < 0x10000 := by
  omega

-- ════════════════════════════════════════════════════════════════════════
-- Rounds
-- ════════════════════════════════════════════════════════════════════════

/-- What the disassembler knows of an opcode with a shape. -/
structure Known (opcode : Byte) (shape : Shape) (op : DisOp) : Prop where
  shape_eq : shapeOf opcode = some shape
  op_eq : disOpOf opcode = some op
  knows : Knows shape op
  fmts : (adrs op.disToks).mapM adrFmt = some op.oprStruct

section Known

variable {opcode b₁ b₂ : Byte} {addr : Word} {shape : Shape} {op : DisOp}

theorem Known.size_eq (h : Known opcode shape op) : op.oprStruct.size = size shape.roles :=
  knows_size h.shape_eq h.knows h.fmts

theorem Known.size_le (h : Known opcode shape op) : op.oprStruct.size ≤ 2 := by
  have hsizes : ∀ shape ∈ Shape.all, size shape.roles ≤ 2 := by
    decide
  rw [h.size_eq]
  exact hsizes shape (shapeOf_mem h.shape_eq)

theorem Known.struct_eq (h : Known opcode shape op) :
    (printedAdrs shape).mapM adrFmt = some op.oprStruct := by
  rw [← h.knows.1]
  exact h.fmts

/-- The condition by shape. -/
theorem Known.agreeWhen_iff (h : Known opcode shape op) :
    AgreeWhen op b₁ b₂ addr ↔ (Swaps shape → b₁ = b₂) ∧
      (shape.flow = .branch → 0 ≤ unwrapped op b₁ b₂ addr ∧ unwrapped op b₁ b₂ addr < 0x10000) := by
  have hswaps : ∀ shape ∈ Shape.all, (printedAdrs shape = [['d'], ['#', 'i']] ∨
      printedAdrs shape = [['d'], ['d']] ↔ shape = .immDp ∨ shape = .dpDp) := by
    decide
  have hbranch : ∀ shape ∈ Shape.all, (['r'] ∈ printedAdrs shape ↔ shape.flow = .branch) := by
    decide
  have hmem := shapeOf_mem h.shape_eq
  have hcond : AgreeWhen op b₁ b₂ addr ↔
      (adrs op.disToks = [['d'], ['#', 'i']] ∨ adrs op.disToks = [['d'], ['d']] → b₁ = b₂) ∧
      (['r'] ∈ adrs op.disToks →
        0 ≤ unwrapped op b₁ b₂ addr ∧ unwrapped op b₁ b₂ addr < 0x10000) :=
    ⟨fun h => ⟨h.bytes, h.target⟩, fun h => ⟨h.1, h.2⟩⟩
  rw [hcond, h.knows.1, hswaps shape hmem, hbranch shape hmem]
  rfl

/-- The displacement is the last operand byte. -/
theorem At.displacement {m : Machine} (hat : At opcode b₁ b₂ addr m) (hmem : shape ∈ Shape.all)
    (hflow : shape.flow = .branch) : m.aram (addr + BitVec.ofNat 16 (size shape.roles)) =
      [b₁, b₂].getD (size shape.roles - 1) 0 := by
  obtain rfl | rfl := branch_shape hmem hflow
  · exact hat.fst
  · have htwo : addr + BitVec.ofNat 16 (size Shape.dpRel.roles) = addr + 1 + 1 :=
      (BitVec.add_assoc addr 1 1).symm
    rw [htwo]
    exact hat.snd

/-- **Round**: what is printed says what the round did, unless it swaps two bytes or
    the branch wraps. -/
theorem Known.agrees_iff (h : Known opcode shape op) {beyond : Nat → Byte} {cycle : BitVec 32}
    {m m₁ m' : Machine} {es₁ es : List CpuEvent} (hat : At opcode b₁ b₂ addr m)
    (hiter : Iterating beyond cycle m shape m₁ m' es₁ es) :
    Agrees (printedInsn op b₁ b₂ addr) m' es ↔ (Swaps shape → b₁ = b₂) ∧
      (.branchTaken ∈ es →
        0 ≤ unwrapped op b₁ b₂ addr ∧ unwrapped op b₁ b₂ addr < 0x10000) := by
  have hmem := shapeOf_mem h.shape_eq
  have hops : (printedInsn op b₁ b₂ addr).labels.Perm (fetchedLabels es) ↔
      (Swaps shape → b₁ = b₂) := by
    have hperm := labels_perm_iff m.aram (m.cpu.pc + 1) addr hmem h.knows.1 h.struct_eq
    rw [Iterating.fetchedLabels_eq hiter]
    rw [hat.pc, hat.fst, hat.snd] at hperm
    rw [hat.pc]
    exact hperm
  have htarget : .branchTaken ∈ es →
      ((printedInsn op b₁ b₂ addr).target = some (m'.cpu.pc.toNat : Int) ↔
        0 ≤ unwrapped op b₁ b₂ addr ∧ unwrapped op b₁ b₂ addr < 0x10000) := by
    intro htaken
    have hflow := Iterating.flow_of_taken hiter htaken
    have hpc := (Iterating.consumes hiter).taken hflow htaken
    rw [printedInsn_target b₁ b₂ addr hmem hflow h.knows.1 h.struct_eq, Option.some_inj, hpc,
      toNat_target, hat.pc, hat.displacement hmem hflow, ← eq_wrap_iff, unwrapped, h.size_eq]
  constructor
  · intro hagree
    exact ⟨hops.mp hagree.operands, fun htaken => (htarget htaken).mp (hagree.target htaken)⟩
  · rintro ⟨hswaps, hrange⟩
    exact ⟨hops.mpr hswaps, fun htaken => (htarget htaken).mpr (hrange htaken)⟩

/-- The first instruction printed for the bytes. -/
theorem Known.lineAgrees_iff (h : Known opcode shape op) :
    LineAgrees opcode b₁ b₂ addr ↔ ∀ beyond cycle m cycle' m' es, At opcode b₁ b₂ addr m →
      (iteration beyond cycle).Returns m (some cycle') m' es →
        Agrees (printedInsn op b₁ b₂ addr) m' es := by
  have hop := h.op_eq
  rw [disOpOf, Option.bind_eq_bind, Option.bind_eq_some_iff] at hop
  obtain ⟨tab, htab, hop⟩ := hop
  obtain ⟨rest, hrest⟩ : ∃ rest, disInsns tab [opcode, b₁, b₂] (some addr.toNat) =
      printedInsn op b₁ b₂ addr :: rest := by
    rw [disInsns, List.length_cons, disInsnsFrom, hop]
    exact ⟨_, if_neg (Nat.not_lt.mpr h.size_le)⟩
  constructor
  · rintro ⟨tab', i, rest', htab', hfirst, hall⟩
    obtain rfl : tab = tab' := Option.some.inj (htab.symm.trans htab')
    obtain ⟨rfl, -⟩ := List.cons.inj (hrest.symm.trans hfirst)
    exact hall
  · intro hall
    exact ⟨tab, _, rest, htab, hrest, hall⟩

-- ════════════════════════════════════════════════════════════════════════
-- A machine for every instruction
-- ════════════════════════════════════════════════════════════════════════

/-- Memory with an instruction in it. -/
def insnAt (opcode b₁ b₂ other : Byte) (addr : Word) : Word → Byte := fun a =>
  if a = addr then opcode else if a = addr + 1 then b₁ else if a = addr + 1 + 1 then b₂ else other

theorem at_insnAt (opcode b₁ b₂ other : Byte) (addr : Word) (flag : Bool) :
    At opcode b₁ b₂ addr (inPageOne flag (insnAt opcode b₁ b₂ other addr) addr) where
  pc := rfl
  opcode := if_pos rfl
  fst := by
    show insnAt opcode b₁ b₂ other addr (addr + 1) = b₁
    rw [insnAt, if_neg (by bv_omega), if_pos rfl]
  snd := by
    show insnAt opcode b₁ b₂ other addr (addr + 1 + 1) = b₂
    rw [insnAt, if_neg (by bv_omega), if_neg (by bv_omega), if_pos rfl]

/-- A property of the opcodes with a handler, checked for all of them. -/
theorem forall_opcode {P : Byte → Prop} (h : ∀ n < 256, P (BitVec.ofNat 8 n)) (opcode : Byte) :
    P opcode := by
  have hopcode := h opcode.toNat opcode.isLt
  rw [BitVec.ofNat_toNat, BitVec.setWidth_eq] at hopcode
  exact hopcode

theorem mem_swaps (opcode : Byte) :
    ∀ shape ∈ shapeOf opcode, shape = .immDp ∨ shape = .dpDp → opcode ∈ swaps := by
  refine forall_opcode (P := fun opcode => ∀ shape ∈ shapeOf opcode,
    shape = .immDp ∨ shape = .dpDp → opcode ∈ swaps) ?_ opcode
  decide +kernel

theorem mem_takenWith (opcode : Byte) :
    ∀ shape ∈ shapeOf opcode, shape.flow = .branch → ∃ p ∈ takenWith, p.1 = opcode := by
  refine forall_opcode (P := fun opcode => ∀ shape ∈ shapeOf opcode,
    shape.flow = .branch → ∃ p ∈ takenWith, p.1 = opcode) ?_ opcode
  decide +kernel

/-- An instruction on two operand bytes returns from some machine. -/
theorem exists_round (b₁ b₂ : Byte) (addr : Word) {cb : Insn Unit}
    (hcb : handlerOf opcode = some cb) (hmem : opcode ∈ swaps) :
    ∃ m m' es, At opcode b₁ b₂ addr m ∧ (iteration (fun _ => 0) 0).Returns m (some 4) m' es := by
  obtain ⟨cb', hcb', htotal⟩ := handlers_swaps false opcode hmem
  obtain rfl := Option.some.inj (hcb.symm.trans hcb')
  have hat := at_insnAt opcode b₁ b₂ 0 addr false
  obtain ⟨u, m₁, es₁, hret, -, -⟩ := htotal _
    (pageOne_inPageOne false (insnAt opcode b₁ b₂ 0 addr) addr fun _ => True.intro)
  obtain ⟨m', es, hround, -⟩ :=
    iteration_returns (fun _ => 0) 0 (by rw [hat.pc, hat.opcode]; exact hcb) hret
  exact ⟨_, m', es, hat, hround⟩

/-- A branch is taken from some machine, unless it is in page one. -/
theorem exists_taken (b₁ b₂ : Byte) {cb : Insn Unit} (hcb : handlerOf opcode = some cb)
    (hmem : ∃ p ∈ takenWith, p.1 = opcode)
    (hpage : ∀ byte, pageOne byte ≠ addr ∧ pageOne byte ≠ addr + 1 ∧
      pageOne byte ≠ addr + 1 + 1) :
    ∃ m m' es, At opcode b₁ b₂ addr m ∧
      (iteration (fun _ => 0) 0).Returns m (some 4) m' es ∧ .branchTaken ∈ es := by
  obtain ⟨⟨opcode', flag⟩, hmem, heq⟩ := hmem
  obtain rfl : opcode' = opcode := heq
  obtain ⟨cb', hcb', hshows⟩ := handlers_takenWith _ hmem
  obtain rfl := Option.some.inj (hcb.symm.trans hcb')
  have hat := at_insnAt opcode' b₁ b₂ (fill flag) addr flag
  have hfill : ∀ byte, insnAt opcode' b₁ b₂ (fill flag) addr (pageOne byte) = fill flag := by
    intro byte
    obtain ⟨h₀, h₁, h₂⟩ := hpage byte
    rw [insnAt, if_neg h₀, if_neg h₁, if_neg h₂]
  obtain ⟨u, m₁, es₁, hret, htaken⟩ := hshows _ (pageOne_inPageOne flag _ addr hfill)
  obtain ⟨m', es, hround, hsub⟩ :=
    iteration_returns (fun _ => 0) 0 (by rw [hat.pc, hat.opcode]; exact hcb) hret
  exact ⟨_, m', es, hat, hround, hsub _ htaken⟩

/-- A branch whose target is not in the address space is far from page one. -/
theorem pageOne_ne_of_wraps (hsize : op.oprStruct.size ≤ 2)
    (hwraps : ¬ (0 ≤ unwrapped op b₁ b₂ addr ∧ unwrapped op b₁ b₂ addr < 0x10000)) (byte : Byte) :
    pageOne byte ≠ addr ∧ pageOne byte ≠ addr + 1 ∧ pageOne byte ≠ addr + 1 + 1 := by
  have hpage := toNat_pageOne byte
  have hlow := BitVec.le_toInt ([b₁, b₂].getD (op.oprStruct.size - 1) 0)
  have hhigh := BitVec.toInt_lt (x := [b₁, b₂].getD (op.oprStruct.size - 1) 0)
  have hone : (addr + 1).toNat = (addr.toNat + 1) % 0x10000 := BitVec.toNat_add addr 1
  have htwo : (addr + 1 + 1).toNat = ((addr + 1).toNat + 1) % 0x10000 :=
    BitVec.toNat_add (addr + 1) 1
  rw [unwrapped] at hwraps
  have hbyte := byte.isLt
  have haddr := addr.isLt
  refine ⟨fun heq => ?_, fun heq => ?_, fun heq => ?_⟩
  · have h := congrArg BitVec.toNat heq
    omega
  · have h := congrArg BitVec.toNat heq
    omega
  · have h := congrArg BitVec.toNat heq
    omega

/-- The machine at the bytes goes through a round of their shape. -/
theorem Known.iterating (h : Known opcode shape op) {beyond : Nat → Byte}
    {cycle cycle' : BitVec 32} {m m' : Machine} {es : List CpuEvent}
    (hat : At opcode b₁ b₂ addr m) (hret : (iteration beyond cycle).Returns m (some cycle') m' es) :
    ∃ m₁ es₁, Iterating beyond cycle m shape m₁ m' es₁ es := by
  obtain ⟨hnone, -⟩ | ⟨-, shape', m₁, es₁, hiter⟩ := (iteration_does _ _).returns hret
  · cases hnone
  · have hshape := hiter.shape_eq
    rw [hat.pc, hat.opcode] at hshape
    obtain rfl := Option.some.inj (hshape.symm.trans h.shape_eq)
    exact ⟨m₁, es₁, hiter⟩

/-- **Line**: it agrees with every round just if it agrees with the rounds of the
    machines in page one. -/
theorem Known.lineAgrees_iff_agreeWhen (h : Known opcode shape op) {cb : Insn Unit}
    (hcb : handlerOf opcode = some cb) :
    LineAgrees opcode b₁ b₂ addr ↔ AgreeWhen op b₁ b₂ addr := by
  rw [h.lineAgrees_iff, h.agreeWhen_iff]
  constructor
  · intro hall
    refine ⟨fun hswaps => ?_, fun hflow => ?_⟩
    · obtain ⟨m, m', es, hat, hret⟩ :=
        exists_round b₁ b₂ addr hcb (mem_swaps opcode shape h.shape_eq hswaps)
      obtain ⟨m₁, es₁, hiter⟩ := h.iterating hat hret
      exact ((h.agrees_iff hat hiter).mp (hall _ _ _ _ _ _ hat hret)).1 hswaps
    · by_contra hwraps
      obtain ⟨m, m', es, hat, hret, htaken⟩ := exists_taken b₁ b₂ hcb
        (mem_takenWith opcode shape h.shape_eq hflow) (pageOne_ne_of_wraps h.size_le hwraps)
      obtain ⟨m₁, es₁, hiter⟩ := h.iterating hat hret
      exact hwraps (((h.agrees_iff hat hiter).mp (hall _ _ _ _ _ _ hat hret)).2 htaken)
  · rintro ⟨hswaps, hrange⟩ beyond cycle m cycle' m' es hat hret
    obtain ⟨m₁, es₁, hiter⟩ := h.iterating hat hret
    exact (h.agrees_iff hat hiter).mpr
      ⟨hswaps, fun htaken => hrange (Iterating.flow_of_taken hiter htaken)⟩

/-- The disassembler knows every opcode with a shape. -/
theorem exists_known (hshape : shapeOf opcode = some shape) : ∃ op, Known opcode shape op := by
  obtain ⟨op, hop, hknows, hstruct⟩ := disOpOf_of_shape hshape
  exact ⟨op, hshape, hop, hknows, hstruct⟩

end Known

/-- **The emulator and the disassembler agree on operands** just when the bytes of an
    instruction on two operand bytes are the same, and the target of a branch is in the
    address space. -/
theorem operands_agree_iff (opcode b₁ b₂ : Byte) (addr : Word) (cb : Insn Unit)
    (hcb : handlerOf opcode = some cb) :
    ∃ op, disOpOf opcode = some op ∧
      (LineAgrees opcode b₁ b₂ addr ↔ AgreeWhen op b₁ b₂ addr) := by
  obtain ⟨shape, hshape, -⟩ := handlerOf_fetches hcb
  obtain ⟨op, hknown⟩ := exists_known hshape
  exact ⟨op, hknown.op_eq, hknown.lineAgrees_iff_agreeWhen hcb⟩

theorem operands_agree_iff_mov :
    ∃ op, disOpOf 0x8f = some op ∧ (LineAgrees 0x8f 0xaa 0xf4 0 ↔ AgreeWhen op 0xaa 0xf4 0) :=
  operands_agree_iff 0x8f 0xaa 0xf4 0 insnMovDpImm rfl

/-- `mov $f4,#$aa` is printed as `mov $aa,#$f4`, and `bra` to 0x0003 from 0xffff as a
    branch to 0x10003. -/
theorem operands_disagree :
    ¬ LineAgrees 0x8f 0xaa 0xf4 0 ∧ ¬ LineAgrees 0x2f 2 0 0xffff := by
  constructor
  · intro hline
    obtain ⟨op, hknown⟩ : ∃ op, Known 0x8f .immDp op := exists_known rfl
    have hcb : handlerOf 0x8f = some insnMovDpImm := rfl
    have hwhen := (hknown.lineAgrees_iff_agreeWhen hcb).mp hline
    cases (hknown.agreeWhen_iff.mp hwhen).1 (Or.inl rfl)
  · intro hline
    obtain ⟨op, hknown⟩ : ∃ op, Known 0x2f .rel op := exists_known rfl
    have hcb : handlerOf 0x2f = some insnBra := rfl
    have hwhen := (hknown.lineAgrees_iff_agreeWhen hcb).mp hline
    have hrange := (hknown.agreeWhen_iff.mp hwhen).2 rfl
    rw [unwrapped, hknown.size_eq] at hrange
    exact absurd hrange (by decide)

end SpuKit.Disasm
