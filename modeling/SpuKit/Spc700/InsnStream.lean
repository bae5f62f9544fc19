import SpuKit.Spc700.Stream

/-!
# What every instruction fetches

Each addressing mode and each family of instructions takes its operands from the
stream in one way, whatever the operation is. The table of the shapes goes
along with the table of the handlers.

## Main definitions

- `Shape` — the operands of an instruction and how it ends
- `shapes` — the shape of every opcode, nothing where there is no handler

## Main results

- `handlerOf_fetches` — every handler has the shape of its opcode
-/

namespace SpuKit.Spc700

section Modes

theorem reads_memLoadWord (addr : Word) : Reads [] (memLoadWord addr) :=
  (reads_memLoad _).bind fun _ => (reads_memLoad _).bind fun _ => reads_pure _

theorem reads_directPage : Reads [.directPage .only] directPage := reads_directPageAs .only

theorem reads_directPageIndirectY : Reads [.directPage .only] directPageIndirectY :=
  reads_directPage.bind fun _ => (reads_memLoadWord _).bind fun _ =>
    reads_getCpu.bind fun _ => reads_pure _

theorem reads_directPageXIndirect : Reads [.directPage .only] directPageXIndirect :=
  reads_directPageX.bind fun _ => reads_memLoadWord _

theorem reads_indirectX : Reads [] indirectX := reads_getCpu.bind fun _ => reads_pure _

theorem reads_indirectY : Reads [] indirectY := reads_getCpu.bind fun _ => reads_pure _

theorem reads_absoluteX : Reads [.absolute] absoluteX :=
  reads_absolute.bind fun _ => reads_getCpu.bind fun _ => reads_pure _

theorem reads_absoluteY : Reads [.absolute] absoluteY :=
  reads_absolute.bind fun _ => reads_getCpu.bind fun _ => reads_pure _

theorem reads_absoluteXIndirect : Reads [.absolute] absoluteXIndirect :=
  reads_absoluteX.bind fun _ => reads_memLoadWord _

theorem reads_bitaddrLoad (b : BitAddr) : Reads [] (bitaddrLoad b) :=
  (reads_memLoad _).bind fun _ => reads_pure _

theorem reads_popByte : Reads [] popByte :=
  (reads_onCpu fun _ => rfl).bind fun _ => reads_getCpu.bind fun _ => reads_memLoad _

theorem reads_popWord : Reads [] popWord :=
  reads_popByte.bind fun _ => reads_popByte.bind fun _ => reads_pure _

theorem ends_pushByte (byte : Byte) : Ends .straight (pushByte byte) :=
  reads_getCpu.bind_ends fun _ => (ends_memStore _ _).bind fun _ => ends_onCpu fun _ => rfl

theorem ends_memStoreWord (addr word : Word) : Ends .straight (memStoreWord addr word) :=
  (ends_memStore _ _).bind fun _ => ends_memStore _ _

/-- The program counter may be set to anything by a jump. -/
theorem ends_jump (x : Alu Unit) : Ends .jump (onCpu x) :=
  Program.Does.of_exec (fun _ => rfl) fun _ => ⟨⟨noClocks_nil, fun _ => rfl⟩, rfl⟩

theorem pushWord_does (word : Word) :
    (pushWord word).Does (fun m _ m' es => Frame m m' es ∧ trail es = [.pushWord word])
      Aborts := by
  have hbytes : Ends .straight (do
      pushByte ((word >>> 8).setWidth 8)
      pushByte (word.setWidth 8)) :=
    (ends_pushByte _).bind fun _ => ends_pushByte _
  refine Program.Does.bind (R := fun m _ m' es => m' = m ∧ es = [.pushWord word])
    (Program.Does.of_exec (fun _ => rfl) fun _ => ⟨rfl, rfl⟩) (fun _ => hbytes) ?_ ?_
  · rintro m u m' es es' ⟨-, rfl⟩ hstop
    exact hstop.prepend (noClocks_singleton fun _ => CpuEvent.noConfusion)
  · rintro m u _ v m' _ es' ⟨rfl, rfl⟩ ⟨hframe, htrail, -⟩
    refine ⟨⟨(noClocks_singleton fun _ => CpuEvent.noConfusion).append hframe.clocks,
      fun havoid => hframe.apu (avoidsMmio_append.mp havoid).2⟩, ?_⟩
    rw [trail_append, htrail]
    rfl

/-- The address of the next instruction is pushed. -/
theorem ends_call (addr : Word) : Ends .call (call addr) := by
  have hgoto : ∀ word, (do
      pushWord word
      modifyCpu fun c => { c with pc := addr } : Insn Unit).Does
        (fun m _ m' es => Frame m m' es ∧ trail es = [.pushWord word]) Aborts := by
    intro word
    refine Program.Does.bind (pushWord_does word) (fun _ => ends_jump _)
      (fun _ _ _ _ _ h hstop => hstop.prepend h.1.clocks) ?_
    rintro m u m₁ v m' es es' ⟨hframe, htrail⟩ ⟨hframe', htrail'⟩
    rw [Flow.Ends] at htrail'
    exact ⟨hframe.append hframe', by rw [trail_append, htrail, htrail', List.append_nil]⟩
  refine Program.Does.bind (R := fun m c m' es => c = m.cpu ∧ m' = m ∧ es = [])
    (Program.Does.of_exec (fun _ => rfl) fun _ => ⟨rfl, rfl, rfl⟩) (fun c => hgoto c.pc) ?_ ?_
  · rintro m c m' es es' ⟨-, -, rfl⟩ hstop
    exact hstop
  · rintro m c _ u m' _ es' ⟨rfl, rfl, rfl⟩ h
    exact h

end Modes

section Families

variable {roles : List Role} {mode : Insn Word}

theorem fetches_nop : Fetches [] .straight insnNop := (ends_pure ()).fetches

theorem fetches_callAbs : Fetches [.absolute] .call insnCallAbs :=
  reads_absolute.fetches fun _ => ends_call _

theorem fetches_tcall (slot : Byte) : Fetches [] .call (tcall slot) :=
  (reads_memLoadWord _).fetches fun _ => ends_call _

theorem fetches_jumpTo (hmode : Reads roles mode) : Fetches roles .jump (jumpTo mode) :=
  hmode.fetches fun _ => ends_jump _

theorem fetches_bra : Fetches [.relative] .branch insnBra :=
  fetches_relative branchesTo_branch

theorem fetches_branchIf (cond : Cpu → Bool) : Fetches [.relative] .branch (branchIf cond) :=
  fetches_relative fun disp => reads_getCpu.ends.bind_branchesTo fun _ =>
    branchesTo_branchWhen _ disp

theorem fetches_dbnzDp : Fetches [.directPage .only, .relative] .branch insnDbnzDp :=
  reads_directPage.bind_fetches fun _ => (reads_memLoad _).bind_fetches fun _ =>
    fetches_relative fun disp => (ends_onCpu fun _ => rfl).bind_branchesTo fun _ =>
      (branchesTo_branchWhen _ disp).bind fun _ => ends_memStore _ _

theorem fetches_dbnzY : Fetches [.relative] .branch insnDbnzY :=
  reads_getCpu.bind_fetches fun _ => fetches_relative fun disp =>
    (branchesTo_branchWhen _ disp).bind fun _ => ends_onCpu fun _ => rfl

theorem fetches_cbne {place : Place} (hmode : Reads [.directPage place] mode) :
    Fetches [.directPage place, .relative] .branch (cbne mode) :=
  hmode.bind_fetches fun _ => (reads_memLoad _).bind_fetches fun _ =>
    fetches_relative fun disp => reads_getCpu.ends.bind_branchesTo fun _ =>
      branchesTo_branchWhen _ disp

theorem fetches_branchOnBit (wanted : Bool) (bit : Nat) :
    Fetches [.directPage .only, .relative] .branch (branchOnBit wanted bit) :=
  reads_directPage.bind_fetches fun _ => fetches_relative fun disp =>
    (reads_memLoad _).ends.bind_branchesTo fun _ => branchesTo_branchWhen _ disp

theorem fetches_setDb (bit : Nat) : Fetches [.directPage .only] .straight (setDb bit) :=
  reads_directPage.fetches fun _ => (reads_memLoad _).bind_ends fun _ => ends_memStore _ _

theorem fetches_clrDb (bit : Nat) : Fetches [.directPage .only] .straight (clrDb bit) :=
  reads_directPage.fetches fun _ => (reads_memLoad _).bind_ends fun _ => ends_memStore _ _

theorem fetches_rmw {alu : Byte → Alu Byte} (hmode : Reads roles mode)
    (halu : ∀ operand, KeepsPc (alu operand)) : Fetches roles .straight (rmw mode alu) :=
  hmode.fetches fun _ => (reads_memLoad _).bind_ends fun operand =>
    (reads_onCpu (halu operand)).bind_ends fun _ => ends_memStore _ _

variable {alu : Byte → Byte → Alu Byte}

theorem fetches_onCpu {x : Alu Unit} (hx : KeepsPc x) : Fetches [] .straight (onCpu x) :=
  (ends_onCpu hx).fetches

theorem fetches_incAbs : Fetches [.absolute] .straight insnIncAbs :=
  reads_absolute.fetches fun _ => (reads_memLoad _).bind_ends fun _ =>
    (ends_memStore _ _).bind fun _ => ends_onCpu fun _ => rfl

theorem fetches_aluA (hmode : Reads roles mode) (halu : ∀ a b, KeepsPc (alu a b)) :
    Fetches roles .straight (aluA mode alu) :=
  hmode.fetches fun _ => (reads_memLoad _).bind_ends fun _ => ends_onCpu fun c => halu _ _ c

theorem fetches_aluAImm (halu : ∀ a b, KeepsPc (alu a b)) :
    Fetches [.immediate] .straight (aluAImm alu) :=
  reads_immediate.fetches fun _ => ends_onCpu fun c => halu _ _ c

theorem fetches_aluDpDp (halu : ∀ a b, KeepsPc (alu a b)) :
    Fetches [.directPage .source, .directPage .destination] .straight (aluDpDp alu) :=
  (reads_directPageAs .source).bind_fetches fun _ =>
    (reads_directPageAs .destination).fetches fun _ =>
      (reads_memLoad _).bind_ends fun _ => (reads_memLoad _).bind_ends fun _ =>
        (reads_onCpu (halu _ _)).bind_ends fun _ => ends_memStore _ _

theorem fetches_aluImmDp (halu : ∀ a b, KeepsPc (alu a b)) :
    Fetches [.immediate, .directPage .only] .straight (aluImmDp alu) :=
  reads_immediate.bind_fetches fun _ => reads_directPage.fetches fun _ =>
    (reads_memLoad _).bind_ends fun _ => (reads_onCpu (halu _ _)).bind_ends fun _ =>
      ends_memStore _ _

theorem fetches_aluDpImm (halu : ∀ a b, KeepsPc (alu a b)) :
    Fetches [.immediate, .directPage .only] .straight (aluDpImm alu) :=
  reads_immediate.bind_fetches fun _ => reads_directPage.fetches fun _ =>
    (reads_memLoad _).bind_ends fun _ => (reads_onCpu (halu _ _)).bind_ends fun _ =>
      ends_memStore _ _

theorem fetches_aluIxIy (halu : ∀ a b, KeepsPc (alu a b)) :
    Fetches [] .straight (aluIxIy alu) :=
  reads_indirectX.fetches fun _ => reads_indirectY.bind_ends fun _ =>
    (reads_memLoad _).bind_ends fun _ => (reads_memLoad _).bind_ends fun _ =>
      (reads_onCpu (halu _ _)).bind_ends fun _ => ends_memStore _ _

theorem fetches_cmpWith (reg : Cpu → Byte) (hmode : Reads roles mode) :
    Fetches roles .straight (cmpWith reg mode) :=
  hmode.fetches fun _ => (reads_memLoad _).bind_ends fun _ => reads_getCpu.bind_ends fun _ =>
    ends_onCpu fun _ => rfl

theorem fetches_cmpImm (reg : Cpu → Byte) : Fetches [.immediate] .straight (cmpImm reg) :=
  reads_immediate.fetches fun _ => reads_getCpu.bind_ends fun _ => ends_onCpu fun _ => rfl

theorem fetches_cmpDpDp :
    Fetches [.directPage .source, .directPage .destination] .straight insnCmpDpDp :=
  (reads_directPageAs .source).bind_fetches fun _ =>
    (reads_directPageAs .destination).fetches fun _ =>
      (reads_memLoad _).bind_ends fun _ => (reads_memLoad _).bind_ends fun _ =>
        ends_onCpu fun _ => rfl

theorem fetches_cmpDpImm : Fetches [.immediate, .directPage .only] .straight insnCmpDpImm :=
  reads_immediate.bind_fetches fun _ => reads_directPage.fetches fun _ =>
    (reads_memLoad _).bind_ends fun _ => ends_onCpu fun _ => rfl

theorem fetches_cmpIxIy : Fetches [] .straight insnCmpIxIy :=
  reads_indirectX.fetches fun _ => reads_indirectY.bind_ends fun _ =>
    (reads_memLoad _).bind_ends fun _ => (reads_memLoad _).bind_ends fun _ =>
      ends_onCpu fun _ => rfl

variable {set : Byte → Alu Unit}

theorem fetches_load (hmode : Reads roles mode) (hset : ∀ v, KeepsPc (set v)) :
    Fetches roles .straight (load set mode) :=
  hmode.fetches fun _ => (reads_memLoad _).bind_ends fun _ => ends_onCpu fun _ => hset _ _

theorem fetches_loadImm (hset : ∀ v, KeepsPc (set v)) :
    Fetches [.immediate] .straight (loadImm set) :=
  reads_immediate.fetches fun _ => ends_onCpu fun _ => hset _ _

theorem fetches_store (reg : Cpu → Byte) (hmode : Reads roles mode) :
    Fetches roles .straight (store reg mode) :=
  hmode.fetches fun _ => reads_getCpu.bind_ends fun _ => ends_memStore _ _

theorem fetches_movXAbs : Fetches [.absolute] .straight insnMovXAbs :=
  reads_absolute.fetches fun _ => (reads_memLoad _).bind_ends fun _ => ends_onCpu fun _ => rfl

theorem fetches_movXDp : Fetches [.directPage .only] .straight insnMovXDp :=
  reads_directPage.fetches fun _ => (reads_memLoad _).bind_ends fun _ => ends_onCpu fun _ => rfl

theorem fetches_movDpImm : Fetches [.immediate, .directPage .only] .straight insnMovDpImm :=
  reads_immediate.bind_fetches fun _ => reads_directPage.fetches fun _ => ends_memStore _ _

theorem fetches_movDpDp :
    Fetches [.directPage .source, .directPage .destination] .straight insnMovDpDp :=
  (reads_directPageAs .source).bind_fetches fun _ =>
    (reads_directPageAs .destination).fetches fun _ =>
      (reads_memLoad _).bind_ends fun _ => ends_memStore _ _

theorem fetches_push (reg : Cpu → Byte) : Fetches [] .straight (push reg) :=
  reads_getCpu.fetches fun _ => ends_pushByte _

theorem fetches_pop (hset : ∀ v, KeepsPc (set v)) : Fetches [] .straight (pop set) :=
  reads_popByte.fetches fun v => ends_onCpu (hset v)

theorem fetches_carryWith (op : Bool → Bool → Bool) :
    Fetches [.bitaddr] .straight (carryWith op) :=
  reads_bitaddr.fetches fun _ => (reads_bitaddrLoad _).bind_ends fun _ => ends_onCpu fun _ => rfl

theorem fetches_mov1Store : Fetches [.bitaddr] .straight insnMov1Store :=
  reads_bitaddr.fetches fun _ => reads_getCpu.bind_ends fun _ =>
    (reads_memLoad _).bind_ends fun _ => ends_memStore _ _

theorem fetches_not1 : Fetches [.bitaddr] .straight insnNot1 :=
  reads_bitaddr.fetches fun _ => (reads_memLoad _).bind_ends fun _ => ends_memStore _ _

theorem fetches_testAndStore (op : Byte → Byte → Byte) :
    Fetches [.absolute] .straight (testAndStore op) :=
  reads_absolute.fetches fun _ => (reads_memLoad _).bind_ends fun _ =>
    reads_getCpu.bind_ends fun _ => (ends_memStore _ _).bind fun _ => ends_onCpu fun _ => rfl

theorem fetches_stepWord (step : Word) : Fetches [.directPage .only] .straight (stepWord step) :=
  reads_directPage.fetches fun _ => (reads_memLoadWord _).bind_ends fun _ =>
    (ends_onCpu fun _ => rfl).bind fun _ => ends_memStore _ _

theorem fetches_aluYa {op : Word → Alu Unit} (hop : ∀ v, KeepsPc (op v)) :
    Fetches [.directPage .only] .straight (aluYa op) :=
  reads_directPage.fetches fun _ => (reads_memLoadWord _).bind_ends fun v => ends_onCpu (hop v)

theorem fetches_movwDpYa : Fetches [.directPage .only] .straight insnMovwDpYa :=
  reads_directPage.fetches fun _ => reads_getCpu.bind_ends fun _ => ends_memStoreWord _ _

end Families

-- ════════════════════════════════════════════════════════════════════════
-- The table
-- ════════════════════════════════════════════════════════════════════════

/-- The operands of an instruction, and how it ends. -/
structure Shape where
  roles : List Role
  flow : Flow
  deriving DecidableEq

namespace Shape

def plain : Shape := ⟨[], .straight⟩
def imm : Shape := ⟨[.immediate], .straight⟩
def dp : Shape := ⟨[.directPage .only], .straight⟩
def dpDp : Shape := ⟨[.directPage .source, .directPage .destination], .straight⟩
def immDp : Shape := ⟨[.immediate, .directPage .only], .straight⟩
def abs : Shape := ⟨[.absolute], .straight⟩
def bit : Shape := ⟨[.bitaddr], .straight⟩
def rel : Shape := ⟨[.relative], .branch⟩
def dpRel : Shape := ⟨[.directPage .only, .relative], .branch⟩
def jmpAbs : Shape := ⟨[.absolute], .jump⟩
def ret : Shape := ⟨[], .jump⟩
def callAbs : Shape := ⟨[.absolute], .call⟩
def tcall : Shape := ⟨[], .call⟩

def all : List Shape :=
  [plain, imm, dp, dpDp, immDp, abs, bit, rel, dpRel, jmpAbs, ret, callAbs, tcall]

end Shape

/-- The shapes of the instructions by opcode. -/
def shapes : List (Option Shape) := [
  -- 0x00
  some .plain, some .tcall, some .dp, some .dpRel, some .dp, some .abs, some .plain, some .dp,
  some .imm, some .dpDp, some .bit, some .dp, some .abs, some .plain, some .abs, none,
  -- 0x10
  some .rel, some .tcall, some .dp, some .dpRel, some .dp, some .abs, some .abs, some .dp,
  some .immDp, some .plain, some .dp, some .dp, some .plain, some .plain, none, some .jmpAbs,
  -- 0x20
  some .plain, some .tcall, some .dp, some .dpRel, some .dp, some .abs, some .plain, some .dp,
  some .imm, some .dpDp, some .bit, some .dp, some .abs, some .plain, some .dpRel, some .rel,
  -- 0x30
  some .rel, some .tcall, some .dp, some .dpRel, some .dp, some .abs, some .abs, some .dp,
  some .immDp, some .plain, some .dp, some .dp, some .plain, some .plain, none, some .callAbs,
  -- 0x40
  some .plain, some .tcall, some .dp, some .dpRel, some .dp, some .abs, some .plain, some .dp,
  some .imm, some .dpDp, some .bit, some .dp, some .abs, some .plain, some .abs, none,
  -- 0x50
  none, some .tcall, some .dp, some .dpRel, some .dp, some .abs, some .abs, some .dp, some .immDp,
  some .plain, some .dp, some .dp, some .plain, some .plain, none, some .jmpAbs,
  -- 0x60
  some .plain, some .tcall, some .dp, some .dpRel, some .dp, some .abs, some .plain, some .dp,
  some .imm, some .dpDp, some .bit, some .dp, some .abs, some .plain, some .dpRel, some .ret,
  -- 0x70
  none, some .tcall, some .dp, some .dpRel, some .dp, some .abs, some .abs, some .dp, some .immDp,
  some .plain, some .dp, some .dp, some .plain, some .plain, some .dp, none,
  -- 0x80
  some .plain, some .tcall, some .dp, some .dpRel, some .dp, some .abs, some .plain, some .dp,
  some .imm, some .dpDp, some .bit, some .dp, some .abs, some .imm, some .plain, some .immDp,
  -- 0x90
  some .rel, some .tcall, some .dp, some .dpRel, some .dp, some .abs, some .abs, some .dp,
  some .immDp, some .plain, some .dp, some .dp, some .plain, none, some .plain, some .plain,
  -- 0xa0
  some .plain, some .tcall, some .dp, some .dpRel, some .dp, some .abs, some .plain, some .dp,
  some .imm, some .dpDp, some .bit, some .dp, some .abs, some .imm, some .plain, none,
  -- 0xb0
  some .rel, some .tcall, some .dp, some .dpRel, some .dp, some .abs, some .abs, some .dp,
  some .immDp, some .plain, some .dp, some .dp, some .plain, none, none, none,
  -- 0xc0
  some .plain, some .tcall, some .dp, some .dpRel, some .dp, some .abs, some .plain, some .dp,
  some .imm, some .abs, some .bit, some .dp, some .abs, some .imm, some .plain, some .plain,
  -- 0xd0
  some .rel, some .tcall, some .dp, some .dpRel, some .dp, some .abs, some .abs, some .dp,
  some .dp, none, some .dp, some .dp, some .plain, some .plain, some .dpRel, none,
  -- 0xe0
  some .plain, some .tcall, some .dp, some .dpRel, some .dp, some .abs, some .plain, some .dp,
  some .imm, some .abs, some .bit, some .dp, some .abs, some .plain, some .plain, none,
  -- 0xf0
  some .rel, some .tcall, some .dp, some .dpRel, some .dp, some .abs, some .abs, some .dp,
  some .dp, none, some .dpDp, some .dp, some .plain, some .plain, some .rel, none ]

/-- A handler has a shape; there is no shape where there is no handler. -/
def Fits : Option Shape → Option (Insn Unit) → Prop
  | some shape, some cb => Fetches shape.roles shape.flow cb
  | none, none => True
  | _, _ => False

set_option maxRecDepth 2000 in
/-- Every handler of the table has the shape at its place. -/
theorem shapes_fit : List.Forall₂ Fits shapes opcodeTbl :=
  .cons fetches_nop <| .cons (fetches_tcall _) <| .cons (fetches_setDb _) <|
  .cons (fetches_branchOnBit _ _) <| .cons (fetches_aluA reads_directPage fun _ _ _ => rfl) <|
  .cons (fetches_aluA reads_absolute fun _ _ _ => rfl) <|
  .cons (fetches_aluA reads_indirectX fun _ _ _ => rfl) <|
  .cons (fetches_aluA reads_directPageXIndirect fun _ _ _ => rfl) <|
  .cons (fetches_aluAImm fun _ _ _ => rfl) <| .cons (fetches_aluDpDp fun _ _ _ => rfl) <|
  .cons (fetches_carryWith _) <| .cons (fetches_rmw reads_directPage fun _ _ => rfl) <|
  .cons (fetches_rmw reads_absolute fun _ _ => rfl) <| .cons (fetches_push _) <|
  .cons (fetches_testAndStore _) <| .cons True.intro <|
  .cons (fetches_branchIf _) <| .cons (fetches_tcall _) <| .cons (fetches_clrDb _) <|
  .cons (fetches_branchOnBit _ _) <| .cons (fetches_aluA reads_directPageX fun _ _ _ => rfl) <|
  .cons (fetches_aluA reads_absoluteX fun _ _ _ => rfl) <|
  .cons (fetches_aluA reads_absoluteY fun _ _ _ => rfl) <|
  .cons (fetches_aluA reads_directPageIndirectY fun _ _ _ => rfl) <|
  .cons (fetches_aluImmDp fun _ _ _ => rfl) <| .cons (fetches_aluIxIy fun _ _ _ => rfl) <|
  .cons (fetches_stepWord _) <| .cons (fetches_rmw reads_directPageX fun _ _ => rfl) <|
  .cons (fetches_onCpu fun _ => rfl) <| .cons (fetches_onCpu fun _ => rfl) <| .cons True.intro <|
  .cons (fetches_jumpTo reads_absoluteXIndirect) <|
  .cons (fetches_onCpu fun _ => rfl) <| .cons (fetches_tcall _) <| .cons (fetches_setDb _) <|
  .cons (fetches_branchOnBit _ _) <| .cons (fetches_aluA reads_directPage fun _ _ _ => rfl) <|
  .cons (fetches_aluA reads_absolute fun _ _ _ => rfl) <|
  .cons (fetches_aluA reads_indirectX fun _ _ _ => rfl) <|
  .cons (fetches_aluA reads_directPageXIndirect fun _ _ _ => rfl) <|
  .cons (fetches_aluAImm fun _ _ _ => rfl) <| .cons (fetches_aluDpDp fun _ _ _ => rfl) <|
  .cons (fetches_carryWith _) <| .cons (fetches_rmw reads_directPage fun _ _ => rfl) <|
  .cons (fetches_rmw reads_absolute fun _ _ => rfl) <| .cons (fetches_push _) <|
  .cons (fetches_cbne reads_directPage) <| .cons fetches_bra <|
  .cons (fetches_branchIf _) <| .cons (fetches_tcall _) <| .cons (fetches_clrDb _) <|
  .cons (fetches_branchOnBit _ _) <| .cons (fetches_aluA reads_directPageX fun _ _ _ => rfl) <|
  .cons (fetches_aluA reads_absoluteX fun _ _ _ => rfl) <|
  .cons (fetches_aluA reads_absoluteY fun _ _ _ => rfl) <|
  .cons (fetches_aluA reads_directPageIndirectY fun _ _ _ => rfl) <|
  .cons (fetches_aluImmDp fun _ _ _ => rfl) <| .cons (fetches_aluIxIy fun _ _ _ => rfl) <|
  .cons (fetches_stepWord _) <| .cons (fetches_rmw reads_directPageX fun _ _ => rfl) <|
  .cons (fetches_onCpu fun _ => rfl) <| .cons (fetches_onCpu fun _ => rfl) <| .cons True.intro <|
  .cons fetches_callAbs <|
  .cons (fetches_onCpu fun _ => rfl) <| .cons (fetches_tcall _) <| .cons (fetches_setDb _) <|
  .cons (fetches_branchOnBit _ _) <| .cons (fetches_aluA reads_directPage fun _ _ _ => rfl) <|
  .cons (fetches_aluA reads_absolute fun _ _ _ => rfl) <|
  .cons (fetches_aluA reads_indirectX fun _ _ _ => rfl) <|
  .cons (fetches_aluA reads_directPageXIndirect fun _ _ _ => rfl) <|
  .cons (fetches_aluAImm fun _ _ _ => rfl) <| .cons (fetches_aluDpDp fun _ _ _ => rfl) <|
  .cons (fetches_carryWith _) <| .cons (fetches_rmw reads_directPage fun _ _ => rfl) <|
  .cons (fetches_rmw reads_absolute fun _ _ => rfl) <| .cons (fetches_push _) <|
  .cons (fetches_testAndStore _) <| .cons True.intro <|
  .cons True.intro <| .cons (fetches_tcall _) <| .cons (fetches_clrDb _) <|
  .cons (fetches_branchOnBit _ _) <| .cons (fetches_aluA reads_directPageX fun _ _ _ => rfl) <|
  .cons (fetches_aluA reads_absoluteX fun _ _ _ => rfl) <|
  .cons (fetches_aluA reads_absoluteY fun _ _ _ => rfl) <|
  .cons (fetches_aluA reads_directPageIndirectY fun _ _ _ => rfl) <|
  .cons (fetches_aluImmDp fun _ _ _ => rfl) <| .cons (fetches_aluIxIy fun _ _ _ => rfl) <|
  .cons (fetches_aluYa fun _ _ => rfl) <| .cons (fetches_rmw reads_directPageX fun _ _ => rfl) <|
  .cons (fetches_onCpu fun _ => rfl) <| .cons (fetches_onCpu fun _ => rfl) <| .cons True.intro <|
  .cons (fetches_jumpTo reads_absolute) <|
  .cons (fetches_onCpu fun _ => rfl) <| .cons (fetches_tcall _) <| .cons (fetches_setDb _) <|
  .cons (fetches_branchOnBit _ _) <| .cons (fetches_cmpWith _ reads_directPage) <|
  .cons (fetches_cmpWith _ reads_absolute) <| .cons (fetches_cmpWith _ reads_indirectX) <|
  .cons (fetches_cmpWith _ reads_directPageXIndirect) <| .cons (fetches_cmpImm _) <|
  .cons fetches_cmpDpDp <| .cons (fetches_carryWith _) <|
  .cons (fetches_rmw reads_directPage fun _ _ => rfl) <|
  .cons (fetches_rmw reads_absolute fun _ _ => rfl) <| .cons (fetches_push _) <|
  .cons fetches_dbnzDp <| .cons (fetches_jumpTo reads_popWord) <|
  .cons True.intro <| .cons (fetches_tcall _) <| .cons (fetches_clrDb _) <|
  .cons (fetches_branchOnBit _ _) <| .cons (fetches_cmpWith _ reads_directPageX) <|
  .cons (fetches_cmpWith _ reads_absoluteX) <| .cons (fetches_cmpWith _ reads_absoluteY) <|
  .cons (fetches_cmpWith _ reads_directPageIndirectY) <| .cons fetches_cmpDpImm <|
  .cons fetches_cmpIxIy <| .cons (fetches_aluYa fun _ _ => rfl) <|
  .cons (fetches_rmw reads_directPageX fun _ _ => rfl) <| .cons (fetches_onCpu fun _ => rfl) <|
  .cons (fetches_onCpu fun _ => rfl) <| .cons (fetches_cmpWith _ reads_directPage) <|
  .cons True.intro <|
  .cons (fetches_onCpu fun _ => rfl) <| .cons (fetches_tcall _) <| .cons (fetches_setDb _) <|
  .cons (fetches_branchOnBit _ _) <| .cons (fetches_aluA reads_directPage fun _ _ _ => rfl) <|
  .cons (fetches_aluA reads_absolute fun _ _ _ => rfl) <|
  .cons (fetches_aluA reads_indirectX fun _ _ _ => rfl) <|
  .cons (fetches_aluA reads_directPageXIndirect fun _ _ _ => rfl) <|
  .cons (fetches_aluAImm fun _ _ _ => rfl) <| .cons (fetches_aluDpDp fun _ _ _ => rfl) <|
  .cons (fetches_carryWith _) <| .cons (fetches_rmw reads_directPage fun _ _ => rfl) <|
  .cons (fetches_rmw reads_absolute fun _ _ => rfl) <| .cons (fetches_loadImm fun _ _ => rfl) <|
  .cons (fetches_pop fun _ _ => rfl) <| .cons fetches_movDpImm <|
  .cons (fetches_branchIf _) <| .cons (fetches_tcall _) <| .cons (fetches_clrDb _) <|
  .cons (fetches_branchOnBit _ _) <| .cons (fetches_aluA reads_directPageX fun _ _ _ => rfl) <|
  .cons (fetches_aluA reads_absoluteX fun _ _ _ => rfl) <|
  .cons (fetches_aluA reads_absoluteY fun _ _ _ => rfl) <|
  .cons (fetches_aluA reads_directPageIndirectY fun _ _ _ => rfl) <|
  .cons (fetches_aluDpImm fun _ _ _ => rfl) <| .cons (fetches_aluIxIy fun _ _ _ => rfl) <|
  .cons (fetches_aluYa fun _ _ => rfl) <| .cons (fetches_rmw reads_directPageX fun _ _ => rfl) <|
  .cons (fetches_onCpu fun _ => rfl) <| .cons True.intro <| .cons (fetches_onCpu keepsPc_div) <|
  .cons (fetches_onCpu fun _ => rfl) <|
  .cons (fetches_onCpu fun _ => rfl) <| .cons (fetches_tcall _) <| .cons (fetches_setDb _) <|
  .cons (fetches_branchOnBit _ _) <| .cons (fetches_aluA reads_directPage fun _ _ _ => rfl) <|
  .cons (fetches_aluA reads_absolute fun _ _ _ => rfl) <|
  .cons (fetches_aluA reads_indirectX fun _ _ _ => rfl) <|
  .cons (fetches_aluA reads_directPageXIndirect fun _ _ _ => rfl) <|
  .cons (fetches_aluAImm fun _ _ _ => rfl) <| .cons (fetches_aluDpDp fun _ _ _ => rfl) <|
  .cons (fetches_carryWith _) <| .cons (fetches_rmw reads_directPage fun _ _ => rfl) <|
  .cons fetches_incAbs <| .cons (fetches_cmpImm _) <| .cons (fetches_pop fun _ _ => rfl) <|
  .cons True.intro <|
  .cons (fetches_branchIf _) <| .cons (fetches_tcall _) <| .cons (fetches_clrDb _) <|
  .cons (fetches_branchOnBit _ _) <| .cons (fetches_aluA reads_directPageX fun _ _ _ => rfl) <|
  .cons (fetches_aluA reads_absoluteX fun _ _ _ => rfl) <|
  .cons (fetches_aluA reads_absoluteY fun _ _ _ => rfl) <|
  .cons (fetches_aluA reads_directPageIndirectY fun _ _ _ => rfl) <|
  .cons (fetches_aluDpImm fun _ _ _ => rfl) <| .cons (fetches_aluIxIy fun _ _ _ => rfl) <|
  .cons (fetches_aluYa fun _ _ => rfl) <| .cons (fetches_rmw reads_directPageX fun _ _ => rfl) <|
  .cons (fetches_onCpu fun _ => rfl) <| .cons True.intro <| .cons True.intro <| .cons True.intro <|
  .cons (fetches_onCpu fun _ => rfl) <| .cons (fetches_tcall _) <| .cons (fetches_setDb _) <|
  .cons (fetches_branchOnBit _ _) <| .cons (fetches_store _ reads_directPage) <|
  .cons (fetches_store _ reads_absolute) <| .cons (fetches_store _ reads_indirectX) <|
  .cons (fetches_store _ reads_directPageX) <| .cons (fetches_cmpImm _) <|
  .cons (fetches_store _ reads_absolute) <| .cons fetches_mov1Store <|
  .cons (fetches_store _ reads_directPage) <| .cons (fetches_store _ reads_absolute) <|
  .cons (fetches_loadImm fun _ _ => rfl) <| .cons (fetches_pop fun _ _ => rfl) <|
  .cons (fetches_onCpu fun _ => rfl) <|
  .cons (fetches_branchIf _) <| .cons (fetches_tcall _) <| .cons (fetches_clrDb _) <|
  .cons (fetches_branchOnBit _ _) <| .cons (fetches_store _ reads_directPageX) <|
  .cons (fetches_store _ reads_absoluteX) <| .cons (fetches_store _ reads_absoluteY) <|
  .cons (fetches_store _ reads_directPageIndirectY) <| .cons (fetches_store _ reads_directPage) <|
  .cons True.intro <| .cons fetches_movwDpYa <| .cons (fetches_store _ reads_directPageX) <|
  .cons (fetches_onCpu fun _ => rfl) <| .cons (fetches_onCpu fun _ => rfl) <|
  .cons (fetches_cbne reads_directPageX) <| .cons True.intro <|
  .cons (fetches_onCpu fun _ => rfl) <| .cons (fetches_tcall _) <| .cons (fetches_setDb _) <|
  .cons (fetches_branchOnBit _ _) <| .cons (fetches_load reads_directPage fun _ _ => rfl) <|
  .cons (fetches_load reads_absolute fun _ _ => rfl) <|
  .cons (fetches_load reads_indirectX fun _ _ => rfl) <|
  .cons (fetches_load reads_directPageXIndirect fun _ _ => rfl) <|
  .cons (fetches_loadImm fun _ _ => rfl) <| .cons fetches_movXAbs <| .cons fetches_not1 <|
  .cons (fetches_load reads_directPage fun _ _ => rfl) <|
  .cons (fetches_load reads_absolute fun _ _ => rfl) <| .cons (fetches_onCpu fun _ => rfl) <|
  .cons (fetches_pop fun _ _ => rfl) <| .cons True.intro <|
  .cons (fetches_branchIf _) <| .cons (fetches_tcall _) <| .cons (fetches_clrDb _) <|
  .cons (fetches_branchOnBit _ _) <| .cons (fetches_load reads_directPageX fun _ _ => rfl) <|
  .cons (fetches_load reads_absoluteX fun _ _ => rfl) <|
  .cons (fetches_load reads_absoluteY fun _ _ => rfl) <|
  .cons (fetches_load reads_directPageIndirectY fun _ _ => rfl) <| .cons fetches_movXDp <|
  .cons True.intro <| .cons fetches_movDpDp <|
  .cons (fetches_load reads_directPageX fun _ _ => rfl) <| .cons (fetches_onCpu fun _ => rfl) <|
  .cons (fetches_onCpu fun _ => rfl) <| .cons fetches_dbnzY <| .cons True.intro .nil

/-- The shape of the instruction of an opcode. -/
def shapeOf (opcode : Byte) : Option Shape := shapes[opcode.toNat]?.join

set_option maxRecDepth 4000 in
theorem shapes_all :
    (shapes.all fun s => s.all fun shape => decide (shape ∈ Shape.all)) = true := by
  decide +kernel

theorem shapeOf_mem {opcode : Byte} {shape : Shape} (h : shapeOf opcode = some shape) :
    shape ∈ Shape.all := by
  rw [shapeOf, Option.join_eq_some_iff] at h
  have hmem := List.all_eq_true.mp shapes_all _ (List.mem_of_getElem? h)
  exact of_decide_eq_true hmem

/-- What stands at one place of two tables that go along with each other. -/
theorem fits_join {ss : List (Option Shape)} {cbs : List (Option (Insn Unit))}
    (hfit : List.Forall₂ Fits ss cbs) {i : Nat} {cb : Insn Unit} (h : cbs[i]?.join = some cb) :
    ∃ shape, ss[i]?.join = some shape ∧ Fetches shape.roles shape.flow cb := by
  induction hfit generalizing i with
  | nil => cases h
  | @cons s c ss cbs hsc _ ih =>
    cases i with
    | zero =>
      obtain rfl : c = some cb := h
      cases s with
      | none => exact hsc.elim
      | some shape => exact ⟨shape, rfl, hsc⟩
    | succ i => exact ih h

/-- **Every handler has the shape of its opcode.** -/
theorem handlerOf_fetches {opcode : Byte} {cb : Insn Unit} (h : handlerOf opcode = some cb) :
    ∃ shape, shapeOf opcode = some shape ∧ Fetches shape.roles shape.flow cb :=
  fits_join shapes_fit h

-- ════════════════════════════════════════════════════════════════════════
-- One round of the loop
-- ════════════════════════════════════════════════════════════════════════

/-- The machine after `fetch_insn`. -/
def afterFetch (m : Machine) : Machine := { m with cpu := { m.cpu with pc := m.cpu.pc + 1 } }

/-- A round of the loop that does not leave it: the opcode is fetched, its
    instruction is executed, and the clocks are updated. -/
structure Iterating (beyond : Nat → Byte) (cycle : BitVec 32) (m : Machine) (shape : Shape)
    (m₁ m' : Machine) (es₁ es : List CpuEvent) : Prop where
  shape_eq : shapeOf (m.aram m.cpu.pc) = some shape
  fetching : Fetching shape.roles shape.flow (afterFetch m) m₁ es₁
  clocks : m' = (updateClocks beyond (cycle + 4) m₁).val
  events : es = .fetch m.cpu.pc :: es₁ ++
    (updateClocks beyond (cycle + 4) m₁).events.map CpuEvent.clock

/-- What one round of the loop does. -/
def Iterates (beyond : Nat → Byte) (cycle : BitVec 32) (m : Machine) (r : Option (BitVec 32))
    (m' : Machine) (es : List CpuEvent) : Prop :=
  r = none ∧ handlerOf (m.aram m.cpu.pc) = none ∧ NoClocks es ∨
    r = some (cycle + 4) ∧ ∃ shape m₁ es₁, Iterating beyond cycle m shape m₁ m' es₁ es

theorem exec_fetchInsn (m : Machine) :
    Program.exec fetchInsn m = ⟨some (m.aram m.cpu.pc, afterFetch m), [.fetch m.cpu.pc]⟩ := rfl

theorem exec_onClocks (x : Machine → Traced ClockEvent Machine) (m : Machine) :
    Program.exec (onClocks x) m = ⟨some ((), (x m).val), (x m).events.map CpuEvent.clock⟩ := rfl

/-- What follows the opcode, when it has a handler. -/
theorem handler_does (beyond : Nat → Byte) (cycle : BitVec 32) {cb : Insn Unit} {shape : Shape}
    (hcb : Fetches shape.roles shape.flow cb) :
    (do
      cb
      onClocks (updateClocks beyond (cycle + 4))
      pure (some (cycle + 4)) : Insn (Option (BitVec 32))).Does
      (fun m r m' es => r = some (cycle + 4) ∧ ∃ m₁ es₁,
        Fetching shape.roles shape.flow m m₁ es₁ ∧
        m' = (updateClocks beyond (cycle + 4) m₁).val ∧
        es = es₁ ++ (updateClocks beyond (cycle + 4) m₁).events.map CpuEvent.clock)
      Aborts := by
  have hclocks : (do
      onClocks (updateClocks beyond (cycle + 4))
      pure (some (cycle + 4)) : Insn (Option (BitVec 32))).Does
      (fun m r m' es => r = some (cycle + 4) ∧ m' = (updateClocks beyond (cycle + 4) m).val ∧
        es = (updateClocks beyond (cycle + 4) m).events.map CpuEvent.clock) Aborts := by
    refine Program.Does.of_exec (fun m => ?_) fun m => ⟨rfl, rfl, rfl⟩
    rw [Program.exec_bind_of_returns (exec_onClocks _ m), Program.exec_pure, List.append_nil]
  refine Program.Does.bind hcb (fun _ => hclocks) ?_ ?_
  · rintro m u m' es es' ⟨m₁, es₁, es₂, hread, hframe, -, rfl⟩ hstop
    exact hstop.prepend (hread.frame.append hframe).clocks
  · rintro m u m₁ r m' es es' hfetch ⟨rfl, rfl, rfl⟩
    exact ⟨rfl, m₁, es, hfetch, rfl, rfl⟩

/-- **Round**: the loop fetches an opcode and executes its instruction. -/
theorem iteration_does (beyond : Nat → Byte) (cycle : BitVec 32) :
    (iteration beyond cycle).Does (Iterates beyond cycle) Aborts where
  returns {m r m' es} hret := by
    obtain ⟨opcode, m₀, es₀, es₁, hfetch, hrest, rfl⟩ := Program.returns_bind.mp hret
    obtain ⟨rfl, rfl, rfl⟩ := Program.Returns.unique (exec_fetchInsn m) hfetch
    cases hcb : handlerOf (m.aram m.cpu.pc) with
    | none =>
      rw [hcb] at hrest
      obtain ⟨rfl, rfl, rfl⟩ := Program.returns_pure.mp hrest
      exact Or.inl ⟨rfl, hcb, noClocks_singleton fun _ => CpuEvent.noConfusion⟩
    | some cb =>
      rw [hcb] at hrest
      obtain ⟨shape, hshape, hfits⟩ := handlerOf_fetches hcb
      obtain ⟨rfl, m₁, es₂, hfetching, rfl, rfl⟩ :=
        (handler_does beyond cycle hfits).returns hrest
      exact Or.inr ⟨rfl, shape, m₁, es₂, hshape, hfetching, rfl, rfl⟩
  stops {m es} hstop := by
    obtain hstop | ⟨opcode, m₀, es₀, es₁, hfetch, hrest, rfl⟩ := Program.stops_bind.mp hstop
    · cases congrArg Traced.val (Eq.trans (Eq.symm (exec_fetchInsn m)) hstop)
    obtain ⟨rfl, rfl, rfl⟩ := Program.Returns.unique (exec_fetchInsn m) hfetch
    cases hcb : handlerOf (m.aram m.cpu.pc) with
    | none =>
      rw [hcb] at hrest
      cases congrArg Traced.val hrest
    | some cb =>
      rw [hcb] at hrest
      obtain ⟨shape, -, hfits⟩ := handlerOf_fetches hcb
      exact ((handler_does beyond cycle hfits).stops hrest).prepend
        (noClocks_singleton fun _ => CpuEvent.noConfusion)

theorem branchTaken_mem_trail (es : List CpuEvent) :
    .branchTaken ∈ trail es ↔ .branchTaken ∈ es := by
  rw [trail, List.mem_filter]
  exact and_iff_left rfl

theorem trail_clocks (ces : List ClockEvent) : trail (ces.map .clock) = [] := by
  rw [trail, List.filter_eq_nil_iff]
  intro e he
  obtain ⟨c, -, rfl⟩ := List.mem_map.mp he
  exact Bool.false_ne_true

theorem updateClocks_cpu (beyond : Nat → Byte) (cycle : BitVec 32) (m : Machine) :
    (updateClocks beyond cycle m).val.cpu = m.cpu := by
  rw [updateClocks]
  split
  · exact apuUpdateClocks_cpu beyond cycle m
  · rfl

/-- **Round**: the opcode, the operands, and the end of the instruction. -/
theorem Iterating.trail_eq {beyond : Nat → Byte} {cycle : BitVec 32} {shape : Shape}
    {m m₁ m' : Machine} {es₁ es : List CpuEvent}
    (h : Iterating beyond cycle m shape m₁ m' es₁ es) :
    ∃ m₀ tail, trail es = .fetch m.cpu.pc :: stream m.aram (m.cpu.pc + 1) shape.roles ++ tail ∧
      shape.flow.Ends m₀ m' tail ∧ m₀.aram = m.aram ∧
      m₀.cpu.pc = m.cpu.pc + 1 + BitVec.ofNat 16 (size shape.roles) := by
  obtain ⟨m₀, tail, htrail, hends, haram, hpc⟩ := h.fetching.trail_eq
  have hcpu : m'.cpu = m₁.cpu := by
    rw [h.clocks, updateClocks_cpu]
  refine ⟨m₀, tail, ?_, ?_, haram, hpc⟩
  · rw [h.events, trail_append, trail_clocks, List.append_nil]
    exact congrArg (CpuEvent.fetch m.cpu.pc :: ·) htrail
  · cases hflow : shape.flow <;>
      simp only [hflow, Flow.Ends, BranchEnds, hcpu] at hends ⊢ <;> exact hends

end SpuKit.Spc700
