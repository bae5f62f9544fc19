import SpuKit.Disasm.Shapes
import SpuKit.Spc700.DeviceHistory

/-!
# The length of an instruction

The emulator fetches as many bytes of an instruction as the disassembler takes
for it, and goes on at the address the disassembler goes on at, unless the
instruction sends it elsewhere. The process may also end on the way: an access of
DSPDATA aborts when the DSP register is out of range.

## Main definitions

- `fetched`, `pushed` — the bytes fetched and the words pushed by a round
- `Consumes` — a round consumes an instruction of a length

## Main results

- `insn_length` — every round consumes an instruction as the disassembler has it
-/

namespace SpuKit.Disasm

open Spc700

/-- The addresses bytes were fetched from. -/
def fetched (es : List CpuEvent) : List Word :=
  es.filterMap fun
    | .fetch addr => some addr
    | _ => none

/-- The words that were pushed. -/
def pushed (es : List CpuEvent) : List Word :=
  es.filterMap fun
    | .pushWord word => some word
    | _ => none

/-- The address of the instruction after one with so many bytes of operands. -/
def nextPc (pc : Word) (size : Nat) : Word := pc + 1 + BitVec.ofNat 16 size

/-- A round consumed an opcode and so many bytes of operands. -/
structure Consumes (size : Nat) (flow : Flow) (m m' : Machine) (es : List CpuEvent) : Prop where
  bytes : fetched es = addresses m.cpu.pc (1 + size)
  straight : flow = .straight → m'.cpu.pc = nextPc m.cpu.pc size
  not_taken : flow = .branch → .branchTaken ∉ es → m'.cpu.pc = nextPc m.cpu.pc size
  taken : flow = .branch → .branchTaken ∈ es → m'.cpu.pc =
    nextPc m.cpu.pc size + (m.aram (m.cpu.pc + BitVec.ofNat 16 size)).signExtend 16
  call : flow = .call → pushed es = [nextPc m.cpu.pc size]

theorem fetched_append (es es' : List CpuEvent) : fetched (es ++ es') = fetched es ++ fetched es' :=
  List.filterMap_append ..

theorem fetched_trail (es : List CpuEvent) : fetched (trail es) = fetched es := by
  refine filterMap_trail (fun e he => ?_) es
  cases e <;> first | rfl | cases he

theorem pushed_trail (es : List CpuEvent) : pushed (trail es) = pushed es := by
  refine filterMap_trail (fun e he => ?_) es
  cases e <;> first | rfl | cases he

theorem fetched_map_fetch (addrs : List Word) : fetched (addrs.map .fetch) = addrs := by
  rw [fetched, List.filterMap_map]
  exact List.filterMap_some

/-- Operands are fetched from successive addresses. -/
theorem fetched_stream (aram : Word → Byte) (pc : Word) (roles : List Role) :
    fetched (Spc700.stream aram pc roles) = addresses pc (size roles) := by
  induction roles generalizing pc with
  | nil => rfl
  | cons r rs ih =>
    rw [Spc700.stream, fetched_append, ih, size_cons, addresses_add, Role.events,
      fetched_append, fetched_map_fetch]
    exact congrArg (· ++ _) (List.append_nil _)

theorem pushed_stream (aram : Word → Byte) (pc : Word) (roles : List Role) :
    pushed (Spc700.stream aram pc roles) = [] := by
  refine List.filterMap_eq_nil_iff.mpr fun e he => ?_
  obtain ⟨addr, rfl⟩ | ⟨o, rfl⟩ := mem_stream he <;> rfl

theorem branchTaken_notMem_stream (aram : Word → Byte) (pc : Word) (roles : List Role) :
    .branchTaken ∉ Spc700.stream aram pc roles := by
  intro he
  obtain ⟨addr, heq⟩ | ⟨o, heq⟩ := mem_stream he <;> cases heq

/-- The end of an instruction fetches nothing. -/
theorem fetched_ends {flow : Flow} {m m' : Machine} {es : List CpuEvent}
    (h : flow.Ends m m' es) : fetched es = [] := by
  obtain rfl | ⟨-, rfl⟩ | ⟨-, rfl⟩ := h.events <;> rfl

/-- A branch is taken at the end of an instruction. -/
theorem branchTaken_mem_iff {aram : Word → Byte} {pc pc' : Word} {roles : List Role}
    {es tail : List CpuEvent}
    (htrail : trail es = .fetch pc :: Spc700.stream aram pc' roles ++ tail) :
    .branchTaken ∈ es ↔ .branchTaken ∈ tail := by
  rw [← branchTaken_mem_trail, htrail, List.mem_append]
  refine or_iff_right fun he => ?_
  obtain heq | he := List.mem_cons.mp he
  · cases heq
  · exact branchTaken_notMem_stream _ _ _ he

/-- **Step**: a round consumes the bytes of its shape. -/
theorem Iterating.consumes {beyond : Nat → Byte} {cycle : BitVec 32} {shape : Shape}
    {m m₁ m' : Machine} {es₁ es : List CpuEvent}
    (h : Iterating beyond cycle m shape m₁ m' es₁ es) :
    Consumes (size shape.roles) shape.flow m m' es := by
  obtain ⟨m₀, tail, htrail, hends, haram, hpc⟩ := h.trail_eq
  have htaken := branchTaken_mem_iff htrail
  refine ⟨?_, fun hflow => ?_, fun hflow hnot => ?_, fun hflow hmem => ?_, fun hflow => ?_⟩
  · rw [← fetched_trail, htrail, fetched_append, fetched_ends hends, List.append_nil,
      addresses_add]
    exact congrArg (m.cpu.pc :: ·) (fetched_stream ..)
  · rw [hflow] at hends
    exact hends.2.trans hpc
  · rw [hflow] at hends
    obtain ⟨-, hpc'⟩ | ⟨rfl, -⟩ := hends
    · exact hpc'.trans hpc
    · exact absurd (htaken.mpr List.mem_cons_self) hnot
  · rw [hflow] at hends
    obtain ⟨rfl, -⟩ | ⟨-, hpc'⟩ := hends
    · exact absurd (htaken.mp hmem) List.not_mem_nil
    · have hlast : m₀.cpu.pc - 1 = m.cpu.pc + BitVec.ofNat 16 (size shape.roles) := by
        rw [hpc, add_right_comm]
        exact BitVec.add_sub_cancel ..
      rw [hpc', haram, hlast, hpc]
      rfl
  · rw [hflow] at hends
    obtain rfl : tail = [.pushWord m₀.cpu.pc] := hends
    have hbytes : pushed (.fetch m.cpu.pc ::
        Spc700.stream m.aram (m.cpu.pc + 1) shape.roles) = [] := pushed_stream ..
    rw [← pushed_trail, htrail, pushed, List.filterMap_append]
    rw [pushed] at hbytes
    rw [hbytes, hpc]
    rfl

/-- The disassembler has as many bytes of operands as are fetched. -/
theorem knows_size {opcode : Byte} {shape : Shape} {op : DisOp}
    (hshape : shapeOf opcode = some shape) (hknows : Knows shape op)
    (hstruct : (adrs op.disToks).mapM adrFmt = some op.oprStruct) :
    op.oprStruct.size = size shape.roles := by
  have hsizes : ∀ shape ∈ Shape.all, ((printedAdrs shape).mapM adrFmt).map Struct.size =
      some (size shape.roles) := by
    decide
  have hsize := hsizes shape (shapeOf_mem hshape)
  rw [← hknows.1, hstruct] at hsize
  exact Option.some.inj hsize

/-- **The emulator and the disassembler agree on the length of instructions.** From
    every machine state, one round of the loop at an opcode that has a handler
    consumes the opcode and as many bytes of operands as the disassembler takes for
    it. Unless it jumps, calls, returns or branches, it goes on at the instruction
    after that; a branch that is taken is relative to it, and it is what a call
    pushes. A round that does not return ends the process in an access of DSPDATA
    while the top bit is set in the last byte stored to DSPADDR. -/
theorem insn_length (beyond : Nat → Byte) (cycle : BitVec 32) (m : Machine) (cb : Insn Unit)
    (hcb : handlerOf (m.aram m.cpu.pc) = some cb) :
    ∃ op, disOpOf (m.aram m.cpu.pc) = some op ∧
      ((∃ m' es, (iteration beyond cycle).Returns m (some (cycle + 4)) m' es ∧
          Consumes op.oprStruct.size (flowOf op) m m' es) ∨
        ∃ es e, (iteration beyond cycle).Stops m (es ++ [e]) ∧
          e.address? = some (apuAddr apuDspData) ∧
          (abortGuard.after (dspPort m) es).addr &&& 0x80 ≠ 0) := by
  obtain ⟨shape, hshape, -⟩ := handlerOf_fetches hcb
  obtain ⟨op, hop, hknows, hstruct⟩ := disOpOf_of_shape hshape
  refine ⟨op, hop, ?_⟩
  obtain ⟨r, m', es, hret⟩ | ⟨es, hstop⟩ :=
    Program.returns_or_stops (iteration beyond cycle) m
  · obtain ⟨-, hnone, -⟩ | ⟨rfl, shape', m₁, es₁, hiter⟩ := (iteration_does _ _).returns hret
    · cases hnone.symm.trans hcb
    · obtain rfl : shape' = shape := Option.some.inj (hiter.shape_eq.symm.trans hshape)
      rw [knows_size hshape hknows hstruct, hknows.2]
      exact Or.inl ⟨m', es, hret, Iterating.consumes hiter⟩
  · obtain ⟨es', e, rfl, -, he, hhigh⟩ := (iteration_built beyond cycle).aborts hstop
    exact Or.inr ⟨es', e, hstop, he, hhigh⟩

/-- The machine at `mov $f4,#$aa`, as in the ROM. -/
def atMov : Machine := { Machine.init with
  aram := fun addr => if addr = 0 then 0x8f else if addr = 1 then 0xaa else 0xf4 }

theorem insn_length_mov :
    ∃ op, disOpOf 0x8f = some op ∧
      ((∃ m' es, (iteration (fun _ => 0) 0).Returns atMov (some 4) m' es ∧
          Consumes op.oprStruct.size (flowOf op) atMov m' es) ∨
        ∃ es e, (iteration (fun _ => 0) 0).Stops atMov (es ++ [e]) ∧
          e.address? = some (apuAddr apuDspData) ∧
          (abortGuard.after (dspPort atMov) es).addr &&& 0x80 ≠ 0) :=
  insn_length (fun _ => 0) 0 atMov insnMovDpImm rfl

/-- The machine at `cbne $f3,$0003`, with a DSP register that is out of range. -/
def atCbne : Machine := { Machine.init with
  aram := fun addr => if addr = 0 then 0x2e else if addr = 1 then 0xf3 else 0
  apu := { Apu.init with s := Function.update Apu.init.s apuDspAddr 0x80 } }

/-- The load aborts before the displacement is fetched. -/
theorem cbne_aborts : ¬ ∀ (m : Machine) (cb : Insn Unit),
    handlerOf (m.aram m.cpu.pc) = some cb →
      ∃ op, disOpOf (m.aram m.cpu.pc) = some op ∧
        ∃ m' es, (iteration (fun _ => 0) 0).Returns m (some 4) m' es ∧
          Consumes op.oprStruct.size (flowOf op) m m' es := by
  intro h
  obtain ⟨op, -, m', es, hret, -⟩ := h atCbne insnCbneDpRel rfl
  have hstop : (iteration (fun _ => 0) 0).Stops atCbne
      [.fetch 0, .fetch 1, .operand (.directPage .only 0xf3), .load 0x00f3] := rfl
  cases congrArg Traced.val (Eq.trans (Eq.symm hstop) hret)

end SpuKit.Disasm
