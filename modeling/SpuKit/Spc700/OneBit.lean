import Mathlib.Tactic.FinCases
import SpuKit.Spc700.Guest

/-!
# Programs on single bits

The instructions on single bits make the CPU a machine of one bit: its
accumulator is the carry flag, and its cells are the bits of memory. A program of
such instructions, run by the loop of the CPU with the clocks and the samples in
between, does to the bits what that machine does to its cells.

## Main definitions

- `Cell`, `cellsOf` — the bits of memory
- `BitInsn` — the instructions, with their bytes
- `OneBit`, `OneBit.step` — the machine of one bit
- `CodeAt`, `BitProgram` — the bytes of a program in memory

## Main results

- `bitInsn_step` — one instruction
- `bitProgram_runs` — a program
-/

namespace SpuKit.Spc700

open Program (outcome)

-- ════════════════════════════════════════════════════════════════════════
-- The bits of memory
-- ════════════════════════════════════════════════════════════════════════

/-- A bit of memory: the address of its byte and its number there. -/
abbrev Cell := Word × Fin 8

/-- What is in the bits of memory. -/
def cellsOf (aram : Word → Byte) (cell : Cell) : Bool := (aram cell.1).getLsbD cell.2

section Store

variable {aram : Word → Byte} {addr : Word} {byte : Byte} {bit : Fin 8} {v : Bool}

/-- A byte that differs in one bit is stored. -/
theorem cellsOf_update
    (h : ∀ k : Fin 8, byte.getLsbD k = if k = bit then v else (aram addr).getLsbD k) :
    cellsOf (Function.update aram addr byte) = Function.update (cellsOf aram) (addr, bit) v := by
  funext cell
  obtain ⟨other, k⟩ := cell
  by_cases haddr : other = addr
  · subst haddr
    show (Function.update aram other byte other).getLsbD k = _
    rw [Function.update_self, h k]
    by_cases hk : k = bit
    · rw [if_pos hk, hk, Function.update_self]
    · rw [if_neg hk, Function.update_of_ne fun heq => hk (Prod.mk.inj heq).2]
      rfl
  · rw [Function.update_of_ne fun heq => haddr (Prod.mk.inj heq).1]
    show (Function.update aram addr byte other).getLsbD k = _
    rw [Function.update_of_ne haddr]
    rfl

theorem getLsbD_mask (bit k : Fin 8) :
    ((1 : Byte) <<< bit.val).getLsbD k = decide (k = bit) := by
  revert bit k
  decide

theorem getLsbD_set (byte : Byte) (bit k : Fin 8) :
    (byte ||| ((1 : Byte) <<< bit.val)).getLsbD k = if k = bit then true else byte.getLsbD k := by
  rw [BitVec.getLsbD_or, getLsbD_mask]
  by_cases hk : k = bit
  · rw [if_pos hk, decide_eq_true hk, Bool.or_true]
  · rw [if_neg hk, decide_eq_false hk, Bool.or_false]

theorem getLsbD_clear (byte : Byte) (bit k : Fin 8) :
    (byte &&& ~~~ ((1 : Byte) <<< bit.val)).getLsbD k =
      if k = bit then false else byte.getLsbD k := by
  rw [BitVec.getLsbD_and, BitVec.getLsbD_not, getLsbD_mask, decide_eq_true k.isLt, Bool.true_and]
  by_cases hk : k = bit
  · rw [if_pos hk, decide_eq_true hk, Bool.not_true, Bool.and_false]
  · rw [if_neg hk, decide_eq_false hk, Bool.not_false, Bool.and_true]

theorem getLsbD_flip (byte : Byte) (bit k : Fin 8) :
    (byte ^^^ ((1 : Byte) <<< bit.val)).getLsbD k =
      if k = bit then !byte.getLsbD bit else byte.getLsbD k := by
  rw [BitVec.getLsbD_xor, getLsbD_mask]
  by_cases hk : k = bit
  · rw [if_pos hk, decide_eq_true hk, hk, Bool.xor_true]
  · rw [if_neg hk, decide_eq_false hk, Bool.xor_false]

end Store

-- ════════════════════════════════════════════════════════════════════════
-- The machine of one bit
-- ════════════════════════════════════════════════════════════════════════

/-- The operations on the carry flag. -/
inductive CarryOp where
  | or1
  | or1Not
  | and1
  | and1Not
  | eor1
  /-- MOV1 C,m.b -/
  | mov1
  deriving DecidableEq

namespace CarryOp

def opcode : CarryOp → Byte
  | or1 => 0x0a
  | or1Not => 0x2a
  | and1 => 0x4a
  | and1Not => 0x6a
  | eor1 => 0x8a
  | mov1 => 0xaa

/-- The carry flag after the operation with a bit. -/
def apply : CarryOp → Bool → Bool → Bool
  | or1, carry, bit => carry || bit
  | or1Not, carry, bit => carry || !bit
  | and1, carry, bit => carry && bit
  | and1Not, carry, bit => carry && !bit
  | eor1, carry, bit => carry ^^ bit
  | mov1, _, bit => bit

end CarryOp

/-- The word that `bitaddr` splits. -/
def BitAddr.word (b : BitAddr) : Word := b.bit ++ b.addr

theorem bitaddrInit_word (b : BitAddr) : bitaddrInit b.word = b := by
  obtain ⟨addr, bit⟩ := b
  have hword : (BitAddr.word ⟨addr, bit⟩).toNat = bit.toNat * 2 ^ 13 + addr.toNat := by
    rw [BitAddr.word, BitVec.toNat_append, ← Nat.shiftLeft_add_eq_or_of_lt addr.isLt,
      Nat.shiftLeft_eq]
  have haddr : (BitAddr.word ⟨addr, bit⟩).setWidth 13 = addr := by
    apply BitVec.eq_of_toNat_eq
    rw [BitVec.toNat_setWidth, hword]
    omega
  have hbit : (BitAddr.word ⟨addr, bit⟩ >>> 13).setWidth 3 = bit := by
    apply BitVec.eq_of_toNat_eq
    rw [BitVec.toNat_setWidth, BitVec.toNat_ushiftRight, hword, Nat.shiftRight_eq_div_pow]
    omega
  rw [bitaddrInit, haddr, hbit]

/-- The instructions on a single bit. -/
inductive BitInsn where
  /-- SET1 d.b -/
  | set1 (bit : Fin 8) (d : Byte)
  /-- CLR1 d.b -/
  | clr1 (bit : Fin 8) (d : Byte)
  /-- an operation on C with m.b -/
  | carry (op : CarryOp) (b : BitAddr)
  /-- MOV1 m.b,C -/
  | mov1 (b : BitAddr)
  /-- NOT1 m.b -/
  | not1 (b : BitAddr)
  deriving DecidableEq

namespace BitInsn

def opcode : BitInsn → Byte
  | set1 bit _ => (BitVec.ofNat 8 bit <<< 5) ||| 0x02
  | clr1 bit _ => (BitVec.ofNat 8 bit <<< 5) ||| 0x12
  | carry op _ => op.opcode
  | mov1 _ => 0xca
  | not1 _ => 0xea

/-- The operand bytes. -/
def operands : BitInsn → List Byte
  | set1 _ d | clr1 _ d => [d]
  | carry _ b | mov1 b | not1 b => [b.word.setWidth 8, (b.word >>> 8).setWidth 8]

/-- The bytes of the instruction. -/
def encode (i : BitInsn) : List Byte := i.opcode :: i.operands

def handler : BitInsn → Insn Unit
  | set1 bit _ => setDb bit
  | clr1 bit _ => clrDb bit
  | carry op _ => carryWith op.apply
  | mov1 _ => insnMov1Store
  | not1 _ => insnNot1

/-- The cell the instruction is about. The P flag says which page d is in. -/
def cell (c : Cpu) : BitInsn → Cell
  | set1 bit d | clr1 bit d => (directPageEffective d c, bit)
  | carry _ b | mov1 b | not1 b => (b.addr.setWidth 16, b.bit.toFin)

/-- Is memory stored to? -/
def stores : BitInsn → Bool
  | carry .. => false
  | _ => true

/-- The accumulator after the instruction, from the accumulator and the cell. -/
def carryAfter : BitInsn → Bool → Bool → Bool
  | carry op _, c, bit => op.apply c bit
  | _, c, _ => c

/-- The cell after the instruction. -/
def bitAfter : BitInsn → Bool → Bool → Bool
  | set1 .., _, _ => true
  | clr1 .., _, _ => false
  | carry .., _, bit => bit
  | mov1 _, c, _ => c
  | not1 _, _, bit => !bit

end BitInsn

theorem handlerOf_bitInsn (i : BitInsn) : handlerOf i.opcode = some i.handler := by
  cases i with
  | set1 bit d => fin_cases bit <;> rfl
  | clr1 bit d => fin_cases bit <;> rfl
  | carry op b => cases op <;> rfl
  | mov1 b | not1 b => rfl

/-- The machine of one bit. -/
structure OneBit where
  carry : Bool
  cells : Cell → Bool

/-- The carry flag and the bits of memory. -/
def oneBitOf (c : Cpu) (aram : Word → Byte) : OneBit where
  carry := c.carry
  cells := cellsOf aram

/-- One step of the machine. -/
def OneBit.step (c : Cpu) (o : OneBit) (i : BitInsn) : OneBit where
  carry := i.carryAfter o.carry (o.cells (i.cell c))
  cells := Function.update o.cells (i.cell c) (i.bitAfter o.carry (o.cells (i.cell c)))

-- ════════════════════════════════════════════════════════════════════════
-- Code in memory
-- ════════════════════════════════════════════════════════════════════════

/-- The bytes are in memory from the address on. -/
def CodeAt (aram : Word → Byte) : Word → List Byte → Prop
  | _, [] => True
  | addr, byte :: bytes => aram addr = byte ∧ CodeAt aram (addr + 1) bytes

instance decidableCodeAt (aram : Word → Byte) : ∀ addr bytes, Decidable (CodeAt aram addr bytes)
  | _, [] => .isTrue trivial
  | addr, byte :: bytes =>
    have := decidableCodeAt aram (addr + 1) bytes
    inferInstanceAs (Decidable (aram addr = byte ∧ CodeAt aram (addr + 1) bytes))

theorem codeAt_append {aram : Word → Byte} {addr : Word} {bytes bytes' : List Byte} :
    CodeAt aram addr (bytes ++ bytes') ↔
      CodeAt aram addr bytes ∧ CodeAt aram (addr + BitVec.ofNat 16 bytes.length) bytes' := by
  induction bytes generalizing addr with
  | nil => simp [CodeAt]
  | cons byte bytes ih =>
    rw [List.cons_append, CodeAt, CodeAt, ih, add_succ_ofNat, List.length_cons, and_assoc]

/-- Code outlives stores elsewhere. -/
theorem CodeAt.congr {aram aram' : Word → Byte} {addr : Word} {bytes : List Byte}
    (h : CodeAt aram addr bytes)
    (hsame : ∀ other ∈ addresses addr bytes.length, aram' other = aram other) :
    CodeAt aram' addr bytes := by
  induction bytes generalizing addr with
  | nil => trivial
  | cons byte bytes ih =>
    refine ⟨(hsame addr (List.mem_cons_self ..)).trans h.1, ih h.2 fun other hmem => ?_⟩
    exact hsame other (List.mem_cons_of_mem _ hmem)

-- ════════════════════════════════════════════════════════════════════════
-- One instruction
-- ════════════════════════════════════════════════════════════════════════

section Rules

variable {io : Fin 4 → Byte} {g : Guest} {addr : Word}

theorem does_loadPlain (h : Plain addr) : GuestDoes io (memLoad addr) g (g.aram addr) g := by
  have hload : g.load io addr = g.aram addr := by
    rw [Guest.load, portOf_plain h]
    rfl
  rw [← hload]
  exact does_load (.inl h)

theorem store_ioOut_plain (h : Plain addr) (byte : Byte) : (g.store addr byte).ioOut = g.ioOut := by
  funext k
  exact if_neg fun hport => plain_iff.mp (hport ▸ h) (apuMmioAddress_apuAddr _)

theorem does_storePlain (h : Plain addr) (byte : Byte) :
    GuestDoes io (memStore addr byte) g () (g.store addr byte) :=
  does_store (.inl h) byte

/-- A test of a bit with its mask. -/
theorem and_mask_bne (byte : Byte) (bit : Fin 8) :
    (byte &&& ((1 : Byte) <<< bit.val) != 0) = byte.getLsbD bit := by
  have hbits : ∀ k : Fin 8, (byte &&& ((1 : Byte) <<< bit.val)).getLsbD k =
      (byte.getLsbD bit && decide (k = bit)) := by
    intro k
    rw [BitVec.getLsbD_and, getLsbD_mask]
    by_cases hk : k = bit
    · rw [hk]
    · rw [decide_eq_false hk, Bool.and_false, Bool.and_false]
  cases hbit : byte.getLsbD bit with
  | true =>
    refine bne_iff_ne.mpr fun hzero => ?_
    have hat := hbits bit
    rw [hzero, hbit, decide_eq_true rfl] at hat
    simp at hat
  | false =>
    rw [bne_eq_false_iff_eq]
    apply BitVec.eq_of_getLsbD_eq
    intro k hk
    have hat := hbits ⟨k, hk⟩
    rw [hbit, Bool.false_and] at hat
    exact hat.trans BitVec.getLsbD_zero.symm

theorem does_bitaddrLoad {b : BitAddr} (h : Plain (b.addr.setWidth 16)) :
    GuestDoes io (bitaddrLoad b) g (cellsOf g.aram (b.addr.setWidth 16, b.bit.toFin)) g := by
  have hbit := and_mask_bne (g.aram (b.addr.setWidth 16)) b.bit.toFin
  rw [cellsOf, ← hbit]
  exact (does_loadPlain h).bind (does_pure _)

/-- The byte that `bitaddr_store` stores. -/
def withBit (byte : Byte) (bit : Fin 8) (v : Bool) : Byte :=
  if v then byte ||| ((1 : Byte) <<< bit.val) else byte &&& ~~~ ((1 : Byte) <<< bit.val)

theorem getLsbD_withBit (byte : Byte) (bit k : Fin 8) (v : Bool) :
    (withBit byte bit v).getLsbD k = if k = bit then v else byte.getLsbD k := by
  cases v with
  | true => exact getLsbD_set byte bit k
  | false => exact getLsbD_clear byte bit k

theorem does_bitaddrStore {b : BitAddr} (h : Plain (b.addr.setWidth 16)) (v : Bool) :
    GuestDoes io (bitaddrStore b v) g ()
      (g.store (b.addr.setWidth 16) (withBit (g.aram (b.addr.setWidth 16)) b.bit.toFin v)) :=
  (does_loadPlain h).bind (does_storePlain h _)

theorem does_setDb (bit : Nat) (h : Plain (directPageEffective g.next g.cpu)) :
    GuestDoes io (setDb bit) g () ((g.advance 1).store (directPageEffective g.next g.cpu)
      (g.aram (directPageEffective g.next g.cpu) ||| ((1 : Byte) <<< bit))) :=
  does_directPage.bind ((does_loadPlain h).bind (does_storePlain h _))

theorem does_clrDb (bit : Nat) (h : Plain (directPageEffective g.next g.cpu)) :
    GuestDoes io (clrDb bit) g () ((g.advance 1).store (directPageEffective g.next g.cpu)
      (g.aram (directPageEffective g.next g.cpu) &&& ~~~ ((1 : Byte) <<< bit))) :=
  does_directPage.bind ((does_loadPlain h).bind (does_storePlain h _))

theorem Guest.advance_advance (g : Guest) (n k : Nat) :
    (g.advance n).advance k = g.advance (n + k) := by
  rw [Guest.advance, Guest.advance, Guest.advance, BitVec.ofNat_add, ← BitVec.add_assoc]
  rfl

section BitOperand

variable {b : BitAddr} (hword : wordOf (g.advance 1).next g.next = b.word)
  (h : Plain (b.addr.setWidth 16))

include hword

theorem does_bitOperand : GuestDoes io bitaddr g b ((g.advance 1).advance 1) := by
  have hfetch : GuestDoes io bitaddr g (bitaddrInit (wordOf (g.advance 1).next g.next))
      ((g.advance 1).advance 1) :=
    does_fetchWord.bind ((does_emit _).bind (does_pure _))
  rwa [hword, bitaddrInit_word] at hfetch

include h

theorem does_carryWith (op : Bool → Bool → Bool) :
    GuestDoes io (carryWith op) g () (((g.advance 1).advance 1).withCpu
      { ((g.advance 1).advance 1).cpu with
        carry := op g.cpu.carry (cellsOf g.aram (b.addr.setWidth 16, b.bit.toFin)) }) :=
  (does_bitOperand hword).bind ((does_bitaddrLoad h).bind (does_modifyCpu _))

theorem does_mov1Store :
    GuestDoes io insnMov1Store g () (((g.advance 1).advance 1).store (b.addr.setWidth 16)
      (withBit (g.aram (b.addr.setWidth 16)) b.bit.toFin g.cpu.carry)) :=
  (does_bitOperand hword).bind (does_getCpu.bind (does_bitaddrStore h _))

theorem does_not1 :
    GuestDoes io insnNot1 g () (((g.advance 1).advance 1).store (b.addr.setWidth 16)
      (g.aram (b.addr.setWidth 16) ^^^ b.mask)) :=
  (does_bitOperand hword).bind ((does_loadPlain h).bind (does_storePlain h _))

end BitOperand

end Rules

/-- What an instruction on a single bit has done. -/
structure Did (i : BitInsn) (g g' : Guest) : Prop where
  cpu : g'.cpu = { g.cpu with
    pc := g.cpu.pc + BitVec.ofNat 16 i.encode.length
    carry := i.carryAfter g.cpu.carry (cellsOf g.aram (i.cell g.cpu)) }
  cells : cellsOf g'.aram = Function.update (cellsOf g.aram) (i.cell g.cpu)
    (i.bitAfter g.cpu.carry (cellsOf g.aram (i.cell g.cpu)))
  ioOut : g'.ioOut = g.ioOut

/-- Only the byte of the cell is stored to, and that only by an instruction that
    stores. -/
theorem Did.frame {i : BitInsn} {g g' : Guest} (h : Did i g g') {addr : Word}
    (haddr : i.stores = true → addr ≠ (i.cell g.cpu).1) : g'.aram addr = g.aram addr := by
  apply BitVec.eq_of_getLsbD_eq
  intro k hk
  have hcell := congrFun h.cells (addr, ⟨k, hk⟩)
  cases hstores : i.stores with
  | true =>
    rwa [Function.update_of_ne fun heq => haddr hstores (Prod.mk.inj heq).1] at hcell
  | false =>
    obtain ⟨op, b, rfl⟩ : ∃ op b, i = .carry op b := by
      cases i with
      | carry op b => exact ⟨op, b, rfl⟩
      | set1 | clr1 | mov1 | not1 => cases hstores
    rwa [BitInsn.bitAfter, Function.update_eq_self] at hcell

/-- **Instruction** -/
theorem bitInsn_step (io : Fin 4 → Byte) {i : BitInsn} {g : Guest}
    (hcode : CodeAt g.aram g.cpu.pc i.encode) (hcell : Plain (i.cell g.cpu).1) :
    ∃ g', GuestStep io g g' ∧ Did i g g' := by
  obtain ⟨hop, hoperands⟩ := hcode
  have hword {b : BitAddr} (h : CodeAt g.aram (g.cpu.pc + 1)
      [b.word.setWidth 8, (b.word >>> 8).setWidth 8]) :
      wordOf ((g.advance 1).advance 1).next (g.advance 1).next = b.word := by
    obtain ⟨hlo, hhi, -⟩ := h
    have hlo' : (g.advance 1).next = b.word.setWidth 8 := hlo
    have hhi' : ((g.advance 1).advance 1).next = (b.word >>> 8).setWidth 8 := hhi
    rw [hlo', hhi', wordOf_bytes]
  cases i with
  | set1 bit d =>
    obtain rfl : (g.advance 1).next = d := hoperands.1
    refine ⟨_, .of_handler hop (handlerOf_bitInsn _) (does_setDb bit hcell), ?_, ?_,
      store_ioOut_plain hcell _⟩
    · rw [Guest.store_cpu, Guest.advance_advance]
      rfl
    · exact cellsOf_update fun k => getLsbD_set _ bit k
  | clr1 bit d =>
    obtain rfl : (g.advance 1).next = d := hoperands.1
    refine ⟨_, .of_handler hop (handlerOf_bitInsn _) (does_clrDb bit hcell), ?_, ?_,
      store_ioOut_plain hcell _⟩
    · rw [Guest.store_cpu, Guest.advance_advance]
      rfl
    · exact cellsOf_update fun k => getLsbD_clear _ bit k
  | carry op b =>
    refine ⟨_, .of_handler hop (handlerOf_bitInsn _)
      (does_carryWith (hword hoperands) hcell op.apply), ?_, ?_, rfl⟩
    · rw [Guest.advance_advance, Guest.advance_advance]
      rfl
    · exact (Function.update_eq_self ..).symm
  | mov1 b =>
    refine ⟨_, .of_handler hop (handlerOf_bitInsn _) (does_mov1Store (hword hoperands) hcell),
      ?_, ?_, store_ioOut_plain hcell _⟩
    · rw [Guest.store_cpu, Guest.advance_advance, Guest.advance_advance]
      rfl
    · exact cellsOf_update fun k => getLsbD_withBit _ b.bit.toFin k _
  | not1 b =>
    refine ⟨_, .of_handler hop (handlerOf_bitInsn _) (does_not1 (hword hoperands) hcell), ?_, ?_,
      store_ioOut_plain hcell _⟩
    · rw [Guest.store_cpu, Guest.advance_advance, Guest.advance_advance]
      rfl
    · exact cellsOf_update fun k => getLsbD_flip _ b.bit.toFin k

-- ════════════════════════════════════════════════════════════════════════
-- Programs
-- ════════════════════════════════════════════════════════════════════════

/-- The bytes of a program. -/
def bytesOf (code : List BitInsn) : List Byte := code.flatMap BitInsn.encode

/-- The CPU is at a program whose bits are in RAM and which stores nothing into
    itself. -/
structure BitProgram (code : List BitInsn) (c : Cpu) (aram : Word → Byte) : Prop where
  held : CodeAt aram c.pc (bytesOf code)
  plain : ∀ i ∈ code, Plain (i.cell c).1
  apart : ∀ i ∈ code, i.stores = true → (i.cell c).1 ∉ addresses c.pc (bytesOf code).length

section Programs

variable {c c' : Cpu} {i : BitInsn} {code : List BitInsn} {g g' : Guest}

theorem BitInsn.cell_congr (h : c'.pswP = c.pswP) (i : BitInsn) : i.cell c' = i.cell c := by
  cases i with
  | set1 bit d | clr1 bit d => rw [cell, cell, directPageEffective, directPageEffective, h]
  | carry | mov1 | not1 => rfl

theorem OneBit.step_congr (h : c'.pswP = c.pswP) : OneBit.step c' = OneBit.step c := by
  funext o i
  rw [OneBit.step, OneBit.step, BitInsn.cell_congr h]

/-- The rest of the program is next. -/
theorem BitProgram.next (h : BitProgram (i :: code) g.cpu g.aram) (hdid : Did i g g') :
    BitProgram code g'.cpu g'.aram := by
  have hpc : g'.cpu.pc = g.cpu.pc + BitVec.ofNat 16 i.encode.length := by rw [hdid.cpu]
  have hpage : g'.cpu.pswP = g.cpu.pswP := by rw [hdid.cpu]
  have haddrs : addresses g.cpu.pc (bytesOf (i :: code)).length =
      addresses g.cpu.pc i.encode.length ++ addresses g'.cpu.pc (bytesOf code).length := by
    rw [hpc, ← addresses_add, ← List.length_append]
    rfl
  obtain ⟨-, hrest⟩ := codeAt_append.mp h.held
  rw [← hpc] at hrest
  constructor
  · refine hrest.congr fun addr hmem => hdid.frame fun hstores haddr => ?_
    refine h.apart i (List.mem_cons_self ..) hstores ?_
    rw [haddrs, ← haddr]
    exact List.mem_append_right _ hmem
  · intro j hj
    rw [BitInsn.cell_congr hpage]
    exact h.plain j (List.mem_cons_of_mem _ hj)
  · intro j hj hstores hmem
    rw [BitInsn.cell_congr hpage] at hmem
    refine h.apart j (List.mem_cons_of_mem _ hj) hstores ?_
    rw [haddrs]
    exact List.mem_append_right _ hmem

/-- What a program on single bits has done. -/
structure Ran (code : List BitInsn) (g g' : Guest) : Prop where
  cpu : g'.cpu = { g.cpu with
    pc := g.cpu.pc + BitVec.ofNat 16 (bytesOf code).length
    carry := g'.cpu.carry }
  bits : oneBitOf g'.cpu g'.aram = code.foldl (OneBit.step g.cpu) (oneBitOf g.cpu g.aram)
  ioOut : g'.ioOut = g.ioOut

theorem ran_nil (g : Guest) : Ran [] g g := by
  refine ⟨?_, rfl, rfl⟩
  rw [bytesOf, List.flatMap_nil, List.length_nil, BitVec.add_zero]

theorem Ran.cons {g'' : Guest} (hdid : Did i g g') (h : Ran code g' g'') :
    Ran (i :: code) g g'' := by
  have hlength : (bytesOf (i :: code)).length = i.encode.length + (bytesOf code).length :=
    List.length_append
  have hpage : g'.cpu.pswP = g.cpu.pswP := by rw [hdid.cpu]
  have hbits : oneBitOf g'.cpu g'.aram = OneBit.step g.cpu (oneBitOf g.cpu g.aram) i := by
    rw [oneBitOf, hdid.cells, hdid.cpu]
    rfl
  constructor
  · rw [h.cpu, hdid.cpu, hlength, BitVec.ofNat_add, BitVec.add_assoc]
  · rw [h.bits, List.foldl_cons, hbits, OneBit.step_congr hpage]
  · exact h.ioOut.trans hdid.ioOut

/-- The instructions of a program lead through it. -/
theorem leadsIn_program (io : Fin 4 → Byte) (h : BitProgram code g.cpu g.aram) :
    LeadsIn (GuestStep io) code.length (· = g) (Ran code g) := by
  rintro g rfl
  induction code generalizing g with
  | nil => exact ⟨g, rfl, ran_nil g⟩
  | cons i code ih =>
    obtain ⟨g₁, hstep, hdid⟩ := bitInsn_step io (codeAt_append.mp h.held).1
      (h.plain i (List.mem_cons_self ..))
    obtain ⟨g', hsteps, hran⟩ := ih g₁ (h.next hdid)
    exact ⟨g', ⟨g₁, hstep, hsteps⟩, hran.cons hdid⟩

end Programs

section Runs

variable {code : List BitInsn} {m : Machine}

/-- **Programs on single bits**: the loop of the CPU does to the carry flag and the
    bits of memory what the machine of one bit does, whatever the clocks and the
    samples do in between. -/
theorem bitProgram_runs (hquiet : ¬ EchoWrites m.dsp.regs) (h : BitProgram code m.cpu m.aram)
    (beyond : Nat → Byte) (cycle : BitVec 32) :
    ∃ cycle' m', outcome (runInsns beyond code.length cycle) m = some (some cycle', m') ∧
      m'.cpu = { m.cpu with
        pc := m.cpu.pc + BitVec.ofNat 16 (bytesOf code).length
        carry := m'.cpu.carry } ∧
      oneBitOf m'.cpu m'.aram = code.foldl (OneBit.step m.cpu) (oneBitOf m.cpu m.aram) ∧
      m'.apu.ioOut = m.apu.ioOut := by
  obtain ⟨cycle', m', g', hrun, hview, hran⟩ :=
    leadsIn_rounds (leadsIn_program m.apu.ioIn h) beyond cycle (views_guestOf hquiet) rfl
  refine ⟨cycle', m', hrun, ?_, ?_, ?_⟩
  · rw [hview.cpu]
    exact hran.cpu
  · rw [hview.cpu, hview.aram]
    exact hran.bits
  · rw [hview.ioOut]
    exact hran.ioOut

/-- Two bits exchanged by three exclusive ors. -/
def exchange (a b : BitAddr) : List BitInsn :=
  [.carry .mov1 a, .carry .eor1 b, .mov1 a, .carry .eor1 b, .mov1 b, .carry .eor1 a, .mov1 a]

/-- A machine at a program that exchanges bit 0 of 0x10, which is set, with bit 5 of
    0x11, which is not. -/
def exchangingMachine : Machine :=
  { Machine.init with
    cpu := { Cpu.init with pc := 0x200 }
    aram := fun addr =>
      if addr = 0x10 then 1
      else (bytesOf (exchange ⟨0x10, 0⟩ ⟨0x11, 5⟩)).getD (addr - 0x200).toNat 0
    dsp := { Dsp.zero with regs := Function.update (fun _ => 0) regFlg 0x20 } }

theorem bitProgram_runs_exchange :
    ∃ cycle' m', outcome (runInsns (fun _ => 0) 7 0) exchangingMachine =
        some (some cycle', m') ∧
      m'.cpu.pc = 0x215 ∧ cellsOf m'.aram (0x10, 0) = false ∧ cellsOf m'.aram (0x11, 5) = true := by
  have hquiet : ¬ EchoWrites exchangingMachine.dsp.regs := by
    show ¬ EchoWrites (Function.update (fun _ => 0) regFlg 0x20)
    decide
  have hready : BitProgram (exchange ⟨0x10, 0⟩ ⟨0x11, 5⟩) exchangingMachine.cpu
      exchangingMachine.aram :=
    ⟨by decide, by decide, by decide⟩
  obtain ⟨cycle', m', hrun, hcpu, hbits, -⟩ := bitProgram_runs hquiet hready (fun _ => 0) 0
  refine ⟨cycle', m', hrun, ?_, ?_, ?_⟩
  · rw [hcpu]
    rfl
  · exact (congrFun (congrArg OneBit.cells hbits) (0x10, 0)).trans (by decide)
  · exact (congrFun (congrArg OneBit.cells hbits) (0x11, 5)).trans (by decide)

end Runs

end SpuKit.Spc700
