import SpuKit.Spc700.AluBlock
import SpuKit.Spc700.Arithmetic

/-!
# The flags of a load

The instructions MOV and MOVW to a register set Z and N from the value and leave
the other flags alone. There is one exception, MOV X,d, which sets no flag.

## Main definitions

- `ByteReg`, `Dest` — the registers that are loaded
- `registerLoads` — the opcodes, with their destinations
- `TestsDest` — Z and N are those of the register, and no other flag has changed

## Main results

- `loads_fetch`, `loads_copy`, `loads_movw` — the families of loads
- `outcome_movXDp` — the load that sets no flag
- `register_loads_iff` — which loads set the flags
-/

namespace SpuKit.Spc700

open Program (outcome)

/-- The registers of a byte that are loaded. -/
inductive ByteReg where
  | a
  | x
  | y
  deriving DecidableEq

namespace ByteReg

def read : ByteReg → Cpu → Byte
  | a => Cpu.a
  | x => Cpu.x
  | y => Cpu.y

def set : ByteReg → Byte → Alu Unit
  | a => setA
  | x => setX
  | y => setY

/-- The registers after a load that sets the flags. -/
def load (reg : ByteReg) (byte : Byte) (c : Cpu) : Cpu :=
  (reg.set byte { c with zero := byte == 0, negative := byte &&& 0x80 != 0 }).2

end ByteReg

/-- The destination of a load. -/
inductive Dest where
  | byte (reg : ByteReg)
  | ya
  deriving DecidableEq

namespace Dest

/-- Is the value in the register zero? -/
def isZero : Dest → Cpu → Bool
  | byte reg, c => reg.read c == 0
  | ya, c => getYa c == 0

/-- The top bit of the value in the register. -/
def topBit : Dest → Cpu → Bool
  | byte reg, c => (reg.read c).msb
  | ya, c => (getYa c).msb

end Dest

/-- From `c` to `c'` the flags Z and N are set from the register that was loaded,
    and C, V, H, P, I and B are left alone. -/
structure TestsDest (dest : Dest) (c c' : Cpu) : Prop where
  zero : c'.zero = dest.isZero c'
  negative : c'.negative = dest.topBit c'
  carry : c'.carry = c.carry
  overflow : c'.overflow = c.overflow
  halfCarry : c'.halfCarry = c.halfCarry
  pswP : c'.pswP = c.pswP
  pswI : c'.pswI = c.pswI
  pswB : c'.pswB = c.pswB

theorem testsDest_advance {dest : Dest} {n : ℕ} {m : Machine} {c : Cpu} :
    TestsDest dest (m.advance n).cpu c ↔ TestsDest dest m.cpu c :=
  ⟨fun ⟨hz, hn, hc, hv, hh, hp, hi, hb⟩ => ⟨hz, hn, hc, hv, hh, hp, hi, hb⟩,
    fun ⟨hz, hn, hc, hv, hh, hp, hi, hb⟩ => ⟨hz, hn, hc, hv, hh, hp, hi, hb⟩⟩

/-- Whenever the handler returns, the flags are set from the register. -/
def Loads (dest : Dest) (cb : Insn Unit) : Prop :=
  ∀ m m', outcome cb m = some ((), m') → TestsDest dest m.cpu m'.cpu

section Families

variable {reg : ByteReg} {m m' : Machine}

/-- The test of the sign bit of a byte. -/
theorem and_signByte_ne_zero (byte : Byte) : (byte &&& 0x80 != 0) = byte.msb :=
  and_twoPow_ne_zero (w := 8) (i := 7) (by decide) byte

theorem testsDest_load (reg : ByteReg) (byte : Byte) (c : Cpu) (pc : Word) :
    TestsDest (.byte reg) c (reg.load byte { c with pc := pc }) := by
  cases reg <;> exact ⟨rfl, and_signByte_ne_zero byte, rfl, rfl, rfl, rfl, rfl, rfl⟩

/-- **Loads from memory** and of immediate values. -/
theorem loads_fetch (reg : ByteReg) (src : Source) {cb : Insn Unit}
    (hcb : ∀ m, outcome cb m =
      (outcome src.fetch m).map fun r => ((), r.2.withCpu (reg.load r.1 r.2.cpu))) :
    Loads (.byte reg) cb := by
  intro m m' h
  rw [hcb] at h
  obtain ⟨⟨byte, m₁⟩, hfetch, heq⟩ := Option.map_eq_some_iff.mp h
  obtain ⟨-, rfl⟩ := Prod.mk.inj heq
  rw [withCpu_cpu, fetch_keeps hfetch]
  exact testsDest_load reg byte m.cpu _

theorem loads_load (reg : ByteReg) (mode : Mode) : Loads (.byte reg) (load reg.set mode.helper) :=
  loads_fetch reg (.mem mode) fun m => outcome_mem mode reg.load _ m fun _ _ => by
    cases reg <;> rfl

theorem loads_imm (reg : ByteReg) : Loads (.byte reg) (loadImm reg.set) :=
  loads_fetch reg .imm fun _ => by cases reg <;> rfl

/-- MOV X,!a sets the register before the flags. -/
theorem loads_movXAbs : Loads (.byte .x) insnMovXAbs :=
  loads_fetch .x (.mem .abs) fun m => outcome_mem .abs (ByteReg.load .x) _ m fun _ _ => rfl

/-- **Copies** -/
theorem loads_copy (reg : ByteReg) (src : Cpu → Byte) : Loads (.byte reg) (copy src reg.set) := by
  intro m m' h
  obtain ⟨-, rfl⟩ := Prod.mk.inj (Option.some.inj h)
  have htests := testsDest_load reg (src m.cpu) m.cpu m.cpu.pc
  cases reg <;> exact htests

theorem testsDest_movw (word : Word) (c : Cpu) (pc : Word) :
    TestsDest .ya c ((do setYa word; setZn16 word : Alu Unit) { c with pc := pc }).2 := by
  have hya : wordOf ((word >>> 8).setWidth 8) (word.setWidth 8) = word := wordOf_bytes word
  refine ⟨?_, ?_, rfl, rfl, rfl, rfl, rfl, rfl⟩
  · show (word == 0) = (wordOf ((word >>> 8).setWidth 8) (word.setWidth 8) == 0)
    rw [hya]
  · show (word &&& 0x8000 != 0) = (wordOf ((word >>> 8).setWidth 8) (word.setWidth 8)).msb
    rw [hya, and_sign_ne_zero]

/-- **Words** -/
theorem loads_movw : Loads .ya insnMovwYaDp := by
  intro m m' h
  rw [insnMovwYaDp, outcome_aluYa_load] at h
  obtain ⟨⟨word, m₁⟩, hload, heq⟩ := Option.map_eq_some_iff.mp h
  obtain ⟨-, rfl⟩ := Prod.mk.inj heq
  rw [withCpu_cpu, (memLoadWord_keeps hload).1]
  exact testsDest_movw word m.cpu _

/-- MOV X,d loads the byte and sets no flag. -/
theorem outcome_movXDp (m : Machine) : outcome insnMovXDp m =
    (outcome (Source.mem .dp).fetch m).map fun r =>
      ((), r.2.withCpu { r.2.cpu with x := r.1 }) :=
  outcome_mem .dp (fun byte c => { c with x := byte }) _ m fun _ _ => rfl

/-- **MOV X,d**: the flags are right if they were so before. -/
theorem testsDest_movXDp (h : outcome insnMovXDp m = some ((), m')) :
    TestsDest (.byte .x) m.cpu m'.cpu ↔
      ∀ byte, peek m (Mode.dp.encoded m) = some byte →
        m.cpu.zero = (byte == 0) ∧ m.cpu.negative = byte.msb := by
  rw [outcome_movXDp] at h
  obtain ⟨⟨byte, m₁⟩, hfetch, heq⟩ := Option.map_eq_some_iff.mp h
  obtain ⟨-, rfl⟩ := Prod.mk.inj heq
  have hpeek : peek m (Mode.dp.encoded m) = some byte := by
    rw [← peek_unseen (unseen_withCpu _ (m.advance 1).cpu)]
    exact congrArg (Option.map Prod.fst) hfetch
  rw [withCpu_cpu, fetch_keeps hfetch, hpeek]
  constructor
  · rintro htests byte' heq
    obtain rfl := Option.some.inj heq
    exact ⟨htests.zero, htests.negative⟩
  · intro hflags
    obtain ⟨hzero, hnegative⟩ := hflags byte rfl
    exact ⟨hzero, hnegative, rfl, rfl, rfl, rfl, rfl, rfl⟩

end Families

/-- The implemented instructions MOV and MOVW to a register. -/
def registerLoads : List (Byte × Dest) :=
  [(0xe8, .byte .a), (0xe4, .byte .a), (0xf4, .byte .a), (0xe5, .byte .a), (0xf5, .byte .a),
    (0xf6, .byte .a), (0xe6, .byte .a), (0xe7, .byte .a), (0xf7, .byte .a), (0x7d, .byte .a),
    (0xdd, .byte .a), (0xcd, .byte .x), (0xf8, .byte .x), (0xe9, .byte .x), (0x5d, .byte .x),
    (0x8d, .byte .y), (0xeb, .byte .y), (0xfb, .byte .y), (0xec, .byte .y), (0xfd, .byte .y),
    (0xba, .ya)]

/-- All of them but MOV X,d belong to a family. -/
theorem handlers_registerLoads : ∀ p ∈ registerLoads, p.1 ≠ 0xf8 →
    ∃ cb, handlerOf p.1 = some cb ∧ Loads p.2 cb := by
  simp only [registerLoads, List.forall_mem_cons]
  refine ⟨fun _ => ⟨_, rfl, loads_imm .a⟩, fun _ => ⟨_, rfl, loads_load .a .dp⟩,
    fun _ => ⟨_, rfl, loads_load .a .dpx⟩, fun _ => ⟨_, rfl, loads_load .a .abs⟩,
    fun _ => ⟨_, rfl, loads_load .a .absx⟩, fun _ => ⟨_, rfl, loads_load .a .absy⟩,
    fun _ => ⟨_, rfl, loads_load .a .ix⟩, fun _ => ⟨_, rfl, loads_load .a .dxInd⟩,
    fun _ => ⟨_, rfl, loads_load .a .dpiy⟩, fun _ => ⟨_, rfl, loads_copy .a Cpu.x⟩,
    fun _ => ⟨_, rfl, loads_copy .a Cpu.y⟩, fun _ => ⟨_, rfl, loads_imm .x⟩,
    fun h => absurd rfl h, fun _ => ⟨_, rfl, loads_movXAbs⟩, fun _ => ⟨_, rfl, loads_copy .x Cpu.a⟩,
    fun _ => ⟨_, rfl, loads_imm .y⟩, fun _ => ⟨_, rfl, loads_load .y .dp⟩,
    fun _ => ⟨_, rfl, loads_load .y .dpx⟩, fun _ => ⟨_, rfl, loads_load .y .abs⟩,
    fun _ => ⟨_, rfl, loads_copy .y Cpu.a⟩, fun _ => ⟨_, rfl, loads_movw⟩, fun _ h => ?_⟩
  cases h

/-- **Loads of registers** set Z and N and no other flag; MOV X,d sets none at all,
    which is right if Z and N already were those of the byte. -/
theorem register_loads_iff : ∀ p ∈ registerLoads, ∀ m m' : Machine,
    m.aram m.cpu.pc = p.1 → execute m = some m' →
    (TestsDest p.2 m.cpu m'.cpu ↔
      (p.1 = 0xf8 → ∀ byte, peek m (Mode.dp.encoded (m.advance 1)) = some byte →
        m.cpu.zero = (byte == 0) ∧ m.cpu.negative = byte.msb)) := by
  intro p hp m m' hop hexecute
  by_cases hmov : p.1 = 0xf8
  · have hdest : ∀ p ∈ registerLoads, p.1 = 0xf8 → p.2 = .byte .x := by
      decide
    have hcb : handlerOf p.1 = some insnMovXDp := by
      rw [hmov]
      rfl
    rw [execute_of_handler hop hcb] at hexecute
    obtain ⟨⟨⟨⟩, m₁⟩, hret, rfl⟩ := Option.map_eq_some_iff.mp hexecute
    have hpeek : peek (m.advance 1) (Mode.dp.encoded (m.advance 1)) =
        peek m (Mode.dp.encoded (m.advance 1)) :=
      peek_unseen (unseen_withCpu _ _) m
    rw [hdest p hp hmov, ← testsDest_advance, testsDest_movXDp hret, hpeek]
    exact ⟨fun h _ => h, fun h => h hmov⟩
  · obtain ⟨cb, hcb, hloads⟩ := handlers_registerLoads p hp hmov
    rw [execute_of_handler hop hcb] at hexecute
    obtain ⟨⟨⟨⟩, m₁⟩, hret, rfl⟩ := Option.map_eq_some_iff.mp hexecute
    exact iff_of_true (testsDest_advance.mp (hloads _ _ hret)) fun h => absurd h hmov

/-- A load of 0x80 from $10, with Z set. -/
def loadSample (opcode : Byte) : Machine :=
  (Machine.ofProgram [opcode, 0x10] { Cpu.init with zero := true }).poke 0x10 0x80

/-- MOV Y,$10 clears Z and sets N. -/
theorem register_loads_sample : ∃ m', execute (loadSample 0xeb) = some m' ∧
    TestsDest (.byte .y) (loadSample 0xeb).cpu m'.cpu :=
  ⟨_, rfl, (register_loads_iff (0xeb, .byte .y) (by decide) (loadSample 0xeb) _ rfl rfl).mpr
    (by decide)⟩

/-- MOV X,$10 does not. -/
theorem movXDp_no_flags : ¬ ∀ p ∈ registerLoads, ∀ m m' : Machine,
    m.aram m.cpu.pc = p.1 → execute m = some m' → TestsDest p.2 m.cpu m'.cpu := by
  intro h
  have htests := h (0xf8, .byte .x) (by decide) (loadSample 0xf8) _ rfl rfl
  have hzero := htests.zero
  revert hzero
  decide

end SpuKit.Spc700
