import SpuKit.Lib.DownStack
import SpuKit.Spc700.Execute

/-!
# The stack

Page one is a stack that grows down and wraps inside the page. Pushes and pops
are those of such a stack, they touch nothing but page one, and the status word
carries all flags.

## Main definitions

- `Machine.stack` — page one as a stack
- `Confined` — nothing but page one and the CPU changes
- `Push`, `Pop` — the ways to push and to pop bytes
- `pushes`, `pops` — any mix of them

## Main results

- `returns_pushByte`, `returns_popByte` — what is done to the stack
- `pushes_run`, `pops_run` — any mix pushes or pops its bytes
- `stack_lifo` — the stack is last-in first-out and confined to page one
-/

namespace SpuKit

/-- Page one as a stack. -/
def Machine.stack (m : Machine) : DownStack 8 Byte where
  mem byte := m.aram (Spc700.pageOne byte)
  top := m.cpu.sp

namespace Spc700

/-- Nothing but page one and the CPU changes, and no register is accessed. -/
structure Confined (m m' : Machine) (es : List CpuEvent) : Prop where
  aram : ∀ addr, ¬ (0x100 ≤ addr.toNat ∧ addr.toNat ≤ 0x1ff) → m'.aram addr = m.aram addr
  rest : m' = { m with aram := m'.aram, cpu := m'.cpu }
  avoids : AvoidsMmio es

section Confined

variable {m m' m'' : Machine} {es es' : List CpuEvent}

theorem Confined.refl (m : Machine) : Confined m m [] :=
  ⟨fun _ _ => rfl, rfl, fun _ he => absurd he List.not_mem_nil⟩

theorem Confined.append (h : Confined m m' es) (h' : Confined m' m'' es') :
    Confined m m'' (es ++ es') where
  aram addr hout := (h'.aram addr hout).trans (h.aram addr hout)
  rest := by
    rw [h'.rest, h.rest]
  avoids := avoidsMmio_append.mpr ⟨h.avoids, h'.avoids⟩

end Confined

theorem pageOne_inj {byte byte' : Byte} : pageOne byte = pageOne byte' ↔ byte = byte' := by
  rw [pageOne, pageOne, wordOf_inj, eq_self_iff_true, true_and]

theorem avoidsMmio_pageOne {e : CpuEvent} {byte : Byte} (h : e.address? = some (pageOne byte)) :
    AvoidsMmio [e] := by
  intro e' he addr haddr
  obtain rfl := List.mem_singleton.mp he
  obtain rfl := Option.some.inj (h.symm.trans haddr)
  exact pageOne_not_mmio byte

-- ════════════════════════════════════════════════════════════════════════
-- Bytes
-- ════════════════════════════════════════════════════════════════════════

/-- The program pushes the bytes, the first one first. -/
def PushesBytes (x : Insn Unit) (bytes : List Byte) (m : Machine) : Prop :=
  ∃ m' es, x.Returns m () m' es ∧ m'.stack = m.stack.pushAll bytes ∧ Confined m m' es

/-- The program pops that many bytes and returns them. -/
def PopsBytes (x : Insn (List Byte)) (n : ℕ) (m : Machine) : Prop :=
  ∃ m' es, x.Returns m (m.stack.take n) m' es ∧ m'.stack = m.stack.dropN n ∧ Confined m m' es

section Bytes

variable {bytes bytes' : List Byte} {n k : ℕ} {m : Machine}

theorem returns_onCpu {α : Type} (x : Alu α) (m : Machine) :
    (onCpu x).Returns m (x m.cpu).1 (m.withCpu (x m.cpu).2) [] := rfl

theorem returns_memStore_pageOne (byte val : Byte) (m : Machine) :
    (memStore (pageOne byte) val).Returns m () (m.poke (pageOne byte) val)
      [.store (pageOne byte) val] := by
  have hctrl : ¬ storesCtrl (pageOne byte) = true :=
    fun h => pageOne_not_mmio byte (Bool.and_eq_true_iff.mp h).1
  rw [Program.Returns, exec_memStore_pageOne, storeMem, if_neg hctrl]
  rfl

theorem returns_pushByte (byte : Byte) (m : Machine) :
    (pushByte byte).Returns m ()
      ((m.poke (pageOne m.cpu.sp) byte).withCpu { m.cpu with sp := m.cpu.sp - 1 })
      [.store (pageOne m.cpu.sp) byte] :=
  (returns_onCpu get m).bind
    ((returns_memStore_pageOne m.cpu.sp byte m).bind (returns_onCpu (modify _) _))

theorem returns_popByte (m : Machine) :
    popByte.Returns m m.stack.peek (m.withCpu { m.cpu with sp := m.cpu.sp + 1 })
      [.load (pageOne (m.cpu.sp + 1))] :=
  (returns_onCpu (modify _) m).bind ((returns_onCpu get _).bind (exec_memLoad_pageOne _ _))

theorem confined_pushByte (byte : Byte) (m : Machine) : Confined m
    ((m.poke (pageOne m.cpu.sp) byte).withCpu { m.cpu with sp := m.cpu.sp - 1 })
    [.store (pageOne m.cpu.sp) byte] where
  aram addr hout := by
    refine poke_of_ne fun haddr => hout ?_
    have hsp := m.cpu.sp.isLt
    rw [haddr, toNat_pageOne]
    omega
  rest := rfl
  avoids := avoidsMmio_pageOne rfl

theorem pushesBytes_pushByte (byte : Byte) (m : Machine) :
    PushesBytes (pushByte byte) [byte] m := by
  refine ⟨_, _, returns_pushByte byte m, ?_, confined_pushByte byte m⟩
  exact congrArg (DownStack.mk · (m.cpu.sp - 1))
    (Function.update_comp_eq_of_injective m.aram (fun _ _ => pageOne_inj.mp) m.cpu.sp byte)

theorem returns_popWord (m : Machine) :
    popWord.Returns m (wordOf m.stack.drop.peek m.stack.peek)
      (m.withCpu { m.cpu with sp := m.cpu.sp + 1 + 1 })
      [.load (pageOne (m.cpu.sp + 1)), .load (pageOne (m.cpu.sp + 1 + 1))] :=
  (returns_popByte m).bind ((returns_popByte _).bind (Program.returns_pure.mpr ⟨rfl, rfl, rfl⟩))

theorem PushesBytes.bind {x y : Insn Unit} (hx : PushesBytes x bytes m)
    (hy : ∀ m, PushesBytes y bytes' m) : PushesBytes (do x; y) (bytes ++ bytes') m := by
  obtain ⟨m', es, hret, hstack, hconf⟩ := hx
  obtain ⟨m'', es', hret', hstack', hconf'⟩ := hy m'
  exact ⟨m'', es ++ es', hret.bind hret',
    by rw [hstack', hstack, DownStack.pushAll_append], hconf.append hconf'⟩

theorem PopsBytes.bind {x y : Insn (List Byte)} (hx : PopsBytes x n m)
    (hy : ∀ m, PopsBytes y k m) : PopsBytes (do
      let bytes ← x
      let rest ← y
      pure (bytes ++ rest)) (n + k) m := by
  obtain ⟨m', es, hret, hstack, hconf⟩ := hx
  obtain ⟨m'', es', hret', hstack', hconf'⟩ := hy m'
  rw [hstack] at hret' hstack'
  refine ⟨m'', es ++ (es' ++ []), hret.bind (hret'.bind ?_), ?_, ?_⟩
  · exact Program.returns_pure.mpr ⟨DownStack.take_add .., rfl, rfl⟩
  · rw [hstack', DownStack.dropN_dropN]
  · rw [List.append_nil]
    exact hconf.append hconf'

end Bytes

-- ════════════════════════════════════════════════════════════════════════
-- Instructions
-- ════════════════════════════════════════════════════════════════════════

/-- The registers that have instructions PUSH and POP. -/
inductive StackReg where
  | a
  | x
  | y
  | psw
  deriving DecidableEq

namespace StackReg

def read : StackReg → Cpu → Byte
  | a => Cpu.a
  | x => Cpu.x
  | y => Cpu.y
  | psw => pswCompose

def pushInsn : StackReg → Insn Unit
  | a => insnPushA
  | x => insnPushX
  | y => insnPushY
  | psw => insnPushPsw

def popInsn : StackReg → Insn Unit
  | a => insnPopA
  | x => insnPopX
  | y => insnPopY
  | psw => insnPopPsw

end StackReg

/-- The ways to push: an instruction, or a word as calls do. -/
inductive Push where
  | reg (reg : StackReg)
  | word (word : Word)

/-- The ways to pop: an instruction, or a word as RET does. -/
inductive Pop where
  | reg (reg : StackReg)
  | word

namespace Push

def insn : Push → Insn Unit
  | reg r => r.pushInsn
  | word val => pushWord val

/-- The bytes that are pushed, the first one first. -/
def bytes (c : Cpu) : Push → List Byte
  | reg r => [r.read c]
  | word val => [(val >>> 8).setWidth 8, val.setWidth 8]

end Push

namespace Pop

/-- The bytes that are popped, the first one first: an instruction leaves its
    byte in the register. -/
def insn : Pop → Insn (List Byte)
  | reg r => do
    r.popInsn
    let c ← getCpu
    pure [r.read c]
  | word => do
    let val ← popWord
    pure [val.setWidth 8, (val >>> 8).setWidth 8]

def size : Pop → ℕ
  | reg _ => 1
  | word => 2

end Pop

/-- The flags of the status word. -/
def pswFlags (c : Cpu) : List Bool :=
  [c.negative, c.overflow, c.pswP, c.pswB, c.halfCarry, c.pswI, c.zero, c.carry]

/-- **Status word**: it carries all flags. -/
theorem pswFlags_decompose_compose (c c' : Cpu) :
    pswFlags (pswDecompose (pswCompose c) c') = pswFlags c := by
  simp only [pswFlags, pswDecompose, pswCompose, BitVec.getLsbD_append, BitVec.getLsbD_ofBool]
  simp

theorem pswFlags_eq_of_compose {c c' : Cpu} (h : pswCompose c = pswCompose c') :
    pswFlags c = pswFlags c' := by
  rw [← pswFlags_decompose_compose c c, h, pswFlags_decompose_compose]

theorem pswCompose_decompose (psw : Byte) (c : Cpu) :
    pswCompose (pswDecompose psw c) = psw := by
  have hbits : ∀ psw : Byte, BitVec.ofBool (psw.getLsbD 7) ++ BitVec.ofBool (psw.getLsbD 6) ++
      BitVec.ofBool (psw.getLsbD 5) ++ BitVec.ofBool (psw.getLsbD 4) ++
      BitVec.ofBool (psw.getLsbD 3) ++ BitVec.ofBool (psw.getLsbD 2) ++
      BitVec.ofBool (psw.getLsbD 1) ++ BitVec.ofBool (psw.getLsbD 0) = psw := by
    decide
  exact hbits psw

section Instructions

variable {m : Machine}

theorem confined_withCpu (m : Machine) (c : Cpu) : Confined m (m.withCpu c) [] :=
  ⟨fun _ _ => rfl, rfl, fun _ he => absurd he List.not_mem_nil⟩

theorem returns_push (reg : Cpu → Byte) (m : Machine) :
    PushesBytes (push reg) [reg m.cpu] m := by
  obtain ⟨m', es, hret, hstack, hconf⟩ := pushesBytes_pushByte (reg m.cpu) m
  exact ⟨m', es, (returns_onCpu get m).bind hret, hstack, hconf⟩

/-- A word is pushed with its high byte first. -/
theorem pushesBytes_pushWord (val : Word) (m : Machine) :
    PushesBytes (pushWord val) [(val >>> 8).setWidth 8, val.setWidth 8] m := by
  have hevent : Confined m m [.pushWord val] := by
    refine ⟨fun _ _ => rfl, rfl, fun e he addr haddr => ?_⟩
    obtain rfl := List.mem_singleton.mp he
    cases haddr
  obtain ⟨m', es, hret, hstack, hconf⟩ :=
    (pushesBytes_pushByte ((val >>> 8).setWidth 8) m).bind (pushesBytes_pushByte (val.setWidth 8))
  exact ⟨m', _, ((Program.returns_emit (u := ())).mpr ⟨rfl, rfl⟩).bind hret, hstack,
    hevent.append hconf⟩

theorem pushesBytes_insn (p : Push) (m : Machine) : PushesBytes p.insn (p.bytes m.cpu) m := by
  cases p with
  | reg r => cases r <;> exact returns_push _ m
  | word val => exact pushesBytes_pushWord val m

/-- An instruction POP leaves the byte in the register. -/
theorem returns_popInsn (r : StackReg) (m : Machine) :
    ∃ c, r.popInsn.Returns m () (m.withCpu c) [.load (pageOne (m.cpu.sp + 1))] ∧
      r.read c = m.stack.peek ∧ c.sp = m.cpu.sp + 1 := by
  cases r with
  | a => exact ⟨_, (returns_popByte m).bind (returns_onCpu (setA _) _), rfl, rfl⟩
  | x => exact ⟨_, (returns_popByte m).bind (returns_onCpu (setX _) _), rfl, rfl⟩
  | y => exact ⟨_, (returns_popByte m).bind (returns_onCpu (setY _) _), rfl, rfl⟩
  | psw =>
    exact ⟨_, (returns_popByte m).bind (returns_onCpu (modify (pswDecompose _)) _),
      pswCompose_decompose .., rfl⟩

theorem popsBytes_insn (p : Pop) (m : Machine) : PopsBytes p.insn p.size m := by
  cases p with
  | reg r =>
    obtain ⟨c, hret, hread, hsp⟩ := returns_popInsn r m
    refine ⟨_, _, hret.bind ((returns_onCpu get _).bind (Program.returns_pure.mpr ⟨?_, rfl, rfl⟩)),
      ?_, ?_⟩
    · exact congrArg (· :: []) hread.symm
    · exact congrArg (DownStack.mk _) hsp
    · exact ⟨fun _ _ => rfl, rfl, avoidsMmio_pageOne rfl⟩
  | word =>
    refine ⟨_, _, (returns_popWord m).bind (Program.returns_pure.mpr ⟨?_, rfl, rfl⟩), ?_, ?_⟩
    · rw [lo_wordOf, hi_wordOf]
      rfl
    · exact congrArg (DownStack.mk _) (BitVec.add_assoc ..)
    · refine ⟨fun _ _ => rfl, rfl, ?_⟩
      show AvoidsMmio ([.load (pageOne (m.cpu.sp + 1))] ++ [.load (pageOne (m.cpu.sp + 1 + 1))])
      exact avoidsMmio_append.mpr ⟨avoidsMmio_pageOne rfl, avoidsMmio_pageOne rfl⟩

end Instructions

-- ════════════════════════════════════════════════════════════════════════
-- Any mix
-- ════════════════════════════════════════════════════════════════════════

/-- All registers but the stack pointer are changed. -/
def withRegisters (c : Cpu) : Insn PUnit := modifyCpu fun c' => { c with sp := c'.sp }

/-- One push after another, with the registers given before each of them. -/
def pushes : List (Cpu × Push) → Insn Unit
  | [] => pure ()
  | p :: ps => do
    withRegisters p.1
    p.2.insn
    pushes ps

/-- One pop after another, with the registers given before each of them. The
    bytes are returned in the order of the pops. -/
def pops : List (Cpu × Pop) → Insn (List Byte)
  | [] => pure []
  | p :: ps => do
    withRegisters p.1
    let bytes ← p.2.insn
    let rest ← pops ps
    pure (bytes ++ rest)

/-- The bytes in the order of the pushes. -/
def pushedBytes (ps : List (Cpu × Push)) : List Byte := ps.flatMap fun p => p.2.bytes p.1

def poppedSize (ps : List (Cpu × Pop)) : ℕ := (ps.map fun p => p.2.size).sum

/-- **Pushes**: by induction on the pushes. -/
theorem pushes_run (ps : List (Cpu × Push)) (m : Machine) :
    PushesBytes (pushes ps) (pushedBytes ps) m := by
  induction ps generalizing m with
  | nil => exact ⟨m, [], Program.returns_pure.mpr ⟨rfl, rfl, rfl⟩, rfl, Confined.refl m⟩
  | cons p ps ih =>
    have hbytes : p.2.bytes { p.1 with sp := m.cpu.sp } = p.2.bytes p.1 := by
      cases p.2 with
      | reg r => cases r <;> rfl
      | word val => rfl
    obtain ⟨m', es, hret, hstack, hconf⟩ :=
      (pushesBytes_insn p.2 (m.withCpu { p.1 with sp := m.cpu.sp })).bind ih
    rw [withCpu_cpu, hbytes] at hstack
    exact ⟨m', [] ++ es, (returns_onCpu (modify _) m).bind hret, hstack,
      (confined_withCpu m _).append hconf⟩

/-- **Pops**: by induction on the pops. -/
theorem pops_run (ps : List (Cpu × Pop)) (m : Machine) :
    PopsBytes (pops ps) (poppedSize ps) m := by
  induction ps generalizing m with
  | nil =>
    exact ⟨m, [], Program.returns_pure.mpr ⟨rfl, rfl, rfl⟩, (m.stack.dropN_zero).symm,
      Confined.refl m⟩
  | cons p ps ih =>
    obtain ⟨m', es, hret, hstack, hconf⟩ :=
      (popsBytes_insn p.2 (m.withCpu { p.1 with sp := m.cpu.sp })).bind ih
    exact ⟨m', [] ++ es, (returns_onCpu (modify _) m).bind hret, hstack,
      (confined_withCpu m _).append hconf⟩

/-- **Last in, first out**: any mix of pushes of at most 256 bytes, and then any mix
    of pops of as many. The second part is about PUSH PSW and POP PSW with a mix of
    pushes and pops between them. -/
theorem stack_lifo :
    (∀ (m : Machine) (ps : List (Cpu × Push)) (qs : List (Cpu × Pop)),
      (pushedBytes ps).length ≤ 256 → poppedSize qs = (pushedBytes ps).length →
      ∃ m' es, Program.Returns (do pushes ps; pops qs) m (pushedBytes ps).reverse m' es ∧
        m'.cpu.sp = m.cpu.sp ∧
        (∀ addr, m'.aram addr ≠ m.aram addr → 0x100 ≤ addr.toNat ∧ addr.toNat ≤ 0x1ff) ∧
        AvoidsMmio es) ∧
    ∀ (m : Machine) (ps : List (Cpu × Push)) (qs : List (Cpu × Pop)) (c : Cpu),
      (pushedBytes ps).length < 256 → poppedSize qs = (pushedBytes ps).length →
      ∃ m' es, Program.Returns (do
          insnPushPsw
          pushes ps
          let _ ← pops qs
          withRegisters c
          insnPopPsw) m () m' es ∧
        m'.cpu.sp = m.cpu.sp ∧ pswFlags m'.cpu = pswFlags m.cpu := by
  constructor
  · intro m ps qs hroom hsize
    obtain ⟨m₁, es₁, hpush, hstack₁, hconf₁⟩ := pushes_run ps m
    obtain ⟨m₂, es₂, hpop, hstack₂, hconf₂⟩ := pops_run qs m₁
    rw [hsize, hstack₁] at hpop hstack₂
    rw [DownStack.take_pushAll _ hroom] at hpop
    have hconf := hconf₁.append hconf₂
    refine ⟨m₂, es₁ ++ es₂, hpush.bind hpop, ?_, fun addr hchange => ?_, hconf.avoids⟩
    · exact (congrArg DownStack.top hstack₂).trans (DownStack.top_dropN_pushAll ..)
    · exact not_not.mp fun hout => hchange (hconf.aram addr hout)
  · intro m ps qs c hroom hsize
    obtain ⟨m₁, es₁, hpsw, hstack₁, -⟩ := returns_push pswCompose m
    obtain ⟨m₂, es₂, hpush, hstack₂, -⟩ := pushes_run ps m₁
    obtain ⟨m₃, es₃, hpop, hstack₃, -⟩ := pops_run qs m₂
    obtain ⟨c', hret, hread, hsp⟩ :=
      returns_popInsn .psw (m₃.withCpu { c with sp := m₃.cpu.sp })
    have hstack : m₃.stack =
        ((m.stack.push (pswCompose m.cpu)).pushAll (pushedBytes ps)).dropN
          (pushedBytes ps).length := by
      rw [hstack₃, hstack₂, hstack₁, hsize]
      rfl
    have hpeek : m₃.stack.peek = pswCompose m.cpu := by
      rw [hstack]
      exact DownStack.peek_dropN_pushAll _ _ hroom
    have htop : m₃.cpu.sp = m.cpu.sp - 1 :=
      (congrArg DownStack.top hstack).trans (DownStack.top_dropN_pushAll ..)
    refine ⟨_, _, hpsw.bind (hpush.bind (hpop.bind
      ((returns_onCpu (modify _) m₃).bind hret))), ?_, ?_⟩
    · rw [withCpu_cpu, hsp, withCpu_cpu, htop]
      exact BitVec.sub_add_cancel m.cpu.sp 1
    · exact pswFlags_eq_of_compose (hread.trans hpeek)

/-- A register and a word are pushed at the end of the page, and popped the other
    way round. -/
theorem stack_lifo_sample :
    (∃ m' es, Program.Returns (do
        pushes [({ Cpu.init with x := 0x55 }, .reg .x), (.init, .word 0x1234)]
        pops [(.init, .reg .a), (.init, .word)]) .init [0x34, 0x12, 0x55] m' es ∧
      m'.cpu.sp = 0) ∧
    ∃ m' es, Program.Returns (do
        insnPushPsw
        pushes []
        let _ ← pops []
        withRegisters .init
        insnPopPsw) (Machine.init.withCpu { Cpu.init with carry := true }) () m' es ∧
      m'.cpu.sp = 0 ∧
      pswFlags m'.cpu = [false, false, false, false, false, false, false, true] := by
  obtain ⟨m', es, hret, hsp, -⟩ := stack_lifo.1 .init
    [({ Cpu.init with x := 0x55 }, .reg .x), (.init, .word 0x1234)]
    [(.init, .reg .a), (.init, .word)] (by decide) rfl
  exact ⟨⟨m', es, hret, hsp⟩,
    stack_lifo.2 (Machine.init.withCpu { Cpu.init with carry := true }) [] [] .init (by decide) rfl⟩

end Spc700

end SpuKit
