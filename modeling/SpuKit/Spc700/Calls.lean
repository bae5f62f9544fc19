import Mathlib.Tactic.FinCases
import SpuKit.Spc700.Modes
import SpuKit.Spc700.Stack

/-!
# Calls and returns

A call pushes the address of the next instruction, and RET comes back to it from
any machine with the same stack pointer and the same two bytes on the stack. The
targets of TCALL are in a table at the end of memory, of which TCALL 9 uses the
entry of TCALL 0.

## Main definitions

- `tcallOpcode`, `vector` — TCALL n and its entry in the table
- `ComesBack` — RET continues at an address
- `Calls` — a call goes to its target, and RET comes back

## Main results

- `comesBack_of_pushed` — RET pops the word that was pushed
- `calls_iff` — which calls go to their targets
-/

namespace SpuKit.Spc700

open Program (outcome)

/-- RET at `m₂`, with the stack pointer of `m₁` and the two bytes that were pushed
    there, continues at `ret` with the stack pointer of `m`. -/
def ComesBack (ret : Word) (m m₁ : Machine) : Prop :=
  ∀ m₂ : Machine, m₂.cpu.sp = m₁.cpu.sp →
    m₂.aram (stackAddr m.cpu) = m₁.aram (stackAddr m.cpu) →
    m₂.aram (wordOf 1 (m.cpu.sp - 1)) = m₁.aram (wordOf 1 (m.cpu.sp - 1)) →
    m₂.aram m₂.cpu.pc = 0x6f →
    ∃ m₃, execute m₂ = some m₃ ∧ m₃.cpu.pc = ret ∧ m₃.cpu.sp = m.cpu.sp

/-- The instruction at `m` goes to `target`. It pushes the address `ret`, with the
    high byte first, and RET comes back there. -/
structure CallsFrom (target ret : Word) (m m₁ : Machine) : Prop where
  pc : m₁.cpu.pc = target
  sp : m₁.cpu.sp = m.cpu.sp - 2
  hi : m₁.aram (stackAddr m.cpu) = (ret >>> 8).setWidth 8
  lo : m₁.aram (wordOf 1 (m.cpu.sp - 1)) = ret.setWidth 8
  back : ComesBack ret m m₁

def Calls (target ret : Word) (m : Machine) : Prop :=
  ∃ m₁, execute m = some m₁ ∧ CallsFrom target ret m m₁

section Calls

variable {m m₁ m₂ : Machine} {word : Word}

/-- The bytes of a word that was pushed, the last one first. -/
theorem holds_pushed (h : m₁.stack = m.stack.pushAll [(word >>> 8).setWidth 8, word.setWidth 8]) :
    m₁.stack.Holds [word.setWidth 8, (word >>> 8).setWidth 8] := by
  rw [h]
  exact DownStack.Holds.pushAll (DownStack.holds_nil _) (show 2 ≤ 2 ^ 8 by decide)

/-- They are in the two cells below the stack pointer before the push. -/
theorem cells_pushed (h : m₁.stack = m.stack.pushAll [(word >>> 8).setWidth 8, word.setWidth 8]) :
    m₁.cpu.sp = m.cpu.sp - 2 ∧ m₁.stack.cell 0 = m.cpu.sp - 1 ∧ m₁.stack.cell 1 = m.cpu.sp := by
  have htop : m₁.cpu.sp = m.cpu.sp - 2 :=
    (congrArg DownStack.top h).trans (DownStack.top_pushAll ..)
  refine ⟨htop, ?_, ?_⟩
  · show m₁.cpu.sp + 1 = _
    rw [htop]
    bv_omega
  · show m₁.cpu.sp + 2 = _
    rw [htop]
    exact BitVec.sub_add_cancel m.cpu.sp 2

/-- **Return**: whatever else has happened, the word is popped. -/
theorem comesBack_of_pushed
    (h : m₁.stack = m.stack.pushAll [(word >>> 8).setWidth 8, word.setWidth 8]) :
    ComesBack word m m₁ := by
  intro m₂ hsp hhi hlo hop
  obtain ⟨htop, hcell₀, hcell₁⟩ := cells_pushed h
  have hholds : m₂.stack.Holds [word.setWidth 8, (word >>> 8).setWidth 8] := by
    refine (holds_pushed h).congr hsp fun i hi => ?_
    obtain rfl | rfl : i = 0 ∨ i = 1 := by
      simp only [List.length_cons, List.length_nil] at hi
      omega
    · rw [hcell₀]
      exact hlo
    · rw [hcell₁]
      exact hhi
  obtain ⟨hpeek, hrest⟩ := hholds.pop
  have hret := (returns_popWord (m₂.advance 1)).outcome
  rw [show (m₂.advance 1).stack = m₂.stack from rfl, hpeek, hrest.pop.1, wordOf_bytes] at hret
  rw [execute_of_handler hop (show handlerOf 0x6f = some insnRet from rfl), insnRet, jumpTo]
  simp only [Program.outcome_bind, hret, Option.bind_some, outcome_modifyCpu, Option.map_some]
  refine ⟨_, rfl, rfl, ?_⟩
  show m₂.cpu.sp + 1 + 1 = m.cpu.sp
  rw [hsp, htop]
  bv_omega

/-- A call from the machine with the program counter at the next instruction. -/
theorem outcome_call (target : Word) (m : Machine) :
    ∃ m₁, outcome (call target) m = some (⟨⟩, m₁) ∧ m₁.cpu.pc = target ∧
      m₁.stack = m.stack.pushAll [(m.cpu.pc >>> 8).setWidth 8, m.cpu.pc.setWidth 8] := by
  obtain ⟨m₁, es, hret, hstack, -⟩ := pushesBytes_pushWord m.cpu.pc m
  refine ⟨m₁.withCpu { m₁.cpu with pc := target }, ?_, rfl, hstack⟩
  simp only [call, Program.outcome_bind, outcome_getCpu, Option.bind_some, hret.outcome,
    outcome_modifyCpu]

theorem callsFrom_of_pushed {target : Word} (hpc : m₁.cpu.pc = target)
    (h : m₁.stack = m.stack.pushAll [(word >>> 8).setWidth 8, word.setWidth 8]) :
    CallsFrom target word m m₁ := by
  obtain ⟨hsp, hcell₀, hcell₁⟩ := cells_pushed h
  have hholds := holds_pushed h
  refine ⟨hpc, hsp, ?_, ?_, comesBack_of_pushed h⟩
  · exact (congrArg m₁.stack.mem hcell₁.symm).trans (hholds 1 (show 1 < 2 by decide))
  · exact (congrArg m₁.stack.mem hcell₀.symm).trans (hholds 0 (show 0 < 2 by decide))

end Calls

-- ════════════════════════════════════════════════════════════════════════
-- Targets
-- ════════════════════════════════════════════════════════════════════════

/-- The opcode of TCALL n. -/
def tcallOpcode (n : Fin 16) : Byte := (BitVec.ofNat 8 n <<< 4) ||| 1

/-- The entry of TCALL n in the table. -/
def vector (n : Fin 16) : Word := 0xffde - BitVec.ofNat 16 (2 * n)

/-- The entry that the handler of TCALL n uses. -/
def tcallSlot (n : Fin 16) : Fin 16 := if n = 9 then 0 else n

theorem handlerOf_tcall (n : Fin 16) :
    handlerOf (tcallOpcode n) = some (tcall (BitVec.ofNat 8 (tcallSlot n))) := by
  fin_cases n <;> rfl

theorem tcall_vector (slot : Fin 16) : tcall (BitVec.ofNat 8 slot) = (do
    let addr ← memLoadWord (vector slot)
    call addr) := by
  have haddr : ∀ slot : Fin 16, ((0xffc0 : ℕ) : Word) +
      ((0xf - (BitVec.ofNat 8 slot &&& 0xf)).setWidth 16 <<< 1) = vector slot := by
    decide
  exact congrArg (fun addr => memLoadWord addr >>= call) (haddr slot)

section Targets

variable {m : Machine}

/-- **CALL !a** goes to its operand. -/
theorem calls_abs (hop : m.aram m.cpu.pc = 0x3f) :
    Calls (wordAt m.aram (m.cpu.pc + 1)) (m.cpu.pc + 3) m := by
  obtain ⟨m₁, hcall, hpc, hstack⟩ := outcome_call (wordAt m.aram (m.cpu.pc + 1)) (m.advance 3)
  refine ⟨m₁, ?_, callsFrom_of_pushed hpc hstack⟩
  rw [execute_of_handler hop (show handlerOf 0x3f = some insnCallAbs from rfl), insnCallAbs,
    Program.outcome_bind, outcome_absolute, Option.bind_some, advance_advance]
  exact congrArg (Option.map Prod.snd) hcall

/-- **TCALL n** goes to the word in the entry that its handler uses. -/
theorem execute_tcall {n : Fin 16} (hop : m.aram m.cpu.pc = tcallOpcode n) :
    ∃ m₁, execute m = some m₁ ∧
      CallsFrom (wordAt m.aram (vector (tcallSlot n))) (m.cpu.pc + 1) m m₁ := by
  have hentry : ∀ slot : Fin 16, Plain (vector slot) ∧ Plain (vector slot + 1) := by
    decide
  obtain ⟨hplain, hplain'⟩ := hentry (tcallSlot n)
  obtain ⟨m₁, hcall, hpc, hstack⟩ :=
    outcome_call (wordAt m.aram (vector (tcallSlot n))) (m.advance 1)
  refine ⟨m₁, ?_, callsFrom_of_pushed hpc hstack⟩
  rw [execute_of_handler hop (handlerOf_tcall n), tcall_vector, Program.outcome_bind,
    outcome_memLoadWord _ hplain hplain', Option.bind_some]
  exact congrArg (Option.map Prod.snd) hcall

end Targets

/-- **Calls and returns**: CALL goes to its operand and TCALL n to the word in its
    entry, but TCALL 9, which goes to the word in the entry of TCALL 0; and RET comes
    back from all of them. -/
theorem calls_iff (m : Machine) :
    (m.aram m.cpu.pc = 0x3f →
      Calls (wordAt m.aram (m.cpu.pc + 1)) (m.cpu.pc + 3) m) ∧
    ∀ n : Fin 16, m.aram m.cpu.pc = tcallOpcode n →
      (Calls (wordAt m.aram (vector n)) (m.cpu.pc + 1) m ↔
        (n = 9 → wordAt m.aram (vector 0) = wordAt m.aram (vector 9))) := by
  refine ⟨fun hop => calls_abs hop, fun n hop => ?_⟩
  obtain ⟨m₁, h₁, hcalls⟩ := execute_tcall hop
  constructor
  · rintro ⟨m₁', h₁', hcalls'⟩ rfl
    obtain rfl := Option.some.inj (h₁.symm.trans h₁')
    exact hcalls.pc.symm.trans hcalls'.pc
  · intro h
    have htarget : wordAt m.aram (vector (tcallSlot n)) = wordAt m.aram (vector n) := by
      rw [tcallSlot]
      split
      · next hn => rw [h hn, hn]
      · rfl
    rw [← htarget]
    exact ⟨m₁, h₁, hcalls⟩

/-- TCALL n, with 0x0001 in the entry of TCALL 9 and 0 in all others. -/
def tcallSample (n : Fin 16) : Machine :=
  (Machine.ofProgram [tcallOpcode n] .init).poke (vector 9) 1

/-- A call to the word in the first entry, and one to the operand. -/
theorem calls_sample :
    Calls 0 0x201 (tcallSample 0) ∧ Calls 0x1234 0x203 (.ofProgram [0x3f, 0x34, 0x12] .init) :=
  ⟨((calls_iff (tcallSample 0)).2 0 rfl).mpr (by decide), (calls_iff _).1 rfl⟩

/-- TCALL 9 does not go to the word in its entry. -/
theorem tcall9_wrong_vector : ¬ ∀ (n : Fin 16) (m : Machine), m.aram m.cpu.pc = tcallOpcode n →
    Calls (wordAt m.aram (vector n)) (m.cpu.pc + 1) m := by
  intro h
  obtain ⟨m₁, h₁, hcalls⟩ := h 9 (tcallSample 9) rfl
  obtain ⟨m₁', h₁', hcalls'⟩ := execute_tcall (m := tcallSample 9) (n := 9) rfl
  obtain rfl := Option.some.inj (h₁.symm.trans h₁')
  have htargets := hcalls.pc.symm.trans hcalls'.pc
  revert htargets
  decide

end SpuKit.Spc700
