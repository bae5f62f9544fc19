import SpuKit.Spc700.Arithmetic

/-!
# INCW and DECW

Both compute the whole word and set the flags from it, but store its low byte
only. The word in memory is the right one as long as the other byte does not
change; and since it never does, one of them undoes the other.

## Main definitions

- `WordOp` — the two instructions
- `UpdatesWord` — the word in memory is the one that was computed

## Main results

- `execute_wordOp` — what the instruction stores
- `word_step_iff` — when the word in memory is the right one
-/

namespace SpuKit.Spc700

open Program (outcome)

/-- The operations on a word in the direct page. -/
inductive WordOp where
  | incw
  | decw
  deriving DecidableEq

namespace WordOp

def opcode : WordOp → Byte
  | incw => 0x3a
  | decw => 0x1a

/-- What is added to the word. -/
def step : WordOp → Word
  | incw => 1
  | decw => -1

/-- The low byte whose word has another high byte after the step. -/
def boundary : WordOp → Byte
  | incw => 0xff
  | decw => 0

end WordOp

theorem handlerOf_wordOp (op : WordOp) : handlerOf op.opcode = some (stepWord op.step) := by
  cases op <;> rfl

/-- The high byte changes at the boundary. -/
theorem step_keeps_high (op : WordOp) (hi lo : Byte) :
    wordOf hi ((wordOf hi lo + op.step).setWidth 8) = wordOf hi lo + op.step ↔
      lo ≠ op.boundary := by
  have hlo := lo.isLt
  have hhi := hi.isLt
  have hval := toNat_wordOf hi lo
  rw [BitVec.toNat_eq, toNat_wordOf, BitVec.toNat_setWidth, BitVec.toNat_add, hval, Ne,
    BitVec.toNat_eq]
  cases op with
  | incw =>
    show _ = (hi.toNat * 256 + lo.toNat + 1) % 65536 ↔ ¬ lo.toNat = 255
    show hi.toNat * 256 + (hi.toNat * 256 + lo.toNat + 1) % 65536 % 256 = _ ↔ _
    omega
  | decw =>
    show _ = (hi.toNat * 256 + lo.toNat + 65535) % 65536 ↔ ¬ lo.toNat = 0
    show hi.toNat * 256 + (hi.toNat * 256 + lo.toNat + 65535) % 65536 % 256 = _ ↔ _
    omega

/-- From `m` to `m'` the word at `addr` is stepped, with the flags Z and N of its
    new value, and nothing else but the program counter changes. -/
structure UpdatesWord (step : Word) (addr : Word) (m m' : Machine) : Prop where
  word : wordAt m'.aram addr = wordAt m.aram addr + step
  zero : m'.cpu.zero = decide (wordAt m.aram addr + step = 0)
  negative : m'.cpu.negative = (wordAt m.aram addr + step).msb
  memory : ∀ other, other ≠ addr → other ≠ addr + 1 → m'.aram other = m.aram other
  cpu : m'.cpu = { m.cpu with
    pc := m'.cpu.pc, zero := m'.cpu.zero, negative := m'.cpu.negative }
  rest : m' = { m with aram := m'.aram, cpu := m'.cpu }

section WordOp

variable {op : WordOp} {m m₁ m₂ : Machine} {c : Cpu}

/-- **What is stored** is the low byte. -/
theorem execute_wordOp (hop : m.aram m.cpu.pc = op.opcode) (hplain : PlainWord (m.advance 1)) :
    execute m = some (((m.advance 2).poke (Mode.dp.encoded (m.advance 1))
      ((dpWord (m.advance 1) + op.step).setWidth 8)).withCpu
      { (m.advance 2).cpu with
        zero := dpWord (m.advance 1) + op.step == 0
        negative := (dpWord (m.advance 1) + op.step).msb }) := by
  rw [← and_sign_ne_zero, execute_of_handler hop (handlerOf_wordOp op), stepWord]
  simp only [Program.outcome_bind, outcome_directPage, Option.bind_some,
    outcome_memLoadWord _ hplain.1 hplain.2, outcome_onCpu, outcome_memStore,
    memStore_plain hplain.1, Option.map_some, advance_advance]
  rfl

/-- The low byte is stored and the high byte is left. -/
theorem wordAt_poke (aram : Word → Byte) (addr : Word) (byte : Byte) :
    wordAt (Function.update aram addr byte) addr = wordOf (aram (addr + 1)) byte := by
  rw [wordAt, Function.update_self, Function.update_of_ne (next_ne addr)]

/-- The word in memory is the right one off the boundary. -/
theorem updatesWord_iff (hop : m.aram m.cpu.pc = op.opcode) (hplain : PlainWord (m.advance 1)) :
    (∃ m', execute m = some m' ∧ UpdatesWord op.step (Mode.dp.encoded (m.advance 1)) m m') ↔
      m.aram (Mode.dp.encoded (m.advance 1)) ≠ op.boundary := by
  rw [execute_wordOp hop hplain, ← step_keeps_high op
    (m.aram (Mode.dp.encoded (m.advance 1) + 1)) (m.aram (Mode.dp.encoded (m.advance 1)))]
  simp only [Option.some.injEq, exists_eq_left']
  constructor
  · intro h
    exact (wordAt_poke ..).symm.trans h.word
  · intro h
    exact {
      word := (wordAt_poke ..).trans h
      zero := rfl
      negative := rfl
      memory := fun other hother _ => poke_of_ne hother
      cpu := rfl
      rest := rfl }

/-- The low byte after a step up and a step down. -/
theorem step_back (hi hi' lo : Byte) :
    (wordOf hi' ((wordOf hi lo + WordOp.incw.step).setWidth 8) + WordOp.decw.step).setWidth 8 =
      lo := by
  have hlo := lo.isLt
  apply BitVec.eq_of_toNat_eq
  rw [BitVec.toNat_setWidth, BitVec.toNat_add, toNat_wordOf, BitVec.toNat_setWidth,
    BitVec.toNat_add, toNat_wordOf]
  show (hi'.toNat * 256 + (hi.toNat * 256 + lo.toNat + 1) % 65536 % 256 + 65535) % 65536 % 256 = _
  omega

/-- **INCW and then DECW** of the same word leave memory as it was. -/
theorem decw_incw (hop : m.aram m.cpu.pc = WordOp.incw.opcode) (hplain : PlainWord (m.advance 1))
    (h₁ : execute m = some m₁) (hp : c.pswP = m.cpu.pswP)
    (hop' : m₁.aram c.pc = WordOp.decw.opcode)
    (hoperand : m₁.aram (c.pc + 1) = m.aram (m.cpu.pc + 1)) :
    ∃ m₂, execute (m₁.withCpu c) = some m₂ ∧ m₂.aram = m.aram := by
  rw [execute_wordOp hop hplain] at h₁
  obtain rfl := Option.some.inj h₁
  generalize hm₁ : ((m.advance 2).poke (Mode.dp.encoded (m.advance 1))
    ((dpWord (m.advance 1) + WordOp.incw.step).setWidth 8)).withCpu _ = m₁ at hop' hoperand ⊢
  have haram : m₁.aram = Function.update m.aram (Mode.dp.encoded (m.advance 1))
      ((dpWord (m.advance 1) + WordOp.incw.step).setWidth 8) := by
    rw [← hm₁]
    rfl
  have haddr : Mode.dp.encoded ((m₁.withCpu c).advance 1) = Mode.dp.encoded (m.advance 1) := by
    show wordOf (if c.pswP then 1 else 0) (m₁.aram (c.pc + 1)) = _
    rw [hp, hoperand]
    rfl
  have hword : dpWord ((m₁.withCpu c).advance 1) =
      wordOf (m.aram (Mode.dp.encoded (m.advance 1) + 1))
        ((dpWord (m.advance 1) + WordOp.incw.step).setWidth 8) := by
    rw [dpWord, haddr, advance_aram, withCpu_aram, haram, wordAt_poke]
  refine ⟨_, execute_wordOp hop' (by rwa [PlainWord, haddr]), ?_⟩
  rw [hword, haddr, dpWord, wordAt, step_back, withCpu_aram]
  show Function.update m₁.aram _ _ = _
  rw [haram, Function.update_idem, advance_aram, Function.update_eq_self]

end WordOp

/-- **INCW and DECW**: the word in memory is the next or the previous one unless
    its high byte has to change, and the two undo each other. -/
theorem word_step_iff (m : Machine) (hplain : PlainWord (m.advance 1)) :
    (∀ op : WordOp, m.aram m.cpu.pc = op.opcode →
      ((∃ m', execute m = some m' ∧ UpdatesWord op.step (Mode.dp.encoded (m.advance 1)) m m') ↔
        m.aram (Mode.dp.encoded (m.advance 1)) ≠ op.boundary)) ∧
    ∀ (m₁ : Machine) (c : Cpu), m.aram m.cpu.pc = WordOp.incw.opcode →
      execute m = some m₁ → c.pswP = m.cpu.pswP → m₁.aram c.pc = WordOp.decw.opcode →
      m₁.aram (c.pc + 1) = m.aram (m.cpu.pc + 1) →
      ∃ m₂, execute (m₁.withCpu c) = some m₂ ∧ m₂.aram = m.aram :=
  ⟨fun _ hop => updatesWord_iff hop hplain,
    fun _ _ hop h₁ hp hop' hoperand => decw_incw hop hplain h₁ hp hop' hoperand⟩

/-- INCW $10 and DECW $10, with `lo` at 0x10 and 0 at 0x11 -/
def wordSample (lo : Byte) : Machine :=
  (Machine.ofProgram [0x3a, 0x10, 0x1a, 0x10] .init).poke 0x10 lo

/-- The word 0 is incremented and decremented. -/
theorem word_step_sample :
    (∃ m', execute (wordSample 0) = some m' ∧
      UpdatesWord 1 (Mode.dp.encoded ((wordSample 0).advance 1)) (wordSample 0) m') ∧
    ∃ m₁ m₂, execute (wordSample 0) = some m₁ ∧
      execute (m₁.withCpu { Cpu.init with pc := 0x202 }) = some m₂ ∧
        m₂.aram = (wordSample 0).aram := by
  obtain ⟨hiff, hback⟩ := word_step_iff (wordSample 0) (by decide)
  obtain ⟨m₂, hm₂, haram⟩ := hback _ { Cpu.init with pc := 0x202 } rfl rfl rfl rfl rfl
  exact ⟨(hiff .incw rfl).mpr (by decide), _, m₂, rfl, hm₂, haram⟩

/-- INCW of the word 0x00ff does not leave 0x0100 in memory. -/
theorem incw_no_carry : ¬ ∀ (op : WordOp) (m : Machine), m.aram m.cpu.pc = op.opcode →
    PlainWord (m.advance 1) →
    ∃ m', execute m = some m' ∧ UpdatesWord op.step (Mode.dp.encoded (m.advance 1)) m m' := by
  intro h
  have hupdates := h .incw (wordSample 0xff) rfl (by decide)
  exact (updatesWord_iff rfl (by decide)).mp hupdates (by decide)

end SpuKit.Spc700
