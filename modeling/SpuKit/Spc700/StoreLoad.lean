import SpuKit.Spc700.Modes

/-!
# A store and a load with one addressing mode

MOV M,A followed by MOV A,M with the same operands hands the byte back, since
the store and the load of a mode use one helper. The exception is [d+X]: its
store does not follow the pointer and overwrites it instead. A pointer in the
registers may also change because it is read, when it contains T0OUT.

## Main definitions

- `Mode.storeOpcode`, `Mode.loadOpcode` — MOV M,A and MOV A,M
- `SameOperands` — what the load has in common with the store
- `Restores` — the store and then the load hand A back
- `Mode.FindsAgain` — when they do

## Main results

- `handlerOf_storeOpcode`, `handlerOf_loadOpcode` — the handlers of the modes
- `memLoad_unseen` — a load does not depend on what it does not see
- `mov_restores_iff` — the store and the load of a mode
-/

namespace SpuKit

/-- T0OUT is cleared, as a load of any timer output does. -/
def Apu.clearT0 (a : Apu) : Apu := { a with s := Function.update a.s (apuTout 0) 0 }

def Machine.clearT0 (m : Machine) : Machine := { m with apu := m.apu.clearT0 }

namespace Spc700

open Program (outcome)

namespace Mode

/-- The opcode of MOV M,A. -/
def storeOpcode : Mode → Byte
  | dp => 0xc4
  | abs => 0xc5
  | ix => 0xc6
  | dxInd => 0xc7
  | dpx => 0xd4
  | absx => 0xd5
  | absy => 0xd6
  | dpiy => 0xd7

/-- The opcode of MOV A,M. -/
def loadOpcode : Mode → Byte
  | dp => 0xe4
  | abs => 0xe5
  | ix => 0xe6
  | dxInd => 0xe7
  | dpx => 0xf4
  | absx => 0xf5
  | absy => 0xf6
  | dpiy => 0xf7

/-- The helper that the store uses. -/
def storeHelper : Mode → Insn Word
  | dxInd => directPageX
  | mode => mode.helper

end Mode

theorem handlerOf_storeOpcode (mode : Mode) :
    handlerOf mode.storeOpcode = some (store Cpu.a mode.storeHelper) := by
  cases mode <;> rfl

theorem handlerOf_loadOpcode (mode : Mode) :
    handlerOf mode.loadOpcode = some (load setA mode.helper) := by
  cases mode <;> rfl

-- ════════════════════════════════════════════════════════════════════════
-- What a load sees
-- ════════════════════════════════════════════════════════════════════════

/-- A change of the machine that a load of `addr` does not see. -/
structure Unseen (g : Machine → Machine) (addr : Word) : Prop where
  aram : ∀ m, (g m).aram addr = m.aram addr
  apu : ∀ m, (g m).apu = m.apu
  dsp : ∀ m, (g m).dsp = m.dsp
  withApu : ∀ m a, g { m with apu := a } = { g m with apu := a }

section Unseen

variable {g : Machine → Machine} {addr : Word}

/-- **A load does not depend on what it does not see**, and leaves it alone. -/
theorem memLoad_unseen (h : Unseen g addr) (m : Machine) :
    SpuKit.memLoad .fast addr (g m) =
      (SpuKit.memLoad .fast addr m).map fun r => (r.1, g r.2) := by
  by_cases hplain : Plain addr
  · rw [memLoad_plain hplain, memLoad_plain hplain, Option.map_some, h.aram]
  · have hmmio : apuMmioAddress addr = true := not_not.mp (mt plain_iff.mpr hplain)
    have hregs : mmioLoadRegs addr (g m).apu (g m).dsp = mmioLoadRegs addr m.apu m.dsp := by
      rw [h.apu, h.dsp]
    rw [memLoad_run, memLoad_run, if_pos hmmio, if_pos hmmio, hregs, Option.map_map]
    congr 1
    funext p
    exact Prod.ext rfl (h.withApu m p.2).symm

theorem memLoadWord_unseen (hlo : Unseen g addr) (hhi : Unseen g (addr + 1)) (m : Machine) :
    outcome (memLoadWord addr) (g m) =
      (outcome (memLoadWord addr) m).map fun r => (r.1, g r.2) := by
  have hzero : addr + 0 = addr := BitVec.add_zero addr
  simp only [memLoadWord, hzero, Program.outcome_bind, outcome_memLoad, memLoad_unseen hlo]
  cases SpuKit.memLoad .fast addr m with
  | none => rfl
  | some p =>
    simp only [Option.map_some, Option.bind_some, memLoad_unseen hhi]
    cases SpuKit.memLoad .fast (addr + 1) p.2 <;> rfl

/-- A byte elsewhere is not seen. -/
theorem unseen_poke {other : Word} (h : addr ≠ other) (byte : Byte) :
    Unseen (fun m => m.poke other byte) addr where
  aram _ := poke_of_ne h
  apu _ := rfl
  dsp _ := rfl
  withApu _ _ := rfl

/-- The CPU is not seen. -/
theorem unseen_withCpu (addr : Word) (c : Cpu) : Unseen (fun m => m.withCpu c) addr :=
  ⟨fun _ => rfl, fun _ => rfl, fun _ => rfl, fun _ _ => rfl⟩

end Unseen

-- ════════════════════════════════════════════════════════════════════════
-- Reading a pointer again
-- ════════════════════════════════════════════════════════════════════════

section Again

variable {addr word : Word} {byte : Byte} {m m' : Machine}

/-- A byte that was loaded, loaded again when T0OUT has been read. -/
def again (addr : Word) (byte : Byte) : Byte := if addr = apuAddr (apuTout 0) then 0 else byte

/-- A load of a register reads T0OUT or leaves the APU alone, and it can be
    repeated. -/
theorem mmioLoadRegs_again {a a' : Apu} {d : Dsp} (hmmio : addr = apuAddr (apuReg addr))
    (h : mmioLoadRegs addr a d = some (byte, a')) :
    (a' = a ∨ a' = a.clearT0) ∧
      mmioLoadRegs addr a.clearT0 d = some (again addr byte, a.clearT0) := by
  have hkeep : ∀ reg : Fin 16, reg ≠ apuTout 0 → a.clearT0.s reg = a.s reg :=
    fun reg hreg => Function.update_of_ne hreg ..
  have hagain : apuReg addr ≠ apuTout 0 → again addr byte = byte := by
    intro hreg
    refine if_neg fun haddr => hreg ?_
    rw [haddr, apuReg_apuAddr]
  rw [mmioLoadRegs] at h ⊢
  by_cases hdata : apuReg addr = apuDspData
  · rw [if_pos hdata] at h ⊢
    obtain ⟨val, hval, heq⟩ := Option.map_eq_some_iff.mp h
    obtain ⟨rfl, rfl⟩ := Prod.mk.inj heq
    rw [hagain (by rw [hdata]; decide), hkeep _ (by decide), hval]
    exact ⟨Or.inl rfl, rfl⟩
  rw [if_neg hdata] at h ⊢
  by_cases hio : apuReg addr = apuIo 0 ∨ apuReg addr = apuIo 1 ∨ apuReg addr = apuIo 2 ∨
      apuReg addr = apuIo 3
  · have hnot : apuReg addr ≠ apuTout 0 := fun hreg => (apuTout_plain 0).2.2 (hreg ▸ hio)
    rw [if_pos hio] at h ⊢
    obtain ⟨val, hval, heq⟩ := Option.map_eq_some_iff.mp h
    obtain ⟨rfl, rfl⟩ := Prod.mk.inj heq
    rw [hagain hnot]
    exact ⟨Or.inl rfl, congrArg (Option.map (·, a.clearT0)) hval⟩
  rw [if_neg hio] at h ⊢
  by_cases hout : apuReg addr = apuTout 0 ∨ apuReg addr = apuTout 1 ∨ apuReg addr = apuTout 2
  · rw [if_pos hout, apuOff_tout] at h
    rw [if_pos hout, apuOff_tout]
    obtain ⟨rfl, rfl⟩ := Prod.mk.inj (Option.some.inj h)
    refine ⟨Or.inr rfl, ?_⟩
    by_cases hreg : apuReg addr = apuTout 0
    · rw [again, if_pos (hmmio.trans (congrArg apuAddr hreg)), hreg]
      simp [Apu.clearT0]
    · rw [hagain hreg, hkeep _ hreg]
      simp [Apu.clearT0]
  · rw [if_neg hout] at h ⊢
    obtain ⟨rfl, rfl⟩ := Prod.mk.inj (Option.some.inj h)
    have hreg : apuReg addr ≠ apuTout 0 := fun hreg => hout (Or.inl hreg)
    rw [hagain hreg, hkeep _ hreg]
    exact ⟨Or.inl rfl, rfl⟩

/-- A load reads T0OUT or leaves the machine alone, and it can be repeated. -/
theorem memLoad_again (h : SpuKit.memLoad .fast addr m = some (byte, m')) :
    (m' = m ∨ m' = m.clearT0) ∧
      SpuKit.memLoad .fast addr m.clearT0 = some (again addr byte, m.clearT0) := by
  rw [memLoad_run] at h ⊢
  by_cases hmmio : apuMmioAddress addr = true
  · rw [if_pos hmmio] at h ⊢
    obtain ⟨⟨val, a⟩, hval, heq⟩ := Option.map_eq_some_iff.mp h
    obtain ⟨rfl, rfl⟩ := Prod.mk.inj heq
    obtain ⟨ha, hagain⟩ := mmioLoadRegs_again ((apuMmioAddress_iff addr).mp hmmio) hval
    refine ⟨ha.imp (fun ha => ?_) fun ha => ?_, ?_⟩
    · exact congrArg (fun a => { m with apu := a }) ha
    · exact congrArg (fun a => { m with apu := a }) ha
    · rw [show m.clearT0.apu = m.apu.clearT0 from rfl, show m.clearT0.dsp = m.dsp from rfl, hagain]
      rfl
  · rw [if_neg hmmio] at h ⊢
    obtain ⟨rfl, rfl⟩ := Prod.mk.inj (Option.some.inj h)
    have hne : addr ≠ apuAddr (apuTout 0) := by
      rintro rfl
      exact hmmio (apuMmioAddress_apuAddr _)
    rw [again, if_neg hne]
    exact ⟨Or.inl rfl, rfl⟩

@[simp] theorem clearT0_clearT0 (m : Machine) : m.clearT0.clearT0 = m.clearT0 := by
  simp [Machine.clearT0, Apu.clearT0]

theorem memLoadWord_again (h : outcome (memLoadWord addr) m = some (word, m')) :
    ∃ lo hi m₁, SpuKit.memLoad .fast addr m = some (lo, m₁) ∧
      SpuKit.memLoad .fast (addr + 1) m₁ = some (hi, m') ∧ word = wordOf hi lo ∧
      (m' = m ∨ m' = m.clearT0) ∧
      outcome (memLoadWord addr) m.clearT0 =
        some (wordOf (again (addr + 1) hi) (again addr lo), m.clearT0) := by
  have hzero : addr + 0 = addr := BitVec.add_zero addr
  simp only [memLoadWord, hzero, Program.outcome_bind, outcome_memLoad] at h ⊢
  obtain ⟨⟨lo, m₁⟩, hlo, h⟩ := Option.bind_eq_some_iff.mp h
  obtain ⟨⟨hi, m₂⟩, hhi, h⟩ := Option.bind_eq_some_iff.mp h
  obtain ⟨rfl, rfl⟩ := Prod.mk.inj (Option.some.inj h)
  obtain ⟨hm₁, hlo'⟩ := memLoad_again hlo
  obtain ⟨hm₂, hhi'⟩ := memLoad_again hhi
  have hclear : m₁.clearT0 = m.clearT0 := by
    obtain rfl | rfl := hm₁
    · rfl
    · exact clearT0_clearT0 m
  rw [hclear] at hm₂ hhi'
  refine ⟨lo, hi, m₁, hlo, hhi, rfl, ?_, ?_⟩
  · obtain rfl | rfl := hm₂
    · exact hm₁
    · exact Or.inr rfl
  · simp only [hlo', hhi', Option.bind_some, Program.outcome_pure]

/-- A pointer that does not change because it is read. -/
def StablePointer (p : Word) (m : Machine) : Prop :=
  p = apuAddr (apuTout 0) ∨ p + 1 = apuAddr (apuTout 0) → m.apu.s (apuTout 0) = 0

instance (p : Word) (m : Machine) : Decidable (StablePointer p m) :=
  inferInstanceAs (Decidable (_ → _))

theorem memLoad_t0out (m : Machine) :
    SpuKit.memLoad .fast (apuAddr (apuTout 0)) m = some (m.apu.s (apuTout 0), m.clearT0) := rfl

theorem memLoad_t2div (m : Machine) :
    SpuKit.memLoad .fast (apuAddr (apuTdiv 2)) m = some (m.apu.s (apuTdiv 2), m) := rfl

/-- A stable pointer is read again as it was. -/
theorem StablePointer.again (hstable : StablePointer addr m)
    (h : outcome (memLoadWord addr) m = some (word, m')) :
    outcome (memLoadWord addr) m' = some (word, m') := by
  obtain ⟨lo, hi, m₁, hlo, hhi, rfl, hm', hagain⟩ := memLoadWord_again h
  obtain rfl | rfl := hm'
  · exact h
  by_cases htout : addr = apuAddr (apuTout 0) ∨ addr + 1 = apuAddr (apuTout 0)
  · have hsame : m.clearT0 = m := by
      have ht0 := hstable htout
      simp only [Machine.clearT0, Apu.clearT0, ← ht0, Function.update_eq_self]
    rw [hsame] at h ⊢
    exact h
  · obtain ⟨hne, hne'⟩ := not_or.mp htout
    rw [hagain, Spc700.again, Spc700.again, if_neg hne, if_neg hne']

/-- Any other pointer is read as another one. -/
theorem not_stablePointer_again (hstable : ¬ StablePointer addr m)
    (h : outcome (memLoadWord addr) m = some (word, m')) :
    m' = m.clearT0 ∧ ∃ word' ≠ word,
      outcome (memLoadWord addr) m.clearT0 = some (word', m.clearT0) := by
  obtain ⟨htout, ht0⟩ := Classical.not_imp.mp hstable
  obtain ⟨lo, hi, m₁, hlo, hhi, rfl, -, hagain⟩ := memLoadWord_again h
  obtain rfl | hnext := htout
  · rw [memLoad_t0out] at hlo
    obtain ⟨rfl, rfl⟩ := Prod.mk.inj (Option.some.inj hlo)
    have hm' := (memLoad_again hhi).1
    rw [clearT0_clearT0, or_self] at hm'
    refine ⟨hm', _, fun heq => ht0 ?_, hagain⟩
    rw [Spc700.again, Spc700.again, if_pos rfl] at heq
    exact (wordOf_inj.mp heq).2.symm
  · obtain rfl : addr = apuAddr (apuTdiv 2) := by
      rw [← BitVec.add_sub_cancel addr 1, hnext]
      rfl
    rw [memLoad_t2div] at hlo
    obtain ⟨rfl, rfl⟩ := Prod.mk.inj (Option.some.inj hlo)
    rw [hnext, memLoad_t0out] at hhi
    obtain ⟨rfl, rfl⟩ := Prod.mk.inj (Option.some.inj hhi)
    refine ⟨rfl, _, fun heq => ht0 ?_, hagain⟩
    rw [Spc700.again, Spc700.again, if_pos hnext] at heq
    exact (wordOf_inj.mp heq).1.symm

end Again

-- ════════════════════════════════════════════════════════════════════════
-- The byte that a mode loads
-- ════════════════════════════════════════════════════════════════════════

/-- The byte that a load returns. -/
def peek (m : Machine) (addr : Word) : Option Byte :=
  (SpuKit.memLoad .fast addr m).map Prod.fst

/-- The byte that a pointer and an index point to. -/
def pointed (m : Machine) (p index : Word) : Option Byte :=
  (outcome (memLoadWord p) m).bind fun r => peek r.2 (r.1 + index)

/-- The byte that MOV A,M loads. -/
def Mode.loaded (mode : Mode) (m : Machine) : Option Byte :=
  (outcome mode.helper m).bind fun r => peek r.2 r.1

section Loaded

variable {mode : Mode} {m : Machine} {addr p index : Word} {byte : Byte} {c : Cpu}

theorem peek_plain (h : Plain addr) (m : Machine) : peek m addr = some (m.aram addr) := by
  rw [peek, memLoad_plain h, Option.map_some]

theorem peek_unseen {g : Machine → Machine} (h : Unseen g addr) (m : Machine) :
    peek (g m) addr = peek m addr := by
  rw [peek, peek, memLoad_unseen h, Option.map_map]
  rfl

theorem pointed_withCpu (m : Machine) (c : Cpu) (p index : Word) :
    pointed (m.withCpu c) p index = pointed m p index := by
  rw [pointed, memLoadWord_unseen (unseen_withCpu _ c) (unseen_withCpu _ c), Option.bind_map]
  congr 1
  funext r
  exact peek_unseen (unseen_withCpu _ c) r.2

theorem loaded_of_direct (h : mode.isIndirect = false) (m : Machine) :
    mode.loaded m = peek (m.advance mode.size) (mode.encoded m) := by
  rw [Mode.loaded, outcome_helper_of_direct h, Option.bind_some]

theorem loaded_of_indirect (h : mode.isIndirect = true) (m : Machine) :
    mode.loaded m = pointed m (mode.encoded m) (mode.index m.cpu) := by
  rw [Mode.loaded, outcome_helper_of_indirect h, Option.bind_map,
    ← pointed_withCpu m { m.cpu with pc := m.cpu.pc + BitVec.ofNat 16 mode.size }]
  rfl

theorem outcome_store (reg : Cpu → Byte) (x : Insn Word) (m : Machine) :
    outcome (store reg x) m =
      (outcome x m).bind fun r => SpuKit.memStore .fast r.1 (reg r.2.cpu) r.2 := by
  simp only [store, Program.outcome_bind, outcome_getCpu, Option.bind_some, outcome_memStore]

/-- What the load leaves in A. -/
theorem executes_load (hop : m.aram m.cpu.pc = mode.loadOpcode) :
    (∃ m', execute m = some m' ∧ m'.cpu.a = byte) ↔ mode.loaded (m.advance 1) = some byte := by
  rw [execute_of_handler hop (handlerOf_loadOpcode mode), Mode.loaded]
  simp only [load, Program.outcome_bind, outcome_memLoad]
  cases outcome mode.helper (m.advance 1) with
  | none => simp
  | some r =>
    simp only [Option.bind_some, peek]
    cases SpuKit.memLoad .fast r.1 r.2 with
    | none => simp
    | some s =>
      simp only [Option.bind_some, Option.map_some, outcome_onCpu, Option.some.injEq,
        exists_eq_left']
      rfl

end Loaded

-- ════════════════════════════════════════════════════════════════════════
-- The store and the load
-- ════════════════════════════════════════════════════════════════════════

/-- After the instruction at the program counter of `m`, the registers `c` are at
    an instruction with the same operand bytes, index registers and P flag. -/
structure SameOperands (opcode : Byte) (size : Nat) (m : Machine) (c : Cpu) : Prop where
  x : c.x = m.cpu.x
  y : c.y = m.cpu.y
  pswP : c.pswP = m.cpu.pswP
  opcode : ∀ m₁, execute m = some m₁ → m₁.aram c.pc = opcode
  operands : ∀ m₁, execute m = some m₁ → ∀ k, k < size →
    m₁.aram (c.pc + 1 + BitVec.ofNat 16 k) = m.aram (m.cpu.pc + 1 + BitVec.ofNat 16 k)

/-- The instruction of `m` is executed, and then the one of the registers `c`.
    The value that `reg` had before is there again. -/
def Restores {α : Type} (reg : Cpu → α) (m : Machine) (c : Cpu) : Prop :=
  ∃ m₁ m₂, execute m = some m₁ ∧ execute (m₁.withCpu c) = some m₂ ∧ reg m₂.cpu = reg m.cpu

/-- When MOV M,A with its operands at the program counter stores A where MOV A,M
    finds it. For [d]+Y the pointer must be a stable one, for [d+X] the byte has
    to be there by accident, since the store overwrites the pointer. -/
def Mode.FindsAgain (mode : Mode) (m : Machine) : Prop :=
  match mode with
  | dpiy => StablePointer (mode.encoded m) m ∨
      pointed m.clearT0 (mode.encoded m) (mode.index m.cpu) = some m.cpu.a
  | dxInd =>
    if Plain (mode.encoded m) then
      ∃ hi, peek m (mode.encoded m + 1) = some hi ∧
        (wordOf hi m.cpu.a = mode.encoded m ∨ peek m (wordOf hi m.cpu.a) = some m.cpu.a)
    else
      ∃ m₁, SpuKit.memStore .fast (mode.encoded m) m.cpu.a (m.advance mode.size) = some ((), m₁) ∧
        pointed m₁ (mode.encoded m) 0 = some m.cpu.a
  | _ => True

section Modes

variable {mode : Mode} {m m₁ m' : Machine} {c : Cpu} {addr : Word}

/-- The address that the store encoded is the one that the load encodes. -/
theorem SameOperands.encoded_eq {opcode : Byte} (hsame : SameOperands opcode mode.size m c)
    (h₁ : execute m = some m₁) :
    mode.encoded ((m₁.withCpu c).advance 1) = mode.encoded (m.advance 1) :=
  Mode.encoded_congr hsame.x hsame.y hsame.pswP (hsame.operands m₁ h₁)

theorem restores_iff_loaded (h₁ : execute m = some m₁)
    (hsame : SameOperands mode.loadOpcode mode.size m c) :
    Restores Cpu.a m c ↔ mode.loaded ((m₁.withCpu c).advance 1) = some m.cpu.a := by
  rw [← executes_load (m := m₁.withCpu c) (hsame.opcode m₁ h₁)]
  constructor
  · rintro ⟨n, m₂, hn, hm₂, ha⟩
    obtain rfl := Option.some.inj (h₁.symm.trans hn)
    exact ⟨m₂, hm₂, ha⟩
  · rintro ⟨m₂, hm₂, ha⟩
    exact ⟨m₁, m₂, h₁, hm₂, ha⟩

/-- **No pointer**: the load finds the byte. -/
theorem restores_of_direct (hind : mode.isIndirect = false)
    (hop : m.aram m.cpu.pc = mode.storeOpcode) (hplain : Plain (mode.encoded (m.advance 1)))
    (hsame : SameOperands mode.loadOpcode mode.size m c) : Restores Cpu.a m c := by
  have hhelper : mode.storeHelper = mode.helper := by
    cases mode <;> first | rfl | cases hind
  have h₁ : execute m = some (((m.advance 1).advance mode.size).poke
      (mode.encoded (m.advance 1)) m.cpu.a) := by
    rw [execute_of_handler hop (handlerOf_storeOpcode mode), outcome_store, hhelper,
      outcome_helper_of_direct hind, Option.bind_some, memStore_plain hplain]
    rfl
  rw [restores_iff_loaded h₁ hsame, loaded_of_direct hind, hsame.encoded_eq h₁,
    peek_plain hplain]
  exact congrArg some (poke_self ..)

/-- What the load of [d]+Y or [d+X] finds after a store. -/
theorem loaded_iff_pointed (hind : mode.isIndirect = true) (h₁ : execute m = some m₁)
    (hsame : SameOperands mode.loadOpcode mode.size m c) :
    Restores Cpu.a m c ↔
      pointed m₁ (mode.encoded (m.advance 1)) (mode.index m.cpu) = some m.cpu.a := by
  have hindex : mode.index c = mode.index m.cpu := by
    cases mode <;> simp only [Mode.index, hsame.y]
  rw [restores_iff_loaded h₁ hsame, loaded_of_indirect hind, hsame.encoded_eq h₁,
    ← hindex, ← pointed_withCpu m₁ ((m₁.withCpu c).advance 1).cpu]
  rfl

/-- **[d]+Y**: the load finds the byte if it reads the same pointer. -/
theorem restores_dpiy (hop : m.aram m.cpu.pc = Mode.dpiy.storeOpcode)
    (haddr : outcome Mode.dpiy.helper (m.advance 1) = some (addr, m')) (hplain : Plain addr)
    (hpointer : addr ∉ Mode.dpiy.pointers (m.advance 1))
    (hsame : SameOperands Mode.dpiy.loadOpcode Mode.dpiy.size m c) :
    Restores Cpu.a m c ↔ Mode.dpiy.FindsAgain (m.advance 1) := by
  have h₁ : execute m = some (m'.poke addr m'.cpu.a) := by
    rw [execute_of_handler hop (handlerOf_storeOpcode _), outcome_store]
    show ((outcome Mode.dpiy.helper (m.advance 1)).bind _).map _ = _
    rw [haddr, Option.bind_some, memStore_plain hplain]
    rfl
  rw [loaded_iff_pointed rfl h₁ hsame, Mode.FindsAgain]
  rw [outcome_helper_of_indirect rfl] at haddr
  obtain ⟨⟨word, n⟩, hword, heq⟩ := Option.map_eq_some_iff.mp haddr
  obtain ⟨rfl, rfl⟩ := Prod.mk.inj heq
  have ha : n.cpu.a = m.cpu.a := by
    rw [(memLoadWord_keeps hword).1]
    rfl
  obtain ⟨hlo, hhi⟩ := not_or.mp (mt List.mem_cons.mpr hpointer)
  have hload := memLoadWord_unseen (unseen_poke (Ne.symm hlo) n.cpu.a)
    (unseen_poke (fun h => hhi (List.mem_singleton.mpr h.symm)) n.cpu.a) n
  rw [pointed, hload, Option.bind_map]
  by_cases hstable : StablePointer (Mode.dpiy.encoded (m.advance 1)) (m.advance 1)
  · have hagain := StablePointer.again (m := (m.advance 1).advance 1) hstable hword
    refine iff_of_true ?_ (Or.inl hstable)
    rw [hagain, Option.bind_some]
    exact (peek_plain hplain _).trans (congrArg some ((poke_self ..).trans ha))
  · obtain ⟨rfl, word', hne, hagain⟩ :=
      not_stablePointer_again (m := (m.advance 1).advance 1) hstable hword
    have htarget : word' + Mode.dpiy.index m.cpu ≠ word + Mode.dpiy.index m.cpu :=
      fun h => hne ((BitVec.add_left_inj _).mp h)
    have hpointed : pointed (m.advance 1).clearT0 (Mode.dpiy.encoded (m.advance 1))
        (Mode.dpiy.index m.cpu) =
        peek ((m.advance 1).advance 1).clearT0 (word' + Mode.dpiy.index m.cpu) := by
      rw [← pointed_withCpu _ ((m.advance 1).advance 1).cpu]
      exact (congrArg (Option.bind · _) hagain).trans rfl
    rw [hagain, Option.bind_some]
    have hpeek := peek_unseen (unseen_poke htarget ((m.advance 1).advance 1).clearT0.cpu.a)
      ((m.advance 1).advance 1).clearT0
    refine Iff.trans ?_ (or_iff_right hstable).symm
    rw [show (m.advance 1).cpu.a = m.cpu.a from rfl]
    exact Eq.congr_left (hpeek.trans hpointed.symm)

/-- The byte after one in RAM is in RAM or in the first register, so that its
    load changes nothing. -/
theorem memLoad_next (h : Plain addr) (m : Machine) :
    SpuKit.memLoad .fast (addr + 1) m = (peek m (addr + 1)).map fun byte => (byte, m) := by
  by_cases hnext : Plain (addr + 1)
  · rw [peek_plain hnext, memLoad_plain hnext, Option.map_some]
  · have hfirst : addr + 1 = apuAddr 0 := by
      apply BitVec.eq_of_toNat_eq
      rw [Plain] at h hnext
      have hval : (addr + 1).toNat = (addr.toNat + 1) % 65536 := BitVec.toNat_add addr 1
      have hlt := addr.isLt
      show (addr + 1).toNat = 0xf0
      omega
    rw [hfirst]
    rfl

/-- The pointer that A was stored over, when it is outside of the registers. -/
theorem pointed_poke (h : Plain addr) (m : Machine) (byte : Byte) :
    pointed (m.poke addr byte) addr 0 = some byte ↔
      ∃ hi, peek m (addr + 1) = some hi ∧
        (wordOf hi byte = addr ∨ peek m (wordOf hi byte) = some byte) := by
  have hlo : addr + 0 = addr := BitVec.add_zero addr
  have hhi := memLoad_next h (m.poke addr byte)
  rw [peek_unseen (unseen_poke (next_ne addr) byte)] at hhi
  simp only [pointed, memLoadWord, Program.outcome_bind, outcome_memLoad, hlo, memLoad_plain h,
    Option.bind_some, poke_self, hhi]
  cases peek m (addr + 1) with
  | none => simp
  | some hi =>
    have hindex : wordOf hi byte + 0 = wordOf hi byte := BitVec.add_zero _
    simp only [Option.map_some, Option.bind_some, Program.outcome_pure, Option.some.injEq,
      exists_eq_left', hindex]
    by_cases heq : wordOf hi byte = addr
    · refine iff_of_true ?_ (Or.inl heq)
      rw [heq, peek_plain h, poke_self]
    · rw [peek_unseen (unseen_poke heq byte)]
      exact (or_iff_right heq).symm

/-- **[d+X]**: the load reads the pointer that the store has overwritten. -/
theorem restores_dxInd (hop : m.aram m.cpu.pc = Mode.dxInd.storeOpcode)
    (hsame : SameOperands Mode.dxInd.loadOpcode Mode.dxInd.size m c) :
    Restores Cpu.a m c ↔ Mode.dxInd.FindsAgain (m.advance 1) := by
  have hstore : execute m =
      (SpuKit.memStore .fast (Mode.dxInd.encoded (m.advance 1)) m.cpu.a
        ((m.advance 1).advance 1)).map Prod.snd := by
    rw [execute_of_handler hop (handlerOf_storeOpcode _), outcome_store]
    rfl
  have hiff : Restores Cpu.a m c ↔ ∃ m₁, SpuKit.memStore .fast (Mode.dxInd.encoded (m.advance 1))
      m.cpu.a ((m.advance 1).advance 1) = some ((), m₁) ∧
        pointed m₁ (Mode.dxInd.encoded (m.advance 1)) 0 = some m.cpu.a := by
    constructor
    · rintro ⟨m₁, m₂, h₁, h₂, ha⟩
      have hm₁ := h₁
      rw [hstore] at hm₁
      obtain ⟨r, hr, rfl⟩ := Option.map_eq_some_iff.mp hm₁
      exact ⟨r.2, hr, (loaded_iff_pointed rfl h₁ hsame).mp ⟨r.2, m₂, h₁, h₂, ha⟩⟩
    · rintro ⟨m₁, hm₁, hfound⟩
      have h₁ : execute m = some m₁ := by rw [hstore, hm₁, Option.map_some]
      exact (loaded_iff_pointed rfl h₁ hsame).mpr hfound
  rw [hiff, Mode.FindsAgain]
  split
  · next hplain =>
    rw [memStore_plain hplain]
    simp only [Option.some.injEq, Prod.mk.injEq, true_and, exists_eq_left']
    have hpeek : ∀ other, peek ((m.advance 1).advance 1) other = peek (m.advance 1) other :=
      fun other => peek_unseen (unseen_withCpu other _) (m.advance 1)
    rw [pointed_poke hplain]
    simp only [hpeek]
    rfl
  · next => rfl

/-- **MOVW**: both bytes of YA come back. -/
theorem restores_movw (hop : m.aram m.cpu.pc = 0xda) (hplain : PlainWord (m.advance 1))
    (hsame : SameOperands 0xba Mode.dp.size m c) : Restores getYa m c := by
  obtain ⟨m₁, h₁, hlo, hhi⟩ : ∃ m₁, execute m = some m₁ ∧
      m₁.aram (Mode.dp.encoded (m.advance 1)) = (getYa m.cpu).setWidth 8 ∧
      m₁.aram (Mode.dp.encoded (m.advance 1) + 1) = (getYa m.cpu >>> 8).setWidth 8 := by
    rw [execute_of_handler hop (show handlerOf 0xda = some insnMovwDpYa from rfl), insnMovwDpYa]
    simp only [Program.outcome_bind, outcome_directPage, outcome_getCpu, Option.bind_some,
      outcome_memStoreWord _ hplain.1 hplain.2, Option.map_some]
    exact ⟨_, rfl, (poke_of_ne (next_ne _).symm).trans (poke_self ..), poke_self ..⟩
  have haddr : Mode.dp.encoded ((m₁.withCpu c).advance 1) = Mode.dp.encoded (m.advance 1) :=
    hsame.encoded_eq h₁
  have hword : dpWord ((m₁.withCpu c).advance 1) = getYa m.cpu := by
    rw [dpWord, haddr, wordAt]
    exact (congrArg₂ wordOf hhi hlo).trans (wordOf_bytes (getYa m.cpu))
  obtain ⟨m₂, h₂, hya⟩ : ∃ m₂, execute (m₁.withCpu c) = some m₂ ∧
      getYa m₂.cpu = dpWord ((m₁.withCpu c).advance 1) := by
    have hcb : handlerOf 0xba = some insnMovwYaDp := rfl
    rw [execute_of_handler (hsame.opcode m₁ h₁) hcb, insnMovwYaDp,
      outcome_aluYa (by rwa [PlainWord, haddr]), Option.map_some]
    exact ⟨_, rfl, wordOf_bytes _⟩
  exact ⟨m₁, m₂, h₁, h₂, hya.trans hword⟩

end Modes

-- ════════════════════════════════════════════════════════════════════════
-- All modes
-- ════════════════════════════════════════════════════════════════════════

/-- What is asked of a store MOV M,A and of the registers at the load after it:
    the address that the load form computes is outside of the registers, and a
    store there spares the pointer and the operands. -/
structure StoresAt (mode : Mode) (m : Machine) (c : Cpu) (addr : Word) : Prop where
  opcode : m.aram m.cpu.pc = mode.storeOpcode
  address : ∃ m', outcome mode.helper (m.advance 1) = some (addr, m')
  plain : Plain addr
  pointer : addr ∉ mode.pointers (m.advance 1)
  same : SameOperands mode.loadOpcode mode.size m c

/-- **Store and load**: MOV A,M hands back what MOV M,A has stored for every mode
    but [d+X], and MOVW does so for YA. -/
theorem mov_restores_iff (m : Machine) (c : Cpu) :
    (∀ mode addr, StoresAt mode m c addr →
      (Restores Cpu.a m c ↔ mode.FindsAgain (m.advance 1))) ∧
    (m.aram m.cpu.pc = 0xda → PlainWord (m.advance 1) →
      SameOperands 0xba Mode.dp.size m c → Restores getYa m c) := by
  refine ⟨fun mode addr h => ?_, fun hop hplain hsame => restores_movw hop hplain hsame⟩
  obtain ⟨m', haddr⟩ := h.address
  have hdirect : mode.isIndirect = false → mode.FindsAgain (m.advance 1) →
      (Restores Cpu.a m c ↔ mode.FindsAgain (m.advance 1)) := by
    intro hind hfinds
    rw [outcome_helper_of_direct hind] at haddr
    obtain ⟨rfl, -⟩ := Prod.mk.inj (Option.some.inj haddr)
    exact iff_of_true (restores_of_direct hind h.opcode h.plain h.same) hfinds
  cases mode with
  | dxInd => exact restores_dxInd h.opcode h.same
  | dpiy => exact restores_dpiy h.opcode haddr h.plain h.pointer h.same
  | dp => exact hdirect rfl True.intro
  | dpx => exact hdirect rfl True.intro
  | abs => exact hdirect rfl True.intro
  | absx => exact hdirect rfl True.intro
  | absy => exact hdirect rfl True.intro
  | ix => exact hdirect rfl True.intro

/-- A store and a load of the direct-page byte at 0x10, one after the other. -/
def storeLoadSample (store load : Byte) (c : Cpu) : Machine :=
  .ofProgram [store, 0x10, load, 0x10] c

/-- The load has the operands of the store if the store spares them. -/
theorem sameOperands_sample {store load : Byte} {c : Cpu} {m₁ : Machine}
    (h₁ : execute (storeLoadSample store load c) = some m₁)
    (hop : m₁.aram 0x202 = load) (hoperand : m₁.aram 0x203 = 0x10) :
    SameOperands load 1 (storeLoadSample store load c) { c with pc := 0x202, a := 0 } where
  x := rfl
  y := rfl
  pswP := rfl
  opcode m₂ h₂ := by
    obtain rfl := Option.some.inj (h₁.symm.trans h₂)
    exact hop
  operands m₂ h₂ k hk := by
    obtain rfl := Option.some.inj (h₁.symm.trans h₂)
    obtain rfl := Nat.lt_one_iff.mp hk
    exact hoperand.trans (ofProgram_operand ..).symm

theorem storesAt_dpiySample :
    StoresAt .dpiy (storeLoadSample 0xd7 0xf7 { Cpu.init with a := 0x55, y := 3 })
      { Cpu.init with pc := 0x202, y := 3 } 3 where
  opcode := rfl
  address := ⟨_, rfl⟩
  plain := by decide
  pointer := by decide
  same := sameOperands_sample rfl rfl rfl

theorem storesAt_dxIndSample :
    StoresAt .dxInd (storeLoadSample 0xc7 0xe7 { Cpu.init with a := 0x55 })
      { Cpu.init with pc := 0x202 } 0 where
  opcode := rfl
  address := ⟨_, rfl⟩
  plain := by decide
  pointer := by decide
  same := sameOperands_sample rfl rfl rfl

/-- A byte and a word come back from memory. -/
theorem mov_restores_sample :
    Restores Cpu.a (storeLoadSample 0xd7 0xf7 { Cpu.init with a := 0x55, y := 3 })
      { Cpu.init with pc := 0x202, y := 3 } ∧
    Restores getYa (storeLoadSample 0xda 0xba { Cpu.init with a := 0x55, y := 3 })
      { Cpu.init with pc := 0x202, y := 3 } :=
  ⟨((mov_restores_iff _ _).1 .dpiy _ storesAt_dpiySample).mpr (Or.inl (by decide)),
    (mov_restores_iff _ _).2 rfl (by decide) (sameOperands_sample rfl rfl rfl)⟩

/-- **[d+X]**: the byte stored with A = 0x55 does not come back from memory that
    is 0. -/
theorem dxInd_not_restored :
    ¬ ∀ mode m c addr, StoresAt mode m c addr → Restores Cpu.a m c := by
  intro h
  have hfinds := (restores_dxInd rfl storesAt_dxIndSample.same).mp
    (h .dxInd _ _ _ storesAt_dxIndSample)
  rw [Mode.FindsAgain, if_pos (by decide)] at hfinds
  obtain ⟨hi, hhi, hfound⟩ := hfinds
  obtain rfl : hi = 0 := (Option.some.inj hhi).symm
  revert hfound
  decide

end Spc700

end SpuKit
