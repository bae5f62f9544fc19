import SpuKit.Spc700.InsnStream

/-!
# Rounds in page one

When the P flag is set the direct page holds no registers, so that instructions
on direct-page bytes do not abort. With the flags and the bytes of the page at
hand every branch is taken as well.

## Main definitions

- `PageOne` — the machines with the direct page in page one
- `swaps` — the instructions on two operand bytes
- `takenWith` — the branches, and the flag for which each of them is taken

## Main results

- `handlers_swaps` — an instruction on two operand bytes returns
- `handlers_takenWith` — a branch is taken
- `iteration_returns` — a round returns when its handler does
-/

namespace SpuKit.Spc700

/-- The registers, with the flags that branches test all alike. -/
def pageOneCpu (flag : Bool) (pc : Word) : Cpu :=
  { Cpu.init with pc := pc, carry := flag, zero := flag, negative := flag, pswP := true }

def pageOne (byte : Byte) : Word := wordOf 1 byte

/-- The direct page is page one, and `mem` holds of its bytes. -/
structure PageOne (flag : Bool) (mem : Byte → Prop) (m : Machine) : Prop where
  cpu : m.cpu = pageOneCpu flag m.cpu.pc
  page : ∀ byte, mem (m.aram (pageOne byte))

theorem toNat_pageOne (byte : Byte) : (pageOne byte).toNat = 256 + byte.toNat := toNat_wordOf 1 byte

theorem pageOne_not_mmio (byte : Byte) : ¬ apuMmioAddress (pageOne byte) = true := by
  intro h
  have hreg : ∀ reg : Fin 16, (apuAddr reg).toNat < 256 := by
    decide
  have heq := congrArg BitVec.toNat ((apuMmioAddress_iff _).mp h)
  have hlt := hreg (apuReg (pageOne byte))
  rw [← heq, toNat_pageOne] at hlt
  omega

theorem exec_memLoad_pageOne (byte : Byte) (m : Machine) :
    Program.exec (memLoad (pageOne byte)) m =
      ⟨some (m.aram (pageOne byte), m), [.load (pageOne byte)]⟩ := by
  rw [exec_memLoad, memLoad_run, if_neg (pageOne_not_mmio byte), loadMem, if_neg]
  rintro ⟨hbuild, -⟩
  cases hbuild

theorem exec_memStore_pageOne (byte val : Byte) (m : Machine) :
    Program.exec (memStore (pageOne byte) val) m =
      ⟨some ((), storeMem .fast (pageOne byte) val m), [.store (pageOne byte) val]⟩ := by
  rw [exec_memStore, memStore_run, storeRegs, if_neg (pageOne_not_mmio byte)]
  rfl

section Parts

variable {flag : Bool} {mem : Byte → Prop} {P : Machine → Prop}

/-- Any part that goes on fetching. -/
theorem PageOne.afterFetch {m : Machine} (h : PageOne flag mem m) :
    PageOne flag mem (afterFetch m) where
  cpu := congrArg (fun c => { c with pc := m.cpu.pc + 1 }) h.cpu
  page := h.page

theorem total_directPageAs (place : Place) :
    Program.Total (PageOne flag mem) (directPageAs place) (fun addr => ∃ byte, addr = pageOne byte)
      (PageOne flag mem) := by
  refine Program.Total.of_exec (fun _ => rfl) fun m hm => ⟨⟨m.aram m.cpu.pc, ?_⟩, hm.afterFetch⟩
  show directPageEffective (m.aram m.cpu.pc) (Spc700.afterFetch m).cpu = _
  rw [hm.afterFetch.cpu]
  rfl

theorem total_directPageX :
    Program.Total (PageOne flag mem) directPageX (fun addr => ∃ byte, addr = pageOne byte)
      (PageOne flag mem) := by
  refine Program.Total.of_exec (fun _ => rfl) fun m hm =>
    ⟨⟨m.aram m.cpu.pc + m.cpu.x, ?_⟩, hm.afterFetch⟩
  show directPageEffective (m.aram m.cpu.pc + m.cpu.x) (Spc700.afterFetch m).cpu = _
  rw [hm.afterFetch.cpu]
  rfl

theorem total_immediate :
    Program.Total (PageOne flag mem) immediate (fun _ => True) (PageOne flag mem) :=
  Program.Total.of_exec (fun _ => rfl) fun _ hm => ⟨True.intro, hm.afterFetch⟩

theorem total_relative :
    Program.Total (PageOne flag mem) relative (fun _ => True) (PageOne flag mem) :=
  Program.Total.of_exec (fun _ => rfl) fun _ hm => ⟨True.intro, hm.afterFetch⟩

theorem total_getCpu :
    Program.Total (PageOne flag mem) getCpu (fun c => c = pageOneCpu flag c.pc)
      (PageOne flag mem) :=
  Program.Total.of_exec (fun _ => rfl) fun _ hm => ⟨hm.cpu, hm⟩

theorem total_onCpu {α : Type} (x : Alu α) :
    Program.Total P (onCpu x) (fun _ => True) (fun _ => True) :=
  Program.Total.of_exec (fun _ => rfl) fun _ _ => ⟨True.intro, True.intro⟩

theorem total_memLoad (byte : Byte) :
    Program.Total (PageOne flag mem) (memLoad (pageOne byte)) mem (PageOne flag mem) :=
  Program.Total.of_exec (exec_memLoad_pageOne byte) fun _ hm => ⟨hm.page byte, hm⟩

theorem total_memStore (byte val : Byte) :
    Program.Total P (memStore (pageOne byte) val) (fun _ => True) (fun _ => True) :=
  Program.Total.of_exec (exec_memStore_pageOne byte val) fun _ _ => ⟨True.intro, True.intro⟩

end Parts

-- ════════════════════════════════════════════════════════════════════════
-- Instructions on two operand bytes
-- ════════════════════════════════════════════════════════════════════════

/-- The handler returns when the direct page is page one. -/
abbrev ReturnsInPageOne (flag : Bool) (cb : Insn Unit) : Prop :=
  Program.Total (PageOne flag fun _ => True) cb (fun _ => True) (fun _ => True)

section Swaps

variable {flag : Bool}

/-- What follows the two direct-page bytes. -/
theorem dpDp_total {f : Word → Word → Insn Unit}
    (hf : ∀ src dst, Program.Total (PageOne flag fun _ => True) (f (pageOne src) (pageOne dst))
      (fun _ => True) fun _ => True) :
    ReturnsInPageOne flag (do
      let src ← directPageAs .source
      let dst ← directPageAs .destination
      f src dst) := by
  refine (total_directPageAs .source).bind ?_
  rintro _ ⟨src, rfl⟩
  refine (total_directPageAs .destination).bind ?_
  rintro _ ⟨dst, rfl⟩
  exact hf src dst

theorem aluDpDp_total (alu : Byte → Byte → Alu Byte) : ReturnsInPageOne flag (aluDpDp alu) :=
  dpDp_total fun src dst => (total_memLoad src).bind fun _ _ => (total_memLoad dst).bind fun _ _ =>
    (total_onCpu _).bind fun result _ => total_memStore dst result

theorem cmpDpDp_total : ReturnsInPageOne flag insnCmpDpDp :=
  dpDp_total fun src dst => (total_memLoad src).bind fun _ _ => (total_memLoad dst).bind fun _ _ =>
    total_onCpu _

theorem movDpDp_total : ReturnsInPageOne flag insnMovDpDp :=
  dpDp_total fun src dst => (total_memLoad src).bind fun operand _ => total_memStore dst operand

/-- What follows the immediate value and the direct-page byte. -/
theorem immDp_total {f : Byte → Word → Insn Unit}
    (hf : ∀ imm byte, Program.Total (PageOne flag fun _ => True) (f imm (pageOne byte))
      (fun _ => True) fun _ => True) :
    ReturnsInPageOne flag (do
      let imm ← immediate
      let addr ← directPage
      f imm addr) := by
  refine total_immediate.bind fun imm _ => (total_directPageAs .only).bind ?_
  rintro _ ⟨byte, rfl⟩
  exact hf imm byte

/-- The byte is changed in place. -/
theorem total_change (byte : Byte) (alu : Byte → Alu Byte) :
    Program.Total (PageOne flag fun _ => True) (do
      let operand ← memLoad (pageOne byte)
      let result ← onCpu (alu operand)
      memStore (pageOne byte) result) (fun _ => True) fun _ => True :=
  (total_memLoad byte).bind fun _ _ => (total_onCpu _).bind fun result _ =>
    total_memStore byte result

theorem aluImmDp_total (alu : Byte → Byte → Alu Byte) : ReturnsInPageOne flag (aluImmDp alu) :=
  immDp_total fun imm byte => total_change byte (alu imm)

theorem aluDpImm_total (alu : Byte → Byte → Alu Byte) : ReturnsInPageOne flag (aluDpImm alu) :=
  immDp_total fun imm byte => total_change byte fun operand => alu operand imm

theorem cmpDpImm_total : ReturnsInPageOne flag insnCmpDpImm :=
  immDp_total fun _ byte => (total_memLoad byte).bind fun _ _ => total_onCpu _

theorem movDpImm_total : ReturnsInPageOne flag insnMovDpImm :=
  immDp_total fun imm byte => total_memStore byte imm

end Swaps

/-- The instructions on two operand bytes. -/
def swaps : List Byte :=
  [0x09, 0x18, 0x29, 0x38, 0x49, 0x58, 0x69, 0x78, 0x89, 0x8f, 0x98, 0xa9, 0xb8, 0xfa]

theorem handlers_swaps (flag : Bool) :
    ∀ opcode ∈ swaps, ∃ cb, handlerOf opcode = some cb ∧ ReturnsInPageOne flag cb := by
  simp only [swaps, List.forall_mem_cons]
  refine ⟨⟨_, rfl, aluDpDp_total aluOr⟩, ⟨_, rfl, aluImmDp_total aluOr⟩,
    ⟨_, rfl, aluDpDp_total aluAnd⟩, ⟨_, rfl, aluImmDp_total aluAnd⟩,
    ⟨_, rfl, aluDpDp_total aluEor⟩, ⟨_, rfl, aluImmDp_total aluEor⟩,
    ⟨_, rfl, cmpDpDp_total⟩, ⟨_, rfl, cmpDpImm_total⟩, ⟨_, rfl, aluDpDp_total aluAdc⟩,
    ⟨_, rfl, movDpImm_total⟩, ⟨_, rfl, aluDpImm_total aluAdc⟩,
    ⟨_, rfl, aluDpDp_total aluSbc⟩, ⟨_, rfl, aluDpImm_total aluSbc⟩, ⟨_, rfl, movDpDp_total⟩,
    fun _ h => ?_⟩
  cases h

-- ════════════════════════════════════════════════════════════════════════
-- Branches
-- ════════════════════════════════════════════════════════════════════════

/-- All bits of a byte alike. -/
def fill (flag : Bool) : Byte := if flag then 0xff else 0

/-- The branch is taken when the flags and the bits of the direct page are so. -/
abbrev TakenWith (flag : Bool) (cb : Insn Unit) : Prop :=
  Program.Shows (PageOne flag fun byte => byte = fill flag) cb .branchTaken

section Branches

variable {flag : Bool}

theorem shows_branchWhen {P : Machine → Prop} {taken : Bool} (h : taken = true) (disp : Byte) :
    Program.Shows P (branchWhen taken disp) .branchTaken := by
  intro m _
  rw [h]
  exact ⟨(), _, _, exec_branch disp m, List.mem_singleton_self _⟩

theorem bra_shows : TakenWith flag insnBra :=
  total_relative.bind_shows fun disp _ => shows_branchWhen rfl disp

theorem branchIf_shows {cond : Cpu → Bool} (h : ∀ pc, cond (pageOneCpu flag pc) = true) :
    TakenWith flag (branchIf cond) := by
  refine total_relative.bind_shows fun disp _ => total_getCpu.bind_shows fun c hc => ?_
  refine shows_branchWhen ?_ disp
  rw [hc]
  exact h c.pc

theorem branchOnBit_shows {bit : Nat}
    (hbit : (fill flag &&& ((1 : Byte) <<< bit) != 0) = flag) :
    TakenWith flag (branchOnBit flag bit) := by
  refine (total_directPageAs .only).bind_shows ?_
  rintro addr ⟨byte, rfl⟩
  refine total_relative.bind_shows fun disp _ => (total_memLoad byte).bind_shows ?_
  rintro operand rfl
  refine shows_branchWhen ?_ disp
  rw [hbit, beq_self_eq_true]

/-- The accumulator is 0. -/
theorem cbne_shows {mode : Insn Word}
    (hmode : Program.Total (PageOne true fun byte => byte = fill true) mode
      (fun addr => ∃ byte, addr = pageOne byte) (PageOne true fun byte => byte = fill true)) :
    TakenWith true (cbne mode) := by
  refine hmode.bind_shows ?_
  rintro addr ⟨byte, rfl⟩
  refine (total_memLoad byte).bind_shows ?_
  rintro operand rfl
  refine total_relative.bind_shows fun disp _ => total_getCpu.bind_shows fun c hc => ?_
  refine shows_branchWhen ?_ disp
  rw [hc]
  rfl

theorem dbnzDp_shows : TakenWith true insnDbnzDp := by
  refine (total_directPageAs .only).bind_shows ?_
  rintro addr ⟨byte, rfl⟩
  refine (total_memLoad byte).bind_shows ?_
  rintro operand rfl
  refine total_relative.bind_shows fun disp _ => (total_onCpu _).bind_shows fun _ _ => ?_
  exact (shows_branchWhen rfl disp).bind fun _ => total_memStore byte _

/-- The counter is 0 as well. -/
theorem dbnzY_shows : TakenWith true insnDbnzY := by
  refine total_getCpu.bind_shows fun c hc => total_relative.bind_shows fun disp _ => ?_
  refine (shows_branchWhen ?_ disp).bind fun _ => total_onCpu _
  rw [hc]
  rfl

end Branches

/-- The branches, and the flag they are taken with. -/
def takenWith : List (Byte × Bool) :=
  [(0x2f, true), (0x10, false), (0x30, true), (0x90, false), (0xb0, true), (0xd0, false),
    (0xf0, true), (0x2e, true), (0xde, true), (0x6e, true), (0xfe, true),
    (0x03, true), (0x23, true), (0x43, true), (0x63, true), (0x83, true), (0xa3, true),
    (0xc3, true), (0xe3, true), (0x13, false), (0x33, false), (0x53, false), (0x73, false),
    (0x93, false), (0xb3, false), (0xd3, false), (0xf3, false)]

theorem handlers_takenWith :
    ∀ p ∈ takenWith, ∃ cb, handlerOf p.1 = some cb ∧ TakenWith p.2 cb := by
  simp only [takenWith, List.forall_mem_cons]
  refine ⟨⟨_, rfl, bra_shows⟩, ⟨_, rfl, branchIf_shows fun _ => rfl⟩,
    ⟨_, rfl, branchIf_shows fun _ => rfl⟩, ⟨_, rfl, branchIf_shows fun _ => rfl⟩,
    ⟨_, rfl, branchIf_shows fun _ => rfl⟩, ⟨_, rfl, branchIf_shows fun _ => rfl⟩,
    ⟨_, rfl, branchIf_shows fun _ => rfl⟩, ⟨_, rfl, cbne_shows (total_directPageAs .only)⟩,
    ⟨_, rfl, cbne_shows total_directPageX⟩, ⟨_, rfl, dbnzDp_shows⟩, ⟨_, rfl, dbnzY_shows⟩,
    ⟨_, rfl, branchOnBit_shows rfl⟩, ⟨_, rfl, branchOnBit_shows rfl⟩,
    ⟨_, rfl, branchOnBit_shows rfl⟩, ⟨_, rfl, branchOnBit_shows rfl⟩,
    ⟨_, rfl, branchOnBit_shows rfl⟩, ⟨_, rfl, branchOnBit_shows rfl⟩,
    ⟨_, rfl, branchOnBit_shows rfl⟩, ⟨_, rfl, branchOnBit_shows rfl⟩,
    ⟨_, rfl, branchOnBit_shows rfl⟩, ⟨_, rfl, branchOnBit_shows rfl⟩,
    ⟨_, rfl, branchOnBit_shows rfl⟩, ⟨_, rfl, branchOnBit_shows rfl⟩,
    ⟨_, rfl, branchOnBit_shows rfl⟩, ⟨_, rfl, branchOnBit_shows rfl⟩,
    ⟨_, rfl, branchOnBit_shows rfl⟩, ⟨_, rfl, branchOnBit_shows rfl⟩, fun _ h => ?_⟩
  cases h

-- ════════════════════════════════════════════════════════════════════════
-- Rounds
-- ════════════════════════════════════════════════════════════════════════

/-- **Round**: it returns when the handler does, and has the events of the handler. -/
theorem iteration_returns (beyond : Nat → Byte) (cycle : BitVec 32) {cb : Insn Unit}
    {m m₁ : Machine} {u : Unit} {es₁ : List CpuEvent}
    (hcb : handlerOf (m.aram m.cpu.pc) = some cb) (hret : cb.Returns (afterFetch m) u m₁ es₁) :
    ∃ m' es, (iteration beyond cycle).Returns m (some (cycle + 4)) m' es ∧ ∀ e ∈ es₁, e ∈ es := by
  have hround : (iteration beyond cycle).Returns m (some (cycle + 4))
      (updateClocks beyond (cycle + 4) m₁).val ([.fetch m.cpu.pc] ++
        (es₁ ++ ((updateClocks beyond (cycle + 4) m₁).events.map CpuEvent.clock ++ []))) := by
    refine Program.Returns.bind (exec_fetchInsn m) ?_
    rw [hcb]
    exact hret.bind (Program.Returns.bind (exec_onClocks _ m₁) (Program.exec_pure _ _))
  exact ⟨_, _, hround, fun e he => List.mem_append_right _ (List.mem_append_left _ he)⟩

/-- A machine with the direct page in page one. -/
def inPageOne (flag : Bool) (aram : Word → Byte) (pc : Word) : Machine :=
  { Machine.init with aram := aram, cpu := pageOneCpu flag pc }

theorem pageOne_inPageOne (flag : Bool) (aram : Word → Byte) (pc : Word) {mem : Byte → Prop}
    (h : ∀ byte, mem (aram (pageOne byte))) :
    PageOne flag mem (afterFetch (inPageOne flag aram pc)) :=
  PageOne.afterFetch ⟨rfl, h⟩

end SpuKit.Spc700
