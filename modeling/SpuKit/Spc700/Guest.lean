import SpuKit.Lib.LeadsIn
import SpuKit.Spc700.Branches
import SpuKit.Spc700.DeviceHistory

/-!
# Programs of the CPU

What a program of the SPC700 does, told without the clocks and the devices: a
program that only touches RAM and the ports works on its registers, on RAM and
on what it puts out, while the host holds its ports still and the echo unit is
kept from writing. A rule for every instruction of such a program says what it
does there, and the rounds of the loop follow the rules.

## Main definitions

- `Guest` — what a program sees and changes
- `Views` — the machine as the program sees it
- `Simple` — the addresses of RAM and of the ports
- `GuestDoes`, `GuestStep` — a computation, and an instruction of a program

## Main results

- `GuestDoes.bind`, `does_load`, `does_store`, ... — the rules
- `leadsIn_rounds` — the rounds of the loop follow them
-/

namespace SpuKit.Spc700

open Program (outcome)

/-- What a program sees and changes. -/
structure Guest where
  cpu : Cpu
  aram : Word → Byte
  ioOut : Fin 4 → Byte

/-- The machine as a program sees it, with the bytes the host supplies. -/
structure Views (io : Fin 4 → Byte) (g : Guest) (m : Machine) : Prop where
  cpu : m.cpu = g.cpu
  aram : m.aram = g.aram
  ioOut : m.apu.ioOut = g.ioOut
  ioIn : m.apu.ioIn = io
  quiet : ¬ EchoWrites m.dsp.regs

/-- A machine with the echo unit kept from writing, as a program sees it. -/
def guestOf (m : Machine) : Guest where
  cpu := m.cpu
  aram := m.aram
  ioOut := m.apu.ioOut

theorem views_guestOf {m : Machine} (h : ¬ EchoWrites m.dsp.regs) :
    Views m.apu.ioIn (guestOf m) m := ⟨rfl, rfl, rfl, rfl, h⟩

/-- The port at an address. -/
def portOf (addr : Word) : Option (Fin 4) :=
  (List.finRange 4).find? fun k => addr = apuAddr (apuIo k)

/-- The address is of RAM or of a port. -/
def Simple (addr : Word) : Prop := Plain addr ∨ ∃ k, addr = apuAddr (apuIo k)

instance (addr : Word) : Decidable (Simple addr) := inferInstanceAs (Decidable (_ ∨ _))

namespace Guest

variable (io : Fin 4 → Byte) (g : Guest)

def withCpu (c : Cpu) : Guest := { g with cpu := c }

/-- The guest with the program counter behind the next bytes. -/
def advance (n : Nat) : Guest :=
  g.withCpu { g.cpu with pc := g.cpu.pc + BitVec.ofNat 16 n }

/-- The byte at the program counter. -/
def next : Byte := g.aram g.cpu.pc

/-- A load: the ports carry what the host supplies. -/
def load (addr : Word) : Byte := (portOf addr).elim (g.aram addr) io

/-- A store: what goes to a port goes out of it as well. -/
def store (addr : Word) (byte : Byte) : Guest where
  cpu := g.cpu
  aram := Function.update g.aram addr byte
  ioOut k := if addr = apuAddr (apuIo k) then byte else g.ioOut k

@[simp] theorem store_cpu (addr : Word) (byte : Byte) : (g.store addr byte).cpu = g.cpu := rfl

@[simp] theorem withCpu_cpu (c : Cpu) : (g.withCpu c).cpu = c := rfl

@[simp] theorem withCpu_aram (c : Cpu) : (g.withCpu c).aram = g.aram := rfl

@[simp] theorem withCpu_ioOut (c : Cpu) : (g.withCpu c).ioOut = g.ioOut := rfl

end Guest

theorem portOf_apuIo : ∀ k, portOf (apuAddr (apuIo k)) = some k := by decide

theorem portOf_plain {addr : Word} (h : Plain addr) : portOf addr = none := by
  rw [portOf, List.find?_eq_none]
  intro k _ hk
  rw [of_decide_eq_true hk] at h
  exact plain_iff.mp h (apuMmioAddress_apuAddr _)

section Access

variable {io : Fin 4 → Byte} {g : Guest} {m : Machine} {addr : Word}

theorem Views.withCpu (h : Views io g m) (c : Cpu) : Views io (g.withCpu c) (m.withCpu c) :=
  ⟨rfl, h.aram, h.ioOut, h.ioIn, h.quiet⟩

/-- A load from RAM or from a port. -/
theorem Views.load (h : Views io g m) (haddr : Simple addr) :
    SpuKit.memLoad .fast addr m = some (g.load io addr, m) := by
  rcases haddr with hplain | ⟨k, rfl⟩
  · rw [memLoad_plain hplain, Guest.load, portOf_plain hplain, h.aram]
    rfl
  · have hreg : ∀ k, apuIo k ≠ apuDspData ∧ (apuIo k = apuIo 0 ∨ apuIo k = apuIo 1 ∨
        apuIo k = apuIo 2 ∨ apuIo k = apuIo 3) ∧
        ∃ h : (apuAddr (apuIo k) - apuIo0).toNat < 4,
          (⟨(apuAddr (apuIo k) - apuIo0).toNat, h⟩ : Fin 4) = k := by
      decide
    obtain ⟨hdata, hio, hlt, hk⟩ := hreg k
    rw [memLoad_run, if_pos (apuMmioAddress_apuAddr _), mmioLoadRegs, apuReg_apuAddr,
      if_neg hdata, if_pos hio, ioLoad, dif_pos hlt, hk, h.ioIn, Guest.load, portOf_apuIo]
    rfl

/-- A store to RAM or to a port. -/
theorem Views.store (h : Views io g m) (haddr : Simple addr) (byte : Byte) :
    ∃ m', SpuKit.memStore .fast addr byte m = some ((), m') ∧ Views io (g.store addr byte) m' := by
  have hne : addr ≠ dspDataAt ∧ addr ≠ ctrlAt := by
    have hreg : ∀ k, apuAddr (apuIo k) ≠ dspDataAt ∧ apuAddr (apuIo k) ≠ ctrlAt := by
      decide
    rcases haddr with hplain | ⟨k, rfl⟩
    · constructor
      · rintro rfl
        exact plain_iff.mp hplain rfl
      · rintro rfl
        exact plain_iff.mp hplain rfl
    · exact hreg k
  obtain ⟨⟨u, m'⟩, hrun⟩ : ∃ p, SpuKit.memStore .fast addr byte m = some p := by
    refine Option.ne_none_iff_exists'.mp fun hnone => ?_
    exact hne.1 (memStore_eq_none_iff.mp hnone).1
  have haccess := memStore_access hrun
  have haram : m'.aram = Function.update m.aram addr byte := by
    rw [memStore_run] at hrun
    obtain ⟨p, -, heq⟩ := Option.map_eq_some_iff.mp hrun
    obtain ⟨-, rfl⟩ := Prod.mk.inj heq
    have hctrl : ¬ storesCtrl addr = true := by
      intro hctrl
      obtain ⟨hmmio, hreg⟩ := Bool.and_eq_true_iff.mp hctrl
      exact hne.2 ((apuMmioAddress_eq_iff hmmio _).mp (beq_iff_eq.mp hreg))
    rw [storeMem, if_neg hctrl]
  refine ⟨m', hrun, ?_, ?_, ?_, ?_, ?_⟩
  · rw [memStore_cpu hrun, h.cpu]
    rfl
  · rw [haram, h.aram]
    rfl
  · funext k
    rw [haccess.ioOut, h.ioOut]
    rfl
  · rw [haccess.ioIn, h.ioIn]
  · rw [haccess.dsp, if_neg hne.1]
    exact h.quiet

/-- The clocks are out of sight. -/
theorem Views.clocks {m' : Machine} (h : Views io g m) (hclocks : ClockAccess m m') :
    Views io g m' where
  cpu := hclocks.cpu.trans h.cpu
  aram := (hclocks.aram h.quiet).trans h.aram
  ioOut := hclocks.ioOut.trans h.ioOut
  ioIn := hclocks.ioIn.trans h.ioIn
  quiet := by
    rw [EchoWrites, hclocks.regs regFlg control_flg]
    exact h.quiet

end Access

-- ════════════════════════════════════════════════════════════════════════
-- Computations
-- ════════════════════════════════════════════════════════════════════════

/-- From every machine with the view `g` the computation returns `a`, and the
    view of the machine is then `g'`. -/
def GuestDoes (io : Fin 4 → Byte) {α : Type} (x : Insn α) (g : Guest) (a : α) (g' : Guest) :
    Prop :=
  ∀ m, Views io g m → ∃ m', outcome x m = some (a, m') ∧ Views io g' m'

section Rules

variable {io : Fin 4 → Byte} {α β : Type} {g g' g'' : Guest} {a : α} {b : β}

/-- **Sequence** -/
theorem GuestDoes.bind {x : Insn α} {f : α → Insn β} (hx : GuestDoes io x g a g')
    (hf : GuestDoes io (f a) g' b g'') : GuestDoes io (x >>= f) g b g'' := by
  intro m hm
  obtain ⟨m', hrun, hm'⟩ := hx m hm
  obtain ⟨m'', hrun', hm''⟩ := hf m' hm'
  refine ⟨m'', ?_, hm''⟩
  rw [Program.outcome_bind, hrun, Option.bind_some, hrun']

theorem does_pure (a : α) : GuestDoes io (pure a) g a g := fun m hm => ⟨m, rfl, hm⟩

theorem does_onCpu (x : Alu α) :
    GuestDoes io (onCpu x) g (x g.cpu).1 (g.withCpu (x g.cpu).2) := by
  intro m hm
  rw [← hm.cpu]
  exact ⟨_, rfl, hm.withCpu _⟩

theorem does_getCpu : GuestDoes io getCpu g g.cpu g := does_onCpu get

theorem does_modifyCpu (f : Cpu → Cpu) :
    GuestDoes io (modifyCpu f) g ⟨⟩ (g.withCpu (f g.cpu)) := does_onCpu (modify f)

theorem does_emit (e : CpuEvent) : GuestDoes io (Program.emit e) g () g :=
  fun m hm => ⟨m, rfl, hm⟩

theorem does_fetchInsn : GuestDoes io fetchInsn g g.next (g.advance 1) := by
  intro m hm
  refine ⟨m.advance 1, ?_, ?_⟩
  · rw [outcome_fetchInsn, hm.cpu, hm.aram]
    rfl
  · rw [Machine.advance, hm.cpu]
    exact hm.withCpu _

theorem does_immediate : GuestDoes io immediate g g.next (g.advance 1) :=
  does_fetchInsn.bind ((does_emit _).bind (does_pure _))

theorem does_relative : GuestDoes io relative g g.next (g.advance 1) :=
  does_fetchInsn.bind ((does_emit _).bind (does_pure _))

theorem does_directPage :
    GuestDoes io directPage g (directPageEffective g.next g.cpu) (g.advance 1) :=
  does_fetchInsn.bind ((does_emit _).bind (does_getCpu.bind (does_pure _)))

theorem does_indirectX : GuestDoes io indirectX g (directPageEffective g.cpu.x g.cpu) g :=
  does_getCpu.bind (does_pure _)

theorem does_fetchWord :
    GuestDoes io fetchWord g (wordOf (g.advance 1).next g.next) ((g.advance 1).advance 1) := by
  have hhi : GuestDoes io fetchInsn (g.advance 1) (g.advance 1).next
      ((g.advance 1).advance 1) :=
    does_fetchInsn
  exact does_fetchInsn.bind (hhi.bind (does_pure _))

theorem does_absolute :
    GuestDoes io absolute g (wordOf (g.advance 1).next g.next) ((g.advance 1).advance 1) :=
  does_fetchWord.bind ((does_emit _).bind (does_pure _))

variable {addr : Word}

/-- **Load** -/
theorem does_load (h : Simple addr) : GuestDoes io (memLoad addr) g (g.load io addr) g :=
  fun m hm => ⟨m, hm.load h, hm⟩

/-- **Store** -/
theorem does_store (h : Simple addr) (byte : Byte) :
    GuestDoes io (memStore addr byte) g () (g.store addr byte) :=
  fun _ hm => hm.store h byte

/-- The word at an address. -/
def Guest.word (io : Fin 4 → Byte) (g : Guest) (addr : Word) : Word :=
  wordOf (g.load io (addr + 1)) (g.load io addr)

theorem does_loadWord (h : Simple addr) (h' : Simple (addr + 1)) :
    GuestDoes io (memLoadWord addr) g (g.word io addr) g := by
  have haddr : addr + 0 = addr := BitVec.add_zero addr
  have hlo : GuestDoes io (memLoad (addr + 0)) g (g.load io addr) g := by
    rw [haddr]
    exact does_load h
  exact hlo.bind ((does_load h').bind (does_pure _))

theorem does_storeWord (h : Simple addr) (h' : Simple (addr + 1)) (word : Word) :
    GuestDoes io (memStoreWord addr word) g ()
      ((g.store addr (word.setWidth 8)).store (addr + 1) ((word >>> 8).setWidth 8)) := by
  have haddr : addr + 0 = addr := BitVec.add_zero addr
  have hlo : GuestDoes io (memStore (addr + 0) (word.setWidth 8)) g ()
      (g.store addr (word.setWidth 8)) := by
    rw [haddr]
    exact does_store h _
  exact hlo.bind (does_store h' _)

-- ════════════════════════════════════════════════════════════════════════
-- Instructions
-- ════════════════════════════════════════════════════════════════════════

/-- What a computation on the registers makes of a guest. -/
def Guest.onCpu (g : Guest) (x : Alu Unit) : Guest := g.withCpu (x g.cpu).2

/-- A register is loaded and the flags are set. -/
def setLoaded (set : Byte → Alu Unit) (operand : Byte) : Alu Unit := do
  setZn operand
  set operand

theorem does_loadImm (set : Byte → Alu Unit) :
    GuestDoes io (loadImm set) g () ((g.advance 1).onCpu (setLoaded set g.next)) :=
  does_immediate.bind (does_onCpu _)

variable {mode : Insn Word}

theorem does_loadFrom (set : Byte → Alu Unit) (hmode : GuestDoes io mode g addr g')
    (h : Simple addr) :
    GuestDoes io (Spc700.load set mode) g () (g'.onCpu (setLoaded set (g'.load io addr))) :=
  hmode.bind ((does_load h).bind (does_onCpu _))

theorem does_storeTo (reg : Cpu → Byte) (hmode : GuestDoes io mode g addr g') (h : Simple addr) :
    GuestDoes io (Spc700.store reg mode) g () (g'.store addr (reg g'.cpu)) :=
  hmode.bind (does_getCpu.bind (does_store h _))

theorem does_movDpImm (h : Simple (directPageEffective (g.advance 1).next g.cpu)) :
    GuestDoes io insnMovDpImm g ()
      (((g.advance 1).advance 1).store (directPageEffective (g.advance 1).next g.cpu) g.next) :=
  does_immediate.bind (does_directPage.bind (does_store h _))

theorem does_cmpDpImm (h : Simple (directPageEffective (g.advance 1).next g.cpu)) :
    GuestDoes io insnCmpDpImm g () (((g.advance 1).advance 1).onCpu
      (aluCmp (g.load io (directPageEffective (g.advance 1).next g.cpu)) g.next)) :=
  does_immediate.bind (does_directPage.bind ((does_load h).bind (does_onCpu _)))

/-- The guest after a branch. -/
def Guest.branch (g : Guest) (taken : Bool) (disp : Byte) : Guest :=
  if taken then g.withCpu { g.cpu with pc := g.cpu.pc + disp.signExtend 16 } else g

theorem does_branchWhen (taken : Bool) (disp : Byte) :
    GuestDoes io (branchWhen taken disp) g () (g.branch taken disp) := by
  cases taken with
  | true => exact (does_modifyCpu _).bind (does_emit _)
  | false => exact does_pure ()

theorem does_bra : GuestDoes io insnBra g () ((g.advance 1).branch true g.next) :=
  does_relative.bind (does_branchWhen true _)

theorem does_branchIf (cond : Cpu → Bool) :
    GuestDoes io (branchIf cond) g () ((g.advance 1).branch (cond (g.advance 1).cpu) g.next) :=
  does_relative.bind (does_getCpu.bind (does_branchWhen _ _))

theorem does_jumpTo (hmode : GuestDoes io mode g addr g') :
    GuestDoes io (jumpTo mode) g () (g'.withCpu { g'.cpu with pc := addr }) :=
  hmode.bind (does_modifyCpu _)

theorem does_movwYaDp (h : Simple (directPageEffective g.next g.cpu))
    (h' : Simple (directPageEffective g.next g.cpu + 1)) :
    GuestDoes io insnMovwYaDp g () ((g.advance 1).onCpu (do
      setYa (g.word io (directPageEffective g.next g.cpu))
      setZn16 (g.word io (directPageEffective g.next g.cpu)))) :=
  does_directPage.bind ((does_loadWord h h').bind (does_onCpu _))

theorem does_movwDpYa (h : Simple (directPageEffective g.next g.cpu))
    (h' : Simple (directPageEffective g.next g.cpu + 1)) :
    GuestDoes io insnMovwDpYa g ()
      (((g.advance 1).store (directPageEffective g.next g.cpu) ((getYa g.cpu).setWidth 8)).store
        (directPageEffective g.next g.cpu + 1) ((getYa g.cpu >>> 8).setWidth 8)) :=
  does_directPage.bind (does_getCpu.bind (does_storeWord h h' _))

/-- `jmp [!a+X]` -/
theorem does_jmpAbsxInd
    (h : Simple (wordOf (g.advance 1).next g.next + g.cpu.x.setWidth 16))
    (h' : Simple (wordOf (g.advance 1).next g.next + g.cpu.x.setWidth 16 + 1)) :
    GuestDoes io insnJmpAbsxInd g () (((g.advance 1).advance 1).withCpu
      { ((g.advance 1).advance 1).cpu with
        pc := g.word io (wordOf (g.advance 1).next g.next + g.cpu.x.setWidth 16) }) := by
  have hindexed : GuestDoes io absoluteX g
      (wordOf (g.advance 1).next g.next + g.cpu.x.setWidth 16) ((g.advance 1).advance 1) :=
    does_absolute.bind (does_getCpu.bind (does_pure _))
  have hpointer : GuestDoes io absoluteXIndirect g
      (g.word io (wordOf (g.advance 1).next g.next + g.cpu.x.setWidth 16))
      ((g.advance 1).advance 1) :=
    hindexed.bind (does_loadWord h h')
  exact does_jumpTo hpointer

end Rules

-- ════════════════════════════════════════════════════════════════════════
-- Programs
-- ════════════════════════════════════════════════════════════════════════

/-- From every machine with the view `g` the instruction at the program counter
    is executed, and the view of the machine is then `g'`. -/
def GuestStep (io : Fin 4 → Byte) (g g' : Guest) : Prop :=
  ∀ m, Views io g m → ∃ m', execute m = some m' ∧ Views io g' m'

/-- **Instruction**: the opcode is fetched, and its handler runs. -/
theorem GuestStep.of_handler {io : Fin 4 → Byte} {g g' : Guest} {opcode : Byte} {cb : Insn Unit}
    (hop : g.next = opcode) (hcb : handlerOf opcode = some cb)
    (h : GuestDoes io cb (g.advance 1) () g') : GuestStep io g g' := by
  intro m hm
  have hview : Views io (g.advance 1) (m.advance 1) := by
    rw [Machine.advance, hm.cpu]
    exact hm.withCpu _
  obtain ⟨m', hrun, hm'⟩ := h (m.advance 1) hview
  refine ⟨m', ?_, hm'⟩
  have hat : m.aram m.cpu.pc = opcode := by
    rw [hm.cpu, hm.aram]
    exact hop
  rw [execute_of_handler hat hcb, hrun]
  rfl

/-- One round of the loop, with its cycle count. -/
def Round (beyond : Nat → Byte) (p q : BitVec 32 × Machine) : Prop :=
  outcome (iteration beyond p.1) p.2 = some (some q.1, q.2)

theorem outcome_runInsns_of_steps {beyond : Nat → Byte} {n : Nat} {p q : BitVec 32 × Machine}
    (h : StepsIn (Round beyond) n p q) :
    outcome (runInsns beyond n p.1) p.2 = some (some q.1, q.2) := by
  induction n generalizing p with
  | zero =>
    obtain rfl : p = q := h
    rfl
  | succ n ih =>
    obtain ⟨p', hround, hrest⟩ := h
    rw [runInsns, Program.outcome_bind, hround, Option.bind_some]
    exact ih hrest

/-- **Rounds**: where the instructions of a program lead from `P` to `Q`, the
    rounds of the loop do. -/
theorem leadsIn_rounds {io : Fin 4 → Byte} {n : Nat} {P Q : Guest → Prop}
    (h : LeadsIn (GuestStep io) n P Q) (beyond : Nat → Byte) (cycle : BitVec 32) {g : Guest}
    {m : Machine} (hm : Views io g m) (hg : P g) :
    ∃ cycle' m' g', outcome (runInsns beyond n cycle) m = some (some cycle', m') ∧
      Views io g' m' ∧ Q g' := by
  have hrounds : LeadsIn (Round beyond) n (fun p => ∃ g, Views io g p.2 ∧ P g)
      (fun p => ∃ g, Views io g p.2 ∧ Q g) := by
    refine h.simulate fun g g' p hstep hview => ?_
    obtain ⟨m₁, hexec, hview₁⟩ := hstep p.2 hview
    exact ⟨(p.1 + 4, _), (iteration_executes beyond p.1 p.2 _).mpr ⟨m₁, hexec, rfl⟩,
      hview₁.clocks (clocks_access beyond (p.1 + 4) m₁)⟩
  obtain ⟨q, hsteps, g', hview, hQ⟩ := hrounds (cycle, m) ⟨g, hm, hg⟩
  exact ⟨q.1, q.2, g', outcome_runInsns_of_steps hsteps, hview, hQ⟩

end SpuKit.Spc700
