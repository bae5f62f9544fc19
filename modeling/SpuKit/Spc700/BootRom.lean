import SpuKit.Spc700.Guest

/-!
# The boot ROM

The program in the IPL ROM, from behind the instruction that the CPU does not
have. It clears page zero, says on two ports that it is ready and waits for the
host to answer. The emulator never changes the bytes the host supplies, so one
of three things happens: no answer is there, and the program waits for ever; the
answer asks for a transfer, which waits for ever for its first byte; or the
program jumps to the address in the other two ports.

## Main definitions

- `AtRom` — a program that is about to execute an instruction of the ROM
- `cleared`, `announced`, `entered` — RAM after the phases of the program
- `BootReady`, `Boots` — a machine that is about to run the ROM, and what
  becomes of it

## Main results

- `clears_page` — the first loop
- `bootRom_boots` — the whole program, round by round
-/

namespace SpuKit.Spc700

open Program (outcome)

-- ════════════════════════════════════════════════════════════════════════
-- Instructions in the ROM
-- ════════════════════════════════════════════════════════════════════════

/-- A byte of the ROM where it is shown. -/
theorem rom_byte {aram : Word → Byte} (h : window aram = iplRom) (addr : Word)
    (haddr : iplRomBase ≤ addr) : aram addr = iplRomLoad addr := by
  rw [← window_windowIndex aram haddr, h, iplRomLoad]

/-- What the ROM works with. -/
structure RomState where
  a : Byte
  x : Byte
  y : Byte
  zero : Bool
  ram : Word → Byte
  out : Fin 4 → Byte

/-- The next instruction is at `pc` of the ROM, with the direct page at zero. -/
structure AtRom (pc : Word) (s : RomState) (g : Guest) : Prop where
  pc : g.cpu.pc = pc
  page : g.cpu.pswP = false
  a : g.cpu.a = s.a
  x : g.cpu.x = s.x
  y : g.cpu.y = s.y
  zero : g.cpu.zero = s.zero
  aram : g.aram = s.ram
  ioOut : g.ioOut = s.out
  rom : window s.ram = iplRom

/-- A store: what goes to a port goes out of it as well. -/
def RomState.store (s : RomState) (addr : Word) (byte : Byte) : RomState :=
  { s with
    ram := Function.update s.ram addr byte
    out := fun k => if addr = apuAddr (apuIo k) then byte else s.out k }

theorem store_port_out (s : RomState) (k : Fin 4) (byte : Byte) :
    (s.store (apuAddr (apuIo k)) byte).out = Function.update s.out k byte := by
  have hinj : ∀ k p, apuAddr (apuIo k) = apuAddr (apuIo p) ↔ p = k := by decide
  funext p
  rw [Function.update_apply]
  exact if_congr (hinj k p) rfl rfl

theorem store_ram_out (s : RomState) {addr : Word} (h : ∀ k, addr ≠ apuAddr (apuIo k))
    (byte : Byte) : (s.store addr byte).out = s.out :=
  funext fun k => if_neg (h k)

section Rules

variable {io : Fin 4 → Byte} {pc : Word} {s : RomState} {g g' : Guest} {cb : Insn Unit}

namespace AtRom

theorem next (h : AtRom pc s g) (hpc : iplRomBase ≤ pc) : g.next = iplRomLoad pc := by
  rw [Guest.next, h.pc, h.aram, rom_byte h.rom pc hpc]

theorem effective (h : AtRom pc s g) (lo : Byte) :
    directPageEffective lo g.cpu = wordOf 0 lo := by
  rw [directPageEffective, h.page]
  rfl

theorem goto (h : AtRom pc s g) (pc' : Word) :
    AtRom pc' s (g.withCpu { g.cpu with pc := pc' }) :=
  { h with pc := rfl }

theorem advance (h : AtRom pc s g) (n : Nat) :
    AtRom (pc + BitVec.ofNat 16 n) s (g.advance n) := by
  rw [← h.pc]
  exact h.goto _

theorem branch (h : AtRom pc s g) (taken : Bool) (disp : Byte) :
    AtRom (if taken then pc + disp.signExtend 16 else pc) s (g.branch taken disp) := by
  cases taken with
  | true =>
    rw [← h.pc]
    exact h.goto _
  | false => exact h

/-- A store outside the ROM. -/
theorem store (h : AtRom pc s g) {addr : Word} (haddr : ¬ iplRomBase ≤ addr) (byte : Byte) :
    AtRom pc (s.store addr byte) (g.store addr byte) :=
  { h with
    aram := by rw [Guest.store, h.aram, RomState.store]
    ioOut := by rw [Guest.store, h.ioOut, RomState.store]
    rom := by
      rw [← h.rom]
      funext k
      refine Function.update_of_ne ?_ _ _
      rintro rfl
      exact haddr (base_le_base_add k) }

/-- **Instruction** -/
theorem does (h : AtRom pc s g) (hpc : iplRomBase ≤ pc)
    (hcb : handlerOf (iplRomLoad pc) = some cb) (hdo : GuestDoes io cb (g.advance 1) () g') :
    GuestStep io g g' :=
  GuestStep.of_handler (h.next hpc) hcb hdo

end AtRom

theorem zeroPage_below (lo : Byte) : ¬ iplRomBase ≤ wordOf 0 lo := by
  intro hle
  have hle' : 0xffc0 ≤ (wordOf 0 lo).toNat := hle
  have hval : (wordOf 0 lo).toNat = 0 * 256 + lo.toNat := toNat_wordOf 0 lo
  have hlt := lo.isLt
  omega

/-- `mov A,#i` -/
theorem rom_movAImm (hpc : iplRomBase ≤ pc) (hpc' : iplRomBase ≤ pc + 1)
    (hop : handlerOf (iplRomLoad pc) = some insnMovAImm) :
    LeadsIn (GuestStep io) 1 (AtRom pc s) (AtRom (pc + 1 + 1)
      { s with a := iplRomLoad (pc + 1), zero := iplRomLoad (pc + 1) == 0 }) := by
  refine LeadsIn.step fun g h => ⟨_, h.does hpc hop (does_loadImm setA), ?_⟩
  rw [(h.advance 1).next hpc']
  exact { (h.advance 1).advance 1 with a := rfl, zero := rfl }

/-- `mov (X),A` -/
theorem rom_movIxA (hpc : iplRomBase ≤ pc) (hop : handlerOf (iplRomLoad pc) = some insnMovIxA)
    (hx : Simple (wordOf 0 s.x)) :
    LeadsIn (GuestStep io) 1 (AtRom pc s) (AtRom (pc + 1) (s.store (wordOf 0 s.x) s.a)) := by
  refine LeadsIn.step fun g h => ?_
  have haddr : directPageEffective (g.advance 1).cpu.x (g.advance 1).cpu = wordOf 0 s.x := by
    rw [(h.advance 1).effective, (h.advance 1).x]
  have hstep : GuestStep io g _ := h.does hpc hop (does_storeTo Cpu.a does_indirectX (haddr ▸ hx))
  rw [haddr, (h.advance 1).a] at hstep
  exact ⟨_, hstep, (h.advance 1).store (zeroPage_below _) _⟩

/-- `dec X` -/
theorem rom_decX (hpc : iplRomBase ≤ pc) (hop : handlerOf (iplRomLoad pc) = some insnDecX) :
    LeadsIn (GuestStep io) 1 (AtRom pc s)
      (AtRom (pc + 1) { s with x := s.x - 1, zero := s.x - 1 == 0 }) := by
  refine LeadsIn.step fun g h => ⟨_, h.does hpc hop (does_onCpu _), ?_⟩
  rw [← h.x]
  exact { h.advance 1 with x := rfl, zero := rfl }

/-- `bne` -/
theorem rom_bne (hpc : iplRomBase ≤ pc) (hpc' : iplRomBase ≤ pc + 1)
    (hop : handlerOf (iplRomLoad pc) = some insnBne) :
    LeadsIn (GuestStep io) 1 (AtRom pc s)
      (AtRom (if s.zero then pc + 1 + 1
        else pc + 1 + 1 + (iplRomLoad (pc + 1)).signExtend 16) s) := by
  refine LeadsIn.step fun g h => ⟨_, h.does hpc hop (does_branchIf _), ?_⟩
  have hzero : ((g.advance 1).advance 1).cpu.zero = s.zero := h.zero
  have hbranch := ((h.advance 1).advance 1).branch (!s.zero) (iplRomLoad (pc + 1))
  rw [(h.advance 1).next hpc', hzero]
  cases hs : s.zero <;> rw [hs] at hbranch <;> exact hbranch

/-- `bne`, taken -/
theorem rom_bne_taken (hpc : iplRomBase ≤ pc) (hpc' : iplRomBase ≤ pc + 1)
    (hop : handlerOf (iplRomLoad pc) = some insnBne) (hzero : s.zero = false) :
    LeadsIn (GuestStep io) 1 (AtRom pc s)
      (AtRom (pc + 1 + 1 + (iplRomLoad (pc + 1)).signExtend 16) s) := by
  have hstep : LeadsIn (GuestStep io) 1 (AtRom pc s) _ := rom_bne hpc hpc' hop
  rwa [hzero] at hstep

/-- `bne`, not taken -/
theorem rom_bne_falls (hpc : iplRomBase ≤ pc) (hpc' : iplRomBase ≤ pc + 1)
    (hop : handlerOf (iplRomLoad pc) = some insnBne) (hzero : s.zero = true) :
    LeadsIn (GuestStep io) 1 (AtRom pc s) (AtRom (pc + 1 + 1) s) := by
  have hstep : LeadsIn (GuestStep io) 1 (AtRom pc s) _ := rom_bne hpc hpc' hop
  rwa [hzero] at hstep

/-- `bra` -/
theorem rom_bra (hpc : iplRomBase ≤ pc) (hpc' : iplRomBase ≤ pc + 1)
    (hop : handlerOf (iplRomLoad pc) = some insnBra) :
    LeadsIn (GuestStep io) 1 (AtRom pc s)
      (AtRom (pc + 1 + 1 + (iplRomLoad (pc + 1)).signExtend 16) s) := by
  refine LeadsIn.step fun g h => ⟨_, h.does hpc hop does_bra, ?_⟩
  rw [(h.advance 1).next hpc']
  exact ((h.advance 1).advance 1).branch true _

/-- `mov A,Y` -/
theorem rom_movAY (hpc : iplRomBase ≤ pc) (hop : handlerOf (iplRomLoad pc) = some insnMovAY) :
    LeadsIn (GuestStep io) 1 (AtRom pc s)
      (AtRom (pc + 1) { s with a := s.y, zero := s.y == 0 }) := by
  refine LeadsIn.step fun g h => ⟨_, h.does hpc hop (does_onCpu _), ?_⟩
  exact { h.advance 1 with a := h.y, zero := congrArg (· == 0) h.y }

/-- `mov X,A` -/
theorem rom_movXA (hpc : iplRomBase ≤ pc) (hop : handlerOf (iplRomLoad pc) = some insnMovXA) :
    LeadsIn (GuestStep io) 1 (AtRom pc s)
      (AtRom (pc + 1) { s with x := s.a, zero := s.a == 0 }) := by
  refine LeadsIn.step fun g h => ⟨_, h.does hpc hop (does_onCpu _), ?_⟩
  exact { h.advance 1 with x := h.a, zero := congrArg (· == 0) h.a }

/-- The operand of an instruction is a port. -/
structure IsPort (pc : Word) (k : Fin 4) : Prop where
  rom : iplRomBase ≤ pc
  addr : wordOf 0 (iplRomLoad pc) = apuAddr (apuIo k)

instance (pc : Word) (k : Fin 4) : Decidable (IsPort pc k) :=
  decidable_of_iff (iplRomBase ≤ pc ∧ wordOf 0 (iplRomLoad pc) = apuAddr (apuIo k))
    ⟨fun h => ⟨h.1, h.2⟩, fun h => ⟨h.1, h.2⟩⟩

theorem AtRom.port (h : AtRom pc s g) {k : Fin 4} (hport : IsPort pc k) :
    directPageEffective g.next g.cpu = apuAddr (apuIo k) := by
  rw [h.effective, h.next hport.rom, hport.addr]

theorem simple_port (k : Fin 4) : Simple (apuAddr (apuIo k)) := .inr ⟨k, rfl⟩

theorem load_port (io : Fin 4 → Byte) (g : Guest) (k : Fin 4) :
    g.load io (apuAddr (apuIo k)) = io k := by
  rw [Guest.load, portOf_apuIo]
  rfl

variable {k : Fin 4}

/-- `mov d,#i` -/
theorem rom_movDpImm (hpc : iplRomBase ≤ pc) (hpc' : iplRomBase ≤ pc + 1)
    (hport : IsPort (pc + 1 + 1) k) (hop : handlerOf (iplRomLoad pc) = some insnMovDpImm) :
    LeadsIn (GuestStep io) 1 (AtRom pc s)
      (AtRom (pc + 1 + 1 + 1) (s.store (apuAddr (apuIo k)) (iplRomLoad (pc + 1)))) := by
  refine LeadsIn.step fun g h => ?_
  have haddr : directPageEffective ((g.advance 1).advance 1).next (g.advance 1).cpu =
      apuAddr (apuIo k) := ((h.advance 1).advance 1).port hport
  have hstep : GuestStep io g _ := h.does hpc hop (does_movDpImm (haddr ▸ simple_port k))
  rw [haddr, (h.advance 1).next hpc'] at hstep
  refine ⟨_, hstep, (((h.advance 1).advance 1).advance 1).store ?_ _⟩
  rw [← hport.addr]
  exact zeroPage_below _

theorem aluCmp_zero (a b : Byte) (c : Cpu) : (aluCmp a b c).2.zero = (a == b) := by
  have hzero : (aluCmp a b c).2.zero = (toByte (a.toNat - b.toNat) == 0) := rfl
  rw [hzero, Bool.eq_iff_iff, beq_iff_eq, beq_iff_eq, ← BitVec.toNat_inj, ← BitVec.toNat_inj,
    toByte, BitVec.toNat_ofInt]
  have ha := a.isLt
  have hb := b.isLt
  show ((a.toNat - b.toNat : Int) % 256).toNat = 0 ↔ a.toNat = b.toNat
  omega

/-- `cmp d,#i` -/
theorem rom_cmpDpImm (hpc : iplRomBase ≤ pc) (hpc' : iplRomBase ≤ pc + 1)
    (hport : IsPort (pc + 1 + 1) k) (hop : handlerOf (iplRomLoad pc) = some insnCmpDpImm) :
    LeadsIn (GuestStep io) 1 (AtRom pc s)
      (AtRom (pc + 1 + 1 + 1) { s with zero := io k == iplRomLoad (pc + 1) }) := by
  refine LeadsIn.step fun g h => ?_
  have haddr : directPageEffective ((g.advance 1).advance 1).next (g.advance 1).cpu =
      apuAddr (apuIo k) := ((h.advance 1).advance 1).port hport
  have hstep : GuestStep io g _ := h.does hpc hop (does_cmpDpImm (haddr ▸ simple_port k))
  rw [haddr, (h.advance 1).next hpc', load_port] at hstep
  exact ⟨_, hstep, { ((h.advance 1).advance 1).advance 1 with zero := aluCmp_zero _ _ _ }⟩

/-- `mov Y,d` -/
theorem rom_movYDp (hpc : iplRomBase ≤ pc) (hport : IsPort (pc + 1) k)
    (hop : handlerOf (iplRomLoad pc) = some insnMovYDp) :
    LeadsIn (GuestStep io) 1 (AtRom pc s)
      (AtRom (pc + 1 + 1) { s with y := io k, zero := io k == 0 }) := by
  refine LeadsIn.step fun g h => ?_
  have haddr := (h.advance 1).port hport
  have hstep : GuestStep io g _ := h.does hpc hop
    (does_loadFrom setY does_directPage (haddr ▸ simple_port k))
  rw [haddr, load_port] at hstep
  exact ⟨_, hstep, { (h.advance 1).advance 1 with y := rfl, zero := rfl }⟩

/-- `mov d,A` -/
theorem rom_movDpA (hpc : iplRomBase ≤ pc) (hport : IsPort (pc + 1) k)
    (hop : handlerOf (iplRomLoad pc) = some insnMovDpA) :
    LeadsIn (GuestStep io) 1 (AtRom pc s)
      (AtRom (pc + 1 + 1) (s.store (apuAddr (apuIo k)) s.a)) := by
  refine LeadsIn.step fun g h => ?_
  have haddr := (h.advance 1).port hport
  have hstep : GuestStep io g _ := h.does hpc hop
    (does_storeTo Cpu.a does_directPage (haddr ▸ simple_port k))
  have ha : ((g.advance 1).advance 1).cpu.a = s.a := h.a
  rw [haddr, ha] at hstep
  refine ⟨_, hstep, ((h.advance 1).advance 1).store ?_ _⟩
  rw [← hport.addr]
  exact zeroPage_below _

/-- `movw YA,d` -/
theorem rom_movwYaDp (hpc : iplRomBase ≤ pc) (hport : IsPort (pc + 1) k)
    (k' : Fin 4) (hnext : apuAddr (apuIo k) + 1 = apuAddr (apuIo k'))
    (hop : handlerOf (iplRomLoad pc) = some insnMovwYaDp) :
    LeadsIn (GuestStep io) 1 (AtRom pc s)
      (AtRom (pc + 1 + 1)
        { s with a := io k, y := io k', zero := wordOf (io k') (io k) == 0 }) := by
  refine LeadsIn.step fun g h => ?_
  have haddr := (h.advance 1).port hport
  have hstep : GuestStep io g _ := h.does hpc hop
    (does_movwYaDp (haddr ▸ simple_port k) (haddr ▸ hnext ▸ simple_port k'))
  rw [haddr, Guest.word, hnext, load_port, load_port] at hstep
  refine ⟨_, hstep, { (h.advance 1).advance 1 with
    a := lo_wordOf _ _, y := hi_wordOf _ _, zero := rfl }⟩

/-- `movw d,YA` -/
theorem rom_movwDpYa (hpc : iplRomBase ≤ pc) (hpc' : iplRomBase ≤ pc + 1)
    (hop : handlerOf (iplRomLoad pc) = some insnMovwDpYa)
    (hlo : Plain (wordOf 0 (iplRomLoad (pc + 1))))
    (hhi : Plain (wordOf 0 (iplRomLoad (pc + 1)) + 1))
    (hbelow : ¬ iplRomBase ≤ wordOf 0 (iplRomLoad (pc + 1)) + 1) :
    LeadsIn (GuestStep io) 1 (AtRom pc s)
      (AtRom (pc + 1 + 1) ((s.store (wordOf 0 (iplRomLoad (pc + 1))) s.a).store
        (wordOf 0 (iplRomLoad (pc + 1)) + 1) s.y)) := by
  refine LeadsIn.step fun g h => ?_
  have haddr : directPageEffective (g.advance 1).next (g.advance 1).cpu =
      wordOf 0 (iplRomLoad (pc + 1)) := by
    rw [(h.advance 1).effective, (h.advance 1).next hpc']
    rfl
  have hstep : GuestStep io g _ := h.does hpc hop
    (does_movwDpYa (haddr ▸ .inl hlo) (haddr ▸ .inl hhi))
  rw [haddr, getYa, lo_wordOf, hi_wordOf, (h.advance 1).a, (h.advance 1).y] at hstep
  exact ⟨_, hstep, (((h.advance 1).advance 1).store (zeroPage_below _) _).store hbelow _⟩

/-- `jmp [!a+X]` -/
theorem rom_jmpAbsxInd (hpc : iplRomBase ≤ pc) (hpc' : iplRomBase ≤ pc + 1)
    (hpc'' : iplRomBase ≤ pc + 1 + 1)
    (hop : handlerOf (iplRomLoad pc) = some insnJmpAbsxInd) {addr : Word}
    (haddr : wordOf (iplRomLoad (pc + 1 + 1)) (iplRomLoad (pc + 1)) + s.x.setWidth 16 = addr)
    (hlo : Plain addr) (hhi : Plain (addr + 1)) :
    LeadsIn (GuestStep io) 1 (AtRom pc s)
      (AtRom (wordOf (s.ram (addr + 1)) (s.ram addr)) s) := by
  refine LeadsIn.step fun g h => ?_
  have hat : wordOf ((g.advance 1).advance 1).next (g.advance 1).next +
      (g.advance 1).cpu.x.setWidth 16 = addr := by
    rw [((h.advance 1).advance 1).next hpc'', (h.advance 1).next hpc', (h.advance 1).x]
    exact haddr
  have hstep : GuestStep io g _ := h.does hpc hop
    (does_jmpAbsxInd (hat ▸ .inl hlo) (hat ▸ .inl hhi))
  have hload : ∀ {addr : Word}, Plain addr → (g.advance 1).load io addr = s.ram addr := by
    intro addr hplain
    rw [Guest.load, portOf_plain hplain, ← (h.advance 1).aram]
    rfl
  rw [hat, Guest.word, hload hlo, hload hhi] at hstep
  exact ⟨_, hstep, (((h.advance 1).advance 1).advance 1).goto _⟩

end Rules

-- ════════════════════════════════════════════════════════════════════════
-- Clearing page zero
-- ════════════════════════════════════════════════════════════════════════

section Clear

variable {io : Fin 4 → Byte}

/-- RAM with page zero cleared above `k`, below the registers. -/
def cleared (ram : Word → Byte) (k : Nat) : Word → Byte :=
  fun addr => if k < addr.toNat ∧ addr.toNat ≤ 0xef then 0 else ram addr

theorem cleared_all (ram : Word → Byte) : cleared ram 0xef = ram := by
  funext addr
  rw [cleared, if_neg]
  omega

theorem toNat_zeroPage {k : Nat} (hk : k + 1 ≤ 0xef) :
    (wordOf 0 (BitVec.ofNat 8 (k + 1))).toNat = k + 1 := by
  rw [toNat_wordOf, BitVec.toNat_ofNat, Nat.mod_eq_of_lt (by omega)]
  exact Nat.zero_add _

theorem cleared_step (ram : Word → Byte) {k : Nat} (hk : k + 1 ≤ 0xef) :
    Function.update (cleared ram (k + 1)) (wordOf 0 (BitVec.ofNat 8 (k + 1))) 0 =
      cleared ram k := by
  have haddr := toNat_zeroPage hk
  funext addr
  by_cases heq : addr = wordOf 0 (BitVec.ofNat 8 (k + 1))
  · subst heq
    rw [Function.update_self, cleared, if_pos (by omega)]
  · have hne : addr.toNat ≠ k + 1 := fun h => heq (BitVec.eq_of_toNat_eq (h.trans haddr.symm))
    rw [Function.update_of_ne heq, cleared, cleared]
    have hiff : (k + 1 < addr.toNat ∧ addr.toNat ≤ 0xef) ↔
        (k < addr.toNat ∧ addr.toNat ≤ 0xef) := by
      omega
    rw [if_congr hiff rfl rfl]

/-- What the loop works with, with `k` bytes to go. -/
def clearing (s : RomState) (k : Nat) (zero : Bool) : RomState :=
  { s with
    a := 0
    x := BitVec.ofNat 8 k
    zero := zero
    ram := cleared s.ram k }

theorem clearing_store (s : RomState) {k : Nat} (hk : k + 1 ≤ 0xef) (zero : Bool) :
    (clearing s (k + 1) zero).store (wordOf 0 (BitVec.ofNat 8 (k + 1))) 0 =
      { clearing s (k + 1) zero with ram := cleared s.ram k } := by
  have haddr := toNat_zeroPage hk
  have hport : ∀ p, 0xf0 ≤ (apuAddr (apuIo p)).toNat := by decide
  have hout : ∀ p, wordOf 0 (BitVec.ofNat 8 (k + 1)) ≠ apuAddr (apuIo p) := by
    intro p heq
    have hp := hport p
    rw [← heq, haddr] at hp
    omega
  rw [RomState.store]
  congr 1
  · exact cleared_step s.ram hk
  · exact store_ram_out (clearing s (k + 1) zero) hout 0

/-- The loop with `k` bytes to go. -/
def Clears (s : RomState) (k : Nat) (g : Guest) : Prop :=
  k ≤ 0xef ∧ ∃ zero, AtRom (if k = 0 then 0xffc9 else 0xffc5) (clearing s k zero) g

/-- `mov (X),A`, `dec X`, `bne` -/
theorem clears_round (s : RomState) (k : Nat) :
    LeadsIn (GuestStep io) 3 (Clears s (k + 1)) (Clears s k) := by
  rintro g ⟨hk, zero, hg⟩
  rw [if_neg k.succ_ne_zero] at hg
  have haddr := toNat_zeroPage hk
  have hplain : Plain (wordOf 0 (BitVec.ofNat 8 (k + 1))) := by
    rw [Plain, haddr]
    omega
  have hx : BitVec.ofNat 8 (k + 1) - 1 = BitVec.ofNat 8 k := by
    rw [BitVec.ofNat_add]
    exact BitVec.add_sub_cancel _ _
  have hclear : LeadsIn (GuestStep io) 1 (AtRom 0xffc5 (clearing s (k + 1) zero))
      (AtRom 0xffc6 { clearing s (k + 1) zero with ram := cleared s.ram k }) := by
    have hstep : LeadsIn (GuestStep io) 1 (AtRom 0xffc5 (clearing s (k + 1) zero)) _ :=
      rom_movIxA (by decide) rfl (.inl hplain)
    rwa [← clearing_store s hk zero]
  have hdec : LeadsIn (GuestStep io) 1
      (AtRom 0xffc6 { clearing s (k + 1) zero with ram := cleared s.ram k })
      (AtRom 0xffc7 (clearing s k (BitVec.ofNat 8 k == 0))) := by
    have hstep : LeadsIn (GuestStep io) 1
        (AtRom 0xffc6 { clearing s (k + 1) zero with ram := cleared s.ram k }) _ :=
      rom_decX (by decide) rfl
    rw [show (clearing s (k + 1) zero).x = BitVec.ofNat 8 (k + 1) from rfl, hx] at hstep
    exact hstep
  have hzero : BitVec.ofNat 8 k = 0 ↔ k = 0 := by
    rw [← BitVec.toNat_inj, BitVec.toNat_ofNat]
    show k % 256 = 0 ↔ k = 0
    omega
  have hbranch : LeadsIn (GuestStep io) 1
      (AtRom 0xffc7 (clearing s k (BitVec.ofNat 8 k == 0)))
      (AtRom (if k = 0 then 0xffc9 else 0xffc5) (clearing s k (BitVec.ofNat 8 k == 0))) := by
    by_cases h0 : k = 0
    · rw [if_pos h0]
      exact rom_bne_falls (by decide) (by decide) rfl (beq_iff_eq.mpr (hzero.mpr h0))
    · rw [if_neg h0]
      exact rom_bne_taken (by decide) (by decide) rfl (beq_eq_false_iff_ne.mpr (mt hzero.mp h0))
  obtain ⟨g', hsteps, hg'⟩ := (hclear.seq (hdec.seq hbranch)) g hg
  exact ⟨g', hsteps, by omega, _, hg'⟩

/-- The first loop. -/
theorem clears_page (s : RomState) (hx : s.x = 0xef) :
    LeadsIn (GuestStep io) 718 (AtRom 0xffc3 s) (Clears s 0) := by
  have hstart : LeadsIn (GuestStep io) 1 (AtRom 0xffc3 s) (Clears s 0xef) := by
    have hstep : LeadsIn (GuestStep io) 1 (AtRom 0xffc3 s) _ :=
      rom_movAImm (by decide) (by decide) rfl
    refine hstep.mono (fun _ h => h) fun g h => ⟨le_refl _, true, ?_⟩
    have hload : BitVec.ofNat 8 0xef = s.x := hx.symm
    rw [clearing, cleared_all, hload]
    exact h
  exact hstart.seq (LeadsIn.countdown (clears_round s) 0xef)

end Clear

-- ════════════════════════════════════════════════════════════════════════
-- Waiting for the host
-- ════════════════════════════════════════════════════════════════════════

section Host

variable {io : Fin 4 → Byte}

/-- The ROM has cleared page zero and says that it is ready. -/
def ready (s : RomState) (zero : Bool) : RomState :=
  ((clearing s 0 zero).store (apuAddr (apuIo 0)) 0xaa).store (apuAddr (apuIo 1)) 0xbb

/-- The ROM has taken the address of the host. -/
def answered (io : Fin 4 → Byte) (s : RomState) : RomState :=
  { (((ready s true).store 0 (io 2)).store 1 (io 3)).store (apuAddr (apuIo 0)) (io 0) with
    a := io 1
    x := io 1
    y := io 1
    zero := io 1 == 0 }

/-- `mov $f4,#$aa`, `mov $f5,#$bb` -/
theorem says_ready (s : RomState) :
    LeadsIn (GuestStep io) 2 (Clears s 0) (fun g => ∃ zero, AtRom 0xffcf (ready s zero) g) := by
  rintro g ⟨-, zero, hg⟩
  have hio0 : LeadsIn (GuestStep io) 1 (AtRom 0xffc9 (clearing s 0 zero)) _ :=
    rom_movDpImm (by decide) (by decide) (by decide : IsPort _ 0) rfl
  have hio1 : LeadsIn (GuestStep io) 1
      (AtRom 0xffcc ((clearing s 0 zero).store (apuAddr (apuIo 0)) 0xaa)) _ :=
    rom_movDpImm (by decide) (by decide) (by decide : IsPort _ 1) rfl
  obtain ⟨g', hsteps, hg'⟩ := (hio0.seq hio1) g hg
  exact ⟨g', hsteps, zero, hg'⟩

/-- The loop that waits for the host. -/
inductive Waits (s : RomState) (g : Guest) : Prop where
  | compares (zero : Bool) (h : AtRom 0xffcf (ready s zero) g)
  | branches (h : AtRom 0xffd2 (ready s false) g)

/-- Without an answer of the host the loop is never left. -/
theorem waits_stays (s : RomState) (h : io 0 ≠ 0xcc) :
    LeadsIn (GuestStep io) 1 (Waits s) (Waits s) := by
  have hzero : (io 0 == 0xcc) = false := beq_eq_false_iff_ne.mpr h
  rintro g (⟨zero, hg⟩ | hg)
  · have hstep : LeadsIn (GuestStep io) 1 (AtRom 0xffcf (ready s zero)) _ :=
      rom_cmpDpImm (by decide) (by decide) (by decide : IsPort _ 0) rfl
    obtain ⟨g', hsteps, hg'⟩ := hstep g hg
    refine ⟨g', hsteps, .branches ?_⟩
    rw [← hzero]
    exact hg'
  · have hstep : LeadsIn (GuestStep io) 1 (AtRom 0xffd2 (ready s false)) _ :=
      rom_bne_taken (by decide) (by decide) rfl rfl
    obtain ⟨g', hsteps, hg'⟩ := hstep g hg
    exact ⟨g', hsteps, .compares false hg'⟩

/-- `cmp $f4,#$cc`, `bne`, `bra` -/
theorem hears_answer (s : RomState) (h : io 0 = 0xcc) (zero : Bool) :
    LeadsIn (GuestStep io) 3 (AtRom 0xffcf (ready s zero)) (AtRom 0xffef (ready s true)) := by
  have hcmp : LeadsIn (GuestStep io) 1 (AtRom 0xffcf (ready s zero))
      (AtRom 0xffd2 (ready s true)) := by
    have hstep : LeadsIn (GuestStep io) 1 (AtRom 0xffcf (ready s zero)) _ :=
      rom_cmpDpImm (by decide) (by decide) (by decide : IsPort _ 0) rfl
    have hequal : (io 0 == iplRomLoad (0xffcf + 1)) = true := beq_iff_eq.mpr h
    rw [hequal] at hstep
    exact hstep
  have hbne : LeadsIn (GuestStep io) 1 (AtRom 0xffd2 (ready s true))
      (AtRom 0xffd4 (ready s true)) :=
    rom_bne_falls (by decide) (by decide) rfl rfl
  have hbra : LeadsIn (GuestStep io) 1 (AtRom 0xffd4 (ready s true))
      (AtRom 0xffef (ready s true)) :=
    rom_bra (by decide) (by decide) rfl
  exact hcmp.seq (hbne.seq hbra)

/-- `movw YA,$f6`, `movw $00,YA`, `movw YA,$f4`, `mov $f4,A`, `mov A,Y`, `mov X,A` -/
theorem takes_address (s : RomState) :
    LeadsIn (GuestStep io) 6 (AtRom 0xffef (ready s true)) (AtRom 0xfff9 (answered io s)) := by
  have hload : LeadsIn (GuestStep io) 1 (AtRom 0xffef (ready s true)) _ :=
    rom_movwYaDp (by decide) (by decide : IsPort _ 2) 3 (by decide) rfl
  have hstore := hload.seq
    (rom_movwDpYa (by decide) (by decide) rfl (by decide) (by decide) (by decide))
  have hload' := hstore.seq
    (rom_movwYaDp (by decide) (by decide : IsPort _ 0) 1 (by decide) rfl)
  have hecho := hload'.seq (rom_movDpA (by decide) (by decide : IsPort _ 0) rfl)
  have hcopy := hecho.seq (rom_movAY (by decide) rfl)
  exact hcopy.seq (rom_movXA (by decide) rfl)

/-- The loop of the transfer. -/
inductive Transfers (io : Fin 4 → Byte) (s : RomState) (g : Guest) : Prop where
  | loads (y : Byte) (zero : Bool) (h : AtRom 0xffd6 { answered io s with y := y, zero := zero } g)
  | branches (h : AtRom 0xffd8 { answered io s with y := io 0, zero := false } g)

/-- The first byte of a transfer never comes. -/
theorem transfers_stays (s : RomState) (h : io 0 ≠ 0) :
    LeadsIn (GuestStep io) 1 (Transfers io s) (Transfers io s) := by
  have hzero : (io 0 == 0) = false := beq_eq_false_iff_ne.mpr h
  rintro g (⟨y, zero, hg⟩ | hg)
  · have hstep : LeadsIn (GuestStep io) 1
        (AtRom 0xffd6 { answered io s with y := y, zero := zero }) _ :=
      rom_movYDp (by decide) (by decide : IsPort _ 0) rfl
    obtain ⟨g', hsteps, hg'⟩ := hstep g hg
    rw [hzero] at hg'
    exact ⟨g', hsteps, .branches hg'⟩
  · have hstep : LeadsIn (GuestStep io) 1
        (AtRom 0xffd8 { answered io s with y := io 0, zero := false }) _ :=
      rom_bne_taken (by decide) (by decide) rfl rfl
    obtain ⟨g', hsteps, hg'⟩ := hstep g hg
    exact ⟨g', hsteps, .loads (io 0) false hg'⟩

/-- The program is asked for a transfer. -/
theorem starts_transfer (s : RomState) (h : io 1 ≠ 0) :
    LeadsIn (GuestStep io) 1 (AtRom 0xfff9 (answered io s)) (Transfers io s) := by
  have hstep : LeadsIn (GuestStep io) 1 (AtRom 0xfff9 (answered io s)) _ :=
    rom_bne_taken (by decide) (by decide) rfl (beq_eq_false_iff_ne.mpr h)
  exact hstep.mono (fun _ hg => hg) fun g hg => .loads (io 1) (io 1 == 0) hg

/-- The program is asked to jump. -/
theorem jumps (s : RomState) (h : io 1 = 0) :
    LeadsIn (GuestStep io) 2 (AtRom 0xfff9 (answered io s))
      (AtRom (wordOf (io 3) (io 2)) (answered io s)) := by
  have hbne : LeadsIn (GuestStep io) 1 (AtRom 0xfff9 (answered io s)) _ :=
    rom_bne_falls (by decide) (by decide) rfl (beq_iff_eq.mpr h)
  have hx : (answered io s).x.setWidth 16 = 0 := by
    rw [answered, h]
    rfl
  have haddr : wordOf (iplRomLoad 0xfffd) (iplRomLoad 0xfffc) +
      (answered io s).x.setWidth 16 = 0 := by
    rw [hx]
    rfl
  exact hbne.seq (rom_jmpAbsxInd (by decide) (by decide) (by decide) rfl haddr (by decide)
    (by decide))

end Host

-- ════════════════════════════════════════════════════════════════════════
-- The whole program
-- ════════════════════════════════════════════════════════════════════════

/-- A machine that is about to run the ROM, behind the instruction that is not
    implemented. -/
structure BootReady (m : Machine) : Prop where
  pc : m.cpu.pc = 0xffc3
  x : m.cpu.x = 0xef
  page : m.cpu.pswP = false
  rom : window m.aram = iplRom
  quiet : ¬ EchoWrites m.dsp.regs

/-- RAM while the ROM waits for the host. -/
def readyRam (ram : Word → Byte) : Word → Byte :=
  Function.update (Function.update (cleared ram 0) 0xf4 0xaa) 0xf5 0xbb

/-- RAM after the answer of the host. -/
def answeredRam (io : Fin 4 → Byte) (ram : Word → Byte) : Word → Byte :=
  Function.update (Function.update (Function.update (readyRam ram) 0 (io 2)) 1 (io 3)) 0xf4 (io 0)

/-- So many rounds of the loop lead to one of the program counters, with RAM and
    the ports as given. -/
def RunsTo (beyond : Nat → Byte) (cycle : BitVec 32) (n : Nat) (m : Machine) (pcs : List Word)
    (ram : Word → Byte) (out : Fin 4 → Byte) : Prop :=
  ∃ cycle' m', outcome (runInsns beyond n cycle) m = some (some cycle', m') ∧
    m'.cpu.pc ∈ pcs ∧ m'.aram = ram ∧ m'.apu.ioOut = out

section Boot

variable {m : Machine}

/-- What the ROM starts with. -/
def romState (m : Machine) : RomState where
  a := m.cpu.a
  x := m.cpu.x
  y := m.cpu.y
  zero := m.cpu.zero
  ram := m.aram
  out := m.apu.ioOut

theorem BootReady.at_rom (h : BootReady m) : AtRom 0xffc3 (romState m) (guestOf m) where
  pc := h.pc
  page := h.page
  a := rfl
  x := rfl
  y := rfl
  zero := rfl
  aram := rfl
  ioOut := rfl
  rom := h.rom

theorem ready_out (s : RomState) (zero : Bool) :
    (ready s zero).out = Function.update (Function.update s.out 0 0xaa) 1 0xbb := by
  rw [ready, store_port_out, store_port_out]
  rfl

theorem answered_out (io : Fin 4 → Byte) (s : RomState) :
    (answered io s).out =
      Function.update (Function.update (Function.update s.out 0 0xaa) 1 0xbb) 0 (io 0) := by
  have hplain : ∀ p, (0 : Word) ≠ apuAddr (apuIo p) ∧ (1 : Word) ≠ apuAddr (apuIo p) := by decide
  have hvector : (((ready s true).store 0 (io 2)).store 1 (io 3)).out = (ready s true).out := by
    rw [store_ram_out _ fun p => (hplain p).2, store_ram_out _ fun p => (hplain p).1]
  rw [answered, store_port_out, hvector, ready_out]

/-- What the program does to the guest, the rounds do to the machine. -/
theorem BootReady.runsTo (h : BootReady m) {n : Nat} {pcs : List Word} {ram : Word → Byte}
    {out : Fin 4 → Byte}
    (hleads : LeadsIn (GuestStep m.apu.ioIn) n (AtRom 0xffc3 (romState m))
      (fun g => g.cpu.pc ∈ pcs ∧ g.aram = ram ∧ g.ioOut = out))
    (beyond : Nat → Byte) (cycle : BitVec 32) : RunsTo beyond cycle n m pcs ram out := by
  obtain ⟨cycle', m', g, hrun, hview, hpc, hram, hout⟩ :=
    leadsIn_rounds hleads beyond cycle (views_guestOf h.quiet) h.at_rom
  refine ⟨cycle', m', hrun, ?_, hview.aram.trans hram, hview.ioOut.trans hout⟩
  rw [hview.cpu]
  exact hpc

theorem BootReady.leads_ready (h : BootReady m) :
    LeadsIn (GuestStep m.apu.ioIn) 720 (AtRom 0xffc3 (romState m))
      (fun g => ∃ zero, AtRom 0xffcf (ready (romState m) zero) g) :=
  (clears_page (romState m) h.x).seq (says_ready (romState m))

theorem BootReady.leads_answered (h : BootReady m) (hanswer : m.apu.ioIn 0 = 0xcc) :
    LeadsIn (GuestStep m.apu.ioIn) 729 (AtRom 0xffc3 (romState m))
      (AtRom 0xfff9 (answered m.apu.ioIn (romState m))) := by
  have hanswers : LeadsIn (GuestStep m.apu.ioIn) 9
      (fun g => ∃ zero, AtRom 0xffcf (ready (romState m) zero) g)
      (AtRom 0xfff9 (answered m.apu.ioIn (romState m))) := by
    rintro g ⟨zero, hg⟩
    exact ((hears_answer (romState m) hanswer zero).seq (takes_address (romState m))) g hg
  exact h.leads_ready.seq hanswers

/-- The program of the ROM clears page zero and says that it is ready. Without
    the answer of the host it then waits for ever; when the host asks for a
    transfer it waits for ever for the first byte; otherwise it jumps to the
    address the host supplies. -/
theorem bootRom_boots (h : BootReady m) (beyond : Nat → Byte) (cycle : BitVec 32) :
    (m.apu.ioIn 0 ≠ 0xcc → ∀ n, RunsTo beyond cycle (720 + n) m [0xffcf, 0xffd2]
      (readyRam m.aram) (Function.update (Function.update m.apu.ioOut 0 0xaa) 1 0xbb)) ∧
    (m.apu.ioIn 0 = 0xcc → m.apu.ioIn 1 ≠ 0 → ∀ n, RunsTo beyond cycle (730 + n) m
      [0xffd6, 0xffd8] (answeredRam m.apu.ioIn m.aram)
      (Function.update (Function.update m.apu.ioOut 0 0xcc) 1 0xbb)) ∧
    (m.apu.ioIn 0 = 0xcc → m.apu.ioIn 1 = 0 → RunsTo beyond cycle 731 m
      [wordOf (m.apu.ioIn 3) (m.apu.ioIn 2)] (answeredRam m.apu.ioIn m.aram)
      (Function.update (Function.update m.apu.ioOut 0 0xcc) 1 0xbb)) := by
  have hout : m.apu.ioIn 0 = 0xcc → (answered m.apu.ioIn (romState m)).out =
      Function.update (Function.update m.apu.ioOut 0 0xcc) 1 0xbb := by
    intro hanswer
    rw [answered_out, hanswer, Function.update_comm (by decide), Function.update_idem]
    rfl
  refine ⟨fun hanswer n => ?_, fun hanswer hask n => ?_, fun hanswer hask => ?_⟩
  · have hwaits := h.leads_ready.seq
      ((waits_stays (romState m) hanswer).stays n |>.mono (fun g ⟨zero, hg⟩ => .compares zero hg)
        (fun _ hg => hg))
    refine h.runsTo (hwaits.mono (fun _ hg => hg) ?_) beyond cycle
    rintro g (⟨zero, hg⟩ | hg)
    · exact ⟨by rw [hg.pc]; decide, hg.aram, hg.ioOut.trans (ready_out _ _)⟩
    · exact ⟨by rw [hg.pc]; decide, hg.aram, hg.ioOut.trans (ready_out _ _)⟩
  · have htransfers := ((h.leads_answered hanswer).seq (starts_transfer (romState m) hask)).seq
      ((transfers_stays (romState m) (by rw [hanswer]; decide)).stays n)
    refine h.runsTo (htransfers.mono (fun _ hg => hg) ?_) beyond cycle
    rintro g (⟨y, zero, hg⟩ | hg)
    · exact ⟨by rw [hg.pc]; decide, hg.aram, hg.ioOut.trans (hout hanswer)⟩
    · exact ⟨by rw [hg.pc]; decide, hg.aram, hg.ioOut.trans (hout hanswer)⟩
  · have hjumps := (h.leads_answered hanswer).seq (jumps (romState m) hask)
    refine h.runsTo (hjumps.mono (fun _ hg => hg) fun g hg => ?_) beyond cycle
    exact ⟨by rw [hg.pc]; exact List.mem_singleton_self _, hg.aram,
      hg.ioOut.trans (hout hanswer)⟩

/-- A machine at the ROM, whose host asks for a jump to 0x200. -/
def jumpingHost : Machine :=
  { Machine.init with
    cpu := { Cpu.init with pc := 0xffc3, x := 0xef }
    aram := copyWindow (fun _ => 0) iplRom
    apu := { Apu.init with ioIn := ![0xcc, 0, 0, 2] }
    dsp := { Dsp.zero with regs := Function.update (fun _ => 0) regFlg 0x20 } }

theorem bootRom_boots_jump :
    RunsTo (fun _ => 0) 0 731 jumpingHost [0x200]
      (answeredRam ![0xcc, 0, 0, 2] (copyWindow (fun _ => 0) iplRom))
      (Function.update (Function.update (fun _ => 0) 0 0xcc) 1 0xbb) := by
  have hready : BootReady jumpingHost := by
    refine ⟨rfl, rfl, rfl, window_copyWindow _ _, ?_⟩
    show ¬ EchoWrites (Function.update (fun _ => 0) regFlg 0x20)
    decide
  exact (bootRom_boots hready (fun _ => 0) 0).2.2 rfl rfl

end Boot

end SpuKit.Spc700
