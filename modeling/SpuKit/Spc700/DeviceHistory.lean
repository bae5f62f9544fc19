import SpuKit.Spc700.BusAccess
import SpuKit.Spc700.Execute

/-!
# The devices as their history

What a register, a port or a byte of memory holds after any number of rounds of
the loop is told by the accesses of the run alone: it is the last byte stored
there. The same goes for the end of the process: a run aborts just where it
accesses DSPDATA while the last byte stored to DSPADDR has its top bit set.

## Main definitions

- `DspPort` — the window to the DSP registers, and what it last stored to FLG
- `lastStored` — the monitor of one address
- `abortGuard`, `echoGuard` — accesses that abort, samples with echo writes
- `Watches` — a part of the machine that a monitor of the accesses tells

## Main results

- `Watches.tracks` — a watched part is told by the events of every run
- `runInsns_stops_iff` — when a run aborts
- `runInsns_registers` — what the registers and ports hold after a run
- `runInsns_aram` — what a byte of RAM holds after a run
-/

namespace SpuKit.Spc700

/-- Is the event an access of the memory map or of the clocks? -/
def CpuEvent.isDevice : CpuEvent → Bool
  | .load _ | .store _ _ | .clock _ => true
  | _ => false

/-- A part of the machine that a monitor of the accesses tells. -/
structure Watches {γ : Type} (M : Monitor γ CpuEvent) (part : Machine → γ) : Prop where
  cpu : ∀ m c, part (m.withCpu c) = part m
  other : ∀ c e, e.isDevice = false → M.next c e = c
  load : ∀ addr m byte m', SpuKit.memLoad .fast addr m = some (byte, m') →
    M.ok (part m) (.load addr) → part m' = M.next (part m) (.load addr)
  store : ∀ addr byte m u m', SpuKit.memStore .fast addr byte m = some (u, m') →
    M.ok (part m) (.store addr byte) → part m' = M.next (part m) (.store addr byte)
  clocks : ∀ beyond cycle m,
    M.Accepts (part m) ((updateClocks beyond cycle m).events.map .clock) →
    part (updateClocks beyond cycle m).val =
      M.after (part m) ((updateClocks beyond cycle m).events.map .clock)

section Watches

variable {γ : Type} {M : Monitor γ CpuEvent} {part : Machine → γ} {beyond : Nat → Byte}

/-- A watched part is told by the events of the primitives. -/
theorem Watches.primitive (h : Watches M part) (α : Type) (x : Insn α)
    (hx : Primitive beyond α x) : x.Tracks M part := by
  cases hx with
  | fetch =>
    refine .of_exec (fun m => exec_fetchInsn m) fun m _ => ?_
    rw [Monitor.after_cons, Monitor.after_nil, h.other _ _ rfl]
    exact h.cpu m _
  | operand o => exact .of_exec (fun _ => rfl) fun _ _ => (h.other _ _ rfl).symm
  | branchTaken => exact .of_exec (fun _ => rfl) fun _ _ => (h.other _ _ rfl).symm
  | pushed word => exact .of_exec (fun _ => rfl) fun _ _ => (h.other _ _ rfl).symm
  | load addr => exact .of_single (exec_memLoad addr) fun m byte m' => h.load addr m byte m'
  | store addr byte =>
    exact .of_single (exec_memStore addr byte) fun m u m' => h.store addr byte m u m'
  | onCpu x => exact .of_exec (fun _ => rfl) fun m _ => h.cpu m _
  | clocks cycle => exact .of_exec (fun m => exec_onClocks _ m) fun m => h.clocks beyond cycle m

/-- **Run**: a watched part is told by the accepted events of everything put
    together from the primitives. -/
theorem Watches.tracks (h : Watches M part) {α : Type} {x : Insn α} (hx : Built beyond x) :
    x.Tracks M part :=
  hx.tracks h.primitive

end Watches

section Clocks

variable {γ : Type} {M : Monitor γ CpuEvent}

/-- Where the clocks do not move a monitor, it is where it was after them. -/
theorem after_clocks (h : ∀ c e, M.next c (.clock e) = c) (c : γ) (es : List ClockEvent) :
    M.after c (es.map .clock) = c := by
  induction es with
  | nil => rfl
  | cons e es ih => rw [List.map_cons, Monitor.after_cons, h, ih]

theorem accepts_clocks (h : ∀ c e, M.next c (.clock e) = c) (c : γ) (es : List ClockEvent) :
    M.Accepts c (es.map .clock) ↔ ∀ e ∈ es, M.ok c (.clock e) := by
  induction es with
  | nil => simp
  | cons e es ih => rw [List.map_cons, Monitor.accepts_cons, h, ih, List.forall_mem_cons]

end Clocks

-- ════════════════════════════════════════════════════════════════════════
-- The window to the DSP
-- ════════════════════════════════════════════════════════════════════════

/-- The window to the DSP registers: the byte in DSPADDR, and the byte in FLG. -/
structure DspPort where
  addr : Byte
  flg : Byte
  deriving DecidableEq

/-- The DSP register that DSPDATA is a window to. -/
def DspPort.reg (p : DspPort) : Fin 0x80 := Fin.ofNat 0x80 (p.addr &&& 0x7f).toNat

/-- What an event does to the window. -/
def DspPort.next (p : DspPort) : CpuEvent → DspPort
  | .store at_ byte =>
    if at_ = dspAddrAt then { p with addr := byte }
    else if at_ = dspDataAt ∧ p.reg = regFlg then { p with flg := byte }
    else p
  | _ => p

/-- The window of a machine. -/
def dspPort (m : Machine) : DspPort where
  addr := m.apu.s apuDspAddr
  flg := m.dsp.regs regFlg

/-- DSPDATA is only accessed while the byte in DSPADDR has its top bit clear. -/
def abortGuard : Monitor DspPort CpuEvent where
  next := DspPort.next
  ok p e := e.address? = some dspDataAt → p.addr &&& 0x80 = 0

/-- Samples are only taken while FLG keeps the echo unit from writing. -/
def echoGuard : Monitor DspPort CpuEvent where
  next := DspPort.next
  ok p
    | .clock (.sample _) => p.flg &&& flgEchoDisabled ≠ 0
    | _ => True

theorem DspPort.next_clock (p : DspPort) (e : ClockEvent) : p.next (.clock e) = p := rfl

theorem dspPort_load {addr : Word} {byte : Byte} {m m' : Machine}
    (h : SpuKit.memLoad .fast addr m = some (byte, m')) : dspPort m' = dspPort m := by
  have haccess := memLoad_access h
  rw [dspPort, haccess.plain _ plainReg_dspAddr, haccess.rest]
  rfl

theorem dspPort_store {addr : Word} {byte : Byte} {m m' : Machine} {u : Unit}
    (h : SpuKit.memStore .fast addr byte m = some (u, m')) :
    dspPort m' = (dspPort m).next (.store addr byte) := by
  have haccess := memStore_access h
  have hne : dspAddrAt ≠ dspDataAt := by decide
  rw [dspPort, haccess.plain _ plainReg_dspAddr, haccess.dsp]
  by_cases haddr : addr = dspAddrAt
  · subst haddr
    rw [if_neg hne]
    rfl
  · rw [if_neg (show addr ≠ apuAddr apuDspAddr from haddr), DspPort.next, if_neg haddr]
    by_cases hdata : addr = dspDataAt
    · rw [if_pos hdata]
      show DspPort.mk _ (SpuKit.store m.dsp.regs (dspPort m).reg byte regFlg) = _
      have hendx : regFlg ≠ regEndx := by decide
      unfold SpuKit.store
      split
      · next hreg =>
        rw [if_neg (fun h => hendx (h.2.symm.trans hreg)), Function.update_of_ne hendx]
        rfl
      · rw [Function.update_apply]
        by_cases hflg : (dspPort m).reg = regFlg
        · rw [if_pos hflg.symm, if_pos ⟨hdata, hflg⟩]
          rfl
        · rw [if_neg (Ne.symm hflg), if_neg (fun h => hflg h.2)]
          rfl
    · rw [if_neg hdata, if_neg (fun h => hdata h.1)]
      rfl

theorem dspPort_clocks (beyond : Nat → Byte) (cycle : BitVec 32) (m : Machine) :
    dspPort (updateClocks beyond cycle m).val = dspPort m := by
  have haccess := clocks_access beyond cycle m
  rw [dspPort, haccess.plain _ plainReg_dspAddr, haccess.regs regFlg control_flg]
  rfl

/-- The window is told by the stores of a run, whatever is accepted. -/
theorem dspPort_watched (ok : DspPort → CpuEvent → Prop) :
    Watches { next := DspPort.next, ok := ok } dspPort where
  cpu _ _ := rfl
  other _ e he := by cases e <;> first | rfl | cases he
  load _ _ _ _ h _ := dspPort_load h
  store _ _ _ _ _ h _ := dspPort_store h
  clocks beyond cycle m _ := by
    rw [after_clocks DspPort.next_clock, dspPort_clocks]

-- ════════════════════════════════════════════════════════════════════════
-- Aborts
-- ════════════════════════════════════════════════════════════════════════

section Aborts

variable {beyond : Nat → Byte}

/-- Only an access of DSPDATA aborts, and it does just when DSPADDR is in the
    upper half. -/
theorem memLoad_eq_none_iff {addr : Word} {m : Machine} :
    SpuKit.memLoad .fast addr m = none ↔
      addr = dspDataAt ∧ m.apu.s apuDspAddr &&& 0x80 ≠ 0 := by
  constructor
  · exact memLoad_eq_none
  · rintro ⟨rfl, hhigh⟩
    have hreg : apuReg dspDataAt = apuDspData := apuReg_apuAddr _
    rw [memLoad_run, if_pos (show apuMmioAddress dspDataAt = true from rfl), mmioLoadRegs,
      if_pos hreg, dspLoad, if_pos hhigh]
    rfl

theorem memStore_eq_none_iff {addr : Word} {byte : Byte} {m : Machine} :
    SpuKit.memStore .fast addr byte m = none ↔
      addr = dspDataAt ∧ m.apu.s apuDspAddr &&& 0x80 ≠ 0 := by
  constructor
  · exact memStore_eq_none
  · rintro ⟨rfl, hhigh⟩
    have hreg : apuReg dspDataAt = apuDspData := apuReg_apuAddr _
    have hctrl : ¬ apuDspData = apuCtrl := by decide
    rw [memStore_run, storeRegs, if_pos (show apuMmioAddress dspDataAt = true from rfl),
      mmioStoreRegs]
    simp only [hreg, if_neg hctrl, if_true]
    rw [Function.update_of_ne (show apuDspAddr ≠ apuDspData by decide), dspStore, if_pos hhigh]
    rfl

/-- A primitive stops just at an access that the guard refuses. -/
theorem primitive_guards (α : Type) (x : Insn α) (hx : Primitive beyond α x) :
    x.Guards abortGuard dspPort := by
  have htracks := (dspPort_watched abortGuard.ok).primitive α x hx
  have hquiet : ∀ p e, e.address? = none → abortGuard.ok p e := by
    intro p e he haddr
    rw [he] at haddr
    cases haddr
  cases hx with
  | fetch =>
    exact .of_exec (fun m => exec_fetchInsn m) (fun _ => ⟨hquiet _ _ rfl, trivial⟩) fun _ => rfl
  | operand o => exact .of_exec (fun _ => rfl) (fun _ => ⟨hquiet _ _ rfl, trivial⟩) fun _ => rfl
  | branchTaken => exact .of_exec (fun _ => rfl) (fun _ => ⟨hquiet _ _ rfl, trivial⟩) fun _ => rfl
  | pushed word => exact .of_exec (fun _ => rfl) (fun _ => ⟨hquiet _ _ rfl, trivial⟩) fun _ => rfl
  | load addr =>
    refine .of_single (exec_memLoad addr) (fun m byte m' h => ⟨fun haddr => ?_, dspPort_load h⟩)
      fun m h hok => ?_
    · obtain rfl := Option.some.inj haddr
      by_contra hhigh
      rw [memLoad_eq_none_iff.mpr ⟨rfl, hhigh⟩] at h
      cases h
    · obtain ⟨rfl, hhigh⟩ := memLoad_eq_none_iff.mp h
      exact hhigh (hok rfl)
  | store addr byte =>
    refine .of_single (exec_memStore addr byte)
      (fun m u m' h => ⟨fun haddr => ?_, dspPort_store h⟩) fun m h hok => ?_
    · obtain rfl := Option.some.inj haddr
      by_contra hhigh
      rw [memStore_eq_none_iff.mpr ⟨rfl, hhigh⟩] at h
      cases h
    · obtain ⟨rfl, hhigh⟩ := memStore_eq_none_iff.mp h
      exact hhigh (hok rfl)
  | onCpu x => exact .of_exec (fun _ => rfl) (fun _ => trivial) fun _ => rfl
  | clocks cycle =>
    refine .of_exec (fun m => exec_onClocks _ m) (fun m => ?_) fun m => ?_
    · exact (accepts_clocks DspPort.next_clock _ _).mpr fun _ _ => hquiet _ _ rfl
    · rw [after_clocks DspPort.next_clock, dspPort_clocks]

/-- What ends in `abort` does so in an access of DSPDATA, with the top bit set in the
    last byte stored to DSPADDR. -/
theorem Built.aborts {α : Type} {x : Insn α} (hx : Built beyond x) {m : Machine}
    {es : List CpuEvent} (h : x.Stops m es) :
    ∃ init last, es = init ++ [last] ∧ abortGuard.Accepts (dspPort m) init ∧
      last.address? = some dspDataAt ∧
      (abortGuard.after (dspPort m) init).addr &&& 0x80 ≠ 0 := by
  obtain ⟨init, last, hes, haccepts, hlast⟩ := (hx.guards primitive_guards).stops h
  obtain ⟨haddr, hhigh⟩ := Classical.not_imp.mp hlast
  exact ⟨init, last, hes, haccepts, haddr, hhigh⟩

/-- **Aborts**: a run of the loop ends in `abort` just when it accesses DSPDATA
    while the last byte stored to DSPADDR has its top bit set, and that access is
    its last event. -/
theorem runInsns_stops_iff (n : Nat) (cycle : BitVec 32) (m : Machine) :
    ((∃ es, (runInsns beyond n cycle).Stops m es) ↔
        ¬ abortGuard.Accepts (dspPort m) (Program.exec (runInsns beyond n cycle) m).events) ∧
      ∀ es, (runInsns beyond n cycle).Stops m es →
        ∃ init last, es = init ++ [last] ∧ abortGuard.Accepts (dspPort m) init ∧
          last.address? = some dspDataAt ∧
          (abortGuard.after (dspPort m) init).addr &&& 0x80 ≠ 0 := by
  have hbuilt := runInsns_built beyond n cycle
  exact ⟨(hbuilt.guards primitive_guards).stops_iff m, fun es hstop => hbuilt.aborts hstop⟩

/-- A machine at a load of DSPDATA, with DSPADDR in the upper half. -/
def highDspAddr : Machine :=
  { Machine.ofProgram [0xe4, 0xf3] .init with
    apu := { Apu.init with s := Function.update (fun _ => 0) apuDspAddr 0x80 } }

theorem runInsns_stops_high : ∃ es, (runInsns (fun _ => 0) 1 0).Stops highDspAddr es :=
  (runInsns_stops_iff 1 0 highDspAddr).1.mpr fun h => absurd (h.2.2.2.1 rfl) (by decide)

end Aborts

-- ════════════════════════════════════════════════════════════════════════
-- Registers, ports and memory
-- ════════════════════════════════════════════════════════════════════════

/-- What an event stores at an address. -/
def storedAt (addr : Word) (byte : Byte) : CpuEvent → Byte
  | .store at_ byte' => if at_ = addr then byte' else byte
  | _ => byte

/-- The monitor of an address: the last byte stored there. -/
def lastStored (addr : Word) : Monitor Byte CpuEvent where
  next := storedAt addr
  ok _ _ := True

/-- The monitor of something no event changes. -/
def still (γ : Type) : Monitor γ CpuEvent where
  next c _ := c
  ok _ _ := True

theorem lastStored_clocks (addr : Word) (byte : Byte) (es : List ClockEvent) :
    (lastStored addr).after byte (es.map .clock) = byte :=
  after_clocks (fun _ _ => rfl) byte es

theorem plainReg_watched {reg : Fin 16} (hreg : PlainReg reg) :
    Watches (lastStored (apuAddr reg)) fun m => m.apu.s reg where
  cpu _ _ := rfl
  other _ e he := by cases e <;> first | rfl | cases he
  load _ _ _ _ h _ := (memLoad_access h).plain reg hreg
  store _ _ _ _ _ h _ := (memStore_access h).plain reg hreg
  clocks beyond cycle m _ := by
    rw [lastStored_clocks]
    exact (clocks_access beyond cycle m).plain reg hreg

theorem ioOut_watched (k : Fin 4) :
    Watches (lastStored (apuAddr (apuIo k))) fun m => m.apu.ioOut k where
  cpu _ _ := rfl
  other _ e he := by cases e <;> first | rfl | cases he
  load _ _ _ _ h _ := congrFun (memLoad_access h).ioOut k
  store _ _ _ _ _ h _ := (memStore_access h).ioOut k
  clocks beyond cycle m _ := by
    rw [lastStored_clocks]
    exact congrFun (clocks_access beyond cycle m).ioOut k

theorem ioIn_watched : Watches (still (Fin 4 → Byte)) fun m => m.apu.ioIn where
  cpu _ _ := rfl
  other _ _ _ := rfl
  load _ _ _ _ h _ := (memLoad_access h).ioIn
  store _ _ _ _ _ h _ := (memStore_access h).ioIn
  clocks beyond cycle m _ := by
    rw [after_clocks fun _ _ => rfl]
    exact (clocks_access beyond cycle m).ioIn

/-- **Registers and ports**: after any number of rounds every plain register and
    every output port holds the last byte stored to it, and the input ports hold
    what the host supplied. -/
theorem runInsns_registers {beyond : Nat → Byte} {n : Nat} {cycle : BitVec 32} {m m' : Machine}
    {r : Option (BitVec 32)} {es : List CpuEvent}
    (h : (runInsns beyond n cycle).Returns m r m' es) :
    (∀ reg, PlainReg reg →
        m'.apu.s reg = (lastStored (apuAddr reg)).after (m.apu.s reg) es) ∧
      (∀ k, m'.apu.ioOut k = (lastStored (apuAddr (apuIo k))).after (m.apu.ioOut k) es) ∧
      m'.apu.ioIn = m.apu.ioIn := by
  have hbuilt := runInsns_built beyond n cycle
  have hall : ∀ addr byte, (lastStored addr).Accepts byte es :=
    fun addr byte => (lastStored addr).accepts_of_ok byte fun _ _ _ => trivial
  refine ⟨fun reg hreg => ?_, fun k => ?_, ?_⟩
  · exact (plainReg_watched hreg).tracks hbuilt h (hall _ _)
  · exact (ioOut_watched k).tracks hbuilt h (hall _ _)
  · refine (ioIn_watched.tracks hbuilt h ?_).trans (List.foldl_fixed _)
    exact (still _).accepts_of_ok _ fun _ _ _ => trivial

/-- A byte is moved to the first port. -/
theorem runInsns_registers_port :
    ∃ r m' es,
      (runInsns (fun _ => 0) 1 0).Returns (.ofProgram [0x8f, 0xaa, 0xf4] .init) r m' es ∧
        m'.apu.ioOut 0 = 0xaa := by
  have hrun : (runInsns (fun _ => 0) 1 0).Returns (.ofProgram [0x8f, 0xaa, 0xf4] .init) _ _ _ :=
    rfl
  exact ⟨_, _, _, hrun, ((runInsns_registers hrun).2.1 0).trans rfl⟩

/-- Where no sample writes to the echo buffer the clocks leave RAM alone. -/
theorem clocks_aram (beyond : Nat → Byte) (cycle : BitVec 32) (m : Machine)
    (h : ∀ s, .sample s ∈ (updateClocks beyond cycle m).events → ¬ EchoWrites m.dsp.regs) :
    (updateClocks beyond cycle m).val.aram = m.aram := by
  by_cases hsample : ∃ s, .sample s ∈ (updateClocks beyond cycle m).events
  · obtain ⟨s, hs⟩ := hsample
    exact (clocks_access beyond cycle m).aram (h s hs)
  · rw [updateClocks] at hsample ⊢
    split at hsample
    · next hdue =>
      rw [if_pos hdue]
      rw [apuUpdateClocks_eq] at hsample ⊢
      have hnone : ¬ cycle &&& 0x1f = 0 := by
        intro hcycle
        obtain ⟨⟨s, hs⟩, -⟩ := dspRun32_spec beyond (timerTick 2 m).val
        apply hsample
        refine ⟨s, ?_⟩
        simp only [Traced.events_bind, sampleClock, if_pos hcycle, hs]
        simp
      simp only [Traced.val_bind, sampleClock, if_neg hnone, slowClock]
      split <;> rfl
    · next hdue =>
      rw [if_neg hdue]
      rfl

/-- Stores to CTRL move bytes in and out of the window of the ROM. -/
def romGuard (addr : Word) : Monitor Byte CpuEvent where
  next := storedAt addr
  ok _ e := iplRomAddress addr = true → ∀ byte, e ≠ .store ctrlAt byte

theorem storeMem_aram {addr at_ : Word} {byte : Byte} {m : Machine}
    (h : iplRomAddress addr = true → at_ ≠ ctrlAt) :
    (storeMem .fast at_ byte m).aram addr = if at_ = addr then byte else m.aram addr := by
  have hwindow : ∀ src, ¬ iplRomAddress addr = true → copyWindow m.aram src addr = m.aram addr := by
    intro src hout
    rw [copyWindow, if_neg (fun hle => hout ((iplRomAddress_iff addr).mpr hle))]
  have hkeep : ∀ shown, storesCtrl at_ = true →
      (apuSetShowIplRom .fast shown m).aram addr = m.aram addr := by
    intro shown hctrl
    obtain ⟨hmmio, hreg⟩ := Bool.and_eq_true_iff.mp hctrl
    have hat : at_ = ctrlAt := (apuMmioAddress_eq_iff hmmio _).mp (beq_iff_eq.mp hreg)
    rw [apuSetShowIplRom_aram]
    split
    · exact hwindow _ fun hin => h hin hat
    · rfl
  simp only [storeMem, Function.update_apply, eq_comm (a := addr)]
  split
  · rfl
  · split
    · next hctrl => exact hkeep _ hctrl
    · rfl

/-- A byte of RAM is told by the stores, as long as the echo unit does not write
    and the ROM is not shown or hidden over it. -/
theorem aram_watched (addr : Word) :
    Watches (echoGuard.prod (romGuard addr)) fun m => (dspPort m, m.aram addr) where
  cpu _ _ := rfl
  other _ e he := by cases e <;> first | rfl | cases he
  load _ _ _ _ h _ := by
    refine Prod.ext (dspPort_load h) ?_
    rw [(memLoad_access h).rest]
    rfl
  store at_ byte m u m' h hok := by
    refine Prod.ext (dspPort_store h) ?_
    have hctrl : iplRomAddress addr = true → at_ ≠ ctrlAt := by
      rintro hin rfl
      exact hok.2 hin byte rfl
    rw [memStore_run] at h
    obtain ⟨p, -, heq⟩ := Option.map_eq_some_iff.mp h
    obtain ⟨-, rfl⟩ := Prod.mk.inj heq
    exact storeMem_aram hctrl
  clocks beyond cycle m haccepts := by
    obtain ⟨hecho, -⟩ := (echoGuard.accepts_prod _ _ _).mp haccepts
    rw [accepts_clocks DspPort.next_clock] at hecho
    rw [after_clocks fun _ _ => rfl, dspPort_clocks, clocks_aram]
    exact fun s hs => hecho _ hs

/-- **RAM**: after any number of rounds whose samples are taken with the echo unit
    kept from writing, every byte of RAM is the last one stored to its address.
    The bytes of the window are those of the ROM whenever a store to CTRL shows
    it, so for them there must be no such store. -/
theorem runInsns_aram {beyond : Nat → Byte} {n : Nat} {cycle : BitVec 32} {m m' : Machine}
    {r : Option (BitVec 32)} {es : List CpuEvent} {addr : Word}
    (h : (runInsns beyond n cycle).Returns m r m' es)
    (hecho : echoGuard.Accepts (dspPort m) es)
    (hrom : iplRomAddress addr = true → ∀ byte, CpuEvent.store ctrlAt byte ∉ es) :
    m'.aram addr = (lastStored addr).after (m.aram addr) es := by
  have hguard : (romGuard addr).Accepts (m.aram addr) es := by
    refine (romGuard addr).accepts_of_ok _ fun e he _ hin byte heq => ?_
    exact hrom hin byte (heq ▸ he)
  have htracks := (aram_watched addr).tracks (runInsns_built beyond n cycle) h
    ((echoGuard.accepts_prod ..).mpr ⟨hecho, hguard⟩)
  rw [Monitor.after_prod] at htracks
  exact (Prod.mk.inj htracks).2

/-- A byte is moved to the direct page, with the echo unit kept from writing. -/
def movedQuietly : Machine :=
  { Machine.ofProgram [0x8f, 0xaa, 0x10] .init with
    dsp := { Dsp.zero with regs := Function.update (fun _ => 0) regFlg flgEchoDisabled } }

/-- The round also takes a sample. -/
theorem runInsns_aram_moved :
    ∃ r m' es, (runInsns (fun _ => 0) 1 28).Returns movedQuietly r m' es ∧
      (∃ s, CpuEvent.clock (.sample s) ∈ es) ∧ m'.aram 0x10 = 0xaa := by
  have hrun : (runInsns (fun _ => 0) 1 28).Returns movedQuietly _ _ _ := rfl
  have hlow : ¬ iplRomAddress 0x10 = true := by decide
  have hflg : flgEchoDisabled &&& flgEchoDisabled ≠ 0 := by decide
  have haram := runInsns_aram hrun
    ⟨trivial, trivial, trivial, trivial, trivial, trivial, trivial, trivial, hflg, trivial⟩
    fun h => absurd h hlow
  exact ⟨_, _, _, hrun, ⟨_, List.mem_of_getElem? (i := 8) rfl⟩, haram.trans rfl⟩

end SpuKit.Spc700
