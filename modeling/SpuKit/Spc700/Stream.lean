import SpuKit.Spc700.Run

/-!
# The instruction stream

What an instruction takes from the instruction stream and where it leaves the
program counter. An instruction first fetches its operands, by loads at most,
and then ends in one of four ways.

## Main definitions

- `Role`, `stream` — operands, and the events of fetching them
- `Frame` — what every part of an instruction leaves alone
- `Reads` — a computation that fetches operands and stores nothing
- `Flow`, `Fetches` — an instruction that fetches its operands and then ends

## Main results

- `Reads.bind`, `Reads.bind_fetches` — operands one after the other
- `fetches_relative` — a branch
-/

namespace SpuKit.Spc700

/-- How an operand is fetched. -/
inductive Role where
  | immediate
  | directPage (place : Place)
  | relative
  | absolute
  | bitaddr
  deriving DecidableEq

def Role.size : Role → Nat
  | .immediate | .directPage _ | .relative => 1
  | .absolute | .bitaddr => 2

/-- The number of bytes of the operands. -/
def size (roles : List Role) : Nat := (roles.map Role.size).sum

/-- The operand at an address of the instruction stream. -/
def Role.operand (aram : Word → Byte) (pc : Word) : Role → Operand
  | .immediate => .immediate (aram pc)
  | .directPage place => .directPage place (aram pc)
  | .relative => .relative (aram pc)
  | .absolute => .absolute (wordOf (aram (pc + 1)) (aram pc))
  | .bitaddr => .bitaddr (bitaddrInit (wordOf (aram (pc + 1)) (aram pc)))

/-- The addresses of bytes fetched one after the other. -/
def addresses : Word → Nat → List Word
  | _, 0 => []
  | pc, n + 1 => pc :: addresses (pc + 1) n

theorem add_succ_ofNat (addr : Word) (n : Nat) :
    addr + 1 + BitVec.ofNat 16 n = addr + BitVec.ofNat 16 (n + 1) := by
  rw [Nat.add_comm n 1, BitVec.ofNat_add, BitVec.add_assoc]
  rfl

theorem addresses_add (pc : Word) (n k : Nat) :
    addresses pc (n + k) = addresses pc n ++ addresses (pc + BitVec.ofNat 16 n) k := by
  induction n generalizing pc with
  | zero => rw [Nat.zero_add, BitVec.add_zero]; rfl
  | succ n ih =>
    rw [Nat.succ_add, addresses, ih, addresses, List.cons_append, add_succ_ofNat]

/-- The operand is complete when all its bytes were fetched. -/
def Role.events (aram : Word → Byte) (pc : Word) (r : Role) : List CpuEvent :=
  (addresses pc r.size).map .fetch ++ [.operand (r.operand aram pc)]

/-- The events of fetching operands one after the other. -/
def stream (aram : Word → Byte) : Word → List Role → List CpuEvent
  | _, [] => []
  | pc, r :: rs => r.events aram pc ++ stream aram (pc + BitVec.ofNat 16 r.size) rs

@[simp] theorem size_nil : size [] = 0 := rfl

@[simp] theorem size_cons (r : Role) (rs : List Role) : size (r :: rs) = r.size + size rs :=
  List.sum_cons

theorem size_append (rs rs' : List Role) : size (rs ++ rs') = size rs + size rs' := by
  rw [size, List.map_append, List.sum_append]
  rfl

theorem stream_append (aram : Word → Byte) (pc : Word) (rs rs' : List Role) :
    stream aram pc (rs ++ rs') =
      stream aram pc rs ++ stream aram (pc + BitVec.ofNat 16 (size rs)) rs' := by
  induction rs generalizing pc with
  | nil => simp [stream]
  | cons r rs ih =>
    rw [List.cons_append, stream, stream, ih, size_cons, BitVec.ofNat_add, BitVec.add_assoc,
      List.append_assoc]

/-- Fetching operands only fetches, and records the operands. -/
theorem mem_stream {aram : Word → Byte} {pc : Word} {rs : List Role} {e : CpuEvent}
    (h : e ∈ stream aram pc rs) : (∃ addr, e = .fetch addr) ∨ ∃ o, e = .operand o := by
  induction rs generalizing pc with
  | nil => cases h
  | cons r rs ih =>
    obtain h | h := List.mem_append.mp h
    · obtain h | h := List.mem_append.mp h
      · obtain ⟨addr, -, rfl⟩ := List.mem_map.mp h
        exact Or.inl ⟨addr, rfl⟩
      · exact Or.inr ⟨_, List.mem_singleton.mp h⟩
    · exact ih h

/-- Is the event about the instruction stream or the program counter? -/
def CpuEvent.inStream : CpuEvent → Bool
  | .fetch _ | .operand _ | .branchTaken | .pushWord _ => true
  | .load _ | .store _ _ | .clock _ => false

/-- The events of the instruction stream. -/
def trail (es : List CpuEvent) : List CpuEvent := es.filter CpuEvent.inStream

@[simp] theorem trail_append (es es' : List CpuEvent) : trail (es ++ es') = trail es ++ trail es' :=
  List.filter_append ..

/-- What is only told by events of the instruction stream is told by the trail. -/
theorem filterMap_trail {β : Type} {f : CpuEvent → Option β}
    (h : ∀ e, e.inStream = false → f e = none) (es : List CpuEvent) :
    (trail es).filterMap f = es.filterMap f := by
  rw [trail, List.filterMap_filter]
  congr 1
  funext e
  cases he : e.inStream with
  | true => rfl
  | false => exact (h e he).symm

/-- The address of an access. -/
def CpuEvent.address? : CpuEvent → Option Word
  | .load addr | .store addr _ => some addr
  | _ => none

/-- No access was to a register. -/
def AvoidsMmio (es : List CpuEvent) : Prop :=
  ∀ e ∈ es, ∀ addr, e.address? = some addr → ¬ apuMmioAddress addr = true

theorem avoidsMmio_append {es es' : List CpuEvent} :
    AvoidsMmio (es ++ es') ↔ AvoidsMmio es ∧ AvoidsMmio es' := by
  simp only [AvoidsMmio, List.mem_append, or_imp, forall_and]

/-- No event is of the clocks. -/
def NoClocks (es : List CpuEvent) : Prop := ∀ e, CpuEvent.clock e ∉ es

theorem noClocks_nil : NoClocks [] := fun _ => List.not_mem_nil

theorem noClocks_singleton {e : CpuEvent} (h : ∀ c, CpuEvent.clock c ≠ e) : NoClocks [e] :=
  fun c hc => h c (List.mem_singleton.mp hc)

theorem NoClocks.append {es es' : List CpuEvent} (h : NoClocks es) (h' : NoClocks es') :
    NoClocks (es ++ es') := by
  intro e he
  obtain he | he := List.mem_append.mp he
  · exact h e he
  · exact h' e he

/-- The part of an instruction between `m` and `m'` does not update the clocks,
    and it changes the APU by accesses only. -/
structure Frame (m m' : Machine) (es : List CpuEvent) : Prop where
  clocks : NoClocks es
  apu : AvoidsMmio es → m'.apu = m.apu

theorem Frame.append {m m' m'' : Machine} {es es' : List CpuEvent} (h : Frame m m' es)
    (h' : Frame m' m'' es') : Frame m m'' (es ++ es') where
  clocks := h.clocks.append h'.clocks
  apu havoid := by
    obtain ⟨hes, hes'⟩ := avoidsMmio_append.mp havoid
    rw [h'.apu hes', h.apu hes]

/-- The last event is an access of DSPDATA. -/
structure Aborts (es : List CpuEvent) : Prop where
  last : ∃ es' e, es = es' ++ [e] ∧ e.address? = some (apuAddr apuDspData)
  clocks : NoClocks es

-- ════════════════════════════════════════════════════════════════════════
-- Fetching operands
-- ════════════════════════════════════════════════════════════════════════

/-- Between `m` and `m'` the operands were fetched, and nothing was stored. -/
structure Reading (roles : List Role) (m m' : Machine) (es : List CpuEvent) : Prop where
  frame : Frame m m' es
  trail_eq : trail es = stream m.aram m.cpu.pc roles
  aram : m'.aram = m.aram
  pc : m'.cpu.pc = m.cpu.pc + BitVec.ofNat 16 (size roles)

theorem Reading.append {roles roles' : List Role} {m m' m'' : Machine} {es es' : List CpuEvent}
    (h : Reading roles m m' es) (h' : Reading roles' m' m'' es') :
    Reading (roles ++ roles') m m'' (es ++ es') where
  frame := h.frame.append h'.frame
  trail_eq := by rw [trail_append, h.trail_eq, h'.trail_eq, h.aram, h.pc, stream_append]
  aram := h'.aram.trans h.aram
  pc := by rw [h'.pc, h.pc, size_append, BitVec.ofNat_add, BitVec.add_assoc]

/-- How an instruction ends, once it has its operands. -/
inductive Flow where
  | straight
  | branch
  | jump
  | call
  deriving DecidableEq

/-- A displacement is added to the program counter, or it is left alone. -/
def BranchEnds (disp : Byte) (m m' : Machine) (es : List CpuEvent) : Prop :=
  es = [] ∧ m'.cpu.pc = m.cpu.pc ∨
    es = [.branchTaken] ∧ m'.cpu.pc = m.cpu.pc + disp.signExtend 16

/-- The end of an instruction from `m`, where it has its operands, to `m'`. The
    displacement of a branch is its last operand. -/
def Flow.Ends : Flow → Machine → Machine → List CpuEvent → Prop
  | .straight, m, m', es => es = [] ∧ m'.cpu.pc = m.cpu.pc
  | .branch, m, m', es => BranchEnds (m.aram (m.cpu.pc - 1)) m m' es
  | .jump, _, _, es => es = []
  | .call, m, _, es => es = [.pushWord m.cpu.pc]

/-- The events of the end of an instruction. -/
theorem Flow.Ends.events {flow : Flow} {m m' : Machine} {es : List CpuEvent}
    (h : flow.Ends m m' es) : es = [] ∨ flow = .branch ∧ es = [.branchTaken] ∨
      flow = .call ∧ es = [.pushWord m.cpu.pc] := by
  cases flow with
  | straight => exact Or.inl h.1
  | branch =>
    obtain ⟨hes, -⟩ | ⟨hes, -⟩ := h
    · exact Or.inl hes
    · exact Or.inr (Or.inl ⟨rfl, hes⟩)
  | jump => exact Or.inl h
  | call => exact Or.inr (Or.inr ⟨rfl, h⟩)

/-- Between `m` and `m'` the operands were fetched, and then the instruction
    ended. -/
def Fetching (roles : List Role) (flow : Flow) (m m' : Machine) (es : List CpuEvent) : Prop :=
  ∃ m₁ es₁ es₂, Reading roles m m₁ es₁ ∧ Frame m₁ m' es₂ ∧ flow.Ends m₁ m' (trail es₂) ∧
    es = es₁ ++ es₂

theorem Fetching.frame {roles : List Role} {flow : Flow} {m m' : Machine} {es : List CpuEvent}
    (h : Fetching roles flow m m' es) : Frame m m' es := by
  obtain ⟨m₁, es₁, es₂, hread, hframe, -, rfl⟩ := h
  exact hread.frame.append hframe

/-- **Trail**: the operands, and then the end of the instruction. -/
theorem Fetching.trail_eq {roles : List Role} {flow : Flow} {m m' : Machine}
    {es : List CpuEvent} (h : Fetching roles flow m m' es) :
    ∃ m₁ tail, trail es = stream m.aram m.cpu.pc roles ++ tail ∧ flow.Ends m₁ m' tail ∧
      m₁.aram = m.aram ∧ m₁.cpu.pc = m.cpu.pc + BitVec.ofNat 16 (size roles) := by
  obtain ⟨m₁, es₁, es₂, hread, -, hends, rfl⟩ := h
  exact ⟨m₁, trail es₂, by rw [trail_append, hread.trail_eq], hends, hread.aram, hread.pc⟩

section Judgements

variable {α β : Type}

/-- The computation fetches operands and stores nothing. -/
def Reads (roles : List Role) (x : Insn α) : Prop :=
  x.Does (fun m _ m' es => Reading roles m m' es) Aborts

/-- The computation is the end of an instruction. -/
def Ends (flow : Flow) (x : Insn α) : Prop :=
  x.Does (fun m _ m' es => Frame m m' es ∧ flow.Ends m m' (trail es)) Aborts

/-- The computation is the end of a branch. -/
def BranchesTo (disp : Byte) (x : Insn α) : Prop :=
  x.Does (fun m _ m' es => Frame m m' es ∧ BranchEnds disp m m' (trail es)) Aborts

/-- The computation is an instruction. -/
def Fetches (roles : List Role) (flow : Flow) (x : Insn α) : Prop :=
  x.Does (fun m _ m' es => Fetching roles flow m m' es) Aborts

variable {x : Insn α} {f : α → Insn β} {roles roles' : List Role} {flow : Flow} {disp : Byte}

theorem Aborts.prepend {es es' : List CpuEvent} (h : Aborts es') (hes : NoClocks es) :
    Aborts (es ++ es') where
  last := by
    obtain ⟨es₁, e, rfl, he⟩ := h.last
    exact ⟨es ++ es₁, e, (List.append_assoc ..).symm, he⟩
  clocks := hes.append h.clocks

theorem Reads.bind (hx : Reads roles x) (hf : ∀ a, Reads roles' (f a)) :
    Reads (roles ++ roles') (x >>= f) :=
  Program.Does.bind hx hf (fun _ _ _ _ _ h hstop => hstop.prepend h.frame.clocks)
    (fun _ _ _ _ _ _ _ h h' => h.append h')

/-- **Operands**: an instruction may start with a part that fetches operands. -/
theorem Reads.bind_fetches (hx : Reads roles x) (hf : ∀ a, Fetches roles' flow (f a)) :
    Fetches (roles ++ roles') flow (x >>= f) := by
  refine Program.Does.bind hx hf (fun _ _ _ _ _ h hstop => hstop.prepend h.frame.clocks) ?_
  rintro m a m₁ b m' es es' h ⟨m₂, es₁, es₂, h', hframe, hends, rfl⟩
  exact ⟨m₂, es ++ es₁, es₂, h.append h', hframe, hends, (List.append_assoc ..).symm⟩

/-- **End**: an instruction ends after its operands. -/
theorem Ends.fetches {x : Insn α} (hx : Ends flow x) : Fetches [] flow x :=
  hx.mono fun m _ _ es h => ⟨m, [], es,
    ⟨⟨noClocks_nil, fun _ => rfl⟩, rfl, rfl, (BitVec.add_zero _).symm⟩,
    h.1, h.2, rfl⟩

/-- What fetches no operands may also be a part of the end. -/
theorem Reads.bind_ends (hx : Reads [] x) (hf : ∀ a, Ends flow (f a)) : Ends flow (x >>= f) := by
  refine Program.Does.bind hx hf (fun _ _ _ _ _ h hstop => hstop.prepend h.frame.clocks) ?_
  rintro m a m₁ b m' es es' h ⟨hframe, hends⟩
  have hpc : m₁.cpu.pc = m.cpu.pc := h.pc.trans (BitVec.add_zero _)
  refine ⟨h.frame.append hframe, ?_⟩
  rw [trail_append, h.trail_eq, stream, List.nil_append]
  cases flow <;> simp only [Flow.Ends, BranchEnds, hpc, h.aram] at hends ⊢ <;> exact hends

theorem Reads.fetches (hx : Reads roles x) (hf : ∀ a, Ends flow (f a)) :
    Fetches roles flow (x >>= f) := by
  rw [← List.append_nil roles]
  exact hx.bind_fetches fun a => (hf a).fetches

theorem Ends.bind (hx : Ends .straight x) (hf : ∀ a, Ends .straight (f a)) :
    Ends .straight (x >>= f) := by
  refine Program.Does.bind hx hf (fun _ _ _ _ _ h hstop => hstop.prepend h.1.clocks) ?_
  rintro m a m₁ b m' es es' ⟨hframe, htrail, hpc⟩ ⟨hframe', htrail', hpc'⟩
  exact ⟨hframe.append hframe', by rw [trail_append, htrail, htrail']; rfl, hpc'.trans hpc⟩

theorem Ends.bind_branchesTo (hx : Ends .straight x) (hf : ∀ a, BranchesTo disp (f a)) :
    BranchesTo disp (x >>= f) := by
  refine Program.Does.bind hx hf (fun _ _ _ _ _ h hstop => hstop.prepend h.1.clocks) ?_
  rintro m a m₁ b m' es es' ⟨hframe, htrail, hpc⟩ ⟨hframe', hends⟩
  refine ⟨hframe.append hframe', ?_⟩
  rw [BranchEnds, hpc] at hends
  rw [trail_append, htrail, List.nil_append]
  exact hends

theorem BranchesTo.bind (hx : BranchesTo disp x) (hf : ∀ a, Ends .straight (f a)) :
    BranchesTo disp (x >>= f) := by
  refine Program.Does.bind hx hf (fun _ _ _ _ _ h hstop => hstop.prepend h.1.clocks) ?_
  rintro m a m₁ b m' es es' ⟨hframe, hends⟩ ⟨hframe', htrail', hpc'⟩
  refine ⟨hframe.append hframe', ?_⟩
  rw [trail_append, htrail', List.append_nil, BranchEnds, hpc']
  exact hends

-- ════════════════════════════════════════════════════════════════════════
-- The parts of an instruction
-- ════════════════════════════════════════════════════════════════════════

/-- A part that fetches one operand. -/
theorem reads_of_exec {role : Role} {x : Insn α} (val : Machine → α)
    (h : ∀ m, Program.exec x m = ⟨some (val m, { m with
      cpu := { m.cpu with pc := m.cpu.pc + BitVec.ofNat 16 role.size } }),
      role.events m.aram m.cpu.pc⟩) : Reads [role] x := by
  refine Program.Does.of_exec h fun m => ?_
  have htrail : trail (role.events m.aram m.cpu.pc) = role.events m.aram m.cpu.pc := by
    cases role <;> rfl
  have hmem : ∀ e ∈ role.events m.aram m.cpu.pc, e.inStream = true :=
    List.filter_eq_self.mp htrail
  refine ⟨⟨fun e he => absurd (hmem _ he) Bool.false_ne_true, fun _ => rfl⟩, ?_, rfl, ?_⟩
  · rw [htrail, stream, stream, List.append_nil]
  · rw [size_cons, size_nil, Nat.add_zero]

theorem reads_relative : Reads [.relative] relative :=
  reads_of_exec (fun m => m.aram m.cpu.pc) fun _ => rfl

theorem reads_immediate : Reads [.immediate] immediate :=
  reads_of_exec (fun m => m.aram m.cpu.pc) fun _ => rfl

theorem reads_directPageAs (place : Place) : Reads [.directPage place] (directPageAs place) :=
  reads_of_exec (fun m => directPageEffective (m.aram m.cpu.pc) m.cpu) fun _ => rfl

theorem reads_directPageX : Reads [.directPage .only] directPageX :=
  reads_of_exec (fun m => directPageEffective (m.aram m.cpu.pc + m.cpu.x) m.cpu) fun _ => rfl

/-- The word at an address. -/
theorem exec_fetchWord (m : Machine) :
    Program.exec fetchWord m =
      ⟨some (wordOf (m.aram (m.cpu.pc + 1)) (m.aram m.cpu.pc), { m with
        cpu := { m.cpu with pc := m.cpu.pc + BitVec.ofNat 16 2 } }),
        [.fetch m.cpu.pc, .fetch (m.cpu.pc + 1)]⟩ := by
  have htwo : m.cpu.pc + BitVec.ofNat 16 2 = m.cpu.pc + 1 + 1 :=
    (BitVec.add_assoc m.cpu.pc 1 1).symm
  rw [htwo]
  rfl

theorem reads_absolute : Reads [.absolute] absolute := by
  refine reads_of_exec (fun m => wordOf (m.aram (m.cpu.pc + 1)) (m.aram m.cpu.pc)) fun m => ?_
  rw [absolute, Program.exec_bind_of_returns (exec_fetchWord m)]
  rfl

theorem reads_bitaddr : Reads [.bitaddr] bitaddr := by
  refine reads_of_exec
    (fun m => bitaddrInit (wordOf (m.aram (m.cpu.pc + 1)) (m.aram m.cpu.pc))) fun m => ?_
  rw [bitaddr, Program.exec_bind_of_returns (exec_fetchWord m)]
  rfl

/-- A computation on the registers that leaves the program counter alone. -/
theorem reads_onCpu {x : Alu α} (h : KeepsPc x) : Reads [] (onCpu x) := by
  refine Program.Does.of_exec (fun _ => rfl) fun m => ?_
  exact ⟨⟨noClocks_nil, fun _ => rfl⟩, rfl, rfl,
    (h m.cpu).trans (BitVec.add_zero _).symm⟩

theorem reads_pure (a : α) : Reads [] (pure a : Insn α) :=
  Program.Does.pure fun _ => ⟨⟨noClocks_nil, fun _ => rfl⟩, rfl, rfl, (BitVec.add_zero _).symm⟩

theorem reads_getCpu : Reads [] getCpu := reads_onCpu fun _ => rfl

theorem exec_memLoad (addr : Word) (m : Machine) :
    Program.exec (memLoad addr) m = ⟨SpuKit.memLoad .fast addr m, [.load addr]⟩ := rfl

theorem exec_memStore (addr : Word) (byte : Byte) (m : Machine) :
    Program.exec (memStore addr byte) m =
      ⟨SpuKit.memStore .fast addr byte m, [.store addr byte]⟩ := rfl

/-- A load may be a part of fetching an operand. -/
theorem reads_memLoad (addr : Word) : Reads [] (memLoad addr) where
  returns {m byte m' es} hret := by
    obtain ⟨hload, rfl⟩ := Traced.mk.inj hret
    obtain ⟨hcpu, haram⟩ := memLoad_keeps hload
    refine ⟨⟨noClocks_singleton fun _ => CpuEvent.noConfusion, fun havoid => ?_⟩, rfl, haram, ?_⟩
    · have hmmio := havoid _ (List.mem_singleton_self _) _ rfl
      rw [memLoad_of_not_mmio hmmio hload]
    · rw [hcpu]
      exact (BitVec.add_zero _).symm
  stops {m es} hstop := by
    obtain ⟨hload, rfl⟩ := Traced.mk.inj hstop
    obtain ⟨rfl, -⟩ := memLoad_eq_none hload
    exact ⟨⟨[], _, rfl, rfl⟩, noClocks_singleton fun _ => CpuEvent.noConfusion⟩

theorem ends_memStore (addr : Word) (byte : Byte) : Ends .straight (memStore addr byte) where
  returns {m u m' es} hret := by
    obtain ⟨hstore, rfl⟩ := Traced.mk.inj hret
    refine ⟨⟨noClocks_singleton fun _ => CpuEvent.noConfusion, fun havoid => ?_⟩, rfl, ?_⟩
    · have hmmio := havoid _ (List.mem_singleton_self _) _ rfl
      rw [memStore_of_not_mmio hmmio hstore]
    · rw [memStore_cpu hstore]
  stops {m es} hstop := by
    obtain ⟨hstore, rfl⟩ := Traced.mk.inj hstop
    obtain ⟨rfl, -⟩ := memStore_eq_none hstore
    exact ⟨⟨[], _, rfl, rfl⟩, noClocks_singleton fun _ => CpuEvent.noConfusion⟩

/-- What only fetches no operands and stores nothing is an end as well. -/
theorem Reads.ends {x : Insn α} (hx : Reads [] x) : Ends .straight x :=
  hx.mono fun _ _ _ _ h => ⟨h.frame, h.trail_eq, h.pc.trans (BitVec.add_zero _)⟩

theorem ends_onCpu {x : Alu α} (h : KeepsPc x) : Ends .straight (onCpu x) := (reads_onCpu h).ends

theorem exec_branch (disp : Byte) (m : Machine) :
    Program.exec (branch disp) m =
      ⟨some ((), { m with cpu := { m.cpu with pc := m.cpu.pc + disp.signExtend 16 } }),
        [.branchTaken]⟩ := rfl

theorem branchesTo_branch (disp : Byte) : BranchesTo disp (branch disp) := by
  refine Program.Does.of_exec (exec_branch disp) fun m => ?_
  exact ⟨⟨noClocks_singleton fun _ => CpuEvent.noConfusion, fun _ => rfl⟩, Or.inr ⟨rfl, rfl⟩⟩

theorem Ends.branchesTo {x : Insn α} (hx : Ends .straight x) : BranchesTo disp x :=
  hx.mono fun _ _ _ _ h => ⟨h.1, Or.inl h.2⟩

theorem ends_pure (a : α) : Ends .straight (pure a : Insn α) :=
  Program.Does.pure fun _ => ⟨⟨noClocks_nil, fun _ => rfl⟩, rfl, rfl⟩

theorem branchesTo_branchWhen (taken : Bool) (disp : Byte) :
    BranchesTo disp (branchWhen taken disp) := by
  cases taken with
  | true => exact branchesTo_branch disp
  | false => exact (ends_pure ()).branchesTo

/-- **Branch**: what follows the displacement is the end of the branch. -/
theorem fetches_relative {f : Byte → Insn β} (hf : ∀ disp, BranchesTo disp (f disp)) :
    Fetches [.relative] .branch (relative >>= f) where
  returns {m b m' es} hret := by
    obtain ⟨disp, m₁, es₁, es₂, hdisp, hf₁, rfl⟩ := Program.returns_bind.mp hret
    have hread := reads_relative.returns hdisp
    obtain ⟨hframe, hends⟩ := (hf disp).returns hf₁
    obtain ⟨rfl, -, -⟩ := Program.Returns.unique (x := relative) (s := m) rfl hdisp
    refine ⟨m₁, es₁, es₂, hread, hframe, ?_, rfl⟩
    have hlast : m₁.aram (m₁.cpu.pc - 1) = m.aram m.cpu.pc := by
      rw [hread.aram, hread.pc]
      exact congrArg m.aram (BitVec.add_sub_cancel m.cpu.pc 1)
    rw [Flow.Ends, hlast]
    exact hends
  stops {m es} hstop := by
    obtain h | ⟨disp, m₁, es₁, es₂, hdisp, hf₁, rfl⟩ := Program.stops_bind.mp hstop
    · exact reads_relative.stops h
    · exact ((hf disp).stops hf₁).prepend (reads_relative.returns hdisp).frame.clocks

end Judgements

end SpuKit.Spc700
