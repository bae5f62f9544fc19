import SpuKit.Dsp.Echo

/-!
# Where the echo unit writes

After a restore the echo unit still has the page and the offset of the process
before it, which are 0 in a fresh process: the first sample writes its pair at
address 0, and ESA is latched only then. From the second sample on every pair
lies in the buffer that ESA and EDL describe. This file proves both halves: the
region bound for all samples when the first one is harmless, and a run in which
it is not.

## Main definitions

- `Op.storesEcho` — the operations that write ESA or EDL
- `InEchoRegion` — the buffer ESA and EDL describe, wrapping at 64 KiB
- `EchoRegionCoversZero`, `QuietFirstSample` — the first sample is harmless

## Main results

- `echo_writes_in_region` — every changed byte lies in the buffer
- `first_pair_outside_region` — a restored process that changes byte 0
-/

namespace SpuKit

/-- The operations that write ESA or EDL. -/
def Op.storesEcho : Op → Bool
  | .store addr _ => addr == regEsa || addr == regEdl
  | .restore _ => true
  | .reset => true
  | _ => false

/-- The first byte of the echo buffer. -/
def echoBase (regs : Regs) : Word := (regs regEsa).setWidth 16 * 0x100

/-- The echo buffer: at least one pair from the page ESA names. -/
def InEchoRegion (regs : Regs) (addr : Word) : Prop :=
  (addr - echoBase regs).toNat < max 4 (echoBytes regs)

/-- The buffer starts at address 0, or wraps around to it. -/
def EchoRegionCoversZero (regs : Regs) : Prop :=
  regs regEsa = 0 ∨ 0x10004 ≤ (echoBase regs).toNat + max 4 (echoBytes regs)

/-- FLG disables echo writes at the first sample of a run. -/
def QuietFirstSample (ops : List Op) (w : World) : Prop :=
  ∀ pre post, ops = pre ++ .sample :: post → (∀ op ∈ pre, op.isSample = false) →
    ¬ EchoWrites (runOps pre w).val.dsp.regs

section Region

variable {regs : Regs}

/-- An offset inside the buffer is at most 30 KiB. -/
theorem offset_le_of_inside {offset : Word}
    (h : offset = 0 ∨ offset.toNat < echoBytes regs) : offset.toNat ≤ 0x7800 := by
  have hbytes := echoBytes_bounds regs
  rcases h with h | h
  · rw [h]
    decide
  · omega

/-- The pair at a slot of the buffer lies in the buffer. -/
theorem inEchoRegion_slot {offset : Word} (haligned : offset.toNat % 4 = 0)
    (hinside : offset = 0 ∨ offset.toNat < echoBytes regs) (k : Fin 4) :
    InEchoRegion regs (echoBase regs + offset + BitVec.ofNat 16 k) := by
  have hbytes := echoBytes_bounds regs
  have hsub : echoBase regs + offset + BitVec.ofNat 16 k - echoBase regs =
      offset + BitVec.ofNat 16 k := by
    rw [BitVec.add_assoc, BitVec.add_comm (echoBase regs), BitVec.add_sub_cancel]
  have hle := offset_le_of_inside hinside
  have hadd : (offset + BitVec.ofNat 16 k).toNat = offset.toNat + k := by
    rw [BitVec.toNat_add, BitVec.toNat_ofNat]
    omega
  have hinside' : offset.toNat = 0 ∨ offset.toNat < echoBytes regs :=
    hinside.imp_left fun h => by rw [h]; rfl
  rw [InEchoRegion, hsub, hadd]
  omega

/-- The first four bytes of audio RAM lie in a buffer that covers them. -/
theorem inEchoRegion_zero (h : EchoRegionCoversZero regs) (k : Fin 4) :
    InEchoRegion regs (BitVec.ofNat 16 k) := by
  have hk : (BitVec.ofNat 16 k.val).toNat = k.val := by
    rw [BitVec.toNat_ofNat]
    omega
  rw [InEchoRegion]
  rw [BitVec.toNat_sub, hk]
  rcases h with h | h
  · have hbase : (echoBase regs).toNat = 0 := by
      rw [echoBase, h]
      rfl
    omega
  · have := (echoBase regs).isLt
    omega

end Region

/-- What holds between the samples of a run that leaves ESA and EDL alone: the
    offset is that of the buffer, and the page is latched from the first sample
    on. -/
structure EchoLatched (saved : Regs) (started : Bool) (d : Dsp) : Prop where
  esa_reg : d.regs regEsa = saved regEsa
  edl_reg : d.regs regEdl = saved regEdl
  aligned : d.echoOffset.toNat % 4 = 0
  inside : d.echoOffset = 0 ∨ d.echoOffset.toNat < echoBytes saved
  length : d.echoOffset = 0 ∨ d.echoLength.toNat = echoBytes saved
  esa : d.esa = if started then saved regEsa else 0
  offset : started = false → d.echoOffset = 0

section Latched

variable {saved : Regs} {started : Bool}

theorem echoBytes_congr {regs : Regs} (h : regs regEdl = saved regEdl) :
    echoBytes regs = echoBytes saved := by
  rw [echoBytes, echoBytes, h]

theorem EchoLatched.restore (saved : Regs) : EchoLatched saved false (dspRestore saved .zero) :=
  ⟨rfl, rfl, rfl, Or.inl rfl, Or.inl rfl, rfl, fun _ => rfl⟩

/-- A sample latches the page and moves the offset on inside the buffer. -/
theorem EchoLatched.sample (m : Mem) {d : Dsp} (h : EchoLatched saved started d) :
    EchoLatched saved true (nextSample m d).val.2.2 := by
  have hlen : (latchedLength d.regs d.echoOffset d.echoLength).toNat = echoBytes saved := by
    rw [latchedLength_toNat, echoBytes_congr h.edl_reg]
    split
    · rfl
    · next hne => exact h.length.resolve_left hne
  have hle := offset_le_of_inside h.inside
  refine ⟨?_, ?_, ?_, ?_, ?_, ?_, fun hs => absurd hs (by decide)⟩
  · rw [nextSample_regs m d control_esa, h.esa_reg]
  · rw [nextSample_regs m d control_edl, h.edl_reg]
  · rw [nextSample_echoOffset]
    exact nextOffset_aligned _ hle h.aligned
  · rw [nextSample_echoOffset, ← hlen]
    exact nextOffset_inside _ hle
  · rw [nextSample_echoLength]
    exact Or.inr hlen
  · rw [nextSample_esa, h.esa_reg]
    rfl

theorem EchoLatched.step {op : Op} (hop : op.storesEcho = false) (hsample : op.isSample = false)
    {w : World} (h : EchoLatched saved started w.dsp) :
    EchoLatched saved started (w.step op).val.dsp := by
  cases op with
  | store addr byte =>
    have hesa : regEsa ≠ addr := fun he => by simp [Op.storesEcho, he] at hop
    have hedl : regEdl ≠ addr := fun he => by simp [Op.storesEcho, he] at hop
    have hstore : ∀ r, r ≠ addr → r ≠ regEndx → store w.dsp.regs addr byte r = w.dsp.regs r := by
      intro r hr hendx
      rw [store]
      split
      · exact Function.update_of_ne hendx ..
      · exact Function.update_of_ne hr ..
    exact ⟨(hstore _ hesa (by decide)).trans h.esa_reg, (hstore _ hedl (by decide)).trans h.edl_reg,
      h.aligned, h.inside, h.length, h.esa, h.offset⟩
  | poke mem => exact ⟨h.esa_reg, h.edl_reg, h.aligned, h.inside, h.length, h.esa, h.offset⟩
  | restore saved' => simp [Op.storesEcho] at hop
  | reset => simp [Op.storesEcho] at hop
  | sample => simp [Op.isSample] at hsample

/-- A run latches the page once it has a sample. -/
theorem EchoLatched.run {ops : List Op} (hops : ∀ op ∈ ops, op.storesEcho = false) {w : World}
    (h : EchoLatched saved started w.dsp) :
    EchoLatched saved (started || ops.any Op.isSample) (runOps ops w).val.dsp := by
  induction ops generalizing w started with
  | nil => simpa using h
  | cons op ops ih =>
    obtain ⟨hop, hrest⟩ := List.forall_mem_cons.mp hops
    rw [runOps_cons_val, List.any_cons]
    cases hsample : op.isSample with
    | false =>
      rw [Bool.false_or]
      exact ih hrest (h.step hop hsample)
    | true =>
      obtain rfl : op = .sample := by cases op <;> simp_all [Op.isSample]
      have hstep : EchoLatched saved true (w.step .sample).val.dsp := by
        rw [World.step_sample_dsp]
        exact h.sample w.mem
      simpa using ih hrest hstep

end Latched

/-- **Echo writes stay in the echo buffer.** In a run of a fresh process that
    restored a snapshot and writes neither ESA nor EDL afterwards, every byte of
    audio RAM that any sample changes lies in the buffer ESA and EDL describe,
    provided that the first sample finds echo writes disabled or the buffer
    covers the first four bytes of audio RAM. -/
theorem echo_writes_in_region (saved : Regs) (m : Mem) (ops : List Op)
    (hops : ∀ op ∈ ops, op.storesEcho = false)
    (hfirst : QuietFirstSample ops ⟨m, dspRestore saved .zero⟩ ∨ EchoRegionCoversZero saved)
    (pre post : List Op) (hsplit : ops = pre ++ .sample :: post) (addr : Word)
    (hchanged : (nextSample (runOps pre ⟨m, dspRestore saved .zero⟩).val.mem
        (runOps pre ⟨m, dspRestore saved .zero⟩).val.dsp).val.2.1.aram addr ≠
      (runOps pre ⟨m, dspRestore saved .zero⟩).val.mem.aram addr) :
    InEchoRegion saved addr := by
  have hpre : ∀ op ∈ pre, op.storesEcho = false := fun op hop => hops op (by simp [hsplit, hop])
  have hlatched := (EchoLatched.restore saved).run (w := ⟨m, dspRestore saved .zero⟩) hpre
  generalize hw : (runOps pre ⟨m, dspRestore saved .zero⟩).val = w at hchanged hlatched
  rw [nextSample_mem] at hchanged
  have hwrites : EchoWrites w.dsp.regs := by
    by_contra hno
    rw [if_neg hno] at hchanged
    exact hchanged rfl
  rw [if_pos hwrites] at hchanged
  obtain ⟨k, rfl⟩ : ∃ k : Fin 4, addr = echoPointer w.dsp + BitVec.ofNat 16 k := by
    by_contra hfar
    exact hchanged (writePair_aram_of_ne _ _ _ fun k hk => hfar ⟨k, hk⟩)
  cases hstarted : pre.any Op.isSample with
  | true =>
    rw [hstarted] at hlatched
    rw [echoPointer, hlatched.esa]
    exact inEchoRegion_slot hlatched.aligned hlatched.inside k
  | false =>
    rw [hstarted] at hlatched
    have hnone : ∀ op ∈ pre, op.isSample = false := by
      simpa using hstarted
    have hptr : echoPointer w.dsp + BitVec.ofNat 16 k = BitVec.ofNat 16 k := by
      rw [echoPointer, hlatched.esa, hlatched.offset rfl]
      simp
    rw [hptr]
    rcases hfirst with hquiet | hcovers
    · exact absurd (hw ▸ hwrites) (hquiet pre post hsplit hnone)
    · exact inEchoRegion_zero hcovers k

/-- A snapshot whose echo buffer is the page at 0x100. -/
def echoPageOne : Regs := Function.update (fun _ => 0) regEsa 1

/-- Audio RAM that holds a single 1, at address 0. -/
def firstByteSet : Mem where
  aram addr := if addr = 0 then 1 else 0
  beyond _ := 0

/-- With the buffer at page 0 the first pair lies in it. -/
theorem echo_writes_in_region_page_zero :
    InEchoRegion (fun _ => 0) 0 :=
  echo_writes_in_region (fun _ => 0) firstByteSet [.sample] (by decide) (Or.inr (Or.inl rfl))
    [] [] rfl 0 (by decide +kernel)

/-- A restored process can change a byte outside of the buffer that ESA and EDL
    describe: its first sample writes silence over byte 0. -/
theorem first_pair_outside_region :
    ¬ ∀ (saved : Regs) (m : Mem) (ops : List Op), (∀ op ∈ ops, op.storesEcho = false) →
      ∀ pre post, ops = pre ++ .sample :: post → ∀ addr,
        (nextSample (runOps pre ⟨m, dspRestore saved .zero⟩).val.mem
            (runOps pre ⟨m, dspRestore saved .zero⟩).val.dsp).val.2.1.aram addr ≠
          (runOps pre ⟨m, dspRestore saved .zero⟩).val.mem.aram addr →
        InEchoRegion saved addr := by
  intro h
  have hregion := h echoPageOne firstByteSet [.sample] (by decide) [] [] rfl 0 (by decide +kernel)
  unfold InEchoRegion at hregion
  revert hregion
  decide

end SpuKit
