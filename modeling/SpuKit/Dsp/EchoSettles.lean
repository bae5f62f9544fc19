import SpuKit.Dsp.EchoDelay
import SpuKit.Lib.Counted

/-!
# The echo unit follows its registers

A store to ESA reaches the echo unit with the next sample, one to EDL only when
the offset is back at the start of the buffer. The longest buffer has 7680
slots, so after 7680 samples in which nobody touches the echo unit its latches
are those of the registers, however the buffer was set up before. From then on
the buffer is a delay line.

## Main definitions

- `samplesLeft` — the samples until the unit has latched both registers
- `EchoSettling` — the unit has latched them or is that far from it

## Main results

- `EchoSettling.run` — the latches after any 7680 samples
- `echo_settles` — the delay line after them
-/

namespace SpuKit

/-- The samples until ESA and EDL are latched: those of the rest of the buffer,
    and the one at its start. -/
def samplesLeft (d : Dsp) : Nat :=
  if d.echoOffset = 0 then 1 else (d.echoLength.toNat - d.echoOffset.toNat) / 4 + 1

theorem EchoCursor.samplesLeft_le {d : Dsp} (h : EchoCursor d) : samplesLeft d ≤ 0x1e00 := by
  have hlen := h.length_le
  have haligned := h.aligned
  rw [samplesLeft]
  split
  · decide
  · next hne =>
    have hpos : d.echoOffset.toNat ≠ 0 := fun h0 => hne (BitVec.eq_of_toNat_eq h0)
    omega

/-- Nobody has touched the echo unit, and the registers are latched or will be
    after so many samples. -/
structure EchoSettling (regs : Regs) (left : Nat) (d : Dsp) : Prop where
  esa_reg : d.regs regEsa = regs regEsa
  edl_reg : d.regs regEdl = regs regEdl
  flg_reg : d.regs regFlg = regs regFlg
  cursor : EchoCursor d
  latched : EchoRunning regs d ∨ samplesLeft d ≤ left

namespace EchoSettling

variable {regs : Regs} {left : Nat} {d : Dsp}

theorem start (h : EchoCursor d) : EchoSettling d.regs 0x1e00 d :=
  ⟨rfl, rfl, rfl, h, Or.inr h.samplesLeft_le⟩

theorem settled (h : EchoSettling regs 0 d) : EchoRunning regs d := by
  have hpos : 0 < samplesLeft d := by
    rw [samplesLeft]
    split <;> omega
  exact h.latched.resolve_right (by omega)

/-- **Step**: a sample at the start of the buffer latches both registers, and
    any other is one of those left. -/
theorem sample (m : Mem) (h : EchoSettling regs left d) :
    EchoSettling regs (left - 1) (nextSample m d).val.2.2 := by
  have hesa : (nextSample m d).val.2.2.regs regEsa = regs regEsa := by
    rw [nextSample_regs m d control_esa, h.esa_reg]
  have hedl : (nextSample m d).val.2.2.regs regEdl = regs regEdl := by
    rw [nextSample_regs m d control_edl, h.edl_reg]
  have hflg : (nextSample m d).val.2.2.regs regFlg = regs regFlg := by
    rw [nextSample_regs m d control_flg, h.flg_reg]
  have hcursor := h.cursor.nextSample m
  refine ⟨hesa, hedl, hflg, hcursor, ?_⟩
  rcases h.latched with hrunning | hleft
  · exact Or.inl (hrunning.sample m).1
  have hoffset := nextOffset_toNat d.echoLength h.cursor.offset_le
  by_cases hzero : d.echoOffset = 0
  · -- the start of the buffer
    left
    have hlength : (nextSample m d).val.2.2.echoLength.toNat = echoBytes regs := by
      rw [nextSample_echoLength, latchedLength_toNat, if_pos hzero, echoBytes_congr h.edl_reg]
    refine ⟨hesa, hedl, hflg, ?_, hlength, hcursor.aligned, ?_⟩
    · rw [nextSample_esa, h.esa_reg]
    · rw [← hlength]
      exact hcursor.inside
  · right
    have hlength : latchedLength d.regs d.echoOffset d.echoLength = d.echoLength :=
      if_neg hzero
    have hpos : d.echoOffset.toNat ≠ 0 := fun h0 => hzero (BitVec.eq_of_toNat_eq h0)
    have haligned := h.cursor.aligned
    have hchunks := h.cursor.chunks
    have hinside := h.cursor.inside.resolve_left hzero
    rw [samplesLeft, if_neg hzero] at hleft
    rw [samplesLeft, nextSample_echoOffset, nextSample_echoLength, hlength]
    split
    · next hnext =>
      -- the last slot of the buffer
      rw [hnext] at hoffset
      split at hoffset <;> omega
    · next hnext =>
      rw [hoffset]
      split
      · omega
      · next hlast =>
        rw [if_neg hlast] at hoffset
        exact absurd (BitVec.eq_of_toNat_eq hoffset) hnext

/-- What is not a sample and leaves the echo unit alone changes none of this. -/
theorem step {op : Op} (hsample : op.isSample = false) {w : World}
    (h : EchoSettling regs left w.dsp) (hleaves : LeavesEcho w (w.step op).val) :
    EchoSettling regs left (w.step op).val.dsp := by
  have hne : op ≠ .sample := by
    rintro rfl
    simp [Op.isSample] at hsample
  obtain ⟨-, hdsp⟩ := World.step_of_ne_sample w hne
  obtain ⟨hesa, hedl, hflg, -⟩ := id hleaves
  refine ⟨hesa.trans h.esa_reg, hedl.trans h.edl_reg, hflg.trans h.flg_reg, ?_, ?_⟩
  · rw [hdsp]
    exact ⟨h.cursor.aligned, h.cursor.inside, h.cursor.chunks, h.cursor.length_le⟩
  · rcases h.latched with hrunning | hleft
    · exact Or.inl (hrunning.step hsample hleaves).1
    · right
      rw [hdsp]
      exact hleft

/-- **Run**: after 7680 samples in which nobody touches the echo unit the
    registers are latched. -/
theorem run {ops : List Op} {w : World} (h : EchoCursor w.dsp) (hrun : Undisturbed ops w)
    (hlen : 0x1e00 ≤ ops.countP Op.isSample) : EchoRunning w.dsp.regs (runOps ops w).val.dsp := by
  refine settled (StepSystem.run_settles (I := fun n w' => EchoSettling w.dsp.regs n w'.dsp)
    ?_ ?_ hrun (start h) hlen)
  · intro op w' n hsample hleaves hsettling
    exact hsettling.step hsample (hleaves hsample)
  · intro op w' n hsample _ hsettling
    obtain rfl : op = .sample := by cases op <;> simp_all [Op.isSample]
    rw [World.step_sample_dsp]
    exact hsettling.sample w'.mem

end EchoSettling

/-- **The echo unit settles.** From every reachable state, however the echo
    buffer was set up before: after any 7680 samples that leave ESA, EDL, FLG and
    the buffer to the DSP, the pair that sample `t` writes back is the one that
    sample `t + slots` reads. -/
theorem echo_settles {w : World} (h : Reachable w) (hwrites : EchoWrites w.dsp.regs)
    {pre post : List Op} (hrun : Undisturbed (pre ++ post) w)
    (hpre : 0x1e00 ≤ pre.countP Op.isSample) {t : Nat}
    (ht : t + slots w.dsp.regs < post.countP Op.isSample) :
    ∃ io io', (echoIo post (runOps pre w).val)[t]? = some io ∧
      (echoIo post (runOps pre w).val)[t + slots w.dsp.regs]? = some io' ∧ io'.1 = io.2 := by
  obtain ⟨hfirst, hrest⟩ := hrun.of_append
  have hrunning := EchoSettling.run h.echoCursor hfirst hpre
  have hdelay := (echoIo_isDelay hwrites hrunning hrest).read_eq_write (t := t)
    (by rwa [Ring.length_contents, echoIo_length])
  simp only [Ring.length_contents] at hdelay
  rw [← echoIo_length post (runOps pre w).val] at ht
  exact ⟨_, _, List.getElem?_eq_getElem (by omega), List.getElem?_eq_getElem ht, hdelay⟩

/-- A restored process whose buffer has 512 slots. -/
theorem echo_settles_restored :
    let w : World := ⟨⟨fun _ => 0x20, fun _ => 0⟩, dspRestore echoFedBack .zero⟩
    slots w.dsp.regs = 512 ∧
      ∃ io io', (echoIo (List.replicate 513 .sample)
          (runOps (List.replicate 0x1e00 .sample) w).val)[0]? = some io ∧
        (echoIo (List.replicate 513 .sample)
          (runOps (List.replicate 0x1e00 .sample) w).val)[0 + slots w.dsp.regs]? = some io' ∧
        io'.1 = io.2 :=
  ⟨by decide, echo_settles (w := ⟨⟨fun _ => 0x20, fun _ => 0⟩, dspRestore echoFedBack .zero⟩)
    ⟨_, [.restore echoFedBack], rfl⟩ (by decide)
    (by rw [List.replicate_append_replicate]; exact undisturbed_samples _ _)
    (by rw [List.countP_replicate]; decide) (by rw [List.countP_replicate]; decide)⟩

end SpuKit
