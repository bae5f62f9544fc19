import SpuKit.Dsp.SampleSpec

/-!
# One voice on its own

While the echo unit writes nothing, a voice does not notice the rest of the
DSP: running only that voice gives it the same state and the same events. A run
of one voice evaluates where a run of the whole DSP is too large, and what it
shows carries over.

The second part says what the next call of a voice will do in terms of the
state before the sample alone.

## Main definitions

- `World.soloStep`, `soloRun` — runs in which only one voice is called
- `PollsKeyOn`, `PollsKeyOff` — the keys the next sample will poll
- `GoesSilent`, `DecodesGroup` — what the next call will do

## Main results

- `soloRun_spec` — a voice alone does what it does in the whole DSP
- `decodeDue_ticked_iff` — when the next call decodes
-/

namespace SpuKit

/-- One operation, calling no voice but `i` and leaving the echo out. -/
def World.soloStep (i : Channel) : Op → World → Traced VoiceEvent World
  | .sample, w => (fun r => { w with dsp := r.2 }) <$> voiceRun w.mem i (ticked w.dsp)
  | op, w => pure (w.step op).val

/-- A run in which no voice but `i` is called. -/
def soloRun (i : Channel) (ops : List Op) (w : World) : Traced VoiceEvent World :=
  StepSystem.run (World.soloStep i) ops w

/-- FLG keeps the echo unit from writing at every sample of a run. -/
def EchoQuiet (i : Channel) (ops : List Op) (w : World) : Prop :=
  StepSystem.Along (World.soloStep i)
    (fun op w => op.isSample = true → ¬ EchoWrites w.dsp.regs) ops w

instance (i : Channel) (ops : List Op) (w : World) : Decidable (EchoQuiet i ops w) :=
  inferInstanceAs (Decidable (StepSystem.Along ..))

section Solo

variable {i : Channel}

theorem SameVoice.ticked {d d' : Dsp} (h : SameVoice i d d') :
    SameVoice i (ticked d) (ticked d') := by
  have hkon := h.regs regKon (by decide)
  have hkoff := h.regs regKoff (by decide)
  refine ⟨?_, ?_, ?_, ?_, ?_, ?_⟩
  · intro r hr
    rw [ticked_regs, ticked_regs, h.regs r hr]
  · simp only [SpuKit.ticked, pollKeys, h.toggle]
    cases d.toggle <;> simp only [h.ctr] <;> rfl
  · rw [ticked_kon, ticked_kon, h.toggle, hkon, h.kon]
  · simp only [SpuKit.ticked, pollKeys, h.toggle]
    cases d.toggle
    · exact h.koff
    · exact hkoff
  · rw [ticked_toggle, ticked_toggle, h.toggle]
  · rw [ticked_vstate, ticked_vstate, h.vstate]

theorem store_congr {regs regs' : Regs} (h : ∀ r, ControlReg r → regs' r = regs r)
    (addr : Fin 0x80) (byte : Byte) :
    ∀ r, ControlReg r → store regs' addr byte r = store regs addr byte r := by
  intro r hr
  unfold store
  split <;> simp only [Function.update_apply, h r hr]

theorem SameVoice.refl (i : Channel) (d : Dsp) : SameVoice i d d :=
  ⟨fun _ _ => rfl, rfl, rfl, rfl, rfl, rfl⟩

/-- A voice alone makes the step it makes inside the whole DSP. -/
theorem soloStep_spec (op : Op) {w w' : World} (hmem : w'.mem = w.mem)
    (h : SameVoice i w.dsp w'.dsp) (hquiet : op.isSample = true → ¬ EchoWrites w.dsp.regs) :
    (w'.step op).val.mem = (w.soloStep i op).val.mem ∧
      SameVoice i (w.soloStep i op).val.dsp (w'.step op).val.dsp ∧
      voiceEvents i (w'.step op).events = (w.soloStep i op).events := by
  have hflg := h.regs regFlg (by decide)
  cases op with
  | store addr byte =>
    exact ⟨hmem, ⟨store_congr h.regs addr byte, h.ctr, h.kon, h.koff, h.toggle, h.vstate⟩, rfl⟩
  | poke mem => exact ⟨rfl, h, rfl⟩
  | restore saved =>
    exact ⟨hmem, ⟨fun _ _ => rfl, rfl, h.kon, h.koff, h.toggle, h.vstate⟩, rfl⟩
  | reset => exact ⟨hmem, ⟨fun _ _ => rfl, rfl, h.kon, h.koff, h.toggle, h.vstate⟩, rfl⟩
  | sample =>
    have htick := h.ticked
    have hframe := VoiceFrame.voiceRun w.mem i (SpuKit.ticked w.dsp)
    obtain ⟨hvstate, hevents⟩ := nextSample_voice w'.mem w'.dsp i
    obtain ⟨hval', hevents'⟩ := htick.voiceRun_congr w.mem
    have hquiet' : ¬ EchoWrites w'.dsp.regs := by
      rw [EchoWrites, hflg]
      exact hquiet rfl
    rw [World.step_sample_mem, World.step_sample_dsp, World.step_sample_events, nextSample_mem,
      if_neg hquiet', hevents, hmem, hevents']
    refine ⟨rfl, ⟨?_, ?_, ?_, ?_, ?_, ?_⟩, ?_⟩
    · intro r hr
      rw [nextSample_regs _ _ hr, h.regs r hr]
      exact ((hframe.regs r hr).trans (by rw [ticked_regs])).symm
    · rw [nextSample_ctr, htick.ctr]
      exact hframe.ctr.symm
    · rw [nextSample_kon, htick.kon]
      exact hframe.kon.symm
    · rw [nextSample_koff, htick.koff]
      exact hframe.koff.symm
    · rw [nextSample_toggle, ← ticked_toggle, htick.toggle]
      exact hframe.toggle.symm
    · rw [← hmem, hvstate, hmem, hval']
      rfl
    · exact (Traced.events_map _ _).symm

/-- **A voice alone** goes through the states and the events it goes through
    inside the whole DSP, as long as the echo unit writes nothing. -/
theorem soloRun_spec {ops : List Op} {w w' : World} (hmem : w'.mem = w.mem)
    (h : SameVoice i w.dsp w'.dsp) (hquiet : EchoQuiet i ops w) :
    (runOps ops w').val.mem = (soloRun i ops w).val.mem ∧
      SameVoice i (soloRun i ops w).val.dsp (runOps ops w').val.dsp ∧
      voiceEvents i (runOps ops w').events = (soloRun i ops w).events := by
  induction ops generalizing w w' with
  | nil => exact ⟨hmem, h, rfl⟩
  | cons op ops ih =>
    obtain ⟨hq, hqs⟩ := hquiet
    obtain ⟨hmem', h', hevents⟩ := soloStep_spec op hmem h hq
    obtain ⟨hmem'', h'', hevents'⟩ := ih hmem' h' hqs
    refine ⟨hmem'', h'', ?_⟩
    rw [runOps_cons_events, voiceEvents_append, hevents, hevents']
    rfl

/-- What every step of a run of one voice meets, every step of the whole DSP
    meets, if it only looks at memory and at what the voice depends on. -/
theorem soloRun_along {C C' : Op → World → Prop} (hC : ∀ op w w', w'.mem = w.mem →
      SameVoice i w.dsp w'.dsp → C op w → C' op w') {ops : List Op} {w w' : World}
    (hmem : w'.mem = w.mem) (h : SameVoice i w.dsp w'.dsp) (hquiet : EchoQuiet i ops w)
    (halong : StepSystem.Along (World.soloStep i) C ops w) :
    StepSystem.Along World.step C' ops w' := by
  induction ops generalizing w w' with
  | nil => trivial
  | cons op ops ih =>
    obtain ⟨hmem', h', -⟩ := soloStep_spec op hmem h hquiet.1
    exact ⟨hC op w w' hmem h halong.1, ih hmem' h' hquiet.2 halong.2⟩

theorem soloRun_mem {ops : List Op} (hops : ∀ op ∈ ops, op.isPoke = false) (w : World) :
    StepSystem.Along (World.soloStep i) (fun _ w' => w'.mem = w.mem) ops w ∧
      (soloRun i ops w).val.mem = w.mem := by
  suffices h : ∀ w', w'.mem = w.mem →
      StepSystem.Along (World.soloStep i) (fun _ w' => w'.mem = w.mem) ops w' ∧
        (soloRun i ops w').val.mem = w.mem from h w rfl
  induction ops with
  | nil => exact fun w' hw' => ⟨trivial, hw'⟩
  | cons op ops ih =>
    intro w' hw'
    obtain ⟨hop, hrest⟩ := List.forall_mem_cons.mp hops
    have hmem : (w'.soloStep i op).val.mem = w'.mem := by
      cases op with
      | poke mem => simp [Op.isPoke] at hop
      | _ => rfl
    obtain ⟨halong, hend⟩ := ih hrest _ (hmem.trans hw')
    exact ⟨⟨hw', halong⟩, hend⟩

/-- A process in which the echo unit writes nothing, seen from a voice. -/
theorem soloRun_events {ops : List Op} {w : World} (hquiet : EchoQuiet i ops w) :
    voiceEvents i (runOps ops w).events = (soloRun i ops w).events :=
  (soloRun_spec rfl (SameVoice.refl i _) hquiet).2.2

/-- A register file with KON set for voice 0 and echo writes disabled: the small
    processes below start from it. -/
def keyVoice0 : Regs := Function.update (Function.update (fun _ => 0) regKon 1) regFlg 0x20

/-- The operations that restore `keyVoice0` and take its key-on. -/
def keyOnOps : List Op := [.restore keyVoice0, .sample, .sample]

/-- The operations that take KON back and run the attack countdown. -/
def countdownOps : List Op := .store regKon 0 :: List.replicate 5 .sample

/-- Voice 0 keyed on, in a fresh process with the given audio RAM. -/
def keyedOn (m : Mem) : World := (runOps keyOnOps ⟨m, .zero⟩).val

/-- Voice 0 keyed on, in a run of that voice alone. -/
def soloKeyedOn (m : Mem) : World := (soloRun 0 keyOnOps ⟨m, .zero⟩).val

/-- The key-on looks the same to voice 0 in both runs. -/
theorem keyedOn_spec {m : Mem} (hquiet : EchoQuiet 0 keyOnOps ⟨m, .zero⟩) :
    (keyedOn m).mem = (soloKeyedOn m).mem ∧
      SameVoice 0 (soloKeyedOn m).dsp (keyedOn m).dsp := by
  obtain ⟨hmem, hsame, -⟩ := soloRun_spec rfl (SameVoice.refl 0 _) hquiet
  rw [keyedOn, soloKeyedOn]
  exact ⟨hmem, hsame⟩

theorem keyedOn_reachable (m : Mem) : Reachable (keyedOn m) := by
  rw [keyedOn]
  exact ⟨m, keyOnOps, rfl⟩

/-- A source whose samples are all -32768 once the ring is full: the directory
    and the data are 0x88, and the header asks for scale 12 and filter 2. -/
def loudSource : Mem where
  aram addr := if addr = 0x8888 then 0xc8 else 0x88
  beyond _ := 0x88

/-- The operations that bring its voice to full level. -/
def fullLevelOps : List Op := [.store (vreg 0 vregGain) 0x7f, .sample]

end Solo

section Next

variable (m : Mem) (i : Channel) (d : Dsp)

/-- The next sample polls a key-on of voice `i`. -/
def PollsKeyOn : Prop := d.toggle = true ∧ d.regs regKon &&& ~~~d.kon &&& channelBit i ≠ 0

/-- The next sample polls a key-off of voice `i`. -/
def PollsKeyOff : Prop := d.toggle = true ∧ d.regs regKoff &&& channelBit i ≠ 0

/-- FLG resets the voices, or the block of the voice ends without a loop. -/
def CutsOff : Prop :=
  d.regs regFlg &&& flgSoftReset ≠ 0 ∨ m.aram (d.vstate i).brrAddr &&& brrFlags = brrEnd

/-- The next call of the voice returns silence early. -/
def GoesSilent : Prop :=
  ¬ PollsKeyOn i d ∧
    ((d.vstate i).envMode = .release ∨ PollsKeyOff i d ∨ CutsOff m i d) ∧
    ((d.vstate i).attackDelay = 0 ∧ ((d.vstate i).env ≤ 8 ∨ CutsOff m i d) ∨
      (d.vstate i).attackDelay = 1)

/-- The next call of the voice decodes a group: the attack countdown primes the
    ring, or the cursor has used a group up. -/
def DecodesGroup : Prop :=
  ¬ GoesSilent m i d ∧
    ((d.vstate i).attackDelay = 0 ∧ 0x4000 ≤ (d.vstate i).interpPos ∨
      1 ≤ (d.vstate i).attackDelay.toNat ∧ (d.vstate i).attackDelay.toNat ≤ 4)

instance : Decidable (PollsKeyOn i d) := inferInstanceAs (Decidable (_ ∧ _))
instance : Decidable (PollsKeyOff i d) := inferInstanceAs (Decidable (_ ∧ _))
instance : Decidable (CutsOff m i d) := inferInstanceAs (Decidable (_ ∨ _))
instance : Decidable (GoesSilent m i d) := inferInstanceAs (Decidable (_ ∧ _ ∧ _))
instance : Decidable (DecodesGroup m i d) := inferInstanceAs (Decidable (_ ∧ _))

theorem keyedOn_ticked_iff : KeyedOn (ticked d) i ↔ PollsKeyOn i d := by
  rw [KeyedOn, PollsKeyOn]
  rw [ticked_toggle, ticked_kon]
  cases d.toggle <;> simp

theorem keyedOff_ticked_iff : KeyedOff (ticked d) i ↔ PollsKeyOff i d := by
  rw [KeyedOff, PollsKeyOff]
  simp only [ticked, pollKeys]
  cases d.toggle <;> simp

theorem voiceCut_primed_iff (h : (d.vstate i).attackDelay ≠ 5) :
    voiceCut (ticked d).regs (primed m i (ticked d)) ↔ CutsOff m i d := by
  rw [voiceCut, CutsOff]
  rw [primed_brrHdr, ticked_vstate, ticked_regs, if_neg h]

theorem keyed_attackDelay_eq_zero_iff :
    (keyed m i (ticked d)).attackDelay = 0 ↔
      ¬ PollsKeyOn i d ∧ ((d.vstate i).attackDelay = 0 ∨ (d.vstate i).attackDelay = 1) := by
  have hdelay : (if (d.vstate i).attackDelay = 0 then 0 else (d.vstate i).attackDelay - 1) = 0 ↔
      (d.vstate i).attackDelay = 0 ∨ (d.vstate i).attackDelay = 1 := by
    generalize (d.vstate i).attackDelay = a
    revert a
    decide
  have hkeyed : (keyed m i (ticked d)).attackDelay =
      if KeyedOn (ticked d) i then 5 else (primed m i (ticked d)).attackDelay := by
    rw [keyed_eq]
  rw [hkeyed, primed_attackDelay, ticked_vstate]
  by_cases hkey : PollsKeyOn i d
  · rw [if_pos ((keyedOn_ticked_iff i d).mpr hkey)]
    simp [hkey]
  · rw [if_neg (fun hk => hkey ((keyedOn_ticked_iff i d).mp hk)), hdelay]
    simp [hkey]

theorem fallsSilent_ticked_iff :
    FallsSilent m i (ticked d) ↔ GoesSilent m i d := by
  rw [FallsSilent, GoesSilent, keyed_attackDelay_eq_zero_iff m i d]
  by_cases hkey : PollsKeyOn i d
  · simp [hkey]
  · by_cases hdelay : (d.vstate i).attackDelay = 0 ∨ (d.vstate i).attackDelay = 1
    · have hfive : (d.vstate i).attackDelay ≠ 5 := by
        rcases hdelay with h | h <;> rw [h] <;> decide
      have hmode : (keyed m i (ticked d)).envMode = .release ↔
          (d.vstate i).envMode = .release ∨ PollsKeyOff i d ∨ CutsOff m i d := by
        rw [keyed_eq]
        simp only [keyedOn_ticked_iff, keyedOff_ticked_iff, voiceCut_primed_iff m i d hfive,
          primed_envMode, ticked_vstate, if_neg hkey]
        split_ifs with hoff
        · simp [hoff]
        · simp [hoff]
      have henv : (keyed m i (ticked d)).env ≤ 8 ↔
          ((d.vstate i).attackDelay = 0 ∧ ((d.vstate i).env ≤ 8 ∨ CutsOff m i d) ∨
            (d.vstate i).attackDelay = 1) := by
        rw [keyed_eq]
        simp only [voiceCut_primed_iff m i d hfive, primed_env, ticked_vstate]
        rcases hdelay with h | h <;> rw [h] <;> split_ifs <;> simp_all
      rw [hmode, henv]
      constructor
      · rintro ⟨-, hm, he⟩
        exact ⟨hkey, hm, he⟩
      · rintro ⟨-, hm, he⟩
        exact ⟨⟨hkey, hdelay⟩, hm, he⟩
    · simp only [hdelay, and_false, false_and, false_iff]
      rintro ⟨-, -, h | h⟩
      · exact hdelay (Or.inl h.1)
      · exact hdelay (Or.inr h)

theorem decodeDue_ticked_iff (h : (d.vstate i).attackDelay.toNat ≤ 5) :
    DecodeDue m i (ticked d) ↔ DecodesGroup m i d := by
  have hprime : ∀ a : Byte, a.toNat ≤ 5 → a ≠ 0 →
      ((a - 1).toNat ≤ 3 ↔ 1 ≤ a.toNat ∧ a.toNat ≤ 4) := by decide
  rw [DecodeDue, DecodesGroup]
  rw [fallsSilent_ticked_iff m i d, primed_interpPos, ticked_vstate]
  refine and_congr_right fun _ => ?_
  by_cases hdelay : (d.vstate i).attackDelay = 0
  · rw [if_pos hdelay]
    simp [hdelay]
  · rw [if_neg hdelay, ← hprime _ h hdelay]
    split_ifs with hle
    · exact iff_of_true le_rfl (Or.inr hle)
    · exact iff_of_false (by decide) fun hor => hor.elim (fun h0 => hdelay h0.1) hle

theorem SameVoice.decodesGroup {i : Channel} {d d' : Dsp} (h : SameVoice i d d') (m : Mem) :
    DecodesGroup m i d' ↔ DecodesGroup m i d := by
  have hkon := h.regs regKon (by decide)
  have hkoff := h.regs regKoff (by decide)
  have hflg := h.regs regFlg (by decide)
  simp only [DecodesGroup, GoesSilent, PollsKeyOn, PollsKeyOff, CutsOff, h.toggle, h.kon, hkon,
    hkoff, hflg, h.vstate]

end Next

end SpuKit
