import SpuKit.Dsp.VoiceInvariant
import SpuKit.Lib.Counted

/-!
# Silencing the voices

There are two ways to silence all voices at once. With every bit of KOFF set and
none of KON the next poll releases the voices, which then fade; a voice that is
still in its attack countdown has no level to lose. With the soft reset bit of
FLG set every sample takes the level of every voice away, also of those it keys
on.

## Main definitions

- `AllKeysOff`, `SoftReset` — what the registers say
- `Fading` — a released voice, its countdown over or not
- `VoicesQuiet` — no voice has a level
- `KeysFading`, `Resetting` — the voices are quiet or so many samples from it
- `CountsDown` — every sample of a run brings them nearer

## Main results

- `released_call`, `reset_call` — a call of a voice
- `keysOff_quiet`, `softReset_quiet` — runs
- `mixed_of_quiet` — the sums of quiet voices
-/

namespace SpuKit

/-- All voices are keyed off and none is keyed on. -/
def AllKeysOff (regs : Regs) : Prop := regs regKon = 0 ∧ regs regKoff = 0xff

/-- FLG resets the voices. -/
def SoftReset (regs : Regs) : Prop := regs regFlg &&& flgSoftReset ≠ 0

instance (regs : Regs) : Decidable (AllKeysOff regs) := inferInstanceAs (Decidable (_ ∧ _))

instance (regs : Regs) : Decidable (SoftReset regs) := inferInstanceAs (Decidable (_ ≠ _))

/-- The voice is released and its level is at most `bound`. -/
structure Fading (bound : Int) (st : VState) : Prop where
  envMode : st.envMode = .release
  nonneg : 0 ≤ st.env
  le : st.env ≤ bound

/-- No voice has a level. -/
def VoicesQuiet (d : Dsp) : Prop := ∀ i, (d.vstate i).env = 0

section Call

variable (m : Mem) {i : Channel} {d : Dsp} {bound : Int}

/-- **Step**: a call of a voice that is released, or is keyed off by it, takes 8
    from the level. -/
theorem released_call (hkey : ¬ KeyedOn d i)
    (hmode : KeyedOff d i ∨ (d.vstate i).envMode = .release) (hnonneg : 0 ≤ (d.vstate i).env)
    (hle : (d.vstate i).env ≤ bound) :
    Fading (max 0 (bound - 8)) ((voiceRun m i d).val.2.vstate i) := by
  have hreleased : (keyed m i d).envMode = .release := by
    rw [keyed_eq]
    simp only [if_neg hkey, primed_envMode]
    split
    · rfl
    · next hnot => exact hmode.resolve_left fun hoff => hnot (Or.inl hoff)
  have hlevel : 0 ≤ (keyed m i d).env ∧ (keyed m i d).env ≤ (d.vstate i).env ∧
      ((keyed m i d).attackDelay ≠ 0 → (keyed m i d).env = 0) := by
    rw [keyed_eq]
    simp only [if_neg hkey, primed_env, primed_attackDelay]
    split_ifs <;> simp_all
  suffices h : Fading (max 0 (bound - 8)) (enveloped m i d).1 from
    ⟨(voiceRun_envMode ..).trans h.envMode, (voiceRun_env ..).symm ▸ h.nonneg,
      (voiceRun_env ..).symm ▸ h.le⟩
  rw [enveloped_eq]
  split
  · show Fading _ (runEnvelope _ _ _ _ _).val
    rw [runEnvelope_of_release _ _ _ _ hreleased, envelopeRelease]
    split
    · refine ⟨hreleased, ?_, ?_⟩
      · show 0 ≤ (keyed m i d).env - 8
        omega
      · show (keyed m i d).env - 8 ≤ _
        omega
    · exact ⟨hreleased, le_rfl, le_max_left _ _⟩
  · next hdelay =>
    refine ⟨hreleased, hlevel.1, ?_⟩
    show (keyed m i d).env ≤ _
    rw [hlevel.2.2 hdelay]
    exact le_max_left _ _

/-- **Step**: a call during a soft reset takes the level away. -/
theorem reset_call (hreset : SoftReset d.regs) : ((voiceRun m i d).val.2.vstate i).env = 0 := by
  have hcut : voiceCut d.regs (primed m i d) := Or.inl hreset
  have henv : (keyed m i d).env = 0 := by
    rw [keyed_eq]
    exact if_pos hcut
  rw [voiceRun_env, enveloped_eq]
  split
  · next hdelay =>
    -- a voice that is keyed on waits for its countdown
    have hkey : ¬ KeyedOn d i := by
      intro hkey
      rw [keyed_eq] at hdelay
      simp only [if_pos hkey] at hdelay
      exact absurd hdelay (by decide)
    have hreleased : (keyed m i d).envMode = .release := by
      rw [keyed_eq]
      simp only [if_neg hkey]
      exact if_pos (Or.inr hcut)
    show (runEnvelope _ _ _ _ _).val.env = 0
    rw [runEnvelope_of_release _ _ _ _ hreleased, envelopeRelease_env_eq_zero, henv]
    decide
  · exact henv

/-- A voice without a level returns silence. -/
theorem voiceRun_of_quiet (h : (d.vstate i).env = 0) : (voiceRun m i d).val.1 = silence := by
  have henv : ¬ (primed m i d).env ≠ 0 := by
    rw [primed_env, h, ite_self, not_not]
  rw [voiceRun_sample]
  split
  · rfl
  · rw [voiceSample, if_neg henv]
    show pan 0 _ _ = silence
    rw [pan, sampleScale, sampleScale, zero_mul, zero_mul]
    rfl

end Call

section Sample

variable (m : Mem) {d : Dsp}

theorem ticked_koff :
    (ticked d).koff = if d.toggle then d.regs regKoff else d.koff := by
  simp only [ticked, pollKeys]
  cases d.toggle <;> rfl

/-- With KON clear no voice is keyed on. -/
theorem not_keyedOn_ticked (h : AllKeysOff d.regs) (i : Channel) : ¬ KeyedOn (ticked d) i := by
  rintro ⟨htoggle, hkon⟩
  rw [ticked_toggle, Bool.not_eq_false'] at htoggle
  rw [ticked_kon, if_pos htoggle, h.1] at hkon
  exact hkon (by simp)

/-- A poll with KOFF set keys every voice off. -/
theorem keyedOff_ticked (h : AllKeysOff d.regs) (htoggle : d.toggle = true) (i : Channel) :
    KeyedOff (ticked d) i := by
  refine ⟨by rw [ticked_toggle, htoggle]; rfl, ?_⟩
  rw [ticked_koff, if_pos htoggle, h.2]
  revert i
  decide

/-- The sums of voices without a level. -/
theorem runVoices_of_quiet {is : List Channel} (hnd : is.Nodup)
    (h : ∀ i ∈ is, (d.vstate i).env = 0) :
    (runVoices m is silence silence d).val.1 = silence ∧
      (runVoices m is silence silence d).val.2.1 = silence := by
  induction is generalizing d with
  | nil => exact ⟨rfl, rfl⟩
  | cons i is ih =>
    obtain ⟨hi, hnd⟩ := List.nodup_cons.mp hnd
    have hblend : sampleBlend silence silence = silence := by decide
    have hrest : ∀ j ∈ is, ((voiceRun m i d).val.2.vstate j).env = 0 := by
      intro j hj
      have hne : j ≠ i := fun heq => hi (heq ▸ hj)
      rw [voiceRun_vstate_of_ne m i d hne]
      exact h j (List.mem_cons_of_mem _ hj)
    have hsample := voiceRun_of_quiet m (h i (List.mem_cons_self ..))
    have hcons : (runVoices m (i :: is) silence silence d).val =
        (runVoices m is silence silence (voiceRun m i d).val.2).val := by
      simp only [runVoices, Traced.val_bind, Traced.val_tag, hsample, hblend, ite_self]
    rw [hcons]
    exact ih hnd hrest

/-- **The sums of quiet voices** are silence. -/
theorem mixed_of_quiet (h : VoicesQuiet d) :
    (mixed m d).1 = silence ∧ (mixed m d).2.1 = silence := by
  rw [mixed_eq]
  refine runVoices_of_quiet m (List.nodup_finRange 8) fun i _ => ?_
  rw [ticked_vstate]
  exact h i

end Sample

-- ════════════════════════════════════════════════════════════════════════
-- Runs
-- ════════════════════════════════════════════════════════════════════════

/-- What the registers of a run say whenever a sample is taken. -/
def SamplesMeet (P : Regs → Prop) (ops : List Op) (w : World) : Prop :=
  StepSystem.Along World.step (fun op w => op.isSample = true → P w.dsp.regs) ops w

theorem Op.eq_sample {op : Op} (h : op.isSample = true) : op = .sample := by
  cases op <;> simp_all [Op.isSample]

theorem World.step_idle {op : Op} (h : op.isSample = false) (w : World) :
    (w.step op).val.dsp.vstate = w.dsp.vstate ∧ (w.step op).val.dsp.toggle = w.dsp.toggle := by
  have hne : op ≠ .sample := by
    rintro rfl
    simp [Op.isSample] at h
  obtain ⟨-, hdsp⟩ := World.step_of_ne_sample w hne
  rw [hdsp]
  exact ⟨rfl, rfl⟩

/-- All voices fade and are quiet after so many samples. Before the first poll
    they need not be released: it comes with the first sample or the second. -/
structure KeysFading (left : Nat) (w : World) : Prop where
  wf : w.VoicesWf
  fading : (∀ i, Fading (8 * left) (w.dsp.vstate i)) ∨ 258 ≤ left ∨
    257 ≤ left ∧ w.dsp.toggle = true

namespace KeysFading

variable {left : Nat} {w : World}

theorem quiet (h : KeysFading 0 w) : VoicesQuiet w.dsp := by
  intro i
  have hfading := h.fading.resolve_right (by omega)
  exact le_antisymm (hfading i).le (hfading i).nonneg

theorem idle {op : Op} (hsample : op.isSample = false) (h : KeysFading left w) :
    KeysFading left (w.step op).val := by
  obtain ⟨hvstate, htoggle⟩ := World.step_idle hsample w
  refine ⟨w.step_voicesWf op h.wf, ?_⟩
  rw [hvstate, htoggle]
  exact h.fading

/-- **Step**: a sample polls the keys or takes from the levels, or the next one
    polls. -/
theorem sample (hkeys : AllKeysOff w.dsp.regs) (h : KeysFading left w) :
    KeysFading (left - 1) (w.step .sample).val := by
  refine ⟨w.step_voicesWf .sample h.wf, ?_⟩
  have hnext : ∀ bound : Int, (∀ i, (w.dsp.vstate i).env ≤ bound) → (max 0 (bound - 8)) ≤
      8 * ↑(left - 1) → (∀ i, KeyedOff (ticked w.dsp) i ∨ (w.dsp.vstate i).envMode = .release) →
      ∀ i, Fading (8 * ↑(left - 1)) ((w.step .sample).val.dsp.vstate i) := by
    intro bound hbound hle hmode i
    have hcall : Fading (max 0 (bound - 8)) ((voiceRun w.mem i (ticked w.dsp)).val.2.vstate i) := by
      apply released_call w.mem (not_keyedOn_ticked hkeys i)
      · rw [ticked_vstate]
        exact hmode i
      · rw [ticked_vstate]
        exact (h.wf i).env.1
      · rw [ticked_vstate]
        exact hbound i
    rw [World.step_sample_dsp, (nextSample_voice w.mem w.dsp i).1]
    exact ⟨hcall.envMode, hcall.nonneg, hcall.le.trans hle⟩
  cases htoggle : w.dsp.toggle with
  | true =>
    rcases h.fading with hfading | hearly
    · exact Or.inl (hnext (8 * left) (fun i => (hfading i).le) (by omega)
        fun i => Or.inr (hfading i).envMode)
    · exact Or.inl (hnext 0x7ff (fun i => (h.wf i).env.2) (by omega)
        fun i => Or.inl (keyedOff_ticked hkeys htoggle i))
  | false =>
    rcases h.fading with hfading | hearly | ⟨-, htrue⟩
    · exact Or.inl (hnext (8 * left) (fun i => (hfading i).le) (by omega)
        fun i => Or.inr (hfading i).envMode)
    · refine Or.inr (Or.inr ⟨by omega, ?_⟩)
      rw [World.step_sample_dsp, nextSample_toggle, htoggle]
      rfl
    · rw [htoggle] at htrue
      cases htrue

end KeysFading

/-- The voices are quiet, or the next sample takes their levels away. -/
def Resetting (left : Nat) (w : World) : Prop := left = 0 → VoicesQuiet w.dsp

section Run

variable {ops : List Op} {w : World}

theorem Resetting.idle {left : Nat} {op : Op} (hsample : op.isSample = false)
    (h : Resetting left w) : Resetting left (w.step op).val := by
  intro hzero i
  rw [(World.step_idle hsample w).1]
  exact h hzero i

theorem Resetting.sample {left : Nat} (hreset : SoftReset w.dsp.regs) :
    Resetting left (w.step .sample).val := by
  intro _ i
  rw [World.step_sample_dsp, (nextSample_voice w.mem w.dsp i).1]
  exact reset_call w.mem (by rwa [ticked_regs])

/-- Steps count the samples down to the invariant at 0. -/
structure CountsDown (P : Regs → Prop) (Inv : Nat → World → Prop) : Prop where
  idle : ∀ op w n, op.isSample = false → (op.isSample = true → P w.dsp.regs) → Inv n w →
    Inv n (w.step op).val
  count : ∀ op w n, op.isSample = true → (op.isSample = true → P w.dsp.regs) → Inv n w →
    Inv (n - 1) (w.step op).val

theorem keysFading_countsDown : CountsDown AllKeysOff KeysFading where
  idle _ _ _ hsample _ h := h.idle hsample
  count op w n hsample hmeets h := by
    obtain rfl := Op.eq_sample hsample
    exact h.sample (hmeets rfl)

theorem resetting_countsDown : CountsDown SoftReset Resetting where
  idle _ _ _ hsample _ h := h.idle hsample
  count op w n hsample hmeets _ := by
    obtain rfl := Op.eq_sample hsample
    exact Resetting.sample (hmeets rfl)

/-- After 258 samples with all keys off the voices are quiet. -/
theorem keysOff_quiet (hwf : w.VoicesWf) (hkeys : SamplesMeet AllKeysOff ops w)
    (hlen : 258 ≤ ops.countP Op.isSample) : KeysFading 0 (runOps ops w).val :=
  StepSystem.run_settles keysFading_countsDown.idle keysFading_countsDown.count hkeys
    ⟨hwf, Or.inr (Or.inl le_rfl)⟩ hlen

/-- One sample of a soft reset takes all levels away. -/
theorem softReset_quiet (hreset : SamplesMeet SoftReset ops w)
    (hlen : 1 ≤ ops.countP Op.isSample) : Resetting 0 (runOps ops w).val :=
  StepSystem.run_settles resetting_countsDown.idle resetting_countsDown.count hreset
    (fun hzero => absurd hzero (by decide)) hlen

end Run

end SpuKit
