import SpuKit.Dsp.Solo
import SpuKit.Dsp.VoiceInvariant

/-!
# Released voices

A voice in the release stage steps down by 8 in every call until it is silent,
whatever the registers and audio RAM hold. From then on a call returns before
the decoder, so the voice stays as it is until it is keyed on again.

## Main definitions

- `Releasing` — a voice in the release stage whose attack countdown is over
- `VoiceCalls` — consecutive calls of one voice, anything else changing freely
- `Frozen` — what a call of a silent voice does

## Main results

- `Releasing.call` — a call keeps a voice released and steps its level down
- `Releasing.frozen` — a call of a silent voice changes nothing but its latches
- `released_falls_silent` — silence within 256 calls, and from then on
-/

namespace SpuKit

/-- The voice is in the release stage, its attack countdown is over and its
    level is at most `bound`. -/
structure Releasing (bound : Int) (st : VState) : Prop where
  envMode : st.envMode = .release
  attackDelay : st.attackDelay = 0
  nonneg : 0 ≤ st.env
  le : st.env ≤ bound

/-- Consecutive calls of voice `i` without a key-on: each finds the voice as the
    one before left it, and all other variables, the registers and memory as
    they may be. -/
structure VoiceCalls (i : Channel) (n : Nat) (calls : Nat → Mem × Dsp) : Prop where
  link : ∀ k < n, (calls (k + 1)).2.vstate i =
    (voiceRun (calls k).1 i (calls k).2).val.2.vstate i
  noKey : ∀ k < n, ¬ KeyedOn (calls k).2 i

/-- The call returns silence, clears ENVX and OUTX and leaves the decoder and
    the cursor of the voice where they are. -/
structure Frozen (m : Mem) (i : Channel) (d : Dsp) : Prop where
  sample : (voiceRun m i d).val.1 = silence
  envx : (voiceRun m i d).val.2.regs (vreg i vregEnvx) = 0
  outx : (voiceRun m i d).val.2.regs (vreg i vregOutx) = 0
  brrAddr : ((voiceRun m i d).val.2.vstate i).brrAddr = (d.vstate i).brrAddr
  brrOff : ((voiceRun m i d).val.2.vstate i).brrOff = (d.vstate i).brrOff
  buf : ((voiceRun m i d).val.2.vstate i).buf = (d.vstate i).buf
  bufPos : ((voiceRun m i d).val.2.vstate i).bufPos = (d.vstate i).bufPos
  interpPos : ((voiceRun m i d).val.2.vstate i).interpPos = (d.vstate i).interpPos

namespace Releasing

variable {m : Mem} {i : Channel} {d : Dsp} {bound : Int}

/-- Neither a cut nor a key-off takes the voice out of the release stage. -/
theorem keyed (h : Releasing bound (d.vstate i)) (hkey : ¬ KeyedOn d i) :
    (keyed m i d).envMode = .release ∧ (SpuKit.keyed m i d).attackDelay = 0 ∧
      0 ≤ (SpuKit.keyed m i d).env ∧ (SpuKit.keyed m i d).env ≤ (d.vstate i).env := by
  have henv := h.nonneg
  rw [keyed_eq]
  simp only [if_neg hkey, primed_envMode, primed_attackDelay, primed_env, h.envMode,
    h.attackDelay, ite_self, if_true, true_and]
  split <;> omega

/-- **Step**: a call leaves the voice released and takes 8 from its level. -/
theorem call (h : Releasing bound (d.vstate i)) (hkey : ¬ KeyedOn d i) :
    Releasing (max 0 (bound - 8)) ((voiceRun m i d).val.2.vstate i) ∧
      ((voiceRun m i d).val.2.vstate i).env ≤ (d.vstate i).env := by
  obtain ⟨hmode, hdelay, hlo, hle⟩ := h.keyed (m := m) hkey
  have hbound := h.le
  have henv : (enveloped m i d).1 = envelopeRelease (SpuKit.keyed m i d) := by
    rw [enveloped_eq, if_pos hdelay]
    exact runEnvelope_of_release _ _ _ _ hmode
  have hlevel : 0 ≤ (enveloped m i d).1.env ∧
      (enveloped m i d).1.env ≤ max 0 (bound - 8) ∧
      (enveloped m i d).1.env ≤ (d.vstate i).env := by
    rw [henv, envelopeRelease]
    split
    · show 0 ≤ (SpuKit.keyed m i d).env - 8 ∧ (SpuKit.keyed m i d).env - 8 ≤ _ ∧
        (SpuKit.keyed m i d).env - 8 ≤ _
      omega
    · show (0 : Int) ≤ 0 ∧ 0 ≤ _ ∧ 0 ≤ _
      exact ⟨le_rfl, le_max_left _ _, h.nonneg⟩
  rw [← voiceRun_env] at hlevel
  refine ⟨⟨?_, ?_, hlevel.1, hlevel.2.1⟩, hlevel.2.2⟩
  · rw [voiceRun_envMode, henv, envelopeRelease]
    split <;> exact hmode
  · rw [voiceRun_attackDelay, if_neg hkey, primed_attackDelay, if_pos h.attackDelay]

theorem fallsSilent (h : Releasing 8 (d.vstate i)) (hkey : ¬ KeyedOn d i) : FallsSilent m i d := by
  obtain ⟨hmode, hdelay, -, hle⟩ := h.keyed (m := m) hkey
  exact ⟨hdelay, hmode, hle.trans h.le⟩

/-- A call of a silent voice. -/
theorem frozen (h : Releasing 0 (d.vstate i)) (hkey : ¬ KeyedOn d i) : Frozen m i d := by
  have hzero : (d.vstate i).env = 0 := le_antisymm h.le h.nonneg
  have hsilent : FallsSilent m i d :=
    fallsSilent ⟨h.envMode, h.attackDelay, h.nonneg, by omega⟩ hkey
  have hflag : (enveloped m i d).2 = true := (enveloped_silent_iff m i d).mpr hsilent
  have hnot5 : (d.vstate i).attackDelay ≠ 5 := by
    rw [h.attackDelay]
    decide
  have hregs : (voiceRun m i d).val.2.regs =
      Function.update (Function.update d.regs (vreg i vregOutx) 0) (vreg i vregEnvx) 0 := by
    have henv : ¬ (primed m i d).env ≠ 0 := by
      rw [primed_env, if_pos h.attackDelay, not_not]
      exact hzero
    rw [voiceRun_dsp, if_pos hflag]
    show exposed m i d = _
    rw [exposed, voiceSample, if_neg henv]
    rfl
  obtain ⟨hbuf, hbufPos, hoff, haddr⟩ := voiceRun_of_not_due fun hdue => hdue.1 hsilent
  refine ⟨?_, ?_, ?_, ?_, ?_, hbuf, ?_, ?_⟩
  · rw [voiceRun_sample, if_pos hflag]
  · rw [hregs, Function.update_self]
  · have hne : ∀ i : Channel, vreg i vregOutx ≠ vreg i vregEnvx := by decide
    rw [hregs, Function.update_of_ne (hne i), Function.update_self]
  · rw [haddr, primed_brrAddr, if_neg hnot5]
  · rw [hoff, primed_brrOff, if_neg hnot5]
  · rw [hbufPos, primed_bufPos, if_neg hnot5]
  · rw [voiceRun_interpPos, if_pos hsilent, primed_interpPos, if_pos h.attackDelay]

end Releasing

/-- The level bound after so many calls. -/
theorem VoiceCalls.released {i : Channel} {n : Nat} {calls : Nat → Mem × Dsp}
    (hcalls : VoiceCalls i n calls) {bound : Int} (h : Releasing bound ((calls 0).2.vstate i))
    {k : Nat} (hk : k ≤ n) : Releasing (max 0 (bound - 8 * k)) ((calls k).2.vstate i) := by
  induction k with
  | zero => exact ⟨h.envMode, h.attackDelay, h.nonneg, h.le.trans (by omega)⟩
  | succ k ih =>
    obtain ⟨hmode, hdelay, hlo, hhi⟩ :=
      ((ih (by omega)).call (m := (calls k).1) (hcalls.noKey k (by omega))).1
    rw [hcalls.link k (by omega)]
    exact ⟨hmode, hdelay, hlo, hhi.trans (by omega)⟩

/-- The level bound at the end of a run of the whole DSP in which the voice is
    not keyed on. -/
theorem Releasing.run {i : Channel} {ops : List Op} {w : World} {bound : Int}
    (h : Releasing bound (w.dsp.vstate i))
    (hkey : keyOns (voiceEvents i (runOps ops w).events) = []) :
    Releasing (max 0 (bound - 8 * ops.countP Op.isSample)) ((runOps ops w).val.dsp.vstate i) := by
  induction ops generalizing w bound with
  | nil => exact ⟨h.envMode, h.attackDelay, h.nonneg, h.le.trans (by simp)⟩
  | cons op ops ih =>
    rw [runOps_cons_events, voiceEvents_append, keyOns_append, List.append_eq_nil_iff] at hkey
    rw [runOps_cons_val, List.countP_cons]
    cases op with
    | sample =>
      obtain ⟨hvstate, hevents⟩ := nextSample_voice w.mem w.dsp i
      have hnone : ¬ KeyedOn (ticked w.dsp) i := by
        intro hon
        have hfirst := hkey.1
        rw [World.step_sample_events, hevents, voiceRun_keyOns, if_pos hon] at hfirst
        cases hfirst
      have hcall : Releasing (max 0 (bound - 8)) ((w.step .sample).val.dsp.vstate i) := by
        rw [World.step_sample_dsp, hvstate]
        refine (Releasing.call ?_ hnone).1
        rw [ticked_vstate]
        exact h
      obtain ⟨hmode, hdelay, hlo, hhi⟩ := ih hcall hkey.2
      refine ⟨hmode, hdelay, hlo, hhi.trans ?_⟩
      rw [if_pos (show Op.isSample .sample = true from rfl)]
      push_cast
      omega
    | store | poke | restore | reset =>
      exact ih (w := (World.step _ w).val) h hkey.2

/-- **Released voices fall silent and freeze.** From any reachable state of a
    voice in the release stage with its countdown over, in any sequence of calls
    of this voice without a key-on, the voice stays released and its level never
    increases; after 256 calls the level is 0, and a call that finds it 0
    returns silence, clears ENVX and OUTX and leaves the decoder, the ring and
    the cursor as they are. -/
theorem released_falls_silent {w : World} (h : Reachable w) (i : Channel)
    (hmode : (w.dsp.vstate i).envMode = .release) (hdelay : (w.dsp.vstate i).attackDelay = 0)
    {n : Nat} {calls : Nat → Mem × Dsp} (hstart : (calls 0).2.vstate i = w.dsp.vstate i)
    (hcalls : VoiceCalls i n calls) :
    (∀ k ≤ n, ((calls k).2.vstate i).envMode = .release ∧
      (256 ≤ k → ((calls k).2.vstate i).env = 0)) ∧
    ∀ k < n, ((calls (k + 1)).2.vstate i).env ≤ ((calls k).2.vstate i).env ∧
      (((calls k).2.vstate i).env = 0 → Frozen (calls k).1 i (calls k).2) := by
  obtain ⟨hlo, hhi⟩ := (h.voicesWf i).env
  have hfirst : Releasing 0x7ff ((calls 0).2.vstate i) := by
    rw [hstart]
    exact ⟨hmode, hdelay, hlo, hhi⟩
  constructor
  · intro k hk
    have hreleased := hcalls.released hfirst hk
    refine ⟨hreleased.envMode, fun hlate => ?_⟩
    have hle := hreleased.le
    have hge := hreleased.nonneg
    omega
  · intro k hk
    have hreleased := hcalls.released hfirst hk.le
    have hkey := hcalls.noKey k hk
    constructor
    · rw [hcalls.link k hk]
      exact (hreleased.call hkey).2
    · intro hzero
      exact Releasing.frozen
        ⟨hreleased.envMode, hreleased.attackDelay, hreleased.nonneg, hzero.le⟩ hkey

/-- Calls of one voice in a row, with nothing in between. -/
def callsFrom (m : Mem) (i : Channel) (d : Dsp) (k : Nat) : Mem × Dsp :=
  (m, (fun d => (voiceRun m i d).val.2)^[k] d)

theorem voiceCalls_callsFrom {m : Mem} {i : Channel} {d : Dsp} (h : ¬ KeyedOn d i) (n : Nat) :
    VoiceCalls i n (callsFrom m i d) := by
  have hkeys : ∀ k, (callsFrom m i d k).2.toggle = d.toggle ∧
      (callsFrom m i d k).2.kon = d.kon := by
    intro k
    induction k with
    | zero => exact ⟨rfl, rfl⟩
    | succ k ih =>
      have hframe := VoiceFrame.voiceRun m i (callsFrom m i d k).2
      rw [callsFrom, Function.iterate_succ_apply']
      exact ⟨hframe.toggle.trans ih.1, hframe.kon.trans ih.2⟩
  constructor
  · intro k _
    rw [callsFrom, Function.iterate_succ_apply']
    rfl
  · intro k _
    rw [KeyedOn, (hkeys k).1, (hkeys k).2]
    exact h

/-- A voice at full level is keyed off. -/
def keyedOffOps : List Op :=
  countdownOps ++ fullLevelOps ++ [.store regKoff 1, .sample, .sample]

theorem exists_keyedOff :
    ∃ w, Reachable w ∧ (w.dsp.vstate 0).envMode = .release ∧ (w.dsp.vstate 0).attackDelay = 0 ∧
      (w.dsp.vstate 0).env = 0x7e8 ∧ ¬ KeyedOn w.dsp 0 := by
  have hquiet : EchoQuiet 0 keyOnOps ⟨loudSource, .zero⟩ := by decide +kernel
  obtain ⟨hmem, hsame⟩ := keyedOn_spec hquiet
  have hops : EchoQuiet 0 keyedOffOps (soloKeyedOn loudSource) := by decide +kernel
  obtain ⟨-, hsame', -⟩ := soloRun_spec hmem hsame hops
  refine ⟨_, (keyedOn_reachable loudSource).step keyedOffOps, ?_⟩
  rw [KeyedOn, hsame'.vstate, hsame'.toggle, hsame'.kon]
  decide +kernel

/-- A voice that is keyed off at full level is silent after 256 calls, and the calls
    after that find it so. -/
theorem released_falls_silent_keyedOff :
    ∃ w : World, (w.dsp.vstate 0).env = 0x7e8 ∧
      let calls := callsFrom w.mem 0 w.dsp
      (∀ k ≤ 300, ((calls k).2.vstate 0).envMode = .release ∧
        (256 ≤ k → ((calls k).2.vstate 0).env = 0)) ∧
      ∀ k < 300, ((calls (k + 1)).2.vstate 0).env ≤ ((calls k).2.vstate 0).env ∧
        (((calls k).2.vstate 0).env = 0 → Frozen (calls k).1 0 (calls k).2) := by
  obtain ⟨w, hreach, hmode, hdelay, henv, hkey⟩ := exists_keyedOff
  exact ⟨w, henv, released_falls_silent hreach 0 hmode hdelay rfl (voiceCalls_callsFrom hkey 300)⟩

end SpuKit
