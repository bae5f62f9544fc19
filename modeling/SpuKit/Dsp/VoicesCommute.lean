import SpuKit.Dsp.SampleSpec
import SpuKit.Lib.Agents

/-!
# The voices do not get in each other's way

Every voice reads registers that no voice writes, and writes its own state, its
own OUTX and ENVX and its own bit of ENDX. So the order in which the voices are
called is lost: each gives the sample it would have given, and the DSP ends in
the same state.

## Main definitions

- `sharedPart`, `voicePart` — the DSP cut into what no voice writes and what each
  voice owns
- `EndsLoop` — a decode that sets the voice's ENDX bit
- `voiceAgents` — the voices as agents on the DSP
- `callVoice`, `callVoices` — one call, and two calls in a row

## Main results

- `voiceRun_endx` — what a call does to the bits of ENDX
- `dsp_eq_of_parts` — there is nothing in the DSP but these parts
- `voices_commute` — two voices in either order
- `runVoices_perm` — the voice loop in any order
-/

namespace SpuKit

-- ════════════════════════════════════════════════════════════════════════
-- ENDX
-- ════════════════════════════════════════════════════════════════════════

section Bits

variable (i k : Channel) (byte : Byte)

theorem getLsbD_channelBit : (channelBit i).getLsbD k = decide (i = k) := by
  revert i k
  decide

theorem getLsbD_or_channelBit :
    (byte ||| channelBit i).getLsbD k = (byte.getLsbD k || decide (i = k)) := by
  rw [BitVec.getLsbD_or, getLsbD_channelBit]

theorem getLsbD_clear_channelBit :
    (byte &&& ~~~channelBit i).getLsbD k = (byte.getLsbD k && !decide (i = k)) := by
  rw [BitVec.getLsbD_and, BitVec.getLsbD_not, getLsbD_channelBit, decide_eq_true k.isLt]
  rw [Bool.true_and]

/-- A byte is its eight bits, one for each voice. -/
theorem byte_eq_of_bits {a b : Byte} (h : ∀ k : Channel, a.getLsbD k = b.getLsbD k) : a = b :=
  BitVec.eq_of_getLsbD_eq fun n hn => h ⟨n, hn⟩

end Bits

section Endx

variable (m : Mem) (i : Channel) (d : Dsp)

/-- The decode uses up a block with the end flag. -/
def EndsLoop (st : VState) : Prop :=
  st.interpPos ≥ 0x4000 ∧ (brrSample4 m st).val.brrOff.toNat ≥ brrBlockSize.toNat ∧
    (brrSample4 m st).val.brrHdr &&& brrEnd ≠ 0

instance (st : VState) : Decidable (EndsLoop m st) := inferInstanceAs (Decidable (_ ∧ _ ∧ _))

theorem voiceDecode_endx (regs : Regs) (st : VState) :
    (voiceDecode m regs i st).val.2 regEndx =
      if EndsLoop m st then regs regEndx ||| channelBit i else regs regEndx := by
  rw [voiceDecode]
  unfold EndsLoop
  simp only [Traced.val_bind, Traced.val_ite, Traced.val_pure, apply_ite Prod.snd]
  split_ifs <;> simp_all

theorem voiceEndx_endx (regs : Regs) (st : VState) :
    voiceEndx regs i st regEndx =
      if st.attackDelay = 5 then regs regEndx &&& ~~~channelBit i else regs regEndx := by
  rw [voiceEndx]
  split
  · rw [Function.update_self]
  · rfl

theorem exposed_endx : exposed m i d regEndx = d.regs regEndx := by
  have henvx : regEndx ≠ vreg i vregEnvx := by
    revert i
    decide
  have houtx : regEndx ≠ vreg i vregOutx := by
    revert i
    decide
  rw [exposed, voiceSample]
  simp only [Traced.val_bind, Traced.val_ite, Traced.val_pure]
  split_ifs <;> simp [henvx, houtx]

/-- **ENDX bit by bit**: a call sets the bit of its voice when the block it used
    up ends the sample, clears it when a key-on was taken, and leaves the bits of
    the other voices alone. -/
theorem voiceRun_endx (k : Channel) :
    ((voiceRun m i d).val.2.regs regEndx).getLsbD k =
      if i ≠ k ∨ (enveloped m i d).2 then (d.regs regEndx).getLsbD k
      else if (voiceApplyPitch (decoded m i d).1).attackDelay = 5 then false
      else if EndsLoop m (enveloped m i d).1 then true
      else (d.regs regEndx).getLsbD k := by
  rw [voiceRun_dsp]
  cases hsilent : (enveloped m i d).2 with
  | true => simp [exposed_endx]
  | false =>
    simp only [Bool.false_eq_true, if_false, or_false]
    rw [voiceEndx_endx, decoded, voiceDecode_endx, exposed_endx]
    by_cases hk : i = k
    · have hself : decide (i = k) = true := decide_eq_true hk
      rw [if_neg (not_not.mpr hk)]
      split_ifs <;> simp only [getLsbD_clear_channelBit, getLsbD_or_channelBit, hself,
        Bool.or_true, Bool.not_true, Bool.and_false]
    · have hother : decide (i = k) = false := decide_eq_false hk
      rw [if_pos hk]
      split_ifs <;> simp only [getLsbD_clear_channelBit, getLsbD_or_channelBit, hother,
        Bool.or_false, Bool.not_false, Bool.and_true]

end Endx

-- ════════════════════════════════════════════════════════════════════════
-- What a voice owns
-- ════════════════════════════════════════════════════════════════════════

section Parts

variable (m : Mem) (i : Channel) (d : Dsp)

/-- The DSP without what the voices own. -/
def sharedPart (d : Dsp) : Dsp :=
  { d with
    regs := fun r => if ControlReg r then d.regs r else 0
    vstate := fun _ => .zero }

/-- What only voice `i` writes: its state, its OUTX and ENVX and its ENDX bit. -/
def voicePart (i : Channel) (d : Dsp) : VState × Byte × Byte × Bool :=
  (d.vstate i, d.regs (vreg i vregOutx), d.regs (vreg i vregEnvx), (d.regs regEndx).getLsbD i)

theorem sharedPart_regs {d d' : Dsp} (h : sharedPart d' = sharedPart d) {r : Fin 0x80}
    (hr : ControlReg r) : d'.regs r = d.regs r := by
  have hregs : (sharedPart d').regs r = (sharedPart d).regs r := by rw [h]
  simpa only [sharedPart, if_pos hr] using hregs

/-- A voice looks at what no voice writes and at its own state. -/
theorem sameVoice_of_parts {d d' : Dsp} (hshared : sharedPart d' = sharedPart d)
    (hst : d'.vstate i = d.vstate i) : SameVoice i d d' := by
  have hctr := congrArg Dsp.ctr hshared
  have hkon := congrArg Dsp.kon hshared
  have hkoff := congrArg Dsp.koff hshared
  have htoggle := congrArg Dsp.toggle hshared
  exact ⟨fun _ hr => sharedPart_regs hshared hr, hctr, hkon, hkoff, htoggle, hst⟩

/-- **The DSP is its parts**: every register is ENDX, the OUTX or ENVX of a voice,
    or written by no voice. -/
theorem dsp_eq_of_parts {d d' : Dsp} (hshared : sharedPart d = sharedPart d')
    (hvoice : ∀ k, voicePart k d = voicePart k d') : d = d' := by
  simp only [voicePart, Prod.mk.injEq] at hvoice
  have hregs : d.regs = d'.regs := by
    funext r
    by_cases hr : ControlReg r
    · exact sharedPart_regs hshared hr
    · obtain ⟨k, hk⟩ := not_forall_not.mp hr
      rcases hk with rfl | rfl | rfl
      · exact (hvoice k).2.2.1
      · exact (hvoice k).2.1
      · exact byte_eq_of_bits fun k => (hvoice k).2.2.2
  have hvstate : d.vstate = d'.vstate := funext fun k => (hvoice k).1
  have hrest : { sharedPart d with regs := d.regs, vstate := d.vstate } =
      { sharedPart d' with regs := d'.regs, vstate := d'.vstate } := by
    rw [hshared, hregs, hvstate]
  exact hrest

theorem VoiceFrame.sharedPart_eq {d d' : Dsp} (h : VoiceFrame d d') :
    sharedPart d' = sharedPart d := by
  have hregs : ∀ r, (if ControlReg r then d'.regs r else 0) =
      if ControlReg r then d.regs r else 0 := by
    intro r
    by_cases hr : ControlReg r
    · rw [if_pos hr, if_pos hr, h.regs r hr]
    · rw [if_neg hr, if_neg hr]
  rw [sharedPart, sharedPart, funext hregs, h.rest]

/-- A voice leaves alone what another one owns. -/
theorem voicePart_voiceRun {k : Channel} (hk : k ≠ i) :
    voicePart k (voiceRun m i d).val.2 = voicePart k d := by
  have hown : ¬ VoiceOwned i (vreg k vregOutx) ∧ ¬ VoiceOwned i (vreg k vregEnvx) := by
    revert i k
    decide
  have hendx := voiceRun_endx m i d k
  rw [if_pos (Or.inl hk.symm)] at hendx
  rw [voicePart, voicePart, voiceRun_vstate_of_ne m i d hk, voiceRun_regs m i d hown.1,
    voiceRun_regs m i d hown.2, hendx]

end Parts

-- ════════════════════════════════════════════════════════════════════════
-- What a call gives
-- ════════════════════════════════════════════════════════════════════════

section Calls

variable (m : Mem) (i : Channel)

/-- The sample, OUTX and ENVX depend on the voice and on its NON bit. -/
theorem voiceSample_congr {regs regs' : Regs} (hnon : regs' regNon = regs regNon) (st : VState) :
    (voiceSample regs' i st).val.1 = (voiceSample regs i st).val.1 ∧
      (voiceSample regs' i st).val.2 (vreg i vregOutx) =
        (voiceSample regs i st).val.2 (vreg i vregOutx) ∧
      (voiceSample regs' i st).val.2 (vreg i vregEnvx) =
        (voiceSample regs i st).val.2 (vreg i vregEnvx) := by
  have hne : vreg i vregOutx ≠ vreg i vregEnvx := by
    revert i
    decide
  simp only [voiceSample, hnon, Traced.val_bind, Traced.val_ite, Traced.val_pure]
  split_ifs <;> simp [hne]

variable {m i} {d d' : Dsp}

/-- The sample a call returns, and the OUTX and ENVX it exposes, do not depend on
    what other voices write. -/
theorem SameVoice.sample_congr (h : SameVoice i d d') :
    (voiceRun m i d').val.1 = (voiceRun m i d).val.1 ∧
      (voiceRun m i d').val.2.regs (vreg i vregOutx) =
        (voiceRun m i d).val.2.regs (vreg i vregOutx) ∧
      (voiceRun m i d').val.2.regs (vreg i vregEnvx) =
        (voiceRun m i d).val.2.regs (vreg i vregEnvx) := by
  have hendx : vreg i vregOutx ≠ regEndx ∧ vreg i vregEnvx ≠ regEndx := by
    clear h
    revert i
    decide
  obtain ⟨hsample, houtx, henvx⟩ :=
    voiceSample_congr i (h.regs regNon (by decide)) (primed m i d)
  rw [← h.primed_eq m] at hsample houtx henvx
  refine ⟨?_, ?_, ?_⟩
  · rw [voiceRun_sample, voiceRun_sample, h.enveloped_congr m, h.voice, hsample, h.primed_eq m]
  · rw [voiceRun_exposed m i d' hendx.1, voiceRun_exposed m i d hendx.1, exposed, houtx,
      h.primed_eq m, exposed]
  · rw [voiceRun_exposed m i d' hendx.2, voiceRun_exposed m i d hendx.2, exposed, henvx,
      h.primed_eq m, exposed]

/-- What a call does to its own ENDX bit depends on that bit and on the voice. -/
theorem SameVoice.endx_congr (h : SameVoice i d d')
    (hbit : (d'.regs regEndx).getLsbD i = (d.regs regEndx).getLsbD i) :
    ((voiceRun m i d').val.2.regs regEndx).getLsbD i =
      ((voiceRun m i d).val.2.regs regEndx).getLsbD i := by
  rw [voiceRun_endx, voiceRun_endx, decoded, decoded, voiceDecode_val, voiceDecode_val,
    h.enveloped_congr m, hbit]

theorem SameVoice.voicePart_congr (h : SameVoice i d d') (hpart : voicePart i d' = voicePart i d) :
    voicePart i (voiceRun m i d').val.2 = voicePart i (voiceRun m i d).val.2 := by
  have hbit : (d'.regs regEndx).getLsbD i = (d.regs regEndx).getLsbD i :=
    congrArg (fun part => part.2.2.2) hpart
  obtain ⟨-, houtx, henvx⟩ := h.sample_congr (m := m)
  rw [voicePart, voicePart, (h.voiceRun_congr m).1, houtx, henvx, h.endx_congr hbit]

end Calls

-- ════════════════════════════════════════════════════════════════════════
-- The voices as agents
-- ════════════════════════════════════════════════════════════════════════

/-- The voices on a fixed memory, each answering with its sample and the events of
    its call. -/
def voiceAgents (m : Mem) :
    Agents Channel Dsp (Sample × List VoiceEvent) Dsp (VState × Byte × Byte × Bool) where
  act i d := (((voiceRun m i d).val.1, (voiceRun m i d).events), (voiceRun m i d).val.2)
  common := sharedPart
  owned := voicePart
  eq_of := dsp_eq_of_parts
  common_act i d := (VoiceFrame.voiceRun m i d).sharedPart_eq
  owned_act := fun {i _} d hk => voicePart_voiceRun m i d hk
  act_congr := by
    intro i d d' hshared hpart
    have hst : d'.vstate i = d.vstate i := congrArg Prod.fst hpart.symm
    have h := sameVoice_of_parts i hshared.symm hst
    refine ⟨?_, (h.voicePart_congr hpart.symm).symm⟩
    rw [h.sample_congr.1, (h.voiceRun_congr m).2]

theorem voiceAgents_act (m : Mem) (i : Channel) (d : Dsp) :
    (voiceAgents m).act i d =
      (((voiceRun m i d).val.1, (voiceRun m i d).events), (voiceRun m i d).val.2) := rfl

/-- A voice gives the same sample, and takes the same way, after another one was
    called. -/
theorem voiceRun_after_other (m : Mem) {i j : Channel} (h : i ≠ j) (d : Dsp) :
    (voiceRun m i (voiceRun m j d).val.2).val.1 = (voiceRun m i d).val.1 ∧
      (voiceRun m i (voiceRun m j d).val.2).events = (voiceRun m i d).events := by
  have hout := (voiceAgents m).output_after_other h d
  simp only [voiceAgents_act, Prod.mk.injEq] at hout
  exact hout

/-- The DSP after two voices does not depend on their order. -/
theorem voiceRun_comm (m : Mem) (i j : Channel) (d : Dsp) :
    (voiceRun m i (voiceRun m j d).val.2).val.2 = (voiceRun m j (voiceRun m i d).val.2).val.2 := by
  have hcomm := (voiceAgents m).act_comm i j d
  simp only [voiceAgents_act] at hcomm
  exact hcomm

/-- A call of a voice, as the voice loop makes it. -/
def callVoice (i : Channel) (w : World) : Sample × World :=
  let r := (voiceRun w.mem i w.dsp).val
  (r.1, { w with dsp := r.2 })

/-- Call voice `i` and then voice `j`. -/
def callVoices (i j : Channel) (w : World) : (Sample × Sample) × World :=
  let (a, w) := callVoice i w
  let (b, w) := callVoice j w
  ((a, b), w)

theorem callVoices_eq (i j : Channel) (w : World) :
    callVoices i j w =
      (((voiceRun w.mem i w.dsp).val.1,
          (voiceRun w.mem j (voiceRun w.mem i w.dsp).val.2).val.1),
        { w with dsp := (voiceRun w.mem j (voiceRun w.mem i w.dsp).val.2).val.2 }) := by
  simp only [callVoices, callVoice]

/-- **Voices commute.** Two voices give the same two samples and leave the same
    voices, the same registers and the same audio RAM in either order. -/
theorem voices_commute {i j : Channel} (h : i ≠ j) (w : World) :
    (callVoices j i w).1 = (callVoices i j w).1.swap ∧
      (callVoices j i w).2 = (callVoices i j w).2 := by
  -- the second voice of either order gives what it gives when it is called first
  have hi := (voiceRun_after_other w.mem h w.dsp).1
  have hj := (voiceRun_after_other w.mem h.symm w.dsp).1
  rw [callVoices_eq, callVoices_eq, voiceRun_comm w.mem i j w.dsp, hi, hj]
  exact ⟨rfl, rfl⟩

/-- Voices that are played at full level, the first one louder than the second. -/
def twoPlaying : World :=
  ⟨⟨fun _ => 0, fun _ => 0⟩,
    { Dsp.zero with
      regs := Function.update (Function.update (fun _ => 0) (vreg 0 vregVolL) 0x7f)
        (vreg 1 vregVolL) 0x20
      vstate := fun _ =>
        { VState.zero with envMode := .attack, env := 0x7f0, buf := fun _ => 0x2000 } }⟩

theorem voices_commute_playing :
    (callVoices 0 1 twoPlaying).1.1 ≠ silence ∧ (callVoices 0 1 twoPlaying).1.2 ≠ silence ∧
      (callVoices 0 1 twoPlaying).1.1 ≠ (callVoices 0 1 twoPlaying).1.2 ∧
      (callVoices 1 0 twoPlaying).1 = (callVoices 0 1 twoPlaying).1.swap ∧
      (callVoices 1 0 twoPlaying).2 = (callVoices 0 1 twoPlaying).2 :=
  ⟨by decide +kernel, by decide +kernel, by decide +kernel, voices_commute (by decide) twoPlaying⟩

/-- The voice loop calls its voices one after the other. -/
theorem runVoices_dsp (m : Mem) (is : List Channel) (a b : Sample) (d : Dsp) :
    (runVoices m is a b d).val.2.2 = (voiceAgents m).after is d := by
  induction is generalizing a b d with
  | nil => rfl
  | cons i is ih =>
    obtain ⟨a', b', hval, -⟩ := runVoices_cons m i is a b d
    rw [hval, ih, Agents.after_cons, voiceAgents_act]

/-- **Voices in any order.** The DSP after the voice loop does not depend on the
    order in which the loop calls the voices. The sums do: they are clamped after
    every voice. -/
theorem runVoices_perm (m : Mem) {is js : List Channel} (h : is.Perm js) (a b : Sample) (d : Dsp) :
    (runVoices m is a b d).val.2.2 = (runVoices m js a b d).val.2.2 := by
  rw [runVoices_dsp, runVoices_dsp, Agents.after_perm _ h]

end SpuKit
