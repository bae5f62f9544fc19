import SpuKit.Dsp.Run

/-!
# What a voice does in one sample

`voiceRun` seen from outside: the state of the voice after each of its stages,
the registers it may touch, and the events of a call. Later files cite these
lemmas and do not unfold the stages again.

## Main definitions

- `primed`, `exposed`, `keyed`, `enveloped`, `decoded` — the stages of a call
- `KeyedOn` — the key-on branch is taken
- `FallsSilent` — the call returns silence early, in terms of its inputs
- `groupOf`, `bufSet4`, `nextBufPos`, `blockEnd` — the effect of one decode

## Main results

- `voiceRun_dsp`, `voiceRun_events` — a call assembled from its stages
- `voiceRun_regs` — only ENVX, OUTX and ENDX are written
- `enveloped_silent_iff` — when a call falls silent
-/

namespace SpuKit

/-- The little-endian word at an address. -/
def Mem.word (m : Mem) (addr : Word) : Word := wordOf (m.aram (addr + 1)) (m.aram addr)

@[simp] theorem readAramByte_val (m : Mem) (addr : Word) :
    (readAramByte m addr).val = m.aram addr := rfl

@[simp] theorem readAramByte_events (m : Mem) (addr : Word) :
    (readAramByte m addr).events = [addr.toNat] := rfl

@[simp] theorem readAramWord_val (m : Mem) (addr : Word) :
    (readAramWord m addr).val = m.word addr := rfl

@[simp] theorem readAramWord_events (m : Mem) (addr : Word) :
    (readAramWord m addr).events = [(addr + 1).toNat, addr.toNat] := rfl

-- ════════════════════════════════════════════════════════════════════════
-- The stages of a call
-- ════════════════════════════════════════════════════════════════════════

section Stages

variable (m : Mem) (i : Channel) (d : Dsp)

/-- The voice after cycle 3c: its inputs are latched and the countdown ran. -/
def primed : VState := voiceAttackDelay (voiceFetch m d.regs i (d.vstate i)).val

/-- The registers after OUTX and ENVX were exposed. -/
def exposed : Regs := (voiceSample d.regs i (primed m i d)).val.2

/-- The voice after resets and keys. -/
def keyed : VState := (voiceKeys d i (voiceReset (exposed m i d) (primed m i d))).val

/-- The voice after its envelope, and whether the call returns silence. -/
def enveloped : VState × Bool := (voiceEnvelope d.ctr (exposed m i d) i (keyed m i d)).val

/-- The voice and the registers after the decode stage. -/
def decoded : VState × Regs := (voiceDecode m (exposed m i d) i (enveloped m i d).1).val

theorem voiceRun_dsp :
    (voiceRun m i d).val.2 =
      if (enveloped m i d).2 then
        { d with
          regs := exposed m i d
          vstate := Function.update d.vstate i (enveloped m i d).1 }
      else
        { d with
          regs := voiceEndx (decoded m i d).2 i (voiceApplyPitch (decoded m i d).1)
          vstate := Function.update d.vstate i (voiceApplyPitch (decoded m i d).1) } := by
  simp only [voiceRun, Traced.val_bind, Traced.val_ite, apply_ite Prod.snd]
  rfl

theorem voiceRun_vstate :
    (voiceRun m i d).val.2.vstate i =
      if (enveloped m i d).2 then (enveloped m i d).1
      else voiceApplyPitch (decoded m i d).1 := by
  rw [voiceRun_dsp]
  split <;> simp

/-- The other voices are left alone. -/
theorem voiceRun_vstate_of_ne {j : Channel} (hj : j ≠ i) :
    (voiceRun m i d).val.2.vstate j = d.vstate j := by
  rw [voiceRun_dsp]
  split <;> exact Function.update_of_ne hj ..

theorem voiceRun_events :
    (voiceRun m i d).events =
      (voiceFetch m d.regs i (d.vstate i)).events ++
      (voiceSample d.regs i (primed m i d)).events ++
      (voiceKeys d i (voiceReset (exposed m i d) (primed m i d))).events ++
      (voiceEnvelope d.ctr (exposed m i d) i (keyed m i d)).events ++
      if (enveloped m i d).2 then []
      else (voiceDecode m (exposed m i d) i (enveloped m i d).1).events := by
  simp only [voiceRun, Traced.events_bind, Traced.events_ite, List.append_assoc]
  simp only [Traced.events_pure, List.append_nil]
  rfl

end Stages

-- ════════════════════════════════════════════════════════════════════════
-- Fetch and attack delay
-- ════════════════════════════════════════════════════════════════════════

section Primed

variable (m : Mem) (i : Channel) (d : Dsp)

/-- Where the directory word is latched from: the base word of the entry during
    the attack delay, its loop word afterwards. -/
def latchPtr (regs : Regs) (i : Channel) (st : VState) : Word :=
  if st.attackDelay = 0 then voiceSrcnPointer regs (voice regs i) + 2
  else voiceSrcnPointer regs (voice regs i)

theorem voiceFetch_val (regs : Regs) (st : VState) :
    (voiceFetch m regs i st).val =
      { st with
        srcnPtr := latchPtr regs i st
        nextBrrAddr := m.word (latchPtr regs i st)
        pitch := voicePitch (voice regs i)
        brrHdr := m.aram st.brrAddr } := by
  simp only [voiceFetch, latchPtr]
  split <;> rfl

theorem voiceFetch_events (regs : Regs) (st : VState) :
    (voiceFetch m regs i st).events =
      [.aram (latchPtr regs i st + 1).toNat, .aram (latchPtr regs i st).toNat,
        .aram st.brrAddr.toNat] := by
  simp only [voiceFetch, latchPtr]
  split <;> rfl

@[simp] theorem primed_envMode : (primed m i d).envMode = (d.vstate i).envMode := by
  simp only [primed, voiceFetch_val, voiceAttackDelay]
  split_ifs <;> rfl

@[simp] theorem primed_buf : (primed m i d).buf = (d.vstate i).buf := by
  simp only [primed, voiceFetch_val, voiceAttackDelay]
  split_ifs <;> rfl

theorem primed_nextBrrAddr :
    (primed m i d).nextBrrAddr = m.word (latchPtr d.regs i (d.vstate i)) := by
  simp only [primed, voiceFetch_val, voiceAttackDelay]
  split_ifs <;> rfl

theorem primed_attackDelay :
    (primed m i d).attackDelay =
      if (d.vstate i).attackDelay = 0 then 0 else (d.vstate i).attackDelay - 1 := by
  simp only [primed, voiceFetch_val, voiceAttackDelay]
  split_ifs <;> simp_all

theorem primed_env :
    (primed m i d).env = if (d.vstate i).attackDelay = 0 then (d.vstate i).env else 0 := by
  simp only [primed, voiceFetch_val, voiceAttackDelay]
  split_ifs <;> simp_all

theorem primed_pitch :
    (primed m i d).pitch =
      if (d.vstate i).attackDelay = 0 then voicePitch (voice d.regs i) else 0 := by
  simp only [primed, voiceFetch_val, voiceAttackDelay]
  split_ifs <;> simp_all

theorem primed_interpPos :
    (primed m i d).interpPos =
      if (d.vstate i).attackDelay = 0 then (d.vstate i).interpPos
      else if ((d.vstate i).attackDelay - 1).toNat ≤ 3 then 0x4000 else 0 := by
  simp only [primed, voiceFetch_val, voiceAttackDelay]
  split_ifs <;> simp_all

theorem primed_brrAddr :
    (primed m i d).brrAddr =
      if (d.vstate i).attackDelay = 5 then m.word (latchPtr d.regs i (d.vstate i))
      else (d.vstate i).brrAddr := by
  simp only [primed, voiceFetch_val, voiceAttackDelay]
  split_ifs <;> simp_all

theorem primed_brrOff :
    (primed m i d).brrOff =
      if (d.vstate i).attackDelay = 5 then 1 else (d.vstate i).brrOff := by
  simp only [primed, voiceFetch_val, voiceAttackDelay]
  split_ifs <;> simp_all

theorem primed_bufPos :
    (primed m i d).bufPos =
      if (d.vstate i).attackDelay = 5 then 0 else (d.vstate i).bufPos := by
  simp only [primed, voiceFetch_val, voiceAttackDelay]
  split_ifs <;> simp_all

theorem primed_brrHdr :
    (primed m i d).brrHdr =
      if (d.vstate i).attackDelay = 5 then 0 else m.aram (d.vstate i).brrAddr := by
  simp only [primed, voiceFetch_val, voiceAttackDelay]
  split_ifs <;> simp_all

end Primed

-- ════════════════════════════════════════════════════════════════════════
-- Registers
-- ════════════════════════════════════════════════════════════════════════

section Registers

variable (m : Mem) (i : Channel) (d : Dsp)

/-- OUTX and ENVX are the only registers the output stage writes. -/
theorem voiceSample_regs (regs : Regs) (st : VState) {r : Fin 0x80}
    (hr : ¬ VoiceOwned i r) : (voiceSample regs i st).val.2 r = regs r := by
  have henvx : r ≠ vreg i vregEnvx := fun h => hr (Or.inl h)
  have houtx : r ≠ vreg i vregOutx := fun h => hr (Or.inr (Or.inl h))
  rw [voiceSample]
  simp only [Traced.val_bind, Traced.val_ite, Traced.val_pure]
  split_ifs <;> simp [henvx, houtx]

theorem exposed_apply {r : Fin 0x80} (hr : ¬ VoiceOwned i r) :
    exposed m i d r = d.regs r :=
  voiceSample_regs i d.regs _ hr

/-- ENDX is the only register the decode stage writes. -/
theorem voiceDecode_regs (regs : Regs) (st : VState) {r : Fin 0x80} (hr : r ≠ regEndx) :
    (voiceDecode m regs i st).val.2 r = regs r := by
  rw [voiceDecode]
  split
  · simp only [Traced.val_bind, Traced.val_ite]
    split_ifs <;> simp [hr]
  · rfl

theorem voiceEndx_apply (regs : Regs) (st : VState) {r : Fin 0x80} (hr : r ≠ regEndx) :
    voiceEndx regs i st r = regs r := by
  rw [voiceEndx]
  split <;> simp [hr]

/-- Nothing after the output stage writes a register but ENDX. -/
theorem voiceRun_exposed {r : Fin 0x80} (hr : r ≠ regEndx) :
    (voiceRun m i d).val.2.regs r = exposed m i d r := by
  rw [voiceRun_dsp]
  split
  · rfl
  · change voiceEndx (decoded m i d).2 i _ r = _
    rw [voiceEndx_apply i _ _ hr, decoded, voiceDecode_regs m i _ _ hr]

/-- **Register frame of a voice.** A call writes its own ENVX and OUTX, and
    ENDX, and nothing else. -/
theorem voiceRun_regs {r : Fin 0x80} (hr : ¬ VoiceOwned i r) :
    (voiceRun m i d).val.2.regs r = d.regs r := by
  have hendx : r ≠ regEndx := fun h => hr (Or.inr (Or.inr h))
  rw [voiceRun_exposed m i d hendx, exposed_apply m i d hr]

/-- The inputs of the voices are not written by a voice. -/
theorem voice_exposed (j : Channel) : voice (exposed m i d) j = voice d.regs j :=
  voice_congr j fun _ hr => exposed_apply m i d (vreg_not_owned i j (Or.inl hr))

/-- What a call returns: silence, or its sample panned with the volumes of the
    voice. -/
theorem voiceRun_sample :
    (voiceRun m i d).val.1 =
      if (enveloped m i d).2 then silence
      else pan (voiceSample d.regs i (primed m i d)).val.1.toInt (voice d.regs i).volL
        (voice d.regs i).volR := by
  have hvoice : ∀ st, voice (voiceEndx (decoded m i d).2 i st) i = voice d.regs i := by
    intro st
    refine voice_congr i fun r hr => ?_
    have hown := vreg_not_owned i i (Or.inl hr)
    have hendx : vreg i r ≠ regEndx := fun h => hown (Or.inr (Or.inr h))
    rw [voiceEndx_apply i _ st hendx, decoded, voiceDecode_regs m i _ _ hendx,
      exposed_apply m i d hown]
  simp only [voiceRun, Traced.val_bind, Traced.val_ite, apply_ite Prod.fst]
  refine if_congr Iff.rfl rfl ?_
  show pan _ (voice _ i).volL (voice _ i).volR = _
  rw [← hvoice (voiceApplyPitch (decoded m i d).1)]
  rfl

end Registers

-- ════════════════════════════════════════════════════════════════════════
-- Keys
-- ════════════════════════════════════════════════════════════════════════

section Keys

variable (m : Mem) (i : Channel) (d : Dsp)

/-- The key-on branch of voice `i` is taken. -/
def KeyedOn (d : Dsp) (i : Channel) : Prop :=
  d.toggle = false ∧ d.kon &&& channelBit i ≠ 0

/-- The key-off branch of voice `i` is taken. -/
def KeyedOff (d : Dsp) (i : Channel) : Prop :=
  d.toggle = false ∧ d.koff &&& channelBit i ≠ 0

instance (d : Dsp) (i : Channel) : Decidable (KeyedOn d i) :=
  inferInstanceAs (Decidable (_ ∧ _))

instance (d : Dsp) (i : Channel) : Decidable (KeyedOff d i) :=
  inferInstanceAs (Decidable (_ ∧ _))

theorem voiceCut_congr {regs regs' : Regs} (hflg : regs' regFlg = regs regFlg) (st : VState) :
    voiceCut regs' st ↔ voiceCut regs st := by
  rw [voiceCut, voiceCut, hflg]

/-- FLG is not written by a voice. -/
theorem voiceCut_exposed (st : VState) : voiceCut (exposed m i d) st ↔ voiceCut d.regs st := by
  have hflg : ¬ VoiceOwned i regFlg := by
    revert i
    decide
  exact voiceCut_congr (exposed_apply m i d hflg) st

theorem voiceKeys_val (st : VState) :
    (voiceKeys d i st).val =
      { st with
        envMode :=
          if KeyedOn d i then .attack
          else if KeyedOff d i then .release else st.envMode
        attackDelay := if KeyedOn d i then 5 else st.attackDelay } := by
  cases st
  unfold voiceKeys KeyedOn KeyedOff
  split_ifs <;> simp_all

theorem voiceKeys_events (st : VState) :
    (voiceKeys d i st).events = if KeyedOn d i then [.keyOn] else [] := by
  unfold voiceKeys KeyedOn
  split_ifs <;> simp_all

/-- The keys and resets move the envelope stage, the level and the countdown
    and leave the decoder of the voice alone. -/
theorem keyed_eq :
    keyed m i d =
      { primed m i d with
        env := if voiceCut d.regs (primed m i d) then 0 else (primed m i d).env
        envMode :=
          if KeyedOn d i then .attack
          else if KeyedOff d i ∨ voiceCut d.regs (primed m i d) then .release
          else (primed m i d).envMode
        attackDelay := if KeyedOn d i then 5 else (primed m i d).attackDelay } := by
  rw [keyed, voiceKeys_val, voiceReset]
  simp only [voiceCut_exposed]
  split_ifs <;> simp_all

end Keys

-- ════════════════════════════════════════════════════════════════════════
-- Envelope
-- ════════════════════════════════════════════════════════════════════════

section Envelope

variable (m : Mem) (i : Channel) (d : Dsp)

/-- Committing an envelope moves the level and the stage only. -/
theorem commitEnvelope_eq (ctr : Counters) (st : VState) (target : Byte) (ret : Envelope) :
    ∃ env mode, (commitEnvelope ctr st target ret).val =
      { st with env := env, envMode := mode } := by
  rw [commitEnvelope]
  simp only [Traced.val_bind, Traced.val_pure]
  split_ifs <;> exact ⟨_, _, rfl⟩

/-- The envelope moves the level and the stage only. -/
theorem runEnvelope_eq (ctr : Counters) (st : VState) (adsr1 adsr2 gain : Byte) :
    ∃ env mode, (runEnvelope ctr st adsr1 adsr2 gain).val =
      { st with env := env, envMode := mode } := by
  rw [runEnvelope]
  split_ifs
  · simp only [Traced.val_pure, envelopeRelease]
    split <;> exact ⟨_, _, rfl⟩
  · exact commitEnvelope_eq ctr st _ _
  · exact commitEnvelope_eq ctr st _ _

theorem commitEnvelope_envMode (ctr : Counters) (st : VState) (target : Byte)
    (ret : Envelope) (h : st.envMode ≠ .release) :
    (commitEnvelope ctr st target ret).val.envMode ≠ .release := by
  rw [commitEnvelope]
  simp only [Traced.val_bind, Traced.val_pure]
  split_ifs <;> simp_all

/-- No envelope step enters or leaves the release stage. -/
theorem runEnvelope_release_iff (ctr : Counters) (st : VState) (adsr1 adsr2 gain : Byte) :
    (runEnvelope ctr st adsr1 adsr2 gain).val.envMode = .release ↔ st.envMode = .release := by
  rw [runEnvelope]
  split_ifs with hmode
  · simp only [Traced.val_pure, envelopeRelease]
    split <;> simp [hmode]
  · exact iff_of_false (commitEnvelope_envMode ctr st _ _ hmode) hmode
  · exact iff_of_false (commitEnvelope_envMode ctr st _ _ hmode) hmode

theorem runEnvelope_of_release (ctr : Counters) {st : VState} (adsr1 adsr2 gain : Byte)
    (h : st.envMode = .release) :
    (runEnvelope ctr st adsr1 adsr2 gain).val = envelopeRelease st := by
  simp [runEnvelope, h]

/-- The call of voice `i` returns silence early: the attack delay is over, the
    voice is released, and its level is within one step of zero. -/
def FallsSilent : Prop :=
  (keyed m i d).attackDelay = 0 ∧ (keyed m i d).envMode = .release ∧ (keyed m i d).env ≤ 8

instance : Decidable (FallsSilent m i d) := inferInstanceAs (Decidable (_ ∧ _ ∧ _))

theorem envelopeRelease_env_eq_zero {st : VState} :
    (envelopeRelease st).env = 0 ↔ st.env ≤ 8 := by
  rw [envelopeRelease]
  split
  · next h =>
    change st.env - 8 = 0 ↔ _
    omega
  · next h => simpa using h

/-- The envelope stage in terms of `runEnvelope`. -/
theorem enveloped_eq :
    enveloped m i d =
      if (keyed m i d).attackDelay = 0 then
        let v := voice d.regs i
        let st := (runEnvelope d.ctr (keyed m i d) v.adsr1 v.adsr2 v.gain).val
        (st, decide (st.envMode = .release ∧ st.env = 0))
      else (keyed m i d, false) := by
  rw [enveloped, voiceEnvelope]
  rw [voice_exposed]
  split_ifs with h
  · simp only [Traced.val_bind, Traced.val_ite, Traced.val_pure]
    split_ifs with hs <;> simp [hs]
  · rfl

/-- A call falls silent exactly when its inputs say so. -/
theorem enveloped_silent_iff : (enveloped m i d).2 = true ↔ FallsSilent m i d := by
  rw [enveloped_eq, FallsSilent]
  by_cases h : (keyed m i d).attackDelay = 0
  · simp only [h, if_true, decide_eq_true_eq, runEnvelope_release_iff, true_and]
    constructor
    · rintro ⟨hmode, henv⟩
      rw [runEnvelope_of_release _ _ _ _ hmode, envelopeRelease_env_eq_zero] at henv
      exact ⟨hmode, henv⟩
    · rintro ⟨hmode, henv⟩
      rw [runEnvelope_of_release _ _ _ _ hmode, envelopeRelease_env_eq_zero]
      exact ⟨hmode, henv⟩
  · rw [if_neg h]
    exact iff_of_false Bool.false_ne_true fun hs => h hs.1

theorem enveloped_attackDelay :
    (enveloped m i d).1.attackDelay =
      if KeyedOn d i then 5 else (primed m i d).attackDelay := by
  have hk : (keyed m i d).attackDelay =
      if KeyedOn d i then 5 else (primed m i d).attackDelay := by rw [keyed_eq]
  rw [← hk, enveloped_eq]
  split
  · obtain ⟨env, mode, h⟩ := runEnvelope_eq d.ctr (keyed m i d) (voice d.regs i).adsr1
      (voice d.regs i).adsr2 (voice d.regs i).gain
    have hdelay := congrArg VState.attackDelay h
    exact hdelay
  · rfl

/-- The stages before the decoder move the envelope stage, the level and the
    countdown: whatever does not look at these is as after `primed`. -/
theorem enveloped_field {β : Type} (f : VState → β)
    (hf : ∀ st env mode delay,
      f { st with env := env, envMode := mode, attackDelay := delay } = f st) :
    f (enveloped m i d).1 = f (primed m i d) := by
  have hkeyed : f (keyed m i d) = f (primed m i d) := by
    rw [keyed_eq]
    exact hf ..
  rw [enveloped_eq, ← hkeyed]
  split
  · obtain ⟨env, mode, h⟩ := runEnvelope_eq d.ctr (keyed m i d) (voice d.regs i).adsr1
      (voice d.regs i).adsr2 (voice d.regs i).gain
    have hf' := (congrArg f h).trans (hf (keyed m i d) env mode _)
    exact hf'
  · rfl

@[simp] theorem enveloped_interpPos :
    (enveloped m i d).1.interpPos = (primed m i d).interpPos :=
  enveloped_field m i d VState.interpPos fun _ _ _ _ => rfl

@[simp] theorem enveloped_buf : (enveloped m i d).1.buf = (d.vstate i).buf :=
  (enveloped_field m i d VState.buf fun _ _ _ _ => rfl).trans (primed_buf m i d)

@[simp] theorem enveloped_bufPos :
    (enveloped m i d).1.bufPos = (primed m i d).bufPos :=
  enveloped_field m i d VState.bufPos fun _ _ _ _ => rfl

@[simp] theorem enveloped_brrOff :
    (enveloped m i d).1.brrOff = (primed m i d).brrOff :=
  enveloped_field m i d VState.brrOff fun _ _ _ _ => rfl

@[simp] theorem enveloped_brrAddr :
    (enveloped m i d).1.brrAddr = (primed m i d).brrAddr :=
  enveloped_field m i d VState.brrAddr fun _ _ _ _ => rfl

@[simp] theorem enveloped_brrHdr :
    (enveloped m i d).1.brrHdr = (primed m i d).brrHdr :=
  enveloped_field m i d VState.brrHdr fun _ _ _ _ => rfl

@[simp] theorem enveloped_nextBrrAddr :
    (enveloped m i d).1.nextBrrAddr = (primed m i d).nextBrrAddr :=
  enveloped_field m i d VState.nextBrrAddr fun _ _ _ _ => rfl

@[simp] theorem enveloped_pitch :
    (enveloped m i d).1.pitch = (primed m i d).pitch :=
  enveloped_field m i d VState.pitch fun _ _ _ _ => rfl

end Envelope

-- ════════════════════════════════════════════════════════════════════════
-- Decoder
-- ════════════════════════════════════════════════════════════════════════

section Decode
variable (m : Mem) (st : VState)

/-- The filter bits of a header are one of the four cases of the switch. -/
theorem filter_cases (hdr : Byte) :
    hdr &&& (0x03 <<< 2) = 0 <<< 2 ∨ hdr &&& (0x03 <<< 2) = 1 <<< 2 ∨
      hdr &&& (0x03 <<< 2) = 2 <<< 2 ∨ hdr &&& (0x03 <<< 2) = 3 <<< 2 := by
  revert hdr
  decide

theorem brrPredict_events (hdr : Byte) (in0 in1 : BrrPair) (prev : BrrFilterState) :
    (brrPredict (hdr &&& (0x03 <<< 2)) in0 in1 prev).events = [] := by
  rw [brrPredict]
  rcases filter_cases hdr with h | h | h | h <;> rw [h] <;> rfl

/-- The voice when the two data bytes of the group were fetched. -/
def fetched : VState := { st with brrOff := st.brrOff + 1 + 1 }

/-- The four unclamped predictions of the group a voice decodes next. -/
def groupOf : Int × Int × Int × Int :=
  let scale := (st.brrHdr >>> 4).toNat
  let shift := if scale > 12 then 12 else scale
  let index := st.brrAddr.toNat + st.brrOff.toNat
  let index' := st.brrAddr.toNat + (st.brrOff + 1).toNat
  (brrPredict (st.brrHdr &&& (0x03 <<< 2))
    (brrPairScale (brrPairExtract (m.load index)) shift)
    (brrPairScale (brrPairExtract (m.load index')) shift) (vfilterState st).val).val

theorem brrSample4_val :
    (brrSample4 m st).val =
      (brrStore4 (fetched st) (groupOf m st).1 (groupOf m st).2.1 (groupOf m st).2.2.1
        (groupOf m st).2.2.2).val := by
  simp only [brrSample4, Traced.val_bind, brrByte, groupOf, fetched]

theorem brrSample4_events :
    (brrSample4 m st).events =
      .decode st.brrAddr st.brrOff :: (vfilterState st).events ++
      [.brrByte (st.brrAddr.toNat + st.brrOff.toNat),
        .brrByte (st.brrAddr.toNat + (st.brrOff + 1).toNat)] ++
      (brrStore4 (fetched st) (groupOf m st).1 (groupOf m st).2.1 (groupOf m st).2.2.1
        (groupOf m st).2.2.2).events := by
  simp only [brrSample4, Traced.events_bind, brrPredict_events, brrByte, groupOf, fetched,
    Traced.events_emit, List.nil_append, List.append_assoc, List.cons_append]

/-- `buf[index] = val` on the ring alone. -/
def bufSet (buf : Fin 12 → Short) (index : Int) (val : Short) : Fin 12 → Short :=
  if h : index.toNat < 12 then Function.update buf ⟨index.toNat, h⟩ val else buf

theorem bufStore_val (index : Int) (val : Short) :
    (bufStore st index val).val = { st with buf := bufSet st.buf index val } := by
  rw [bufStore, bufSet]
  split <;> rfl

@[simp] theorem bufStore_events (index : Int) (val : Short) :
    (bufStore st index val).events = [.ring index] := rfl

/-- The ring after a group of four was stored from position `pos` on. -/
def bufSet4 (buf : Fin 12 → Short) (pos : Nat) (a b c d : Int) : Fin 12 → Short :=
  bufSet (bufSet (bufSet (bufSet buf (pos + 0) (clamp16 a)) (pos + 1) (clamp16 b))
    (pos + 2) (clamp16 c)) (pos + 3) (clamp16 d)

/-- The ring position after a group of four. -/
def nextBufPos (pos : Byte) : Byte := if (pos + 4).toNat ≥ brrBufSz then 0 else pos + 4

theorem brrStore4_val (a b c d : Int) :
    (brrStore4 st a b c d).val =
      { st with
        buf := bufSet4 st.buf st.bufPos.toNat a b c d
        bufPos := nextBufPos st.bufPos } := by
  simp only [brrStore4, Traced.val_bind, bufStore_val, Traced.val_pure, nextBufPos, bufSet4]
  split <;> rfl

theorem brrStore4_events (a b c d : Int) :
    (brrStore4 st a b c d).events =
      [.ring (st.bufPos.toNat + 0), .ring (st.bufPos.toNat + 1), .ring (st.bufPos.toNat + 2),
        .ring (st.bufPos.toNat + 3),
        .stored [clamp16 a, clamp16 b, clamp16 c, clamp16 d]] := by
  simp only [brrStore4, Traced.events_bind, bufStore_events, bufStore_val, Traced.events_emit,
    Traced.events_pure]
  rfl

/-- Go to the next block when this one is used up. -/
def blockEnd (st : VState) : VState :=
  if st.brrOff.toNat ≥ brrBlockSize.toNat then
    { st with
      brrAddr :=
        if st.brrHdr &&& brrEnd ≠ 0 then st.nextBrrAddr
        else st.brrAddr + brrBlockSize.setWidth 16
      brrOff := 1 }
  else st

theorem voiceDecode_val (regs : Regs) (i : Channel) :
    (voiceDecode m regs i st).val.1 =
      if st.interpPos ≥ 0x4000 then blockEnd (brrSample4 m st).val else st := by
  rw [voiceDecode, blockEnd]
  split
  · simp only [Traced.val_bind, Traced.val_ite, apply_ite Prod.fst, Traced.val_pure]
    split_ifs <;> rfl
  · rfl

theorem voiceDecode_events (regs : Regs) (i : Channel) :
    (voiceDecode m regs i st).events =
      if st.interpPos ≥ 0x4000 then (brrSample4 m st).events else [] := by
  rw [voiceDecode]
  split
  · simp
  · rfl
end Decode

end SpuKit
