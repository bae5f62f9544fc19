import SpuKit.Dsp.IntExprs

/-!
# The ranges of the integer expressions

No expression of a sample leaves the range of `int`, and the envelope keeps a
sample so far inside 16 bits that scaling it by a volume, even by -128, stays
in 16 bits.

## Main definitions

- `voiceVal`, `mixVal` — the values the expressions are evaluated on
- `sampleInts` — the values of all expressions of a `next_sample` call

## Main results

- `interpolate_eval`, `groupOf_eval`, `runAdsrEnv_eval`, `runGainEnv_eval`,
  `pan_eval`, `echoFilter_eval`, `masterMix_eval` — what the expressions compute
- `voice_results_mem`, `mix_results_mem`, `blend_results_mem` — what a call
  computes is among the values
- `voiceVal_mem`, `mixVal_mem` — the variables are in range
- `sample_ints_fit` — all values of a call fit
-/

namespace SpuKit

open CInt CInt.Expr

section Voice

variable (m : Mem) (i : Channel) (d : Dsp)

/-- The sample before the envelope: the interpolation, or 0 for noise. -/
def soundOf (regs : Regs) (st : VState) : Short :=
  if regs regNon &&& channelBit i ≠ 0 then 0 else toShort (interpolate st).val

/-- The values of the variables in a call of `voice_run`. -/
def voiceVal : VoiceVar → Int
  | .nibble k => ((enveloped m i d).1.groupAt.nibble m k).toInt
  | .input k => (enveloped m i d).1.groupAt.input m k
  | .older => (vfilterState (enveloped m i d).1).val.older.toInt
  | .old => (vfilterState (enveloped m i d).1).val.old.toInt
  | .brrAddr => (enveloped m i d).1.brrAddr.toNat
  | .brrOff k => ((enveloped m i d).1.brrOff + BitVec.ofNat 8 k).toNat
  | .tap j => gaussTap (phase (primed m i d)) j
  | .ring j => tapSample (primed m i d) j
  | .interpPos => (primed m i d).interpPos
  | .sample => (soundOf i d.regs (primed m i d)).toInt
  | .env => (primed m i d).env
  | .scaled => (voiceSample d.regs i (primed m i d)).val.1.toInt
  | .volL => (voice d.regs i).volL.toInt
  | .volR => (voice d.regs i).volR.toInt
  | .level => (keyed m i d).env
  | .adsr1 => (voice d.regs i).adsr1.toNat
  | .adsr2 => (voice d.regs i).adsr2.toNat
  | .gain => (voice d.regs i).gain.toNat
  | .cursor => (primed m i d).interpPos
  | .pitch => (primed m i d).pitch.toNat
  | .dir => (d.regs regDir).toNat
  | .srcn => (voice d.regs i).srcn.toNat
  | .srcnPtr => (voiceSrcnPointer d.regs (voice d.regs i)).toNat
  | .latchPtr => (latchPtr d.regs i (d.vstate i)).toNat
  | .entryHi => (m.aram (latchPtr d.regs i (d.vstate i) + 1)).toNat
  | .bufPos => (primed m i d).bufPos.toNat
  | .delay => (d.vstate i).attackDelay.toNat

/-- The ranges of the variables. -/
def voiceRange : VoiceVar → Interval
  | .nibble _ => ⟨-8, 7⟩
  | .input _ | .older | .old | .ring _ | .sample => ⟨-0x8000, 0x7fff⟩
  | .brrAddr | .srcnPtr | .latchPtr => ⟨0, 0xffff⟩
  | .brrOff _ | .adsr1 | .adsr2 | .gain | .dir | .srcn | .entryHi | .bufPos | .delay => ⟨0, 0xff⟩
  | .tap _ | .interpPos | .cursor => ⟨0, 0x7fff⟩
  | .env | .level => ⟨0, 0x7ff⟩
  | .scaled => ⟨-32752, 32751⟩
  | .volL | .volR => ⟨-0x80, 0x7f⟩
  | .pitch => ⟨0, 0x3fff⟩

/-- The values of all expressions of a call of `voice_run`. -/
def voiceInts : List Int := voiceExprs.flatMap (values (voiceVal m i d))

-- ────────────────────────────────────────────────────────────────────────
-- What the expressions compute
-- ────────────────────────────────────────────────────────────────────────

theorem interpolate_eval :
    interpolateExpr.eval (voiceVal m i d) = (interpolate (primed m i d)).val := by
  have hzero : ∀ a b c d : Int, 0 + a + b + c + d = a + b + c + d := by
    intro a b c d
    omega
  show (0 + _ + _ + _ + _ : Int) - (0 + _ + _ + _ + _ : Int) % 2 ^ 1 = _
  rw [hzero]
  rfl

theorem scaledExpr_eval (σ : VoiceVar → Int) :
    scaledExpr.eval σ = (σ .sample * σ .env) >>> (11 : Nat) -
      (σ .sample * σ .env) >>> (11 : Nat) % 2 := rfl

theorem voiceSample_eval :
    (voiceSample d.regs i (primed m i d)).val.1 =
      if (primed m i d).env ≠ 0 then toShort (scaledExpr.eval (voiceVal m i d)) else 0 := by
  rw [voiceSample]
  by_cases henv : (primed m i d).env ≠ 0
  · rw [if_pos henv, if_pos henv]
    by_cases hnon : d.regs regNon &&& channelBit i ≠ 0
    · have hsound : voiceVal m i d .sample = (0 : Short).toInt :=
        congrArg BitVec.toInt (if_pos hnon)
      rw [if_pos hnon]
      rw [scaledExpr_eval, hsound]
      rfl
    · have hsound : voiceVal m i d .sample = (toShort (interpolate (primed m i d)).val).toInt :=
        congrArg BitVec.toInt (if_neg hnon)
      rw [if_neg hnon]
      rw [scaledExpr_eval, hsound]
      rfl
  · rw [if_neg henv, if_neg henv]
    rfl

theorem pan_eval :
    pan (voiceSample d.regs i (primed m i d)).val.1.toInt (voice d.regs i).volL
        (voice d.regs i).volR =
      ⟨toShort ((scaleExpr (voiceVar .scaled) (voiceVar .volL)).eval (voiceVal m i d)),
        toShort ((scaleExpr (voiceVar .scaled) (voiceVar .volR)).eval (voiceVal m i d))⟩ := rfl

/-- The predictions of a group, as the filters compute them. -/
theorem predictExprs_eval (σ : VoiceVar → Int) (hdr : Byte) :
    (predictExprs (hdr &&& (0x03 <<< 2))).map (eval σ) =
      Predictor.closedLoop id
        ((List.finRange 4).map fun k p q => σ (.input k) + predictor (hdr &&& (0x03 <<< 2)) p q)
        (σ .old, σ .older) := by
  rcases filter_cases hdr with h | h | h | h
  · simp only [h, add_predictor0]
    rfl
  · simp only [h, add_predictor1]
    rfl
  · simp only [h, add_predictor2]
    rfl
  · simp only [h, add_predictor3]
    rfl

theorem groupOf_eval :
    let st := (enveloped m i d).1
    [(groupOf m st).1, (groupOf m st).2.1, (groupOf m st).2.2.1, (groupOf m st).2.2.2] =
      (predictExprs st.groupAt.filter).map (eval (voiceVal m i d)) :=
  (groupOf_eq m (enveloped m i d).1).trans (predictExprs_eval (voiceVal m i d) _).symm

theorem pairScale_eval (k : Fin 4) :
    (toShort ((pairScaleExpr (enveloped m i d).1.groupAt.shift (voiceVar (.nibble k))).eval
      (voiceVal m i d))).toInt = voiceVal m i d (.input k) :=
  ((enveloped m i d).1.groupAt.nibble_spec m k).2.1

/-- The prospective level and the rate of an ADSR envelope. -/
theorem runAdsrEnv_eval (hmode : (keyed m i d).envMode ≠ .release) :
    let ret := (runAdsrEnv (keyed m i d) (voice d.regs i).adsr1 (voice d.regs i).adsr2).val
    ret.env = (adsrEnvExpr (keyed m i d).envMode (ret.rate = 0x1f)).eval (voiceVal m i d) ∧
      ret.rate = (adsrRateExpr (keyed m i d).envMode).eval (voiceVal m i d) := by
  have hattack : ∀ b : Byte, ((b &&& adsr1AttackRateMask).toNat : Int) = b.toNat % 2 ^ 4 := by
    decide +kernel
  have hsustain : ∀ b : Byte, ((b &&& adsr2SustainRateMask).toNat : Int) = b.toNat % 2 ^ 5 := by
    decide +kernel
  have hdecay : ∀ b : Byte, (((b >>> adsr1DecayRateShift) &&& adsr1DecayRateMask).toNat : Int) =
      (b.toNat : Int) >>> (3 : Nat) % 2 ^ 4 - (b.toNat : Int) >>> (3 : Nat) % 2 ^ 4 % 2 ^ 1 := by
    decide +kernel
  intro ret
  cases hcase : (keyed m i d).envMode with
  | release => exact absurd hcase hmode
  | attack =>
    have hret : ret =
        { env := (keyed m i d).env +
            (if ((voice d.regs i).adsr1 &&& adsr1AttackRateMask).toNat * 2 + 1 = 0x1f then 0x400
              else 0x20)
          rate := ((voice d.regs i).adsr1 &&& adsr1AttackRateMask).toNat * 2 + 1 } := by
      simp only [ret, runAdsrEnv, hcase]
      rfl
    rw [hret]
    constructor
    · show _ = (adsrEnvExpr .attack _).eval _
      by_cases hrate : ((voice d.regs i).adsr1 &&& adsr1AttackRateMask).toNat * 2 + 1 = 0x1f
      · simp only [hrate]
        rfl
      · simp only [hrate]
        rfl
    · show ((_ * 2 + 1 : Nat) : Int) = (voice d.regs i).adsr1.toNat % 2 ^ 4 * 2 + 1
      rw [← hattack]
      rfl
  | decay =>
    have hret : ret.rate = 0x10 +
        (((voice d.regs i).adsr1 >>> adsr1DecayRateShift) &&& adsr1DecayRateMask).toNat := by
      simp only [ret, runAdsrEnv, hcase]
      rfl
    constructor
    · simp only [ret, runAdsrEnv, hcase]
      rfl
    · rw [hret, Nat.cast_add, hdecay]
      rfl
  | sustain =>
    constructor
    · simp only [ret, runAdsrEnv, hcase]
      rfl
    · simp only [ret, runAdsrEnv, hcase]
      exact hsustain (voice d.regs i).adsr2

/-- The prospective level of a GAIN envelope. -/
theorem runGainEnv_eval :
    (runGainEnv (keyed m i d) (voice d.regs i).gain).val.env ∈
      gainEnvExprs.map (eval (voiceVal m i d)) := by
  have hmode : ∀ gain : Byte, let mode := (gain >>> gainModeShift) &&& gainModeMask
      mode = 0 ∨ mode = 1 ∨ mode = 2 ∨ mode = 3 := by decide
  rw [runGainEnv]
  split_ifs with hcustom h0 h1 h23
  · exact List.mem_cons_self
  · exact List.mem_cons_of_mem _ List.mem_cons_self
  · exact List.mem_cons_of_mem _ (List.mem_cons_of_mem _ List.mem_cons_self)
  · exact List.mem_cons_of_mem _ (List.mem_cons_of_mem _ (List.mem_cons_of_mem _
      List.mem_cons_self))
  · rcases hmode (voice d.regs i).gain with h | h | h
    · exact absurd h h0
    · exact absurd h h1
    · exact absurd h h23

theorem nextPos_eval :
    nextPos (primed m i d) = min 0x7fff (cursorExpr.eval (voiceVal m i d)) := rfl

variable {m i d} in
theorem mem_voiceInts {e : Expr VoiceVar} (he : e ∈ voiceExprs) :
    e.eval (voiceVal m i d) ∈ voiceInts m i d :=
  List.mem_flatMap.mpr ⟨e, he, eval_mem_values _ e⟩

theorem decodeExprs_subset : decodeExprs ⊆ voiceExprs := by
  intro e he
  simp only [voiceExprs, List.mem_append, he, true_or, or_true]

theorem predictExprs_subset (hdr : Byte) : predictExprs (hdr &&& (0x03 <<< 2)) ⊆ voiceExprs := by
  have hfilter : hdr &&& (0x03 <<< 2) ∈ ([0 <<< 2, 1 <<< 2, 2 <<< 2, 3 <<< 2] : List Byte) := by
    rcases filter_cases hdr with h | h | h | h <;> rw [h] <;> decide
  intro e he
  apply decodeExprs_subset
  apply List.mem_append_right
  apply List.mem_append_left
  exact List.mem_flatMap.mpr ⟨_, hfilter, he⟩

theorem pairScaleExpr_mem (g : GroupAt) (k : Fin 4) :
    pairScaleExpr g.shift (voiceVar (.nibble k)) ∈ voiceExprs := by
  have hshift : g.shift ∈ List.range 13 := by
    rw [List.mem_range, GroupAt.shift]
    split <;> omega
  have hpair : pairScaleExpr g.shift (voiceVar (.nibble k)) ∈
      (List.finRange 4).map fun k => pairScaleExpr g.shift (voiceVar (.nibble k)) :=
    List.mem_map_of_mem (List.mem_finRange k)
  apply decodeExprs_subset
  apply List.mem_append_left
  apply List.mem_append_right
  exact List.mem_flatMap.mpr ⟨_, hshift, hpair⟩

theorem envelopeExprs_subset : envelopeExprs ⊆ voiceExprs := by
  intro e he
  simp only [voiceExprs, List.mem_append, he, true_or, or_true]

theorem levelExprs_subset : levelExprs ⊆ voiceExprs := by
  intro e he
  apply envelopeExprs_subset
  simp only [envelopeExprs, List.mem_append, he, true_or, or_true]

theorem adsrEnvExpr_mem {mode : EnvState} (hmode : mode ≠ .release) (fastest : Bool) :
    adsrEnvExpr mode fastest ∈ voiceExprs := by
  apply levelExprs_subset
  apply List.mem_append_left
  cases mode with
  | release => exact absurd rfl hmode
  | attack =>
    cases fastest with
    | true => exact List.mem_cons_self
    | false => exact List.mem_cons_of_mem _ List.mem_cons_self
  | sustain => exact List.mem_cons_of_mem _ (List.mem_cons_of_mem _ List.mem_cons_self)
  | decay => exact List.mem_cons_of_mem _ (List.mem_cons_of_mem _ List.mem_cons_self)

theorem adsrRateExpr_mem {mode : EnvState} (hmode : mode ≠ .release) :
    adsrRateExpr mode ∈ voiceExprs := by
  apply envelopeExprs_subset
  apply List.mem_append_left
  apply List.mem_append_left
  apply List.mem_append_left
  cases mode with
  | release => exact absurd rfl hmode
  | attack => exact List.mem_cons_self
  | sustain => exact List.mem_cons_of_mem _ List.mem_cons_self
  | decay => exact List.mem_cons_of_mem _ (List.mem_cons_of_mem _ List.mem_cons_self)

/-- **What a call computes** is among the values of the expressions: the
    interpolation, the sample behind the envelope and both outputs, the levels
    and the rate of the envelope, the predictions of a group and the new
    position. -/
theorem voice_results_mem :
    let st := primed m i d
    let sample := (voiceSample d.regs i st).val.1.toInt
    let adsr := (runAdsrEnv (keyed m i d) (voice d.regs i).adsr1 (voice d.regs i).adsr2).val
    let group := groupOf m (enveloped m i d).1
    (interpolate st).val ∈ voiceInts m i d ∧
      (∃ l ∈ voiceInts m i d, ∃ r ∈ voiceInts m i d,
        pan sample (voice d.regs i).volL (voice d.regs i).volR = ⟨toShort l, toShort r⟩) ∧
      ((keyed m i d).envMode ≠ .release →
        adsr.env ∈ voiceInts m i d ∧ (adsr.rate : Int) ∈ voiceInts m i d) ∧
      (runGainEnv (keyed m i d) (voice d.regs i).gain).val.env ∈ voiceInts m i d ∧
      (∀ k, ∃ v ∈ voiceInts m i d,
        (toShort v).toInt = (enveloped m i d).1.groupAt.input m k) ∧
      [group.1, group.2.1, group.2.2.1, group.2.2.2] ⊆ voiceInts m i d ∧
      ∃ pos ∈ voiceInts m i d, nextPos st = min 0x7fff pos := by
  intro st sample adsr group
  refine ⟨?_, ?_, ?_, ?_, ?_, ?_, ?_⟩
  · rw [← interpolate_eval]
    apply mem_voiceInts
    simp only [voiceExprs, outputExprs, List.mem_append, List.mem_cons, true_or, or_true]
  · have hleft : scaleExpr (voiceVar .scaled) (voiceVar .volL) ∈ voiceExprs := by
      simp only [voiceExprs, List.mem_append, List.mem_cons, true_or, or_true]
    have hright : scaleExpr (voiceVar .scaled) (voiceVar .volR) ∈ voiceExprs := by
      simp only [voiceExprs, List.mem_append, List.mem_cons, true_or, or_true]
    exact ⟨_, mem_voiceInts hleft, _, mem_voiceInts hright, pan_eval m i d⟩
  · intro hmode
    obtain ⟨henv, hrate⟩ := runAdsrEnv_eval m i d hmode
    rw [henv, hrate]
    exact ⟨mem_voiceInts (adsrEnvExpr_mem hmode _), mem_voiceInts (adsrRateExpr_mem hmode)⟩
  · obtain ⟨e, he, heval⟩ := List.mem_map.mp (runGainEnv_eval m i d)
    rw [← heval]
    exact mem_voiceInts (levelExprs_subset (List.mem_append_right _ he))
  · intro k
    exact ⟨_, mem_voiceInts (pairScaleExpr_mem _ k), pairScale_eval m i d k⟩
  · have heval := groupOf_eval m i d
    intro u hu
    obtain ⟨e, he, rfl⟩ := List.mem_map.mp (heval ▸ hu)
    exact mem_voiceInts (predictExprs_subset _ he)
  · have hmem : cursorExpr ∈ voiceExprs := by
      simp only [voiceExprs, List.mem_append, List.mem_cons, true_or, or_true]
    exact ⟨_, mem_voiceInts hmem, nextPos_eval m i d⟩

-- ────────────────────────────────────────────────────────────────────────
-- The variables are in range
-- ────────────────────────────────────────────────────────────────────────

theorem short_mem (v : Short) : v.toInt ∈ (⟨-0x8000, 0x7fff⟩ : Interval) := short_bounds v

theorem int8_mem (v : Byte) : v.toInt ∈ (⟨-0x80, 0x7f⟩ : Interval) :=
  ⟨BitVec.le_toInt v, BitVec.toInt_le⟩

theorem byte_mem (v : Byte) : (v.toNat : Int) ∈ (⟨0, 0xff⟩ : Interval) := by
  have hlt := v.isLt
  show 0 ≤ (v.toNat : Int) ∧ (v.toNat : Int) ≤ 0xff
  omega

theorem word_mem (v : Word) : (v.toNat : Int) ∈ (⟨0, 0xffff⟩ : Interval) := by
  have hlt := v.isLt
  show 0 ≤ (v.toNat : Int) ∧ (v.toNat : Int) ≤ 0xffff
  omega

/-- **The headroom of the envelope**: its levels stay below 2048, the scale of
    the shift, so that a scaled sample keeps 16 away from -32768. -/
theorem scaled_mem {sample env : Int} (hsample : sample ∈ (⟨-0x8000, 0x7fff⟩ : Interval))
    (henv : 0 ≤ env ∧ env ≤ 0x7ff) :
    (sample * env) >>> (11 : Nat) - (sample * env) >>> (11 : Nat) % 2 ∈
      (⟨-32752, 32751⟩ : Interval) :=
  Interval.clear_mem (Interval.shr_mem (Interval.mul_mem hsample (J := ⟨0, 0x7ff⟩) henv) 11) 1

theorem voiceSample_mem (h : (d.vstate i).Wf) :
    (voiceSample d.regs i (primed m i d)).val.1.toInt ∈ (⟨-32752, 32751⟩ : Interval) := by
  have hscaled : scaledExpr.eval (voiceVal m i d) ∈ (⟨-32752, 32751⟩ : Interval) :=
    scaled_mem (short_mem (soundOf i d.regs (primed m i d))) (primed_env_bounded m i d h)
  have hlo : -0x8000 ≤ scaledExpr.eval (voiceVal m i d) := le_trans (by decide) hscaled.1
  have hhi : scaledExpr.eval (voiceVal m i d) ≤ 0x7fff := hscaled.2.trans (by decide)
  rw [voiceSample_eval]
  split
  · rw [toInt_toShort hlo hhi]
    exact hscaled
  · decide

theorem voiceVal_mem (h : (d.vstate i).Wf) (x : VoiceVar) :
    voiceVal m i d x ∈ voiceRange x := by
  cases x with
  | nibble k => exact ((enveloped m i d).1.groupAt.nibble_spec m k).1
  | input k =>
    have hinput := ((enveloped m i d).1.groupAt.nibble_spec m k).2.2
    show -0x8000 ≤ _ ∧ _ ≤ 0x7fff
    exact ⟨le_trans (by decide) hinput.1, hinput.2.trans (by decide)⟩
  | older => exact short_mem _
  | old => exact short_mem _
  | brrAddr | srcnPtr | latchPtr => exact word_mem _
  | brrOff | dir | srcn | entryHi | bufPos | delay => exact byte_mem _
  | tap j => exact gaussTap_bounds _ j
  | ring j => exact tapSample_bounds _ j
  | interpPos => exact primed_interpPos_bounded m i d h
  | sample => exact short_mem _
  | env => exact primed_env_bounded m i d h
  | scaled => exact voiceSample_mem m i d h
  | volL => exact int8_mem _
  | volR => exact int8_mem _
  | level => exact keyed_env_bounded m i d h
  | adsr1 => exact byte_mem _
  | adsr2 => exact byte_mem _
  | gain => exact byte_mem _
  | cursor => exact primed_interpPos_bounded m i d h
  | pitch =>
    have hlt := primed_pitch_lt m i d
    show 0 ≤ ((primed m i d).pitch.toNat : Int) ∧ ((primed m i d).pitch.toNat : Int) ≤ 0x3fff
    omega

/-- All values of a call of a well-formed voice fit. -/
theorem voiceInts_fit (h : (d.vstate i).Wf) : ∀ v ∈ voiceInts m i d, InInt v :=
  values_inInt (voiceVal_mem m i d h) (by decide +kernel)

end Voice

section Mix

variable (m : Mem) (mainOut echoOut : Sample) (d : Dsp)

/-- The values of the variables behind the voices, on one channel. The filter
    reads its taps from the finished history. -/
def mixVal (side : Side) : MixVar → Int
  | .word => (m.word (side.echoAddr d)).toInt
  | .hist k => (side.of ((histWritten m d).echoHist
      (echoHistIndex (histWritten m d) (k.val + 1)))).toInt
  | .coeff k => (d.regs (regCoeff k)).toInt
  | .main => (side.of mainOut).toInt
  | .echo => (side.of (echoFilter m d).val.1).toInt
  | .mvolReg => (d.regs side.mvol).toNat
  | .evolReg => (d.regs side.evol).toNat
  | .mvol => (d.regs side.mvol <<< 4).toInt
  | .evol => (d.regs side.evol <<< 4).toInt
  | .send => (side.of echoOut).toInt
  | .efb => (d.regs regEfb).toInt
  | .esa => d.esa.toNat
  | .echoOffset => d.echoOffset.toNat
  | .edl => (d.regs regEdl).toNat
  | .echoAddr => (side.echoAddr d).toNat
  | .wordHi => (m.aram (side.echoAddr d + 1)).toNat
  | .written => (side.of (dropLowBit
      (sampleBlendScale8 echoOut (echoFilter m d).val.1 (d.regs regEfb)))).toNat
  | .histPos => d.echoHistPos.toNat

/-- The ranges of the variables. -/
def mixRange : MixVar → Interval
  | .word | .hist _ | .main | .echo | .send => ⟨-0x8000, 0x7fff⟩
  | .coeff _ | .mvol | .evol | .efb => ⟨-0x80, 0x7f⟩
  | .mvolReg | .evolReg | .esa | .edl | .wordHi | .histPos => ⟨0, 0xff⟩
  | .echoOffset | .echoAddr | .written => ⟨0, 0xffff⟩

/-- The values of all expressions behind the voices. -/
def mixInts : List Int :=
  Side.both.flatMap fun side => mixExprs.flatMap (values (mixVal m mainOut echoOut d side))

/-- The echo sample is the clamped sum of the filter. -/
theorem echoFilter_eval :
    (echoFilter m d).val.1 =
      dropLowBit (sampleClamp ⟨firExpr.eval (mixVal m mainOut echoOut d .left),
        firExpr.eval (mixVal m mainOut echoOut d .right)⟩) := by
  rw [echoFilter_val, Fin.sum_univ_eight, Fin.sum_univ_eight]
  rfl

theorem masterMix_eval (side : Side) :
    masterMix (side.of mainOut) (side.of (echoFilter m d).val.1) (d.regs side.mvol)
        (d.regs side.evol) =
      masterMixExpr.eval (mixVal m mainOut echoOut d side) := rfl

theorem sampleBlendScale8_eval :
    sampleBlendScale8 echoOut (echoFilter m d).val.1 (d.regs regEfb) =
      ⟨clamp16 (feedbackExpr.eval (mixVal m mainOut echoOut d .left)),
        clamp16 (feedbackExpr.eval (mixVal m mainOut echoOut d .right))⟩ := rfl

theorem both_mem (side : Side) : side ∈ Side.both := by
  cases side with
  | left => exact List.mem_cons_self
  | right => exact List.mem_cons_of_mem _ List.mem_cons_self

variable {m mainOut echoOut d} in
theorem mem_mixInts (side : Side) {e : Expr MixVar} (he : e ∈ mixExprs) :
    e.eval (mixVal m mainOut echoOut d side) ∈ mixInts m mainOut echoOut d := by
  apply List.mem_flatMap.mpr ⟨side, both_mem side, ?_⟩
  exact List.mem_flatMap.mpr ⟨e, he, eval_mem_values _ e⟩

/-- **What the mix computes** is among the values of the expressions: the sums
    of the filter, of the master mix and of the feedback, before they are
    clamped. -/
theorem mix_results_mem :
    let echo := (echoFilter m d).val.1
    let ints := mixInts m mainOut echoOut d
    (∃ l ∈ ints, ∃ r ∈ ints, echo = dropLowBit (sampleClamp ⟨l, r⟩)) ∧
      (∃ l ∈ ints, ∃ r ∈ ints,
        sampleBlendScale8 echoOut echo (d.regs regEfb) = ⟨clamp16 l, clamp16 r⟩) ∧
      ∀ side : Side, masterMix (side.of mainOut) (side.of echo) (d.regs side.mvol)
        (d.regs side.evol) ∈ ints := by
  intro echo ints
  have hfir : firExpr ∈ mixExprs := by
    simp only [mixExprs, clamped, List.mem_append, List.mem_cons, true_or, or_true]
  have hmaster : masterMixExpr ∈ mixExprs := by
    simp only [mixExprs, clamped, List.mem_append, List.mem_cons, true_or, or_true]
  have hfeedback : feedbackExpr ∈ mixExprs := by
    simp only [mixExprs, clamped, List.mem_append, List.mem_cons, true_or, or_true]
  refine ⟨?_, ?_, ?_⟩
  · exact ⟨_, mem_mixInts .left hfir, _, mem_mixInts .right hfir,
      echoFilter_eval m mainOut echoOut d⟩
  · exact ⟨_, mem_mixInts .left hfeedback, _, mem_mixInts .right hfeedback,
      sampleBlendScale8_eval m mainOut echoOut d⟩
  · intro side
    rw [masterMix_eval m mainOut echoOut d side]
    exact mem_mixInts side hmaster

theorem mixVal_mem (side : Side) (x : MixVar) :
    mixVal m mainOut echoOut d side x ∈ mixRange x := by
  cases x with
  | word | hist | main | echo | send => exact short_mem _
  | coeff | mvol | evol | efb => exact int8_mem _
  | mvolReg | evolReg | esa | edl | wordHi | histPos => exact byte_mem _
  | echoOffset | echoAddr | written => exact word_mem _

theorem mixInts_fit : ∀ v ∈ mixInts m mainOut echoOut d, InInt v := by
  intro v hv
  obtain ⟨side, -, hv⟩ := List.mem_flatMap.mp hv
  exact values_inInt (mixVal_mem m mainOut echoOut d side) (by decide +kernel) v hv

end Mix

section Blend

/-- The two samples of one channel of a blend. -/
def blendVal (a b : Sample) (side : Side) : BlendVar → Int
  | .a => (side.of a).toInt
  | .b => (side.of b).toInt

/-- The ranges of the variables. -/
def blendRange : BlendVar → Interval
  | .a | .b => ⟨-0x8000, 0x7fff⟩

/-- The values of all expressions of a blend. -/
def blendInts (a b : Sample) : List Int :=
  Side.both.flatMap fun side => (clamped [blendExpr]).flatMap (values (blendVal a b side))

theorem sampleBlend_eval (a b : Sample) :
    sampleBlend a b =
      ⟨clamp16 (blendExpr.eval (blendVal a b .left)),
        clamp16 (blendExpr.eval (blendVal a b .right))⟩ := rfl

/-- **What a blend computes**, before it is clamped. -/
theorem blend_results_mem (a b : Sample) :
    ∃ l ∈ blendInts a b, ∃ r ∈ blendInts a b, sampleBlend a b = ⟨clamp16 l, clamp16 r⟩ := by
  have hmem : ∀ side, blendExpr.eval (blendVal a b side) ∈ blendInts a b := by
    intro side
    apply List.mem_flatMap.mpr ⟨side, both_mem side, ?_⟩
    exact List.mem_flatMap.mpr ⟨_, List.mem_cons_self, eval_mem_values _ _⟩
  exact ⟨_, hmem .left, _, hmem .right, sampleBlend_eval a b⟩

theorem blendVal_mem (a b : Sample) (side : Side) (x : BlendVar) :
    blendVal a b side x ∈ blendRange x := by
  cases x with
  | a | b => exact short_mem _

theorem blendInts_fit (a b : Sample) : ∀ v ∈ blendInts a b, InInt v := by
  intro v hv
  obtain ⟨side, -, hv⟩ := List.mem_flatMap.mp hv
  exact values_inInt (blendVal_mem a b side) (by decide +kernel) v hv

end Blend

section Call

variable (m : Mem)

/-- The values of all expressions of the voice loop. -/
def loopInts : List Channel → Sample → Sample → Dsp → List Int
  | [], _, _, _ => []
  | i :: is, mainOut, echoOut, d =>
    let r := (voiceRun m i d).val
    voiceInts m i d ++ blendInts mainOut r.1 ++ blendInts echoOut r.1 ++
      loopInts is (sampleBlend mainOut r.1)
        (if r.2.eon &&& channelBit i ≠ 0 then sampleBlend echoOut r.1 else echoOut) r.2

/-- The values of all expressions of a `next_sample` call. -/
def sampleInts (d : Dsp) : List Int :=
  loopInts m (List.finRange 8) silence silence (ticked d) ++
    mixInts m (mixed m d).1 (mixed m d).2.1 (mixed m d).2.2

/-- **Loop**: the voices stay well formed from one call to the next, so that the
    values of all calls fit. -/
theorem loopInts_fit (is : List Channel) (mainOut echoOut : Sample) {d : Dsp}
    (h : ∀ j, (d.vstate j).Wf) : ∀ v ∈ loopInts m is mainOut echoOut d, InInt v := by
  induction is generalizing mainOut echoOut d with
  | nil => exact fun v hv => absurd hv List.not_mem_nil
  | cons i is ih =>
    have hnext : ∀ j, ((voiceRun m i d).val.2.vstate j).Wf := by
      intro j
      by_cases hj : j = i
      · rw [hj]
        exact voiceRun_wf m i d (h i)
      · rw [voiceRun_vstate_of_ne m i d hj]
        exact h j
    rw [loopInts]
    simp only [List.forall_mem_append]
    exact ⟨⟨⟨voiceInts_fit m i d (h i), blendInts_fit _ _⟩, blendInts_fit _ _⟩, ih _ _ hnext⟩

end Call

/-- **No overflow.** In every reachable state the values of all integer
    expressions of a `next_sample` call fit into an `int`. And whatever 16-bit
    sample a voice interpolates and whatever its volumes, narrowing the sample
    behind the envelope and both outputs of `pan` to `int16_t` loses nothing. -/
theorem sample_ints_fit {w : World} (h : Reachable w) :
    (∀ v ∈ sampleInts w.mem w.dsp, InInt v) ∧
    ∀ (i : Channel) (sample : Short) (volL volR : Byte),
      let product := (sample.toInt * (primed w.mem i (ticked w.dsp)).env) >>> (11 : Nat)
      let scaled := product - product % 2
      (toShort scaled).toInt = scaled ∧
        (pan scaled volL volR).left.toInt = sampleScale scaled volL ∧
        (pan scaled volL volR).right.toInt = sampleScale scaled volR := by
  have hwf : ∀ j, ((ticked w.dsp).vstate j).Wf := by
    intro j
    rw [ticked_vstate]
    exact h.voicesWf j
  constructor
  · rw [sampleInts, List.forall_mem_append]
    exact ⟨loopInts_fit w.mem _ _ _ hwf, mixInts_fit _ _ _ _⟩
  · intro i sample volL volR product scaled
    have hscaled : scaled ∈ (⟨-32752, 32751⟩ : Interval) :=
      scaled_mem (short_mem sample) (primed_env_bounded w.mem i (ticked w.dsp) (hwf i))
    have hpan : ∀ vol : Byte,
        (toShort (sampleScale scaled vol)).toInt = sampleScale scaled vol := by
      intro vol
      have hscale : sampleScale scaled vol ∈ (⟨-32751, 32752⟩ : Interval) :=
        Interval.shr_mem (Interval.mul_mem hscaled (int8_mem vol)) 7
      exact toInt_toShort (le_trans (by decide) hscale.1) (hscale.2.trans (by decide))
    exact ⟨toInt_toShort (le_trans (by decide) hscaled.1) (hscaled.2.trans (by decide)),
      hpan volL, hpan volR⟩

/-- A voice at full level that interpolates behind the end of the range. -/
theorem sample_ints_fit_loud :
    ∃ w : World, (primed w.mem 0 (ticked w.dsp)).env = 0x7f0 ∧
      (interpolate (primed w.mem 0 (ticked w.dsp))).val = -32784 ∧
      (∀ v ∈ sampleInts w.mem w.dsp, InInt v) ∧
      ∀ (i : Channel) (sample : Short) (volL volR : Byte),
        let product := (sample.toInt * (primed w.mem i (ticked w.dsp)).env) >>> (11 : Nat)
        let scaled := product - product % 2
        (toShort scaled).toInt = scaled ∧
          (pan scaled volL volR).left.toInt = sampleScale scaled volL ∧
          (pan scaled volL volR).right.toInt = sampleScale scaled volR := by
  have hreach := (keyedOn_reachable loudSource).step (countdownOps ++ fullLevelOps)
  exact ⟨_, loudSource_spec.1, loudSource_spec.2, sample_ints_fit hreach⟩

end SpuKit
