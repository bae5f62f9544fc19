import SpuKit.Dsp.VoiceSpec

/-!
# What a call of a voice lets an observer see

The events of `voiceRun`, stage by stage, and the projections of an event list
that the properties are stated with: the key-ons, the decodes, the data bytes,
the decoded samples and the interpolations.

## Main definitions

- `DecodeDue` — the call decodes a group, in terms of its inputs
- `taps` — the four samples `interpolate` uses
- `keyOns`, `decodes`, `dataBytes`, `stream`, `interpolations` — projections

## Main results

- `voiceRun_shape` — all events of a call, in order
- `voiceRun_always` — what holds of every event of a call
- `voiceRun_keyOns`, `voiceRun_decodes`, `voiceRun_dataBytes`, `voiceRun_stream`,
  `voiceRun_interpolations` — what each projection sees of a call
-/

namespace SpuKit

section Events

variable (m : Mem) (i : Channel) (d : Dsp)

/-- The ring position of the first sample `interpolate` uses. -/
def interpBase (st : VState) : Byte := st.bufPos + (toByte (st.interpPos >>> (12 : Nat)) &&& 0x7)

/-- The value of `wrap12`. -/
def wrapped (val : Byte) : Byte := if val.toNat ≥ 12 then val - 12 else val

/-- The sample `interpolate` takes at a ring position. -/
def tapAt (st : VState) (pos : Byte) : Short := (bufLoad st (wrapped pos).toNat).val

/-- The four samples `interpolate` uses. -/
def taps (st : VState) : List Short :=
  [tapAt st (interpBase st + 0), tapAt st (interpBase st + 1), tapAt st (interpBase st + 2),
    tapAt st (interpBase st + 3)]

theorem bufLoadWrapped_events (st : VState) (pos : Byte) :
    (bufLoadWrapped st pos).events =
      [.assertion (pos.toNat ≤ 8 + 7 + 3), .ring (wrapped pos).toNat] := rfl

theorem interpolate_events (st : VState) :
    (interpolate st).events =
      (bufLoadWrapped st (interpBase st + 0)).events ++
      (bufLoadWrapped st (interpBase st + 1)).events ++
      (bufLoadWrapped st (interpBase st + 2)).events ++
      (bufLoadWrapped st (interpBase st + 3)).events ++
      [.interpolate st.interpPos (taps st),
        .gauss (255 - (toByte (st.interpPos >>> (4 : Nat))).toNat + 0),
        .gauss (255 - (toByte (st.interpPos >>> (4 : Nat))).toNat + 256),
        .gauss ((toByte (st.interpPos >>> (4 : Nat))).toNat + 256),
        .gauss ((toByte (st.interpPos >>> (4 : Nat))).toNat + 0)] := rfl

/-- `interpolate` runs when the level is not zero and the voice is no noise. -/
theorem voiceSample_events (regs : Regs) (st : VState) :
    (voiceSample regs i st).events =
      if st.env ≠ 0 ∧ regs regNon &&& channelBit i = 0 then (interpolate st).events else [] := by
  rw [voiceSample]
  simp only [Traced.events_bind, Traced.events_ite, Traced.events_pure, List.append_nil]
  split_ifs <;> simp_all

/-- The rates of the ADSR envelope are table indices. -/
theorem runAdsrEnv_rate {st : VState} (adsr1 adsr2 : Byte) (h : st.envMode ≠ .release) :
    (runAdsrEnv st adsr1 adsr2).events = [] ∧ (runAdsrEnv st adsr1 adsr2).val.rate ≤ 31 := by
  have hattack : ∀ b : Byte, (b &&& adsr1AttackRateMask).toNat * 2 + 1 ≤ 31 := by decide
  have hsustain : ∀ b : Byte, (b &&& adsr2SustainRateMask).toNat ≤ 31 := by decide
  have hdecay : ∀ b : Byte,
      0x10 + ((b >>> adsr1DecayRateShift) &&& adsr1DecayRateMask).toNat ≤ 31 := by decide
  rw [runAdsrEnv]
  cases hmode : st.envMode with
  | release => exact absurd hmode h
  | attack => exact ⟨rfl, hattack adsr1⟩
  | sustain => exact ⟨rfl, hsustain adsr2⟩
  | decay => exact ⟨rfl, hdecay adsr1⟩

/-- The modes of the GAIN envelope are exhaustive, and its rates are table
    indices. -/
theorem runGainEnv_rate (st : VState) (gain : Byte) :
    (runGainEnv st gain).events = [] ∧ (runGainEnv st gain).val.rate ≤ 31 := by
  have hrate : ∀ b : Byte, (b &&& gainRateMask).toNat ≤ 31 := by decide
  have hmode : ∀ b : Byte, (b >>> gainModeShift) &&& gainModeMask = 0 ∨
      (b >>> gainModeShift) &&& gainModeMask = 1 ∨
      ((b >>> gainModeShift) &&& gainModeMask = 2 ∨
        (b >>> gainModeShift) &&& gainModeMask = 3) := by decide
  unfold runGainEnv
  simp only
  split_ifs with h0 h1 h2 h3
  · exact ⟨rfl, le_rfl⟩
  · exact ⟨rfl, hrate gain⟩
  · exact ⟨rfl, hrate gain⟩
  · exact ⟨rfl, hrate gain⟩
  · rcases hmode gain with h | h | h
    · exact absurd h h1
    · exact absurd h h2
    · exact absurd h h3

/-- Outside the release stage the envelope reads one rate, which is a table
    index. -/
theorem runEnvelope_events (ctr : Counters) {st : VState} (adsr1 adsr2 gain : Byte)
    (h : st.envMode ≠ .release) :
    ∃ r ≤ 31, (runEnvelope ctr st adsr1 adsr2 gain).events = [.rate r] := by
  rw [runEnvelope]
  rw [if_neg h]
  split_ifs
  · obtain ⟨hevents, hrate⟩ := runAdsrEnv_rate adsr1 adsr2 h
    refine ⟨_, hrate, ?_⟩
    rw [Traced.events_bind, hevents]
    rfl
  · obtain ⟨hevents, hrate⟩ := runGainEnv_rate st gain
    refine ⟨_, hrate, ?_⟩
    rw [Traced.events_bind, hevents]
    rfl

theorem voiceEnvelope_events :
    ∃ rates : List Nat, (∀ r ∈ rates, r ≤ 31) ∧
      (voiceEnvelope d.ctr (exposed m i d) i (keyed m i d)).events =
        rates.map .rate ++ if FallsSilent m i d then [.silent] else [] := by
  have hsilent := enveloped_silent_iff m i d
  unfold enveloped at hsilent
  unfold voiceEnvelope at hsilent ⊢
  by_cases hdelay : (keyed m i d).attackDelay = 0
  · rw [if_pos hdelay] at hsilent ⊢
    simp only [Traced.val_bind, Traced.val_ite, Traced.events_bind, Traced.events_ite,
      Traced.events_emit, Traced.events_pure, List.append_nil] at hsilent ⊢
    obtain ⟨rates, hrates, hevents⟩ : ∃ rates : List Nat, (∀ r ∈ rates, r ≤ 31) ∧
        (runEnvelope d.ctr (keyed m i d) (voice (exposed m i d) i).adsr1
          (voice (exposed m i d) i).adsr2 (voice (exposed m i d) i).gain).events =
            rates.map .rate := by
      by_cases hmode : (keyed m i d).envMode = .release
      · exact ⟨[], by simp, by simp [runEnvelope, hmode]⟩
      · obtain ⟨r, hr, hevents⟩ := runEnvelope_events d.ctr (voice (exposed m i d) i).adsr1
          (voice (exposed m i d) i).adsr2 (voice (exposed m i d) i).gain hmode
        exact ⟨[r], by simpa using hr, hevents⟩
    refine ⟨rates, hrates, ?_⟩
    rw [hevents]
    congr 1
    refine if_congr ?_ rfl rfl
    rw [← hsilent]
    split_ifs with h
    · exact iff_of_true h rfl
    · exact iff_of_false h (by simp)
  · have hs : ¬ FallsSilent m i d := fun h => hdelay h.1
    exact ⟨[], by simp, by rw [if_neg hdelay, if_neg hs]; rfl⟩
/-- The call decodes a group: it does not fall silent, and the cursor has used
    one up. -/
def DecodeDue : Prop := ¬ FallsSilent m i d ∧ 0x4000 ≤ (primed m i d).interpPos

instance : Decidable (DecodeDue m i d) := inferInstanceAs (Decidable (_ ∧ _))

/-- The call interpolates: its level is not zero and it is no noise. -/
def Sounds : Prop := (primed m i d).env ≠ 0 ∧ d.regs regNon &&& channelBit i = 0

instance : Decidable (Sounds m i d) := inferInstanceAs (Decidable (_ ∧ _))

/-- **All events of a call**: the fetches, the interpolation, the key-on, the
    envelope rate and then silence or a decode. -/
theorem voiceRun_shape :
    ∃ rates : List Nat, (∀ r ∈ rates, r ≤ 31) ∧
      (voiceRun m i d).events =
        [.aram (latchPtr d.regs i (d.vstate i) + 1).toNat,
          .aram (latchPtr d.regs i (d.vstate i)).toNat,
          .aram (d.vstate i).brrAddr.toNat] ++
        (if Sounds m i d then (interpolate (primed m i d)).events else []) ++
        (if KeyedOn d i then [.keyOn] else []) ++
        (rates.map .rate ++ if FallsSilent m i d then [.silent] else []) ++
        if DecodeDue m i d then (brrSample4 m (enveloped m i d).1).events else [] := by
  obtain ⟨rates, hrates, henv⟩ := voiceEnvelope_events m i d
  refine ⟨rates, hrates, ?_⟩
  have hdecode :
      (if (enveloped m i d).2 then []
        else (voiceDecode m (exposed m i d) i (enveloped m i d).1).events) =
      if DecodeDue m i d then (brrSample4 m (enveloped m i d).1).events else [] := by
    have hsilent := enveloped_silent_iff m i d
    rw [voiceDecode_events, enveloped_interpPos]
    unfold DecodeDue
    split_ifs <;> simp_all
  rw [voiceRun_events, voiceFetch_events, voiceSample_events, voiceKeys_events, henv, hdecode]
  rfl

/-- A predicate holds of all events of a call when it holds of the fetches, the
    key-on, the rates and silence, and of what the interpolation and the decode
    do. -/
theorem voiceRun_always {P : VoiceEvent → Prop} (haram : ∀ addr : Word, P (.aram addr.toNat))
    (hkeyOn : P .keyOn) (hrate : ∀ r ≤ 31, P (.rate r)) (hsilent : P .silent)
    (hinterpolate : Sounds m i d → (interpolate (primed m i d)).Always P)
    (hdecode : DecodeDue m i d → (brrSample4 m (enveloped m i d).1).Always P) :
    (voiceRun m i d).Always P := by
  obtain ⟨rates, hrates, hshape⟩ := voiceRun_shape m i d
  intro e he
  rw [hshape] at he
  simp only [List.mem_append] at he
  rcases he with (((he | he) | he) | (he | he)) | he
  · simp only [List.mem_cons, List.not_mem_nil, or_false] at he
    rcases he with rfl | rfl | rfl <;> exact haram _
  · split at he
    · next hs => exact hinterpolate hs e he
    · simp at he
  · split at he
    · obtain rfl : e = .keyOn := by simpa using he
      exact hkeyOn
    · simp at he
  · obtain ⟨r, hr, rfl⟩ := List.mem_map.mp he
    exact hrate r (hrates r hr)
  · split at he
    · obtain rfl : e = .silent := by simpa using he
      exact hsilent
    · simp at he
  · split at he
    · next hdue => exact hdecode hdue e he
    · simp at he

end Events

section Projections

/-- The key-ons of the voice. -/
def keyOns (es : List VoiceEvent) : List Unit :=
  es.flatMap fun
    | .keyOn => [()]
    | _ => []

/-- The calls on which the voice returned silence early. -/
def silences (es : List VoiceEvent) : List Unit :=
  es.flatMap fun
    | .silent => [()]
    | _ => []

/-- The addresses and offsets `brr_sample4` was entered with. -/
def decodes (es : List VoiceEvent) : List (Word × Byte) :=
  es.flatMap fun
    | .decode addr off => [(addr, off)]
    | _ => []

/-- The indices of the BRR data bytes that were fetched. -/
def dataBytes (es : List VoiceEvent) : List Nat :=
  es.flatMap fun
    | .brrByte index => [index]
    | _ => []

/-- The decode stream: all decoded samples. -/
def stream (es : List VoiceEvent) : List Short :=
  es.flatMap fun
    | .stored samples => samples
    | _ => []

/-- The cursors and the samples that were interpolated. -/
def interpolations (es : List VoiceEvent) : List (Int × List Short) :=
  es.flatMap fun
    | .interpolate pos samples => [(pos, samples)]
    | _ => []

@[simp] theorem keyOns_append (es es' : List VoiceEvent) :
    keyOns (es ++ es') = keyOns es ++ keyOns es' := List.flatMap_append

@[simp] theorem silences_append (es es' : List VoiceEvent) :
    silences (es ++ es') = silences es ++ silences es' := List.flatMap_append

@[simp] theorem decodes_append (es es' : List VoiceEvent) :
    decodes (es ++ es') = decodes es ++ decodes es' := List.flatMap_append

@[simp] theorem dataBytes_append (es es' : List VoiceEvent) :
    dataBytes (es ++ es') = dataBytes es ++ dataBytes es' := List.flatMap_append

@[simp] theorem stream_append (es es' : List VoiceEvent) :
    stream (es ++ es') = stream es ++ stream es' := List.flatMap_append

theorem mem_dataBytes {index : Nat} {es : List VoiceEvent} :
    index ∈ dataBytes es ↔ .brrByte index ∈ es := by
  rw [dataBytes]
  rw [List.mem_flatMap]
  constructor
  · rintro ⟨e, he, h⟩
    cases e <;> simp at h
    rwa [h]
  · intro h
    exact ⟨_, h, by simp⟩

variable (m : Mem) (i : Channel) (d : Dsp)

/-- The group a voice decodes next, as it is stored. -/
def groupSamples (m : Mem) (st : VState) : List Short :=
  [clamp16 (groupOf m st).1, clamp16 (groupOf m st).2.1, clamp16 (groupOf m st).2.2.1,
    clamp16 (groupOf m st).2.2.2]

/-- The events that say nothing about playback: which memory, ring and table
    entries were touched, and which rates were read. -/
inductive Incidental : VoiceEvent → Prop
  | aram (index : Nat) : Incidental (.aram index)
  | ring (index : Int) : Incidental (.ring index)
  | gauss (index : Int) : Incidental (.gauss index)
  | rate (r : Nat) : Incidental (.rate r)
  | assertion (holds : Bool) : Incidental (.assertion holds)

/-- A projection that drops the incidental events sees at most the
    interpolation, the key-on, silence and one decode of a call. -/
theorem voiceRun_flatMap {β : Type} (g : VoiceEvent → List β)
    (hg : ∀ e, Incidental e → g e = []) :
    (voiceRun m i d).events.flatMap g =
      (if Sounds m i d then g (.interpolate (primed m i d).interpPos (taps (primed m i d)))
        else []) ++
      (if KeyedOn d i then g .keyOn else []) ++
      (if FallsSilent m i d then g .silent else []) ++
      if DecodeDue m i d then
        g (.decode (primed m i d).brrAddr (primed m i d).brrOff) ++
        g (.brrByte ((primed m i d).brrAddr.toNat + (primed m i d).brrOff.toNat)) ++
        g (.brrByte ((primed m i d).brrAddr.toNat + ((primed m i d).brrOff + 1).toNat)) ++
        g (.stored (groupSamples m (enveloped m i d).1))
      else [] := by
  obtain ⟨rates, -, hshape⟩ := voiceRun_shape m i d
  have hrates : (rates.map VoiceEvent.rate).flatMap g = [] := by
    simp [List.flatMap_eq_nil_iff, hg _ (.rate _)]
  have hfilter : ∀ st, (vfilterState st).events.flatMap g = [] := by
    intro st
    rw [vfilterState]
    split <;> simp [bufLoad, hg _ (.ring _)]
  have hdecode : (brrSample4 m (enveloped m i d).1).events.flatMap g =
      g (.decode (primed m i d).brrAddr (primed m i d).brrOff) ++
      g (.brrByte ((primed m i d).brrAddr.toNat + (primed m i d).brrOff.toNat)) ++
      g (.brrByte ((primed m i d).brrAddr.toNat + ((primed m i d).brrOff + 1).toNat)) ++
      g (.stored (groupSamples m (enveloped m i d).1)) := by
    rw [brrSample4_events, brrStore4_events]
    simp only [List.flatMap_append, List.flatMap_cons, List.flatMap_nil, hfilter,
      hg _ (.ring _), enveloped_brrAddr, enveloped_brrOff, List.append_nil, List.nil_append,
      List.append_assoc, groupSamples]
  have hinterpolate : (interpolate (primed m i d)).events.flatMap g =
      g (.interpolate (primed m i d).interpPos (taps (primed m i d))) := by
    rw [interpolate_events]
    simp only [bufLoadWrapped_events, List.flatMap_append, List.flatMap_cons, List.flatMap_nil,
      hg _ (.ring _), hg _ (.gauss _), hg _ (.assertion _), List.append_nil, List.nil_append]
  rw [hshape]
  simp only [List.flatMap_append, List.flatMap_cons, List.flatMap_nil, hg _ (.aram _),
    apply_ite (List.flatMap g), hinterpolate, hrates, hdecode, List.append_nil, List.nil_append]

theorem voiceRun_keyOns :
    keyOns (voiceRun m i d).events = if KeyedOn d i then [()] else [] := by
  rw [keyOns, voiceRun_flatMap m i d _ (by rintro _ ⟨⟩ <;> rfl)]
  simp

theorem voiceRun_silences :
    silences (voiceRun m i d).events = if FallsSilent m i d then [()] else [] := by
  rw [silences, voiceRun_flatMap m i d _ (by rintro _ ⟨⟩ <;> rfl)]
  simp

theorem voiceRun_decodes :
    decodes (voiceRun m i d).events =
      if DecodeDue m i d then [((primed m i d).brrAddr, (primed m i d).brrOff)] else [] := by
  rw [decodes, voiceRun_flatMap m i d _ (by rintro _ ⟨⟩ <;> rfl)]
  simp

theorem voiceRun_dataBytes :
    dataBytes (voiceRun m i d).events =
      if DecodeDue m i d then
        [(primed m i d).brrAddr.toNat + (primed m i d).brrOff.toNat,
          (primed m i d).brrAddr.toNat + ((primed m i d).brrOff + 1).toNat]
      else [] := by
  rw [dataBytes, voiceRun_flatMap m i d _ (by rintro _ ⟨⟩ <;> rfl)]
  simp

theorem voiceRun_stream :
    stream (voiceRun m i d).events =
      if DecodeDue m i d then groupSamples m (enveloped m i d).1 else [] := by
  rw [stream, voiceRun_flatMap m i d _ (by rintro _ ⟨⟩ <;> rfl)]
  simp

theorem voiceRun_interpolations :
    interpolations (voiceRun m i d).events =
      if Sounds m i d then [((primed m i d).interpPos, taps (primed m i d))] else [] := by
  rw [interpolations, voiceRun_flatMap m i d _ (by rintro _ ⟨⟩ <;> rfl)]
  simp

end Projections

section After

variable (m : Mem) (i : Channel) (d : Dsp)

/-- The offset after a group, back at the first data byte at the end of a
    block. -/
def nextOff (off : Byte) : Byte :=
  if (off + 1 + 1).toNat ≥ brrBlockSize.toNat then 1 else off + 1 + 1

/-- The block after a group: the same one, the one behind it, or the latched
    one when the block carries the END flag. -/
def nextBlock (st : VState) : Word :=
  if (st.brrOff + 1 + 1).toNat ≥ brrBlockSize.toNat then
    if st.brrHdr &&& brrEnd ≠ 0 then st.nextBrrAddr else st.brrAddr + brrBlockSize.setWidth 16
  else st.brrAddr

/-- The ring after a group. -/
def nextBuf (m : Mem) (st : VState) : Fin 12 → Short :=
  bufSet4 st.buf st.bufPos.toNat (groupOf m st).1 (groupOf m st).2.1 (groupOf m st).2.2.1
    (groupOf m st).2.2.2

/-- A voice that decoded one group. -/
def stepped (m : Mem) (st : VState) : VState :=
  { st with
    buf := nextBuf m st
    bufPos := nextBufPos st.bufPos
    brrOff := nextOff st.brrOff
    brrAddr := nextBlock st }

theorem blockEnd_brrSample4 (st : VState) : blockEnd (brrSample4 m st).val = stepped m st := by
  rw [brrSample4_val, brrStore4_val, blockEnd]
  by_cases h : (st.brrOff + 1 + 1).toNat ≥ brrBlockSize.toNat
  · rw [stepped, nextOff, nextBlock, if_pos h, if_pos h]
    exact if_pos h
  · rw [stepped, nextOff, nextBlock, if_neg h, if_neg h]
    exact if_neg h

/-- The cursor after a call that moves it. -/
def nextPos (st : VState) : Int := min 0x7fff (st.interpPos % 0x4000 + st.pitch.toNat)

theorem voiceApplyPitch_eq (st : VState) :
    voiceApplyPitch st = { st with interpPos := nextPos st } := by
  rw [voiceApplyPitch, nextPos]
  simp only
  split
  · next h => rw [min_eq_left (by omega)]
  · next h => rw [min_eq_right (by omega)]

/-- **The voice after a call**: one group further when a decode was due, with
    the cursor moved on unless the call fell silent. -/
theorem voiceRun_vstate_eq :
    (voiceRun m i d).val.2.vstate i =
      { if DecodeDue m i d then stepped m (enveloped m i d).1 else (enveloped m i d).1 with
        interpPos :=
          if FallsSilent m i d then (primed m i d).interpPos else nextPos (primed m i d) } := by
  have hpos : nextPos (enveloped m i d).1 = nextPos (primed m i d) := by
    simp only [nextPos, enveloped_interpPos, enveloped_pitch]
  rw [voiceRun_vstate, decoded, voiceDecode_val, voiceApplyPitch_eq, enveloped_interpPos,
    blockEnd_brrSample4]
  by_cases hs : FallsSilent m i d
  · have hdue : ¬ DecodeDue m i d := fun h => h.1 hs
    rw [if_pos ((enveloped_silent_iff m i d).mpr hs), if_pos hs, if_neg hdue,
      ← enveloped_interpPos]
  · have hdue : DecodeDue m i d ↔ 0x4000 ≤ (primed m i d).interpPos := and_iff_right hs
    rw [if_neg (fun h => hs ((enveloped_silent_iff m i d).mp h)), if_neg hs, ← hpos]
    by_cases h : 0x4000 ≤ (primed m i d).interpPos
    · rw [if_pos h, if_pos (hdue.mpr h)]
      rfl
    · rw [if_neg h, if_neg (fun h' => h (hdue.mp h'))]

variable {m i d}

theorem voiceRun_field {β : Type} (f : VState → β)
    (hf : ∀ st pos addr off buf bufPos,
      f { st with
        interpPos := pos, brrAddr := addr, brrOff := off, buf := buf, bufPos := bufPos } = f st) :
    f ((voiceRun m i d).val.2.vstate i) = f (enveloped m i d).1 := by
  rw [voiceRun_vstate_eq]
  split <;> exact hf (enveloped m i d).1 _ _ _ _ _

theorem voiceRun_env :
    ((voiceRun m i d).val.2.vstate i).env = (enveloped m i d).1.env :=
  voiceRun_field VState.env fun _ _ _ _ _ _ => rfl

theorem voiceRun_envMode :
    ((voiceRun m i d).val.2.vstate i).envMode = (enveloped m i d).1.envMode :=
  voiceRun_field VState.envMode fun _ _ _ _ _ _ => rfl

theorem voiceRun_attackDelay :
    ((voiceRun m i d).val.2.vstate i).attackDelay =
      if KeyedOn d i then 5 else (primed m i d).attackDelay :=
  (voiceRun_field VState.attackDelay fun _ _ _ _ _ _ => rfl).trans (enveloped_attackDelay m i d)

theorem voiceRun_interpPos :
    ((voiceRun m i d).val.2.vstate i).interpPos =
      if FallsSilent m i d then (primed m i d).interpPos else nextPos (primed m i d) := by
  rw [voiceRun_vstate_eq]

/-- A decode that is due steps the decoder by one group. -/
theorem voiceRun_of_due (h : DecodeDue m i d) :
    let st := (voiceRun m i d).val.2.vstate i
    st.buf = nextBuf m (enveloped m i d).1 ∧
      st.bufPos = nextBufPos (primed m i d).bufPos ∧
      st.brrOff = nextOff (primed m i d).brrOff ∧ st.brrAddr = nextBlock (primed m i d) := by
  simp only [voiceRun_vstate_eq, if_pos h, stepped, nextBlock, enveloped_bufPos,
    enveloped_brrOff, enveloped_brrAddr, enveloped_brrHdr, enveloped_nextBrrAddr]
  trivial

/-- Without a decode the decoder stays where the attack countdown put it. -/
theorem voiceRun_of_not_due (h : ¬ DecodeDue m i d) :
    let st := (voiceRun m i d).val.2.vstate i
    st.buf = (d.vstate i).buf ∧ st.bufPos = (primed m i d).bufPos ∧
      st.brrOff = (primed m i d).brrOff ∧ st.brrAddr = (primed m i d).brrAddr := by
  simp only [voiceRun_vstate_eq, if_neg h, enveloped_bufPos, enveloped_brrOff,
    enveloped_brrAddr, enveloped_buf]
  trivial

end After

end SpuKit
