import SpuKit.Dsp.VoiceEvents

/-!
# What one sample does

`nextSample` seen from outside: which variables the voice loop leaves alone,
how a voice's own call sits inside the loop, and the effect of the echo stages
on the echo variables and on memory.

## Main definitions

- `VoiceFrame` — what the voice loop leaves alone
- `SameVoice` — two DSPs look the same to a voice
- `voiceEvents` — the events of one voice
- `ticked`, `mixed` — the DSP between the stages of a sample
- `echoPointer`, `writePair` — where the echo unit works, and what it stores
- `latchedLength`, `nextOffset` — the echo buffer's length and offset

## Main results

- `SameVoice.voiceRun_congr` — a voice does not see what other voices write
- `nextSample_voice` — the call of one voice inside a sample
- `nextSample_dsp`, `nextSample_mem` — the state after a sample
- `nextSample_echo_events` — the events of a sample
-/

namespace SpuKit

/-- `d'` differs from `d` at most in the voices and in registers that voices
    own. -/
structure VoiceFrame (d d' : Dsp) : Prop where
  regs : ∀ r, (∀ i, ¬ VoiceOwned i r) → d'.regs r = d.regs r
  rest : d' = { d with regs := d'.regs, vstate := d'.vstate }

namespace VoiceFrame

theorem refl (d : Dsp) : VoiceFrame d d := ⟨fun _ _ => rfl, rfl⟩

theorem trans {d d' d'' : Dsp} (h : VoiceFrame d d') (h' : VoiceFrame d' d'') :
    VoiceFrame d d'' where
  regs r hr := (h'.regs r hr).trans (h.regs r hr)
  rest := by
    rw [h'.rest, h.rest]

/-- A call of a voice is within the frame. -/
theorem voiceRun (m : Mem) (i : Channel) (d : Dsp) :
    VoiceFrame d (voiceRun m i d).val.2 where
  regs r hr := voiceRun_regs m i d (hr i)
  rest := by
    rw [voiceRun_dsp]
    split <;> rfl

variable {d d' : Dsp} (h : VoiceFrame d d')

include h

theorem ctr : d'.ctr = d.ctr := by rw [h.rest]

theorem kon : d'.kon = d.kon := by rw [h.rest]

theorem koff : d'.koff = d.koff := by rw [h.rest]

theorem toggle : d'.toggle = d.toggle := by rw [h.rest]

theorem esa : d'.esa = d.esa := by rw [h.rest]

theorem echoOffset : d'.echoOffset = d.echoOffset := by rw [h.rest]

theorem echoLength : d'.echoLength = d.echoLength := by rw [h.rest]

/-- The inputs of the voices are as before the loop. -/
theorem voice (j : Channel) : voice d'.regs j = voice d.regs j :=
  voice_congr j fun _ hr => h.regs _ fun i => vreg_not_owned i j (Or.inl hr)


end VoiceFrame

/-- A register that no voice owns. -/
def ControlReg (r : Fin 0x80) : Prop := ∀ i, ¬ VoiceOwned i r

instance (r : Fin 0x80) : Decidable (ControlReg r) :=
  inferInstanceAs (Decidable (∀ _, _))

-- ════════════════════════════════════════════════════════════════════════
-- What a voice depends on
-- ════════════════════════════════════════════════════════════════════════

/-- Two DSPs that look the same to voice `i`: they agree on the voice itself,
    the polled keys, the rate counters and the registers no voice writes. -/
structure SameVoice (i : Channel) (d d' : Dsp) : Prop where
  regs : ∀ r, ControlReg r → d'.regs r = d.regs r
  ctr : d'.ctr = d.ctr
  kon : d'.kon = d.kon
  koff : d'.koff = d.koff
  toggle : d'.toggle = d.toggle
  vstate : d'.vstate i = d.vstate i

/-- The voice loop changes nothing voice `i` depends on but the voice itself. -/
theorem VoiceFrame.sameVoice {i : Channel} {d d' : Dsp} (h : VoiceFrame d d')
    (hst : d'.vstate i = d.vstate i) : SameVoice i d d' :=
  ⟨h.regs, h.ctr, h.kon, h.koff, h.toggle, hst⟩

namespace SameVoice

variable {d d' : Dsp} {i : Channel} (m : Mem) (h : SameVoice i d d')

include h

theorem voice : voice d'.regs i = voice d.regs i :=
  voice_congr i fun _ hr => h.regs _ fun j => vreg_not_owned j i (Or.inl hr)

theorem fetch : voiceFetch m d'.regs i (d'.vstate i) = voiceFetch m d.regs i (d.vstate i) := by
  have hdir : d'.regs regDir = d.regs regDir := h.regs regDir (by decide)
  simp only [voiceFetch, h.voice, h.vstate, voiceSrcnPointer_congr hdir]

theorem primed_eq : primed m i d' = primed m i d := by
  rw [primed, primed, h.fetch m]

theorem keys (st : VState) : voiceKeys d' i st = voiceKeys d i st := by
  simp only [voiceKeys, h.kon, h.koff, h.toggle]

theorem keyed_congr : keyed m i d' = keyed m i d := by
  have hflg : ∀ i, ¬ VoiceOwned i regFlg := by decide
  have hreset : ∀ regs regs' : Regs, regs' regFlg = regs regFlg → ∀ st,
      voiceReset regs' st = voiceReset regs st := by
    intro regs regs' hr st
    exact if_congr (voiceCut_congr hr st) rfl rfl
  rw [keyed, keyed, h.keys, h.primed_eq m]
  refine congrArg (fun st => (voiceKeys d i st).val) (hreset _ _ ?_ _)
  rw [exposed_apply m i d' (hflg i), exposed_apply m i d (hflg i), h.regs regFlg hflg]

theorem enveloped_congr : enveloped m i d' = enveloped m i d := by
  rw [enveloped_eq, enveloped_eq, h.keyed_congr m, h.voice, h.ctr]

/-- What a call does to its voice, and the events of the call, do not depend on
    the registers that voices write. -/
theorem voiceRun_congr :
    (SpuKit.voiceRun m i d').val.2.vstate i = (SpuKit.voiceRun m i d).val.2.vstate i ∧
      (SpuKit.voiceRun m i d').events = (SpuKit.voiceRun m i d).events := by
  have henv := h.enveloped_congr m
  constructor
  · simp only [voiceRun_vstate, decoded, voiceDecode_val, henv]
  · have hsample : (voiceSample d'.regs i (primed m i d')).events =
        (voiceSample d.regs i (primed m i d)).events := by
      rw [voiceSample_events, voiceSample_events, h.primed_eq m, h.regs regNon (by decide)]
    have henvelope : (voiceEnvelope d'.ctr (exposed m i d') i (keyed m i d')).events =
        (voiceEnvelope d.ctr (exposed m i d) i (keyed m i d)).events := by
      simp only [voiceEnvelope, voice_exposed, h.voice, h.ctr, h.keyed_congr m]
    rw [voiceRun_events, voiceRun_events, h.fetch m, hsample, h.keys, voiceKeys_events,
      voiceKeys_events, henvelope, henv, voiceDecode_events, voiceDecode_events]

end SameVoice

-- ════════════════════════════════════════════════════════════════════════
-- The voice loop
-- ════════════════════════════════════════════════════════════════════════

/-- The events of voice `i`, in order. -/
def voiceEvents (i : Channel) (events : List Event) : List VoiceEvent :=
  events.filterMap fun
    | .voice j e => if j = i then some e else none
    | _ => none

@[simp] theorem voiceEvents_append (i : Channel) (es es' : List Event) :
    voiceEvents i (es ++ es') = voiceEvents i es ++ voiceEvents i es' :=
  List.filterMap_append

@[simp] theorem voiceEvents_self (i : Channel) (es : List VoiceEvent) :
    voiceEvents i (es.map (.voice i)) = es := by
  simp [voiceEvents, List.filterMap_map]

theorem voiceEvents_of_ne {i j : Channel} (h : j ≠ i) (es : List VoiceEvent) :
    voiceEvents i (es.map (.voice j)) = [] := by
  simp [voiceEvents, List.filterMap_map, h]

theorem mem_voiceEvents {i : Channel} {e : VoiceEvent} {es : List Event} :
    e ∈ voiceEvents i es ↔ .voice i e ∈ es := by
  rw [voiceEvents]
  rw [List.mem_filterMap]
  constructor
  · rintro ⟨e', he', h⟩
    cases e' <;> simp at h
    obtain ⟨rfl, rfl⟩ := h
    exact he'
  · intro h
    exact ⟨_, h, by simp⟩

section Loop

variable (m : Mem)

@[simp] theorem runVoices_nil (a b : Sample) (d : Dsp) :
    runVoices m [] a b d = pure (a, b, d) := rfl

theorem runVoices_cons (i : Channel) (is : List Channel) (a b : Sample) (d : Dsp) :
    ∃ a' b', (runVoices m (i :: is) a b d).val =
        (runVoices m is a' b' (voiceRun m i d).val.2).val ∧
      (runVoices m (i :: is) a b d).events = (voiceRun m i d).events.map (.voice i) ++
        (runVoices m is a' b' (voiceRun m i d).val.2).events :=
  ⟨_, _, rfl, rfl⟩

theorem runVoices_frame (is : List Channel) (a b : Sample) (d : Dsp) :
    VoiceFrame d (runVoices m is a b d).val.2.2 := by
  induction is generalizing a b d with
  | nil => exact VoiceFrame.refl d
  | cons i is ih =>
    obtain ⟨a', b', hval, -⟩ := runVoices_cons m i is a b d
    rw [hval]
    exact (VoiceFrame.voiceRun m i d).trans (ih a' b' _)

/-- A voice that is not in the list is left alone and has no events. -/
theorem runVoices_of_not_mem {j : Channel} {is : List Channel} (hj : j ∉ is)
    (a b : Sample) (d : Dsp) :
    (runVoices m is a b d).val.2.2.vstate j = d.vstate j ∧
      voiceEvents j (runVoices m is a b d).events = [] := by
  induction is generalizing a b d with
  | nil => exact ⟨rfl, rfl⟩
  | cons i is ih =>
    rw [List.mem_cons, not_or] at hj
    obtain ⟨a', b', hval, hevents⟩ := runVoices_cons m i is a b d
    obtain ⟨hst, hes⟩ := ih hj.2 a' b' (voiceRun m i d).val.2
    rw [hval, hevents, voiceEvents_append, hes, voiceEvents_of_ne (Ne.symm hj.1), hst]
    exact ⟨voiceRun_vstate_of_ne m i d hj.1, rfl⟩

/-- The call of voice `j` inside the loop: it starts from the voice as it was
    before the loop, and what it does is what the loop does to that voice. -/
theorem runVoices_voice {j : Channel} {is : List Channel} (hj : j ∈ is) (hnd : is.Nodup)
    (a b : Sample) (d : Dsp) :
    ∃ d', VoiceFrame d d' ∧ d'.vstate j = d.vstate j ∧
      (runVoices m is a b d).val.2.2.vstate j = (voiceRun m j d').val.2.vstate j ∧
      voiceEvents j (runVoices m is a b d).events = (voiceRun m j d').events := by
  induction is generalizing a b d with
  | nil => simp at hj
  | cons i is ih =>
    obtain ⟨a', b', hval, hevents⟩ := runVoices_cons m i is a b d
    obtain ⟨hi, hnd⟩ := List.nodup_cons.mp hnd
    rw [hval, hevents, voiceEvents_append]
    by_cases h : j = i
    · subst h
      obtain ⟨hst, hes⟩ := runVoices_of_not_mem m hi a' b' (voiceRun m j d).val.2
      refine ⟨d, VoiceFrame.refl d, rfl, hst, ?_⟩
      rw [hes, voiceEvents_self, List.append_nil]
    · have hmem : j ∈ is := by simpa [h] using hj
      obtain ⟨d', hframe, hst, hval', hevents'⟩ := ih hmem hnd a' b' (voiceRun m i d).val.2
      refine ⟨d', (VoiceFrame.voiceRun m i d).trans hframe, ?_, hval', ?_⟩
      · rw [hst, voiceRun_vstate_of_ne m i d h]
      · rw [voiceEvents_of_ne (Ne.symm h), List.nil_append, hevents']

/-- A predicate that every voice's events satisfy holds of all events of the
    loop, once lifted to tagged events. -/
theorem runVoices_events {is : List Channel} (a b : Sample) (d : Dsp) {e : Event}
    (he : e ∈ (runVoices m is a b d).events) : ∃ i ve, e = .voice i ve := by
  induction is generalizing a b d with
  | nil => simp at he
  | cons i is ih =>
    obtain ⟨a', b', -, hevents⟩ := runVoices_cons m i is a b d
    rw [hevents, List.mem_append] at he
    rcases he with he | he
    · obtain ⟨ve, -, rfl⟩ := List.mem_map.mp he
      exact ⟨i, ve, rfl⟩
    · exact ih a' b' _ he

end Loop

-- ════════════════════════════════════════════════════════════════════════
-- The DSP between the stages of a sample
-- ════════════════════════════════════════════════════════════════════════

section Stages

variable (m : Mem) (d : Dsp)

/-- The DSP when the voices start: keys polled and rate counters stepped. -/
def ticked : Dsp :=
  let d := pollKeys d
  { d with ctr := ctrRun d.ctr }

/-- The sums of the voices and the DSP after the voice loop. Irreducible: to
    unfold it would unroll the eight voices. -/
@[irreducible]
def mixed : Sample × Sample × Dsp :=
  (runVoices m (List.finRange 8) silence silence (ticked d)).val

theorem mixed_eq :
    mixed m d = (runVoices m (List.finRange 8) silence silence (ticked d)).val := by
  delta mixed
  exact Eq.refl _

theorem nextSample_eq :
    nextSample m d =
      runVoices m (List.finRange 8) silence silence (ticked d) >>= fun r =>
        finishSample m r.1 r.2.1 r.2.2 := by
  simp only [nextSample, ticked]

theorem nextSample_val :
    (nextSample m d).val =
      (finishSample m (mixed m d).1 (mixed m d).2.1 (mixed m d).2.2).val := by
  rw [nextSample_eq, Traced.val_bind, mixed_eq]

theorem nextSample_events :
    (nextSample m d).events =
      (runVoices m (List.finRange 8) silence silence (ticked d)).events ++
      (finishSample m (mixed m d).1 (mixed m d).2.1 (mixed m d).2.2).events := by
  rw [nextSample_eq, Traced.events_bind, mixed_eq]

@[simp] theorem ticked_regs : (ticked d).regs = d.regs := by
  simp only [ticked, pollKeys]
  split <;> rfl

@[simp] theorem ticked_vstate : (ticked d).vstate = d.vstate := by
  simp only [ticked, pollKeys]
  split <;> rfl

@[simp] theorem ticked_toggle : (ticked d).toggle = !d.toggle := by
  simp only [ticked, pollKeys]
  split <;> rfl

theorem ticked_kon :
    (ticked d).kon = if d.toggle then d.regs regKon &&& ~~~d.kon else d.kon := by
  simp only [ticked, pollKeys]
  cases d.toggle <;> rfl

@[simp] theorem ticked_esa : (ticked d).esa = d.esa := by
  simp only [ticked, pollKeys]
  split <;> rfl

@[simp] theorem ticked_echoOffset : (ticked d).echoOffset = d.echoOffset := by
  simp only [ticked, pollKeys]
  split <;> rfl

@[simp] theorem ticked_echoLength : (ticked d).echoLength = d.echoLength := by
  simp only [ticked, pollKeys]
  split <;> rfl

theorem mixed_frame : VoiceFrame (ticked d) (mixed m d).2.2 := by
  rw [mixed_eq]
  exact runVoices_frame ..

theorem mixed_regs {r : Fin 0x80} (hr : ControlReg r) : (mixed m d).2.2.regs r = d.regs r := by
  rw [(mixed_frame m d).regs r hr, ticked_regs]

/-- The pointer the echo unit uses in this sample. -/
def echoPointer (d : Dsp) : Word := d.esa.setWidth 16 * 0x100 + d.echoOffset

/-- The filter moves the echo pointer and the history, and nothing else. -/
theorem echoFilter_dsp :
    ∃ hist pos, (echoFilter m d).val.2 =
      { d with echoPtr := echoPointer d, echoHist := hist, echoHistPos := pos } := by
  simp only [echoFilter, Traced.val_bind, Traced.val_pure, firWriteL, firWriteR, echoPointer]
  split <;> exact ⟨_, _, rfl⟩

theorem echoFilter_events :
    (echoFilter m d).events =
      [.aram (echoPointer d + 0 + 1).toNat, .aram (echoPointer d + 0).toNat,
        .echoReadL (m.word (echoPointer d + 0)),
        .aram (echoPointer d + 2 + 1).toNat, .aram (echoPointer d + 2).toNat,
        .echoReadR (m.word (echoPointer d + 2))] := by
  simp only [echoFilter, echoReadL, echoReadR, Traced.events_bind, Traced.events_pure,
    Traced.events_tag, Traced.val_tag, Traced.events_emit, firWriteL, echoPointer]
  split <;> rfl

/-- The sample and the DSP after the filter, and the pair written back. -/
def feedback (m : Mem) (echoOut : Sample) (d : Dsp) : Sample :=
  let r := (echoFilter m d).val
  dropLowBit (sampleBlendScale8 echoOut r.1 (r.2.regs regEfb))

/-- The length the echo buffer has from this sample on. -/
def latchedLength (regs : Regs) (offset length : Word) : Word :=
  if offset = 0 then (regs regEdl &&& 0xf).setWidth 16 * 0x800 else length

/-- The offset of the next slot of a buffer. -/
def nextOffset (offset length : Word) : Word :=
  if (offset + 4).toNat ≥ length.toNat then 0 else offset + 4

/-- Store a pair at an echo pointer. -/
def writePair (m : Mem) (ptr : Word) (s : Sample) : Mem :=
  (writeAramWord (writeAramWord m (ptr + 0) s.left).val (ptr + 2) s.right).val

/-- FLG lets the echo unit write. -/
def EchoWrites (regs : Regs) : Prop := regs regFlg &&& flgEchoDisabled = 0

instance (regs : Regs) : Decidable (EchoWrites regs) := inferInstanceAs (Decidable (_ = _))

theorem advanceEcho_eq :
    advanceEcho d =
      { d with
        esa := d.regs regEsa
        echoLength := latchedLength d.regs d.echoOffset d.echoLength
        echoOffset :=
          nextOffset d.echoOffset (latchedLength d.regs d.echoOffset d.echoLength) } := by
  rw [advanceEcho, latchedLength, nextOffset]
  by_cases h : d.echoOffset = 0
  · simp only [h, if_true]
    split <;> rfl
  · simp only [if_neg h]
    split <;> rfl

theorem echoWriteBack_dsp (s : Sample) :
    ∃ eon, (echoWriteBack m s d).val.2 =
      { d with
        eon := eon
        echoEnabled := d.regs regFlg &&& flgEchoDisabled == 0
        esa := d.regs regEsa
        echoLength := latchedLength d.regs d.echoOffset d.echoLength
        echoOffset :=
          nextOffset d.echoOffset (latchedLength d.regs d.echoOffset d.echoLength) } := by
  simp only [echoWriteBack, Traced.val_bind, Traced.val_pure, advanceEcho_eq, latchEchoEnabled]
  exact ⟨_, rfl⟩

theorem echoWriteBack_mem (s : Sample) :
    (echoWriteBack m s d).val.1 =
      if EchoWrites d.regs then writePair m d.echoPtr s else m := by
  by_cases h : EchoWrites d.regs
  · have hlatch : (d.regs regFlg &&& flgEchoDisabled == 0) = true := beq_iff_eq.mpr h
    rw [if_pos h]
    simp only [echoWriteBack, Traced.val_bind, Traced.val_pure, advanceEcho_eq,
      latchEchoEnabled, echoWriteL, echoWriteR, hlatch, if_true]
    rfl
  · have hlatch : (d.regs regFlg &&& flgEchoDisabled == 0) = false := beq_eq_false_iff_ne.mpr h
    rw [if_neg h]
    simp only [echoWriteBack, Traced.val_bind, Traced.val_pure, advanceEcho_eq,
      latchEchoEnabled, echoWriteL, echoWriteR, hlatch, Bool.false_eq_true, if_false]

theorem echoWriteBack_events (s : Sample) :
    (echoWriteBack m s d).events =
      if EchoWrites d.regs then
        [.echoWriteL s.left, .aram (d.echoPtr + 0 + 1).toNat, .aram (d.echoPtr + 0).toNat,
          .echoWriteR s.right, .aram (d.echoPtr + 2 + 1).toNat, .aram (d.echoPtr + 2).toNat]
      else [] := by
  by_cases h : EchoWrites d.regs
  · have hlatch : (d.regs regFlg &&& flgEchoDisabled == 0) = true := beq_iff_eq.mpr h
    rw [if_pos h]
    simp only [echoWriteBack, Traced.events_bind, advanceEcho_eq, latchEchoEnabled, echoWriteL,
      echoWriteR, hlatch, if_true]
    rfl
  · have hlatch : (d.regs regFlg &&& flgEchoDisabled == 0) = false := beq_eq_false_iff_ne.mpr h
    rw [if_neg h]
    simp only [echoWriteBack, Traced.events_bind, advanceEcho_eq, latchEchoEnabled, echoWriteL,
      echoWriteR, hlatch, Bool.false_eq_true, if_false]
    rfl

theorem finishSample_world (mainOut echoOut : Sample) :
    (finishSample m mainOut echoOut d).val.2 =
      (echoWriteBack m (feedback m echoOut d) (echoFilter m d).val.2).val := by
  simp only [finishSample, feedback, Traced.val_bind, Traced.val_pure]

theorem finishSample_events (mainOut echoOut : Sample) :
    (finishSample m mainOut echoOut d).events =
      (echoFilter m d).events ++
        (echoWriteBack m (feedback m echoOut d) (echoFilter m d).val.2).events := by
  simp only [finishSample, feedback, Traced.events_bind, Traced.events_pure, List.append_nil]

end Stages

-- ════════════════════════════════════════════════════════════════════════
-- The DSP and the memory after a sample
-- ════════════════════════════════════════════════════════════════════════

section Sample

variable (m : Mem) (d : Dsp)

/-- FLG, ESA and EDL are not written by the voices. -/
theorem control_flg : ControlReg regFlg := by decide

theorem control_esa : ControlReg regEsa := by decide

theorem control_edl : ControlReg regEdl := by decide

theorem control_kon : ControlReg regKon := by decide

/-- The echo variables after a sample, and everything else as the voices left
    it. -/
theorem nextSample_dsp :
    ∃ eon ptr hist pos, (nextSample m d).val.2.2 =
      { (mixed m d).2.2 with
        eon := eon
        echoPtr := ptr
        echoHist := hist
        echoHistPos := pos
        echoEnabled := d.regs regFlg &&& flgEchoDisabled == 0
        esa := d.regs regEsa
        echoLength := latchedLength d.regs d.echoOffset d.echoLength
        echoOffset :=
          nextOffset d.echoOffset (latchedLength d.regs d.echoOffset d.echoLength) } := by
  obtain ⟨hist, pos, hfilter⟩ := echoFilter_dsp m (mixed m d).2.2
  obtain ⟨eon, hwrite⟩ := echoWriteBack_dsp m (echoFilter m (mixed m d).2.2).val.2
    (feedback m (mixed m d).2.1 (mixed m d).2.2)
  have hframe := mixed_frame m d
  have hlen : ∀ o l, latchedLength (mixed m d).2.2.regs o l = latchedLength d.regs o l := by
    intro o l
    rw [latchedLength, latchedLength, mixed_regs m d control_edl]
  have hoff : (mixed m d).2.2.echoOffset = d.echoOffset := by
    rw [hframe.echoOffset, ticked_echoOffset]
  have hlength : (mixed m d).2.2.echoLength = d.echoLength := by
    rw [hframe.echoLength, ticked_echoLength]
  refine ⟨eon, echoPointer (mixed m d).2.2, hist, pos, ?_⟩
  rw [nextSample_val, finishSample_world, hwrite, hfilter]
  simp only [hlen, hoff, hlength, mixed_regs m d control_flg, mixed_regs m d control_esa]

theorem nextSample_regs {r : Fin 0x80} (hr : ControlReg r) :
    (nextSample m d).val.2.2.regs r = d.regs r := by
  obtain ⟨_, _, _, _, h⟩ := nextSample_dsp m d
  rw [h]
  exact mixed_regs m d hr

theorem nextSample_vstate : (nextSample m d).val.2.2.vstate = (mixed m d).2.2.vstate := by
  obtain ⟨_, _, _, _, h⟩ := nextSample_dsp m d
  rw [h]

theorem nextSample_toggle : (nextSample m d).val.2.2.toggle = !d.toggle := by
  obtain ⟨_, _, _, _, h⟩ := nextSample_dsp m d
  rw [h]
  exact (mixed_frame m d).toggle.trans (ticked_toggle d)

theorem nextSample_kon : (nextSample m d).val.2.2.kon = (ticked d).kon := by
  obtain ⟨_, _, _, _, h⟩ := nextSample_dsp m d
  rw [h]
  exact (mixed_frame m d).kon

theorem nextSample_koff : (nextSample m d).val.2.2.koff = (ticked d).koff := by
  obtain ⟨_, _, _, _, h⟩ := nextSample_dsp m d
  rw [h]
  exact (mixed_frame m d).koff

theorem nextSample_ctr : (nextSample m d).val.2.2.ctr = (ticked d).ctr := by
  obtain ⟨_, _, _, _, h⟩ := nextSample_dsp m d
  rw [h]
  exact (mixed_frame m d).ctr

theorem nextSample_esa : (nextSample m d).val.2.2.esa = d.regs regEsa := by
  obtain ⟨_, _, _, _, h⟩ := nextSample_dsp m d
  rw [h]

theorem nextSample_echoLength :
    (nextSample m d).val.2.2.echoLength = latchedLength d.regs d.echoOffset d.echoLength := by
  obtain ⟨_, _, _, _, h⟩ := nextSample_dsp m d
  rw [h]

theorem nextSample_echoOffset :
    (nextSample m d).val.2.2.echoOffset =
      nextOffset d.echoOffset (latchedLength d.regs d.echoOffset d.echoLength) := by
  obtain ⟨_, _, _, _, h⟩ := nextSample_dsp m d
  rw [h]

theorem echoPointer_mixed : echoPointer (mixed m d).2.2 = echoPointer d := by
  rw [echoPointer, echoPointer, (mixed_frame m d).esa, (mixed_frame m d).echoOffset,
    ticked_esa, ticked_echoOffset]

/-- The pair a sample writes back into the echo buffer. -/
def writtenPair : Sample := feedback m (mixed m d).2.1 (mixed m d).2.2

/-- **Memory after a sample**: one pair is written at the pointer latched
    before the call, when FLG lets the echo unit write. -/
theorem nextSample_mem :
    (nextSample m d).val.2.1 =
      if EchoWrites d.regs then writePair m (echoPointer d) (writtenPair m d) else m := by
  obtain ⟨hist, pos, hfilter⟩ := echoFilter_dsp m (mixed m d).2.2
  have hflg : EchoWrites (mixed m d).2.2.regs ↔ EchoWrites d.regs := by
    rw [EchoWrites, EchoWrites, mixed_regs m d control_flg]
  rw [nextSample_val, finishSample_world, echoWriteBack_mem, hfilter, echoPointer_mixed]
  exact if_congr hflg rfl rfl

/-- The events of a sample: those of the voices, the pair read, the pair
    written. -/
theorem nextSample_echo_events :
    (nextSample m d).events =
      (runVoices m (List.finRange 8) silence silence (ticked d)).events ++
      ([.aram (echoPointer d + 0 + 1).toNat, .aram (echoPointer d + 0).toNat,
        .echoReadL (m.word (echoPointer d + 0)),
        .aram (echoPointer d + 2 + 1).toNat, .aram (echoPointer d + 2).toNat,
        .echoReadR (m.word (echoPointer d + 2))] ++
      if EchoWrites d.regs then
        [.echoWriteL (writtenPair m d).left,
          .aram (echoPointer d + 0 + 1).toNat, .aram (echoPointer d + 0).toNat,
          .echoWriteR (writtenPair m d).right,
          .aram (echoPointer d + 2 + 1).toNat, .aram (echoPointer d + 2).toNat]
      else []) := by
  obtain ⟨hist, pos, hfilter⟩ := echoFilter_dsp m (mixed m d).2.2
  have hflg : EchoWrites (mixed m d).2.2.regs ↔ EchoWrites d.regs := by
    rw [EchoWrites, EchoWrites, mixed_regs m d control_flg]
  rw [nextSample_events, finishSample_events, echoFilter_events, echoWriteBack_events, hfilter,
    echoPointer_mixed]
  congr 2
  exact if_congr hflg rfl rfl

/-- **The call of voice `j` inside a sample**: what the voices before it wrote
    does not matter to it. -/
theorem nextSample_voice (j : Channel) :
    (nextSample m d).val.2.2.vstate j = (voiceRun m j (ticked d)).val.2.vstate j ∧
      voiceEvents j (nextSample m d).events = (voiceRun m j (ticked d)).events := by
  obtain ⟨d', hframe, hst, hval, hevents⟩ :=
    runVoices_voice m (List.mem_finRange j) (List.nodup_finRange 8) silence silence (ticked d)
  obtain ⟨hval', hevents'⟩ := (hframe.sameVoice hst).voiceRun_congr m
  constructor
  · rw [nextSample_vstate, mixed_eq, hval, hval']
  · rw [nextSample_echo_events, voiceEvents_append, hevents, hevents']
    split <;> exact List.append_nil _

end Sample

section Ops

variable (w : World)

theorem World.step_sample :
    w.step .sample = nextSample w.mem w.dsp >>= fun r => pure ⟨r.2.1, r.2.2⟩ := by
  simp only [World.step]

@[simp] theorem World.step_sample_mem :
    (w.step .sample).val.mem = (nextSample w.mem w.dsp).val.2.1 := by
  rw [World.step_sample, Traced.val_bind, Traced.val_pure]

@[simp] theorem World.step_sample_dsp :
    (w.step .sample).val.dsp = (nextSample w.mem w.dsp).val.2.2 := by
  rw [World.step_sample, Traced.val_bind, Traced.val_pure]

@[simp] theorem World.step_sample_events :
    (w.step .sample).events = (nextSample w.mem w.dsp).events := by
  rw [World.step_sample, Traced.events_bind, Traced.events_pure, List.append_nil]

/-- Between samples only the registers and the rate counters move. -/
theorem World.step_of_ne_sample {op : Op} (h : op ≠ .sample) :
    (w.step op).events = [] ∧
      (w.step op).val.dsp =
        { w.dsp with regs := (w.step op).val.dsp.regs, ctr := (w.step op).val.dsp.ctr } := by
  cases op with
  | sample => exact absurd rfl h
  | store | poke | restore | reset => exact ⟨rfl, rfl⟩

end Ops

end SpuKit
