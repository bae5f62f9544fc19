import SpuKit.Dsp.Cursor

/-!
# The ring behind the attack countdown

The countdown after a key-on decodes a group in each of its calls but the
first. These are four groups, and the ring holds three: when the pitch starts
to accumulate, the first group of the source is already overwritten. Only a
voice that is cut or keyed off in the last call of the countdown misses the
fourth group, and its cursor is left behind by one.

## Main definitions

- `StartsAtFirst` — playback starts at the first sample of the source
- `Primed` — what the countdown leaves behind

## Main results

- `Playing.prime` — the last call of the countdown
- `first_samples_lost` — playback never starts at the first sample
-/

namespace SpuKit

/-- Playback starts at the first sample: the ring holds decoded samples 0 to 11,
    oldest first, none of which was overwritten, and the cursor is at 0. -/
structure StartsAtFirst (es : List VoiceEvent) (st : VState) : Prop where
  ring : Ring.contents 12 (ringSlot st.buf) st.bufPos.toNat = (stream es).take 12
  kept : (stream es).length ≤ 12
  interpPos : st.interpPos = 0

/-- What the countdown leaves behind: four groups were decoded and the first is
    overwritten, or the last call fell silent with the cursor still to move. -/
def Primed (es : List VoiceEvent) (st : VState) : Prop :=
  (stream es).length = 16 ∧ st.interpPos = 0 ∧
      Ring.contents 12 (ringSlot st.buf) st.bufPos.toNat = (stream es).drop 4 ∨
    (stream es).length = 12 ∧ st.interpPos = 0x4000 ∧
      Ring.contents 12 (ringSlot st.buf) st.bufPos.toNat = stream es

theorem Primed.not_startsAtFirst {es : List VoiceEvent} {st : VState} (h : Primed es st) :
    ¬ StartsAtFirst es st := by
  intro hstart
  rcases h with ⟨hlen, -, -⟩ | ⟨-, hpos, -⟩
  · have hkept := hstart.kept
    omega
  · have hzero := hstart.interpPos
    omega

section Call

variable {m : Mem} {i : Channel} {d : Dsp} {es : List VoiceEvent}

/-- **Step**: the last call of the countdown. -/
theorem Playing.prime (h : Playing es (d.vstate i)) (hdelay : (d.vstate i).attackDelay = 1)
    (hkey : ¬ KeyedOn d i) :
    Primed (es ++ (voiceRun m i d).events) ((voiceRun m i d).val.2.vstate i) := by
  have hone : (d.vstate i).attackDelay.toNat = 1 := by
    rw [hdelay]
    rfl
  have hdecodes : (decodes es).length = 3 := by
    have := h.priming (by omega) (by omega)
    omega
  have hlength : (stream es).length = 12 := by
    rw [h.length, hdecodes]
  have hpos : (SpuKit.primed m i d).interpPos = 0x4000 := by
    rw [primed_interpPos, if_neg (by rw [hdelay]; decide), if_pos (by rw [hdelay]; decide)]
  by_cases hsilent : FallsSilent m i d
  · right
    have hdue : ¬ DecodeDue m i d := fun hdue => hdue.1 hsilent
    have hstream : stream (es ++ (voiceRun m i d).events) = stream es := by
      rw [stream_append, voiceRun_stream, if_neg hdue, List.append_nil]
    obtain ⟨hbuf, hbufPos, -, -⟩ := voiceRun_of_not_due hdue
    have hring := (h.ring (by omega)).contents_eq hlength.ge
    rw [hlength, Nat.sub_self, List.drop_zero] at hring
    refine ⟨by rw [hstream, hlength], ?_, ?_⟩
    · rw [voiceRun_interpPos, if_pos hsilent, hpos]
    · rw [hstream, hbuf, hbufPos, primed_bufPos, if_neg (by rw [hdelay]; decide)]
      exact hring
  · left
    have hdue : DecodeDue m i d := ⟨hsilent, hpos.ge⟩
    have hnext := h.call_of_due hkey hdue
    have hzero : ((voiceRun m i d).val.2.vstate i).attackDelay.toNat = 0 := by
      rw [voiceRun_attackDelay_toNat h.delay_le hkey, hone]
    have hlength' : (stream (es ++ (voiceRun m i d).events)).length = 16 := by
      rw [stream_append, voiceRun_stream, if_pos hdue, List.length_append, hlength, groupSamples]
      rfl
    have hring := (hnext.ring (by omega)).contents_eq (by omega)
    rw [hlength'] at hring
    refine ⟨hlength', ?_, hring⟩
    rw [voiceRun_interpPos_eq hsilent, hpos, primed_pitch, if_neg (by rw [hdelay]; decide)]
    rfl

/-- No call of the countdown falls silent but the last. -/
theorem not_fallsSilent (hle : (d.vstate i).attackDelay.toNat ≤ 5)
    (hdelay : 2 ≤ (d.vstate i).attackDelay.toNat) (hkey : ¬ KeyedOn d i) :
    ¬ FallsSilent m i d := by
  rintro ⟨hzero, -, -⟩
  have hkeyed : (keyed m i d).attackDelay.toNat = (d.vstate i).attackDelay.toNat - 1 := by
    rw [keyed_eq, ← primed_attackDelay_toNat m i d hle]
    exact congrArg BitVec.toNat (if_neg hkey)
  rw [hzero] at hkeyed
  have hnat : (0 : Byte).toNat = 0 := rfl
  omega

end Call

/-- A voice in its attack countdown, or behind it with what it left. -/
def CountingDown (es : List VoiceEvent) (st : VState) : Prop :=
  Playing es st ∧ st.attackDelay ≠ 0 ∨ st.attackDelay = 0 ∧ Primed es st

section Run

variable {i : Channel}

/-- **Step**: one operation on a voice whose countdown is not over. -/
theorem CountingDown.step (op : Op) (w : World) {es : List VoiceEvent}
    (hfirst : op.isSample = true → (w.dsp.vstate i).attackDelay ≠ 0)
    (hkey : keyOns (voiceEvents i (w.step op).events) = [])
    (h : CountingDown es (w.dsp.vstate i)) :
    CountingDown (es ++ voiceEvents i (w.step op).events) ((w.step op).val.dsp.vstate i) := by
  cases op with
  | store | poke | restore | reset =>
    show CountingDown (es ++ []) _
    rw [List.append_nil]
    exact h
  | sample =>
    obtain ⟨hvstate, hevents⟩ := nextSample_voice w.mem w.dsp i
    rw [World.step_sample_events, hevents, voiceRun_keyOns] at hkey
    rw [World.step_sample_events, hevents, World.step_sample_dsp, hvstate]
    have hnone : ¬ KeyedOn (ticked w.dsp) i := fun hon => by simp [hon] at hkey
    have hplay : Playing es ((ticked w.dsp).vstate i) := by
      rw [ticked_vstate]
      exact (h.resolve_right fun hover => hfirst rfl hover.1).1
    have hne : ((ticked w.dsp).vstate i).attackDelay.toNat ≠ 0 := by
      rw [ticked_vstate]
      exact fun hzero => hfirst rfl (byte_eq_of_toNat (by decide) hzero)
    have hnext := voiceRun_attackDelay_toNat (m := w.mem) hplay.delay_le hnone
    by_cases hlast : ((ticked w.dsp).vstate i).attackDelay.toNat = 1
    · right
      refine ⟨byte_eq_of_toNat (by decide) (by rw [hnext, hlast]), ?_⟩
      exact hplay.prime (byte_eq_of_toNat (by decide) hlast) hnone
    · left
      refine ⟨hplay.call hnone (not_fallsSilent hplay.delay_le (by omega) hnone), fun hzero => ?_⟩
      have hnat : (0 : Byte).toNat = 0 := rfl
      rw [hzero, hnat] at hnext
      omega

theorem keyOns_append_eq_nil (es es' : List Event) (h : keyOns (voiceEvents i (es ++ es')) = []) :
    keyOns (voiceEvents i es) = [] ∧ keyOns (voiceEvents i es') = [] := by
  rwa [voiceEvents_append, keyOns_append, List.append_eq_nil_iff] at h

end Run

/-- Every call of the voice along the run begins before its countdown is
    over. -/
def BeforeFirst (i : Channel) (ops : List Op) (w : World) : Prop :=
  StepSystem.Along World.step
    (fun op w => op.isSample = true → (w.dsp.vstate i).attackDelay ≠ 0) ops w

/-- **Playback does not start at the first sample.** Let a voice run from a
    key-on, not followed by another, to the first call that begins with
    `attack_delay` 0. Then sixteen samples were decoded, of which the ring holds
    4 to 15, or the voice fell silent in the last call and its cursor is not at
    0: in no run does playback start at the first sample. -/
theorem first_samples_lost (i : Channel) (ops : List Op) {w : World}
    (hkey : (w.dsp.vstate i).attackDelay = 5)
    (hnone : keyOns (voiceEvents i (runOps ops w).events) = []) (hfirst : BeforeFirst i ops w)
    (hdelay : ((runOps ops w).val.dsp.vstate i).attackDelay = 0) :
    let es := voiceEvents i (runOps ops w).events
    let st := (runOps ops w).val.dsp.vstate i
    Primed es st ∧ ¬ StartsAtFirst es st := by
  intro es st
  have hstep : ∀ op w es, (op.isSample = true → (w.dsp.vstate i).attackDelay ≠ 0) →
      keyOns (voiceEvents i (World.step op w).events) = [] →
      CountingDown (voiceEvents i es) (w.dsp.vstate i) →
      CountingDown (voiceEvents i (es ++ (World.step op w).events))
        ((World.step op w).val.dsp.vstate i) := by
    intro op w es hfirst hkeys h
    rw [voiceEvents_append]
    exact h.step op w hfirst hkeys
  have hstart : CountingDown (voiceEvents i []) (w.dsp.vstate i) :=
    Or.inl ⟨Playing.start hkey, by rw [hkey]; decide⟩
  have hrun : CountingDown es st :=
    StepSystem.run_history
      (fun (op : Op) (w : World) => op.isSample = true → (w.dsp.vstate i).attackDelay ≠ 0)
      (fun es => keyOns (voiceEvents i es) = [])
      (fun es (w : World) => CountingDown (voiceEvents i es) (w.dsp.vstate i))
      keyOns_append_eq_nil hstep hfirst hnone hstart
  have hprimed : Primed es st := (hrun.resolve_left fun h => h.2 hdelay).2
  exact ⟨hprimed, hprimed.not_startsAtFirst⟩

/-- A source whose first sample is 2048 and whose other samples are 0. -/
def clickSource : Mem where
  aram addr :=
    if addr = 1 then 1 else if addr = 0x100 then 0xc0 else if addr = 0x101 then 0x10 else 0
  beyond _ := 0

theorem clickSource_spec :
    let w := keyedOn clickSource
    (w.dsp.vstate 0).attackDelay = 5 ∧
      keyOns (voiceEvents 0 (runOps countdownOps w).events) = [] ∧
      BeforeFirst 0 countdownOps w ∧
      ((runOps countdownOps w).val.dsp.vstate 0).attackDelay = 0 := by
  have hquiet : EchoQuiet 0 keyOnOps ⟨clickSource, .zero⟩ := by decide +kernel
  obtain ⟨hmem, hsame⟩ := keyedOn_spec hquiet
  have hcountdown : EchoQuiet 0 countdownOps (soloKeyedOn clickSource) := by decide +kernel
  obtain ⟨hmem', hsame', hevents⟩ := soloRun_spec hmem hsame hcountdown
  refine ⟨?_, ?_, ?_, ?_⟩
  · rw [hsame.vstate]
    decide +kernel
  · rw [hevents]
    decide +kernel
  · refine soloRun_along (C := fun op w => op.isSample = true → (w.dsp.vstate 0).attackDelay ≠ 0)
      ?_ hmem hsame hcountdown (by decide +kernel)
    intro op w w' _ h hw
    rw [h.vstate]
    exact hw
  · rw [hsame'.vstate]
    decide +kernel

/-- The countdown of that source. -/
theorem first_samples_lost_click :
    let es := voiceEvents 0 (runOps countdownOps (keyedOn clickSource)).events
    let st := (runOps countdownOps (keyedOn clickSource)).val.dsp.vstate 0
    Primed es st ∧ ¬ StartsAtFirst es st := by
  obtain ⟨hkey, hnone, hfirst, hdelay⟩ := clickSource_spec
  exact first_samples_lost 0 countdownOps hkey hnone hfirst hdelay

/-- Its only sound is lost: behind the countdown the ring holds twelve zeros,
    while the first of the decoded samples is 2048. -/
theorem first_sample_overwritten :
    ¬ ∀ w, Reachable w → ∀ i ops, (w.dsp.vstate i).attackDelay = 5 →
      keyOns (voiceEvents i (runOps ops w).events) = [] → BeforeFirst i ops w →
      ((runOps ops w).val.dsp.vstate i).attackDelay = 0 →
      StartsAtFirst (voiceEvents i (runOps ops w).events) ((runOps ops w).val.dsp.vstate i) := by
  intro h
  obtain ⟨hkey, hnone, hfirst, hdelay⟩ := clickSource_spec
  have hstart := h _ (keyedOn_reachable _) 0 countdownOps hkey hnone hfirst hdelay
  have hring := hstart.ring
  have hquiet : EchoQuiet 0 keyOnOps ⟨clickSource, .zero⟩ := by decide +kernel
  obtain ⟨hmem, hsame⟩ := keyedOn_spec hquiet
  have hcountdown : EchoQuiet 0 countdownOps (soloKeyedOn clickSource) := by decide +kernel
  obtain ⟨-, hsame', hevents⟩ := soloRun_spec hmem hsame hcountdown
  rw [hevents, hsame'.vstate] at hring
  revert hring
  decide +kernel

end SpuKit
