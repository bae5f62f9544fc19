import SpuKit.Dsp.Solo
import SpuKit.Dsp.VoiceInvariant

/-!
# Which audio RAM accesses stay in bounds

The word accesses of the DSP truncate their addresses to 16 bits, and so do
the header reads. The data bytes of a BRR block are fetched from
`brr_addr + brr_off`, which is an `int`: for a block in the last bytes of audio
RAM the index leaves the array. This file proves that nothing else does.

## Main definitions

- `Event.InBounds` — an event uses audio RAM within its 64 KiB
- `FetchesInBounds` — the voices that decode stay within it

## Main results

- `nextSample_inBounds_iff` — when all accesses of a sample are in bounds
- `runOps_inBounds_iff` — when all accesses of a run are
- `dataByte_out_of_bounds` — a run that reads behind audio RAM
-/

namespace SpuKit

/-- An access of a voice is in bounds. -/
def VoiceEvent.InBounds : VoiceEvent → Prop
  | .aram index => index < 0x10000
  | .brrByte index => index < 0x10000
  | _ => True

/-- An access of a sample is in bounds. -/
def Event.InBounds : Event → Prop
  | .voice _ e => e.InBounds
  | .aram index => index < 0x10000
  | _ => True

section Voice

variable (m : Mem) (i : Channel) (d : Dsp)

/-- The ring, the gauss table and `wrap12` do not touch audio RAM. -/
theorem interpolate_inBounds (st : VState) : (interpolate st).Always VoiceEvent.InBounds := by
  intro e he
  rw [interpolate_events] at he
  simp only [bufLoadWrapped_events, List.mem_append, List.mem_cons, List.not_mem_nil,
    or_false] at he
  rcases he with ((((rfl | rfl) | rfl | rfl) | rfl | rfl) | rfl | rfl) | rfl | rfl | rfl | rfl | rfl
  all_goals trivial

/-- A decode stays in bounds when its two data bytes do. -/
theorem brrSample4_inBounds {st : VState} (h : st.brrAddr.toNat + st.brrOff.toNat < 0x10000)
    (h' : st.brrAddr.toNat + (st.brrOff + 1).toNat < 0x10000) :
    (brrSample4 m st).Always VoiceEvent.InBounds := by
  have hfilter : (vfilterState st).Always VoiceEvent.InBounds := by
    rw [vfilterState]
    split <;> simp [bufLoad, Traced.Always, VoiceEvent.InBounds]
  intro e he
  rw [brrSample4_events, brrStore4_events] at he
  simp only [List.mem_append, List.mem_cons, List.not_mem_nil, or_false] at he
  rcases he with ((rfl | he) | rfl | rfl) | rfl | rfl | rfl | rfl | rfl
  · trivial
  · exact hfilter e he
  · exact h
  · exact h'
  all_goals trivial

/-- A call of a well-formed voice stays in bounds exactly when the data bytes
    of a due decode do. -/
theorem voiceRun_inBounds_iff (h : (d.vstate i).Wf) :
    (voiceRun m i d).Always VoiceEvent.InBounds ↔
      (DecodeDue m i d →
        (primed m i d).brrAddr.toNat + (primed m i d).brrOff.toNat + 1 < 0x10000) := by
  have hnext : DecodeDue m i d →
      ((primed m i d).brrOff + 1).toNat = (primed m i d).brrOff.toNat + 1 := by
    intro hdue
    rcases DecodeDue.dataOff m i d h hdue with hoff | hoff | hoff | hoff <;> rw [hoff] <;> rfl
  constructor
  · intro hall hdue
    have hmem : (primed m i d).brrAddr.toNat + ((primed m i d).brrOff + 1).toNat ∈
        dataBytes (voiceRun m i d).events := by
      rw [voiceRun_dataBytes, if_pos hdue]
      simp
    have hlt : (primed m i d).brrAddr.toNat + ((primed m i d).brrOff + 1).toNat < 0x10000 :=
      hall _ (mem_dataBytes.mp hmem)
    rw [hnext hdue] at hlt
    omega
  · intro hbound
    refine voiceRun_always m i d (fun addr => addr.isLt) trivial (fun _ _ => trivial) trivial
      (fun _ => interpolate_inBounds _) fun hdue => brrSample4_inBounds m ?_ ?_
    · rw [enveloped_brrAddr, enveloped_brrOff]
      have := hbound hdue
      omega
    · rw [enveloped_brrAddr, enveloped_brrOff, hnext hdue]
      have := hbound hdue
      omega

end Voice

section Samples

variable (m : Mem) (d : Dsp)

/-- The echo unit truncates its addresses, so a sample stays in bounds exactly
    when its eight voices do. -/
theorem nextSample_inBounds_iff_voices :
    (nextSample m d).Always Event.InBounds ↔
      ∀ i, (voiceRun m i (ticked d)).Always VoiceEvent.InBounds := by
  constructor
  · intro h i e he
    rw [← (nextSample_voice m d i).2] at he
    exact h _ (mem_voiceEvents.mp he)
  · intro h e he
    cases e with
    | voice i ve =>
      have hve := mem_voiceEvents.mpr he
      rw [(nextSample_voice m d i).2] at hve
      exact h i ve hve
    | aram index =>
      rw [nextSample_echo_events, List.mem_append, List.mem_append] at he
      rcases he with he | he | he
      · obtain ⟨i, ve, hne⟩ := runVoices_events m _ _ _ he
        cases hne
      · simp only [List.mem_cons, List.not_mem_nil, or_false, Event.aram.injEq, reduceCtorEq,
          false_or] at he
        rcases he with rfl | rfl | rfl | rfl <;> exact BitVec.isLt _
      · split at he
        · simp only [List.mem_cons, List.not_mem_nil, or_false, Event.aram.injEq, reduceCtorEq,
            false_or] at he
          rcases he with rfl | rfl | rfl | rfl <;> exact BitVec.isLt _
        · simp at he
    | _ => trivial

end Samples

/-- Every voice that decodes a group in the next sample fetches its two data
    bytes from below 64 KiB. -/
def FetchesInBounds (w : World) : Prop :=
  ∀ i, DecodesGroup w.mem i w.dsp →
    (w.dsp.vstate i).brrAddr.toNat + (w.dsp.vstate i).brrOff.toNat + 1 < 0x10000

theorem nextSample_inBounds_iff {w : World} (h : Reachable w) :
    (nextSample w.mem w.dsp).Always Event.InBounds ↔ FetchesInBounds w := by
  rw [nextSample_inBounds_iff_voices]
  refine forall_congr' fun i => ?_
  have hwf : ((ticked w.dsp).vstate i).Wf := by
    rw [ticked_vstate]
    exact h.voicesWf i
  rw [voiceRun_inBounds_iff w.mem i _ hwf,
    decodeDue_ticked_iff w.mem i w.dsp (h.voicesWf i).attackDelay]
  refine imp_congr_right fun hdue => ?_
  have hfive : (w.dsp.vstate i).attackDelay ≠ 5 := by
    intro hfive
    rcases hdue.2 with ⟨hzero, -⟩ | ⟨-, hle⟩
    · rw [hfive] at hzero
      exact absurd hzero (by decide)
    · rw [hfive] at hle
      exact absurd hle (by decide)
  rw [primed_brrAddr, primed_brrOff, ticked_vstate, if_neg hfive, if_neg hfive]

theorem step_inBounds_iff (op : Op) {w : World} (h : Reachable w) :
    (w.step op).Always Event.InBounds ↔ (op.isSample = true → FetchesInBounds w) := by
  cases op with
  | sample =>
    have hevents : (w.step .sample).Always Event.InBounds ↔
        (nextSample w.mem w.dsp).Always Event.InBounds := by
      rw [Traced.Always, Traced.Always, World.step_sample_events]
    rw [hevents, nextSample_inBounds_iff h]
    exact ⟨fun hf _ => hf, fun hf => hf rfl⟩
  | store | poke | restore | reset =>
    exact iff_of_true (Traced.always_pure _) fun h => absurd h Bool.false_ne_true

/-- **Bounds of a run.** In every run of a process all audio RAM indices are
    below 64 KiB if and only if, in each of its samples, every voice that
    decodes a group fetches its two data bytes from below 64 KiB. -/
theorem runOps_inBounds_iff (m : Mem) (ops : List Op) :
    (runOps ops ⟨m, .zero⟩).Always Event.InBounds ↔
      StepSystem.Along World.step (fun op w => op.isSample = true → FetchesInBounds w) ops
        ⟨m, .zero⟩ := by
  have hstart : Reachable ⟨m, .zero⟩ := ⟨m, [], rfl⟩
  have hstep : ∀ op w, Reachable w → Reachable (World.step op w).val := fun op _ h => h.step [op]
  exact StepSystem.run_always_iff _ hstep (fun op _ h => step_inBounds_iff op h) hstart

/-- A directory at 0 whose first entry starts at the last byte of audio RAM. -/
def lastByteSource : Mem where
  aram addr := if addr.toNat < 2 then 0xff else 0
  beyond _ := 0

/-- The first decode after the key-on fetches its data bytes from behind audio
    RAM. -/
theorem lastByteSource_dataBytes :
    dataBytes (voiceEvents 0 (runOps [.restore keyVoice0, .sample, .sample, .sample, .sample]
      ⟨lastByteSource, .zero⟩).events) = [0x10000, 0x10001] := by
  rw [soloRun_events (by decide +kernel)]
  decide +kernel

/-- Not every access of every run is in bounds. -/
theorem dataByte_out_of_bounds :
    ¬ ∀ m ops, (runOps ops ⟨m, .zero⟩).Always Event.InBounds := by
  intro h
  have hmem : .brrByte 0x10000 ∈ voiceEvents 0 (runOps [.restore keyVoice0, .sample, .sample,
      .sample, .sample] ⟨lastByteSource, .zero⟩).events := by
    rw [← mem_dataBytes, lastByteSource_dataBytes]
    simp
  have hbound : 0x10000 < 0x10000 := h _ _ _ (mem_voiceEvents.mp hmem)
  exact Nat.lt_irrefl _ hbound

end SpuKit
