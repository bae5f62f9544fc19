import SpuKit.Dsp.SampleSpec

/-!
# The representation invariant of a voice

Every voice of every reachable DSP has its fields in range, and every table,
ring and rate index a call uses is in range as well. The bounds support each
other: a voice that was never keyed on has `brr_off = 0`, and must not decode
before the attack countdown has set it to 1.

## Main definitions

- `VState.Bounded` — the ranges of the fields
- `VState.Wf` — the inductive invariant: the ranges, and where `brr_off` is
- `VoiceEvent.Safe` — an event uses its tables within their bounds

## Main results

- `voiceRun_wf` — a call keeps the invariant
- `voiceRun_safe` — a call of a well-formed voice is safe
- `voices_wellFormed` — all runs of the process
-/

namespace SpuKit

/-- The offsets at which `brr_sample4` may be entered. -/
def DataOff (off : Byte) : Prop := off = 1 ∨ off = 3 ∨ off = 5 ∨ off = 7

/-- The ranges of the fields of a voice. -/
structure VState.Bounded (st : VState) : Prop where
  interpPos : 0 ≤ st.interpPos ∧ st.interpPos ≤ 0x7fff
  env : 0 ≤ st.env ∧ st.env ≤ 0x7ff
  attackDelay : st.attackDelay.toNat ≤ 5
  bufPos : st.bufPos = 0 ∨ st.bufPos = 4 ∨ st.bufPos = 8

/-- A voice that cannot decode before the attack countdown has restarted its
    decoder: it is silent, or it was just keyed on. -/
def VState.Dormant (st : VState) : Prop :=
  (st.envMode = .release ∧ st.env = 0 ∧ st.attackDelay = 0 ∧ st.interpPos < 0x4000) ∨
    st.attackDelay = 5

/-- The inductive invariant of a voice. -/
structure VState.Wf (st : VState) : Prop extends st.Bounded where
  brrOff : DataOff st.brrOff ∨ st.Dormant

theorem VState.wf_zero : VState.zero.Wf where
  interpPos := by decide
  env := by decide
  attackDelay := by decide
  bufPos := by decide
  brrOff := Or.inr (Or.inl ⟨rfl, rfl, rfl, by decide⟩)

-- ════════════════════════════════════════════════════════════════════════
-- Envelope levels
-- ════════════════════════════════════════════════════════════════════════

section Levels

/-- A level that `commitEnvelope` does not clamp is in range. -/
theorem toUnsigned_le {val : Int} (hlo : -0x800 ≤ val) (hhi : val ≤ 0x1000)
    (h : ¬ toUnsigned val > 0x7ff) : 0 ≤ val ∧ val ≤ 0x7ff := by
  unfold toUnsigned at h
  rw [BitVec.toNat_ofInt] at h
  omega

theorem commitEnvelope_env (ctr : Counters) {st : VState} (target : Byte) {ret : Envelope}
    (hst : 0 ≤ st.env ∧ st.env ≤ 0x7ff) (hlo : -0x800 ≤ ret.env) (hhi : ret.env ≤ 0x1000) :
    0 ≤ (commitEnvelope ctr st target ret).val.env ∧
      (commitEnvelope ctr st target ret).val.env ≤ 0x7ff := by
  rw [commitEnvelope]
  simp only [Traced.val_bind, Traced.val_pure]
  have hover := toUnsigned_le hlo hhi
  split_ifs <;> simp_all

theorem runAdsrEnv_env {st : VState} (adsr1 adsr2 : Byte) (hst : 0 ≤ st.env ∧ st.env ≤ 0x7ff) :
    -0x800 ≤ (runAdsrEnv st adsr1 adsr2).val.env ∧
      (runAdsrEnv st adsr1 adsr2).val.env ≤ 0x1000 := by
  rw [runAdsrEnv]
  have hshift : 0 ≤ st.env >>> (8 : Nat) ∧ st.env >>> (8 : Nat) ≤ 7 := by
    rw [Int.shiftRight_eq_div_pow]
    omega
  split
  · simp only [Traced.val_pure]
    split_ifs <;> omega
  · simp only [Traced.val_pure]
    omega
  · simp only [Traced.val_pure]
    omega
  · simp [unreachable]

theorem runGainEnv_env {st : VState} (gain : Byte) (hst : 0 ≤ st.env ∧ st.env ≤ 0x7ff) :
    -0x800 ≤ (runGainEnv st gain).val.env ∧ (runGainEnv st gain).val.env ≤ 0x1000 := by
  rw [runGainEnv]
  have hshift : 0 ≤ st.env >>> (8 : Nat) ∧ st.env >>> (8 : Nat) ≤ 7 := by
    rw [Int.shiftRight_eq_div_pow]
    omega
  have hgain := gain.isLt
  simp only [Traced.val_ite, Traced.val_pure, unreachable]
  split_ifs <;> simp only [] <;> omega

theorem runEnvelope_env (ctr : Counters) {st : VState} (adsr1 adsr2 gain : Byte)
    (hst : 0 ≤ st.env ∧ st.env ≤ 0x7ff) :
    0 ≤ (runEnvelope ctr st adsr1 adsr2 gain).val.env ∧
      (runEnvelope ctr st adsr1 adsr2 gain).val.env ≤ 0x7ff := by
  rw [runEnvelope]
  simp only [Traced.val_ite, Traced.val_bind, Traced.val_pure]
  split_ifs
  · rw [envelopeRelease]
    split <;> simp only [] <;> omega
  · obtain ⟨hlo, hhi⟩ := runAdsrEnv_env adsr1 adsr2 hst
    exact commitEnvelope_env ctr _ hst hlo hhi
  · obtain ⟨hlo, hhi⟩ := runGainEnv_env gain hst
    exact commitEnvelope_env ctr _ hst hlo hhi

end Levels

-- ════════════════════════════════════════════════════════════════════════
-- A call keeps the invariant
-- ════════════════════════════════════════════════════════════════════════

section Call

variable (m : Mem) (i : Channel) (d : Dsp)

/-- Every call moves the attack countdown on until it is over. -/
theorem primed_attackDelay_toNat (h : (d.vstate i).attackDelay.toNat ≤ 5) :
    (primed m i d).attackDelay.toNat = (d.vstate i).attackDelay.toNat - 1 := by
  have hdec : ∀ a : Byte, a.toNat ≤ 5 → (if a = 0 then 0 else a - 1).toNat = a.toNat - 1 := by
    decide
  rw [primed_attackDelay]
  exact hdec _ h

theorem primed_env_bounded (h : (d.vstate i).Wf) :
    0 ≤ (primed m i d).env ∧ (primed m i d).env ≤ 0x7ff := by
  rw [primed_env]
  split
  · exact h.env
  · decide

theorem primed_interpPos_bounded (h : (d.vstate i).Wf) :
    0 ≤ (primed m i d).interpPos ∧ (primed m i d).interpPos ≤ 0x7fff := by
  rw [primed_interpPos]
  split_ifs
  · exact h.interpPos
  · decide
  · decide

theorem primed_bufPos_bounded (h : (d.vstate i).Wf) :
    (primed m i d).bufPos = 0 ∨ (primed m i d).bufPos = 4 ∨ (primed m i d).bufPos = 8 := by
  rw [primed_bufPos]
  split
  · exact Or.inl rfl
  · exact h.bufPos

theorem keyed_env_bounded (h : (d.vstate i).Wf) :
    0 ≤ (keyed m i d).env ∧ (keyed m i d).env ≤ 0x7ff := by
  rw [keyed_eq]
  simp only
  split
  · decide
  · exact primed_env_bounded m i d h

theorem enveloped_env_bounded (h : (d.vstate i).Wf) :
    0 ≤ (enveloped m i d).1.env ∧ (enveloped m i d).1.env ≤ 0x7ff := by
  have hkeyed := keyed_env_bounded m i d h
  rw [enveloped_eq]
  split
  · exact runEnvelope_env d.ctr _ _ _ hkeyed
  · exact hkeyed

theorem primed_pitch_lt : (primed m i d).pitch.toNat < 0x4000 := by
  rw [primed_pitch]
  split
  · exact voicePitch_lt _
  · decide

theorem nextPos_bounded (st : VState) : 0 ≤ nextPos st ∧ nextPos st ≤ 0x7fff := by
  rw [nextPos]
  omega

theorem nextBufPos_bounded {pos : Byte} (h : pos = 0 ∨ pos = 4 ∨ pos = 8) :
    nextBufPos pos = 0 ∨ nextBufPos pos = 4 ∨ nextBufPos pos = 8 := by
  rcases h with rfl | rfl | rfl <;> decide

theorem nextOff_data {off : Byte} (h : DataOff off) : DataOff (nextOff off) := by
  rcases h with rfl | rfl | rfl | rfl
  · exact Or.inr (Or.inl rfl)
  · exact Or.inr (Or.inr (Or.inl rfl))
  · exact Or.inr (Or.inr (Or.inr rfl))
  · exact Or.inl rfl

/-- A dormant voice that is not being restarted stays silent or is keyed on. -/
theorem dormant_call (h : (d.vstate i).Dormant) (hdelay : (d.vstate i).attackDelay ≠ 5) :
    ¬ DecodeDue m i d ∧ ((voiceRun m i d).val.2.vstate i).Dormant := by
  obtain ⟨hmode, henv, hzero, hpos⟩ : (d.vstate i).envMode = .release ∧ (d.vstate i).env = 0 ∧
      (d.vstate i).attackDelay = 0 ∧ (d.vstate i).interpPos < 0x4000 :=
    h.resolve_right hdelay
  have hpos' : (primed m i d).interpPos = (d.vstate i).interpPos := by
    rw [primed_interpPos, if_pos hzero]
  refine ⟨fun hdue => ?_, ?_⟩
  · have := hdue.2
    omega
  · by_cases hkey : KeyedOn d i
    · right
      rw [voiceRun_attackDelay, if_pos hkey]
    · have hkeyed : (keyed m i d).attackDelay = 0 ∧ (keyed m i d).envMode = .release ∧
          (keyed m i d).env = 0 := by
        rw [keyed_eq]
        simp [hkey, primed_attackDelay, primed_env, hzero, hmode, henv]
      obtain ⟨hkd, hkm, hke⟩ := hkeyed
      have hsilent : FallsSilent m i d := ⟨hkd, hkm, by omega⟩
      have henv' : (enveloped m i d).1 = envelopeRelease (keyed m i d) := by
        rw [enveloped_eq, if_pos hkd]
        exact runEnvelope_of_release _ _ _ _ hkm
      left
      refine ⟨?_, ?_, ?_, ?_⟩
      · rw [voiceRun_envMode, henv']
        rw [envelopeRelease]
        split <;> exact hkm
      · rw [voiceRun_env, henv', envelopeRelease_env_eq_zero]
        omega
      · rw [voiceRun_attackDelay, if_neg hkey, primed_attackDelay, if_pos hzero]
      · rw [voiceRun_interpPos, if_pos hsilent, hpos']
        exact hpos

/-- A decode that is due finds the offset at a data byte. -/
theorem DecodeDue.dataOff (h : (d.vstate i).Wf) (hdue : DecodeDue m i d) :
    DataOff (primed m i d).brrOff := by
  rw [primed_brrOff]
  split
  · exact Or.inl rfl
  · next hdelay =>
    rcases h.brrOff with hoff | hdormant
    · exact hoff
    · exact absurd hdue (dormant_call m i d hdormant hdelay).1

theorem voiceRun_brrOff (h : (d.vstate i).Wf) :
    DataOff ((voiceRun m i d).val.2.vstate i).brrOff ∨
      ((voiceRun m i d).val.2.vstate i).Dormant := by
  by_cases hdue : DecodeDue m i d
  · left
    rw [(voiceRun_of_due hdue).2.2.1]
    exact nextOff_data (DecodeDue.dataOff m i d h hdue)
  · rw [(voiceRun_of_not_due hdue).2.2.1, primed_brrOff]
    split
    · exact Or.inl (Or.inl rfl)
    · next hdelay =>
      rcases h.brrOff with hoff | hdormant
      · exact Or.inl hoff
      · exact Or.inr (dormant_call m i d hdormant hdelay).2

/-- **Step**: a call of a voice keeps its invariant. -/
theorem voiceRun_wf (h : (d.vstate i).Wf) : ((voiceRun m i d).val.2.vstate i).Wf where
  interpPos := by
    rw [voiceRun_interpPos]
    split
    · exact primed_interpPos_bounded m i d h
    · exact nextPos_bounded _
  env := by
    rw [voiceRun_env]
    exact enveloped_env_bounded m i d h
  attackDelay := by
    rw [voiceRun_attackDelay]
    split
    · decide
    · have := primed_attackDelay_toNat m i d h.attackDelay
      have := h.attackDelay
      omega
  bufPos := by
    by_cases hdue : DecodeDue m i d
    · rw [(voiceRun_of_due hdue).2.1]
      exact nextBufPos_bounded (primed_bufPos_bounded m i d h)
    · rw [(voiceRun_of_not_due hdue).2.1]
      exact primed_bufPos_bounded m i d h
  brrOff := voiceRun_brrOff m i d h

end Call

-- ════════════════════════════════════════════════════════════════════════
-- A call is safe
-- ════════════════════════════════════════════════════════════════════════

/-- An event uses the ring, the gauss table and the rate tables within their
    bounds, and takes no impossible branch. -/
def VoiceEvent.Safe : VoiceEvent → Prop
  | .ring index => 0 ≤ index ∧ index < 12
  | .gauss index => 0 ≤ index ∧ index < 512
  | .rate r => r ≤ 31
  | .assertion holds => holds = true
  | .unreachable => False
  | .decode _ off => DataOff off
  | _ => True

section Safe

variable (m : Mem) (i : Channel) (d : Dsp)

theorem interpBase_le {st : VState} (h : st.bufPos = 0 ∨ st.bufPos = 4 ∨ st.bufPos = 8) :
    (interpBase st).toNat ≤ 15 := by
  have hmask : (toByte (st.interpPos >>> (12 : Nat)) &&& 0x7).toNat ≤ 7 := by
    rw [BitVec.toNat_and]
    exact Nat.and_le_right
  rw [interpBase]
  generalize toByte (st.interpPos >>> (12 : Nat)) &&& 0x7 = hi at hmask ⊢
  rw [BitVec.toNat_add]
  rcases h with h | h | h <;> rw [h] <;> simp <;> omega

/-- A wrapped ring access at most three behind the base is in range. -/
theorem bufLoadWrapped_safe (st : VState) {pos : Byte} (h : pos.toNat ≤ 18) :
    (bufLoadWrapped st pos).Always VoiceEvent.Safe := by
  have hwrapped : (wrapped pos).toNat < 12 := by
    rw [wrapped]
    split
    · next hge =>
      rw [BitVec.toNat_sub_of_le (by rw [BitVec.le_def]; simpa using hge)]
      simp
      omega
    · omega
  intro e he
  rw [bufLoadWrapped_events] at he
  simp only [List.mem_cons, List.not_mem_nil, or_false] at he
  rcases he with rfl | rfl
  · simpa [VoiceEvent.Safe] using h
  · simp only [VoiceEvent.Safe]
    omega

theorem interpolate_safe {st : VState} (h : st.bufPos = 0 ∨ st.bufPos = 4 ∨ st.bufPos = 8) :
    (interpolate st).Always VoiceEvent.Safe := by
  have hbase := interpBase_le h
  have hmid := (toByte (st.interpPos >>> (4 : Nat))).isLt
  have htap : ∀ k : Byte, k.toNat ≤ 3 →
      (bufLoadWrapped st (interpBase st + k)).Always VoiceEvent.Safe := by
    intro k hk
    refine bufLoadWrapped_safe st ?_
    rw [BitVec.toNat_add]
    omega
  intro e he
  rw [interpolate_events] at he
  simp only [List.mem_append] at he
  rcases he with (((he | he) | he) | he) | he
  · exact htap 0 (by decide) e he
  · exact htap 1 (by decide) e he
  · exact htap 2 (by decide) e he
  · exact htap 3 (by decide) e he
  · simp only [List.mem_cons, List.not_mem_nil, or_false] at he
    rcases he with rfl | rfl | rfl | rfl | rfl <;> simp only [VoiceEvent.Safe] <;> omega

theorem brrSample4_safe {st : VState} (hoff : DataOff st.brrOff)
    (hpos : st.bufPos = 0 ∨ st.bufPos = 4 ∨ st.bufPos = 8) :
    (brrSample4 m st).Always VoiceEvent.Safe := by
  have hfilter : (vfilterState st).Always VoiceEvent.Safe := by
    rw [vfilterState]
    rcases hpos with h | h | h <;> simp [h, bufLoad, Traced.Always, VoiceEvent.Safe, brrBufSz]
  intro e he
  rw [brrSample4_events, brrStore4_events] at he
  simp only [List.mem_append, List.mem_cons, List.not_mem_nil, or_false] at he
  rcases he with ((rfl | he) | rfl | rfl) | rfl | rfl | rfl | rfl | rfl
  · exact hoff
  · exact hfilter e he
  · trivial
  · trivial
  all_goals
    simp only [VoiceEvent.Safe, fetched]
    try (rcases hpos with h | h | h <;> rw [h] <;> decide)

/-- **Step**: every event of a call of a well-formed voice is safe. -/
theorem voiceRun_safe (h : (d.vstate i).Wf) : (voiceRun m i d).Always VoiceEvent.Safe := by
  have hpos := primed_bufPos_bounded m i d h
  refine voiceRun_always m i d (fun _ => trivial) trivial (fun _ hr => hr) trivial
    (fun _ => interpolate_safe hpos) fun hdue => brrSample4_safe m ?_ ?_
  · rw [enveloped_brrOff]
    exact DecodeDue.dataOff m i d h hdue
  · rwa [enveloped_bufPos]

end Safe

-- ════════════════════════════════════════════════════════════════════════
-- Runs
-- ════════════════════════════════════════════════════════════════════════

/-- All voices are well-formed. -/
def World.VoicesWf (w : World) : Prop := ∀ i, (w.dsp.vstate i).Wf

/-- The events of the voices are safe. -/
def Event.Safe : Event → Prop
  | .voice _ e => e.Safe
  | _ => True

theorem World.voicesWf_zero (m : Mem) : World.VoicesWf ⟨m, .zero⟩ := fun _ => VState.wf_zero

/-- An operation other than a sample does not look at the voices. -/
theorem World.step_voicesWf (op : Op) (w : World) (h : w.VoicesWf) :
    (w.step op).val.VoicesWf := by
  cases op with
  | store | poke | restore | reset => exact h
  | sample =>
    intro i
    rw [World.step_sample_dsp, (nextSample_voice w.mem w.dsp i).1]
    refine voiceRun_wf w.mem i _ ?_
    rw [ticked_vstate]
    exact h i

theorem World.step_safe (op : Op) (w : World) (h : w.VoicesWf) :
    (w.step op).Always Event.Safe := by
  cases op with
  | store | poke | restore | reset => exact Traced.always_pure _
  | sample =>
    intro e he
    rw [World.step_sample_events] at he
    cases e with
    | voice i ve =>
      have hve := mem_voiceEvents.mpr he
      rw [(nextSample_voice w.mem w.dsp i).2] at hve
      refine voiceRun_safe w.mem i _ ?_ ve hve
      rw [ticked_vstate]
      exact h i
    | _ => trivial

theorem Reachable.voicesWf {w : World} (h : Reachable w) : w.VoicesWf :=
  h.invariant World.VoicesWf World.voicesWf_zero World.step_voicesWf

/-- **Representation invariant.** In every run of a process, over any register
    stores, memory changes, restores, resets and samples, the fields of every
    voice stay in range and every index, rate and branch of every call is
    within its table. -/
theorem voices_wellFormed (m : Mem) (ops : List Op) :
    (∀ i, ((runOps ops ⟨m, .zero⟩).val.dsp.vstate i).Bounded) ∧
      ∀ i e, .voice i e ∈ (runOps ops ⟨m, .zero⟩).events → e.Safe := by
  constructor
  · intro i
    exact (Reachable.voicesWf ⟨m, ops, rfl⟩ i).toBounded
  · intro i e he
    have hsafe : (runOps ops ⟨m, .zero⟩).Always Event.Safe :=
      StepSystem.run_always (A := fun _ => True) (fun op w _ => World.step_voicesWf op w)
        (fun op w _ => World.step_safe op w) (fun _ _ => trivial) (World.voicesWf_zero m)
    exact hsafe _ he

end SpuKit
