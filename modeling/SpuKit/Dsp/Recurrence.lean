import SpuKit.Dsp.Prediction

/-!
# Decoding as a recurrence

Each sample is meant to be predicted from the two samples before it, as they
are stored. `brr_sample4` does so for the first sample of a group. The other
three it predicts from the predictions of the same group before they are
clamped, so that the excess of a clamped sample is carried into the samples
behind it.

## Main definitions

- `decodeGroups` — consecutive calls of `brr_sample4`
- `SameSaturated` — two predictions that are clamped to the same sample

## Main results

- `decodeGroups_stream` — the stored samples, group by group
- `brr_recurrence_iff` — when they follow the recurrence
-/

namespace SpuKit

open Predictor

/-- Put the decoder at a group. -/
def VState.enter (st : VState) (g : GroupAt) : VState :=
  { st with brrAddr := g.addr, brrOff := g.off, brrHdr := g.hdr }

/-- One call of `brr_sample4`, at the given group. -/
def decodeGroup (m : Mem) (g : GroupAt) (st : VState) : Traced VoiceEvent VState :=
  brrSample4 m (st.enter g)

/-- Consecutive calls of `brr_sample4`. -/
def decodeGroups (m : Mem) (gs : List GroupAt) (st : VState) : Traced VoiceEvent VState :=
  StepSystem.run (decodeGroup m) gs st

theorem brrSample4_stream (m : Mem) (st : VState) :
    stream (brrSample4 m st).events = groupSamples m st := by
  have hfilter : stream (vfilterState st).events = [] := by
    rw [vfilterState]
    split <;> rfl
  rw [stream] at hfilter
  rw [stream, brrSample4_events, brrStore4_events]
  simp only [List.flatMap_append, List.flatMap_cons, List.flatMap_nil, hfilter]
  rfl

theorem brrSample4_bufPos (m : Mem) (st : VState) :
    (brrSample4 m st).val.bufPos = nextBufPos st.bufPos := by
  rw [brrSample4_val, brrStore4_val]
  rfl

/-- **The stored samples** of consecutive calls: predicted from unrounded ones
    inside each group, and from stored ones across groups. -/
theorem decodeGroups_stream (m : Mem) (gs : List GroupAt) {st : VState}
    (hpos : st.bufPos = 0 ∨ st.bufPos = 4 ∨ st.bufPos = 8) :
    (stream (decodeGroups m gs st).events).map BitVec.toInt =
      grouped saturate (gs.map fun g => g.inputs m) (historyOf st) := by
  induction gs generalizing st with
  | nil => rfl
  | cons g gs ih =>
    have hnext : (decodeGroup m g st).val.bufPos = 0 ∨ (decodeGroup m g st).val.bufPos = 4 ∨
        (decodeGroup m g st).val.bufPos = 8 := by
      rw [decodeGroup, brrSample4_bufPos]
      exact nextBufPos_bounded hpos
    have hgroup : (stream (decodeGroup m g st).events).map BitVec.toInt =
        (closedLoop id (g.inputs m) (historyOf st)).map saturate := by
      rw [decodeGroup, brrSample4_stream]
      exact groupSamples_eq m (st.enter g)
    have hhistory : historyOf (decodeGroup m g st).val =
        advance (historyOf st) ((stream (decodeGroup m g st).events).map BitVec.toInt) := by
      rw [decodeGroup, brrSample4_stream]
      have henter : (st.enter g).bufPos = 0 ∨ (st.enter g).bufPos = 4 ∨
          (st.enter g).bufPos = 8 := hpos
      exact historyOf_brrSample4 m henter
    have hrest := ih hnext
    show (stream ((decodeGroup m g st).events ++
      (decodeGroups m gs (decodeGroup m g st).val).events)).map BitVec.toInt = _
    rw [stream_append, List.map_append, hrest, hhistory, hgroup]
    rfl

/-- The group that decodes sample `k` of consecutive calls. -/
def groupOfSample (gs : List GroupAt) (k : Nat) : GroupAt := gs.getD (k / 4) ⟨0, 0, 0⟩

/-- The inputs of consecutive calls, sample by sample. -/
theorem flatten_inputs (m : Mem) (gs : List GroupAt) :
    ((gs.map fun g => g.inputs m).flatten).length = 4 * gs.length ∧
      ∀ k, k < 4 * gs.length → ((gs.map fun g => g.inputs m).flatten).getD k (fun _ _ => 0) =
        fun p q => (groupOfSample gs k).input m (Fin.ofNat 4 k) +
          predictor (groupOfSample gs k).filter p q := by
  induction gs with
  | nil => exact ⟨rfl, fun k hk => absurd hk (Nat.not_lt_zero k)⟩
  | cons g gs ih =>
    obtain ⟨hlen, hget⟩ := ih
    have hfour : (g.inputs m).length = 4 := rfl
    constructor
    · rw [List.map_cons, List.flatten_cons, List.length_append, hlen, hfour, List.length_cons]
      omega
    · intro k hk
      rw [List.length_cons] at hk
      rw [List.map_cons, List.flatten_cons]
      by_cases hfirst : k < 4
      · rw [List.getD_append _ _ _ _ (by omega)]
        match k, hfirst with
        | 0, _ | 1, _ | 2, _ | 3, _ => rfl
      · have hdiv : k / 4 = (k - 4) / 4 + 1 := by omega
        have hmod : Fin.ofNat 4 k = Fin.ofNat 4 (k - 4) := by
          apply Fin.ext
          show k % 4 = (k - 4) % 4
          omega
        rw [List.getD_append_right _ _ _ _ (by omega), hfour, hget (k - 4) (by omega),
          groupOfSample, groupOfSample, hdiv, hmod]
        rfl

/-- The stored samples follow the recurrence: each is the clamped sum of its
    input and of what the filter of its block predicts from the two samples
    stored before it, the filter state coming first. -/
def FollowsRecurrence (m : Mem) (gs : List GroupAt) (st : VState) : Prop :=
  let s := (vfilterState st).val.older :: (vfilterState st).val.old ::
    stream (decodeGroups m gs st).events
  ∀ k, k < 4 * gs.length → s.getD (k + 2) 0 =
    clamp16 ((groupOfSample gs k).input m (Fin.ofNat 4 k) +
      predictor (groupOfSample gs k).filter (s.getD (k + 1) 0).toInt (s.getD k 0).toInt)

instance (m : Mem) (gs : List GroupAt) (st : VState) : Decidable (FollowsRecurrence m gs st) :=
  inferInstanceAs (Decidable (∀ k, k < _ → _))

/-- Two predictions that are clamped to the same sample: they are equal, or
    beyond the same end of the range. -/
def SameSaturated (w u : Int) : Prop :=
  w = u ∨ (w ≤ -0x8000 ∧ u ≤ -0x8000) ∨ (0x7fff ≤ w ∧ 0x7fff ≤ u)

theorem sameSaturated_iff (w u : Int) : SameSaturated w u ↔ saturate w = saturate u := by
  rw [SameSaturated, saturate, saturate]
  omega

/-- The recurrence on the values of the samples. -/
theorem followsRecurrence_iff (m : Mem) (gs : List GroupAt) (st : VState)
    (hlen : (stream (decodeGroups m gs st).events).length = 4 * gs.length) :
    FollowsRecurrence m gs st ↔
      (stream (decodeGroups m gs st).events).map BitVec.toInt =
        closedLoop saturate ((gs.map fun g => g.inputs m).flatten) (historyOf st) := by
  obtain ⟨hlength, hget⟩ := flatten_inputs m gs
  let s := (vfilterState st).val.older :: (vfilterState st).val.old ::
    stream (decodeGroups m gs st).events
  have hvalue : ∀ n, ((historyOf st).2 :: (historyOf st).1 ::
      (stream (decodeGroups m gs st).events).map BitVec.toInt).getD n 0 = (s.getD n 0).toInt :=
    fun n => List.getD_map (l := s) (d := 0) BitVec.toInt
  rw [eq_closedLoop_iff _ (by rw [List.length_map, hlen, hlength]), hlength]
  apply forall_congr'
  intro k
  apply imp_congr_right
  intro hk
  have hsample : ∀ v : Short, -0x8000 ≤ v.toInt ∧ v.toInt ≤ 0x8000 := by
    intro v
    exact ⟨(short_bounds v).1, (short_bounds v).2.trans (by decide)⟩
  have hlo : (-0x80000000 : Int) ≤ -(4 * 0x8000) := by decide
  have hbounds := predictor_bounds (groupOfSample gs k).filter (by decide)
    ((groupOfSample gs k).nibble_spec m (Fin.ofNat 4 k)).2.2 (hsample (s.getD (k + 1) 0))
    (hsample (s.getD k 0))
  have hclamp := toInt_clamp16 (hlo.trans hbounds.1) (hbounds.2.trans_lt (by decide))
  rw [hvalue, hvalue, hvalue, hget k hk, saturate, ← hclamp, BitVec.toInt_inj]

/-- **The decoder and the recurrence.** Over any number of consecutive groups,
    from any two previous samples, the stored samples follow the recurrence
    exactly when inside each group every sample predicted from stored samples
    is clamped to the same value as the one predicted from unclamped ones. They
    do when in every group no prediction but the last one leaves 16 bits. -/
theorem brr_recurrence_iff (m : Mem) (gs : List GroupAt) {st : VState}
    (hpos : st.bufPos = 0 ∨ st.bufPos = 4 ∨ st.bufPos = 8) :
    (stream (decodeGroups m gs st).events).length = 4 * gs.length ∧
    (FollowsRecurrence m gs st ↔
      GroupsAgree saturate SameSaturated (gs.map fun g => g.inputs m) (historyOf st)) ∧
    (EarlyWithin saturate (fun u => -0x8000 ≤ u ∧ u ≤ 0x7fff) (gs.map fun g => g.inputs m)
      (historyOf st) → FollowsRecurrence m gs st) := by
  have hstream := decodeGroups_stream m gs hpos
  have hlen : (stream (decodeGroups m gs st).events).length = 4 * gs.length := by
    have hlength := congrArg List.length hstream
    rwa [List.length_map, length_grouped, (flatten_inputs m gs).1] at hlength
  have hiff : FollowsRecurrence m gs st ↔
      GroupsAgree saturate SameSaturated (gs.map fun g => g.inputs m) (historyOf st) := by
    rw [followsRecurrence_iff m gs st hlen, hstream, eq_comm,
      closedLoop_eq_grouped_iff sameSaturated_iff]
  refine ⟨hlen, hiff, fun hrange => hiff.mpr ?_⟩
  refine groupsAgree_of_early ?_ ?_ hrange
  · intro u hu
    rw [saturate]
    omega
  · exact fun u => Or.inl rfl

/-- The four groups of a block, whose header `voice_run` reads from its first
    byte. -/
def blockGroups (m : Mem) (addr : Word) : List GroupAt :=
  [1, 3, 5, 7].map fun off => ⟨addr, off, m.aram addr⟩

/-- A block at address 0 with scale 12 and filter 2, of nibbles 7, 7, -8 and
    zeros. -/
def spikeBlock : Mem where
  aram addr := if addr = 0 then 0xc8 else if addr = 1 then 0x77 else if addr = 2 then 0x80 else 0
  beyond _ := 0

theorem brr_recurrence_iff_spike :
    (stream (decodeGroups spikeBlock (blockGroups spikeBlock 0) .zero).events).length = 4 * 4 ∧
    (FollowsRecurrence spikeBlock (blockGroups spikeBlock 0) .zero ↔
      GroupsAgree saturate SameSaturated
        ((blockGroups spikeBlock 0).map fun g => g.inputs spikeBlock) (historyOf .zero)) ∧
    (EarlyWithin saturate (fun u => -0x8000 ≤ u ∧ u ≤ 0x7fff)
      ((blockGroups spikeBlock 0).map fun g => g.inputs spikeBlock) (historyOf .zero) →
        FollowsRecurrence spikeBlock (blockGroups spikeBlock 0) .zero) :=
  brr_recurrence_iff spikeBlock (blockGroups spikeBlock 0) (Or.inl rfl)

/-- Its second sample is predicted as 41664 and clamped to 32767. The third is
    predicted from 41664, and clamped to 32767 again instead of 32638. -/
theorem excess_carried :
    ¬ ∀ (m : Mem) (addrs : List Word) n st, (st.bufPos = 0 ∨ st.bufPos = 4 ∨ st.bufPos = 8) →
      (∀ addr ∈ addrs, (m.aram addr >>> 4).toNat ≤ 12) →
      FollowsRecurrence m ((addrs.flatMap (blockGroups m)).take n) st := by
  intro h
  have hscale : ∀ addr ∈ [(0 : Word)], (spikeBlock.aram addr >>> 4).toNat ≤ 12 :=
    List.forall_mem_singleton.mpr (by decide)
  have hspike := h spikeBlock [0] 4 .zero (Or.inl rfl) hscale
  revert hspike
  decide +kernel

end SpuKit
