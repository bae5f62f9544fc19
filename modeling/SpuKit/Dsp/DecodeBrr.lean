import SpuKit.Dsp.Recurrence

/-!
# The decoder for whole blocks

`decode_brr`, which dumps samples to files, decodes the sixteen samples of a
block at once. It feeds every sample back as it is stored, but stores it in 16
bits without clamping: a loud sample wraps around here where `brr_sample4`
clamps it.

## Main definitions

- `decodeBrr` — `decode_brr`
- `Mem.wrapped` — memory whose addresses are taken modulo `2 ^ 16`
- `WrapsToSaturated` — a prediction that wraps to what another one is clamped to

## Main results

- `decodeBrr_samples` — the samples of `decode_brr` as a recurrence
- `decoders_agree_iff` — when the two decoders agree
-/

namespace SpuKit

open Predictor

def brrLoop : Byte := 0x02

/-- `struct brr_block`, with the flags that `decode_brr` returns beside it -/
structure BrrBlock where
  s : List Short
  isEnd : Bool
  isLoop : Bool

def brrPairLoad (m : Mem) (addr : Word) : BrrPair := brrPairExtract (m.aram addr)

section Filters

/-- The body of the loop for each filter: two samples and the next state. The
    assignments narrow to `int16_t`. -/
def decodeFilter0 (s : BrrPair) (cur : BrrFilterState) : Short × Short × BrrFilterState :=
  (s.s0, s.s1, cur)

def decodeFilter1 (s : BrrPair) (cur : BrrFilterState) : Short × Short × BrrFilterState :=
  let older := toShort (brrFilter1 s.s0.toInt cur.old.toInt)
  let old := toShort (brrFilter1 s.s1.toInt older.toInt)
  (older, old, ⟨older, old⟩)

def decodeFilter2 (s : BrrPair) (cur : BrrFilterState) : Short × Short × BrrFilterState :=
  let older := toShort (brrFilter2 s.s0.toInt cur.old.toInt cur.older.toInt)
  let old := toShort (brrFilter2 s.s1.toInt older.toInt cur.old.toInt)
  (older, old, ⟨older, old⟩)

def decodeFilter3 (s : BrrPair) (cur : BrrFilterState) : Short × Short × BrrFilterState :=
  let older := toShort (brrFilter3 s.s0.toInt cur.old.toInt cur.older.toInt)
  let old := toShort (brrFilter3 s.s1.toInt older.toInt cur.old.toInt)
  (older, old, ⟨older, old⟩)

end Filters

/-- The loop of `decode_brr` over `n` more bytes. -/
def decodeBrrLoop (m : Mem) (shift : Nat)
    (body : BrrPair → BrrFilterState → Short × Short × BrrFilterState) :
    Nat → Word → BrrFilterState → List Short
  | 0, _, _ => []
  | n + 1, aptr, cur =>
    let s := brrPairScale (brrPairLoad m aptr) shift
    let (s0, s1, cur) := body s cur
    s0 :: s1 :: decodeBrrLoop m shift body n (aptr + 1) cur

def decodeBrr (m : Mem) (aptr : Word) (st : BrrFilterState) : Traced VoiceEvent BrrBlock := do
  let ctrl := m.aram aptr
  let filter := (ctrl >>> 2) &&& 3
  let scale := (ctrl >>> 4).toNat
  let shift := if scale > 12 then 12 else scale
  Traced.emit (.assertion (scale ≤ 12))
  let aptr := aptr + 1
  let s ←
    if filter = 0 then pure (decodeBrrLoop m shift decodeFilter0 8 aptr st)
    else if filter = 1 then pure (decodeBrrLoop m shift decodeFilter1 8 aptr st)
    else if filter = 2 then pure (decodeBrrLoop m shift decodeFilter2 8 aptr st)
    else if filter = 3 then pure (decodeBrrLoop m shift decodeFilter3 8 aptr st)
    else unreachable []
  pure { s := s, isEnd := ctrl &&& brrEnd != 0, isLoop := ctrl &&& brrLoop != 0 }

/-- The value narrowed to 16 bits. -/
def wrap (val : Int) : Int := (toShort val).toInt

/-- One body of the loop computes two samples of a recurrence. `Rel` relates the
    state to the history it stands for. -/
def PairStep (F : Int → Int → Int) (Rel : BrrFilterState → Int × Int → Prop)
    (body : BrrPair → BrrFilterState → Short × Short × BrrFilterState) : Prop :=
  ∀ s cur h, Rel cur h →
    (body s cur).1.toInt = wrap (s.s0.toInt + F h.1 h.2) ∧
    (body s cur).2.1.toInt = wrap (s.s1.toInt + F (body s cur).1.toInt h.1) ∧
    Rel (body s cur).2.2 ((body s cur).2.1.toInt, (body s cur).1.toInt)

/-- The scaled pairs of `n` bytes as inputs. -/
def pairInputs (m : Mem) (shift : Nat) (F : Int → Int → Int) : Nat → Word → List Input
  | 0, _ => []
  | n + 1, aptr =>
    let s := brrPairScale (brrPairLoad m aptr) shift
    (fun p q => s.s0.toInt + F p q) :: (fun p q => s.s1.toInt + F p q) ::
      pairInputs m shift F n (aptr + 1)

theorem decodeBrrLoop_eq (m : Mem) (shift : Nat) {F : Int → Int → Int}
    {Rel : BrrFilterState → Int × Int → Prop}
    {body : BrrPair → BrrFilterState → Short × Short × BrrFilterState}
    (hbody : PairStep F Rel body) (n : Nat) (aptr : Word) (cur : BrrFilterState) {h : Int × Int}
    (hcur : Rel cur h) :
    (decodeBrrLoop m shift body n aptr cur).map BitVec.toInt =
      closedLoop wrap (pairInputs m shift F n aptr) h := by
  induction n generalizing aptr cur h with
  | zero => rfl
  | succ n ih =>
    obtain ⟨h0, h1, hnext⟩ := hbody (brrPairScale (brrPairLoad m aptr) shift) cur h hcur
    rw [h1, h0] at hnext
    rw [decodeBrrLoop, List.map_cons, List.map_cons, h1, h0, ih (aptr + 1) _ hnext]
    rfl

section Steps

/-- The state stands for its two samples. -/
def Holds (cur : BrrFilterState) (h : Int × Int) : Prop := h = (cur.old.toInt, cur.older.toInt)

/-- Filter 0 keeps no state, and predicts nothing from it. -/
theorem pairStep_filter0 : PairStep (predictor (0 <<< 2)) (fun _ _ => True) decodeFilter0 := by
  intro s cur h _
  have hwrap : ∀ v : Short, v.toInt = wrap v.toInt := by
    intro v
    rw [wrap, toShort, BitVec.ofInt_toInt]
  rw [add_predictor0, add_predictor0]
  exact ⟨hwrap s.s0, hwrap s.s1, trivial⟩

theorem pairStep_filter1 : PairStep (predictor (1 <<< 2)) Holds decodeFilter1 := by
  rintro s cur _ rfl
  rw [add_predictor1, add_predictor1]
  exact ⟨rfl, rfl, rfl⟩

theorem pairStep_filter2 : PairStep (predictor (2 <<< 2)) Holds decodeFilter2 := by
  rintro s cur _ rfl
  rw [add_predictor2, add_predictor2]
  exact ⟨rfl, rfl, rfl⟩

theorem pairStep_filter3 : PairStep (predictor (3 <<< 2)) Holds decodeFilter3 := by
  rintro s cur _ rfl
  rw [add_predictor3, add_predictor3]
  exact ⟨rfl, rfl, rfl⟩

end Steps

/-- Memory whose addresses are taken modulo `2 ^ 16`, also by `brr_byte`. -/
def Mem.wrapped (m : Mem) : Mem := { m with beyond := fun k => m.aram (BitVec.ofNat 16 k) }

theorem Mem.load_wrapped (m : Mem) (index : Nat) :
    m.wrapped.load index = m.aram (BitVec.ofNat 16 index) := by
  have hbeyond : ∀ k, m.wrapped.beyond k = m.aram (BitVec.ofNat 16 k) := fun _ => rfl
  rw [Mem.load]
  split
  · rfl
  · rw [hbeyond]
    apply congrArg m.aram
    apply BitVec.eq_of_toNat_eq
    rw [BitVec.toNat_ofNat, BitVec.toNat_ofNat]
    omega

/-- Two bytes of a block are the inputs of one group. -/
theorem pairInputs_group (m : Mem) (addr : Word) (off hdr : Byte) (hoff : off.toNat < 255)
    (n : Nat) :
    let g : GroupAt := ⟨addr, off, hdr⟩
    pairInputs m g.shift (predictor g.filter) (n + 2) (addr + BitVec.ofNat 16 off.toNat) =
      g.inputs m.wrapped ++
        pairInputs m g.shift (predictor g.filter) n (addr + BitVec.ofNat 16 (off.toNat + 2)) := by
  intro g
  have hnext : (off + 1).toNat = off.toNat + 1 := by
    have hone : (1 : Byte).toNat = 1 := rfl
    rw [BitVec.toNat_add, hone]
    omega
  have haddr : BitVec.ofNat 16 addr.toNat = addr := by
    rw [BitVec.ofNat_toNat, BitVec.setWidth_eq]
  have hbyte0 : m.aram (addr + BitVec.ofNat 16 off.toNat) = g.byte m.wrapped 0 := by
    show _ = m.wrapped.load (addr.toNat + off.toNat)
    rw [Mem.load_wrapped, BitVec.ofNat_add, haddr]
  have hbyte1 : m.aram (addr + BitVec.ofNat 16 off.toNat + 1) = g.byte m.wrapped 1 := by
    show _ = m.wrapped.load (addr.toNat + (off + 1).toNat)
    rw [Mem.load_wrapped, hnext, BitVec.ofNat_add, BitVec.ofNat_add, haddr, ← BitVec.add_assoc]
    rfl
  have hlast : addr + BitVec.ofNat 16 off.toNat + 1 + 1 =
      addr + BitVec.ofNat 16 (off.toNat + 2) := by
    rw [BitVec.ofNat_add, BitVec.add_assoc, BitVec.add_assoc]
    rfl
  have hinput := fun k => (g.nibble_spec m.wrapped k).2.1
  let pair (k : Fin 2) := brrPairScale (brrPairExtract (g.byte m.wrapped k)) g.shift
  have h0 : (pair 0).s0.toInt = g.input m.wrapped 0 := hinput 0
  have h1 : (pair 0).s1.toInt = g.input m.wrapped 1 := hinput 1
  have h2 : (pair 1).s0.toInt = g.input m.wrapped 2 := hinput 2
  have h3 : (pair 1).s1.toInt = g.input m.wrapped 3 := hinput 3
  rw [pairInputs, pairInputs, brrPairLoad, brrPairLoad, hbyte0, hbyte1, hlast]
  show (fun p q => (pair 0).s0.toInt + predictor g.filter p q) ::
    (fun p q => (pair 0).s1.toInt + predictor g.filter p q) ::
    (fun p q => (pair 1).s0.toInt + predictor g.filter p q) ::
    (fun p q => (pair 1).s1.toInt + predictor g.filter p q) :: _ = _
  rw [h0, h1, h2, h3]
  rfl

/-- The pairs of a block are the inputs of its four groups. -/
theorem pairInputs_eq (m : Mem) (addr : Word) :
    let g : GroupAt := ⟨addr, 1, m.aram addr⟩
    pairInputs m g.shift (predictor g.filter) 8 (addr + 1) =
      ((blockGroups m addr).map fun g => g.inputs m.wrapped).flatten := by
  have hgroup := fun off hoff n => pairInputs_group m addr off (m.aram addr) hoff n
  intro g
  have h1 := hgroup 1 (by decide) 6
  have h3 := hgroup 3 (by decide) 4
  have h5 := hgroup 5 (by decide) 2
  have h7 := hgroup 7 (by decide) 0
  exact h1.trans (congrArg _ (h3.trans (congrArg _ (h5.trans (congrArg _ h7)))))

/-- **The samples of `decode_brr`**: every sample wraps to 16 bits before the
    next one is predicted from it. -/
theorem decodeBrr_samples (m : Mem) (addr : Word) (cur : BrrFilterState) :
    (decodeBrr m addr cur).val.s.map BitVec.toInt =
      closedLoop wrap ((blockGroups m addr).map fun g => g.inputs m.wrapped).flatten
        (cur.old.toInt, cur.older.toInt) := by
  let g : GroupAt := ⟨addr, 1, m.aram addr⟩
  have hcases : ∀ hdr : Byte,
      (hdr >>> 2) &&& 3 = 0 ∧ hdr &&& (0x03 <<< 2) = 0 <<< 2 ∨
      (hdr >>> 2) &&& 3 = 1 ∧ hdr &&& (0x03 <<< 2) = 1 <<< 2 ∨
      (hdr >>> 2) &&& 3 = 2 ∧ hdr &&& (0x03 <<< 2) = 2 <<< 2 ∨
      (hdr >>> 2) &&& 3 = 3 ∧ hdr &&& (0x03 <<< 2) = 3 <<< 2 := by decide
  have hinputs : pairInputs m g.shift (predictor g.filter) 8 (addr + 1) = _ := pairInputs_eq m addr
  rw [← hinputs, decodeBrr]
  rcases hcases (m.aram addr) with ⟨h, hfilter⟩ | ⟨h, hfilter⟩ | ⟨h, hfilter⟩ | ⟨h, hfilter⟩
  · have hg : g.filter = 0 <<< 2 := hfilter
    rw [hg, ← decodeBrrLoop_eq m g.shift pairStep_filter0 8 (addr + 1) cur trivial]
    simp only [h]
    rfl
  · have hg : g.filter = 1 <<< 2 := hfilter
    rw [hg, ← decodeBrrLoop_eq m g.shift pairStep_filter1 8 (addr + 1) cur rfl]
    simp only [h]
    rfl
  · have hg : g.filter = 2 <<< 2 := hfilter
    rw [hg, ← decodeBrrLoop_eq m g.shift pairStep_filter2 8 (addr + 1) cur rfl]
    simp only [h]
    rfl
  · have hg : g.filter = 3 <<< 2 := hfilter
    rw [hg, ← decodeBrrLoop_eq m g.shift pairStep_filter3 8 (addr + 1) cur rfl]
    simp only [h]
    rfl

/-- A prediction that wraps to what another one is clamped to: they agree modulo
    `2 ^ 16` and the second is in range, or the first agrees modulo `2 ^ 16`
    with the end of the range the second is beyond. -/
def WrapsToSaturated (w u : Int) : Prop :=
  (-0x8000 ≤ u ∧ u ≤ 0x7fff ∧ (w - u) % 0x10000 = 0) ∨
    (u < -0x8000 ∧ (w + 0x8000) % 0x10000 = 0) ∨ (0x7fff < u ∧ (w - 0x7fff) % 0x10000 = 0)

theorem wrapsToSaturated_iff (w u : Int) : WrapsToSaturated w u ↔ wrap w = saturate u := by
  rw [WrapsToSaturated, wrap, toShort, BitVec.toInt_ofInt, Int.bmod_def, saturate]
  split <;> omega

/-- **The two decoders.** From any two previous samples, `decode_brr` returns the
    sixteen samples that four calls of `brr_sample4` store for the same block,
    addresses taken modulo `2 ^ 16`, exactly when every prediction of the one
    wraps to what the prediction of the other is clamped to. They do when no
    prediction leaves 16 bits. -/
theorem decoders_agree_iff (m : Mem) (addr : Word) {st : VState}
    (hpos : st.bufPos = 0 ∨ st.bufPos = 4 ∨ st.bufPos = 8) :
    let decoded := (decodeBrr m addr (vfilterState st).val).val.s
    let stored := stream (decodeGroups m.wrapped (blockGroups m addr) st).events
    decoded.length = 16 ∧ stored.length = 16 ∧
    (decoded = stored ↔
      GroupsAgree wrap WrapsToSaturated ((blockGroups m addr).map fun g => g.inputs m.wrapped)
        (historyOf st)) ∧
    ((∀ u ∈ closedLoop id ((blockGroups m addr).map fun g => g.inputs m.wrapped).flatten
      (historyOf st), -0x8000 ≤ u ∧ u ≤ 0x7fff) → decoded = stored) := by
  intro decoded stored
  have hdecoded : decoded.map BitVec.toInt = _ := decodeBrr_samples m addr (vfilterState st).val
  have hstored : stored.map BitVec.toInt = _ :=
    decodeGroups_stream m.wrapped (blockGroups m addr) hpos
  have hinj : Function.Injective (BitVec.toInt : Short → Int) := fun _ _ => BitVec.eq_of_toInt_eq
  have hiff : decoded = stored ↔
      GroupsAgree wrap WrapsToSaturated ((blockGroups m addr).map fun g => g.inputs m.wrapped)
        (historyOf st) := by
    rw [← (List.map_injective_iff.mpr hinj).eq_iff, hdecoded, hstored]
    exact closedLoop_eq_grouped_iff wrapsToSaturated_iff
  refine ⟨?_, ?_, hiff, fun hrange => hiff.mpr ?_⟩
  · have hlength := congrArg List.length hdecoded
    rw [List.length_map, length_closedLoop, (flatten_inputs m.wrapped (blockGroups m addr)).1]
      at hlength
    exact hlength
  · have hlength := congrArg List.length hstored
    rw [List.length_map, length_grouped, (flatten_inputs m.wrapped (blockGroups m addr)).1]
      at hlength
    exact hlength
  · refine groupsAgree_of_unrounded ?_ ?_ hrange
    · intro u hu
      exact toInt_toShort hu.1 hu.2
    · intro u hu
      exact Or.inl ⟨hu.1, hu.2, by rw [sub_self, Int.zero_emod]⟩

/-- The decoders on a block of nibbles 7, 7, -8 and zeros. -/
theorem decoders_agree_iff_spike :
    let decoded := (decodeBrr spikeBlock 0 (vfilterState .zero).val).val.s
    let stored := stream (decodeGroups spikeBlock.wrapped (blockGroups spikeBlock 0) .zero).events
    decoded.length = 16 ∧ stored.length = 16 ∧
    (decoded = stored ↔
      GroupsAgree wrap WrapsToSaturated
        ((blockGroups spikeBlock 0).map fun g => g.inputs spikeBlock.wrapped) (historyOf .zero)) ∧
    ((∀ u ∈ closedLoop id
        ((blockGroups spikeBlock 0).map fun g => g.inputs spikeBlock.wrapped).flatten
        (historyOf .zero), -0x8000 ≤ u ∧ u ≤ 0x7fff) → decoded = stored) :=
  decoders_agree_iff spikeBlock 0 (Or.inl rfl)

/-- The second sample of that block is 41664: `decode_brr` returns it as
    -23872, `brr_sample4` stores 32767. -/
theorem decoders_differ :
    ¬ ∀ (m : Mem) addr st, (st.bufPos = 0 ∨ st.bufPos = 4 ∨ st.bufPos = 8) →
      (m.aram addr >>> 4).toNat ≤ 12 →
      (decodeBrr m addr (vfilterState st).val).val.s =
        stream (decodeGroups m.wrapped (blockGroups m addr) st).events := by
  intro h
  have hspike := h spikeBlock 0 .zero (Or.inl rfl) (by decide)
  revert hspike
  decide +kernel

end SpuKit
