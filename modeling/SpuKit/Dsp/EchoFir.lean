import SpuKit.Dsp.EchoDelay
import Mathlib.Algebra.BigOperators.Fin

/-!
# The echo filter

The history of the echo filter is a ring of eight pairs that a sample advances
before it writes the pair it read. The tap of coefficient `i` lies `i + 1`
behind the new pair, so coefficient 0 meets the oldest pair and coefficient 7
the new one. The right half of the new pair is written three taps late, and no
earlier tap looks at it.

## Main definitions

- `echoSample` — the echo sample of a `next_sample` call
- `firSum` — the sum of the eight taps over the words that were read
- `EchoHistory` — the history holds the last eight words read, halved

## Main results

- `echoFilter_val` — both channels see the finished history
- `EchoHistory.nextSample` — a sample keeps the history
- `echo_fir` — the filter over any run
-/

namespace SpuKit

/-- The echo sample of a `next_sample` call, as it enters the master mix. -/
def echoSample (m : Mem) (d : Dsp) : Sample := (echoFilter m (mixed m d).2.2).val.1

/-- A word read from the echo buffer, as signed 16 bit, shifted right by one. -/
def halfWord (val : Word) : Int := val.toInt >>> (1 : Nat)

/-- What the history keeps of a word. -/
def halved (val : Word) : Short := toShort (halfWord val)

theorem halved_toInt (val : Word) : (halved val).toInt = halfWord val := by
  have hbounds := short_bounds val
  have hdiv : halfWord val = val.toInt / 2 := Int.shiftRight_eq_div_pow ..
  exact toInt_toShort (by omega) (by omega)

section Filter

variable (m : Mem) (d : Dsp)

/-- The position in the history of the pair a sample reads. -/
def nextHistPos (d : Dsp) : Nat :=
  if (d.echoHistPos + 1).toNat ≥ echoHistSize then 0 else (d.echoHistPos + 1).toNat

theorem nextHistPos_lt : nextHistPos d < 8 := by
  rw [nextHistPos, echoHistSize]
  split <;> omega

/-- The DSP when the filter reads the echo buffer. -/
def histAdvanced (d : Dsp) : Dsp :=
  { d with echoHistPos := BitVec.ofNat 8 (nextHistPos d), echoPtr := echoPointer d }

/-- The DSP after the filter. -/
def histWritten (m : Mem) (d : Dsp) : Dsp :=
  firWriteR (firWriteL (histAdvanced d) (m.word (echoPointer d + 0))) (m.word (echoPointer d + 2))

theorem histIndex_advanced (depth : Nat) :
    echoHistIndex (histAdvanced d) depth = Fin.ofNat 8 (nextHistPos d + depth) := by
  have hlt := nextHistPos_lt d
  have hpos : (BitVec.ofNat 8 (nextHistPos d)).toNat = nextHistPos d := by
    rw [BitVec.toNat_ofNat, Nat.mod_eq_of_lt (by omega)]
  rw [echoHistIndex, histAdvanced, hpos]

/-- Only the new pair sees its right half being written. -/
theorem calcFir_firWriteR (val : Short) {i : Channel} (hi : i ≠ 7) :
    calcFir (firWriteR d val) i = calcFir d i := by
  have hne : echoHistIndex d (i.val + 1) ≠ echoHistIndex d 0 := by
    intro heq
    have hval := congrArg Fin.val heq
    have hlt := i.isLt
    have hseven : i.val ≠ 7 := fun h => hi (Fin.ext h)
    simp only [echoHistIndex, Fin.val_ofNat] at hval
    omega
  have hread : (firWriteR d val).echoHist (echoHistIndex d (i.val + 1)) =
      d.echoHist (echoHistIndex d (i.val + 1)) := Function.update_of_ne hne _ _
  have hindex : ∀ depth, echoHistIndex (firWriteR d val) depth = echoHistIndex d depth :=
    fun _ => rfl
  have hregs : (firWriteR d val).regs = d.regs := rfl
  rw [calcFir, calcFir, firReadL, firReadL, firReadR, firReadR, hindex, hread, hregs]

/-- The eight taps, as the source accumulates them: the right half of the pair
    enters the history after the first three. -/
theorem echoFilter_steps :
    (echoFilter m d).val =
      let d₁ := firWriteL (histAdvanced d) (m.word (echoPointer d + 0))
      let d₂ := histWritten m d
      (dropLowBit (sampleClamp
        (sampleAccumulate (sampleAccumulate (sampleAccumulate (sampleAccumulate (sampleAccumulate
          (sampleAccumulate (sampleAccumulate (calcFir d₁ 0) (calcFir d₁ 1)) (calcFir d₁ 2))
          (calcFir d₂ 3)) (calcFir d₂ 4)) (calcFir d₂ 5)) (calcFir d₂ 6)) (calcFir d₂ 7))),
        d₂) := by
  have hadvance : ∀ d' : Dsp, d' = { d with echoHistPos := d.echoHistPos + 1 } →
      ({ (if d'.echoHistPos.toNat ≥ echoHistSize then { d' with echoHistPos := 0 } else d') with
        echoPtr := echoPointer d } : Dsp) = histAdvanced d := by
    rintro d' rfl
    rw [histAdvanced, nextHistPos]
    split
    · rfl
    · rw [BitVec.ofNat_toNat, BitVec.setWidth_eq]
  rw [histWritten, ← hadvance _ rfl, echoPointer]
  simp only [echoFilter, Traced.val_bind, Traced.val_pure]
  split <;> rfl

/-- **Both channels see the finished history**: the echo sample is the sum of
    the eight taps over the history with the new pair in it. -/
theorem echoFilter_val :
    (echoFilter m d).val =
      (dropLowBit (sampleClamp
        { left := ∑ i, (calcFir (histWritten m d) i).left
          right := ∑ i, (calcFir (histWritten m d) i).right }), histWritten m d) := by
  have htap : ∀ i : Channel, i ≠ 7 →
      calcFir (firWriteL (histAdvanced d) (m.word (echoPointer d + 0))) i =
        calcFir (histWritten m d) i := fun i hi => (calcFir_firWriteR _ _ hi).symm
  rw [echoFilter_steps]
  simp only [htap 0 (by decide), htap 1 (by decide), htap 2 (by decide), Fin.sum_univ_eight]
  rfl

end Filter

-- ════════════════════════════════════════════════════════════════════════
-- The history as a ring
-- ════════════════════════════════════════════════════════════════════════

/-- One channel of the history, by position. -/
def histSlot (side : Sample → Short) (d : Dsp) (j : Nat) : Int :=
  if h : j < 8 then (side (d.echoHist ⟨j, h⟩)).toInt else 0

section Ring

variable (m : Mem) (d : Dsp)

theorem histWritten_echoHist :
    (histWritten m d).echoHist =
      Function.update d.echoHist (Fin.ofNat 8 (nextHistPos d))
        ⟨halved (m.word (echoPointer d + 0)), halved (m.word (echoPointer d + 2))⟩ := by
  have hindex : ∀ val, echoHistIndex (firWriteL (histAdvanced d) val) 0 =
      Fin.ofNat 8 (nextHistPos d) := fun _ => histIndex_advanced d 0
  have hfirst : echoHistIndex (histAdvanced d) 0 = Fin.ofNat 8 (nextHistPos d) :=
    histIndex_advanced d 0
  rw [histWritten, firWriteR, hindex, firWriteL, hfirst]
  simp only [Function.update_self, Function.update_idem]
  rfl

/-- Writing the new pair, on one channel. -/
theorem histSlot_histWritten (side : Sample → Short) :
    histSlot side (histWritten m d) =
      Function.update (histSlot side d) (nextHistPos d)
        (side ⟨halved (m.word (echoPointer d + 0)),
          halved (m.word (echoPointer d + 2))⟩).toInt := by
  have hlt := nextHistPos_lt d
  funext j
  unfold histSlot
  rw [histWritten_echoHist, Function.update_apply]
  by_cases hj : j < 8
  · have hiff : (⟨j, hj⟩ : Fin 8) = Fin.ofNat 8 (nextHistPos d) ↔ j = nextHistPos d := by
      rw [Fin.ext_iff, Fin.val_ofNat, Nat.mod_eq_of_lt hlt]
    simp only [hj, dite_true, Function.update_apply, hiff]
    split <;> rfl
  · simp only [hj, dite_false]
    rw [if_neg (by omega)]

/-- The tap of a coefficient, by position. -/
theorem calcFir_histWritten (i : Channel) :
    let slot := fun side => histSlot side (histWritten m d) (((nextHistPos d + 1) % 8 + i) % 8)
    calcFir (histWritten m d) i =
      { left := (slot Sample.left * (d.regs (regCoeff i)).toInt) >>> (6 : Nat)
        right := (slot Sample.right * (d.regs (regCoeff i)).toInt) >>> (6 : Nat) } := by
  intro slot
  have hindex : echoHistIndex (histWritten m d) (i.val + 1) =
      Fin.ofNat 8 (nextHistPos d + (i.val + 1)) := histIndex_advanced d (i.val + 1)
  have hslot : ∀ side : Sample → Short,
      (side ((histWritten m d).echoHist (echoHistIndex (histWritten m d) (i.val + 1)))).toInt =
        slot side := by
    intro side
    have hval : (⟨((nextHistPos d + 1) % 8 + i) % 8, Nat.mod_lt _ (by decide)⟩ : Fin 8) =
        Fin.ofNat 8 (nextHistPos d + (i.val + 1)) := by
      rw [Fin.ext_iff, Fin.val_ofNat]
      show ((nextHistPos d + 1) % 8 + i.val) % 8 = (nextHistPos d + (i.val + 1)) % 8
      omega
    show _ = histSlot side (histWritten m d) _
    rw [histSlot, dif_pos (Nat.mod_lt _ (by decide)), hval, hindex]
  rw [← hslot Sample.left, ← hslot Sample.right]
  rfl

end Ring

/-- The sum of the eight taps on call `t`, over the words read so far:
    coefficient 0 meets the oldest of the last eight, coefficient 7 the
    newest. -/
def firSum (regs : Regs) (reads : List Word) (t : Nat) : Int :=
  ∑ i : Fin 8, (halfWord (reads.getD (t - 7 + i) 0) * (regs (regCoeff i)).toInt) >>> (6 : Nat)

/-- The history holds the last eight words that were read, halved. -/
structure EchoHistory (es : List Event) (d : Dsp) : Prop where
  left : Ring.IsWindow 8 (histSlot Sample.left d) (nextHistPos d) ((leftReads es).map halfWord)
  right : Ring.IsWindow 8 (histSlot Sample.right d) (nextHistPos d) ((rightReads es).map halfWord)

theorem EchoHistory.start (d : Dsp) : EchoHistory [] d :=
  ⟨Ring.isWindow_nil _ _ _, Ring.isWindow_nil _ _ _⟩

theorem leftReads_append (es es' : List Event) :
    leftReads (es ++ es') = leftReads es ++ leftReads es' := List.flatMap_append

theorem rightReads_append (es es' : List Event) :
    rightReads (es ++ es') = rightReads es ++ rightReads es' := List.flatMap_append

section Sample

variable (m : Mem) (d : Dsp)

theorem leftReads_nextSample :
    leftReads (nextSample m d).events = [m.word (echoPointer d + 0)] := by
  rw [leftReads, nextSample_flatMap _ (fun _ _ => rfl) (fun _ => rfl)]
  simp

theorem rightReads_nextSample :
    rightReads (nextSample m d).events = [m.word (echoPointer d + 2)] := by
  rw [rightReads, nextSample_flatMap _ (fun _ _ => rfl) (fun _ => rfl)]
  simp

/-- The voices leave the history alone. -/
theorem mixed_history :
    (mixed m d).2.2.echoHist = d.echoHist ∧ (mixed m d).2.2.echoHistPos = d.echoHistPos := by
  have hticked : (ticked d).echoHist = d.echoHist ∧ (ticked d).echoHistPos = d.echoHistPos := by
    simp only [ticked, pollKeys]
    split <;> exact ⟨rfl, rfl⟩
  rw [(mixed_frame m d).rest]
  exact hticked

/-- The voices leave the coefficients alone. -/
theorem mixed_coeff (i : Channel) : (mixed m d).2.2.regs (regCoeff i) = d.regs (regCoeff i) :=
  mixed_regs m d fun j => vreg_not_owned j i (Or.inr rfl)

/-- The history after a sample is that of the filter. -/
theorem nextSample_history :
    (nextSample m d).val.2.2.echoHist = (histWritten m (mixed m d).2.2).echoHist ∧
      (nextSample m d).val.2.2.echoHistPos = (histWritten m (mixed m d).2.2).echoHistPos := by
  obtain ⟨eon, hwrite⟩ := echoWriteBack_dsp m (echoFilter m (mixed m d).2.2).val.2
    (feedback m (mixed m d).2.1 (mixed m d).2.2)
  rw [nextSample_val, finishSample_world, hwrite, echoFilter_val]
  exact ⟨rfl, rfl⟩

theorem nextHistPos_nextSample :
    nextHistPos (nextSample m d).val.2.2 = (nextHistPos d + 1) % 8 := by
  have hlt := nextHistPos_lt d
  have hpos : (nextSample m d).val.2.2.echoHistPos = BitVec.ofNat 8 (nextHistPos d) := by
    have hmixed : nextHistPos (mixed m d).2.2 = nextHistPos d := by
      rw [nextHistPos, (mixed_history m d).2, nextHistPos]
    rw [(nextSample_history m d).2, ← hmixed]
    rfl
  have hnat : (BitVec.ofNat 8 (nextHistPos d) + 1).toNat = nextHistPos d + 1 := by
    have hone : (1 : Byte).toNat = 1 := rfl
    rw [BitVec.toNat_add, BitVec.toNat_ofNat, hone]
    omega
  rw [nextHistPos, hpos, hnat, echoHistSize]
  split <;> omega

/-- **Step**: a sample adds the pair it reads to the history. -/
theorem EchoHistory.nextSample {es : List Event} {d : Dsp} (h : EchoHistory es d) :
    EchoHistory (es ++ (nextSample m d).events) (SpuKit.nextSample m d).val.2.2 := by
  have hlt := nextHistPos_lt d
  have hslot : ∀ side, histSlot side (SpuKit.nextSample m d).val.2.2 =
      Function.update (histSlot side d) (nextHistPos d)
        (side ⟨halved (m.word (echoPointer d + 0)),
          halved (m.word (echoPointer d + 2))⟩).toInt := by
    intro side
    have hmixed : nextHistPos (mixed m d).2.2 = nextHistPos d := by
      rw [nextHistPos, (mixed_history m d).2, nextHistPos]
    have hbefore : histSlot side (mixed m d).2.2 = histSlot side d := by
      funext j
      rw [histSlot, (mixed_history m d).1, histSlot]
    have hafter : histSlot side (SpuKit.nextSample m d).val.2.2 =
        histSlot side (histWritten m (mixed m d).2.2) := by
      funext j
      rw [histSlot, (nextSample_history m d).1, histSlot]
    rw [hafter, histSlot_histWritten, echoPointer_mixed, hmixed, hbefore]
  constructor
  · have hpush := h.left.push hlt (halved (m.word (echoPointer d + 0))).toInt
    rw [halved_toInt] at hpush
    rw [leftReads_append, leftReads_nextSample, List.map_append, hslot, nextHistPos_nextSample,
      halved_toInt]
    exact hpush
  · have hpush := h.right.push hlt (halved (m.word (echoPointer d + 2))).toInt
    rw [halved_toInt] at hpush
    rw [rightReads_append, rightReads_nextSample, List.map_append, hslot, nextHistPos_nextSample,
      halved_toInt]
    exact hpush

end Sample

/-- A full window holds at position `i` the word read `7 - i` samples ago. -/
theorem window_tap {slot : Nat → Int} {pos : Nat} {reads : List Word}
    (h : Ring.IsWindow 8 slot pos (reads.map halfWord)) {t : Nat} (hlen : reads.length = t + 1)
    (ht : 7 ≤ t) (i : Fin 8) :
    slot ((pos + i) % 8) = halfWord (reads.getD (t - 7 + i) 0) := by
  have hslot := h.slot_eq i.isLt (by rw [List.length_map]; omega)
  have hindex : reads.length + i - 8 = t - 7 + i := by omega
  rw [List.length_map, hindex, List.getElem?_map] at hslot
  rw [List.getD_eq_getElem?_getD]
  cases hget : reads[t - 7 + i.val]? with
  | none =>
    rw [hget] at hslot
    cases hslot
  | some val =>
    rw [hget] at hslot
    exact (Option.some.inj hslot).symm

/-- The echo sample of a DSP whose history is full. -/
theorem EchoHistory.echoSample_eq {m : Mem} {es : List Event} {d : Dsp} (h : EchoHistory es d)
    {t : Nat} (hleft : (leftReads es).length = t) (hright : (rightReads es).length = t)
    (ht : 7 ≤ t) :
    let es' := es ++ (SpuKit.nextSample m d).events
    echoSample m d =
      dropLowBit (sampleClamp
        ⟨firSum d.regs (leftReads es') t, firSum d.regs (rightReads es') t⟩) := by
  intro es'
  have h' := h.nextSample m
  have hpos : (nextHistPos (mixed m d).2.2 + 1) % 8 =
      nextHistPos (SpuKit.nextSample m d).val.2.2 := by
    rw [nextHistPos_nextSample, nextHistPos, (mixed_history m d).2, nextHistPos]
  have hslot : ∀ side, histSlot side (histWritten m (mixed m d).2.2) =
      histSlot side (SpuKit.nextSample m d).val.2.2 := by
    intro side
    funext j
    rw [histSlot, histSlot, (nextSample_history m d).1]
  have hleft' : (leftReads es').length = t + 1 := by
    rw [leftReads_append, leftReads_nextSample, List.length_append, hleft, List.length_singleton]
  have hright' : (rightReads es').length = t + 1 := by
    rw [rightReads_append, rightReads_nextSample, List.length_append, hright,
      List.length_singleton]
  rw [echoSample, echoFilter_val]
  simp only [calcFir_histWritten, mixed_coeff, hpos, hslot, window_tap h'.left hleft' ht,
    window_tap h'.right hright' ht, firSum]
  rfl

theorem EchoHistory.run (ops : List Op) (w : World) {es : List Event} (h : EchoHistory es w.dsp) :
    EchoHistory (es ++ (runOps ops w).events) (runOps ops w).val.dsp ∧
      (leftReads (runOps ops w).events).length = ops.countP Op.isSample ∧
      (rightReads (runOps ops w).events).length = ops.countP Op.isSample := by
  induction ops generalizing w es with
  | nil => exact ⟨by simpa using h, rfl, rfl⟩
  | cons op ops ih =>
    have hstep : EchoHistory (es ++ (w.step op).events) (w.step op).val.dsp ∧
        (leftReads (w.step op).events).length = (if op.isSample then 1 else 0) ∧
        (rightReads (w.step op).events).length = (if op.isSample then 1 else 0) := by
      cases op with
      | sample =>
        rw [World.step_sample_events, World.step_sample_dsp, leftReads_nextSample,
          rightReads_nextSample]
        exact ⟨h.nextSample w.mem, rfl, rfl⟩
      | store | poke | restore | reset =>
        refine ⟨?_, rfl, rfl⟩
        show EchoHistory (es ++ []) _
        rw [List.append_nil]
        exact ⟨h.left, h.right⟩
    obtain ⟨hnext, hleft, hright⟩ := hstep
    obtain ⟨hrun, hleft', hright'⟩ := ih _ hnext
    rw [runOps_cons_events, runOps_cons_val, leftReads_append, rightReads_append,
      List.length_append, List.length_append, ← List.append_assoc, List.countP_cons, hleft, hright,
      hleft', hright']
    exact ⟨hrun, Nat.add_comm _ _, Nat.add_comm _ _⟩

/-- **The echo filter is an 8-tap FIR.** On call `t` of any run, counted from 0
    and at least the eighth, the echo sample of either channel is the clamped
    sum of the eight taps over the words read on calls `t - 7` to `t`, with its
    low bit cleared. -/
theorem echo_fir (ops : List Op) (w : World) (ht : 7 ≤ ops.countP Op.isSample) :
    let t := ops.countP Op.isSample
    let w' := (runOps ops w).val
    let es := (runOps ops w).events ++ (nextSample w'.mem w'.dsp).events
    (leftReads es).length = t + 1 ∧ (rightReads es).length = t + 1 ∧
      echoSample w'.mem w'.dsp =
        dropLowBit
          ⟨clamp16 (firSum w'.dsp.regs (leftReads es) t),
            clamp16 (firSum w'.dsp.regs (rightReads es) t)⟩ := by
  intro t w' es
  obtain ⟨hrun, hleft, hright⟩ := (EchoHistory.start w.dsp).run ops w
  rw [List.nil_append] at hrun
  refine ⟨?_, ?_, hrun.echoSample_eq hleft hright ht⟩
  · rw [leftReads_append, leftReads_nextSample, List.length_append, hleft, List.length_singleton]
  · rw [rightReads_append, rightReads_nextSample, List.length_append, hright,
      List.length_singleton]

/-- A DSP with the same coefficient for all taps, and audio RAM full of the same word. -/
def echoingWorld : World :=
  ⟨⟨fun _ => 0x20, fun _ => 0⟩,
    { Dsp.zero with
      regs := fun r => if r.val % 16 = 0x0f then 0x10 else if r = regFlg then 0x20 else 0 }⟩

theorem echo_fir_echoing :
    let w' := (runOps (List.replicate 7 .sample) echoingWorld).val
    let es := (runOps (List.replicate 7 .sample) echoingWorld).events ++
      (nextSample w'.mem w'.dsp).events
    firSum w'.dsp.regs (leftReads es) 7 = 8224 ∧
      (leftReads es).length = 7 + 1 ∧ (rightReads es).length = 7 + 1 ∧
      echoSample w'.mem w'.dsp =
        dropLowBit
          ⟨clamp16 (firSum w'.dsp.regs (leftReads es) 7),
            clamp16 (firSum w'.dsp.regs (rightReads es) 7)⟩ :=
  ⟨by decide +kernel, echo_fir (List.replicate 7 .sample) echoingWorld (by decide)⟩

end SpuKit
