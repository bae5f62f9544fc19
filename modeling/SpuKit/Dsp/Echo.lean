import SpuKit.Dsp.SampleSpec

/-!
# What one sample changes

The frame of a sample: the four bytes of audio RAM at the echo pointer, the
ENVX and OUTX registers of the voices and ENDX, and how the echo offset and the
echo length move.

## Main definitions

- `EchoCursor` — the echo offset and length are those of a buffer
- `echoBytes` — the length of the buffer EDL asks for

## Main results

- `writePair_aram_of_ne`, `writePair_word` — storing a stereo pair
- `EchoCursor.nextSample` — a sample keeps the offset inside the buffer
- `nextSample_frame` — what a sample of a reachable DSP changes
-/

namespace SpuKit

section Pairs

variable (m : Mem) (ptr : Word) (s : Sample)

theorem writePair_aram :
    (writePair m ptr s).aram =
      Function.update (Function.update (Function.update (Function.update m.aram
        (ptr + 0 + 1) ((s.left >>> 8).setWidth 8)) (ptr + 0) (s.left.setWidth 8))
        (ptr + 2 + 1) ((s.right >>> 8).setWidth 8)) (ptr + 2) (s.right.setWidth 8) := rfl

/-- Storing a pair changes no other byte. -/
theorem writePair_aram_of_ne {a : Word} (h : ∀ k : Fin 4, a ≠ ptr + BitVec.ofNat 16 k) :
    (writePair m ptr s).aram a = m.aram a := by
  have h0 : a ≠ ptr + 0 := h 0
  have h1 : a ≠ ptr + 0 + 1 := by
    rw [BitVec.add_assoc]
    exact h 1
  have h2 : a ≠ ptr + 2 := h 2
  have h3 : a ≠ ptr + 2 + 1 := by
    rw [BitVec.add_assoc]
    exact h 3
  rw [writePair_aram, Function.update_of_ne h2, Function.update_of_ne h3,
    Function.update_of_ne h0, Function.update_of_ne h1]

theorem writePair_word :
    (writePair m ptr s).word (ptr + 0) = s.left ∧
      (writePair m ptr s).word (ptr + 2) = s.right := by
  have h01 : ptr + 0 + 1 ≠ ptr + 0 := by bv_omega
  have h02 : ptr + 0 ≠ ptr + 2 := by bv_omega
  have h03 : ptr + 0 ≠ ptr + 2 + 1 := by bv_omega
  have h12 : ptr + 0 + 1 ≠ ptr + 2 := by bv_omega
  have h13 : ptr + 0 + 1 ≠ ptr + 2 + 1 := by bv_omega
  have h32 : ptr + 2 + 1 ≠ ptr + 2 := by bv_omega
  rw [Mem.word, Mem.word, writePair_aram]
  constructor
  · rw [Function.update_of_ne h12, Function.update_of_ne h13, Function.update_of_ne h01,
      Function.update_self, Function.update_of_ne h02, Function.update_of_ne h03,
      Function.update_self, wordOf_bytes]
  · rw [Function.update_of_ne h32, Function.update_self, Function.update_self, wordOf_bytes]

end Pairs

/-- The length in bytes of the echo buffer EDL asks for. -/
def echoBytes (regs : Regs) : Nat := (regs regEdl &&& 0xf).toNat * 0x800

/-- The offset walks a buffer of whole 2 KiB chunks in steps of one pair. -/
structure EchoCursor (d : Dsp) : Prop where
  aligned : d.echoOffset.toNat % 4 = 0
  inside : d.echoOffset = 0 ∨ d.echoOffset.toNat < d.echoLength.toNat
  chunks : d.echoLength.toNat % 0x800 = 0
  length_le : d.echoLength.toNat ≤ 0x7800

theorem echoBytes_toNat (regs : Regs) :
    ((regs regEdl &&& 0xf).setWidth 16 * 0x800 : Word).toNat = echoBytes regs := by
  rw [echoBytes]
  generalize regs regEdl = edl
  revert edl
  decide

theorem echoBytes_bounds (regs : Regs) :
    echoBytes regs % 0x800 = 0 ∧ echoBytes regs ≤ 0x7800 := by
  have hmask : (regs regEdl &&& 0xf).toNat ≤ 15 := by
    rw [BitVec.toNat_and]
    exact Nat.and_le_right
  rw [echoBytes]
  omega

theorem latchedLength_toNat (regs : Regs) (offset length : Word) :
    (latchedLength regs offset length).toNat =
      if offset = 0 then echoBytes regs else length.toNat := by
  rw [latchedLength]
  split
  · exact echoBytes_toNat regs
  · rfl

/-- The offset after one more pair, in a buffer of a length that fits. -/
theorem nextOffset_toNat {offset : Word} (length : Word) (ho : offset.toNat ≤ 0x7800) :
    (nextOffset offset length).toNat =
      if offset.toNat + 4 < length.toNat then offset.toNat + 4 else 0 := by
  have hadd : (offset + 4).toNat = offset.toNat + 4 := by
    rw [BitVec.toNat_add]
    simp
    omega
  rw [nextOffset]
  rw [hadd]
  split_ifs <;> first | rfl | omega

/-- The next pair is at a slot again, as long as the buffer is. -/
theorem nextOffset_aligned {offset : Word} (length : Word) (ho : offset.toNat ≤ 0x7800)
    (haligned : offset.toNat % 4 = 0) : (nextOffset offset length).toNat % 4 = 0 := by
  rw [nextOffset_toNat length ho]
  split <;> omega

/-- The next pair is at the start of the buffer or inside of it. -/
theorem nextOffset_inside {offset : Word} (length : Word) (ho : offset.toNat ≤ 0x7800) :
    nextOffset offset length = 0 ∨ (nextOffset offset length).toNat < length.toNat := by
  have hoff := nextOffset_toNat length ho
  by_cases hlt : offset.toNat + 4 < length.toNat
  · rw [if_pos hlt] at hoff
    right
    rwa [hoff]
  · rw [if_neg hlt] at hoff
    exact Or.inl (BitVec.eq_of_toNat_eq hoff)

theorem EchoCursor.zero : EchoCursor .zero where
  aligned := rfl
  inside := Or.inl rfl
  chunks := rfl
  length_le := by decide

theorem EchoCursor.offset_le {d : Dsp} (h : EchoCursor d) : d.echoOffset.toNat ≤ 0x7800 := by
  have hlen := h.length_le
  rcases h.inside with h0 | hlt
  · rw [h0]
    decide
  · omega

/-- **Step**: a sample keeps the offset inside the buffer, whatever EDL is. -/
theorem EchoCursor.nextSample (m : Mem) {d : Dsp} (h : EchoCursor d) :
    EchoCursor (nextSample m d).val.2.2 := by
  have hlen := latchedLength_toNat d.regs d.echoOffset d.echoLength
  have hbytes := echoBytes_bounds d.regs
  have hchunks := h.chunks
  have hlength := h.length_le
  constructor
  · rw [nextSample_echoOffset]
    exact nextOffset_aligned _ h.offset_le h.aligned
  · rw [nextSample_echoOffset, nextSample_echoLength]
    exact nextOffset_inside _ h.offset_le
  · rw [nextSample_echoLength, hlen]
    split <;> omega
  · rw [nextSample_echoLength, hlen]
    split <;> omega

theorem Reachable.echoCursor {w : World} (h : Reachable w) : EchoCursor w.dsp := by
  refine h.invariant (fun w => EchoCursor w.dsp) (fun _ => EchoCursor.zero) ?_
  intro op w hw
  cases op with
  | sample =>
    rw [World.step_sample_dsp]
    exact hw.nextSample w.mem
  | store | poke | restore | reset => exact ⟨hw.aligned, hw.inside, hw.chunks, hw.length_le⟩

/-- **Frame of one sample.** A sample changes audio RAM at most at the four
    bytes of the echo pointer latched before it, and nowhere when FLG disables
    echo writes; it changes registers at most at ENVX and OUTX of the voices
    and at ENDX; and it leaves the echo offset inside the echo buffer. -/
theorem nextSample_frame {w : World} (h : Reachable w) :
    (∀ a, (nextSample w.mem w.dsp).val.2.1.aram a ≠ w.mem.aram a →
      ∃ k : Fin 4, a = echoPointer w.dsp + BitVec.ofNat 16 k) ∧
    (w.dsp.regs regFlg &&& flgEchoDisabled ≠ 0 →
      (nextSample w.mem w.dsp).val.2.1.aram = w.mem.aram) ∧
    (∀ r, (nextSample w.mem w.dsp).val.2.2.regs r ≠ w.dsp.regs r →
      (∃ i, r = vreg i vregEnvx ∨ r = vreg i vregOutx) ∨ r = regEndx) ∧
    EchoCursor (nextSample w.mem w.dsp).val.2.2 := by
  refine ⟨?_, ?_, ?_, h.echoCursor.nextSample w.mem⟩
  · intro a ha
    by_contra hfar
    apply ha
    rw [nextSample_mem]
    split
    · exact writePair_aram_of_ne _ _ _ fun k hk => hfar ⟨k, hk⟩
    · rfl
  · intro hflg
    rw [nextSample_mem, if_neg (show ¬ EchoWrites w.dsp.regs from hflg)]
  · intro r hr
    by_contra hfar
    rw [not_or, not_exists] at hfar
    apply hr
    refine nextSample_regs _ _ fun i howned => ?_
    rcases howned with hown | hown | hown
    · exact hfar.1 i (Or.inl hown)
    · exact hfar.1 i (Or.inr hown)
    · exact hfar.2 hown

/-- With FLG bit 5 set audio RAM stays as it is. -/
theorem nextSample_frame_disabled :
    (nextSample ⟨fun _ => 0, fun _ => 0⟩ (dspRestore (fun _ => 0x20) .zero)).val.2.1.aram =
      fun _ => 0 :=
  (nextSample_frame (w := ⟨⟨fun _ => 0, fun _ => 0⟩, dspRestore (fun _ => 0x20) .zero⟩)
    ⟨_, [.restore fun _ => 0x20], rfl⟩).2.1 (by decide)

end SpuKit
