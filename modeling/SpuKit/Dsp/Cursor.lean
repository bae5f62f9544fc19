import SpuKit.Dsp.Solo
import SpuKit.Dsp.VoiceInvariant
import SpuKit.Lib.Ring

/-!
# The playback cursor

The ring of a voice is a window of its decode stream, and `interp_pos` is a
cursor into that window: 14 fractional bits of position behind the last three
groups. This file relates the two over whole runs, from the attack countdown
that restarts the decoder until the voice falls silent or is keyed on again.

## Main definitions

- `ringSlot` — the ring of a voice by position
- `Playing` — the decode stream so far and the voice belong together

## Main results

- `Playing.call` — a call keeps the decode stream and the voice together
- `playback_cursor` — the cursor advances by the pitch and reads the stream in
  order
-/

namespace SpuKit

/-- The ring of a voice, by position. -/
def ringSlot (buf : Fin 12 → Short) (k : Nat) : Short := if h : k < 12 then buf ⟨k, h⟩ else 0

theorem ringSlot_bufSet (buf : Fin 12 → Short) {k : Nat} (hk : k < 12) (val : Short) :
    ringSlot (bufSet buf (k : Int) val) = Function.update (ringSlot buf) k val := by
  funext j
  unfold ringSlot bufSet
  rw [Function.update_apply]
  by_cases hj : j < 12
  · simp only [hj, hk, Int.toNat_natCast, dite_true, Function.update_apply, Fin.mk.injEq]
  · simp only [hj, dite_false]
    rw [if_neg (by omega)]

/-- The ring of a voice holds the last twelve samples of its decode stream. -/
def RingHolds (st : VState) (written : List Short) : Prop :=
  Ring.IsWindow 12 (ringSlot st.buf) st.bufPos.toNat written

theorem RingHolds.decode (m : Mem) {st : VState} {written : List Short}
    (h : RingHolds st written) (hpos : st.bufPos = 0 ∨ st.bufPos = 4 ∨ st.bufPos = 8) :
    Ring.IsWindow 12 (ringSlot (nextBuf m st)) (nextBufPos st.bufPos).toNat
      (written ++ groupSamples m st) := by
  obtain ⟨p, hp, hnat, hnext⟩ : ∃ p, p + 4 ≤ 12 ∧ st.bufPos.toNat = p ∧
      (nextBufPos st.bufPos).toNat = (p + 1 + 1 + 1 + 1) % 12 := by
    rcases hpos with h | h | h <;> rw [h]
    · exact ⟨0, by decide, rfl, rfl⟩
    · exact ⟨4, by decide, rfl, rfl⟩
    · exact ⟨8, by decide, rfl, rfl⟩
  have hslots : ringSlot (nextBuf m st) =
      Function.update (Function.update (Function.update (Function.update (ringSlot st.buf)
        p (clamp16 (groupOf m st).1)) (p + 1) (clamp16 (groupOf m st).2.1))
        (p + 1 + 1) (clamp16 (groupOf m st).2.2.1)) (p + 1 + 1 + 1)
        (clamp16 (groupOf m st).2.2.2) := by
    rw [nextBuf, bufSet4, hnat]
    have h0 : ((p : Int) + 0) = ((p : Nat) : Int) := by omega
    have h1 : ((p : Int) + 1) = ((p + 1 : Nat) : Int) := by omega
    have h2 : ((p : Int) + 2) = ((p + 1 + 1 : Nat) : Int) := by omega
    have h3 : ((p : Int) + 3) = ((p + 1 + 1 + 1 : Nat) : Int) := by omega
    rw [h0, h1, h2, h3, ringSlot_bufSet _ (by omega), ringSlot_bufSet _ (by omega),
      ringSlot_bufSet _ (by omega), ringSlot_bufSet _ (by omega)]
  have hwin : Ring.IsWindow 12 (ringSlot st.buf) p written := hnat ▸ h
  have h1 := hwin.push (by omega) (clamp16 (groupOf m st).1)
  rw [Nat.mod_eq_of_lt (by omega)] at h1
  have h2 := h1.push (by omega) (clamp16 (groupOf m st).2.1)
  rw [Nat.mod_eq_of_lt (by omega)] at h2
  have h3 := h2.push (by omega) (clamp16 (groupOf m st).2.2.1)
  rw [Nat.mod_eq_of_lt (by omega)] at h3
  have h4 := h3.push (by omega) (clamp16 (groupOf m st).2.2.2)
  rw [hslots, hnext]
  simpa [groupSamples] using h4

/-- The voice belongs to the decode stream of the events since its decoder was
    restarted: the countdown says how many groups were primed, the ring holds
    the last three, and the cursor stays below the clamp. -/
structure Playing (es : List VoiceEvent) (st : VState) : Prop where
  delay_le : st.attackDelay.toNat ≤ 5
  restart : st.attackDelay.toNat = 5 → (decodes es).length = 0
  priming : 1 ≤ st.attackDelay.toNat → st.attackDelay.toNat ≤ 4 →
    (decodes es).length + st.attackDelay.toNat = 4
  primed : st.attackDelay.toNat = 0 → 4 ≤ (decodes es).length
  length : (stream es).length = 4 * (decodes es).length
  bufPos : st.attackDelay.toNat ≠ 5 → st.bufPos = 0 ∨ st.bufPos = 4 ∨ st.bufPos = 8
  ring : st.attackDelay.toNat ≠ 5 → RingHolds st (stream es)
  interpPos : st.attackDelay.toNat = 0 → 0 ≤ st.interpPos ∧ st.interpPos ≤ 0x7ffe

/-- A voice that was just keyed on, before anything was decoded. -/
theorem Playing.start {st : VState} (h : st.attackDelay = 5) : Playing [] st := by
  have h5 : st.attackDelay.toNat = 5 := by rw [h]; rfl
  exact ⟨by omega, fun _ => rfl, fun _ hle => by omega, fun h0 => by omega, rfl,
    fun hne => absurd h5 hne, fun hne => absurd h5 hne, fun h0 => by omega⟩

section Call

variable {m : Mem} {i : Channel} {d : Dsp} {es : List VoiceEvent}

theorem byte_eq_of_toNat {b : Byte} {n : Nat} (hn : n < 256) (h : b.toNat = n) :
    b = BitVec.ofNat 8 n := by
  apply BitVec.eq_of_toNat_eq
  rw [h, BitVec.toNat_ofNat, Nat.mod_eq_of_lt hn]

/-- The ring and its position when the decoder of a call looks at them. -/
theorem Playing.window (h : Playing es (d.vstate i)) :
    RingHolds (enveloped m i d).1 (stream es) ∧
      ((enveloped m i d).1.bufPos = 0 ∨ (enveloped m i d).1.bufPos = 4 ∨
        (enveloped m i d).1.bufPos = 8) := by
  rw [RingHolds]
  rw [enveloped_buf, enveloped_bufPos, primed_bufPos]
  by_cases h5 : (d.vstate i).attackDelay = 5
  · have hnat : (d.vstate i).attackDelay.toNat = 5 := by rw [h5]; rfl
    have hempty : stream es = [] := by
      rw [← List.length_eq_zero_iff, h.length, h.restart hnat]
    rw [if_pos h5, hempty]
    exact ⟨Ring.isWindow_nil _ _ _, Or.inl rfl⟩
  · have hnat : (d.vstate i).attackDelay.toNat ≠ 5 := fun hn =>
      h5 (byte_eq_of_toNat (by decide) hn)
    rw [if_neg h5]
    exact ⟨h.ring hnat, h.bufPos hnat⟩

theorem primed_interpPos_of_delay (h : (d.vstate i).attackDelay.toNat ≤ 5) :
    (SpuKit.primed m i d).interpPos =
      if (d.vstate i).attackDelay.toNat = 0 then (d.vstate i).interpPos
      else if (d.vstate i).attackDelay.toNat = 5 then 0 else 0x4000 := by
  have hcases : ∀ a : Byte, a.toNat ≤ 5 →
      (a = 0 ↔ a.toNat = 0) ∧ (a ≠ 0 → ((a - 1).toNat ≤ 3 ↔ a.toNat ≠ 5)) := by decide
  obtain ⟨hzero, hthree⟩ := hcases _ h
  rw [primed_interpPos]
  by_cases h0 : (d.vstate i).attackDelay = 0
  · rw [if_pos h0, if_pos (hzero.mp h0)]
  · rw [if_neg h0, if_neg (fun hn => h0 (hzero.mpr hn))]
    by_cases h5 : (d.vstate i).attackDelay.toNat = 5
    · rw [if_neg (fun hle => (hthree h0).mp hle h5), if_pos h5]
    · rw [if_pos ((hthree h0).mpr h5), if_neg h5]

/-- The cursor never reaches the clamp. -/
theorem nextPos_eq {st : VState} (hpitch : st.pitch.toNat < 0x4000) :
    nextPos st = st.interpPos % 0x4000 + st.pitch.toNat := by
  rw [nextPos]
  omega

theorem voiceRun_attackDelay_toNat (hle : (d.vstate i).attackDelay.toNat ≤ 5)
    (hkey : ¬ KeyedOn d i) :
    ((voiceRun m i d).val.2.vstate i).attackDelay.toNat = (d.vstate i).attackDelay.toNat - 1 := by
  rw [voiceRun_attackDelay, if_neg hkey, primed_attackDelay_toNat m i d hle]

theorem voiceRun_interpPos_eq (hsilent : ¬ FallsSilent m i d) :
    ((voiceRun m i d).val.2.vstate i).interpPos =
      (SpuKit.primed m i d).interpPos % 0x4000 + (SpuKit.primed m i d).pitch.toNat := by
  rw [voiceRun_interpPos, if_neg hsilent, nextPos_eq (primed_pitch_lt m i d)]

/-- A call that decodes adds one group to the stream and four samples to the
    ring. -/
theorem Playing.call_of_due (h : Playing es (d.vstate i)) (hkey : ¬ KeyedOn d i)
    (hdue : DecodeDue m i d) :
    Playing (es ++ (voiceRun m i d).events) ((voiceRun m i d).val.2.vstate i) := by
  have hdelay := voiceRun_attackDelay_toNat (m := m) h.delay_le hkey
  have hpos := voiceRun_interpPos_eq hdue.1
  have hpitch := primed_pitch_lt m i d
  obtain ⟨hring, hbuf⟩ := h.window (m := m)
  obtain ⟨hbuf', hbufPos', -, -⟩ := voiceRun_of_due hdue
  have hnot5 : (d.vstate i).attackDelay.toNat ≠ 5 := by
    intro h5
    have hstart := hdue.2
    rw [primed_interpPos_of_delay h.delay_le, if_neg (by omega), if_pos h5] at hstart
    omega
  have hcount : (decodes (es ++ (voiceRun m i d).events)).length = (decodes es).length + 1 := by
    rw [decodes_append, voiceRun_decodes, if_pos hdue, List.length_append, List.length_singleton]
  have hstream : stream (es ++ (voiceRun m i d).events) =
      stream es ++ groupSamples m (enveloped m i d).1 := by
    rw [stream_append, voiceRun_stream, if_pos hdue]
  have hle := h.delay_le
  have hpriming := h.priming
  have hprimed := h.primed
  have hlength := h.length
  refine ⟨by omega, fun h5 => by omega, fun h1 h4 => by omega, fun h0 => by omega, ?_, ?_, ?_, ?_⟩
  · rw [hstream, hcount, List.length_append, hlength, groupSamples]
    simp
    omega
  · intro _
    rw [hbufPos', ← enveloped_bufPos]
    exact nextBufPos_bounded hbuf
  · intro _
    rw [RingHolds]
    rw [hbuf', hbufPos', ← enveloped_bufPos, hstream]
    exact hring.decode m hbuf
  · intro _
    rw [hpos]
    omega

/-- A call that decodes nothing leaves the stream and the ring alone. -/
theorem Playing.call_of_not_due (h : Playing es (d.vstate i)) (hkey : ¬ KeyedOn d i)
    (hsilent : ¬ FallsSilent m i d) (hdue : ¬ DecodeDue m i d) :
    Playing (es ++ (voiceRun m i d).events) ((voiceRun m i d).val.2.vstate i) := by
  have hdelay := voiceRun_attackDelay_toNat (m := m) h.delay_le hkey
  have hpos := voiceRun_interpPos_eq hsilent
  have hpitch := primed_pitch_lt m i d
  obtain ⟨hring, hbuf⟩ := h.window (m := m)
  obtain ⟨hbuf', hbufPos', -, -⟩ := voiceRun_of_not_due hdue
  have hcount : (decodes (es ++ (voiceRun m i d).events)).length = (decodes es).length := by
    rw [decodes_append, voiceRun_decodes, if_neg hdue, List.append_nil]
  have hstream : stream (es ++ (voiceRun m i d).events) = stream es := by
    rw [stream_append, voiceRun_stream, if_neg hdue, List.append_nil]
  -- without a decode the countdown is over or just starts
  have hphase : (d.vstate i).attackDelay.toNat = 0 ∨ (d.vstate i).attackDelay.toNat = 5 := by
    by_contra hmid
    rw [not_or] at hmid
    refine hdue ⟨hsilent, ?_⟩
    rw [primed_interpPos_of_delay h.delay_le, if_neg hmid.1, if_neg hmid.2]
  have hle := h.delay_le
  have hrestart := h.restart
  have hprimed := h.primed
  have hlength := h.length
  refine ⟨by omega, fun h5 => by omega, fun h1 h4 => by omega, fun h0 => by omega, ?_, ?_, ?_, ?_⟩
  · rw [hstream, hcount, hlength]
  · intro _
    rw [hbufPos', ← enveloped_bufPos]
    exact hbuf
  · intro _
    rw [RingHolds]
    rw [hbuf', hbufPos', ← enveloped_bufPos, hstream, ← enveloped_buf m]
    exact hring
  · intro _
    rw [hpos]
    omega

/-- **Step**: a call that neither falls silent nor keys the voice on keeps the
    decode stream and the voice together. -/
theorem Playing.call (h : Playing es (d.vstate i)) (hkey : ¬ KeyedOn d i)
    (hsilent : ¬ FallsSilent m i d) :
    Playing (es ++ (voiceRun m i d).events) ((voiceRun m i d).val.2.vstate i) := by
  by_cases hdue : DecodeDue m i d
  · exact h.call_of_due hkey hdue
  · exact h.call_of_not_due hkey hsilent hdue

end Call

section Taps

variable {st : VState}

theorem cursor_hi (h : 0 ≤ st.interpPos ∧ st.interpPos ≤ 0x7ffe) :
    ∃ hi : Fin 8, st.interpPos / 0x1000 = hi.val ∧
      toByte (st.interpPos >>> (12 : Nat)) &&& 0x7 = BitVec.ofNat 8 hi := by
  have hmask : ∀ hi : Fin 8, BitVec.ofNat 8 hi.val &&& 0x7 = BitVec.ofNat 8 hi.val := by decide
  obtain ⟨hi, hval⟩ : ∃ hi : Fin 8, st.interpPos / 0x1000 = hi.val :=
    ⟨⟨(st.interpPos / 0x1000).toNat, by omega⟩, by simp only; omega⟩
  refine ⟨hi, hval, ?_⟩
  have hshift : st.interpPos >>> (12 : Nat) = ((hi.val : Nat) : Int) := by
    rw [Int.shiftRight_eq_div_pow]
    exact hval
  rw [toByte, hshift, BitVec.ofInt_natCast, hmask]

theorem tapAt_eq (hpos : 0 ≤ st.interpPos ∧ st.interpPos ≤ 0x7ffe)
    (hbuf : st.bufPos = 0 ∨ st.bufPos = 4 ∨ st.bufPos = 8) (j : Fin 4) :
    tapAt st (interpBase st + BitVec.ofNat 8 j) =
      ringSlot st.buf
        ((st.bufPos.toNat + ((st.interpPos / 0x1000).toNat + j)) % 12) := by
  obtain ⟨hi, hval, hbase⟩ := cursor_hi hpos
  have hwrap : ∀ p : Byte, p = 0 ∨ p = 4 ∨ p = 8 → ∀ hi : Fin 8, ∀ j : Fin 4,
      (wrapped (p + BitVec.ofNat 8 hi + BitVec.ofNat 8 j)).toNat =
        (p.toNat + (hi.val + j.val)) % 12 := by
    rintro p (rfl | rfl | rfl) <;> decide
  rw [tapAt, interpBase, hbase, hwrap _ hbuf, hval, Int.toNat_natCast]
  rfl

/-- The taps are four consecutive samples of the decode stream. -/
theorem taps_eq {written : List Short} (hring : RingHolds st written)
    (hpos : 0 ≤ st.interpPos ∧ st.interpPos ≤ 0x7ffe)
    (hbuf : st.bufPos = 0 ∨ st.bufPos = 4 ∨ st.bufPos = 8) (hfull : 12 ≤ written.length) :
    taps st =
      (written.drop (written.length - 12 + (st.interpPos / 0x1000).toNat)).take 4 := by
  have hhi : (st.interpPos / 0x1000).toNat ≤ 7 := by omega
  have htap : ∀ j : Fin 4,
      written[written.length - 12 + (st.interpPos / 0x1000).toNat + j]? =
        some (tapAt st (interpBase st + BitVec.ofNat 8 j)) := by
    intro j
    have hj := j.isLt
    have hslot := hring.slot_eq (k := (st.interpPos / 0x1000).toNat + j) (by omega) (by omega)
    rw [tapAt_eq hpos hbuf, ← hslot]
    congr 1
    omega
  apply List.ext_getElem?
  intro j
  by_cases hj : j < 4
  · rw [List.getElem?_take_of_lt hj, List.getElem?_drop, htap ⟨j, hj⟩]
    rcases j with _ | _ | _ | _ | j
    · rfl
    · rfl
    · rfl
    · rfl
    · omega
  · rw [List.getElem?_eq_none (by simp [taps]; omega),
      List.getElem?_eq_none (by simp; omega)]

end Taps

section Call

variable {m : Mem} {i : Channel} {d : Dsp} {es : List VoiceEvent}

/-- Once the countdown is over, a call that does not fall silent moves the
    position in the decode stream on by the pitch. -/
theorem Playing.advance (h : Playing es (d.vstate i)) (hdelay : (d.vstate i).attackDelay = 0)
    (hsilent : ¬ FallsSilent m i d) :
    (0x4000 * (decodes (es ++ (voiceRun m i d).events)).length +
        ((voiceRun m i d).val.2.vstate i).interpPos : Int) =
      0x4000 * (decodes es).length + (d.vstate i).interpPos +
        (voicePitch (voice d.regs i)).toNat := by
  have hpos := h.interpPos (by rw [hdelay]; rfl)
  have hprimed : (SpuKit.primed m i d).interpPos = (d.vstate i).interpPos := by
    rw [primed_interpPos, if_pos hdelay]
  have hpitch : (SpuKit.primed m i d).pitch = voicePitch (voice d.regs i) := by
    rw [primed_pitch, if_pos hdelay]
  have hdue : DecodeDue m i d ↔ 0x4000 ≤ (d.vstate i).interpPos := by
    rw [DecodeDue, hprimed]
    exact and_iff_right hsilent
  rw [decodes_append, voiceRun_decodes, voiceRun_interpPos_eq hsilent, hprimed, hpitch,
    List.length_append]
  by_cases hd : DecodeDue m i d
  · have hle := hdue.mp hd
    rw [if_pos hd, List.length_singleton]
    push_cast
    omega
  · have hlt : ¬ 0x4000 ≤ (d.vstate i).interpPos := fun hle => hd (hdue.mpr hle)
    rw [if_neg hd, List.length_nil]
    push_cast
    omega

/-- Once the countdown is over, a call interpolates between consecutive samples
    of the decode stream. -/
theorem Playing.interpolates (h : Playing es (d.vstate i)) (hdelay : (d.vstate i).attackDelay = 0)
    {pos : Int} {samples : List Short}
    (hmem : (pos, samples) ∈ interpolations (voiceRun m i d).events) :
    pos = (d.vstate i).interpPos ∧
      ∃ k : Nat, (k : Int) = 4 * ((decodes es).length - 3) + pos / 0x1000 ∧
        k + 4 ≤ (stream es).length ∧ samples = ((stream es).drop k).take 4 := by
  have hnat : (d.vstate i).attackDelay.toNat = 0 := by
    rw [hdelay]
    rfl
  have hD := h.primed hnat
  have hpos := h.interpPos hnat
  have hlength := h.length
  have hprimed : (SpuKit.primed m i d).interpPos = (d.vstate i).interpPos := by
    rw [primed_interpPos, if_pos hdelay]
  have hbuf : (SpuKit.primed m i d).bufPos = (d.vstate i).bufPos := by
    rw [primed_bufPos, if_neg (by rw [hdelay]; decide)]
  have hring : RingHolds (SpuKit.primed m i d) (stream es) := by
    rw [RingHolds]
    rw [primed_buf, hbuf]
    exact h.ring (by omega)
  rw [voiceRun_interpolations] at hmem
  split at hmem
  · simp only [List.mem_singleton, Prod.mk.injEq] at hmem
    obtain ⟨rfl, rfl⟩ := hmem
    refine ⟨hprimed, (stream es).length - 12 + ((d.vstate i).interpPos / 0x1000).toNat, ?_, ?_, ?_⟩
    · rw [hprimed]
      push_cast
      omega
    · omega
    · rw [← hprimed]
      exact taps_eq hring (by rwa [hprimed]) (by rw [hbuf]; exact h.bufPos (by omega)) (by omega)
  · simp at hmem

end Call

/-- The voice neither fell silent nor was keyed on again. -/
def Uninterrupted (es : List VoiceEvent) : Prop := keyOns es = [] ∧ silences es = []

instance (es : List VoiceEvent) : Decidable (Uninterrupted es) :=
  inferInstanceAs (Decidable (_ ∧ _))

theorem uninterrupted_append (i : Channel) (es es' : List Event)
    (h : Uninterrupted (voiceEvents i (es ++ es'))) :
    Uninterrupted (voiceEvents i es) ∧ Uninterrupted (voiceEvents i es') := by
  unfold Uninterrupted at *
  simp only [voiceEvents_append, keyOns_append, silences_append, List.append_eq_nil_iff] at h
  exact ⟨⟨h.1.1, h.2.1⟩, h.1.2, h.2.2⟩

/-- In one uninterrupted operation the decode stream and the voice stay
    together. -/
theorem Playing.step {i : Channel} (op : Op) (w : World) {es : List VoiceEvent}
    (hplay : Uninterrupted (voiceEvents i (w.step op).events))
    (h : Playing es (w.dsp.vstate i)) :
    Playing (es ++ voiceEvents i (w.step op).events) ((w.step op).val.dsp.vstate i) := by
  cases op with
  | store | poke | restore | reset =>
    simpa [World.step, voiceEvents, dspRestore, dspReset, dspInit] using h
  | sample =>
    obtain ⟨hvstate, hevents⟩ := nextSample_voice w.mem w.dsp i
    rw [World.step_sample_events, hevents] at hplay ⊢
    rw [World.step_sample_dsp, hvstate]
    obtain ⟨hkey, hsilent⟩ := hplay
    rw [voiceRun_keyOns] at hkey
    rw [voiceRun_silences] at hsilent
    refine Playing.call ?_ (fun hk => ?_) (fun hs => ?_)
    · rwa [ticked_vstate]
    · simp [hk] at hkey
    · simp [hs] at hsilent

theorem Playing.run {i : Channel} {ops : List Op} {w : World}
    (hkey : (w.dsp.vstate i).attackDelay = 5)
    (hplay : Uninterrupted (voiceEvents i (runOps ops w).events)) :
    Playing (voiceEvents i (runOps ops w).events) ((runOps ops w).val.dsp.vstate i) := by
  have hstep : ∀ op w es, True → Uninterrupted (voiceEvents i (World.step op w).events) →
      Playing (voiceEvents i es) (w.dsp.vstate i) →
      Playing (voiceEvents i (es ++ (World.step op w).events))
        ((World.step op w).val.dsp.vstate i) := by
    intro op w es _ hq h
    rw [voiceEvents_append]
    exact h.step op w hq
  have hstart : Playing (voiceEvents i []) (w.dsp.vstate i) := Playing.start hkey
  exact StepSystem.run_history (fun _ _ => True) (fun es => Uninterrupted (voiceEvents i es))
    (fun es (w : World) => Playing (voiceEvents i es) (w.dsp.vstate i)) (uninterrupted_append i)
    hstep (StepSystem.along_true World.step ops w) hplay hstart

/-- **Exact playback cursor.** Let a voice run from a key-on without falling
    silent or being keyed on again, until its countdown is over. Let `D` be the
    number of groups decoded so far. Then the next call moves
    `0x4000 * D + interp_pos` on by exactly the 14-bit pitch, unless it falls
    silent, and when it interpolates, it uses four consecutive samples of the
    decode stream from `4 * (D - 3) + interp_pos / 0x1000` on. -/
theorem playback_cursor (i : Channel) (ops : List Op) {w : World}
    (hkey : (w.dsp.vstate i).attackDelay = 5)
    (hplay : Uninterrupted (voiceEvents i (runOps ops w).events))
    (hdelay : ((runOps ops w).val.dsp.vstate i).attackDelay = 0) :
    let es := voiceEvents i (runOps ops w).events
    let w' := (runOps ops w).val
    let call := voiceEvents i (nextSample w'.mem w'.dsp).events
    (silences call = [] →
      (0x4000 * (decodes (es ++ call)).length +
          ((nextSample w'.mem w'.dsp).val.2.2.vstate i).interpPos : Int) =
        0x4000 * (decodes es).length + (w'.dsp.vstate i).interpPos +
          (voicePitch (voice w'.dsp.regs i)).toNat) ∧
    ∀ pos samples, (pos, samples) ∈ interpolations call →
      pos = (w'.dsp.vstate i).interpPos ∧
      ∃ k : Nat, (k : Int) = 4 * ((decodes es).length - 3) + pos / 0x1000 ∧
        k + 4 ≤ (stream es).length ∧ samples = ((stream es).drop k).take 4 := by
  intro es w' call
  have h : Playing es ((ticked w'.dsp).vstate i) := by
    rw [ticked_vstate]
    exact Playing.run hkey hplay
  have hdelay' : ((ticked w'.dsp).vstate i).attackDelay = 0 := by
    rw [ticked_vstate]
    exact hdelay
  obtain ⟨hvstate, hevents⟩ := nextSample_voice w'.mem w'.dsp i
  have hcall : call = (voiceRun w'.mem i (ticked w'.dsp)).events := hevents
  rw [hcall, hvstate, ← ticked_vstate w'.dsp, ← ticked_regs w'.dsp]
  constructor
  · intro hquiet
    rw [voiceRun_silences] at hquiet
    exact h.advance hdelay' fun hs => by simp [hs] at hquiet
  · intro pos samples hmem
    exact h.interpolates hdelay' hmem

/-- The operations that play the keyed-on voice at full level with pitch 0x1800. -/
def playingOps : List Op :=
  countdownOps ++ .store (vreg 0 vregPitchHi) 0x18 :: fullLevelOps ++ [.sample]

theorem exists_playing :
    ∃ (w : World) (ops : List Op), (w.dsp.vstate 0).attackDelay = 5 ∧
      Uninterrupted (voiceEvents 0 (runOps ops w).events) ∧
      ((runOps ops w).val.dsp.vstate 0).attackDelay = 0 ∧
      (voicePitch (voice (runOps ops w).val.dsp.regs 0)).toNat = 0x1800 ∧
      let call := voiceEvents 0 (nextSample (runOps ops w).val.mem (runOps ops w).val.dsp).events
      silences call = [] ∧ (interpolations call).length = 1 := by
  have hquiet : EchoQuiet 0 keyOnOps ⟨loudSource, .zero⟩ := by decide +kernel
  obtain ⟨hmem, hsame⟩ := keyedOn_spec hquiet
  have hops : EchoQuiet 0 playingOps (soloKeyedOn loudSource) := by decide +kernel
  obtain ⟨hmem', hsame', hevents⟩ := soloRun_spec hmem hsame hops
  obtain ⟨-, -, hcall⟩ := soloStep_spec .sample hmem' hsame' (by decide +kernel)
  rw [World.step_sample_events] at hcall
  refine ⟨keyedOn loudSource, playingOps, ?_, ?_, ?_, ?_, ?_⟩
  · rw [hsame.vstate]
    decide +kernel
  · rw [hevents]
    decide +kernel
  · rw [hsame'.vstate]
    decide +kernel
  · rw [voicePitch, voice, hsame'.regs _ (by decide), hsame'.regs _ (by decide)]
    decide +kernel
  · rw [hcall]
    decide +kernel

/-- A voice that is played: the call interpolates, and the cursor moves on. -/
theorem playback_cursor_playing :
    ∃ (w : World) (ops : List Op),
      let es := voiceEvents 0 (runOps ops w).events
      let w' := (runOps ops w).val
      let call := voiceEvents 0 (nextSample w'.mem w'.dsp).events
      (interpolations call).length = 1 ∧
        (0x4000 * (decodes (es ++ call)).length +
            ((nextSample w'.mem w'.dsp).val.2.2.vstate 0).interpPos : Int) =
          0x4000 * (decodes es).length + (w'.dsp.vstate 0).interpPos + 0x1800 ∧
        ∀ pos samples, (pos, samples) ∈ interpolations call →
          pos = (w'.dsp.vstate 0).interpPos ∧
          ∃ k : Nat, (k : Int) = 4 * ((decodes es).length - 3) + pos / 0x1000 ∧
            k + 4 ≤ (stream es).length ∧ samples = ((stream es).drop k).take 4 := by
  obtain ⟨w, ops, hkey, hplay, hdelay, hpitch, hquiet, hone⟩ := exists_playing
  obtain ⟨hcursor, htaps⟩ := playback_cursor 0 ops hkey hplay hdelay
  refine ⟨w, ops, hone, ?_, htaps⟩
  rw [hcursor hquiet, hpitch]
  rfl

end SpuKit
