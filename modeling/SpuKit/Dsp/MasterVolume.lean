import SpuKit.Dsp.IntRanges
import SpuKit.Lib.Saturation

/-!
# The master volumes

The registers MVOLL, MVOLR, EVOLL and EVOLR are shifted left by 4 on their way
into the `int8_t` volume of `sample_scale`, so that only their low four bits
arrive. No voice reads these registers and neither does the echo filter: a
sample depends on them through the volumes alone. Between two settings the
output follows the signed low nibbles.

## Main definitions

- `Blind` — a register that the voices do not read
- `MasterVolume` — the four registers, and the sample each of them scales
- `lowNibble` — the part of a setting that arrives
- `Indistinct` — two volumes that sound the same

## Main results

- `Blind.mixed` — the voice sums do not depend on a register the voices ignore
- `nextSample_sample` — the output in terms of the master mix
- `louder_iff` — when a louder setting is never quieter
-/

namespace SpuKit

open CInt Saturation

/-- The DSP with a byte in a register. -/
def Dsp.withReg (d : Dsp) (r : Fin 0x80) (v : Byte) : Dsp :=
  { d with regs := Function.update d.regs r v }

/-- A register that the voices neither read nor write. -/
structure Blind (r : Fin 0x80) : Prop where
  control : ControlReg r
  input : ∀ j k, k.val < 8 → vreg j k ≠ r
  flg : regFlg ≠ r
  non : regNon ≠ r
  dir : regDir ≠ r
  kon : regKon ≠ r
  koff : regKoff ≠ r

namespace Blind

variable {r : Fin 0x80} (h : Blind r) (v : Byte) (m : Mem) (i : Channel) (d : Dsp)

include h

theorem envx : vreg i vregEnvx ≠ r := fun heq => h.control i (Or.inl heq.symm)

theorem outx : vreg i vregOutx ≠ r := fun heq => h.control i (Or.inr (Or.inl heq.symm))

theorem endx : regEndx ≠ r := fun heq => h.control 0 (Or.inr (Or.inr heq.symm))

theorem voice (regs : Regs) : voice (Function.update regs r v) i = voice regs i :=
  voice_congr i fun k hk => Function.update_of_ne (h.input i k hk) ..

theorem primed : primed m i (d.withReg r v) = primed m i d := by
  have hdir : (d.withReg r v).regs regDir = d.regs regDir := Function.update_of_ne h.dir ..
  have hvoice : SpuKit.voice (d.withReg r v).regs i = SpuKit.voice d.regs i := h.voice v i d.regs
  rw [SpuKit.primed, SpuKit.primed, voiceFetch_val, voiceFetch_val, latchPtr, latchPtr]
  simp only [hvoice, voiceSrcnPointer_congr hdir]
  rfl

theorem voiceSample (regs : Regs) (st : VState) :
    (voiceSample (Function.update regs r v) i st).val =
      ((voiceSample regs i st).val.1, Function.update (voiceSample regs i st).val.2 r v) := by
  have hnon : Function.update regs r v regNon = regs regNon := Function.update_of_ne h.non ..
  have hcomm : ∀ a b,
      Function.update (Function.update (Function.update regs r v) (vreg i vregOutx) a)
          (vreg i vregEnvx) b =
        Function.update (Function.update (Function.update regs (vreg i vregOutx) a)
          (vreg i vregEnvx) b) r v := by
    intro a b
    rw [Function.update_comm (h.outx i).symm, Function.update_comm (h.envx i).symm]
  simp only [SpuKit.voiceSample, hnon, hcomm, Traced.val_ite, Traced.val_bind, Traced.val_pure]
  split_ifs <;> rfl

theorem exposed : exposed m i (d.withReg r v) = Function.update (exposed m i d) r v := by
  rw [SpuKit.exposed, h.primed]
  exact congrArg Prod.snd (h.voiceSample v i d.regs (SpuKit.primed m i d))

theorem keyed : keyed m i (d.withReg r v) = keyed m i d := by
  have hflg : (d.withReg r v).regs regFlg = d.regs regFlg := Function.update_of_ne h.flg ..
  rw [keyed_eq, keyed_eq, h.primed]
  simp only [voiceCut_congr hflg]
  rfl

theorem enveloped : enveloped m i (d.withReg r v) = enveloped m i d := by
  have hvoice : SpuKit.voice (d.withReg r v).regs i = SpuKit.voice d.regs i := h.voice v i d.regs
  rw [enveloped_eq, enveloped_eq, h.keyed, hvoice]
  rfl

theorem voiceDecode (regs : Regs) (st : VState) :
    (voiceDecode m (Function.update regs r v) i st).val =
      ((voiceDecode m regs i st).val.1, Function.update (voiceDecode m regs i st).val.2 r v) := by
  have hendx : Function.update regs r v regEndx = regs regEndx := Function.update_of_ne h.endx ..
  simp only [SpuKit.voiceDecode, hendx, Function.update_comm h.endx.symm, Traced.val_ite,
    Traced.val_bind, Traced.val_pure]
  generalize (brrSample4 m st).val = stored
  split_ifs <;> rfl

theorem decoded :
    decoded m i (d.withReg r v) =
      ((decoded m i d).1, Function.update (decoded m i d).2 r v) := by
  rw [SpuKit.decoded, h.exposed, h.enveloped]
  exact h.voiceDecode v m i _ _

theorem voiceEndx (regs : Regs) (st : VState) :
    voiceEndx (Function.update regs r v) i st = Function.update (voiceEndx regs i st) r v := by
  have hendx : Function.update regs r v regEndx = regs regEndx := Function.update_of_ne h.endx ..
  rw [SpuKit.voiceEndx, SpuKit.voiceEndx, hendx]
  split
  · exact Function.update_comm h.endx.symm ..
  · rfl

/-- **Step**: a voice returns the same sample and leaves the register alone. -/
theorem voiceRun :
    (voiceRun m i (d.withReg r v)).val =
      ((voiceRun m i d).val.1, (voiceRun m i d).val.2.withReg r v) := by
  have hvoice : SpuKit.voice (d.withReg r v).regs i = SpuKit.voice d.regs i := h.voice v i d.regs
  have hsample : (SpuKit.voiceSample (d.withReg r v).regs i (SpuKit.primed m i d)).val.1 =
      (SpuKit.voiceSample d.regs i (SpuKit.primed m i d)).val.1 := by
    show (SpuKit.voiceSample (Function.update d.regs r v) i _).val.1 = _
    rw [h.voiceSample]
  apply Prod.ext
  · rw [voiceRun_sample, h.enveloped, h.primed, hvoice, hsample, ← voiceRun_sample]
  · show _ = (SpuKit.voiceRun m i d).val.2.withReg r v
    rw [voiceRun_dsp, voiceRun_dsp, h.enveloped, h.decoded, h.exposed, h.voiceEndx]
    split <;> rfl

/-- **Loop**: the sums of the voices are the same. -/
theorem runVoices (is : List Channel) (a b : Sample) :
    (runVoices m is a b (d.withReg r v)).val =
      ((runVoices m is a b d).val.1, (runVoices m is a b d).val.2.1,
        (runVoices m is a b d).val.2.2.withReg r v) := by
  induction is generalizing a b d with
  | nil => rfl
  | cons i is ih =>
    have hstep : ∀ d a b, (SpuKit.runVoices m (i :: is) a b d).val =
        (SpuKit.runVoices m is (sampleBlend a (SpuKit.voiceRun m i d).val.1)
          (if (SpuKit.voiceRun m i d).val.2.eon &&& channelBit i ≠ 0 then
            sampleBlend b (SpuKit.voiceRun m i d).val.1 else b)
          (SpuKit.voiceRun m i d).val.2).val := fun _ _ _ => rfl
    rw [hstep, hstep, h.voiceRun]
    exact ih ..

theorem ticked : ticked (d.withReg r v) = (ticked d).withReg r v := by
  have hkon : (d.withReg r v).regs regKon = d.regs regKon := Function.update_of_ne h.kon ..
  have hkoff : (d.withReg r v).regs regKoff = d.regs regKoff := Function.update_of_ne h.koff ..
  have hpoll : pollKeys (d.withReg r v) = (pollKeys d).withReg r v := by
    rw [pollKeys, pollKeys, hkon, hkoff]
    show (if (!d.toggle) = false then _ else _ : Dsp) =
      Dsp.withReg (if (!d.toggle) = false then _ else _) r v
    split <;> rfl
  rw [SpuKit.ticked, hpoll]
  rfl

theorem mixed :
    mixed m (d.withReg r v) =
      ((mixed m d).1, (mixed m d).2.1, (mixed m d).2.2.withReg r v) := by
  rw [mixed_eq, mixed_eq, h.ticked]
  exact h.runVoices v m (SpuKit.ticked d) _ _ _

end Blind

-- ════════════════════════════════════════════════════════════════════════
-- The mix
-- ════════════════════════════════════════════════════════════════════════

section Echo

variable (m : Mem)

/-- The echo sample depends on the echo variables and the coefficients. -/
theorem echoFilter_congr {d d' : Dsp} (hptr : echoPointer d' = echoPointer d)
    (hhist : d'.echoHist = d.echoHist) (hpos : d'.echoHistPos = d.echoHistPos)
    (hcoeff : ∀ i, d'.regs (regCoeff i) = d.regs (regCoeff i)) :
    (echoFilter m d').val.1 = (echoFilter m d).val.1 := by
  have hnext : nextHistPos d' = nextHistPos d := by
    rw [nextHistPos, hpos, nextHistPos]
  have hslot : ∀ side, histSlot side (histWritten m d') = histSlot side (histWritten m d) := by
    intro side
    have hbefore : histSlot side d' = histSlot side d := by
      funext j
      rw [histSlot, hhist, histSlot]
    rw [histSlot_histWritten, histSlot_histWritten, hbefore, hnext, hptr]
  rw [echoFilter_val, echoFilter_val]
  simp only [calcFir_histWritten, hslot, hnext, hcoeff]

/-- The voices do not reach the echo sample. -/
theorem echoSample_eq (d : Dsp) : echoSample m d = (echoFilter m d).val.1 :=
  echoFilter_congr m (echoPointer_mixed m d) (mixed_history m d).1 (mixed_history m d).2
    (mixed_coeff m d)

end Echo

/-- One of the four master volume registers. -/
inductive MasterVolume where
  /-- MVOLL and MVOLR scale the sum of the voices -/
  | main (side : Side)
  /-- EVOLL and EVOLR scale the echo sample -/
  | echo (side : Side)

namespace MasterVolume

def reg : MasterVolume → Fin 0x80
  | main side => side.mvol
  | echo side => side.evol

/-- The channel the register is heard on. -/
def side : MasterVolume → Side
  | main side => side
  | echo side => side

/-- The sample the register scales. -/
def sample (m : Mem) (d : Dsp) : MasterVolume → Short
  | main side => side.of (mixed m d).1
  | echo side => side.of (echoSample m d)

/-- What the other volume of the channel adds to the mix. -/
def other (m : Mem) (d : Dsp) : MasterVolume → Int
  | main side => sampleScale (side.of (echoSample m d)).toInt (d.regs side.evol <<< 4)
  | echo side => sampleScale (side.of (mixed m d).1).toInt (d.regs side.mvol <<< 4)

end MasterVolume

/-- What arrives of a setting: the low four bits, signed. -/
def lowNibble (v : Byte) : Int := (v.setWidth 4).toInt

/-- The mix before it saturates, in terms of the low nibble of a setting. -/
def mixOf (sample other n : Int) : Int := (sample * n) >>> (3 : Nat) + other

/-- Two settings that sound the same: they scale the sample to the same value,
    or the mix saturates at the same end with both. -/
def Indistinct (sample other : Int) (v v' : Byte) : Prop :=
  let mix (v : Byte) : Int := mixOf sample other (lowNibble v)
  mix v = mix v' ∨ (0x7fff ≤ mix v ∧ 0x7fff ≤ mix v') ∨ (mix v ≤ -0x8000 ∧ mix v' ≤ -0x8000)

section Mix

variable (m : Mem) (d : Dsp)

theorem masterMix_inInt (main echo : Short) (mvol evol : Byte) :
    InInt (masterMix main echo mvol evol) := by
  have hscale : ∀ (sample : Short) (scale : Byte),
      sampleScale sample.toInt scale ∈ (⟨-0x8000, 0x8000⟩ : Interval) := by
    intro sample scale
    have hmem := Interval.shr_mem (Interval.mul_mem (short_mem sample) (int8_mem scale)) 7
    exact ⟨le_trans (by decide) hmem.1, hmem.2.trans (by decide)⟩
  have hmix := Interval.add_mem (hscale main (mvol <<< 4)) (hscale echo (evol <<< 4))
  exact ⟨le_trans (by decide) hmix.1, lt_of_le_of_lt hmix.2 (by decide)⟩

/-- The output of a sample that is not muted, on one channel. -/
theorem nextSample_sample (side : Side) (hmute : d.regs regFlg &&& flgMute = 0) :
    (side.of (nextSample m d).val.1).toInt =
      sat (-0x8000) 0x7fff (masterMix (side.of (mixed m d).1) (side.of (echoSample m d))
        (d.regs side.mvol) (d.regs side.evol)) := by
  have hregs : ∀ r, ControlReg r → (echoFilter m (mixed m d).2.2).val.2.regs r = d.regs r := by
    intro r hr
    rw [echoFilter_val]
    exact mixed_regs m d hr
  have hflg := hregs regFlg control_flg
  have hinInt := masterMix_inInt (side.of (mixed m d).1) (side.of (echoSample m d))
    (d.regs side.mvol) (d.regs side.evol)
  rw [sat, ← toInt_clamp16 hinInt.1 hinInt.2]
  simp only [nextSample_val, finishSample, Traced.val_bind, Traced.val_pure, hflg, hmute]
  cases side with
  | left =>
    simp only [hregs regMvolL (by decide), hregs regEvolL (by decide)]
    rfl
  | right =>
    simp only [hregs regMvolR (by decide), hregs regEvolR (by decide)]
    rfl

/-- The shift into the `int8_t` drops the high nibble. -/
theorem sampleScale_shifted (sample : Int) (v : Byte) :
    sampleScale sample (v <<< 4) = (sample * lowNibble v) >>> (3 : Nat) := by
  have hshift : ∀ v : Byte, (v <<< 4).toInt = lowNibble v * 16 := by decide
  rw [sampleScale, hshift, Int.shiftRight_eq_div_pow, Int.shiftRight_eq_div_pow, ← mul_assoc]
  exact Int.mul_ediv_mul_of_pos_left _ 8 (by decide : (0 : Int) < 16)

end Mix

section Response

variable {sample : Int} (other : Int) {n n' : Int} (hle : n ≤ n')

include hle

theorem mixOf_mono (h : 0 ≤ sample) : mixOf sample other n ≤ mixOf sample other n' := by
  apply Int.add_le_add_right
  apply ShiftedSum.shiftRight_mono
  exact mul_le_mul_of_nonneg_left hle h

theorem mixOf_anti (h : sample ≤ 0) : mixOf sample other n' ≤ mixOf sample other n := by
  apply Int.add_le_add_right
  apply ShiftedSum.shiftRight_mono
  exact mul_le_mul_of_nonpos_left hle h

end Response

theorem MasterVolume.blind (vol : MasterVolume) : Blind vol.reg := by
  cases vol with
  | main side => cases side <;> constructor <;> decide
  | echo side => cases side <;> constructor <;> decide

section Volume

variable (w : World) (vol : MasterVolume) (v : Byte)

/-- The world after the setting was stored. -/
def turned : World := (w.step (.store vol.reg v)).val

theorem turned_eq : turned w vol v = ⟨w.mem, w.dsp.withReg vol.reg v⟩ := by
  have hstore : store w.dsp.regs vol.reg v = Function.update w.dsp.regs vol.reg v :=
    if_neg vol.blind.endx.symm
  show (⟨w.mem, { w.dsp with regs := store w.dsp.regs vol.reg v }⟩ : World) = _
  rw [hstore]
  rfl

/-- The setting does not reach what it scales. -/
theorem turned_sample :
    (mixed (turned w vol v).mem (turned w vol v).dsp).1 = (mixed w.mem w.dsp).1 ∧
      echoSample (turned w vol v).mem (turned w vol v).dsp = echoSample w.mem w.dsp := by
  have hcoeff : ∀ i, (w.dsp.withReg vol.reg v).regs (regCoeff i) = w.dsp.regs (regCoeff i) := by
    intro i
    apply Function.update_of_ne
    revert i
    cases vol with
    | main side => cases side <;> decide
    | echo side => cases side <;> decide
  rw [turned_eq]
  constructor
  · show (mixed w.mem (w.dsp.withReg vol.reg v)).1 = _
    rw [vol.blind.mixed]
  · show echoSample w.mem (w.dsp.withReg vol.reg v) = _
    rw [echoSample_eq, echoSample_eq]
    exact echoFilter_congr w.mem rfl rfl rfl hcoeff

/-- The output with a setting. -/
theorem turned_out (hmute : w.dsp.regs regFlg &&& flgMute = 0) :
    (vol.side.of (nextSample (turned w vol v).mem (turned w vol v).dsp).val.1).toInt =
      sat (-0x8000) 0x7fff
        (mixOf (vol.sample w.mem w.dsp).toInt (vol.other w.mem w.dsp) (lowNibble v)) := by
  obtain ⟨hmain, hecho⟩ := turned_sample w vol v
  have hregs : ∀ r, r ≠ vol.reg → (turned w vol v).dsp.regs r = w.dsp.regs r := by
    intro r hr
    rw [turned_eq]
    exact Function.update_of_ne hr ..
  have hself : (turned w vol v).dsp.regs vol.reg = v := by
    rw [turned_eq]
    exact Function.update_self ..
  have hmute' : (turned w vol v).dsp.regs regFlg &&& flgMute = 0 := by
    rw [hregs _ vol.blind.flg]
    exact hmute
  rw [nextSample_sample _ _ _ hmute', hmain, hecho, masterMix]
  cases vol with
  | main side =>
    have hmvol : (turned w (.main side) v).dsp.regs side.mvol = v := hself
    have hevol : (turned w (.main side) v).dsp.regs side.evol = w.dsp.regs side.evol :=
      hregs side.evol (by cases side <;> decide)
    simp only [MasterVolume.side, hmvol, hevol, sampleScale_shifted _ v]
    rfl
  | echo side =>
    have hevol : (turned w (.echo side) v).dsp.regs side.evol = v := hself
    have hmvol : (turned w (.echo side) v).dsp.regs side.mvol = w.dsp.regs side.mvol :=
      hregs side.mvol (by cases side <;> decide)
    simp only [MasterVolume.side, hevol, hmvol, sampleScale_shifted _ v]
    rw [add_comm]
    rfl

end Volume

/-- **Louder is never quieter, in the low nibble.** Run one sample with two
    settings of a master volume register that is not muted. Both runs scale the
    same sample, and the output follows the settings (with the sample when it
    is positive, against it when it is negative) exactly if the signed low
    nibbles of the settings are in order, or the settings sound the same. -/
theorem louder_iff (w : World) (vol : MasterVolume) (m₁ m₂ : Byte)
    (hmute : w.dsp.regs regFlg &&& flgMute = 0) :
    let sample := (vol.sample w.mem w.dsp).toInt
    let out (v : Byte) :=
      (vol.side.of (nextSample (turned w vol v).mem (turned w vol v).dsp).val.1).toInt
    (∀ v, vol.sample (turned w vol v).mem (turned w vol v).dsp = vol.sample w.mem w.dsp) ∧
    (((0 ≤ sample → out m₁ ≤ out m₂) ∧ (sample ≤ 0 → out m₂ ≤ out m₁)) ↔
      lowNibble m₁ ≤ lowNibble m₂ ∨ Indistinct sample (vol.other w.mem w.dsp) m₁ m₂) := by
  intro sample out
  constructor
  · intro v
    obtain ⟨hmain, hecho⟩ := turned_sample w vol v
    cases vol with
    | main side => exact congrArg side.of hmain
    | echo side => exact congrArg side.of hecho
  · have hout : ∀ v, out v =
        sat (-0x8000) 0x7fff (mixOf sample (vol.other w.mem w.dsp) (lowNibble v)) :=
      fun v => turned_out w vol v hmute
    let response : Int → Int := sat (-0x8000) 0x7fff ∘ mixOf sample (vol.other w.mem w.dsp)
    have hup : 0 ≤ sample → Monotone response := fun h n n' hle =>
      sat_mono _ _ (mixOf_mono _ hle h)
    have hdown : sample ≤ 0 → Antitone response := fun h n n' hle =>
      sat_mono _ _ (mixOf_anti _ hle h)
    rw [hout, hout, Indistinct, ← sat_eq_sat_iff (by decide)]
    exact follows_iff hup hdown (le_total 0 sample) (lowNibble m₁) (lowNibble m₂)

/-- Audio RAM with 0x4000 in the left word of the echo buffer. -/
def echoedMem : Mem := ⟨Function.update (fun _ => 0) 1 0x40, fun _ => 0⟩

/-- A register file whose filter passes the newest word on. -/
def echoedRegs : Regs := Function.update (fun _ => 0) (regCoeff 7) 0x40

/-- A process that hears the echo buffer. -/
def echoed : World := ⟨echoedMem, dspRestore echoedRegs .zero⟩

theorem echoed_reachable : Reachable echoed := ⟨echoedMem, [.restore echoedRegs], rfl⟩

theorem echoed_sample : echoSample echoed.mem echoed.dsp = ⟨0x2000, 0⟩ := by
  rw [echoSample_eq, echoFilter_val]
  decide +kernel

theorem louder_iff_echoed :
    let vol := MasterVolume.echo .left
    let sample := (vol.sample echoed.mem echoed.dsp).toInt
    let out (v : Byte) :=
      (vol.side.of (nextSample (turned echoed vol v).mem (turned echoed vol v).dsp).val.1).toInt
    (∀ v, vol.sample (turned echoed vol v).mem (turned echoed vol v).dsp =
      vol.sample echoed.mem echoed.dsp) ∧
    (((0 ≤ sample → out 7 ≤ out 8) ∧ (sample ≤ 0 → out 8 ≤ out 7)) ↔
      lowNibble 7 ≤ lowNibble 8 ∨ Indistinct sample (vol.other echoed.mem echoed.dsp) 7 8) :=
  louder_iff echoed (.echo .left) 7 8 (by decide)

/-- **Volume 8 sounds as -128**: it turns a positive echo sample, which volume 7
    leaves positive, into a negative one. -/
theorem louder_is_quieter :
    let sample := (echoSample echoed.mem echoed.dsp).left.toInt
    let out (v : Byte) := (nextSample (turned echoed (.echo .left) v).mem
      (turned echoed (.echo .left) v).dsp).val.1.left.toInt
    Reachable echoed ∧ echoed.dsp.regs regFlg &&& flgMute = 0 ∧
      (7 : Byte).toInt ≤ (8 : Byte).toInt ∧ out 7 = 7168 ∧ out 8 = -8192 ∧
      ¬ (0 ≤ sample → out 7 ≤ out 8) := by
  intro sample out
  have hmute : echoed.dsp.regs regFlg &&& flgMute = 0 := by decide
  have hother : (MasterVolume.echo .left).other echoed.mem echoed.dsp = 0 := by
    show ((mixed echoed.mem echoed.dsp).1.left.toInt * 0) >>> (7 : Nat) = 0
    rw [mul_zero]
    rfl
  have hsample : ((MasterVolume.echo .left).sample echoed.mem echoed.dsp).toInt = 0x2000 := by
    show (echoSample echoed.mem echoed.dsp).left.toInt = 0x2000
    rw [echoed_sample]
    rfl
  have hout : ∀ v, out v = sat (-0x8000) 0x7fff (mixOf 0x2000 0 (lowNibble v)) := by
    intro v
    rw [← hsample, ← hother]
    exact turned_out echoed (.echo .left) v hmute
  have hseven : out 7 = 7168 := by
    rw [hout]
    decide
  have height : out 8 = -8192 := by
    rw [hout]
    decide
  refine ⟨echoed_reachable, hmute, by decide, hseven, height, ?_⟩
  show ¬ (0 ≤ (echoSample echoed.mem echoed.dsp).left.toInt → out 7 ≤ out 8)
  rw [echoed_sample, hseven, height]
  decide

end SpuKit
