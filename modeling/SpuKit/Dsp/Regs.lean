import SpuKit.CTypes

/-!
# The DSP register file

The 128 byte registers of the DSP, their addresses and the view of the eight
voices on their own block of sixteen. Translated from `dsp-regs.h` and from the
accessors at the top of `dsp.c`.

## Main definitions

- `Regs` — the register file
- `vreg` — address of a register inside a voice's block
- `VRegs`, `voice` — the fields of `struct vregs` for a channel
- `VoiceOwned` — the registers a voice may write

## Main results

- `vreg_not_owned` — no voice writes an input register of any voice
-/

namespace SpuKit

/-- `static uint8_t regs[0x80]` -/
abbrev Regs := Fin 0x80 → Byte

/-- One of the `DSP_CHANNELS` voices. -/
abbrev Channel := Fin 8

def regMvolL : Fin 0x80 := 0x0c
def regMvolR : Fin 0x80 := 0x1c
def regEvolL : Fin 0x80 := 0x2c
def regEvolR : Fin 0x80 := 0x3c
def regKon : Fin 0x80 := 0x4c
def regKoff : Fin 0x80 := 0x5c
def regFlg : Fin 0x80 := 0x6c
def regEndx : Fin 0x80 := 0x7c

def regEfb : Fin 0x80 := 0x0d
def regNon : Fin 0x80 := 0x3d
def regEon : Fin 0x80 := 0x4d
def regDir : Fin 0x80 := 0x5d
def regEsa : Fin 0x80 := 0x6d
def regEdl : Fin 0x80 := 0x7d

def vregVolL : Fin 16 := 0
def vregVolR : Fin 16 := 1
def vregPitchLo : Fin 16 := 2
def vregPitchHi : Fin 16 := 3
def vregSrcn : Fin 16 := 4
def vregAdsr1 : Fin 16 := 5
def vregAdsr2 : Fin 16 := 6
def vregGain : Fin 16 := 7
def vregEnvx : Fin 16 := 8
def vregOutx : Fin 16 := 9
def vregCoef : Fin 16 := 0x0f

/-- `regs + (channel << 4)`, the block of a voice, at offset `r`. -/
def vreg (channel : Channel) (r : Fin 16) : Fin 0x80 :=
  ⟨channel.val * 16 + r.val, by omega⟩

/-- `reg_coeff`: the address of a FIR coefficient. -/
def regCoeff (chan : Channel) : Fin 0x80 := vreg chan vregCoef

def flgSoftReset : Byte := 0x80
def flgMute : Byte := 0x40
def flgEchoDisabled : Byte := 0x20

def adsr1UseAdsr : Byte := 0x80
def adsr1DecayRateShift : Nat := 3
def adsr1DecayRateMask : Byte := 0x0e
def adsr1AttackRateMask : Byte := 0x0f
def adsr2SustainRateMask : Byte := 0x1f
def adsr2SustainLevelShift : Nat := 5

def gainModeCustom : Byte := 0x80
def gainModeShift : Nat := 5
def gainModeMask : Byte := 0x03
def gainRateMask : Byte := 0x1f

/-- `1U << i` for a voice, as the `uint8_t` it is stored in. -/
def channelBit (i : Channel) : Byte := 1#8 <<< i.val

/-- The input fields of `struct vregs`. -/
@[ext]
structure VRegs where
  volL : Byte
  volR : Byte
  pitch : Word
  srcn : Byte
  adsr1 : Byte
  adsr2 : Byte
  gain : Byte

/-- The registers of a channel. The pitch is a little-endian word. -/
def voice (regs : Regs) (channel : Channel) : VRegs where
  volL := regs (vreg channel vregVolL)
  volR := regs (vreg channel vregVolR)
  pitch := wordOf (regs (vreg channel vregPitchHi)) (regs (vreg channel vregPitchLo))
  srcn := regs (vreg channel vregSrcn)
  adsr1 := regs (vreg channel vregAdsr1)
  adsr2 := regs (vreg channel vregAdsr2)
  gain := regs (vreg channel vregGain)

/-- `voice_pitch`: the 14-bit pitch of a voice. -/
def voicePitch (v : VRegs) : Word := v.pitch &&& 0x3fff

def dirpEffectiveAddr (regs : Regs) : Word := (regs regDir).setWidth 16 <<< 8

/-- `srcn_effective_addr`: where the directory entry of a source starts. -/
def srcnEffectiveAddr (regs : Regs) (srcn : Byte) : Word :=
  dirpEffectiveAddr regs + (srcn.setWidth 16 <<< 2)

def voiceSrcnPointer (regs : Regs) (v : VRegs) : Word := srcnEffectiveAddr regs v.srcn

theorem voicePitch_lt (v : VRegs) : (voicePitch v).toNat < 0x4000 := by
  have : (voicePitch v).toNat ≤ (0x3fff : Word).toNat := by
    rw [voicePitch, BitVec.toNat_and]
    exact Nat.and_le_right
  have h : (0x3fff : Word).toNat = 0x3fff := rfl
  omega

/-- The registers voice `i` may write: its own ENVX and OUTX, and ENDX. -/
def VoiceOwned (i : Channel) (r : Fin 0x80) : Prop :=
  r = vreg i vregEnvx ∨ r = vreg i vregOutx ∨ r = regEndx

instance (i : Channel) (r : Fin 0x80) : Decidable (VoiceOwned i r) :=
  inferInstanceAs (Decidable (_ ∨ _ ∨ _))

/-- No voice writes an input register of any voice. -/
theorem vreg_not_owned (i j : Channel) {r : Fin 16}
    (hr : r.val < 8 ∨ r = vregCoef) : ¬ VoiceOwned i (vreg j r) := by
  have hv : r.val ≠ 8 ∧ r.val ≠ 9 ∧ r.val ≠ 12 := by
    rcases hr with h | rfl
    · omega
    · decide
  rintro (h | h | h) <;> have h' := congrArg Fin.val h <;>
    simp [vreg, vregEnvx, vregOutx, regEndx] at h' <;> omega

/-- Two register files that differ only in what voices write show every voice
    the same inputs. -/
theorem voice_congr {regs regs' : Regs} (j : Channel)
    (h : ∀ r : Fin 16, r.val < 8 → regs' (vreg j r) = regs (vreg j r)) :
    voice regs' j = voice regs j := by
  ext1 <;> simp only [voice] <;>
    simp only [h vregVolL (by decide), h vregVolR (by decide), h vregPitchLo (by decide),
      h vregPitchHi (by decide), h vregSrcn (by decide), h vregAdsr1 (by decide),
      h vregAdsr2 (by decide), h vregGain (by decide)]

/-- The directory is found with DIR. -/
theorem voiceSrcnPointer_congr {regs regs' : Regs} (hdir : regs' regDir = regs regDir)
    (v : VRegs) : voiceSrcnPointer regs' v = voiceSrcnPointer regs v := by
  rw [voiceSrcnPointer, voiceSrcnPointer, srcnEffectiveAddr, srcnEffectiveAddr,
    dirpEffectiveAddr, dirpEffectiveAddr, hdir]

end SpuKit
