import SpuKit.Dsp.Voice
import Mathlib.Data.List.FinRange

/-!
# One sample of the DSP

Translated from the echo functions and from `next_sample` of `dsp.c`, which
polls the keys, steps the rate counters, runs the eight voices, filters the
echo buffer and writes the feedback back into it.

## Main definitions

- `pollKeys` — the KON/KOFF poll on every other sample
- `runVoices` — the voice loop
- `calcFir`, `echoFilter` — the echo filter
- `advanceEcho` — latch ESA and EDL and move the echo offset on
- `finishSample` — everything after the voices
- `nextSample` — `next_sample`
-/

namespace SpuKit

def sampleAccumulate (a b : FatSample) : FatSample := ⟨a.left + b.left, a.right + b.right⟩

def sampleClamp (a : FatSample) : Sample := ⟨clamp16 a.left, clamp16 a.right⟩

def sampleBlend (a b : Sample) : Sample where
  left := clamp16 (a.left.toInt + b.left.toInt)
  right := clamp16 (a.right.toInt + b.right.toInt)

def sampleBlendScale8 (a b : Sample) (scale : Byte) : Sample where
  left := clamp16 (a.left.toInt + sampleScale b.left.toInt scale)
  right := clamp16 (a.right.toInt + sampleScale b.right.toInt scale)

/-- `sample.left &= ~1; sample.right &= ~1` -/
def dropLowBit (a : Sample) : Sample := ⟨a.left &&& ~~~1, a.right &&& ~~~1⟩

def echoReadL (m : Mem) (d : Dsp) : Traced Event Word := do
  let val ← (readAramWord m (d.echoPtr + 0)).tag .aram
  Traced.emit (.echoReadL val)
  pure val

def echoReadR (m : Mem) (d : Dsp) : Traced Event Word := do
  let val ← (readAramWord m (d.echoPtr + 2)).tag .aram
  Traced.emit (.echoReadR val)
  pure val

def echoWriteL (m : Mem) (d : Dsp) (val : Short) : Traced Event Mem := do
  if d.echoEnabled then
    Traced.emit (.echoWriteL val)
    (writeAramWord m (d.echoPtr + 0) val).tag .aram
  else pure m

def echoWriteR (m : Mem) (d : Dsp) (val : Short) : Traced Event Mem := do
  if d.echoEnabled then
    Traced.emit (.echoWriteR val)
    (writeAramWord m (d.echoPtr + 2) val).tag .aram
  else pure m

/-- `(echo_hist_pos + depth) % ECHO_HIST_SIZE` -/
def echoHistIndex (d : Dsp) (depth : Nat) : Fin 8 := Fin.ofNat 8 (d.echoHistPos.toNat + depth)

def firWriteL (d : Dsp) (val : Short) : Dsp :=
  let k := echoHistIndex d 0
  { d with
    echoHist := Function.update d.echoHist k
      { d.echoHist k with left := toShort (val.toInt >>> (1 : Nat)) } }

def firWriteR (d : Dsp) (val : Short) : Dsp :=
  let k := echoHistIndex d 0
  { d with
    echoHist := Function.update d.echoHist k
      { d.echoHist k with right := toShort (val.toInt >>> (1 : Nat)) } }

def firReadL (d : Dsp) (depth : Nat) : Short := (d.echoHist (echoHistIndex d depth)).left

def firReadR (d : Dsp) (depth : Nat) : Short := (d.echoHist (echoHistIndex d depth)).right

def calcFir (d : Dsp) (i : Channel) : FatSample :=
  let coeff := d.regs (regCoeff i)
  { left := ((firReadL d (i.val + 1)).toInt * coeff.toInt) >>> (6 : Nat)
    right := ((firReadR d (i.val + 1)).toInt * coeff.toInt) >>> (6 : Nat) }

/-- Poll KON and KOFF every other sample. -/
def pollKeys (d : Dsp) : Dsp :=
  let d := { d with toggle := !d.toggle }
  if d.toggle = false then
    { d with kon := d.regs regKon &&& ~~~d.kon, koff := d.regs regKoff }
  else d

/-- The voice loop: run the listed voices in turn and blend their samples into
    the main and the echo sum. -/
def runVoices (m : Mem) : List Channel → Sample → Sample → Dsp →
    Traced Event (Sample × Sample × Dsp)
  | [], mainOut, echoOut, d => pure (mainOut, echoOut, d)
  | i :: is, mainOut, echoOut, d => do
    let (vsample, d) ← (voiceRun m i d).tag (.voice i)
    let mainOut := sampleBlend mainOut vsample
    let echoOut :=
      if d.eon &&& channelBit i ≠ 0 then sampleBlend echoOut vsample else echoOut
    runVoices m is mainOut echoOut d

/-- Cycles 22 to 25: read the echo buffer and run the eight FIR steps. The new
    right sample enters the history after steps 0, 1 and 2. -/
def echoFilter (m : Mem) (d : Dsp) : Traced Event (Sample × Dsp) := do
  let d := { d with echoHistPos := d.echoHistPos + 1 }
  let d := if d.echoHistPos.toNat ≥ echoHistSize then { d with echoHistPos := 0 } else d
  let d := { d with echoPtr := d.esa.setWidth 16 * 0x100 + d.echoOffset }
  let left ← echoReadL m d
  let d := firWriteL d left
  let echoIn := calcFir d 0
  let echoIn := sampleAccumulate echoIn (calcFir d 1)
  let echoIn := sampleAccumulate echoIn (calcFir d 2)
  let right ← echoReadR m d
  let d := firWriteR d right
  let echoIn := sampleAccumulate echoIn (calcFir d 3)
  let echoIn := sampleAccumulate echoIn (calcFir d 4)
  let echoIn := sampleAccumulate echoIn (calcFir d 5)
  let echoIn := sampleAccumulate echoIn (calcFir d 6)
  let echoIn := sampleAccumulate echoIn (calcFir d 7)
  pure (dropLowBit (sampleClamp echoIn), d)

/-- `echo_enabled = !(regs[REG_FLG] & FLG_ECHO_DISABLED)` -/
def latchEchoEnabled (d : Dsp) : Dsp :=
  { d with echoEnabled := d.regs regFlg &&& flgEchoDisabled == 0 }

/-- Cycle 29: latch ESA, latch EDL at the start of the buffer and move the
    offset on. -/
def advanceEcho (d : Dsp) : Dsp :=
  let d := { d with esa := d.regs regEsa }
  let d :=
    if d.echoOffset = 0 then
      { d with echoLength := (d.regs regEdl &&& 0xf).setWidth 16 * 0x800 }
    else d
  let d := { d with echoOffset := d.echoOffset + 4 }
  if d.echoOffset.toNat ≥ d.echoLength.toNat then { d with echoOffset := 0 } else d

/-- Cycles 28 to 30: latch EON, ESA and EDL and write the feedback pair. -/
def echoWriteBack (m : Mem) (echoOut : Sample) (d : Dsp) : Traced Event (Mem × Dsp) := do
  let d := { d with eon := d.regs regEon }
  let d := latchEchoEnabled d
  let d := advanceEcho d
  let m ← echoWriteL m d echoOut.left
  let d := latchEchoEnabled d
  let m ← echoWriteR m d echoOut.right
  pure (m, d)

/-- Blend the main and the echo sample of one side with the master volumes,
    whose registers are shifted into an `int8_t`. -/
def masterMix (main echo : Short) (mvol evol : Byte) : Int :=
  sampleScale main.toInt (mvol <<< 4) + sampleScale echo.toInt (evol <<< 4)

/-- Cycles 22 to 30: the echo filter, the master mix and the echo feedback. -/
def finishSample (m : Mem) (mainOut echoOut : Sample) (d : Dsp) :
    Traced Event (Sample × Mem × Dsp) := do
  let (echoSample, d) ← echoFilter m d
  let l := masterMix mainOut.left echoSample.left (d.regs regMvolL) (d.regs regEvolL)
  let echoOut := sampleBlendScale8 echoOut echoSample (d.regs regEfb)
  let echoOut := dropLowBit echoOut
  let r := masterMix mainOut.right echoSample.right (d.regs regMvolR) (d.regs regEvolR)
  let mute := d.regs regFlg &&& flgMute ≠ 0
  let l := if mute then 0 else l
  let r := if mute then 0 else r
  let (m, d) ← echoWriteBack m echoOut d
  pure (⟨clamp16 l, clamp16 r⟩, m, d)

def nextSample (m : Mem) (d : Dsp) : Traced Event (Sample × Mem × Dsp) := do
  let d := pollKeys d
  let d := { d with ctr := ctrRun d.ctr }
  let (mainOut, echoOut, d) ← runVoices m (List.finRange 8) silence silence d
  finishSample m mainOut echoOut d

end SpuKit
