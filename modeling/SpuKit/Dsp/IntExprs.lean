import SpuKit.Dsp.Interpolation
import SpuKit.Dsp.EchoFir
import SpuKit.Dsp.Prediction
import SpuKit.Lib.CInt

/-!
# The integer expressions of a sample

Every expression a `next_sample` call evaluates on `int`, over the values it
finds in its variables. The expressions of all branches are listed: a call
evaluates those of the branches it takes. The value of each expression is what
the function it is taken from computes.

## Main definitions

- `VoiceVar`, `voiceExprs` — the expressions of `voice_run`
- `MixVar`, `mixExprs` — those of one channel of the echo filter and the mix
-/

namespace SpuKit

open CInt CInt.Expr

-- ════════════════════════════════════════════════════════════════════════
-- One voice
-- ════════════════════════════════════════════════════════════════════════

/-- What a call of `voice_run` computes with. -/
inductive VoiceVar where
  /-- the signed nibbles of a group, and what `brr_pair_scale` makes of them -/
  | nibble (k : Fin 4)
  | input (k : Fin 4)
  /-- the filter state and the cursor of the decoder -/
  | older
  | old
  | brrAddr
  | brrOff (k : Fin 2)
  /-- the taps and the samples of the interpolation, and its position -/
  | tap (j : Fin 4)
  | ring (j : Fin 4)
  | interpPos
  /-- the sample before and after the envelope, the level and the volumes -/
  | sample
  | env
  | scaled
  | volL
  | volR
  /-- the level that `run_envelope` steps, and its registers -/
  | level
  | adsr1
  | adsr2
  | gain
  /-- the position that the pitch moves on -/
  | cursor
  | pitch
  /-- what the directory entry is found with, and the high byte read from it -/
  | dir
  | srcn
  | srcnPtr
  | latchPtr
  | entryHi
  /-- the position in the ring, and the countdown after a key-on -/
  | bufPos
  | delay

abbrev voiceVar (x : VoiceVar) : Expr VoiceVar := .var x

section Brr

variable {ι : Type}

def coeff1Expr (p : Expr ι) : Expr ι := p + (-p) >>> 4

def coeff2Expr (p : Expr ι) : Expr ι := p <<< 1 + ((-p) * 3) >>> 5

def coeff3Expr (p : Expr ι) : Expr ι := p <<< 1 + ((-p) * 13) >>> 6

def coeff4Expr (p : Expr ι) : Expr ι := p + ((-p) * 3) >>> 4

def filter1Expr (s p : Expr ι) : Expr ι := s + coeff1Expr p

def filter2Expr (s p pp : Expr ι) : Expr ι := s + coeff2Expr p - coeff1Expr pp

def filter3Expr (s p pp : Expr ι) : Expr ι := s + coeff3Expr p - coeff4Expr pp

/-- `brr_pair_scale` -/
def pairScaleExpr (shift : Nat) (s : Expr ι) : Expr ι := (s <<< shift) >>> 1

/-- The predictions of a group, each over the unclamped ones before it. -/
def predictExprs (filter : Byte) : List (Expr VoiceVar) :=
  let s (k : Fin 4) := voiceVar (.input k)
  let old := voiceVar .old
  let older := voiceVar .older
  if filter = 0 <<< 2 then [s 0, s 1, s 2, s 3]
  else if filter = 1 <<< 2 then
    let a := filter1Expr (s 0) old
    let b := filter1Expr (s 1) a
    let c := filter1Expr (s 2) b
    let d := filter1Expr (s 3) c
    [a, b, c, d]
  else if filter = 2 <<< 2 then
    let a := filter2Expr (s 0) old older
    let b := filter2Expr (s 1) a old
    let c := filter2Expr (s 2) b a
    let d := filter2Expr (s 3) c b
    [a, b, c, d]
  else if filter = 3 <<< 2 then
    let a := filter3Expr (s 0) old older
    let b := filter3Expr (s 1) a old
    let c := filter3Expr (s 2) b a
    let d := filter3Expr (s 3) c b
    [a, b, c, d]
  else []

end Brr

section Exprs

/-- `clamp16` looks at the sign of what it clamps. -/
def clamped {ι : Type} (es : List (Expr ι)) : List (Expr ι) :=
  es ++ es.map (fun (e : Expr ι) => e >>> 31)

/-- `aram[st->brr_addr + st->brr_off++]` -/
def brrIndexExpr (k : Fin 2) : Expr VoiceVar := voiceVar .brrAddr + voiceVar (.brrOff k)

/-- `interpolate`, which accumulates its four products in `out`. -/
def interpolateExpr : Expr VoiceVar :=
  let product (j : Fin 4) : Expr VoiceVar := (voiceVar (.tap j) * voiceVar (.ring j)) >>> 11
  ((0 : Expr VoiceVar) + product 0 + product 1 + product 2 + product 3).clear 1

/-- `((sample * st->env) >> 11) & ~1` -/
def scaledExpr : Expr VoiceVar := ((voiceVar .sample * voiceVar .env) >>> 11).clear 1

/-- `sample_scale` -/
def scaleExpr {ι : Type} (sample scale : Expr ι) : Expr ι := (sample * scale) >>> 7

/-- The prospective level of `run_adsr_env`. -/
def adsrEnvExpr (mode : EnvState) (fastest : Bool) : Expr VoiceVar :=
  match mode with
  | .attack => if fastest then voiceVar .level + 0x400 else voiceVar .level + 0x20
  | .sustain | .decay => voiceVar .level - (voiceVar .level >>> 8 + 1)
  | .release => 0

/-- The rate of `run_adsr_env`. -/
def adsrRateExpr (mode : EnvState) : Expr VoiceVar :=
  match mode with
  | .attack => low (voiceVar .adsr1) 4 * 2 + 1
  | .sustain => low (voiceVar .adsr2) 5
  | .decay => (0x10 : Expr VoiceVar) + clear (low (voiceVar .adsr1 >>> 3) 4) 1
  | .release => 0

/-- The prospective levels of `run_gain_env`, by mode. -/
def gainEnvExprs : List (Expr VoiceVar) :=
  [voiceVar .gain * 0x10, voiceVar .level - 0x20, voiceVar .level - (voiceVar .level >>> 8 + 1),
    voiceVar .level + 0x20]

/-- `(st->interp_pos & 0x3fff) + st->pitch` -/
def cursorExpr : Expr VoiceVar := low (voiceVar .cursor) 14 + voiceVar .pitch

/-- What a voice reads and exposes: the interpolation, the envelope and the
    registers OUTX and ENVX. -/
def outputExprs : List (Expr VoiceVar) :=
  [voiceVar .interpPos >>> 12, voiceVar .interpPos >>> 4, interpolateExpr,
    voiceVar .sample >>> 8, scaledExpr, voiceVar .env >>> 4]

/-- All prospective levels of an envelope. -/
def levelExprs : List (Expr VoiceVar) :=
  [adsrEnvExpr .attack true, adsrEnvExpr .attack false, adsrEnvExpr .sustain false,
    adsrEnvExpr .decay false] ++ gainEnvExprs

/-- `run_envelope` in all modes: rates, prospective levels, the test against the
    sustain level and the release step. -/
def envelopeExprs : List (Expr VoiceVar) :=
  [adsrRateExpr .attack, adsrRateExpr .sustain, adsrRateExpr .decay, low (voiceVar .gain) 5] ++
    levelExprs ++ levelExprs.map (fun (e : Expr VoiceVar) => e >>> 8) ++ [voiceVar .level - 8]

/-- `brr_sample4` with all filters and shifts. -/
def decodeExprs : List (Expr VoiceVar) :=
  (List.finRange 2).map brrIndexExpr ++
    ((List.range 13).flatMap fun shift =>
      (List.finRange 4).map fun k => pairScaleExpr shift (voiceVar (.nibble k))) ++
    clamped ([0 <<< 2, 1 <<< 2, 2 <<< 2, 3 <<< 2].flatMap predictExprs)

/-- The addresses and the countdown, promoted to `int`. -/
def addressExprs : List (Expr VoiceVar) :=
  [voiceVar .dir <<< 8 + voiceVar .srcn <<< 2, voiceVar .srcnPtr + 2, voiceVar .latchPtr + 1,
    voiceVar .entryHi <<< 8, voiceVar .brrAddr + 9, voiceVar .delay - 1]

/-- The indices of the ring, promoted to `int`: those of `interpolate` with
    `wrap12`, of `vfilter_state` and of the stores. -/
def ringExprs : List (Expr VoiceVar) :=
  let window : Expr VoiceVar := voiceVar .bufPos + low (voiceVar .interpPos >>> 12) 3
  ((List.finRange 4).flatMap fun k =>
    [low window 8 + .lit k, low (low window 8 + .lit k) 8 - 12, voiceVar .bufPos + .lit k]) ++
  [voiceVar .bufPos - 2, voiceVar .bufPos - 1, voiceVar .bufPos + 4]

/-- All expressions of `voice_run`. -/
def voiceExprs : List (Expr VoiceVar) :=
  outputExprs ++ envelopeExprs ++ decodeExprs ++ addressExprs ++ ringExprs ++
    [cursorExpr, scaleExpr (voiceVar .scaled) (voiceVar .volL),
      scaleExpr (voiceVar .scaled) (voiceVar .volR)]

end Exprs

-- ════════════════════════════════════════════════════════════════════════
-- The mix
-- ════════════════════════════════════════════════════════════════════════

/-- A channel of the output. -/
inductive Side where
  | left
  | right

namespace Side

def both : List Side := [.left, .right]

def of : Side → Sample → Short
  | left => Sample.left
  | right => Sample.right

def mvol : Side → Fin 0x80
  | left => regMvolL
  | right => regMvolR

def evol : Side → Fin 0x80
  | left => regEvolL
  | right => regEvolR

/-- Where the echo buffer keeps the channel. -/
def echoAddr (d : Dsp) : Side → Word
  | left => echoPointer d + 0
  | right => echoPointer d + 2

end Side

/-- What one channel of the echo filter and the mix computes with. -/
inductive MixVar where
  /-- the word read from the echo buffer, the history and the coefficients -/
  | word
  | hist (i : Fin 8)
  | coeff (i : Fin 8)
  /-- the voice sum and the echo sample, and their volumes as registers and as
      `int8_t` -/
  | main
  | echo
  | mvolReg
  | evolReg
  | mvol
  | evol
  /-- the echo sum of the voices, and the feedback volume -/
  | send
  | efb
  /-- what the echo pointer and length are computed from, the high byte read
      there and the word written back -/
  | esa
  | echoOffset
  | edl
  | echoAddr
  | wordHi
  | written
  /-- the position in the history -/
  | histPos

abbrev mixVar (x : MixVar) : Expr MixVar := .var x

/-- The two samples of `sample_blend`, on one channel. -/
inductive BlendVar where
  | a
  | b

section MixExprs

def blendExpr : Expr BlendVar := .var .a + .var .b

/-- The eight steps of the echo filter. -/
def firExpr : Expr MixVar :=
  let product (i : Fin 8) : Expr MixVar := (mixVar (.hist i) * mixVar (.coeff i)) >>> 6
  product 0 + product 1 + product 2 + product 3 + product 4 + product 5 + product 6 + product 7

/-- The blend of the main and the echo sample. -/
def masterMixExpr : Expr MixVar :=
  scaleExpr (mixVar .main) (mixVar .mvol) + scaleExpr (mixVar .echo) (mixVar .evol)

/-- `sample_blend_scale8` -/
def feedbackExpr : Expr MixVar := mixVar .send + scaleExpr (mixVar .echo) (mixVar .efb)

/-- The addresses, the echo length and the position in the history, promoted to
    `int`. -/
def echoExprs : List (Expr MixVar) :=
  [mixVar .esa * 0x100 + mixVar .echoOffset, mixVar .echoAddr + 2, mixVar .echoAddr + 1,
    mixVar .wordHi <<< 8, mixVar .written >>> 8, low (mixVar .edl) 4 * 0x800,
    mixVar .echoOffset + 4, mixVar .histPos + 1] ++
  (List.finRange 9).map fun depth => mixVar .histPos + .lit depth

/-- All expressions behind the voices, on one channel. -/
def mixExprs : List (Expr MixVar) :=
  echoExprs ++ [mixVar .word >>> 1, mixVar .mvolReg <<< 4, mixVar .evolReg <<< 4] ++
  clamped [firExpr, masterMixExpr, feedbackExpr]

end MixExprs

end SpuKit
