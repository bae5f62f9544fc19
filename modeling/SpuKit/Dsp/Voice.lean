import SpuKit.Dsp.Brr
import SpuKit.Dsp.Envelope

/-!
# One voice for one sample

Translated from `interpolate`, `pan` and `voice_run` of `dsp.c`. The body of
`voice_run` is cut at its clock comments into named stages; `voiceRun` runs
them in the order of the source.

## Main definitions

- `interpolate` — four-point gaussian interpolation over the ring
- `voiceFetch`, `voiceAttackDelay`, `voiceSample`, `voiceReset`, `voiceKeys`,
  `voiceEnvelope`, `voiceDecode`, `voiceApplyPitch`, `voiceEndx` — the stages
- `voiceRun` — `voice_run`
-/

namespace SpuKit

/-- `gauss` -/
def gaussTable : Array Int :=
  #[0,    0,    0,    0,    0,    0,    0,    0,    0,    0,    0,    0,    0,    0,    0,    0,
       1,    1,    1,    1,    1,    1,    1,    1,    1,    1,    1,    2,    2,    2,    2,    2,
       2,    2,    3,    3,    3,    3,    3,    4,    4,    4,    4,    4,    5,    5,    5,    5,
       6,    6,    6,    6,    7,    7,    7,    8,    8,    8,    9,    9,    9,   10,   10,   10,
      11,   11,   11,   12,   12,   13,   13,   14,   14,   15,   15,   15,   16,   16,   17,   17,
      18,   19,   19,   20,   20,   21,   21,   22,   23,   23,   24,   24,   25,   26,   27,   27,
      28,   29,   29,   30,   31,   32,   32,   33,   34,   35,   36,   36,   37,   38,   39,   40,
      41,   42,   43,   44,   45,   46,   47,   48,   49,   50,   51,   52,   53,   54,   55,   56,
      58,   59,   60,   61,   62,   64,   65,   66,   67,   69,   70,   71,   73,   74,   76,   77,
      78,   80,   81,   83,   84,   86,   87,   89,   90,   92,   94,   95,   97,   99,  100,  102,
     104,  106,  107,  109,  111,  113,  115,  117,  118,  120,  122,  124,  126,  128,  130,  132,
     134,  137,  139,  141,  143,  145,  147,  150,  152,  154,  156,  159,  161,  163,  166,  168,
     171,  173,  175,  178,  180,  183,  186,  188,  191,  193,  196,  199,  201,  204,  207,  210,
     212,  215,  218,  221,  224,  227,  230,  233,  236,  239,  242,  245,  248,  251,  254,  257,
     260,  263,  267,  270,  273,  276,  280,  283,  286,  290,  293,  297,  300,  304,  307,  311,
     314,  318,  321,  325,  328,  332,  336,  339,  343,  347,  351,  354,  358,  362,  366,  370,
     374,  378,  381,  385,  389,  393,  397,  401,  405,  410,  414,  418,  422,  426,  430,  434,
     439,  443,  447,  451,  456,  460,  464,  469,  473,  477,  482,  486,  491,  495,  499,  504,
     508,  513,  517,  522,  527,  531,  536,  540,  545,  550,  554,  559,  563,  568,  573,  577,
     582,  587,  592,  596,  601,  606,  611,  615,  620,  625,  630,  635,  640,  644,  649,  654,
     659,  664,  669,  674,  678,  683,  688,  693,  698,  703,  708,  713,  718,  723,  728,  732,
     737,  742,  747,  752,  757,  762,  767,  772,  777,  782,  787,  792,  797,  802,  806,  811,
     816,  821,  826,  831,  836,  841,  846,  851,  855,  860,  865,  870,  875,  880,  884,  889,
     894,  899,  904,  908,  913,  918,  923,  927,  932,  937,  941,  946,  951,  955,  960,  965,
     969,  974,  978,  983,  988,  992,  997, 1001, 1005, 1010, 1014, 1019, 1023, 1027, 1032, 1036,
    1040, 1045, 1049, 1053, 1057, 1061, 1066, 1070, 1074, 1078, 1082, 1086, 1090, 1094, 1098, 1102,
    1106, 1109, 1113, 1117, 1121, 1125, 1128, 1132, 1136, 1139, 1143, 1146, 1150, 1153, 1157, 1160,
    1164, 1167, 1170, 1174, 1177, 1180, 1183, 1186, 1190, 1193, 1196, 1199, 1202, 1205, 1207, 1210,
    1213, 1216, 1219, 1221, 1224, 1227, 1229, 1232, 1234, 1237, 1239, 1241, 1244, 1246, 1248, 1251,
    1253, 1255, 1257, 1259, 1261, 1263, 1265, 1267, 1269, 1270, 1272, 1274, 1275, 1277, 1279, 1280,
    1282, 1283, 1284, 1286, 1287, 1288, 1290, 1291, 1292, 1293, 1294, 1295, 1296, 1297, 1297, 1298,
    1299, 1300, 1300, 1301, 1302, 1302, 1303, 1303, 1303, 1304, 1304, 1304, 1304, 1304, 1305, 1305]

/-- `gauss[index]` -/
def gauss (index : Int) : Traced VoiceEvent Int :=
  ⟨gaussTable.getD index.toNat 0, [.gauss index]⟩

def wrap12 (val : Byte) : Traced VoiceEvent Byte := do
  Traced.emit (.assertion (val.toNat ≤ 8 + 7 + 3))
  pure (if val.toNat ≥ 12 then val - 12 else val)

/-- `st->buf[wrap12(index)]` -/
def bufLoadWrapped (st : VState) (index : Byte) : Traced VoiceEvent Short := do
  let w ← wrap12 index
  bufLoad st w.toNat

/-- `interpolate`. The pointers `fwd` and `rev` are kept as indices into
    `gauss`. -/
def interpolate (st : VState) : Traced VoiceEvent Int := do
  let interpHi := toByte (st.interpPos >>> (12 : Nat)) &&& 0x7
  let interpMid := toByte (st.interpPos >>> (4 : Nat))
  let bufPos := st.bufPos + interpHi
  let fwd : Int := 255 - interpMid.toNat
  let rev : Int := interpMid.toNat
  let in0 ← bufLoadWrapped st (bufPos + 0)
  let in1 ← bufLoadWrapped st (bufPos + 1)
  let in2 ← bufLoadWrapped st (bufPos + 2)
  let in3 ← bufLoadWrapped st (bufPos + 3)
  Traced.emit (.interpolate st.interpPos [in0, in1, in2, in3])
  let g0 ← gauss (fwd + 0)
  let g1 ← gauss (fwd + 256)
  let g2 ← gauss (rev + 256)
  let g3 ← gauss (rev + 0)
  let out := (g0 * in0.toInt) >>> (11 : Nat)
  let out := out + (g1 * in1.toInt) >>> (11 : Nat)
  let out := out + (g2 * in2.toInt) >>> (11 : Nat)
  let out := out + (g3 * in3.toInt) >>> (11 : Nat)
  pure (out - out % 2) -- `out & ~1`

/-- `sample_scale`: the scale is an `int8_t`. -/
def sampleScale (sample : Int) (scale : Byte) : Int := (sample * scale.toInt) >>> (7 : Nat)

def pan (sample : Int) (volL volR : Byte) : Sample where
  left := toShort (sampleScale sample volL)
  right := toShort (sampleScale sample volR)

/-- Cycles 1 to 3b: latch the directory word, the pitch and the block header.
    The word is the loop address once the attack delay is over. -/
def voiceFetch (m : Mem) (regs : Regs) (i : Channel) (st : VState) :
    Traced VoiceEvent VState := do
  let v := voice regs i
  let st := { st with srcnPtr := voiceSrcnPointer regs v }
  let st := if st.attackDelay = 0 then { st with srcnPtr := st.srcnPtr + 2 } else st
  let nextBrrAddr ← (readAramWord m st.srcnPtr).tag .aram
  let st := { st with nextBrrAddr := nextBrrAddr }
  let st := { st with pitch := voicePitch v }
  let brrHdr ← (readAramByte m st.brrAddr).tag .aram
  pure { st with brrHdr := brrHdr }

/-- Cycle 3c: the countdown after a key-on. -/
def voiceAttackDelay (st : VState) : VState :=
  if st.attackDelay ≠ 0 then
    let st :=
      if st.attackDelay = 5 then
        { st with brrAddr := st.nextBrrAddr, brrOff := 1, bufPos := 0, brrHdr := 0 }
      else st
    let st := { st with attackDelay := st.attackDelay - 1 }
    let st :=
      if st.attackDelay.toNat ≤ 3 then { st with interpPos := 0x4000 }
      else { st with interpPos := 0 }
    { st with pitch := 0, env := 0 }
  else st

/-- Interpolate, apply the envelope and expose OUTX and ENVX. Noise is not
    implemented by the source and yields 0. -/
def voiceSample (regs : Regs) (i : Channel) (st : VState) :
    Traced VoiceEvent (Short × Regs) := do
  if st.env ≠ 0 then
    let sample ←
      if regs regNon &&& channelBit i ≠ 0 then pure 0
      else do
        let out ← interpolate st
        pure (toShort out)
    let regs := Function.update regs (vreg i vregOutx) (toByte (sample.toInt >>> (8 : Nat)))
    let scaled := (sample.toInt * st.env) >>> (11 : Nat)
    let sample := toShort (scaled - scaled % 2) -- `& ~1`
    let regs := Function.update regs (vreg i vregEnvx) (toByte (st.env >>> (4 : Nat)))
    pure (sample, regs)
  else
    let regs := Function.update regs (vreg i vregOutx) 0
    let regs := Function.update regs (vreg i vregEnvx) 0
    pure (0, regs)

/-- Does FLG reset the voice, or does its block end without a loop? -/
def voiceCut (regs : Regs) (st : VState) : Prop :=
  regs regFlg &&& flgSoftReset ≠ 0 ∨ st.brrHdr &&& brrFlags = brrEnd

instance (regs : Regs) (st : VState) : Decidable (voiceCut regs st) :=
  inferInstanceAs (Decidable (_ ∨ _))

/-- Output silence due to reset or end of sample. -/
def voiceReset (regs : Regs) (st : VState) : VState :=
  if voiceCut regs st then { st with envMode := .release, env := 0 } else st

/-- KOFF and KON, looked at on the samples that polled them. -/
def voiceKeys (d : Dsp) (i : Channel) (st : VState) : Traced VoiceEvent VState := do
  if d.toggle = false then
    let st :=
      if d.koff &&& channelBit i ≠ 0 then
        (if st.envMode ≠ .release then { st with envMode := .release } else st)
      else st
    if d.kon &&& channelBit i ≠ 0 then
      Traced.emit .keyOn
      pure { st with envMode := .attack, attackDelay := 5 }
    else pure st
  else pure st

/-- Run the envelope when the attack delay is over; the flag tells whether the
    call returns silence here. -/
def voiceEnvelope (ctr : Counters) (regs : Regs) (i : Channel) (st : VState) :
    Traced VoiceEvent (VState × Bool) := do
  if st.attackDelay = 0 then
    let v := voice regs i
    let st ← runEnvelope ctr st v.adsr1 v.adsr2 v.gain
    if st.envMode = .release ∧ st.env = 0 then
      Traced.emit .silent
      pure (st, true)
    else pure (st, false)
  else pure (st, false)

/-- Cycle 4: decode the next group when the cursor has used one up, and go to
    the next block at the end of this one. -/
def voiceDecode (m : Mem) (regs : Regs) (i : Channel) (st : VState) :
    Traced VoiceEvent (VState × Regs) := do
  if st.interpPos ≥ 0x4000 then
    let st ← brrSample4 m st
    if st.brrOff.toNat ≥ brrBlockSize.toNat then
      let st := { st with brrAddr := st.brrAddr + brrBlockSize.setWidth 16 }
      if st.brrHdr &&& brrEnd ≠ 0 then
        let st := { st with brrAddr := st.nextBrrAddr }
        let regs := Function.update regs regEndx (regs regEndx ||| channelBit i)
        pure ({ st with brrOff := 1 }, regs)
      else pure ({ st with brrOff := 1 }, regs)
    else pure (st, regs)
  else pure (st, regs)

/-- Move the cursor on by the pitch. -/
def voiceApplyPitch (st : VState) : VState :=
  let st := { st with interpPos := st.interpPos % 0x4000 + st.pitch.toNat } -- `& 0x3fff`
  if st.interpPos > 0x7fff then { st with interpPos := 0x7fff } else st

/-- Cycle 5: a key-on clears the voice's ENDX bit. -/
def voiceEndx (regs : Regs) (i : Channel) (st : VState) : Regs :=
  if st.attackDelay = 5 then
    Function.update regs regEndx (regs regEndx &&& ~~~(channelBit i))
  else regs

def voiceRun (m : Mem) (i : Channel) (d : Dsp) : Traced VoiceEvent (Sample × Dsp) := do
  let st := d.vstate i
  let st ← voiceFetch m d.regs i st
  let st := voiceAttackDelay st
  let (sample, regs) ← voiceSample d.regs i st
  let st := voiceReset regs st
  let st ← voiceKeys d i st
  let (st, silent) ← voiceEnvelope d.ctr regs i st
  if silent then
    pure (silence, { d with regs := regs, vstate := Function.update d.vstate i st })
  else
    let (st, regs) ← voiceDecode m regs i st
    let st := voiceApplyPitch st
    let regs := voiceEndx regs i st
    let v := voice regs i
    pure (pan sample.toInt v.volL v.volR,
      { d with regs := regs, vstate := Function.update d.vstate i st })

end SpuKit
