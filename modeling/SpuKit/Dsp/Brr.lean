import SpuKit.Dsp.State

/-!
# BRR decoding

A voice decodes its compressed samples four at a time into a ring of twelve.
Translated from the `brr_*` functions of `dsp.c`.

## Main definitions

- `brrByte` — fetch one data byte; the index is an `int`, not a `uint16_t`
- `brrPredict` — the four predictions of one group, chained without clamping
- `brrSample4` — decode one group into the ring
-/

namespace SpuKit

def brrBlockSize : Byte := 9

def brrEnd : Byte := 0x01

/-- `BRR_FLAGS`, i.e. `BRR_END | BRR_LOOP` -/
def brrFlags : Byte := 0x03

/-- `struct brr_pair` -/
structure BrrPair where
  s0 : Short
  s1 : Short

/-- `brr_pair_extract`: the signed nibbles of a byte, high one first. -/
def brrPairExtract (byte : Byte) : BrrPair where
  s0 := (byte.extractLsb' 4 4).signExtend 16
  s1 := (byte.extractLsb' 0 4).signExtend 16

def brrPairScale (pair : BrrPair) (shift : Nat) : BrrPair where
  s0 := toShort ((pair.s0.toInt <<< shift) >>> (1 : Nat))
  s1 := toShort ((pair.s1.toInt <<< shift) >>> (1 : Nat))

/-- `struct brr_filter_state` -/
structure BrrFilterState where
  older : Short
  old : Short

/-- multiply by 15/16 -/
def coeff1Mul (p : Int) : Int := p + ((-p) >>> (4 : Nat))

/-- multiply by 61/32 -/
def coeff2Mul (p : Int) : Int := (p <<< (1 : Nat)) + (((-p) * 3) >>> (5 : Nat))

/-- multiply by 115/64 -/
def coeff3Mul (p : Int) : Int := (p <<< (1 : Nat)) + (((-p) * 13) >>> (6 : Nat))

/-- multiply by 13/16 -/
def coeff4Mul (p : Int) : Int := p + (((-p) * 3) >>> (4 : Nat))

def brrFilter1 (s p : Int) : Int := s + coeff1Mul p

def brrFilter2 (s p pp : Int) : Int := s + coeff2Mul p - coeff1Mul pp

def brrFilter3 (s p pp : Int) : Int := s + coeff3Mul p - coeff4Mul pp

/-- `st->buf[index]` -/
def bufLoad (st : VState) (index : Int) : Traced VoiceEvent Short :=
  ⟨if h : index.toNat < 12 then st.buf ⟨index.toNat, h⟩ else 0, [.ring index]⟩

/-- `st->buf[index] = val` -/
def bufStore (st : VState) (index : Int) (val : Short) : Traced VoiceEvent VState :=
  ⟨if h : index.toNat < 12 then
      { st with buf := Function.update st.buf ⟨index.toNat, h⟩ val }
    else st,
    [.ring index]⟩

/-- `aram[st->brr_addr + st->brr_off++]`: the sum is an `int` and is not
    reduced to 16 bits. -/
def brrByte (m : Mem) (st : VState) : Traced VoiceEvent (Byte × VState) :=
  let index := st.brrAddr.toNat + st.brrOff.toNat
  ⟨(m.load index, { st with brrOff := st.brrOff + 1 }), [.brrByte index]⟩

/-- `vfilter_state`: the two samples decoded last. -/
def vfilterState (st : VState) : Traced VoiceEvent BrrFilterState := do
  if st.bufPos ≠ 0 then
    let older ← bufLoad st (st.bufPos.toNat - 2)
    let old ← bufLoad st (st.bufPos.toNat - 1)
    pure ⟨older, old⟩
  else
    let older ← bufLoad st (brrBufSz - 2)
    let old ← bufLoad st (brrBufSz - 1)
    pure ⟨older, old⟩

/-- The switch of `brr_sample4` on the filter: the four predictions `a b c d`
    of the group, each computed from the unclamped ones before it. -/
def brrPredict (filter : Byte) (in0 in1 : BrrPair) (prev : BrrFilterState) :
    Traced VoiceEvent (Int × Int × Int × Int) :=
  let s0 := in0.s0.toInt
  let s1 := in0.s1.toInt
  let s2 := in1.s0.toInt
  let s3 := in1.s1.toInt
  let old := prev.old.toInt
  let older := prev.older.toInt
  if filter = 0 <<< 2 then
    pure (s0, s1, s2, s3)
  else if filter = 1 <<< 2 then
    let a := brrFilter1 s0 old
    let b := brrFilter1 s1 a
    let c := brrFilter1 s2 b
    let d := brrFilter1 s3 c
    pure (a, b, c, d)
  else if filter = 2 <<< 2 then
    let a := brrFilter2 s0 old older
    let b := brrFilter2 s1 a old
    let c := brrFilter2 s2 b a
    let d := brrFilter2 s3 c b
    pure (a, b, c, d)
  else if filter = 3 <<< 2 then
    let a := brrFilter3 s0 old older
    let b := brrFilter3 s1 a old
    let c := brrFilter3 s2 b a
    let d := brrFilter3 s3 c b
    pure (a, b, c, d)
  else unreachable (0, 0, 0, 0)

/-- The tail of `brr_sample4`: store the four clamped samples and move the
    ring position on. -/
def brrStore4 (st : VState) (a b c d : Int) : Traced VoiceEvent VState := do
  let st ← bufStore st (st.bufPos.toNat + 0) (clamp16 a)
  let st ← bufStore st (st.bufPos.toNat + 1) (clamp16 b)
  let st ← bufStore st (st.bufPos.toNat + 2) (clamp16 c)
  let st ← bufStore st (st.bufPos.toNat + 3) (clamp16 d)
  Traced.emit (.stored [clamp16 a, clamp16 b, clamp16 c, clamp16 d])
  let st := { st with bufPos := st.bufPos + 4 }
  pure (if st.bufPos.toNat ≥ brrBufSz then { st with bufPos := 0 } else st)

def brrSample4 (m : Mem) (st : VState) : Traced VoiceEvent VState := do
  Traced.emit (.decode st.brrAddr st.brrOff)
  let filter := st.brrHdr &&& (0x03 <<< 2)
  let scale := (st.brrHdr >>> 4).toNat
  let shift := if scale > 12 then 12 else scale
  let prev ← vfilterState st
  let (byte0, st) ← brrByte m st
  let (byte1, st) ← brrByte m st
  let in0 := brrPairScale (brrPairExtract byte0) shift
  let in1 := brrPairScale (brrPairExtract byte1) shift
  let (a, b, c, d) ← brrPredict filter in0 in1 prev
  brrStore4 st a b c d

end SpuKit
