import SpuKit.CTypes
import Mathlib.Data.Fin.VecNotation

/-!
# Rate counters

Envelope rates are paced by three free running counters behind prescalers of
period 1, 3 and 5. Translated from the `ctr_*` tables and functions of `dsp.c`.
-/

namespace SpuKit

/-- `ctr_internal` and `ctr_out` -/
@[ext]
structure Counters where
  internal : Fin 3 → Byte
  out : Fin 3 → BitVec 32

/-- `ctr_number`: which counter paces a rate. Rate 0 has none. -/
def ctrNumber : Fin 32 → Byte :=
  ![0xff,
       0, 1,
    2, 0, 1,
    2, 0, 1,
    2, 0, 1,
    2, 0, 1,
    2, 0, 1,
    2, 0, 1,
    2, 0, 1,
    2, 0, 1,
    2, 0, 1,
       0,
       0]

/-- `ctr_mask`: the rate fires when the masked counter is zero. -/
def ctrMask : Fin 32 → Word :=
  ![0,
           0x7ff, 0x1ff,
    0x0ff, 0x3ff, 0x0ff,
    0x07f, 0x1ff, 0x07f,
    0x03f, 0x0ff, 0x03f,
    0x01f, 0x07f, 0x01f,
    0x00f, 0x03f, 0x00f,
    0x007, 0x01f, 0x007,
    0x003, 0x00f, 0x003,
    0x001, 0x007, 0x001,
    0x000, 0x003, 0x000,
           0x001,
           0x000]

/-- `ctr_rate`: the prescaler period of each counter. -/
def ctrRate : Fin 3 → Byte := ![1, 3, 5]

def ctrInternalInit : Fin 3 → Byte := ![1, 2, 3]

/-- `{0, -347, -107}` as unsigned integers -/
def ctrInitial : Fin 3 → BitVec 32 := ![0, -347, -107]

def ctrInit : Counters where
  internal := ctrInternalInit
  out := ctrInitial

/-- Count down the prescaler of a counter and step the counter when it
    reaches zero. -/
def ctrPrescale (k : Fin 3) (period : Byte) (c : Counters) : Counters :=
  let c := { c with internal := Function.update c.internal k (c.internal k - 1) }
  if c.internal k = 0 then
    { internal := Function.update c.internal k period
      out := Function.update c.out k (c.out k + 1) }
  else c

def ctrRun (c : Counters) : Counters :=
  let c := { c with out := Function.update c.out 0 (c.out 0 + 1) }
  let c := ctrPrescale 1 3 c
  ctrPrescale 2 5 c

/-- `ctr_read`: does the rate fire on this sample? The tables have 32 entries;
    callers record the rate they pass. -/
def ctrRead (c : Counters) (rate : Nat) : Bool :=
  let rate := Fin.ofNat 32 rate
  let ctrNr := Fin.ofNat 3 (ctrNumber rate).toNat
  if rate = 0 then false
  else if c.out ctrNr &&& (ctrMask rate).setWidth 32 ≠ 0 then false
  else c.internal ctrNr == ctrRate ctrNr

end SpuKit
