import SpuKit.Spc700.Handlers

/-!
# The CPU loop

The table of the handlers and the loop of `spc700_run_forever`. The count of the
cycles is the only variable of the loop; after every fourth instruction it
updates the clocks of the APU.

## Main definitions

- `opcodeTbl` — the handlers by opcode, nothing where the source has `NULL`
- `iteration` — one round of the loop
- `runInsns` — a number of rounds
-/

namespace SpuKit.Spc700

/-- `opcode_tbl` -/
def opcodeTbl : List (Option (Insn Unit)) := [
  -- 0x00
  some insnNop, some insnTcall0, some insnSetDb0, some insnBbsDb0, some insnOrADp,
  some insnOrAAbs, some insnOrAIx, some insnOrADxInd, some insnOrAImm, some insnOrDpDp,
  some insnOr1, some insnAslDp, some insnAslAbs, some insnPushPsw, some insnTset1Abs, none,
  -- 0x10
  some insnBpl, some insnTcall1, some insnClrDb0, some insnBbcDb0, some insnOrADpx,
  some insnOrAAbsx, some insnOrAAbsy, some insnOrADpiy, some insnOrDpImm, some insnOrIxIy,
  some insnDecwDp, some insnAslDpx, some insnAslA, some insnDecX, none, some insnJmpAbsxInd,
  -- 0x20
  some insnClrp, some insnTcall2, some insnSetDb1, some insnBbsDb1, some insnAndADp,
  some insnAndAAbs, some insnAndAIx, some insnAndADxInd, some insnAndAImm, some insnAndDpDp,
  some insnOr1Not, some insnRolDp, some insnRolAbs, some insnPushA, some insnCbneDpRel,
  some insnBra,
  -- 0x30
  some insnBmi, some insnTcall3, some insnClrDb1, some insnBbcDb1, some insnAndADpx,
  some insnAndAAbsx, some insnAndAAbsy, some insnAndADpiy, some insnAndDpImm, some insnAndIxIy,
  some insnIncwDp, some insnRolDpx, some insnRolA, some insnIncX, none, some insnCallAbs,
  -- 0x40
  some insnSetp, some insnTcall4, some insnSetDb2, some insnBbsDb2, some insnEorADp,
  some insnEorAAbs, some insnEorAIx, some insnEorADxInd, some insnEorAImm, some insnEorDpDp,
  some insnAnd1, some insnLsrDp, some insnLsrAbs, some insnPushX, some insnTclr1Abs, none,
  -- 0x50
  none, some insnTcall5, some insnClrDb2, some insnBbcDb2, some insnEorADpx, some insnEorAAbsx,
  some insnEorAAbsy, some insnEorADpiy, some insnEorDpImm, some insnEorIxIy, some insnCmpwYaD,
  some insnLsrDpx, some insnLsrA, some insnMovXA, none, some insnJmpAbs,
  -- 0x60
  some insnClrc, some insnTcall6, some insnSetDb3, some insnBbsDb3, some insnCmpADp,
  some insnCmpAAbs, some insnCmpAIx, some insnCmpADxInd, some insnCmpAImm, some insnCmpDpDp,
  some insnAnd1Not, some insnRorDp, some insnRorAbs, some insnPushY, some insnDbnzDp,
  some insnRet,
  -- 0x70
  none, some insnTcall7, some insnClrDb3, some insnBbcDb3, some insnCmpADpx, some insnCmpAAbsx,
  some insnCmpAAbsy, some insnCmpADpiy, some insnCmpDpImm, some insnCmpIxIy, some insnAddwYaDp,
  some insnRorDpx, some insnRorA, some insnMovAX, some insnCmpYDp, none,
  -- 0x80
  some insnSetc, some insnTcall8, some insnSetDb4, some insnBbsDb4, some insnAdcADp,
  some insnAdcAAbs, some insnAdcAIx, some insnAdcADxInd, some insnAdcAImm, some insnAdcDpDp,
  some insnEor1, some insnDecDp, some insnDecAbs, some insnMovYImm, some insnPopPsw,
  some insnMovDpImm,
  -- 0x90
  some insnBcc, some insnTcall9, some insnClrDb4, some insnBbcDb4, some insnAdcADpx,
  some insnAdcAAbsx, some insnAdcAAbsy, some insnAdcADpiy, some insnAdcDpImm, some insnAdcIxIy,
  some insnSubwYaDp, some insnDecDpx, some insnDecA, none, some insnDivwYaX, some insnXcn,
  -- 0xa0
  some insnEi, some insnTcall10, some insnSetDb5, some insnBbsDb5, some insnSbcADp,
  some insnSbcAAbs, some insnSbcAIx, some insnSbcADxInd, some insnSbcAImm, some insnSbcDpDp,
  some insnMov1Load, some insnIncDp, some insnIncAbs, some insnCmpYImm, some insnPopA, none,
  -- 0xb0
  some insnBcs, some insnTcall11, some insnClrDb5, some insnBbcDb5, some insnSbcADpx,
  some insnSbcAAbsx, some insnSbcAAbsy, some insnSbcADpiy, some insnSbcDpImm, some insnSbcIxIy,
  some insnMovwYaDp, some insnIncDpx, some insnIncA, none, none, none,
  -- 0xc0
  some insnDi, some insnTcall12, some insnSetDb6, some insnBbsDb6, some insnMovDpA,
  some insnMovAbsA, some insnMovIxA, some insnMovDxIndA, some insnCmpXImm, some insnMovAbsX,
  some insnMov1Store, some insnMovDpY, some insnMovAbsY, some insnMovXImm, some insnPopX,
  some insnMulYa,
  -- 0xd0
  some insnBne, some insnTcall13, some insnClrDb6, some insnBbcDb6, some insnMovDpxA,
  some insnMovAbsxA, some insnMovAbsyA, some insnMovDpiyA, some insnMovDpX, none,
  some insnMovwDpYa, some insnMovDpxY, some insnDecY, some insnMovAY, some insnCbneDpxRel, none,
  -- 0xe0
  some insnClrv, some insnTcall14, some insnSetDb7, some insnBbsDb7, some insnMovADp,
  some insnMovAAbs, some insnMovAIx, some insnMovADxInd, some insnMovAImm, some insnMovXAbs,
  some insnNot1, some insnMovYDp, some insnMovYAbs, some insnNotc, some insnPopY, none,
  -- 0xf0
  some insnBeq, some insnTcall15, some insnClrDb7, some insnBbcDb7, some insnMovADpx,
  some insnMovAAbsx, some insnMovAAbsy, some insnMovADpiy, some insnMovXDp, none,
  some insnMovDpDp, some insnMovYDpx, some insnIncY, some insnMovYA, some insnDbnzY, none ]

/-- The handler of an opcode. -/
def handlerOf (opcode : Byte) : Option (Insn Unit) := opcodeTbl[opcode.toNat]?.join

/-- `if ((cycle & 0xf) == 0) _apu_update_clocks(cycle)` -/
def updateClocks (beyond : Nat → Byte) (cycle : BitVec 32) (m : Machine) :
    Traced ClockEvent Machine :=
  if cycle &&& 0xf = 0 then apuUpdateClocks beyond cycle m else pure m

/-- A computation of the clocks, which always returns. -/
def onClocks (x : Machine → Traced ClockEvent Machine) : Insn Unit := fun m =>
  ⟨some ((), (x m).val), (x m).events.map .clock⟩

/-- One round of the loop of `spc700_run_forever`: the cycle count after it, or
    nothing if the loop is left at an opcode without a handler. -/
def iteration (beyond : Nat → Byte) (cycle : BitVec 32) : Insn (Option (BitVec 32)) := do
  let opcode ← fetchInsn
  match handlerOf opcode with
  | none => pure none
  | some cb => do
    cb
    let cycle := cycle + 4
    onClocks (updateClocks beyond cycle)
    pure (some cycle)

/-- Rounds of the loop, as long as it is not left. `spc700_run_forever` starts
    with a count of 0. -/
def runInsns (beyond : Nat → Byte) : Nat → BitVec 32 → Insn (Option (BitVec 32))
  | 0, cycle => pure (some cycle)
  | n + 1, cycle => do
    match ← iteration beyond cycle with
    | some cycle => runInsns beyond n cycle
    | none => pure none

end SpuKit.Spc700
