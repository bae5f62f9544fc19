import SpuKit.Spc700.BootRom

/-!
# Reset

`apu_reset` shows the ROM, and `spc700_reset` starts the CPU at the vector in it.
The second instruction of the ROM, MOV SP,X, is one of those that are not
implemented, so the loop is left right there. Started again, it runs the rest of
the ROM, as if the instruction had been executed: the reset has set the stack
pointer to the same value.

## Main definitions

- `apuReset`, `spc700Reset`

## Main results

- `reset_halts` — the loop is left at the second instruction of the ROM
-/

namespace SpuKit

/-- `apu_reset`: the bytes of the host stay as they are. -/
def apuReset (b : Build) (m : Machine) : Machine :=
  apuSetShowIplRom b true
    { m with
      apu :=
        { s := fun _ => 0
          ioIn := m.apu.ioIn
          ioOut := fun _ => 0
          t := fun _ => ⟨0, 0, false⟩ } }

/-- In the default build a ROM that is shown is not copied again. -/
theorem window_apuReset {m : Machine} (h : m.showRom = true → window m.aram = iplRom) :
    window (apuReset .fast m).aram = iplRom := by
  rw [apuReset, apuSetShowIplRom_aram]
  cases hshow : m.showRom with
  | true =>
    rw [if_neg (by simp)]
    exact h hshow
  | false =>
    rw [if_pos (by simp)]
    exact window_copyWindow _ _

namespace Spc700

open Program (outcome)

def spc700Reset : Insn Unit := do
  let resetVector ← memLoadWord 0xfffe
  modifyCpu (setRegs { pc := resetVector, a := 0, x := 0, y := 0, psw := 0x02, sp := 0xef })

/-- The registers after the reset. -/
def resetCpu : Cpu :=
  setRegs { pc := 0xffc0, a := 0, x := 0, y := 0, psw := 0x02, sp := 0xef } .init

theorem outcome_spc700Reset {m : Machine} (h : window m.aram = iplRom) :
    outcome spc700Reset m = some ((), m.withCpu resetCpu) := by
  have hvector : outcome (memLoadWord 0xfffe) m = some (0xffc0, m) := by
    rw [outcome_memLoadWord m (by decide) (by decide), rom_byte h 0xfffe (by decide),
      rom_byte h (0xfffe + 1) (by decide)]
    rfl
  rw [spc700Reset, Program.outcome_bind, hvector]
  rfl

/-- The registers after the first instruction of the ROM. -/
def loadedCpu : Cpu := (setLoaded setX 0xef { resetCpu with pc := 0xffc2 }).2

/-- `mov X,#$ef` is executed, and `mov SP,X` is not. -/
theorem runInsns_reset {m : Machine} (h : window m.aram = iplRom) (beyond : Nat → Byte) (n : Nat) :
    outcome (runInsns beyond (n + 2) 0) (m.withCpu resetCpu) =
      some (none, m.withCpu { loadedCpu with pc := 0xffc3 }) := by
  have hfirst : outcome (iteration beyond 0) (m.withCpu resetCpu) =
      some (some 4, m.withCpu loadedCpu) := by
    refine (iteration_executes beyond 0 _ _).mpr ⟨m.withCpu loadedCpu, ?_, rfl⟩
    have hhandler : handlerOf 0xcd = some insnMovXImm := rfl
    have hoperand : ((m.withCpu resetCpu).advance 1).aram ((m.withCpu resetCpu).advance 1).cpu.pc =
        0xef := rom_byte h 0xffc1 (by decide)
    rw [execute_of_handler (rom_byte h 0xffc0 (by decide)) hhandler, insnMovXImm, loadImm,
      Program.outcome_bind, outcome_immediate, Option.bind_some, hoperand]
    rfl
  have hsecond : outcome (iteration beyond 4) (m.withCpu loadedCpu) =
      some (none, m.withCpu { loadedCpu with pc := 0xffc3 }) := by
    have hopcode : (m.withCpu loadedCpu).aram (m.withCpu loadedCpu).cpu.pc = 0xbd :=
      rom_byte h 0xffc2 (by decide)
    have hhandler : handlerOf 0xbd = none := rfl
    rw [iteration, Program.outcome_bind, outcome_fetchInsn, Option.bind_some, hopcode, hhandler]
    rfl
  rw [runInsns, Program.outcome_bind, hfirst, Option.bind_some]
  show outcome (runInsns beyond (n + 1) 4) (m.withCpu loadedCpu) = _
  rw [runInsns, Program.outcome_bind, hsecond, Option.bind_some]
  rfl

/-- **Reset**: the CPU halts behind the instruction that is not implemented, the
    second one of the ROM. With the echo unit kept from writing it is then about
    to run the rest of the ROM. -/
theorem reset_halts {m : Machine} (h : m.showRom = true → window m.aram = iplRom)
    (beyond : Nat → Byte) :
    ∃ m₀ m', outcome spc700Reset (apuReset .fast m) = some ((), m₀) ∧
      (∀ n, outcome (runInsns beyond (n + 2) 0) m₀ = some (none, m')) ∧
      m'.cpu.pc = 0xffc3 ∧ m'.cpu.sp = m'.cpu.x ∧
      (¬ EchoWrites m.dsp.regs → BootReady m') := by
  have hrom := window_apuReset h
  refine ⟨_, _, outcome_spc700Reset hrom, runInsns_reset hrom beyond, rfl, rfl, fun hquiet => ?_⟩
  have hdsp : (apuReset .fast m).dsp = m.dsp := apuSetShowIplRom_dsp ..
  refine ⟨rfl, rfl, rfl, hrom, ?_⟩
  show ¬ EchoWrites (apuReset .fast m).dsp.regs
  rwa [hdsp]

/-- A machine whose echo unit is kept from writing. -/
def echoOff : Machine :=
  { Machine.init with
    dsp := { Dsp.zero with regs := Function.update (fun _ => 0) regFlg flgEchoDisabled } }

theorem reset_halts_echoOff :
    ∃ m₀ m', outcome spc700Reset (apuReset .fast echoOff) = some ((), m₀) ∧
      (∀ n, outcome (runInsns (fun _ => 0) (n + 2) 0) m₀ = some (none, m')) ∧
      m'.cpu.pc = 0xffc3 ∧ m'.cpu.sp = m'.cpu.x ∧ BootReady m' := by
  obtain ⟨m₀, m', hreset, hhalts, hpc, hsp, hready⟩ :=
    reset_halts (m := echoOff) (fun h => Bool.noConfusion h) fun _ => 0
  have hquiet : ¬ EchoWrites echoOff.dsp.regs := by
    show ¬ EchoWrites (Function.update (fun _ => 0) regFlg flgEchoDisabled)
    decide
  exact ⟨m₀, m', hreset, hhalts, hpc, hsp, hready hquiet⟩

end Spc700

end SpuKit
