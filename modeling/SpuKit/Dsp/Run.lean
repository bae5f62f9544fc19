import SpuKit.Dsp.NextSample
import SpuKit.Lib.StepSystem

/-!
# Runs of the DSP

What can happen to the DSP between two samples (a register store, a change of
audio RAM by the CPU, a restore or a reset) and the runs made of these.

## Main definitions

- `store`, `dspRestore`, `dspReset` — what the CPU and the loader do to the DSP
- `World` — the DSP and the memory it works on
- `Op`, `World.step` — one operation on a world
- `runOps` — a sequence of operations
- `Reachable` — the worlds a process can get to
-/

namespace SpuKit

/-- `store`: every write to ENDX clears it. -/
def store (regs : Regs) (addr : Fin 0x80) (byte : Byte) : Regs :=
  if addr = regEndx then Function.update regs regEndx 0
  else Function.update regs addr byte

/-- `init` restarts the rate counters and nothing else. -/
def dspInit (d : Dsp) : Dsp := { d with ctr := ctrInit }

def dspRestore (saved : Regs) (d : Dsp) : Dsp := dspInit { d with regs := saved }

def dspReset (d : Dsp) : Dsp := dspInit { d with regs := fun _ => 0 }

/-- The DSP and the memory it works on. -/
@[ext]
structure World where
  mem : Mem
  dsp : Dsp

/-- Something that happens to the DSP. -/
inductive Op where
  /-- a register store -/
  | store (addr : Fin 0x80) (byte : Byte)
  /-- the CPU, or the rest of the process, changes the memory -/
  | poke (mem : Mem)
  /-- `dsp_restore` -/
  | restore (saved : Regs)
  /-- `dsp_reset` -/
  | reset
  /-- `next_sample` -/
  | sample

/-- Is this operation a sample? -/
def Op.isSample : Op → Bool
  | .sample => true
  | _ => false

/-- Does this operation change memory from outside the DSP? -/
def Op.isPoke : Op → Bool
  | .poke _ => true
  | _ => false

/-- One operation on a world. -/
def World.step : Op → World → Traced Event World
  | .store addr byte, w => pure { w with dsp := { w.dsp with regs := store w.dsp.regs addr byte } }
  | .poke mem, w => pure { w with mem := mem }
  | .restore saved, w => pure { w with dsp := dspRestore saved w.dsp }
  | .reset, w => pure { w with dsp := dspReset w.dsp }
  | .sample, w => do
    let (_, m, d) ← nextSample w.mem w.dsp
    pure { mem := m, dsp := d }

/-- Execute a sequence of operations. -/
def runOps (ops : List Op) (w : World) : Traced Event World := StepSystem.run World.step ops w

@[simp] theorem runOps_nil (w : World) : runOps [] w = pure w := rfl

theorem runOps_cons_val (op : Op) (ops : List Op) (w : World) :
    (runOps (op :: ops) w).val = (runOps ops (w.step op).val).val := rfl

theorem runOps_cons_events (op : Op) (ops : List Op) (w : World) :
    (runOps (op :: ops) w).events =
      (w.step op).events ++ (runOps ops (w.step op).val).events := rfl

/-- The worlds a process reaches from its zero-initialised variables. -/
def Reachable (w : World) : Prop :=
  ∃ m ops, (runOps ops ⟨m, .zero⟩).val = w

theorem Reachable.step {w : World} (h : Reachable w) (ops : List Op) :
    Reachable (runOps ops w).val := by
  obtain ⟨m, ops₀, rfl⟩ := h
  exact ⟨m, ops₀ ++ ops, StepSystem.run_append_val ..⟩

/-- An invariant of all operations that holds at the start of the process holds
    in every reachable world. -/
theorem Reachable.invariant (Inv : World → Prop) (hzero : ∀ m, Inv ⟨m, .zero⟩)
    (hstep : ∀ op w, Inv w → Inv (w.step op).val) {w : World} (h : Reachable w) : Inv w := by
  obtain ⟨m, ops, rfl⟩ := h
  exact StepSystem.run_invariant (A := fun _ => True) (fun op w _ hw => hstep op w hw)
    (fun _ _ => trivial) (hzero m)

end SpuKit
