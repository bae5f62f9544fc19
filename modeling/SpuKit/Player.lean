import SpuKit.File.SpcFormat
import SpuKit.Lib.Embed
import SpuKit.Spc700.Playback

/-!
# The player

`main` plays the files on its command line one after the other: each is loaded,
put into the machine, and run until the CPU comes to an opcode that is not
implemented. The machine, the variable the files are loaded into and the recorder
are there once for the whole process. The loop of the CPU has no end of its own,
so the model runs a number of rounds of it.

## Main definitions

- `Process`, `MainEvent` — the parts of the process, and what happens in them
- `dumpRam`, `runForever`, `handleFile`, `main`
- `Plays` — the files are loaded and played one after the other

## Main results

- `dumpRam_rule` — what is left in a file the RAM is dumped to
- `runForever_rule`, `handleFile_rule` — the loop, and one file
- `runForever_of_runInsns` — the loop goes on with the CPU
- `main_records` — what a process plays and records
-/

namespace SpuKit

open Spc700 (CpuEvent Insn iteration runInsns samplesOf)

/-- The parts of the process. The files it writes have their replies together. -/
structure Process where
  loader : Loader
  os : Os
  machine : Machine
  recorder : Recorder

/-- What happens in the parts of the process. -/
inductive MainEvent where
  | load (e : LoadEvent)
  | dump (e : SysEvent)
  | cpu (e : CpuEvent)
  | wav (e : SysEvent)

/-- A program that runs in the process. -/
abbrev MainM := Program MainEvent Process

def onLoader {α : Type} (x : LoadM α) : MainM α :=
  Program.embed Process.loader (fun loader p => { p with loader := loader }) .load x

/-- System calls, under the name of the file they are for. -/
def onOs {α : Type} (relabel : SysEvent → MainEvent) (x : SysM α) : MainM α :=
  Program.embed Process.os (fun os p => { p with os := os }) relabel x

def onMachine {α : Type} (x : Insn α) : MainM α :=
  Program.embed Process.machine (fun machine p => { p with machine := machine }) .cpu x

/-- `dump_ram`: a file that is not closed without an error is a failure. -/
def dumpRam (ram : Word → Byte) (fn : String) : SysM Bool := do
  match ← openFile fn with
  | .err _ => pure false
  | .ok fd =>
    let ret ← fdWrite fd ((List.range 0x10000).map fun i => ram (BitVec.ofNat 16 i))
    let closed ← closeFile fd
    pure (ret && closed.isOk)

/-- `setup_spc700`: whether the RAM could be dumped makes no difference. -/
def setupPlayer : MainM Unit := do
  let p ← get
  let spc := spcFileOf p.loader.spc
  let _ ← onOs .dump (dumpRam spc.ram "aram.bin")
  onMachine (modify (setupSpc700 .fast spc))

/-- Why there is no result yet, or never will be. -/
inductive Stopped where
  /-- the loop of the CPU goes on after the rounds that were run -/
  | running
  /-- the recorder ends the process -/
  | ended (e : Exit)

/-- One round of the loop in `spc700_run_forever`, with `_dsp_run32` at the end of
    the samples. -/
def playRound (beyond : Nat → Byte) (cycle : BitVec 32) :
    MainM (Except Stopped (Option (BitVec 32))) := do
  let round ← onMachine (Program.heard (iteration beyond cycle))
  let p ← get
  match ← onOs .wav (recordAll (samplesOf round.2) p.recorder) with
  | .inl recorder =>
    modify fun p => { p with recorder := recorder }
    pure (.ok round.1)
  | .inr e => pure (.error (.ended e))

/-- `spc700_run_forever` -/
def runForever (beyond : Nat → Byte) : Nat → BitVec 32 → MainM (Except Stopped Unit)
  | 0, _ => pure (.error .running)
  | rounds + 1, cycle => do
    match ← playRound beyond cycle with
    | .ok (some cycle) => runForever beyond rounds cycle
    | .ok none => pure (.ok ())
    | .error stopped => pure (.error stopped)

def handleFile (beyond : Nat → Byte) (rounds : Nat) (fn : String) :
    MainM (Except Stopped Bool) := do
  if ← onLoader (load fn) then
    setupPlayer
    match ← runForever beyond rounds 0 with
    | .ok () => pure (.ok true)
    | .error stopped => pure (.error stopped)
  else
    pure (.ok false)

/-- The loop of `main`, with what it returns so far: `EXIT_SUCCESS` or not. -/
def handleFiles (beyond : Nat → Byte) (rounds : Nat) :
    Bool → List String → MainM (Except Stopped Bool)
  | ret, [] => pure (.ok ret)
  | ret, fn :: fns => do
    match ← handleFile beyond rounds fn with
    | .ok handled => handleFiles beyond rounds (ret && handled) fns
    | .error stopped => pure (.error stopped)

/-- `main` -/
def main (beyond : Nat → Byte) (rounds : Nat) (fns : List String) :
    MainM (Except Stopped Bool) := handleFiles beyond rounds true fns

-- ════════════════════════════════════════════════════════════════════════
-- The dump
-- ════════════════════════════════════════════════════════════════════════

/-- **The dump**: one that succeeds leaves the RAM in the file, and a file that is
    opened is closed. -/
theorem dumpRam_rule {ram : Word → Byte} {fn : String} {os os' : Os} {ok : Bool}
    {es : List SysEvent} (h : (dumpRam ram fn).Returns os ok os' es) :
    (∃ errno, ok = false ∧ es = [.openFile fn (.err errno)]) ∨
      ∃ (fd : Nat) (writes : List SysEvent),
        es = .openFile fn (.ok fd) :: (writes ++ [.close fd]) ∧
        (∀ e ∈ writes, e.isWrite = true) ∧
        (ok = true → written fd writes =
          (List.range 0x10000).map fun i => ram (BitVec.ofNat 16 i)) := by
  obtain ⟨reply, os₁, es₁, es₂, hopen, hrest, rfl⟩ := Program.returns_bind.mp h
  obtain ⟨_, _, -, rfl, rfl⟩ := returns_systemCall.mp hopen
  cases reply with
  | err errno =>
    obtain ⟨rfl, -, rfl⟩ := Program.returns_pure.mp hrest
    exact .inl ⟨errno, rfl, rfl⟩
  | ok fd =>
    obtain ⟨ret, os₂, es₃, es₄, hwrite, hclosed, rfl⟩ := Program.returns_bind.mp hrest
    obtain ⟨closed, _, es₅, es₆, hclose, hpure, rfl⟩ := Program.returns_bind.mp hclosed
    obtain ⟨_, _, -, rfl, rfl⟩ := returns_systemCall.mp hclose
    obtain ⟨rfl, -, rfl⟩ := Program.returns_pure.mp hpure
    obtain ⟨-, hkind, hdone⟩ := fdWrite_rule (Int.natCast_nonneg fd) hwrite
    refine .inr ⟨fd, es₃, rfl, hkind, fun hok => (hdone ?_).1⟩
    exact (Bool.and_eq_true_iff.mp hok).1

-- ════════════════════════════════════════════════════════════════════════
-- What is played
-- ════════════════════════════════════════════════════════════════════════

/-- The event of the CPU, if it is one. -/
def MainEvent.cpu? : MainEvent → Option CpuEvent
  | .cpu e => some e
  | _ => none

/-- The call for the recording, if it is one. -/
def MainEvent.wav? : MainEvent → Option SysEvent
  | .wav e => some e
  | _ => none

def cpuEvents (es : List MainEvent) : List CpuEvent := es.filterMap MainEvent.cpu?

def wavEvents (es : List MainEvent) : List SysEvent := es.filterMap MainEvent.wav?

/-- What a file is loaded as. -/
def spcFileIn (file : List Byte) : SpcFile := spcFileOf fun i => file.getD i 0

/-- The files are handled one after the other, and `oks` is what `load` returned for
    them. A file that is loaded is long enough, and is played until the CPU halts; one
    that is not leaves the machine as it is. The last one may be broken off. -/
inductive Plays (beyond : Nat → Byte) :
    Loader → Machine → List String → List Bool → Loader → Machine → List CpuEvent → Bool →
      Prop where
  | nil (l : Loader) (m : Machine) : Plays beyond l m [] [] l m [] true
  | skipped {l l' l'' : Loader} {m m' : Machine} {fn : String} {fns : List String}
      {oks : List Bool} {ls : List LoadEvent} {es : List CpuEvent} {finished : Bool} :
      (load fn).Returns l false l' ls → Plays beyond l' m fns oks l'' m' es finished →
      Plays beyond l m (fn :: fns) (false :: oks) l'' m' es finished
  | halted {l l' l'' : Loader} {m m' m'' : Machine} {fn : String} {fns : List String}
      {oks : List Bool} {ls : List LoadEvent} {es es' : List CpuEvent} {n : Nat}
      {finished : Bool} :
      (load fn).Returns l true l' ls → sizeofSpcFile ≤ (l.files fn).length →
      (runInsns beyond n 0).Returns (setupSpc700 .fast (spcFileIn (l.files fn)) m) none m' es →
      Plays beyond l' m' fns oks l'' m'' es' finished →
      Plays beyond l m (fn :: fns) (true :: oks) l'' m'' (es ++ es') finished
  | brokenOff {l l' : Loader} {m m' : Machine} {fn : String} {fns : List String}
      {ls : List LoadEvent} {es : List CpuEvent} {n : Nat} {cycle : BitVec 32} :
      (load fn).Returns l true l' ls → sizeofSpcFile ≤ (l.files fn).length →
      (runInsns beyond n 0).Returns (setupSpc700 .fast (spcFileIn (l.files fn)) m) (some cycle)
        m' es →
      Plays beyond l m (fn :: fns) [true] l' m' es false

/-- What the process leaves to the recording: the recorder, or how it ended. -/
def recorded {α : Type} : Except Stopped α → Recorder → Recorder ⊕ Exit
  | .error (.ended e), _ => .inr e
  | _, recorder => .inl recorder

theorem recorded_error {α β : Type} (stopped : Stopped) (recorder : Recorder) :
    recorded (.error stopped : Except Stopped α) recorder =
      recorded (.error stopped : Except Stopped β) recorder := by
  cases stopped <;> rfl

variable {beyond : Nat → Byte} {cycle : BitVec 32} {p p' : Process} {es es' : List MainEvent}
  {samples : List Sample} {ws : List SysEvent}

theorem cpuEvents_nil : cpuEvents [] = [] := rfl

theorem wavEvents_nil : wavEvents [] = [] := rfl

theorem cpuEvents_append (es es' : List MainEvent) :
    cpuEvents (es ++ es') = cpuEvents es ++ cpuEvents es' := List.filterMap_append ..

theorem wavEvents_append (es es' : List MainEvent) :
    wavEvents (es ++ es') = wavEvents es ++ wavEvents es' := List.filterMap_append ..

theorem cpuEvents_cpu (es : List CpuEvent) : cpuEvents (es.map .cpu) = es := by
  rw [cpuEvents, List.filterMap_map]
  exact List.filterMap_some

theorem wavEvents_wav (es : List SysEvent) : wavEvents (es.map .wav) = es := by
  rw [wavEvents, List.filterMap_map]
  exact List.filterMap_some

theorem cpuEvents_other {α : Type} {relabel : α → MainEvent} (h : ∀ e, (relabel e).cpu? = none)
    (es : List α) : cpuEvents (es.map relabel) = [] := by
  rw [cpuEvents, List.filterMap_map, List.filterMap_eq_nil_iff]
  exact fun e _ => h e

theorem wavEvents_other {α : Type} {relabel : α → MainEvent} (h : ∀ e, (relabel e).wav? = none)
    (es : List α) : wavEvents (es.map relabel) = [] := by
  rw [wavEvents, List.filterMap_map, List.filterMap_eq_nil_iff]
  exact fun e _ => h e

/-- A round of the loop has at most one sample. -/
theorem samplesOf_iteration {m m' : Machine} {r : Option (BitVec 32)} {es : List CpuEvent}
    (h : (iteration beyond cycle).Returns m r m' es) :
    samplesOf es = [] ∨ ∃ sample next, samplesOf es = [sample] ∧ r = some next := by
  obtain ⟨-, -, hclocks⟩ | ⟨hr, shape, m₁, es₁, hiter⟩ := (Spc700.iteration_does _ _).returns h
  · rw [samplesOf, hclocks.clocksOf]
    exact .inl rfl
  · have hcount : (samplesOf es).length ≤ 1 := by
      have hsample : ∀ s, Spc700.isSample (.sample s) = true := fun _ => rfl
      rw [Spc700.samplesOf_length_eq_countP, hiter.clocksOf_eq,
        Spc700.countP_updateClocks (fun _ => rfl) hsample]
      split
      · split <;> simp [Spc700.isSample]
      · exact Nat.zero_le 1
    cases hsamples : samplesOf es with
    | nil => exact .inl rfl
    | cons sample rest =>
      rw [hsamples, List.length_cons] at hcount
      obtain rfl : rest = [] := List.eq_nil_of_length_eq_zero (by omega)
      exact .inr ⟨sample, _, rfl, hr⟩

/-- A sample ends the process, or it goes on. -/
theorem recordAll_one {r : Recorder} {out : Recorder ⊕ Exit} {sample : Sample} {os os' : Os}
    {fs : List SysEvent} (hr : r.After samples ws)
    (h : (recordAll [sample] r).Returns os out os' fs) :
    Outcome (samples ++ [sample]) (ws ++ fs) out := by
  obtain ⟨out₁, _, fs₁, fs₂, hsample, hrest, rfl⟩ := Program.returns_bind.mp h
  have hstep := recordSample_rule hr hsample
  cases out₁ with
  | inl r' =>
    obtain ⟨rfl, -, rfl⟩ := Program.returns_pure.mp hrest
    rwa [List.append_nil]
  | inr e =>
    obtain ⟨rfl, -, rfl⟩ := Program.returns_pure.mp hrest
    rwa [List.append_nil]

/-- What a round leaves, given what the recorder returned. -/
theorem playRound_cases {out : Except Stopped (Option (BitVec 32))}
    (h : (playRound beyond cycle).Returns p out p' es) :
    ∃ r m cs recording os fs, (iteration beyond cycle).Returns p.machine r m cs ∧
      (recordAll (samplesOf cs) p.recorder).Returns p.os recording os fs ∧
      p'.loader = p.loader ∧ p'.machine = m ∧ cpuEvents es = cs ∧ wavEvents es = fs ∧
      recorded out p'.recorder = recording ∧
      out = recording.elim (fun _ => .ok r) fun e => .error (.ended e) := by
  obtain ⟨⟨r, heard⟩, p₁, es₁, es₂, hround, hrest, rfl⟩ := Program.returns_bind.mp h
  obtain ⟨m, cs, hheard, rfl, rfl⟩ := Program.returns_embed.mp hround
  obtain ⟨hiter, rfl⟩ := Program.returns_heard.mp hheard
  obtain ⟨_, _, _, es₃, hget, hrecording, rfl⟩ := Program.returns_bind.mp hrest
  obtain ⟨rfl, rfl, rfl⟩ := Program.returns_get.mp hget
  obtain ⟨recording, p₂, es₄, es₅, hwav, hdone, rfl⟩ := Program.returns_bind.mp hrecording
  obtain ⟨os, fs, hrecord, rfl, rfl⟩ := Program.returns_embed.mp hwav
  have hcpu : cpuEvents (heard.map .cpu ++ ([] ++ (fs.map .wav ++ []))) = heard := by
    rw [cpuEvents_append, cpuEvents_cpu, List.nil_append, List.append_nil,
      cpuEvents_other fun _ => rfl, List.append_nil]
  have hwavs : wavEvents (heard.map .cpu ++ ([] ++ (fs.map .wav ++ []))) = fs := by
    rw [wavEvents_append, wavEvents_other fun _ => rfl, List.nil_append, List.nil_append,
      List.append_nil, wavEvents_wav]
  cases recording with
  | inl recorder =>
    obtain ⟨_, _, _, es₆, hmodify, hpure, rfl⟩ := Program.returns_bind.mp hdone
    obtain ⟨-, rfl, rfl⟩ := Program.Returns.unique (Program.exec_modify _ _) hmodify
    obtain ⟨rfl, rfl, rfl⟩ := Program.returns_pure.mp hpure
    exact ⟨r, m, heard, .inl recorder, os, fs, hiter, hrecord, rfl, rfl, hcpu, hwavs, rfl, rfl⟩
  | inr e =>
    obtain ⟨rfl, rfl, rfl⟩ := Program.returns_pure.mp hdone
    exact ⟨r, m, heard, .inr e, os, fs, hiter, hrecord, rfl, rfl, hcpu, hwavs, rfl, rfl⟩

/-- **Round**: a round that ends the process has a sample, and the CPU goes on. -/
theorem playRound_rule {out : Except Stopped (Option (BitVec 32))}
    (hrecorder : p.recorder.After samples ws) (h : (playRound beyond cycle).Returns p out p' es) :
    p'.loader = p.loader ∧
      ∃ r, (iteration beyond cycle).Returns p.machine r p'.machine (cpuEvents es) ∧
        Outcome (samples ++ samplesOf (cpuEvents es)) (ws ++ wavEvents es)
          (recorded out p'.recorder) ∧
        (out = .ok r ∨ ∃ next e, r = some next ∧ out = .error (.ended e)) := by
  obtain ⟨r, m, cs, recording, os, fs, hiter, hrecord, hloader, rfl, rfl, rfl, hleft, rfl⟩ :=
    playRound_cases h
  refine ⟨hloader, r, hiter, ?_⟩
  rw [hleft]
  obtain hnone | ⟨sample, next, hone, rfl⟩ := samplesOf_iteration hiter
  · rw [hnone] at hrecord ⊢
    obtain ⟨rfl, -, hcalls⟩ := Program.returns_pure.mp hrecord
    rw [hcalls, List.append_nil, List.append_nil]
    exact ⟨hrecorder, .inl rfl⟩
  · rw [hone] at hrecord ⊢
    refine ⟨recordAll_one hrecorder hrecord, ?_⟩
    cases recording with
    | inl recorder => exact .inl rfl
    | inr e => exact .inr ⟨next, e, rfl, rfl⟩

/-- One iteration is a run. -/
theorem runInsns_one {m m' : Machine} {r : Option (BitVec 32)} {cs : List CpuEvent}
    (h : (iteration beyond cycle).Returns m r m' cs) :
    (runInsns beyond 1 cycle).Returns m r m' cs := by
  rw [← List.append_nil cs]
  cases r <;> exact h.bind (Program.returns_pure.mpr ⟨rfl, rfl, rfl⟩)

/-- **Loop**: the CPU runs for a number of instructions, until it halts if the loop is
    left, and all of its samples are recorded. -/
theorem runForever_rule {rounds : Nat} {out : Except Stopped Unit}
    (hrecorder : p.recorder.After samples ws)
    (h : (runForever beyond rounds cycle).Returns p out p' es) :
    p'.loader = p.loader ∧
      ∃ n r, (runInsns beyond n cycle).Returns p.machine r p'.machine (cpuEvents es) ∧
        Outcome (samples ++ samplesOf (cpuEvents es)) (ws ++ wavEvents es)
          (recorded out p'.recorder) ∧
        (out = .ok () ∧ r = none ∨ ∃ next stopped, r = some next ∧ out = .error stopped) := by
  induction rounds generalizing cycle p samples ws es with
  | zero =>
    obtain ⟨rfl, rfl, rfl⟩ := Program.returns_pure.mp h
    refine ⟨rfl, 0, some cycle, Program.returns_pure.mpr ⟨rfl, rfl, rfl⟩, ?_,
      .inr ⟨cycle, .running, rfl, rfl⟩⟩
    show Outcome (samples ++ []) (ws ++ []) (.inl p'.recorder)
    rw [List.append_nil, List.append_nil]
    exact hrecorder
  | succ rounds ih =>
    obtain ⟨out₁, p₁, es₁, es₂, hround, hrest, rfl⟩ := Program.returns_bind.mp h
    obtain ⟨hloader, r, hiter, hout, rfl | ⟨next, e, rfl, rfl⟩⟩ := playRound_rule hrecorder hround
    · cases r with
      | some next =>
        obtain ⟨hloader', n, r, hrun, hout', hend⟩ := ih hout hrest
        refine ⟨hloader'.trans hloader, n + 1, r, ?_, ?_, hend⟩
        · rw [cpuEvents_append]
          exact hiter.bind hrun
        · rw [cpuEvents_append, wavEvents_append, Spc700.samplesOf_append, ← List.append_assoc,
            ← List.append_assoc]
          exact hout'
      | none =>
        obtain ⟨rfl, rfl, rfl⟩ := Program.returns_pure.mp hrest
        refine ⟨hloader, 1, none, ?_, ?_, .inl ⟨rfl, rfl⟩⟩
        · rw [List.append_nil]
          exact runInsns_one hiter
        · rw [List.append_nil]
          exact hout
    · obtain ⟨rfl, rfl, rfl⟩ := Program.returns_pure.mp hrest
      refine ⟨hloader, 1, some next, ?_, ?_, .inr ⟨next, .ended e, rfl, rfl⟩⟩
      · rw [List.append_nil]
        exact runInsns_one hiter
      · rw [List.append_nil]
        exact hout

/-- A round that the recording survives is one of the CPU. -/
theorem playRound_returns {r : Option (BitVec 32)} {m : Machine} {cs : List CpuEvent}
    {recorder : Recorder} {os : Os} {fs : List SysEvent}
    (hiter : (iteration beyond cycle).Returns p.machine r m cs)
    (hrecord : (recordAll (samplesOf cs) p.recorder).Returns p.os (.inl recorder) os fs) :
    ∃ es, (playRound beyond cycle).Returns p (.ok r)
      { p with machine := m, os := os, recorder := recorder } es ∧ cpuEvents es = cs := by
  have hround : (onMachine (Program.heard (iteration beyond cycle))).Returns p (r, cs)
      { p with machine := m } (cs.map .cpu) :=
    Program.returns_embed.mpr ⟨m, cs, Program.returns_heard.mpr ⟨hiter, rfl⟩, rfl, rfl⟩
  have hwav : (onOs .wav (recordAll (samplesOf cs) p.recorder)).Returns { p with machine := m }
      (.inl recorder) { p with machine := m, os := os } (fs.map .wav) :=
    Program.returns_embed.mpr ⟨os, fs, hrecord, rfl, rfl⟩
  have hdone : (do
      modify fun p => { p with recorder := recorder }
      pure (.ok r) : MainM (Except Stopped (Option (BitVec 32)))).Returns
        { p with machine := m, os := os } (.ok r)
        { p with machine := m, os := os, recorder := recorder } [] := rfl
  have hget : (get : MainM Process).Returns { p with machine := m } _ _ [] :=
    Program.returns_get.mpr ⟨rfl, rfl, rfl⟩
  refine ⟨_, hround.bind (hget.bind (hwav.bind hdone)), ?_⟩
  rw [cpuEvents_append, cpuEvents_cpu, List.nil_append, List.append_nil,
    cpuEvents_other fun _ => rfl, List.append_nil]

/-- **The loop goes on** with the CPU, as long as the recording does. -/
theorem runForever_of_runInsns {n : Nat} {r : Option (BitVec 32)} {m : Machine}
    {cs : List CpuEvent} {recorder : Recorder} {os : Os} {fs : List SysEvent}
    (hrun : (runInsns beyond n cycle).Returns p.machine r m cs)
    (hrecord : (recordAll (samplesOf cs) p.recorder).Returns p.os (.inl recorder) os fs) :
    ∃ es, (runForever beyond n cycle).Returns p (r.elim (.ok ()) fun _ => .error .running)
      { p with machine := m, os := os, recorder := recorder } es ∧ cpuEvents es = cs := by
  induction n generalizing cycle p cs fs with
  | zero =>
    obtain ⟨rfl, rfl, rfl⟩ := Program.returns_pure.mp hrun
    obtain ⟨hsame, rfl, rfl⟩ := Program.returns_pure.mp hrecord
    obtain rfl := Sum.inl.inj hsame
    exact ⟨[], Program.returns_pure.mpr ⟨rfl, rfl, rfl⟩, rfl⟩
  | succ n ih =>
    obtain ⟨r₁, m₁, cs₁, cs₂, hiter, hrest, rfl⟩ := Program.returns_bind.mp hrun
    rw [Spc700.samplesOf_append] at hrecord
    obtain ⟨recorder₁, os₁, fs₁, fs₂, hfirst, hmore, rfl⟩ := returns_recordAll_append hrecord
    obtain ⟨es₁, hround, hcs₁⟩ := playRound_returns hiter hfirst
    cases r₁ with
    | some next =>
      obtain ⟨es₂, hloop, hcs₂⟩ :=
        ih (p := { p with machine := m₁, os := os₁, recorder := recorder₁ }) hrest hmore
      exact ⟨es₁ ++ es₂, hround.bind hloop, by rw [cpuEvents_append, hcs₁, hcs₂]⟩
    | none =>
      obtain ⟨rfl, rfl, rfl⟩ := Program.returns_pure.mp hrest
      obtain ⟨hsame, rfl, rfl⟩ := Program.returns_pure.mp hmore
      obtain rfl := Sum.inl.inj hsame
      refine ⟨es₁ ++ [], hround.bind (Program.returns_pure.mpr ⟨rfl, rfl, rfl⟩), ?_⟩
      rw [List.append_nil, List.append_nil, hcs₁]

-- ════════════════════════════════════════════════════════════════════════
-- The files
-- ════════════════════════════════════════════════════════════════════════

theorem spcFileOf_congr {spc spc' : Nat → Byte} (h : ∀ i, i < sizeofSpcFile → spc i = spc' i) :
    spcFileOf spc = spcFileOf spc' := by
  have hsize : sizeofSpcFile = 0x10200 := rfl
  have hram : offRam = 0x100 := rfl
  have hdsp : offDspRegs = 0x10100 := rfl
  have hextra : offExtraRam = 0x101c0 := rfl
  have hregs : ∀ k, k < 7 → spc (offRegs + k) = spc' (offRegs + k) := by
    intro k hk
    have hoff : offRegs = 37 := rfl
    exact h _ (by omega)
  refine SpcFile.mk.injEq .. |>.mpr ⟨?_, funext fun addr => ?_, funext fun reg => ?_,
    funext fun k => ?_⟩
  · rw [hregs 1 (by decide), hregs 2 (by decide), hregs 3 (by decide), hregs 4 (by decide),
      hregs 5 (by decide), hregs 6 (by decide)]
    exact congrArg (fun lo => Spc700Regs.mk (wordOf _ lo) _ _ _ _ _) (hregs 0 (by decide))
  · exact h _ (by have haddr := addr.isLt; omega)
  · exact h _ (by have hreg := reg.isLt; omega)
  · exact h _ (by have hk := k.isLt; omega)

/-- **Load**: a file that is loaded is long enough, and is loaded as what is in it. -/
theorem load_spcFile {fn : String} {os os' : Loader} {es : List LoadEvent}
    (h : (load fn).Returns os true os' es) :
    sizeofSpcFile ≤ (os.files fn).length ∧ spcFileOf os'.spc = spcFileIn (os.files fn) := by
  obtain ⟨-, sent, hsent, -, hspc, hall⟩ := load_fills h
  obtain rfl := hall rfl
  refine ⟨hsent, ?_⟩
  rw [hspc]
  exact spcFileOf_congr fun i hi => blit_file hsent _ hi

theorem setupPlayer_rule {u : Unit} (h : setupPlayer.Returns p u p' es) :
    p'.loader = p.loader ∧ p'.recorder = p.recorder ∧
      p'.machine = setupSpc700 .fast (spcFileOf p.loader.spc) p.machine ∧
      cpuEvents es = [] ∧ wavEvents es = [] := by
  obtain ⟨_, _, _, es₁, hget, hrest, rfl⟩ := Program.returns_bind.mp h
  obtain ⟨rfl, rfl, rfl⟩ := Program.returns_get.mp hget
  obtain ⟨ok, p₁, es₂, es₃, hdump, hsetup, rfl⟩ := Program.returns_bind.mp hrest
  obtain ⟨os, ds, -, rfl, rfl⟩ := Program.returns_embed.mp hdump
  obtain ⟨m, cs, hmodify, rfl, rfl⟩ := Program.returns_embed.mp hsetup
  obtain ⟨-, rfl, rfl⟩ := Program.Returns.unique (Program.exec_modify _ _) hmodify
  refine ⟨rfl, rfl, rfl, ?_, ?_⟩
  · rw [List.nil_append, List.map_nil, List.append_nil]
    exact cpuEvents_other (fun _ => rfl) ds
  · rw [List.nil_append, List.map_nil, List.append_nil]
    exact wavEvents_other (fun _ => rfl) ds

/-- **File**: one that is not loaded leaves the machine and the recording alone. One
    that is loaded is played, and its samples are recorded. -/
theorem handleFile_rule {rounds : Nat} {fn : String} {out : Except Stopped Bool}
    (hrecorder : p.recorder.After samples ws)
    (h : (handleFile beyond rounds fn).Returns p out p' es) :
    Outcome (samples ++ samplesOf (cpuEvents es)) (ws ++ wavEvents es)
        (recorded out p'.recorder) ∧
      ((∃ ls, (load fn).Returns p.loader false p'.loader ls ∧
          out = .ok false ∧ p'.machine = p.machine ∧ cpuEvents es = []) ∨
        ∃ ls n r, (load fn).Returns p.loader true p'.loader ls ∧
          sizeofSpcFile ≤ (p.loader.files fn).length ∧
          (runInsns beyond n 0).Returns
            (setupSpc700 .fast (spcFileIn (p.loader.files fn)) p.machine) r p'.machine
            (cpuEvents es) ∧
          (out = .ok true ∧ r = none ∨
            ∃ next stopped, r = some next ∧ out = .error stopped)) := by
  obtain ⟨loaded, p₁, es₁, es₂, hload, hrest, rfl⟩ := Program.returns_bind.mp h
  obtain ⟨loader, ls, hread, rfl, rfl⟩ := Program.returns_embed.mp hload
  have hcpu : cpuEvents (ls.map .load) = [] := cpuEvents_other (fun _ => rfl) ls
  have hwav : wavEvents (ls.map .load) = [] := wavEvents_other (fun _ => rfl) ls
  rw [cpuEvents_append, wavEvents_append, hcpu, hwav, List.nil_append, List.nil_append]
  cases loaded with
  | false =>
    obtain ⟨rfl, rfl, rfl⟩ := Program.returns_pure.mp hrest
    refine ⟨?_, .inl ⟨ls, hread, rfl, rfl, rfl⟩⟩
    show Outcome (samples ++ []) (ws ++ []) (.inl p.recorder)
    rw [List.append_nil, List.append_nil]
    exact hrecorder
  | true =>
    obtain ⟨hlong, hspc⟩ := load_spcFile hread
    obtain ⟨_, p₂, es₃, es₄, hsetup, hplay, rfl⟩ := Program.returns_bind.mp hrest
    obtain ⟨out₁, p₃, es₅, es₆, hrun, hend, rfl⟩ := Program.returns_bind.mp hplay
    obtain ⟨hloader, hsame, hmachine, hcpu', hwav'⟩ := setupPlayer_rule hsetup
    obtain ⟨hloader', n, r, hinsns, hout, hstop⟩ := runForever_rule (hsame ▸ hrecorder) hrun
    have hread' : (load fn).Returns p.loader true p₃.loader ls := by
      rw [hloader', hloader]
      exact hread
    rw [hmachine, hspc] at hinsns
    rw [cpuEvents_append, wavEvents_append, hcpu', hwav', List.nil_append, List.nil_append]
    obtain ⟨rfl, rfl⟩ | ⟨next, stopped, rfl, rfl⟩ := hstop
    · obtain ⟨rfl, rfl, rfl⟩ := Program.returns_pure.mp hend
      rw [List.append_nil]
      exact ⟨hout, .inr ⟨ls, n, none, hread', hlong, hinsns, .inl ⟨rfl, rfl⟩⟩⟩
    · obtain ⟨rfl, rfl, rfl⟩ := Program.returns_pure.mp hend
      rw [List.append_nil]
      have hout' := hout
      rw [recorded_error] at hout'
      exact ⟨hout', .inr ⟨ls, n, _, hread', hlong, hinsns, .inr ⟨next, stopped, rfl, rfl⟩⟩⟩

/-- **Files**: they are handled one after the other, and this succeeds when all of
    them are loaded. -/
theorem handleFiles_rule {rounds : Nat} {fns : List String} {ok : Bool}
    {out : Except Stopped Bool} (hrecorder : p.recorder.After samples ws)
    (h : (handleFiles beyond rounds ok fns).Returns p out p' es) :
    ∃ oks, Plays beyond p.loader p.machine fns oks p'.loader p'.machine (cpuEvents es) out.isOk ∧
      Outcome (samples ++ samplesOf (cpuEvents es)) (ws ++ wavEvents es)
        (recorded out p'.recorder) ∧
      ∀ ret, out = .ok ret → (ret = true ↔ ok = true ∧ ∀ loaded ∈ oks, loaded = true) := by
  induction fns generalizing ok p samples ws es with
  | nil =>
    obtain ⟨rfl, rfl, rfl⟩ := Program.returns_pure.mp h
    refine ⟨[], .nil _ _, ?_, fun ret hret => ?_⟩
    · show Outcome (samples ++ []) (ws ++ []) (.inl p'.recorder)
      rw [List.append_nil, List.append_nil]
      exact hrecorder
    · obtain rfl : ok = ret := Except.ok.inj hret
      exact ⟨fun hok => ⟨hok, fun _ hmem => (List.not_mem_nil hmem).elim⟩, fun hall => hall.1⟩
  | cons fn fns ih =>
    obtain ⟨out₁, p₁, es₁, es₂, hfile, hrest, rfl⟩ := Program.returns_bind.mp h
    obtain ⟨hout, hcases⟩ := handleFile_rule hrecorder hfile
    rw [cpuEvents_append, wavEvents_append, Spc700.samplesOf_append, ← List.append_assoc,
      ← List.append_assoc]
    obtain ⟨ls, hload, rfl, hmachine, hcpu⟩ | ⟨ls, n, r, hload, hlong, hrun, hend⟩ := hcases
    · obtain ⟨oks, hplays, hout', hret⟩ := ih hout hrest
      rw [hmachine] at hplays
      rw [hcpu] at hout' ⊢
      refine ⟨false :: oks, .skipped hload hplays, hout', fun ret hok => ?_⟩
      rw [hret ret hok, Bool.and_false, List.forall_mem_cons]
      exact iff_of_false (fun hall => Bool.false_ne_true hall.1)
        fun hall => Bool.false_ne_true hall.2.1
    · obtain ⟨rfl, rfl⟩ | ⟨next, stopped, rfl, rfl⟩ := hend
      · obtain ⟨oks, hplays, hout', hret⟩ := ih hout hrest
        refine ⟨true :: oks, .halted hload hlong hrun hplays, hout', fun ret hok => ?_⟩
        rw [hret ret hok, Bool.and_true, List.forall_mem_cons]
        exact and_congr_right fun _ => (and_iff_right rfl).symm
      · -- the files behind it are not reached
        obtain ⟨rfl, rfl, rfl⟩ := Program.returns_pure.mp hrest
        rw [cpuEvents_nil, wavEvents_nil, List.append_nil, List.append_nil]
        refine ⟨[true], .brokenOff hload hlong hrun, ?_, fun ret hok => by cases hok⟩
        show Outcome (samples ++ samplesOf (cpuEvents es₁) ++ []) _ _
        rw [List.append_nil]
        exact hout

/-- **The player.** Whatever the calls return: every file is handled in its turn, the
    ones that `load` accepts are played one after the other, each until the CPU halts,
    and nothing that is read of the others is heard. The samples are recorded as one
    recording, which ends the process at the latest with the last sample of the
    minute, and dumping the RAM leaves no trace in it. `main` succeeds when all files
    were loaded. -/
theorem main_records {rounds : Nat} {fns : List String} {out : Except Stopped Bool}
    (h : (main beyond rounds fns).Returns p out p' es) (hfresh : p.recorder = .init) :
    ∃ oks, Plays beyond p.loader p.machine fns oks p'.loader p'.machine (cpuEvents es) out.isOk ∧
      Outcome (samplesOf (cpuEvents es)) (wavEvents es) (recorded out p'.recorder) ∧
      ∀ ret, out = .ok ret → (ret = true ↔ ∀ loaded ∈ oks, loaded = true) := by
  have hrecorder : p.recorder.After [] [] := hfresh ▸ .init
  obtain ⟨oks, hplays, hout, hret⟩ := handleFiles_rule hrecorder h
  refine ⟨oks, hplays, hout, fun ret hok => ?_⟩
  rw [hret ret hok, eq_self_iff_true, true_and]

/-- A file with eight `nop` instructions, and behind them an opcode that is not
    implemented. It keeps the echo unit from writing. -/
def eightNops : Nat → Byte := fun i =>
  if i = offRam + 8 then 0xbd else if i = offDspRegs + regFlg.val then flgEchoDisabled else 0

/-- The bytes of the file. -/
def eightNopsFile : List Byte := (List.range sizeofSpcFile).map eightNops

theorem eightNopsFile_length : eightNopsFile.length = sizeofSpcFile := by
  rw [eightNopsFile, List.length_map, List.length_range]

theorem spcFileIn_eightNopsFile : spcFileIn eightNopsFile = spcFileOf eightNops := by
  refine spcFileOf_congr fun i hi => ?_
  rw [eightNopsFile, List.getD_eq_getElem?_getD, List.getElem?_map, List.getElem?_range hi]
  rfl

/-- There is no first file, and no file to dump to. The second file is read a byte at a
    time. -/
def haltingProcess (file : List Byte) : Process where
  loader :=
    { replies := .err .other :: .ok 3 :: List.replicate 0x10202 (.ok 1)
      files := fun _ => file
      unread := []
      spc := fun _ => 0 }
  os := { replies := [.err .other, .ok 0, .ok 3, .ok 0], blocks := 0, garbage := fun _ _ => 0 }
  machine := .init
  recorder := .init

/-- There is a sample before the CPU halts. -/
theorem eightNops_halts : ∃ m cs,
    (runInsns (fun _ => 0) 9 0).Returns (setupSpc700 .fast (spcFileOf eightNops) .init) none m cs ∧
      (samplesOf cs).length = 1 := by
  let run :=
    Program.exec (runInsns (fun _ => 0) 9 0) (setupSpc700 .fast (spcFileOf eightNops) .init)
  have hhalts : run.val.map Prod.fst = some none := by decide +kernel
  have hsample : (samplesOf run.events).length = 1 := by decide +kernel
  obtain ⟨⟨r, m⟩, hval, rfl⟩ := Option.map_eq_some_iff.mp hhalts
  exact ⟨m, run.events, Traced.ext hval rfl, hsample⟩

/-- The first file is skipped, and the second is played. -/
theorem haltingProcess_runs {file : List Byte} (hlength : sizeofSpcFile ≤ file.length)
    (hcontent : spcFileIn file = spcFileOf eightNops) :
    ∃ p es,
      (main (fun _ => 0) 9 ["a.spc", "b.spc"]).Returns (haltingProcess file) (.ok false) p es ∧
      (samplesOf (cpuEvents es)).length = 1 := by
  let missing : Loader :=
    { (haltingProcess file).loader with replies := .ok 3 :: List.replicate 0x10202 (.ok 1) }
  have hfirst : (handleFile (fun _ => 0) 9 "a.spc").Returns (haltingProcess file) (.ok false)
      { haltingProcess file with loader := missing }
      [.load (.openFile "a.spc" (.err .other))] := rfl
  obtain ⟨l, ls, hload⟩ := load_of_readable "b.spc" missing 3
    (fun _ h => ⟨1, Nat.one_pos, List.eq_of_mem_replicate h⟩)
    (List.length_replicate.ge : _ ≤ (List.replicate 0x10202 (Reply.ok 1)).length)
  have hlong : sizeofSpcFile ≤ (missing.files "b.spc").length := hlength
  rw [decide_eq_true hlong] at hload
  have hspc : spcFileOf l.spc = spcFileOf eightNops := (load_spcFile hload).2.trans hcontent
  have hsecond : (onLoader (load "b.spc")).Returns { haltingProcess file with loader := missing }
      true { haltingProcess file with loader := l } (ls.map .load) :=
    Program.returns_embed.mpr ⟨_, ls, hload, rfl, rfl⟩
  let loaded : Process :=
    { haltingProcess file with
      loader := l
      os := { (haltingProcess file).os with replies := [.ok 0, .ok 3, .ok 0] }
      machine := setupSpc700 .fast (spcFileOf l.spc) .init }
  have hsetup : setupPlayer.Returns { haltingProcess file with loader := l } () loaded _ := rfl
  obtain ⟨m, cs, hcpu, hsamples⟩ := eightNops_halts
  obtain ⟨sample, hone⟩ := List.length_eq_one_iff.mp hsamples
  have hrecord : (recordAll [sample] .init).Returns loaded.os _ _ _ := rfl
  rw [← hspc] at hcpu
  rw [← hone] at hrecord
  obtain ⟨es, hrun, rfl⟩ := runForever_of_runInsns (p := loaded) hcpu hrecord
  have hfile : (handleFile (fun _ => 0) 9 "b.spc").Returns _ (.ok true) _ _ :=
    hsecond.bind (hsetup.bind (hrun.bind (Program.returns_pure.mpr ⟨rfl, rfl, rfl⟩)))
  have hdone : ∀ {p}, (handleFiles (fun _ => 0) 9 false []).Returns p (.ok false) p [] :=
    Program.returns_pure.mpr ⟨rfl, rfl, rfl⟩
  refine ⟨_, _, hfirst.bind (hfile.bind hdone), ?_⟩
  have hload' : cpuEvents (ls.map .load) = [] := cpuEvents_other (fun _ => rfl) ls
  have hsetup' := (setupPlayer_rule hsetup).2.2.2.1
  simp only [cpuEvents_append, hload', hsetup', List.append_nil, List.nil_append]
  exact hsamples

/-- One of the two files is loaded, so `main` fails. -/
theorem main_records_halting : ∃ p es oks,
    (main (fun _ => 0) 9 ["a.spc", "b.spc"]).Returns (haltingProcess eightNopsFile) (.ok false)
      p es ∧
    (samplesOf (cpuEvents es)).length = 1 ∧
    Plays (fun _ => 0) (haltingProcess eightNopsFile).loader .init ["a.spc", "b.spc"] oks p.loader
      p.machine (cpuEvents es) true ∧
    Outcome (samplesOf (cpuEvents es)) (wavEvents es) (.inl p.recorder) ∧
    ¬ ∀ loaded ∈ oks, loaded = true := by
  obtain ⟨p, es, hrun, hone⟩ :=
    haltingProcess_runs eightNopsFile_length.ge spcFileIn_eightNopsFile
  obtain ⟨oks, hplays, hout, hret⟩ := main_records hrun rfl
  exact ⟨p, es, oks, hrun, hone, hplays, hout,
    fun hall => Bool.false_ne_true ((hret _ rfl).mpr hall)⟩

end SpuKit
