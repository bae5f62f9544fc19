import SpuKit.Dsp.EchoFir
import SpuKit.Dsp.EchoSettles
import SpuKit.Dsp.Silence

/-!
# The end of the echo

Once the voices are quiet and nothing is fed back, a sample writes a pair of
zeros into the echo buffer. The buffer is a delay line, so one lap later every
sample reads zeros; eight samples after that the history of the filter holds
nothing else, and the echo is over. With the longest buffer all this takes less
than half a second.

## Main definitions

- `NoFeedback` — nothing is fed back

## Main results

- `writtenPair_of_quiet` — the pair a quiet sample writes
- `echoIo_reads_of_quiet` — a lap later it is read
- `falls_silent` — a DSP whose voices are silenced falls silent for good
-/

namespace SpuKit

/-- EFB feeds nothing back. -/
def NoFeedback (regs : Regs) : Prop := regs regEfb = 0

instance (regs : Regs) : Decidable (NoFeedback regs) := inferInstanceAs (Decidable (_ = _))

theorem sampleScale_zero_left (scale : Byte) : sampleScale 0 scale = 0 := by
  rw [sampleScale, zero_mul]
  rfl

theorem sampleScale_zero_right (sample : Int) : sampleScale sample 0 = 0 := by
  have hzero : (0 : Byte).toInt = 0 := rfl
  rw [sampleScale, hzero, mul_zero]
  rfl

section Sample

variable (m : Mem) {d : Dsp}

/-- **The pair a quiet sample writes** is silence. -/
theorem writtenPair_of_quiet (hquiet : VoicesQuiet d) (hefb : NoFeedback d.regs) :
    writtenPair m d = silence := by
  have hreg : (echoFilter m (mixed m d).2.2).val.2.regs regEfb = 0 := by
    rw [echoFilter_val]
    exact (mixed_regs m d (by decide)).trans hefb
  rw [writtenPair, feedback]
  simp only [hreg]
  rw [(mixed_of_quiet m hquiet).2, sampleBlendScale8, sampleScale_zero_right,
    sampleScale_zero_right]
  decide

/-- Without voices and without echo there is no sound. -/
theorem nextSample_of_silence (hquiet : VoicesQuiet d) (hecho : echoSample m d = silence) :
    (nextSample m d).val.1 = silence := by
  have hmix : ∀ mvol evol, masterMix silence.left silence.left mvol evol = 0 := by
    intro mvol evol
    have hzero : silence.left.toInt = 0 := rfl
    rw [masterMix, hzero, sampleScale_zero_left, sampleScale_zero_left]
    rfl
  have hmix' : ∀ mvol evol, masterMix silence.right silence.right mvol evol = 0 := hmix
  rw [echoSample] at hecho
  rw [nextSample_val]
  simp only [finishSample, Traced.val_bind, Traced.val_pure, hecho,
    (mixed_of_quiet m hquiet).1, hmix, hmix', ite_self]
  decide

end Sample

-- ════════════════════════════════════════════════════════════════════════
-- Runs
-- ════════════════════════════════════════════════════════════════════════

/-- Every sample of the run finds the voices quiet and feeds nothing back. -/
def QuietRun (ops : List Op) (w : World) : Prop :=
  StepSystem.Along World.step
    (fun op w => op.isSample = true → VoicesQuiet w.dsp ∧ NoFeedback w.dsp.regs) ops w

section Run

variable {ops : List Op} {w : World}

/-- The pairs a quiet run writes are silence. -/
theorem echoIo_writes_of_quiet (h : QuietRun ops w) {io : (Word × Word) × (Word × Word)}
    (hio : io ∈ echoIo ops w) : io.2 = (0, 0) := by
  induction ops generalizing w with
  | nil => simp [echoIo] at hio
  | cons op ops ih =>
    obtain ⟨hop, hrest⟩ := h
    rw [echoIo, List.mem_append] at hio
    rcases hio with hio | hio
    · split at hio
      · next hsample =>
        obtain ⟨hquiet, hefb⟩ := hop hsample
        rw [List.mem_singleton] at hio
        rw [hio, writtenPair_of_quiet w.mem hquiet hefb]
        rfl
      · simp at hio
    · exact ih hrest hio

theorem echoIo_append (ops ops' : List Op) (w : World) :
    echoIo (ops ++ ops') w = echoIo ops w ++ echoIo ops' (runOps ops w).val := by
  induction ops generalizing w with
  | nil => rfl
  | cons op ops ih =>
    rw [List.cons_append, echoIo, echoIo, ih, List.append_assoc]
    rfl

theorem Undisturbed.snoc (h : Undisturbed ops w) : Undisturbed (ops ++ [.sample]) w := by
  induction ops generalizing w with
  | nil => exact ⟨fun hsample => absurd hsample (by decide), trivial⟩
  | cons op ops ih => exact ⟨h.1, ih h.2⟩

/-- **A lap later** a quiet run reads silence, and so does the sample behind
    it. -/
theorem echoIo_reads_of_quiet {regs : Regs} (hwrites : EchoWrites regs)
    (h : EchoRunning regs w.dsp) (hrun : Undisturbed ops w) (hquiet : QuietRun ops w) {t : Nat}
    {io : (Word × Word) × (Word × Word)} (ht : slots regs ≤ t)
    (hio : (echoIo (ops ++ [.sample]) w)[t]? = some io) : io.1 = (0, 0) := by
  obtain ⟨hlt, rfl⟩ := List.getElem?_eq_some_iff.mp hio
  obtain ⟨hpos, -, -⟩ := slots_bounds regs
  have hdelay := (echoIo_isDelay hwrites h hrun.snoc).read_eq_write (t := t - slots regs)
    (by rwa [Ring.length_contents, Nat.sub_add_cancel ht])
  simp only [Ring.length_contents, Nat.sub_add_cancel ht] at hdelay
  rw [hdelay]
  apply echoIo_writes_of_quiet hquiet
  have hlen : (echoIo (ops ++ [.sample]) w).length = (echoIo ops w).length + 1 := by
    rw [echoIo_length, echoIo_length, List.countP_append]
    rfl
  simp only [echoIo_append]
  rw [List.getElem_append_left (by omega)]
  exact List.getElem_mem _

/-- The words the echo unit reads in a run, one pair a sample. -/
theorem reads_runOps {regs : Regs} (hwrites : EchoWrites regs) (h : EchoRunning regs w.dsp)
    (hrun : Undisturbed ops w) :
    leftReads (runOps ops w).events = (echoIo ops w).map (fun io => io.1.1) ∧
      rightReads (runOps ops w).events = (echoIo ops w).map (fun io => io.1.2) := by
  rw [leftReads, rightReads, runOps_flatMap _ (fun _ _ => rfl) (fun _ => rfl) hwrites h hrun,
    runOps_flatMap _ (fun _ _ => rfl) (fun _ => rfl) hwrites h hrun, List.map_eq_flatMap,
    List.map_eq_flatMap]
  exact ⟨rfl, rfl⟩

/-- The filter over words that are all 0. -/
theorem firSum_of_zero (regs : Regs) {reads : List Word} {t : Nat}
    (h : ∀ k, t - 7 ≤ k → reads.getD k 0 = 0) : firSum regs reads t = 0 := by
  have hzero : halfWord 0 = 0 := rfl
  refine Finset.sum_eq_zero fun i _ => ?_
  rw [h _ (by omega), hzero, zero_mul]
  rfl

/-- Behind a quiet run of a lap and seven samples the echo is over. -/
theorem echoSample_of_quiet {regs : Regs} (hwrites : EchoWrites regs)
    (h : EchoRunning regs w.dsp) (hrun : Undisturbed ops w) (hquiet : QuietRun ops w)
    (hlen : slots regs + 7 ≤ ops.countP Op.isSample) :
    echoSample (runOps ops w).val.mem (runOps ops w).val.dsp = silence := by
  obtain ⟨hhistory, hleft, hright⟩ := (EchoHistory.start w.dsp).run ops w
  have hreads := reads_runOps hwrites h hrun.snoc
  have hevents : (runOps (ops ++ [.sample]) w).events =
      (runOps ops w).events ++
        (nextSample (runOps ops w).val.mem (runOps ops w).val.dsp).events := by
    rw [runOps, StepSystem.run_append, Traced.events_bind]
    simp [runOps]
  have hzero : ∀ f : Word × Word → Word, f (0, 0) = 0 → ∀ k,
      ops.countP Op.isSample - 7 ≤ k →
      ((echoIo (ops ++ [.sample]) w).map fun io => f io.1).getD k 0 = 0 := by
    intro f hf k hk
    rw [List.getD_eq_getElem?_getD, List.getElem?_map]
    cases hio : (echoIo (ops ++ [.sample]) w)[k]? with
    | none => rfl
    | some io =>
      show f io.1 = 0
      rw [echoIo_reads_of_quiet hwrites h hrun hquiet (by omega) hio, hf]
  rw [List.nil_append] at hhistory
  rw [hhistory.echoSample_eq hleft hright (by omega), ← hevents, hreads.1, hreads.2,
    firSum_of_zero _ (hzero Prod.fst rfl), firSum_of_zero _ (hzero Prod.snd rfl)]
  decide

end Run

/-- A run that keeps the voices quiet and feeds nothing back is quiet. -/
theorem QuietRun.of_countsDown {P : Regs → Prop} {Inv : Nat → World → Prop}
    (h : CountsDown P Inv) (hquiet : ∀ w, Inv 0 w → VoicesQuiet w.dsp) {ops : List Op} {w : World}
    (hsettled : Inv 0 w) (hmeets : SamplesMeet P ops w) (hefb : SamplesMeet NoFeedback ops w) :
    QuietRun ops w ∧ VoicesQuiet (runOps ops w).val.dsp := by
  constructor
  · have hall := hmeets.settled h.idle h.count hsettled
    exact (hall.and hefb).mono fun op w' hop hsample => ⟨hquiet w' hop.1, hop.2 hsample⟩
  · exact hquiet _ (StepSystem.run_settles h.idle h.count hmeets hsettled (Nat.zero_le _))

/-- When the voices are silenced and nothing is fed back, a run is quiet behind
    its first 258 samples. -/
theorem QuietRun.of_silenced {pre post : List Op} {w : World} (hwf : w.VoicesWf)
    (hefb : SamplesMeet NoFeedback (pre ++ post) w)
    (hvoices : SamplesMeet AllKeysOff (pre ++ post) w ∨ SamplesMeet SoftReset (pre ++ post) w)
    (hlen : 258 ≤ pre.countP Op.isSample) :
    QuietRun post (runOps pre w).val ∧ VoicesQuiet (runOps post (runOps pre w).val).val.dsp := by
  have hpost := hefb.of_append.2
  rcases hvoices with hkeys | hreset
  · obtain ⟨hfirst, hrest⟩ := hkeys.of_append
    exact of_countsDown keysFading_countsDown (fun _ h => h.quiet)
      (keysOff_quiet hwf hfirst hlen) hrest hpost
  · obtain ⟨hfirst, hrest⟩ := hreset.of_append
    exact of_countsDown resetting_countsDown (fun _ h => h rfl)
      (softReset_quiet hfirst (by omega)) hrest hpost

/-- **A silenced DSP falls silent.** From every reachable state, however the
    voices and the echo buffer are set up: when every sample finds all keys off,
    or the soft reset, and no feedback, and nobody else touches the echo unit,
    then every sample behind the first 7680, one lap and seven is silence. -/
theorem falls_silent {w : World} (h : Reachable w) (hwrites : EchoWrites w.dsp.regs)
    {ops : List Op} (hrun : Undisturbed ops w) (hefb : SamplesMeet NoFeedback ops w)
    (hvoices : SamplesMeet AllKeysOff ops w ∨ SamplesMeet SoftReset ops w)
    (hlen : 0x1e00 + (slots w.dsp.regs + 7) ≤ ops.countP Op.isSample) :
    (nextSample (runOps ops w).val.mem (runOps ops w).val.dsp).val.1 = silence := by
  obtain ⟨pre, post, rfl, hpre⟩ := StepSystem.exists_counted_prefix
    (n := 0x1e00) (by omega : 0x1e00 ≤ ops.countP Op.isSample)
  obtain ⟨hfirst, hrest⟩ := hrun.of_append
  rw [List.countP_append, hpre] at hlen
  obtain ⟨hquiet, hend⟩ := QuietRun.of_silenced h.voicesWf hefb hvoices (by omega)
  have hrunning := EchoSettling.run h.echoCursor hfirst hpre.ge
  have heq : (runOps (pre ++ post) w).val = (runOps post (runOps pre w).val).val :=
    StepSystem.run_append_val ..
  rw [heq]
  exact nextSample_of_silence _ hend (echoSample_of_quiet hwrites hrunning hrest hquiet (by omega))

/-- What the registers no voice writes say is said in a run of samples alone. -/
theorem samplesMeet_samples {P : Regs → Prop}
    (hP : ∀ regs regs' : Regs, (∀ r, ControlReg r → regs' r = regs r) → P regs → P regs') (n : Nat)
    {w : World} (h : P w.dsp.regs) : SamplesMeet P (List.replicate n .sample) w := by
  induction n generalizing w with
  | zero => trivial
  | succ n ih =>
    refine ⟨fun _ => h, ih (hP _ _ (fun r hr => ?_) h)⟩
    rw [World.step_sample_dsp]
    exact nextSample_regs w.mem w.dsp hr

/-- A snapshot with all keys off and the echo volume up, whose echo buffer has 512 slots
    from 0x700 on. -/
def keysOffEchoing : Regs := fun r =>
  if r = regKoff then 0xff
  else if r = regEdl then 1
  else if r = regKon ∨ r = regFlg ∨ r = regEfb then 0
  else 7

/-- The echo buffer holds something that is heard. -/
theorem exists_keysOffEchoing :
    ∃ w, Reachable w ∧ w.dsp.regs = keysOffEchoing ∧
      (nextSample w.mem w.dsp).val.1 ≠ silence := by
  refine ⟨_, ⟨⟨fun _ => 0x20, fun _ => 0⟩, [.restore keysOffEchoing], rfl⟩, rfl, ?_⟩
  decide +kernel

theorem falls_silent_echoing :
    ∃ w : World, (nextSample w.mem w.dsp).val.1 ≠ silence ∧
      let w' := (runOps (List.replicate 0x2007 .sample) w).val
      (nextSample w'.mem w'.dsp).val.1 = silence := by
  obtain ⟨w, hreach, hregs, hloud⟩ := exists_keysOffEchoing
  refine ⟨w, hloud, falls_silent hreach (by rw [hregs]; decide) (undisturbed_samples _ _)
    (samplesMeet_samples ?_ _ (by rw [hregs]; decide))
    (Or.inl (samplesMeet_samples ?_ _ (by rw [hregs]; decide))) ?_⟩
  · intro regs regs' hr h
    exact (hr _ (by decide)).trans h
  · intro regs regs' hr h
    exact ⟨(hr _ (by decide)).trans h.1, (hr _ (by decide)).trans h.2⟩
  · rw [List.countP_replicate, hregs]
    decide

end SpuKit
