import Mathlib
import SpuKit.Dsp.AdsrStages
import SpuKit.Dsp.Silence

/-!
# The GAIN ramps

A voice that does not use ADSR has its level set or moved by GAIN. The level
moves with the pulses of a rate counter, whose times are known, so the level
after any number of samples is the ramp of GAIN applied once for each pulse. The
bent increase of the hardware is a plain one here.

## Main definitions

- `gainRate`, `gainStep` — the rate of a GAIN setting, and what a pulse does
- `gainPulses` — the pulses of the rate in a window of samples
- `UsesGain`, `GainRun` — a sample, and a run, in which GAIN moves the level
- `GainLevel` — where the level is after so many samples

## Main results

- `runEnvelope_gain` — one call
- `gain_run` — the level after a run of the DSP
- `gain_ramps` — the four ramps in closed form
-/

namespace SpuKit

-- ════════════════════════════════════════════════════════════════════════
-- One call
-- ════════════════════════════════════════════════════════════════════════

/-- The mode bits of a GAIN setting that is not direct. -/
def gainMode (gain : Byte) : Byte := (gain >>> gainModeShift) &&& gainModeMask

/-- The rate bits are those of a rate. -/
theorem gainRateMask_lt (gain : Byte) : (gain &&& gainRateMask).toNat < 32 := by
  revert gain
  decide

/-- The rate at which GAIN moves the level. A direct level has the fastest. -/
def gainRate (gain : Byte) : Fin 32 :=
  if gain &&& gainModeCustom = 0 then Fin.last 31
  else ⟨(gain &&& gainRateMask).toNat, gainRateMask_lt gain⟩

/-- What a pulse of the rate does to the level. -/
def gainStep (gain : Byte) (env : Int) : Int :=
  if gain &&& gainModeCustom = 0 then gain.toNat * 0x10
  else if gainMode gain = 0 then max 0 (env - 0x20)
  else if gainMode gain = 1 then max 0 (loweredLevel env)
  else min (env + 0x20) 0x7ff

section Call

variable (ctr : Counters) {st : VState} (adsr1 adsr2 gain : Byte)

theorem loweredLevel_bounds {env : Int} (h : 0 ≤ env ∧ env ≤ 0x7ff) :
    -1 ≤ loweredLevel env ∧ loweredLevel env ≤ env := by
  rw [loweredLevel, Int.shiftRight_eq_div_pow]
  omega

theorem gainMode_cases : gainMode gain = 0 ∨ gainMode gain = 1 ∨ gainMode gain = 2 ∨
    gainMode gain = 3 := by
  revert gain
  decide

theorem runGainEnv_gainRate : (runGainEnv st gain).val.rate = (gainRate gain).val := by
  rw [runGainEnv, gainRate]
  by_cases hcustom : gain &&& gainModeCustom = 0
  · rw [if_pos hcustom, if_pos hcustom]
    rfl
  · simp only [if_neg hcustom]
    have hmode := gainMode_cases gain
    rw [gainMode] at hmode
    split_ifs with h0 h1 h23
    · rfl
    · rfl
    · rfl
    · rcases hmode with h | h | h | h
      · exact absurd h h0
      · exact absurd h h1
      · exact absurd (Or.inl h) h23
      · exact absurd (Or.inr h) h23

theorem clampLevel_runGainEnv (h : 0 ≤ st.env ∧ st.env ≤ 0x7ff) :
    clampLevel (runGainEnv st gain).val.env = gainStep gain st.env := by
  have hlow := loweredLevel_bounds h
  have hmode := gainMode_cases gain
  have hdirect : gain &&& gainModeCustom = 0 → gain.toNat ≤ 0x7f := by
    revert gain
    decide
  rw [gainMode] at hmode
  rw [runGainEnv, gainStep, gainMode, clampLevel]
  split_ifs with hcustom h0 h1 h23
  · have := hdirect hcustom
    show max 0 (min ((gain.toNat : Int) * 0x10) 0x7ff) = _
    omega
  · show max 0 (min (st.env - 0x20) 0x7ff) = _
    omega
  · show max 0 (min (loweredLevel st.env) 0x7ff) = _
    omega
  · show max 0 (min (st.env + 0x20) 0x7ff) = _
    omega
  · rcases hmode with h | h | h | h
    · exact absurd h h0
    · exact absurd h h1
    · exact absurd (Or.inl h) h23
    · exact absurd (Or.inr h) h23

/-- A pulse keeps the level in range. -/
theorem gainStep_bounds {env : Int} (h : 0 ≤ env ∧ env ≤ 0x7ff) :
    0 ≤ gainStep gain env ∧ gainStep gain env ≤ 0x7ff := by
  have hlow := loweredLevel_bounds h
  have hdirect : gain &&& gainModeCustom = 0 → gain.toNat ≤ 0x7f := by
    revert gain
    decide
  rw [gainStep]
  split_ifs with hcustom
  · have := hdirect hcustom
    omega
  · omega
  · omega
  · omega

/-- **One call** moves the level when the rate of GAIN fires. -/
theorem runEnvelope_gain (hadsr : adsr1 &&& adsr1UseAdsr = 0) (hmode : st.envMode ≠ .release)
    (henv : 0 ≤ st.env ∧ st.env ≤ 0x7ff) :
    (runEnvelope ctr st adsr1 adsr2 gain).val.env =
        (if ctrRead ctr (gainRate gain) then gainStep gain st.env else st.env) ∧
      (runEnvelope ctr st adsr1 adsr2 gain).val.envMode ≠ .release := by
  refine ⟨?_, fun h => hmode ((runEnvelope_release_iff ctr st adsr1 adsr2 gain).mp h)⟩
  obtain ⟨hlo, hhi⟩ := runGainEnv_env gain henv
  rw [runEnvelope, if_neg hmode, if_neg (not_not.mpr hadsr)]
  show (commitEnvelope ctr st _ (runGainEnv st gain).val).val.env = _
  rw [commitEnvelope_val ctr _ hlo hhi, clampLevel_runGainEnv gain henv, runGainEnv_gainRate]

end Call

-- ════════════════════════════════════════════════════════════════════════
-- Runs
-- ════════════════════════════════════════════════════════════════════════

/-- The phase of a rate against the samples since `ctr_init`. -/
def ratePhase (r : Fin 32) : Nat :=
  ctrPhase (rateCounter r) + (ctrRate (rateCounter r)).toNat * (ctrInitial (rateCounter r)).toNat

/-- The pulses of the rate of GAIN at the `n` samples behind the `t`-th. -/
def gainPulses (gain : Byte) (t n : Nat) : Nat :=
  if (gainRate gain).val = 0 then 0
  else Periodic.pulses (ratePeriod (gainRate gain)) (ratePhase (gainRate gain)) t n

/-- The voice uses GAIN with this setting, and a sample neither keys it on or
    off nor cuts it. -/
structure UsesGain (gain : Byte) (m : Mem) (i : Channel) (d : Dsp) : Prop where
  adsr : (voice d.regs i).adsr1 &&& adsr1UseAdsr = 0
  gain : (voice d.regs i).gain = gain
  notOn : ¬ KeyedOn (ticked d) i
  notOff : ¬ KeyedOff (ticked d) i
  notCut : ¬ voiceCut d.regs (primed m i (ticked d))

/-- GAIN moves the level of the voice at every sample of the run, and nothing
    between the samples restarts the rate counters. -/
def GainRun (gain : Byte) (i : Channel) (ops : List Op) (w : World) : Prop :=
  StepSystem.Along World.step (fun op w =>
    (op.isSample = false → (w.step op).val.dsp.ctr = w.dsp.ctr) ∧
      (op.isSample = true → UsesGain gain w.mem i w.dsp)) ops w

/-- Where the level of the voice is `n` samples behind the `t`-th, at which it
    was `env`. -/
structure GainLevel (gain : Byte) (i : Channel) (t : Nat) (env : Int) (n : Nat) (w : World) :
    Prop where
  ctr : Counters.At (t + n) w.dsp.ctr
  attackDelay : (w.dsp.vstate i).attackDelay = 0
  running : (w.dsp.vstate i).envMode ≠ .release
  bounds : 0 ≤ (w.dsp.vstate i).env ∧ (w.dsp.vstate i).env ≤ 0x7ff
  level : (w.dsp.vstate i).env = (gainStep gain)^[gainPulses gain t n] env

section Run

variable {gain : Byte} {i : Channel} {t n : Nat} {env : Int} {w : World}

/-- The counters say when a rate fires next. -/
theorem gainPulses_succ {c : Counters} (h : Counters.At (t + n) c) :
    gainPulses gain t (n + 1) =
      gainPulses gain t n + if ctrRead (ctrRun c) (gainRate gain) then 1 else 0 := by
  rw [gainPulses, gainPulses]
  split
  · next hzero =>
    have hread := ctrRead_eq (ctrRun c) (gainRate gain)
    rw [if_pos (Fin.ext hzero)] at hread
    rw [hread]
    rfl
  · next hval =>
    have hne : gainRate gain ≠ 0 := fun h => hval (congrArg Fin.val h)
    have hfires : Periodic.FiresEvery (ratePeriod (gainRate gain)) (ratePhase (gainRate gain))
        fun k => (k + ratePhase (gainRate gain)) % ratePeriod (gainRate gain) = 0 :=
      fun _ => Iff.rfl
    rw [hfires.pulses_succ]
    exact congrArg _ (if_congr (h.ctrRun.ctrRead_iff hne).symm rfl rfl)

/-- **Step**: a sample moves the level when the rate fires. -/
theorem GainLevel.sample (huses : UsesGain gain w.mem i w.dsp) (h : GainLevel gain i t env n w) :
    GainLevel gain i t env (n + 1) (w.step .sample).val := by
  have hkeyed : (keyed w.mem i (ticked w.dsp)).envMode = (w.dsp.vstate i).envMode ∧
      (keyed w.mem i (ticked w.dsp)).env = (w.dsp.vstate i).env ∧
      (keyed w.mem i (ticked w.dsp)).attackDelay = 0 := by
    have hcut : ¬ voiceCut (ticked w.dsp).regs (primed w.mem i (ticked w.dsp)) := by
      rw [ticked_regs]
      exact huses.notCut
    rw [keyed_eq]
    simp only [if_neg huses.notOn, if_neg hcut, if_neg (not_or.mpr ⟨huses.notOff, hcut⟩),
      primed_envMode, primed_env, primed_attackDelay, ticked_vstate, h.attackDelay, if_true]
    trivial
  obtain ⟨hmode, henv, hdelay⟩ := hkeyed
  have hctr : (ticked w.dsp).ctr = ctrRun w.dsp.ctr := by
    simp only [ticked, pollKeys]
    split <;> rfl
  have henveloped : (enveloped w.mem i (ticked w.dsp)).1 =
      (runEnvelope (ctrRun w.dsp.ctr) (keyed w.mem i (ticked w.dsp))
        (voice w.dsp.regs i).adsr1 (voice w.dsp.regs i).adsr2 gain).val := by
    rw [enveloped_eq, if_pos hdelay, ticked_regs, hctr]
    exact congrArg (fun g => (runEnvelope _ _ _ _ g).val) huses.gain
  have hbounds : 0 ≤ (keyed w.mem i (ticked w.dsp)).env ∧
      (keyed w.mem i (ticked w.dsp)).env ≤ 0x7ff := by
    rw [henv]
    exact h.bounds
  obtain ⟨hlevel, hrunning⟩ := runEnvelope_gain (ctrRun w.dsp.ctr)
    (voice w.dsp.regs i).adsr1 (voice w.dsp.regs i).adsr2 gain
    huses.adsr (by rw [hmode]; exact h.running) hbounds
  rw [henv, ← henveloped, ← voiceRun_env] at hlevel
  rw [← henveloped, ← voiceRun_envMode] at hrunning
  have hvoice := (nextSample_voice w.mem w.dsp i).1
  rw [← hvoice] at hlevel hrunning
  refine ⟨?_, ?_, ?_, ?_, ?_⟩ <;> rw [World.step_sample_dsp]
  · rw [nextSample_ctr, hctr]
    exact h.ctr.ctrRun
  · rw [hvoice, voiceRun_attackDelay, if_neg huses.notOn, primed_attackDelay, ticked_vstate,
      if_pos h.attackDelay]
  · exact hrunning
  · rw [hlevel]
    split
    · exact gainStep_bounds gain h.bounds
    · exact h.bounds
  · rw [hlevel, gainPulses_succ h.ctr, h.level]
    split
    · exact (Function.iterate_succ_apply' ..).symm
    · rfl

/-- **Run**: the level after a run is the one before it, moved by every pulse. -/
theorem gain_run {ops : List Op} (hrun : GainRun gain i ops w) (h : GainLevel gain i t env 0 w) :
    GainLevel gain i t env (ops.countP Op.isSample) (runOps ops w).val := by
  rw [← Nat.zero_add (ops.countP Op.isSample)]
  refine StepSystem.run_counted (I := GainLevel gain i t env) ?_ ?_ hrun h
  · intro op w n hsample hop h
    obtain ⟨hvstate, -⟩ := World.step_idle hsample w
    refine ⟨?_, ?_, ?_, ?_, ?_⟩
    · rw [hop.1 hsample]
      exact h.ctr
    · rw [hvstate]
      exact h.attackDelay
    · rw [hvstate]
      exact h.running
    · rw [hvstate]
      exact h.bounds
    · rw [hvstate]
      exact h.level
  · intro op w n hsample hop h
    obtain rfl := Op.eq_sample hsample
    exact h.sample (hop.2 rfl)

end Run

-- ════════════════════════════════════════════════════════════════════════
-- The ramps
-- ════════════════════════════════════════════════════════════════════════

/-- A linear decrease. -/
theorem iterate_decrease {env : Int} (h : 0 ≤ env) (k : Nat) :
    (fun env : Int => max 0 (env - 0x20))^[k] env = max 0 (env - 0x20 * k) := by
  induction k with
  | zero =>
    show env = _
    push_cast
    omega
  | succ k ih =>
    rw [Function.iterate_succ_apply', ih]
    push_cast
    omega

/-- An increase. -/
theorem iterate_increase {env : Int} (h : env ≤ 0x7ff) (k : Nat) :
    (fun env : Int => min (env + 0x20) 0x7ff)^[k] env = min (env + 0x20 * k) 0x7ff := by
  induction k with
  | zero =>
    show env = _
    push_cast
    omega
  | succ k ih =>
    rw [Function.iterate_succ_apply', ih]
    push_cast
    omega

/-- An exponential decrease. -/
def expDecrease (env : Int) : Int := max 0 (loweredLevel env)

theorem expDecrease_mono : Monotone expDecrease := by
  intro env env' h
  rw [expDecrease, expDecrease, loweredLevel, loweredLevel, Int.shiftRight_eq_div_pow,
    Int.shiftRight_eq_div_pow]
  omega

/-- From the highest level 694 pulses lead down to 0. -/
theorem expDecrease_top : expDecrease^[694] 0x7ff = 0 := by
  decide +kernel

/-- From any level an exponential decrease is over after 694 pulses. -/
theorem iterate_expDecrease {env : Int} (h : 0 ≤ env ∧ env ≤ 0x7ff) {k : Nat} (hk : 694 ≤ k) :
    expDecrease^[k] env = 0 := by
  have hzero : ∀ n, expDecrease^[n] 0 = 0 := Function.iterate_fixed (by decide)
  have hnonneg : 0 ≤ expDecrease^[694] env := by
    rw [← hzero 694]
    exact expDecrease_mono.iterate 694 h.1
  have hle : expDecrease^[694] env ≤ 0 := by
    rw [← expDecrease_top]
    exact expDecrease_mono.iterate 694 h.2
  obtain ⟨j, rfl⟩ := Nat.exists_eq_add_of_le' hk
  rw [Function.iterate_add_apply, le_antisymm hle hnonneg, hzero]

section Ramps

variable {gain : Byte} {env : Int} {k : Nat}

theorem iterate_direct (hdirect : gain &&& gainModeCustom = 0) (hk : 0 < k) :
    (gainStep gain)^[k] env = gain.toNat * 0x10 := by
  obtain ⟨j, rfl⟩ := Nat.exists_eq_add_of_le' hk
  rw [Function.iterate_succ_apply']
  exact if_pos hdirect

/-- The setting of a ramp steps the level by its mode. -/
theorem gainStep_eq (hcustom : gain &&& gainModeCustom ≠ 0) :
    gainStep gain =
      if gainMode gain = 0 then fun env => max 0 (env - 0x20)
      else if gainMode gain = 1 then expDecrease
      else fun env => min (env + 0x20) 0x7ff := by
  funext env
  rw [gainStep, if_neg hcustom]
  split_ifs <;> rfl

/-- Every period of the rate has one pulse. -/
theorem gainPulses_mul (hrate : gainRate gain ≠ 0) (t j : Nat) :
    gainPulses gain t (j * ratePeriod (gainRate gain)) = j := by
  have hval : ¬ (gainRate gain).val = 0 := fun h => hrate (Fin.ext h)
  rw [gainPulses, if_neg hval]
  exact Periodic.pulses_mul (ratePeriod_pos _) _ _ j

/-- And a window that holds `k` periods has at least `k` pulses. -/
theorem le_gainPulses (hrate : gainRate gain ≠ 0) (t : Nat) {n : Nat}
    (h : k * ratePeriod (gainRate gain) ≤ n) : k ≤ gainPulses gain t n := by
  have hval : ¬ (gainRate gain).val = 0 := fun h => hrate (Fin.ext h)
  rw [gainPulses, if_neg hval]
  exact Periodic.le_pulses (ratePeriod_pos _) _ _ h

/-- The fastest rate has a pulse at every sample. -/
theorem gainPulses_direct (hdirect : gain &&& gainModeCustom = 0) (t n : Nat) :
    n ≤ gainPulses gain t n := by
  have hrate : gainRate gain = 31 := if_pos hdirect
  have hperiod : ratePeriod 31 = 1 := by decide
  apply le_gainPulses (by rw [hrate]; decide)
  rw [hrate, hperiod, Nat.mul_one]

end Ramps

/-- **The GAIN ramps.** In a run of any length in which GAIN moves the level of
    a voice, with the rate counters at any time since they were started and
    `k` pulses of the rate at the samples of the run: a direct setting is the
    level from the first sample on; the linear decrease and both increases move
    it by 32 for each pulse, as far as it goes; the exponential decrease is over
    after 694 pulses. A run of `j` periods of the rate has `j` pulses. -/
theorem gain_ramps {gain : Byte} {i : Channel} {t : Nat} {w : World} {ops : List Op}
    (hctr : Counters.At t w.dsp.ctr) (hdelay : (w.dsp.vstate i).attackDelay = 0)
    (hmode : (w.dsp.vstate i).envMode ≠ .release)
    (hbounds : 0 ≤ (w.dsp.vstate i).env ∧ (w.dsp.vstate i).env ≤ 0x7ff)
    (hrun : GainRun gain i ops w) :
    let env := (w.dsp.vstate i).env
    let env' := ((runOps ops w).val.dsp.vstate i).env
    let n := ops.countP Op.isSample
    let k := gainPulses gain t n
    (gain &&& gainModeCustom = 0 → 0 < n → env' = gain.toNat * 0x10) ∧
    (gain &&& gainModeCustom ≠ 0 →
      (gainMode gain = 0 → env' = max 0 (env - 0x20 * k)) ∧
      (gainMode gain = 1 → env' = expDecrease^[k] env ∧ (694 ≤ k → env' = 0)) ∧
      (gainMode gain = 2 ∨ gainMode gain = 3 → env' = min (env + 0x20 * k) 0x7ff)) ∧
    (gainRate gain ≠ 0 → ∀ j, (j * ratePeriod (gainRate gain) ≤ n → j ≤ k) ∧
      (n = j * ratePeriod (gainRate gain) → k = j)) := by
  intro env env' n k
  have hstart : GainLevel gain i t env 0 w := by
    refine ⟨hctr, hdelay, hmode, hbounds, ?_⟩
    have hzero : gainPulses gain t 0 = 0 := by
      rw [gainPulses]
      split
      · rfl
      · exact Periodic.pulses_zero ..
    rw [hzero]
    rfl
  have hlevel : env' = (gainStep gain)^[k] env := (gain_run hrun hstart).level
  refine ⟨fun hdirect hn => ?_, fun hcustom => ⟨fun hlinear => ?_, fun hexp => ?_, fun hrise => ?_⟩,
    fun hrate j => ⟨fun hj => le_gainPulses hrate t hj, fun hj => ?_⟩⟩
  · rw [hlevel, iterate_direct hdirect (hn.trans_le (gainPulses_direct hdirect t n))]
  · rw [hlevel, gainStep_eq hcustom, if_pos hlinear, iterate_decrease hbounds.1]
  · have hnot : ¬ gainMode gain = 0 := by
      rw [hexp]
      decide
    rw [hlevel, gainStep_eq hcustom, if_neg hnot, if_pos hexp]
    exact ⟨rfl, iterate_expDecrease hbounds⟩
  · have hnot : ¬ gainMode gain = 0 ∧ ¬ gainMode gain = 1 := by
      rcases hrise with h | h <;> rw [h] <;> decide
    rw [hlevel, gainStep_eq hcustom, if_neg hnot.1, if_neg hnot.2, iterate_increase hbounds.2]
  · show gainPulses gain t n = j
    rw [hj, gainPulses_mul hrate]

/-- A voice at level 0x100 whose GAIN is the fastest linear decrease. -/
def gainWorld : World :=
  ⟨⟨fun _ => 0, fun _ => 0⟩,
    { dspRestore (Function.update (fun _ => 0) (vreg 0 vregGain) 0x9f) .zero with
      vstate := fun _ => { VState.zero with envMode := .attack, env := 0x100 } }⟩

theorem gain_ramps_decrease :
    ((runOps [.sample] gainWorld).val.dsp.vstate 0).env =
      max 0 (0x100 - 0x20 * gainPulses 0x9f 0 1) := by
  have hrun : GainRun 0x9f 0 [.sample] gainWorld := by
    refine ⟨⟨fun h => absurd h (by decide), fun _ => ⟨?_, ?_, ?_, ?_, ?_⟩⟩, trivial⟩ <;>
      decide +kernel
  exact ((gain_ramps Counters.at_init rfl (by decide) (by decide) hrun).2.1 (by decide)).1
    (by decide)

end SpuKit
