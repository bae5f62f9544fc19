import SpuKit.Dsp.RatePeriods
import SpuKit.Dsp.VoiceInvariant

/-!
# The stages of the ADSR envelope

An envelope that starts at level 0 in the attack stage goes through attack,
decay and sustain in this order. A stage is left on the prospective level, while
the level itself only moves when the rate fires, so the argument has to link
the two: a voice in the decay stage stays above the sustain level by more than
one step, and the equality test that ends the stage cannot be jumped over.

## Main definitions

- `envelopeRun` — consecutive `run_envelope` calls of one voice
- `sustainLevel` — the level at which the decay ends
- `AdsrLevel` — the invariant that links stage, level and target

## Main results

- `AdsrLevel.runEnvelope` — a call keeps the invariant and moves the stage on
- `adsr_stages` — the stages and the levels of a whole run
-/

namespace SpuKit

/-- Consecutive `run_envelope` calls with constant ADSR registers, one
    `ctr_run` apart. -/
def envelopeRun (c : Counters) (adsr1 adsr2 : Byte) (gain : Nat → Byte) (st : VState) :
    Nat → VState
  | 0 => st
  | n + 1 =>
    (runEnvelope (ctrRun^[n] c) (envelopeRun c adsr1 adsr2 gain st n) adsr1 adsr2 (gain n)).val

/-- The level `SL * 0x100` at which the decay ends. -/
def sustainLevel (adsr2 : Byte) : Int := (adsr2 >>> adsr2SustainLevelShift).toNat * 0x100

/-- The rate of the attack stage. -/
def attackRate (adsr1 : Byte) : Nat := (adsr1 &&& adsr1AttackRateMask).toNat * 2 + 1

/-- The step of the attack stage: the fastest rate has one of its own. -/
def attackStep (adsr1 : Byte) : Int := if attackRate adsr1 = 0x1f then 0x400 else 0x20

/-- A level after one step of the decay or the sustain stage. -/
def loweredLevel (env : Int) : Int := env - ((env >>> (8 : Nat)) + 1)

/-- A prospective level, brought into range. -/
def clampLevel (val : Int) : Int := max 0 (min val 0x7ff)

section Stages

variable (ctr : Counters) {st : VState} (adsr1 adsr2 gain : Byte)

theorem commitEnvelope_val (target : Byte) {ret : Envelope} (hlo : -0x800 ≤ ret.env)
    (hhi : ret.env ≤ 0x1000) :
    (commitEnvelope ctr st target ret).val =
      { st with
        env := if ctrRead ctr ret.rate then clampLevel ret.env else st.env
        envMode :=
          if (ret.env < 0 ∨ 0x7ff < ret.env) ∧ st.envMode = .attack then .decay
          else if ret.env >>> (8 : Nat) = target.toNat ∧ st.envMode = .decay then .sustain
          else st.envMode } := by
  have hover : toUnsigned ret.env > 0x7ff ↔ ret.env < 0 ∨ 0x7ff < ret.env := by
    rw [toUnsigned, BitVec.toNat_ofInt]
    omega
  have hlevel : (if toUnsigned ret.env > 0x7ff then (if ret.env < 0 then 0 else 0x7ff)
      else ret.env) = clampLevel ret.env := by
    rw [clampLevel]
    simp only [hover]
    split_ifs <;> omega
  rw [commitEnvelope]
  simp only [Traced.val_bind, Traced.val_pure, hlevel]
  simp only [hover]
  obtain ⟨_, env, _, _, _, _, mode, _, _, _, _, _⟩ := st
  cases mode with
  | release => split_ifs <;> simp_all
  | attack => split_ifs <;> simp_all
  | decay => split_ifs <;> simp_all
  | sustain => split_ifs <;> simp_all

theorem runEnvelope_of_adsr (hadsr : adsr1 &&& adsr1UseAdsr ≠ 0) (hmode : st.envMode ≠ .release)
    (henv : 0 ≤ st.env ∧ st.env ≤ 0x7ff) :
    (runEnvelope ctr st adsr1 adsr2 gain).val =
      let ret := (runAdsrEnv st adsr1 adsr2).val
      { st with
        env := if ctrRead ctr ret.rate then clampLevel ret.env else st.env
        envMode :=
          if (ret.env < 0 ∨ 0x7ff < ret.env) ∧ st.envMode = .attack then .decay
          else if ret.env >>> (8 : Nat) = (adsr2 >>> adsr2SustainLevelShift).toNat ∧
            st.envMode = .decay then .sustain
          else st.envMode } := by
  obtain ⟨hlo, hhi⟩ := runAdsrEnv_env adsr1 adsr2 henv
  rw [runEnvelope, if_neg hmode, if_pos hadsr]
  exact commitEnvelope_val ctr _ hlo hhi

theorem runEnvelope_attack (hadsr : adsr1 &&& adsr1UseAdsr ≠ 0) (hmode : st.envMode = .attack)
    (henv : 0 ≤ st.env ∧ st.env ≤ 0x7ff) :
    (runEnvelope ctr st adsr1 adsr2 gain).val =
      { st with
        env := if ctrRead ctr (attackRate adsr1) then min (st.env + attackStep adsr1) 0x7ff
          else st.env
        envMode := if 0x7ff < st.env + attackStep adsr1 then .decay else .attack } := by
  have hret : (runAdsrEnv st adsr1 adsr2).val =
      { env := st.env + attackStep adsr1, rate := attackRate adsr1 } := by
    rw [runAdsrEnv, hmode]
    rfl
  have hstep : 0 < attackStep adsr1 := by
    rw [attackStep]
    split <;> decide
  have hlevel : clampLevel (st.env + attackStep adsr1) = min (st.env + attackStep adsr1) 0x7ff := by
    rw [clampLevel]
    omega
  have hneg : ¬ st.env + attackStep adsr1 < 0 := by omega
  rw [runEnvelope_of_adsr ctr adsr1 adsr2 gain hadsr (by rw [hmode]; decide) henv, hret]
  simp only [hlevel, hmode, hneg, false_or, and_true, reduceCtorEq, and_false, if_false]

/-- The decay and the sustain stage step down alike. -/
theorem runEnvelope_fall (hadsr : adsr1 &&& adsr1UseAdsr ≠ 0)
    (hmode : st.envMode = .decay ∨ st.envMode = .sustain) (henv : 0 ≤ st.env ∧ st.env ≤ 0x7ff) :
    ∃ rate, (runEnvelope ctr st adsr1 adsr2 gain).val =
      { st with
        env := if ctrRead ctr rate then max 0 (loweredLevel st.env) else st.env
        envMode :=
          if loweredLevel st.env >>> (8 : Nat) = (adsr2 >>> adsr2SustainLevelShift).toNat
          then .sustain else st.envMode } := by
  obtain ⟨rate, hret⟩ : ∃ rate, (runAdsrEnv st adsr1 adsr2).val =
      { env := loweredLevel st.env, rate := rate } := by
    rw [runAdsrEnv]
    rcases hmode with hmode | hmode
    · rw [hmode]
      exact ⟨_, rfl⟩
    · rw [hmode]
      exact ⟨_, rfl⟩
  have hlow : loweredLevel st.env < st.env := by
    rw [loweredLevel, Int.shiftRight_eq_div_pow]
    omega
  have hlevel : clampLevel (loweredLevel st.env) = max 0 (loweredLevel st.env) := by
    rw [clampLevel]
    omega
  refine ⟨rate, ?_⟩
  have hne : st.envMode ≠ .release := by rcases hmode with h | h <;> rw [h] <;> decide
  rw [runEnvelope_of_adsr ctr adsr1 adsr2 gain hadsr hne henv, hret]
  rcases hmode with hmode | hmode
  · simp only [hlevel, hmode, reduceCtorEq, and_false, if_false, and_true]
  · simp only [hlevel, hmode, reduceCtorEq, and_false, if_false, ite_self]

end Stages

/-- The stage of a voice before and after a call. -/
inductive EnvState.Next : EnvState → EnvState → Prop
  | same (mode : EnvState) : Next mode mode
  | decay : Next .attack .decay
  | sustain : Next .decay .sustain

/-- The invariant of a run: the level is in range, the fastest attack is under
    way only while its rate fires, and the decay stage stays above the sustain
    level by more than a step. -/
structure AdsrLevel (c : Counters) (adsr1 adsr2 : Byte) (st : VState) : Prop where
  running : st.envMode ≠ .release
  bounds : 0 ≤ st.env ∧ st.env ≤ 0x7ff
  attack : st.envMode = .attack → attackRate adsr1 = 0x1f → st.env ≠ 0 → c.internal 0 = 1
  decay : st.envMode = .decay → min (sustainLevel adsr2 + 0x100) 0x7e0 ≤ st.env

/-- The fastest rate fires on every sample, or on none. -/
theorem ctrRead_fastest (c : Counters) : ctrRead c 0x1f = true ↔ c.internal 0 = 1 := by
  have hread : ctrRead c 0x1f = _ := ctrRead_eq c 31
  have hmask : ctrMask 31 = 0 := by decide
  have hcounter : rateCounter 31 = 0 := by decide
  rw [hmask, hcounter] at hread
  have hout : ¬ c.out 0 &&& (0 : Word).setWidth 32 ≠ 0 := by simp
  rw [hread, if_neg (by decide), if_neg hout, beq_iff_eq]
  rfl

theorem sustainLevel_bounds (adsr2 : Byte) :
    0 ≤ sustainLevel adsr2 ∧ sustainLevel adsr2 ≤ 0x700 := by
  have hlt : ∀ b : Byte, (b >>> adsr2SustainLevelShift).toNat ≤ 7 := by decide
  have := hlt adsr2
  rw [sustainLevel]
  omega

namespace AdsrLevel

variable {c : Counters} {adsr1 adsr2 : Byte} (gain : Byte) {st : VState}

/-- Counting on does not change whether the fastest rate fires. -/
theorem ctrRun (h : AdsrLevel c adsr1 adsr2 st) :
    AdsrLevel (SpuKit.ctrRun c) adsr1 adsr2 st where
  running := h.running
  bounds := h.bounds
  attack := by
    rw [(ctrRun_zero c).1]
    exact h.attack
  decay := h.decay

/-- **Step**, in the attack stage. -/
theorem rise (hadsr : adsr1 &&& adsr1UseAdsr ≠ 0) (h : AdsrLevel c adsr1 adsr2 st)
    (hmode : st.envMode = .attack) :
    let st' := (runEnvelope c st adsr1 adsr2 gain).val
    AdsrLevel c adsr1 adsr2 st' ∧ EnvState.Next st.envMode st'.envMode ∧ st.env ≤ st'.env := by
  obtain ⟨hlo, hhi⟩ := h.bounds
  have hstep : attackStep adsr1 = if attackRate adsr1 = 0x1f then 0x400 else 0x20 := rfl
  have hrise : st.env ≤ min (st.env + attackStep adsr1) 0x7ff := by
    split at hstep <;> omega
  have hle : min (st.env + attackStep adsr1) 0x7ff ≤ 0x7ff := min_le_right _ _
  rw [runEnvelope_attack c adsr1 adsr2 gain hadsr hmode h.bounds, hmode]
  refine ⟨⟨?_, ?_, ?_, ?_⟩, ?_, ?_⟩
  · show (if _ then EnvState.decay else .attack) ≠ .release
    split <;> decide
  · show 0 ≤ (if _ then _ else st.env) ∧ (if _ then _ else st.env) ≤ 0x7ff
    split
    · exact ⟨hlo.trans hrise, hle⟩
    · exact ⟨hlo, hhi⟩
  · -- a level the fastest rate has reached shows that this rate fires
    show _ → attackRate adsr1 = 0x1f → (if _ then _ else st.env) ≠ 0 → _
    intro _ hrate henv
    split at henv
    · next hfires => exact (ctrRead_fastest c).mp (hrate ▸ hfires)
    · exact h.attack hmode hrate henv
  · show (if _ then EnvState.decay else .attack) = .decay → _ ≤ if _ then _ else st.env
    intro hdecay
    have hover : 0x7ff < st.env + attackStep adsr1 := by
      by_contra hno
      rw [if_neg hno] at hdecay
      cases hdecay
    have htop : min (st.env + attackStep adsr1) 0x7ff = 0x7ff := min_eq_right hover.le
    by_cases hrate : attackRate adsr1 = 0x1f
    · rw [if_pos hrate] at hstep
      have hfires : ctrRead c (attackRate adsr1) = true :=
        hrate ▸ (ctrRead_fastest c).mpr (h.attack hmode hrate (by omega))
      rw [if_pos hfires, htop]
      exact (min_le_right _ _).trans (by decide)
    · rw [if_neg hrate] at hstep
      have hnear : 0x7e0 ≤ st.env := by omega
      apply (min_le_right _ _).trans
      split
      · exact hnear.trans hrise
      · exact hnear
  · show EnvState.Next .attack (if _ then .decay else .attack)
    split
    · exact .decay
    · exact .same _
  · show st.env ≤ if _ then _ else st.env
    split
    · exact hrise
    · exact le_rfl

/-- **Step**, in the decay and the sustain stage. -/
theorem fall (hadsr : adsr1 &&& adsr1UseAdsr ≠ 0) (h : AdsrLevel c adsr1 adsr2 st)
    (hmode : st.envMode = .decay ∨ st.envMode = .sustain) :
    let st' := (runEnvelope c st adsr1 adsr2 gain).val
    AdsrLevel c adsr1 adsr2 st' ∧ EnvState.Next st.envMode st'.envMode ∧ st'.env ≤ st.env := by
  have hbounds := h.bounds
  have hsustain := sustainLevel_bounds adsr2
  obtain ⟨rate, hval⟩ := runEnvelope_fall c adsr1 adsr2 gain hadsr hmode h.bounds
  have hlow : st.env - 8 ≤ loweredLevel st.env ∧ loweredLevel st.env < st.env := by
    rw [loweredLevel, Int.shiftRight_eq_div_pow]
    omega
  rw [hval]
  have hmax : loweredLevel st.env ≤ max 0 (loweredLevel st.env) := le_max_right _ _
  have hfall : max 0 (loweredLevel st.env) ≤ st.env := by omega
  refine ⟨⟨?_, ?_, ?_, ?_⟩, ?_, ?_⟩
  · show (if _ then EnvState.sustain else st.envMode) ≠ .release
    split
    · decide
    · exact h.running
  · show 0 ≤ (if _ then _ else st.env) ∧ (if _ then _ else st.env) ≤ 0x7ff
    split
    · exact ⟨le_max_left _ _, hfall.trans hbounds.2⟩
    · exact hbounds
  · show (if _ then EnvState.sustain else st.envMode) = .attack → _
    intro hattack
    split at hattack
    · cases hattack
    · rcases hmode with hmode | hmode <;> rw [hmode] at hattack <;> cases hattack
  · -- one step leads at most to the sustain level, where the test ends the stage
    show (if _ then EnvState.sustain else st.envMode) = .decay → _ ≤ if _ then _ else st.env
    intro hdecay
    split at hdecay
    · cases hdecay
    · next htest =>
      have habove := h.decay hdecay
      have hnext : sustainLevel adsr2 + 0x100 ≤ loweredLevel st.env := by
        rw [Int.shiftRight_eq_div_pow] at htest
        rw [sustainLevel] at *
        omega
      split
      · exact (min_le_left _ _).trans (hnext.trans hmax)
      · exact habove
  · show EnvState.Next st.envMode (if _ then .sustain else st.envMode)
    split
    · rcases hmode with hmode | hmode <;> rw [hmode]
      · exact .sustain
      · exact .same _
    · exact .same _
  · show (if _ then _ else st.env) ≤ st.env
    split
    · exact hfall
    · exact le_rfl

/-- **Step**: a call keeps the invariant and moves the stage on. -/
theorem step (hadsr : adsr1 &&& adsr1UseAdsr ≠ 0) (h : AdsrLevel c adsr1 adsr2 st) :
    let st' := (runEnvelope c st adsr1 adsr2 gain).val
    AdsrLevel c adsr1 adsr2 st' ∧ EnvState.Next st.envMode st'.envMode ∧
      (st.envMode = .attack → st.env ≤ st'.env) ∧ (st.envMode ≠ .attack → st'.env ≤ st.env) := by
  intro st'
  cases hmode : st.envMode with
  | release => exact absurd hmode h.running
  | attack =>
    obtain ⟨hlevel, hnext, hrise⟩ := h.rise gain hadsr hmode
    rw [hmode] at hnext
    exact ⟨hlevel, hnext, fun _ => hrise, fun hne => absurd rfl hne⟩
  | decay =>
    obtain ⟨hlevel, hnext, hfall⟩ := h.fall gain hadsr (Or.inl hmode)
    rw [hmode] at hnext
    exact ⟨hlevel, hnext, nofun, fun _ => hfall⟩
  | sustain =>
    obtain ⟨hlevel, hnext, hfall⟩ := h.fall gain hadsr (Or.inr hmode)
    rw [hmode] at hnext
    exact ⟨hlevel, hnext, nofun, fun _ => hfall⟩

end AdsrLevel

/-- A sequence of stages that starts in the attack stage is attacks, then
    decays, then sustains. -/
theorem stages_in_order (stage : Nat → EnvState) (hstart : stage 0 = .attack)
    (hnext : ∀ n, EnvState.Next (stage n) (stage (n + 1))) (n : Nat) :
    ∃ a b, 0 < a ∧ a < b ∧ ∀ k ≤ n, stage k =
      if k < a then .attack else if k < b then .decay else .sustain := by
  induction n with
  | zero =>
    refine ⟨1, 2, by omega, by omega, ?_⟩
    intro k hk
    obtain rfl : k = 0 := by omega
    exact hstart
  | succ n ih =>
    obtain ⟨a, b, ha, hab, hstages⟩ := ih
    have hn := hstages n le_rfl
    have hstep := hnext n
    -- the new stage is the last of its kind, or the first of the next
    suffices h : ∃ a' b', 0 < a' ∧ a' < b' ∧
        (∀ k ≤ n, (k < a' ↔ k < a) ∧ (k < b' ↔ k < b ∨ k < a)) ∧
        stage (n + 1) =
          if n + 1 < a' then .attack else if n + 1 < b' then .decay else .sustain by
      obtain ⟨a', b', ha', hab', hbefore, hnew⟩ := h
      refine ⟨a', b', ha', hab', fun k hk => ?_⟩
      rcases Nat.lt_or_ge n k with hlt | hle
      · obtain rfl : k = n + 1 := by omega
        exact hnew
      · obtain ⟨hka, hkb⟩ := hbefore k hle
        rw [hstages k hle]
        simp only [hka, hkb]
        split_ifs <;> first | rfl | omega
    by_cases hattack : n < a
    · rw [hn, if_pos hattack] at hstep
      generalize stage (n + 1) = new at hstep ⊢
      cases hstep with
      | same =>
        exact ⟨n + 2, n + 3, by omega, by omega, fun k hk => by omega, by rw [if_pos (by omega)]⟩
      | decay =>
        refine ⟨n + 1, n + 2, by omega, by omega, fun k hk => by omega, ?_⟩
        rw [if_neg (by omega), if_pos (by omega)]
    · by_cases hdecay : n < b
      · rw [hn, if_neg hattack, if_pos hdecay] at hstep
        generalize stage (n + 1) = new at hstep ⊢
        cases hstep with
        | same =>
          refine ⟨a, n + 2, ha, by omega, fun k hk => by omega, ?_⟩
          rw [if_neg (by omega), if_pos (by omega)]
        | sustain =>
          refine ⟨a, n + 1, ha, by omega, fun k hk => by omega, ?_⟩
          rw [if_neg (by omega), if_neg (by omega)]
      · rw [hn, if_neg hattack, if_neg hdecay] at hstep
        generalize stage (n + 1) = new at hstep ⊢
        cases hstep with
        | same =>
          refine ⟨a, b, ha, hab, fun k hk => by omega, ?_⟩
          rw [if_neg (by omega), if_neg (by omega)]

section Run

variable (c : Counters) {adsr1 : Byte} (adsr2 : Byte) (gain : Nat → Byte) {st : VState}

theorem envelopeRun_level (hadsr : adsr1 &&& adsr1UseAdsr ≠ 0) (hmode : st.envMode = .attack)
    (henv : st.env = 0) (n : Nat) :
    AdsrLevel (ctrRun^[n] c) adsr1 adsr2 (envelopeRun c adsr1 adsr2 gain st n) := by
  induction n with
  | zero =>
    refine ⟨?_, ?_, ?_, ?_⟩
    · show st.envMode ≠ .release
      rw [hmode]
      decide
    · show 0 ≤ st.env ∧ st.env ≤ 0x7ff
      rw [henv]
      decide
    · exact fun _ _ hne => absurd henv hne
    · intro hdecay
      cases hmode.symm.trans hdecay
  | succ n ih =>
    rw [Function.iterate_succ_apply']
    exact (ih.step (gain n) hadsr).1.ctrRun

/-- **ADSR stages.** From level 0 in the attack stage, with constant ADSR
    registers and any phase of the rate counters, the stages are attacks, then
    decays, then sustains; the level does not decrease in the attack stage and
    does not increase in the other two, stays in range, and is never below the
    sustain level in the decay stage. -/
theorem adsr_stages (hadsr : adsr1 &&& adsr1UseAdsr ≠ 0) (hmode : st.envMode = .attack)
    (henv : st.env = 0) (n : Nat) :
    let run := envelopeRun c adsr1 adsr2 gain st
    (∃ a b, 0 < a ∧ a < b ∧ ∀ k ≤ n, (run k).envMode =
      if k < a then .attack else if k < b then .decay else .sustain) ∧
    ((run n).envMode = .attack → (run n).env ≤ (run (n + 1)).env) ∧
    ((run n).envMode ≠ .attack → (run (n + 1)).env ≤ (run n).env) ∧
    ((run n).envMode = .decay → sustainLevel adsr2 ≤ (run n).env) ∧
    0 ≤ (run n).env ∧ (run n).env ≤ 0x7ff := by
  intro run
  have hlevel : ∀ k, AdsrLevel (ctrRun^[k] c) adsr1 adsr2 (run k) :=
    envelopeRun_level c adsr2 gain hadsr hmode henv
  have hstep := fun k => (hlevel k).step (gain k) hadsr
  refine ⟨?_, (hstep n).2.2.1, (hstep n).2.2.2, ?_, (hlevel n).bounds⟩
  · exact stages_in_order (fun k => (run k).envMode) hmode (fun k => (hstep k).2.1) n
  · intro hdecay
    have habove := (hlevel n).decay hdecay
    have hsustain := sustainLevel_bounds adsr2
    omega

end Run

/-- The fastest attack of a fresh process, with sustain level 7. -/
theorem adsr_stages_fast :
    let run := envelopeRun ctrInit 0x8f 0xff (fun _ => 0) { VState.zero with envMode := .attack }
    (∃ a b, 0 < a ∧ a < b ∧ ∀ k ≤ 8, (run k).envMode =
      if k < a then .attack else if k < b then .decay else .sustain) ∧
    ((run 8).envMode = .attack → (run 8).env ≤ (run 9).env) ∧
    ((run 8).envMode ≠ .attack → (run 9).env ≤ (run 8).env) ∧
    ((run 8).envMode = .decay → sustainLevel 0xff ≤ (run 8).env) ∧
    0 ≤ (run 8).env ∧ (run 8).env ≤ 0x7ff :=
  adsr_stages ctrInit 0xff (fun _ => 0) (by decide) rfl rfl 8

end SpuKit
