import SpuKit.Dsp.State

/-!
# Envelopes

The ADSR and GAIN envelopes and the release ramp of a voice. Translated from
`run_adsr_env`, `run_gain_env`, `envelope_release` and `run_envelope`.
-/

namespace SpuKit

/-- `struct envelope`: a prospective level and the rate that commits it. -/
structure Envelope where
  env : Int
  rate : Nat

def runAdsrEnv (st : VState) (adsr1 adsr2 : Byte) : Traced VoiceEvent Envelope :=
  match st.envMode with
  | .attack =>
    let r := (adsr1 &&& adsr1AttackRateMask).toNat * 2 + 1
    pure { env := st.env + (if r = 0x1f then 0x400 else 0x20), rate := r }
  | .sustain =>
    let r := (adsr2 &&& adsr2SustainRateMask).toNat
    pure { env := st.env - ((st.env >>> (8 : Nat)) + 1), rate := r }
  | .decay =>
    let r := 0x10 + ((adsr1 >>> adsr1DecayRateShift) &&& adsr1DecayRateMask).toNat
    pure { env := st.env - ((st.env >>> (8 : Nat)) + 1), rate := r }
  | .release => unreachable { env := 0, rate := 0 }

def runGainEnv (st : VState) (gain : Byte) : Traced VoiceEvent Envelope :=
  let mode := (gain >>> gainModeShift) &&& gainModeMask
  let rate := (gain &&& gainRateMask).toNat
  if gain &&& gainModeCustom = 0 then
    pure { env := gain.toNat * 0x10, rate := 31 }
  else if mode = 0 then -- linear decrease
    pure { env := st.env - 0x20, rate := rate }
  else if mode = 1 then -- exponential decrease
    pure { env := st.env - ((st.env >>> (8 : Nat)) + 1), rate := rate }
  else if mode = 2 ∨ mode = 3 then -- linear and bent increase
    pure { env := st.env + 0x20, rate := rate }
  else unreachable { env := 0, rate := 0 }

def envelopeRelease (st : VState) : VState :=
  if st.env > 8 then { st with env := st.env - 8 } else { st with env := 0 }

/-- The last three steps of `run_envelope`: the stage changes are decided on
    the prospective level, which is committed only when the rate fires. -/
def commitEnvelope (ctr : Counters) (st : VState) (sustainTarget : Byte) (ret : Envelope) :
    Traced VoiceEvent VState := do
  -- trigger sustain?
  let st :=
    if ret.env >>> (8 : Nat) = sustainTarget.toNat ∧ st.envMode = .decay then
      { st with envMode := .sustain }
    else st
  -- trigger decay?
  let overflow := toUnsigned ret.env > 0x7ff
  let env := if overflow then (if ret.env < 0 then 0 else 0x7ff) else ret.env
  let st := if overflow ∧ st.envMode = .attack then { st with envMode := .decay } else st
  Traced.emit (.rate ret.rate)
  pure (if ctrRead ctr ret.rate then { st with env := env } else st)

def runEnvelope (ctr : Counters) (st : VState) (adsr1 adsr2 gain : Byte) :
    Traced VoiceEvent VState := do
  if st.envMode = .release then
    pure (envelopeRelease st)
  else if adsr1 &&& adsr1UseAdsr ≠ 0 then
    let ret ← runAdsrEnv st adsr1 adsr2
    commitEnvelope ctr st (adsr2 >>> adsr2SustainLevelShift) ret
  else
    let ret ← runGainEnv st gain
    commitEnvelope ctr st (gain >>> adsr2SustainLevelShift) ret

end SpuKit
