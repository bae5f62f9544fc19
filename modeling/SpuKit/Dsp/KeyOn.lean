import SpuKit.Dsp.Solo

/-!
# How often a voice is keyed on

The poll stores `regs[KON] & ~kon` in `kon`, so while a KON bit is left set the
latched bit alternates, and every other poll keys the voice on again. This file
counts the key-ons of a run exactly.

## Main definitions

- `Op.storesKon` — the operations that write the KON register
- `konSet`, `konLatched` — a voice's bit in the KON register and in `kon`
- `polls` — how often a run polls the keys

## Main results

- `keyOns_length` — the number of key-ons of a run
- `keyOns_le_one_iff` — when a run keys a voice on at most once
-/

namespace SpuKit

/-- The operations that write the KON register. -/
def Op.storesKon : Op → Bool
  | .store addr _ => addr == regKon
  | .restore _ => true
  | .reset => true
  | _ => false

section Bits

variable (i : Channel)

/-- The KON bit of a voice. -/
def konSet (d : Dsp) : Bool := (d.regs regKon).getLsbD i

/-- The bit of a voice in `kon`, the keys taken at the last poll. -/
def konLatched (d : Dsp) : Bool := d.kon.getLsbD i

/-- A test with the mask of a voice looks at its bit. -/
theorem and_channelBit_ne_zero (byte : Byte) :
    byte &&& channelBit i ≠ 0 ↔ byte.getLsbD i = true := by
  have hbit : channelBit i = BitVec.twoPow 8 i := by
    revert i
    decide
  have hne : BitVec.twoPow 8 (i : Nat) ≠ 0#8 := by
    revert i
    decide
  rw [hbit, BitVec.and_twoPow]
  split
  · next h => simpa [h] using hne
  · next h => exact iff_of_false (fun hz => hz rfl) h

/-- The next sample keys a voice on when it polls the keys, the KON bit is set
    and the last poll did not take it. -/
theorem pollsKeyOn_iff (d : Dsp) :
    PollsKeyOn i d ↔ d.toggle = true ∧ konSet i d = true ∧ konLatched i d = false := by
  rw [PollsKeyOn, konSet, konLatched]
  rw [and_channelBit_ne_zero, BitVec.getLsbD_and, BitVec.getLsbD_not]
  simp

theorem konLatched_nextSample (m : Mem) (d : Dsp) :
    konLatched i (nextSample m d).val.2.2 =
      if d.toggle then konSet i d && !konLatched i d else konLatched i d := by
  unfold konLatched konSet
  rw [nextSample_kon, ticked_kon]
  split
  · rw [BitVec.getLsbD_and, BitVec.getLsbD_not]
    simp
  · rfl

theorem konSet_nextSample (m : Mem) (d : Dsp) :
    konSet i (nextSample m d).val.2.2 = konSet i d := by
  unfold konSet
  rw [nextSample_regs m d control_kon]

theorem nextSample_keyOns (m : Mem) (d : Dsp) :
    keyOns (voiceEvents i (nextSample m d).events) =
      if d.toggle = true ∧ konSet i d = true ∧ konLatched i d = false then [()] else [] := by
  rw [(nextSample_voice m d i).2, voiceRun_keyOns]
  exact if_congr ((keyedOn_ticked_iff i d).trans (pollsKeyOn_iff i d)) rfl rfl

end Bits

/-- How many samples a run has. -/
def samples (ops : List Op) : Nat := ops.countP Op.isSample

/-- How often a run polls the keys: on every other sample, starting with the
    first one when `toggle` is set. -/
def polls (ops : List Op) (toggle : Bool) : Nat :=
  if toggle then (samples ops + 1) / 2 else samples ops / 2

/-- The key-ons of a voice whose KON bit stays set: one on every other poll. -/
def alternateKeyOns (polls : Nat) (latched : Bool) : Nat :=
  if latched then polls / 2 else (polls + 1) / 2

theorem samples_cons (op : Op) (ops : List Op) :
    samples (op :: ops) = samples ops + if op.isSample then 1 else 0 :=
  List.countP_cons

/-- An operation that leaves KON alone and is no sample leaves everything the
    poll looks at alone. -/
theorem step_keys {op : Op} (hkon : op.storesKon = false) (hsample : op.isSample = false)
    (i : Channel) (w : World) :
    konSet i (w.step op).val.dsp = konSet i w.dsp ∧
      konLatched i (w.step op).val.dsp = konLatched i w.dsp ∧
      (w.step op).val.dsp.toggle = w.dsp.toggle ∧ (w.step op).events = [] := by
  cases op with
  | store addr byte =>
    have haddr : regKon ≠ addr := fun h => by simp [Op.storesKon, h] at hkon
    refine ⟨?_, rfl, rfl, rfl⟩
    change (store w.dsp.regs addr byte regKon).getLsbD i = _
    rw [store]
    split <;> rw [Function.update_of_ne] <;> first | rfl | exact haddr | decide
  | poke mem => exact ⟨rfl, rfl, rfl, rfl⟩
  | restore saved => simp [Op.storesKon] at hkon
  | reset => simp [Op.storesKon] at hkon
  | sample => simp [Op.isSample] at hsample

/-- **The key-ons of a run** in which KON is not written: none when the KON bit
    is clear, and one on every other poll when it is set. -/
theorem keyOns_length (i : Channel) {ops : List Op} (hops : ∀ op ∈ ops, op.storesKon = false)
    (w : World) :
    (keyOns (voiceEvents i (runOps ops w).events)).length =
      if konSet i w.dsp then
        alternateKeyOns (polls ops w.dsp.toggle) (konLatched i w.dsp)
      else 0 := by
  induction ops generalizing w with
  | nil =>
    simp [voiceEvents, keyOns, polls, samples, alternateKeyOns]
  | cons op ops ih =>
    obtain ⟨hop, hops⟩ := List.forall_mem_cons.mp hops
    have ih := ih hops (w.step op).val
    rw [runOps_cons_events, voiceEvents_append, keyOns_append, List.length_append, ih]
    cases hsample : op.isSample with
    | false =>
      obtain ⟨hset, hlatched, htoggle, hevents⟩ := step_keys hop hsample i w
      rw [hset, hlatched, htoggle, hevents]
      simp [voiceEvents, keyOns, polls, samples_cons, hsample]
    | true =>
      obtain rfl : op = .sample := by cases op <;> simp_all [Op.isSample]
      rw [World.step_sample_dsp, World.step_sample_events, konSet_nextSample,
        konLatched_nextSample, nextSample_toggle, nextSample_keyOns]
      have hcount : samples (.sample :: ops) = samples ops + 1 := samples_cons .sample ops
      cases htoggle : w.dsp.toggle <;> cases hset : konSet i w.dsp <;>
        cases hlatched : konLatched i w.dsp <;>
        simp [alternateKeyOns, polls, hcount] <;> omega

/-- **Key-on is not edge triggered.** In a run in which KON is not written, a
    voice is keyed on at most once if and only if its KON bit is clear or the
    run polls the keys at most twice, or three times when the first poll finds
    the bit taken already. -/
theorem keyOns_le_one_iff (i : Channel) {ops : List Op}
    (hops : ∀ op ∈ ops, op.storesKon = false) (w : World) :
    (keyOns (voiceEvents i (runOps ops w).events)).length ≤ 1 ↔
      konSet i w.dsp = false ∨
        polls ops w.dsp.toggle ≤ if konLatched i w.dsp then 3 else 2 := by
  rw [keyOns_length i hops w]
  cases konSet i w.dsp <;> cases konLatched i w.dsp <;> simp [alternateKeyOns] <;> omega

/-- A process that restored a snapshot with KON left set for voice 0. -/
def konHeld : World := (runOps [.restore keyVoice0] ⟨⟨fun _ => 0, fun _ => 0⟩, .zero⟩).val

/-- Five samples poll the keys twice and key the voice on once. -/
theorem keyOns_le_one_five :
    (keyOns (voiceEvents 0 (runOps (List.replicate 5 .sample) konHeld).events)).length ≤ 1 :=
  (keyOns_le_one_iff 0 (by decide) konHeld).mpr (by decide)

/-- Six samples poll them three times and key it on twice. -/
theorem keyOn_not_edge_triggered :
    ¬ ∀ w, Reachable w → ∀ i ops, (∀ op ∈ ops, op = .sample) →
      (keyOns (voiceEvents i (runOps ops w).events)).length ≤ 1 := by
  intro h
  have hle := h konHeld ⟨_, _, rfl⟩ 0 (List.replicate 6 .sample)
    fun op hop => List.eq_of_mem_replicate hop
  rw [keyOns_length 0 (by decide) konHeld] at hle
  revert hle
  decide

end SpuKit
