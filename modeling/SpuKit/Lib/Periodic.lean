import Mathlib.Data.Nat.ModEq
import Mathlib.Logic.ExistsUnique

/-!
# Periodic signals and dividers

A signal over discrete time that is up exactly once in every `N` steps. A
divider counts the pulses of such a signal and puts out every `M`-th of them;
the result is periodic again, with the product of the two periods.

## Main definitions

- `Periodic.FiresEvery` — the signal is up at the times of one residue class
- `Periodic.pulses` — how often it is up in a window

## Main results

- `Periodic.succ_of_last`, `Periodic.succ_of_not_last` — one step of a divider
- `Periodic.cascade` — a divider behind a divider
- `Periodic.FiresEvery.existsUnique` — any window of one period has one pulse
- `Periodic.FiresEvery.pulses_succ`, `Periodic.pulses_mul` — the pulses of a window
-/

namespace Periodic

/-- The signal is up exactly at the times that are `-phase` modulo `N`. -/
def FiresEvery (N phase : ℕ) (fire : ℕ → Prop) : Prop := ∀ t, fire t ↔ (t + phase) % N = 0

/-- The last step of a period of a divider. -/
theorem succ_of_last {P t : ℕ} (hlast : t % P + 1 = P) :
    (t + 1) / P = t / P + 1 ∧ (t + 1) % P = 0 := by
  have hP : 0 < P := by omega
  apply (Nat.div_mod_unique hP).mpr
  have hsplit := Nat.div_add_mod t P
  rw [Nat.mul_add, Nat.mul_one]
  omega

/-- Any other step of a period. -/
theorem succ_of_not_last {P t : ℕ} (hP : 0 < P) (hlast : t % P + 1 ≠ P) :
    (t + 1) / P = t / P ∧ (t + 1) % P = t % P + 1 := by
  apply (Nat.div_mod_unique hP).mpr
  have hsplit := Nat.div_add_mod t P
  have hlt := Nat.mod_lt t hP
  omega

/-- Every `M`-th pulse of a divider by `P`, counted from `start` on, is a pulse
    of a divider by `P * M`. -/
theorem cascade {P M : ℕ} (hP : 0 < P) (start t : ℕ) :
    t % P = 0 ∧ (start + t / P) % M = 0 ↔ (t + P * start) % (P * M) = 0 := by
  constructor
  · rintro ⟨hdiv, hmod⟩
    have ht : t + P * start = P * (start + t / P) := by
      rw [Nat.mul_add, Nat.mul_div_cancel' (Nat.dvd_of_mod_eq_zero hdiv), Nat.add_comm]
    rw [ht, Nat.mul_mod_mul_left, hmod, Nat.mul_zero]
  · intro h
    have hdvd : P * M ∣ t + P * start := Nat.dvd_of_mod_eq_zero h
    have hP' : P ∣ t :=
      (Nat.dvd_add_left (Nat.dvd_mul_right P start)).mp (Nat.dvd_trans (Nat.dvd_mul_right P M) hdvd)
    obtain ⟨q, rfl⟩ := hP'
    refine ⟨Nat.mul_mod_right P q, ?_⟩
    rw [← Nat.mul_add, Nat.mul_mod_mul_left] at h
    rw [Nat.mul_div_cancel_left q hP, Nat.add_comm]
    exact (Nat.mul_eq_zero.mp h).resolve_left hP.ne'

/-- Two times of one residue class in a window of one period are the same. -/
theorem eq_of_mod_eq_zero {N phase n k k' : ℕ} (h : (k + phase) % N = 0)
    (h' : (k' + phase) % N = 0) (hk : n < k ∧ k ≤ n + N) (hk' : n < k' ∧ k' ≤ n + N) :
    k = k' := by
  have hmod : k ≡ k' [MOD N] := Nat.ModEq.add_right_cancel' phase (h.trans h'.symm)
  rcases Nat.le_total k k' with hle | hle
  · have hdvd := (Nat.modEq_iff_dvd' hle).mp hmod
    have hzero := Nat.eq_zero_of_dvd_of_lt hdvd (by omega)
    omega
  · have hdvd := (Nat.modEq_iff_dvd' hle).mp hmod.symm
    have hzero := Nat.eq_zero_of_dvd_of_lt hdvd (by omega)
    omega

/-- **One pulse in every period**, wherever the window starts. -/
theorem FiresEvery.existsUnique {N phase : ℕ} {fire : ℕ → Prop} (hfire : FiresEvery N phase fire)
    (hN : 0 < N) (n : ℕ) : ∃! k, n < k ∧ k ≤ n + N ∧ fire k := by
  have hlt : (n + phase) % N < N := Nat.mod_lt _ hN
  have hpulse : (n + (N - (n + phase) % N) + phase) % N = 0 := by
    have hsplit := Nat.div_add_mod (n + phase) N
    have hnext : n + (N - (n + phase) % N) + phase = N * ((n + phase) / N + 1) := by
      rw [Nat.mul_add, Nat.mul_one]
      omega
    rw [hnext, Nat.mul_mod_right]
  refine ⟨n + (N - (n + phase) % N), ⟨by omega, by omega, (hfire _).mpr hpulse⟩, ?_⟩
  rintro k ⟨hlo, hhi, hk⟩
  exact eq_of_mod_eq_zero ((hfire k).mp hk) hpulse ⟨hlo, hhi⟩ ⟨by omega, by omega⟩

/-- The pulses at the `n` times behind `t` of a signal of period `N`. -/
def pulses (N phase t n : ℕ) : ℕ := (t + phase + n) / N - (t + phase) / N

@[simp] theorem pulses_zero (N phase t : ℕ) : pulses N phase t 0 = 0 := Nat.sub_self _

/-- One more time adds its pulse. -/
theorem FiresEvery.pulses_succ {N phase : ℕ} {fire : ℕ → Prop} [DecidablePred fire]
    (hfire : FiresEvery N phase fire) (t n : ℕ) :
    pulses N phase t (n + 1) = pulses N phase t n + if fire (t + n + 1) then 1 else 0 := by
  have hle : (t + phase) / N ≤ (t + phase + n) / N := Nat.div_le_div_right (by omega)
  have hpulse : fire (t + n + 1) ↔ N ∣ t + phase + n + 1 := by
    rw [hfire, ← Nat.dvd_iff_mod_eq_zero]
    have hsum : t + n + 1 + phase = t + phase + n + 1 := by omega
    rw [hsum]
  rw [pulses, pulses, ← Nat.add_assoc, Nat.succ_div]
  simp only [hpulse]
  split <;> omega

/-- So many periods have as many pulses. -/
theorem pulses_mul {N : ℕ} (hN : 0 < N) (phase t k : ℕ) : pulses N phase t (k * N) = k := by
  rw [pulses, Nat.add_mul_div_right _ _ hN, Nat.add_sub_cancel_left]

/-- A longer window has at least these. -/
theorem le_pulses {N : ℕ} (hN : 0 < N) (phase t : ℕ) {k n : ℕ} (h : k * N ≤ n) :
    k ≤ pulses N phase t n := by
  have hmono : (t + phase + k * N) / N ≤ (t + phase + n) / N :=
    Nat.div_le_div_right (Nat.add_le_add_left h _)
  rw [Nat.add_mul_div_right _ _ hN] at hmono
  rw [pulses]
  omega

end Periodic
