import Mathlib.Logic.Basic

/-!
# Counted total correctness

What a transition relation must be able to do from every state that satisfies a
precondition: reach, in exactly so many steps, a state that satisfies a
postcondition. The rules are those of straight-line code, of a loop that counts
down, of a loop that is never left, and of a simulation.

## Main definitions

- `StepsIn` — a number of steps
- `LeadsIn` — so many steps lead from a precondition to a postcondition

## Main results

- `LeadsIn.step`, `LeadsIn.seq` — straight-line code
- `LeadsIn.countdown` — a loop that counts down
- `LeadsIn.stays` — a loop that is never left
- `LeadsIn.simulate` — the steps of one relation carried over to another
-/

variable {α β : Type} {r : α → α → Prop}

/-- `n` steps of the relation. -/
def StepsIn (r : α → α → Prop) : Nat → α → α → Prop
  | 0, a, b => a = b
  | n + 1, a, c => ∃ b, r a b ∧ StepsIn r n b c

theorem StepsIn.append {n k : Nat} {a b c : α} (h : StepsIn r n a b) (h' : StepsIn r k b c) :
    StepsIn r (n + k) a c := by
  induction n generalizing a with
  | zero =>
    obtain rfl : a = b := h
    rwa [Nat.zero_add]
  | succ n ih =>
    obtain ⟨a', hstep, hrest⟩ := h
    rw [Nat.succ_add]
    exact ⟨a', hstep, ih hrest⟩

/-- From every state with `P`, `n` steps lead to a state with `Q`. -/
def LeadsIn (r : α → α → Prop) (n : Nat) (P Q : α → Prop) : Prop :=
  ∀ a, P a → ∃ b, StepsIn r n a b ∧ Q b

namespace LeadsIn

variable {n k : Nat} {P P' Q Q' R : α → Prop}

/-- **Consequence** -/
theorem mono (h : LeadsIn r n P Q) (hP : ∀ a, P' a → P a) (hQ : ∀ a, Q a → Q' a) :
    LeadsIn r n P' Q' := by
  intro a ha
  obtain ⟨b, hsteps, hb⟩ := h a (hP a ha)
  exact ⟨b, hsteps, hQ b hb⟩

/-- **Step** -/
theorem step (h : ∀ a, P a → ∃ b, r a b ∧ Q b) : LeadsIn r 1 P Q := by
  intro a ha
  obtain ⟨b, hstep, hb⟩ := h a ha
  exact ⟨b, ⟨b, hstep, rfl⟩, hb⟩

/-- **Sequence** -/
theorem seq (h : LeadsIn r n P Q) (h' : LeadsIn r k Q R) : LeadsIn r (n + k) P R := by
  intro a ha
  obtain ⟨b, hsteps, hb⟩ := h a ha
  obtain ⟨c, hsteps', hc⟩ := h' b hb
  exact ⟨c, hsteps.append hsteps', hc⟩

/-- **Countdown**: every round takes `n` steps and counts down by one. -/
theorem countdown {I : Nat → α → Prop} (h : ∀ k, LeadsIn r n (I (k + 1)) (I k)) (k : Nat) :
    LeadsIn r (n * k) (I k) (I 0) := by
  induction k with
  | zero => exact fun a ha => ⟨a, rfl, ha⟩
  | succ k ih =>
    have hround := (h k).seq ih
    rwa [Nat.add_comm, ← Nat.mul_succ] at hround

/-- **Spinning**: what every step keeps is kept for ever. -/
theorem stays (h : LeadsIn r 1 P P) (n : Nat) : LeadsIn r n P P := by
  induction n with
  | zero => exact fun a ha => ⟨a, rfl, ha⟩
  | succ n ih =>
    rw [Nat.add_comm n 1]
    exact h.seq ih

/-- **Simulation**: when every step of `r` is matched by a step of `s`, so are the
    steps that `r` can do. -/
theorem simulate {s : β → β → Prop} {S : α → β → Prop}
    (hsim : ∀ a a' b, r a a' → S a b → ∃ b', s b b' ∧ S a' b') (h : LeadsIn r n P Q) :
    LeadsIn s n (fun b => ∃ a, S a b ∧ P a) (fun b => ∃ a, S a b ∧ Q a) := by
  have hsteps : ∀ n a a' b, StepsIn r n a a' → S a b → ∃ b', StepsIn s n b b' ∧ S a' b' := by
    intro n
    induction n with
    | zero =>
      rintro a _ b rfl hab
      exact ⟨b, rfl, hab⟩
    | succ n ih =>
      rintro a a'' b ⟨a', hstep, hrest⟩ hab
      obtain ⟨b', hstep', hab'⟩ := hsim a a' b hstep hab
      obtain ⟨b'', hrest', hab''⟩ := ih a' a'' b' hrest hab'
      exact ⟨b'', ⟨b', hstep', hrest'⟩, hab''⟩
  rintro b ⟨a, hab, ha⟩
  obtain ⟨a', hrun, ha'⟩ := h a ha
  obtain ⟨b', hrun', hab'⟩ := hsteps n a a' b hrun hab
  exact ⟨b', hrun', a', hab', ha'⟩

end LeadsIn
