import Mathlib.Data.List.Perm.Basic
import Mathlib.Logic.Function.Basic

/-!
# Agents on one state

Agents act one at a time on a state they share. What all of them may read is
the common part, and no agent changes it; what an agent changes is its own part,
and no other agent reads it. Such agents act in any order.

## Main definitions

- `Agents` — the actions, the common part and what every agent owns
- `Agents.after` — the state after the agents of a list acted

## Main results

- `Agents.output_after_other` — an agent answers the same after another one acted
- `Agents.act_comm` — the order of two agents does not matter
- `Agents.after_perm` — the order of a list of agents does not matter
-/

/-- Agents that act on one state and answer, with what they read together and
    what each one keeps for itself. -/
structure Agents (α σ β γ δ : Type) where
  act : α → σ → β × σ
  common : σ → γ
  owned : α → σ → δ
  /-- There is nothing in a state but the common part and what agents own. -/
  eq_of : ∀ {s t}, common s = common t → (∀ a, owned a s = owned a t) → s = t
  common_act : ∀ a s, common (act a s).2 = common s
  owned_act : ∀ {a b} s, b ≠ a → owned b (act a s).2 = owned b s
  /-- An agent looks at the common part and at what it owns. -/
  act_congr : ∀ {a s t}, common s = common t → owned a s = owned a t →
    (act a s).1 = (act a t).1 ∧ owned a (act a s).2 = owned a (act a t).2

namespace Agents

variable {α σ β γ δ : Type} (A : Agents α σ β γ δ)

/-- Another agent is not noticed. -/
theorem act_after_other {a b : α} (h : a ≠ b) (s : σ) :
    (A.act a (A.act b s).2).1 = (A.act a s).1 ∧
      A.owned a (A.act a (A.act b s).2).2 = A.owned a (A.act a s).2 :=
  A.act_congr (A.common_act b s) (A.owned_act s h)

theorem output_after_other {a b : α} (h : a ≠ b) (s : σ) :
    (A.act a (A.act b s).2).1 = (A.act a s).1 :=
  (A.act_after_other h s).1

/-- **Agents commute**: each part of the state was changed by its owner alone. -/
theorem act_comm (a b : α) (s : σ) :
    (A.act a (A.act b s).2).2 = (A.act b (A.act a s).2).2 := by
  by_cases h : a = b
  · rw [h]
  have hne : b ≠ a := fun hba => h hba.symm
  refine A.eq_of ?_ fun c => ?_
  · rw [A.common_act, A.common_act, A.common_act, A.common_act]
  · by_cases hca : c = a
    · subst hca
      rw [(A.act_after_other h s).2, A.owned_act _ h]
    · by_cases hcb : c = b
      · subst hcb
        rw [A.owned_act _ hne, (A.act_after_other hne s).2]
      · rw [A.owned_act _ hca, A.owned_act _ hcb, A.owned_act _ hcb, A.owned_act _ hca]

/-- The state after the agents of a list acted, the first one first. -/
def after (as : List α) (s : σ) : σ := as.foldl (fun t a => (A.act a t).2) s

@[simp] theorem after_nil (s : σ) : A.after [] s = s := rfl

@[simp] theorem after_cons (a : α) (as : List α) (s : σ) :
    A.after (a :: as) s = A.after as (A.act a s).2 := rfl

/-- **Agents act in any order.** -/
theorem after_perm {as bs : List α} (h : as.Perm bs) (s : σ) : A.after as s = A.after bs s :=
  h.foldl_eq' (fun a _ b _ t => A.act_comm b a t) s

end Agents
