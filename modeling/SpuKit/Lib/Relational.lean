import Mathlib.Logic.Function.Basic

/-!
# Relational triples

Two computations that work on states of their own and may fail are compared
side by side: started in related states, they fail together, or both return
and end in related states. The rules follow the structure of the programs.

## Main definitions

- `Relational.Triple` — precondition, two computations, postcondition

## Main results

- `Relational.Triple.bind` — sequencing
- `Relational.Triple.forM` — a loop over one list, with a relation that changes
  with every element
- `Relational.Triple.run'_eq` — equal results from related states
-/

namespace Relational

variable {σ τ α β γ δ ω ι : Type}

/-- From states in `P` the computations fail together or return values and
    states in `Q`. -/
def Triple (P : σ → τ → Prop) (x : StateT σ Option α) (y : StateT τ Option β)
    (Q : α → β → σ → τ → Prop) : Prop :=
  ∀ s t, P s t → Option.Rel (fun p q => Q p.1 q.1 p.2 q.2) (x s) (y t)

/-- **Return rule**. -/
theorem Triple.pure {P : σ → τ → Prop} {a : α} {b : β} {Q : α → β → σ → τ → Prop}
    (h : ∀ s t, P s t → Q a b s t) : Triple P (pure a) (pure b) Q :=
  fun s t hP => .some (h s t hP)

/-- **Sequencing rule**. -/
theorem Triple.bind {P : σ → τ → Prop} {x : StateT σ Option α} {y : StateT τ Option β}
    {Q : α → β → σ → τ → Prop} {f : α → StateT σ Option γ} {g : β → StateT τ Option δ}
    {R : γ → δ → σ → τ → Prop} (hx : Triple P x y Q)
    (hf : ∀ a b, Triple (Q a b) (f a) (g b) R) : Triple P (x >>= f) (y >>= g) R := by
  intro s t hP
  have hrel := hx s t hP
  change Option.Rel _ ((x s).bind fun p => f p.1 p.2) ((y t).bind fun q => g q.1 q.2)
  cases hs : x s with
  | none =>
    cases ht : y t with
    | none => exact .none
    | some q => rw [hs, ht] at hrel; cases hrel
  | some p =>
    cases ht : y t with
    | none => rw [hs, ht] at hrel; cases hrel
    | some q =>
      rw [hs, ht] at hrel
      cases hrel with
      | some hQ => exact hf _ _ _ _ hQ

/-- **Loop rule**: the relation is indexed by a ghost state that every element
    of the list moves on. -/
theorem Triple.forM {R : ι → σ → τ → Prop} {ghost : ω → ι → ι}
    {f : ω → StateT σ Option PUnit} {g : ω → StateT τ Option PUnit}
    (hstep : ∀ op i, Triple (R i) (f op) (g op) fun _ _ => R (ghost op i)) (ops : List ω) (i : ι) :
    Triple (R i) (ops.forM f) (ops.forM g) fun _ _ => R (ops.foldl (fun i op => ghost op i) i) := by
  induction ops generalizing i with
  | nil => exact Triple.pure fun _ _ h => h
  | cons op ops ih => exact Triple.bind (hstep op i) fun _ _ => ih (ghost op i)

/-- From related states, computations whose related results are equal have
    equal results. -/
theorem Triple.run'_eq {P : σ → τ → Prop} {x : StateT σ Option α} {y : StateT τ Option α}
    {Q : α → α → σ → τ → Prop} (h : Triple P x y Q) (heq : ∀ a b s t, Q a b s t → b = a)
    {s : σ} {t : τ} (hP : P s t) : y.run' t = x.run' s := by
  have hrel := h s t hP
  change (y t).map Prod.fst = (x s).map Prod.fst
  generalize x s = p at hrel
  generalize y t = q at hrel
  cases hrel with
  | none => rfl
  | some hQ => exact congrArg some (heq _ _ _ _ hQ)

end Relational
