import Mathlib.Logic.Basic
import Mathlib.Data.List.Basic

/-!
# Computations that leave a trail of events

A `Traced ε α` is a total computation of an `α` together with the events it
went through, oldest first. Instrumented models are written in this monad: the
value is what the program computes, the events are what an observer standing
at the instrumented places would have seen.

## Main definitions

- `Traced` — a value with the list of events met on the way to it
- `Traced.emit` — one event and no value
- `Traced.tag` — relabel the events of a sub-computation
- `Traced.Always` — every event of a computation satisfies a predicate

## Main results

- `Traced.always_bind` — the events of a sequence are those of its two parts
- `Traced.always_tag` — a predicate on relabelled events pulls back
-/

/-- A value together with the events met on the way to it, oldest first. -/
@[ext]
structure Traced (ε α : Type) where
  val : α
  events : List ε

namespace Traced

variable {ε ε' α β : Type}

instance : Monad (Traced ε) where
  pure a := ⟨a, []⟩
  bind x f := ⟨(f x.val).val, x.events ++ (f x.val).events⟩

/-- Record a single event. -/
def emit (e : ε) : Traced ε Unit := ⟨(), [e]⟩

/-- Relabel the events of a sub-computation and keep its value. -/
def tag (f : ε → ε') (x : Traced ε α) : Traced ε' α := ⟨x.val, x.events.map f⟩

/-- Every event of the computation satisfies `P`. -/
def Always (P : ε → Prop) (x : Traced ε α) : Prop := ∀ e ∈ x.events, P e

@[simp] theorem val_pure (a : α) : (pure a : Traced ε α).val = a := rfl

@[simp] theorem events_pure (a : α) : (pure a : Traced ε α).events = [] := rfl

@[simp] theorem val_bind (x : Traced ε α) (f : α → Traced ε β) :
    (x >>= f).val = (f x.val).val := rfl

@[simp] theorem events_bind (x : Traced ε α) (f : α → Traced ε β) :
    (x >>= f).events = x.events ++ (f x.val).events := rfl

@[simp] theorem val_map (g : α → β) (x : Traced ε α) : (g <$> x).val = g x.val := rfl

@[simp] theorem events_map (g : α → β) (x : Traced ε α) : (g <$> x).events = x.events :=
  List.append_nil _

@[simp] theorem events_emit (e : ε) : (emit e).events = [e] := rfl

@[simp] theorem val_tag (f : ε → ε') (x : Traced ε α) : (x.tag f).val = x.val := rfl

@[simp] theorem events_tag (f : ε → ε') (x : Traced ε α) :
    (x.tag f).events = x.events.map f := rfl

@[simp] theorem val_ite (c : Prop) [Decidable c] (x y : Traced ε α) :
    (if c then x else y).val = if c then x.val else y.val := by
  split <;> rfl

@[simp] theorem events_ite (c : Prop) [Decidable c] (x y : Traced ε α) :
    (if c then x else y).events = if c then x.events else y.events := by
  split <;> rfl

instance : LawfulMonad (Traced ε) :=
  LawfulMonad.mk' _
    (fun _ => by ext1 <;> simp)
    (fun _ _ => rfl)
    (fun _ _ _ => by ext1 <;> simp)

variable {P : ε → Prop}

@[simp] theorem always_pure (a : α) : (pure a : Traced ε α).Always P := by
  simp [Always]

@[simp] theorem always_emit (e : ε) : (emit e).Always P ↔ P e := by
  simp [Always]

/-- The events of a sequence are those of its first part and then those of its
    second part, run on the value of the first. -/
@[simp] theorem always_bind (x : Traced ε α) (f : α → Traced ε β) :
    (x >>= f).Always P ↔ x.Always P ∧ (f x.val).Always P := by
  simp only [Always, events_bind, List.mem_append]
  constructor
  · intro h
    exact ⟨fun e he => h e (Or.inl he), fun e he => h e (Or.inr he)⟩
  · rintro ⟨hx, hf⟩ e (he | he)
    · exact hx e he
    · exact hf e he

@[simp] theorem always_map (g : α → β) (x : Traced ε α) :
    (g <$> x).Always P ↔ x.Always P := by
  simp [Always]

@[simp] theorem always_tag {Q : ε' → Prop} (f : ε → ε') (x : Traced ε α) :
    (x.tag f).Always Q ↔ x.Always (fun e => Q (f e)) := by
  simp [Always]

end Traced
