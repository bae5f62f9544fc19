import SpuKit.Lib.Program

/-!
# Programs inside a larger one

A program on a part of a state runs inside a program on the whole of it, with its
events relabelled. A program can also be run together with its events, for what is
to happen to them next.

## Main definitions

- `Program.embed` — a program on a part of the state
- `Program.heard` — a program with its events

## Main results

- `Program.returns_embed`, `Program.returns_heard`
-/

namespace Program

variable {ε ε' σ τ α : Type}

/-- A program on a part of the state, which is put back when it returns. -/
def embed (part : σ → τ) (put : τ → σ → σ) (relabel : ε → ε') (x : Program ε τ α) :
    Program ε' σ α := fun s =>
  ⟨(exec x (part s)).val.map fun r => (r.1, put r.2 s), (exec x (part s)).events.map relabel⟩

/-- A program that returns its events as well. -/
def heard (x : Program ε σ α) : Program ε σ (α × List ε) := fun s =>
  ⟨(exec x s).val.map fun r => ((r.1, (exec x s).events), r.2), (exec x s).events⟩

variable {s s' : σ} {a : α} {es : List ε} {es' : List ε'}

theorem returns_embed {part : σ → τ} {put : τ → σ → σ} {relabel : ε → ε'} {x : Program ε τ α} :
    (embed part put relabel x).Returns s a s' es' ↔
      ∃ t es, x.Returns (part s) a t es ∧ s' = put t s ∧ es' = es.map relabel := by
  constructor
  · intro h
    obtain ⟨hval, hevents⟩ := Traced.mk.inj h
    obtain ⟨⟨a₀, t⟩, ht, hpair⟩ := Option.map_eq_some_iff.mp hval
    obtain ⟨rfl, rfl⟩ := Prod.mk.inj hpair
    exact ⟨t, _, Traced.ext ht rfl, rfl, hevents.symm⟩
  · rintro ⟨t, es, hx, rfl, rfl⟩
    have hexec : exec x (part s) = ⟨some (a, t), es⟩ := hx
    rw [Returns, exec, embed, hexec]
    rfl

theorem returns_heard {x : Program ε σ α} {heard' : List ε} :
    (heard x).Returns s (a, heard') s' es ↔ x.Returns s a s' es ∧ heard' = es := by
  constructor
  · intro h
    obtain ⟨hval, hevents⟩ := Traced.mk.inj h
    obtain ⟨⟨a₀, t⟩, ht, hpair⟩ := Option.map_eq_some_iff.mp hval
    obtain ⟨hpair', rfl⟩ := Prod.mk.inj hpair
    obtain ⟨rfl, rfl⟩ := Prod.mk.inj hpair'
    exact ⟨Traced.ext ht hevents, hevents⟩
  · rintro ⟨hx, rfl⟩
    have hexec : exec x s = ⟨some (a, s'), heard'⟩ := hx
    rw [Returns, exec, heard, hexec]
    rfl

end Program
