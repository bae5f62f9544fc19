import SpuKit.Lib.Program

/-!
# Monitors

A monitor reads the events of a program one after the other. It keeps a state
of its own, and accepts or refuses every event in the state it has reached. A
program follows a monitor when a part of its state is always the state of the
monitor, so that what the part holds can be told from the events alone.

What a program does is put together from a few primitives. A property of the
primitives that sequences keep is a property of everything put together from
them.

## Main definitions

- `Monitor`, `Monitor.after`, `Monitor.Accepts`, `Monitor.prod`
- `Program.Tracks` — a part of the state is told by the accepted events
- `Program.Guards` — the program stops just at the events that are refused
- `Program.Shadows` — two programs cannot be told apart by the events that are kept
- `Program.Generated` — the programs put together from primitives

## Main results

- `Program.Tracks.bind`, `Program.Guards.bind`, `Program.Shadows.bind` — sequences
- `Program.Generated.tracks`, `Program.Generated.guards`, `Program.Generated.shadows`
- `Program.Guards.stops_iff` — when a program stops
-/

/-- A state that follows the events, and the events that are accepted in it. -/
structure Monitor (γ ε : Type) where
  next : γ → ε → γ
  ok : γ → ε → Prop

namespace Monitor

variable {γ ε : Type} (M : Monitor γ ε)

/-- The state after the events. -/
def after (c : γ) (es : List ε) : γ := es.foldl M.next c

/-- Every event is accepted in the state the ones before it lead to. -/
def Accepts : γ → List ε → Prop
  | _, [] => True
  | c, e :: es => M.ok c e ∧ Accepts (M.next c e) es

instance Accepts.decidable [∀ c e, Decidable (M.ok c e)] :
    (c : γ) → (es : List ε) → Decidable (M.Accepts c es)
  | _, [] => isTrue trivial
  | c, e :: es =>
    have := Accepts.decidable (M.next c e) es
    inferInstanceAs (Decidable (_ ∧ _))

@[simp] theorem after_nil (c : γ) : M.after c [] = c := rfl

@[simp] theorem after_cons (c : γ) (e : ε) (es : List ε) :
    M.after c (e :: es) = M.after (M.next c e) es := rfl

theorem after_append (c : γ) (es es' : List ε) :
    M.after c (es ++ es') = M.after (M.after c es) es' :=
  List.foldl_append

@[simp] theorem accepts_nil (c : γ) : M.Accepts c [] := trivial

@[simp] theorem accepts_cons (c : γ) (e : ε) (es : List ε) :
    M.Accepts c (e :: es) ↔ M.ok c e ∧ M.Accepts (M.next c e) es := Iff.rfl

theorem accepts_append (c : γ) (es es' : List ε) :
    M.Accepts c (es ++ es') ↔ M.Accepts c es ∧ M.Accepts (M.after c es) es' := by
  induction es generalizing c with
  | nil => simp
  | cons e es ih => rw [List.cons_append, accepts_cons, accepts_cons, ih, after_cons, and_assoc]

/-- Where every one of the events is accepted in every state. -/
theorem accepts_of_ok (c : γ) {es : List ε} (h : ∀ e ∈ es, ∀ c, M.ok c e) : M.Accepts c es := by
  induction es generalizing c with
  | nil => exact M.accepts_nil c
  | cons e es ih =>
    rw [List.forall_mem_cons] at h
    exact ⟨h.1 c, ih _ h.2⟩

/-- Two monitors side by side. -/
def prod {δ : Type} (N : Monitor δ ε) : Monitor (γ × δ) ε where
  next c e := (M.next c.1 e, N.next c.2 e)
  ok c e := M.ok c.1 e ∧ N.ok c.2 e

theorem after_prod {δ : Type} (N : Monitor δ ε) (c : γ × δ) (es : List ε) :
    (M.prod N).after c es = (M.after c.1 es, N.after c.2 es) := by
  induction es generalizing c with
  | nil => rfl
  | cons e es ih => exact ih _

theorem accepts_prod {δ : Type} (N : Monitor δ ε) (c : γ × δ) (es : List ε) :
    (M.prod N).Accepts c es ↔ M.Accepts c.1 es ∧ N.Accepts c.2 es := by
  induction es generalizing c with
  | nil => simp
  | cons e es ih =>
    rw [accepts_cons, accepts_cons, accepts_cons, ih]
    exact and_and_and_comm

end Monitor

namespace Program

variable {γ ε σ α β : Type} {M : Monitor γ ε} {part : σ → γ}

-- ════════════════════════════════════════════════════════════════════════
-- One program
-- ════════════════════════════════════════════════════════════════════════

/-- When the events of a run are accepted, the part of the state after it is the
    state of the monitor. -/
def Tracks (M : Monitor γ ε) (part : σ → γ) (x : Program ε σ α) : Prop :=
  ∀ ⦃s a s' es⦄, x.Returns s a s' es → M.Accepts (part s) es → part s' = M.after (part s) es

/-- Every run that returns was accepted, and a run that stops does so at the
    first event that is refused. -/
structure Guards (M : Monitor γ ε) (part : σ → γ) (x : Program ε σ α) : Prop where
  returns : ∀ {s a s' es}, x.Returns s a s' es →
    M.Accepts (part s) es ∧ part s' = M.after (part s) es
  stops : ∀ {s es}, x.Stops s es →
    ∃ init last, es = init ++ [last] ∧ M.Accepts (part s) init ∧
      ¬ M.ok (M.after (part s) init) last

section One

variable {x : Program ε σ α} {f : α → Program ε σ β}

/-- A program whose outcome is known from every state. -/
theorem Tracks.of_exec {val : σ → α} {next : σ → σ} {events : σ → List ε}
    (h : ∀ s, exec x s = ⟨some (val s, next s), events s⟩)
    (hpart : ∀ s, M.Accepts (part s) (events s) → part (next s) = M.after (part s) (events s)) :
    x.Tracks M part := by
  intro s a s' es hret haccepts
  obtain ⟨rfl, rfl, rfl⟩ := Returns.unique (h s) hret
  exact hpart s haccepts

theorem Guards.of_exec {val : σ → α} {next : σ → σ} {events : σ → List ε}
    (h : ∀ s, exec x s = ⟨some (val s, next s), events s⟩)
    (haccepts : ∀ s, M.Accepts (part s) (events s))
    (hpart : ∀ s, part (next s) = M.after (part s) (events s)) : x.Guards M part where
  returns hret := by
    obtain ⟨rfl, rfl, rfl⟩ := Returns.unique (h _) hret
    exact ⟨haccepts _, hpart _⟩
  stops hstop := by
    cases congrArg Traced.val (Eq.trans (Eq.symm (h _)) hstop)

/-- A program with one event, and an outcome that may be to stop. -/
theorem Tracks.of_single {run : σ → Option (α × σ)} {event : ε}
    (h : ∀ s, exec x s = ⟨run s, [event]⟩)
    (hpart : ∀ s a s', run s = some (a, s') → M.ok (part s) event →
      part s' = M.next (part s) event) : x.Tracks M part := by
  intro s a s' es hret haccepts
  obtain ⟨hrun, rfl⟩ := Traced.mk.inj (Eq.trans (Eq.symm (h s)) hret)
  exact hpart s a s' hrun haccepts.1

theorem Guards.of_single {run : σ → Option (α × σ)} {event : ε}
    (h : ∀ s, exec x s = ⟨run s, [event]⟩)
    (hret : ∀ s a s', run s = some (a, s') → M.ok (part s) event ∧
      part s' = M.next (part s) event)
    (hstop : ∀ s, run s = none → ¬ M.ok (part s) event) : x.Guards M part where
  returns {s a s' es} hx := by
    obtain ⟨hrun, rfl⟩ := Traced.mk.inj (Eq.trans (Eq.symm (h s)) hx)
    obtain ⟨hok, hpart⟩ := hret s a s' hrun
    exact ⟨⟨hok, trivial⟩, hpart⟩
  stops {s es} hx := by
    obtain ⟨hrun, rfl⟩ := Traced.mk.inj (Eq.trans (Eq.symm (h s)) hx)
    exact ⟨[], event, rfl, trivial, hstop s hrun⟩

/-- **Sequence** -/
theorem Tracks.bind (hx : x.Tracks M part) (hf : ∀ a, (f a).Tracks M part) :
    (x >>= f).Tracks M part := by
  intro s b s'' es hret haccepts
  obtain ⟨a, s', es₁, es₂, hfirst, hsecond, rfl⟩ := returns_bind.mp hret
  obtain ⟨h₁, h₂⟩ := (M.accepts_append ..).mp haccepts
  have hpart := hx hfirst h₁
  rw [← hpart] at h₂
  rw [M.after_append, ← hpart]
  exact hf a hsecond h₂

/-- **Sequence** -/
theorem Guards.bind (hx : x.Guards M part) (hf : ∀ a, (f a).Guards M part) :
    (x >>= f).Guards M part where
  returns hret := by
    obtain ⟨a, s', es₁, es₂, hfirst, hsecond, rfl⟩ := returns_bind.mp hret
    obtain ⟨h₁, hpart⟩ := hx.returns hfirst
    obtain ⟨h₂, hpart'⟩ := (hf a).returns hsecond
    rw [hpart] at h₂ hpart'
    rw [M.accepts_append, M.after_append]
    exact ⟨⟨h₁, h₂⟩, hpart'⟩
  stops hstop := by
    obtain hfirst | ⟨a, s', es₁, es₂, hfirst, hsecond, rfl⟩ := stops_bind.mp hstop
    · exact hx.stops hfirst
    · obtain ⟨h₁, hpart⟩ := hx.returns hfirst
      obtain ⟨init, last, rfl, h₂, hlast⟩ := (hf a).stops hsecond
      rw [hpart] at h₂ hlast
      refine ⟨es₁ ++ init, last, (List.append_assoc ..).symm, ?_, ?_⟩
      · exact (M.accepts_append ..).mpr ⟨h₁, h₂⟩
      · rwa [M.after_append]

/-- **Stopping**: a guarded program stops just when one of its events is
    refused. -/
theorem Guards.stops_iff (h : x.Guards M part) (s : σ) :
    (∃ es, x.Stops s es) ↔ ¬ M.Accepts (part s) (exec x s).events := by
  obtain ⟨a, s', es, hret⟩ | ⟨es, hstop⟩ := returns_or_stops x s
  · have hexec : exec x s = ⟨some (a, s'), es⟩ := hret
    refine iff_of_false ?_ (not_not_intro ?_)
    · rintro ⟨es', hstop⟩
      cases congrArg Traced.val (Eq.trans (Eq.symm hexec) hstop)
    · rw [hexec]
      exact (h.returns hret).1
  · have hexec : exec x s = ⟨none, es⟩ := hstop
    refine iff_of_true ⟨es, hstop⟩ fun haccepts => ?_
    obtain ⟨init, last, rfl, -, hlast⟩ := h.stops hstop
    rw [hexec, M.accepts_append] at haccepts
    exact hlast haccepts.2.1

end One

-- ════════════════════════════════════════════════════════════════════════
-- Two programs
-- ════════════════════════════════════════════════════════════════════════

/-- From related states, when the events of `x` are accepted, `y` has the same
    events but for those that are not kept, and they return the same in related
    states or both stop. -/
def Shadows (M : Monitor γ ε) (part : σ → γ) (R : σ → σ → Prop) (keep : ε → Bool)
    (x y : Program ε σ α) : Prop :=
  ∀ ⦃s t⦄, R s t → M.Accepts (part s) (exec x s).events →
    (exec y t).events.filter keep = (exec x s).events.filter keep ∧
      Option.Rel (fun p q => p.1 = q.1 ∧ R p.2 q.2) (exec x s).val (exec y t).val

section Two

variable {R : σ → σ → Prop} {keep : ε → Bool} {x y : Program ε σ α} {f g : α → Program ε σ β}

theorem Shadows.pure (a : α) : Shadows M part R keep (Pure.pure a) (Pure.pure a) :=
  fun _ _ hR _ => ⟨rfl, .some ⟨rfl, hR⟩⟩

/-- **Sequence** -/
theorem Shadows.bind (htracks : x.Tracks M part) (hxy : Shadows M part R keep x y)
    (hfg : ∀ a, Shadows M part R keep (f a) (g a)) :
    Shadows M part R keep (x >>= f) (y >>= g) := by
  intro s t hR haccepts
  rcases hx : exec x s with ⟨_ | ⟨a, s'⟩, es⟩
  · rw [exec_bind_of_stops hx] at haccepts ⊢
    have hxy := hxy hR (by rwa [hx])
    rw [hx] at hxy
    rcases hy : exec y t with ⟨_ | q, es'⟩
    · rw [exec_bind_of_stops hy]
      rw [hy] at hxy
      exact ⟨hxy.1, .none⟩
    · rw [hy] at hxy
      cases hxy.2
  · have hret : x.Returns s a s' es := hx
    rw [exec_bind_of_returns hx] at haccepts ⊢
    obtain ⟨h₁, h₂⟩ := (M.accepts_append ..).mp haccepts
    have hxy := hxy hR (by rwa [hx])
    rw [hx] at hxy
    rcases hy : exec y t with ⟨_ | ⟨a', t'⟩, es'⟩
    · rw [hy] at hxy
      cases hxy.2
    · rw [hy] at hxy
      obtain ⟨hes, hrel⟩ := hxy
      cases hrel with
      | some h =>
        obtain ⟨rfl, hR'⟩ := h
        rw [← htracks hret h₁] at h₂
        obtain ⟨hes', hrel'⟩ := hfg a hR' h₂
        rw [exec_bind_of_returns hy, List.filter_append, List.filter_append, hes, hes']
        exact ⟨rfl, hrel'⟩

/-- A run that is shadowed and returns. -/
theorem Shadows.returns (h : Shadows M part R keep x y) {s t s' : σ} {a : α} {es : List ε}
    (hR : R s t) (hret : x.Returns s a s' es) (haccepts : M.Accepts (part s) es) :
    ∃ t' es', y.Returns t a t' es' ∧ R s' t' ∧ es'.filter keep = es.filter keep := by
  have hexec : exec x s = ⟨some (a, s'), es⟩ := hret
  obtain ⟨hes, hrel⟩ := h hR (by rwa [hexec])
  rw [hexec] at hes hrel
  rcases hy : exec y t with ⟨_ | ⟨a', t'⟩, es'⟩
  · rw [hy] at hrel
    cases hrel
  · rw [hy] at hes hrel
    cases hrel with
    | some h =>
      obtain ⟨rfl, hR'⟩ := h
      exact ⟨t', es', hy, hR', hes⟩

end Two

-- ════════════════════════════════════════════════════════════════════════
-- Programs put together from primitives
-- ════════════════════════════════════════════════════════════════════════

/-- The programs put together from the primitives `B`. -/
inductive Generated (B : (α : Type) → Program ε σ α → Prop) : {α : Type} → Program ε σ α → Prop
  | primitive {α : Type} {x : Program ε σ α} (h : B α x) : Generated B x
  | pure {α : Type} (a : α) : Generated B (Pure.pure a)
  | bind {α β : Type} {x : Program ε σ α} {f : α → Program ε σ β} (hx : Generated B x)
      (hf : ∀ a, Generated B (f a)) : Generated B (x >>= f)

section Generated

variable {B : (α : Type) → Program ε σ α → Prop} {x : Program ε σ α}

theorem Generated.tracks (hB : ∀ α (x : Program ε σ α), B α x → x.Tracks M part)
    (h : Generated B x) : x.Tracks M part := by
  induction h with
  | primitive h => exact hB _ _ h
  | pure a => exact Tracks.of_exec (fun s => exec_pure a s) fun _ _ => rfl
  | bind _ _ ihx ihf => exact ihx.bind ihf

theorem Generated.guards (hB : ∀ α (x : Program ε σ α), B α x → x.Guards M part)
    (h : Generated B x) : x.Guards M part := by
  induction h with
  | primitive h => exact hB _ _ h
  | pure a => exact Guards.of_exec (fun s => exec_pure a s) (fun _ => trivial) fun _ => rfl
  | bind _ _ ihx ihf => exact ihx.bind ihf

/-- A program is put together alike in both runs. -/
theorem Generated.shadows {R : σ → σ → Prop} {keep : ε → Bool}
    (htracks : ∀ α (x : Program ε σ α), B α x → x.Tracks M part)
    (hB : ∀ α (x : Program ε σ α), B α x → Shadows M part R keep x x) (h : Generated B x) :
    Shadows M part R keep x x := by
  induction h with
  | primitive h => exact hB _ _ h
  | pure a => exact Shadows.pure a
  | bind hx _ ihx ihf => exact Shadows.bind (hx.tracks htracks) ihx ihf

end Generated

end Program
