import SpuKit.Lib.Traced

/-!
# Programs that change a state, leave a trail and may not return

A `Program ε σ α` runs on a state `σ`, emits events and either returns an `α`
or stops. What it emitted before it stopped is kept. `Returns` is the big-step
judgement of such programs, with one rule for each way to build one.

Loops are bounded by a resource of the state that every round uses up, so that
they are defined by structural recursion and the bound is never what ends them.

## Main definitions

- `Program` — the monad
- `Program.exec` — the outcome from a state
- `Program.Returns` — the program returns, with the events on the way
- `Program.Stops` — the program stops
- `Program.Does` — what holds of every run of the program
- `Program.Total`, `Program.Shows` — the program returns, and an event is seen
- `Program.outcome` — the outcome without the events
- `Program.loop` — a loop whose rounds use up a resource of the state

## Main results

- `Program.returns_bind` — a sequence returns when both its parts do
- `Program.Does.bind` — what holds of a sequence
- `Program.always_bind`, `Program.always_loop` — the events of every run
- `Program.Total.bind`, `Program.Total.bind_shows` — that a sequence returns
- `Program.outcome_bind` — a sequence goes on from the outcome of its first part
- `Program.Returns.loop_rule` — what every round of a loop preserves
- `Program.Returns.loop_done`, `Program.Returns.loop_again` — a loop round by round
-/

/-- A program on a state `σ` with events `ε`. It may stop without a result. -/
abbrev Program (ε σ : Type) := StateT σ (OptionT (Traced ε))

namespace Program

variable {ε σ α β : Type}

/-- The outcome of a program from a state: the result and the state after it,
    unless it stops, and the events so far. -/
def exec (x : Program ε σ α) (s : σ) : Traced ε (Option (α × σ)) := x s

/-- Record a single event. -/
def emit (e : ε) : Program ε σ Unit := fun s => ⟨some ((), s), [e]⟩

/-- Do not return. -/
def stop : Program ε σ α := fun _ => ⟨none, []⟩

@[simp] theorem exec_pure (a : α) (s : σ) : exec (pure a : Program ε σ α) s = ⟨some (a, s), []⟩ :=
  rfl

@[simp] theorem exec_get (s : σ) : exec (get : Program ε σ σ) s = ⟨some (s, s), []⟩ := rfl

@[simp] theorem exec_set (s s' : σ) : exec (set s' : Program ε σ PUnit) s = ⟨some (⟨⟩, s'), []⟩ :=
  rfl

@[simp] theorem exec_modify (f : σ → σ) (s : σ) :
    exec (modify f : Program ε σ PUnit) s = ⟨some (⟨⟩, f s), []⟩ := rfl

@[simp] theorem exec_emit (e : ε) (s : σ) : exec (emit e) s = ⟨some ((), s), [e]⟩ := rfl

@[simp] theorem exec_stop (s : σ) : exec (stop : Program ε σ α) s = ⟨none, []⟩ := rfl

/-- A sequence goes on from where its first part returned. -/
theorem exec_bind_of_returns {x : Program ε σ α} {s s' : σ} {a : α} {es : List ε}
    (h : exec x s = ⟨some (a, s'), es⟩) (f : α → Program ε σ β) :
    exec (x >>= f) s = ⟨(exec (f a) s').val, es ++ (exec (f a) s').events⟩ := by
  have hx : x s = (⟨some (a, s'), es⟩ : Traced ε (Option (α × σ))) := h
  show (x >>= f) s = _
  simp only [bind, StateT.bind, OptionT.bind, OptionT.mk, hx]
  rfl

/-- A sequence stops where its first part does. -/
theorem exec_bind_of_stops {x : Program ε σ α} {s : σ} {es : List ε}
    (h : exec x s = ⟨none, es⟩) (f : α → Program ε σ β) : exec (x >>= f) s = ⟨none, es⟩ := by
  have hx : x s = (⟨none, es⟩ : Traced ε (Option (α × σ))) := h
  show (x >>= f) s = _
  simp only [bind, StateT.bind, OptionT.bind, OptionT.mk, hx]
  exact congrArg (Traced.mk none) (List.append_nil es)

/-- From `s` the program returns `a` in the state `s'`, and its events are
    `es`. -/
def Returns (x : Program ε σ α) (s : σ) (a : α) (s' : σ) (es : List ε) : Prop :=
  exec x s = ⟨some (a, s'), es⟩

variable {s s' s'' : σ} {a : α} {b : β} {es es' : List ε}

@[simp] theorem returns_pure {a' : α} :
    (pure a : Program ε σ α).Returns s a' s' es ↔ a' = a ∧ s' = s ∧ es = [] := by
  simp only [Returns, exec_pure, Traced.mk.injEq, Option.some.injEq, Prod.mk.injEq, and_assoc,
    eq_comm]

@[simp] theorem returns_get {a : σ} :
    (get : Program ε σ σ).Returns s a s' es ↔ a = s ∧ s' = s ∧ es = [] := by
  simp only [Returns, exec_get, Traced.mk.injEq, Option.some.injEq, Prod.mk.injEq, and_assoc,
    eq_comm]

@[simp] theorem returns_set {t : σ} {u : PUnit} :
    (set t : Program ε σ PUnit).Returns s u s' es ↔ s' = t ∧ es = [] := by
  simp only [Returns, exec_set, Traced.mk.injEq, Option.some.injEq, Prod.mk.injEq, true_and,
    eq_comm]

@[simp] theorem returns_emit {e : ε} {u : Unit} :
    (emit e : Program ε σ Unit).Returns s u s' es ↔ s' = s ∧ es = [e] := by
  simp only [Returns, exec_emit, Traced.mk.injEq, Option.some.injEq, Prod.mk.injEq, true_and,
    eq_comm]

@[simp] theorem not_returns_stop : ¬ (stop : Program ε σ α).Returns s a s' es := by
  simp [Returns]

/-- **Sequence**: a sequence returns when both its parts do. -/
theorem returns_bind {x : Program ε σ α} {f : α → Program ε σ β} :
    (x >>= f).Returns s b s'' es ↔
      ∃ a s' es₁ es₂, x.Returns s a s' es₁ ∧ (f a).Returns s' b s'' es₂ ∧ es = es₁ ++ es₂ := by
  constructor
  · intro h
    obtain ⟨hval, hevents⟩ : (exec (x >>= f) s).val = some (b, s'') ∧
        (exec (x >>= f) s).events = es := by
      rw [Returns] at h
      exact ⟨congrArg Traced.val h, congrArg Traced.events h⟩
    rcases hx : exec x s with ⟨_ | ⟨a, s'⟩, es₁⟩
    · rw [exec_bind_of_stops hx] at hval
      cases hval
    · rw [exec_bind_of_returns hx] at hval hevents
      exact ⟨a, s', es₁, _, hx, Traced.ext hval rfl, hevents.symm⟩
  · rintro ⟨a, s', es₁, es₂, hx, hf, rfl⟩
    have hf' : exec (f a) s' = ⟨some (b, s''), es₂⟩ := hf
    rw [Returns, exec_bind_of_returns hx, hf']

theorem Returns.bind {x : Program ε σ α} {f : α → Program ε σ β} (hx : x.Returns s a s' es)
    (hf : (f a).Returns s' b s'' es') : (x >>= f).Returns s b s'' (es ++ es') :=
  returns_bind.mpr ⟨a, s', es, es', hx, hf, rfl⟩

@[simp] theorem returns_map {x : Program ε σ α} {g : α → β} :
    (g <$> x).Returns s b s' es ↔ ∃ a, x.Returns s a s' es ∧ b = g a := by
  rw [map_eq_pure_bind, returns_bind]
  constructor
  · rintro ⟨a, t, es₁, es₂, hx, hg, rfl⟩
    obtain ⟨rfl, rfl, rfl⟩ := returns_pure.mp hg
    exact ⟨a, by rwa [List.append_nil], rfl⟩
  · rintro ⟨a, hx, rfl⟩
    exact ⟨a, s', es, [], hx, returns_pure.mpr ⟨rfl, rfl, rfl⟩, (List.append_nil es).symm⟩

/-- A program has at most one outcome. -/
theorem Returns.unique {x : Program ε σ α} {a' : α} (h : x.Returns s a s' es)
    (h' : x.Returns s a' s'' es') : a = a' ∧ s' = s'' ∧ es = es' := by
  obtain ⟨hval, hevents⟩ := Traced.mk.inj (Eq.trans (Eq.symm h) h')
  obtain ⟨ha, hs⟩ := Prod.mk.inj (Option.some.inj hval)
  exact ⟨ha, hs, hevents⟩

-- ════════════════════════════════════════════════════════════════════════
-- Specifications
-- ════════════════════════════════════════════════════════════════════════

/-- From `s` the program stops, and its events are `es`. -/
def Stops (x : Program ε σ α) (s : σ) (es : List ε) : Prop := exec x s = ⟨none, es⟩

@[simp] theorem stops_stop : (stop : Program ε σ α).Stops s es ↔ es = [] := by
  simp only [Stops, exec_stop, Traced.mk.injEq, true_and, eq_comm]

/-- A sequence stops in its first part or in its second. -/
theorem stops_bind {x : Program ε σ α} {f : α → Program ε σ β} :
    (x >>= f).Stops s es ↔
      x.Stops s es ∨
      ∃ a s' es₁ es₂, x.Returns s a s' es₁ ∧ (f a).Stops s' es₂ ∧ es = es₁ ++ es₂ := by
  rcases hx : exec x s with ⟨_ | ⟨a, s'⟩, es₁⟩
  · rw [Stops, exec_bind_of_stops hx]
    constructor
    · intro h
      obtain rfl : es₁ = es := congrArg Traced.events h
      exact Or.inl hx
    · rintro (h | ⟨a, s', es₁, es₂, hret, -, -⟩)
      · obtain rfl : es₁ = es := congrArg Traced.events (Eq.trans (Eq.symm hx) h)
        rfl
      · cases congrArg Traced.val (Eq.trans (Eq.symm hx) hret)
  · rw [Stops, exec_bind_of_returns hx]
    constructor
    · intro h
      obtain ⟨hval, hevents⟩ := Traced.mk.inj h
      exact Or.inr ⟨a, s', es₁, _, hx, Traced.ext hval rfl, hevents.symm⟩
    · rintro (h | ⟨b, t, es₁', es₂, hret, hstop, rfl⟩)
      · cases congrArg Traced.val (Eq.trans (Eq.symm hx) h)
      · have hfirst : x.Returns s a s' es₁ := hx
        obtain ⟨rfl, rfl, rfl⟩ := hfirst.unique hret
        rw [show exec (f a) s' = ⟨none, es₂⟩ from hstop]

/-- A program returns or stops. -/
theorem returns_or_stops (x : Program ε σ α) (s : σ) :
    (∃ a s' es, x.Returns s a s' es) ∨ ∃ es, x.Stops s es := by
  rcases hx : exec x s with ⟨_ | ⟨a, s'⟩, es⟩
  · exact Or.inr ⟨es, hx⟩
  · exact Or.inl ⟨a, s', es, hx⟩

/-- `R` holds of every run of the program that returns, and `E` of the events of
    every run that stops. -/
structure Does (x : Program ε σ α) (R : σ → α → σ → List ε → Prop) (E : List ε → Prop) :
    Prop where
  returns : ∀ {s a s' es}, x.Returns s a s' es → R s a s' es
  stops : ∀ {s es}, x.Stops s es → E es

namespace Does

variable {x : Program ε σ α} {R R' : σ → α → σ → List ε → Prop} {E : List ε → Prop}

theorem pure (h : ∀ s, R s a s []) : (pure a : Program ε σ α).Does R E where
  returns hret := by
    obtain ⟨rfl, rfl, rfl⟩ := returns_pure.mp hret
    exact h _
  stops hstop := by
    cases congrArg Traced.val hstop

/-- A program whose outcome is known from every state. -/
theorem of_exec {val : σ → α} {next : σ → σ} {events : σ → List ε}
    (h : ∀ s, exec x s = ⟨some (val s, next s), events s⟩)
    (hR : ∀ s, R s (val s) (next s) (events s)) : x.Does R E where
  returns {s _ _ _} hret := by
    obtain ⟨rfl, rfl, rfl⟩ := Returns.unique (h s) hret
    exact hR s
  stops {s _} hstop := by
    cases congrArg Traced.val (Eq.trans (Eq.symm (h s)) hstop)

/-- **Consequence** -/
theorem mono (h : x.Does R E) (hR : ∀ s a s' es, R s a s' es → R' s a s' es) : x.Does R' E where
  returns hret := hR _ _ _ _ (h.returns hret)
  stops hstop := h.stops hstop

/-- What holds of the events of every run, however it ends. -/
theorem always (h : x.Does (fun _ _ _ es => E es) E) (s : σ) : E (exec x s).events := by
  obtain ⟨a, s', es, hret⟩ | ⟨es, hstop⟩ := returns_or_stops x s
  · rw [show exec x s = ⟨some (a, s'), es⟩ from hret]
    exact h.returns hret
  · rw [show exec x s = ⟨none, es⟩ from hstop]
    exact h.stops hstop

/-- **Sequence**: the relations of the two parts are composed, and the events of
    the second part follow those of the first. -/
theorem bind {f : α → Program ε σ β} {S : α → σ → β → σ → List ε → Prop}
    {T : σ → β → σ → List ε → Prop} (hx : x.Does R E) (hf : ∀ a, (f a).Does (S a) E)
    (hE : ∀ s a s' es es', R s a s' es → E es' → E (es ++ es'))
    (hT : ∀ s a s' b s'' es es', R s a s' es → S a s' b s'' es' → T s b s'' (es ++ es')) :
    (x >>= f).Does T E where
  returns hret := by
    obtain ⟨a, s', es₁, es₂, hfirst, hsecond, rfl⟩ := returns_bind.mp hret
    exact hT _ _ _ _ _ _ _ (hx.returns hfirst) ((hf a).returns hsecond)
  stops hstop := by
    obtain hfirst | ⟨a, s', es₁, es₂, hfirst, hsecond, rfl⟩ := stops_bind.mp hstop
    · exact hx.stops hfirst
    · exact hE _ _ _ _ _ (hx.returns hfirst) ((hf a).stops hsecond)

end Does

-- ════════════════════════════════════════════════════════════════════════
-- The events of every run
-- ════════════════════════════════════════════════════════════════════════

section Always

variable {P : ε → Prop} {x : Program ε σ α} {f : α → Program ε σ β}

theorem always_pure (a : α) (s : σ) : (exec (pure a : Program ε σ α) s).Always P :=
  fun _ he => (List.not_mem_nil he).elim

theorem always_emit {e : ε} (h : P e) (s : σ) :
    (exec (emit e : Program ε σ Unit) s).Always P :=
  fun _ he => List.mem_singleton.mp he ▸ h

/-- **Sequence**: the second part matters only where the first returns. -/
theorem always_bind : (exec (x >>= f) s).Always P ↔
    (exec x s).Always P ∧ ∀ a s' es, x.Returns s a s' es → (exec (f a) s').Always P := by
  rcases hx : exec x s with ⟨_ | ⟨a, s'⟩, es⟩
  · rw [exec_bind_of_stops hx]
    refine ⟨fun h => ⟨h, fun a s' es' hret => ?_⟩, fun h => h.1⟩
    cases congrArg Traced.val (Eq.trans (Eq.symm hx) hret)
  · rw [exec_bind_of_returns hx, Traced.Always, List.forall_mem_append]
    refine and_congr_right fun _ => ⟨fun h a' s'' es' hret => ?_, fun h => h a s' es hx⟩
    have hfirst : x.Returns s a s' es := hx
    obtain ⟨rfl, rfl, -⟩ := hfirst.unique hret
    exact h

end Always

-- ════════════════════════════════════════════════════════════════════════
-- Total correctness
-- ════════════════════════════════════════════════════════════════════════

/-- From every state with `P` the program returns, with `V` of the result and
    `Q` of the state after it. -/
def Total (P : σ → Prop) (x : Program ε σ α) (V : α → Prop) (Q : σ → Prop) : Prop :=
  ∀ s, P s → ∃ a s' es, x.Returns s a s' es ∧ V a ∧ Q s'

/-- From every state with `P` the program returns, and `e` is one of its events. -/
def Shows (P : σ → Prop) (x : Program ε σ α) (e : ε) : Prop :=
  ∀ s, P s → ∃ a s' es, x.Returns s a s' es ∧ e ∈ es

section Total

variable {P Q R : σ → Prop} {V : α → Prop} {W : β → Prop} {x : Program ε σ α}
  {f : α → Program ε σ β} {e : ε}

theorem Total.of_exec {val : σ → α} {next : σ → σ} {events : σ → List ε}
    (h : ∀ s, exec x s = ⟨some (val s, next s), events s⟩)
    (hPQ : ∀ s, P s → V (val s) ∧ Q (next s)) : Total P x V Q :=
  fun s hs => ⟨val s, next s, events s, h s, hPQ s hs⟩

/-- **Sequence**: the second part runs with what is known of the result of the
    first. -/
theorem Total.bind (hx : Total P x V R) (hf : ∀ a, V a → Total R (f a) W Q) :
    Total P (x >>= f) W Q := by
  intro s hs
  obtain ⟨a, s', es, hret, ha, hs'⟩ := hx s hs
  obtain ⟨b, s'', es', hret', hb, hs''⟩ := hf a ha s' hs'
  exact ⟨b, s'', es ++ es', hret.bind hret', hb, hs''⟩

/-- The event may come from the second part of a sequence. -/
theorem Total.bind_shows (hx : Total P x V R) (hf : ∀ a, V a → Shows R (f a) e) :
    Shows P (x >>= f) e := by
  intro s hs
  obtain ⟨a, s', es, hret, ha, hs'⟩ := hx s hs
  obtain ⟨b, s'', es', hret', he⟩ := hf a ha s' hs'
  exact ⟨b, s'', es ++ es', hret.bind hret', List.mem_append_right es he⟩

/-- The event may come from the first part, when the second returns from any state. -/
theorem Shows.bind (hx : Shows P x e) (hf : ∀ a, Total (fun _ => True) (f a) W Q) :
    Shows P (x >>= f) e := by
  intro s hs
  obtain ⟨a, s', es, hret, he⟩ := hx s hs
  obtain ⟨b, s'', es', hret', -⟩ := hf a s' True.intro
  exact ⟨b, s'', es ++ es', hret.bind hret', List.mem_append_left es' he⟩

end Total

-- ════════════════════════════════════════════════════════════════════════
-- Outcomes
-- ════════════════════════════════════════════════════════════════════════

/-- What a program returns and the state after it, whatever it emitted. -/
def outcome (x : Program ε σ α) (s : σ) : Option (α × σ) := (exec x s).val

theorem outcome_eq_some {x : Program ε σ α} :
    outcome x s = some (a, s') ↔ ∃ es, x.Returns s a s' es := by
  constructor
  · intro h
    exact ⟨(exec x s).events, Traced.ext h rfl⟩
  · rintro ⟨es, h⟩
    exact congrArg Traced.val h

theorem Returns.outcome {x : Program ε σ α} (h : x.Returns s a s' es) :
    outcome x s = some (a, s') :=
  outcome_eq_some.mpr ⟨es, h⟩

/-- **Sequence**: it goes on from the outcome of its first part. -/
@[simp] theorem outcome_bind (x : Program ε σ α) (f : α → Program ε σ β) (s : σ) :
    outcome (x >>= f) s = (outcome x s).bind fun p => outcome (f p.1) p.2 := by
  rcases hx : exec x s with ⟨_ | ⟨a, s'⟩, es⟩
  · rw [outcome, outcome, exec_bind_of_stops hx, hx, Option.bind_none]
  · rw [outcome, exec_bind_of_returns hx, outcome, hx, Option.bind_some, outcome]

@[simp] theorem outcome_pure (a : α) (s : σ) :
    outcome (pure a : Program ε σ α) s = some (a, s) := rfl

@[simp] theorem outcome_emit (e : ε) (s : σ) : outcome (emit e) s = some ((), s) := rfl

-- ════════════════════════════════════════════════════════════════════════
-- Loops
-- ════════════════════════════════════════════════════════════════════════

variable (body : α → Program ε σ (α ⊕ β))

/-- At most so many rounds of a loop. -/
def rounds : Nat → α → Program ε σ β
  | 0, _ => stop
  | n + 1, a => do
    match ← body a with
    | .inl a => rounds n a
    | .inr b => pure b

/-- Repeat `body`, until it returns a result. Every round that asks for another
    one uses up some of `fuel`. -/
def loop (fuel : σ → Nat) (a : α) : Program ε σ β := do
  let s ← get
  rounds body (fuel s) a

variable {body} {fuel : σ → Nat}

theorem returns_loop : (loop body fuel a).Returns s b s' es ↔
    (rounds body (fuel s) a).Returns s b s' es := by
  rw [loop, returns_bind]
  constructor
  · rintro ⟨t, s₁, es₁, es₂, hget, hloop, rfl⟩
    obtain ⟨rfl, rfl, rfl⟩ := returns_get.mp hget
    exact hloop
  · intro h
    exact ⟨s, s, [], es, returns_get.mpr ⟨rfl, rfl, rfl⟩, h, rfl⟩

theorem Returns.rounds_mono {n m : Nat} (h : (rounds body n a).Returns s b s' es) (hle : n ≤ m) :
    (rounds body m a).Returns s b s' es := by
  induction n generalizing m a s es with
  | zero => exact absurd h not_returns_stop
  | succ n ih =>
    obtain ⟨m, rfl⟩ := Nat.exists_eq_add_of_le' (Nat.le_trans (Nat.le_add_left 1 n) hle)
    obtain ⟨r, t, es₁, es₂, hbody, hrest, rfl⟩ := returns_bind.mp h
    cases r with
    | inl a' => exact hbody.bind (ih hrest (Nat.le_of_succ_le_succ hle))
    | inr b' => exact hbody.bind hrest

/-- **Loop, last round**: the body returns a result. -/
theorem Returns.loop_done (hfuel : 0 < fuel s) (h : (body a).Returns s (.inr b) s' es) :
    (loop body fuel a).Returns s b s' es := by
  obtain ⟨n, hn⟩ := Nat.exists_eq_add_of_le' hfuel
  rw [returns_loop, hn]
  rw [← List.append_nil es]
  exact h.bind (returns_pure.mpr ⟨rfl, rfl, rfl⟩)

/-- **Loop, another round**: the body asks to be repeated from `a'`. -/
theorem Returns.loop_again {a' : α} (h : (body a).Returns s (.inl a') s' es)
    (hfuel : fuel s' < fuel s) (hloop : (loop body fuel a').Returns s' b s'' es') :
    (loop body fuel a).Returns s b s'' (es ++ es') := by
  obtain ⟨n, hn⟩ := Nat.exists_eq_add_of_le' (Nat.zero_lt_of_lt hfuel)
  rw [returns_loop, hn]
  exact h.bind ((returns_loop.mp hloop).rounds_mono (by omega))

/-- When no round of a loop emits anything but `P` events, the loop does not. -/
theorem always_loop {P : ε → Prop} (h : ∀ a s, (exec (body a) s).Always P) (a : α) (s : σ) :
    (exec (loop body fuel a) s).Always P := by
  have hrounds : ∀ n a s, (exec (rounds body n a) s).Always P := by
    intro n
    induction n with
    | zero => intro a s e he; exact (List.not_mem_nil he).elim
    | succ n ih =>
      intro a s
      refine always_bind.mpr ⟨h a s, fun r s' es _ => ?_⟩
      cases r with
      | inl a' => exact ih a' s'
      | inr b => intro e he; exact (List.not_mem_nil he).elim
  exact always_bind.mpr ⟨fun e he => (List.not_mem_nil he).elim, fun _ _ _ _ => hrounds _ _ _⟩

/-- **Loop rule**: an invariant that every round keeps until it returns, and
    that then gives `Post`. The invariant sees the events so far. -/
theorem Returns.loop_rule (Inv : α → σ → List ε → Prop) (Post : β → σ → List ε → Prop)
    (hagain : ∀ a a' s s' es es', Inv a s es → (body a).Returns s (.inl a') s' es' →
      Inv a' s' (es ++ es'))
    (hdone : ∀ a b s s' es es', Inv a s es → (body a).Returns s (.inr b) s' es' →
      Post b s' (es ++ es'))
    (h : (loop body fuel a).Returns s b s' es) (hinv : Inv a s []) : Post b s' es := by
  have hrounds : ∀ n a s es es', Inv a s es → (rounds body n a).Returns s b s' es' →
      Post b s' (es ++ es') := by
    intro n
    induction n with
    | zero => intro a s es es' _ hrounds; exact absurd hrounds not_returns_stop
    | succ n ih =>
      intro a s es es' hinv hrounds
      obtain ⟨r, t, es₁, es₂, hbody, hrest, rfl⟩ := returns_bind.mp hrounds
      rw [← List.append_assoc]
      cases r with
      | inl a' => exact ih _ _ _ _ (hagain _ _ _ _ _ _ hinv hbody) hrest
      | inr b' =>
        obtain ⟨rfl, rfl, rfl⟩ := returns_pure.mp hrest
        rw [List.append_nil]
        exact hdone _ _ _ _ _ _ hinv hbody
  exact hrounds (fuel s) a s [] es hinv (returns_loop.mp h)

end Program
