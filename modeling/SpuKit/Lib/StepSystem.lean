import SpuKit.Lib.Traced

/-!
# Runs of operation-driven systems

A system is a step function that takes an operation and a state and returns
the next state together with the events of the step. This file defines the run
of a list of operations and the induction rules every safety argument uses.

## Main definitions

- `StepSystem.run` — execute a list of operations from left to right
- `StepSystem.Along` — every step of a run meets a condition on its pre-state

## Main results

- `StepSystem.run_invariant` — what each allowed step preserves, a run preserves
- `StepSystem.run_always` — what each allowed step emits from invariant states
- `StepSystem.run_always_iff` — what exactly makes all events of a run good
- `StepSystem.run_history` — a relation between the events so far and the state
- `StepSystem.run_history_iff` — what exactly makes it hold all along a run
-/

namespace StepSystem

variable {ω σ ε : Type} (step : ω → σ → Traced ε σ)

/-- Execute the operations from left to right, collecting all events. -/
def run : List ω → σ → Traced ε σ
  | [], s => pure s
  | op :: ops, s => do
    let s ← step op s
    run ops s

@[simp] theorem run_nil (s : σ) : run step [] s = pure s := rfl

theorem run_cons (op : ω) (ops : List ω) (s : σ) :
    run step (op :: ops) s = step op s >>= run step ops := rfl

@[simp] theorem run_cons_val (op : ω) (ops : List ω) (s : σ) :
    (run step (op :: ops) s).val = (run step ops (step op s).val).val := rfl

@[simp] theorem run_cons_events (op : ω) (ops : List ω) (s : σ) :
    (run step (op :: ops) s).events =
      (step op s).events ++ (run step ops (step op s).val).events := rfl

/-- A run of two lists is the run of the second from the end of the first. -/
theorem run_append (ops ops' : List ω) (s : σ) :
    run step (ops ++ ops') s = run step ops s >>= run step ops' := by
  induction ops generalizing s with
  | nil => rfl
  | cons op ops ih =>
    rw [List.cons_append, run_cons, run_cons, bind_assoc]
    exact congrArg (step op s >>= ·) (funext fun t => ih t)

@[simp] theorem run_append_val (ops ops' : List ω) (s : σ) :
    (run step (ops ++ ops') s).val = (run step ops' (run step ops s).val).val := by
  rw [run_append]; rfl

/-- Every step of the run meets `C`, which sees the operation and the state
    before it. -/
def Along (C : ω → σ → Prop) : List ω → σ → Prop
  | [], _ => True
  | op :: ops, s => C op s ∧ Along C ops (step op s).val

theorem along_true (ops : List ω) (s : σ) : Along step (fun _ _ => True) ops s := by
  induction ops generalizing s with
  | nil => trivial
  | cons op ops ih => exact ⟨trivial, ih _⟩

instance Along.decidable (C : ω → σ → Prop) [∀ op s, Decidable (C op s)] :
    (ops : List ω) → (s : σ) → Decidable (Along step C ops s)
  | [], _ => isTrue trivial
  | op :: ops, s =>
    have := Along.decidable C ops (step op s).val
    inferInstanceAs (Decidable (_ ∧ _))

variable {step} {Inv : σ → Prop} {A : ω → Prop} {P : ε → Prop}

theorem Along.mono {C D : ω → σ → Prop} (hCD : ∀ op s, C op s → D op s) {ops : List ω} {s : σ}
    (hC : Along step C ops s) : Along step D ops s := by
  induction ops generalizing s with
  | nil => trivial
  | cons op ops ih => exact ⟨hCD op s hC.1, ih hC.2⟩

theorem Along.and {C D : ω → σ → Prop} {ops : List ω} {s : σ} (hC : Along step C ops s)
    (hD : Along step D ops s) : Along step (fun op s => C op s ∧ D op s) ops s := by
  induction ops generalizing s with
  | nil => trivial
  | cons op ops ih => exact ⟨⟨hC.1, hD.1⟩, ih hC.2 hD.2⟩

/-- A property preserved by every allowed step holds at the end of every run of
    allowed operations. -/
theorem run_invariant (hstep : ∀ op s, A op → Inv s → Inv (step op s).val)
    {ops : List ω} (hops : ∀ op ∈ ops, A op) {s : σ} (hs : Inv s) :
    Inv (run step ops s).val := by
  induction ops generalizing s with
  | nil => exact hs
  | cons op ops ih =>
    rw [List.forall_mem_cons] at hops
    exact ih hops.2 (hstep op s hops.1 hs)

/-- If every allowed step preserves `Inv` and emits only `P` events from `Inv`
    states, then so does every run of allowed operations. -/
theorem run_always (hstep : ∀ op s, A op → Inv s → Inv (step op s).val)
    (hemit : ∀ op s, A op → Inv s → (step op s).Always P)
    {ops : List ω} (hops : ∀ op ∈ ops, A op) {s : σ} (hs : Inv s) :
    (run step ops s).Always P := by
  induction ops generalizing s with
  | nil => simp
  | cons op ops ih =>
    rw [List.forall_mem_cons] at hops
    rw [run_cons, Traced.always_bind]
    exact ⟨hemit op s hops.1 hs, ih hops.2 (hstep op s hops.1 hs)⟩

/-- When from `Inv` states the events of a step satisfy `P` just when it meets
    `C`, the events of a run do just when all its steps meet `C`. -/
theorem run_always_iff (C : ω → σ → Prop) (hstep : ∀ op s, Inv s → Inv (step op s).val)
    (hemit : ∀ op s, Inv s → ((step op s).Always P ↔ C op s)) {ops : List ω} {s : σ}
    (hs : Inv s) : (run step ops s).Always P ↔ Along step C ops s := by
  induction ops generalizing s with
  | nil => exact iff_of_true (Traced.always_pure s) trivial
  | cons op ops ih =>
    rw [run_cons, Traced.always_bind, hemit op s hs, ih (hstep op s hs)]
    rfl

/-- A relation between the events so far and the state, preserved by every step
    that meets `C` and whose events satisfy `Q`, holds at the end of every run
    of such steps. -/
theorem run_history (C : ω → σ → Prop) (Q : List ε → Prop) (H : List ε → σ → Prop)
    (hQ : ∀ es es', Q (es ++ es') → Q es ∧ Q es')
    (hstep : ∀ op s es, C op s → Q (step op s).events → H es s →
      H (es ++ (step op s).events) (step op s).val)
    {ops : List ω} {es : List ε} {s : σ} (hC : Along step C ops s)
    (hq : Q (run step ops s).events) (h : H es s) :
    H (es ++ (run step ops s).events) (run step ops s).val := by
  induction ops generalizing es s with
  | nil => simpa using h
  | cons op ops ih =>
    rw [run_cons_events] at hq ⊢
    obtain ⟨hop, hops⟩ := hQ _ _ hq
    rw [run_cons_val, ← List.append_assoc]
    exact ih hC.2 hops (hstep op s es hC.1 hop h)

/-- When a step keeps a relation between the events so far and the state just
    when it meets `C`, the relation holds all along a run just when all its
    steps meet `C`. -/
theorem run_history_iff (C : ω → σ → Prop) (H : List ε → σ → Prop)
    (hstep : ∀ op s es, H es s → (H (es ++ (step op s).events) (step op s).val ↔ C op s))
    {ops : List ω} {es : List ε} {s : σ} (h : H es s) :
    (∀ pre post, ops = pre ++ post → H (es ++ (run step pre s).events) (run step pre s).val) ↔
      Along step C ops s := by
  induction ops generalizing es s with
  | nil =>
    refine iff_of_true (fun pre post hnil => ?_) trivial
    rw [(List.nil_eq_append_iff.mp hnil).1]
    simpa using h
  | cons op ops ih =>
    constructor
    · intro hall
      have hone : H (es ++ (step op s).events) (step op s).val := by
        simpa using hall [op] ops rfl
      refine ⟨(hstep op s es h).mp hone, (ih hone).mp fun pre post heq => ?_⟩
      simpa using hall (op :: pre) post (by rw [heq, List.cons_append])
    · rintro ⟨hop, halong⟩ pre post heq
      have hone := (hstep op s es h).mpr hop
      cases pre with
      | nil => simpa using h
      | cons op' pre =>
        obtain ⟨rfl, htail⟩ := List.cons.inj heq
        simpa using (ih hone).mpr halong pre post htail

end StepSystem
