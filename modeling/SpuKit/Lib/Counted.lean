import SpuKit.Lib.StepSystem

/-!
# Counted operations

Some operations of a run are counted, and an invariant with an index follows the
count. Counted up, the index is the time a run has taken. Counted down, it is
the distance from where the system settles: the invariant at 0 is the settled
system.

## Main results

- `StepSystem.run_counted` — a run counts its counted operations
- `StepSystem.run_countdown` — a run counts the distance down
- `StepSystem.run_settles` — a run with enough counted operations settles
- `StepSystem.Along.settled` — a settled system stays so
- `StepSystem.exists_counted_prefix` — the run up to a counted operation
-/

namespace StepSystem

variable {ω σ ε : Type} {step : ω → σ → Traced ε σ} {counted : ω → Bool} {C : ω → σ → Prop}
  {I : ℕ → σ → Prop} {ops : List ω} {s : σ} {n : ℕ}

/-- When a counted operation moves the index on and the others keep it, a run
    moves it by its counted operations. -/
theorem run_counted (hidle : ∀ op s n, counted op = false → C op s → I n s →
      I n (step op s).val)
    (hcount : ∀ op s n, counted op = true → C op s → I n s → I (n + 1) (step op s).val)
    (halong : Along step C ops s) (h : I n s) :
    I (n + ops.countP counted) (run step ops s).val := by
  induction ops generalizing s n with
  | nil => exact h
  | cons op ops ih =>
    obtain ⟨hop, hrest⟩ := halong
    rw [run_cons_val, List.countP_cons]
    cases hc : counted op with
    | false => simpa using ih hrest (hidle op s n hc hop h)
    | true =>
      have hrun := ih hrest (hcount op s n hc hop h)
      rwa [Nat.add_assoc, Nat.add_comm 1] at hrun

/-- When a counted operation brings the system one step nearer and the others
    keep it where it is, a run counts its counted operations down. -/
theorem run_countdown (hidle : ∀ op s n, counted op = false → C op s → I n s →
      I n (step op s).val)
    (hcount : ∀ op s n, counted op = true → C op s → I n s → I (n - 1) (step op s).val)
    (halong : Along step C ops s) (h : I n s) :
    I (n - ops.countP counted) (run step ops s).val := by
  have hrun := run_counted (I := fun k s => I (n - k) s) (n := 0)
    (fun op s k => hidle op s (n - k)) (fun op s k => hcount op s (n - k)) halong h
  rwa [Nat.zero_add] at hrun

/-- A run with as many counted operations as the distance settles the system. -/
theorem run_settles (hidle : ∀ op s n, counted op = false → C op s → I n s →
      I n (step op s).val)
    (hcount : ∀ op s n, counted op = true → C op s → I n s → I (n - 1) (step op s).val)
    (halong : Along step C ops s) (h : I n s) (hlen : n ≤ ops.countP counted) :
    I 0 (run step ops s).val := by
  rw [← Nat.sub_eq_zero_of_le hlen]
  exact run_countdown hidle hcount halong h

/-- A settled system is settled before every step of a run. -/
theorem Along.settled (hidle : ∀ op s n, counted op = false → C op s → I n s →
      I n (step op s).val)
    (hcount : ∀ op s n, counted op = true → C op s → I n s → I (n - 1) (step op s).val)
    (halong : Along step C ops s) (h : I 0 s) : Along step (fun _ s => I 0 s) ops s := by
  induction ops generalizing s with
  | nil => trivial
  | cons op ops ih =>
    obtain ⟨hop, hrest⟩ := halong
    refine ⟨h, ih hrest ?_⟩
    cases hc : counted op with
    | false => exact hidle op s 0 hc hop h
    | true => exact hcount op s 0 hc hop h

/-- A condition along a run holds along its two parts. -/
theorem Along.of_append {pre post : List ω} (h : Along step C (pre ++ post) s) :
    Along step C pre s ∧ Along step C post (run step pre s).val := by
  induction pre generalizing s with
  | nil => exact ⟨trivial, h⟩
  | cons op pre ih =>
    obtain ⟨hpre, hpost⟩ := ih h.2
    exact ⟨⟨h.1, hpre⟩, hpost⟩

/-- A list has a prefix with as many counted operations as one likes. -/
theorem exists_counted_prefix {counted : ω → Bool} (hlen : n ≤ ops.countP counted) :
    ∃ pre post, ops = pre ++ post ∧ pre.countP counted = n := by
  induction ops generalizing n with
  | nil =>
    rw [List.countP_nil, Nat.le_zero] at hlen
    exact ⟨[], [], rfl, hlen.symm⟩
  | cons op ops ih =>
    cases n with
    | zero => exact ⟨[], op :: ops, rfl, rfl⟩
    | succ n =>
      rw [List.countP_cons] at hlen
      cases hc : counted op with
      | false =>
        rw [hc] at hlen
        obtain ⟨pre, post, rfl, hpre⟩ := ih (n := n + 1) hlen
        exact ⟨op :: pre, post, rfl, by rw [List.countP_cons, hc, hpre]; rfl⟩
      | true =>
        rw [hc] at hlen
        obtain ⟨pre, post, rfl, hpre⟩ := ih (n := n) (Nat.le_of_succ_le_succ hlen)
        exact ⟨op :: pre, post, rfl, by rw [List.countP_cons, hc, hpre]; rfl⟩

end StepSystem
