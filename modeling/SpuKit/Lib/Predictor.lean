import Mathlib.Algebra.Order.Ring.Int
import Mathlib.Data.List.GetD

/-!
# Second-order predictive decoders

A predictive decoder computes every sample from the two samples before it and
rounds it to the range of its output. Two designs differ in what they feed
back: one rounds each sample before it predicts the next one, the other
predicts a group of samples from unrounded ones and rounds the group at the
end. This file says exactly when the two agree, for any rounding on either
side.

A history is the pair of the newest sample and the one before it, and an input
is a function from the history to the next sample, before rounding.

## Main definitions

- `Predictor.closedLoop` — every sample is rounded before it is fed back
- `Predictor.grouped` — samples are rounded at the end of their group
- `Predictor.GroupsAgree` — what the two have to satisfy, input by input

## Main results

- `Predictor.closedLoop_eq_grouped_iff` — when the two designs agree
- `Predictor.groupsAgree_of_unrounded` — they do when there is nothing to round
- `Predictor.groupsAgree_of_early` — and when only last samples are rounded
- `Predictor.eq_closedLoop_iff` — feedback as a recurrence over indices
-/

namespace Predictor

/-- The next sample as a function of the newest one and the one before it. -/
abbrev Input := ℤ → ℤ → ℤ

/-- Round each sample, and predict the next one from rounded samples. -/
def closedLoop (R : ℤ → ℤ) : List Input → ℤ × ℤ → List ℤ
  | [], _ => []
  | f :: fs, h => R (f h.1 h.2) :: closedLoop R fs (R (f h.1 h.2), h.1)

/-- The history after more samples. -/
def advance (h : ℤ × ℤ) (out : List ℤ) : ℤ × ℤ := out.foldl (fun h s => (s, h.1)) h

/-- Predict a group from unrounded samples, round it, and go on to the next
    group from rounded ones. -/
def grouped (T : ℤ → ℤ) : List (List Input) → ℤ × ℤ → List ℤ
  | [], _ => []
  | g :: gs, h =>
    let out := (closedLoop id g h).map T
    out ++ grouped T gs (advance h out)

@[simp] theorem length_closedLoop (R : ℤ → ℤ) (fs : List Input) (h : ℤ × ℤ) :
    (closedLoop R fs h).length = fs.length := by
  induction fs generalizing h with
  | nil => rfl
  | cons f fs ih => rw [closedLoop, List.length_cons, ih, List.length_cons]

@[simp] theorem length_grouped (T : ℤ → ℤ) (gs : List (List Input)) (h : ℤ × ℤ) :
    (grouped T gs h).length = gs.flatten.length := by
  induction gs generalizing h with
  | nil => rfl
  | cons g gs ih =>
    rw [grouped, List.length_append, ih, List.length_map, length_closedLoop, List.flatten_cons,
      List.length_append]

theorem closedLoop_append (R : ℤ → ℤ) (fs gs : List Input) (h : ℤ × ℤ) :
    closedLoop R (fs ++ gs) h =
      closedLoop R fs h ++ closedLoop R gs (advance h (closedLoop R fs h)) := by
  induction fs generalizing h with
  | nil => rfl
  | cons f fs ih =>
    rw [List.cons_append, closedLoop, ih, closedLoop, List.cons_append]
    rfl

/-- Inputs that amplify their history at most `gain` times let the unrounded
    samples grow by `gain` from one to the next. -/
theorem closedLoop_bounds {gain low : ℤ} (hgain : 1 ≤ gain) (hlow : 0 ≤ low) {fs : List Input}
    (hfs : ∀ f ∈ fs, ∀ b, low ≤ b → ∀ p q, -b ≤ p ∧ p ≤ b → -b ≤ q ∧ q ≤ b →
      -(gain * b) ≤ f p q ∧ f p q ≤ gain * b)
    {b : ℤ} (hb : low ≤ b) {h : ℤ × ℤ} (hnew : -b ≤ h.1 ∧ h.1 ≤ b) (hold : -b ≤ h.2 ∧ h.2 ≤ b) :
    ∀ u ∈ closedLoop id fs h, -(gain ^ fs.length * b) ≤ u ∧ u ≤ gain ^ fs.length * b := by
  induction fs generalizing b h with
  | nil => exact fun u hu => absurd hu List.not_mem_nil
  | cons f fs ih =>
    have hnext := hfs f List.mem_cons_self b hb h.1 h.2 hnew hold
    have hle : b ≤ gain * b := le_mul_of_one_le_left (hlow.trans hb) hgain
    have hpow : gain * b ≤ gain ^ (fs.length + 1) * b := by
      rw [pow_succ, mul_assoc]
      exact le_mul_of_one_le_left (hlow.trans (hb.trans hle)) (one_le_pow₀ hgain)
    intro u hu
    rw [List.length_cons]
    rcases List.mem_cons.mp hu with rfl | hu
    · exact ⟨(neg_le_neg hpow).trans hnext.1, hnext.2.trans hpow⟩
    · have hrest := ih (fun f hf => hfs f (List.mem_cons_of_mem _ hf)) (hb.trans hle)
        (h := (f h.1 h.2, h.1)) hnext ⟨(neg_le_neg hle).trans hnew.1, hnew.2.trans hle⟩ u hu
      rwa [← mul_assoc, ← pow_succ] at hrest

section Agreement

variable (R T : ℤ → ℤ) (S : ℤ → ℤ → Prop)

/-- What a group has to satisfy from two histories, the rounded one first: each
    sample predicted from rounded ones matches the one predicted from unrounded
    ones. -/
def Agrees : List Input → ℤ × ℤ → ℤ × ℤ → Prop
  | [], _, _ => True
  | f :: fs, h, h' =>
    S (f h.1 h.2) (f h'.1 h'.2) ∧ Agrees fs (R (f h.1 h.2), h.1) (f h'.1 h'.2, h'.1)

/-- What a sequence of groups has to satisfy from a rounded history. -/
def GroupsAgree : List (List Input) → ℤ × ℤ → Prop
  | [], _ => True
  | g :: gs, h => Agrees R S g h h ∧ GroupsAgree gs (advance h (closedLoop R g h))

variable {R T S}

theorem closedLoop_eq_map_iff (hS : ∀ w u, S w u ↔ R w = T u) {fs : List Input} {h h' : ℤ × ℤ} :
    closedLoop R fs h = (closedLoop id fs h').map T ↔ Agrees R S fs h h' := by
  induction fs generalizing h h' with
  | nil => exact ⟨fun _ => trivial, fun _ => rfl⟩
  | cons f fs ih =>
    rw [closedLoop, closedLoop, List.map_cons, List.cons.injEq, ih, Agrees, hS]
    rfl

/-- **Agreement**: rounding every sample and rounding group by group give the
    same samples exactly when each pair of predictions matches. -/
theorem closedLoop_eq_grouped_iff (hS : ∀ w u, S w u ↔ R w = T u) {gs : List (List Input)}
    {h : ℤ × ℤ} :
    closedLoop R gs.flatten h = grouped T gs h ↔ GroupsAgree R S gs h := by
  induction gs generalizing h with
  | nil => exact ⟨fun _ => trivial, fun _ => rfl⟩
  | cons g gs ih =>
    have hlen : (closedLoop R g h).length = ((closedLoop id g h).map T).length := by simp
    rw [List.flatten_cons, closedLoop_append, grouped, GroupsAgree, ← ih,
      ← closedLoop_eq_map_iff hS]
    constructor
    · intro heq
      obtain ⟨hgroup, hrest⟩ := List.append_inj heq hlen
      exact ⟨hgroup, by rw [hrest, hgroup]⟩
    · rintro ⟨hgroup, hrest⟩
      rw [hrest, hgroup]

/-- Samples that rounding would not change need no rounding to agree. -/
theorem agrees_of_unrounded {P : ℤ → Prop} (hR : ∀ u, P u → R u = u) (hS : ∀ u, P u → S u u)
    {fs : List Input} {h : ℤ × ℤ} (hP : ∀ u ∈ closedLoop id fs h, P u) :
    Agrees R S fs h h ∧ closedLoop R fs h = closedLoop id fs h := by
  induction fs generalizing h with
  | nil => exact ⟨trivial, rfl⟩
  | cons f fs ih =>
    obtain ⟨hu, hrest⟩ := List.forall_mem_cons.mp hP
    obtain ⟨hagree, heq⟩ := ih hrest
    have hround : R (f h.1 h.2) = f h.1 h.2 := hR _ hu
    rw [Agrees, closedLoop, closedLoop, hround]
    exact ⟨⟨hS _ hu, hagree⟩, congrArg (List.cons _) heq⟩

/-- A decode that never has to round meets the condition. -/
theorem groupsAgree_of_unrounded {P : ℤ → Prop} (hR : ∀ u, P u → R u = u) (hS : ∀ u, P u → S u u)
    {gs : List (List Input)} {h : ℤ × ℤ} (hP : ∀ u ∈ closedLoop id gs.flatten h, P u) :
    GroupsAgree R S gs h := by
  induction gs generalizing h with
  | nil => trivial
  | cons g gs ih =>
    rw [List.flatten_cons, closedLoop_append, List.forall_mem_append] at hP
    obtain ⟨hagree, heq⟩ := agrees_of_unrounded hR hS hP.1
    refine ⟨hagree, ih ?_⟩
    rw [heq]
    exact hP.2

/-- In every group the predictions but the last one satisfy `P`. -/
def EarlyWithin (R : ℤ → ℤ) (P : ℤ → Prop) : List (List Input) → ℤ × ℤ → Prop
  | [], _ => True
  | g :: gs, h =>
    (∀ u ∈ (closedLoop id g h).dropLast, P u) ∧ EarlyWithin R P gs (advance h (closedLoop R g h))

/-- The last sample of a group is not fed back inside the group. -/
theorem agrees_of_early {P : ℤ → Prop} (hR : ∀ u, P u → R u = u) (hS : ∀ u, S u u)
    {fs : List Input} {h : ℤ × ℤ} (hP : ∀ u ∈ (closedLoop id fs h).dropLast, P u) :
    Agrees R S fs h h := by
  induction fs generalizing h with
  | nil => trivial
  | cons f fs ih =>
    cases fs with
    | nil => exact ⟨hS _, trivial⟩
    | cons f' fs =>
      obtain ⟨hu, hrest⟩ := List.forall_mem_cons.mp hP
      have hround : R (f h.1 h.2) = f h.1 h.2 := hR _ hu
      rw [Agrees, hround]
      exact ⟨hS _, ih hrest⟩

/-- A decode that rounds no sample but the last ones of its groups meets the
    condition. -/
theorem groupsAgree_of_early {P : ℤ → Prop} (hR : ∀ u, P u → R u = u) (hS : ∀ u, S u u)
    {gs : List (List Input)} {h : ℤ × ℤ} (hP : EarlyWithin R P gs h) : GroupsAgree R S gs h := by
  induction gs generalizing h with
  | nil => trivial
  | cons g gs ih => exact ⟨agrees_of_early hR hS hP.1, ih hP.2⟩

end Agreement

/-- Feedback as a recurrence: each output is the rounded prediction from the two
    before it, the history coming first. -/
theorem eq_closedLoop_iff (R : ℤ → ℤ) {fs : List Input} {h : ℤ × ℤ} {out : List ℤ}
    (hlen : out.length = fs.length) :
    out = closedLoop R fs h ↔ ∀ k, k < fs.length →
      (h.2 :: h.1 :: out).getD (k + 2) 0 =
        R (fs.getD k (fun _ _ => 0) ((h.2 :: h.1 :: out).getD (k + 1) 0)
          ((h.2 :: h.1 :: out).getD k 0)) := by
  induction fs generalizing h out with
  | nil =>
    rw [List.length_nil, List.length_eq_zero_iff] at hlen
    exact ⟨fun _ k hk => absurd hk (Nat.not_lt_zero k), fun _ => hlen⟩
  | cons f fs ih =>
    cases out with
    | nil => cases hlen
    | cons s out =>
      have hlen' : out.length = fs.length := Nat.succ.inj hlen
      rw [closedLoop, List.cons.injEq]
      constructor
      · rintro ⟨rfl, hrest⟩ k hk
        cases k with
        | zero => rfl
        | succ k => exact (ih hlen').mp hrest k (Nat.lt_of_succ_lt_succ hk)
      · intro hall
        have hs : s = R (f h.1 h.2) := hall 0 (Nat.succ_pos _)
        refine ⟨hs, ?_⟩
        rw [← hs]
        exact (ih (h := (s, h.1)) hlen').mpr fun k hk => hall (k + 1) (Nat.succ_lt_succ hk)

end Predictor
