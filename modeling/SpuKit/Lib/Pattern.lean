import Mathlib.Data.List.Forall2

/-!
# Patterns of texts

A pattern gives a class of characters for each of the first places of a text. At
the end of the classes the text ends as well, or it goes on, and then only the
class of its next character is known. Two patterns are apart when some place tells
them from each other, so that no text fits both.

## Main definitions

- `Pattern`, `Pattern.Fits`
- `Pattern.after` — a pattern behind some more classes
- `Pattern.apart` — no text fits both

## Main results

- `Pattern.Fits.after` — a text in pieces
- `Pattern.not_fits_of_apart`
-/

/-- A pattern of texts. -/
inductive Pattern (α : Type) where
  /-- the text ends -/
  | done
  /-- the text goes on with a character of the class -/
  | more (first : List α)
  /-- a character of the class, and then the rest -/
  | next (first : List α) (rest : Pattern α)
  deriving DecidableEq

namespace Pattern

variable {α : Type}

/-- The text is one of the pattern. -/
def Fits : Pattern α → List α → Prop
  | done, text => text = []
  | more first, text => ∃ c rest, text = c :: rest ∧ c ∈ first
  | next first p, text => ∃ c rest, text = c :: rest ∧ c ∈ first ∧ p.Fits rest

/-- Some more classes before the pattern. -/
def after (p : Pattern α) (classes : List (List α)) : Pattern α := classes.foldr next p

/-- The pattern behind a fixed text. -/
def afterText (p : Pattern α) (text : List α) : Pattern α := p.after (text.map ([·]))

/-- A text in two pieces. -/
theorem Fits.after {p : Pattern α} {rest : List α} (h : p.Fits rest) {text : List α}
    {classes : List (List α)} (htext : List.Forall₂ (· ∈ ·) text classes) :
    (p.after classes).Fits (text ++ rest) := by
  induction htext with
  | nil => exact h
  | cons hc _ ih => exact ⟨_, _, rfl, hc, ih⟩

theorem Fits.afterText {p : Pattern α} {rest : List α} (h : p.Fits rest) (text : List α) :
    (p.afterText text).Fits (text ++ rest) := by
  refine h.after (List.forall₂_map_right_iff.mpr (List.forall₂_same.mpr fun c _ => ?_))
  exact List.mem_singleton_self c

section Apart

variable [DecidableEq α]

/-- No character is in both classes. -/
def disjoint (xs ys : List α) : Bool := xs.all fun c => ! ys.contains c

theorem not_mem_of_disjoint {xs ys : List α} (h : disjoint xs ys = true) {c : α} (hx : c ∈ xs) :
    c ∉ ys := by
  have hc := List.all_eq_true.mp h c hx
  simpa using hc

/-- Some place tells the patterns from each other. -/
def apart : Pattern α → Pattern α → Bool
  | done, done => false
  | done, more _ | done, next _ _ | more _, done | next _ _, done => true
  | more xs, more ys | more xs, next ys _ | next xs _, more ys => disjoint xs ys
  | next xs p, next ys q => disjoint xs ys || apart p q

/-- **Apart**: no text fits two patterns that are apart. -/
theorem not_fits_of_apart {p q : Pattern α} (h : apart p q = true) {text : List α}
    (hp : p.Fits text) : ¬ q.Fits text := by
  intro hq
  induction p generalizing q text with
  | done =>
    cases hp
    cases q with
    | done => cases h
    | more ys =>
      obtain ⟨_, _, htext, -⟩ := hq
      cases htext
    | next ys q =>
      obtain ⟨_, _, htext, -⟩ := hq
      cases htext
  | more xs =>
    obtain ⟨c, rest, rfl, hc⟩ := hp
    cases q with
    | done => cases hq
    | more ys =>
      obtain ⟨_, _, htext, hc'⟩ := hq
      cases htext
      exact not_mem_of_disjoint h hc hc'
    | next ys q =>
      obtain ⟨_, _, htext, hc', -⟩ := hq
      cases htext
      exact not_mem_of_disjoint h hc hc'
  | next xs p ih =>
    obtain ⟨c, rest, rfl, hc, hp⟩ := hp
    cases q with
    | done => cases hq
    | more ys =>
      obtain ⟨_, _, htext, hc'⟩ := hq
      cases htext
      exact not_mem_of_disjoint h hc hc'
    | next ys q =>
      obtain ⟨_, _, htext, hc', hq⟩ := hq
      cases htext
      obtain h | h := Bool.or_eq_true_iff.mp h
      · exact not_mem_of_disjoint h hc hc'
      · exact ih h hp hq

end Apart

end Pattern
