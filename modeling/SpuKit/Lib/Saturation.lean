import Mathlib.Order.MinMax
import Mathlib.Order.Monotone.Basic

/-!
# Saturation

A value is cut off at the ends of a range. Cutting off keeps the order and
forgets how far beyond an end a value was, so a control that moves a value is
still followed by what comes out, unless it is turned the wrong way on values
that saturation tells apart.

## Main definitions

- `Saturation.sat` — cut off at the ends of a range

## Main results

- `Saturation.sat_eq_sat_iff` — which values saturation does not tell apart
- `Saturation.follows_iff` — when an output follows a control
-/

namespace Saturation

variable {α β : Type} [LinearOrder α] [LinearOrder β]

/-- Cut `x` off at `lo` and at `hi`. -/
def sat (lo hi x : α) : α := max lo (min x hi)

theorem sat_mono (lo hi : α) : Monotone (sat lo hi) := by
  intro x y hle
  exact max_le_max_left lo (min_le_min_right hi hle)

/-- Saturation keeps a strict order unless both values lie beyond one end. -/
theorem sat_lt_sat_iff {lo hi : α} (h : lo < hi) (x y : α) :
    sat lo hi x < sat lo hi y ↔ x < y ∧ x < hi ∧ lo < y := by
  rw [sat, sat, max_lt_max_right_iff, min_lt_min_left_iff, lt_min_iff]
  constructor
  · rintro ⟨⟨hxy, hx⟩, hy, -⟩
    exact ⟨hxy, hx, hy⟩
  · rintro ⟨hxy, hx, hy⟩
    exact ⟨⟨hxy, hx⟩, hy, h⟩

/-- Saturation does not tell two values apart that are equal or lie beyond the
    same end. -/
theorem sat_eq_sat_iff {lo hi : α} (h : lo < hi) (x y : α) :
    sat lo hi x = sat lo hi y ↔ x = y ∨ (hi ≤ x ∧ hi ≤ y) ∨ (x ≤ lo ∧ y ≤ lo) := by
  have hxy := sat_lt_sat_iff h x y
  have hyx := sat_lt_sat_iff h y x
  rcases lt_trichotomy x y with hlt | rfl | hlt
  · grind
  · exact iff_of_true rfl (Or.inl rfl)
  · grind

/-- An output that moves with its control or against it, depending on the sign
    of an input, follows any two settings in order, and settings out of order
    just when it does not tell them apart. -/
theorem follows_iff {up down : Prop} {out : β → α} (hup : up → Monotone out)
    (hdown : down → Antitone out) (hsign : up ∨ down) (x y : β) :
    ((up → out x ≤ out y) ∧ (down → out y ≤ out x)) ↔ x ≤ y ∨ out x = out y := by
  constructor
  · rintro ⟨hrise, hfall⟩
    rcases le_or_gt x y with hle | hlt
    · exact Or.inl hle
    · right
      rcases hsign with h | h
      · exact le_antisymm (hrise h) (hup h hlt.le)
      · exact le_antisymm (hdown h hlt.le) (hfall h)
  · rintro (hle | heq)
    · exact ⟨fun h => hup h hle, fun h => hdown h hle⟩
    · exact ⟨fun _ => heq.le, fun _ => heq.ge⟩

end Saturation
