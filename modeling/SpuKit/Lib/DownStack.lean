import Mathlib.Data.BitVec
import Mathlib.Logic.Function.Basic

/-!
# Stacks that grow down and wrap

A stack in a memory of `2 ^ w` cells. The pointer is at the next free cell and
moves down with every element, from the first cell to the last one. Only the
cells of the elements are specified, and there is no room for more elements
than cells.

## Main definitions

- `DownStack` — the memory and the pointer
- `DownStack.push`, `DownStack.peek`, `DownStack.drop` — the operations
- `DownStack.Holds` — the elements, the last one pushed first
- `DownStack.pushAll`, `DownStack.take`, `DownStack.dropN` — many elements

## Main results

- `DownStack.Holds.push`, `DownStack.Holds.pop` — what the operations do
- `DownStack.Holds.congr` — what does not matter to the elements
- `DownStack.take_pushAll`, `DownStack.peek_dropN_pushAll` — last in, first out
-/

/-- A memory with a pointer to the next free cell. -/
structure DownStack (w : ℕ) (α : Type) where
  mem : BitVec w → α
  top : BitVec w

namespace DownStack

variable {w : ℕ} {α : Type}

def push (s : DownStack w α) (a : α) : DownStack w α where
  mem := Function.update s.mem s.top a
  top := s.top - 1

/-- The last element that was pushed. -/
def peek (s : DownStack w α) : α := s.mem (s.top + 1)

def drop (s : DownStack w α) : DownStack w α := { s with top := s.top + 1 }

/-- The cell of an element, with `i` elements pushed after it. -/
def cell (s : DownStack w α) (i : ℕ) : BitVec w := s.top + BitVec.ofNat w (i + 1)

/-- The elements that are on the stack, the last one that was pushed first. -/
def Holds (s : DownStack w α) (xs : List α) : Prop :=
  ∀ i (hi : i < xs.length), s.mem (s.cell i) = xs[i]

section Cells

variable (s : DownStack w α) (a : α)

/-- The free cell is that of no element. -/
theorem cell_ne_top {i : ℕ} (hi : i + 1 < 2 ^ w) : s.cell i ≠ s.top := by
  intro h
  have hzero : BitVec.ofNat w (i + 1) = 0 := by
    rw [← BitVec.add_right_inj s.top]
    exact h.trans (BitVec.add_zero s.top).symm
  have hval := congrArg BitVec.toNat hzero
  rw [BitVec.toNat_ofNat, Nat.mod_eq_of_lt hi] at hval
  simp at hval

theorem push_cell_zero : (s.push a).cell 0 = s.top :=
  BitVec.sub_add_cancel s.top 1

theorem push_cell_succ (i : ℕ) : (s.push a).cell (i + 1) = s.cell i := by
  show s.top - 1 + BitVec.ofNat w (i + 1 + 1) = s.top + BitVec.ofNat w (i + 1)
  rw [BitVec.ofNat_add (i + 1) 1, BitVec.add_comm (BitVec.ofNat w (i + 1)), ← BitVec.add_assoc]
  exact congrArg (· + _) (BitVec.sub_add_cancel s.top 1)

theorem drop_cell (i : ℕ) : s.drop.cell i = s.cell (i + 1) := by
  show s.top + 1 + BitVec.ofNat w (i + 1) = s.top + BitVec.ofNat w (i + 1 + 1)
  rw [BitVec.ofNat_add (i + 1) 1, BitVec.add_comm (BitVec.ofNat w (i + 1)), ← BitVec.add_assoc]
  rfl

end Cells

section Holds

variable {s s' : DownStack w α} {a : α} {xs ys : List α}

theorem holds_nil (s : DownStack w α) : s.Holds [] := fun _ hi => absurd hi (Nat.not_lt_zero _)

/-- **Frame**: only the pointer and the cells of the elements matter. -/
theorem Holds.congr (h : s.Holds xs) (htop : s'.top = s.top)
    (hmem : ∀ i, i < xs.length → s'.mem (s.cell i) = s.mem (s.cell i)) : s'.Holds xs := by
  intro i hi
  have hcell : s'.cell i = s.cell i := congrArg (· + BitVec.ofNat w (i + 1)) htop
  rw [hcell, hmem i hi]
  exact h i hi

/-- **Push**: there is room for one more element. -/
theorem Holds.push (h : s.Holds xs) (hroom : xs.length < 2 ^ w) (a : α) :
    (s.push a).Holds (a :: xs) := by
  intro i hi
  cases i with
  | zero =>
    rw [push_cell_zero]
    exact Function.update_self ..
  | succ i =>
    have hi' : i < xs.length := Nat.lt_of_succ_lt_succ hi
    rw [push_cell_succ, List.getElem_cons_succ]
    exact (Function.update_of_ne (s.cell_ne_top (by omega)) ..).trans (h i hi')

/-- **Pop**: the last element that was pushed. -/
theorem Holds.pop (h : s.Holds (a :: xs)) : s.peek = a ∧ s.drop.Holds xs := by
  refine ⟨h 0 (Nat.succ_pos _), fun i hi => ?_⟩
  rw [drop_cell]
  exact h (i + 1) (Nat.succ_lt_succ hi)

end Holds

-- ════════════════════════════════════════════════════════════════════════
-- Many elements
-- ════════════════════════════════════════════════════════════════════════

/-- The elements are pushed one after the other. -/
def pushAll (s : DownStack w α) (xs : List α) : DownStack w α := xs.foldl push s

/-- The last `n` elements that were pushed, the last one first. -/
def take : ℕ → DownStack w α → List α
  | 0, _ => []
  | n + 1, s => s.peek :: take n s.drop

/-- The stack without its last `n` elements. -/
def dropN (s : DownStack w α) (n : ℕ) : DownStack w α :=
  { s with top := s.top + BitVec.ofNat w n }

section Many

variable {s : DownStack w α} {xs ys : List α}

theorem dropN_zero (s : DownStack w α) : s.dropN 0 = s :=
  congrArg (DownStack.mk s.mem) (BitVec.add_zero s.top)

theorem dropN_dropN (s : DownStack w α) (n k : ℕ) : (s.dropN n).dropN k = s.dropN (n + k) := by
  rw [dropN, dropN, dropN, BitVec.add_assoc, ← BitVec.ofNat_add]

theorem take_add (s : DownStack w α) (n k : ℕ) :
    s.take (n + k) = s.take n ++ (s.dropN n).take k := by
  induction n generalizing s with
  | zero => rw [Nat.zero_add, dropN_zero, take, List.nil_append]
  | succ n ih =>
    have hdrop : s.drop.dropN n = s.dropN (n + 1) := by
      rw [Nat.add_comm n 1]
      exact dropN_dropN s 1 n
    rw [Nat.add_right_comm, take, take, ih, hdrop, List.cons_append]

theorem pushAll_append (s : DownStack w α) (xs ys : List α) :
    s.pushAll (xs ++ ys) = (s.pushAll xs).pushAll ys :=
  List.foldl_append ..

theorem top_pushAll (s : DownStack w α) (xs : List α) :
    (s.pushAll xs).top = s.top - BitVec.ofNat w xs.length := by
  induction xs generalizing s with
  | nil => exact (BitVec.sub_zero s.top).symm
  | cons x xs ih =>
    show ((s.push x).pushAll xs).top = _
    rw [ih, List.length_cons, Nat.add_comm xs.length 1, BitVec.ofNat_add]
    exact BitVec.sub_sub ..

/-- Elements that are pushed are on the stack, as long as there is room for them. -/
theorem Holds.pushAll (h : s.Holds ys) (hroom : xs.length + ys.length ≤ 2 ^ w) :
    (s.pushAll xs).Holds (xs.reverse ++ ys) := by
  induction xs generalizing s ys with
  | nil => exact h
  | cons x xs ih =>
    rw [List.length_cons] at hroom
    rw [List.reverse_cons, List.append_assoc]
    exact ih (h.push (by omega) x) (by rw [List.singleton_append, List.length_cons]; omega)

theorem Holds.take (h : s.Holds (xs ++ ys)) : s.take xs.length = xs := by
  induction xs generalizing s with
  | nil => rfl
  | cons x xs ih =>
    obtain ⟨hpeek, hdrop⟩ := Holds.pop h
    rw [List.length_cons, DownStack.take, hpeek, ih hdrop]

/-- **Last in, first out**: what was pushed is popped in the other order, up to
    the last cell. -/
theorem take_pushAll (s : DownStack w α) (h : xs.length ≤ 2 ^ w) :
    (s.pushAll xs).take xs.length = xs.reverse := by
  have hholds : (s.pushAll xs).Holds (xs.reverse ++ []) := s.holds_nil.pushAll h
  rw [← List.length_reverse]
  exact Holds.take hholds

/-- The pointer comes back. -/
theorem top_dropN_pushAll (s : DownStack w α) (xs : List α) :
    ((s.pushAll xs).dropN xs.length).top = s.top := by
  show (s.pushAll xs).top + _ = _
  rw [top_pushAll, BitVec.sub_add_cancel]

/-- What was pushed before is found again. -/
theorem peek_dropN_pushAll (s : DownStack w α) (a : α) (h : xs.length < 2 ^ w) :
    (((s.push a).pushAll xs).dropN xs.length).peek = a := by
  have hall := take_pushAll s (show (a :: xs).length ≤ 2 ^ w from h)
  rw [List.length_cons, take_add, List.reverse_cons] at hall
  have hlast := (List.append_inj hall
    (congrArg List.length ((s.push a).take_pushAll h.le))).2
  exact (List.cons.inj hlast).1

end Many

end DownStack
