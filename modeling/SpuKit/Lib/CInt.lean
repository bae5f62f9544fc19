import Mathlib.Algebra.Order.Ring.Int
import Mathlib.Order.MinMax
import Mathlib.Tactic.Positivity

/-!
# Ranges of integer expressions

An expression over `int` variables overflows when the mathematical value of one
of its subexpressions does not fit into 32 bits. Interval arithmetic bounds
these values from bounds of the variables: when it finds all of them in range,
no assignment within the bounds makes the expression overflow.

## Main definitions

- `CInt.Expr` — expressions of additions, products and shifts
- `CInt.Expr.values` — the values of all subexpressions
- `CInt.Expr.range` — the range of an expression that cannot overflow

## Main results

- `CInt.Expr.range_sound` — no subexpression leaves 32 bits, and the value of the
  expression lies in its range
-/

namespace CInt

/-- The values of a 32-bit `int`. -/
def InInt (x : ℤ) : Prop := -2 ^ 31 ≤ x ∧ x < 2 ^ 31

instance (x : ℤ) : Decidable (InInt x) := inferInstanceAs (Decidable (_ ∧ _))

/-- The integers from `lo` to `hi`. -/
structure Interval where
  lo : ℤ
  hi : ℤ
  deriving DecidableEq

instance : Membership ℤ Interval := ⟨fun I x => I.lo ≤ x ∧ x ≤ I.hi⟩

namespace Interval

variable {I J : Interval} {x y : ℤ}

theorem mem_iff : x ∈ I ↔ I.lo ≤ x ∧ x ≤ I.hi := Iff.rfl

instance (x : ℤ) (I : Interval) : Decidable (x ∈ I) := inferInstanceAs (Decidable (_ ∧ _))

def neg (I : Interval) : Interval := ⟨-I.hi, -I.lo⟩

def add (I J : Interval) : Interval := ⟨I.lo + J.lo, I.hi + J.hi⟩

/-- A product is bounded by the products of the bounds. -/
def mul (I J : Interval) : Interval where
  lo := min (min (I.lo * J.lo) (I.lo * J.hi)) (min (I.hi * J.lo) (I.hi * J.hi))
  hi := max (max (I.lo * J.lo) (I.lo * J.hi)) (max (I.hi * J.lo) (I.hi * J.hi))

def shl (I : Interval) (k : ℕ) : Interval := ⟨I.lo <<< k, I.hi <<< k⟩

def shr (I : Interval) (k : ℕ) : Interval := ⟨I.lo >>> k, I.hi >>> k⟩

theorem neg_mem (hx : x ∈ I) : -x ∈ I.neg :=
  ⟨neg_le_neg hx.2, neg_le_neg hx.1⟩

theorem add_mem (hx : x ∈ I) (hy : y ∈ J) : x + y ∈ I.add J :=
  ⟨add_le_add hx.1 hy.1, add_le_add hx.2 hy.2⟩

/-- A product is monotone or antitone in its first factor. -/
theorem mul_between (hx : x ∈ I) (y : ℤ) :
    min (I.lo * y) (I.hi * y) ≤ x * y ∧ x * y ≤ max (I.lo * y) (I.hi * y) := by
  rcases le_total 0 y with hy | hy
  · have hlo := mul_le_mul_of_nonneg_right hx.1 hy
    have hhi := mul_le_mul_of_nonneg_right hx.2 hy
    exact ⟨min_le_of_left_le hlo, le_max_of_le_right hhi⟩
  · have hlo := mul_le_mul_of_nonpos_right hx.2 hy
    have hhi := mul_le_mul_of_nonpos_right hx.1 hy
    exact ⟨min_le_of_right_le hlo, le_max_of_le_left hhi⟩

theorem mul_mem (hx : x ∈ I) (hy : y ∈ J) : x * y ∈ I.mul J := by
  obtain ⟨hlo, hhi⟩ := mul_between hx y
  have hfirst := mul_between hy I.lo
  have hlast := mul_between hy I.hi
  rw [mul_comm y, mul_comm J.lo, mul_comm J.hi] at hfirst hlast
  constructor
  · exact (min_le_min hfirst.1 hlast.1).trans hlo
  · exact hhi.trans (max_le_max hfirst.2 hlast.2)

theorem shl_mem (hx : x ∈ I) (k : ℕ) : x <<< k ∈ I.shl k := by
  have hpow : (0 : ℤ) ≤ 2 ^ k := by positivity
  rw [mem_iff, shl, Int.shiftLeft_eq, Int.shiftLeft_eq, Int.shiftLeft_eq]
  exact ⟨mul_le_mul_of_nonneg_right hx.1 hpow, mul_le_mul_of_nonneg_right hx.2 hpow⟩

theorem shr_mem (hx : x ∈ I) (k : ℕ) : x >>> k ∈ I.shr k := by
  have hpow : (0 : ℤ) < (2 ^ k : ℕ) := by positivity
  rw [mem_iff, shr, Int.shiftRight_eq_div_pow, Int.shiftRight_eq_div_pow,
    Int.shiftRight_eq_div_pow]
  exact ⟨Int.ediv_le_ediv hpow hx.1, Int.ediv_le_ediv hpow hx.2⟩

/-- The low bits are a remainder, whatever the sign. -/
def low (k : ℕ) : Interval := ⟨0, 2 ^ k - 1⟩

theorem low_mem (x : ℤ) (k : ℕ) : x % 2 ^ k ∈ low k := by
  have hpow : (0 : ℤ) < 2 ^ k := by positivity
  exact ⟨Int.emod_nonneg x hpow.ne', Int.le_sub_one_of_lt (Int.emod_lt_of_pos x hpow)⟩

/-- Clearing the low bits rounds down to a multiple. -/
def clear (I : Interval) (k : ℕ) : Interval := ⟨I.lo - I.lo % 2 ^ k, I.hi⟩

theorem clear_mem (hx : x ∈ I) (k : ℕ) : x - x % 2 ^ k ∈ I.clear k := by
  have hpow : (0 : ℤ) < 2 ^ k := by positivity
  have hfloor : ∀ z : ℤ, z - z % 2 ^ k = 2 ^ k * (z / 2 ^ k) := by
    intro z
    have := Int.emod_add_mul_ediv z (2 ^ k)
    omega
  constructor
  · show I.lo - I.lo % 2 ^ k ≤ x - x % 2 ^ k
    rw [hfloor, hfloor]
    exact mul_le_mul_of_nonneg_left (Int.ediv_le_ediv hpow hx.1) hpow.le
  · have hrem := Int.emod_nonneg x hpow.ne'
    have hhi := hx.2
    show x - x % 2 ^ k ≤ I.hi
    omega

end Interval

/-- An operator of one operand. -/
inductive Unary where
  | neg
  | shl (k : ℕ)
  | shr (k : ℕ)
  /-- `x & (2^k - 1)` -/
  | low (k : ℕ)
  /-- `x & ~(2^k - 1)` -/
  | clear (k : ℕ)

/-- An operator of two operands. -/
inductive Binary where
  | add
  | sub
  | mul

def Unary.eval : Unary → ℤ → ℤ
  | neg, x => -x
  | shl k, x => x <<< k
  | shr k, x => x >>> k
  | low k, x => x % 2 ^ k
  | clear k, x => x - x % 2 ^ k

def Binary.eval : Binary → ℤ → ℤ → ℤ
  | add, x, y => x + y
  | sub, x, y => x - y
  | mul, x, y => x * y

def Unary.bound : Unary → Interval → Interval
  | neg, I => I.neg
  | shl k, I => I.shl k
  | shr k, I => I.shr k
  | low k, _ => .low k
  | clear k, I => I.clear k

def Binary.bound : Binary → Interval → Interval → Interval
  | add, I, J => I.add J
  | sub, I, J => I.add J.neg
  | mul, I, J => I.mul J

theorem Unary.eval_mem (op : Unary) {x : ℤ} {I : Interval} (hx : x ∈ I) :
    op.eval x ∈ op.bound I := by
  cases op with
  | neg => exact Interval.neg_mem hx
  | shl k => exact Interval.shl_mem hx k
  | shr k => exact Interval.shr_mem hx k
  | low k => exact Interval.low_mem x k
  | clear k => exact Interval.clear_mem hx k

theorem Binary.eval_mem (op : Binary) {x y : ℤ} {I J : Interval} (hx : x ∈ I) (hy : y ∈ J) :
    op.eval x y ∈ op.bound I J := by
  cases op with
  | add => exact Interval.add_mem hx hy
  | sub =>
    show x - y ∈ I.add J.neg
    rw [sub_eq_add_neg]
    exact Interval.add_mem hx (Interval.neg_mem hy)
  | mul => exact Interval.mul_mem hx hy

/-- Expressions over `int` variables. -/
inductive Expr (ι : Type) where
  | lit (n : ℤ)
  | var (x : ι)
  | unary (op : Unary) (e : Expr ι)
  | binary (op : Binary) (l r : Expr ι)

namespace Expr

variable {ι : Type}

instance (n : ℕ) : OfNat (Expr ι) n := ⟨.lit n⟩

instance : Neg (Expr ι) := ⟨.unary .neg⟩

instance : Add (Expr ι) := ⟨.binary .add⟩

instance : Sub (Expr ι) := ⟨.binary .sub⟩

instance : Mul (Expr ι) := ⟨.binary .mul⟩

instance : HShiftLeft (Expr ι) ℕ (Expr ι) := ⟨fun e k => .unary (.shl k) e⟩

instance : HShiftRight (Expr ι) ℕ (Expr ι) := ⟨fun e k => .unary (.shr k) e⟩

/-- `e & (2^k - 1)` -/
def low (e : Expr ι) (k : ℕ) : Expr ι := .unary (.low k) e

/-- `e & ~(2^k - 1)` -/
def clear (e : Expr ι) (k : ℕ) : Expr ι := .unary (.clear k) e

/-- The mathematical value of an expression. -/
def eval (σ : ι → ℤ) : Expr ι → ℤ
  | lit n => n
  | var x => σ x
  | unary op e => op.eval (e.eval σ)
  | binary op l r => op.eval (l.eval σ) (r.eval σ)

/-- The values of all subexpressions, in the order of their evaluation. -/
def values (σ : ι → ℤ) : Expr ι → List ℤ
  | lit n => [n]
  | var x => [σ x]
  | unary op e => e.values σ ++ [op.eval (e.eval σ)]
  | binary op l r => l.values σ ++ r.values σ ++ [op.eval (l.eval σ) (r.eval σ)]

/-- The value of an expression comes last. -/
theorem eval_mem_values (σ : ι → ℤ) (e : Expr ι) : e.eval σ ∈ e.values σ := by
  cases e with
  | lit n => exact List.mem_singleton_self n
  | var x => exact List.mem_singleton_self (σ x)
  | unary op e => exact List.mem_append_right _ (List.mem_singleton_self _)
  | binary op l r => exact List.mem_append_right _ (List.mem_singleton_self _)

/-- An interval, when all of it fits into an `int`. -/
def fit (I : Interval) : Option Interval :=
  if InInt I.lo ∧ InInt I.hi then some I else none

/-- Interval arithmetic that gives up on a possible overflow. -/
def range (ρ : ι → Interval) : Expr ι → Option Interval
  | lit n => fit ⟨n, n⟩
  | var x => fit (ρ x)
  | unary op e => (e.range ρ).bind fun I => fit (op.bound I)
  | binary op l r => (l.range ρ).bind fun I => (r.range ρ).bind fun J => fit (op.bound I J)

theorem fit_sound {I J : Interval} {x : ℤ} (hfit : fit I = some J) (hx : x ∈ I) :
    x ∈ J ∧ InInt x := by
  rw [fit] at hfit
  split at hfit
  · next hbounds =>
    obtain rfl := Option.some.inj hfit
    exact ⟨hx, hbounds.1.1.trans hx.1, hx.2.trans_lt hbounds.2.2⟩
  · cases hfit

/-- **Soundness of the ranges**: within the bounds of the variables no
    subexpression overflows, and the value lies in the range. -/
theorem range_sound {σ : ι → ℤ} {ρ : ι → Interval} (hσ : ∀ x, σ x ∈ ρ x) {e : Expr ι}
    {K : Interval} (h : e.range ρ = some K) :
    e.eval σ ∈ K ∧ ∀ v ∈ e.values σ, InInt v := by
  induction e generalizing K with
  | lit n =>
    obtain ⟨hmem, hint⟩ := fit_sound (x := n) h ⟨le_rfl, le_rfl⟩
    exact ⟨hmem, List.forall_mem_singleton.mpr hint⟩
  | var x =>
    obtain ⟨hmem, hint⟩ := fit_sound h (hσ x)
    exact ⟨hmem, List.forall_mem_singleton.mpr hint⟩
  | unary op e ih =>
    obtain ⟨I, hI, hfit⟩ := Option.bind_eq_some_iff.mp h
    obtain ⟨he, hvalues⟩ := ih hI
    obtain ⟨hmem, hint⟩ := fit_sound hfit (op.eval_mem he)
    refine ⟨hmem, List.forall_mem_append.mpr ⟨hvalues, ?_⟩⟩
    exact List.forall_mem_singleton.mpr hint
  | binary op l r ihl ihr =>
    obtain ⟨I, hI, hbind⟩ := Option.bind_eq_some_iff.mp h
    obtain ⟨J, hJ, hfit⟩ := Option.bind_eq_some_iff.mp hbind
    obtain ⟨hl, hlvalues⟩ := ihl hI
    obtain ⟨hr, hrvalues⟩ := ihr hJ
    obtain ⟨hmem, hint⟩ := fit_sound hfit (op.eval_mem hl hr)
    refine ⟨hmem, List.forall_mem_append.mpr ⟨?_, ?_⟩⟩
    · exact List.forall_mem_append.mpr ⟨hlvalues, hrvalues⟩
    · exact List.forall_mem_singleton.mpr hint

/-- Expressions with a range cannot overflow. -/
theorem values_inInt {σ : ι → ℤ} {ρ : ι → Interval} (hσ : ∀ x, σ x ∈ ρ x) {es : List (Expr ι)}
    (hes : es.all (fun e => (e.range ρ).isSome) = true) :
    ∀ v ∈ es.flatMap (values σ), InInt v := by
  intro v hv
  obtain ⟨e, he, hv⟩ := List.mem_flatMap.mp hv
  obtain ⟨K, hK⟩ := Option.isSome_iff_exists.mp (List.all_eq_true.mp hes e he)
  exact (range_sound hσ hK).2 v hv

end Expr

end CInt
