import Mathlib.Algebra.Order.Field.Rat
import Mathlib.Algebra.Order.AbsoluteValue.Basic

/-!
Numbers of a floating-point format with exact finite arithmetic: a rational, an
infinity or not a number.

A comparison with what is not a number is false both ways.
-/

namespace Floating

inductive Number where
  | nan
  | inf (negative : Bool)
  | fin (q : ℚ)
  deriving DecidableEq

namespace Number

def neg : Number → Number
  | nan => nan
  | inf s => inf !s
  | fin q => fin (-q)

/-- `abs(x)`. -/
def abs : Number → Number
  | nan => nan
  | inf _ => inf false
  | fin q => fin |q|

def add : Number → Number → Number
  | fin a, fin b => fin (a + b)
  | inf s, inf t => if s = t then inf s else nan
  | inf s, fin _ | fin _, inf s => inf s
  | nan, _ | _, nan => nan

/-- The infinity of sign `s` scaled by `q`. -/
def scaled (s : Bool) (q : ℚ) : Number :=
  if q = 0 then nan else inf (s != decide (q < 0))

def mul : Number → Number → Number
  | fin a, fin b => fin (a * b)
  | inf s, inf t => inf (s != t)
  | inf s, fin q | fin q, inf s => scaled s q
  | nan, _ | _, nan => nan

def div : Number → Number → Number
  | fin a, fin b => fin (a / b)
  | inf s, fin q => scaled s q
  | fin _, inf _ => fin 0
  | inf _, inf _ => nan
  | nan, _ | _, nan => nan

instance : Neg Number := ⟨neg⟩

instance : Add Number := ⟨add⟩

instance : Sub Number := ⟨fun x y => add x (neg y)⟩

instance : Mul Number := ⟨mul⟩

instance : Div Number := ⟨div⟩

/-- `x < y`. -/
def lt : Number → Number → Bool
  | fin a, fin b => a < b
  | inf s, inf t => s && !t
  | inf s, fin _ => s
  | fin _, inf t => !t
  | nan, _ | _, nan => false

/-- `x <= y`. -/
def le : Number → Number → Bool
  | fin a, fin b => a ≤ b
  | inf s, inf t => s || !t
  | inf s, fin _ => s
  | fin _, inf t => !t
  | nan, _ | _, nan => false

/-- `math.isfinite(x)`. -/
def isfinite : Number → Bool
  | fin _ => true
  | nan | inf _ => false

/-- `max(0.0, x)`, which keeps its first argument unless the second is greater. -/
def max0 (x : Number) : Number := if lt (fin 0) x then x else fin 0

/-- `max(x, y)`, which keeps its first argument unless the second is greater. -/
def pyMax (x y : Number) : Number := if lt x y then y else x

/-- `x == y`. -/
def eq : Number → Number → Bool
  | nan, _ | _, nan => false
  | x, y => x = y

/-- `x or y`. -/
def orElse (x : Option Number) (y : Number) : Number :=
  match x with
  | none | some (fin 0) => y
  | some x => x

variable {x y : Number} {a b : ℚ}

@[simp] theorem fin_add : fin a + fin b = fin (a + b) := rfl

@[simp] theorem fin_sub : fin a - fin b = fin (a - b) := congrArg fin (sub_eq_add_neg a b).symm

@[simp] theorem fin_mul : fin a * fin b = fin (a * b) := rfl

@[simp] theorem fin_div : fin a / fin b = fin (a / b) := rfl

@[simp] theorem fin_neg : -fin a = fin (-a) := rfl

@[simp] theorem fin_abs : (fin a).abs = fin |a| := rfl

@[simp] theorem lt_fin : lt (fin a) (fin b) = decide (a < b) := rfl

@[simp] theorem le_fin : le (fin a) (fin b) = decide (a ≤ b) := rfl

@[simp] theorem isfinite_nan : isfinite nan = false := rfl

@[simp] theorem isfinite_mul_nan : isfinite (x * nan) = false := by cases x <;> rfl

theorem max0_fin : max0 (fin a) = fin (max 0 a) := by
  unfold max0
  rw [lt_fin]
  by_cases h : 0 < a
  · rw [if_pos (decide_eq_true h), max_eq_right h.le]
  · rw [if_neg (by simpa using h), max_eq_left (not_lt.1 h)]

def IsFin (x : Number) : Prop := ∃ q, x = fin q

theorem isFin_fin : IsFin (fin a) := ⟨a, rfl⟩

theorem not_isFin_nan : ¬ IsFin nan := by
  rintro ⟨q, hq⟩
  cases hq

theorem not_isFin_inf {s : Bool} : ¬ IsFin (inf s) := by
  rintro ⟨q, hq⟩
  cases hq

theorem isFin_add : IsFin (x + y) ↔ IsFin x ∧ IsFin y := by
  constructor
  · rintro ⟨q, hq⟩
    change add x y = fin q at hq
    unfold add at hq
    split at hq
    · exact ⟨isFin_fin, isFin_fin⟩
    · split_ifs at hq
    all_goals cases hq
  · rintro ⟨⟨a, rfl⟩, b, rfl⟩
    exact isFin_fin

theorem isFin_neg : IsFin (-x) ↔ IsFin x := by
  cases x with
  | nan => exact iff_of_false not_isFin_nan not_isFin_nan
  | inf s => exact iff_of_false not_isFin_inf not_isFin_inf
  | fin q => exact iff_of_true isFin_fin isFin_fin

theorem isFin_mul : IsFin (x * y) ↔ IsFin x ∧ IsFin y := by
  constructor
  · rintro ⟨q, hq⟩
    change mul x y = fin q at hq
    unfold mul scaled at hq
    split at hq
    · exact ⟨isFin_fin, isFin_fin⟩
    · cases hq
    · split_ifs at hq
    · split_ifs at hq
    all_goals cases hq
  · rintro ⟨⟨a, rfl⟩, b, rfl⟩
    exact isFin_fin

theorem isFin_abs : IsFin x.abs ↔ IsFin x := by
  cases x with
  | nan => exact iff_of_false not_isFin_nan not_isFin_nan
  | inf s => exact iff_of_false not_isFin_inf not_isFin_inf
  | fin q => exact iff_of_true isFin_fin isFin_fin

theorem le_of_not_lt (hy : y ≠ nan) (h : lt y (fin a) = false) : le (fin a) y = true := by
  cases y with
  | nan => exact absurd rfl hy
  | inf s | fin b => simpa [lt, le] using h

theorem lt_of_not_le (hy : y ≠ nan) (h : le y (fin a) = false) : lt (fin a) y = true := by
  cases y with
  | nan => exact absurd rfl hy
  | inf s | fin b => simpa [lt, le] using h

theorem le_of_not_gt (hy : y ≠ nan) (h : lt (fin a) y = false) : le y (fin a) = true := by
  cases y with
  | nan => exact absurd rfl hy
  | inf s | fin b => simpa [lt, le] using h

theorem ne_nan_of_le (h : le (fin a) y = true) : y ≠ nan := by
  rintro rfl
  cases h

end Number

end Floating
