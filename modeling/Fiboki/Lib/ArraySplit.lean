import Mathlib.Algebra.Group.Action.Defs
import Mathlib.Algebra.Order.BigOperators.Group.List
import Mathlib.Algebra.Ring.Nat

/-!
A list cut into sections of sizes that differ by at most one.
-/

namespace ArraySplit

variable {α : Type*}

def sections : List ℕ → List α → List (List α)
  | [], _ => []
  | s :: sizes, xs => xs.take s :: sections sizes (xs.drop s)

def sectionSizes (length n : ℕ) : List ℕ :=
  List.replicate (length % n) (length / n + 1) ++ List.replicate (n - length % n) (length / n)

def arraySplit (xs : List α) (n : ℕ) : List (List α) := sections (sectionSizes xs.length n) xs

theorem length_sections (sizes : List ℕ) (xs : List α) :
    (sections sizes xs).length = sizes.length := by
  induction sizes generalizing xs with
  | nil => rfl
  | cons s sizes ih => rw [sections, List.length_cons, ih, List.length_cons]

variable {sizes : List ℕ}

theorem flatten_sections {xs : List α} (h : xs.length ≤ sizes.sum) :
    (sections sizes xs).flatten = xs := by
  induction sizes generalizing xs with
  | nil =>
    rw [List.sum_nil] at h
    exact (List.eq_nil_of_length_eq_zero (by omega)).symm
  | cons s sizes ih =>
    rw [sections, List.flatten_cons, ih, List.take_append_drop]
    rw [List.length_drop]
    rw [List.sum_cons] at h
    omega

theorem map_length_sections {xs : List α} (h : sizes.sum ≤ xs.length) :
    (sections sizes xs).map List.length = sizes := by
  induction sizes generalizing xs with
  | nil => rfl
  | cons s sizes ih =>
    rw [List.sum_cons] at h
    rw [sections, List.map_cons, List.length_take, ih, min_eq_left (by omega)]
    rw [List.length_drop]
    omega

theorem length_sectionSizes {length n : ℕ} (h : 0 < n) : (sectionSizes length n).length = n := by
  have := Nat.mod_lt length h
  unfold sectionSizes
  rw [List.length_append, List.length_replicate, List.length_replicate]
  omega

theorem sum_sectionSizes {length n : ℕ} (h : 0 < n) : (sectionSizes length n).sum = length := by
  have hmod := Nat.mod_lt length h
  unfold sectionSizes
  rw [List.sum_append, List.sum_replicate, List.sum_replicate, smul_eq_mul, smul_eq_mul]
  calc length % n * (length / n + 1) + (n - length % n) * (length / n)
      = (length % n + (n - length % n)) * (length / n) + length % n := by
        rw [Nat.add_mul, Nat.mul_add, Nat.mul_one]
        omega
    _ = n * (length / n) + length % n := by rw [Nat.add_sub_cancel' hmod.le]
    _ = length := Nat.div_add_mod length n

variable (xs : List α)

variable {n : ℕ}

theorem length_arraySplit (h : 0 < n) : (arraySplit xs n).length = n := by
  unfold arraySplit
  rw [length_sections, length_sectionSizes h]

theorem flatten_arraySplit (h : 0 < n) : (arraySplit xs n).flatten = xs :=
  flatten_sections (sum_sectionSizes h).ge

theorem map_length_arraySplit (h : 0 < n) :
    (arraySplit xs n).map List.length = sectionSizes xs.length n :=
  map_length_sections (sum_sectionSizes h).le

end ArraySplit
