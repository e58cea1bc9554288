import Mathlib.Algebra.BigOperators.Intervals
import Mathlib.Algebra.Order.BigOperators.Group.Finset
import Mathlib.Data.Int.ConditionallyCompleteOrder
import Mathlib.Data.Int.Interval

/-!
Instants that recur with a period, and what is owed for crossing them.

The instants are an arithmetic progression of integers.  What is owed for an interval,
open on the left and closed on the right, is the sum of the weights of the instants in it.
-/

namespace Crossings

open Finset

universe u

variable {M : Type u} {period offset : ℤ}

/-- The `k`th instant. -/
def instant (period offset k : ℤ) : ℤ := k * period + offset

def lastAt (period offset t : ℤ) : ℤ := (t - offset) / period

variable {k t : ℤ}

theorem instant_le_iff (hp : 0 < period) :
    instant period offset k ≤ t ↔ k ≤ lastAt period offset t := by
  rw [lastAt, Int.le_ediv_iff_mul_le hp, instant, le_sub_iff_add_le]

theorem lt_instant_iff (hp : 0 < period) :
    t < instant period offset k ↔ lastAt period offset t < k := by
  rw [← not_le, ← not_le, instant_le_iff hp]

theorem lastAt_mono (offset : ℤ) (hp : 0 < period) {a b : ℤ} (h : a ≤ b) :
    lastAt period offset a ≤ lastAt period offset b :=
  Int.ediv_le_ediv hp (by omega)

theorem lastAt_add_mul (hp : 0 < period) (t n : ℤ) :
    lastAt period offset (t + n * period) = lastAt period offset t + n := by
  rw [lastAt, lastAt, add_sub_right_comm, Int.add_mul_ediv_right _ _ (ne_of_gt hp)]

noncomputable def owed [AddCommMonoid M] (period offset : ℤ) (weight : ℤ → M) (a b : ℤ) : M :=
  ∑ k ∈ Ioc (lastAt period offset a) (lastAt period offset b), weight k

section Monoid

variable [AddCommMonoid M] {weight : ℤ → M} {a b c : ℤ}

theorem mem_crossings (hp : 0 < period) {k : ℤ} :
    k ∈ Ioc (lastAt period offset a) (lastAt period offset b) ↔
      a < instant period offset k ∧ instant period offset k ≤ b := by
  rw [mem_Ioc, lt_instant_iff hp, instant_le_iff hp]

theorem owed_of_le (hp : 0 < period) (h : b ≤ a) : owed period offset weight a b = 0 := by
  rw [owed, Ioc_eq_empty (not_lt.2 (lastAt_mono _ hp h)), sum_empty]

theorem owed_add (hp : 0 < period) (hab : a ≤ b) (hbc : b ≤ c) : owed period offset weight a c =
      owed period offset weight a b + owed period offset weight b c := by
  unfold owed
  rw [← Ioc_union_Ioc_eq_Ioc (lastAt_mono _ hp hab) (lastAt_mono _ hp hbc),
    sum_union (Ioc_disjoint_Ioc_of_le le_rfl)]

theorem owed_eq_range (weight : ℤ → M) (a b : ℤ) : owed period offset weight a b =
      ∑ j ∈ range (lastAt period offset b - lastAt period offset a).toNat,
        weight (lastAt period offset a + 1 + j) := by
  rw [owed, Int.Ioc_eq_finset_map, sum_map]
  rfl

end Monoid

theorem owed_mono (hp : 0 < period) {weight : ℤ → ℕ} {a b c : ℤ} (h : b ≤ c) :
    owed period offset weight a b ≤ owed period offset weight a c :=
  sum_le_sum_of_subset (Ioc_subset_Ioc_right (lastAt_mono _ hp h))

section Cycle

variable [AddCancelCommMonoid M] {weight : ℤ → M} {n : ℕ}

theorem sum_cycle (h : ∀ k, weight (k + n) = weight k) (m : ℤ) :
    ∑ j ∈ range n, weight (m + j) = ∑ j ∈ range n, weight j := by
  have hnext : ∀ m : ℤ, ∑ j ∈ range n, weight (m + 1 + j) = ∑ j ∈ range n, weight (m + j) := by
    intro m
    have hsplit := sum_range_succ (fun j : ℕ => weight (m + j)) n
    rw [sum_range_succ', h m, Nat.cast_zero, add_zero] at hsplit
    have hshift : ∀ j : ℕ, weight (m + 1 + j) = weight (m + (j + 1 : ℕ)) := by
      intro j
      congr 1
      omega
    rw [sum_congr rfl fun j _ => hshift j]
    exact add_right_cancel hsplit
  induction m using Int.induction_on with
  | zero => simp
  | succ m ih => rw [hnext, ih]
  | pred m ih => rw [← hnext, sub_add_cancel, ih]

theorem owed_cycle (offset : ℤ) (weight : ℤ → M) (hp : 0 < period)
    (h : ∀ k, weight (k + n) = weight k) (a : ℤ) :
    owed period offset weight a (a + n * period) = ∑ j ∈ range n, weight j := by
  rw [owed_eq_range, lastAt_add_mul hp, add_sub_cancel_left, Int.toNat_natCast, sum_cycle h]

end Cycle

end Crossings
