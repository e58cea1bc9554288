import Fiboki.Lib.Argsort
import Mathlib.Algebra.Order.Floor.Semiring
import Mathlib.Algebra.Order.Field.Basic
import Mathlib.Tactic.Linarith
import Mathlib.Tactic.Ring

/-!
Quantiles of a list by linear interpolation between its sorted values.
-/

namespace Quantile

open Argsort

section Ascending

variable {α : Type*} [LinearOrder α]

def ascending (xs : List α) : List α := xs.insertionSort (· ≤ ·)

variable (xs : List α)

theorem ascending_perm : (ascending xs).Perm xs := List.perm_insertionSort _ xs

theorem pairwise_ascending : (ascending xs).Pairwise (· ≤ ·) := List.pairwise_insertionSort _ xs

theorem length_ascending : (ascending xs).length = xs.length := (ascending_perm xs).length_eq

theorem ascending_mono {xs ys : List α} (h : List.Forall₂ (· ≤ ·) xs ys) {i : ℕ}
    (hx : i < (ascending xs).length) (hy : i < (ascending ys).length) :
    (ascending xs)[i] ≤ (ascending ys)[i] := by
  generalize hv : (ascending ys)[i] = v
  have hcount : ys.countP (· ≤ v) ≤ xs.countP (· ≤ v) := by
    clear hx hy hv
    induction h with
    | nil => exact le_rfl
    | @cons a b xs ys hab _ ih =>
      rw [List.countP_cons, List.countP_cons]
      have hstep : (if decide (b ≤ v) = true then 1 else 0) ≤
          if decide (a ≤ v) = true then 1 else 0 := by
        by_cases hb : b ≤ v
        · simp [hb, hab.trans hb]
        · simp [hb]
      omega
  rw [getElem_le_iff (pairwise_ascending xs) hx, (ascending_perm xs).countP_eq]
  apply lt_of_lt_of_le _ hcount
  rw [← (ascending_perm ys).countP_eq, ← getElem_le_iff (pairwise_ascending ys) hy, hv]

end Ascending

variable {K : Type*} [Field K] [LinearOrder K] [IsStrictOrderedRing K] [FloorSemiring K]

def quantile (xs : List K) (q : K) : Option K :=
  let h := ((xs.length : K) - 1) * q
  match (ascending xs)[⌊h⌋₊]?, (ascending xs)[min (⌊h⌋₊ + 1) (xs.length - 1)]? with
  | some a, some b => some (a + (b - a) * (h - ⌊h⌋₊))
  | _, _ => none

section Place

variable {n : ℕ} {q : K}

theorem floor_lt (hn : 0 < n) (hq : q ≤ 1) : ⌊((n : K) - 1) * q⌋₊ < n := by
  have hone : (1 : K) ≤ n := by exact_mod_cast hn
  have hle : ((n : K) - 1) * q ≤ (n : K) - 1 := mul_le_of_le_one_right (by linarith) hq
  have hlt : ((n : K) - 1) * q < n := by linarith
  exact (Nat.floor_lt' hn.ne').2 hlt

theorem fraction_mem (hn : 0 < n) (hq : 0 ≤ q) : 0 ≤ ((n : K) - 1) * q - ⌊((n : K) - 1) * q⌋₊ ∧
      ((n : K) - 1) * q - ⌊((n : K) - 1) * q⌋₊ ≤ 1 := by
  have hone : (1 : K) ≤ n := by exact_mod_cast hn
  have h0 : 0 ≤ ((n : K) - 1) * q := mul_nonneg (by linarith) hq
  constructor
  · linarith [Nat.floor_le h0]
  · linarith [Nat.lt_floor_add_one (((n : K) - 1) * q)]

end Place

theorem quantile_eq_some {xs : List K} {q : K} (hne : xs ≠ []) (hq : q ≤ 1) :
    ∃ (hi : ⌊((xs.length : K) - 1) * q⌋₊ < (ascending xs).length)
      (hj : min (⌊((xs.length : K) - 1) * q⌋₊ + 1) (xs.length - 1) < (ascending xs).length),
      quantile xs q = some ((ascending xs)[⌊((xs.length : K) - 1) * q⌋₊] +
        ((ascending xs)[min (⌊((xs.length : K) - 1) * q⌋₊ + 1) (xs.length - 1)] -
          (ascending xs)[⌊((xs.length : K) - 1) * q⌋₊]) *
        (((xs.length : K) - 1) * q - ⌊((xs.length : K) - 1) * q⌋₊)) := by
  have hpos : 0 < xs.length := List.length_pos_iff.2 hne
  have hlength := length_ascending xs
  have hi : ⌊((xs.length : K) - 1) * q⌋₊ < (ascending xs).length := by
    rw [hlength]
    exact floor_lt hpos hq
  have hj : min (⌊((xs.length : K) - 1) * q⌋₊ + 1) (xs.length - 1) <
      (ascending xs).length := by omega
  refine ⟨hi, hj, ?_⟩
  unfold quantile
  dsimp only
  rw [List.getElem?_eq_getElem hi, List.getElem?_eq_getElem hj]

theorem quantile_mono {xs ys : List K} {q a b : K} (h : List.Forall₂ (· ≤ ·) xs ys) (hne : xs ≠ [])
    (hq0 : 0 ≤ q) (hq1 : q ≤ 1) (ha : quantile xs q = some a)
    (hb : quantile ys q = some b) : a ≤ b := by
  have hlength : xs.length = ys.length := h.length_eq
  have hpos : 0 < ys.length := hlength ▸ List.length_pos_iff.2 hne
  obtain ⟨hi, hj, hx⟩ := quantile_eq_some hne hq1
  obtain ⟨hi', hj', hy⟩ := quantile_eq_some (List.length_pos_iff.1 hpos) hq1
  obtain ⟨hf0, hf1⟩ := fraction_mem (K := K) hpos hq0
  simp only [hlength] at hx hi hj
  rw [hx, Option.some.injEq] at ha
  rw [hy, Option.some.injEq] at hb
  rw [← ha, ← hb]
  have hlow := ascending_mono h hi hi'
  have hhigh := ascending_mono h hj hj'
  generalize (ascending xs)[⌊((ys.length : K) - 1) * q⌋₊] = x₁ at *
  generalize (ascending ys)[⌊((ys.length : K) - 1) * q⌋₊] = y₁ at *
  generalize ((ys.length : K) - 1) * q - ⌊((ys.length : K) - 1) * q⌋₊ = f at *
  have hlow' := mul_le_mul_of_nonneg_right hlow (sub_nonneg.2 hf1)
  have hhigh' := mul_le_mul_of_nonneg_right hhigh hf0
  linarith

end Quantile
