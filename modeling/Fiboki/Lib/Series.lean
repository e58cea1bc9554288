import Mathlib.Algebra.Order.Group.Nat

/-!
Columns of a table by position, with cells that may be missing: a column moved down, and a column
whose missing cells have the last value before them.
-/

namespace Series

variable {α : Type*}

def shifted (k : ℕ) (column : ℕ → Option α) (i : ℕ) : Option α :=
  if k ≤ i then column (i - k) else none

def ffill (column : ℕ → Option α) : ℕ → Option α
  | 0 => column 0
  | i + 1 => (column (i + 1)).orElse fun _ => ffill column i

variable {c c' : ℕ → Option α}

variable {k i : ℕ}

theorem shifted_congr (h : ∀ j, j + k ≤ i → c j = c' j) : shifted k c i = shifted k c' i := by
  unfold shifted
  split
  · exact h _ (by omega)
  · rfl

theorem ffill_congr {i : ℕ} (h : ∀ j, j ≤ i → c j = c' j) : ffill c i = ffill c' i := by
  induction i with
  | zero => exact h 0 le_rfl
  | succ i ih =>
    unfold ffill
    rw [h (i + 1) le_rfl, ih fun j hj => h j (by omega)]

/-- The last position up to `i` at which the column has a value. -/
structure IsNewest (has : ℕ → Prop) (i j : ℕ) : Prop where
  le : j ≤ i
  here : has j
  newest : ∀ k, has k → k ≤ i → k ≤ j

theorem IsNewest.unique {has : ℕ → Prop} {i j j' : ℕ} (h : IsNewest has i j)
    (h' : IsNewest has i j') : j = j' :=
  le_antisymm (h'.newest j h.here h.le) (h.newest j' h'.here h'.le)

variable {column : ℕ → Option α}

theorem ffill_eq_some {i : ℕ} {x : α} : ffill column i = some x ↔
      ∃ j, IsNewest (fun k => column k ≠ none) i j ∧ column j = some x := by
  induction i with
  | zero =>
    constructor
    · intro h
      change column 0 = some x at h
      exact ⟨0, ⟨le_rfl, by simp [h], fun k _ hk => hk⟩, h⟩
    · rintro ⟨j, hj, hx⟩
      obtain rfl : j = 0 := by
        have hle := hj.le
        omega
      exact hx
  | succ i ih =>
    cases hnow : column (i + 1) with
    | some y =>
      have hfill : ffill column (i + 1) = some y := by
        unfold ffill
        rw [hnow]
        rfl
      have hlast : IsNewest (fun k => column k ≠ none) (i + 1) (i + 1) :=
        ⟨le_rfl, by simp [hnow], fun k _ hk => hk⟩
      rw [hfill, ← hnow]
      constructor
      · intro h
        exact ⟨i + 1, hlast, h⟩
      · rintro ⟨j, hj, hx⟩
        rw [hlast.unique hj]
        exact hx
    | none =>
      have hfill : ffill column (i + 1) = ffill column i := by
        conv_lhs => unfold ffill
        rw [hnow]
        rfl
      rw [hfill, ih]
      constructor
      · rintro ⟨j, hj, hx⟩
        refine ⟨j, ⟨hj.le.trans (by omega), hj.here, ?_⟩, hx⟩
        intro k hk hki
        apply hj.newest k hk
        have hne : k ≠ i + 1 := fun heq => hk (heq ▸ hnow)
        omega
      · rintro ⟨j, hj, hx⟩
        have hne : j ≠ i + 1 := fun heq => hj.here (heq ▸ hnow)
        have hle := hj.le
        exact ⟨j, ⟨by omega, hj.here, fun k hk hki => hj.newest k hk (by omega)⟩, hx⟩

theorem shifted_add (k : ℕ) (column : ℕ → Option α) (j : ℕ) :
    shifted k column (j + k) = column j := by
  unfold shifted
  rw [if_pos (by omega), Nat.add_sub_cancel]

theorem ffill_shifted_eq_some {x : α} : ffill (shifted k column) i = some x ↔
      ∃ j, column j = some x ∧ j + k ≤ i ∧ ∀ l y, column l = some y → l + k ≤ i → l ≤ j := by
  rw [ffill_eq_some]
  constructor
  · rintro ⟨j, hj, hx⟩
    have hkj : k ≤ j := by
      by_contra hlt
      unfold shifted at hx
      rw [if_neg hlt] at hx
      cases hx
    obtain ⟨j, rfl⟩ := Nat.exists_eq_add_of_le' hkj
    rw [shifted_add] at hx
    refine ⟨j, hx, hj.le, ?_⟩
    intro l y hl hli
    have hlk := hj.newest (l + k) (by rw [shifted_add, hl]; exact Option.some_ne_none y) hli
    omega
  · rintro ⟨j, hx, hji, hnewest⟩
    rw [← shifted_add k column j] at hx
    refine ⟨j + k, ⟨hji, by simp [hx], ?_⟩, hx⟩
    intro l hl hli
    obtain ⟨y, hy⟩ := Option.ne_none_iff_exists'.1 hl
    unfold shifted at hy
    split at hy
    · have hlk := hnewest (l - k) y hy (by omega)
      omega
    · cases hy

end Series
