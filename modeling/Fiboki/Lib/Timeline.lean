import Mathlib

/-!
Timelines: lists of strictly increasing times, and their half-open slices.
-/

namespace Timeline

variable {α τ : Type} [LinearOrder τ] {time : α → τ}

def Increasing (time : α → τ) (xs : List α) : Prop := xs.Pairwise fun a b => time a < time b

/-- The elements at or after `a` and before `b`. -/
def slice (time : α → τ) (a b : τ) (xs : List α) : List α :=
  xs.filter fun x => a ≤ time x ∧ time x < b

variable {xs : List α}

theorem mem_slice {a b : τ} {x : α} : x ∈ slice time a b xs ↔ x ∈ xs ∧ a ≤ time x ∧ time x < b := by
  unfold slice
  rw [List.mem_filter, decide_eq_true_eq]

theorem increasing_slice (h : Increasing time xs) (a b : τ) :
    Increasing time (slice time a b xs) := h.sublist List.filter_sublist

theorem Increasing.nodup (h : Increasing time xs) : xs.Nodup := by
  apply h.imp
  intro a b hlt heq
  rw [heq] at hlt
  exact lt_irrefl _ hlt

theorem Increasing.unique (h : Increasing time xs) {a b : α} (ha : a ∈ xs) (hb : b ∈ xs)
    (hab : time a = time b) : a = b := by
  have hnodup : (xs.map time).Nodup := by
    apply List.pairwise_map.2
    exact h.imp fun hlt => hlt.ne
  exact List.inj_on_of_nodup_map hnodup ha hb hab

theorem Increasing.eq_of_mem_iff {xs ys : List α} (hx : Increasing time xs)
    (hy : Increasing time ys) (h : ∀ a, a ∈ xs ↔ a ∈ ys) : xs = ys := by
  have hperm : xs.Perm ys := (List.perm_ext_iff_of_nodup hx.nodup hy.nodup).2 h
  apply hperm.eq_of_pairwise _ hx hy
  intro a b _ _ hab hba
  exact absurd (hab.trans hba) (lt_irrefl _)

theorem Increasing.mem_take (h : Increasing time xs) {n : ℕ} {a b : α} (ha : a ∈ xs)
    (hb : b ∈ xs.take n) (hab : time a ≤ time b) : a ∈ xs.take n := by
  rw [← List.take_append_drop n xs] at ha h
  rcases List.mem_append.1 ha with ha | ha
  · exact ha
  · have hlt := (List.pairwise_append.1 h).2.2 b hb a ha
    exact absurd hlt (not_lt.2 hab)

theorem Increasing.append {xs ys : List α} (hx : Increasing time xs) (hy : Increasing time ys)
    (h : ∀ a ∈ xs, ∀ b ∈ ys, time a < time b) : Increasing time (xs ++ ys) :=
  List.pairwise_append.2 ⟨hx, hy, h⟩

theorem Increasing.le_getLast (h : Increasing time xs) {a last : α} (ha : a ∈ xs)
    (hlast : xs.getLast? = some last) : time a ≤ time last := by
  obtain ⟨pre, rfl⟩ := List.getLast?_eq_some_iff.1 hlast
  rcases List.mem_append.1 ha with ha | ha
  · exact ((List.pairwise_append.1 h).2.2 a ha last (List.mem_singleton.2 rfl)).le
  · rw [List.mem_singleton.1 ha]

end Timeline
