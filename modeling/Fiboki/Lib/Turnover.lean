import Mathlib.Data.List.Nodup

/-!
Turnover of a numbered list: some of those who were there have left, and those who came since
have later numbers.
-/

namespace Turnover

universe u

variable {α : Type u} {mark : ℕ} {xs ys : List (ℕ × α)}

def old (mark : ℕ) (ys : List (ℕ × α)) : List (ℕ × α) := ys.filter fun y => y.1 ≤ mark

def new (mark : ℕ) (ys : List (ℕ × α)) : List (ℕ × α) := ys.filter fun y => mark < y.1

def gone (xs ys : List (ℕ × α)) : List (ℕ × α) := xs.filter fun x => x.1 ∉ ys.map Prod.fst

theorem countP_split (p : ℕ × α → Bool) (mark : ℕ) (ys : List (ℕ × α)) :
    ys.countP p = (old mark ys).countP p + (new mark ys).countP p := by
  rw [List.countP_eq_countP_filter_add ys p fun y => y.1 ≤ mark, old, new]
  congr 2
  apply List.filter_congr
  intro y _
  rw [← decide_not, decide_eq_decide, Nat.not_le]

theorem filter_mem_of_sublist (h : xs.Sublist ys) (hn : (ys.map Prod.fst).Nodup) :
    ys.filter (fun y => y.1 ∈ xs.map Prod.fst) = xs := by
  induction h with
  | slnil => rfl
  | @cons xs ys y h ih =>
    rw [List.map_cons, List.nodup_cons] at hn
    have hy : y.1 ∉ xs.map Prod.fst := fun hmem => hn.1 ((h.map Prod.fst).subset hmem)
    rw [List.filter_cons_of_neg (by simpa using hy)]
    exact ih hn.2
  | @cons_cons xs ys y h ih =>
    rw [List.map_cons, List.nodup_cons] at hn
    rw [List.filter_cons_of_pos (by simp)]
    congr 1
    refine Eq.trans ?_ (ih hn.2)
    apply List.filter_congr
    intro z hz
    have hne : z.1 ≠ y.1 := fun heq => hn.1 (heq ▸ List.mem_map_of_mem hz)
    simp [hne]

theorem countP_balance (hold : (old mark ys).Sublist xs) (hn : (xs.map Prod.fst).Nodup)
    (hmark : ∀ x ∈ xs, x.1 ≤ mark) (p : ℕ × α → Bool) :
    ys.countP p + (gone xs ys).countP p = (new mark ys).countP p + xs.countP p := by
  have hkept := filter_mem_of_sublist hold hn
  have hsame : gone xs ys = xs.filter fun x => ¬ x.1 ∈ (old mark ys).map Prod.fst := by
    apply List.filter_congr
    intro x hx
    have hiff : x.1 ∈ ys.map Prod.fst ↔ x.1 ∈ (old mark ys).map Prod.fst := by
      constructor
      · intro hmem
        obtain ⟨y, hy, heq⟩ := List.mem_map.1 hmem
        exact List.mem_map.2 ⟨y, List.mem_filter.2 ⟨hy, by simpa [heq] using hmark x hx⟩, heq⟩
      · exact fun hmem => (List.filter_sublist.map Prod.fst).subset hmem
    simp [hiff]
  have hparts : xs.countP p = (old mark ys).countP p + (gone xs ys).countP p := by
    rw [List.countP_eq_countP_filter_add xs p fun x => x.1 ∈ (old mark ys).map Prod.fst,
      hkept, hsame]
    congr 2
    apply List.filter_congr
    intro x _
    simp
  rw [countP_split p mark ys, hparts]
  omega

end Turnover
