import Mathlib.Data.Nat.Choose.Basic

/-!
Selections of a fixed size from a list in lexicographic order of place, and how many of them
select one given element.
-/

namespace Combinations

variable {α : Type*}

/-- The selections of `k` elements, each in the order of the list. -/
def combinations : ℕ → List α → List (List α)
  | 0, _ => [[]]
  | _ + 1, [] => []
  | k + 1, a :: l => (combinations k l).map (a :: ·) ++ combinations (k + 1) l

theorem combinations_cons (k : ℕ) (a : α) (l : List α) :
    combinations (k + 1) (a :: l) = (combinations k l).map (a :: ·) ++ combinations (k + 1) l :=
  rfl

theorem mem_combinations {k : ℕ} {l c : List α} :
    c ∈ combinations k l ↔ c.Sublist l ∧ c.length = k := by
  induction l generalizing k c with
  | nil =>
    cases k with
    | zero => simp [combinations]
    | succ k =>
      simp only [combinations, List.not_mem_nil, List.sublist_nil, false_iff, not_and]
      rintro rfl
      simp
  | cons a l ih =>
    cases k with
    | zero =>
      simp only [combinations, List.mem_singleton, List.length_eq_zero_iff]
      constructor
      · rintro rfl
        exact ⟨List.nil_sublist _, rfl⟩
      · exact And.right
    | succ k =>
      rw [combinations_cons, List.mem_append, List.mem_map, ih]
      constructor
      · intro h
        rcases h with ⟨d, hd, rfl⟩ | ⟨hsub, hlength⟩
        · obtain ⟨hsub, hlength⟩ := ih.1 hd
          exact ⟨hsub.cons_cons a, by rw [List.length_cons, hlength]⟩
        · exact ⟨hsub.cons a, hlength⟩
      · intro h
        obtain ⟨hsub, hlength⟩ := h
        cases hsub with
        | cons _ hsub => exact .inr ⟨hsub, hlength⟩
        | cons_cons _ hsub =>
          rw [List.length_cons, Nat.succ_inj] at hlength
          exact .inl ⟨_, ih.2 ⟨hsub, hlength⟩, rfl⟩

theorem length_combinations (k : ℕ) (l : List α) :
    (combinations k l).length = l.length.choose k := by
  induction l generalizing k with
  | nil =>
    cases k with
    | zero | succ k => rfl
  | cons a l ih =>
    cases k with
    | zero => simp [combinations]
    | succ k =>
      rw [combinations_cons, List.length_append, List.length_map, ih, ih, List.length_cons,
        Nat.choose_succ_succ]

section Count

variable [DecidableEq α]

variable {l : List α}

theorem countP_combinations_of_not_mem {k : ℕ} {a : α} (h : a ∉ l) :
    (combinations k l).countP (a ∈ ·) = 0 := by
  rw [List.countP_eq_zero]
  intro c hc
  rw [decide_eq_true_eq]
  exact fun hac => h ((mem_combinations.1 hc).1.subset hac)

theorem countP_combinations {k : ℕ} {a : α} (h : l.Nodup) (ha : a ∈ l) :
    (combinations (k + 1) l).countP (a ∈ ·) = (l.length - 1).choose k := by
  induction l generalizing k with
  | nil => cases ha
  | cons b l ih =>
    obtain ⟨hb, hl⟩ := List.nodup_cons.1 h
    rw [combinations_cons, List.countP_append, List.countP_map, List.length_cons,
      Nat.add_sub_cancel]
    by_cases hab : a = b
    · subst hab
      have hall : (combinations k l).countP ((fun c => decide (a ∈ c)) ∘ (a :: ·)) =
          (combinations k l).length := by
        rw [List.countP_eq_length]
        intro c _
        simp
      rw [hall, countP_combinations_of_not_mem hb, length_combinations, Nat.add_zero]
    · have hal : a ∈ l := (List.mem_cons.1 ha).resolve_left hab
      have hskip : (combinations k l).countP ((fun c => decide (a ∈ c)) ∘ (b :: ·)) =
          (combinations k l).countP (a ∈ ·) := by
        apply List.countP_congr
        intro c _
        simp [hab]
      have hpos : 0 < l.length := List.length_pos_of_mem hal
      rw [hskip, ih hl hal]
      cases k with
      | zero =>
        simp [combinations]
      | succ k =>
        rw [ih hl hal, ← Nat.choose_succ_succ]
        congr 1
        omega

end Count

end Combinations
