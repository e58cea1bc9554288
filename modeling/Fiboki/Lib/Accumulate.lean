import Mathlib

/-!
Running values of an operation along a list: products, maxima and minima.
-/

namespace Accumulate

variable {α : Type*}

def runningFrom (f : α → α → α) (a : α) : List α → List α
  | [] => [a]
  | b :: l => a :: runningFrom f (f a b) l

def accumulate (f : α → α → α) : List α → List α
  | [] => []
  | a :: l => runningFrom f a l

variable (f : α → α → α)

variable (a : α) (l : List α)

theorem length_runningFrom : (runningFrom f a l).length = l.length + 1 := by
  induction l generalizing a with
  | nil => rfl
  | cons b l ih => rw [runningFrom, List.length_cons, ih, List.length_cons]

theorem length_accumulate : (accumulate f l).length = l.length := by
  cases l with
  | nil => rfl
  | cons a l => exact length_runningFrom f a l

theorem getElem_runningFrom (i : ℕ)
    (h : i < (runningFrom f a l).length) : (runningFrom f a l)[i] = (l.take i).foldl f a := by
  induction l generalizing a i with
  | nil =>
    rw [length_runningFrom] at h
    obtain rfl : i = 0 := by
      rw [List.length_nil] at h
      omega
    rfl
  | cons b l ih =>
    cases i with
    | zero => rfl
    | succ i => exact ih (f a b) i _

theorem foldl_mul [Monoid α] : l.foldl (· * ·) a = a * l.prod := by
  induction l generalizing a with
  | nil => exact (mul_one a).symm
  | cons b l ih => rw [List.foldl_cons, ih, List.prod_cons, mul_assoc]

theorem getElem_accumulate_mul [Monoid α] (i : ℕ)
    (h : i < (accumulate (· * ·) l).length) :
    (accumulate (· * ·) l)[i] = (l.take (i + 1)).prod := by
  cases l with
  | nil => cases h
  | cons a l =>
    have hget := getElem_runningFrom (· * ·) a l i h
    rw [foldl_mul] at hget
    rw [List.take_succ_cons, List.prod_cons]
    exact hget

section Order

variable [LinearOrder α]

variable {l : List α}

theorem foldl_max_le {a c : α} : l.foldl max a ≤ c ↔ a ≤ c ∧ ∀ b ∈ l, b ≤ c := by
  induction l generalizing a with
  | nil => simp
  | cons b l ih =>
    rw [List.foldl_cons, ih, max_le_iff, List.forall_mem_cons, and_assoc]

theorem foldl_max_mem {a : α} : l.foldl max a = a ∨ l.foldl max a ∈ l := by
  induction l generalizing a with
  | nil => exact .inl rfl
  | cons b l ih =>
    rw [List.foldl_cons]
    rcases ih (a := max a b) with h | h
    · rw [h]
      rcases max_choice a b with hab | hab
      · exact .inl hab
      · rw [hab]
        exact .inr List.mem_cons_self
    · exact .inr (List.mem_cons_of_mem _ h)

variable {i : ℕ}

variable {c : α}

theorem accumulate_max_le (h : i < (accumulate max l).length) :
    (accumulate max l)[i] ≤ c ↔ ∀ j, (hj : j < l.length) → j ≤ i → l[j] ≤ c := by
  cases l with
  | nil => cases h
  | cons a l =>
    have hget := getElem_runningFrom max a l i h
    show (runningFrom max a l)[i] ≤ c ↔ _
    rw [hget, foldl_max_le]
    constructor
    · rintro ⟨ha, hl⟩ j hj hji
      cases j with
      | zero => exact ha
      | succ j =>
        rw [List.getElem_cons_succ]
        apply hl
        rw [List.mem_take_iff_getElem]
        refine ⟨j, ?_, rfl⟩
        rw [List.length_cons] at hj
        omega
    · intro hall
      refine ⟨hall 0 (by simp) (by omega), ?_⟩
      intro b hb
      obtain ⟨j, hj, rfl⟩ := List.mem_take_iff_getElem.1 hb
      have := hall (j + 1) (by rw [List.length_cons]; omega) (by omega)
      rwa [List.getElem_cons_succ] at this

theorem foldl_min_le {a c : α} : l.foldl min a ≤ c ↔ a ≤ c ∨ ∃ b ∈ l, b ≤ c := by
  induction l generalizing a with
  | nil => simp
  | cons b l ih =>
    rw [List.foldl_cons, ih, min_le_iff, List.exists_mem_cons_iff, or_assoc]

theorem accumulate_min_le (h : i < (accumulate min l).length) :
    (accumulate min l)[i] ≤ c ↔ ∃ j, ∃ hj : j < l.length, j ≤ i ∧ l[j] ≤ c := by
  cases l with
  | nil => cases h
  | cons a l =>
    have hget : (accumulate min (a :: l))[i] = (l.take i).foldl min a :=
      getElem_runningFrom min a l i h
    rw [hget, foldl_min_le]
    constructor
    · intro hle
      rcases hle with ha | ⟨b, hb, hbc⟩
      · exact ⟨0, by simp, by omega, ha⟩
      · obtain ⟨j, hj, rfl⟩ := List.mem_take_iff_getElem.1 hb
        refine ⟨j + 1, ?_, ?_, ?_⟩
        · rw [List.length_cons]
          omega
        · omega
        · rw [List.getElem_cons_succ]
          exact hbc
    · intro hle
      obtain ⟨j, hj, hji, hjc⟩ := hle
      cases j with
      | zero => exact .inl hjc
      | succ j =>
        rw [List.getElem_cons_succ] at hjc
        refine .inr ⟨_, ?_, hjc⟩
        rw [List.mem_take_iff_getElem]
        refine ⟨j, ?_, rfl⟩
        rw [List.length_cons] at hj
        omega

theorem reverse_accumulate_min_le (h : i < (accumulate min l.reverse).reverse.length) :
    (accumulate min l.reverse).reverse[i] ≤ c ↔ ∃ j, ∃ hj : j < l.length, i ≤ j ∧ l[j] ≤ c := by
  have hlength : (accumulate min l.reverse).length = l.length := by
    rw [length_accumulate, List.length_reverse]
  rw [List.length_reverse] at h
  rw [List.getElem_reverse, accumulate_min_le]
  constructor
  · intro hle
    obtain ⟨j, hj, hji, hjc⟩ := hle
    rw [List.length_reverse] at hj
    rw [List.getElem_reverse] at hjc
    exact ⟨l.length - 1 - j, by omega, by omega, hjc⟩
  · intro hle
    obtain ⟨j, hj, hij, hjc⟩ := hle
    refine ⟨l.length - 1 - j, ?_, ?_, ?_⟩
    · rw [List.length_reverse]
      omega
    · omega
    · rw [List.getElem_reverse]
      have hback : l.length - 1 - (l.length - 1 - j) = j := by omega
      simpa only [hback] using hjc

theorem accumulate_max_mem (h : i < (accumulate max l).length) :
    ∃ j, ∃ hj : j < l.length, j ≤ i ∧ (accumulate max l)[i] = l[j] := by
  cases l with
  | nil => cases h
  | cons a l =>
    have hget : (accumulate max (a :: l))[i] = (l.take i).foldl max a :=
      getElem_runningFrom max a l i h
    rw [hget]
    rcases foldl_max_mem (a := a) (l := l.take i) with hmem | hmem
    · exact ⟨0, by simp, by omega, hmem⟩
    · obtain ⟨j, hj, hjv⟩ := List.mem_take_iff_getElem.1 hmem
      refine ⟨j + 1, ?_, ?_, ?_⟩
      · rw [List.length_cons]
        omega
      · omega
      · rw [List.getElem_cons_succ]
        exact hjv.symm

end Order

end Accumulate
