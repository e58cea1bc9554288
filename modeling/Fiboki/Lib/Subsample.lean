import Mathlib.Algebra.BigOperators.Group.List.Basic
import Mathlib.Algebra.Ring.Nat
import Mathlib.Data.List.Sort

/-!
Lists chosen from a list by position: ascending positions keep its order, and its ends where they
are among them.
-/

namespace Subsample

variable {α β : Type*}

def pick (values : List α) (positions : List ℕ) : List α := positions.filterMap fun i => values[i]?

variable {positions : List ℕ} {values : List α}

theorem mem_pick {x : α} :
    x ∈ pick values positions ↔ ∃ i ∈ positions, values[i]? = some x := List.mem_filterMap

theorem pick_succ (a : α) (values : List α) (positions : List ℕ) (h : ∀ i ∈ positions, 0 < i) :
    pick (a :: values) positions = pick values (positions.map Nat.pred) := by
  unfold pick
  rw [List.filterMap_map]
  apply List.filterMap_congr
  intro i hi
  obtain ⟨j, rfl⟩ := Nat.exists_eq_succ_of_ne_zero (h i hi).ne'
  rfl

theorem pairwise_pred (h : positions.Pairwise (· < ·))
    (hpos : ∀ i ∈ positions, 0 < i) : (positions.map Nat.pred).Pairwise (· < ·) := by
  rw [List.pairwise_map]
  apply h.imp_of_mem
  intro i j hi hj hij
  have hi := hpos i hi
  simp only [Nat.pred_eq_sub_one]
  omega

theorem pick_sublist (h : positions.Pairwise (· < ·)) : (pick values positions).Sublist values := by
  induction values generalizing positions with
  | nil =>
    have hnil : pick ([] : List α) positions = [] := by
      unfold pick
      simp
    rw [hnil]
  | cons a values ih =>
    cases positions with
    | nil => exact List.nil_sublist _
    | cons i positions =>
      rw [List.pairwise_cons] at h
      cases i with
      | zero =>
        have hfirst : pick (a :: values) (0 :: positions) = a :: pick (a :: values) positions := rfl
        rw [hfirst, pick_succ a values positions h.1]
        exact (ih (pairwise_pred h.2 h.1)).cons_cons a
      | succ i =>
        have hpos : ∀ j ∈ (i + 1) :: positions, 0 < j := by
          intro j hj
          rcases List.mem_cons.1 hj with rfl | hj
          · omega
          · have hij := h.1 j hj
            omega
        rw [pick_succ a values _ hpos]
        exact (ih (pairwise_pred (List.pairwise_cons.2 h) hpos)).cons a

theorem length_pick (h : ∀ i ∈ positions, i < values.length) :
    (pick values positions).length = positions.length := by
  unfold pick
  rw [List.filterMap_length_eq_length]
  intro i hi
  rw [List.getElem?_eq_getElem (h i hi)]
  rfl

variable {part whole : List α}

theorem head?_of_sublist {a : α} (h : part.Sublist whole)
    (hnodup : whole.Nodup) (ha : whole.head? = some a) (hmem : a ∈ part) : part.head? = some a := by
  cases whole with
  | nil => cases ha
  | cons b whole =>
    obtain rfl : b = a := Option.some.inj ha
    cases h with
    | cons _ hrest => exact absurd (hrest.subset hmem) (List.nodup_cons.1 hnodup).1
    | cons_cons _ _ => rfl

theorem getLast?_of_sublist {a : α} (h : part.Sublist whole)
    (hnodup : whole.Nodup) (ha : whole.getLast? = some a) (hmem : a ∈ part) :
    part.getLast? = some a := by
  rw [List.getLast?_eq_head?_reverse] at ha ⊢
  exact head?_of_sublist h.reverse (List.nodup_reverse.2 hnodup) ha (List.mem_reverse.2 hmem)

variable {R : α → α → Prop}

theorem forall₂_set (hrefl : ∀ a, R a a) {l : List α} {i : ℕ} {b : α}
    (h : ∀ a, l[i]? = some a → R a b) : List.Forall₂ R l (l.set i b) := by
  induction l generalizing i with
  | nil => exact .nil
  | cons a l ih =>
    cases i with
    | zero => exact .cons (h a rfl) (List.forall₂_same.2 fun c _ => hrefl c)
    | succ i => exact .cons (hrefl a) (ih h)

theorem forall₂_trans (htrans : ∀ a b c, R a b → R b c → R a c) {l l' l'' : List α}
    (h : List.Forall₂ R l l') (h' : List.Forall₂ R l' l'') : List.Forall₂ R l l'' := by
  induction h generalizing l'' with
  | nil => exact h'
  | cons hab _ ih =>
    cases h' with
    | cons hbc hrest => exact .cons (htrans _ _ _ hab hbc) (ih hrest)

theorem sum_set_add {l : List ℕ} {i a : ℕ} (b : ℕ) (h : l[i]? = some a) :
    (l.set i b).sum + a = l.sum + b := by
  induction l generalizing i with
  | nil => cases h
  | cons c l ih =>
    cases i with
    | zero =>
      obtain rfl : c = a := Option.some.inj h
      rw [List.set_cons_zero, List.sum_cons, List.sum_cons]
      omega
    | succ i =>
      have hrest := ih h
      rw [List.set_cons_succ, List.sum_cons, List.sum_cons]
      omega

end Subsample
