import Mathlib.Algebra.BigOperators.Group.List.Basic
import Mathlib.Order.Lattice

/-!
Aggregates of a list under an associative operation, absent for the empty list, and that they
can be taken in steps: of the aggregates of the parts, or of the whole.
-/

namespace Stepwise

variable {α : Type*} {op : α → α → α}

def total (op : α → α → α) : List α → Option α
  | [] => none
  | a :: xs => some ((total op xs).elim a (op a))

theorem total_append (hassoc : ∀ a b c, op (op a b) c = op a (op b c)) (xs ys : List α) :
    total op (xs ++ ys) = Option.merge op (total op xs) (total op ys) := by
  induction xs with
  | nil =>
    rw [List.nil_append, total]
    cases total op ys <;> rfl
  | cons a xs ih =>
    rw [List.cons_append, total, total, ih]
    cases total op xs <;> cases total op ys <;> simp [Option.merge, hassoc]

theorem total_parts (hassoc : ∀ a b c, op (op a b) c = op a (op b c)) (parts : List (List α)) :
    total op (parts.filterMap (total op)) = total op parts.flatten := by
  induction parts with
  | nil => rfl
  | cons part parts ih =>
    rw [List.flatten_cons, total_append hassoc, ← ih]
    cases part with
    | nil =>
      rw [List.filterMap_cons_none rfl]
      cases total op (parts.filterMap (total op)) <;> rfl
    | cons a part =>
      rw [List.filterMap_cons_some (total.eq_2 op a part), total, total]
      cases total op (parts.filterMap (total op)) <;> rfl

theorem total_perm (hassoc : ∀ a b c, op (op a b) c = op a (op b c))
    (hcomm : ∀ a b, op a b = op b a) {xs ys : List α} (h : xs.Perm ys) :
    total op xs = total op ys := by
  induction h with
  | nil => rfl
  | cons a _ ih => rw [total, total, ih]
  | swap a b xs =>
    rw [total, total, total, total]
    cases total op xs with
    | none => exact congrArg some (hcomm b a)
    | some c =>
      show some (op b (op a c)) = some (op a (op b c))
      rw [← hassoc, hcomm b a, hassoc]
  | trans _ _ ih ih' => exact ih.trans ih'

variable (xs : List α)

theorem total_left : total (fun a _ => a) xs = xs.head? := by
  cases xs with
  | nil => rfl
  | cons a xs =>
    rw [total]
    cases total (fun a _ => a) xs <;> rfl

theorem total_right : total (fun _ b => b) xs = xs.getLast? := by
  induction xs with
  | nil => rfl
  | cons a xs ih =>
    rw [total, ih, List.getLast?_cons]
    cases xs.getLast? <;> rfl

theorem total_max [LinearOrder α] : total max xs = xs.max? := by
  induction xs with
  | nil => rfl
  | cons a xs ih => rw [total, ih, List.max?_cons]

theorem total_min [LinearOrder α] : total min xs = xs.min? := by
  induction xs with
  | nil => rfl
  | cons a xs ih => rw [total, ih, List.min?_cons]

theorem total_add [AddMonoid α] : total (· + ·) xs = if xs.isEmpty then none else some xs.sum := by
  induction xs with
  | nil => rfl
  | cons a xs ih =>
    rw [total, ih]
    cases xs with
    | nil | cons b xs => simp

end Stepwise
