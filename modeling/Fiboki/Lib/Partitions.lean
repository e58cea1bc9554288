import Fiboki.Lib.StableSort
import Mathlib.Data.List.Dedup

/-!
A list in parts, one for each label: put together in any order and sorted by a key that settles
the label, the parts give the sorted list.
-/

namespace Partitions

open StableSort

variable {α ν κ : Type*} [DecidableEq ν] [LinearOrder κ]

def split (label : α → ν) (xs : List α) : List (ν × List α) :=
  (xs.map label).dedup.map fun y => (y, xs.filter fun a => label a = y)

variable {xs : List α} {label : α → ν}

theorem mem_split {p : ν × List α} (h : p ∈ split label xs) :
    p.2 = xs.filter fun a => label a = p.1 := by
  obtain ⟨y, -, rfl⟩ := List.mem_map.1 h
  rfl

theorem labels_split (label : α → ν) (xs : List α) :
    (split label xs).map Prod.fst = (xs.map label).dedup := by
  unfold split
  rw [List.map_map]
  exact List.map_id _

theorem split_eq_nil : split label xs = [] ↔ xs = [] := by
  unfold split
  rw [List.map_eq_nil_iff, List.dedup_eq_nil, List.map_eq_nil_iff]

variable {parts : List (ν × List α)}

theorem flatMap_of_labels (hnodup : (parts.map Prod.fst).Nodup) (y : ν) (ys : List α) :
    (parts.flatMap fun p => if p.1 = y then ys else []) =
      if y ∈ parts.map Prod.fst then ys else [] := by
  induction parts with
  | nil => rfl
  | cons p parts ih =>
    rw [List.map_cons, List.nodup_cons] at hnodup
    rw [List.flatMap_cons, ih hnodup.2, List.map_cons]
    by_cases hp : p.1 = y
    · subst hp
      rw [if_pos rfl, if_neg hnodup.1, List.append_nil, if_pos List.mem_cons_self]
    · rw [if_neg hp, List.nil_append]
      have hmem : y ∈ p.1 :: parts.map Prod.fst ↔ y ∈ parts.map Prod.fst := by
        rw [List.mem_cons]
        exact ⟨fun h => h.resolve_left fun heq => hp heq.symm, Or.inr⟩
      simp only [hmem]

theorem sameBlocks_of_perm (key : α → κ) (label : κ → ν)
    (h : parts.Perm (split (fun a => label (key a)) xs)) :
    SameBlocks key (parts.flatMap Prod.snd) xs := by
  intro k
  have hpart : ∀ p ∈ parts, block key k p.2 = if p.1 = label k then block key k xs else [] := by
    intro p hp
    rw [mem_split (h.mem_iff.1 hp)]
    unfold block
    rw [List.filter_filter]
    split_ifs with heq
    · apply List.filter_congr
      intro a _
      by_cases ha : key a = k
      · simp [ha, heq]
      · simp [ha]
    · rw [List.filter_eq_nil_iff]
      intro a _ hboth
      obtain ⟨ha, hlabel⟩ := Bool.and_eq_true_iff.1 hboth
      rw [of_decide_eq_true ha] at hlabel
      exact heq (of_decide_eq_true hlabel).symm
  have hnodup : (parts.map Prod.fst).Nodup := by
    rw [(h.map Prod.fst).nodup_iff, labels_split]
    exact List.nodup_dedup _
  have hblock : block key k (parts.flatMap Prod.snd) =
      parts.flatMap fun p => if p.1 = label k then block key k xs else [] := by
    unfold block
    rw [List.filter_flatMap]
    exact List.flatMap_congr hpart
  rw [hblock, flatMap_of_labels hnodup]
  split_ifs with hmem
  · rfl
  · symm
    unfold block
    rw [List.filter_eq_nil_iff]
    intro a ha hkey
    apply hmem
    rw [(h.map Prod.fst).mem_iff, labels_split, List.mem_dedup, ← of_decide_eq_true hkey]
    exact List.mem_map_of_mem (f := fun a => label (key a)) ha

theorem flatMap_pruned (h : parts.Perm (split label xs)) {wanted : ν → Bool} {keeps : α → Bool}
    (hwanted : ∀ a ∈ xs, keeps a = true → wanted (label a) = true) :
    (parts.flatMap fun p => if wanted p.1 then p.2.filter keeps else []) =
      (parts.flatMap Prod.snd).filter keeps := by
  rw [List.filter_flatMap]
  apply List.flatMap_congr
  intro p hp
  split_ifs with hw
  · rfl
  · symm
    rw [mem_split (h.mem_iff.1 hp), List.filter_eq_nil_iff]
    intro a ha hkeep
    obtain ⟨hmem, hlabel⟩ := List.mem_filter.1 ha
    have := hwanted a hmem hkeep
    rw [of_decide_eq_true hlabel] at this
    exact hw this

section Ordered

variable {μ : Type*} [LinearOrder μ] {order : α → μ} {xs ys : List α}

theorem labels_ascending (h : xs.Pairwise fun x y => order x ≤ order y) :
    ((split order xs).map Prod.fst).Pairwise (· < ·) := by
  rw [labels_split]
  have hle := (List.pairwise_map.2 h).sublist (List.dedup_sublist (xs.map order))
  exact (hle.and (List.nodup_dedup (xs.map order))).imp fun hab => lt_of_le_of_ne hab.1 hab.2

theorem eq_of_ascending {ds es : List μ} (hd : ds.Pairwise (· < ·)) (he : es.Pairwise (· < ·))
    (hmem : ∀ a, a ∈ ds ↔ a ∈ es) : ds = es := by
  refine List.Perm.eq_of_pairwise (fun a b _ _ hab hba => absurd hab hba.not_gt) hd he ?_
  exact (List.perm_ext_iff_of_nodup (hd.imp ne_of_lt) (he.imp ne_of_lt)).2 hmem

theorem labels_eq (hx : xs.Pairwise fun x y => order x ≤ order y)
    (hy : ys.Pairwise fun x y => order x ≤ order y) (hperm : xs.Perm ys) :
    (xs.map order).dedup = (ys.map order).dedup := by
  have hxs := labels_ascending hx
  have hys := labels_ascending hy
  rw [labels_split] at hxs hys
  refine eq_of_ascending hxs hys fun e => ?_
  rw [List.mem_dedup, List.mem_dedup, (hperm.map order).mem_iff]

theorem flatMap_split (h : xs.Pairwise fun x y => order x ≤ order y) :
    (split order xs).flatMap Prod.snd = xs := by
  have hperm : (split order xs).Perm (split (fun a => id (order a)) xs) := .refl _
  refine (sameBlocks_of_perm order id hperm).eq_of_sorted order ?_ h
  rw [List.pairwise_flatMap]
  constructor
  · intro p hp
    rw [mem_split hp]
    exact h.sublist List.filter_sublist
  · refine (List.pairwise_map.1 (labels_ascending h)).imp_of_mem fun {p q} hp hq hlt x hx y hy => ?_
    rw [mem_split hp, List.mem_filter, decide_eq_true_eq] at hx
    rw [mem_split hq, List.mem_filter, decide_eq_true_eq] at hy
    rw [hx.2, hy.2]
    exact hlt.le

end Ordered

end Partitions
