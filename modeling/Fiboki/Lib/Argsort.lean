import Fiboki.Lib.StableSort
import Mathlib.Data.List.Enum
import Mathlib.Data.List.Range

/-!
Values in ascending order with their positions, results put back at the positions they are for,
and what counting tells about the place of a value among sorted ones.
-/

namespace Argsort

open StableSort

variable {α β : Type*} [LinearOrder α]

def ranked (xs : List α) : List (α × ℕ) := sortBy Prod.fst xs.zipIdx

def order (xs : List α) : List ℕ := (ranked xs).map Prod.snd

def sorted (xs : List α) : List α := (ranked xs).map Prod.fst

/-- `out[order] = values`. -/
def scatter (order : List ℕ) (values : List β) : List β :=
  (sortBy Prod.fst (order.zip values)).map Prod.snd

variable (xs : List α)

theorem length_ranked : (ranked xs).length = xs.length :=
  (perm_sortBy Prod.fst xs.zipIdx).length_eq.trans List.length_zipIdx

theorem length_order : (order xs).length = xs.length := (List.length_map _).trans (length_ranked xs)

theorem length_sorted : (sorted xs).length = xs.length :=
  (List.length_map _).trans (length_ranked xs)

theorem order_perm : (order xs).Perm (List.range xs.length) := by
  have hperm := (perm_sortBy Prod.fst xs.zipIdx).map Prod.snd
  rw [List.zipIdx_map_snd] at hperm
  rw [List.range_eq_range']
  exact hperm

theorem sorted_perm : (sorted xs).Perm xs := by
  have hperm := (perm_sortBy Prod.fst xs.zipIdx).map Prod.fst
  rw [List.zipIdx_map_fst] at hperm
  exact hperm

theorem pairwise_sorted : (sorted xs).Pairwise (· ≤ ·) :=
  List.pairwise_map.2 (sorted_sortBy Prod.fst xs.zipIdx)

theorem getElem_sorted (k : ℕ) (h : k < (ranked xs).length) :
    ∃ hi : (ranked xs)[k].2 < xs.length, (ranked xs)[k].1 = xs[(ranked xs)[k].2] := by
  have hmem := (perm_sortBy Prod.fst xs.zipIdx).subset (List.getElem_mem h)
  obtain ⟨hi, hx⟩ := List.mem_zipIdx' hmem
  exact ⟨hi, hx⟩

theorem getElem_scatter {order : List ℕ} {values : List β} {m : ℕ}
    (horder : order.Perm (List.range m)) (hvalues : values.length = m) {i : ℕ} (hi : i < m) :
    ∃ (hs : i < (scatter order values).length) (k : ℕ) (hk : k < order.length)
      (hv : k < values.length), order[k] = i ∧ (scatter order values)[i] = values[k] := by
  have hlength : order.length = m := horder.length_eq.trans List.length_range
  have hperm := perm_sortBy Prod.fst (order.zip values)
  have hkeys : (sortBy Prod.fst (order.zip values)).map Prod.fst = List.range m := by
    have hfst : (order.zip values).map Prod.fst = order := List.map_fst_zip (by omega)
    have hkeysPerm := (hperm.map Prod.fst).trans ((List.Perm.of_eq hfst).trans horder)
    refine List.Perm.eq_of_pairwise (fun a b _ _ hab hba => le_antisymm hab hba) ?_ ?_ hkeysPerm
    · exact List.pairwise_map.2 (sorted_sortBy Prod.fst _)
    · exact List.pairwise_le_range
  have hsl : i < (sortBy Prod.fst (order.zip values)).length := by
    have := congrArg List.length hkeys
    rw [List.length_map, List.length_range] at this
    omega
  have hfst : (sortBy Prod.fst (order.zip values))[i].1 = i := by
    have hget := congrArg (fun l => l[i]?) hkeys
    rw [List.getElem?_map, List.getElem?_eq_getElem hsl, Option.map_some,
      List.getElem?_range hi, Option.some.injEq] at hget
    exact hget
  have hmem := hperm.subset (List.getElem_mem hsl)
  obtain ⟨k, hk, hkv⟩ := List.getElem_of_mem hmem
  rw [List.length_zip] at hk
  rw [List.getElem_zip] at hkv
  refine ⟨by unfold scatter; rw [List.length_map]; exact hsl, k, by omega, by omega, ?_, ?_⟩
  · exact (congrArg Prod.fst hkv).trans hfst
  · unfold scatter
    rw [List.getElem_map, ← hkv]

section Count

variable {q : List α}

theorem le_getElem_iff (h : q.Pairwise (· ≤ ·)) {i : ℕ} (hi : i < q.length) (y : α) :
    y ≤ q[i] ↔ q.countP (· < y) ≤ i := by
  induction q generalizing i with
  | nil => cases hi
  | cons a q ih =>
    obtain ⟨ha, hq⟩ := List.pairwise_cons.1 h
    by_cases hay : a < y
    · rw [List.countP_cons_of_pos (by simpa using hay)]
      cases i with
      | zero =>
        refine iff_of_false (not_le.2 hay) ?_
        omega
      | succ i =>
        rw [List.getElem_cons_succ, ih hq (by simpa using hi)]
        omega
    · have hzero : q.countP (· < y) = 0 := by
        rw [List.countP_eq_zero]
        intro b hb
        simpa using (not_lt.1 hay).trans (ha b hb)
      rw [List.countP_cons_of_neg (by simpa using hay), hzero]
      refine iff_of_true ?_ (Nat.zero_le i)
      cases i with
      | zero => exact not_lt.1 hay
      | succ i => exact (not_lt.1 hay).trans (ha _ (List.getElem_mem _))

theorem getElem_le_iff (h : q.Pairwise (· ≤ ·)) {i : ℕ} (hi : i < q.length) (y : α) :
    q[i] ≤ y ↔ i < q.countP (· ≤ y) := by
  induction q generalizing i with
  | nil => cases hi
  | cons a q ih =>
    obtain ⟨ha, hq⟩ := List.pairwise_cons.1 h
    by_cases hay : a ≤ y
    · rw [List.countP_cons_of_pos (by simpa using hay)]
      cases i with
      | zero => exact iff_of_true hay (Nat.succ_pos _)
      | succ i =>
        rw [List.getElem_cons_succ, ih hq (by simpa using hi)]
        omega
    · have hzero : q.countP (· ≤ y) = 0 := by
        rw [List.countP_eq_zero]
        intro b hb
        simpa using (not_le.1 hay).trans_le (ha b hb)
      rw [List.countP_cons_of_neg (by simpa using hay), hzero]
      refine iff_of_false ?_ (Nat.not_lt_zero i)
      cases i with
      | zero => exact hay
      | succ i =>
        intro hle
        exact hay ((ha _ (List.getElem_mem _)).trans hle)

theorem getElem_countP_lt (h : q.Pairwise (· ≤ ·)) {y : α} (hy : y ∈ q) :
    ∃ hk : q.countP (· < y) < q.length, q[q.countP (· < y)] = y := by
  obtain ⟨j, hj, rfl⟩ := List.getElem_of_mem hy
  have hcount := (le_getElem_iff h hj q[j]).1 le_rfl
  have hk : q.countP (· < q[j]) < q.length := hcount.trans_lt hj
  refine ⟨hk, le_antisymm ?_ ((le_getElem_iff h hk _).2 le_rfl)⟩
  rcases hcount.eq_or_lt with heq | hlt
  · exact le_of_eq (by congr 1)
  · exact List.pairwise_iff_getElem.1 h _ _ hk hj hlt

theorem getElem_countP_le (h : q.Pairwise (· ≤ ·)) {y : α} (hy : y ∈ q) :
    ∃ hk : q.countP (· ≤ y) - 1 < q.length, q[q.countP (· ≤ y) - 1] = y := by
  obtain ⟨j, hj, rfl⟩ := List.getElem_of_mem hy
  have hcount := (getElem_le_iff h hj q[j]).1 le_rfl
  have hle := List.countP_le_length (p := (· ≤ q[j])) (l := q)
  have hk : q.countP (· ≤ q[j]) - 1 < q.length := by omega
  refine ⟨hk, le_antisymm ((getElem_le_iff h hk _).2 (by omega)) ?_⟩
  rcases Nat.eq_or_lt_of_le (Nat.le_sub_one_of_lt hcount) with heq | hlt
  · exact le_of_eq (by congr 1)
  · exact List.pairwise_iff_getElem.1 h _ _ hj hk hlt

end Count

end Argsort
