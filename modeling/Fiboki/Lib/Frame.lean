import Fiboki.Lib.Dict
import Mathlib.Algebra.Order.Group.Nat
import Mathlib.Data.List.Count
import Mathlib.Data.List.Sort

/-!
Sorted maps as indexed frames: the first and the last key, the rows from a key on, the rows
between two keys, the frame without its oldest rows, and the merge that never overwrites.
-/

universe u v

namespace Dict

variable {κ : Type u} {ν : Type v} [LinearOrder κ]

/-- `frame.index[-1]`. -/
def newest (d : Dict κ ν) : Option κ := d.keys.getLast?

/-- `frame.index[0]`. -/
def oldest (d : Dict κ ν) : Option κ := d.keys.head?

def select (d : Dict κ ν) (p : κ → Bool) : Dict κ ν :=
  ⟨d.entries.filter fun e => p e.1, d.sorted.filter _⟩

/-- `frame.iloc[n:]`. -/
def dropOldest (d : Dict κ ν) (n : ℕ) : Dict κ ν :=
  ⟨d.entries.drop n, d.sorted.sublist (List.drop_sublist n d.entries)⟩

def addRow (d : Dict κ ν) (row : κ × ν) : Dict κ ν :=
  match d.get row.1 with
  | some _ => d
  | none => d.set row.1 row.2

def addRows (d : Dict κ ν) (rows : List (κ × ν)) : Dict κ ν := rows.foldl addRow d

def rank (d : Dict κ ν) (k : κ) : ℕ := d.keys.countP (· < k)

theorem sorted_keys (d : Dict κ ν) : d.keys.Pairwise (· < ·) := List.pairwise_map.2 d.sorted

theorem length_keys (d : Dict κ ν) : d.keys.length = d.entries.length := List.length_map _

theorem keys_set (d : Dict κ ν) (k k' : κ) (v : ν) :
    k' ∈ (d.set k v).keys ↔ k' = k ∨ k' ∈ d.keys := by
  rw [mem_keys, mem_keys]
  constructor
  · rintro ⟨w, hw⟩
    rw [get_set] at hw
    split_ifs at hw with h
    · exact .inl h.symm
    · exact .inr ⟨w, hw⟩
  · rintro (rfl | ⟨w, hw⟩)
    · exact ⟨v, get_set_self d _ v⟩
    · rw [get_set]
      split_ifs
      · exact ⟨v, rfl⟩
      · exact ⟨w, hw⟩

variable {d : Dict κ ν} {k : κ}

theorem newest_eq_some : d.newest = some k ↔ k ∈ d.keys ∧ ∀ k' ∈ d.keys, k' ≤ k := by
  have hsorted := d.sorted_keys
  unfold newest
  constructor
  · intro h
    obtain ⟨front, hfront⟩ := List.getLast?_eq_some_iff.1 h
    rw [hfront] at hsorted ⊢
    refine ⟨by simp, ?_⟩
    intro k' hk'
    rcases List.mem_append.1 hk' with hk' | hk'
    · exact ((List.pairwise_append.1 hsorted).2.2 k' hk' k (by simp)).le
    · rw [List.mem_singleton.1 hk']
  · rintro ⟨hmem, hmax⟩
    cases hlast : d.keys.getLast? with
    | none =>
      rw [List.getLast?_eq_none_iff] at hlast
      rw [hlast] at hmem
      cases hmem
    | some l =>
      obtain ⟨front, hfront⟩ := List.getLast?_eq_some_iff.1 hlast
      rw [hfront] at hsorted hmem hmax
      rcases List.mem_append.1 hmem with hk | hk
      · have hlt := (List.pairwise_append.1 hsorted).2.2 k hk l (by simp)
        exact absurd (hmax l (by simp)) (not_le.2 hlt)
      · rw [List.mem_singleton.1 hk]

theorem newest_eq_none : d.newest = none ↔ d.keys = [] := List.getLast?_eq_none_iff

theorem exists_newest (h : k ∈ d.keys) : ∃ n, d.newest = some n := by
  cases hn : d.newest with
  | none =>
    rw [newest_eq_none] at hn
    rw [hn] at h
    cases h
  | some n => exact ⟨n, rfl⟩

theorem oldest_mem {o : κ} (h : d.oldest = some o) : o ∈ d.keys :=
  List.mem_of_mem_head? (by rw [oldest] at h; rw [h]; rfl)

@[simp] theorem mem_keys_select {p : κ → Bool} :
    k ∈ (d.select p).keys ↔ k ∈ d.keys ∧ p k = true := by
  unfold select keys
  simp only [List.mem_map, List.mem_filter]
  constructor
  · rintro ⟨e, ⟨he, hp⟩, rfl⟩
    exact ⟨⟨e, he, rfl⟩, hp⟩
  · rintro ⟨⟨e, he, rfl⟩, hp⟩
    exact ⟨e, ⟨he, hp⟩, rfl⟩

variable {n : ℕ}

theorem mem_keys_of_dropOldest (h : k ∈ (d.dropOldest n).keys) : k ∈ d.keys := by
  obtain ⟨e, he, rfl⟩ := List.mem_map.1 h
  exact List.mem_map_of_mem (List.mem_of_mem_drop he)

theorem mem_drop_of_rank {xs : List κ} (hs : xs.Pairwise (· < ·)) (hk : k ∈ xs)
    (hn : n ≤ xs.countP (· < k)) : k ∈ xs.drop n := by
  induction xs generalizing n with
  | nil => cases hk
  | cons a rest ih =>
    obtain ⟨ha, hrest⟩ := List.pairwise_cons.1 hs
    cases n with
    | zero => exact hk
    | succ n =>
      rw [List.drop_succ_cons]
      rcases List.mem_cons.1 hk with rfl | hk
      · have hzero : (k :: rest).countP (· < k) = 0 := by
          rw [List.countP_eq_zero]
          intro b hb
          rcases List.mem_cons.1 hb with rfl | hb
          · simp
          · simpa using (ha b hb).le
        omega
      · have hcount : (a :: rest).countP (· < k) = rest.countP (· < k) + 1 :=
          List.countP_cons_of_pos (by simpa using ha k hk)
        exact ih hrest hk (by omega)

theorem mem_keys_dropOldest (hk : k ∈ d.keys)
    (hn : n ≤ d.rank k) : k ∈ (d.dropOldest n).keys := by
  have hdrop : (d.dropOldest n).keys = d.keys.drop n := List.map_drop
  rw [hdrop]
  exact mem_drop_of_rank d.sorted_keys hk hn

theorem rank_newest (h : d.newest = some k) : d.rank k + 1 = d.keys.length := by
  have hsorted := d.sorted_keys
  obtain ⟨front, hfront⟩ := List.getLast?_eq_some_iff.1 h
  unfold rank
  rw [hfront] at hsorted ⊢
  have hbelow : ∀ b ∈ front, decide (b < k) = true := by
    intro b hb
    exact decide_eq_true ((List.pairwise_append.1 hsorted).2.2 b hb k (by simp))
  rw [List.countP_append, List.countP_eq_length.2 hbelow]
  simp

theorem mem_keys_addRow {row : κ × ν} : k ∈ (d.addRow row).keys ↔ k ∈ d.keys ∨ k = row.1 := by
  unfold addRow
  cases hget : d.get row.1 with
  | none => rw [keys_set, or_comm]
  | some v =>
    refine ⟨.inl, ?_⟩
    rintro (hk | rfl)
    · exact hk
    · exact mem_keys.2 ⟨v, hget⟩

theorem mem_keys_addRows {rows : List (κ × ν)} :
    k ∈ (d.addRows rows).keys ↔ k ∈ d.keys ∨ k ∈ rows.map Prod.fst := by
  unfold addRows
  induction rows generalizing d with
  | nil => simp
  | cons row rest ih =>
    rw [List.foldl_cons, ih, mem_keys_addRow, List.map_cons, List.mem_cons, or_assoc]

end Dict
