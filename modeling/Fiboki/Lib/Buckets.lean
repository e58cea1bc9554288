import Fiboki.Lib.Partitions

/-!
A list cut where a key is seen for the first time. When the keys ascend, the stretches are the
elements of each key.
-/

namespace Buckets

open Partitions

section Stretches

variable {α : Type*}

def stretches (starts : List ℕ) (xs : List α) : List (List α) :=
  (starts.zip (starts.tail ++ [xs.length])).map fun p => (xs.drop p.1).take (p.2 - p.1)

theorem stretches_cons (p : ℕ) (starts : List ℕ) (xs : List α) : stretches (p :: starts) xs =
      (xs.drop p).take (starts.headD xs.length - p) :: stretches starts xs := by
  cases starts <;> rfl

variable (starts : List ℕ)

theorem stretches_succ (a : α) (l : List α) :
    stretches (starts.map Nat.succ) (a :: l) = stretches starts l := by
  induction starts with
  | nil => rfl
  | cons p starts ih =>
    rw [List.map_cons, stretches_cons, stretches_cons, ih]
    have hnext : (starts.map Nat.succ).headD (a :: l).length = starts.headD l.length + 1 := by
      cases starts <;> rfl
    rw [hnext, Nat.succ_eq_add_one, List.drop_succ_cons, Nat.add_sub_add_right]

theorem stretches_zero_cons (a : α) (l : List α) :
    stretches (0 :: starts.map Nat.succ) (a :: l) =
      (a :: l.take (starts.headD l.length)) :: stretches starts l := by
  rw [stretches_cons, stretches_succ]
  cases starts <;> rfl

theorem mem_of_mem_stretches {starts : List ℕ} {xs part : List α} (h : part ∈ stretches starts xs)
    {x : α} (hx : x ∈ part) : x ∈ xs := by
  obtain ⟨p, -, rfl⟩ := List.mem_map.1 h
  exact List.mem_of_mem_drop (List.mem_of_mem_take hx)

theorem stretches_map {β : Type*} (g : β → α) (starts : List ℕ) (xs : List β) :
    stretches starts (xs.map g) = (stretches starts xs).map (List.map g) := by
  unfold stretches
  rw [List.length_map, List.map_map]
  apply List.map_congr_left
  intro p _
  rw [Function.comp_apply, List.map_take, List.map_drop]

end Stretches

variable {α κ : Type*}

section Positions

variable [DecidableEq κ]

def firstPositions (keys : List κ) : List ℕ :=
  (List.range keys.length).filter fun i => ∀ k ∈ keys[i]?, k ∉ keys.take i

def buckets (key : α → κ) (xs : List α) : List (List α) :=
  stretches (firstPositions (xs.map key)) xs

theorem buckets_map {β : Type*} (key : α → κ) (g : β → α) (xs : List β) :
    buckets key (xs.map g) = (buckets (fun x => key (g x)) xs).map (List.map g) := by
  unfold buckets
  rw [stretches_map, List.map_map]
  rfl

theorem firstPositions_cons (k : κ) (keys : List κ) : firstPositions (k :: keys) =
      0 :: ((firstPositions keys).filter fun i => ∀ k' ∈ keys[i]?, k' ≠ k).map Nat.succ := by
  unfold firstPositions
  rw [List.length_cons, List.range_succ_eq_map, List.filter_cons_of_pos (by simp),
    List.filter_map, List.filter_filter]
  congr 2
  apply List.filter_congr
  intro i _
  simp only [Function.comp_apply, Nat.succ_eq_add_one, List.getElem?_cons_succ, List.take_succ_cons,
    List.mem_cons, not_or, ← Bool.decide_and, decide_eq_decide]
  exact ⟨fun h => ⟨fun k' hk => (h k' hk).1, fun k' hk => (h k' hk).2⟩,
    fun h k' hk => ⟨h.1 k' hk, h.2 k' hk⟩⟩

theorem firstPositions_new {k : κ} {keys : List κ} (h : k ∉ keys) :
    firstPositions (k :: keys) = 0 :: (firstPositions keys).map Nat.succ := by
  rw [firstPositions_cons]
  congr 2
  apply List.filter_eq_self.2
  intro i _
  apply decide_eq_true
  rintro k' hk rfl
  exact h (List.mem_of_getElem? hk)

theorem firstPositions_again (k : κ) (keys : List κ) :
    ∃ starts : List ℕ, firstPositions (k :: keys) = 0 :: starts.map Nat.succ ∧
      firstPositions (k :: k :: keys) = 0 :: (starts.map Nat.succ).map Nat.succ := by
  refine ⟨_, firstPositions_cons k keys, ?_⟩
  rw [firstPositions_cons k (k :: keys), firstPositions_cons k keys]
  congr 2
  rw [List.filter_cons_of_neg (by simp)]
  apply List.filter_eq_self.2
  intro i hi
  obtain ⟨j, hj, rfl⟩ := List.mem_map.1 hi
  exact (List.mem_filter.1 hj).2

end Positions

variable [LinearOrder κ] {key : α → κ}

theorem split_new {a : α} {l : List α} (h : key a ∉ l.map key) :
    (split key (a :: l)).map Prod.snd = [a] :: (split key l).map Prod.snd := by
  have hne : ∀ x ∈ l, key x ≠ key a := fun x hx heq => h (List.mem_map.2 ⟨x, hx, heq⟩)
  unfold split
  rw [List.map_cons, List.dedup_cons_of_notMem h, List.map_cons, List.map_cons, List.map_map,
    List.map_map]
  congr 1
  · have hfirst : l.filter (fun x => decide (key x = key a)) = [] := by
      apply List.filter_eq_nil_iff.2
      intro x hx
      simpa using hne x hx
    simp [hfirst]
  · apply List.map_congr_left
    intro k hk
    have hka : key a ≠ k := by
      rintro rfl
      exact h (List.mem_dedup.1 hk)
    simp [hka]

theorem split_again {a : α} {l part : List α} {parts : List (List α)} (hmem : key a ∈ l.map key)
    (hparts : (split key l).map Prod.snd = part :: parts) (hfirst : ∃ b ∈ part, key b = key a) :
    (split key (a :: l)).map Prod.snd = (a :: part) :: parts := by
  unfold split at hparts ⊢
  rw [List.map_cons, List.dedup_cons_of_mem hmem]
  rw [List.map_map] at hparts ⊢
  have hnodup := List.nodup_dedup (l.map key)
  generalize (l.map key).dedup = labels at hparts hnodup ⊢
  cases labels with
  | nil => exact absurd hparts (by simp)
  | cons k labels =>
    rw [List.map_cons, List.cons.injEq] at hparts
    obtain ⟨rfl, rfl⟩ := hparts
    obtain ⟨b, hb, hkey⟩ := hfirst
    have hk : key a = k := by
      rw [← hkey]
      simpa using (List.mem_filter.1 hb).2
    rw [List.map_cons]
    congr 1
    · simp [hk]
    · apply List.map_congr_left
      intro k' hk'
      have hne : key a ≠ k' := by
        rintro rfl
        exact (List.nodup_cons.1 hnodup).1 (hk ▸ hk')
      simp [hne]

variable {xs : List α}

theorem buckets_eq_split (h : (xs.map key).Pairwise (· ≤ ·)) :
    buckets key xs = (split key xs).map Prod.snd := by
  induction xs with
  | nil => rfl
  | cons a l ih =>
    rw [List.map_cons, List.pairwise_cons] at h
    have ih := ih h.2
    by_cases hmem : key a ∈ l.map key
    · cases l with
      | nil => exact absurd hmem (by simp)
      | cons b l =>
        -- the key of the next element lies between two equal ones
        have hkey : key b = key a := by
          apply le_antisymm _ (h.1 _ (by simp))
          rcases List.mem_cons.1 hmem with heq | hlater
          · exact heq.ge
          · exact (List.pairwise_cons.1 h.2).1 _ hlater
        obtain ⟨starts, hone, htwo⟩ := firstPositions_again (key a) (l.map key)
        unfold buckets at ih ⊢
        rw [List.map_cons, hkey, hone] at ih
        rw [List.map_cons, List.map_cons, hkey, htwo, stretches_zero_cons]
        rw [stretches_cons, List.drop_zero, Nat.sub_zero] at ih
        refine (split_again hmem ih.symm ⟨b, ?_, hkey⟩).symm
        cases starts <;> exact List.mem_cons_self
    · rw [split_new hmem, ← ih]
      unfold buckets
      rw [List.map_cons, firstPositions_new hmem, stretches_zero_cons]
      cases l with
      | nil => rfl
      | cons b l =>
        rw [List.map_cons, firstPositions_cons]
        rfl

theorem buckets_of_ascending (h : (xs.map key).Pairwise (· ≤ ·)) :
    ∃ labels : List κ, labels.Pairwise (· < ·) ∧ (∀ k, k ∈ labels ↔ k ∈ xs.map key) ∧
      buckets key xs = labels.map fun k => xs.filter fun x => key x = k := by
  refine ⟨(xs.map key).dedup, ?_, fun k => List.mem_dedup, ?_⟩
  · have hle := h.sublist (List.dedup_sublist (xs.map key))
    exact (hle.and (List.nodup_dedup (xs.map key))).imp fun hab => lt_of_le_of_ne hab.1 hab.2
  · rw [buckets_eq_split h]
    unfold split
    rw [List.map_map]
    rfl

end Buckets
