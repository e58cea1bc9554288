import Mathlib.Data.List.Sort

/-!
Stable sorting by a key.  A list sorted by its keys is determined by its blocks, the
sublists of one key each, and a stable sort leaves every block as it is.
-/

namespace StableSort

variable {α κ : Type*} [LinearOrder κ] (key : α → κ)

def sortBy (xs : List α) : List α := xs.insertionSort fun a b => key a ≤ key b

def block (k : κ) (xs : List α) : List α := xs.filter fun a => key a = k

variable {a : α}

theorem mem_block {k : κ} {xs : List α} : a ∈ block key k xs ↔ a ∈ xs ∧ key a = k := by
  unfold block
  rw [List.mem_filter, decide_eq_true_eq]

theorem block_cons_self (a : α) (xs : List α) :
    block key (key a) (a :: xs) = a :: block key (key a) xs := by
  unfold block
  rw [List.filter_cons_of_pos (by simp)]

theorem block_cons_of_ne {k : κ} (h : key a ≠ k) (xs : List α) :
    block key k (a :: xs) = block key k xs := by
  unfold block
  rw [List.filter_cons_of_neg (by simpa using h)]

def SameBlocks (xs ys : List α) : Prop := ∀ k, block key k xs = block key k ys

variable {xs ys : List α}

theorem SameBlocks.mem (h : SameBlocks key xs ys) (ha : a ∈ xs) : a ∈ ys := by
  have hmem : a ∈ block key (key a) xs := (mem_block key).2 ⟨ha, rfl⟩
  rw [h] at hmem
  exact ((mem_block key).1 hmem).1

theorem SameBlocks.refl (xs : List α) : SameBlocks key xs xs := fun _ => rfl

theorem SameBlocks.symm (h : SameBlocks key xs ys) : SameBlocks key ys xs :=
  fun k => (h k).symm

theorem SameBlocks.filter (h : SameBlocks key xs ys) (p : κ → Bool) :
    SameBlocks key (xs.filter fun a => p (key a)) (ys.filter fun a => p (key a)) := by
  intro k
  have hcomm : ∀ zs : List α, block key k (zs.filter fun a => p (key a)) =
      (block key k zs).filter fun a => p (key a) := by
    intro zs
    unfold block
    rw [List.filter_filter, List.filter_filter]
    congr 1
    funext a
    exact Bool.and_comm _ _
  rw [hcomm, hcomm, h]

theorem SameBlocks.tail (h : SameBlocks key (a :: xs) (a :: ys)) : SameBlocks key xs ys := by
  intro k
  have hk := h k
  by_cases ha : key a = k
  · subst ha
    rw [block_cons_self, block_cons_self] at hk
    exact (List.cons.inj hk).2
  · rwa [block_cons_of_ne key ha, block_cons_of_ne key ha] at hk

theorem SameBlocks.eq_of_sorted (h : SameBlocks key xs ys)
    (hx : xs.Pairwise fun a b => key a ≤ key b) (hy : ys.Pairwise fun a b => key a ≤ key b) :
    xs = ys := by
  induction xs generalizing ys with
  | nil =>
    cases ys with
    | nil => rfl
    | cons b ys =>
      have hb := (h.symm key).mem key List.mem_cons_self
      cases hb
  | cons a xs ih =>
    cases ys with
    | nil =>
      have ha := h.mem key List.mem_cons_self
      cases ha
    | cons b ys =>
      obtain ⟨hax, hxs⟩ := List.pairwise_cons.1 hx
      obtain ⟨hby, hys⟩ := List.pairwise_cons.1 hy
      have hba : key b ≤ key a := by
        rcases List.mem_cons.1 (h.mem key List.mem_cons_self) with heq | hmem
        · rw [heq]
        · exact hby a hmem
      have hab : key a ≤ key b := by
        rcases List.mem_cons.1 ((h.symm key).mem key List.mem_cons_self) with heq | hmem
        · rw [heq]
        · exact hax b hmem
      have hkey : key a = key b := le_antisymm hab hba
      have hhead := h (key a)
      rw [block_cons_self, hkey, block_cons_self] at hhead
      obtain rfl := (List.cons.inj hhead).1
      rw [ih (h.tail key) hxs hys]

theorem block_orderedInsert (k : κ) (a : α) (xs : List α) :
    block key k (xs.orderedInsert (fun a b => key a ≤ key b) a) = block key k (a :: xs) := by
  induction xs with
  | nil => rfl
  | cons b xs ih =>
    rw [List.orderedInsert_cons]
    split_ifs with hab
    · rfl
    · by_cases ha : key a = k
      · have hb : key b ≠ k := by
          rintro rfl
          exact hab ha.le
        subst ha
        rw [block_cons_of_ne key hb, ih, block_cons_self, block_cons_self, block_cons_of_ne key hb]
      · rw [block_cons_of_ne key ha]
        rw [block_cons_of_ne key ha] at ih
        by_cases hb : key b = k
        · subst hb
          rw [block_cons_self, block_cons_self, ih]
        · rw [block_cons_of_ne key hb, block_cons_of_ne key hb, ih]

theorem perm_sortBy (xs : List α) : (sortBy key xs).Perm xs := List.perm_insertionSort _ xs

theorem sorted_sortBy (xs : List α) : (sortBy key xs).Pairwise fun a b => key a ≤ key b := by
  have : Std.Total (fun a b : α => key a ≤ key b) := ⟨fun a b => le_total (key a) (key b)⟩
  have : IsTrans α (fun a b => key a ≤ key b) := ⟨fun _ _ _ h h' => h.trans h'⟩
  exact List.pairwise_insertionSort _ xs

theorem sameBlocks_sortBy (xs : List α) : SameBlocks key (sortBy key xs) xs := by
  intro k
  induction xs with
  | nil => rfl
  | cons a xs ih =>
    unfold sortBy at ih ⊢
    rw [List.insertionSort_cons, block_orderedInsert]
    by_cases ha : key a = k
    · subst ha
      rw [block_cons_self, block_cons_self, ih]
    · rw [block_cons_of_ne key ha, block_cons_of_ne key ha, ih]

theorem SameBlocks.sortBy_eq (h : SameBlocks key xs ys) : sortBy key xs = sortBy key ys := by
  refine SameBlocks.eq_of_sorted key ?_ (sorted_sortBy key xs) (sorted_sortBy key ys)
  intro k
  rw [sameBlocks_sortBy, sameBlocks_sortBy, h]

theorem sortBy_of_sorted {xs : List α} (h : xs.Pairwise fun a b => key a ≤ key b) :
    sortBy key xs = xs :=
  (sameBlocks_sortBy key xs).eq_of_sorted key (sorted_sortBy key xs) h

theorem SameBlocks.map {β κ' : Type*} [LinearOrder κ'] (key' : β → κ') (f : α → β) (φ : κ → κ')
    (hφ : Function.Injective φ) (hf : ∀ a, key' (f a) = φ (key a))
    (h : SameBlocks key xs ys) : SameBlocks key' (xs.map f) (ys.map f) := by
  intro k
  have hblock : ∀ zs : List α, block key' k (zs.map f) =
      (zs.filter fun a => φ (key a) = k).map f := by
    intro zs
    unfold block
    rw [List.filter_map]
    congr 1
    apply List.filter_congr
    intro a _
    show decide (key' (f a) = k) = _
    rw [hf]
  rw [hblock, hblock]
  by_cases hk : ∃ j, φ j = k
  · obtain ⟨j, rfl⟩ := hk
    have hsame := h j
    unfold block at hsame
    simp only [hφ.eq_iff]
    rw [hsame]
  · have hnone : ∀ zs : List α, (zs.filter fun a => φ (key a) = k) = [] := by
      intro zs
      rw [List.filter_eq_nil_iff]
      intro a _ ha
      exact hk ⟨key a, of_decide_eq_true ha⟩
    rw [hnone, hnone]

theorem filter_sortBy {p : α → Bool} {xs : List α}
    (h : ∀ a ∈ xs, ∀ b ∈ xs, p a = true → p b = true → key a = key b) :
    (sortBy key xs).filter p = xs.filter p := by
  have hblock : ∀ k ys, (∀ a ∈ ys, p a = true → key a = k) → ys.filter p =
    (block key k ys).filter p := by
    intro k ys hys
    unfold block
    rw [List.filter_filter]
    apply List.filter_congr
    intro a ha
    cases hp : p a with
    | false => rfl
    | true => simp [hys a ha hp]
  by_cases hany : ∃ a ∈ xs, p a = true
  · obtain ⟨a, ha, hpa⟩ := hany
    have hkey : ∀ b ∈ xs, p b = true → key b = key a := fun b hb hpb => h b hb a ha hpb hpa
    rw [hblock (key a) xs hkey, hblock (key a) (sortBy key xs), sameBlocks_sortBy]
    intro b hb
    exact hkey b ((sameBlocks_sortBy key xs).mem key hb)
  · rw [List.filter_eq_nil_iff.2, List.filter_eq_nil_iff.2]
    · intro a ha hpa
      exact hany ⟨a, ha, hpa⟩
    · intro a ha hpa
      exact hany ⟨a, (sameBlocks_sortBy key xs).mem key ha, hpa⟩

theorem sortBy_filter (p : α → Bool) (xs : List α) :
    sortBy key (xs.filter p) = (sortBy key xs).filter p := by
  refine SameBlocks.eq_of_sorted key (fun k => ?_) (sorted_sortBy key _)
    ((sorted_sortBy key xs).sublist List.filter_sublist)
  have hblock : ∀ ys : List α, block key k (ys.filter p) = (block key k ys).filter p := by
    intro ys
    unfold block
    rw [List.filter_filter, List.filter_filter]
    simp only [Bool.and_comm]
  rw [sameBlocks_sortBy, hblock, hblock, sameBlocks_sortBy]

end StableSort
