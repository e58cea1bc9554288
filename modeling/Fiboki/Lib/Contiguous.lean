import Mathlib.Data.List.Sort

/-!
The contiguous runs of a list of positions, each as its first and last position.
-/

namespace Contiguous

def runsFrom (lo last : ℕ) : List ℕ → List (ℕ × ℕ)
  | [] => [(lo, last)]
  | b :: l => if b = last + 1 then runsFrom lo b l else (lo, last) :: runsFrom b b l

def runsOf : List ℕ → List (ℕ × ℕ)
  | [] => []
  | a :: l => runsFrom a a l

def contiguousRuns (idx : List ℕ) : List (ℕ × ℕ) := runsOf (idx.insertionSort (· ≤ ·))

/-- Positions one after another, all of them in the set and none beside them. -/
structure IsRun (s : Set ℕ) (lo hi : ℕ) : Prop where
  le : lo ≤ hi
  mem : ∀ j, lo ≤ j → j ≤ hi → j ∈ s
  before : ∀ j, j + 1 = lo → j ∉ s
  after : hi + 1 ∉ s

variable {s : Set ℕ}

theorem IsRun.lo_mem {lo hi : ℕ} (h : IsRun s lo hi) : lo ∈ s := h.mem lo le_rfl h.le

theorem IsRun.unique {lo hi lo' hi' j : ℕ} (h : IsRun s lo hi) (h' : IsRun s lo' hi') (hlo : lo ≤ j)
    (hhi : j ≤ hi) (hlo' : lo' ≤ j) (hhi' : j ≤ hi') : lo = lo' ∧ hi = hi' := by
  have hle : lo ≤ lo' := by
    by_contra hlt
    exact h.before (lo - 1) (by omega) (h'.mem _ (by omega) (by omega))
  have hge : lo' ≤ lo := by
    by_contra hlt
    exact h'.before (lo' - 1) (by omega) (h.mem _ (by omega) (by omega))
  have hle' : hi ≤ hi' := by
    by_contra hlt
    exact h'.after (h.mem _ (by omega) (by omega))
  have hge' : hi' ≤ hi := by
    by_contra hlt
    exact h.after (h'.mem _ (by omega) (by omega))
  omega

variable {lo last : ℕ}

theorem isRun_split {s t : Set ℕ} (hle : lo ≤ last)
    (hs : ∀ j, j ∈ s ↔ (lo ≤ j ∧ j ≤ last) ∨ j ∈ t) (ht : ∀ j, j ∈ t → last + 1 < j)
    {lo' hi' : ℕ} : IsRun s lo' hi' ↔ (lo' = lo ∧ hi' = last) ∨ IsRun t lo' hi' := by
  have hfirst : IsRun s lo last := by
    refine ⟨hle, ?_, ?_, ?_⟩
    · intro j hlo hhi
      exact (hs j).2 (.inl ⟨hlo, hhi⟩)
    · intro j hj hmem
      rcases (hs j).1 hmem with hrange | hmem
      · omega
      · have := ht j hmem
        omega
    · intro hmem
      rcases (hs _).1 hmem with hrange | hmem
      · omega
      · have := ht _ hmem
        omega
  constructor
  · intro h
    rcases (hs lo').1 h.lo_mem with ⟨hlo, hlast⟩ | hmem
    · exact .inl (h.unique hfirst le_rfl h.le hlo hlast)
    · have hgap := ht lo' hmem
      refine .inr ⟨h.le, ?_, ?_, ?_⟩
      · intro j hlo hhi
        rcases (hs j).1 (h.mem j hlo hhi) with hrange | hj
        · omega
        · exact hj
      · intro j hj hmem
        exact h.before j hj ((hs j).2 (.inr hmem))
      · intro hmem
        exact h.after ((hs _).2 (.inr hmem))
  · intro h
    rcases h with ⟨rfl, rfl⟩ | h
    · exact hfirst
    · have hgap := ht lo' h.lo_mem
      have hle' := h.le
      refine ⟨h.le, ?_, ?_, ?_⟩
      · intro j hlo hhi
        exact (hs j).2 (.inr (h.mem j hlo hhi))
      · intro j hj hmem
        rcases (hs j).1 hmem with hrange | hmem
        · omega
        · exact h.before j hj hmem
      · intro hmem
        rcases (hs _).1 hmem with hrange | hmem
        · omega
        · exact h.after hmem

theorem isRun_congr {s t : Set ℕ} (h : ∀ j, j ∈ s ↔ j ∈ t) {lo hi : ℕ} :
    IsRun s lo hi ↔ IsRun t lo hi := by
  rw [Set.ext h]

variable {r : ℕ × ℕ}

variable {l : List ℕ}

theorem mem_runsFrom (hle : lo ≤ last)
    (h : (last :: l).Pairwise (· < ·)) :
    r ∈ runsFrom lo last l ↔ IsRun {j | (lo ≤ j ∧ j ≤ last) ∨ j ∈ l} r.1 r.2 := by
  induction l generalizing lo last with
  | nil =>
    rw [isRun_split (t := ∅) hle (by simp) (by simp)]
    have hnone : ¬IsRun ∅ r.1 r.2 := fun hrun => hrun.lo_mem
    rw [or_iff_left hnone, runsFrom, List.mem_singleton, Prod.ext_iff]
  | cons b l ih =>
    obtain ⟨hlast, hb⟩ := List.pairwise_cons.1 h
    have hgreater := (List.pairwise_cons.1 hb).1
    have hlt : last < b := hlast b List.mem_cons_self
    rw [runsFrom]
    split
    next hnext =>
      rw [ih (by omega) hb]
      apply isRun_congr
      intro j
      simp only [Set.mem_ofPred_eq, List.mem_cons]
      constructor
      · intro hj
        rcases hj with hj | hj
        · rcases Nat.lt_or_ge last j with hgt | hge
          · exact .inr (.inl (by omega))
          · exact .inl ⟨hj.1, hge⟩
        · exact .inr (.inr hj)
      · intro hj
        rcases hj with hj | rfl | hj
        · exact .inl ⟨hj.1, by omega⟩
        · exact .inl ⟨by omega, le_rfl⟩
        · exact .inr hj
    next hgap =>
      have hmem : ∀ j, j ∈ {j | (lo ≤ j ∧ j ≤ last) ∨ j ∈ b :: l} ↔
          (lo ≤ j ∧ j ≤ last) ∨ j ∈ {j | (b ≤ j ∧ j ≤ b) ∨ j ∈ l} := by
        intro j
        simp only [Set.mem_ofPred_eq, List.mem_cons]
        apply or_congr_right
        apply or_congr_left
        omega
      have hbeyond : ∀ j, j ∈ {j | (b ≤ j ∧ j ≤ b) ∨ j ∈ l} → last + 1 < j := by
        intro j hj
        rcases hj with hj | hj
        · omega
        · have := hgreater j hj
          omega
      rw [isRun_split hle hmem hbeyond, List.mem_cons, ih le_rfl hb, Prod.ext_iff]

theorem mem_runsOf (h : l.Pairwise (· < ·)) : r ∈ runsOf l ↔ IsRun {j | j ∈ l} r.1 r.2 := by
  cases l with
  | nil =>
    refine iff_of_false List.not_mem_nil ?_
    intro hrun
    exact List.not_mem_nil hrun.lo_mem
  | cons a l =>
    rw [runsOf, mem_runsFrom le_rfl h]
    apply isRun_congr
    intro j
    simp only [Set.mem_ofPred_eq, List.mem_cons]
    apply or_congr_left
    omega

theorem mem_contiguousRuns {idx : List ℕ} (h : idx.Nodup) :
    r ∈ contiguousRuns idx ↔ IsRun {j | j ∈ idx} r.1 r.2 := by
  have hperm := List.perm_insertionSort (· ≤ ·) idx
  have hnodup : (idx.insertionSort (· ≤ ·)).Nodup := hperm.nodup_iff.2 h
  have hsorted : (idx.insertionSort (· ≤ ·)).Pairwise (· ≤ ·) := List.pairwise_insertionSort _ idx
  unfold contiguousRuns
  rw [mem_runsOf (hsorted.and hnodup |>.imp fun hab => lt_of_le_of_ne hab.1 hab.2)]
  apply isRun_congr
  intro j
  exact hperm.mem_iff

theorem exists_isRun {bound j : ℕ} (hj : j ∈ s) (h : ∀ i ∈ s, i < bound) :
    ∃ lo hi, IsRun s lo hi ∧ lo ≤ j ∧ j ≤ hi := by
  classical
  -- the first and the last position reached from here without leaving the set
  let up := fun n => j + n + 1 ∉ s
  let down := fun n => ∀ i, i + n + 1 = j → i ∉ s
  have hup : ∃ n, up n := ⟨bound, fun hmem => by have := h _ hmem; omega⟩
  have hdown : ∃ n, down n := ⟨j, fun i hi => by omega⟩
  have hupMem : ∀ n, n ≤ Nat.find hup → j + n ∈ s := by
    intro n hn
    cases n with
    | zero => exact hj
    | succ n => exact not_not.1 (Nat.find_min hup (m := n) (by omega))
  have hdownMem : ∀ n i, n ≤ Nat.find hdown → i + n = j → i ∈ s := by
    intro n i hn hi
    cases n with
    | zero =>
      obtain rfl : i = j := hi
      exact hj
    | succ n =>
      have hmin := Nat.find_min hdown (m := n) (by omega)
      obtain ⟨i', hi', hmem⟩ : ∃ i', i' + n + 1 = j ∧ i' ∈ s := by
        by_contra hnone
        exact hmin fun i' hi' hmem => hnone ⟨i', hi', hmem⟩
      obtain rfl : i = i' := by omega
      exact hmem
  have hdownLe : Nat.find hdown ≤ j := Nat.find_min' hdown fun i hi => by omega
  refine ⟨j - Nat.find hdown, j + Nat.find hup, ⟨by omega, ?_, ?_, Nat.find_spec hup⟩,
    by omega, by omega⟩
  · intro i hlo hhi
    rcases Nat.le_total i j with hij | hji
    · exact hdownMem (j - i) i (by omega) (by omega)
    · have := hupMem (i - j) (by omega)
      rwa [Nat.add_sub_cancel' hji] at this
  · intro i hi
    exact Nat.find_spec hdown i (by omega)

end Contiguous
