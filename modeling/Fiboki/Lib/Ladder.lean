import Mathlib.Algebra.Order.BigOperators.Group.List
import Mathlib.Data.List.TakeWhile
import Mathlib.Tactic.Linarith

/-!
Ladders: levels with an amount each, nearest first.  Levels that lie near each other are merged
into the nearest of them, and a ladder is trimmed from its far end to what one whole allows.
-/

namespace Ladder

set_option linter.unusedSectionVars false

section Total

variable {ι K : Type} [AddCommMonoid K]

def total (legs : List (ι × K)) : K := (legs.map Prod.snd).sum

@[simp] theorem total_nil : total ([] : List (ι × K)) = 0 := rfl

@[simp] theorem total_cons (leg : ι × K) (legs : List (ι × K)) :
    total (leg :: legs) = leg.2 + total legs := List.sum_cons

@[simp] theorem total_append (legs rest : List (ι × K)) :
    total (legs ++ rest) = total legs + total rest := by
  induction legs with
  | nil => simp
  | cons leg legs ih =>
    rw [List.cons_append, total_cons, total_cons, ih, add_assoc]

theorem total_perm {legs rest : List (ι × K)} (h : legs.Perm rest) : total legs = total rest :=
  List.Perm.sum_eq (h.map Prod.snd)

end Total

variable {ι κ K : Type} [LinearOrder κ] [Field K] [LinearOrder K]

def Shares (cap : K) (legs : List (ι × K)) : Prop := ∀ leg ∈ legs, 0 < leg.2 ∧ leg.2 ≤ cap

variable {legs : List (ι × K)} {cap : K}

theorem Shares.tail {leg : ι × K} (h : Shares cap (leg :: legs)) :
    Shares cap legs := fun l hl => h l (List.mem_cons_of_mem _ hl)

theorem Shares.of_subset {legs rest : List (ι × K)} (h : Shares cap legs)
    (hsub : rest ⊆ legs) : Shares cap rest := fun l hl => h l (hsub hl)

variable [IsStrictOrderedRing K]

theorem Shares.total_nonneg (h : Shares cap legs) : 0 ≤ total legs := by
  induction legs with
  | nil => exact le_refl 0
  | cons leg legs ih =>
    rw [total_cons]
    exact add_nonneg (h leg List.mem_cons_self).1.le (ih h.tail)

theorem Shares.total_pos (h : Shares cap legs) (hne : legs ≠ []) : 0 < total legs := by
  cases legs with
  | nil => exact absurd rfl hne
  | cons leg legs =>
    rw [total_cons]
    exact add_pos_of_pos_of_nonneg (h leg List.mem_cons_self).1 h.tail.total_nonneg

theorem min_add_min (cap a : K) {b : K} (hb : 0 ≤ b) :
    min cap (min cap a + b) = min cap (a + b) := by
  rcases le_total cap a with h | h
  · rw [min_eq_left h, min_eq_left (by linarith), min_eq_left (by linarith)]
  · rw [min_eq_right h]

theorem filter_append_filter_not {α : Type} {p : α → Bool} {l : List α}
    (h : l.Pairwise fun a b => p b = true → p a = true) :
    l.filter p ++ l.filter (fun a => !p a) = l := by
  induction l with
  | nil => rfl
  | cons a rest ih =>
    obtain ⟨hfirst, hrest⟩ := List.pairwise_cons.mp h
    cases hp : p a with
    | true =>
      rw [List.filter_cons_of_pos hp, List.filter_cons_of_neg (by simp [hp]), List.cons_append,
        ih hrest]
    | false =>
      have hnone : rest.filter p = [] := by
        apply List.filter_eq_nil_iff.mpr
        intro b hb hpb
        rw [hfirst b hb hpb] at hp
        cases hp
      rw [List.filter_cons_of_neg (by simp [hp]), List.filter_cons_of_pos (by simp [hp]), hnone,
        List.nil_append]
      congr 1
      have hrest' := ih hrest
      rwa [hnone, List.nil_append] at hrest'

section Merge

variable (near : ι → ι → Bool) (cap : K)

/-- The levels near `last` merged into it, up to the whole, and the others after it. -/
def mergeAfter (last : ι × K) : List (ι × K) → List (ι × K)
  | [] => [last]
  | leg :: rest =>
    if near last.1 leg.1 then mergeAfter (last.1, min cap (last.2 + leg.2)) rest
    else last :: mergeAfter leg rest

def merge : List (ι × K) → List (ι × K)
  | [] => []
  | leg :: rest => mergeAfter near cap leg rest

variable {near cap}

variable {last : ι × K} {rest : List (ι × K)}

theorem mergeAfter_eq (hlast : last.2 ≤ cap) (hrest : Shares cap rest) :
    mergeAfter near cap last rest =
      (last.1, min cap (last.2 + total (rest.takeWhile fun leg => near last.1 leg.1))) ::
        merge near cap (rest.dropWhile fun leg => near last.1 leg.1) := by
  induction rest generalizing last with
  | nil => simp [mergeAfter, merge, min_eq_right hlast]
  | cons leg rest ih =>
    by_cases h : near last.1 leg.1
    · have hrun := Shares.total_nonneg
        (hrest.tail.of_subset (List.takeWhile_sublist fun l => near last.1 l.1).subset)
      rw [mergeAfter, if_pos h, ih (min_le_left _ _) hrest.tail, List.takeWhile_cons, if_pos h,
        List.dropWhile_cons, if_pos h, total_cons, min_add_min cap _ hrun, add_assoc]
    · rw [mergeAfter, if_neg h, List.takeWhile_cons, if_neg h, List.dropWhile_cons, if_neg h,
        total_nil, add_zero, min_eq_right hlast]
      rfl

theorem merge_cons {leg : ι × K} (h : Shares cap (leg :: rest)) : merge near cap (leg :: rest) =
      (leg.1, min cap (leg.2 + total (rest.takeWhile fun l => near leg.1 l.1))) ::
        merge near cap (rest.dropWhile fun l => near leg.1 l.1) :=
  mergeAfter_eq (h leg List.mem_cons_self).2 h.tail

theorem mergeAfter_apart (hapart : ∀ leg ∈ rest, ∀ l, near l leg.1 = false) :
    mergeAfter near cap last rest = last :: rest := by
  induction rest generalizing last with
  | nil => rfl
  | cons leg rest ih =>
    have hfar : ¬ near last.1 leg.1 = true := by simp [hapart leg List.mem_cons_self last.1]
    rw [mergeAfter, if_neg hfar, ih fun l hl => hapart l (List.mem_cons_of_mem _ hl)]

theorem mergeAfter_append {legs rest : List (ι × K)}
    (hapart : ∀ leg ∈ rest, ∀ l, near l leg.1 = false) :
    mergeAfter near cap last (legs ++ rest) = mergeAfter near cap last legs ++ rest := by
  induction legs generalizing last with
  | nil => exact mergeAfter_apart hapart
  | cons leg legs ih =>
    rw [List.cons_append, mergeAfter, mergeAfter]
    split_ifs
    · exact ih
    · rw [ih]
      rfl

theorem merge_append {legs rest : List (ι × K)} (hapart : ∀ leg ∈ rest, ∀ l, near l leg.1 = false) :
    merge near cap (legs ++ rest) = merge near cap legs ++ rest := by
  cases legs with
  | nil =>
    cases rest with
    | nil => rfl
    | cons leg rest =>
      exact mergeAfter_apart fun l hl => hapart l (List.mem_cons_of_mem _ hl)
  | cons leg legs => exact mergeAfter_append hapart

variable {legs : List (ι × K)}

theorem shares_mergeAfter (hlast : 0 < last.2 ∧ last.2 ≤ cap)
    (h : Shares cap legs) : Shares cap (mergeAfter near cap last legs) := by
  induction legs generalizing last with
  | nil =>
    intro leg hleg
    rwa [List.mem_singleton.mp hleg]
  | cons leg legs ih =>
    have hleg := h leg List.mem_cons_self
    rw [mergeAfter]
    split_ifs
    · have hsum : 0 < min cap (last.2 + leg.2) :=
        lt_min (hlast.1.trans_le hlast.2) (add_pos hlast.1 hleg.1)
      exact ih ⟨hsum, min_le_left _ _⟩ h.tail
    · intro l hl
      rcases List.mem_cons.mp hl with rfl | hl
      · exact hlast
      · exact ih hleg h.tail l hl

theorem shares_merge (h : Shares cap legs) : Shares cap (merge near cap legs) := by
  cases legs with
  | nil => exact h
  | cons leg legs => exact shares_mergeAfter (h leg List.mem_cons_self) h.tail

theorem min_total_mergeAfter (hlast : 0 ≤ last.2) (h : Shares cap legs) :
    min cap (total (mergeAfter near cap last legs)) = min cap (last.2 + total legs) := by
  induction legs generalizing last with
  | nil => simp [mergeAfter]
  | cons leg legs ih =>
    have hleg := h leg List.mem_cons_self
    rw [mergeAfter, total_cons]
    split_ifs
    · rw [ih (le_min (hleg.1.le.trans hleg.2) (add_nonneg hlast hleg.1.le)) h.tail,
        min_add_min cap _ h.tail.total_nonneg, add_assoc]
    · rw [total_cons, add_comm last.2, ← min_add_min cap _ hlast, ih hleg.1.le h.tail,
        min_add_min cap _ hlast, add_comm last.2]

theorem min_total_merge (h : Shares cap legs) :
    min cap (total (merge near cap legs)) = min cap (total legs) := by
  cases legs with
  | nil => rfl
  | cons leg legs => exact min_total_mergeAfter (h leg List.mem_cons_self).1.le h.tail

variable {p : ι × K}

theorem mem_mergeAfter
    (hp : p ∈ mergeAfter near cap last legs) : p.1 = last.1 ∨ ∃ leg ∈ legs, leg.1 = p.1 := by
  induction legs generalizing last with
  | nil =>
    left
    rw [List.mem_singleton.mp hp]
  | cons leg legs ih =>
    rw [mergeAfter] at hp
    split_ifs at hp
    · rcases ih hp with hlast | ⟨l, hl, hsame⟩
      · exact Or.inl hlast
      · exact Or.inr ⟨l, List.mem_cons_of_mem _ hl, hsame⟩
    · rcases List.mem_cons.mp hp with rfl | hp
      · exact Or.inl rfl
      · rcases ih hp with hleg | ⟨l, hl, hsame⟩
        · exact Or.inr ⟨leg, List.mem_cons_self, hleg.symm⟩
        · exact Or.inr ⟨l, List.mem_cons_of_mem _ hl, hsame⟩

theorem mem_merge (hp : p ∈ merge near cap legs) : ∃ leg ∈ legs, leg.1 = p.1 := by
  cases legs with
  | nil => cases hp
  | cons leg legs =>
    rcases mem_mergeAfter hp with hleg | ⟨l, hl, hsame⟩
    · exact ⟨leg, List.mem_cons_self, hleg.symm⟩
    · exact ⟨l, List.mem_cons_of_mem _ hl, hsame⟩

end Merge

section Sorted

variable {near : ι → ι → Bool} {cap : K} {key : ι → κ}

/-- Levels in order, where near is a matter of the distance between the keys. -/
structure Sorted (near : ι → ι → Bool) (key : ι → κ) (legs : List (ι × K)) : Prop where
  ordered : legs.Pairwise fun a b => key a.1 ≤ key b.1
  same : ∀ a ∈ legs, ∀ b ∈ legs, key a.1 = key b.1 → near a.1 b.1 = true
  convex : ∀ a ∈ legs, ∀ b ∈ legs, ∀ c ∈ legs, key a.1 ≤ key b.1 → key b.1 ≤ key c.1 →
    near a.1 c.1 = true → near a.1 b.1 = true

theorem Sorted.sublist {legs rest : List (ι × K)} (h : Sorted near key legs)
    (hsub : rest.Sublist legs) : Sorted near key rest where
  ordered := h.ordered.sublist hsub
  same a ha b hb := h.same a (hsub.subset ha) b (hsub.subset hb)
  convex a ha b hb c hc := h.convex a (hsub.subset ha) b (hsub.subset hb) c (hsub.subset hc)

theorem Sorted.split {leg : ι × K} {rest : List (ι × K)} (h : Sorted near key (leg :: rest)) :
    (∀ d ∈ rest.dropWhile fun l => near leg.1 l.1, near leg.1 d.1 = false ∧ key leg.1 < key d.1) ∧
      ∀ t ∈ rest.takeWhile fun l => near leg.1 l.1,
        ∀ d ∈ rest.dropWhile fun l => near leg.1 l.1, key t.1 < key d.1 := by
  have hsplit := List.takeWhile_append_dropWhile (p := fun l : ι × K => near leg.1 l.1) (l := rest)
  obtain ⟨hfirst, hordered⟩ := List.pairwise_cons.mp h.ordered
  have hmem : ∀ d ∈ rest.dropWhile fun l => near leg.1 l.1, d ∈ rest := fun d hd =>
    (List.dropWhile_sublist _).subset hd
  have hfar : ∀ d ∈ rest.dropWhile fun l => near leg.1 l.1, near leg.1 d.1 = false := by
    intro d hd
    cases hdrop : rest.dropWhile fun l => near leg.1 l.1 with
    | nil =>
      rw [hdrop] at hd
      cases hd
    | cons e others =>
      have he : near leg.1 e.1 = false := by
        have := List.head_dropWhile_not (fun l : ι × K => near leg.1 l.1) (l := rest)
          (by simp [hdrop])
        simpa [hdrop] using this
      have hein : e ∈ rest := hmem e (by simp [hdrop])
      by_contra hnear
      rw [Bool.not_eq_false] at hnear
      have hle : key e.1 ≤ key d.1 := by
        rw [hdrop] at hd
        rcases List.mem_cons.mp hd with rfl | hd
        · exact le_refl _
        · have hsorted : (e :: others).Pairwise fun a b => key a.1 ≤ key b.1 := by
            rw [← hdrop]
            exact hordered.sublist (List.dropWhile_sublist _)
          exact (List.pairwise_cons.mp hsorted).1 d hd
      have hnear' := h.convex leg List.mem_cons_self e (List.mem_cons_of_mem _ hein) d
        (List.mem_cons_of_mem _ (hmem d hd)) (hfirst e hein) hle hnear
      rw [he] at hnear'
      cases hnear'
  constructor
  · intro d hd
    refine ⟨hfar d hd, lt_of_le_of_ne (hfirst d (hmem d hd)) ?_⟩
    intro heq
    have hsame := h.same leg List.mem_cons_self d (List.mem_cons_of_mem _ (hmem d hd)) heq
    rw [hfar d hd] at hsame
    cases hsame
  · intro t ht d hd
    rw [← hsplit] at hordered
    apply lt_of_le_of_ne ((List.pairwise_append.mp hordered).2.2 t ht d hd)
    intro heq
    have htin : t ∈ rest := (List.takeWhile_sublist _).subset ht
    have htake : near leg.1 t.1 = true :=
      List.mem_takeWhile_imp (p := fun l : ι × K => near leg.1 l.1) ht
    have hnear := h.convex leg List.mem_cons_self d (List.mem_cons_of_mem _ (hmem d hd)) t
      (List.mem_cons_of_mem _ htin) (hfirst d (hmem d hd)) heq.ge htake
    rw [hfar d hd] at hnear
    cases hnear

def standing (near : ι → ι → Bool) (key : ι → κ) (p : ι) (legs : List (ι × K)) : K :=
  total (legs.filter fun leg => key p ≤ key leg.1 && near p leg.1)

theorem standing_perm {p : ι} {legs rest : List (ι × K)} (h : legs.Perm rest) :
    standing near key p legs = standing near key p rest := total_perm (h.filter _)

theorem Sorted.merge_spec {legs : List (ι × K)} (h : Sorted near key legs)
    (hshares : Shares cap legs) :
    (merge near cap legs).Pairwise (fun a b => key a.1 < key b.1) ∧
      ∀ leg ∈ merge near cap legs, leg.2 = min cap (standing near key leg.1 legs) := by
  induction hn : legs.length using Nat.strong_induction_on generalizing legs with
  | _ n ih =>
    cases legs with
    | nil => exact ⟨List.Pairwise.nil, fun leg hleg => by cases hleg⟩
    | cons leg rest =>
      obtain ⟨hbeyond, hbefore⟩ := h.split
      have hdrop : (rest.dropWhile fun l => near leg.1 l.1).Sublist (leg :: rest) :=
        (List.dropWhile_sublist _).trans (List.sublist_cons_self _ _)
      have hlength : (rest.dropWhile fun l => near leg.1 l.1).length < n := by
        have := (List.dropWhile_sublist (fun l : ι × K => near leg.1 l.1) (l := rest)).length_le
        rw [List.length_cons] at hn
        omega
      obtain ⟨hpairs, hamounts⟩ := ih _ hlength (h.sublist hdrop)
        (hshares.of_subset hdrop.subset) rfl
      rw [merge_cons hshares]
      constructor
      · rw [List.pairwise_cons]
        refine ⟨fun p hp => ?_, hpairs⟩
        obtain ⟨d, hd, hsame⟩ := mem_merge hp
        rw [← hsame]
        exact (hbeyond d hd).2
      · intro p hp
        have hsplit := List.takeWhile_append_dropWhile (p := fun l : ι × K => near leg.1 l.1)
          (l := rest)
        rcases List.mem_cons.mp hp with rfl | hp
        · have hself : near leg.1 leg.1 = true :=
            h.same leg List.mem_cons_self leg List.mem_cons_self rfl
          have hnearest := (List.pairwise_cons.mp h.ordered).1
          have htake : (rest.takeWhile fun l => near leg.1 l.1).filter
              (fun l => key leg.1 ≤ key l.1 && near leg.1 l.1) =
              rest.takeWhile fun l => near leg.1 l.1 := by
            apply List.filter_eq_self.mpr
            intro t ht
            have htin : t ∈ rest := (List.takeWhile_sublist _).subset ht
            have hnear : near leg.1 t.1 = true :=
              List.mem_takeWhile_imp (p := fun l : ι × K => near leg.1 l.1) ht
            simp [hnearest t htin, hnear]
          have hleave : (rest.dropWhile fun l => near leg.1 l.1).filter
              (fun l => key leg.1 ≤ key l.1 && near leg.1 l.1) = [] := by
            apply List.filter_eq_nil_iff.mpr
            intro d hd
            simp [(hbeyond d hd).1]
          unfold standing
          rw [List.filter_cons_of_pos (by simp [hself]), total_cons]
          conv_rhs => rw [← hsplit]
          rw [List.filter_append, htake, hleave, List.append_nil]
        · rw [hamounts p hp]
          obtain ⟨d, hd, hsame⟩ := mem_merge hp
          have hnone : (rest.takeWhile fun l => near leg.1 l.1).filter
              (fun l => key p.1 ≤ key l.1 && near p.1 l.1) = [] := by
            apply List.filter_eq_nil_iff.mpr
            intro t ht
            have hlt := hbefore t ht d hd
            rw [hsame] at hlt
            simp [hlt]
          have hlt := (hbeyond d hd).2
          rw [hsame] at hlt
          unfold standing
          rw [List.filter_cons_of_neg (by simp [hlt])]
          conv_rhs => rw [← hsplit]
          rw [List.filter_append, hnone, List.nil_append]

end Sorted

section Trim

variable {cap : K}

def trim (cap running : K) : List (ι × K) → List (ι × K)
  | [] => []
  | leg :: rest =>
    let take := min leg.2 (max 0 (cap - running))
    (leg.1, take) :: trim cap (running + take) rest

variable {running : K}

theorem trim_cons (hrun : running ≤ cap) (leg : ι × K) (rest : List (ι × K)) :
    trim cap running (leg :: rest) = (leg.1, min leg.2 (cap - running)) ::
        trim cap (running + min leg.2 (cap - running)) rest := by
  rw [trim, max_eq_right (by linarith)]

theorem running_le {running x : K} : running + min x (cap - running) ≤ cap := by
  have := min_le_right x (cap - running)
  linarith

theorem map_fst_trim (running : K) (legs : List (ι × K)) :
    (trim cap running legs).map Prod.fst = legs.map Prod.fst := by
  induction legs generalizing running with
  | nil => rfl
  | cons leg rest ih => rw [trim, List.map_cons, List.map_cons, ih]

variable {legs : List (ι × K)}

theorem add_total_trim (hrun : running ≤ cap)
    (h : Shares cap legs) : running + total (trim cap running legs) =
      min cap (running + total legs) := by
  induction legs generalizing running with
  | nil => simp [trim, hrun]
  | cons leg rest ih =>
    rw [trim_cons hrun, total_cons, total_cons, ← add_assoc, ih running_le h.tail, ← add_assoc]
    rcases le_total leg.2 (cap - running) with hfit | hfull
    · rw [min_eq_left hfit]
    · have := h.tail.total_nonneg
      rw [min_eq_right hfull, min_eq_left (by linarith), min_eq_left (by linarith)]

theorem trim_append (legs rest : List (ι × K)) : trim cap running (legs ++ rest) =
      trim cap running legs ++ trim cap (running + total (trim cap running legs)) rest := by
  induction legs generalizing running with
  | nil => simp [trim]
  | cons leg legs ih =>
    rw [List.cons_append, trim, trim, ih, total_cons, add_assoc]
    rfl

theorem trim_nonneg (h : Shares cap legs) : ∀ leg ∈ trim cap running legs, 0 ≤ leg.2 := by
  induction legs generalizing running with
  | nil => exact fun leg hleg => by cases hleg
  | cons leg rest ih =>
    intro l hl
    rcases List.mem_cons.mp hl with rfl | hl
    · exact le_min (h leg List.mem_cons_self).1.le (le_max_left _ _)
    · exact ih h.tail l hl

theorem trim_full (h : Shares cap legs) : ∀ leg ∈ trim cap cap legs, leg.2 = 0 := by
  induction legs with
  | nil => exact fun leg hleg => by cases hleg
  | cons leg rest ih =>
    have hnone : min leg.2 (cap - cap) = 0 := by
      rw [sub_self, min_eq_right (h leg List.mem_cons_self).1.le]
    rw [trim_cons (le_refl cap), hnone, add_zero]
    intro l hl
    rcases List.mem_cons.mp hl with rfl | hl
    · rfl
    · exact ih h.tail l hl

variable {p : ι × K}

theorem trim_split {legs before rest : List (ι × K)} (hrun : running ≤ cap)
    (h : trim cap running legs = before ++ p :: rest) :
    ∃ leg ∈ legs, leg.1 = p.1 ∧ p.2 = min leg.2 (cap - (running + total before)) := by
  induction legs generalizing running before with
  | nil => simp [trim] at h
  | cons leg legs ih =>
    rw [trim_cons hrun] at h
    cases before with
    | nil =>
      obtain ⟨rfl, -⟩ := List.cons.inj h
      exact ⟨leg, List.mem_cons_self, rfl, by simp⟩
    | cons first before =>
      obtain ⟨rfl, hrest⟩ := List.cons.inj h
      obtain ⟨l, hl, hsame, hamount⟩ := ih running_le hrest
      refine ⟨l, List.mem_cons_of_mem _ hl, hsame, ?_⟩
      rw [hamount, total_cons, add_assoc]

def kept (legs : List (ι × K)) : List (ι × K) := legs.filter fun leg => 0 < leg.2

theorem total_kept (h : ∀ leg ∈ legs, 0 ≤ leg.2) : total (kept legs) = total legs := by
  induction legs with
  | nil => rfl
  | cons leg rest ih =>
    have hrest := ih fun l hl => h l (List.mem_cons_of_mem _ hl)
    unfold kept at hrest ⊢
    by_cases hpos : 0 < leg.2
    · rw [List.filter_cons_of_pos (by simpa using hpos), total_cons, total_cons, hrest]
    · have hzero : leg.2 = 0 := le_antisymm (not_lt.mp hpos) (h leg List.mem_cons_self)
      rw [List.filter_cons_of_neg (by simpa using hpos), total_cons, hrest, hzero, zero_add]

theorem kept_split {legs before rest : List (ι × K)} (hnonneg : ∀ leg ∈ legs, 0 ≤ leg.2)
    (h : kept legs = before ++ p :: rest) :
    ∃ before' rest', legs = before' ++ p :: rest' ∧ total before' = total before := by
  obtain ⟨front, back, rfl, hfront, hback⟩ := List.filter_eq_append_iff.mp h
  obtain ⟨skipped, rest', rfl, hskipped, -, -⟩ := List.filter_eq_cons_iff.mp hback
  refine ⟨front ++ skipped, rest', by simp, ?_⟩
  have hzero : total skipped = 0 := by
    rw [← total_kept fun l hl => hnonneg l (by simp [hl])]
    unfold kept
    rw [List.filter_eq_nil_iff.mpr hskipped]
    rfl
  rw [total_append, hzero, add_zero, ← hfront]
  exact (total_kept fun l hl => hnonneg l (by simp [hl])).symm

end Trim

def settled (near : ι → ι → Bool) (cap : K) (legs : List (ι × K)) : List (ι × K) :=
  kept (trim cap 0 (merge near cap legs))

section Settled

variable {near : ι → ι → Bool} {cap : K} {key : ι → κ} {legs : List (ι × K)}

theorem total_settled (hcap : 0 ≤ cap) (h : Shares cap legs) :
    total (settled near cap legs) = min cap (total legs) := by
  have hmerge : Shares cap (merge near cap legs) := shares_merge h
  have htrim := add_total_trim hcap hmerge
  rw [zero_add, zero_add, min_total_merge h] at htrim
  rw [settled, total_kept (trim_nonneg hmerge), htrim]

variable {p : ι × K}

theorem mem_settled (hp : p ∈ settled near cap legs) : 0 < p.2 ∧ ∃ leg ∈ legs, leg.1 = p.1 := by
  obtain ⟨hin, hpos⟩ := List.mem_filter.mp hp
  refine ⟨of_decide_eq_true hpos, ?_⟩
  have hlevel : p.1 ∈ (trim cap 0 (merge near cap legs)).map Prod.fst := List.mem_map_of_mem hin
  rw [map_fst_trim] at hlevel
  obtain ⟨level, hlevel, hsame⟩ := List.mem_map.mp hlevel
  obtain ⟨leg, hleg, heq⟩ := mem_merge hlevel
  exact ⟨leg, hleg, heq.trans hsame⟩

theorem Sorted.pairwise_settled (h : Sorted near key legs) (hshares : Shares cap legs) :
    ((settled near cap legs).map Prod.fst).Pairwise fun p q => key p < key q := by
  have hsub : ((settled near cap legs).map Prod.fst).Sublist
      ((merge near cap legs).map Prod.fst) := by
    rw [← map_fst_trim 0 (merge near cap legs)]
    exact List.filter_sublist.map Prod.fst
  apply List.Pairwise.sublist hsub
  rw [List.pairwise_map]
  exact (h.merge_spec hshares).1

theorem Sorted.settled_split (h : Sorted near key legs) (hcap : 0 ≤ cap) (hshares : Shares cap legs)
    {before rest : List (ι × K)}
    (hsplit : settled near cap legs = before ++ p :: rest) :
    p.2 = min (standing near key p.1 legs) (cap - total before) := by
  have hmerge : Shares cap (merge near cap legs) := shares_merge hshares
  obtain ⟨before', rest', hsplit', htotal⟩ := kept_split (trim_nonneg hmerge) hsplit
  obtain ⟨level, hlevel, hsame, hamount⟩ := trim_split hcap hsplit'
  have hbefore : 0 ≤ total before := by
    rw [← htotal]
    apply List.sum_nonneg
    intro a ha
    obtain ⟨leg, hleg, rfl⟩ := List.mem_map.mp ha
    have hin : leg ∈ trim cap 0 (merge near cap legs) := by
      rw [hsplit']
      exact List.mem_append_left _ hleg
    exact trim_nonneg hmerge leg hin
  rw [hamount, (h.merge_spec hshares).2 level hlevel, hsame, zero_add, htotal, min_comm cap,
    min_assoc, min_eq_right (by linarith : cap - total before ≤ cap)]

theorem settled_append_full {rest : List (ι × K)} (hcap : 0 ≤ cap) (h : Shares cap (legs ++ rest))
    (hapart : ∀ leg ∈ rest, ∀ l, near l leg.1 = false) (hfull : cap ≤ total legs) :
    settled near cap (legs ++ rest) = settled near cap legs := by
  have hlegs := h.of_subset (List.subset_append_left legs rest)
  have hrest := h.of_subset (List.subset_append_right legs rest)
  have hmerge : Shares cap (merge near cap legs) := shares_merge hlegs
  have htrim := add_total_trim hcap hmerge
  rw [zero_add, zero_add, min_total_merge hlegs, min_eq_left hfull] at htrim
  rw [settled, merge_append hapart, trim_append, zero_add, htrim, kept, List.filter_append]
  have hnone : (trim cap cap rest).filter (fun leg => 0 < leg.2) = [] := by
    apply List.filter_eq_nil_iff.mpr
    intro leg hleg
    simp [trim_full hrest leg hleg]
  rw [hnone, List.append_nil]
  rfl

end Settled

end Ladder
