import Fiboki.Validation.SweepGrid
import Mathlib.Algebra.Order.BigOperators.Group.List
import Mathlib.Data.List.Dedup

/-!
Thinning keeps the order and the ends of an axis, and the cap ends with few enough points or two
values an axis.
-/

namespace Fiboki

open Floating (Number)
open ParamValue (key isIn indexIn distinct)
open Subsample

def placeOf (n keep i : ℕ) : ℕ :=
  (Text.roundHalfEven ((i : ℚ) * ((n : ℚ) - 1) / ((keep : ℚ) - 1))).toNat

theorem placeOf_zero (n keep : ℕ) : placeOf n keep 0 = 0 := by
  unfold placeOf
  rw [Nat.cast_zero, zero_mul, zero_div, ← Int.cast_zero, Text.roundHalfEven_intCast]
  rfl

theorem placeOf_last {n keep : ℕ} (hkeep : 2 ≤ keep) (hn : 1 ≤ n) :
    placeOf n keep (keep - 1) = n - 1 := by
  have hne : ((keep : ℚ) - 1) ≠ 0 := by
    have hlt : (2 : ℚ) ≤ keep := by exact_mod_cast hkeep
    linarith
  unfold placeOf
  rw [Nat.cast_sub (by omega), Nat.cast_one, mul_div_assoc, mul_div_cancel₀ _ hne]
  have hcast : (n : ℚ) - 1 = ((n - 1 : ℕ) : ℤ) := by
    push_cast [Nat.cast_sub hn]
    ring
  rw [hcast, Text.roundHalfEven_intCast]
  rfl

theorem placeOf_lt {n keep i j : ℕ} (hkeep : 2 ≤ keep) (hn : keep < n) (hij : i < j) :
    placeOf n keep i < placeOf n keep j := by
  have hpos : (0 : ℚ) < (keep : ℚ) - 1 := by
    have hlt : (2 : ℚ) ≤ keep := by exact_mod_cast hkeep
    linarith
  have hstep : (1 : ℚ) < ((n : ℚ) - 1) / ((keep : ℚ) - 1) := by
    rw [lt_div_iff₀ hpos]
    have hlt : (keep : ℚ) < n := by exact_mod_cast hn
    linarith
  have hnonneg : (0 : ℤ) ≤ Text.roundHalfEven ((i : ℚ) * ((n : ℚ) - 1) / ((keep : ℚ) - 1)) := by
    apply Text.roundHalfEven_nonneg
    rw [mul_div_assoc]
    exact mul_nonneg (Nat.cast_nonneg i) (by linarith)
  have hround : Text.roundHalfEven ((i : ℚ) * ((n : ℚ) - 1) / ((keep : ℚ) - 1)) <
      Text.roundHalfEven ((j : ℚ) * ((n : ℚ) - 1) / ((keep : ℚ) - 1)) := by
    apply Text.roundHalfEven_lt
    rw [mul_div_assoc, mul_div_assoc]
    have hij : (i : ℚ) + 1 ≤ j := by exact_mod_cast hij
    nlinarith
  unfold placeOf
  omega

theorem spread_eq {n keep : ℕ} (hkeep : 2 ≤ keep) (hn : keep < n) :
    spread n keep = (List.range keep).map (placeOf n keep) := by
  have hlt : ((List.range keep).map (placeOf n keep)).Pairwise (· < ·) := by
    rw [List.pairwise_map]
    exact List.pairwise_lt_range.imp fun hij => placeOf_lt hkeep hn hij
  have hnodup : ((List.range keep).map (placeOf n keep)).Nodup := hlt.imp fun h => h.ne
  unfold spread
  change ((List.range keep).map (placeOf n keep)).dedup.insertionSort (· ≤ ·) = _
  rw [List.dedup_eq_self.2 hnodup]
  exact (hlt.imp fun h => h.le).insertionSort_eq

variable {values : List ParamValue}

theorem pick_spread {keep : ℕ} (hkeep : 2 ≤ keep) (hn : keep < values.length) :
    (pick values (spread values.length keep)).Sublist values ∧
      (pick values (spread values.length keep)).length = keep ∧
      (∀ v, values.head? = some v → v ∈ pick values (spread values.length keep)) ∧
      ∀ v, values.getLast? = some v → v ∈ pick values (spread values.length keep) := by
  rw [spread_eq hkeep hn]
  have hlt : ((List.range keep).map (placeOf values.length keep)).Pairwise (· < ·) := by
    rw [List.pairwise_map]
    exact List.pairwise_lt_range.imp fun hij => placeOf_lt hkeep hn hij
  have hlast := placeOf_last (n := values.length) hkeep (by omega)
  refine ⟨pick_sublist hlt, ?_, ?_, ?_⟩
  · rw [length_pick, List.length_map, List.length_range]
    intro i hi
    obtain ⟨j, hj, rfl⟩ := List.mem_map.1 hi
    have hj : j < keep := List.mem_range.1 hj
    rcases Nat.lt_or_ge j (keep - 1) with hbefore | hend
    · have hltj := placeOf_lt hkeep hn hbefore
      omega
    · obtain rfl : j = keep - 1 := by omega
      omega
  · intro v hv
    refine mem_pick.2 ⟨0, List.mem_map.2 ⟨0, List.mem_range.2 (by omega), placeOf_zero _ _⟩, ?_⟩
    rw [List.head?_eq_getElem?] at hv
    exact hv
  · intro v hv
    refine mem_pick.2 ⟨values.length - 1,
      List.mem_map.2 ⟨keep - 1, List.mem_range.2 (by omega), hlast⟩, ?_⟩
    rw [List.getLast?_eq_getElem?] at hv
    exact hv

variable {v : ParamValue}

theorem isIn_iff : v.isIn values = true ↔ v.key ∈ values.map key := by
  unfold ParamValue.isIn
  rw [List.any_eq_true, List.mem_map]
  simp only [decide_eq_true_eq]

theorem getElem?_indexIn (h : v.key ∈ values.map key) :
    (values.map key)[indexIn values v]? = some v.key := by
  obtain ⟨u, hu, hkey⟩ := List.mem_map.1 h
  have hlt : indexIn values v < values.length :=
    List.findIdx_lt_length_of_exists ⟨u, hu, decide_eq_true hkey⟩
  have hfound := List.findIdx_getElem (w := hlt)
  rw [List.getElem?_map, List.getElem?_eq_getElem hlt, Option.map_some]
  exact congrArg some (of_decide_eq_true hfound)

theorem mem_of_mem_distinct (h : v ∈ distinct values) : v ∈ values := by
  induction values with
  | nil => exact h
  | cons u values ih =>
    rcases List.mem_cons.1 h with rfl | h
    · exact List.mem_cons_self
    · exact List.mem_cons_of_mem _ (ih (List.mem_filter.1 h).1)

theorem nodup_distinct (values : List ParamValue) : ((distinct values).map key).Nodup := by
  induction values with
  | nil => exact List.nodup_nil
  | cons u values ih =>
    unfold ParamValue.distinct
    rw [List.map_cons, List.nodup_cons]
    constructor
    · intro h
      obtain ⟨v, hv, hkey⟩ := List.mem_map.1 h
      have hne := (List.mem_filter.1 hv).2
      simp [hkey] at hne
    · exact ih.sublist (List.filter_sublist.map key)

theorem distinct_eq_self (h : (values.map key).Nodup) : distinct values = values := by
  induction values with
  | nil => rfl
  | cons u values ih =>
    rw [List.map_cons, List.nodup_cons] at h
    unfold ParamValue.distinct
    rw [ih h.2, List.filter_eq_self.2]
    intro v hv
    apply decide_eq_true
    intro hkey
    exact h.1 (List.mem_map.2 ⟨v, hv, hkey⟩)

theorem sorted_sublist {values part : List ParamValue} (hnodup : (part.map key).Nodup)
    (hmem : ∀ v ∈ part, v.key ∈ values.map key) :
    ((part.insertionSort fun a b => indexIn values a ≤ indexIn values b).map key).Sublist
      (values.map key) := by
  have hperm := List.perm_insertionSort (fun a b => indexIn values a ≤ indexIn values b) part
  generalize hsorted : part.insertionSort (fun a b => indexIn values a ≤ indexIn values b) = sorted
    at hperm
  have hle : sorted.Pairwise fun a b => indexIn values a ≤ indexIn values b := by
    rw [← hsorted]
    have htotal : Std.Total fun a b => indexIn values a ≤ indexIn values b :=
      ⟨fun a b => le_total _ _⟩
    have htrans : IsTrans ParamValue fun a b => indexIn values a ≤ indexIn values b :=
      ⟨fun a b c => le_trans⟩
    exact List.pairwise_insertionSort _ part
  have hne : sorted.Pairwise fun a b => a.key ≠ b.key := by
    have hkeys : (sorted.map key).Nodup := (hperm.map key).nodup_iff.2 hnodup
    exact List.pairwise_map.1 hkeys
  have hfound : ∀ v ∈ sorted, (values.map key)[indexIn values v]? = some v.key :=
    fun v hv => getElem?_indexIn (hmem v (hperm.mem_iff.1 hv))
  have hlt : (sorted.map (indexIn values)).Pairwise (· < ·) := by
    rw [List.pairwise_map]
    apply (hle.and hne).imp_of_mem
    intro a b ha hb hab
    apply lt_of_le_of_ne hab.1
    intro heq
    have hsome := hfound a ha
    rw [heq, hfound b hb, Option.some.injEq] at hsome
    exact hab.2 hsome.symm
  have hpick : pick (values.map key) (sorted.map (indexIn values)) = sorted.map key := by
    have hall : sorted.filterMap (fun v => (values.map key)[indexIn values v]?) =
        sorted.filterMap fun v => some v.key := List.filterMap_congr hfound
    unfold pick
    rw [List.filterMap_map]
    exact hall.trans (congrFun List.filterMap_eq_map sorted)
  rw [← hpick]
  exact pick_sublist hlt

/-- Enumerated values in their order, the default standing for an equal one. -/
structure IsPart (values part : List ParamValue) (default : ParamValue) : Prop where
  sub : (part.map key).Sublist (values.map key)
  source : ∀ v ∈ part, v ∈ values ∨ v = default

structure SameEnds (values part : List ParamValue) : Prop where
  first : (part.map key).head? = (values.map key).head?
  last : (part.map key).getLast? = (values.map key).getLast?

variable {default : ParamValue}

theorem IsPart.of_sublist {values part : List ParamValue}
    (h : part.Sublist values) : IsPart values part default :=
  ⟨h.map key, fun _ hv => .inl (h.subset hv)⟩

theorem SameEnds.refl (values : List ParamValue) : SameEnds values values := ⟨rfl, rfl⟩

theorem SameEnds.trans {values part part' : List ParamValue} (h : SameEnds values part)
    (h' : SameEnds part part') : SameEnds values part' :=
  ⟨h'.first.trans h.first, h'.last.trans h.last⟩

theorem sameEnds_of_mem {values part : List ParamValue}
    (hsub : (part.map key).Sublist (values.map key)) (hnodup : (values.map key).Nodup)
    (hne : values ≠ []) (hfirst : ∀ v, values.head? = some v → v ∈ part)
    (hlast : ∀ v, values.getLast? = some v → v ∈ part) : SameEnds values part where
  first := by
    have hv := List.head?_eq_some_head hne
    have hkey : (values.map key).head? = some (values.head hne).key := by
      rw [List.head?_map, hv]
      rfl
    rw [hkey]
    exact head?_of_sublist hsub hnodup hkey (List.mem_map_of_mem (hfirst _ hv))
  last := by
    have hv := List.getLast?_eq_some_getLast hne
    have hkey : (values.map key).getLast? = some (values.getLast hne).key := by
      rw [List.getLast?_map, hv]
      rfl
    rw [hkey]
    exact getLast?_of_sublist hsub hnodup hkey (List.mem_map_of_mem (hlast _ hv))

section Replaced

variable {values chosen : List ParamValue} {default : ParamValue} {place : ℕ}

def replaced (values chosen : List ParamValue) (default : ParamValue) (place : ℕ) :
    List ParamValue :=
  (distinct (chosen.set place default)).insertionSort fun a b => indexIn values a ≤ indexIn values b

theorem mem_replaced {v : ParamValue} :
    v ∈ replaced values chosen default place ↔ v ∈ distinct (chosen.set place default) :=
  List.mem_insertionSort _

theorem isPart_replaced (hchosen : chosen.Sublist values) (hdefault : default.isIn values = true) :
    IsPart values (replaced values chosen default place) default where
  sub := by
    apply sorted_sublist (nodup_distinct _)
    intro v hv
    rcases List.mem_or_eq_of_mem_set (mem_of_mem_distinct hv) with hold | rfl
    · exact List.mem_map_of_mem (hchosen.subset hold)
    · exact isIn_iff.1 hdefault
  source v hv := by
    rcases List.mem_or_eq_of_mem_set (mem_of_mem_distinct (mem_replaced.1 hv)) with hold | rfl
    · exact .inl (hchosen.subset hold)
    · exact .inr rfl

theorem sameEnds_replaced (hchosen : chosen.Sublist values) (hnodup : (values.map key).Nodup)
    (hdefault : default.isIn values = true) (hnew : default.isIn chosen = false)
    (hfirst : chosen.head? = values.head?) (hlast : chosen.getLast? = values.getLast?)
    (hplace : 0 < place) (hinside : place + 1 < chosen.length) :
    SameEnds values (replaced values chosen default place) := by
  have hkeys : ((chosen.set place default).map key).Nodup := by
    rw [List.map_set]
    apply (hnodup.sublist (hchosen.map key)).set
    intro hmem
    rw [isIn_iff.2 hmem] at hnew
    cases hnew
  have hmem : ∀ v, v ∈ chosen.set place default → v ∈ replaced values chosen default place := by
    intro v hv
    rw [mem_replaced, distinct_eq_self hkeys]
    exact hv
  have hne : values ≠ [] := by
    rintro rfl
    rw [List.sublist_nil.1 hchosen] at hinside
    simp at hinside
  refine sameEnds_of_mem (isPart_replaced hchosen hdefault).sub hnodup hne ?_ ?_
  · intro v hv
    rw [← hfirst, List.head?_eq_getElem?] at hv
    apply hmem
    apply List.mem_of_getElem? (i := 0)
    rw [List.getElem?_set_ne (by omega)]
    exact hv
  · intro v hv
    rw [← hlast, List.getLast?_eq_getElem?] at hv
    apply hmem
    apply List.mem_of_getElem? (i := chosen.length - 1)
    rw [List.getElem?_set_ne (by omega)]
    exact hv

end Replaced

structure ThinSpec (values : List ParamValue) (keep : ℤ) (default : ParamValue)
    (part : List ParamValue) : Prop where
  isPart : IsPart values part default
  nonempty : values ≠ [] → part ≠ []
  ends : 2 ≤ keep → (values.map key).Nodup → SameEnds values part
  single : keep < 2 → values ≠ [] →
    ∃ v, part = [v] ∧ (default.isIn values = true → v.key = default.key)

variable {keep : ℤ}

theorem ThinSpec.whole
    (h : values.length ≤ (max 1 keep).toNat) : ThinSpec values keep default values where
  isPart := .of_sublist (List.Sublist.refl values)
  nonempty hne := hne
  ends _ _ := .refl values
  single hkeep hne := by
    have hlength : values.length = 1 := by
      have hpos := List.length_pos_of_ne_nil hne
      omega
    obtain ⟨v, rfl⟩ := List.length_eq_one_iff.1 hlength
    refine ⟨v, rfl, ?_⟩
    intro hdefault
    have hkey := isIn_iff.1 hdefault
    rw [List.map_singleton, List.mem_singleton] at hkey
    exact hkey.symm

theorem ThinSpec.ofDefault (h : (max 1 keep).toNat = 1) (hdefault : default.isIn values = true) :
    ThinSpec values keep default [default] where
  isPart := by
    refine ⟨?_, fun v hv => .inr (List.mem_singleton.1 hv)⟩
    rw [List.map_singleton, List.singleton_sublist]
    exact isIn_iff.1 hdefault
  nonempty _ := List.cons_ne_nil _ _
  ends hkeep := by omega
  single _ _ := ⟨default, rfl, fun _ => rfl⟩

theorem ThinSpec.middle (h : (max 1 keep).toNat = 1) (hlength : 1 < values.length)
    (hdefault : default.isIn values = false) :
    ThinSpec values keep default values[values.length / 2]?.toList := by
  have hlt : values.length / 2 < values.length := by omega
  rw [List.getElem?_eq_getElem hlt, Option.toList_some]
  constructor
  · exact .of_sublist (List.singleton_sublist.2 (List.getElem_mem hlt))
  · exact fun _ => List.cons_ne_nil _ _
  · intro hkeep
    omega
  · intro _ _
    refine ⟨_, rfl, ?_⟩
    intro hin
    rw [hin] at hdefault
    cases hdefault

section Chosen

variable {values : List ParamValue} {keep : ℤ} {default : ParamValue}
  (hkeep : 2 ≤ (max 1 keep).toNat) (hlength : (max 1 keep).toNat < values.length)
include hkeep hlength

theorem ThinSpec.chosen :
    ThinSpec values keep default (pick values (spread values.length (max 1 keep).toNat)) := by
  obtain ⟨hsub, hcount, hfirst, hlast⟩ := pick_spread hkeep hlength
  have hne : values ≠ [] := List.ne_nil_of_length_pos (by omega)
  refine ⟨.of_sublist hsub, fun _ => List.ne_nil_of_length_pos (by omega), ?_, by omega⟩
  intro _ hnodup
  exact sameEnds_of_mem (hsub.map key) hnodup hne hfirst hlast

theorem ThinSpec.replaced (hdefault : default.isIn values = true)
    (hnew : default.isIn (pick values (spread values.length (max 1 keep).toNat)) = false)
    (hinterior : 2 < (pick values (spread values.length (max 1 keep).toNat)).length) :
    ThinSpec values keep default
      (Fiboki.replaced values (pick values (spread values.length (max 1 keep).toNat)) default
        (1 + ((pick values (spread values.length (max 1 keep).toNat)).length - 2) / 2)) := by
  obtain ⟨hsub, -, hfirst, hlast⟩ := pick_spread hkeep hlength
  generalize pick values (spread values.length (max 1 keep).toNat) = chosen at *
  refine ⟨isPart_replaced hsub hdefault, ?_, ?_, by omega⟩
  · intro _ hnil
    have hcount : (Fiboki.replaced values chosen default (1 + (chosen.length - 2) / 2)).length =
        0 := by rw [hnil, List.length_nil]
    unfold Fiboki.replaced at hcount
    rw [List.length_insertionSort, List.length_eq_zero_iff] at hcount
    cases hset : chosen.set (1 + (chosen.length - 2) / 2) default with
    | nil =>
      have hzero := congrArg List.length hset
      rw [List.length_set, List.length_nil] at hzero
      omega
    | cons a l =>
      rw [hset] at hcount
      cases hcount
  · intro _ hnodup
    have hvalues : values.Nodup := List.Nodup.of_map key hnodup
    have hne : values ≠ [] := List.ne_nil_of_length_pos (by omega)
    have hhead := List.head?_eq_some_head hne
    have hend := List.getLast?_eq_some_getLast hne
    apply sameEnds_replaced hsub hnodup hdefault hnew
    · rw [hhead]
      exact head?_of_sublist hsub hvalues hhead (hfirst _ hhead)
    · rw [hend]
      exact getLast?_of_sublist hsub hvalues hend (hlast _ hend)
    · omega
    · omega

end Chosen

theorem thin_spec {values part : List ParamValue}
    (h : thin values keep default = .ok part) : ThinSpec values keep default part := by
  unfold thin at h
  dsimp only at h
  split at h
  · rename_i hlength
    cases h
    exact .whole hlength
  · rename_i hlength
    split at h
    · rename_i hone
      split at h
      · rename_i hdefault
        cases h
        exact .ofDefault hone hdefault
      · rename_i hdefault
        cases h
        exact .middle hone (by omega) (Bool.eq_false_iff.2 hdefault)
    · rename_i hone
      have hkeep : 2 ≤ (max 1 keep).toNat := by omega
      split at h
      · rename_i hreplace
        split at h
        · cases h
          exact .replaced hkeep (by omega) hreplace.2.1 hreplace.2.2.1 hreplace.2.2.2
        · cases h
      · cases h
        exact .chosen hkeep (by omega)

theorem thin_total (keep : ℤ) (h : ∀ v ∈ default :: values, v.hashable = true) :
    ∃ part, thin values keep default = .ok part := by
  unfold thin
  dsimp only
  split_ifs with hlength hone hdefault hreplace hhash
  · exact ⟨_, rfl⟩
  · exact ⟨_, rfl⟩
  · exact ⟨_, rfl⟩
  · exact ⟨_, rfl⟩
  · exfalso
    apply hhash
    rw [List.all_eq_true]
    intro v hv
    apply h
    rcases List.mem_or_eq_of_mem_set hv with hold | rfl
    · obtain ⟨i, -, hi⟩ := mem_pick.1 hold
      exact List.mem_cons_of_mem _ (List.mem_of_getElem? hi)
    · exact List.mem_cons_self
  · exact ⟨_, rfl⟩

structure Narrowed (axis axis' : Axis) : Prop where
  name : axis'.1 = axis.1
  sub : axis'.2.Sublist axis.2
  nonempty : axis.2 ≠ [] → axis'.2 ≠ []
  ends : (axis.2.map key).Nodup → SameEnds axis.2 axis'.2

theorem Narrowed.refl (axis : Axis) : Narrowed axis axis :=
  ⟨rfl, List.Sublist.refl _, fun h => h, fun _ => .refl _⟩

theorem Narrowed.trans (a b c : Axis) (h : Narrowed a b) (h' : Narrowed b c) : Narrowed a c where
  name := h'.name.trans h.name
  sub := h'.sub.trans h.sub
  nonempty hne := h'.nonempty (h.nonempty hne)
  ends hnodup := (h.ends hnodup).trans (h'.ends (hnodup.sublist (h.sub.map key)))

theorem thin_of_wide (h : 2 < values.length) :
    ∃ part, thin values (values.length - 1) .none = .ok part ∧
      part.length + 1 = values.length ∧ ∀ name, Narrowed (name, values) (name, part) := by
  have hkeep : (max 1 ((values.length : ℤ) - 1)).toNat = values.length - 1 := by
    rw [max_eq_right (by omega)]
    omega
  have hlt : values.length - 1 < values.length := by omega
  obtain ⟨hsub, hcount, hfirst, hlast⟩ := pick_spread (by omega) hlt
  have hne : values ≠ [] := List.ne_nil_of_length_pos (by omega)
  refine ⟨pick values (spread values.length (values.length - 1)), ?_, by omega, ?_⟩
  · unfold thin
    dsimp only
    have hone : ¬ values.length - 1 = 1 := by omega
    rw [hkeep, if_neg (not_le.2 hlt), if_neg hone, if_neg (by simp)]
  · intro name
    refine ⟨rfl, hsub, fun _ => List.ne_nil_of_length_pos ?_, ?_⟩
    · rw [hcount]
      omega
    · intro hnodup
      exact sameEnds_of_mem (hsub.map key) hnodup hne hfirst hlast

theorem foldl_widest (width : ℕ → ℕ) (l : List ℕ) (b : ℕ) :
    let best := l.foldl (fun best i => if width best < width i then i else best) b
    (best = b ∨ best ∈ l) ∧ width b ≤ width best ∧ ∀ i ∈ l, width i ≤ width best := by
  induction l generalizing b with
  | nil => exact ⟨.inl rfl, le_rfl, fun i hi => absurd hi (List.not_mem_nil)⟩
  | cons a l ih =>
    dsimp only
    rw [List.foldl_cons]
    by_cases hlt : width b < width a
    · rw [if_pos hlt]
      obtain ⟨hmem, hstart, hall⟩ := ih a
      refine ⟨?_, hlt.le.trans hstart, ?_⟩
      · rcases hmem with heq | hin
        · exact .inr (List.mem_cons.2 (.inl heq))
        · exact .inr (List.mem_cons_of_mem _ hin)
      · intro i hi
        rcases List.mem_cons.1 hi with rfl | hi
        · exact hstart
        · exact hall i hi
    · rw [if_neg hlt]
      obtain ⟨hmem, hstart, hall⟩ := ih b
      refine ⟨?_, hstart, ?_⟩
      · rcases hmem with heq | hin
        · exact .inl heq
        · exact .inr (List.mem_cons_of_mem _ hin)
      · intro i hi
        rcases List.mem_cons.1 hi with rfl | hi
        · exact (not_lt.1 hlt).trans hstart
        · exact hall i hi

variable {axes : List Axis}

theorem widest_spec (h : axes ≠ []) :
    ∃ axis, axes[widest axes]? = some axis ∧ ∀ other ∈ axes, other.2.length ≤ axis.2.length := by
  have hpos := List.length_pos_of_ne_nil h
  obtain ⟨hmem, -, hall⟩ := foldl_widest
    (fun i : ℕ => ((axes.map fun axis => axis.2.length)[i]?).getD 0) (List.range axes.length) 0
  have hlt : widest axes < axes.length := by
    rcases hmem with hzero | hin
    · unfold widest
      dsimp only at hzero ⊢
      rw [hzero]
      exact hpos
    · exact List.mem_range.1 hin
  have hwidth : ∀ {i : ℕ} {axis : Axis}, axes[i]? = some axis →
      ((axes.map fun axis => axis.2.length)[i]?).getD 0 = axis.2.length := by
    intro i axis hi
    rw [List.getElem?_map, hi]
    rfl
  refine ⟨axes[widest axes], List.getElem?_eq_getElem hlt, ?_⟩
  intro other hother
  obtain ⟨i, hi⟩ := List.mem_iff_getElem?.1 hother
  have hle := hall i (List.mem_range.2 (List.getElem?_eq_some_iff.1 hi).1)
  rw [hwidth hi] at hle
  exact hle.trans (hwidth (List.getElem?_eq_getElem hlt)).le

theorem capLoop_spec (maxPoints : ℤ) {fuel : ℕ}
    (hfuel : (axes.map fun axis => axis.2.length).sum ≤ fuel) :
    ∃ axes', capLoop maxPoints fuel axes = .ok axes' ∧ List.Forall₂ Narrowed axes axes' ∧
      ((sizeOf axes' : ℤ) ≤ maxPoints ∨ ∀ axis ∈ axes', axis.2.length ≤ 2) := by
  induction fuel generalizing axes with
  | zero =>
    refine ⟨axes, rfl, List.forall₂_same.2 fun axis _ => .refl axis, .inr ?_⟩
    intro axis haxis
    have hmem : axis.2.length ∈ axes.map fun axis => axis.2.length :=
      List.mem_map.2 ⟨axis, haxis, rfl⟩
    have hle := List.single_le_sum (fun _ _ => Nat.zero_le _) _ hmem
    omega
  | succ fuel ih =>
    have hself : List.Forall₂ Narrowed axes axes := List.forall₂_same.2 fun axis _ => .refl axis
    unfold capLoop
    by_cases hsize : (sizeOf axes : ℤ) ≤ maxPoints
    · rw [if_pos hsize]
      exact ⟨axes, rfl, hself, .inl hsize⟩
    · rw [if_neg hsize]
      by_cases hempty : axes = []
      · subst hempty
        exact ⟨[], rfl, .nil, .inr fun axis haxis => absurd haxis List.not_mem_nil⟩
      · obtain ⟨⟨name, values⟩, hwidest, hmax⟩ := widest_spec hempty
        rw [hwidest]
        by_cases hnarrow : values.length ≤ 2
        · dsimp only
          rw [if_pos hnarrow]
          exact ⟨axes, rfl, hself, .inr fun axis haxis => (hmax axis haxis).trans hnarrow⟩
        · obtain ⟨part, hthin, hcount, hnarrowed⟩ := thin_of_wide (not_le.1 hnarrow)
          have hstep : List.Forall₂ Narrowed axes (axes.set (widest axes) (name, part)) := by
            apply forall₂_set Narrowed.refl
            intro axis haxis
            rw [hwidest, Option.some.injEq] at haxis
            rw [← haxis]
            exact hnarrowed name
          have hlength : (axes.map fun axis => axis.2.length)[widest axes]? =
              some values.length := by
            rw [List.getElem?_map, hwidest]
            rfl
          have hsum := sum_set_add part.length hlength
          have hsmaller : ((axes.set (widest axes) (name, part)).map
              fun axis => axis.2.length).sum ≤ fuel := by
            rw [List.map_set]
            dsimp only
            omega
          obtain ⟨axes', hloop, hrest, hend⟩ := ih hsmaller
          dsimp only
          rw [if_neg hnarrow, hthin]
          exact ⟨axes', hloop, forall₂_trans Narrowed.trans hstep hrest, hend⟩

end Fiboki
