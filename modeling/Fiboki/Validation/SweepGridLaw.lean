import Fiboki.Lib.Pointwise
import Fiboki.Validation.SweepThinning

/-!
A sweep stays inside the declared domains: every axis is a part of what the declared parameter
enumerates, with distinct values where no two points are rounded to one, and accepted values where
none is rounded out of the bounds.
-/

namespace Fiboki

open Floating (Number)
open ParamValue (key isIn)

namespace ParameterSpec

variable {spec : ParameterSpec}

def IsNumeric (spec : ParameterSpec) : Prop := spec.kind = .int ∨ spec.kind = .float

/-- The bounds of a number are in order, its step moves up, and its default lies between them. -/
structure Bounded (spec : ParameterSpec) : Prop where
  ordered : spec.lo ≤ spec.hi
  step_pos : ∀ s, spec.step = some s → 0 < s
  default_ok : ∃ q, spec.default.toFloat = some (.fin q) ∧ spec.lo ≤ q ∧ q ≤ spec.hi ∧
    (spec.kind = .int → q = ⌊q⌋)

theorem between_fin {lo hi : ℚ} {x : Number}
    (h : (Number.le (.fin lo) x && Number.le x (.fin hi)) = true) :
    ∃ q, x = .fin q ∧ lo ≤ q ∧ q ≤ hi := by
  rw [Bool.and_eq_true] at h
  cases x with
  | nan => exact absurd h.1 (by simp [Number.le])
  | inf negative => cases negative <;> exact absurd h (by simp [Number.le])
  | fin q => exact ⟨q, rfl, of_decide_eq_true h.1, of_decide_eq_true h.2⟩

theorem bounded_of_explicit {kind : ParameterKind} {default : ParamValue}
    {minValue maxValue step : Option ℚ}
    (h : numberIsExplicit kind default minValue maxValue step = .ok ()) :
    ∃ lo hi, minValue = some lo ∧ maxValue = some hi ∧ lo ≤ hi ∧ (∀ s, step = some s → 0 < s) ∧
      ∃ q, default.toFloat = some (.fin q) ∧ lo ≤ q ∧ q ≤ hi ∧ (kind = .int → q = ⌊q⌋) := by
  unfold numberIsExplicit at h
  split at h
  · rename_i lo hi
    split at h
    · cases h
    · rename_i hordered
      split at h
      · cases h
      · rename_i hstep
        split at h
        · cases h
        · rename_i x hx
          split at h
          · cases h
          · rename_i hbetween
            split at h
            · cases h
            · rename_i hint
              rw [Bool.not_eq_true, Bool.not_eq_eq_eq_not, Bool.not_false] at hbetween
              obtain ⟨q, rfl, hlo, hhi⟩ := between_fin hbetween
              refine ⟨lo, hi, rfl, rfl, not_lt.1 hordered, ?_, q, hx, hlo, hhi, ?_⟩
              · rintro s rfl
                by_contra hle
                exact hstep (by simpa using hle)
              · intro hkind
                by_contra hne
                exact hint ⟨hkind, decide_eq_false hne⟩
  · cases h

theorem bounded (h : spec.IsNumeric) : spec.Bounded := by
  have hexplicit : numberIsExplicit spec.kind spec.default spec.minValue spec.maxValue spec.step =
      .ok () := by
    have hexplicit := spec.explicit
    unfold domainIsExplicit at hexplicit
    rcases h with h | h
    · rw [h] at hexplicit ⊢
      exact hexplicit
    · rw [h] at hexplicit ⊢
      exact hexplicit
  obtain ⟨lo, hi, hmin, hmax, hle, hstep, q, hq⟩ := bounded_of_explicit hexplicit
  have hlo : spec.lo = lo := by
    unfold ParameterSpec.lo
    rw [hmin]
    rfl
  have hhi : spec.hi = hi := by
    unfold ParameterSpec.hi
    rw [hmax]
    rfl
  rw [← hlo, ← hhi] at hle hq
  exact ⟨hle, hstep, q, hq⟩

theorem accepts_number (h : spec.IsNumeric) (name : String) {v : ParamValue} {q : ℚ}
    (hv : v.toFloat = some (.fin q)) (hlo : spec.lo ≤ q) (hhi : q ≤ spec.hi)
    (hint : spec.kind = .int → q = ⌊q⌋) : ∃ u, spec.assertInDomain name v = .ok u := by
  have hbetween : (Number.le (.fin spec.lo) (.fin q) && Number.le (.fin q) (.fin spec.hi)) =
      true := by
    rw [Number.le_fin, Number.le_fin, decide_eq_true hlo, decide_eq_true hhi]
    rfl
  unfold assertInDomain
  rcases h with h | h
  · simp only [h, hv, hbetween]
    rw [if_neg (by simp), if_pos trivial, if_pos (hint h)]
    exact ⟨_, rfl⟩
  · simp only [h, hv, hbetween]
    rw [if_neg (by simp), if_neg (by simp)]
    exact ⟨_, rfl⟩

theorem accepts_default (spec : ParameterSpec) (name : String) :
    ∃ u, spec.assertInDomain name spec.default = .ok u := by
  cases hkind : spec.kind with
  | int =>
    obtain ⟨q, hq, hlo, hhi, hint⟩ := (bounded (.inl hkind)).default_ok
    exact accepts_number (.inl hkind) name hq hlo hhi hint
  | float =>
    obtain ⟨q, hq, hlo, hhi, hint⟩ := (bounded (.inr hkind)).default_ok
    exact accepts_number (.inr hkind) name hq hlo hhi hint
  | choice =>
    have hexplicit := spec.explicit
    unfold domainIsExplicit at hexplicit
    simp only [hkind] at hexplicit
    unfold assertInDomain
    simp only [hkind]
    split at hexplicit
    · cases hexplicit
    · cases hexplicit
    · rename_i choices hsome hchoices
      split at hexplicit
      · rename_i hin
        rw [hchoices, Option.getD_some, if_pos hin]
        exact ⟨_, rfl⟩
      · cases hexplicit
  | bool =>
    have hexplicit := spec.explicit
    unfold domainIsExplicit at hexplicit
    simp only [hkind] at hexplicit
    unfold assertInDomain
    simp only [hkind]
    split at hexplicit
    · exact ⟨_, rfl⟩
    · cases hexplicit

theorem walk_eq {stop step : ℚ} (fuel : ℕ) (a : ℚ) :
    ∃ m : ℕ, walk stop step fuel a = (List.range m).map (fun i : ℕ => a + i * step) ∧
      ∀ i < m, a + (i : ℕ) * step ≤ stop := by
  induction fuel generalizing a with
  | zero => exact ⟨0, rfl, fun i hi => absurd hi (Nat.not_lt_zero i)⟩
  | succ fuel ih =>
    unfold walk
    split
    · rename_i hle
      obtain ⟨m, hm, hstop⟩ := ih (a + step)
      have hshift : ∀ i : ℕ, a + step + i * step = a + ((i + 1 : ℕ) : ℚ) * step := by
        intro i
        push_cast
        ring
      refine ⟨m + 1, ?_, ?_⟩
      · rw [hm, List.range_succ_eq_map, List.map_cons, List.map_map]
        congr 1
        · simp
        · exact List.map_congr_left fun i _ => hshift i
      · intro i hi
        cases i with
        | zero => simpa using hle
        | succ i =>
          rw [← hshift]
          exact hstop i (by omega)
    · exact ⟨0, rfl, fun i hi => absurd hi (Nat.not_lt_zero i)⟩

theorem walk_ne_nil {stop step a : ℚ} (h : a ≤ stop) (fuel : ℕ) :
    walk stop step (fuel + 1) a ≠ [] := by
  unfold walk
  rw [if_pos h]
  exact List.cons_ne_nil _ _

theorem stride_of_int (h : spec.kind = .int) : spec.stride ≠ none := by
  unfold stride
  split
  · split_ifs
    · exact Option.some_ne_none _
    · exact Option.some_ne_none _
  · rw [if_pos h]
    exact Option.some_ne_none _

variable {k : ℕ}

def points (spec : ParameterSpec) (k : ℕ) : List ℚ :=
  match spec.stride with
  | some step => walk spec.stopAt step (⌊(spec.stopAt - spec.lo) / step⌋₊ + 1) spec.lo
  | none => (List.range k).map fun i : ℕ => spec.lo + (spec.hi - spec.lo) * i / ((k : ℚ) - 1)

def spacing (spec : ParameterSpec) (k : ℕ) : ℚ :=
  match spec.stride with
  | some step => step
  | none => (spec.hi - spec.lo) / ((k : ℚ) - 1)

def units (spec : ParameterSpec) : ℚ := if spec.kind = .int then 1 else 10 ^ 10

def rounded (spec : ParameterSpec) (v : ℚ) : ℚ :=
  (Text.roundHalfEven (v * spec.units) : ℚ) / spec.units

theorem units_pos (spec : ParameterSpec) : 0 < spec.units := by
  unfold units
  split_ifs <;> norm_num

theorem pointValue_rounded (spec : ParameterSpec) (v : ℚ) :
    (spec.pointValue v).toFloat = some (.fin (spec.rounded v)) ∧
      (spec.pointValue v).key = .float (.fin (spec.rounded v)) ∧
      (spec.kind = .int → spec.rounded v = ⌊spec.rounded v⌋) := by
  unfold pointValue rounded units
  split_ifs with hkind
  · rw [mul_one, div_one, Int.floor_intCast]
    exact ⟨rfl, rfl, fun _ => rfl⟩
  · exact ⟨rfl, rfl, fun hint => absurd hint hkind⟩

theorem points_eq (hnumeric : spec.IsNumeric) (hk : 2 ≤ k) :
    ∃ m : ℕ, spec.points k = (List.range m).map (fun i : ℕ => spec.lo + i * spec.spacing k) ∧
      ∀ i < m, spec.lo + (i : ℕ) * spec.spacing k ≤ spec.stopAt := by
  unfold points spacing
  cases spec.stride with
  | some step => exact walk_eq _ _
  | none =>
    refine ⟨k, List.map_congr_left fun i _ => by ring, ?_⟩
    intro i hi
    have hordered := (bounded hnumeric).ordered
    have hcount : (0 : ℚ) < (k : ℚ) - 1 := by
      have htwo : (2 : ℚ) ≤ k := by exact_mod_cast hk
      linarith
    have hile : (i : ℚ) ≤ (k : ℚ) - 1 := by
      have hsucc : (i : ℚ) + 1 ≤ k := by exact_mod_cast hi
      linarith
    have hpart : (i : ℚ) * ((spec.hi - spec.lo) / ((k : ℚ) - 1)) ≤ spec.hi - spec.lo := by
      calc (i : ℚ) * ((spec.hi - spec.lo) / ((k : ℚ) - 1))
          ≤ ((k : ℚ) - 1) * ((spec.hi - spec.lo) / ((k : ℚ) - 1)) :=
            mul_le_mul_of_nonneg_right hile (div_nonneg (by linarith) hcount.le)
        _ = spec.hi - spec.lo := mul_div_cancel₀ _ hcount.ne'
    unfold stopAt
    linarith

/-- No choice is repeated, and no two points have the same rounding. -/
structure Apart (spec : ParameterSpec) (k : ℕ) : Prop where
  choices : spec.kind = .choice → ((spec.choices.getD []).map key).Nodup
  points : spec.IsNumeric → ((spec.points k).map spec.rounded).Nodup

def Within (spec : ParameterSpec) (k : ℕ) : Prop :=
  spec.IsNumeric → ∀ v ∈ spec.points k, spec.lo ≤ spec.rounded v ∧ spec.rounded v ≤ spec.hi

/-- Choices that differ; bounds that are not rounded, and points a unit of the rounding apart. -/
structure Regular (spec : ParameterSpec) (k : ℕ) : Prop where
  choices : spec.kind = .choice → ((spec.choices.getD []).map key).Nodup
  low : spec.IsNumeric → ∃ a : ℤ, spec.lo * spec.units = a
  high : spec.IsNumeric → ∃ b : ℤ, spec.hi * spec.units = b
  spaced : spec.IsNumeric → 1 ≤ spec.spacing k * spec.units

theorem roundHalfEven_lt_of_apart {a : ℤ} {s : ℚ} (hs : 1 ≤ s) {i j : ℕ} (hij : i < j) :
    Text.roundHalfEven ((a : ℚ) + i * s) < Text.roundHalfEven ((a : ℚ) + j * s) := by
  have hij : (i : ℚ) + 1 ≤ j := by exact_mod_cast hij
  rcases hs.eq_or_lt with rfl | hs
  · have hi : (a : ℚ) + i * 1 = ((a + i : ℤ) : ℚ) := by
      push_cast
      ring
    have hj : (a : ℚ) + j * 1 = ((a + j : ℤ) : ℚ) := by
      push_cast
      ring
    rw [hi, hj, Text.roundHalfEven_intCast, Text.roundHalfEven_intCast]
    have hlt : (i : ℤ) + 1 ≤ j := by exact_mod_cast hij
    omega
  · apply Text.roundHalfEven_lt
    nlinarith

theorem roundHalfEven_le_of_lt {x : ℚ} {b : ℤ} (h : x < b + 1 / 2) : Text.roundHalfEven x ≤ b := by
  have hupper := Text.roundHalfEven_le_add_half x
  have hlt : (Text.roundHalfEven x : ℚ) < ((b + 1 : ℤ) : ℚ) := by
    push_cast
    linarith
  have hlt : Text.roundHalfEven x < b + 1 := by exact_mod_cast hlt
  omega

theorem Regular.exact (h : spec.Regular k) (hk : 2 ≤ k) : spec.Apart k ∧ spec.Within k := by
  have hunits := spec.units_pos
  have hscaled : ∀ i : ℕ, (spec.lo + i * spec.spacing k) * spec.units =
      spec.lo * spec.units + i * (spec.spacing k * spec.units) := by
    intro i
    ring
  refine ⟨⟨h.choices, ?_⟩, ?_⟩
  · intro hnumeric
    obtain ⟨a, ha⟩ := h.low hnumeric
    obtain ⟨m, hm, -⟩ := points_eq hnumeric hk
    rw [hm, List.map_map]
    apply List.pairwise_map.2
    apply List.pairwise_lt_range.imp
    intro i j hij heq
    rw [Function.comp_apply, Function.comp_apply] at heq
    unfold rounded at heq
    rw [div_left_inj' hunits.ne', hscaled, hscaled, ha, Int.cast_inj] at heq
    exact absurd heq (roundHalfEven_lt_of_apart (h.spaced hnumeric) hij).ne
  · intro hnumeric v hv
    obtain ⟨a, ha⟩ := h.low hnumeric
    obtain ⟨b, hb⟩ := h.high hnumeric
    obtain ⟨m, hm, hstop⟩ := points_eq hnumeric hk
    rw [hm] at hv
    obtain ⟨i, hi, rfl⟩ := List.mem_map.1 hv
    have hstop := hstop i (List.mem_range.1 hi)
    have hbottom : (a : ℚ) ≤ (spec.lo + i * spec.spacing k) * spec.units := by
      have hnonneg : 0 ≤ (i : ℚ) * (spec.spacing k * spec.units) :=
        mul_nonneg (Nat.cast_nonneg i) (zero_le_one.trans (h.spaced hnumeric))
      rw [hscaled, ← ha]
      linarith
    have htop : (spec.lo + i * spec.spacing k) * spec.units < b + 1 / 2 := by
      have hslack : 1 / 10 ^ 12 * spec.units < 1 / 2 := by
        unfold units
        split_ifs <;> norm_num
      calc (spec.lo + i * spec.spacing k) * spec.units
          ≤ spec.stopAt * spec.units := mul_le_mul_of_nonneg_right hstop hunits.le
        _ = b + 1 / 10 ^ 12 * spec.units := by
            unfold stopAt
            rw [add_mul, hb]
        _ < b + 1 / 2 := by linarith
    have hge := Text.intCast_le_roundHalfEven hbottom
    have hle := roundHalfEven_le_of_lt htop
    unfold rounded
    constructor
    · rw [le_div_iff₀ hunits, ha]
      exact_mod_cast hge
    · rw [div_le_iff₀ hunits, hb]
      exact_mod_cast hle

section Enumerated

variable (maxValuesPerAxis : ℤ)

theorem enumerated_bool (h : spec.kind = .bool) :
    spec.enumerated maxValuesPerAxis = [.bool false, .bool true] := by
  unfold enumerated domain
  rw [h]

theorem enumerated_choice (h : spec.kind = .choice) :
    spec.enumerated maxValuesPerAxis = spec.choices.getD [] := by
  unfold enumerated domain
  rw [h]

theorem enumerated_number (h : spec.IsNumeric) : spec.enumerated maxValuesPerAxis =
      (spec.points (max 2 maxValuesPerAxis).toNat).map spec.pointValue := by
  unfold enumerated domain points
  cases hstride : spec.stride with
  | some step =>
    rcases h with h | h
    · simp only [h]
    · simp only [h]
  | none =>
    have hfloat : spec.kind = .float := h.resolve_left fun hint => stride_of_int hint hstride
    simp only [hfloat]
    unfold sampled
    rw [List.map_map]
    apply List.map_congr_left
    intro i _
    unfold pointValue
    rw [Function.comp_apply, if_neg (by rw [hfloat]; exact ParameterKind.noConfusion)]

theorem kind_cases (spec : ParameterSpec) :
    spec.kind = .bool ∨ spec.kind = .choice ∨ spec.IsNumeric := by
  unfold IsNumeric
  cases spec.kind with
  | bool => exact .inl rfl
  | choice => exact .inr (.inl rfl)
  | int => exact .inr (.inr (.inl rfl))
  | float => exact .inr (.inr (.inr rfl))

end Enumerated

variable {maxValuesPerAxis : ℤ}

theorem enumerated_nodup (h : spec.Apart (max 2 maxValuesPerAxis).toNat) :
    ((spec.enumerated maxValuesPerAxis).map key).Nodup := by
  rcases spec.kind_cases with hbool | hchoice | hnumeric
  · rw [enumerated_bool _ hbool]
    decide
  · rw [enumerated_choice _ hchoice]
    exact h.choices hchoice
  · have hkeys : (spec.enumerated maxValuesPerAxis).map key =
        ((spec.points (max 2 maxValuesPerAxis).toNat).map spec.rounded).map
          fun q => .float (.fin q) := by
      rw [enumerated_number _ hnumeric, List.map_map, List.map_map]
      exact List.map_congr_left fun v _ => (pointValue_rounded spec v).2.1
    rw [hkeys]
    apply (h.points hnumeric).map
    intro x y hxy
    simpa using hxy

theorem enumerated_accepted (h : spec.Within (max 2 maxValuesPerAxis).toNat) (name : String) :
    ∀ v ∈ spec.enumerated maxValuesPerAxis, ∃ u, spec.assertInDomain name v = .ok u := by
  intro v hv
  rcases spec.kind_cases with hbool | hchoice | hnumeric
  · rw [enumerated_bool _ hbool] at hv
    unfold assertInDomain
    simp only [hbool]
    rcases List.mem_cons.1 hv with rfl | hv
    · exact ⟨_, rfl⟩
    · rw [List.mem_singleton.1 hv]
      exact ⟨_, rfl⟩
  · rw [enumerated_choice _ hchoice] at hv
    have hin : v.isIn (spec.choices.getD []) = true := isIn_iff.2 (List.mem_map_of_mem hv)
    unfold assertInDomain
    simp only [hchoice, hin]
    exact ⟨_, rfl⟩
  · rw [enumerated_number _ hnumeric] at hv
    obtain ⟨p, hp, rfl⟩ := List.mem_map.1 hv
    obtain ⟨hlo, hhi⟩ := h hnumeric p hp
    obtain ⟨hfloat, -, hint⟩ := pointValue_rounded spec p
    exact accepts_number hnumeric name hfloat hlo hhi hint

theorem points_ne_nil (hnumeric : spec.IsNumeric) (hk : 2 ≤ k) : spec.points k ≠ [] := by
  unfold points
  cases spec.stride with
  | some step =>
    have hordered := (bounded hnumeric).ordered
    apply walk_ne_nil
    unfold stopAt
    linarith
  | none =>
    rw [ne_eq, List.map_eq_nil_iff, List.range_eq_nil]
    omega

theorem two_le_samples (maxValuesPerAxis : ℤ) : 2 ≤ (max 2 maxValuesPerAxis).toNat := by
  have h := le_max_left 2 maxValuesPerAxis
  omega

theorem enumerated_ne_nil (spec : ParameterSpec) (maxValuesPerAxis : ℤ) :
    spec.enumerated maxValuesPerAxis ≠ [] := by
  rcases spec.kind_cases with hbool | hchoice | hnumeric
  · rw [enumerated_bool _ hbool]
    exact List.cons_ne_nil _ _
  · rw [enumerated_choice _ hchoice]
    have hexplicit := spec.explicit
    unfold domainIsExplicit at hexplicit
    simp only [hchoice] at hexplicit
    split at hexplicit
    · cases hexplicit
    · cases hexplicit
    · rename_i choices hne hchoices
      rw [hchoices, Option.getD_some]
      rintro rfl
      exact hne rfl
  · rw [enumerated_number _ hnumeric, ne_eq, List.map_eq_nil_iff]
    exact points_ne_nil hnumeric (two_le_samples _)

theorem hashable_enumerated (h : ∀ v ∈ spec.default :: spec.choices.getD [], v.hashable = true) :
    ∀ v ∈ spec.default :: spec.enumerated maxValuesPerAxis, v.hashable = true := by
  intro v hv
  rcases List.mem_cons.1 hv with rfl | hv
  · exact h _ List.mem_cons_self
  · rcases spec.kind_cases with hbool | hchoice | hnumeric
    · rw [enumerated_bool _ hbool] at hv
      rcases List.mem_cons.1 hv with rfl | hv
      · rfl
      · rw [List.mem_singleton.1 hv]
        rfl
    · rw [enumerated_choice _ hchoice] at hv
      exact h v (List.mem_cons_of_mem _ hv)
    · rw [enumerated_number _ hnumeric] at hv
      obtain ⟨p, -, rfl⟩ := List.mem_map.1 hv
      unfold pointValue
      split_ifs <;> rfl

end ParameterSpec

/-- The axis of a declared parameter: enumerated values in their order; a single one, the default
if it is enumerated, when an axis may not have two; values that differ, with both ends, where no
two are enumerated as one; values that are accepted, where none is rounded out of the bounds. -/
structure AxisLaw (name : String) (spec : ParameterSpec) (maxValuesPerAxis : ℤ)
    (values : List ParamValue) : Prop where
  sub : (values.map key).Sublist ((spec.enumerated maxValuesPerAxis).map key)
  single : maxValuesPerAxis < 2 → ∃ v, values = [v] ∧
    (spec.default.isIn (spec.enumerated maxValuesPerAxis) = true → v.key = spec.default.key)
  distinct : spec.Apart (max 2 maxValuesPerAxis).toNat → (values.map key).Nodup
  accepted : spec.Within (max 2 maxValuesPerAxis).toNat →
    ∀ v ∈ values, ∃ u, spec.assertInDomain name v = .ok u
  ends : spec.Apart (max 2 maxValuesPerAxis).toNat → 2 ≤ maxValuesPerAxis →
    SameEnds (spec.enumerated maxValuesPerAxis) values

theorem AxisLaw.of_narrowed {spec : ParameterSpec} {maxValuesPerAxis : ℤ} {axis axis' : Axis}
    (name : String)
    (h : ThinSpec (spec.enumerated maxValuesPerAxis) maxValuesPerAxis spec.default axis.2)
    (hnarrowed : Narrowed axis axis') : AxisLaw name spec maxValuesPerAxis axis'.2 where
  sub := (hnarrowed.sub.map key).trans h.isPart.sub
  single hfew := by
    obtain ⟨v, hv, hdefault⟩ := h.single hfew (spec.enumerated_ne_nil _)
    refine ⟨v, ?_, hdefault⟩
    have hsub := hnarrowed.sub
    have hne := hnarrowed.nonempty (by rw [hv]; exact List.cons_ne_nil _ _)
    rw [hv] at hsub
    exact (List.sublist_singleton.1 hsub).resolve_left hne
  distinct hapart :=
    (ParameterSpec.enumerated_nodup hapart).sublist
      ((hnarrowed.sub.map key).trans h.isPart.sub)
  accepted hwithin v hv := by
    rcases h.isPart.source v (hnarrowed.sub.subset hv) with hin | rfl
    · exact ParameterSpec.enumerated_accepted hwithin name v hin
    · exact spec.accepts_default name
  ends hapart htwo := by
    have hnodup := ParameterSpec.enumerated_nodup hapart
    exact (h.ends htwo hnodup).trans (hnarrowed.ends (hnodup.sublist h.isPart.sub))

namespace ParameterGrid

variable {parameters : Dict String ParameterSpec} {include_ : Option (List String)}
  {maxValuesPerAxis maxPoints : ℤ} {axes : List Axis} {grid grid' : ParameterGrid}

theorem make_ok {n : ℕ} (h : make axes n = .ok grid) : grid.axes = axes ∧
    grid.truncatedFrom = n := by
  unfold make at h
  split at h
  · cases h
    exact ⟨rfl, rfl⟩
  · cases h

theorem make_total (n : ℕ) (hnames : (axes.map Prod.fst).Nodup)
    (hnonempty : ∀ axis ∈ axes, axis.2 ≠ []) : ∃ grid, make axes n = .ok grid := by
  unfold make
  rw [dif_pos ⟨hnames, hnonempty⟩]
  exact ⟨_, rfl⟩

theorem declaredAxes_ok (h : declaredAxes parameters include_ maxValuesPerAxis = .ok axes) :
    List.Forall₂ (fun e axis => axis.1 = e.1 ∧
      ThinSpec (e.2.enumerated maxValuesPerAxis) maxValuesPerAxis e.2.default axis.2)
      (sweptSpecs parameters include_) axes := by
  apply (Wire.forall₂_of_mapM h).imp
  intro e axis haxis
  obtain ⟨values, hvalues, haxis⟩ := Wire.bind_ok haxis
  cases haxis
  exact ⟨rfl, thin_spec hvalues⟩

theorem declaredAxes_total (maxValuesPerAxis : ℤ) (h : ∀ e ∈ sweptSpecs parameters include_,
      ∀ v ∈ e.2.default :: e.2.choices.getD [], v.hashable = true) :
    ∃ axes, declaredAxes parameters include_ maxValuesPerAxis = .ok axes := by
  apply Wire.mapM_isOk.2
  intro e he
  obtain ⟨values, hvalues⟩ := thin_total maxValuesPerAxis
    (ParameterSpec.hashable_enumerated (h e he))
  exact ⟨(e.1, values), by rw [hvalues]; rfl⟩

theorem names_of_forall₂ {α β : Type} {R : α × β → Axis → Prop} {xs : List (α × β)} {f : α → String}
    (h : List.Forall₂ R xs axes) (hname : ∀ e axis, R e axis → axis.1 = f e.1) :
    axes.map Prod.fst = xs.map fun e => f e.1 := by
  induction h with
  | nil => rfl
  | cons hab _ ih => rw [List.map_cons, List.map_cons, hname _ _ hab, ih]

theorem capped_ok (h : grid.capped maxPoints = .ok grid') :
    List.Forall₂ Narrowed grid.axes grid'.axes ∧
      ((grid'.fullSize : ℤ) ≤ maxPoints ∨ ∀ axis ∈ grid'.axes, axis.2.length ≤ 2) ∧
      grid'.truncatedFrom =
        if (grid.fullSize : ℤ) ≤ maxPoints ∨ grid.axes = [] then grid.truncatedFrom
        else grid.fullSize := by
  unfold capped at h
  split at h
  · cases h
  · split at h
    · rename_i hfits
      cases h
      rw [if_pos hfits]
      refine ⟨List.forall₂_same.2 fun axis _ => .refl axis, ?_, rfl⟩
      rcases hfits with hsize | hempty
      · exact .inl hsize
      · rw [hempty]
        exact .inr fun axis haxis => absurd haxis List.not_mem_nil
    · rename_i hfits
      obtain ⟨axes, hloop, hnarrowed, hend⟩ := capLoop_spec maxPoints (le_refl
        (grid.axes.map fun axis => axis.2.length).sum)
      rw [hloop] at h
      obtain ⟨haxes, htruncated⟩ := make_ok h
      rw [if_neg hfits]
      unfold fullSize
      rw [haxes]
      exact ⟨hnarrowed, hend, htruncated⟩

theorem capped_total (grid : ParameterGrid) (h : 1 ≤ maxPoints) :
    ∃ grid', grid.capped maxPoints = .ok grid' := by
  unfold capped
  rw [if_neg (by omega)]
  split
  · exact ⟨grid, rfl⟩
  · obtain ⟨axes, hloop, hnarrowed, -⟩ := capLoop_spec maxPoints (le_refl
      (grid.axes.map fun axis => axis.2.length).sum)
    rw [hloop]
    apply make_total
    · rw [names_of_forall₂ hnarrowed (f := id) fun e axis h => h.name]
      exact grid.nodup
    · intro axis haxis
      obtain ⟨whole, hwhole, hnarrow⟩ := Pointwise.mem_right hnarrowed haxis
      exact hnarrow.nonempty (grid.nonempty whole hwhole)

theorem swept_nodup (parameters : Dict String ParameterSpec) (include_ : Option (List String)) :
    ((sweptSpecs parameters include_).map Prod.fst).Nodup := by
  apply List.pairwise_map.2
  exact (parameters.sorted.filter _).imp fun h => h.ne

theorem fromDocument_total (hpoints : 1 ≤ maxPoints) (h : ∀ e ∈ sweptSpecs parameters include_,
      ∀ v ∈ e.2.default :: e.2.choices.getD [], v.hashable = true) :
    ∃ grid, fromDocument parameters include_ maxValuesPerAxis maxPoints = .ok grid := by
  obtain ⟨axes, haxes⟩ := declaredAxes_total maxValuesPerAxis h
  have hspecs := declaredAxes_ok haxes
  obtain ⟨grid, hgrid⟩ : ∃ grid, make axes 0 = .ok grid := by
    apply make_total
    · rw [names_of_forall₂ hspecs (f := id) fun e axis h => h.1]
      exact swept_nodup parameters include_
    · intro axis haxis
      obtain ⟨e, -, -, hthin⟩ := Pointwise.mem_right hspecs haxis
      exact hthin.nonempty (e.2.enumerated_ne_nil _)
  obtain ⟨grid', hgrid'⟩ := capped_total grid hpoints
  refine ⟨grid', ?_⟩
  unfold fromDocument
  rw [haxes, Wire.ok_bind, hgrid, Wire.ok_bind]
  exact hgrid'

/-- A sweep: one axis for each swept parameter, in the order of the names, and so many points. -/
theorem from_document_sweeps (parameters : Dict String ParameterSpec)
    (include_ : Option (List String)) (maxValuesPerAxis maxPoints : ℤ) :
    (1 ≤ maxPoints → (∀ e ∈ sweptSpecs parameters include_,
        ∀ v ∈ e.2.default :: e.2.choices.getD [], v.hashable = true) →
      ∃ grid, fromDocument parameters include_ maxValuesPerAxis maxPoints = .ok grid) ∧
    (∀ grid, fromDocument parameters include_ maxValuesPerAxis maxPoints = .ok grid →
      List.Forall₂ (fun e axis => axis.1 = e.1 ∧ AxisLaw e.1 e.2 maxValuesPerAxis axis.2)
        (sweptSpecs parameters include_) grid.axes ∧
      ((grid.fullSize : ℤ) ≤ maxPoints ∨ ∀ axis ∈ grid.axes, axis.2.length ≤ 2) ∧
      ∃ axes, declaredAxes parameters include_ maxValuesPerAxis = .ok axes ∧ grid.truncatedFrom =
          if (sizeOf axes : ℤ) ≤ maxPoints ∨ axes = [] then 0 else sizeOf axes) ∧
    ∀ e ∈ sweptSpecs parameters include_, e.2.Regular (max 2 maxValuesPerAxis).toNat →
      e.2.Apart (max 2 maxValuesPerAxis).toNat ∧ e.2.Within (max 2 maxValuesPerAxis).toNat := by
  refine ⟨fromDocument_total, ?_, fun e _ hregular => ?_⟩
  · intro grid' h
    obtain ⟨axes, haxes, h⟩ := Wire.bind_ok h
    obtain ⟨grid, hgrid, h⟩ := Wire.bind_ok h
    obtain ⟨hsame, hzero⟩ := make_ok hgrid
    obtain ⟨hnarrowed, hend, htruncated⟩ := capped_ok h
    rw [hsame] at hnarrowed
    refine ⟨?_, hend, axes, haxes, ?_⟩
    · apply (Pointwise.comp_iff.1 ⟨axes, declaredAxes_ok haxes, hnarrowed⟩).imp
      rintro e axis ⟨whole, ⟨hname, hthin⟩, hnarrow⟩
      exact ⟨hnarrow.name.trans hname, .of_narrowed e.1 hthin hnarrow⟩
    · unfold fullSize at htruncated
      rw [hsame, hzero] at htruncated
      exact htruncated
  · exact hregular.exact (ParameterSpec.two_le_samples _)

def lookback : ParameterSpec := ⟨.int, .int 4, some 1, some 9, none, none, by decide⟩

def lookbackTable : Dict String ParameterSpec := Dict.empty.set "lookback" lookback

theorem lookback_sweeps : ∃ grid axis, fromDocument lookbackTable none 4 3 = .ok grid ∧
      grid.axes = [("lookback", axis)] ∧ axis = [.int 1, .int 6, .int 9] ∧
      grid.truncatedFrom = 4 ∧ AxisLaw "lookback" lookback 4 axis ∧
      (axis.map key).Nodup ∧ SameEnds (lookback.enumerated 4) axis ∧
      ∀ v ∈ axis, ∃ u, lookback.assertInDomain "lookback" v = .ok u := by
  obtain ⟨htotal, hlaw, hregular⟩ := from_document_sweeps lookbackTable none 4 3
  have hswept : sweptSpecs lookbackTable none = [("lookback", lookback)] := rfl
  have hhash : ∀ e ∈ sweptSpecs lookbackTable none,
      ∀ v ∈ e.2.default :: e.2.choices.getD [], v.hashable = true := by
    rw [hswept]
    decide
  obtain ⟨grid, hgrid⟩ := htotal (by decide) hhash
  obtain ⟨haxes, -, -⟩ := hlaw grid hgrid
  obtain ⟨hapart, hwithin⟩ := hregular ("lookback", lookback) (by rw [hswept]; exact .head _) {
    choices := fun h => by cases h
    low := fun _ => ⟨1, by decide +kernel⟩
    high := fun _ => ⟨9, by decide +kernel⟩
    spaced := fun _ => by decide +kernel }
  have hrun : (fromDocument lookbackTable none 4 3).toOption.map
      (fun g => (g.axes, g.truncatedFrom)) =
        some ([("lookback", [.int 1, .int 6, .int 9])], 4) := by decide +kernel
  rw [hgrid] at hrun
  obtain ⟨hvalues, hsize⟩ := Prod.mk.inj (Option.some.inj hrun)
  rw [hswept, hvalues] at haxes
  obtain ⟨⟨-, haxis⟩, -⟩ := List.forall₂_cons.1 haxes
  exact ⟨grid, _, hgrid, hvalues, rfl, hsize, haxis, haxis.distinct hapart,
    haxis.ends hapart (by decide), haxis.accepted hwithin⟩

/-- A single value an axis is the default and neither end, and a grid that fits is not said to be
truncated. -/
theorem single_value_without_ends : ∃ grid, fromDocument lookbackTable none 1 64 = .ok grid ∧
      (lookback.enumerated 1).head? = some (.int 1) ∧
      (lookback.enumerated 1).getLast? = some (.int 9) ∧
      (∀ axis ∈ grid.axes, .int 1 ∉ axis.2 ∧ .int 9 ∉ axis.2) ∧
      declaredAxes lookbackTable none 1 = .ok grid.axes ∧
      grid.truncatedFrom ≠ sizeOf grid.axes := by
  have hrun : (fromDocument lookbackTable none 1 64).toOption.map
      (fun g => (g.axes, g.truncatedFrom)) = some ([("lookback", [.int 4])], 0) := by
    decide +kernel
  have hdeclared : (declaredAxes lookbackTable none 1).toOption.map id =
      some [("lookback", [.int 4])] := by decide +kernel
  obtain ⟨grid, hgrid, hvalues⟩ := Wire.ok_of_map hrun
  obtain ⟨axes, haxes, rfl⟩ := Wire.ok_of_map hdeclared
  obtain ⟨hsame, hsize⟩ := Prod.mk.inj hvalues
  refine ⟨grid, hgrid, by decide +kernel, by decide +kernel, ?_, ?_, ?_⟩
  · rw [hsame]
    decide
  · rw [hsame]
    exact haxes
  · rw [hsame, hsize]
    decide

end ParameterGrid

end Fiboki
