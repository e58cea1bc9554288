import Fiboki.Strategy.Primitives

/-!
The regime gates of a strategy document, and the mutation that scales their bounds.
-/

namespace Fiboki.Discovery

open Floating Strategy Text

inductive NumberOrRef where
  | number (value : ℚ)
  | ref (param : String)
  deriving DecidableEq

def NumberOrRef.bound (params : String → ℚ) : NumberOrRef → ℚ
  | number value => value
  | ref param => params param

def inverted : Option NumberOrRef → Option NumberOrRef → Bool
  | some (.number lo), some (.number hi) => hi < lo
  | _, _ => false

/-- `RegimeGateRule` of a document that may hold references. -/
structure RegimeGate where
  metric : IndicatorOperand
  minValue : Option NumberOrRef
  maxValue : Option NumberOrRef
  invert : Bool
  bounded : minValue.isSome ∨ maxValue.isSome
  ordered : inverted minValue maxValue = false
  deriving DecidableEq

namespace RegimeGate

def minAt (g : RegimeGate) (params : String → ℚ) : Option ℚ :=
  g.minValue.map (NumberOrRef.bound params)

def maxAt (g : RegimeGate) (params : String → ℚ) : Option ℚ :=
  g.maxValue.map (NumberOrRef.bound params)

def Fits (g : RegimeGate) (params : String → ℚ) : Prop :=
  ∀ lo ∈ g.minAt params, ∀ hi ∈ g.maxAt params, lo ≤ hi

instance (g : RegimeGate) (params : String → ℚ) : Decidable (g.Fits params) :=
  inferInstanceAs (Decidable (∀ lo ∈ _, ∀ hi ∈ _, lo ≤ hi))

theorem bounded_bind (g : RegimeGate) (params : String → ℚ) :
    ((g.minAt params).map Number.fin).isSome ∨ ((g.maxAt params).map Number.fin).isSome := by
  simpa [minAt, maxAt] using g.bounded

variable {params : String → ℚ}

variable {g : RegimeGate}

theorem ordered_bind (h : g.Fits params) :
    ∀ lo hi, (g.minAt params).map Number.fin = some lo → (g.maxAt params).map Number.fin = some hi →
      Number.lt hi lo = false := by
  intro lo hi hlo hhi
  obtain ⟨a, ha, rfl⟩ := Option.map_eq_some_iff.1 hlo
  obtain ⟨b, hb, rfl⟩ := Option.map_eq_some_iff.1 hhi
  exact decide_eq_false (not_lt.2 (h a ha b hb))

def bind (params : String → ℚ) (g : RegimeGate) : Option RegimeGateRule :=
  if h : g.Fits params then
    some ⟨g.metric, (g.minAt params).map .fin, (g.maxAt params).map .fin, g.invert,
      g.bounded_bind params, ordered_bind h⟩
  else none

def Holds (g : RegimeGate) (params : String → ℚ) (x : ℚ) : Prop :=
  (∀ lo ∈ g.minAt params, lo ≤ x) ∧ ∀ hi ∈ g.maxAt params, x ≤ hi

theorem inside_iff (r : RegimeGateRule) (x : ℚ) : r.inside (.fin x) = true ↔
    (∀ lo ∈ r.minValue, Number.le lo (.fin x) = true) ∧
      ∀ hi ∈ r.maxValue, Number.le (.fin x) hi = true := by
  unfold RegimeGateRule.inside
  cases r.minValue <;> cases r.maxValue <;> simp

theorem evaluate_bind {r : RegimeGateRule} (h : g.bind params = some r)
    (ctx : EvalContext) : r.evaluate ctx = true ↔
      ∃ x, ctx.readIndicator g.metric = .fin x ∧ (g.invert = true ↔ ¬g.Holds params x) := by
  have hholds : ∀ x, r.inside (.fin x) = true ↔ g.Holds params x := by
    intro x
    rw [inside_iff]
    unfold bind at h
    split_ifs at h
    cases h
    simp [Holds, Number.le]
  have hsame : r.metric = g.metric ∧ r.invert = g.invert := by
    unfold bind at h
    split_ifs at h
    cases h
    exact ⟨rfl, rfl⟩
  unfold RegimeGateRule.evaluate
  rw [hsame.1, hsame.2]
  cases ctx.readIndicator g.metric with
  | nan | inf s => simp [Number.isfinite]
  | fin x =>
    have hx := hholds x
    cases g.invert <;> simp [Number.isfinite, ← hx]

end RegimeGate

/-- The rules of a regime section: its gates, and rules of other kinds. -/
inductive RegimeRule (ρ : Type) where
  | gate (g : RegimeGate)
  | other (rule : ρ)
  deriving DecidableEq

def RegimeRule.isGate {ρ : Type} : RegimeRule ρ → Bool
  | gate _ => true
  | other _ => false

section Mutation

def scaleBound (factor : ℚ) : NumberOrRef → NumberOrRef
  | .number value => .number (roundTo (value * factor) 10)
  | .ref param => .ref param

variable {ρ : Type} [DecidableEq ρ]

theorem bounded_scale (g : RegimeGate) (factor : ℚ) :
    (g.minValue.map (scaleBound factor)).isSome ∨
      (g.maxValue.map (scaleBound factor⁻¹)).isSome := by
  simpa using g.bounded

def RegimeGate.scale (factor : ℚ) (g : RegimeGate) : Except String RegimeGate :=
  if h : inverted (g.minValue.map (scaleBound factor)) (g.maxValue.map (scaleBound factor⁻¹)) =
      false then
    .ok ⟨g.metric, g.minValue.map (scaleBound factor),
      g.maxValue.map (scaleBound factor⁻¹), g.invert,
      bounded_scale g factor, h⟩
  else .error ("scaling the regime gate would invert its bounds, which is not a " ++
    "tighter regime claim but an empty one")

def scaleRule (factor : ℚ) : RegimeRule ρ → Except String (RegimeRule ρ)
  | .gate g => (g.scale factor).map .gate
  | .other rule => .ok (.other rule)

inductive ScaleVariant where
  | tighten
  | loosen

def ScaleVariant.value : ScaleVariant → String
  | tighten => "tighten"
  | loosen => "loosen"

def ScaleVariant.factor : ScaleVariant → ℚ
  | tighten => 3 / 2
  | loosen => 2 / 3

/-- The variants of `change_regime_gate` that scale. -/
def changeRegimeGate (variant : ScaleVariant) (rules : List (RegimeRule ρ)) :
    Except String (List (RegimeRule ρ)) :=
  if rules.any RegimeRule.isGate = false then
    .error ("regime variant " ++ pyRepr variant.value ++
      " is unavailable for this parent (available: ['adx_gate', 'volatility_gate'])")
  else
    match rules.mapM (scaleRule variant.factor) with
    | .error refusal => .error refusal
    | .ok changed =>
      if changed = rules then
        .error ("the regime gate's bounds are parameter REFERENCES, not literals, " ++
          "so there is no width to scale here -- the width is already part " ++
          "of the declared sweep and moving it is a reparameterisation")
      else .ok changed

end Mutation

section Rounding

theorem roundHalfEven_neg (q : ℚ) : roundHalfEven (-q) = -roundHalfEven q := by
  have hceil := Int.floor_neg (a := q)
  unfold roundHalfEven
  dsimp only
  rw [hceil]
  by_cases hint : ((⌊q⌋ : ℤ) : ℚ) = q
  · have hc : ⌈q⌉ = ⌊q⌋ := by rw [← hint, Int.ceil_intCast, Int.floor_intCast]
    rw [hc]
    push_cast
    rw [hint]
    norm_num
  · have hlt : ((⌊q⌋ : ℤ) : ℚ) < q := lt_of_le_of_ne (Int.floor_le q) hint
    have hc : ⌈q⌉ = ⌊q⌋ + 1 := by
      rw [Int.ceil_eq_iff]
      push_cast
      exact ⟨by linarith, (Int.lt_floor_add_one q).le⟩
    rw [hc]
    push_cast
    split_ifs <;> first | omega | linarith

def KeepsAbove (x : ℚ) : Prop := (-1 ≤ 3 * (x * 10 ^ 10) ∧ x * 10 ^ 10 ≤ 0) ∨ 1 < 3 * (x * 10 ^ 10)

def KeepsBelow (x : ℚ) : Prop :=
  (0 ≤ x * 10 ^ 10 ∧ (4 * (x * 10 ^ 10) ≤ 3 ∨ 1 ≤ x * 10 ^ 10)) ∨
    (-1 ≤ x * 10 ^ 10 ∧ 4 * (x * 10 ^ 10) < -3)

variable {q : ℚ}

theorem roundHalfEven_nonpos (h : q ≤ 1 / 2) : roundHalfEven q ≤ 0 := by
  rcases h.lt_or_eq with hlt | rfl
  · have hle := roundHalfEven_le_add_half q
    have hone : (roundHalfEven q : ℚ) < 1 := by linarith
    have hone : roundHalfEven q < 1 := by exact_mod_cast hone
    omega
  · decide +kernel

theorem roundHalfEven_nonneg' (h : -(1 / 2) ≤ q) : 0 ≤ roundHalfEven q := by
  have hneg := roundHalfEven_nonpos (q := -q) (by linarith)
  rw [roundHalfEven_neg] at hneg
  omega

theorem one_le_roundHalfEven (h : 1 / 2 < q) : 1 ≤ roundHalfEven q := by
  have hle := sub_half_le_roundHalfEven q
  have hpos : (0 : ℚ) < roundHalfEven q := by linarith
  have hpos : 0 < roundHalfEven q := by exact_mod_cast hpos
  omega

theorem roundHalfEven_le_neg_one (h : q < -(1 / 2)) : roundHalfEven q ≤ -1 := by
  have hneg := one_le_roundHalfEven (q := -q) (by linarith)
  rw [roundHalfEven_neg] at hneg
  omega

theorem above_units (y : ℚ) : y ≤ roundHalfEven (3 / 2 * y) ↔ (-1 ≤ 3 * y ∧ y ≤ 0) ∨ 1 < 3 * y := by
  have hlow := sub_half_le_roundHalfEven (3 / 2 * y)
  have hhigh := roundHalfEven_le_add_half (3 / 2 * y)
  rcases lt_or_ge 1 (3 * y) with hup | hup
  · have hone : (1 : ℚ) ≤ roundHalfEven (3 / 2 * y) := by
      exact_mod_cast one_le_roundHalfEven (q := 3 / 2 * y) (by linarith)
    refine iff_of_true ?_ (.inr hup)
    rcases le_total y 1 with hy | hy <;> linarith
  have hzero : (roundHalfEven (3 / 2 * y) : ℚ) ≤ 0 := by
    exact_mod_cast roundHalfEven_nonpos (q := 3 / 2 * y) (by linarith)
  rcases le_or_gt (-1) (3 * y) with hdown | hdown
  · have hnonneg : (0 : ℚ) ≤ roundHalfEven (3 / 2 * y) := by
      exact_mod_cast roundHalfEven_nonneg' (q := 3 / 2 * y) (by linarith)
    constructor
    · intro h
      exact .inl ⟨hdown, by linarith⟩
    · rintro (⟨-, hy⟩ | hy) <;> linarith
  · refine iff_of_false (not_le.2 ?_) (by rintro (⟨h, -⟩ | h) <;> linarith)
    have hone : (roundHalfEven (3 / 2 * y) : ℚ) ≤ -1 := by
      exact_mod_cast roundHalfEven_le_neg_one (q := 3 / 2 * y) (by linarith)
    rcases lt_trichotomy y (-1) with hy | rfl | hy
    · linarith
    · have htwo : roundHalfEven (3 / 2 * (-1)) = -2 := by decide +kernel
      rw [htwo]
      norm_num
    · linarith

theorem below_units (y : ℚ) : (roundHalfEven (2 / 3 * y) : ℚ) ≤ y ↔
    (0 ≤ y ∧ (4 * y ≤ 3 ∨ 1 ≤ y)) ∨ (-1 ≤ y ∧ 4 * y < -3) := by
  have hlow := sub_half_le_roundHalfEven (2 / 3 * y)
  have hhigh := roundHalfEven_le_add_half (2 / 3 * y)
  rcases lt_or_ge 3 (4 * y) with hup | hup
  · have hone : (1 : ℚ) ≤ roundHalfEven (2 / 3 * y) := by
      exact_mod_cast one_le_roundHalfEven (q := 2 / 3 * y) (by linarith)
    constructor
    · intro h
      exact .inl ⟨by linarith, .inr (hone.trans h)⟩
    · rintro (⟨-, hy | hy⟩ | ⟨-, hy⟩)
      · linarith
      · rcases le_total (3 / 2) y with hy' | hy'
        · linarith
        · have hle : (roundHalfEven (2 / 3 * y) : ℚ) ≤ (1 : ℤ) := by
            exact_mod_cast roundHalfEven_le_intCast (n := 1) (q := 2 / 3 * y)
              (by push_cast; linarith)
          push_cast at hle
          linarith
      · linarith
  have hzero : (roundHalfEven (2 / 3 * y) : ℚ) ≤ 0 := by
    exact_mod_cast roundHalfEven_nonpos (q := 2 / 3 * y) (by linarith)
  rcases le_or_gt (-3) (4 * y) with hdown | hdown
  · have hnonneg : (0 : ℚ) ≤ roundHalfEven (2 / 3 * y) := by
      exact_mod_cast roundHalfEven_nonneg' (q := 2 / 3 * y) (by linarith)
    constructor
    · intro h
      exact .inl ⟨by linarith, .inl hup⟩
    · rintro (⟨hy, -⟩ | ⟨-, hy⟩) <;> linarith
  · have hone : (roundHalfEven (2 / 3 * y) : ℚ) ≤ -1 := by
      exact_mod_cast roundHalfEven_le_neg_one (q := 2 / 3 * y) (by linarith)
    rcases le_or_gt (-1) y with hy | hy
    · exact iff_of_true (hone.trans hy) (.inr ⟨hy, hdown⟩)
    · refine iff_of_false (not_le.2 ?_) (by rintro (⟨h, -⟩ | ⟨h, -⟩) <;> linarith)
      rcases le_total y (-(3 / 2)) with hy' | hy'
      · rcases hy'.lt_or_eq with hlt | rfl
        · linarith
        · have hint : roundHalfEven (2 / 3 * (-(3 / 2))) = -1 := by decide +kernel
          rw [hint]
          norm_num
      · have hge : ((-1 : ℤ) : ℚ) ≤ roundHalfEven (2 / 3 * y) := by
          exact_mod_cast intCast_le_roundHalfEven (n := -1) (q := 2 / 3 * y)
            (by push_cast; linarith)
        push_cast at hge
        linarith

theorem le_roundTo_iff {x y : ℚ} :
    x ≤ roundTo y 10 ↔ x * 10 ^ 10 ≤ roundHalfEven (y * 10 ^ 10) := by
  unfold roundTo
  exact le_div_iff₀ (by norm_num)

theorem roundTo_le_iff {x y : ℚ} :
    roundTo y 10 ≤ x ↔ (roundHalfEven (y * 10 ^ 10) : ℚ) ≤ x * 10 ^ 10 := by
  unfold roundTo
  exact div_le_iff₀ (by norm_num)

variable (x : ℚ)

theorem roundTo_neg : roundTo (-x) 10 = -roundTo x 10 := by
  unfold roundTo
  rw [neg_mul, roundHalfEven_neg]
  push_cast
  exact neg_div _ _

theorem keepsAbove_iff : KeepsAbove x ↔ x ≤ roundTo (x * (3 / 2)) 10 := by
  rw [le_roundTo_iff, show x * (3 / 2) * 10 ^ 10 = 3 / 2 * (x * 10 ^ 10) by ring]
  exact (above_units _).symm

theorem keepsBelow_iff : KeepsBelow x ↔ roundTo (x * (2 / 3)) 10 ≤ x := by
  rw [roundTo_le_iff, show x * (2 / 3) * 10 ^ 10 = 2 / 3 * (x * 10 ^ 10) by ring]
  exact (below_units _).symm

theorem keepsAbove_neg_iff : KeepsAbove (-x) ↔ roundTo (x * (3 / 2)) 10 ≤ x := by
  rw [keepsAbove_iff, neg_mul, roundTo_neg, neg_le_neg_iff]

theorem keepsBelow_neg_iff : KeepsBelow (-x) ↔ x ≤ roundTo (x * (2 / 3)) 10 := by
  rw [keepsBelow_iff, neg_mul, roundTo_neg, neg_le_neg_iff]

end Rounding

section Bands

variable {g g' : RegimeGate}

variable {params : String → ℚ}

theorem bind_of_fits (h : g.Fits params) : ∃ r, g.bind params = some r := by
  unfold RegimeGate.bind
  rw [dif_pos h]
  exact ⟨_, rfl⟩

theorem fits_of_bind {r : RegimeGateRule} (h : g.bind params = some r) : g.Fits params := by
  unfold RegimeGate.bind at h
  split_ifs at h with hfits
  exact hfits

theorem fits_above {x P : ℚ} (h : g.minValue = some (.number x)) (hP : x ≤ P) :
    g.Fits fun _ => P := by
  have hordered := g.ordered
  intro lo hlo hi hhi
  unfold RegimeGate.minAt at hlo
  unfold RegimeGate.maxAt at hhi
  rw [h] at hlo hordered
  cases hlo
  obtain ⟨b, hb, rfl⟩ := Option.map_eq_some_iff.1 hhi
  rw [hb] at hordered
  cases b with
  | number y => exact not_lt.1 (of_decide_eq_false hordered)
  | ref param => exact hP

theorem fits_below {y P : ℚ} (h : g.maxValue = some (.number y)) (hP : P ≤ y) :
    g.Fits fun _ => P := by
  have hordered := g.ordered
  intro lo hlo hi hhi
  unfold RegimeGate.minAt at hlo
  unfold RegimeGate.maxAt at hhi
  rw [h] at hhi hordered
  cases hhi
  obtain ⟨b, hb, rfl⟩ := Option.map_eq_some_iff.1 hlo
  rw [hb] at hordered
  cases b with
  | number x => exact not_lt.1 (of_decide_eq_false hordered)
  | ref param => exact hP

inductive Moved : Option NumberOrRef → Option NumberOrRef → Prop
  | none : Moved none none
  | ref (param : String) : Moved (some (.ref param)) (some (.ref param))
  | number (x x' : ℚ) : Moved (some (.number x)) (some (.number x'))

theorem Moved.mono {r : ℚ → ℚ → Prop} (htrans : ∀ a b c, r a b → r b c → r a c)
    {b b' : Option NumberOrRef} (h : Moved b b')
    (hle : ∀ x x', b = some (.number x) → b' = some (.number x') → r x' x)
    {x : ℚ} (hx : ∀ a ∈ b.map (NumberOrRef.bound params), r a x) :
    ∀ a ∈ b'.map (NumberOrRef.bound params), r a x := by
  cases h with
  | none | ref param => exact hx
  | number z z' =>
    intro a ha
    cases ha
    exact htrans _ _ _ (hle z z' rfl rfl) (hx z rfl)

def Within (g g' : RegimeGate) : Prop :=
  ∀ params, g.Fits params → g'.Fits params → ∀ x, g.Holds params x → g'.Holds params x

theorem within_iff (hmin : Moved g.minValue g'.minValue) (hmax : Moved g.maxValue g'.maxValue) :
    Within g g' ↔
      (∀ x x', g.minValue = some (.number x) → g'.minValue = some (.number x') → x' ≤ x) ∧
        ∀ y y', g.maxValue = some (.number y) → g'.maxValue = some (.number y') → y ≤ y' := by
  constructor
  · intro h
    constructor
    · intro x x' hx hx'
      by_contra hlt
      have hfits := fits_above hx (le_of_not_ge hlt)
      have hat : g.minAt (fun _ => x') = some x := by rw [RegimeGate.minAt, hx]; rfl
      have hat' : g'.minAt (fun _ => x') = some x' := by rw [RegimeGate.minAt, hx']; rfl
      have hin : g.Holds (fun _ => x') x :=
        ⟨fun lo hlo => (Option.some.inj (hat.symm.trans hlo)).ge, hfits x hat⟩
      exact hlt ((h _ hfits (fits_above hx' le_rfl) x hin).1 x' hat')
    · intro y y' hy hy'
      by_contra hlt
      have hfits := fits_below hy (le_of_not_ge hlt)
      have hat : g.maxAt (fun _ => y') = some y := by rw [RegimeGate.maxAt, hy]; rfl
      have hat' : g'.maxAt (fun _ => y') = some y' := by rw [RegimeGate.maxAt, hy']; rfl
      have hin : g.Holds (fun _ => y') y :=
        ⟨fun lo hlo => hfits lo hlo y hat, fun hi hhi => (Option.some.inj (hat.symm.trans hhi)).le⟩
      exact hlt ((h _ hfits (fits_below hy' le_rfl) y hin).2 y' hat')
  · rintro ⟨hlow, hhigh⟩ params - - x ⟨hlo, hhi⟩
    exact ⟨hmin.mono (fun _ _ _ h h' => h.trans h') hlow hlo,
      hmax.mono (r := fun a x => x ≤ a) (fun _ _ _ h h' => h'.trans h) hhigh hhi⟩

end Bands

section Sections

variable {ρ : Type} (bindOther : ρ → (String → ℚ) → Option Rule)

def RegimeRule.bind (params : String → ℚ) : RegimeRule ρ → Option Rule
  | gate g => (g.bind params).map fun r => .atom (.regimeGate r)
  | other rule => bindOther rule params

def RuleImplies (a b : RegimeRule ρ) : Prop :=
  ∀ params x y, a.bind bindOther params = some x → b.bind bindOther params = some y →
    ∀ ctx, evaluate ctx x = true → evaluate ctx y = true

def SectionImplies (rules rules' : List (RegimeRule ρ)) : Prop :=
  ∀ params bound bound', rules.mapM (RegimeRule.bind bindOther params) = some bound →
    rules'.mapM (RegimeRule.bind bindOther params) = some bound' →
    ∀ ctx, bound.all (evaluate ctx) = true → bound'.all (evaluate ctx) = true

theorem SectionImplies.of_rules {rules rules' : List (RegimeRule ρ)}
    (h : List.Forall₂ (RuleImplies bindOther) rules rules') :
    SectionImplies bindOther rules rules' := by
  intro params bound bound' hbound hbound' ctx hadmits
  induction h generalizing bound bound' with
  | nil =>
    cases hbound'
    rfl
  | cons hrule _ ih =>
    simp only [List.mapM_cons, Option.bind_eq_bind, Option.bind_eq_some_iff, Option.pure_def,
      Option.some.injEq] at hbound hbound'
    obtain ⟨x, hx, xs, hxs, rfl⟩ := hbound
    obtain ⟨y, hy, ys, hys, rfl⟩ := hbound'
    rw [List.all_cons, Bool.and_eq_true] at hadmits ⊢
    exact ⟨hrule params x y hx hy ctx hadmits.1, ih xs ys hxs hys hadmits.2⟩

theorem SectionImplies.single {a b : RegimeRule ρ} :
    SectionImplies bindOther [a] [b] ↔ RuleImplies bindOther a b := by
  constructor
  · intro h params x y hx hy ctx hadmits
    have hlist := h params [x] [y] (by simp [hx]) (by simp [hy]) ctx (by simp [hadmits])
    simpa using hlist
  · exact fun h => .of_rules bindOther (.cons h .nil)

theorem ruleImplies_gate {g g' : RegimeGate} (hmetric : g'.metric = g.metric)
    (hinvert : g'.invert = g.invert) : RuleImplies bindOther (.gate g) (.gate g') ↔
      if g.invert then Within g' g else Within g g' := by
  have hgates : RuleImplies bindOther (.gate g) (.gate g') ↔ ∀ params, g.Fits params →
      g'.Fits params → ∀ x, (g.invert = true ↔ ¬g.Holds params x) →
        (g.invert = true ↔ ¬g'.Holds params x) := by
    constructor
    · intro h params hfits hfits' x hin
      obtain ⟨r, hr⟩ := bind_of_fits hfits
      obtain ⟨r', hr'⟩ := bind_of_fits hfits'
      let ctx : EvalContext := ⟨fun _ _ => .nan, fun _ _ => .fin x, g.metric.offset, 0⟩
      have hread : ctx.readIndicator g.metric = .fin x := if_neg (lt_irrefl _)
      have himplies := h params _ _ (congrArg (Option.map _) hr) (congrArg (Option.map _) hr') ctx
        ((RegimeGate.evaluate_bind hr ctx).2 ⟨x, hread, hin⟩)
      obtain ⟨x', hread', hout⟩ := (RegimeGate.evaluate_bind hr' ctx).1 himplies
      rw [hmetric, hread] at hread'
      cases hread'
      rwa [hinvert] at hout
    · intro h params a b ha hb ctx hadmits
      obtain ⟨r, hr, rfl⟩ := Option.map_eq_some_iff.1 ha
      obtain ⟨r', hr', rfl⟩ := Option.map_eq_some_iff.1 hb
      obtain ⟨x, hread, hin⟩ := (RegimeGate.evaluate_bind hr ctx).1 hadmits
      refine (RegimeGate.evaluate_bind hr' ctx).2 ⟨x, hmetric ▸ hread, ?_⟩
      rw [hinvert]
      exact h params (fits_of_bind hr) (fits_of_bind hr') x hin
  rw [hgates]
  cases g.invert with
  | false =>
    simp only [Bool.false_eq_true, false_iff, not_not, if_false]
    exact Iff.rfl
  | true =>
    simp only [true_iff, not_imp_not, if_true]
    exact ⟨fun h params hfits' hfits => h params hfits hfits',
      fun h params hfits hfits' => h params hfits' hfits⟩

end Sections

section Scaling

variable {ρ : Type} (bindOther : ρ → (String → ℚ) → Option Rule)

def RegimeGate.sign (g : RegimeGate) : ℚ := if g.invert then -1 else 1

def RegimeGate.Scales : ScaleVariant → RegimeGate → Prop
  | .tighten, g => (∀ x, g.minValue = some (.number x) → KeepsAbove (g.sign * x)) ∧
      ∀ y, g.maxValue = some (.number y) → KeepsBelow (g.sign * y)
  | .loosen, g => (∀ x, g.minValue = some (.number x) → KeepsBelow (g.sign * x)) ∧
      ∀ y, g.maxValue = some (.number y) → KeepsAbove (g.sign * y)

def ScaleVariant.Law {α : Type} (implies : α → α → Prop) : ScaleVariant → α → α → Prop
  | tighten, parent, mutant => implies mutant parent
  | loosen, parent, mutant => implies parent mutant

variable {factor : ℚ}

variable {g g' : RegimeGate}

theorem scale_ok (h : g.scale factor = .ok g') :
    g'.metric = g.metric ∧ g'.invert = g.invert ∧ g'.minValue = g.minValue.map (scaleBound factor) ∧
      g'.maxValue = g.maxValue.map (scaleBound factor⁻¹) := by
  unfold RegimeGate.scale at h
  split_ifs at h
  cases h
  exact ⟨rfl, rfl, rfl, rfl⟩

theorem moved_scale (b : Option NumberOrRef) (factor : ℚ) :
    Moved b (b.map (scaleBound factor)) ∧ Moved (b.map (scaleBound factor)) b := by
  rcases b with _ | ⟨x⟩ | ⟨param⟩
  · exact ⟨.none, .none⟩
  · exact ⟨.number _ _, .number _ _⟩
  · exact ⟨.ref param, .ref param⟩

variable {P : ℚ → ℚ → Prop} {b : Option NumberOrRef}

theorem scaled_number :
    (∀ x x', b = some (.number x) → b.map (scaleBound factor) = some (.number x') → P x x') ↔
      ∀ x, b = some (.number x) → P x (roundTo (x * factor) 10) := by
  constructor
  · intro h x hx
    exact h x _ hx (by rw [hx]; rfl)
  · rintro h x x' rfl hx'
    cases hx'
    exact h x rfl

theorem number_scaled :
    (∀ x' x, b.map (scaleBound factor) = some (.number x') → b = some (.number x) → P x' x) ↔
      ∀ x, b = some (.number x) → P (roundTo (x * factor) 10) x := by
  rw [← scaled_number (P := fun x x' => P x' x)]
  exact ⟨fun h x x' hx hx' => h x' x hx' hx, fun h x' x hx' hx => h x x' hx hx'⟩

variable {variant : ScaleVariant}

theorem law_gate (h : g.scale variant.factor = .ok g') :
    variant.Law (RuleImplies bindOther) (.gate g) (.gate g') ↔ g.Scales variant := by
  obtain ⟨hmetric, hinvert, hmin, hmax⟩ := scale_ok h
  have hforth : Within g g' ↔ _ := within_iff (hmin ▸ (moved_scale _ _).1)
    (hmax ▸ (moved_scale _ _).1)
  have hback : Within g' g ↔ _ := within_iff (hmin ▸ (moved_scale _ _).2)
    (hmax ▸ (moved_scale _ _).2)
  rw [hmin, hmax] at hforth hback
  rw [scaled_number (P := fun x x' => x' ≤ x), scaled_number (P := fun y y' => y ≤ y')] at hforth
  rw [number_scaled (P := fun x x' => x' ≤ x), number_scaled (P := fun y y' => y ≤ y')] at hback
  have hhalf : (3 / 2 : ℚ)⁻¹ = 2 / 3 := by norm_num
  have hthird : (2 / 3 : ℚ)⁻¹ = 3 / 2 := by norm_num
  cases variant with
  | tighten =>
    refine (ruleImplies_gate bindOther hmetric.symm hinvert.symm).trans ?_
    simp only [ScaleVariant.factor, hhalf] at hforth hback
    simp only [RegimeGate.Scales, RegimeGate.sign, hinvert]
    cases hg : g.invert with
    | false =>
      simpa only [Bool.false_eq_true, if_false, one_mul, keepsAbove_iff, keepsBelow_iff] using hback
    | true =>
      simpa only [if_true, neg_one_mul, keepsAbove_neg_iff, keepsBelow_neg_iff] using hforth
  | loosen =>
    refine (ruleImplies_gate bindOther hmetric hinvert).trans ?_
    simp only [ScaleVariant.factor, hthird] at hforth hback
    simp only [RegimeGate.Scales, RegimeGate.sign]
    cases hg : g.invert with
    | false =>
      simpa only [Bool.false_eq_true, if_false, one_mul, keepsAbove_iff,
        keepsBelow_iff] using hforth
    | true =>
      simpa only [if_true, neg_one_mul, keepsAbove_neg_iff, keepsBelow_neg_iff] using hback

theorem scaleRule_gate {g : RegimeGate} {rule : RegimeRule ρ}
    (h : scaleRule factor (.gate g) = .ok rule) : ∃ g', g.scale factor = .ok g' ∧ rule =
      .gate g' := by
  change (g.scale factor).map RegimeRule.gate = .ok rule at h
  cases hscale : g.scale factor with
  | error refusal =>
    rw [hscale] at h
    cases h
  | ok g' =>
    rw [hscale] at h
    cases h
    exact ⟨g', rfl, rfl⟩

variable {rules changed : List (RegimeRule ρ)}

theorem scaleRules_ok (h : rules.mapM (scaleRule factor) = .ok changed) :
    List.Forall₂ (fun rule rule' => scaleRule factor rule = .ok rule') rules changed := by
  induction rules generalizing changed with
  | nil =>
    cases h
    exact .nil
  | cons rule rules ih =>
    rw [List.mapM_cons] at h
    cases hrule : scaleRule factor rule with
    | error refusal =>
      rw [hrule] at h
      cases h
    | ok rule' =>
      rw [hrule] at h
      cases hrest : rules.mapM (scaleRule factor) with
      | error refusal =>
        rw [hrest] at h
        cases h
      | ok rest =>
        rw [hrest] at h
        cases h
        exact .cons hrule (ih hrest)

variable [DecidableEq ρ]

theorem changeRegimeGate_ok (h : changeRegimeGate variant rules = .ok changed) :
    List.Forall₂ (fun rule rule' => scaleRule variant.factor rule = .ok rule') rules changed := by
  unfold changeRegimeGate at h
  split_ifs at h
  split at h
  · cases h
  · rename_i scaled hscaled
    split_ifs at h
    cases h
    exact scaleRules_ok hscaled

/-- A section that is tightened admits a bar only where the parent's does, and one that is loosened
admits all of those, where the literal bounds of each gate are ones that the variant moves its way;
and for a section of one gate only there. -/
theorem scaled_section (variant : ScaleVariant) {rules changed : List (RegimeRule ρ)}
    (h : changeRegimeGate variant rules = .ok changed) :
    ((∀ g, .gate g ∈ rules → g.Scales variant) →
      variant.Law (SectionImplies bindOther) rules changed) ∧
    ∀ g, rules = [.gate g] →
      (variant.Law (SectionImplies bindOther) rules changed ↔ g.Scales variant) := by
  have hrules := changeRegimeGate_ok h
  constructor
  · intro hscales
    have hlaw : List.Forall₂ (variant.Law (RuleImplies bindOther)) rules changed := by
      refine ((List.forall₂_and_left _ _).2 ⟨fun _ hrule => hrule, hrules⟩).imp ?_
      rintro rule rule' ⟨hmem, hscale⟩
      cases rule with
      | gate g =>
        obtain ⟨g', hg', rfl⟩ := scaleRule_gate hscale
        exact (law_gate bindOther hg').2 (hscales g hmem)
      | other rule =>
        cases hscale
        cases variant <;>
        · intro params x y hx hy ctx hadmits
          cases hx.symm.trans hy
          exact hadmits
    cases variant with
    | tighten => exact .of_rules bindOther hlaw.flip
    | loosen => exact .of_rules bindOther hlaw
  · rintro g rfl
    obtain ⟨g', hg', rfl⟩ : ∃ g', g.scale variant.factor = .ok g' ∧ changed = [.gate g'] := by
      cases hrules with
      | cons hscale hnil =>
        cases hnil
        obtain ⟨g', hg', rfl⟩ := scaleRule_gate hscale
        exact ⟨g', hg', rfl⟩
    rw [← law_gate bindOther hg']
    cases variant with
    | tighten | loosen => exact SectionImplies.single bindOther

theorem bounded_floor (x : ℚ) :
    (some (NumberOrRef.number x)).isSome ∨ (none : Option NumberOrRef).isSome := .inl rfl

theorem ordered_floor (x : ℚ) : inverted (some (.number x)) none = false := rfl

def floorAt (x : ℚ) : RegimeGate :=
  ⟨⟨"roc_12", 0⟩, some (.number x), none, false, bounded_floor x, ordered_floor x⟩

theorem scaled_section_sample :
    changeRegimeGate (ρ := Empty) .tighten [.gate (floorAt 20)] = .ok [.gate (floorAt 30)] ∧
      SectionImplies (ρ := Empty) Empty.elim [.gate (floorAt 30)] [.gate (floorAt 20)] := by
  have h : changeRegimeGate (ρ := Empty) .tighten [.gate (floorAt 20)] =
      .ok [.gate (floorAt 30)] := by decide +kernel
  refine ⟨h, ((scaled_section Empty.elim .tighten h).2 (floorAt 20) rfl).2 ⟨?_, nofun⟩⟩
  intro x hx
  cases hx
  exact .inr (by decide +kernel)

/-- A floor under zero that is tightened admits more bars. -/
theorem tightened_floor_admits_more :
    changeRegimeGate (ρ := Empty) .tighten [.gate (floorAt (-1))] = .ok [.gate (floorAt (-3 / 2))] ∧
      ¬SectionImplies (ρ := Empty) Empty.elim [.gate (floorAt (-3 / 2))]
        [.gate (floorAt (-1))] := by
  refine ⟨by decide +kernel, fun himplies => ?_⟩
  have hscale : (floorAt (-1)).scale ScaleVariant.tighten.factor = .ok (floorAt (-3 / 2)) := by
    decide +kernel
  have hkeeps := (law_gate (ρ := Empty) Empty.elim hscale).1
    ((SectionImplies.single Empty.elim).1 himplies)
  have habove : KeepsAbove (1 * (-1)) := hkeeps.1 (-1) rfl
  unfold KeepsAbove at habove
  norm_num at habove

end Scaling

end Fiboki.Discovery
