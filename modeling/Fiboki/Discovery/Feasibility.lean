import Fiboki.Validation.SweepGridLaw

/-!
The feasibility of the declared parameter domains: the cells of the grid are bound one after the
other, and those that cannot exist are counted.
-/

namespace Fiboki.Discovery

open ParamValue (key distinct)
open ParameterGrid (product fromDocument)

structure FeasibilityReport where
  nCells : ℕ
  nInfeasible : ℕ
  exhaustive : Bool
  declaredProduct : ℕ
  axes : List String
  examples : List String
  deriving DecidableEq

def FeasibilityReport.feasible (r : FeasibilityReport) : Bool := r.nInfeasible = 0

/-- `_declared_product`, 0 where a domain is continuous. -/
def declaredProduct (parameters : Dict String ParameterSpec) : ℕ :=
  match parameters.entries.mapM fun e => e.2.domain with
  | .ok domains => (domains.map List.length).prod
  | .error _ => 0

/-- `{**defaults, **point}`. -/
def cellOf (defaults point : Params) : Params := Dict.ofList (defaults.entries ++ point.entries)

def boundCells (parameters : Dict String ParameterSpec) (maxCells maxValuesPerAxis : ℤ) :
    Except String (List Params) :=
  let defaults := parameters.map ParameterSpec.default
  if parameters.entries = [] then .ok [defaults]
  else do
    let grid ← fromDocument parameters none maxValuesPerAxis maxCells
    .ok (grid.points.map (cellOf defaults))

section Binding

variable {δ : Type} (bind : Params → Except String δ)

def bindCells (maxExamples : ℕ) : List Params → List String → List String
  | [], infeasible => infeasible
  | cell :: cells, infeasible =>
    match bind cell with
    | .ok _ => bindCells maxExamples cells infeasible
    | .error refusal => bindCells maxExamples cells
      (infeasible ++ [if infeasible.length < maxExamples then refusal else ""])

/-- `domain_feasibility` of a document, by its parameters and its `bind`, which answers with the
text of the `BindingError` where it refuses. -/
def domainFeasibility (parameters : Dict String ParameterSpec) (maxCells maxValuesPerAxis : ℤ)
    (maxExamples : ℕ) : Except String FeasibilityReport :=
  let defaults := parameters.map ParameterSpec.default
  if parameters.entries = [] then
    match bind defaults with
    | .error refusal => .ok ⟨1, 1, true, 1, [], [refusal]⟩
    | .ok _ => .ok ⟨1, 0, true, 1, [], []⟩
  else do
    let grid ← fromDocument parameters none maxValuesPerAxis maxCells
    let infeasible := bindCells bind maxExamples (grid.points.map (cellOf defaults)) []
    let declared := declaredProduct parameters
    .ok ⟨grid.points.length, infeasible.length,
      decide (declared ≠ 0 ∧ grid.fullSize = declared), declared, grid.names,
      (infeasible.take maxExamples).filter (· ≠ "")⟩

def refused (cell : Params) : Bool := !(bind cell).isOk

theorem length_bindCells (maxExamples : ℕ) (cells : List Params) (infeasible : List String) :
    (bindCells bind maxExamples cells infeasible).length =
      infeasible.length + cells.countP (refused bind) := by
  induction cells generalizing infeasible with
  | nil => rfl
  | cons cell cells ih =>
    rw [bindCells, List.countP_cons, refused]
    cases bind cell with
    | ok doc => exact ih infeasible
    | error refusal =>
      dsimp only
      rw [ih, List.length_append, List.length_singleton]
      exact (Nat.add_assoc ..).trans (congrArg _ (Nat.add_comm ..))

end Binding

section Exhaustive

theorem length_distinct_le (values : List ParamValue) : (distinct values).length ≤
    values.length := by
  induction values with
  | nil => exact le_rfl
  | cons v values ih =>
    rw [distinct, List.length_cons, List.length_cons]
    exact Nat.succ_le_succ ((List.length_filter_le _ _).trans ih)

theorem thin_whole {values part : List ParamValue} {keep : ℤ} {default : ParamValue}
    (h : thin values keep default = .ok part) : part = values ∨ part.length < values.length := by
  unfold thin at h
  dsimp only at h
  split_ifs at h with hfits hone hdefault hreplace hhash
  · cases h
    exact .inl rfl
  · cases h
    right
    rw [List.length_singleton]
    omega
  · cases h
    right
    have hle : (values[values.length / 2]?).toList.length ≤ 1 := by
      cases values[values.length / 2]? <;> simp
    omega
  · cases h
    right
    rw [List.length_insertionSort]
    refine (length_distinct_le _).trans_lt ?_
    rw [List.length_set, (pick_spread (by omega) (by omega)).2.1]
    omega
  · cases h
    right
    rw [(pick_spread (by omega) (by omega)).2.1]
    omega

theorem factors_eq {α β : Type} {R : α → β → Prop} {f : α → ℕ} {g : β → ℕ} {xs : List α}
    {ys : List β} (h : List.Forall₂ R xs ys) (hle : ∀ a b, R a b → g b ≤ f a)
    (hpos : (xs.map f).prod ≠ 0) (hprod : (ys.map g).prod = (xs.map f).prod) :
    List.Forall₂ (fun a b => R a b ∧ g b = f a) xs ys := by
  induction h with
  | nil => exact .nil
  | @cons a b xs ys hab hrest ih =>
    rw [List.map_cons, List.prod_cons] at hpos
    rw [List.map_cons, List.prod_cons, List.map_cons, List.prod_cons] at hprod
    obtain ⟨ha, hxs⟩ := Nat.mul_ne_zero_iff.1 hpos
    have hprods : (ys.map g).prod ≤ (xs.map f).prod := by
      apply List.Forall₂.prod_le_prod'
      rw [List.forall₂_map_left_iff, List.forall₂_map_right_iff]
      exact hrest.flip.imp fun b a => hle a b
    have hfactor : g b = f a := by
      refine le_antisymm (hle a b hab) (le_of_not_gt fun hlt => ?_)
      have hsmaller := Nat.mul_lt_mul_of_lt_of_le hlt hprods (Nat.pos_of_ne_zero hxs)
      omega
    rw [hfactor] at hprod
    exact .cons ⟨hab, hfactor⟩ (ih hxs (Nat.eq_of_mul_eq_mul_left (Nat.pos_of_ne_zero ha) hprod))

variable {parameters : Dict String ParameterSpec} {maxCells maxValuesPerAxis : ℤ}
  {grid : ParameterGrid}

theorem enumerated_of_domain {spec : ParameterSpec} {values : List ParamValue}
    (h : spec.domain = .ok values) (maxValuesPerAxis : ℤ) :
    spec.enumerated maxValuesPerAxis = values := by
  unfold ParameterSpec.enumerated
  rw [h]

theorem declaredProduct_eq (h : declaredProduct parameters ≠ 0) (maxValuesPerAxis : ℤ) :
    declaredProduct parameters =
      (parameters.entries.map fun e => (e.2.enumerated maxValuesPerAxis).length).prod := by
  unfold declaredProduct at h ⊢
  cases hdomains : parameters.entries.mapM fun e => e.2.domain with
  | error refusal =>
    rw [hdomains] at h
    exact absurd rfl h
  | ok domains =>
    refine congrArg List.prod (Pointwise.map_eq (Wire.forall₂_of_mapM hdomains)
      (List.forall₂_same.2 fun e _ => Eq.refl e) ?_)
    rintro e - values e' hvalues rfl
    rw [enumerated_of_domain hvalues]

theorem fromDocument_axes (h : fromDocument parameters none maxValuesPerAxis maxCells = .ok grid) :
    List.Forall₂ (fun e axis => axis.1 = e.1 ∧
      ((axis.2.map key).Sublist ((e.2.enumerated maxValuesPerAxis).map key)) ∧
      (axis.2.length = (e.2.enumerated maxValuesPerAxis).length →
        axis.2 = e.2.enumerated maxValuesPerAxis)) parameters.entries grid.axes := by
  obtain ⟨axes, haxes, h⟩ := Wire.bind_ok h
  obtain ⟨whole, hwhole, h⟩ := Wire.bind_ok h
  have hnarrowed := (ParameterGrid.capped_ok h).1
  rw [(ParameterGrid.make_ok hwhole).1] at hnarrowed
  have hswept : ParameterGrid.sweptSpecs parameters none = parameters.entries :=
    List.filter_eq_self.2 fun _ _ => rfl
  have hthin := Wire.forall₂_of_mapM haxes
  rw [hswept] at hthin
  refine (Pointwise.comp_iff.1 ⟨axes, hthin, hnarrowed⟩).imp ?_
  rintro e axis ⟨declared, hdeclared, hnarrow⟩
  obtain ⟨values, hvalues, hdeclared⟩ := Wire.bind_ok hdeclared
  cases hdeclared
  refine ⟨hnarrow.name, (hnarrow.sub.map key).trans (thin_spec hvalues).isPart.sub,
    fun hlength => ?_⟩
  have hle := hnarrow.sub.length_le
  rcases thin_whole hvalues with rfl | hlt
  · exact hnarrow.sub.eq_of_length hlength
  · dsimp only at hle
    omega

end Exhaustive

section Cells

variable {parameters : Dict String ParameterSpec} {axes : List Axis}

variable {point : List (String × ParamValue)}

theorem mem_product (h : List.Forall₂ (fun axis e => e.1 = axis.1 ∧ e.2 ∈ axis.2) axes point) :
    point ∈ product axes := by
  induction h with
  | nil => exact List.mem_singleton_self _
  | @cons axis e axes point he _ ih =>
    obtain ⟨name, values⟩ := axis
    obtain ⟨name', v⟩ := e
    obtain ⟨rfl, hv⟩ := he
    exact List.mem_flatMap.2 ⟨v, hv, List.mem_map.2 ⟨point, ih, rfl⟩⟩

theorem names_of_product (h : point ∈ product axes) : point.map Prod.fst = axes.map Prod.fst := by
  induction axes generalizing point with
  | nil =>
    cases List.mem_singleton.1 h
    rfl
  | cons axis axes ih =>
    obtain ⟨v, -, hv⟩ := List.mem_flatMap.1 h
    obtain ⟨rest, hrest, rfl⟩ := List.mem_map.1 hv
    rw [List.map_cons, List.map_cons, ih hrest]

theorem nodup_product (h : ∀ axis ∈ axes, axis.2.Nodup) : (product axes).Nodup := by
  induction axes with
  | nil => exact List.nodup_singleton _
  | cons axis axes ih =>
    have hrest := ih fun other hother => h other (List.mem_cons_of_mem _ hother)
    refine List.nodup_flatMap.2 ⟨fun v _ => hrest.map fun _ _ heq => (List.cons.inj heq).2, ?_⟩
    refine (h axis List.mem_cons_self).imp fun {v w} hne => ?_
    intro point hv hw
    obtain ⟨rest, -, rfl⟩ := List.mem_map.1 hv
    obtain ⟨rest', -, heq⟩ := List.mem_map.1 hw
    exact hne (Prod.mk.inj (List.cons.inj heq).1).2.symm

theorem cellOf_eq {point : Params} (h : point.keys = parameters.keys) :
    cellOf (parameters.map ParameterSpec.default) point = point := by
  apply Dict.ext_get
  intro k
  unfold cellOf
  have hpoint := Dict.get_ofList_eq_getLast? point.entries k
  rw [Dict.ofList_entries] at hpoint
  rw [Dict.get_ofList_eq_getLast?, List.filter_append, List.getLast?_append]
  cases hlast : (point.entries.filter fun e => e.1 = k).getLast? with
  | some e =>
    rw [hpoint, hlast]
    rfl
  | none =>
    have hnone : (parameters.map ParameterSpec.default).get k = none := by
      have hkey : k ∉ parameters.keys := by
        rw [← h, Dict.mem_keys, hpoint, hlast]
        rintro ⟨v, hv⟩
        cases hv
      rw [Dict.get_map]
      cases hget : parameters.get k with
      | none => rfl
      | some spec => exact absurd (Dict.mem_keys.2 ⟨spec, hget⟩) hkey
    have hdefaults := Dict.get_ofList_eq_getLast? (parameters.map ParameterSpec.default).entries k
    rw [Dict.ofList_entries, hnone] at hdefaults
    rw [Option.none_or, ← hdefaults, hpoint, hlast]
    rfl

theorem entries_ofList
    (h : point.map Prod.fst = parameters.keys) : (Dict.ofList point).entries = point := by
  have hsorted : point.Pairwise fun a b => a.1 < b.1 := by
    have hkeys : parameters.keys.Pairwise (· < ·) := List.pairwise_map.2 parameters.sorted
    rw [← h] at hkeys
    exact List.pairwise_map.1 hkeys
  exact congrArg Dict.entries (Dict.ofList_entries ⟨point, hsorted⟩)

end Cells

def Declared (parameters : Dict String ParameterSpec) (cell : Params) : Prop :=
  List.Forall₂ (fun e f => f.1 = e.1 ∧ ∃ values, e.2.domain = .ok values ∧ f.2 ∈ values)
    parameters.entries cell.entries

/-- The cells of a report: each is bound and counted once, and where the report is exhaustive they
are all cells of the declared domains. -/
theorem feasibility_honest {δ : Type} (bind : Params → Except String δ)
    (parameters : Dict String ParameterSpec) (maxCells maxValuesPerAxis : ℤ) (maxExamples : ℕ)
    {report : FeasibilityReport}
    (h : domainFeasibility bind parameters maxCells maxValuesPerAxis maxExamples = .ok report) :
    ∃ cells, boundCells parameters maxCells maxValuesPerAxis = .ok cells ∧
      report.nCells = cells.length ∧ report.nInfeasible = cells.countP (refused bind) ∧
      ((∀ e ∈ parameters.entries, ((e.2.enumerated maxValuesPerAxis).map key).Nodup) →
        cells.Nodup) ∧
      (report.exhaustive = true → ∀ cell, Declared parameters cell → cell ∈ cells) ∧
      (report.exhaustive = true → report.feasible = true →
        ∀ cell, Declared parameters cell → ∃ document, bind cell = .ok document) := by
  have hstrategy : ∀ cells : List Params, report.nInfeasible = cells.countP (refused bind) →
      (report.exhaustive = true → ∀ cell, Declared parameters cell → cell ∈ cells) →
      report.exhaustive = true → report.feasible = true →
        ∀ cell, Declared parameters cell → ∃ document, bind cell = .ok document := by
    intro cells hcount hall hexhaustive hfeasible cell hcell
    have hzero : cells.countP (refused bind) = 0 := hcount ▸ of_decide_eq_true hfeasible
    have hkept := List.countP_eq_zero.1 hzero cell (hall hexhaustive cell hcell)
    unfold refused at hkept
    cases hbind : bind cell with
    | ok document => exact ⟨document, rfl⟩
    | error refusal =>
      rw [hbind] at hkept
      exact absurd rfl hkept
  unfold domainFeasibility at h
  unfold boundCells
  by_cases hempty : parameters.entries = []
  · rw [if_pos hempty] at h ⊢
    have hcells : ∀ cell, Declared parameters cell →
        cell ∈ [parameters.map ParameterSpec.default] := by
      intro cell hcell
      unfold Declared at hcell
      rw [hempty, List.forall₂_nil_left_iff] at hcell
      refine List.mem_singleton.2 (Dict.ext_get fun k => ?_)
      change Dict.lookup k cell.entries = Dict.lookup k (parameters.entries.map _)
      rw [hcell, hempty]
      rfl
    have hcount : report.nCells = 1 ∧ report.nInfeasible =
        [parameters.map ParameterSpec.default].countP (refused bind) := by
      rw [List.countP_singleton, refused]
      cases hbind : bind (parameters.map ParameterSpec.default) with
      | ok document | error refusal =>
        rw [hbind] at h
        cases h
        exact ⟨rfl, rfl⟩
    exact ⟨_, rfl, hcount.1, hcount.2, fun _ => List.nodup_singleton _, fun _ => hcells,
      hstrategy _ hcount.2 fun _ => hcells⟩
  · rw [if_neg hempty] at h ⊢
    obtain ⟨grid, hgrid, h⟩ := Wire.bind_ok h
    have haxes := fromDocument_axes hgrid
    have hnames : ∀ point ∈ product grid.axes, point.map Prod.fst = parameters.keys :=
      fun point hpoint => (names_of_product hpoint).trans
        (ParameterGrid.names_of_forall₂ haxes (f := id) fun e axis haxis => haxis.1)
    have hcells : grid.points.map (cellOf (parameters.map ParameterSpec.default)) =
      grid.points := by
      refine (List.map_congr_left (g := id) fun point hpoint => ?_).trans (List.map_id _)
      obtain ⟨entries, hentries, rfl⟩ := List.mem_map.1 hpoint
      apply cellOf_eq
      unfold Dict.keys
      rw [entries_ofList (hnames entries hentries)]
      exact hnames entries hentries
    dsimp only at h
    rw [hcells] at h
    have hcount : report.nInfeasible = grid.points.countP (refused bind) := by
      cases h
      exact (length_bindCells bind maxExamples _ []).trans (Nat.zero_add _)
    have hall : report.exhaustive = true → ∀ cell, Declared parameters cell →
        cell ∈ grid.points := by
      intro hexhaustive cell hcell
      cases h
      obtain ⟨hpos, hsize⟩ := of_decide_eq_true hexhaustive
      have hdeclared := declaredProduct_eq hpos maxValuesPerAxis
      rw [hdeclared] at hpos hsize
      have hwhole := factors_eq haxes (fun e axis haxis => by
        simpa using haxis.2.1.length_le) hpos hsize
      refine List.mem_map.2 ⟨cell.entries, mem_product ?_, Dict.ofList_entries cell⟩
      refine (Pointwise.comp_iff.1 ⟨_, hwhole.flip, hcell⟩).imp ?_
      rintro axis f ⟨e, ⟨⟨hname, -, hvalues⟩, hlength⟩, hname', values, hdomain, hv⟩
      rw [hvalues hlength, enumerated_of_domain hdomain]
      exact ⟨hname'.trans hname.symm, hv⟩
    refine ⟨grid.points, by rw [hgrid, Wire.ok_bind, hcells], by cases h; rfl, hcount, ?_, hall,
      hstrategy _ hcount hall⟩
    intro hdistinct
    refine List.Nodup.map_on (fun x hx y hy heq => ?_) (nodup_product fun axis haxis => ?_)
    · rw [← entries_ofList (hnames x hx), heq, entries_ofList (hnames y hy)]
    · obtain ⟨e, he, -, hsub, -⟩ := Pointwise.mem_right haxes haxis
      exact ((hdistinct e he).sublist hsub).of_map

def shortOnly (cell : Params) : Except String Unit :=
  if cell.get "lookback" = some (.int 9) then .error "the lookback is too long" else .ok ()

def twoAxes : Dict String ParameterSpec :=
  ParameterGrid.lookbackTable.set "smoothing" ParameterGrid.lookback

theorem feasibility_of_lookback :
    (domainFeasibility shortOnly ParameterGrid.lookbackTable 512 9 5 =
        .ok ⟨9, 1, true, 9, ["lookback"], ["the lookback is too long"]⟩ ∧
      ∃ cells, boundCells ParameterGrid.lookbackTable 512 9 = .ok cells ∧ cells.length = 9 ∧
        cells.countP (refused shortOnly) = 1 ∧
        ∀ cell, Declared ParameterGrid.lookbackTable cell → cell ∈ cells) ∧
    -- two axes of nine values, thinned to three and four
    domainFeasibility shortOnly twoAxes 12 4 1 =
        .ok ⟨12, 4, false, 81, ["lookback", "smoothing"], ["the lookback is too long"]⟩ ∧
      ∃ cells, boundCells twoAxes 12 4 = .ok cells ∧ cells.length = 12 ∧
        cells.countP (refused shortOnly) = 4 ∧ cells.Nodup := by
  have h : domainFeasibility shortOnly ParameterGrid.lookbackTable 512 9 5 =
      .ok ⟨9, 1, true, 9, ["lookback"], ["the lookback is too long"]⟩ := by decide +kernel
  have h' : domainFeasibility shortOnly twoAxes 12 4 1 = .ok ⟨12, 4, false, 81,
      ["lookback", "smoothing"], ["the lookback is too long"]⟩ := by decide +kernel
  obtain ⟨cells, hcells, hn, hcount, -, hall, -⟩ := feasibility_honest shortOnly _ 512 9 5 h
  obtain ⟨cells', hcells', hn', hcount', hnodup, -⟩ := feasibility_honest shortOnly _ 12 4 1 h'
  exact ⟨⟨h, cells, hcells, hn.symm, hcount.symm, hall rfl⟩,
    h', cells', hcells', hn'.symm, hcount'.symm, hnodup (by decide +kernel)⟩

end Fiboki.Discovery
