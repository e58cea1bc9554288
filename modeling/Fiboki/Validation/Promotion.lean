import Fiboki.Validation.TradeFloor

/-!
What a promotion is about: the parameters whose trades were stressed, the point whose
plateau is reported, the trial that was deflated and the parameters of the holdout.
-/

namespace Fiboki

open Wire
open Floating (Number)

variable {T ρ : Type} {text : LadderText} {stats : Statistics T}

namespace LadderContext

variable (text stats) in
def modalChoice (ctx : LadderContext T ρ) : Except String Params := do
  let slices ← ctx.researchWindow.slices stats.edge (ctx.config.walkForwardFolds + 1) "wf"
  let folds ← (List.range ctx.config.walkForwardFolds).mapM
    (WalkForwardRung.fold text stats ctx slices)
  .ok (modalParams text (folds.map WalkForwardFold.selectedParams))

variable (stats) in
def winner (ctx : LadderContext T ρ) : Except String Params := do
  let best ← ctx.select stats (ctx.sweep ctx.researchWindow)
  match (ctx.sweep ctx.researchWindow)[best]? with
  | none => .error "list index out of range"
  | some e => .ok e.params

end LadderContext

structure Bindings where
  stressed : Params
  plateau : Option (Dict String Number)
  deflated : Params
  holdout : Params

/-- All parts are about one parameter set; a point of the plateau has it as numbers. -/
structure Bindings.Same (text : LadderText) (b : Bindings) : Prop where
  holdout : b.holdout = b.stressed
  deflated : b.deflated = b.stressed
  plateau : ∀ d, b.plateau = some d → floatParams text b.stressed = .ok d

variable (text stats) in
def bindings (ctx : LadderContext T ρ) (st : LadderState T ρ) : Bindings :=
  let selected := st.scratch.selectedParams.getD ctx.candidate.defaultParams
  let best := st.scratch.isBestIndex.getD (firstMax st.scratch.trialSharpes)
  { stressed := selected
    plateau :=
      match RobustnessRung.plateau text stats ctx st.scratch with
      | .ok (.point chosen _ _ _) => some chosen.params
      | _ => none
    deflated := ((st.scratch.sweep[best]?).map WindowEvaluation.params).getD .empty
    holdout := selected }

/-- The values that a state reports were computed for the bindings. -/
structure Reported (text : LadderText) (stats : Statistics T) (ctx : LadderContext T ρ)
    (st : LadderState T ρ) (b : Bindings) : Prop where
  stressed : ∃ twoX curves, RobustnessRung.stresses stats ctx.config
      (ctx.evaluator b.stressed ctx.researchWindow).trades = .ok (twoX, curves) ∧
    st.gateValues.get "net_profit_at_2x_spread" = some (some twoX)
  plateau : ∀ d, b.plateau = some d → ∃ p : ParameterPoint, p.params = d ∧
    st.gateValues.get "point_plateau_ratio" = some (some p.pointPlateauRatio)
  deflated : ∃ best trial, (ctx.sweep ctx.researchWindow)[best]? = some trial ∧
    trial.params = b.deflated ∧
    (∃ moments n variance dsr, stats.sharpeMoments trial.returns = .ok moments ∧
      stats.deflatedSharpeRatio moments.srHat moments.nObs n variance moments.skew
        moments.kurtosis = .ok dsr ∧
      st.gateValues.get "deflated_sharpe_ratio" = some (some dsr)) ∧
    (2 ≤ ctx.candidate.grid.fullSize → ∃ rejected,
      stats.stepM ((ctx.sweep ctx.researchWindow).map WindowEvaluation.returns)
        ctx.config.spaBootstraps ctx.config.seed = .ok rejected ∧
      st.gateValues.get "stepm_member" = some (some (.fin (if best ∈ rejected then 1 else 0))))
  holdout : ∃ registry token summary,
    (ctx.evaluator b.holdout ctx.segment.window).summary text.toNumerals stats = .ok summary ∧
    ctx.ledger.recordOutcome registry token summary = (st.registry, .ok ())

structure SameSelection (st st' : LadderState T ρ) : Prop where
  sweep : st'.scratch.sweep = st.scratch.sweep
  best : st'.scratch.isBestIndex = st.scratch.isBestIndex
  matrix : st'.scratch.trialsMatrix = st.scratch.trialsMatrix
  selected : st'.scratch.selectedParams = st.scratch.selectedParams

section Rungs

variable {ctx : LadderContext T ρ} {st st' st'' : LadderState T ρ} {r : RungResult}

theorem SameSelection.refl (st : LadderState T ρ) : SameSelection st st := ⟨rfl, rfl, rfl, rfl⟩

theorem SameSelection.trans (h : SameSelection st st') (h' : SameSelection st' st'') :
    SameSelection st st'' where
  sweep := h'.sweep.trans h.sweep
  best := h'.best.trans h.best
  matrix := h'.matrix.trans h.matrix
  selected := h'.selected.trans h.selected

variable {matrix : List (List Number)}

theorem trialsMatrix_columns {sweep : List (WindowEvaluation T)}
    (h : (trialsMatrix text sweep).1 = some matrix) :
    matrix = sweep.map WindowEvaluation.returns := by
  unfold trialsMatrix at h
  split at h
  · cases h
  · dsimp only at h
    split at h
    · cases h
    · split at h
      · cases h
      · split at h
        · cases h
        · cases h
          rfl

theorem InSampleScreenRung.screened (h : run text stats ctx st = .ok (r, st')) :
    ∃ best winner, ctx.select stats (ctx.sweep ctx.researchWindow) = .ok best ∧
      (ctx.sweep ctx.researchWindow)[best]? = some winner ∧
      st'.scratch.sweep = ctx.sweep ctx.researchWindow ∧ st'.scratch.isBestIndex = some best ∧
      st'.scratch.trialsMatrix = (trialsMatrix text (ctx.sweep ctx.researchWindow)).1 := by
  unfold run at h
  dsimp only at h
  obtain ⟨best, hbest, h⟩ := bind_ok h
  obtain ⟨sharpes, -, h⟩ := bind_ok h
  split at h
  next => cases h
  next winner hwinner =>
    obtain ⟨summary, -, h⟩ := bind_ok h
    obtain ⟨result, -, h⟩ := bind_ok h
    cases h
    exact ⟨best, winner, hbest, hwinner, rfl, rfl, rfl⟩

theorem WalkForwardRung.walked (h : run text stats ctx st = .ok (r, st')) :
    ∃ chosen, ctx.modalChoice text stats = .ok chosen ∧
      st'.scratch.selectedParams = some chosen ∧ st'.scratch.sweep = st.scratch.sweep ∧
      st'.scratch.isBestIndex = st.scratch.isBestIndex ∧
      st'.scratch.trialsMatrix = st.scratch.trialsMatrix := by
  unfold run at h
  dsimp only at h
  obtain ⟨slices, hslices, h⟩ := bind_ok h
  obtain ⟨folds, hfolds, h⟩ := bind_ok h
  obtain ⟨rows, -, h⟩ := bind_ok h
  obtain ⟨hitWilson, -, h⟩ := bind_ok h
  obtain ⟨result, -, h⟩ := bind_ok h
  cases h
  refine ⟨_, ?_, rfl, rfl, rfl, rfl⟩
  unfold LadderContext.modalChoice
  rw [hslices, ok_bind, hfolds, ok_bind]

variable {cfg : LadderConfig}

theorem PurgedCVRung.kept_validate {full : WindowEvaluation T} {basis : String}
    {repeated : Bool}
    (h : validate text stats cfg st full matrix basis repeated = .ok (r, st')) :
    SameSelection st st' ∧ st'.scratch.selectedFull = st.scratch.selectedFull := by
  unfold validate at h
  dsimp only at h
  split at h
  · obtain ⟨result, -, h⟩ := bind_ok h
    cases h
    exact ⟨.refl _, rfl⟩
  · obtain ⟨cv, -, h⟩ := bind_ok h
    obtain ⟨result, -, h⟩ := bind_ok h
    cases h
    exact ⟨⟨rfl, rfl, rfl, rfl⟩, rfl⟩

theorem PurgedCVRung.validated (h : run text stats ctx st = .ok (r, st')) :
    SameSelection st st' ∧ st'.scratch.selectedFull = some (ctx.evaluator
      (st.scratch.selectedParams.getD ctx.candidate.defaultParams) ctx.researchWindow) := by
  unfold run at h
  dsimp only at h
  split at h
  · split at h
    · obtain ⟨result, -, h⟩ := bind_ok h
      cases h
      exact ⟨⟨rfl, rfl, rfl, rfl⟩, rfl⟩
    · obtain ⟨hkept, hfull⟩ := kept_validate h
      exact ⟨⟨hkept.sweep, hkept.best, hkept.matrix, hkept.selected⟩, hfull⟩
  · obtain ⟨hkept, hfull⟩ := kept_validate h
    exact ⟨⟨hkept.sweep, hkept.best, hkept.matrix, hkept.selected⟩, hfull⟩

variable {metrics : List (String × Data)}

theorem not_passed_rejected {head : RungHead} {outcome : RungOutcome} {reason : String}
    {st₁ : LadderState T ρ} (hpassed : r.passed = true)
    (h : (head.rejected outcome reason metrics >>= fun result => .ok (result, st₁)) =
      .ok (r, st')) : outcome = .pass := by
  obtain ⟨result, hresult, h⟩ := bind_ok h
  cases h
  unfold RungHead.rejected at hresult
  split at hresult
  · cases hresult
  · cases hresult
    exact of_decide_eq_true hpassed

variable (p : Provenance)

theorem get_measured_self (m : String) (v : Option Number) :
    (st.measured p m v).gateValues.get m = some v := Dict.get_set_self ..

variable (v : Option Number) {m m' : String}

theorem get_measured_of_ne (h : m' ≠ m) :
    (st.measured p m v).gateValues.get m' = st.gateValues.get m' :=
  Dict.get_set_of_ne _ _ h.symm

theorem get_setGate_of_ne (h : m' ≠ m) :
    (st.setGate m v).gateValues.get m' = st.gateValues.get m' := Dict.get_set_of_ne _ _ h.symm

theorem get_mark (names : List String) (m : String) :
    (st.mark names).gateValues.get m = st.gateValues.get m := rfl

theorem RobustnessRung.stressed (h : run text stats ctx st = .ok (r, st'))
    (hpassed : r.passed = true) :
    ∃ twoX curves p,
      stresses stats ctx.config ((st.scratch.selectedFull.map WindowEvaluation.trades).getD []) =
        .ok (twoX, curves) ∧
      plateau text stats ctx st.scratch = .ok p ∧ st'.scratch = st.scratch ∧
      st'.gateValues.get "net_profit_at_2x_spread" = some (some twoX) ∧
      st'.gateValues.get "point_plateau_ratio" = some p.pointPlateauRatio := by
  unfold run at h
  dsimp only at h
  split at h
  · exact absurd (not_passed_rejected hpassed h) (by decide)
  · obtain ⟨⟨twoX, curves⟩, hstresses, h⟩ := bind_ok h
    obtain ⟨p, hp, h⟩ := bind_ok h
    obtain ⟨result, -, h⟩ := bind_ok h
    cases h
    refine ⟨twoX, curves, p, hstresses, hp, rfl, ?_, ?_⟩
    · rw [get_mark, get_measured_of_ne _ _ (by decide), get_measured_of_ne _ _ (by decide),
        get_measured_of_ne _ _ (by decide), get_measured_self]
    · rw [get_mark, get_measured_of_ne _ _ (by decide), get_measured_of_ne _ _ (by decide),
        get_measured_self]

theorem DeflationRung.member_family {best : ℕ}
    (h : family stats cfg st matrix best metrics = .ok (r, st'))
    (hpassed : r.passed = true) :
    st'.scratch = st.scratch ∧ (∀ m ∉ ["pbo", "spa_p_consistent", "stepm_member"],
        st'.gateValues.get m = st.gateValues.get m) ∧
      ∃ rejected, stats.stepM matrix cfg.spaBootstraps cfg.seed = .ok rejected ∧
        st'.gateValues.get "stepm_member" =
          some (some (.fin (if best ∈ rejected then 1 else 0))) := by
  unfold family at h
  dsimp only at h
  split at h
  · exact absurd (not_passed_rejected hpassed h) (by decide)
  · obtain ⟨pbo, -, h⟩ := bind_ok h
    obtain ⟨spa, -, h⟩ := bind_ok h
    obtain ⟨rejected, hrejected, h⟩ := bind_ok h
    cases h
    refine ⟨rfl, ?_, rejected, hrejected, ?_⟩
    · intro m hm
      simp only [List.mem_cons, List.not_mem_nil, or_false, not_or] at hm
      rw [get_measured_of_ne _ _ hm.2.2, get_measured_of_ne _ _ hm.2.1, get_measured_of_ne _ _ hm.1]
    · rw [get_measured_self]
      simp only [decide_eq_true_eq]

theorem DeflationRung.deflated (h : run stats ctx st = .ok (r, st')) (hpassed : r.passed = true) :
    ∃ matrix, st.scratch.trialsMatrix = some matrix ∧ SameSelection st st' ∧
      (∃ moments n variance dsr, stats.sharpeMoments ((matrix[st.scratch.isBestIndex.getD
          (firstMax st.scratch.trialSharpes)]?).getD []) = .ok moments ∧
        stats.deflatedSharpeRatio moments.srHat moments.nObs n variance moments.skew
          moments.kurtosis = .ok dsr ∧
        st'.gateValues.get "deflated_sharpe_ratio" = some (some dsr)) ∧
      (2 ≤ matrix.length → ∃ rejected,
        stats.stepM matrix ctx.config.spaBootstraps ctx.config.seed = .ok rejected ∧
        st'.gateValues.get "stepm_member" = some (some (.fin
          (if st.scratch.isBestIndex.getD (firstMax st.scratch.trialSharpes) ∈ rejected
            then 1 else 0)))) := by
  unfold run at h
  dsimp only at h
  split at h
  · exact absurd (not_passed_rejected hpassed h) (by decide)
  next matrix hmatrix =>
    refine ⟨matrix, hmatrix, ?_⟩
    unfold deflate at h
    dsimp only at h
    obtain ⟨⟨nEffective, clusters⟩, -, h⟩ := bind_ok h
    dsimp only at h
    split at h
    · exact absurd (not_passed_rejected hpassed h) (by decide)
    next moments hmoments =>
      obtain ⟨dsr, hdsr, h⟩ := bind_ok h
      obtain ⟨dsrFamily, -, h⟩ := bind_ok h
      split at h
      next hone =>
        cases h
        refine ⟨⟨rfl, rfl, rfl, rfl⟩, ⟨moments, _, _, dsr, hmoments, hdsr, ?_⟩, ?_⟩
        · rw [get_mark, get_setGate_of_ne _ (by decide), get_setGate_of_ne _ (by decide),
            get_setGate_of_ne _ (by decide), get_measured_of_ne _ _ (by decide), get_measured_self]
        · intro htwo
          omega
      next =>
        obtain ⟨hscratch, hframe, rejected, hrejected, hmember⟩ := member_family h hpassed
        refine ⟨?_, ⟨moments, _, _, dsr, hmoments, hdsr, ?_⟩, fun _ =>
          ⟨rejected, hrejected, hmember⟩⟩
        · refine ⟨?_, ?_, ?_, ?_⟩
          all_goals
            rw [hscratch]
            rfl
        · rw [hframe _ (by decide), get_measured_of_ne _ _ (by decide), get_measured_self]

theorem HoldoutRung.looked (h : run text stats ctx st = .ok (r, st')) (hpassed : r.passed = true) :
    SameSelection st st' ∧ ∃ registry token summary,
      (ctx.evaluator (st.scratch.selectedParams.getD ctx.candidate.defaultParams)
        ctx.segment.window).summary text.toNumerals stats = .ok summary ∧
      ctx.ledger.recordOutcome registry token summary = (st'.registry, .ok ()) := by
  unfold run at h
  dsimp only at h
  split at h
  · exact absurd (not_passed_rejected hpassed h) (by decide)
  · exact absurd (not_passed_rejected hpassed h) (by decide)
  · cases h
  next registry token _ =>
    obtain ⟨summary, hsummary, h⟩ := bind_ok h
    split at h
    · cases h
    next registry' hrecord =>
      obtain ⟨result, -, h⟩ := bind_ok h
      cases h
      exact ⟨⟨rfl, rfl, rfl, rfl⟩, registry, token, summary, hsummary, hrecord⟩

namespace RobustnessRung

theorem mem_analysed {points : List Params} {scores : List Number} {radius : ℤ}
    {analysed : List ParameterPoint}
    (h : analyseParameterStability text stats points scores radius = .ok analysed)
    (hlength : points.length = scores.length) {params : Params} (hmem : params ∈ points) :
    ∃ q ∈ analysed, floatParams text params = .ok q.params := by
  unfold analyseParameterStability at h
  obtain ⟨_, -, h⟩ := bind_ok h
  have hread := forall₂_of_mapM h
  obtain ⟨i, hi, rfl⟩ := List.getElem_of_mem hmem
  have hzip : i < ((points.zip scores).zipIdx).length := by
    rw [List.length_zipIdx, List.length_zip]
    omega
  have hlen := hread.length_eq
  have hget := List.Forall₂.get hread hzip (by omega)
  obtain ⟨floats, hfloats, hget⟩ := bind_ok hget
  have hpoint : ((points.zip scores).zipIdx.get ⟨i, hzip⟩).1.1 = points[i] := by
    simp only [List.get_eq_getElem, List.getElem_zipIdx, List.getElem_zip]
  have hparams : floats = (analysed.get ⟨i, by omega⟩).params :=
    congrArg ParameterPoint.params (Except.ok.inj hget)
  refine ⟨analysed.get ⟨i, by omega⟩, List.get_mem _ _, ?_⟩
  rw [← hpoint, hfloats, hparams]

theorem plateau_kept (h : SameSelection st st') :
    plateau text stats ctx st'.scratch = plateau text stats ctx st.scratch := by
  unfold plateau
  rw [h.sweep, h.best, h.selected]

theorem plateau_own {scratch : LadderScratch T} {chosen best : ParameterPoint} {ratio : Number}
    {isolated : ℕ} {selected : Params} {i : ℕ} {winner : WindowEvaluation T}
    (h : plateau text stats ctx scratch = .ok (.point chosen ratio isolated best))
    (hselected : scratch.selectedParams = some selected) (hbest : scratch.isBestIndex = some i)
    (hwinner : scratch.sweep[i]? = some winner) (hsame : selected = winner.params) :
    floatParams text selected = .ok chosen.params := by
  unfold plateau at h
  split at h
  next => cases h
  next =>
    obtain ⟨scores, hscores, h⟩ := bind_ok h
    obtain ⟨points, hpoints, h⟩ := bind_ok h
    have hlength : (scratch.sweep.map WindowEvaluation.params).length = scores.length := by
      rw [List.length_map]
      exact (forall₂_of_mapM hscores).length_eq
    have hmem : winner.params ∈ scratch.sweep.map WindowEvaluation.params :=
      List.mem_map_of_mem (List.mem_of_getElem? hwinner)
    obtain ⟨q, hq, hfloats⟩ := mem_analysed hpoints hlength hmem
    have hfallback : ((scratch.sweep.map WindowEvaluation.params)[i]?).getD .empty =
        winner.params := by
      rw [List.getElem?_map, hwinner]
      rfl
    split at h
    next => cases h
    next p rest =>
      rw [hselected, hbest] at h
      dsimp only at h
      rw [Option.getD_some, hfallback, hsame, ite_self, hfloats] at h
      cases h
      rw [hsame, hfloats]
      have hfound : ((p :: rest).find? fun e => decide (e.params = q.params)).isSome := by
        rw [List.find?_isSome]
        exact ⟨q, hq, decide_eq_true rfl⟩
      obtain ⟨e, he⟩ := Option.isSome_iff_exists.1 hfound
      have hparams : e.params = q.params := by
        have htest := List.find?_some he
        rwa [decide_eq_true_eq] at htest
      rw [he, Option.getD_some, hparams]

end RobustnessRung

theorem passed_of_promote {numerals : Numerals} {rungs : List RungResult} {gates : List GateResult}
    (h : (ValidationReport.judge numerals rungs gates).1 = .promote) :
    ∀ r ∈ rungs, r.passed = true := by
  unfold ValidationReport.judge at h
  split at h
  next => cases h
  next hfailing =>
    split at h
    next g hg =>
      dsimp only at h
      split at h <;> cases h
    next =>
      split at h
      next => cases h
      next hreached =>
        intro r hr
        unfold ValidationReport.failingRung at hfailing
        rw [List.find?_eq_none] at hfailing
        have hrejects := hfailing r (List.mem_insertionSort _ |>.2 hr)
        rw [minBy_eq_none, List.filter_eq_nil_iff] at hreached
        have hnot := hreached r hr
        unfold RungResult.passed
        cases hout : r.outcome with
        | pass => rfl
        | notReached => exact absurd (decide_eq_true hout) hnot
        | fail | error =>
          rw [hout] at hrejects
          exact absurd rfl hrejects

namespace ValidationLadder

variable {gateSet : GateSet} {rung : Rung T ρ} {rest : List (Rung T ρ)} {stC : LadderState T ρ}
  {results : List RungResult}

theorem climb_passed (h : climb text gateSet ctx (rung :: rest) st = .ok (results, stC))
    (hpassed : ∀ r ∈ results, r.passed = true) :
    ∃ r st' tail, rung.run ctx st = .ok (r, st') ∧ r.passed = true ∧
      climb text gateSet ctx rest st' = .ok (tail, stC) ∧ ∀ r ∈ tail, r.passed = true := by
  rw [climb] at h
  obtain ⟨⟨r, st'⟩, hrun, h⟩ := bind_ok h
  dsimp only at h
  cases hown : r.passed with
  | false =>
    rw [hown, if_neg Bool.false_ne_true, hown, if_neg Bool.false_ne_true] at h
    cases h
    have := hpassed r (List.mem_cons_self ..)
    rw [hown] at this
    cases this
  | true =>
    rw [hown, if_pos rfl] at h
    split at h
    · obtain ⟨⟨tail, stEnd⟩, htail, h⟩ := bind_ok h
      cases h
      exact ⟨r, st', tail, hrun, hown, htail, fun r hr => hpassed r (List.mem_cons_of_mem _ hr)⟩
    next hblocked =>
      cases h
      exact absurd (hpassed _ (List.mem_cons_self ..)) hblocked

/-- The values that a promoted run reports are those of its bindings. The stressed parameters
are the modal choice of the folds, the deflated ones the winner on the research window. -/
theorem reported_of_climb {registry : ρ}
    (h : climb text gateSet ctx (defaultRungs text stats) (.start registry) = .ok (results, stC))
    (hpassed : ∀ r ∈ results, r.passed = true) :
    Reported text stats ctx stC (bindings text stats ctx stC) ∧
      ctx.modalChoice text stats = .ok (bindings text stats ctx stC).stressed ∧
      ctx.winner stats = .ok (bindings text stats ctx stC).deflated ∧
      (∀ d, (bindings text stats ctx stC).plateau = some d →
        (bindings text stats ctx stC).stressed = (bindings text stats ctx stC).deflated →
        floatParams text (bindings text stats ctx stC).stressed = .ok d) := by
  obtain ⟨r₀, st₁, _, hrun₀, -, h, hpassed⟩ := climb_passed h hpassed
  obtain ⟨r₁, st₂, _, hrun₁, -, h, hpassed⟩ := climb_passed h hpassed
  obtain ⟨r₂, st₃, _, hrun₂, -, h, hpassed⟩ := climb_passed h hpassed
  obtain ⟨r₃, st₄, _, hrun₃, -, h, hpassed⟩ := climb_passed h hpassed
  obtain ⟨r₄, st₅, _, hrun₄, hpassed₄, h, hpassed⟩ := climb_passed h hpassed
  obtain ⟨r₅, st₆, _, hrun₅, hpassed₅, h, hpassed⟩ := climb_passed h hpassed
  obtain ⟨r₆, st₇, _, hrun₆, hpassed₆, h, -⟩ := climb_passed h hpassed
  cases h
  obtain ⟨best, winner, hbest, hwinner, hsweep₂, hbest₂, hmatrix₂⟩ :=
    InSampleScreenRung.screened hrun₁
  obtain ⟨chosen, hchosen, hselected₃, hsweep₃, hbest₃, hmatrix₃⟩ := WalkForwardRung.walked hrun₂
  obtain ⟨hkept₄, hfull₄⟩ := PurgedCVRung.validated hrun₃
  obtain ⟨twoX, curves, p, hstresses, hp, hscratch₅, htwoX, hratio⟩ :=
    RobustnessRung.stressed hrun₄ hpassed₄
  obtain ⟨matrix, hmatrix₅, hkept₆, hdsr, hmember⟩ := DeflationRung.deflated hrun₅ hpassed₅
  obtain ⟨hkept₇, hlook⟩ := HoldoutRung.looked hrun₆ hpassed₆
  have hkept₅ : SameSelection st₄ st₅ := ⟨by rw [hscratch₅], by rw [hscratch₅], by rw [hscratch₅],
    by rw [hscratch₅]⟩
  have hkept : SameSelection st₃ stC := ((hkept₄.trans hkept₅).trans hkept₆).trans hkept₇
  have hsweep : stC.scratch.sweep = ctx.sweep ctx.researchWindow :=
    hkept.sweep.trans (hsweep₃.trans hsweep₂)
  have hindex : stC.scratch.isBestIndex = some best := hkept.best.trans (hbest₃.trans hbest₂)
  have hselected : stC.scratch.selectedParams = some chosen := hkept.selected.trans hselected₃
  have hcolumns : matrix = (ctx.sweep ctx.researchWindow).map WindowEvaluation.returns := by
    have hmatrix := (hkept₄.trans hkept₅).matrix.trans (hmatrix₃.trans hmatrix₂)
    rw [hmatrix₅] at hmatrix
    exact trialsMatrix_columns hmatrix.symm
  have hindex₅ : st₅.scratch.isBestIndex = some best :=
    (hkept₄.trans hkept₅).best.trans (hbest₃.trans hbest₂)
  have hselected₅ : st₆.scratch.selectedParams = some chosen :=
    ((hkept₄.trans hkept₅).trans hkept₆).selected.trans hselected₃
  have hlength : matrix.length = ctx.candidate.grid.fullSize := by
    rw [hcolumns, List.length_map, length_sweep]
  have hgates₆ : ∀ m, producer m ≠ some 5 → st₆.gateValues.get m = st₅.gateValues.get m := by
    refine (DeflationRung.run_ok ?_ hrun₅).2.gates
    intro matrix' hmatrix'
    rw [hmatrix₅] at hmatrix'
    cases hmatrix'
    exact hlength
  have hgates₇ := (HoldoutRung.run_ok hrun₆).2.gates
  have hstressed : (bindings text stats ctx stC).stressed = chosen := by
    unfold bindings
    dsimp only
    rw [hselected]
    rfl
  have hholdout : (bindings text stats ctx stC).holdout = chosen := hstressed
  have hdeflated : (bindings text stats ctx stC).deflated = winner.params := by
    unfold bindings
    dsimp only
    rw [hindex, hsweep, Option.getD_some, hwinner]
    rfl
  have hplateau : RobustnessRung.plateau text stats ctx stC.scratch = .ok p := by
    rw [RobustnessRung.plateau_kept ((hkept₅.trans hkept₆).trans hkept₇), hp]
  refine ⟨⟨?_, ?_, ?_, ?_⟩, ?_, ?_, ?_⟩
  · rw [hstressed]
    rw [hfull₄, hselected₃] at hstresses
    refine ⟨twoX, curves, hstresses, ?_⟩
    rw [hgates₇ _ (by decide), hgates₆ _ (by decide), htwoX]
  · intro d hd
    unfold bindings at hd
    dsimp only at hd
    rw [hplateau] at hd
    cases p with
    | notApplicable reason => cases hd
    | point q ratio isolated byPlateau =>
      cases hd
      refine ⟨q, rfl, ?_⟩
      rw [hgates₇ _ (by decide), hgates₆ _ (by decide), hratio]
      rfl
  · rw [hdeflated]
    refine ⟨best, winner, hwinner, rfl, ?_, ?_⟩
    · obtain ⟨moments, n, variance, dsr, hmoments, hratio, hgate⟩ := hdsr
      refine ⟨moments, n, variance, dsr, ?_, hratio, ?_⟩
      · rw [hindex₅, Option.getD_some, hcolumns, List.getElem?_map, hwinner] at hmoments
        exact hmoments
      · rw [hgates₇ _ (by decide), hgate]
    · intro htwo
      rw [← hlength] at htwo
      obtain ⟨rejected, hrejected, hgate⟩ := hmember htwo
      rw [hcolumns] at hrejected
      rw [hindex₅, Option.getD_some] at hgate
      refine ⟨rejected, hrejected, ?_⟩
      rw [hgates₇ _ (by decide), hgate]
  · rw [hholdout]
    rw [hselected₅] at hlook
    exact hlook
  · rw [hstressed]
    exact hchosen
  · rw [hdeflated]
    unfold LadderContext.winner
    rw [hbest, ok_bind, hwinner]
  · intro d hd hsame
    rw [hstressed, hdeflated] at hsame
    rw [hstressed]
    unfold bindings at hd
    dsimp only at hd
    rw [hplateau] at hd
    cases p with
    | notApplicable reason => cases hd
    | point q ratio isolated byPlateau =>
      cases hd
      refine RobustnessRung.plateau_own hplateau hselected hindex ?_ hsame
      rw [hsweep]
      exact hwinner

end ValidationLadder

end Rungs

namespace ValidationLadder

theorem bindings_same_iff {ctx : LadderContext T ρ} {st : LadderState T ρ}
    (hstressed : ctx.modalChoice text stats = .ok (bindings text stats ctx st).stressed)
    (hdeflated : ctx.winner stats = .ok (bindings text stats ctx st).deflated)
    (hplateau : ∀ d, (bindings text stats ctx st).plateau = some d →
      (bindings text stats ctx st).stressed = (bindings text stats ctx st).deflated →
      floatParams text (bindings text stats ctx st).stressed = .ok d) :
    (bindings text stats ctx st).Same text ↔ ctx.modalChoice text stats = ctx.winner stats := by
  rw [hstressed, hdeflated, Except.ok.injEq]
  constructor
  · intro hsame
    exact hsame.deflated.symm
  · intro hchoice
    exact ⟨rfl, hchoice.symm, fun d hd => hplateau d hd hchoice⟩

section Runs

variable {ladder : ValidationLadder} {candidate : Candidate}
  {evaluator : Params → DateWindow → WindowEvaluation T} {ledger : HoldoutLedger ρ}
  {registry : ρ} {request : LadderRequest} {stamp : ReportStamp} {report : ValidationReport}

theorem run_promoted
    (hrun : ladder.run text stats candidate evaluator ledger registry request stamp = .ok report)
    (hpromote : report.verdict = .promote) :
    ∃ segment st, ledger.segment registry request.datasetVersionId = .ok segment ∧
      climb text ladder.gateSet (ladder.context candidate evaluator ledger request segment)
        (defaultRungs text stats) (.start registry) = .ok (report.rungs, st) ∧
      report.gateResults = ladder.gateSet.evaluate st.gateValues st.notApplicable ∧
      ∀ r ∈ report.rungs, r.passed = true := by
  unfold run at hrun
  obtain ⟨segment, hsegment, hrun⟩ := bind_ok hrun
  obtain ⟨_, -, hrun⟩ := bind_ok hrun
  dsimp only at hrun
  obtain ⟨⟨results, st⟩, hclimb, hrun⟩ := bind_ok hrun
  cases hrun
  exact ⟨segment, st, hsegment, hclimb, rfl, passed_of_promote hpromote⟩

/-- A promotion is about one parameter set exactly when the walk-forward folds choose most
often the parameters that win on the whole research window. -/
theorem one_parameterisation
    (hrun : ladder.run text stats candidate evaluator ledger registry request stamp = .ok report)
    (hpromote : report.verdict = .promote) :
    ∃ segment st, ledger.segment registry request.datasetVersionId = .ok segment ∧
      let ctx := ladder.context candidate evaluator ledger request segment
      climb text ladder.gateSet ctx (defaultRungs text stats) (.start registry) =
        .ok (report.rungs, st) ∧
      report.gateResults = ladder.gateSet.evaluate st.gateValues st.notApplicable ∧
      Reported text stats ctx st (bindings text stats ctx st) ∧
      ((bindings text stats ctx st).Same text ↔ ctx.modalChoice text stats = ctx.winner stats) := by
  obtain ⟨segment, st, hsegment, hclimb, hgates, hpassed⟩ := run_promoted hrun hpromote
  obtain ⟨hreported, hstressed, hdeflated, hplateau⟩ := reported_of_climb hclimb hpassed
  exact ⟨segment, st, hsegment, hclimb, hgates, hreported,
    bindings_same_iff hstressed hdeflated hplateau⟩

end Runs

end ValidationLadder

namespace SmallLadder

open ValidationLadder

def daily (profit : ℤ → ℕ → ℚ) (p : Params) (w : DateWindow) : WindowEvaluation Number :=
  let fast := match p.get "fast" with
    | some (.int z) => z
    | _ => 0
  let days := (List.range 16).filter fun (d : ℕ) =>
    decide (w.start ≤ (d : ℤ) * 86400000000000 ∧ (d : ℤ) * 86400000000000 < w.stop)
  let profits := days.map fun d => profit fast d
  { window := w
    params := canonicalParams p
    nTrades := profits.length
    netProfit := .fin (total profits)
    returns := profits.map .fin
    returnsBasis := .period
    trades := profits.map .fin
    metadata := .empty
    canonical := canonicalParams_canonicalParams p }

def threePoints : Candidate := candidate 1 [.int 1, .int 2, .int 3] (by decide)

def lateWinner (fast : ℤ) (day : ℕ) : ℚ :=
  (day % 2 : ℕ) + if fast = 1 then 3 else if fast = 2 ∧ 8 ≤ day then 9 else 1

def steadyWinner (fast : ℤ) (day : ℕ) : ℚ := (day % 2 : ℕ) + if fast = 2 then 3 else 1

def fourTrades : ValidationLadder :=
  ⟨{ config with minTrades := some 4, minTrades_le := by decide },
    gates (.fin 4) [] nodup_floor_gate, 4, rfl⟩

def dailyContext (profit : ℤ → ℕ → ℚ) : LadderContext Number ℕ :=
  fourTrades.context threePoints (daily profit) ledger request segment

/-- The folds choose the first parameterisation and the research window the second. -/
theorem late_winner_splits : ∃ report results st,
      fourTrades.run ladderText statistics threePoints (daily lateWinner) ledger 0 request stamp =
        .ok report ∧
      report.verdict = .promote ∧
      climb ladderText fourTrades.gateSet (dailyContext lateWinner)
        (defaultRungs ladderText statistics) (.start 0) = .ok (results, st) ∧
      Reported ladderText statistics (dailyContext lateWinner) st
        (bindings ladderText statistics (dailyContext lateWinner) st) ∧
      ¬ (bindings ladderText statistics (dailyContext lateWinner) st).Same ladderText := by
  have hverdict : (fourTrades.run ladderText statistics threePoints (daily lateWinner) ledger 0
      request stamp).toOption.map ValidationReport.verdict = some .promote := by
    decide +kernel
  obtain ⟨report, hrun, hpromote⟩ := ok_of_map hverdict
  obtain ⟨segment', st, hsegment, hclimb, -, hpassed⟩ := run_promoted hrun hpromote
  cases hsegment
  obtain ⟨hreported, hstressed, hdeflated, hplateau⟩ := reported_of_climb hclimb hpassed
  refine ⟨report, report.rungs, st, hrun, hpromote, hclimb, hreported, ?_⟩
  intro hsame
  have hchoice := (bindings_same_iff hstressed hdeflated hplateau).1 hsame
  have hdiffers : (dailyContext lateWinner).modalChoice ladderText statistics ≠
      (dailyContext lateWinner).winner statistics := by
    decide +kernel
  exact hdiffers hchoice

/-- A promotion under the statistics of the small ladder, which no real record would earn. -/
theorem one_parameterisation_steadyWinner :
    ∃ report st, fourTrades.run ladderText statistics threePoints (daily steadyWinner) ledger 0
        request stamp = .ok report ∧
      report.verdict = .promote ∧
      Reported ladderText statistics (dailyContext steadyWinner) st
        (bindings ladderText statistics (dailyContext steadyWinner) st) ∧
      (bindings ladderText statistics (dailyContext steadyWinner) st).Same ladderText := by
  have hverdict : (fourTrades.run ladderText statistics threePoints (daily steadyWinner) ledger 0
      request stamp).toOption.map ValidationReport.verdict = some .promote := by
    decide +kernel
  obtain ⟨report, hrun, hpromote⟩ := ok_of_map hverdict
  obtain ⟨segment', st, hsegment, -, -, hreported, hsame⟩ := one_parameterisation hrun hpromote
  cases hsegment
  have hchoice : (dailyContext steadyWinner).modalChoice ladderText statistics =
      (dailyContext steadyWinner).winner statistics := by
    decide +kernel
  exact ⟨report, st, hrun, hpromote, hreported, hsame.2 hchoice⟩

end SmallLadder

end Fiboki
