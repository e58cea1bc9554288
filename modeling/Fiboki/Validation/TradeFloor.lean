import Fiboki.Validation.Measuring
import Fiboki.Validation.ReportFile

/-!
The trade floor of a gate set, and where a report of the measuring mode is that of the
fail-fast ladder under the set.
-/

namespace Fiboki

open Wire
open Floating (Number)

variable {T ρ : Type} {text : LadderText} {stats : Statistics T}

theorem append_ne_empty {s t : String} (h : t ≠ "") : s ++ t ≠ "" := by
  intro hst
  have hlength := congrArg String.length hst
  rw [String.length_append, String.length_empty] at hlength
  refine h (String.length_eq_zero_iff.1 ?_)
  omega

theorem fail_ok {head : RungHead} {reason : String} {metrics : List (String × Data)} {P : Prop}
    (h : reason ≠ "") (hP : ¬ P) :
    ∃ r, head.fail reason metrics = .ok r ∧ (r.passed = true ↔ P) := by
  unfold RungHead.fail RungHead.rejected
  rw [dif_neg h]
  exact ⟨_, rfl, iff_of_false Bool.false_ne_true hP⟩

namespace SanityRung

structure Admits (stats : Statistics T) (baseline : WindowEvaluation T) (nSample : Number)
    (floor : ℤ) : Prop where
  sound : baseline.degeneracies stats = []
  enough : Number.lt nSample (.fin floor) = false
  profitable : Number.le baseline.expectancy (.fin 0) = false

variable (text stats) in
theorem conclude_ok (config : LadderConfig) {floor : ℤ} (hfloor : config.minTrades = some floor)
    (baseline : WindowEvaluation T) (nSample : Number) (metrics : List (String × Data)) :
    ∃ r, conclude text stats config baseline nSample metrics = .ok r ∧
      (r.passed = true ↔ Admits stats baseline nSample floor) := by
  unfold conclude
  dsimp only
  rw [hfloor]
  by_cases hsound : baseline.degeneracies stats = []
  · rw [if_neg (not_not.2 hsound)]
    dsimp only
    cases henough : Number.lt nSample (.fin floor) with
    | true =>
      rw [if_pos rfl]
      refine fail_ok (append_ne_empty (t := "many coin flips.") (by decide)) ?_
      intro h
      rw [h.enough] at henough
      cases henough
    | false =>
      rw [if_neg Bool.false_ne_true]
      cases hprofit : Number.le baseline.expectancy (.fin 0) with
      | true =>
        rw [if_pos rfl]
        refine fail_ok (append_ne_empty
          (t := " at declared defaults is not positive; there is no edge to validate.")
          (by decide)) ?_
        intro h
        rw [h.profitable] at hprofit
        cases hprofit
      | false =>
        rw [if_neg Bool.false_ne_true]
        exact ⟨_, rfl, iff_of_true rfl ⟨hsound, henough, hprofit⟩⟩
  · rw [if_pos hsound]
    refine fail_ok (append_ne_empty
      (t := ". A statistic computed from these numbers would be decoration.") (by decide)) ?_
    intro h
    exact hsound h.sound

variable {ctx : LadderContext T ρ} {st st' : LadderState T ρ} {r : RungResult}

theorem run_floor (h : run text stats ctx st = .ok (r, st')) (m : ℤ) (hm : ∀ n ∈ some m, 1 ≤ n) :
    ∃ r', run text stats
        { ctx with config := { ctx.config with minTrades := some m, minTrades_le := hm } } st =
          .ok (r', st') ∧
      ∃ nSample, (ctx.evaluator ctx.candidate.defaultParams ctx.researchWindow).nTradesEffective
          text.toNumerals = .ok nSample ∧
        st' = after stats ctx st nSample ∧
        (r'.passed = true ↔ Admits stats
          (ctx.evaluator ctx.candidate.defaultParams ctx.researchWindow) nSample m) ∧
        (∀ floor, ctx.config.minTrades = some floor → (r.passed = true ↔ Admits stats
          (ctx.evaluator ctx.candidate.defaultParams ctx.researchWindow) nSample floor)) := by
  unfold run at h
  obtain ⟨nSample, hn, h⟩ := bind_ok h
  dsimp only at h
  obtain ⟨summary, hsummary, h⟩ := bind_ok h
  obtain ⟨result, hresult, h⟩ := bind_ok h
  cases h
  obtain ⟨r', hr', hadmits'⟩ := conclude_ok text stats
    { ctx.config with minTrades := some m, minTrades_le := hm } rfl
    (ctx.evaluator ctx.candidate.defaultParams ctx.researchWindow) nSample
    (metrics stats { ctx.config with minTrades := some m, minTrades_le := hm }
      (ctx.evaluator ctx.candidate.defaultParams ctx.researchWindow) nSample summary)
  refine ⟨r', ?_, nSample, hn, rfl, hadmits', ?_⟩
  · unfold run
    have hwindow : ∀ config, LadderContext.researchWindow { ctx with config } =
        ctx.researchWindow := fun _ => rfl
    simp only [hwindow, hn, ok_bind, hsummary, hr']
  · intro floor hfloor
    obtain ⟨r'', hr'', hadmits''⟩ := conclude_ok text stats ctx.config hfloor
      (ctx.evaluator ctx.candidate.defaultParams ctx.researchWindow) nSample
      (metrics stats ctx.config (ctx.evaluator ctx.candidate.defaultParams ctx.researchWindow)
        nSample summary)
    rw [hr''] at hresult
    cases hresult
    exact hadmits''

end SanityRung

namespace ValidationLadder

variable {gateSet : GateSet} {ctx : LadderContext T ρ} {st stM : LadderState T ρ}
  {results : List RungResult}

variable (text) in
theorem passed_of_isSome {r : RungResult} (h : (gateSet.blockingGateFor st r.index).isSome) :
    (gateSet.withGateBlock text st r).outcome.rejects = true ∧
      (gateSet.withGateBlock text st r).passed = false ∧
      (gateSet.withGateBlock text st r).index = r.index ∧
      (gateSet.withGateBlock text st r).name = r.name := by
  obtain ⟨g, hg⟩ := Option.isSome_iff_exists.1 h
  obtain ⟨houtcome, hindex, hname⟩ := withGateBlock_some text hg
  refine ⟨?_, ?_, hindex, hname⟩
  · rw [houtcome]
    rfl
  · unfold RungResult.passed
    rw [houtcome]
    rfl

variable {floor m : ℤ}

theorem lt_floor_of_le {x : Number} (hle : floor ≤ m)
    (h : Number.lt x (.fin m) = false) : Number.lt x (.fin floor) = false := by
  cases x with
  | nan => rfl
  | inf s => exact h
  | fin q =>
    rw [Number.lt_fin, decide_eq_false_iff_not, not_lt] at h ⊢
    exact le_trans (by exact_mod_cast hle) h

theorem blockingGateFor_eq_none {k : ℤ} : gateSet.blockingGateFor st k = none ↔
      ∀ g ∈ gateSet.gates, g.rung = k → (g.inState st).status.blocksPromotion = false := by
  unfold GateSet.blockingGateFor
  rw [List.findSome?_eq_none_iff]
  constructor
  · intro h g hg hk
    have hnone := h g (List.mem_filter.2 ⟨hg, decide_eq_true hk⟩)
    dsimp only at hnone
    split at hnone
    next => cases hnone
    next hblocks => exact Bool.eq_false_iff.2 hblocks
  · intro h g hg
    obtain ⟨hg, hk⟩ := List.mem_filter.1 hg
    have hblocks := h g hg (of_decide_eq_true hk)
    unfold Gate.inState at hblocks
    dsimp only
    rw [hblocks, if_neg Bool.false_ne_true]

theorem index_upper : ∀ rung ∈ (upperRungs text stats : List (Rung T ρ)), 0 < rung.head.index :=
  (List.pairwise_cons.1 ascending_default).1

theorem inState_above {st' : LadderState T ρ} {tail : List RungResult}
    (hrungs : gateSet.NamesRungs) (hmarked : gateSet.MarkedInTime ctx.candidate.grid)
    (h : measure ctx (upperRungs text stats) st' = .ok (tail, stM)) :
    ∀ g ∈ gateSet.gates, g.rung = 0 → g.inState stM = g.inState st' := by
  intro g hg hindex
  refine inState_measure framed_upper trivial h (hrungs g hg) (hmarked g hg) ?_
  intro rung hrung
  rw [hindex]
  exact index_upper rung hrung

/-- The fail-fast ladder with a floor of its own and the judged measurement agree, if a gate
of the first rung blocks every baseline below that floor which the measurement lets through. -/
theorem agree_ladders (hrungs : gateSet.NamesRungs)
    (hmarked : gateSet.MarkedInTime ctx.candidate.grid)
    (hfloor : ctx.config.minTrades = some floor) (hle : floor ≤ m) (hm : ∀ n ∈ some m, 1 ≤ n)
    (hgate : ∀ nSample,
      (ctx.evaluator ctx.candidate.defaultParams ctx.researchWindow).nTradesEffective
        text.toNumerals = .ok nSample →
      SanityRung.Admits stats (ctx.evaluator ctx.candidate.defaultParams ctx.researchWindow)
        nSample floor →
      Number.lt nSample (.fin m) = true →
      (gateSet.blockingGateFor (SanityRung.after stats ctx st nSample) 0).isSome)
    (h : measure ctx (defaultRungs text stats) st = .ok (results, stM)) :
    ∃ climbed stC, climb text gateSet
        { ctx with config := { ctx.config with minTrades := some m, minTrades_le := hm } }
        (defaultRungs text stats) st = .ok (climbed, stC) ∧
      Agree gateSet stC stM climbed (judged text gateSet stM results) := by
  have hlist : (defaultRungs text stats : List (Rung T ρ)) =
      ⟨SanityRung.head, SanityRung.run text stats⟩ :: upperRungs text stats := rfl
  have hascending : Ascending (upperRungs text stats : List (Rung T ρ)) :=
    (List.pairwise_cons.1 ascending_default).2
  rw [hlist] at h ⊢
  obtain ⟨r, st', hrun, hcases⟩ := measure_cons h
  obtain ⟨r', hrun', nSample, hn, rfl, hadmits', hadmits⟩ := SanityRung.run_floor hrun m hm
  have hadmits := hadmits floor hfloor
  obtain ⟨_, _, -, hr, -⟩ := SanityRung.run_ok hrun
  obtain ⟨_, _, -, hr', -⟩ := SanityRung.run_ok hrun'
  have hr := SanityRung.concluded hr
  have hr' := SanityRung.concluded hr'
  rw [climb]
  dsimp only
  rw [hrun', ok_bind]
  dsimp only
  rcases hcases with ⟨hpassed, tail, htail, rfl⟩ | ⟨hnot, rfl, rfl⟩
  · have hgates := inState_above hrungs hmarked htail
    have hblock := blockingGateFor_congr hgates
    have hadmitted := hadmits.1 hpassed
    cases hpassed' : r'.passed with
    | false =>
      have hbelow : Number.lt nSample (.fin m) = true := by
        by_contra henough
        rw [Bool.not_eq_true] at henough
        have := hadmits'.2 ⟨hadmitted.sound, henough, hadmitted.profitable⟩
        rw [hpassed'] at this
        cases this
      have hblocked : (gateSet.blockingGateFor stM r.index).isSome := by
        rw [hr.index]
        change (gateSet.blockingGateFor stM 0).isSome
        rw [hblock]
        exact hgate nSample hn hadmitted hbelow
      obtain ⟨hrejects, hfailed, hindex, hname⟩ := passed_of_isSome text hblocked
      rw [judged, hpassed, if_pos rfl, if_neg Bool.false_ne_true, hpassed',
        if_neg Bool.false_ne_true]
      dsimp only
      rw [hfailed, if_neg Bool.false_ne_true]
      refine ⟨_, _, rfl, agree_head _ _ (rejects_of_not_passed hpassed' hr'.reached) hrejects ?_ ?_
        ?_⟩
      · rw [hindex, hr'.index, hr.index]
      · rw [hname, hr'.name, hr.name]
      · intro g hg hg'
        rw [hindex, hr.index] at hg'
        exact (hgates g hg hg').symm
    | true =>
      rw [judged, hpassed, if_pos rfl, if_pos rfl]
      dsimp only
      cases hblocked : gateSet.blockingGateFor (SanityRung.after stats ctx st nSample) 0 with
      | none =>
        have hnone : gateSet.blockingGateFor stM r.index = none := by
          rw [hr.index]
          exact hblock.trans hblocked
        have hnone' : gateSet.blockingGateFor (SanityRung.after stats ctx st nSample)
            r'.index = none := by
          rw [hr'.index]
          exact hblocked
        obtain ⟨climbed, stC, hclimb, hagree⟩ :=
          agree_climb text framed_upper hascending trivial hrungs hmarked htail
        rw [withGateBlock_none hnone, withGateBlock_none hnone', hpassed, hpassed', if_pos rfl,
          if_pos rfl, climb_congr (upper_floor m hm), hclimb, ok_bind]
        exact ⟨_, stC, rfl, agree_cons hpassed' hpassed hagree⟩
      | some g =>
        have hsome : (gateSet.blockingGateFor stM r.index).isSome := by
          rw [hr.index]
          change (gateSet.blockingGateFor stM 0).isSome
          rw [hblock, hblocked]
          rfl
        have hsome' : (gateSet.blockingGateFor (SanityRung.after stats ctx st nSample)
            r'.index).isSome := by
          rw [hr'.index]
          change (gateSet.blockingGateFor (SanityRung.after stats ctx st nSample) 0).isSome
          rw [hblocked]
          rfl
        obtain ⟨hrejects, hfailed, hindex, hname⟩ := passed_of_isSome text hsome
        obtain ⟨hrejects', hfailed', hindex', hname'⟩ := passed_of_isSome text hsome'
        rw [hfailed, hfailed', if_neg Bool.false_ne_true, if_neg Bool.false_ne_true]
        refine ⟨_, _, rfl, agree_head _ _ hrejects' hrejects ?_ ?_ ?_⟩
        · rw [hindex, hindex', hr'.index, hr.index]
        · rw [hname, hname', hr'.name, hr.name]
        · intro g hg hg'
          rw [hindex, hr.index] at hg'
          exact (hgates g hg hg').symm
  · have hnot' : r'.passed = false := by
      cases hpassed' : r'.passed with
      | false => rfl
      | true =>
        obtain ⟨hsound, henough, hprofit⟩ := hadmits'.1 hpassed'
        have := hadmits.2 ⟨hsound, lt_floor_of_le hle henough, hprofit⟩
        rw [hnot] at this
        cases this
    rw [judged, hnot, if_neg Bool.false_ne_true, hnot', if_neg Bool.false_ne_true, hnot',
      if_neg Bool.false_ne_true]
    refine ⟨_, _, rfl, agree_head _ _ (rejects_of_not_passed hnot' hr'.reached)
      (rejects_of_not_passed hnot hr.reached) ?_ ?_ fun _ _ _ => rfl⟩
    · rw [hr'.index, hr.index]
    · rw [hr'.name, hr.name]

/-- Where no gate of the first rung blocks a baseline below the floor, the climb is bound by
the first rung and the judged measurement is not. -/
theorem unblocked_floor (hrungs : gateSet.NamesRungs)
    (hmarked : gateSet.MarkedInTime ctx.candidate.grid)
    (hfloor : ctx.config.minTrades = some floor) (hm : ∀ n ∈ some m, 1 ≤ n) {nSample : Number}
    (hn : (ctx.evaluator ctx.candidate.defaultParams ctx.researchWindow).nTradesEffective
      text.toNumerals = .ok nSample)
    (hadmits : SanityRung.Admits stats
      (ctx.evaluator ctx.candidate.defaultParams ctx.researchWindow) nSample floor)
    (hbelow : Number.lt nSample (.fin m) = true)
    (hnone : gateSet.blockingGateFor (SanityRung.after stats ctx st nSample) 0 = none)
    (h : measure ctx (defaultRungs text stats) st = .ok (results, stM))
    {climbed : List RungResult} {stC : LadderState T ρ}
    (hclimb : climb text gateSet
      { ctx with config := { ctx.config with minTrades := some m, minTrades_le := hm } }
      (defaultRungs text stats) st = .ok (climbed, stC)) (numerals : Numerals) :
    (ValidationReport.judge numerals climbed
        (gateSet.evaluate stC.gateValues stC.notApplicable)).2.rungIndex = 0 ∧
      (ValidationReport.judge numerals (judged text gateSet stM results)
        (gateSet.evaluate stM.gateValues stM.notApplicable)).2.rungIndex ≠ 0 := by
  have hlist : (defaultRungs text stats : List (Rung T ρ)) =
      ⟨SanityRung.head, SanityRung.run text stats⟩ :: upperRungs text stats := rfl
  have hsorted := pairwise_index ascending_default (indices_climb framed_default trivial hclimb)
  rw [hlist] at h hclimb
  obtain ⟨r, st', hrun, hcases⟩ := measure_cons h
  obtain ⟨r', hrun', nSample', hn', rfl, hadmits', hadmitsOwn⟩ := SanityRung.run_floor hrun m hm
  rw [hn, Except.ok.injEq] at hn'
  subst hn'
  obtain ⟨_, _, -, hr, -⟩ := SanityRung.run_ok hrun
  obtain ⟨_, _, -, hr', -⟩ := SanityRung.run_ok hrun'
  have hr := SanityRung.concluded hr
  have hr' := SanityRung.concluded hr'
  have hpassed : r.passed = true := (hadmitsOwn floor hfloor).2 hadmits
  constructor
  · have hnot : r'.passed = false := by
      cases hpassed' : r'.passed with
      | false => rfl
      | true =>
        have henough := (hadmits'.1 hpassed').enough
        rw [hbelow] at henough
        cases henough
    rw [climb] at hclimb
    dsimp only at hclimb
    rw [hrun', ok_bind] at hclimb
    dsimp only at hclimb
    rw [hnot, if_neg Bool.false_ne_true, hnot, if_neg Bool.false_ne_true] at hclimb
    cases hclimb
    have hfailing := @failingRung_append [] _ r' hsorted
      (fun _ hmem => absurd hmem List.not_mem_nil) (rejects_of_not_passed hnot hr'.reached)
    exact (rungIndex_judge hfailing).trans hr'.index
  · obtain ⟨-, tail, htail, rfl⟩ : r.passed = true ∧ ∃ tail, measure ctx (upperRungs text stats)
        (SanityRung.after stats ctx st nSample) = .ok (tail, stM) ∧ results = r :: tail := by
      rcases hcases with hcases | ⟨hnot, -, -⟩
      · exact hcases
      · rw [hpassed] at hnot
        cases hnot
    have hgates := inState_above hrungs hmarked htail
    have hnone' : gateSet.blockingGateFor stM 0 = none := (blockingGateFor_congr hgates).trans hnone
    have hkeep : judged text gateSet stM (r :: tail) = r :: judged text gateSet stM tail := by
      have hindex : gateSet.blockingGateFor stM r.index = none := by
        rw [hr.index]
        exact hnone'
      rw [judged, hpassed, if_pos rfl, withGateBlock_none hindex]
      dsimp only
      rw [hpassed, if_pos rfl]
    rw [hkeep]
    refine rungIndex_judge_ne le_rfl ?_ ?_
    · intro j hj hzero
      rcases List.mem_cons.1 hj with rfl | hj
      · exact hpassed
      · have hindices := (indices_judged text gateSet stM tail).trans
          (indices_measure framed_upper trivial htail)
        have hmem := List.mem_map_of_mem (f := RungResult.index) hj
        rw [hindices] at hmem
        obtain ⟨rung, hrung, hindex⟩ := List.mem_map.1 hmem
        have hpos := index_upper rung hrung
        omega
    · intro g hg hzero
      rw [evaluate_eq_map] at hg
      obtain ⟨gate, hgate, rfl⟩ := List.mem_map.1 hg
      rw [gate_inState] at hzero
      exact blockingGateFor_eq_none.1 hnone' gate hgate hzero

theorem forM_ok {α : Type} {f : α → Except String Unit} {xs : List α} (h : xs.forM f = .ok ()) :
    ∀ x ∈ xs, f x = .ok () := by
  induction xs with
  | nil => nofun
  | cons x xs ih =>
    obtain ⟨u, hx, hxs⟩ := bind_ok h
    exact List.forall_mem_cons.2 ⟨hx, ih hxs⟩

theorem config_make {config : LadderConfig} {floor : ℤ} {own : ValidationLadder}
    (h : (config.withMinTrades floor >>= fun config => make text config gateSet) = .ok own) :
    own.gateSet = gateSet ∧ ∃ hm, own.config =
      { config with minTrades := some floor, minTrades_le := hm } := by
  obtain ⟨config', hconfig, h⟩ := bind_ok h
  unfold LadderConfig.withMinTrades at hconfig
  split at hconfig
  next hfloor =>
    cases hconfig
    unfold make at h
    dsimp only at h
    rw [ok_bind] at h
    rw [dif_pos hfloor] at h
    split at h
    · split at h
      · cases h
        exact ⟨rfl, _, rfl⟩
      · cases h
    · obtain ⟨gate, -, h⟩ := bind_ok h
      split at h
      · cases h
        exact ⟨rfl, _, rfl⟩
      · cases h
  next => cases hconfig

variable (text stats) in
def Floored (ladder : ValidationLadder) (gateSet : GateSet) (floor : ℤ)
    (candidate : Candidate) (evaluator : Params → DateWindow → WindowEvaluation T)
    (ledger : HoldoutLedger ρ) (registry : ρ) (request : LadderRequest) : Prop :=
  ∀ segment, ledger.segment registry request.datasetVersionId = .ok segment →
    ∀ nSample, (evaluator candidate.defaultParams segment.researchWindow).nTradesEffective
        text.toNumerals = .ok nSample →
      SanityRung.Admits stats (evaluator candidate.defaultParams segment.researchWindow) nSample
        ladder.floor →
      Number.lt nSample (.fin floor) = true →
      (gateSet.blockingGateFor (SanityRung.after stats
        (ladder.context candidate evaluator ledger request segment) (.start registry)
        nSample) 0).isSome

/-- Where no gate stands below the rung that marks its name, a report of the measuring mode
and that of the fail-fast ladder under its gate set agree exactly when every baseline between
the two floors is blocked by a gate of the first rung. -/
theorem measuring_agrees {ladder own : ValidationLadder} {candidate : Candidate}
    {evaluator : Params → DateWindow → WindowEvaluation T} {ledger : HoldoutLedger ρ}
    {registry : ρ} {request : LadderRequest} {stamp stamp' : ReportStamp}
    {gateSets : Dict String GateSet} {reports : List (String × ValidationReport)} {name : String}
    {floor : ℤ} (hjudged : (ladder.judgedSets gateSets).get name = some gateSet)
    (hmeasured : ladder.runMeasuring text stats candidate evaluator ledger registry request stamp
      gateSets = .ok reports)
    (hfloor : gateSet.sanityTradeFloor = .ok floor)
    (hown : (ladder.config.withMinTrades floor >>= fun config => make text config gateSet) =
      .ok own)
    (hrungs : gateSet.NamesRungs) (hmarked : gateSet.MarkedInTime candidate.grid) :
    (∃ measured report, (name, measured) ∈ reports ∧
      own.run text stats candidate evaluator ledger registry request stamp' = .ok report ∧
      report.verdict = measured.verdict ∧
      SameBinding report.bindingConstraint measured.bindingConstraint) ↔
    Floored text stats ladder gateSet floor candidate evaluator ledger registry request := by
  obtain ⟨hset, hm, hconfig⟩ := config_make hown
  unfold runMeasuring at hmeasured
  split at hmeasured
  next => cases hmeasured
  next =>
    obtain ⟨_, hfloors, hmeasured⟩ := bind_ok hmeasured
    obtain ⟨segment, hsegment, hmeasured⟩ := bind_ok hmeasured
    obtain ⟨_, huntouched, hmeasured⟩ := bind_ok hmeasured
    dsimp only at hmeasured
    obtain ⟨⟨results, stM⟩, hmeasure, hmeasured⟩ := bind_ok hmeasured
    cases hmeasured
    have hmem := Dict.mem_entries.2 hjudged
    have hcheck := forM_ok hfloors _ hmem
    unfold checkFloor at hcheck
    rw [hfloor, ok_bind] at hcheck
    have hle : ladder.floor ≤ floor := by
      by_contra hlt
      rw [if_pos (not_le.1 hlt)] at hcheck
      cases hcheck
    constructor
    · rintro ⟨measured, report', hreport, hrun, -, hsame⟩
      intro segment' hsegment' nSample hn hadmits hbelow
      rw [hsegment, Except.ok.injEq] at hsegment'
      subst hsegment'
      by_contra hnone
      rw [Option.isSome_iff_ne_none, not_not] at hnone
      obtain ⟨e, he, hpair⟩ := List.mem_map.1 hreport
      cases hpair
      have hget := Dict.mem_entries.1 he
      rw [hjudged, Option.some.injEq] at hget
      subst hget
      unfold run at hrun
      rw [hsegment, ok_bind, huntouched, ok_bind] at hrun
      dsimp only at hrun
      unfold context at hrun
      rw [hset, hconfig] at hrun
      obtain ⟨⟨climbed, stC⟩, hclimb, hrun⟩ := bind_ok hrun
      cases hrun
      obtain ⟨hzero, hne⟩ := unblocked_floor hrungs hmarked ladder.resolved hm hn
        hadmits hbelow hnone
        hmeasure hclimb text.toNumerals
      exact hne (hsame.rungIndex.symm.trans hzero)
    · intro hfloored
      obtain ⟨climbed, stC, hclimb, hagree⟩ := agree_ladders hrungs hmarked ladder.resolved hle hm
        (hfloored segment hsegment) hmeasure
      refine ⟨_, report text request stamp'
        (own.context candidate evaluator ledger request segment) stC gateSet climbed,
        List.mem_map.2 ⟨_, hmem, rfl⟩, ?_, ?_⟩
      · unfold run
        rw [hsegment, ok_bind, huntouched, ok_bind]
        dsimp only
        unfold context at hclimb ⊢
        rw [hset, hconfig, hclimb, ok_bind]
      · have hcs := pairwise_index ascending_default (indices_climb framed_default trivial hclimb)
        have hjs := pairwise_index ascending_default
          ((indices_judged text gateSet stM results).trans
            (indices_measure framed_default trivial hmeasure))
        exact judge_agree hagree hcs hjs text.toNumerals

end ValidationLadder

namespace SmallLadder

open ValidationLadder

def ladderText : LadderText where
  toNumerals := StoredSample.numerals
  fixed _ x := StoredSample.numerals.general 6 x
  percent x := StoredSample.numerals.general 2 x
  reprParam v :=
    match v with
    | .int z => intString z
    | .str s => s
    | _ => ""

def total (xs : List ℚ) : ℚ := xs.foldr (fun x sum => x + sum) 0

def finites (xs : List Number) : List ℚ :=
  xs.filterMap fun x => match x with | .fin q => some q | _ => none

def moment (xs : List ℚ) (k : ℕ) : ℚ :=
  total (xs.map fun x => (x - total xs / xs.length) ^ k) / xs.length

def root (q : ℚ) : ℚ := (Nat.sqrt q.num.toNat : ℚ) / Nat.sqrt q.den

def deviation (xs : List ℚ) : ℚ := root (moment xs 2 * xs.length / (xs.length - 1))

def costless (trades : List Number) : StressCurve :=
  ⟨spreadMultipliers, spreadMultipliers.map fun _ => .fin (total (finites trades)),
    spreadMultipliers.map fun _ => .fin 1, none⟩

def statistics : Statistics Number where
  netPnl := id
  sum xs := .fin (total (finites xs))
  mean xs := .fin (total (finites xs) / xs.length)
  std xs := .fin (deviation (finites xs))
  variance xs := .fin (moment (finites xs) 2 * xs.length / (xs.length - 1))
  log _ := .fin 0
  edge w i n := w.start + (w.stop - w.start) * i / n
  sharpeMoments xs :=
    let xs := finites xs
    if xs.length < 2 then .error "need at least 2 observations to estimate a Sharpe ratio"
    else if deviation xs ≤ 0 then .error "returns have zero dispersion; Sharpe ratio undefined"
    else .ok ⟨.fin (total xs / xs.length / deviation xs), xs.length,
      .fin (moment xs 3 / (moment xs 2 * root (moment xs 2))),
      .fin (moment xs 4 / moment xs 2 ^ 2)⟩
  minimumTrackRecordLength sr _ skew kurtosis _ :=
    let z : Number := .fin (16449 / 10000)
    .ok (.fin 1 + (.fin 1 - skew * sr + (kurtosis - .fin 1) / .fin 4 * sr * sr) * (z / sr) *
      (z / sr))
  wilsonLowerBound _ _ _ := .ok (some (.fin 0))
  Rng := Unit
  defaultRng _ := ()
  spreadMultiplierStress trades _ rng := .ok (costless trades, rng)
  slippageStress trades rng := .ok (costless trades, rng)
  executionDelayStress trades _ rng := .ok (costless trades, rng)
  randomDeletionStress trades _ rng := .ok (costless trades, rng)
  startDateStress trades := .ok (costless trades)
  endDateStress trades := .ok (costless trades)
  netProfit trades := .fin (total (finites trades))
  stabilityGrid _ _ _ := .ok ()
  neighbourhood _ scores _ _ :=
    let mean : Number := .fin (total (finites scores) / scores.length)
    ⟨mean, mean, .fin 0, .fin 1, .fin 1, mean, mean, mean, false⟩
  neighbourhoodMedianRatio score median := score / median
  effectiveTrials matrix _ := .ok ⟨matrix.length, matrix.length, .fin 0, .fin 0⟩
  deflatedSharpeRatio _ _ _ _ _ _ := .ok (.fin 1)
  combinatorialPurgedCv _ _ _ _ :=
    let rows (g : ℕ) : List ℕ := (List.range 6).map fun i => 6 * g + i
    .ok ⟨[⟨rows 1, 0, 0⟩, ⟨rows 0, 0, 0⟩], [[(0, 0), (1, 1)]], rows⟩
  symmetricCv _ _ := .ok ⟨.fin 0, 6, .fin 0, .fin 0⟩
  superiorPredictiveAbility matrix _ _ := .ok ⟨.fin 0, .fin 0, .fin 0, 0, matrix.length⟩
  stepM _ _ _ := .ok []

def config : LadderConfig where
  minTrades := none
  selectionMetric := "net_profit"
  walkForwardScheme := .anchored
  walkForwardFolds := 2
  cvGroups := 2
  cvK := 1
  embargoPct := .fin 0
  minPathPositiveFraction := .fin (1 / 2)
  stressSamples := 10
  stabilityRadius := 1
  cscvSplits := 4
  spaBootstraps := 10
  corrThreshold := .fin (1 / 2)
  externalTrialCount := 0
  holdoutMinTrades := 1
  seed := 7
  folds_le := Nat.le_refl 2
  minTrades_le := nofun
  cscv_even := ⟨rfl, by decide⟩

def gates (minTrades : Number) (further : List Gate)
    (h : (("min_trades" :: further.map Gate.name)).Nodup) : GateSet :=
  ⟨"small", ⟨"min_trades", "n_trades", .gte, minTrades, 0, "", false, "trades"⟩ :: further, h⟩

theorem nodup_floor_gate : ("min_trades" :: ([] : List Gate).map Gate.name).Nodup :=
  List.nodup_singleton _

def window (name : String) (first days : ℕ) (h : 0 < days) : DateWindow where
  name := name
  start := first * 86400000000000
  stop := (first + days) * 86400000000000
  ordered := by
    show (first : ℤ) * 86400000000000 < (first + days) * 86400000000000
    omega

def segment : HoldoutSegment where
  datasetVersionId := "d"
  researchWindow := window "research" 0 12 (by decide)
  window := window "holdout" 12 4 (by decide)
  holdoutFraction := .fin (1 / 4)

def ledger : HoldoutLedger ℕ where
  dbPath := none
  segment _ _ := .ok segment
  assertUntouched _ _ _ := .ok ()
  claim n _ _ _ := (n, .ok "token")
  recordOutcome n _ _ := (n + 1, .ok ())

def request : LadderRequest := ⟨"d", [], [], "e", "a", ""⟩

def stamp : ReportStamp := ⟨"unknown", "1970-01-01T00:00:00+00:00"⟩

def params (n : ℤ) : Params := Dict.empty.set "fast" (.int n)

def candidate (n : ℤ) (values : List ParamValue) (h : values ≠ []) : Candidate where
  strategyId := "s"
  contentHash := "h"
  defaultParams := params n
  grid := ⟨[("fast", values)], 0, List.nodup_singleton _, by
    intro axis haxis
    rw [List.mem_singleton.1 haxis]
    exact h⟩
  named := by decide
  hashed := by decide
  canonical := rfl

def fewTrades (p : Params) (w : DateWindow) : WindowEvaluation Number where
  window := w
  params := canonicalParams p
  nTrades := if p = params 9 then 3 else 1
  netProfit := if p = params 9 then .fin 6 else .fin (-1)
  returns := if p = params 9 then [.fin 0, .fin 2, .fin 4] else [.fin (-1)]
  returnsBasis := .trade
  trades := []
  metadata := .empty
  canonical := canonicalParams_canonicalParams p

def losing : Candidate := candidate 9 [.int 1, .int 2] (by decide)

def ownSet : GateSet := gates (.fin 2) [] nodup_floor_gate

def twoTrades : ValidationLadder :=
  ⟨{ config with minTrades := some 2, minTrades_le := by decide }, ownSet, 2, rfl⟩

def ratioSet : GateSet :=
  ⟨"ratio", [⟨"min_trl", "n_trades_over_min_trl", .gte, .fin (1 / 100), 0, "", false, "ratio"⟩],
    List.nodup_singleton _⟩

def ofRatio : ValidationLadder :=
  ⟨{ config with minTrades := some 150, minTrades_le := by decide }, ratioSet, 150, rfl⟩

def judgedUnder (gateSet : GateSet) : Except String (List (String × ValidationReport)) :=
  twoTrades.runMeasuring ladderText statistics losing fewTrades ledger 0 request stamp
    (Dict.empty.set "judged" gateSet)

/-- The measurement admits three trades; the ladder of the set rejects them at rung 0, where
no gate of the set blocks. -/
theorem low_bar_disagrees : ratioSet.NamesRungs ∧
      (twoTrades.config.withMinTrades 150 >>= fun config => make ladderText config ratioSet) =
        .ok ofRatio ∧
      ∃ reports measured report, twoTrades.runMeasuring ladderText statistics losing fewTrades
          ledger 0 request stamp (Dict.empty.set "judged" ratioSet) = .ok reports ∧
        ("judged", measured) ∈ reports ∧
        ofRatio.run ladderText statistics losing fewTrades ledger 0 request stamp = .ok report ∧
        ¬ SameBinding report.bindingConstraint measured.bindingConstraint := by
  refine ⟨?_, rfl, ?_⟩
  · unfold GateSet.NamesRungs
    decide
  · have hmeasured : (judgedUnder ratioSet).toOption.map (fun reports => reports.map fun e =>
        (e.1, e.2.bindingConstraint.rungIndex)) = some [("judged", 1), ("small", 1)] := by
      decide +kernel
    have hrun : (ofRatio.run ladderText statistics losing fewTrades ledger 0 request
        stamp).toOption.map (fun report => report.bindingConstraint.rungIndex) = some 0 := by
      decide +kernel
    obtain ⟨reports, hreports, hrows⟩ := ok_of_map hmeasured
    have hmem : (("judged", 1) : String × ℤ) ∈
        reports.map fun e => (e.1, e.2.bindingConstraint.rungIndex) := by
      rw [hrows]
      exact List.mem_cons_self ..
    obtain ⟨⟨name, measured⟩, hin, hpair⟩ := List.mem_map.1 hmem
    obtain ⟨report, hreport, hzero⟩ := ok_of_map hrun
    have hname : name = "judged" := congrArg Prod.fst hpair
    have hone : measured.bindingConstraint.rungIndex = 1 := congrArg Prod.snd hpair
    subst hname
    refine ⟨reports, measured, report, hreports, hin, hreport, ?_⟩
    intro hsame
    have := hsame.rungIndex
    rw [hzero, hone] at this
    cases this

def enoughSet : GateSet := gates (.fin 150) [] (by decide)

def ofEnough : ValidationLadder :=
  ⟨{ config with minTrades := some 150, minTrades_le := by decide }, enoughSet, 150, rfl⟩

theorem measuring_agrees_fewTrades :
    ∃ reports measured report, twoTrades.runMeasuring ladderText statistics losing fewTrades
        ledger 0 request stamp (Dict.empty.set "judged" enoughSet) = .ok reports ∧
      ("judged", measured) ∈ reports ∧
      ofEnough.run ladderText statistics losing fewTrades ledger 0 request stamp = .ok report ∧
      report.verdict = measured.verdict ∧
      SameBinding report.bindingConstraint measured.bindingConstraint := by
  have hmeasured : (judgedUnder enoughSet).toOption.map (fun reports => reports.map fun e =>
      (e.1, e.2.bindingConstraint.rungIndex)) = some [("judged", 0), ("small", 1)] := by
    decide +kernel
  obtain ⟨reports, hreports, -⟩ := ok_of_map hmeasured
  have hrungs : enoughSet.NamesRungs := by
    unfold GateSet.NamesRungs
    decide
  have hmarked : enoughSet.MarkedInTime losing.grid := by
    intro g hg k hk
    rw [List.mem_singleton.1 hg] at hk
    cases hk
  have hjudged : (twoTrades.judgedSets (Dict.empty.set "judged" enoughSet)).get "judged" =
      some enoughSet := rfl
  have hown : (twoTrades.config.withMinTrades 150 >>= fun config =>
      make ladderText config enoughSet) = .ok ofEnough := rfl
  have hfloored : Floored ladderText statistics twoTrades enoughSet 150 losing fewTrades ledger 0
      request := by
    intro segment' hsegment nSample hn _ _
    cases hsegment
    cases hn
    decide
  obtain ⟨measured, report, hin, hrun, hverdict, hbinding⟩ :=
    (@measuring_agrees _ _ _ _ _ _ _ _ _ _ _ _ stamp stamp _ _ _ _ hjudged hreports rfl hown hrungs
      hmarked).2 hfloored
  exact ⟨reports, measured, report, hreports, hin, hrun, hverdict, hbinding⟩

end SmallLadder

end Fiboki
