import Fiboki.Validation.RungWrites

/-!
Measuring and climbing: the report of a gate set judged on one measurement, and the report
of the fail-fast ladder under that set.
-/

namespace Fiboki

open Wire
open Floating (Number)

variable {T ρ : Type} {text : LadderText} {stats : Statistics T}

def Gate.inState (gate : Gate) (st : LadderState T ρ) : GateResult :=
  gate.evaluate ((st.gateValues.get gate.metric).join) (decide (gate.name ∉ st.notApplicable))

def GateSet.NamesRungs (gateSet : GateSet) : Prop :=
  ∀ g ∈ gateSet.gates, producer g.metric = some g.rung

def GateSet.MarkedInTime (gateSet : GateSet) (grid : ParameterGrid) : Prop :=
  ∀ g ∈ gateSet.gates, ∀ k, marker grid g.name = some k → k ≤ g.rung

section InState

variable {gateSet : GateSet} {grid : ParameterGrid} {k : ℤ} {st st' : LadderState T ρ}

theorem evaluate_eq_map (st : LadderState T ρ) :
    gateSet.evaluate st.gateValues st.notApplicable = gateSet.gates.map fun g => g.inState st := rfl

@[simp] theorem gate_inState (g : Gate) (st : LadderState T ρ) : (g.inState st).gate = g :=
  g.gate_evaluate ..

theorem inState_writes {g : Gate} (h : Writes grid k st st') (hmetric : producer g.metric ≠ some k)
    (hmark : marker grid g.name ≠ some k) : g.inState st' = g.inState st := by
  obtain ⟨names, hnames, hall⟩ := h.marks
  have hname : g.name ∉ names := fun hmem => hmark (hall _ hmem)
  unfold Gate.inState
  rw [h.gates _ hmetric, hnames]
  simp only [List.mem_append, hname, or_false]

theorem blockingGateFor_congr (h : ∀ g ∈ gateSet.gates, g.rung = k → g.inState st' = g.inState st) :
    gateSet.blockingGateFor st' k = gateSet.blockingGateFor st k := by
  unfold GateSet.blockingGateFor
  generalize gateSet.gates = gates at h
  induction gates with
  | nil => rfl
  | cons g gates ih =>
    have htail := ih fun g' hg' => h g' (List.mem_cons_of_mem _ hg')
    by_cases hk : g.rung = k
    · have hg := h g (List.mem_cons_self ..) hk
      unfold Gate.inState at hg
      have hkeep : (g :: gates).filter (fun gate => decide (gate.rung = k)) =
          g :: gates.filter fun gate => decide (gate.rung = k) :=
        List.filter_cons_of_pos (decide_eq_true hk)
      rw [hkeep, List.findSome?_cons, List.findSome?_cons, htail, hg]
    · have hdrop : (g :: gates).filter (fun gate => decide (gate.rung = k)) =
          gates.filter fun gate => decide (gate.rung = k) :=
        List.filter_cons_of_neg (by simpa using hk)
      rw [hdrop]
      exact htail

variable (text) in
theorem withGateBlock_congr {r : RungResult}
    (h : gateSet.blockingGateFor st' r.index = gateSet.blockingGateFor st r.index) :
    gateSet.withGateBlock text st' r = gateSet.withGateBlock text st r := by
  unfold GateSet.withGateBlock
  rw [h]

theorem withGateBlock_none {r : RungResult} (h : gateSet.blockingGateFor st r.index = none) :
    gateSet.withGateBlock text st r = r := by
  unfold GateSet.withGateBlock
  rw [h]

variable (text) in
theorem withGateBlock_some {r : RungResult} {g : GateResult}
    (h : gateSet.blockingGateFor st r.index = some g) :
    (gateSet.withGateBlock text st r).outcome = .fail ∧
      (gateSet.withGateBlock text st r).index = r.index ∧
      (gateSet.withGateBlock text st r).name = r.name := by
  unfold GateSet.withGateBlock
  rw [h]
  exact ⟨rfl, rfl, rfl⟩

end InState

/-- Rungs that keep to their own metrics and marks, from states that meet a condition. -/
inductive Framed (ctx : LadderContext T ρ) : (LadderState T ρ → Prop) → List (Rung T ρ) → Prop
  | nil {I : LadderState T ρ → Prop} : Framed ctx I []
  | cons {I J : LadderState T ρ → Prop} {rung : Rung T ρ} {rest : List (Rung T ρ)}
      (hrung : ∀ st r st', I st → rung.run ctx st = .ok (r, st') →
        Concluded rung.head r ∧ Writes ctx.candidate.grid rung.head.index st st' ∧ J st')
      (hrest : Framed ctx J rest) : Framed ctx I (rung :: rest)

def Ascending (rungs : List (Rung T ρ)) : Prop :=
    rungs.Pairwise fun a b => a.head.index < b.head.index

namespace ValidationLadder

variable {ctx : LadderContext T ρ} {gateSet : GateSet} {I : LadderState T ρ → Prop}
  {rungs rest : List (Rung T ρ)} {rung : Rung T ρ} {st st' stM : LadderState T ρ}
  {r : RungResult} {results : List RungResult}

theorem measure_cons (h : measure ctx (rung :: rest) st = .ok (results, stM)) :
    ∃ r st', rung.run ctx st = .ok (r, st') ∧
      ((r.passed = true ∧ ∃ tail, measure ctx rest st' = .ok (tail, stM) ∧ results = r :: tail) ∨
        r.passed = false ∧ stM = st' ∧
          results = r :: rest.map fun rung => rung.head.notReached) := by
  rw [measure] at h
  obtain ⟨⟨r, st'⟩, hrun, h⟩ := bind_ok h
  refine ⟨r, st', hrun, ?_⟩
  dsimp only at h
  cases hpassed : r.passed with
  | true =>
    rw [hpassed, if_pos rfl] at h
    obtain ⟨⟨tail, stEnd⟩, htail, h⟩ := bind_ok h
    cases h
    exact .inl ⟨rfl, tail, htail, rfl⟩
  | false =>
    rw [hpassed, if_neg Bool.false_ne_true] at h
    cases h
    exact .inr ⟨rfl, rfl, rfl⟩

theorem inState_measure (hframed : Framed ctx I rungs) (hI : I st)
    (h : measure ctx rungs st = .ok (results, stM)) {g : Gate}
    (hmetric : producer g.metric = some g.rung)
    (hmark : ∀ k, marker ctx.candidate.grid g.name = some k → k ≤ g.rung)
    (habove : ∀ rung ∈ rungs, g.rung < rung.head.index) : g.inState stM = g.inState st := by
  induction hframed generalizing st results with
  | nil =>
    cases h
    rfl
  | @cons I J rung rest hrung hrest ih =>
    obtain ⟨r, st', hrun, hcases⟩ := measure_cons h
    obtain ⟨-, hwrites, hJ⟩ := hrung st r st' hI hrun
    have hk := habove rung (List.mem_cons_self ..)
    have hstep : g.inState st' = g.inState st := by
      refine inState_writes hwrites ?_ ?_
      · intro hsame
        rw [hmetric, Option.some.injEq] at hsame
        omega
      · intro hsame
        have := hmark _ hsame
        omega
    rcases hcases with ⟨-, tail, htail, -⟩ | ⟨-, rfl, -⟩
    · rw [ih hJ htail fun rung' h' => habove rung' (List.mem_cons_of_mem _ h'), hstep]
    · exact hstep

/-- The results and the last states of a climb and of a judged measurement: all rungs passed
in both and the states are one, or the same rung is the first that rejects in both, and the
gates of that rung say the same in both states. -/
inductive Agree (gateSet : GateSet) (stC stM : LadderState T ρ) :
    List RungResult → List RungResult → Prop
  | passed {cs js : List RungResult} : (∀ c ∈ cs, c.passed = true) → (∀ j ∈ js, j.passed = true) →
      stC = stM → Agree gateSet stC stM cs js
  | rejected {cs js cs' js' : List RungResult} {c j : RungResult} : (∀ r ∈ cs, r.passed = true) →
      (∀ r ∈ js, r.passed = true) → c.outcome.rejects = true → j.outcome.rejects = true →
      c.index = j.index → c.name = j.name →
      (∀ g ∈ gateSet.gates, g.rung = j.index → g.inState stC = g.inState stM) →
      Agree gateSet stC stM (cs ++ c :: cs') (js ++ j :: js')

variable {c j : RungResult}

theorem agree_head {stC : LadderState T ρ} (cs js : List RungResult)
    (hc : c.outcome.rejects = true) (hj : j.outcome.rejects = true) (hindex : c.index = j.index)
    (hname : c.name = j.name)
    (hgates : ∀ g ∈ gateSet.gates, g.rung = j.index → g.inState stC = g.inState stM) :
    Agree gateSet stC stM (c :: cs) (j :: js) :=
  @Agree.rejected _ _ gateSet stC stM [] [] cs js c j nofun nofun hc hj hindex hname hgates

theorem agree_cons {stC : LadderState T ρ} {cs js : List RungResult}
    (hc : c.passed = true) (hj : j.passed = true) (h : Agree gateSet stC stM cs js) :
    Agree gateSet stC stM (c :: cs) (j :: js) := by
  cases h with
  | passed hcs hjs hst =>
    refine .passed ?_ ?_ hst
    · exact List.forall_mem_cons.2 ⟨hc, hcs⟩
    · exact List.forall_mem_cons.2 ⟨hj, hjs⟩
  | @rejected cs js cs' js' c' j' hcs hjs hc' hj' hindex hname hgates =>
    have hcs' : ∀ r ∈ c :: cs, r.passed = true := List.forall_mem_cons.2 ⟨hc, hcs⟩
    have hjs' : ∀ r ∈ j :: js, r.passed = true := List.forall_mem_cons.2 ⟨hj, hjs⟩
    exact .rejected hcs' hjs' hc' hj' hindex hname hgates

theorem rejects_of_not_passed (h : r.passed = false) (hreached : r.outcome ≠ .notReached) :
    r.outcome.rejects = true := by
  unfold RungResult.passed at h
  cases hr : r.outcome with
  | pass =>
    rw [hr] at h
    cases h
  | notReached => exact absurd hr hreached
  | fail | error => rfl

variable (text) in
theorem agree_climb (hframed : Framed ctx I rungs) (hascending : Ascending rungs) (hI : I st)
    (hrungs : gateSet.NamesRungs) (hmarked : gateSet.MarkedInTime ctx.candidate.grid)
    (h : measure ctx rungs st = .ok (results, stM)) :
    ∃ climbed stC, climb text gateSet ctx rungs st = .ok (climbed, stC) ∧
      Agree gateSet stC stM climbed (judged text gateSet stM results) := by
  induction hframed generalizing st results with
  | nil =>
    cases h
    exact ⟨_, _, rfl, .passed nofun nofun rfl⟩
  | @cons I J rung rest hrung hrest ih =>
    obtain ⟨r, st', hrun, hcases⟩ := measure_cons h
    obtain ⟨hconcluded, hwrites, hJ⟩ := hrung st r st' hI hrun
    obtain ⟨habove, hrestAscending⟩ := List.pairwise_cons.1 hascending
    rw [climb, hrun, ok_bind]
    dsimp only
    rcases hcases with ⟨hpassed, tail, htail, rfl⟩ | ⟨hnot, rfl, rfl⟩
    · have hgates : ∀ g ∈ gateSet.gates, g.rung = r.index → g.inState stM = g.inState st' := by
        intro g hg hindex
        refine inState_measure hrest hJ htail (hrungs g hg) (hmarked g hg) ?_
        intro rung' h'
        rw [hindex, hconcluded.index]
        exact habove rung' h'
      have hblock := withGateBlock_congr text (blockingGateFor_congr hgates)
      rw [judged, hpassed, if_pos rfl, if_pos rfl, hblock]
      dsimp only
      cases hblocked : gateSet.blockingGateFor st' r.index with
      | none =>
        rw [withGateBlock_none hblocked, hpassed, if_pos rfl, if_pos rfl]
        obtain ⟨climbed, stC, hclimb, hagree⟩ := ih hrestAscending hJ htail
        rw [hclimb, ok_bind]
        exact ⟨_, stC, rfl, agree_cons hpassed hpassed hagree⟩
      | some blocking =>
        obtain ⟨houtcome, hindex, hname⟩ := withGateBlock_some text hblocked
        have hfailed : (gateSet.withGateBlock text st' r).passed = false := by
          unfold RungResult.passed
          rw [houtcome]
          rfl
        have hrejects : (gateSet.withGateBlock text st' r).outcome.rejects = true := by
          rw [houtcome]
          rfl
        rw [hfailed, if_neg Bool.false_ne_true, if_neg Bool.false_ne_true]
        refine ⟨_, st', rfl, ?_⟩
        refine agree_head _ _ hrejects hrejects rfl rfl ?_
        intro g hg hg'
        rw [hindex] at hg'
        exact (hgates g hg hg').symm
    · have hrejects := rejects_of_not_passed hnot hconcluded.reached
      rw [judged, hnot, if_neg Bool.false_ne_true, if_neg Bool.false_ne_true, hnot,
        if_neg Bool.false_ne_true]
      exact ⟨_, _, rfl, agree_head _ _ hrejects hrejects rfl rfl fun _ _ _ => rfl⟩

theorem index_withGateBlock (r : RungResult) :
    (gateSet.withGateBlock text st r).index = r.index := by
  cases h : gateSet.blockingGateFor st r.index with
  | none => rw [withGateBlock_none h]
  | some g => exact (withGateBlock_some text h).2.1

theorem indices_notReached (rungs : List (Rung T ρ)) :
    (rungs.map fun rung => rung.head.notReached).map RungResult.index =
      rungs.map fun rung => rung.head.index := by
  rw [List.map_map]
  rfl

theorem indices_measure (hframed : Framed ctx I rungs) (hI : I st)
    (h : measure ctx rungs st = .ok (results, stM)) :
    results.map RungResult.index = rungs.map fun rung => rung.head.index := by
  induction hframed generalizing st results with
  | nil =>
    cases h
    rfl
  | @cons I J rung rest hrung hrest ih =>
    obtain ⟨r, st', hrun, hcases⟩ := measure_cons h
    obtain ⟨hconcluded, -, hJ⟩ := hrung st r st' hI hrun
    rcases hcases with ⟨-, tail, htail, rfl⟩ | ⟨-, -, rfl⟩
    · rw [List.map_cons, List.map_cons, hconcluded.index, ih hJ htail]
    · rw [List.map_cons, List.map_cons, hconcluded.index, indices_notReached]

theorem indices_climb (hframed : Framed ctx I rungs) (hI : I st)
    (h : climb text gateSet ctx rungs st = .ok (results, stM)) :
    results.map RungResult.index = rungs.map fun rung => rung.head.index := by
  induction hframed generalizing st results with
  | nil =>
    cases h
    rfl
  | @cons I J rung rest hrung hrest ih =>
    rw [climb] at h
    obtain ⟨⟨r, st'⟩, hrun, h⟩ := bind_ok h
    obtain ⟨hconcluded, -, hJ⟩ := hrung st r st' hI hrun
    dsimp only at h
    have hindex : (if r.passed = true then gateSet.withGateBlock text st' r else r).index =
        rung.head.index := by
      split
      · rw [index_withGateBlock, hconcluded.index]
      · exact hconcluded.index
    generalize (if r.passed = true then gateSet.withGateBlock text st' r else r) = r' at h hindex
    split at h
    · obtain ⟨⟨tail, stEnd⟩, htail, h⟩ := bind_ok h
      cases h
      rw [List.map_cons, List.map_cons, hindex, ih hJ htail]
    · cases h
      rw [List.map_cons, List.map_cons, hindex, indices_notReached]

variable (text gateSet st) in
theorem indices_judged (results : List RungResult) :
    (judged text gateSet st results).map RungResult.index = results.map RungResult.index := by
  induction results with
  | nil => rfl
  | cons r rest ih =>
    rw [judged]
    dsimp only
    split
    · split
      · rw [List.map_cons, List.map_cons, index_withGateBlock, ih]
      · rw [List.map_cons, List.map_cons, index_withGateBlock]
    · rw [List.map_cons, List.map_cons, ih]

theorem pairwise_index (hascending : Ascending rungs)
    (h : results.map RungResult.index = rungs.map fun rung => rung.head.index) :
    results.Pairwise fun a b => a.index ≤ b.index := by
  have hrungs : (rungs.map fun rung => rung.head.index).Pairwise (· ≤ ·) := by
    rw [List.pairwise_map]
    exact hascending.imp fun hab => hab.le
  rw [← h, List.pairwise_map] at hrungs
  exact hrungs

end ValidationLadder

theorem not_rejects_of_passed {r : RungResult} (h : r.passed = true) :
    r.outcome.rejects = false := by
  have hpass : r.outcome = .pass := of_decide_eq_true h
  rw [hpass]
  rfl

theorem failingRung_append {pre post : List RungResult} {r : RungResult}
    (hsorted : (pre ++ r :: post).Pairwise fun a b => a.index ≤ b.index)
    (hpre : ∀ p ∈ pre, p.passed = true) (hr : r.outcome.rejects = true) :
    ValidationReport.failingRung (pre ++ r :: post) = some r := by
  unfold ValidationReport.failingRung
  rw [hsorted.insertionSort_eq, List.find?_append]
  have hnone : pre.find? (fun r => r.outcome.rejects) = none := by
    rw [List.find?_eq_none]
    intro p hp
    rw [not_rejects_of_passed (hpre p hp)]
    exact Bool.false_ne_true
  rw [hnone, Option.none_or]
  exact List.find?_cons_of_pos hr

theorem failingRung_passed {results : List RungResult} (h : ∀ r ∈ results, r.passed = true) :
    ValidationReport.failingRung results = none := by
  unfold ValidationReport.failingRung
  rw [List.find?_eq_none]
  intro r hr
  rw [List.mem_insertionSort] at hr
  rw [not_rejects_of_passed (h r hr)]
  exact Bool.false_ne_true

/-- Two bindings that name the same constraint; the reason may be worded otherwise. -/
structure SameBinding (b b' : BindingConstraint) : Prop where
  kind : b.kind = b'.kind
  name : b.name = b'.name
  rungIndex : b.rungIndex = b'.rungIndex
  observed : b.observed = b'.observed
  required : b.required = b'.required

theorem SameBinding.refl (b : BindingConstraint) : SameBinding b b := ⟨rfl, rfl, rfl, rfl, rfl⟩

theorem find_gate_congr {gates : List Gate} {f f' : Gate → GateResult} {k : ℤ}
    (hf : ∀ g, (f g).gate = g) (hf' : ∀ g, (f' g).gate = g)
    (h : ∀ g ∈ gates, g.rung = k → f g = f' g) :
    (gates.map f).find? (fun r => decide (r.gate.rung = k) && r.status.blocksPromotion) =
      (gates.map f').find? fun r => decide (r.gate.rung = k) && r.status.blocksPromotion := by
  induction gates with
  | nil => rfl
  | cons g gates ih =>
    have htail := ih fun g' hg' => h g' (List.mem_cons_of_mem _ hg')
    rw [List.map_cons, List.map_cons, List.find?_cons, List.find?_cons, htail, hf, hf']
    by_cases hk : g.rung = k
    · rw [h g (List.mem_cons_self ..) hk]
    · rw [decide_eq_false hk, Bool.false_and, Bool.false_and]

theorem judge_failing {text : Numerals} {rungs : List RungResult} {gates : List GateResult}
    {rung : RungResult} (h : ValidationReport.failingRung rungs = some rung) :
    ValidationReport.judge text rungs gates = (.reject,
      (gates.find? fun g => decide (g.gate.rung = rung.index) && g.status.blocksPromotion).elim
        (.fromRung rung) fun g => .fromGate text g rung.reason) := by
  unfold ValidationReport.judge
  rw [h]
  dsimp only
  cases gates.find? fun g => decide (g.gate.rung = rung.index) && g.status.blocksPromotion with
  | none | some g => rfl

theorem rungIndex_judge {text : Numerals} {rungs : List RungResult} {gates : List GateResult}
    {rung : RungResult} (h : ValidationReport.failingRung rungs = some rung) :
    (ValidationReport.judge text rungs gates).2.rungIndex = rung.index := by
  rw [judge_failing h]
  cases hg : gates.find? fun g => decide (g.gate.rung = rung.index) && g.status.blocksPromotion with
  | none => rfl
  | some g =>
    have hgate := List.find?_some hg
    rw [Bool.and_eq_true, decide_eq_true_eq] at hgate
    exact hgate.1

theorem rungIndex_judge_ne {text : Numerals} {rungs : List RungResult} {gates : List GateResult}
    {k : ℤ} (hk : 0 ≤ k) (hrungs : ∀ r ∈ rungs, r.index = k → r.passed = true)
    (hgates : ∀ g ∈ gates, g.gate.rung = k → g.status.blocksPromotion = false) :
    (ValidationReport.judge text rungs gates).2.rungIndex ≠ k := by
  intro hbinds
  cases hfailing : ValidationReport.failingRung rungs with
  | some rung =>
    rw [rungIndex_judge hfailing] at hbinds
    have hmem : rung ∈ rungs := by
      have := List.mem_of_find?_eq_some hfailing
      rwa [List.mem_insertionSort] at this
    have hrejects := List.find?_some hfailing
    rw [not_rejects_of_passed (hrungs rung hmem hbinds)] at hrejects
    cases hrejects
  | none =>
    unfold ValidationReport.judge at hbinds
    rw [hfailing] at hbinds
    dsimp only at hbinds
    split at hbinds
    next g hg =>
      have hmem := List.mem_filter.1 (mem_of_minBy hg)
      rw [hgates g hmem.1 hbinds] at hmem
      cases hmem.2
    next =>
      split at hbinds
      next r hr =>
        have hmem := List.mem_filter.1 (mem_of_minBy hr)
        have hpass : r.outcome = .pass := of_decide_eq_true (hrungs r hmem.1 hbinds)
        rw [hpass] at hmem
        cases hmem.2
      next =>
        have hnone : (-1 : ℤ) = k := hbinds
        omega

theorem judge_agree {gateSet : GateSet} {stC stM : LadderState T ρ} {cs js : List RungResult}
    (h : ValidationLadder.Agree gateSet stC stM cs js)
    (hcs : cs.Pairwise fun a b => a.index ≤ b.index)
    (hjs : js.Pairwise fun a b => a.index ≤ b.index) (text : Numerals) :
    (ValidationReport.judge text cs (gateSet.evaluate stC.gateValues stC.notApplicable)).1 =
      (ValidationReport.judge text js (gateSet.evaluate stM.gateValues stM.notApplicable)).1 ∧
    SameBinding
      (ValidationReport.judge text cs (gateSet.evaluate stC.gateValues stC.notApplicable)).2
      (ValidationReport.judge text js (gateSet.evaluate stM.gateValues stM.notApplicable)).2 := by
  cases h with
  | passed hc hj hst =>
    have hreached : ∀ xs : List RungResult, (∀ r ∈ xs, r.passed = true) →
        (xs.filter fun r => decide (r.outcome = .notReached)) = [] := by
      intro xs hxs
      rw [List.filter_eq_nil_iff]
      intro r hr
      have hpass : r.outcome = .pass := of_decide_eq_true (hxs r hr)
      rw [hpass]
      decide
    unfold ValidationReport.judge
    rw [failingRung_passed hc, failingRung_passed hj, hreached _ hc, hreached _ hj, hst]
    exact ⟨rfl, .refl _⟩
  | rejected hc hj hcr hjr hindex hname hgates =>
    have hgate := find_gate_congr (fun g => gate_inState g stC) (fun g => gate_inState g stM)
      hgates
    rw [judge_failing (failingRung_append hcs hc hcr),
      judge_failing (failingRung_append hjs hj hjr), evaluate_eq_map, evaluate_eq_map]
    refine ⟨rfl, ?_⟩
    rw [← hindex] at hgate
    dsimp only
    rw [hgate, hindex]
    generalize List.find? _ _ = found
    cases found with
    | some g => exact ⟨rfl, rfl, rfl, rfl, rfl⟩
    | none =>
      refine ⟨rfl, ?_, hindex, rfl, rfl⟩
      unfold Option.elim BindingConstraint.fromRung RungResult.label
      dsimp only
      rw [hindex, hname]

section Default

variable {ctx ctx' : LadderContext T ρ} {st st' : LadderState T ρ} {r : RungResult}

/-- The sweep of the grid was made, and its matrix has a column for each point. -/
structure Swept (ctx : LadderContext T ρ) (st : LadderState T ρ) : Prop where
  sweep : st.scratch.sweep ≠ []
  matrix : ∀ matrix ∈ st.scratch.trialsMatrix, matrix.length = ctx.candidate.grid.fullSize

theorem length_trialsMatrix {sweep : List (WindowEvaluation T)} {matrix : List (List Number)}
    (h : (trialsMatrix text sweep).1 = some matrix) : matrix.length = sweep.length := by
  unfold trialsMatrix at h
  split at h
  · cases h
  · dsimp only at h
    split at h
    · cases h
    · split at h
      · cases h
      · split at h
        · cases h
        · cases h
          rw [List.length_map]

variable (window : DateWindow)

theorem length_sweep : (ctx.sweep window).length = ctx.candidate.grid.fullSize := by
  unfold LadderContext.sweep
  rw [List.length_map, ParameterGrid.length_points]

theorem sweep_ne_nil : ctx.sweep window ≠ [] := by
  unfold LadderContext.sweep
  intro h
  exact ctx.candidate.grid.points_ne_nil (List.map_eq_nil_iff.1 h)

theorem swept_screen (hsweep : st.scratch.sweep = ctx.sweep ctx.researchWindow)
    (hmatrix : st.scratch.trialsMatrix =
      (trialsMatrix text (ctx.sweep ctx.researchWindow)).1) : Swept ctx st := by
  refine ⟨?_, ?_⟩
  · rw [hsweep]
    exact sweep_ne_nil _
  · intro matrix hm
    rw [hmatrix] at hm
    rw [length_trialsMatrix hm, length_sweep]

theorem Swept.of_eq (h : Swept ctx st) (hsweep : st'.scratch.sweep = st.scratch.sweep)
    (hmatrix : st'.scratch.trialsMatrix = st.scratch.trialsMatrix) : Swept ctx st' := by
  refine ⟨?_, ?_⟩
  · rw [hsweep]
    exact h.sweep
  · rw [hmatrix]
    exact h.matrix

def upperRungs (text : LadderText) (stats : Statistics T) : List (Rung T ρ) :=
  (defaultRungs text stats).tail

theorem framed_upper : Framed ctx (fun _ => True) (upperRungs text stats) := by
  have hdone : Framed ctx (Swept ctx) (upperRungs text stats).tail := by
    refine .cons (J := Swept ctx) ?_ <| .cons (J := Swept ctx) ?_ <| .cons (J := Swept ctx) ?_ <|
      .cons (J := fun _ => True) ?_ <| .cons (J := fun _ => True) ?_ .nil
    · intro st r st' hst hrun
      obtain ⟨hr, hwrites, hsweep, hmatrix⟩ := WalkForwardRung.run_ok hrun
      exact ⟨hr, hwrites, hst.of_eq hsweep hmatrix⟩
    · intro st r st' hst hrun
      obtain ⟨hr, hwrites, hsweep, hmatrix⟩ := PurgedCVRung.run_ok hrun
      exact ⟨hr, hwrites, hst.of_eq hsweep hmatrix⟩
    · intro st r st' hst hrun
      obtain ⟨hr, hwrites, hscratch⟩ := RobustnessRung.run_ok hst.sweep hrun
      exact ⟨hr, hwrites, hst.of_eq (by rw [hscratch]) (by rw [hscratch])⟩
    · intro st r st' hst hrun
      obtain ⟨hr, hwrites⟩ := DeflationRung.run_ok hst.matrix hrun
      exact ⟨hr, hwrites, trivial⟩
    · intro st r st' _ hrun
      obtain ⟨hr, hwrites⟩ := HoldoutRung.run_ok hrun
      exact ⟨hr, hwrites, trivial⟩
  refine .cons ?_ hdone
  intro st r st' _ hrun
  obtain ⟨hr, hwrites, hsweep, hmatrix⟩ := InSampleScreenRung.run_ok hrun
  exact ⟨hr, hwrites, swept_screen hsweep hmatrix⟩

theorem framed_default : Framed ctx (fun _ => True) (defaultRungs text stats) := by
  refine .cons ?_ framed_upper
  intro st r st' _ hrun
  obtain ⟨nSample, metrics, -, hr, rfl⟩ := SanityRung.run_ok hrun
  exact ⟨SanityRung.concluded hr, SanityRung.writes_after _, trivial⟩

theorem ascending_default : Ascending (defaultRungs text stats : List (Rung T ρ)) := by
  have hindices : ((defaultRungs text stats : List (Rung T ρ)).map fun rung =>
      rung.head.index).Pairwise (· < ·) := by
    have hlist : ((defaultRungs text stats : List (Rung T ρ)).map fun rung => rung.head.index) =
        [0, 1, 2, 3, 4, 5, 6] := rfl
    rw [hlist]
    decide
  exact List.pairwise_map.1 hindices

theorem upper_floor (m : ℤ) (hm : ∀ n ∈ some m, 1 ≤ n) :
    ∀ rung ∈ (upperRungs text stats : List (Rung T ρ)), ∀ st,
      rung.run { ctx with config := { ctx.config with minTrades := some m, minTrades_le := hm } }
        st =
        rung.run ctx st := by
  unfold upperRungs defaultRungs
  rw [List.tail_cons]
  simp only [List.mem_cons, List.not_mem_nil, or_false, forall_eq_or_imp, forall_eq]
  exact ⟨fun _ => rfl, fun _ => rfl, fun _ => rfl, fun _ => rfl, fun _ => rfl, fun _ => rfl⟩

theorem climb_congr {gateSet : GateSet} {rungs : List (Rung T ρ)}
    (h : ∀ rung ∈ rungs, ∀ st, rung.run ctx' st = rung.run ctx st) (st : LadderState T ρ) :
    ValidationLadder.climb text gateSet ctx' rungs st =
      ValidationLadder.climb text gateSet ctx rungs st := by
  induction rungs generalizing st with
  | nil => rfl
  | cons rung rest ih =>
    have htail := fun st => ih (fun rung' h' => h rung' (List.mem_cons_of_mem _ h')) st
    rw [ValidationLadder.climb, ValidationLadder.climb, h rung (List.mem_cons_self ..)]
    simp only [htail]

end Default

end Fiboki
