import Fiboki.Backtest.PositionLives

/-!
The protective stop: it tightens, it is used from the next bar on, and a stop-out is
labelled by what moved it.
-/

namespace Fiboki

section Move

variable (env : BookSetup) (v : BarSlice) (op : ManagedPosition)

theorem breakevenStop_cases :
    ((env.breakevenStop op).1 = op.position.stopLoss ∧ (env.breakevenStop op).2.1 = "") ∨
      (0 < ((env.breakevenStop op).1 - op.position.stopLoss) * op.position.direction.sign ∧
        (env.breakevenStop op).2.1 = "breakeven") := by
  unfold BookSetup.breakevenStop
  cases env.policy.breakevenAtR with
  | none => exact .inl ⟨rfl, rfl⟩
  | some r =>
    dsimp only
    split_ifs with hdue hbetter
    · exact .inr ⟨hbetter, rfl⟩
    · exact .inl ⟨rfl, rfl⟩
    · exact .inl ⟨rfl, rfl⟩

variable (proposed : ℚ) (movedBy : String)

theorem trailStop_cases :
    env.trailStop v op proposed movedBy = (proposed, movedBy) ∨
      (0 < ((env.trailStop v op proposed movedBy).1 - proposed) * op.position.direction.sign ∧
        (env.trailStop v op proposed movedBy).2 = "trailing") := by
  unfold BookSetup.trailStop
  dsimp only
  split_ifs
  · split
    · exact .inl rfl
    · split_ifs with hbetter
      · exact .inr ⟨hbetter, rfl⟩
      · exact .inl rfl
  · exact .inl rfl

theorem trailStop_level :
    (env.trailStop v op proposed movedBy).1 = (env.trailStop v op proposed "").1 := by
  unfold BookSetup.trailStop
  dsimp only
  split_ifs
  · split
    · rfl
    · split_ifs <;> rfl
  · rfl

def StopRule.name : StopRule → String
  | breakeven => "breakeven"
  | trailing => "trailing"

/-- What a closed bar does to the stop of an open position: nothing, or a move in its favour
whose label sticks once it is the trail's. -/
theorem updateProtectiveStop_cases : (env.stopMove v op = none ∧
      (env.updateProtectiveStop v op).position.stopLoss = op.position.stopLoss ∧
      (env.updateProtectiveStop v op).stopTrailed = op.stopTrailed ∧
      (env.updateProtectiveStop v op).stopMovedBy = op.stopMovedBy) ∨
    ∃ rule, env.stopMove v op = some rule ∧
      0 < ((env.updateProtectiveStop v op).position.stopLoss - op.position.stopLoss) *
        op.position.direction.sign ∧
      (env.updateProtectiveStop v op).stopTrailed = true ∧
      (env.updateProtectiveStop v op).stopMovedBy =
        if op.stopMovedBy = "trailing" then "trailing" else rule.name := by
  unfold BookSetup.updateProtectiveStop BookSetup.stopMove
  by_cases hrisk : op.riskPerUnit ≤ 0
  · rw [if_pos hrisk, if_pos hrisk]
    exact .inl ⟨rfl, rfl, rfl, rfl⟩
  simp only [if_neg hrisk]
  have hbreakeven := breakevenStop_cases env op
  generalize env.breakevenStop op = rule at hbreakeven ⊢
  obtain ⟨proposed, movedBy, done⟩ := rule
  dsimp only at hbreakeven ⊢
  have htrail := trailStop_cases env v op proposed movedBy
  have hlevel := trailStop_level env v op proposed movedBy
  rw [← hlevel]
  generalize env.trailStop v op proposed movedBy = trail at htrail ⊢
  obtain ⟨level, label⟩ := trail
  dsimp only at htrail ⊢
  have hsum : (level - op.position.stopLoss) * op.position.direction.sign =
      (level - proposed) * op.position.direction.sign +
        (proposed - op.position.stopLoss) * op.position.direction.sign := by ring
  have hsticky : ∀ name : String, name ≠ "" →
      (if name ≠ "" ∧ op.stopMovedBy ≠ "trailing" then name else op.stopMovedBy) =
        if op.stopMovedBy = "trailing" then "trailing" else name := by
    intro name hname
    by_cases htrailing : op.stopMovedBy = "trailing"
    · rw [if_neg (fun h => h.2 htrailing), if_pos htrailing, htrailing]
    · rw [if_pos ⟨hname, htrailing⟩, if_neg htrailing]
  have hbefore : 0 ≤ (proposed - op.position.stopLoss) * op.position.direction.sign := by
    rcases hbreakeven with ⟨rfl, -⟩ | ⟨hbetter, -⟩
    · simp
    · exact hbetter.le
  rcases htrail with heq | ⟨hbetter, rfl⟩
  · obtain ⟨rfl, rfl⟩ := Prod.mk.inj heq
    rw [sub_self, zero_mul, if_neg (lt_irrefl 0)]
    rcases hbreakeven with ⟨rfl, rfl⟩ | ⟨hbetter, rfl⟩
    · rw [sub_self, zero_mul, if_neg (lt_irrefl 0), if_neg (lt_irrefl 0)]
      exact .inl ⟨rfl, rfl, rfl, rfl⟩
    · rw [if_pos hbetter, if_pos hbetter]
      exact .inr ⟨.breakeven, rfl, hbetter, rfl, hsticky "breakeven" (by decide)⟩
  · have hmoved : 0 < (level - op.position.stopLoss) * op.position.direction.sign := by
      rw [hsum]
      linarith
    rw [if_pos hbetter, if_pos hmoved]
    exact .inr ⟨.trailing, rfl, hmoved, rfl, hsticky "trailing" (by decide)⟩

end Move

def movedByOf (moves : List StopRule) : String :=
  if .trailing ∈ moves then "trailing" else if moves = [] then "" else "breakeven"

def levelReason (moves : List StopRule) : ExitReason :=
  match moves.getLast? with
  | none => .stopLoss
  | some .breakeven => .breakeven
  | some .trailing => .trailingStop

structure StopState (moves : List StopRule) (op : ManagedPosition) : Prop where
  trailed : op.stopTrailed = true ↔ moves ≠ []
  movedBy : op.stopMovedBy = movedByOf moves
  unmoved : moves = [] → op.position.stopLoss = op.initialStop
  moved : moves ≠ [] → 0 < (op.position.stopLoss - op.initialStop) * op.position.direction.sign

namespace StopState

variable {env : BookSetup} {moves : List StopRule} {op op' : ManagedPosition}

theorem congr (h : StopState moves op) (hterms : SameTerms op op') (hstop : SameStop op op') :
    StopState moves op' where
  trailed := by rw [hstop.stopTrailed, h.trailed]
  movedBy := by rw [hstop.stopMovedBy, h.movedBy]
  unmoved hnone := by rw [hstop.stopLoss, hterms.initialStop, h.unmoved hnone]
  moved hsome := by
    rw [hstop.stopLoss, hterms.initialStop, hterms.direction]
    exact h.moved hsome

theorem trailed_iff (h : StopState moves op) :
    op.stopTrailed = true ↔ op.position.stopLoss ≠ op.initialStop := by
  rw [h.trailed]
  constructor
  · intro hsome heq
    have hmoved := h.moved hsome
    rw [heq, sub_self, zero_mul] at hmoved
    exact lt_irrefl 0 hmoved
  · intro hne hnone
    exact hne (h.unmoved hnone)

theorem updateProtectiveStop (h : StopState moves op) (v : BarSlice) :
    StopState (moves ++ (env.stopMove v op).toList) (env.updateProtectiveStop v op) := by
  have hterms := sameTerms_updateProtectiveStop env v op
  rcases updateProtectiveStop_cases env v op with ⟨hmove, hlevel, htrailed, hmovedBy⟩ |
    ⟨rule, hmove, hbetter, htrailed, hmovedBy⟩
  · rw [hmove, Option.toList_none, List.append_nil]
    refine ⟨?_, ?_, fun hnone => ?_, fun hsome => ?_⟩
    · rw [htrailed, h.trailed]
    · rw [hmovedBy, h.movedBy]
    · rw [hlevel, hterms.initialStop, h.unmoved hnone]
    · rw [hlevel, hterms.initialStop, hterms.direction]
      exact h.moved hsome
  · rw [hmove, Option.toList_some]
    refine ⟨?_, ?_, fun hnone => ?_, fun _ => ?_⟩
    · rw [htrailed]
      simp
    · rw [hmovedBy, h.movedBy]
      cases rule <;> by_cases htrail : StopRule.trailing ∈ moves <;> by_cases hnil : moves = [] <;>
        simp [movedByOf, htrail, hnil, StopRule.name]
    · exact absurd hnone (by simp)
    · have hfrom : 0 ≤ (op.position.stopLoss - op.initialStop) * op.position.direction.sign := by
        by_cases hnil : moves = []
        · rw [h.unmoved hnil, sub_self, zero_mul]
        · exact (h.moved hnil).le
      have hsum : ((env.updateProtectiveStop v op).position.stopLoss - op.initialStop) *
          op.position.direction.sign =
          ((env.updateProtectiveStop v op).position.stopLoss - op.position.stopLoss) *
            op.position.direction.sign +
          (op.position.stopLoss - op.initialStop) * op.position.direction.sign := by ring
      rw [hterms.initialStop, hterms.direction, hsum]
      linarith

variable {fill : ExitFill}

theorem exitReason_stop (h : StopState moves op) (hstop : fill.reason = .stopLoss) :
    op.exitReason fill =
      if moves = [] then .stopLoss else if .trailing ∈ moves then .trailingStop
        else .breakeven := by
  unfold ManagedPosition.exitReason
  rw [h.movedBy, hstop]
  by_cases hnil : moves = []
  · have hflag : op.stopTrailed = false := by
      rw [← Bool.not_eq_true, h.trailed]
      exact fun hne => hne hnil
    simp [hnil, hflag]
  · have hflag : op.stopTrailed = true := h.trailed.2 hnil
    by_cases htrail : StopRule.trailing ∈ moves <;> simp [hnil, hflag, htrail, movedByOf]

/-- A stop-out is labelled by the rule of the level in force, unless breakeven moved a stop
that the trail had moved before. -/
theorem exitReason_truthful (h : StopState moves op) (hstop : fill.reason = .stopLoss) :
    op.exitReason fill = levelReason moves ↔
      ¬ (.trailing ∈ moves ∧ moves.getLast? = some .breakeven) := by
  rw [h.exitReason_stop hstop]
  cases hlast : moves.getLast? with
  | none =>
    have hnil : moves = [] := List.getLast?_eq_none_iff.1 hlast
    simp [hnil, levelReason]
  | some rule =>
    have hmem : rule ∈ moves := List.mem_of_getLast? hlast
    have hnil : moves ≠ [] := List.ne_nil_of_mem hmem
    cases rule with
    | breakeven =>
      by_cases htrail : StopRule.trailing ∈ moves <;> simp [levelReason, hlast, hnil, htrail]
    | trailing => simp [levelReason, hlast, hnil, hmem]

theorem exitReason_plain (h : StopState moves op) (hstop : fill.reason = .stopLoss) :
    op.exitReason fill = .stopLoss ↔ op.position.stopLoss = op.initialStop := by
  have hiff := h.trailed.symm.trans h.trailed_iff
  rw [h.exitReason_stop hstop]
  by_cases hnil : moves = []
  · simp [hnil, h.unmoved hnil]
  · have hne := hiff.1 hnil
    split_ifs <;> simp [hne]

end StopState

section Life

variable {env : BookSetup} {order : PendingEntry} {fill : EntryFill} {stage : Option BarSlice}
  {tr : Track}

/-- An event moves the stop in the position's favour or not at all, and its fills are taken
under the stop it began with. -/
theorem Track.step_stop (env : BookSetup) (tr : Track) (e : PositionEvent) :
    0 ≤ ((tr.step env e).op.position.stopLoss - tr.op.position.stopLoss) *
        tr.op.position.direction.sign ∧
      ∃ new, (tr.step env e).closings = tr.closings ++ new ∧
        ∀ c ∈ new, c.1 = tr.moves ∧ SameStop tr.op c.2.op ∧ SameTerms tr.op c.2.op := by
  have hnew : ∀ cs : List Closing, (∀ c ∈ cs, SameStop tr.op c.op) →
      (∀ c ∈ cs, SameTerms tr.op c.op) → ∃ new, tr.close cs = tr.closings ++ new ∧
        ∀ c ∈ new, c.1 = tr.moves ∧ SameStop tr.op c.2.op ∧ SameTerms tr.op c.2.op := by
    intro cs hstops hterms
    refine ⟨_, rfl, fun c hc => ?_⟩
    obtain ⟨c', hc', rfl⟩ := List.mem_map.1 hc
    exact ⟨rfl, hstops c' hc', hterms c' hc'⟩
  rcases tr.step_cases env e with ⟨op, nights, hstep, -, hstop, -, -⟩ |
    ⟨v, bar, reason, -, -, hstep⟩ | ⟨v, bar, -, -, hstep⟩ | ⟨v, bar, reason, price, spacing, hstep⟩
  · rw [hstep]
    refine ⟨?_, [], (List.append_nil _).symm, by simp⟩
    dsimp only
    rw [hstop.stopLoss, sub_self, zero_mul]
  · obtain ⟨hstop, hstops⟩ := sameStop_barFills env v bar tr.op
    rw [hstep]
    refine ⟨?_, hnew _ hstops (sameTerms_barFills env v bar tr.op).2⟩
    dsimp only
    rw [hstop.stopLoss, sub_self, zero_mul]
  · obtain ⟨hstop, hstops⟩ := sameStop_barFills env v bar tr.op
    obtain ⟨hterms, hfills⟩ := sameTerms_barFills env v bar tr.op
    rw [hstep]
    refine ⟨?_, hnew _ hstops hfills⟩
    rw [← hstop.stopLoss, ← hterms.direction]
    rcases updateProtectiveStop_cases env v (env.barFills v bar tr.op).2.1 with
      ⟨-, hlevel, -, -⟩ | ⟨rule, -, hbetter, -, -⟩
    · rw [hlevel, sub_self, zero_mul]
    · exact hbetter.le
  · rw [hstep]
    refine ⟨?_, hnew [_] (fun c hc => ?_) (fun c hc => ?_)⟩
    · show 0 ≤ (tr.op.position.stopLoss - tr.op.position.stopLoss) * tr.op.position.direction.sign
      rw [sub_self, zero_mul]
    · rw [List.mem_singleton.1 hc]
      exact .refl tr.op
    · rw [List.mem_singleton.1 hc]
      exact .refl tr.op

theorem Lives.stop (h : Lives env order fill stage tr) :
    StopState tr.moves tr.op ∧ ∀ c ∈ tr.closings, StopState c.1 c.2.op := by
  apply h.invariant
    (P := fun tr => StopState tr.moves tr.op ∧ ∀ c ∈ tr.closings, StopState c.1 c.2.op)
  · intro v bar seq _ _
    refine ⟨⟨?_, rfl, fun _ => rfl, fun hne => absurd rfl hne⟩, by simp [Track.opened]⟩
    simp [Track.opened, BookSetup.openPosition]
  · rintro tr e _ ⟨hnow, hbefore⟩
    refine ⟨?_, ?_⟩
    · rcases tr.step_cases env e with ⟨op, nights, hstep, hterms, hstop, -, -⟩ |
        ⟨v, bar, reason, -, -, hstep⟩ | ⟨v, bar, -, -, hstep⟩ |
        ⟨v, bar, reason, price, spacing, hstep⟩
      · rw [hstep]
        exact hnow.congr hterms hstop
      · rw [hstep]
        exact hnow.congr (sameTerms_barFills env v bar tr.op).1
          (sameStop_barFills env v bar tr.op).1
      · rw [hstep]
        exact (hnow.congr (sameTerms_barFills env v bar tr.op).1
          (sameStop_barFills env v bar tr.op).1).updateProtectiveStop v
      · rw [hstep]
        exact hnow.congr
          (sameTerms_reduced env (env.marketClosing v bar reason.exitReason price spacing tr.op))
          (sameStop_reduced env (env.marketClosing v bar reason.exitReason price spacing tr.op))
    · obtain ⟨-, new, hclosings, hnew⟩ := tr.step_stop env e
      rw [hclosings]
      intro c hc
      rcases List.mem_append.1 hc with hc | hc
      · exact hbefore c hc
      · obtain ⟨hmoves, hstop, hterms⟩ := hnew c hc
        rw [hmoves]
        exact hnow.congr hterms hstop

end Life

/-- The stop of every position tightens, and what it closes on a bar is closed at the level the
bar began with; the flag says that it has moved, a plain stop-out that it has not; and a stop-out
is labelled by the rule of the level in force exactly when breakeven has not moved a stop that
the trail had moved before. -/
theorem protective_stop (env : BookSetup) (initial : ℚ) (events : List BookEvent) :
    (∀ order fill stage tr, Lives env order fill stage tr → ∀ e : PositionEvent,
      0 ≤ ((tr.step env e).op.position.stopLoss - tr.op.position.stopLoss) *
          tr.op.position.direction.sign ∧
        ∃ new, (tr.step env e).closings = tr.closings ++ new ∧ ∀ c ∈ new, c.1 = tr.moves ∧
          c.2.op.position.stopLoss = tr.op.position.stopLoss) ∧
    ∀ e ∈ (BookHistory.after env initial events).entries, ∀ s, e.managed = some s →
      ∃ fill tr, e.fill = some fill ∧ Lives env e.pending fill none tr ∧ tr.op.seq = s ∧
        tr.legs env = (BookHistory.after env initial events).book.exitLegs.filter
          (fun leg => leg.positionSeq = s) ∧
        (tr.closed = none → tr.op ∈ (BookHistory.after env initial events).book.open_) ∧
        (tr.op.stopTrailed = true ↔ tr.op.position.stopLoss ≠ tr.op.initialStop) ∧
        ∀ c ∈ tr.closings, c.2.fill.reason = .stopLoss →
          (c.2.op.stopTrailed = true ↔ c.2.op.position.stopLoss ≠ c.2.op.initialStop) ∧
          (c.2.reason = .stopLoss ↔ c.2.op.position.stopLoss = c.2.op.initialStop) ∧
          (c.2.reason = levelReason c.1 ↔
            ¬ (.trailing ∈ c.1 ∧ c.1.getLast? = some .breakeven)) := by
  constructor
  · intro order fill stage tr _ e
    obtain ⟨htighter, new, hclosings, hnew⟩ := tr.step_stop env e
    refine ⟨htighter, new, hclosings, fun c hc => ?_⟩
    obtain ⟨hmoves, hstop, -⟩ := hnew c hc
    exact ⟨hmoves, hstop.stopLoss⟩
  · intro e he s hs
    obtain ⟨fill, tr, hfill, hlives, hseq, hrows, hplace⟩ :=
      (BookHistory.refines env initial events).life he hs
    obtain ⟨hnow, hbefore⟩ := hlives.stop
    refine ⟨fill, tr, hfill, hlives, hseq, hrows, fun hopen => ?_, hnow.trailed_iff,
      fun c hc hstop => ?_⟩
    · rcases hplace with ⟨-, hmem⟩ | ⟨hclosed, -⟩
      · exact hmem
      · exact absurd hopen hclosed
    · have hstate := hbefore c hc
      exact ⟨hstate.trailed_iff, hstate.exitReason_plain hstop, hstate.exitReason_truthful hstop⟩

section Mislabelled

open Frictionless BookSample

def slowTrail : ExitPolicy :=
  { defaultExitPolicy with
    breakevenAtR := some 1
    trailing := ⟨.fixedDistance, 15, 0, none, none, by norm_num,
      TrailSpec.noTrail.activate_nonneg, by
        show (0 : ℚ) < 15
        norm_num⟩
    breakeven_nonneg := by simp }

def slowTrailBook : BookSetup := { Frictionless.book with policy := slowTrail }

def slowOrder : PendingEntry := longOrder 0 1 90 [] [] no_targets_aligned

def slowSlices : List BarSlice :=
  [sliceOf 0 (flatBar 0 100), sliceOf 1 (flatBar hourNs 106), sliceOf 2 (flatBar (2 * hourNs) 112),
    sliceOf 3 (flatBar (3 * hourNs) 99)]

def slowRun : List BookEvent := .queueEntry slowOrder :: slowSlices.map .advance

def slowFill : EntryFill := ⟨1, 100, 100, 90, 0, 0, false, false, ⟨0, 0, 0, 0, "USD"⟩⟩

def slowLife : Track :=
  (slowSlices.map PositionEvent.bar).foldl (Track.step slowTrailBook)
    (.opened slowTrailBook (sliceOf 0 (flatBar 0 100)) slowOrder slowFill 2)

theorem slowFill_ok : slowTrailBook.sim.simulateEntry slowOrder.instrument slowOrder.direction
    slowOrder.size (flatBar 0 100) 0 slowOrder.stopPrice slowOrder.seq ⟨none, none⟩ =
      .ok slowFill := by
  decide +kernel

theorem slowLife_lives : Lives slowTrailBook slowOrder slowFill none slowLife := by
  have hopened : Lives slowTrailBook slowOrder slowFill (some (sliceOf 0 (flatBar 0 100)))
      (.opened slowTrailBook (sliceOf 0 (flatBar 0 100)) slowOrder slowFill 2) :=
    .opened rfl slowFill_ok 2
  have hsecond := hopened.first.step (by decide)
    (.bar (sliceOf 1 (flatBar hourNs 106)))
  have hthird := hsecond.step (by decide +kernel) (.bar (sliceOf 2 (flatBar (2 * hourNs) 112)))
  exact hthird.step (by decide +kernel) (.bar (sliceOf 3 (flatBar (3 * hourNs) 99)))

/-- The level in force was breakeven's, and the stop-out is reported as the trail's. -/
theorem breakeven_reported_as_trail : Lives slowTrailBook slowOrder slowFill none slowLife ∧
      slowLife.closings.map (fun c => (c.1, c.2.fill.reason, c.2.reason, levelReason c.1)) =
        [([.trailing, .breakeven], .stopLoss, .trailingStop, .breakeven)] ∧
      (BookHistory.after slowTrailBook 100 slowRun).book.exitLegs.map ExitLeg.exitReason =
        [ExitReason.trailingStop.value] := by
  exact ⟨slowLife_lives, by decide +kernel, by decide +kernel⟩

theorem slowRun_opened :
    (BookHistory.after slowTrailBook 100 slowRun).entries.map EntryEvent.managed = [some 2] := by
  decide +kernel

/-- The general statement on this run: its last move was in the position's favour, and the
position it opened has had its stop moved. -/
theorem protective_stop_slow : 0 ≤ ((slowLife.step slowTrailBook .reverse).op.position.stopLoss -
        slowLife.op.position.stopLoss) * slowLife.op.position.direction.sign ∧
      ∃ tr : Track, tr.op.seq = 2 ∧
        tr.legs slowTrailBook = (BookHistory.after slowTrailBook 100 slowRun).book.exitLegs.filter
          (fun leg => leg.positionSeq = 2) ∧
        (tr.op.stopTrailed = true ↔ tr.op.position.stopLoss ≠ tr.op.initialStop) := by
  obtain ⟨htighter, hrun⟩ := protective_stop slowTrailBook 100 slowRun
  refine ⟨(htighter slowOrder slowFill none slowLife slowLife_lives .reverse).1, ?_⟩
  obtain ⟨e, hentries, he⟩ := List.map_eq_singleton_iff.1 slowRun_opened
  obtain ⟨fill, tr, -, -, hseq, hrows, -, hflag, -⟩ := hrun e (by simp [hentries]) 2 he
  exact ⟨tr, hseq, hrows, hflag⟩

end Mislabelled

end Fiboki
