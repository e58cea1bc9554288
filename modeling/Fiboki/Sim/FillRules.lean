import Fiboki.Sim.Fills

/-!
The rules of the fill model apart from its costs: what an entry fills at, and what
`resolve_exit` decides before it prices a size.
-/

namespace Fiboki

structure ExitDecision where
  mid : ℚ
  reason : ExitReason
  gapped : Bool
  bothTouched : Bool
  slips : Bool
  level : Option ℚ

def ExitDecision.stop (mid stop : ℚ) (gapped both : Bool) : ExitDecision :=
  ⟨mid, .stopLoss, gapped, both, true, some stop⟩

def ExitDecision.target (mid : ℚ) (gapped both : Bool) : ExitDecision :=
  ⟨mid, .takeProfit, gapped, both, false, none⟩

namespace FillSimulator

variable (sim : FillSimulator)

/-- The branches of `resolve_exit`, with no size and no cost in them. -/
def decideExit (d : Direction) (bar : Bar) (barIndex : ℤ) (stop : ℚ) (takeProfit : Option ℚ)
    (sequence : ℤ) : Option ExitDecision :=
  if through d bar.open_ stop true then some (.stop (worseExit d stop bar.open_) stop true false)
  else
    match takeProfit with
    | none => if touched d bar stop true then some (.stop stop stop false false) else none
    | some target =>
      if through d bar.open_ target false then
        some (.target (worseExit d target bar.open_) true false)
      else if touched d bar stop true then
        if touched d bar target false then
          if sim.resolveAmbiguity bar stop target barIndex sequence then
            some (.stop stop stop false true)
          else some (.target target false true)
        else some (.stop stop stop false false)
      else if touched d bar target false then some (.target target false false)
      else none

def priceDecision (i : Instrument) (d : Direction) (size : ℚ) (bar : Bar) (barIndex sequence : ℤ)
    (stale : Bool) (e : ExitDecision) : ExitFill :=
  sim.priceExit i d size bar barIndex sequence e.mid e.reason e.gapped e.bothTouched e.slips e.level
    stale

theorem resolveExit_eq (i : Instrument) (d : Direction) (size : ℚ) (bar : Bar) (barIndex : ℤ)
    (stop : ℚ) (takeProfit : Option ℚ) (sequence : ℤ) (spacing : Spacing) :
    sim.resolveExit i d size bar barIndex stop takeProfit sequence spacing =
      (sim.decideExit d bar barIndex stop takeProfit sequence).map
        (sim.priceDecision i d size bar barIndex sequence (sim.isStale spacing bar.timestamp)) := by
  cases takeProfit with
  | none | some target =>
    simp only [resolveExit, decideExit]
    split_ifs <;> rfl

variable {stop : ℚ}

theorem decideExit_cases {d : Direction} {bar : Bar} {barIndex : ℤ}
    {takeProfit : Option ℚ} {sequence : ℤ} {e : ExitDecision}
    (h : sim.decideExit d bar barIndex stop takeProfit sequence = some e) :
    (through d bar.open_ stop true = true ∧
        ∃ both, e = .stop (worseExit d stop bar.open_) stop true both) ∨
      (through d bar.open_ stop true = false ∧ ∃ both, e = .stop stop stop false both) ∨
      (through d bar.open_ stop true = false ∧ ∃ target gapped both, takeProfit = some target ∧
        e = .target target gapped both) := by
  unfold decideExit at h
  by_cases hstop : through d bar.open_ stop true = true
  · rw [if_pos hstop] at h
    exact .inl ⟨hstop, false, (Option.some.inj h).symm⟩
  rw [if_neg hstop] at h
  have hclear : through d bar.open_ stop true = false := Bool.eq_false_iff.2 hstop
  cases takeProfit with
  | none =>
    dsimp only at h
    split_ifs at h
    exact .inr (.inl ⟨hclear, false, (Option.some.inj h).symm⟩)
  | some target =>
    dsimp only at h
    split_ifs at h with hgap _ _ _
    · refine .inr (.inr ⟨hclear, target, true, false, rfl, ?_⟩)
      have hmid : worseExit d target bar.open_ = target := by
        cases d with
        | long => exact min_eq_left (of_decide_eq_true hgap)
        | short => exact max_eq_left (of_decide_eq_true hgap)
      rw [hmid] at h
      exact (Option.some.inj h).symm
    · exact .inr (.inl ⟨hclear, true, (Option.some.inj h).symm⟩)
    · exact .inr (.inr ⟨hclear, target, false, true, rfl, (Option.some.inj h).symm⟩)
    · exact .inr (.inl ⟨hclear, false, (Option.some.inj h).symm⟩)
    · exact .inr (.inr ⟨hclear, target, false, false, rfl, (Option.some.inj h).symm⟩)

variable (i : Instrument) (d : Direction) (size : ℚ) (bar : Bar) (barIndex sequence : ℤ)
  (stale : Bool)

variable (mid : ℚ) (reason : ExitReason)

theorem priceExit_midPrice (gapped both slips : Bool)
    (level : Option ℚ) : (sim.priceExit i d size bar barIndex sequence mid reason gapped both slips
      level stale).midPrice =
        if reason = .stopLoss ∧ sim.profile.useGuaranteedStops then level.getD mid else mid := by
  simp only [priceExit]
  split_ifs <;> rfl

theorem priceDecision_target (gapped both : Bool) :
    (sim.priceDecision i d size bar barIndex sequence stale (.target mid gapped both)).midPrice =
      mid := by
  rw [priceDecision, priceExit_midPrice]
  exact if_neg (by simp [ExitDecision.target])

theorem priceDecision_stop (mid stop : ℚ) (gapped both : Bool) :
    (sim.priceDecision i d size bar barIndex sequence stale (.stop mid stop gapped both)).midPrice =
      if sim.profile.useGuaranteedStops then stop else mid := by
  rw [priceDecision, priceExit_midPrice]
  simp [ExitDecision.stop]

theorem priceDecision_resize (size' : ℚ) (e : ExitDecision) :
    (sim.priceDecision i d size' bar barIndex sequence stale e).midPrice =
      (sim.priceDecision i d size bar barIndex sequence stale e).midPrice := by
  rw [priceDecision, priceDecision, priceExit_midPrice, priceExit_midPrice]

theorem simulateEntry_ok {spacing : Spacing} {fill : EntryFill}
    (h : sim.simulateEntry i d size bar barIndex stop sequence spacing = .ok fill) :
    0 < fill.filledSize ∧ fill.midPrice = bar.open_ ∧
      sim.enforceMinStop i d bar.open_ stop = .ok fill.effectiveStop := by
  cases hstop : sim.enforceMinStop i d bar.open_ stop with
  | error reason =>
    simp only [simulateEntry, hstop] at h
    split_ifs at h
  | ok effective =>
    simp only [simulateEntry, hstop] at h
    -- the size that is dealt, drawn or whole, has passed the minimum
    split_ifs at h
    all_goals
      rename_i hdealt
      obtain rfl := Except.ok.inj h
      rw [not_or, not_lt, not_le] at hdealt
      exact ⟨hdealt.2, rfl, rfl⟩

theorem marketExit_reason (price : ℚ) (spacing : Spacing) :
    (sim.marketExit i d size bar barIndex reason price sequence spacing).reason = reason := rfl

end FillSimulator

end Fiboki
