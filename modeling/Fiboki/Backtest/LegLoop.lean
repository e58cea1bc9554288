import Fiboki.Backtest.PositionLives

/-!
The take-profit loop of one bar: it runs until the bar has nothing more to say, and takes
the legs of a ladder one after another.
-/

namespace Fiboki

variable (env : BookSetup) {v : BarSlice} {bar : Bar} {op : ManagedPosition}

theorem resolveFor_eq (v : BarSlice) (bar : Bar) (op : ManagedPosition) (size : ℚ) :
    env.resolveFor v bar op size =
      (env.sim.decideExit op.position.direction bar v.index op.position.stopLoss op.activeTarget
        op.seq).map (env.sim.priceDecision op.instrument op.position.direction size bar v.index
          op.seq (env.sim.isStale (v.spacing op.position.instrument) bar.timestamp)) :=
  env.sim.resolveExit_eq _ _ _ _ _ _ _ _ _

variable {decision : ExitFill}

variable {size : ℚ}

theorem resolveFor_resize (h : env.resolveFor v bar op size = some decision) (size' : ℚ) :
    ∃ fill, env.resolveFor v bar op size' = some fill ∧ fill.reason = decision.reason ∧
      fill.midPrice = decision.midPrice := by
  rw [resolveFor_eq] at h ⊢
  obtain ⟨e, he, rfl⟩ := Option.map_eq_some_iff.1 h
  refine ⟨env.sim.priceDecision op.instrument op.position.direction size' bar v.index op.seq
    (env.sim.isStale (v.spacing op.position.instrument) bar.timestamp) e, ?_, rfl, ?_⟩
  · rw [he, Option.map_some]
  · exact env.sim.priceDecision_resize _ _ _ _ _ _ _ _ _

theorem resolveFor_none (h : env.resolveFor v bar op size = none) (size' : ℚ) :
    env.resolveFor v bar op size' = none := by
  rw [resolveFor_eq, Option.map_eq_none_iff] at h ⊢
  exact h

theorem closing_fill (h : env.resolveFor v bar op op.position.size = some decision) :
    (env.closing v bar op decision).fill.reason = decision.reason ∧
      (env.closing v bar op decision).fill.midPrice = decision.midPrice := by
  obtain ⟨fill, hfill, hreason, hmid⟩ := resolveFor_resize env h (op.sizeForExit decision).1
  simp only [BookSetup.closing, hfill, Option.getD_some]
  split_ifs
  · exact ⟨rfl, rfl⟩
  · exact ⟨hreason, hmid⟩

theorem sizeForExit_open {fill : ExitFill} (h : (op.sizeForExit fill).2 = false) :
    fill.reason = .takeProfit ∧ op.nextLeg < op.legs.length := by
  unfold ManagedPosition.sizeForExit at h
  cases hleg : op.legs[op.nextLeg]? with
  | none =>
    rw [hleg] at h
    cases h
  | some leg =>
    rw [hleg] at h
    dsimp only at h
    refine ⟨?_, (List.getElem?_eq_some_iff.1 hleg).1⟩
    by_contra hreason
    rw [if_pos hreason] at h
    cases h

theorem target_of_resolveFor (h : env.resolveFor v bar op size = some decision)
    (htarget : decision.reason = .takeProfit) :
    ∃ leg, op.legs[op.nextLeg]? = some leg ∧ decision.midPrice = leg.price := by
  rw [resolveFor_eq] at h
  obtain ⟨e, he, rfl⟩ := Option.map_eq_some_iff.1 h
  rcases env.sim.decideExit_cases he with ⟨-, both, rfl⟩ | ⟨-, both, rfl⟩ |
    ⟨-, target, gapped, both, hactive, rfl⟩
  · cases htarget
  · cases htarget
  · obtain ⟨leg, hleg, rfl⟩ := Option.map_eq_some_iff.1 hactive
    exact ⟨leg, hleg, env.sim.priceDecision_target _ _ _ _ _ _ _ _ _ _⟩

variable (c : Closing)

theorem legs_afterLeg : (env.afterLeg c).legs = c.op.legs := (sameTerms_afterLeg env c).legs

theorem nextLeg_of_open (h : env.resolveFor v bar op op.position.size = some decision)
    (hopen : (env.closing v bar op decision).final = false) :
    (env.afterLeg (env.closing v bar op decision)).nextLeg = op.nextLeg + 1 ∧
      op.nextLeg < op.legs.length := by
  obtain ⟨hreason, hlt⟩ := sizeForExit_open hopen
  rw [nextLeg_afterLeg, (closing_fill env h).1, if_pos hreason]
  exact ⟨rfl, hlt⟩

/-- A loop that may go round more often than there are legs left ends on a bar that does not
exit, or with the position closed. -/
theorem exitFills_settled {n : ℕ} (hn : 0 < n) (hlegs : op.legs.length < op.nextLeg + n)
    (hopen : (env.exitFills v bar n op).2.2 = none) (size : ℚ) :
    env.resolveFor v bar (env.exitFills v bar n op).2.1 size = none := by
  induction n generalizing op with
  | zero => exact absurd hn (lt_irrefl 0)
  | succ n ih =>
    cases hdecision : env.resolveFor v bar op op.position.size with
    | none =>
      simp only [BookSetup.exitFills, hdecision]
      exact resolveFor_none env hdecision size
    | some decision =>
      simp only [BookSetup.exitFills, hdecision] at hopen ⊢
      by_cases hfinal : (env.closing v bar op decision).final = true
      · rw [if_pos hfinal] at hopen
        cases hopen
      · rw [if_neg hfinal] at hopen ⊢
        obtain ⟨hnext, hlt⟩ := nextLeg_of_open env hdecision (Bool.eq_false_iff.2 hfinal)
        apply ih
        · omega
        · rw [legs_afterLeg, hnext]
          have hsame : (env.closing v bar op decision).op.legs = op.legs := rfl
          rw [hsame]
          omega
        · exact hopen

def Closing.isTarget (c : Closing) : Bool := c.fill.reason = .takeProfit

def targetsTaken (cs : List Closing) : List ℚ :=
  (cs.filter Closing.isTarget).map fun c => c.fill.midPrice

theorem targetsTaken_append (cs cs' : List Closing) :
    targetsTaken (cs ++ cs') = targetsTaken cs ++ targetsTaken cs' := by
  simp [targetsTaken]

structure LegsTaken (taken : List ℚ) (op : ManagedPosition) : Prop where
  inside : op.nextLeg ≤ op.legs.length
  taken : taken = (op.legs.take op.nextLeg).map TakeProfitLeg.price

variable {taken : List ℚ}

theorem LegsTaken.congr {op op' : ManagedPosition} (h : LegsTaken taken op)
    (hlegs : op'.legs = op.legs) (hnext : op'.nextLeg = op.nextLeg) : LegsTaken taken op' := by
  constructor
  · rw [hlegs, hnext]
    exact h.inside
  · rw [hlegs, hnext]
    exact h.taken

theorem LegsTaken.afterLeg (h : LegsTaken taken op)
    (hdecision : env.resolveFor v bar op op.position.size = some decision) :
    LegsTaken (taken ++ targetsTaken [env.closing v bar op decision])
      (env.afterLeg (env.closing v bar op decision)) := by
  have hlegs : (env.afterLeg (env.closing v bar op decision)).legs = op.legs :=
    legs_afterLeg env (env.closing v bar op decision)
  have hnext := nextLeg_afterLeg env (env.closing v bar op decision)
  obtain ⟨hreason, hmid⟩ := closing_fill env hdecision
  rw [hreason] at hnext
  by_cases htarget : decision.reason = .takeProfit
  · obtain ⟨leg, hleg, hprice⟩ := target_of_resolveFor env hdecision htarget
    obtain ⟨hlt, -⟩ := List.getElem?_eq_some_iff.1 hleg
    rw [if_pos htarget] at hnext
    have hone : targetsTaken [env.closing v bar op decision] = [leg.price] := by
      simp [targetsTaken, Closing.isTarget, hreason, htarget, hmid, hprice]
    constructor
    · rw [hlegs, hnext]
      exact hlt
    · rw [hlegs, hnext, hone, h.taken]
      show _ = (op.legs.take (op.nextLeg + 1)).map TakeProfitLeg.price
      rw [List.take_add_one, hleg]
      simp
  · rw [if_neg htarget] at hnext
    have hnone : targetsTaken [env.closing v bar op decision] = [] := by
      simp [targetsTaken, Closing.isTarget, hreason, htarget]
    rw [hnone, List.append_nil]
    exact h.congr hlegs hnext

theorem LegsTaken.exitFills (h : LegsTaken taken op) (v : BarSlice) (bar : Bar)
    (n : ℕ) : LegsTaken (taken ++ targetsTaken (env.exitFills v bar n op).1)
      (env.exitFills v bar n op).2.1 := by
  induction n generalizing op taken with
  | zero => simpa [BookSetup.exitFills, targetsTaken] using h
  | succ n ih =>
    cases hdecision : env.resolveFor v bar op op.position.size with
    | none =>
      simp only [BookSetup.exitFills, hdecision]
      simpa [targetsTaken] using h
    | some decision =>
      have hstep := h.afterLeg env hdecision
      simp only [BookSetup.exitFills, hdecision]
      split_ifs
      · exact hstep
      · have hrest := ih hstep
        rw [List.append_assoc, ← targetsTaken_append] at hrest
        exact hrest

theorem LegsTaken.marketClosing (h : LegsTaken taken op) (v : BarSlice) (bar : Bar)
    {reason : ExitReason} (hreason : reason ≠ .takeProfit) (price : ℚ) (spacing : Spacing) :
    LegsTaken (taken ++ targetsTaken [env.marketClosing v bar reason price spacing op])
      (env.reduced (env.marketClosing v bar reason price spacing op)) := by
  have hnone : targetsTaken [env.marketClosing v bar reason price spacing op] = [] := by
    simp [targetsTaken, Closing.isTarget, BookSetup.marketClosing,
      FillSimulator.marketExit_reason, hreason]
  rw [hnone, List.append_nil]
  exact h.congr rfl rfl

theorem LegsTaken.barFills (h : LegsTaken taken op) (v : BarSlice) (bar : Bar) :
    LegsTaken (taken ++ targetsTaken (env.barFills v bar op).1) (env.barFills v bar op).2.1 := by
  have hsee : LegsTaken taken (BookSetup.seeBar v bar op) :=
    h.congr (sameTerms_seeBar v bar op).legs (size_seeBar v bar op).2
  have hloop := hsee.exitFills env v bar (op.legs.length + 1)
  simp only [BookSetup.barFills]
  split_ifs
  · rw [targetsTaken_append, ← List.append_assoc]
    exact hloop.marketClosing env v bar (by decide) bar.close _
  · exact hloop

theorem Lives.legsTaken {order : PendingEntry} {fill : EntryFill} {stage : Option BarSlice}
    {tr : Track} (h : Lives env order fill stage tr) :
    LegsTaken (targetsTaken (tr.closings.map Prod.snd)) tr.op := by
  apply h.invariant (P := fun tr => LegsTaken (targetsTaken (tr.closings.map Prod.snd)) tr.op)
  · intro v bar seq _ _
    exact ⟨Nat.zero_le _, by simp [Track.opened, targetsTaken, BookSetup.openPosition]⟩
  · intro tr e _ htaken
    rcases tr.step_cases env e with ⟨op, nights, hstep, hterms, -, -, hnext⟩ |
      ⟨v, bar, reason, -, -, hstep⟩ | ⟨v, bar, -, -, hstep⟩ | ⟨v, bar, reason, price,
        spacing, hstep⟩
    · rw [hstep]
      exact htaken.congr hterms.legs hnext
    · rw [hstep]
      dsimp only
      rw [Track.closings_close, targetsTaken_append]
      exact htaken.barFills env v bar
    · rw [hstep]
      dsimp only
      rw [Track.closings_close, targetsTaken_append]
      exact (htaken.barFills env v bar).congr (sameTerms_updateProtectiveStop env v _).legs
        (size_updateProtectiveStop env v _).2
    · rw [hstep]
      simp only [Track.market]
      rw [Track.closings_close, targetsTaken_append]
      exact htaken.marketClosing env v bar (by cases reason <;> decide) price spacing

theorem Closing.reason_takeProfit : c.reason = .takeProfit ↔ c.fill.reason = .takeProfit := by
  unfold Closing.reason ManagedPosition.exitReason
  split_ifs with hstop _
  · simp [hstop.1]
  · simp [hstop.1]
  · exact Iff.rfl

theorem targetsTaken_rows (tr : Track) :
    ((tr.legs env).filter fun leg => leg.exitReason = ExitReason.takeProfit.value).map
      ExitLeg.exitPrice = targetsTaken (tr.closings.map Prod.snd) := by
  have hsame : ∀ c : Closing, decide ((env.legOf c).exitReason = ExitReason.takeProfit.value) =
      c.isTarget := by
    intro c
    rw [legOf_exitReason, Closing.isTarget]
    apply decide_eq_decide.2
    rw [← c.reason_takeProfit]
    exact ⟨ExitReason.value_injective, fun h => by rw [h]⟩
  simp only [Track.legs, targetsTaken, List.filter_map, List.map_map, Function.comp_def, hsame]
  rfl

/-- A position that the loop leaves open would not exit on the bar again; an iteration that
leaves it open priced its leg as it was decided, and goes on with the next leg; and over a run
the legs taken are the first ones of the ladder, each once. -/
theorem leg_loop_complete (env : BookSetup) :
    (∀ (v : BarSlice) (bar : Bar) (t : Turn) (op : ManagedPosition),
      let out := env.exitLoop v bar (op.legs.length + 1) t (BookSetup.seeBar v bar op)
      out.2.2 = none → ∀ size, env.resolveFor v bar out.2.1 size = none) ∧
    (∀ (v : BarSlice) (bar : Bar) (n : ℕ) (t : Turn) (op : ManagedPosition) (decision : ExitFill),
      env.resolveFor v bar op op.position.size = some decision →
      (op.sizeForExit decision).2 = false →
      ∃ fill, env.resolveFor v bar op (op.sizeForExit decision).1 = some fill ∧
        fill.reason = decision.reason ∧ fill.midPrice = decision.midPrice ∧
        let (t', op') := env.realise t op fill v.timestamp (op.sizeForExit decision).1 false
        env.exitLoop v bar (n + 1) t op =
          env.exitLoop v bar n t' { op' with nextLeg := op.nextLeg + 1 }) ∧
    ∀ (initial : ℚ) (events : List BookEvent),
      ∀ e ∈ (BookHistory.after env initial events).entries, ∀ s fill, e.managed = some s →
        e.fill = some fill →
        let book := (BookHistory.after env initial events).book
        let ladder := planLegs e.pending.instrument fill.filledSize e.pending.takeProfitPrices
          (env.allocationsFor e.pending)
        ∃ k ≤ ladder.length, (book.exitLegs.filter fun leg => leg.positionSeq = s ∧
            leg.exitReason = ExitReason.takeProfit.value).map ExitLeg.exitPrice =
              (ladder.take k).map TakeProfitLeg.price ∧
          ∀ op ∈ book.open_, op.seq = s → op.nextLeg = k := by
  refine ⟨?_, ?_, ?_⟩
  · intro v bar t op out hopen size
    obtain ⟨-, hout⟩ := Turn.Emits.exitLoop env v bar (op.legs.length + 1) t
      (BookSetup.seeBar v bar op)
    rw [hout] at hopen ⊢
    apply exitFills_settled env (Nat.succ_pos _) _ hopen
    rw [(sameTerms_seeBar v bar op).legs]
    omega
  · intro v bar n t op decision hdecision hopen
    obtain ⟨fill, hfill, hreason, hmid⟩ :=
      resolveFor_resize env hdecision (op.sizeForExit decision).1
    refine ⟨fill, hfill, hreason, hmid, ?_⟩
    have htarget : fill.reason = .takeProfit := hreason.trans (sizeForExit_open hopen).1
    rw [Turn.Emits.exitLoop_some env hdecision]
    simp only [BookSetup.closing, BookSetup.afterLeg, hopen, hfill, htarget, Option.getD_some,
      Bool.false_eq_true, if_false, if_true]
    rfl
  · intro initial events e he s fill hs hfill book ladder
    obtain ⟨fill', tr, hfill', hlives, hseq, hrows, hplace⟩ :=
      (BookHistory.refines env initial events).life he hs
    obtain rfl : fill = fill' := Option.some.inj (hfill.symm.trans hfill')
    obtain ⟨v, seq, hterms⟩ := hlives.terms
    have hladder : tr.op.legs = ladder := hterms.legs
    obtain ⟨hinside, htaken⟩ := hlives.legsTaken
    refine ⟨tr.op.nextLeg, hladder ▸ hinside, ?_, fun op hop hopseq => ?_⟩
    · rw [← hladder, ← htaken, ← targetsTaken_rows env, hrows, List.filter_filter]
      congr 2
      funext leg
      rw [Bool.decide_and, Bool.and_comm]
    · rcases hplace with ⟨-, hmem⟩ | ⟨-, hgone⟩
      · have hnodup := (BookHistory.sound env initial events).seqs_nodup
        rw [List.inj_on_of_nodup_map hnodup hop hmem (hopseq.trans hseq.symm)]
      · exact absurd hopseq (hgone op hop)

section Ladder

open Frictionless BookSample

def ladderOrder : PendingEntry := longOrder 0 4 1 [3, 4] [1 / 2, 1 / 4] (by decide)

def ladderSlice : BarSlice := sliceOf 1 (BookSample.barOf hourNs 2 5 2 2 (by norm_num))

def ladderRun : List BookEvent := [.queueEntry ladderOrder, flatStep 0 2, .advance ladderSlice]

def ladderPosition : ManagedPosition :=
  book.openPosition (sliceOf 0 (flatBar 0 2)) ladderOrder
    ⟨4, 2, 2, 1, 0, 0, false, false, ⟨0, 0, 0, 0, "USD"⟩⟩ 2

def ladderTurn : Turn := ⟨.fresh 100, .empty⟩

def ladderBar : Bar := BookSample.barOf hourNs 2 5 2 2 (by norm_num)

theorem ladderRun_opened : (BookHistory.after book 100 ladderRun).entries.map
      (fun e => (e.managed, e.fill.map EntryFill.filledSize)) = [(some 2, some 4)] := by
  decide +kernel

theorem ladder_left_open :
    (book.exitLoop ladderSlice ladderBar (ladderPosition.legs.length + 1) ladderTurn
      (BookSetup.seeBar ladderSlice ladderBar ladderPosition)).2.2 = none := by
  decide +kernel

theorem ladder_decided : (book.resolveFor ladderSlice ladderBar ladderPosition 4).map
      (fun decision => (ladderPosition.sizeForExit decision).2) = some false := by
  decide +kernel

theorem leg_loop_complete_ladder :
    book.resolveFor ladderSlice ladderBar (book.exitLoop ladderSlice ladderBar
        (ladderPosition.legs.length + 1) ladderTurn
          (BookSetup.seeBar ladderSlice ladderBar ladderPosition)).2.1 1 = none ∧
      (∃ decision fill, book.resolveFor ladderSlice ladderBar ladderPosition 4 = some decision ∧
        book.resolveFor ladderSlice ladderBar ladderPosition
          (ladderPosition.sizeForExit decision).1 = some fill ∧
        fill.midPrice = decision.midPrice) ∧
      ∃ e ∈ (BookHistory.after book 100 ladderRun).entries, ∃ k,
        ((BookHistory.after book 100 ladderRun).book.exitLegs.filter fun leg =>
          leg.positionSeq = 2 ∧ leg.exitReason = ExitReason.takeProfit.value).map
            ExitLeg.exitPrice = ((planLegs e.pending.instrument 4 e.pending.takeProfitPrices
              (book.allocationsFor e.pending)).take k).map TakeProfitLeg.price := by
  obtain ⟨hsettled, hagain, hrun⟩ := leg_loop_complete book
  refine ⟨hsettled ladderSlice ladderBar ladderTurn ladderPosition ladder_left_open 1, ?_, ?_⟩
  · obtain ⟨decision, hdecision, hopen⟩ := Option.map_eq_some_iff.1 ladder_decided
    obtain ⟨fill, hfill, -, hmid, -⟩ := hagain ladderSlice ladderBar 2 ladderTurn ladderPosition
      decision hdecision hopen
    exact ⟨decision, fill, hdecision, hfill, hmid⟩
  · obtain ⟨e, hentries, he⟩ := List.map_eq_singleton_iff.1 ladderRun_opened
    obtain ⟨hmanaged, hsize⟩ := Prod.mk.inj he
    obtain ⟨fill, hfill, hfour⟩ := Option.map_eq_some_iff.1 hsize
    have he : e ∈ (BookHistory.after book 100 ladderRun).entries := by simp [hentries]
    obtain ⟨k, -, hrows, -⟩ := hrun 100 ladderRun e he 2 fill hmanaged hfill
    rw [hfour] at hrows
    exact ⟨e, he, k, hrows⟩

end Ladder

end Fiboki
