import Fiboki.Backtest.LegLoop
import Fiboki.Backtest.LegSizes
import Fiboki.Backtest.ProtectiveStop

/-!
Stops and windfalls: what a stop-out is priced at, against the stop and against the entry.
-/

namespace Fiboki

variable (d : Direction)

theorem worseExit_le (stop open_ : ℚ) : (worseExit d stop open_ - stop) * d.sign ≤ 0 := by
  cases d with
  | long =>
    have hle : min stop open_ ≤ stop := min_le_left _ _
    simp only [worseExit, Direction.sign]
    linarith
  | short =>
    have hle : stop ≤ max stop open_ := le_max_left _ _
    simp only [worseExit, Direction.sign]
    linarith

theorem through_stop_iff (open_ stop : ℚ) :
    through d open_ stop true = true ↔ 0 ≤ (stop - open_) * d.sign := by
  cases d with
  | long | short => simp [through, Direction.sign]

theorem worseExit_eq_open {d : Direction} {stop open_ : ℚ}
    (h : through d open_ stop true = true) : worseExit d stop open_ = open_ := by
  cases d with
  | long => exact min_eq_right (of_decide_eq_true h)
  | short => exact max_eq_right (of_decide_eq_true h)

/-- An order whose bar opens strictly beyond the stop that the order keeps: the venue's
minimum distance asks for none, or the gap is at least as wide. -/
def OpensBeyondStop (sim : FillSimulator) (order : PendingEntry) (open_ : ℚ) : Prop :=
  0 < (order.stopPrice - open_) * order.direction.sign ∧
    (sim.profile.minStopDistancePrice order.instrument ≤ 0 ∨ sim.profile.minStopPolicy = .allow ∨
      sim.profile.minStopDistancePrice order.instrument ≤ |open_ - order.stopPrice|)

instance (sim : FillSimulator) (order : PendingEntry) (open_ : ℚ) :
    Decidable (OpensBeyondStop sim order open_) :=
  inferInstanceAs (Decidable (_ ∧ _))

variable {order : PendingEntry}

theorem opensBeyondStop_iff {sim : FillSimulator} {open_ effective : ℚ}
    (h : sim.enforceMinStop order.instrument order.direction open_ order.stopPrice =
      .ok effective) :
    OpensBeyondStop sim order open_ ↔ 0 < (effective - open_) * order.direction.sign := by
  unfold FillSimulator.enforceMinStop at h
  unfold OpensBeyondStop
  dsimp only at h
  generalize sim.profile.minStopDistancePrice order.instrument = least at h ⊢
  split_ifs at h with hfree hwide hreject
  · obtain rfl := Except.ok.inj h
    exact ⟨fun hb => hb.1, fun hb => ⟨hb, hfree.elim .inl fun ha => .inr (.inl ha)⟩⟩
  · obtain rfl := Except.ok.inj h
    exact ⟨fun hb => hb.1, fun hb => ⟨hb, .inr (.inr hwide)⟩⟩
  · have heffective := Except.ok.inj h
    rw [not_or, not_le] at hfree
    -- the widened stop is on the losing side
    have hside : (effective - open_) * order.direction.sign = -least := by
      rw [← heffective]
      cases order.direction <;> simp [Direction.sign]
    rw [hside]
    constructor
    · rintro ⟨-, hnear | hallow | hnear⟩
      · exact absurd hfree.1 (not_lt.2 hnear)
      · exact absurd hallow hfree.2
      · exact absurd hnear hwide
    · intro hneg
      have hpos := hfree.1
      linarith

section Fills

variable (env : BookSetup) {v : BarSlice} {bar : Bar} {op : ManagedPosition}

theorem resolveFor_stop {size : ℚ} {decision : ExitFill}
    (h : env.resolveFor v bar op size = some decision) (hstop : decision.reason = .stopLoss) :
    (decision.midPrice - op.position.stopLoss) * op.position.direction.sign ≤ 0 := by
  rw [resolveFor_eq] at h
  obtain ⟨e, he, rfl⟩ := Option.map_eq_some_iff.1 h
  rcases env.sim.decideExit_cases he with ⟨-, both, rfl⟩ | ⟨-, both, rfl⟩ |
    ⟨-, target, gapped, both, -, rfl⟩
  · rw [FillSimulator.priceDecision_stop]
    split_ifs
    · simp
    · exact worseExit_le _ _ _
  · rw [FillSimulator.priceDecision_stop, ite_self, sub_self, zero_mul]
  · cases hstop

def Closing.NoBetter (c : Closing) : Prop :=
  c.fill.reason = .stopLoss →
    (c.fill.midPrice - c.op.position.stopLoss) * c.op.position.direction.sign ≤ 0

theorem exitFills_noBetter (v : BarSlice) (bar : Bar) (n : ℕ) (op : ManagedPosition) :
    ∀ c ∈ (env.exitFills v bar n op).1, c.NoBetter := by
  induction n generalizing op with
  | zero => simp [BookSetup.exitFills]
  | succ n ih =>
    simp only [BookSetup.exitFills]
    split
    · simp
    · rename_i decision hdecision
      have hfirst : (env.closing v bar op decision).NoBetter := by
        intro hstop
        obtain ⟨hreason, hmid⟩ := closing_fill env hdecision
        rw [hmid]
        exact resolveFor_stop env hdecision (hreason ▸ hstop)
      split_ifs
      · intro c hc
        rw [List.mem_singleton.1 hc]
        exact hfirst
      · intro c hc
        rcases List.mem_cons.1 hc with rfl | hc
        · exact hfirst
        · exact ih _ c hc

theorem barFills_noBetter (v : BarSlice) (bar : Bar) (op : ManagedPosition) :
    ∀ c ∈ (env.barFills v bar op).1, c.NoBetter := by
  have hloop := exitFills_noBetter env v bar (op.legs.length + 1) (BookSetup.seeBar v bar op)
  simp only [BookSetup.barFills]
  split_ifs
  · intro c hc
    rcases List.mem_append.1 hc with hc | hc
    · exact hloop c hc
    · rw [List.mem_singleton.1 hc]
      intro hstop
      cases hstop
  · exact hloop

end Fills

section Life

variable {env : BookSetup} {order : PendingEntry} {fill : EntryFill} {tr : Track}

variable {stage : Option BarSlice}

theorem Lives.noBetter (h : Lives env order fill stage tr) : ∀ c ∈ tr.closings, c.2.NoBetter := by
  apply h.invariant (P := fun tr => ∀ c ∈ tr.closings, c.2.NoBetter)
  · intro v bar seq _ _
    simp [Track.opened]
  · intro tr e _ hbefore
    have hclose : ∀ cs : List Closing, (∀ c ∈ cs, c.NoBetter) → ∀ c ∈ tr.close cs,
      c.2.NoBetter := by
      intro cs hcs c hc
      rcases Track.mem_close.1 hc with hc | ⟨c', hc', rfl⟩
      · exact hbefore c hc
      · exact hcs c' hc'
    rcases tr.step_cases env e with ⟨op, nights, hstep, -, -, -, -⟩ |
      ⟨v, bar, reason, -, -, hstep⟩ | ⟨v, bar, -, -, hstep⟩ | ⟨v, bar, reason, price,
        spacing, hstep⟩
    · rw [hstep]
      exact hbefore
    · rw [hstep]
      exact hclose _ (barFills_noBetter env v bar tr.op)
    · rw [hstep]
      exact hclose _ (barFills_noBetter env v bar tr.op)
    · rw [hstep]
      apply hclose [_]
      intro c hc
      rw [List.mem_singleton.1 hc]
      intro hstop
      cases reason <;> cases hstop

theorem Lives.closing_terms (h : Lives env order fill stage tr) :
    ∀ c ∈ tr.closings, c.2.op.position.direction = order.direction ∧
      c.2.op.initialStop = fill.effectiveStop ∧ c.2.op.entryMid = fill.midPrice ∧
      c.2.op.instrument = order.instrument := by
  have hinv : (∃ v seq, SameTerms (env.openPosition v order fill seq) tr.op) ∧
      ∀ c ∈ tr.closings, ∃ v seq, SameTerms (env.openPosition v order fill seq) c.2.op := by
    apply h.invariant
      (P := fun tr => (∃ v seq, SameTerms (env.openPosition v order fill seq) tr.op) ∧
        ∀ c ∈ tr.closings, ∃ v seq, SameTerms (env.openPosition v order fill seq) c.2.op)
    · intro v bar seq _ _
      exact ⟨⟨v, seq, .refl _⟩, by simp [Track.opened]⟩
    · rintro tr e _ ⟨⟨v, seq, hterms⟩, hbefore⟩
      refine ⟨⟨v, seq, hterms.trans (tr.sameTerms_step env e)⟩, ?_⟩
      obtain ⟨-, new, hclosings, hnew⟩ := tr.step_stop env e
      rw [hclosings]
      intro c hc
      rcases List.mem_append.1 hc with hc | hc
      · exact hbefore c hc
      · exact ⟨v, seq, hterms.trans (hnew c hc).2.2⟩
  intro c hc
  obtain ⟨v, seq, hterms⟩ := hinv.2 c hc
  exact ⟨hterms.direction, hterms.initialStop, hterms.entryMid, hterms.instrument⟩

theorem Closing.fill_of_plain {c : Closing} (h : c.reason = .stopLoss) :
    c.fill.reason = .stopLoss := by
  unfold Closing.reason ManagedPosition.exitReason at h
  split_ifs at h
  exact h

theorem Lives.plain_stop (h : Lives env order fill stage tr) {c : List StopRule × Closing}
    (hc : c ∈ tr.closings) (hreason : c.2.reason = .stopLoss) :
    (c.2.fill.midPrice - fill.effectiveStop) * order.direction.sign ≤ 0 := by
  have hstop := c.2.fill_of_plain hreason
  have hmid := h.noBetter c hc hstop
  have hlevel := ((h.stop.2 c hc).exitReason_plain hstop).1 hreason
  obtain ⟨hdirection, hinitial, -, -⟩ := h.closing_terms c hc
  rwa [hlevel, hdirection, hinitial] at hmid

variable (env) in
theorem exitFills_through {v : BarSlice} {bar : Bar} {op : ManagedPosition} (n : ℕ)
    (hthrough : through op.position.direction bar.open_ op.position.stopLoss true = true)
    (hplain : op.stopTrailed = false) :
    ∃ c, env.exitFills v bar (n + 1) op = ([c], env.afterLeg c, some .stopLoss) ∧
      c.reason = .stopLoss ∧ c.fill.midPrice =
        if env.sim.profile.useGuaranteedStops then op.position.stopLoss else bar.open_ := by
  have hdecided : env.sim.decideExit op.position.direction bar v.index op.position.stopLoss
      op.activeTarget op.seq =
        some (.stop (worseExit op.position.direction op.position.stopLoss bar.open_)
          op.position.stopLoss true false) := by
    unfold FillSimulator.decideExit
    rw [if_pos hthrough]
  have hresolved := resolveFor_eq env v bar op op.position.size
  rw [hdecided, Option.map_some, worseExit_eq_open hthrough] at hresolved
  generalize hdecision : env.sim.priceDecision op.instrument op.position.direction
    op.position.size bar v.index op.seq
    (env.sim.isStale (v.spacing op.position.instrument) bar.timestamp)
    (.stop bar.open_ op.position.stopLoss true false) = decision at hresolved
  have hreason : decision.reason = .stopLoss := by
    rw [← hdecision]
    rfl
  have hmid : decision.midPrice =
      if env.sim.profile.useGuaranteedStops then op.position.stopLoss else bar.open_ := by
    rw [← hdecision, FillSimulator.priceDecision_stop]
  have hfinal : (env.closing v bar op decision).final = true := by
    show (op.sizeForExit decision).2 = true
    unfold ManagedPosition.sizeForExit
    cases op.legs[op.nextLeg]? with
    | none => rfl
    | some leg => simp [hreason]
  obtain ⟨hsame, hprice⟩ := closing_fill env hresolved
  have hlabel : (env.closing v bar op decision).reason = .stopLoss := by
    show op.exitReason (env.closing v bar op decision).fill = .stopLoss
    unfold ManagedPosition.exitReason
    rw [hsame, hreason, hplain]
    simp
  refine ⟨env.closing v bar op decision, ?_, hlabel, hprice.trans hmid⟩
  simp only [BookSetup.exitFills, hresolved]
  rw [if_pos hfinal, hlabel]

variable (env) in
theorem barFills_through {v : BarSlice} (bar : Bar) (op : ManagedPosition)
    (hthrough : through op.position.direction bar.open_ op.position.stopLoss true = true)
    (hplain : op.stopTrailed = false) :
    ∃ c, (env.barFills v bar op).1 = [c] ∧ (env.barFills v bar op).2.2 = some .stopLoss ∧
      c.reason = .stopLoss ∧ c.fill.midPrice =
        if env.sim.profile.useGuaranteedStops then op.position.stopLoss else bar.open_ := by
  have hterms := sameTerms_seeBar v bar op
  have hstop := sameStop_seeBar v bar op
  rw [← hterms.direction, ← hstop.stopLoss] at hthrough
  rw [← hstop.stopTrailed] at hplain
  obtain ⟨c, hexit, hreason, hprice⟩ :=
    exitFills_through env (v := v) op.legs.length hthrough hplain
  rw [hstop.stopLoss] at hprice
  refine ⟨c, ?_, ?_, hreason, hprice⟩
  · simp [BookSetup.barFills, hexit]
  · simp [BookSetup.barFills, hexit]

theorem Lives.gapped (h : Lives env order fill none tr)
    (hgap : 0 ≤ (fill.effectiveStop - fill.midPrice) * order.direction.sign) :
    tr.closed = some .stopLoss ∧ ∃ c, tr.closings = [([], c)] ∧ c.reason = .stopLoss ∧
      c.fill.midPrice =
        if env.sim.profile.useGuaranteedStops then fill.effectiveStop else fill.midPrice := by
  generalize hstage : (none : Option BarSlice) = stage at h
  induction h with
  | opened => cases hstage
  | @first v tr h _ =>
    obtain ⟨bar, seq, hbar, hfill, rfl⟩ := h.eq_opened
    have hmid := (env.sim.simulateEntry_ok _ _ _ _ _ _ hfill).2.1
    rw [hmid] at hgap ⊢
    obtain ⟨c, hfills, hclosed, hreason, hprice⟩ := barFills_through env (v := v)
      bar (env.openPosition v order fill seq)
      ((through_stop_iff _ _ _).2 hgap) rfl
    have hsee := (Track.opened env v order fill seq).seeBar_closed env hbar hclosed
    rw [Track.step, hsee]
    refine ⟨rfl, c, ?_, hreason, hprice⟩
    show (Track.opened env v order fill seq).close _ = _
    rw [show (Track.opened env v order fill seq).op = env.openPosition v order fill seq from rfl,
      hfills]
    rfl
  | step h hopen e ih =>
    have hclosed := (ih hstage).1
    rw [hopen] at hclosed
    cases hclosed

end Life

def NoWindfall (h : BookHistory) : Prop :=
  ∀ e ∈ h.entries, ∀ s fill, e.managed = some s → e.fill = some fill →
    ∀ leg ∈ h.book.exitLegs, leg.positionSeq = s → leg.exitReason = ExitReason.stopLoss.value →
      (leg.exitPrice - fill.midPrice) * e.pending.direction.sign ≤ 0 ∧
        (leg.exitPrice - fill.effectiveStop) * e.pending.direction.sign ≤ 0 ∧
        (0 ≤ e.pending.instrument.contractSize → leg.grossPnl ≤ 0)

theorem grossPnl_nonpos (env : BookSetup) {c : Closing}
    (hloss : (c.fill.midPrice - c.op.entryMid) * c.op.position.direction.sign ≤ 0)
    (hsize : 0 ≤ c.size) (hcontract : 0 ≤ c.op.instrument.contractSize)
    (hrate : 0 ≤ env.rate c.op.instrument.quote c.time) : (env.legOf c).grossPnl ≤ 0 := by
  show (c.fill.midPrice - c.op.entryMid) * c.op.position.direction.sign * c.size *
    c.op.instrument.contractSize * env.rate c.op.instrument.quote c.time ≤ 0
  apply mul_nonpos_of_nonpos_of_nonneg _ hrate
  apply mul_nonpos_of_nonpos_of_nonneg _ hcontract
  exact mul_nonpos_of_nonpos_of_nonneg hloss hsize

/-- A plain stop-out beats neither the entry nor the stop, unless stops are guaranteed and the
bar of the entry opened beyond the stop. -/
theorem Lives.no_windfall {env : BookSetup} {fill : EntryFill} {tr : Track}
    (h : Lives env order fill none tr)
    (hmeets : env.sim.profile.useGuaranteedStops = true →
      (fill.effectiveStop - fill.midPrice) * order.direction.sign ≤ 0)
    {c : List StopRule × Closing} (hc : c ∈ tr.closings) (hreason : c.2.reason = .stopLoss) :
    (c.2.fill.midPrice - fill.midPrice) * order.direction.sign ≤ 0 := by
  by_cases hgap : 0 ≤ (fill.effectiveStop - fill.midPrice) * order.direction.sign
  · obtain ⟨-, c', hclosings, -, hprice⟩ := h.gapped hgap
    rw [hclosings, List.mem_singleton] at hc
    rw [hc, hprice]
    split_ifs with hguaranteed
    · exact hmeets hguaranteed
    · simp
  · have hlevel := h.plain_stop hc hreason
    have hsum : (c.2.fill.midPrice - fill.midPrice) * order.direction.sign =
        (c.2.fill.midPrice - fill.effectiveStop) * order.direction.sign +
          (fill.effectiveStop - fill.midPrice) * order.direction.sign := by ring
    rw [hsum]
    linarith

/-- Over every run a plain stop-out is no windfall, exactly when stops are not guaranteed or no
order filled on a bar that opened beyond the stop the order kept. -/
theorem noWindfall_iff (env : BookSetup) (hfx : ∀ ccy ccy' when_, 0 ≤ env.fx ccy ccy' when_)
    (initial : ℚ) (events : List BookEvent) :
    NoWindfall (BookHistory.after env initial events) ↔ env.sim.profile.useGuaranteedStops = false ∨
        ∀ e ∈ (BookHistory.after env initial events).entries, ∀ s fill, e.managed = some s →
          e.fill = some fill → ¬ OpensBeyondStop env.sim e.pending fill.midPrice := by
  have hrefines := BookHistory.refines env initial events
  have hkept : ∀ e : EntryEvent, ∀ fill tr, Lives env e.pending fill none tr →
      (OpensBeyondStop env.sim e.pending fill.midPrice ↔
        0 < (fill.effectiveStop - fill.midPrice) * e.pending.direction.sign) := by
    intro e fill tr hlives
    have hopened : ∃ open_, fill.midPrice = open_ ∧
        env.sim.enforceMinStop e.pending.instrument e.pending.direction open_ e.pending.stopPrice =
          .ok fill.effectiveStop :=
      hlives.invariant (P := fun _ => ∃ open_, fill.midPrice = open_ ∧
          env.sim.enforceMinStop e.pending.instrument e.pending.direction open_
            e.pending.stopPrice = .ok fill.effectiveStop)
        (fun v bar seq _ hfill =>
          ⟨bar.open_, (env.sim.simulateEntry_ok _ _ _ _ _ _ hfill).2⟩) (fun _ _ _ h => h)
    obtain ⟨open_, rfl, hstop⟩ := hopened
    exact opensBeyondStop_iff hstop
  constructor
  · intro hno
    by_contra hbroken
    rw [not_or, Bool.not_eq_false] at hbroken
    obtain ⟨hguaranteed, hbroken⟩ := hbroken
    apply hbroken
    intro e he s fill hs hfill hbeyond
    obtain ⟨fill', tr, hfill', hlives, hseq, hrows, -⟩ := hrefines.life he hs
    obtain rfl : fill = fill' := Option.some.inj (hfill.symm.trans hfill')
    have hgap := (hkept e fill tr hlives).1 hbeyond
    obtain ⟨-, c, hclosings, hreason, hprice⟩ := hlives.gapped hgap.le
    rw [if_pos hguaranteed] at hprice
    have hrow : env.legOf c ∈ (BookHistory.after env initial events).book.exitLegs.filter
        (fun leg => leg.positionSeq = s) := by
      rw [← hrows, Track.legs, hclosings]
      simp
    obtain ⟨hmem, hof⟩ := List.mem_filter.1 hrow
    have hle := (hno e he s fill hs hfill (env.legOf c) hmem (of_decide_eq_true hof)
      (by rw [legOf_exitReason, hreason])).1
    rw [legOf_exitPrice, hprice] at hle
    exact absurd hle (not_le.2 hgap)
  · intro hmeets e he s fill hs hfill leg hleg hof hstop
    obtain ⟨fill', tr, hfill', hlives, hseq, hrows, -⟩ := hrefines.life he hs
    obtain rfl : fill = fill' := Option.some.inj (hfill.symm.trans hfill')
    have hrow : leg ∈ tr.legs env := by
      rw [hrows]
      exact List.mem_filter.2 ⟨hleg, decide_eq_true hof⟩
    obtain ⟨c, hc, rfl⟩ := List.mem_map.1 hrow
    have hreason : c.2.reason = .stopLoss := by
      rw [legOf_exitReason] at hstop
      exact ExitReason.value_injective hstop
    have hloss := hlives.no_windfall (fun hguaranteed => by
      rcases hmeets with hoff | hmeets
      · rw [hguaranteed] at hoff
        cases hoff
      · exact not_lt.1 fun hbeyond =>
          hmeets e he s fill hs hfill ((hkept e fill tr hlives).2 hbeyond)) hc hreason
    obtain ⟨hdirection, -, hentry, hinstrument⟩ := hlives.closing_terms c hc
    refine ⟨hloss, hlives.plain_stop hc hreason, fun hcontract => ?_⟩
    apply grossPnl_nonpos env
    · rw [hdirection, hentry]
      exact hloss
    · exact (hlives.positive.1 c hc).le
    · rw [hinstrument]
      exact hcontract
    · exact hfx _ _ _

section Guaranteed

open Frictionless BookSample

def guaranteedBook : BookSetup :=
  { Frictionless.book with
    sim := { Frictionless.book.sim with profile := { profile with useGuaranteedStops := true } } }

def gappedRun : List BookEvent :=
  [.queueEntry (longOrder 0 1 95 [] [] no_targets_aligned), flatStep 0 90]

theorem gappedRun_row : (BookHistory.after guaranteedBook 100 gappedRun).book.exitLegs.map
      (fun leg => (leg.positionSeq, leg.exitReason, leg.exitPrice, leg.grossPnl)) =
      [(2, "stop_loss", 95, 5)] := by
  decide +kernel

theorem gappedRun_opened : (BookHistory.after guaranteedBook 100 gappedRun).entries.map
      (fun e => (e.managed, e.fill.map EntryFill.midPrice, e.pending.direction)) =
      [(some 2, some 90, .long)] := by
  decide +kernel

/-- The position is opened at 90 and stopped out at 95 for a profit. -/
theorem guaranteed_stop_windfall :
    ¬ NoWindfall (BookHistory.after guaranteedBook 100 gappedRun) := by
  intro hno
  obtain ⟨e, hentries, he⟩ := List.map_eq_singleton_iff.1 gappedRun_opened
  obtain ⟨leg, hlegs, hleg⟩ := List.map_eq_singleton_iff.1 gappedRun_row
  simp only [Prod.mk.injEq] at he hleg
  obtain ⟨fill, hfill, hmid⟩ := Option.map_eq_some_iff.1 he.2.1
  have hle := (hno e (by simp [hentries]) 2 fill he.1 hfill leg (by simp [hlegs]) hleg.1
    hleg.2.1).1
  rw [hmid, he.2.2, hleg.2.2.1] at hle
  norm_num [Direction.sign] at hle

/-- The same run under stops that are not guaranteed. -/
theorem noWindfall_plain : NoWindfall (BookHistory.after book 100 gappedRun) :=
  (noWindfall_iff book (fun _ _ _ => zero_le_one) 100 gappedRun).2 (.inl rfl)

end Guaranteed

end Fiboki
