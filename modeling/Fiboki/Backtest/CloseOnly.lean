import Fiboki.Backtest.LockView

/-!
Close-only runs: which signals open against an open position, and when none does.
-/

namespace Fiboki

def ManagedPosition.meets (op : ManagedPosition) (signal : TimedSignal) : Bool :=
  op.position.instrument = signal.instrument && op.position.direction ≠ signal.direction

def ManagedPosition.flag (signal : TimedSignal) (op : ManagedPosition) : ManagedPosition :=
  { op with reversalPending := op.reversalPending || op.meets signal }

theorem ManagedPosition.opposes_iff (op : ManagedPosition) (signal : TimedSignal) :
    op.opposes signal.instrument signal.direction = true ↔
      op.meets signal = true ∧ op.reversalPending = false := by
  simp [opposes, meets, and_assoc]

namespace EngineSetup

variable (env : EngineSetup)

structure Passes (d : Decision) (locks : Option EngineLocks) (ops : List ManagedPosition)
    (signal : TimedSignal) : Prop where
  unopposed : ∀ op ∈ ops, op.opposes signal.instrument signal.direction = false
  permitted : ¬ (signal.direction = .short ∧
    (env.instruments.get signal.instrument).shortable = false)
  unlocked : (env.lockOf d signal locks).toOption = some none

instance (d : Decision) (locks : Option EngineLocks) (ops : List ManagedPosition)
    (signal : TimedSignal) : Decidable (env.Passes d locks ops signal) :=
  decidable_of_iff ((∀ op ∈ ops, op.opposes signal.instrument signal.direction = false) ∧
    ¬ (signal.direction = .short ∧ (env.instruments.get signal.instrument).shortable = false) ∧
    (env.lockOf d signal locks).toOption = some none)
    ⟨fun h => ⟨h.1, h.2.1, h.2.2⟩, fun h => ⟨h.unopposed, h.permitted, h.unlocked⟩⟩

def screened (d : Decision) (locks : Option EngineLocks) :
    List ManagedPosition → List TimedSignal → List TimedSignal
  | _, [] => []
  | ops, signal :: rest =>
    (if env.Passes d locks ops signal then [signal] else []) ++
      screened d locks (ops.map (ManagedPosition.flag signal)) rest

def sizeWith (sizeFor : SizeFor) (d : Decision) (signal : TimedSignal) : ℚ :=
  let instr := env.instruments.get signal.instrument
  sizeFor signal instr d.account (env.book.rate instr.quote d.view.timestamp)

def allotted (d : Decision) (decisions : List AllocationDecision) (signal : TimedSignal) : Bool :=
  match decisionFor decisions signal.signalId with
  | none => false
  | some a =>
    ¬ (a.dropped ∨ a.weight ≤ 0) ∧
      0 < env.sizeWith (env.sizer.allocated (a.baseRiskPct / 100) a.weight) d signal

def sized (d : Decision) (s : EngineRun) (signals : List TimedSignal) (signal : TimedSignal) :
    Bool :=
  match env.construction with
  | none => 0 < env.sizeWith env.sizer.sizeFor d signal
  | some policy =>
    env.allotted d (policy (env.constructionRequest d s (s.book.open_.map ManagedPosition.position)
      (env.screened d s.locks s.book.open_ signals))) signal

def Queues (s s' : EngineRun) (signals : List TimedSignal) : Prop :=
  ∃ entries, s'.book.pending = s.book.pending ++ entries ∧
    entries.map (fun e => (e.instrument, e.direction)) =
      signals.map (fun x => (env.instruments.get x.instrument, x.direction))

/-- What a decision leaves as it was, apart from the closes it schedules. -/
structure Frames (s s' : EngineRun) (ops : List ManagedPosition) : Prop where
  open_ : s'.book.open_ = ops
  locks : s'.locks = s.locks
  curve : s'.equityCurve = s.equityCurve

variable {env} {d : Decision} {s s' s'' : EngineRun}

theorem Frames.trans {ops ops' : List ManagedPosition} (h : Frames s s' ops)
    (h' : Frames s' s'' ops') : Frames s s'' ops' :=
  ⟨h'.open_, h'.locks.trans h.locks, h'.curve.trans h.curve⟩

theorem Queues.none (h : s'.book.pending = s.book.pending) : env.Queues s s' [] :=
  ⟨[], by rw [h, List.append_nil], rfl⟩

theorem Queues.append {xs ys : List TimedSignal} (h : env.Queues s s' xs)
    (h' : env.Queues s' s'' ys) : env.Queues s s'' (xs ++ ys) := by
  obtain ⟨entries, hpending, haims⟩ := h
  obtain ⟨entries', hpending', haims'⟩ := h'
  refine ⟨entries ++ entries', ?_, ?_⟩
  · rw [hpending', hpending, List.append_assoc]
  · rw [List.map_append, List.map_append, haims, haims']

variable (env) in
theorem place_spec (sizeFor : SizeFor) (d : Decision) (signal : TimedSignal) (s : EngineRun) :
    Frames s (env.place sizeFor d signal s) s.book.open_ ∧
      env.Queues s (env.place sizeFor d signal s)
        ([signal].filter fun x => 0 < env.sizeWith sizeFor d x) := by
  have hplace : env.place sizeFor d signal s =
      if env.sizeWith sizeFor d signal ≤ 0 then s.bump "sized_to_zero"
      else { s with
        book := env.queue s.book signal (env.instruments.get signal.instrument)
          (env.sizeWith sizeFor d signal) d.index
        ordersSubmitted := s.ordersSubmitted + 1 } := rfl
  rw [List.filter_singleton, hplace]
  by_cases hsize : 0 < env.sizeWith sizeFor d signal
  · rw [if_neg (not_le.2 hsize), decide_eq_true hsize]
    exact ⟨⟨rfl, rfl, rfl⟩, [_], rfl, rfl⟩
  · rw [if_pos (not_lt.1 hsize), decide_eq_false hsize]
    exact ⟨⟨rfl, rfl, rfl⟩, .none rfl⟩

theorem scheduleReversal_spec (hmode : env.book.policy.reversal = .closeOnly) (b : PositionBook)
    (signal : TimedSignal) (index : ℤ) :
    let out := b.scheduleReversal env.book signal.instrument signal.direction index
    out.2.open_ = b.open_.map (ManagedPosition.flag signal) ∧ out.2.pending = b.pending ∧
      (out.1 = [] ↔ ∀ op ∈ b.open_, op.opposes signal.instrument signal.direction = false) := by
  have hignore : env.book.policy.reversal ≠ .ignore := by
    rw [hmode]
    decide
  simp only [PositionBook.scheduleReversal, if_neg hignore]
  obtain ⟨-, hops, hcloses⟩ := Sound.scheduleLoop_spec signal.instrument signal.direction
    (index + 1 + env.book.latencyBars) b.open_ b.seq
  refine ⟨?_, trivial, ?_⟩
  · rw [hops]
    apply List.map_congr_left
    intro op _
    by_cases hmeets : op.opposes signal.instrument signal.direction = true
    · have hboth := (op.opposes_iff signal).1 hmeets
      simp [hmeets, ManagedPosition.flag, hboth.1]
    · have hsame : (op.reversalPending || op.meets signal) = op.reversalPending := by
        rw [op.opposes_iff signal] at hmeets
        cases hpending : op.reversalPending <;> simp_all
      simp [hmeets, ManagedPosition.flag, hsame]
  · have hnone : (PositionBook.scheduleLoop signal.instrument signal.direction
        (index + 1 + env.book.latencyBars) b.open_ b.seq).2.2 = [] ↔
          b.open_.filter (·.opposes signal.instrument signal.direction) = [] := by
      rw [← List.map_eq_nil_iff, hcloses, List.map_eq_nil_iff]
    rw [hnone, List.filter_eq_nil_iff]
    simp only [Bool.not_eq_true]

variable {signal : TimedSignal}

theorem screen_spec (hmode : env.book.policy.reversal = .closeOnly)
    {goes : Bool} (h : env.screen d signal s = .ok (s', goes)) :
    Frames s s' (s.book.open_.map (ManagedPosition.flag signal)) ∧
      s'.book.pending = s.book.pending ∧
      (goes = true ↔ env.Passes d s.locks s.book.open_ signal) := by
  obtain ⟨hopen, hpending, hscheduled⟩ := scheduleReversal_spec hmode s.book signal d.index
  unfold screen at h
  generalize s.book.scheduleReversal env.book signal.instrument signal.direction d.index = out
    at hopen hpending hscheduled h
  obtain ⟨scheduled, book⟩ := out
  dsimp only at hopen hpending hscheduled h
  split_ifs at h with _ _ hclosed hshort
  · cases h
    refine ⟨⟨hopen, rfl, rfl⟩, hpending, Bool.false_ne_true.elim, fun hpasses => ?_⟩
    exact absurd (hscheduled.2 hpasses.unopposed) hclosed.1
  · cases h
    exact ⟨⟨hopen, rfl, rfl⟩, hpending, Bool.false_ne_true.elim,
      fun hpasses => absurd hshort hpasses.permitted⟩
  · have hfree : ∀ op ∈ s.book.open_, op.opposes signal.instrument signal.direction = false := by
      apply hscheduled.1
      by_contra hne
      exact hclosed ⟨hne, hmode⟩
    cases hlock : env.lockOf d signal s.locks with
    | error e =>
      rw [hlock] at h
      cases h
    | ok lock =>
      rw [hlock] at h
      cases lock with
      | none =>
        cases h
        exact ⟨⟨hopen, rfl, rfl⟩, hpending, fun _ => ⟨hfree, hshort, by rw [hlock]; rfl⟩,
          fun _ => rfl⟩
      | some lock =>
        cases h
        refine ⟨⟨hopen, rfl, rfl⟩, hpending, Bool.false_ne_true.elim, fun hpasses => ?_⟩
        have hunlocked := hpasses.unlocked
        rw [hlock] at hunlocked
        cases Option.some.inj hunlocked

def flagged (signals : List TimedSignal) (ops : List ManagedPosition) : List ManagedPosition :=
  signals.foldl (fun ops signal => ops.map (ManagedPosition.flag signal)) ops

@[simp] theorem flagged_nil (ops : List ManagedPosition) : flagged [] ops = ops := rfl

@[simp] theorem flagged_cons (signal : TimedSignal) (signals : List TimedSignal)
    (ops : List ManagedPosition) :
    flagged (signal :: signals) ops = flagged signals (ops.map (ManagedPosition.flag signal)) := rfl

theorem map_flagged {α : Type} (f : ManagedPosition → α)
    (hf : ∀ signal op, f (ManagedPosition.flag signal op) = f op) (signals : List TimedSignal)
    (ops : List ManagedPosition) : (flagged signals ops).map f = ops.map f := by
  induction signals generalizing ops with
  | nil => rfl
  | cons signal rest ih =>
    rw [flagged_cons, ih, List.map_map]
    exact List.map_congr_left fun op _ => hf signal op

theorem takeSignals_spec (hmode : env.book.policy.reversal = .closeOnly)
    (signals batch : List TimedSignal) {held : List TimedSignal}
    (h : env.takeSignals d signals s batch = .ok (s', held)) :
    Frames s s' (flagged signals s.book.open_) ∧
      (env.construction = none → held = batch ∧ env.Queues s s'
        ((env.screened d s.locks s.book.open_ signals).filter
          fun x => 0 < env.sizeWith env.sizer.sizeFor d x)) ∧
      (env.construction ≠ none → env.Queues s s' [] ∧
        held = batch ++ env.screened d s.locks s.book.open_ signals) := by
  induction signals generalizing s batch with
  | nil =>
    cases h
    exact ⟨⟨rfl, rfl, rfl⟩, fun _ => ⟨rfl, .none rfl⟩, fun _ =>
      ⟨.none rfl, (List.append_nil _).symm⟩⟩
  | cons signal rest ih =>
    unfold takeSignals at h
    cases hscreen : env.screen d signal { s with signalsSeen := s.signalsSeen + 1 } with
    | error e =>
      rw [hscreen] at h
      cases h
    | ok screened =>
      obtain ⟨s₁, goes⟩ := screened
      obtain ⟨hframe, hpending, hgoes⟩ := screen_spec hmode hscreen
      have hframe : Frames s s₁ (s.book.open_.map (ManagedPosition.flag signal)) :=
        ⟨hframe.open_, hframe.locks, hframe.curve⟩
      rw [hscreen] at h
      have hnone : env.Queues s s₁ [] := .none hpending
      cases goes with
      | false =>
        have hturned : ¬ env.Passes d s.locks s.book.open_ signal := fun hp =>
          Bool.false_ne_true (hgoes.2 hp)
        obtain ⟨hrest, halone, htogether⟩ := ih batch h
        rw [hframe.open_, hframe.locks] at halone htogether
        rw [hframe.open_] at hrest
        simp only [screened, if_neg hturned, List.nil_append]
        refine ⟨hframe.trans hrest, fun hc => ?_, fun hc => ?_⟩
        · exact ⟨(halone hc).1, hnone.append (halone hc).2⟩
        · exact ⟨hnone.append (htogether hc).1, (htogether hc).2⟩
      | true =>
        have hpasses := hgoes.1 rfl
        dsimp only at h
        simp only [screened, if_pos hpasses]
        by_cases hc : env.construction = none
        · rw [hc, Option.isSome_none, if_neg Bool.false_ne_true] at h
          obtain ⟨hplace, hqueues⟩ := place_spec env env.sizer.sizeFor d signal s₁
          obtain ⟨hrest, halone, -⟩ := ih batch h
          rw [hplace.open_, hplace.locks, hframe.open_, hframe.locks] at halone
          rw [hplace.open_, hframe.open_] at hrest
          refine ⟨(hframe.trans hplace).trans hrest, fun _ => ⟨(halone hc).1, ?_⟩,
            fun hne => absurd hc hne⟩
          rw [List.filter_append]
          exact (hnone.append hqueues).append (halone hc).2
        · rw [Option.isSome_iff_ne_none.2 hc, if_pos rfl] at h
          obtain ⟨hrest, -, htogether⟩ := ih (batch ++ [signal]) h
          rw [hframe.open_, hframe.locks] at htogether
          rw [hframe.open_] at hrest
          refine ⟨hframe.trans hrest, fun hnone => absurd hnone hc, fun _ => ?_⟩
          exact ⟨hnone.append (htogether hc).1, by rw [(htogether hc).2, List.append_assoc]⟩

theorem takeBatch_spec (d : Decision) (decisions : List AllocationDecision)
    (batch : List TimedSignal) (h : env.takeBatch d decisions batch s = .ok s') :
    env.Queues s s' (batch.filter (env.allotted d decisions)) := by
  induction batch generalizing s with
  | nil =>
    cases h
    exact .none rfl
  | cons signal rest ih =>
    unfold takeBatch at h
    cases hfound : decisionFor decisions signal.signalId with
    | none =>
      rw [hfound] at h
      cases h
    | some a =>
      rw [hfound] at h
      dsimp only at h
      rw [← List.singleton_append, List.filter_append, List.filter_singleton]
      split_ifs at h with hdropped
      · have hout : env.allotted d decisions signal = false := by
          simp [allotted, hfound, hdropped]
        rw [hout]
        have hnone : env.Queues s (s.bump "allocation_dropped") [] := .none rfl
        exact hnone.append (ih h)
      · obtain ⟨-, hqueues⟩ := place_spec env
          (env.sizer.allocated (a.baseRiskPct / 100) a.weight) d signal s
        rw [List.filter_singleton] at hqueues
        have hin : env.allotted d decisions signal = decide (0 < env.sizeWith
            (env.sizer.allocated (a.baseRiskPct / 100) a.weight) d signal) := by
          simp [allotted, hfound, hdropped]
        rw [hin]
        exact hqueues.append (ih h)

def queuedSignals (env : EngineSetup) (d : Decision) (s : EngineRun) : List TimedSignal :=
  let signals := env.strategy (env.context d s)
  (env.screened d s.locks s.book.open_ signals).filter (env.sized d s signals)

variable {o : Observed}

theorem decideBar_spec (hmode : env.book.policy.reversal = .closeOnly) {i : ℕ}
    (h : env.decideBar i o s = .ok s') :
    env.Queues s s' (env.queuedSignals ⟨i, o.view, env.account o s⟩ s) := by
  unfold decideBar at h
  dsimp only at h
  generalize hd : (⟨i, o.view, env.account o s⟩ : Decision) = d at h ⊢
  cases htake : env.takeSignals d (env.strategy (env.context d s)) s [] with
  | error e =>
    rw [htake] at h
    cases h
  | ok taken =>
    obtain ⟨s₁, held⟩ := taken
    obtain ⟨hframe, halone, htogether⟩ := takeSignals_spec hmode _ [] htake
    rw [htake] at h
    dsimp only at h
    cases hc : env.construction with
    | none =>
      rw [hc] at h
      cases h
      have hsized : env.sized d s (env.strategy (env.context d s)) =
          fun x => decide (0 < env.sizeWith env.sizer.sizeFor d x) := by
        funext x
        simp only [sized, hc]
      rw [queuedSignals, hsized]
      exact (halone hc).2
    | some policy =>
      obtain ⟨hqueues, hheld⟩ := htogether (by rw [hc]; exact Option.some_ne_none policy)
      rw [List.nil_append] at hheld
      have hrequest : env.constructionRequest d s₁ (s₁.book.open_.map ManagedPosition.position)
          held = env.constructionRequest d s (s.book.open_.map ManagedPosition.position) held := by
        have hpositions : s₁.book.open_.map ManagedPosition.position =
            s.book.open_.map ManagedPosition.position := by
          rw [hframe.open_]
          exact map_flagged _ (fun _ _ => rfl) _ _
        have hmargin : marginUsed d.view s₁.book.open_ = marginUsed d.view s.book.open_ := by
          rw [hframe.open_]
          unfold marginUsed
          rw [map_flagged _ (fun _ _ => rfl)]
        simp only [constructionRequest, hpositions, hmargin, hframe.curve]
      have hsized : env.sized d s (env.strategy (env.context d s)) = env.allotted d (policy
          (env.constructionRequest d s (s.book.open_.map ManagedPosition.position) held)) := by
        funext x
        simp only [sized, hc, hheld]
      rw [queuedSignals, hsized, ← hheld]
      rw [hc] at h
      cases held with
      | nil =>
        cases h
        exact hqueues
      | cons x xs =>
        dsimp only at h
        rw [hrequest] at h
        exact hqueues.append (takeBatch_spec d _ (x :: xs) h)

theorem mem_screened {locks : Option EngineLocks}
    {ops : List ManagedPosition} {signals : List TimedSignal} :
    signal ∈ env.screened d locks ops signals ↔ ∃ before after,
      signals = before ++ signal :: after ∧ env.Passes d locks (flagged before ops) signal := by
  induction signals generalizing ops with
  | nil => simp [screened]
  | cons x rest ih =>
    rw [screened, List.mem_append, ih]
    constructor
    · rintro (hx | ⟨before, after, rfl, hpasses⟩)
      · split_ifs at hx with hpasses
        · obtain rfl := List.mem_singleton.1 hx
          exact ⟨[], rest, rfl, hpasses⟩
        · cases hx
      · exact ⟨x :: before, after, rfl, hpasses⟩
    · rintro ⟨before, after, hsplit, hpasses⟩
      cases before with
      | nil =>
        obtain ⟨rfl, rfl⟩ := List.cons.inj hsplit
        left
        rw [flagged_nil] at hpasses
        rw [if_pos hpasses]
        exact List.mem_singleton_self x
      | cons y before =>
        obtain ⟨rfl, rfl⟩ := List.cons.inj hsplit
        exact .inr ⟨before, after, rfl, hpasses⟩

theorem flagged_eq (signals : List TimedSignal) (ops : List ManagedPosition) :
    flagged signals ops = ops.map fun op =>
      { op with reversalPending := op.reversalPending || signals.any fun x => op.meets x } := by
  induction signals generalizing ops with
  | nil => simp
  | cons x rest ih =>
    rw [flagged_cons, ih, List.map_map]
    apply List.map_congr_left
    intro op _
    simp only [Function.comp, ManagedPosition.flag, List.any_cons, Bool.or_assoc]
    rfl

theorem unopposed_iff (before : List TimedSignal) (ops : List ManagedPosition)
    (signal : TimedSignal) :
    (∀ op ∈ flagged before ops, op.opposes signal.instrument signal.direction = false) ↔
      ∀ op ∈ ops, op.meets signal = true → op.reversalPending = true ∨
        ∃ earlier ∈ before, op.meets earlier = true := by
  rw [flagged_eq, List.forall_mem_map]
  apply forall₂_congr
  intro op _
  rw [← Bool.not_eq_true, ManagedPosition.opposes_iff, not_and, Bool.not_eq_false, Bool.or_eq_true,
    List.any_eq_true]
  exact Iff.rfl

/-- A bar of a run on which the strategy is asked, and what its decision leads to. -/
structure Decided (env : EngineSetup) (i : ℕ) (ts : Timestamp) (o : Observed)
    (s s' : EngineRun) : Prop where
  reached : ∃ registration before after earlier, env.lockRegistration = .ok registration ∧
    env.timeline.zipIdx = before ++ (ts, i) :: after ∧
    env.runBars before (env.start registration) = .ok earlier ∧ earlier.bankrupt = false ∧
    env.observe i ts earlier = .ok (o, s)
  solvent : env.bankruptcyEquity < o.equity
  decided : env.decideBar i o s = .ok s'

def NeverOpensAgainst (env : EngineSetup) : Prop :=
  ∀ i ts o s s', Decided env i ts o s s' →
    ∃ entries, s'.book.pending = s.book.pending ++ entries ∧ ∀ entry ∈ entries,
      ∀ op ∈ s.book.open_, op.position.instrument = entry.instrument.symbol →
        op.position.direction = entry.direction

/-- Every signal with an opposite position open on its instrument finds one with no close yet, or
is turned away by a later gate. -/
def ClosesAfresh (env : EngineSetup) (d : Decision) (s : EngineRun) : Prop :=
  let signals := env.strategy (env.context d s)
  ∀ before signal after, signals = before ++ signal :: after → (∃ op ∈ s.book.open_,
      op.position.instrument = (env.instruments.get signal.instrument).symbol ∧
        op.position.direction ≠ signal.direction) →
    (∃ op ∈ s.book.open_, op.meets signal = true ∧ op.reversalPending = false ∧
      ∀ earlier ∈ before, op.meets earlier = false) ∨
    (signal.direction = .short ∧ (env.instruments.get signal.instrument).shortable = false) ∨
    (env.lockOf d signal s.locks).toOption ≠ some none ∨
    env.sized d s signals signal = false

theorem closesAfresh_iff : env.ClosesAfresh d s ↔ ∀ signal ∈ env.queuedSignals d s,
    ∀ op ∈ s.book.open_, op.position.instrument = (env.instruments.get signal.instrument).symbol →
        op.position.direction = signal.direction := by
  constructor
  · intro h signal hqueued op hop hsymbol
    obtain ⟨hscreened, hsized⟩ := List.mem_filter.1 hqueued
    obtain ⟨before, after, hsplit, hpasses⟩ := mem_screened.1 hscreened
    by_contra hdirection
    rcases h before signal after hsplit ⟨op, hop, hsymbol, hdirection⟩ with
      ⟨free, hfree, hmeets, hpending, hbefore⟩ | hbarred | hlocked | hunsized
    · rcases (unopposed_iff before s.book.open_ signal).1 hpasses.unopposed free hfree hmeets with
        hwaits | ⟨earlier, hearlier, hmet⟩
      · exact Bool.false_ne_true (hpending.symm.trans hwaits)
      · exact Bool.false_ne_true ((hbefore earlier hearlier).symm.trans hmet)
    · exact hpasses.permitted hbarred
    · exact hlocked hpasses.unlocked
    · exact Bool.false_ne_true (hunsized.symm.trans hsized)
  · intro h before signal after hsplit ⟨op, hop, hsymbol, hdirection⟩
    by_contra hopens
    simp only [not_or, not_not] at hopens
    obtain ⟨hclosing, hpermitted, hunlocked, hsized⟩ := hopens
    have hunopposed : ∀ op ∈ flagged before s.book.open_,
        op.opposes signal.instrument signal.direction = false := by
      rw [unopposed_iff]
      intro free hfree hmeets
      by_contra hnone
      rw [not_or, Bool.not_eq_true] at hnone
      refine hclosing ⟨free, hfree, hmeets, hnone.1, fun earlier hearlier => ?_⟩
      rw [← Bool.not_eq_true]
      exact fun hmet => hnone.2 ⟨earlier, hearlier, hmet⟩
    have hqueued : signal ∈ env.queuedSignals d s :=
      List.mem_filter.2 ⟨mem_screened.2 ⟨before, after, hsplit, hunopposed, hpermitted, hunlocked⟩,
        Bool.not_eq_false _ ▸ hsized⟩
    exact hdirection (h signal hqueued op hop hsymbol)

theorem opens_against_iff (hmode : env.book.policy.reversal = .closeOnly) {i : ℕ}
    (h : env.decideBar i o s = .ok s') :
    (∃ entries, s'.book.pending = s.book.pending ++ entries ∧ ∀ entry ∈ entries,
      ∀ op ∈ s.book.open_, op.position.instrument = entry.instrument.symbol →
        op.position.direction = entry.direction) ↔
      env.ClosesAfresh ⟨i, o.view, env.account o s⟩ s := by
  obtain ⟨entries, hpending, haims⟩ := decideBar_spec hmode h
  rw [closesAfresh_iff]
  have hentries : (∀ entry ∈ entries, ∀ op ∈ s.book.open_,
      op.position.instrument = entry.instrument.symbol → op.position.direction = entry.direction) ↔
        ∀ aim ∈ entries.map (fun e => (e.instrument, e.direction)), ∀ op ∈ s.book.open_,
          op.position.instrument = aim.1.symbol → op.position.direction = aim.2 := by
    rw [List.forall_mem_map]
  rw [haims, List.forall_mem_map] at hentries
  rw [← hentries]
  constructor
  · rintro ⟨entries', hpending', hagainst⟩
    obtain rfl := List.append_cancel_left (hpending.symm.trans hpending')
    exact hagainst
  · exact fun hagainst => ⟨entries, hpending, hagainst⟩

/-- A close-only run opens nothing against an open position exactly when, on every bar, each signal
that meets one finds a position whose close is not scheduled yet or is turned away later. -/
theorem never_opens_against_iff (env : EngineSetup)
    (hmode : env.book.policy.reversal = .closeOnly) :
    env.NeverOpensAgainst ↔ ∀ i ts o s s', Decided env i ts o s s' →
      env.ClosesAfresh ⟨i, o.view, env.account o s⟩ s := by
  constructor
  · intro h i ts o s s' hbar
    exact (opens_against_iff hmode hbar.decided).1 (h i ts o s s' hbar)
  · intro h i ts o s s' hbar
    exact (opens_against_iff hmode hbar.decided).2 (h i ts o s s' hbar)

def decidedAt (env : EngineSetup) (k : ℕ) : Except EngineError (Observed × EngineRun × EngineRun) :=
  match env.lockRegistration with
  | .error e => .error e
  | .ok registration =>
    match env.runBars (env.timeline.zipIdx.take k) (env.start registration) with
    | .error e => .error e
    | .ok earlier =>
      match env.observe k (env.timeline.getD k 0) earlier with
      | .error e => .error e
      | .ok (o, s) =>
        if earlier.bankrupt ∨ o.equity ≤ env.bankruptcyEquity then .error .unmarked
        else
          match env.decideBar k o s with
          | .error e => .error e
          | .ok s' => .ok (o, s, s')

theorem decided_of_computed {k : ℕ} (hk : k < env.timeline.length)
    (h : env.decidedAt k = .ok (o, s, s')) : Decided env k (env.timeline.getD k 0) o s s' := by
  unfold decidedAt at h
  split at h
  · cases h
  · rename_i registration hregistration
    split at h
    · cases h
    · rename_i earlier hrun
      split at h
      · cases h
      · rename_i o₁ s₁ hobserve
        split_ifs at h with hover
        split at h
        · cases h
        · rename_i s₂ hdecide
          cases h
          rw [not_or, Bool.not_eq_true, not_le] at hover
          exact ⟨⟨registration, _, _, earlier, hregistration, env.timeline_split hk, hrun, hover.1,
            hobserve⟩, hover.2, hdecide⟩

theorem computed_of_decided (h : Decided env i ts o s s') : env.decidedAt i = .ok (o, s, s') := by
  obtain ⟨registration, before, after, earlier, hregistration, hsplit, hrun, hsolvent, hobserve⟩ :=
    h.reached
  have hbar : env.timeline[before.length]? = some ts ∧ before.length = i := by
    have hget := congrArg (·[before.length]?) hsplit
    simpa [List.getElem?_zipIdx, List.getElem?_append_right] using hget
  obtain ⟨hget, rfl⟩ := hbar
  unfold decidedAt
  rw [hregistration, hsplit, List.take_left, List.getD_eq_getElem?_getD, hget]
  simp [hrun, hobserve, h.decided, hsolvent, h.solvent]

end EngineSetup

namespace EngineSample

theorem short_side : StopSide .short 100 105 := by decide

def short (ts : Timestamp) : TimedSignal :=
  { signal ts with
    direction := .short
    stopPrice := 105
    stop_pos := by norm_num
    stop_side := short_side
    target_side := fun _ h => absurd h List.not_mem_nil }

def twiceShort : EngineSetup :=
  { engine with
    book := { Frictionless.book with policy := { defaultExitPolicy with reversal := .closeOnly } }
    strategy := fun ctx =>
      if ctx.barIndex = 0 then [signal ctx.timestamp]
      else if ctx.barIndex = 1 then [short ctx.timestamp, short ctx.timestamp]
      else [] }

/-- The first short has the long closed; the second one is queued against it. -/
theorem second_short_opens : ¬ twiceShort.NeverOpensAgainst := by
  have hrun : succeeds (twiceShort.decidedAt 1) (fun x =>
      (x.2.2.book.pending.drop x.2.1.book.pending.length).any fun entry =>
        x.2.1.book.open_.any fun op => op.position.instrument = entry.instrument.symbol &&
          op.position.direction ≠ entry.direction) = true := by
    decide +kernel
  obtain ⟨⟨o, s, s'⟩, hcomputed, hagainst⟩ := exists_of_succeeds hrun
  intro h
  obtain ⟨entries, hpending, hnever⟩ := h _ _ _ _ _
    (EngineSetup.decided_of_computed (by decide) hcomputed)
  rw [hpending, List.drop_left] at hagainst
  obtain ⟨entry, hentry, hmeets⟩ := List.any_eq_true.1 hagainst
  obtain ⟨op, hop, hboth⟩ := List.any_eq_true.1 hmeets
  rw [Bool.and_eq_true, decide_eq_true_eq, decide_eq_true_eq] at hboth
  exact hboth.2 (hnever entry hentry op hop hboth.1)

def onceShort : EngineSetup :=
  { twiceShort with
    strategy := fun ctx =>
      if ctx.barIndex = 0 then [signal ctx.timestamp]
      else if ctx.barIndex = 1 then [short ctx.timestamp]
      else [] }

/-- The one short finds a long that is open, and only schedules its close. -/
theorem onceShort_never_opens : onceShort.NeverOpensAgainst := by
  have hflat : succeeds (onceShort.decidedAt 0) (fun x => x.2.1.book.open_.isEmpty) = true := by
    decide +kernel
  have hlong : succeeds (onceShort.decidedAt 1) (fun x => x.2.1.book.open_.any fun op =>
      op.meets (short 0) && !op.reversalPending) = true := by decide +kernel
  rw [EngineSetup.never_opens_against_iff onceShort rfl]
  intro i ts o s s' hbar before x after hsplit ⟨op, hop, _⟩
  have hcomputed := EngineSetup.computed_of_decided hbar
  rcases i with _ | _ | i
  · rw [hcomputed] at hflat
    rw [List.isEmpty_iff.1 hflat] at hop
    cases hop
  · rw [hcomputed] at hlong
    obtain ⟨op, hop, hmeets⟩ := List.any_eq_true.1 hlong
    rw [Bool.and_eq_true, Bool.not_eq_true'] at hmeets
    obtain ⟨rfl, hx⟩ | ⟨-, hnil⟩ := List.append_eq_singleton_iff.1 hsplit.symm
    · obtain rfl := (List.cons.inj hx).1
      exact .inl ⟨op, hop, hmeets.1, hmeets.2, fun _ h => absurd h List.not_mem_nil⟩
    · cases hnil
  · cases before <;> cases hsplit

end EngineSample

end Fiboki
