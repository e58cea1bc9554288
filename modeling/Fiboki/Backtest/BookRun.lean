import Fiboki.Backtest.Accounts
import Fiboki.Backtest.PositionRun
import Fiboki.Broker.Driver

/-!
The runs of a book: what its callers do to it, and the record of what came of it.
-/

namespace Fiboki

/-- What the callers of a book do to it.  An order is queued under the number taken for
it, and one that is turned away before that still takes its number. -/
inductive BookEvent where
  | queueEntry (order : PendingEntry)
  | turnAway (reason : String)
  | bump (reason : String)
  | scheduleReversal (instrument : String) (direction : Direction) (index : ℤ)
  | advance (slice : BarSlice)
  | flatten (slice : BarSlice) (reason : CloseReason) (which : ManagedPosition → Bool)
  | clear

/-- A book and the record of its run: the orders queued, the decisions on them, the orders
a bankruptcy dropped and the closes scheduled. -/
structure BookHistory where
  book : PositionBook
  queued : List PendingEntry
  entries : List EntryEvent
  cleared : List PendingEntry
  closes : List PendingClose

namespace BookHistory

def fresh (initialBalance : ℚ) : BookHistory := ⟨.fresh initialBalance, [], [], [], []⟩

def step (env : BookSetup) (h : BookHistory) : BookEvent → BookHistory
  | .queueEntry order =>
    let book := h.book.nextSeq
    let order := { order with seq := book.seq }
    { h with book := book.queueEntry order, queued := h.queued ++ [order] }
  | .turnAway reason => { h with book := (h.book.bump reason).nextSeq }
  | .bump reason => { h with book := h.book.bump reason }
  | .scheduleReversal instrument direction index =>
    let (closes, book) := h.book.scheduleReversal env instrument direction index
    { h with book := book, closes := h.closes ++ closes }
  | .advance slice =>
    match env.advance slice h.book with
    | (.error _, book) => { h with book := book }
    | (.ok result, book) => { h with book := book, entries := h.entries ++ result.entries }
  | .flatten slice reason which =>
    { h with book := (env.flatten slice reason.exitReason which h.book).2 }
  | .clear =>
    { h with
      book := { h.book with pending := [], pendingCloses := [] }
      cleared := h.cleared ++ h.book.pending }

def after (env : BookSetup) (initialBalance : ℚ) (events : List BookEvent) : BookHistory :=
  Runs.exec (step env) (fresh initialBalance) events

end BookHistory

namespace Sound

variable {initial : ℚ} {b : PositionBook} {live : List Account} (env : BookSetup)

theorem nextSeq (h : Sound initial b live) : Sound initial b.nextSeq live where
  balance := h.balance
  realised := h.realised
  balanced := h.balanced
  ledger := h.ledger
  charges := h.charges
  nodup := h.nodup
  fresh a ha := (h.fresh a ha).trans (Nat.le_succ _)
  closes_nodup := h.closes_nodup
  closes_fresh c hc := (h.closes_fresh c hc).trans (Nat.le_succ _)
  closes_reversing := h.closes_reversing

theorem historyStep {h : BookHistory}
    (hs : Sound initial h.book (h.book.open_.map ManagedPosition.account)) (e : BookEvent) :
    Sound initial (h.step env e).book ((h.step env e).book.open_.map ManagedPosition.account) := by
  cases e with
  | queueEntry order | turnAway reason => exact hs.nextSeq.congr rfl rfl rfl rfl rfl rfl rfl
  | bump reason => exact hs.congr rfl rfl rfl rfl rfl rfl rfl
  | scheduleReversal instrument direction index =>
    exact hs.scheduleReversal env instrument direction index
  | advance slice =>
    have hadvance := hs.advance env slice
    simp only [BookHistory.step]
    split
    · rename_i e b heq
      rw [heq] at hadvance
      exact hadvance
    · rename_i result b heq
      rw [heq] at hadvance
      exact hadvance
  | flatten slice reason which => exact hs.flatten env slice reason.exitReason which
  | clear =>
    have hkept := hs.keepCloses (List.nil_sublist _)
    exact hkept.congr rfl rfl rfl rfl rfl rfl rfl

end Sound

theorem BookHistory.sound (env : BookSetup) (initial : ℚ) (events : List BookEvent) :
    Sound initial (after env initial events).book
      ((after env initial events).book.open_.map ManagedPosition.account) :=
  Runs.exec_invariant
    (I := fun h : BookHistory => Sound initial h.book (h.book.open_.map ManagedPosition.account))
    (fun _ e h => h.historyStep env e) (Sound.empty initial) events

namespace BookSetup

variable (env : BookSetup)

theorem entryRefusal_none {b : PositionBook} {v : BarSlice} {symbol : String}
    (h : env.entryRefusal b v symbol = none) :
    (b.cooldownUntil.get symbol).getD (-1) < v.index ∧ b.open_.length < env.config.maxConcurrent ∧
      b.open_.countP (fun op => op.position.instrument = symbol) < env.config.maxPerInstrument := by
  unfold entryRefusal at h
  by_cases hcool : v.index ≤ (b.cooldownUntil.get symbol).getD (-1)
  · rw [if_pos hcool] at h
    cases h
  rw [if_neg hcool] at h
  cases hevent : env.eventBlock symbol v.timestamp with
  | some blocked =>
    rw [hevent] at h
    cases h
  | none =>
    rw [hevent] at h
    dsimp only at h
    by_cases hconcurrent : env.config.maxConcurrent ≤ b.open_.length
    · rw [if_pos hconcurrent] at h
      cases h
    rw [if_neg hconcurrent] at h
    by_cases hinstrument : env.config.maxPerInstrument ≤
        b.open_.countP (fun op => op.position.instrument = symbol)
    · rw [if_pos hinstrument] at h
      cases h
    exact ⟨not_le.1 hcool, not_le.1 hconcurrent, not_le.1 hinstrument⟩

theorem fillEntry_cases (v : BarSlice) (t : Turn) (order : PendingEntry) :
    ((v.index < order.actionableIndex ∨ v.bars order.instrument.symbol = none) ∧
        env.fillEntry v t order = (t, true)) ∨
      ∃ bar, order.actionableIndex ≤ v.index ∧ v.bars order.instrument.symbol = some bar ∧
        ((∃ reason, env.entryRefusal t.book v order.instrument.symbol = some reason ∧
            env.fillEntry v t order = (refuseEntry t order reason, false)) ∨
          (env.entryRefusal t.book v order.instrument.symbol = none ∧
            ((∃ reason, env.sim.simulateEntry order.instrument order.direction
              order.size bar v.index
                order.stopPrice order.seq (v.spacing order.instrument.symbol) = .error reason ∧
                env.fillEntry v t order = (refuseEntry t order reason.value, false)) ∨
              ∃ fill, env.sim.simulateEntry order.instrument order.direction order.size bar v.index
                order.stopPrice order.seq (v.spacing order.instrument.symbol) = .ok fill ∧
                env.fillEntry v t order = (env.acceptEntry v t order fill, false)))) := by
  unfold fillEntry
  by_cases hactionable : v.index < order.actionableIndex
  · rw [if_pos hactionable]
    exact .inl ⟨.inl hactionable, rfl⟩
  rw [if_neg hactionable]
  cases hbar : v.bars order.instrument.symbol with
  | none => exact .inl ⟨.inr rfl, by simp only [hbar]⟩
  | some bar =>
    refine .inr ⟨bar, not_lt.1 hactionable, rfl, ?_⟩
    cases hchecked : env.entryRefusal t.book v order.instrument.symbol with
    | some reason => exact .inl ⟨reason, rfl, by simp only [hbar, hchecked]⟩
    | none =>
      refine .inr ⟨rfl, ?_⟩
      cases hfill : env.sim.simulateEntry order.instrument order.direction order.size bar v.index
          order.stopPrice order.seq (v.spacing order.instrument.symbol) with
      | error reason => exact .inl ⟨reason, rfl, by simp only [hbar, hchecked, hfill]⟩
      | ok fill => exact .inr ⟨fill, rfl, by simp only [hbar, hchecked, hfill]⟩

end BookSetup

namespace Turn.Emits

variable (env : BookSetup)

variable (v : BarSlice) (r : BookSetup.Reversing)

theorem runClose (c : PendingClose) :
    ∃ legs, Emits r.turn (env.runClose v r c).1.turn legs ∧
      (env.runClose v r c).1.open_.Sublist r.open_ := by
  simp only [BookSetup.runClose]
  split_ifs
  · exact ⟨[], refl _, List.Sublist.refl _⟩
  split
  · exact ⟨[], refl _, List.Sublist.refl _⟩
  split
  · exact ⟨[], refl _, List.Sublist.refl _⟩
  · exact ⟨_, (realise env r.turn _ _ v.timestamp _ true).trans (settle env _ _ v.timestamp _),
      List.filter_sublist⟩

theorem runCloses (closes : List PendingClose) :
    ∃ legs, Emits r.turn (env.runCloses v r closes).1.turn legs ∧
      (env.runCloses v r closes).1.open_.Sublist r.open_ ∧
      (env.runCloses v r closes).2.Sublist closes := by
  induction closes generalizing r with
  | nil => exact ⟨[], refl _, List.Sublist.refl _, List.Sublist.refl _⟩
  | cons c rest ih =>
    obtain ⟨legs, hstep, hsub⟩ := runClose env v r c
    obtain ⟨legs', hrest, hsub', hclosed⟩ := ih (env.runClose v r c).1
    refine ⟨legs ++ legs', hstep.trans hrest, hsub'.trans hsub, ?_⟩
    simp only [BookSetup.runCloses]
    split_ifs
    · exact hclosed.cons_cons c
    · exact hclosed.cons c

end Turn.Emits

def ManagedPosition.shape (op : ManagedPosition) : ℕ × String := (op.seq, op.position.instrument)

theorem SameTerms.shape {op op' : ManagedPosition} (h : SameTerms op op') : op'.shape =
    op.shape := by
  rw [ManagedPosition.shape, ManagedPosition.shape, h.seq, h.symbol]

namespace BookSetup

variable (env : BookSetup)

theorem shape_chargePosition {financing : FinancingModel} {v : BarSlice} {op op' : ManagedPosition}
    (h : env.chargePosition financing v op = .ok op') : op'.shape = op.shape := by
  simp only [chargePosition] at h
  split_ifs at h
  · exact Except.ok.inj h ▸ rfl
  · split at h
    · cases h
    · exact Except.ok.inj h ▸ rfl

theorem shape_chargeEach (financing : FinancingModel) (v : BarSlice) (ops : List ManagedPosition) :
    (env.chargeEach financing v ops).2.map ManagedPosition.shape =
      ops.map ManagedPosition.shape := by
  induction ops with
  | nil => rfl
  | cons op ops ih =>
    simp only [chargeEach]
    split
    · rfl
    · rename_i op' hop
      rw [List.map_cons, List.map_cons, shape_chargePosition env hop, ih]

structure SameBook (b b' : PositionBook) : Prop where
  pending : b'.pending = b.pending
  pendingCloses : b'.pendingCloses = b.pendingCloses
  seq : b'.seq = b.seq
  rows : b'.exitLegs = b.exitLegs

variable (v : BarSlice)

variable (b : PositionBook)

theorem sameBook_chargeFinancing : SameBook b (env.chargeFinancing v b).2 ∧
      (env.chargeFinancing v b).2.open_.map ManagedPosition.shape =
        b.open_.map ManagedPosition.shape := by
  simp only [chargeFinancing]
  split
  · exact ⟨⟨rfl, rfl, rfl, rfl⟩, rfl⟩
  · split_ifs
    · exact ⟨⟨rfl, rfl, rfl, rfl⟩, rfl⟩
    · exact ⟨⟨rfl, rfl, rfl, rfl⟩, env.shape_chargeEach _ v b.open_⟩

theorem flattenEach_keeps (reason : ExitReason) (t : Turn) (ops : List ManagedPosition) :
    (env.flattenEach v reason t ops).book.pending = t.book.pending ∧
      (env.flattenEach v reason t ops).book.pendingCloses = t.book.pendingCloses ∧
      (env.flattenEach v reason t ops).book.seq = t.book.seq ∧
      (env.flattenEach v reason t ops).book.open_.Sublist t.book.open_ := by
  induction ops generalizing t with
  | nil => exact ⟨rfl, rfl, rfl, List.Sublist.refl _⟩
  | cons op ops ih =>
    simp only [flattenEach]
    split
    · exact ih t
    · rename_i bar hbar
      obtain ⟨hpending, hcloses, hseq, hsub⟩ := ih _
      exact ⟨hpending, hcloses, hseq, hsub.trans List.filter_sublist⟩

theorem advance_cases :
    (∃ e b', env.chargeFinancing v b = (.error e, b') ∧ env.advance v b = (.error e, b')) ∨
      ∃ b' result, env.chargeFinancing v b = (.ok (), b') ∧
        env.advance v b = (.ok result, (env.resolveExits v (env.fillEntries v
          (env.runPendingCloses v ⟨b', .empty⟩))).book) ∧
        result.entries = (env.resolveExits v (env.fillEntries v
          (env.runPendingCloses v ⟨b', .empty⟩))).result.entries := by
  simp only [advance]
  generalize env.chargeFinancing v b = out
  obtain ⟨outcome, b'⟩ := out
  cases outcome with
  | error e => exact .inl ⟨e, b', rfl, rfl⟩
  | ok _ => exact .inr ⟨b', _, rfl, rfl, rfl⟩

end BookSetup

namespace BookHistory

variable (env : BookSetup)

theorem step_advance (h : BookHistory) (v : BarSlice) :
    (∃ e b', env.chargeFinancing v h.book = (.error e, b') ∧
        h.step env (.advance v) = { h with book := b' }) ∨
      ∃ b', env.chargeFinancing v h.book = (.ok (), b') ∧
        let t := env.resolveExits v (env.fillEntries v (env.runPendingCloses v ⟨b', .empty⟩))
        h.step env (.advance v) =
          { h with book := t.book, entries := h.entries ++ t.result.entries } := by
  rcases env.advance_cases v h.book with ⟨e, b', hcharge, hadvance⟩ |
    ⟨b', result, hcharge, hadvance, hentries⟩
  · refine .inl ⟨e, b', hcharge, ?_⟩
    simp only [step, hadvance]
  · refine .inr ⟨b', hcharge, ?_⟩
    simp only [step, hadvance, hentries]

end BookHistory

namespace BookSample

open Frictionless

def barOf (timestamp : Timestamp) (open_ high low close : ℚ)
    (coherent : low ≤ open_ ∧ open_ ≤ high ∧ low ≤ close ∧ close ≤ high) : Bar :=
  ⟨timestamp, open_, high, low, close, coherent⟩

/-- A step on which only `EURUSD` has a bar. -/
def sliceOf (index : ℤ) (bar : Bar) : BarSlice where
  index := index
  timestamp := bar.timestamp
  bars symbol := if symbol = "EURUSD" then some bar else none
  previousTimestamp := some 0
  previousTimes _ := none
  intervals _ := none
  lastCloses _ := none
  carriedBars _ := none
  series _ _ := none

/-- A long order for the open of the step at `index`. -/
def longOrder (index : ℤ) (size stop : ℚ) (targets allocations : List ℚ)
    (h : allocations ≠ [] → allocations.length = targets.length) : PendingEntry :=
  ⟨0, instrumentOf "EURUSD", .long, size, stop, targets, allocations, "s", index, index, none, h⟩

theorem no_targets_aligned : ([] : List ℚ) ≠ [] → ([] : List ℚ).length = ([] : List ℚ).length :=
  fun _ => rfl

def flatStep (index : ℤ) (price : ℚ) : BookEvent :=
  .advance (sliceOf index (flatBar (index * hourNs) price))

end BookSample

end Fiboki
