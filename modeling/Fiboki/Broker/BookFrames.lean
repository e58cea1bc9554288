import Fiboki.Backtest.BookRun
import Fiboki.Broker.Resume
import Fiboki.Broker.VenueCalls

/-!
What a manager's dealings with the venue leave of its book: they relabel open positions and
move the levels of one, and nothing else.
-/

namespace Fiboki

def KeptByLabels (Q : PositionBook → Prop) : Prop :=
  ∀ (b : PositionBook) (f : ManagedPosition → ManagedPosition),
    (∀ op, (f op).shape = op.shape ∧ (f op).instrument = op.instrument) → Q b →
      Q { b with open_ := b.open_.map f }

namespace KeptByLabels

variable {σ : Type} (setup : ManagerSetup σ) {Q : PositionBook → Prop} {t : ManagerTurn σ}

theorem fold {α : Type} {f : ManagerTurn σ → α → ManagerTurn σ}
    (hf : ∀ t a, Q t.manager.book → Q (f t a).manager.book) (h : Q t.manager.book)
    (items : List α) : Q (items.foldl f t).manager.book :=
  Runs.exec_invariant (I := fun t : ManagerTurn σ => Q t.manager.book) hf h items

variable {m : VenuePositionManager}

theorem linkEntry (hQ : KeptByLabels Q) (h : Q m.book) (seq : ℕ)
    (ref : String) : Q (m.linkEntry seq ref).book := by
  apply hQ _ _ _ h
  intro op
  split_ifs <;> exact ⟨rfl, rfl⟩

theorem recordLevels (hQ : KeptByLabels Q) (h : Q m.book) (ref : String) (managed : ManagedPosition)
    (desired : VenueIntent) : Q (ManagerSetup.recordLevels m ref managed desired).book := by
  unfold ManagerSetup.recordLevels
  dsimp only
  cases m.venuePositions.get ref with
  | some position => exact h
  | none =>
    apply hQ _ _ _ h
    intro op
    split_ifs <;> exact ⟨rfl, rfl⟩

theorem instructAmend (hQ : KeptByLabels Q) (h : Q t.manager.book) (managed : ManagedPosition)
    (desired : VenueIntent) (kind : AmendKind) :
    Q (setup.instructAmend t managed desired kind).2.manager.book := by
  rw [ManagerSetup.instructAmend_manager]
  split_ifs
  · exact hQ.recordLevels h _ managed desired
  · exact h

theorem takeEntry (hQ : KeptByLabels Q) (h : Q t.manager.book) (event : EntryEvent) :
    Q (setup.takeEntry t event).manager.book := by
  have hstray : ∀ (t : ManagerTurn σ) (ref : String), Q t.manager.book →
      Q (setup.closeStray t event ref).manager.book := by
    intro t ref h
    unfold ManagerSetup.closeStray
    dsimp only
    split
    · exact h
    · simp only [ManagerTurn.diverge_manager]
      split_ifs
      · rw [ManagerSetup.instructClose_manager]
        exact h
      · rw [ManagerTurn.onManager_manager, ManagerSetup.instructClose_manager]
        exact h
  unfold ManagerSetup.takeEntry
  split
  · exact h
  · dsimp only
    split
    · exact hQ.linkEntry h _ _
    · exact hstray _ _ h

theorem retryPendingCloses (h : Q t.manager.book) :
    Q (setup.retryPendingCloses t).manager.book := by
  refine fold (fun t item h => ?_) h _
  unfold ManagerSetup.retryClose
  dsimp only
  split_ifs
  · rw [ManagerTurn.onManager_manager, ManagerSetup.instructClose_manager]
    exact h
  · rw [ManagerSetup.instructClose_manager]
    exact h

theorem pushFinal (h : Q t.manager.book) (leg : ExitLeg) (ref : String) (position : Position) :
    Q (setup.pushFinal t leg ref position).manager.book := by
  unfold ManagerSetup.pushFinal
  dsimp only
  split_ifs
  · rw [ManagerTurn.onManager_manager, ManagerSetup.instructClose_manager]
    exact h
  · rw [ManagerTurn.onManager_manager, ManagerTurn.onManager_manager,
      ManagerSetup.instructClose_manager]
    exact h

theorem pushPartial (hQ : KeptByLabels Q) (h : Q t.manager.book) (leg : ExitLeg) (ref : String)
    (position : Position) : Q (setup.pushPartial t leg ref position).manager.book := by
  have hshrunk : Q ((setup.instructClose t position (min leg.size position.size) false .scaleOut
      leg.exitReason).2.onManager (·.shrink ref position leg.size)).manager.book := by
    rw [ManagerTurn.onManager_manager, ManagerSetup.instructClose_manager]
    exact h
  unfold ManagerSetup.pushPartial
  dsimp only
  split
  · exact hshrunk
  · exact hQ.instructAmend setup hshrunk _ _ _

theorem pushCloses (hQ : KeptByLabels Q) (h : Q t.manager.book) (result : AdvanceResult) :
    Q (setup.pushCloses t result).manager.book := by
  refine fold (fun t leg h => ?_) h _
  unfold ManagerSetup.pushLeg
  cases t.manager.refBySeq.get leg.positionSeq with
  | none => exact h
  | some ref =>
    dsimp only
    by_cases href : ref = ""
    · rw [if_pos href]
      exact h
    · rw [if_neg href]
      cases t.manager.venuePositions.get ref with
      | none => exact h
      | some position =>
        dsimp only
        split_ifs
        · exact pushFinal setup h leg ref position
        · exact hQ.pushPartial setup h leg ref position

theorem pushLevels (hQ : KeptByLabels Q) (h : Q t.manager.book) :
    Q (setup.pushLevels t).manager.book := by
  refine fold (fun t managed h => ?_) h _
  unfold ManagerSetup.pushLevel
  dsimp only
  split_ifs
  · exact h
  · exact h
  · exact hQ.instructAmend setup h managed _ _

theorem onBar (hQ : KeptByLabels Q) (bars : BarMap) (barIndex : ℤ) (timestamp : Option Timestamp)
    (series : Series) (w : World σ)
    (hadvanced : Q (m.driver.advance setup.book m.book bars barIndex timestamp series).2.2) :
    Q (setup.onBar m bars barIndex timestamp series w).2.1.book := by
  have hadvanced : Q (setup.advanceBook m bars barIndex timestamp series).2.book := hadvanced
  unfold ManagerSetup.onBar
  generalize setup.advanceBook m bars barIndex timestamp series = out at hadvanced ⊢
  obtain ⟨outcome, m'⟩ := out
  cases outcome with
  | error e => exact hadvanced
  | ok answer =>
    obtain ⟨result, view⟩ := answer
    have hentries : Q (setup.takeEntries m' result w).manager.book :=
      fold (t := .start m' w) (fun t event h => hQ.takeEntry setup h event) hadvanced _
    exact hQ.pushLevels setup (hQ.pushCloses setup (retryPendingCloses setup hentries) result)

theorem flatten (hQ : KeptByLabels Q) (h : Q m.book) (bars : BarMap) (reason : ExitReason)
    (which : ManagedPosition → Bool) (w : World σ)
    (hflat : ∀ v, Q (setup.book.flatten v reason which m.book).2) :
    Q (setup.flatten m bars reason which w).2.1.book := by
  have hflattened : Q (setup.flattenBook m bars reason which).2.book := by
    unfold ManagerSetup.flattenBook
    split
    · exact h
    · exact hflat _
  unfold ManagerSetup.flatten
  generalize setup.flattenBook m bars reason which = out at hflattened ⊢
  obtain ⟨outcome, m'⟩ := out
  cases outcome with
  | error e => exact hflattened
  | ok answer =>
    obtain ⟨result, view⟩ := answer
    exact hQ.pushCloses setup (retryPendingCloses (t := .start m' w) setup hflattened) result

theorem reconcile (hQ : KeptByLabels Q) (h : Q m.book) (positions : List Position) (repair : Bool)
    (w : World σ) : Q (setup.reconcile m positions repair w).manager.book := by
  unfold ManagerSetup.reconcile
  refine fold (t := .start m w) (fun t item h => ?_) h _
  unfold ManagerSetup.reconcileOne
  dsimp only
  split
  · exact h
  · split_ifs
    · exact h
    · apply hQ.instructAmend setup
      exact h
    · exact h

theorem resume (hQ : KeptByLabels Q) (h : Q m.book) (recovered : List RecoveredPosition)
    (barIndex : ℤ) (reattach : Bool) (w : World σ)
    (hback : ∀ (b : PositionBook) (item : RecoveredPosition) (intent : OrderIntent), Q b →
      Q { b.nextSeq with open_ := b.open_ ++
        [setup.rebuild item.position intent barIndex (b.seq + 1)] }) :
    Q (setup.resume m recovered barIndex reattach w).manager.book := by
  refine fold (t := .start m w) (fun t item h => ?_) h recovered
  unfold ManagerSetup.resumeOne
  dsimp only
  split_ifs
  · exact h
  · cases item.intent with
    | none => exact h
    | some intent =>
      dsimp only
      split_ifs
      · apply hQ.instructAmend setup
        exact hback t.manager.book item intent h
      · exact hback t.manager.book item intent h

end KeptByLabels

end Fiboki
