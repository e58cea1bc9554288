import Fiboki.Broker.OwnRecord
import Fiboki.Broker.PendingCloses
import Fiboki.Broker.Resume

/-!
Startup recovery: reconcile, then join the positions that the venue holds with the
intents that carry their broker references.

Recovery and the entry that opened a position.

Every instruction on a position is stored under the broker reference of its entry,
and the join of recovery keeps the one whose client reference sorts last.
-/

namespace Fiboki

open Text

/-- A recovered position with what `recover` says of it beyond what `resume` reads. -/
structure RecoveredRecord extends RecoveredPosition where
  hasLocalRecord : Bool
  stopLoss : Option ℚ

structure RecoveryReport where
  at_ : Timestamp
  positions : List RecoveredRecord
  unresolvedIntents : List OrderIntent
  reconciliation : ReconciliationReport

/-- `by_ref.get(ref)`: among the intents that carry the reference, the last one listed. -/
def IntentStore.byRef (store : IntentStore) (ref : String) : Option OrderIntent :=
  lastWith (fun i => truthy i.brokerRef && i.brokerRef == some ref) store.all

def IntentStore.recoverOne (store : IntentStore) (pos : Position) : RecoveredRecord :=
  let ref := pos.venueRef.getD ""
  let intent := store.byRef ref
  let intentStop := intent.bind OrderIntent.stopLoss
  let strategyId := match intent with
    | some intent => strOr pos.strategyId intent.strategyId
    | none => pos.strategyId
  { position := { pos with
      stopLoss := if pos.stopLoss = 0 then intentStop.getD 0 else pos.stopLoss
      strategyId := strategyId }
    intent := intent
    brokerRef := ref
    hasLocalRecord := intent.isSome
    stopLoss := if pos.stopLoss = 0 then intentStop else some pos.stopLoss }

namespace ExecutionService

variable {σ : Type} (svc : ExecutionService σ)

def heldPositions (w : World σ) : List Position :=
  match svc.adapter.positions w.venue with
  | (.ok positions, _) => positions
  | (.error _, _) => []

def recover (now : Timestamp) (w : World σ) : RecoveryReport × World σ :=
  let (report, w) := svc.reconcile now w
  ({ at_ := now
     positions := (svc.heldPositions w).map w.store.recoverOne
     unresolvedIntents := w.store.all.filter fun i =>
       i.state.needsReconciliation && !truthy i.brokerRef
     reconciliation := report },
    { w with venue := (svc.adapter.positions w.venue).2 })

end ExecutionService

namespace IntentStore

variable {store : IntentStore} {ref : String} {e : OrderIntent}

theorem nodup_all (store : IntentStore) : (store.all.map OrderIntent.clientRef).Nodup :=
  Journal.nodup_snapshot _ _

theorem pairwise_all (store : IntentStore) :
    store.all.Pairwise fun i j => i.clientRef ≤ j.clientRef := by
  have htotal : ∀ a b : String, decide (a ≤ b) = true ∨ decide (b ≤ a) = true := by
    intro a b
    simpa only [decide_eq_true_eq] using le_total a b
  have htrans : ∀ a b c : String, decide (a ≤ b) = true → decide (b ≤ c) = true →
      decide (a ≤ c) = true := by
    intro a b c
    simpa only [decide_eq_true_eq] using le_trans
  have hle : store.all.Pairwise fun i j => decide (i.clientRef ≤ j.clientRef) = true :=
    Journal.pairwise_snapshot htotal htrans store.lines
  exact hle.imp fun h => of_decide_eq_true h

theorem byRef_iff (href : ref ≠ "") :
    store.byRef ref = some e ↔ store.get e.clientRef = some e ∧ e.brokerRef = some ref ∧
        ∀ i, store.get i.clientRef = some i → i.brokerRef = some ref → i.clientRef ≤
          e.clientRef := by
  have hmem : ∀ i : OrderIntent,
      (truthy i.brokerRef && i.brokerRef == some ref) = true ↔ i.brokerRef = some ref := by
    intro i
    constructor
    · intro h
      simp only [Bool.and_eq_true, beq_iff_eq] at h
      exact h.2
    · intro h
      rw [h, truthy_some.2 href, beq_self_eq_true, Bool.and_self]
  unfold byRef
  rw [lastWith_iff store.pairwise_all store.nodup_all, mem_all, hmem]
  refine and_congr_right fun _ => and_congr_right fun _ => ?_
  constructor
  · intro h i hi hri
    exact h i (mem_all.2 hi) ((hmem i).2 hri)
  · intro h i hi hpi
    exact h i (mem_all.1 hi) ((hmem i).1 hpi)

end IntentStore

namespace EntryJoin

open IntentStore OwnRecord

/-- A store that calls of the service and passes of reconciliation have produced,
whatever the outside answered. -/
inductive Reached : IntentStore → Prop where
  | empty : Reached IntentStore.empty
  | submit {σ : Type} (svc : ExecutionService σ) (plan : TradePlan) (orderId : String)
      (context : RiskContext) (w : World σ) :
      Reached w.store → Reached (svc.submit plan orderId context w).2.store
  | close {σ : Type} (svc : ExecutionService σ) (position : Position) (context : ExitContext)
      (w : World σ) : Reached w.store → Reached (svc.close position context w).2.store
  | closePartial {σ : Type} (svc : ExecutionService σ) (position : Position) (size : ℚ)
      (context : ExitContext) (reason : String) (w : World σ) :
      Reached w.store → Reached (svc.closePartial position size context reason w).2.store
  | amend {σ : Type} (svc : ExecutionService σ) (position : Position)
      (stopLoss takeProfit : Option ℚ) (context : ExitContext) (retryAttempts : ℕ)
      (reason : String) (w : World σ) :
      Reached w.store →
        Reached (svc.amend position stopLoss takeProfit context retryAttempts reason w).2.store
  | reconcile (store : IntentStore) (now : Timestamp) (orders : List OrderAck) :
      Reached store → Reached (store.reconciled now orders)

structure OfPlan (plan : TradePlan) (i : OrderIntent) : Prop where
  clientRef : i.clientRef = clientRefFor plan
  planId : i.planId = plan.planId
  strategyId : i.strategyId = plan.signal.strategyId
  instrument : i.instrument = plan.instrument
  direction : i.direction = plan.direction
  stopLoss : i.stopLoss = some plan.signal.stopPrice
  takeProfit : i.takeProfit = plan.signal.takeProfitPrices.head?
  extra : i.extra = .entry plan.riskAmount plan.sizingBasis plan.signal.takeProfitPrices
    plan.signal.takeProfitAllocations

def OfExit (i : OrderIntent) : Prop :=
  match i.extra with
  | .entry .. => False
  | .closing positionId => i.clientRef = closeClientRef positionId
  | .amend positionId _ => i.clientRef = amendClientRef positionId i.stopLoss i.takeProfit
  | .partialClose positionId _ => ∃ size, i.clientRef = partialClientRef positionId size

def Made (i : OrderIntent) : Prop := (∃ plan, OfPlan plan i) ∨ OfExit i

variable {i j : OrderIntent}

theorem OfPlan.congr {plan : TradePlan} (h : OfPlan plan j)
    (hij : i.SameInstruction j) : OfPlan plan i where
  clientRef := hij.clientRef.trans h.clientRef
  planId := hij.planId.trans h.planId
  strategyId := hij.strategyId.trans h.strategyId
  instrument := hij.instrument.trans h.instrument
  direction := hij.direction.trans h.direction
  stopLoss := hij.stopLoss.trans h.stopLoss
  takeProfit := hij.takeProfit.trans h.takeProfit
  extra := hij.extra.trans h.extra

theorem OfExit.congr (h : OfExit j) (hij : i.SameInstruction j) : OfExit i := by
  unfold OfExit at h ⊢
  rw [hij.extra, hij.clientRef, hij.stopLoss, hij.takeProfit]
  exact h

theorem Made.congr (h : Made j) (hij : i.SameInstruction j) : Made i := by
  rcases h with ⟨plan, h⟩ | h
  · exact .inl ⟨plan, h.congr hij⟩
  · exact .inr (h.congr hij)

theorem made_of_writes (first : OrderIntent) {s s' : IntentStore} (hfirst : Made first)
    (hs : ∀ i ∈ s.lines, Made i) (hw : Writes (·.SameInstruction first) s s') :
    ∀ i ∈ s'.lines, Made i := by
  intro i hi
  rcases hw.mem_lines hi with hi | hi
  · exact hs i hi
  · exact hfirst.congr hi

variable {store : IntentStore}

theorem Reached.made (h : Reached store) : ∀ i ∈ store.lines, Made i := by
  induction h with
  | empty =>
    intro i hi
    cases hi
  | submit svc plan orderId context w _ ih =>
    have hplan : Made (svc.entryIntent plan) :=
      .inl ⟨plan, ⟨rfl, rfl, rfl, rfl, rfl, rfl, rfl, rfl⟩⟩
    exact made_of_writes (svc.entryIntent plan) hplan ih (svc.submit_same plan orderId context w)
  | close svc position context w _ ih =>
    exact made_of_writes (svc.closeIntent position context) (.inr rfl) ih
      (svc.close_same position context w)
  | closePartial svc position size context reason w _ ih =>
    exact made_of_writes (svc.partialIntent position size context reason)
      (.inr ⟨size, rfl⟩) ih (svc.closePartial_same position size context reason w)
  | amend svc position stopLoss takeProfit context retryAttempts reason w _ ih =>
    exact made_of_writes (svc.amendIntent position stopLoss takeProfit context reason)
      (.inr rfl) ih (svc.amend_same position stopLoss takeProfit context retryAttempts reason w)
  | reconcile store now orders _ ih =>
    intro i hi
    obtain ⟨j, hj, hij⟩ := mem_lines_reconciled hi
    exact (ih j hj).congr hij

variable {e : OrderIntent}

theorem Reached.ofPlan (h : Reached store) (hget : store.get e.clientRef = some e)
    (hentry : IsEntry e) : ∃ plan, OfPlan plan e := by
  rcases h.made e (Journal.mem_of_current hget) with hplan | hexit
  · exact hplan
  · unfold IsEntry at hentry
    unfold OfExit at hexit
    split at hentry
    · rename_i hextra
      rw [hextra] at hexit
      exact absurd hexit id
    · exact absurd hentry id

/-- The venue's position was opened by the order of `e`: `e` is the one entry on record
under its broker reference, and they agree on what was dealt. -/
structure OpenedBy (store : IntentStore) (p : Position) (e : OrderIntent) : Prop where
  stored : store.get e.clientRef = some e
  isEntry : IsEntry e
  referenced : truthy p.venueRef = true
  brokerRef : e.brokerRef = p.venueRef
  unique : ∀ i, store.get i.clientRef = some i → IsEntry i → i.brokerRef = p.venueRef → i = e
  instrument : p.instrument = e.instrument
  direction : p.direction = e.direction
  strategyId : p.strategyId = "" ∨ p.strategyId = e.strategyId

def EntryLast (store : IntentStore) (p : Position) (e : OrderIntent) : Prop :=
  ∀ i, store.get i.clientRef = some i → i.brokerRef = p.venueRef → i.clientRef ≤ e.clientRef

variable {p : Position}

theorem recoverOne_intent (h : OpenedBy store p e) :
    (store.recoverOne p).intent = some e ↔ EntryLast store p e := by
  obtain ⟨ref, href, hne⟩ := exists_of_truthy h.referenced
  have hentry : e.brokerRef = some ref := h.brokerRef.trans href
  show store.byRef (p.venueRef.getD "") = some e ↔ EntryLast store p e
  unfold EntryLast
  rw [href, Option.getD_some, byRef_iff hne]
  constructor
  · rintro ⟨-, -, hlast⟩
    exact hlast
  · intro hlast
    exact ⟨h.stored, hentry, hlast⟩

variable {a b : String}

theorem le_of_head {x y : Char} {xs ys : List Char} (ha : a.toList = x :: xs)
    (hb : b.toList = y :: ys) (h : x < y) : a ≤ b := by
  rw [String.le_iff_toList_le, ha, hb]
  exact le_of_lt (List.Lex.rel h)

theorem append_le_append (p : String) (h : a ≤ b) : p ++ a ≤ p ++ b := by
  rw [String.le_iff_toList_le] at h ⊢
  rw [String.toList_append, String.toList_append]
  induction p.toList with
  | nil => exact h
  | cons c cs ih => exact List.cons_le_cons c ih

def firstPlanId : String := "PARTIAL."

theorem exitRef_le {i : OrderIntent} (h : OfExit i) : i.clientRef ≤ "FBK-" ++ firstPlanId := by
  have hclose : ∀ t : String, "CLOSE-" ++ t ≤ firstPlanId := fun t =>
    le_of_head (x := 'C') (y := 'P') (by rw [String.toList_append]; rfl) rfl (by decide)
  have hamend : ∀ t : String, "AMEND-" ++ t ≤ firstPlanId := fun t =>
    le_of_head (x := 'A') (y := 'P') (by rw [String.toList_append]; rfl) rfl (by decide)
  have hdash : ∀ t : String, "-" ++ t ≤ "." := fun t =>
    le_of_head (x := '-') (y := '.') (by rw [String.toList_append]; rfl) rfl (by decide)
  unfold OfExit at h
  cases hextra : i.extra with
  | entry riskAmount sizingBasis prices allocations =>
    rw [hextra] at h
    exact absurd h id
  | closing positionId =>
    rw [hextra] at h
    have href : closeClientRef positionId = "FBK-" ++ ("CLOSE-" ++ positionId) := by
      rw [closeClientRef, ← String.append_assoc]
      rfl
    rw [show i.clientRef = _ from h, href]
    exact append_le_append _ (hclose _)
  | amend positionId reason =>
    rw [hextra] at h
    have href : amendClientRef positionId i.stopLoss i.takeProfit = "FBK-" ++ ("AMEND-" ++
        (positionId ++ "-" ++ levelText i.stopLoss ++ "-" ++ levelText i.takeProfit)) := by
      simp only [amendClientRef, ← String.append_assoc]
      rfl
    rw [show i.clientRef = _ from h, href]
    exact append_le_append _ (hamend _)
  | partialClose positionId reason =>
    rw [hextra] at h
    obtain ⟨size, h⟩ := h
    have href : partialClientRef positionId size = "FBK-" ++ ("PARTIAL" ++
        ("-" ++ (positionId ++ "-" ++ fixed10 size))) := by
      simp only [partialClientRef, ← String.append_assoc]
      rfl
    have hfirst : firstPlanId = "PARTIAL" ++ "." := rfl
    rw [h, href, hfirst]
    exact append_le_append _ (append_le_append _ (hdash _))

theorem entryLast_of_planId (h : Reached store) (ho : OpenedBy store p e)
    (hid : firstPlanId ≤ e.planId) : EntryLast store p e := by
  obtain ⟨plan, hplan⟩ := h.ofPlan ho.stored ho.isEntry
  intro i hi href
  rcases h.made i (Journal.mem_of_current hi) with ⟨plan', hplan'⟩ | hexit
  · have hentry : IsEntry i := by
      unfold IsEntry
      rw [hplan'.extra]
      trivial
    rw [ho.unique i hi hentry href]
  · refine (exitRef_le hexit).trans ?_
    rw [hplan.clientRef, clientRefFor, ← hplan.planId]
    exact append_le_append _ hid

section Resumed

variable {σ : Type} (setup : ManagerSetup σ)

structure Restored (plan : TradePlan) (p : Position) (op : ManagedPosition) : Prop where
  venueRef : op.position.venueRef = p.venueRef
  direction : op.position.direction = plan.direction
  strategyId : op.position.strategyId = plan.signal.strategyId
  initialStop : op.initialStop = plan.signal.stopPrice
  legs : op.legs = planLegs (setup.instruments.get plan.instrument) p.size
    plan.signal.takeProfitPrices plan.signal.takeProfitAllocations

variable {e : OrderIntent}

variable {plan : TradePlan}

theorem ladder_ofPlan (h : OfPlan plan e) :
    e.ladder = (plan.signal.takeProfitPrices, plan.signal.takeProfitAllocations) := by
  unfold OrderIntent.ladder
  rw [h.extra, h.takeProfit]
  dsimp only
  by_cases hp : plan.signal.takeProfitPrices = []
  · rw [if_pos hp, hp]
    rfl
  · rw [if_neg hp]

theorem strOr_strOr {a b : String} (h : a = "" ∨ a = b) : strOr (strOr a b) b = b := by
  unfold strOr
  rcases h with rfl | rfl
  · simp
  · simp

theorem restored_rebuild {store : IntentStore} {p : Position}
    (ho : OpenedBy store p e) (hplan : OfPlan plan e) (hjoin : (store.recoverOne p).intent = some e)
    (barIndex : ℤ) (seq : ℕ) :
    Restored setup plan p (setup.rebuild (store.recoverOne p).position e barIndex seq) where
  venueRef := rfl
  direction := by
    show p.direction = plan.direction
    rw [ho.direction, hplan.direction]
  strategyId := by
    have hby : store.byRef (p.venueRef.getD "") = some e := hjoin
    have hrecovered : (store.recoverOne p).position.strategyId =
        strOr p.strategyId e.strategyId := by
      unfold IntentStore.recoverOne
      dsimp only
      rw [hby]
    show strOr (store.recoverOne p).position.strategyId e.strategyId = plan.signal.strategyId
    rw [hrecovered, ← hplan.strategyId]
    exact strOr_strOr ho.strategyId
  initialStop := by
    show priceOr e.stopLoss _ = plan.signal.stopPrice
    rw [hplan.stopLoss]
    exact if_neg (ne_of_gt plan.signal.stop_pos)
  legs := by
    show planLegs (setup.instruments.get p.instrument) p.size e.ladder.1 e.ladder.2 = _
    rw [ladder_ofPlan hplan, ho.instrument, hplan.instrument]

theorem resumeOne_open (barIndex : ℤ) (reattach : Bool) (t : ManagerTurn σ) (r : RecoveredPosition)
    (hkey : r.brokerRef = r.position.venueRef.getD "") :
    (setup.resumeOne barIndex reattach t r).manager.book.open_ = t.manager.book.open_ ++
      (if r.brokerRef = "" then [] else (r.intent.map fun intent =>
        setup.rebuild r.position intent barIndex (t.manager.book.seq + 1)).toList) := by
  have href : strOr r.brokerRef (r.position.venueRef.getD "") = r.brokerRef := by
    unfold strOr
    split_ifs with h
    · rw [h, ← hkey, h]
    · rfl
  unfold ManagerSetup.resumeOne
  dsimp only
  rw [href]
  by_cases hempty : r.brokerRef = ""
  · rw [if_pos hempty, if_pos hempty, List.append_nil]
  · rw [if_neg hempty, if_neg hempty]
    cases r.intent with
    | none => exact (List.append_nil _).symm
    | some intent =>
      dsimp only
      split_ifs
      · rw [ManagerSetup.instructAmend_manager]
        split_ifs
        · have hown : (setup.rebuild r.position intent barIndex
              (t.manager.book.seq + 1)).position.venueRef.getD "" = r.brokerRef := hkey.symm
          rw [hown]
          unfold ManagerSetup.recordLevels ManagerSetup.takeBack
          dsimp only [ManagerTurn.diverge_manager, ManagerTurn.onManager_manager]
          rw [Dict.get_set_self]
          rfl
        · rfl
      · rfl

theorem mem_resume {recovered : List RecoveredPosition}
    (hkeys : ∀ r ∈ recovered, r.brokerRef = r.position.venueRef.getD "") {r : RecoveredPosition}
    (hr : r ∈ recovered) (hne : r.brokerRef ≠ "") (he : r.intent = some e)
    (m : VenuePositionManager) (barIndex : ℤ) (reattach : Bool) (w : World σ) :
    ∃ seq, setup.rebuild r.position e barIndex seq ∈
      (setup.resume m recovered barIndex reattach w).manager.book.open_ := by
  unfold ManagerSetup.resume
  generalize ManagerTurn.start m w = t
  have hgrow : ∀ (rs : List RecoveredPosition) (t : ManagerTurn σ),
      (∀ r ∈ rs, r.brokerRef = r.position.venueRef.getD "") → ∀ op ∈ t.manager.book.open_,
        op ∈ (rs.foldl (setup.resumeOne barIndex reattach) t).manager.book.open_ := by
    intro rs
    induction rs with
    | nil => exact fun t _ op hop => hop
    | cons x rs ih =>
      intro t hrs op hop
      rw [List.foldl_cons]
      apply ih _ fun y hy => hrs y (List.mem_cons_of_mem _ hy)
      rw [resumeOne_open setup barIndex reattach t x (hrs x List.mem_cons_self)]
      exact List.mem_append_left _ hop
  induction recovered generalizing t with
  | nil => cases hr
  | cons x rs ih =>
    have htail := fun y hy => hkeys y (List.mem_cons_of_mem _ hy)
    rw [List.foldl_cons]
    rcases List.mem_cons.1 hr with rfl | hr
    · refine ⟨t.manager.book.seq + 1, hgrow rs _ htail _ ?_⟩
      rw [resumeOne_open setup barIndex reattach t r (hkeys r List.mem_cons_self), if_neg hne, he]
      exact List.mem_append_right _ List.mem_cons_self
    · exact ih htail hr _

end Resumed

section Startup

variable {σ τ : Type} (svc : ExecutionService σ) (setup : ManagerSetup τ) (now : Timestamp)
  (w : World σ)

/-- What `resume` is handed of a recovery. -/
def recoveredPositions : List RecoveredPosition :=
  (svc.recover now w).1.positions.map RecoveredRecord.toRecoveredPosition

/-- Every position that an entry on record opened is recovered with that entry, and is put
back with the direction, the stop, the ladder and the strategy of its plan. -/
def RestoresEntries : Prop :=
  ∀ p ∈ svc.heldPositions (svc.reconcile now w).2, ∀ e, OpenedBy (svc.reconcile now w).2.store p e →
      (∀ r ∈ (svc.recover now w).1.positions, r.brokerRef = p.venueRef.getD "" →
        r.intent = some e) ∧
      ∃ plan, OfPlan plan e ∧ ∀ m barIndex reattach v,
        ∃ op ∈ (setup.resume m (recoveredPositions svc now w) barIndex reattach
          v).manager.book.open_,
          Restored setup plan p op

def EntriesLast : Prop :=
  ∀ p ∈ svc.heldPositions (svc.reconcile now w).2, ∀ e,
    OpenedBy (svc.reconcile now w).2.store p e → EntryLast (svc.reconcile now w).2.store p e

variable {w}

theorem reached_reconcile (h : Reached w.store) : Reached (svc.reconcile now w).2.store := by
  unfold ExecutionService.reconcile
  rcases svc.adapter.orders w.venue with ⟨exc | orders, venue⟩
  · exact h
  · dsimp only
    rcases svc.adapter.positions venue with ⟨exc | positions, venue'⟩
    · exact h
    · exact .reconcile w.store now orders h

theorem restoresEntries_iff (h : Reached w.store) :
    RestoresEntries svc setup now w ↔ EntriesLast svc now w := by
  have hreached := reached_reconcile svc now h
  constructor
  · intro hall p hp e ho
    have hmem : (svc.reconcile now w).2.store.recoverOne p ∈ (svc.recover now w).1.positions :=
      List.mem_map_of_mem hp
    exact (recoverOne_intent ho).1 ((hall p hp e ho).1 _ hmem rfl)
  · intro hlast p hp e ho
    have hjoin := (recoverOne_intent ho).2 (hlast p hp e ho)
    obtain ⟨plan, hplan⟩ := hreached.ofPlan ho.stored ho.isEntry
    refine ⟨?_, plan, hplan, ?_⟩
    · intro r hr href
      obtain ⟨q, -, rfl⟩ := List.mem_map.1 hr
      show (svc.reconcile now w).2.store.byRef (q.venueRef.getD "") = some e
      rw [show q.venueRef.getD "" = p.venueRef.getD "" from href]
      exact hjoin
    · intro m barIndex reattach v
      obtain ⟨ref, href, hne⟩ := exists_of_truthy ho.referenced
      have hkeys : ∀ r ∈ recoveredPositions svc now w, r.brokerRef =
        r.position.venueRef.getD "" := by
        intro r hr
        obtain ⟨record, hrecord, rfl⟩ := List.mem_map.1 hr
        obtain ⟨q, -, rfl⟩ := List.mem_map.1 hrecord
        rfl
      have hmem : ((svc.reconcile now w).2.store.recoverOne p).toRecoveredPosition ∈
          recoveredPositions svc now w := List.mem_map_of_mem (List.mem_map_of_mem hp)
      have hkey : ((svc.reconcile now w).2.store.recoverOne p).brokerRef ≠ "" := by
        show p.venueRef.getD "" ≠ ""
        rw [href]
        exact hne
      obtain ⟨seq, hseq⟩ := mem_resume setup hkeys hmem hkey hjoin m barIndex reattach v
      exact ⟨_, hseq, restored_rebuild setup ho hplan hjoin barIndex seq⟩

/-- Startup restores every entry exactly when no instruction sorts after it, as when every
plan id sorts after the exit instructions. -/
theorem entries_restored (h : Reached w.store) :
    (RestoresEntries svc setup now w ↔ EntriesLast svc now w) ∧
      ((∀ p ∈ svc.heldPositions (svc.reconcile now w).2, ∀ e,
        OpenedBy (svc.reconcile now w).2.store p e → firstPlanId ≤ e.planId) →
          RestoresEntries svc setup now w) := by
  have hiff := restoresEntries_iff svc setup now h
  refine ⟨hiff, fun hids => hiff.2 fun p hp e ho => ?_⟩
  exact entryLast_of_planId (reached_reconcile svc now h) ho (hids p hp e ho)

end Startup

open LiveEntries (sampleCall filledAck)
open Frictionless (demoManager)

def planOf (planId : String) : TradePlan := { sampleCall.plan with planId := planId }

def movedPosition : Position := { samplePosition with stopLoss := 3 / 2 }

/-- A venue that fills the entry under `T1`, moves its stop and lists the position. -/
def moving : ExecutionService Unit where
  adapter :=
    { (losesClose []).adapter with
      positions := fun v => (.ok [movedPosition], v)
      amendPosition := fun _ _ _ _ _ v => (.ok (filledAck "T1" truthy_dealt), v) }
  gateway := (losesClose []).gateway
  modeGuard := (losesClose []).modeGuard
  venueUrl := ""
  mode := .paper

def moved (planId : String) : World Unit :=
  (moving.amend samplePosition (some (3 / 2)) none sampleExit 1 "breakeven"
    (moving.submit (planOf planId) "o" sampleCall.context ⟨IntentStore.empty, ()⟩).2).2

theorem reached_moved (planId : String) : Reached (moved planId).store :=
  .amend _ _ _ _ _ _ _ _ (.submit _ _ _ _ _ .empty)

def settled (planId : String) : IntentStore := (moving.reconcile 2 (moved planId)).2.store

/-- What decides, on the records, that `FBK-` and the id is the entry of the moved position. -/
def EntryFacts (planId : String) : Prop :=
  (((settled planId).get ("FBK-" ++ planId)).map fun i =>
      (i.brokerRef, i.extra, i.instrument, i.direction, i.strategyId, i.planId)) =
    some (some "T1", .entry 1 "" [] [], "EURUSD", .long, "s", planId) ∧
  ∀ i ∈ (settled planId).lines, i.clientRef = "FBK-" ++ planId ∨ i.extra = .amend "pos" "breakeven"

instance (planId : String) : Decidable (EntryFacts planId) := inferInstanceAs (Decidable (_ ∧ _))

theorem openedBy_moved {planId : String} (h : EntryFacts planId) :
    ∃ e, OpenedBy (settled planId) movedPosition e ∧ e.planId = planId ∧
      e.clientRef = "FBK-" ++ planId := by
  obtain ⟨hentry, hlines⟩ := h
  obtain ⟨e, hget, hfields⟩ := Option.map_eq_some_iff.1 hentry
  simp only [Prod.mk.injEq] at hfields
  obtain ⟨hbroker, hextra, hinstrument, hdirection, hstrategy, hplan⟩ := hfields
  have hkey := clientRef_of_get hget
  refine ⟨e, ⟨by rw [hkey, hget], ?_, rfl, hbroker, ?_, hinstrument.symm, hdirection.symm,
    .inr hstrategy.symm⟩, hplan, hkey⟩
  · unfold IsEntry
    rw [hextra]
    trivial
  · intro i hi hisEntry _
    rcases hlines i (Journal.mem_of_current hi) with hk | hamend
    · rw [hk, hget] at hi
      exact (Option.some.inj hi).symm
    · unfold IsEntry at hisEntry
      rw [hamend] at hisEntry
      exact absurd hisEntry id

/-- The stop was moved, and it is the amendment that recovery joins with the position. -/
theorem amendment_joined : Reached (moved "1").store ∧
      ((moving.recover 2 (moved "1")).1.positions.map fun r => r.intent.map OrderIntent.clientRef) =
        [some "FBK-AMEND-pos-1.5000000000-none"] ∧
      ¬ RestoresEntries moving (demoManager moving.adapter) 2 (moved "1") := by
  have hjoin : ((moving.recover 2 (moved "1")).1.positions.map fun r =>
      r.intent.map OrderIntent.clientRef) = [some "FBK-AMEND-pos-1.5000000000-none"] := by
    decide +kernel
  refine ⟨reached_moved "1", hjoin, fun hall => ?_⟩
  have hfacts : EntryFacts "1" := by decide +kernel
  obtain ⟨e, ho, -, hkey⟩ := openedBy_moved hfacts
  have hintent := (hall movedPosition List.mem_cons_self e ho).1 _ List.mem_cons_self rfl
  have hhead : ((settled "1").recoverOne movedPosition).intent.map OrderIntent.clientRef =
      some "FBK-AMEND-pos-1.5000000000-none" := (List.cons.inj hjoin).1
  have hown : ((settled "1").recoverOne movedPosition).intent = some e := hintent
  rw [hown, Option.map_some, hkey] at hhead
  exact absurd hhead (by decide)

/-- Under a plan id in small letters the entry comes back. -/
theorem entries_restored_moved :
    RestoresEntries moving (demoManager moving.adapter) 2 (moved "plan") ∧
      ∃ e, OpenedBy (settled "plan") movedPosition e := by
  have hfacts : EntryFacts "plan" := by decide +kernel
  obtain ⟨e, ho, hid, hkey⟩ := openedBy_moved hfacts
  refine ⟨(entries_restored moving (demoManager moving.adapter) 2 (reached_moved "plan")).2 ?_, e,
    ho⟩
  intro p hp e' ho'
  have hsame : e' = e := by
    rw [List.mem_singleton.1 hp] at ho'
    exact ho.unique e' ho'.stored ho'.isEntry ho'.brokerRef
  rw [hsame, hid]
  decide

end EntryJoin

end Fiboki
