import Fiboki.Broker.RaisingManager

/-!
Delivery of the closes the venue has not confirmed, over every run of a manager whose calls may
raise.
-/

namespace Fiboki.PendingCloses

open Text ManagerSetup ExecutionService Runs

def recorded {σ : Type} (setup : RaisingSetup σ) : RaisingSetup (σ × List VenueCall) where
  toManagerSetup := setup.toManagerSetup.recording
  rateRefusal := setup.rateRefusal
  contextRefusal p kind w := setup.contextRefusal p kind w.plain

variable {σ : Type} (setup : RaisingSetup σ)

structure Desk (σ : Type) where
  manager : VenuePositionManager
  world : World (σ × List VenueCall)

/-- A call of the manager, or anything that happens to the world without it. -/
inductive Event (σ : Type) where
  | call (c : ManagerCall)
  | elsewhere (change : World (σ × List VenueCall) → World (σ × List VenueCall))

def step (s : Desk σ) : Event σ → Desk σ
  | .call c =>
    let a := (recorded setup).attempt s.manager s.world c
    ⟨a.turn.manager, a.turn.world⟩
  | .elsewhere change => ⟨s.manager, change s.world⟩

def Pending (m : VenuePositionManager) (ref : String) : Prop := m.pendingCloses.get ref ≠ none

abbrev Item := String × Position × String

abbrev Sending (σ : Type) := ManagerAttempt (σ × List VenueCall)

def resend (a : Sending σ) (item : Item) : Sending σ :=
  a.next (recorded setup).retryStops (recorded setup).retryClose item

def push (stillOpen : List ℕ) (a : Sending σ) (leg : ExitLeg) : Sending σ :=
  a.next ((recorded setup).legStops stillOpen) ((recorded setup).pushLeg stillOpen) leg

/-- The gateway is asked about the close of `p`, and forbids it. -/
def Forbidden (p : Position) (w : World (σ × List VenueCall)) : Prop :=
  (recorded setup).contextRefusal p "close" w = none ∧ (recorded setup).exitAllowed p w = false

/-- One pending close, sent again: the adapter is called unless the gateway forbids
it, and the reference is dropped on a confirmation only. -/
structure Redelivered (a : Sending σ) (item : Item) : Prop where
  sent : ¬ Forbidden setup item.2.1 a.turn.world →
    ∃ reply, (resend setup a item).turn.world.calls =
      a.turn.world.calls ++ [.closePosition item.2.1 reply]
  confirmed : Pending a.turn.manager item.1 →
    ¬ Pending (resend setup a item).turn.manager item.1 →
    ∃ reply, Confirmed reply ∧ (resend setup a item).turn.world.calls =
      a.turn.world.calls ++ [.closePosition item.2.1 reply]

/-- The leg closes a position that the venue holds. -/
def Closes (stillOpen : List ℕ) (t : ManagerTurn (σ × List VenueCall)) (leg : ExitLeg)
    (ref : String) (p : Position) : Prop :=
  RaisingSetup.legTarget t leg = some (ref, p) ∧ (leg.final ∨ leg.positionSeq ∉ stillOpen)

/-- A close that is decided now is confirmed or pending afterwards. -/
def Held (stillOpen : List ℕ) (a : Sending σ) (leg : ExitLeg) : Prop :=
  ∀ ref p, Closes stillOpen a.turn leg ref p →
    Pending (push setup stillOpen a leg).turn.manager ref ∨
      ∃ reply, Confirmed reply ∧ (push setup stillOpen a leg).turn.world.calls =
        a.turn.world.calls ++ [.closePosition p reply]

/-- Nothing has raised yet, and the context of the close is built. -/
def Running (a : Sending σ) (p : Position) : Prop :=
  a.raised = none ∧ (recorded setup).contextRefusal p "close" a.turn.world = none

/-- No stored intent refuses the close, and no failure of it reads as a success. -/
structure Unblocked (a : Sending σ) (item : Item) : Prop where
  running : Running setup a item.2.1
  free : a.turn.world.store.blocks (closeClientRef item.2.1.positionId) = false
  plain : ¬ Misread ((recorded setup).closeReply item.2.1 a.turn.world).1

/-- What the manager reads of a close that a stored intent refuses. -/
def alreadyClosing (p : Position) (existing : OrderIntent) : Delivered :=
  .failed (.idempotencyViolation
    ("close for " ++ p.positionId ++ " is already " ++ existing.state.value))

/-- The refusal by a stored intent, or the adapter's failure, reads as a success. -/
def Mistaken (p : Position) (w : World (σ × List VenueCall)) : Prop :=
  (recorded setup).exitAllowed p w = true ∧
    ((∃ existing, w.store.blocking (closeClientRef p.positionId) = some existing ∧
        (alreadyClosing p existing).applied = true) ∨
      w.store.blocking (closeClientRef p.positionId) = none ∧
        Misread ((recorded setup).closeReply p w).1)

def Caught (stillOpen : List ℕ) (a : Sending σ) (leg : ExitLeg) : Prop :=
  ∀ ref p, Closes stillOpen a.turn leg ref p →
    Pending a.turn.manager ref ∨ Running setup a p ∧ ¬ Mistaken setup p a.turn.world

def LeftBy (s : Desk σ) (c : ManagerCall) (ref : String) : Prop :=
  (∃ start, (recorded setup).start s.manager s.world c = some start ∧
      ¬ Pending ((recorded setup).retryPendingCloses start.1).turn.manager ref) ∨
    ∃ positions repair, c = .reconcile positions repair ∧ (byRef positions).get ref = none

/-- Every close that was pending is retried and redelivered, every close decided now is confirmed
or pending, and none leaves otherwise than by a confirmed retry or a listing without it. -/
def Kept (s : Desk σ) : Event σ → Prop
  | .elsewhere _ => True
  | .call c =>
    (∀ start, (recorded setup).start s.manager s.world c = some start →
      (∀ ref, Pending s.manager ref → Pending start.1.turn.manager ref) ∧
        Along (Redelivered setup) (resend setup) start.1
          start.1.turn.manager.pendingCloses.entries ∧
        let retried := (recorded setup).retryPendingCloses start.1
        Along (Held setup (RaisingSetup.stillOpen retried))
          (push setup (RaisingSetup.stillOpen retried)) retried start.2) ∧
    ∀ ref, Pending s.manager ref → ¬ Pending (step setup s (.call c)).manager ref →
      LeftBy setup s c ref

def Meets (s : Desk σ) : Event σ → Prop
  | .elsewhere _ => True
  | .call c => ∀ start, (recorded setup).start s.manager s.world c = some start →
      Along (fun a item => ¬ Forbidden setup item.2.1 a.turn.world → Unblocked setup a item)
          (resend setup) start.1 start.1.turn.manager.pendingCloses.entries ∧
        let retried := (recorded setup).retryPendingCloses start.1
        Along (Caught setup (RaisingSetup.stillOpen retried))
          (push setup (RaisingSetup.stillOpen retried)) retried start.2

variable {τ : Type}

theorem retryClose_eq (setup : ManagerSetup τ) (t : ManagerTurn τ) (item : Item) :
    setup.retryClose t item =
      let out := setup.instructClose t item.2.1 item.2.1.size true .close ("retry:" ++ item.2.2)
      if out.1 then out.2.onManager (·.dropClose item.1) else out.2 := rfl

theorem retryClose_world (setup : ManagerSetup τ) (t : ManagerTurn τ) (item : Item) :
    (setup.retryClose t item).world =
      (setup.sendClose item.2.1 item.2.1.size true ("retry:" ++ item.2.2) t.world).2 := by
  rw [retryClose_eq]
  dsimp only
  split
  · rw [ManagerTurn.onManager_world, instructClose_world]
  · rw [instructClose_world]

theorem retryClose_pendingCloses (setup : ManagerSetup τ) (t : ManagerTurn τ)
    (item : Item) : (setup.retryClose t item).manager.pendingCloses =
      if (setup.sendClose item.2.1 item.2.1.size true ("retry:" ++ item.2.2) t.world).1.applied then
        t.manager.pendingCloses.erase item.1
      else t.manager.pendingCloses := by
  rw [retryClose_eq]
  dsimp only
  rw [instructClose_applied]
  split
  · rw [ManagerTurn.onManager_manager, instructClose_manager]
    rfl
  · rw [instructClose_manager]

variable {ref : String}

theorem pending_retryClose_of_ne (setup : ManagerSetup τ) (t : ManagerTurn τ) (item : Item)
    (h : ref ≠ item.1) : Pending (setup.retryClose t item).manager ref ↔ Pending t.manager ref := by
  unfold Pending
  rw [retryClose_pendingCloses]
  split
  · rw [Dict.get_erase_of_ne _ h]
  · rfl

theorem pending_retryClose_self (setup : ManagerSetup τ) (t : ManagerTurn τ) (item : Item)
    (h : Pending t.manager item.1) :
    Pending (setup.retryClose t item).manager item.1 ↔
      (setup.sendClose item.2.1 item.2.1.size true ("retry:" ++ item.2.2) t.world).1.applied =
        false := by
  unfold Pending
  rw [retryClose_pendingCloses]
  cases (setup.sendClose item.2.1 item.2.1.size true ("retry:" ++ item.2.2) t.world).1.applied with
  | true => simp
  | false =>
    simp only [Bool.false_eq_true, if_false, iff_true]
    exact h

theorem calls_closeSettled (setup : ManagerSetup σ) (p : Position)
    (w : World (σ × List VenueCall)) : (closeSettled setup.recording p w).2.calls =
      w.calls ++ [.closePosition p (setup.recording.closeReply p w).1] := by
  have hvenue : (closeSettled setup.recording p w).2.venue = (setup.recording.closeReply p w).2 :=
    closeSettle_venue _ _ _ _ _
  rw [World.calls, hvenue]
  rfl

theorem applied_refused :
    (⟨false, "risk_gateway_blocked_exit", 1, false, ""⟩ : Delivered).applied = false := by
  decide

variable {setup}

theorem not_confirmed_of_misread {reply : Except Raised OrderAck} (h : Misread reply) :
    ¬ Confirmed reply := by
  cases reply with
  | ok ack => exact fun _ => h
  | error exc => exact h.1

theorem resend_stopped {a : Sending σ} {item : Item} (h : ¬ Running setup a item.2.1) :
    (resend setup a item).turn = a.turn := by
  unfold resend ManagerAttempt.next RaisingSetup.retryStops RaisingSetup.asks
  cases hraised : a.raised with
  | some e => rfl
  | none =>
    cases hrefused : (recorded setup).contextRefusal item.2.1 "close" a.turn.world with
    | some e => rfl
    | none => exact absurd ⟨hraised, hrefused⟩ h

theorem resend_running {a : Sending σ} {item : Item} (h : Running setup a item.2.1) :
    (resend setup a item).turn = (recorded setup).retryClose a.turn item := by
  unfold resend ManagerAttempt.next RaisingSetup.retryStops RaisingSetup.asks
  rw [h.1, h.2]
  rfl

theorem redelivered_iff (a : Sending σ) (item : Item) (hpending : Pending a.turn.manager item.1) :
    Redelivered setup a item ↔
      (¬ Forbidden setup item.2.1 a.turn.world → Unblocked setup a item) := by
  by_cases hrunning : Running setup a item.2.1
  · have hturn := resend_running hrunning
    cases hallow : (recorded setup).exitAllowed item.2.1 a.turn.world with
    | false =>
      have hforbidden : Forbidden setup item.2.1 a.turn.world := ⟨hrunning.2, hallow⟩
      refine iff_of_true ⟨fun h => absurd hforbidden h, fun _ hleft => ?_⟩
        fun h => absurd hforbidden h
      rw [hturn] at hleft
      refine absurd ((pending_retryClose_self _ a.turn item hpending).2 ?_) hleft
      rw [sendClose_refused _ _ hallow]
      exact applied_refused
    | true =>
      have hasked : ¬ Forbidden setup item.2.1 a.turn.world :=
        fun h => absurd (hallow.symm.trans h.2) Bool.true_eq_false_eq_False.elim
      cases hb : a.turn.world.store.blocks (closeClientRef item.2.1.positionId) with
      | true =>
        obtain ⟨existing, -, hexisting⟩ := IntentStore.blocking_of_blocks hb
        constructor
        · intro h
          obtain ⟨reply, hreply⟩ := h.sent hasked
          rw [hturn, retryClose_world, sendClose_blocked _ _ hallow hexisting] at hreply
          simp at hreply
        · intro h
          exact absurd (hb.symm.trans (h hasked).free) Bool.true_eq_false_eq_False.elim
      | false =>
        have hsend := sendClose_sends item.2.1.size ("retry:" ++ item.2.2) hallow
          (IntentStore.blocking_eq_none hb)
        have hcalls : (resend setup a item).turn.world.calls = a.turn.world.calls ++
            [.closePosition item.2.1 ((recorded setup).closeReply item.2.1 a.turn.world).1] := by
          rw [hturn, retryClose_world, hsend]
          exact calls_closeSettled setup.toManagerSetup item.2.1 a.turn.world
        have happlied : ¬ Pending (resend setup a item).turn.manager item.1 ↔
            Confirmed ((recorded setup).closeReply item.2.1 a.turn.world).1 ∨
              Misread ((recorded setup).closeReply item.2.1 a.turn.world).1 := by
          rw [hturn, pending_retryClose_self _ _ _ hpending, hsend, Bool.not_eq_false]
          exact closeSettle_applied _ _ _ _ _
        constructor
        · intro h _
          refine ⟨hrunning, hb, fun hmis => ?_⟩
          obtain ⟨reply, hconf, hreply⟩ := h.confirmed hpending (happlied.2 (.inr hmis))
          rw [hcalls] at hreply
          obtain rfl : ((recorded setup).closeReply item.2.1 a.turn.world).1 = reply := by
            simpa using hreply
          exact not_confirmed_of_misread hmis hconf
        · intro h
          refine ⟨fun _ => ⟨_, hcalls⟩, fun _ hleft => ⟨_, ?_, hcalls⟩⟩
          exact (happlied.1 hleft).resolve_right (h hasked).plain
  · have hturn := resend_stopped hrunning
    constructor
    · intro h hasked
      obtain ⟨reply, hreply⟩ := h.sent hasked
      rw [hturn] at hreply
      simp at hreply
    · intro h
      refine ⟨fun hasked => absurd (h hasked).running hrunning, fun _ hleft => ?_⟩
      rw [hturn] at hleft
      exact absurd hpending hleft

theorem along_resend_iff (items : List Item) (a : Sending σ)
    (hnodup : (items.map Prod.fst).Nodup)
    (hpending : ∀ item ∈ items, Pending a.turn.manager item.1) :
    Along (Redelivered setup) (resend setup) a items ↔
      Along (fun a item => ¬ Forbidden setup item.2.1 a.turn.world → Unblocked setup a item)
        (resend setup) a items := by
  induction items generalizing a with
  | nil => simp
  | cons item items ih =>
    obtain ⟨hnot, hrest⟩ := List.nodup_cons.1 hnodup
    simp only [along_cons, redelivered_iff a item (hpending item (by simp))]
    refine and_congr_right fun _ => ih _ hrest ?_
    intro other hother
    have hne : other.1 ≠ item.1 := fun h => hnot (h ▸ List.mem_map_of_mem hother)
    have hbefore := hpending other (List.mem_cons_of_mem _ hother)
    by_cases hrunning : Running setup a item.2.1
    · rw [resend_running hrunning]
      exact (pending_retryClose_of_ne _ a.turn item hne).2 hbefore
    · rwa [resend_stopped hrunning]

section Final

variable {stillOpen : List ℕ} {a : Sending σ} {leg : ExitLeg} {p : Position}

theorem push_stopped (hcloses : Closes stillOpen a.turn leg ref p) (h : ¬ Running setup a p) :
    (push setup stillOpen a leg).turn = a.turn := by
  unfold push ManagerAttempt.next RaisingSetup.legStops RaisingSetup.asks
  rw [hcloses.1]
  simp only [Option.bind_some, if_pos hcloses.2]
  cases hraised : a.raised with
  | some e => rfl
  | none =>
    cases hrefused : (recorded setup).contextRefusal p "close" a.turn.world with
    | some e => rfl
    | none => exact absurd ⟨hraised, hrefused⟩ h

theorem push_running (hcloses : Closes stillOpen a.turn leg ref p) (h : Running setup a p) :
    (push setup stillOpen a leg).turn = (recorded setup).pushFinal a.turn leg ref p := by
  unfold push ManagerAttempt.next RaisingSetup.legStops RaisingSetup.asks
  rw [hcloses.1, h.1]
  simp only [Option.bind_some, if_pos hcloses.2, h.2, Option.map_none]
  obtain ⟨htarget, hfinal⟩ := hcloses
  unfold RaisingSetup.legTarget at htarget
  obtain ⟨r, hr, htarget⟩ := Option.bind_eq_some_iff.1 htarget
  split_ifs at htarget with hempty
  obtain ⟨position, hposition, heq⟩ := Option.map_eq_some_iff.1 htarget
  obtain ⟨rfl, rfl⟩ := Prod.mk.inj heq
  unfold pushLeg
  simp only [hr, if_neg hempty, hposition, if_pos hfinal]

theorem pending_pushFinal (setup : ManagerSetup τ) (t : ManagerTurn τ) :
    Pending (setup.pushFinal t leg ref p).manager ref ↔ Pending t.manager ref ∨
      (setup.sendClose p p.size true leg.exitReason t.world).1.applied = false := by
  unfold pushFinal Pending
  dsimp only
  rw [instructClose_applied]
  cases (setup.sendClose p p.size true leg.exitReason t.world).1.applied with
  | true =>
    simp only [if_true, ManagerTurn.onManager_manager, instructClose_manager, Bool.true_eq_false,
      or_false]
    rfl
  | false =>
    simp [VenuePositionManager.keepClose]

theorem pushFinal_world (setup : ManagerSetup τ) (t : ManagerTurn τ) :
    (setup.pushFinal t leg ref p).world =
      (setup.sendClose p p.size true leg.exitReason t.world).2 := by
  unfold pushFinal
  dsimp only
  split <;> simp only [ManagerTurn.onManager_world, instructClose_world]

theorem held_iff : Held setup stillOpen a leg ↔ Caught setup stillOpen a leg := by
  refine forall_congr' fun ref => forall_congr' fun p => imp_congr_right fun hcloses => ?_
  by_cases hrunning : Running setup a p
  · rw [push_running hcloses hrunning, pending_pushFinal, pushFinal_world, or_assoc]
    refine or_congr_right ?_
    simp only [hrunning, true_and]
    cases hallow : (recorded setup).exitAllowed p a.turn.world with
    | false =>
      rw [sendClose_refused _ _ hallow]
      exact iff_of_true (.inl applied_refused)
        fun h => absurd (hallow.symm.trans h.1) Bool.false_ne_true
    | true =>
      cases hb : a.turn.world.store.blocking (closeClientRef p.positionId) with
      | some existing =>
        rw [sendClose_blocked _ _ hallow hb]
        simp [Mistaken, hallow, hb, alreadyClosing]
      | none =>
        have hcalls : (closeSettled (recorded setup).toManagerSetup p a.turn.world).2.calls =
            a.turn.world.calls ++
              [.closePosition p ((recorded setup).closeReply p a.turn.world).1] :=
          calls_closeSettled setup.toManagerSetup p a.turn.world
        rw [sendClose_sends _ _ hallow hb]
        dsimp only
        rw [hcalls]
        have happlied : (Delivered.ofSubmit (closeSettled (recorded setup).toManagerSetup p
              a.turn.world).1).applied = true ↔
            Confirmed ((recorded setup).closeReply p a.turn.world).1 ∨
              Misread ((recorded setup).closeReply p a.turn.world).1 :=
          closeSettle_applied _ _ _ _ _
        have hmistaken : Mistaken setup p a.turn.world ↔
            Misread ((recorded setup).closeReply p a.turn.world).1 := by
          simp [Mistaken, hallow, hb]
        rw [hmistaken]
        constructor
        · rintro (hnot | ⟨reply, hconf, hreply⟩) hmis
          · exact absurd (hnot.symm.trans (happlied.2 (.inr hmis))) Bool.false_ne_true
          · obtain rfl : ((recorded setup).closeReply p a.turn.world).1 = reply := by
              simpa using hreply
            exact not_confirmed_of_misread hmis hconf
        · intro hplain
          cases happ : (Delivered.ofSubmit (closeSettled (recorded setup).toManagerSetup p
              a.turn.world).1).applied with
          | false => exact .inl rfl
          | true => exact .inr ⟨_, (happlied.1 happ).resolve_right hplain, rfl⟩
  · rw [push_stopped hcloses hrunning]
    simp [hrunning]

end Final

section Keeps

variable {τ : Type} (setup : ManagerSetup τ) {t : ManagerTurn τ} {ref : String}

variable {m : VenuePositionManager}

theorem pending_keepClose (h : Pending m ref) (ref' : String) (p : Position)
    (r : String) : Pending (m.keepClose ref' p r) ref := by
  unfold Pending VenuePositionManager.keepClose
  dsimp only
  rw [Dict.get_set]
  split
  · simp
  · exact h

theorem pending_takeEntry (h : Pending t.manager ref) (event : EntryEvent) :
    Pending (setup.takeEntry t event).manager ref := by
  unfold takeEntry
  cases t.manager.pendingOrders.get event.pending.seq with
  | none => exact h
  | some order =>
    dsimp only
    split
    · exact h
    · unfold closeStray
      split
      · exact h
      · dsimp only
        split
        · simp only [ManagerTurn.diverge_manager, instructClose_manager]
          exact h
        · simp only [ManagerTurn.diverge_manager, ManagerTurn.onManager_manager,
            instructClose_manager]
          exact pending_keepClose (by exact h) _ _ _

theorem pending_pushLeg (h : Pending t.manager ref) (stillOpen : List ℕ) (leg : ExitLeg) :
    Pending (setup.pushLeg stillOpen t leg).manager ref := by
  unfold pushLeg
  cases t.manager.refBySeq.get leg.positionSeq with
  | none => exact h
  | some r =>
    dsimp only
    by_cases hr : r = ""
    · rw [if_pos hr]
      exact h
    · rw [if_neg hr]
      cases t.manager.venuePositions.get r with
      | none => exact h
      | some position =>
        dsimp only
        split
        · unfold pushFinal
          dsimp only
          split
          · simp only [ManagerTurn.onManager_manager, instructClose_manager]
            exact h
          · simp only [ManagerTurn.onManager_manager, instructClose_manager]
            exact pending_keepClose (by exact h) _ _ _
        · unfold pushPartial
          dsimp only
          split
          · simp only [ManagerTurn.onManager_manager, instructClose_manager]
            exact h
          · unfold Pending
            rw [instructAmend_pendingCloses]
            simp only [ManagerTurn.onManager_manager, instructClose_manager]
            exact h

theorem pending_pushLevel (h : Pending t.manager ref) (op : ManagedPosition) :
    Pending (setup.pushLevel t op).manager ref := by
  unfold pushLevel
  dsimp only
  split
  · exact h
  · split
    · exact h
    · unfold Pending
      rw [instructAmend_pendingCloses]
      exact h

theorem pending_reconcileOne (h : Pending t.manager ref) (listed : Dict String Position)
    (repair : Bool) (item : String × ManagedPosition) :
    Pending (setup.reconcileOne listed repair t item).manager ref := by
  unfold reconcileOne
  dsimp only
  split
  · exact h
  · split
    · exact h
    · split
      · unfold Pending
        dsimp only
        rw [instructAmend_pendingCloses]
        exact h
      · exact h

theorem pending_dropUnlisted {listed : Dict String Position} (h : Pending m ref)
    (hleft : ¬ Pending (dropUnlisted m listed) ref) : listed.get ref = none := by
  by_contra hlisted
  refine hleft ?_
  unfold Pending dropUnlisted
  refine exec_invariant (I := fun d : Dict String (Position × String) => d.get ref ≠ none)
    (fun d r hd => ?_) h m.pendingCloses.keys
  split
  · exact hd
  · rename_i hr
    have hne : ref ≠ r := by
      rintro rfl
      exact hr (Option.isSome_iff_ne_none.2 hlisted)
    rw [Dict.get_erase_of_ne _ hne]
    exact hd

theorem pending_adopt (h : Pending m ref) (instruments : Registry) (latencyBars : ℕ) (order : Order)
    (ack : OrderAck) (strategyId positionId : String)
    (clock : Timestamp) :
    Pending (m.adopt instruments latencyBars order ack strategyId positionId clock).2 ref := by
  unfold VenuePositionManager.adopt
  split
  · exact h
  · split
    · exact h
    · exact h

end Keeps

section Stops

variable {setup : RaisingSetup τ} {t t' : ManagerTurn τ} {e : String}

theorem asks_eq {p : Position} {kind : String} (h : setup.asks t p kind = some (e, t')) :
    t' = t := by
  obtain ⟨_, -, heq⟩ := Option.map_eq_some_iff.1 h
  exact (Prod.mk.inj heq).2.symm

theorem pending_entryStops {event : EntryEvent} (hp : Pending t.manager ref)
    (h : setup.entryStops t event = some (e, t')) : Pending t'.manager ref := by
  unfold RaisingSetup.entryStops at h
  split at h
  · cases h
  · split at h
    · cases h
    · cases h
    · rw [asks_eq h]
      exact hp

theorem pending_legStops {stillOpen : List ℕ} {leg : ExitLeg} (hp : Pending t.manager ref)
    (h : setup.legStops stillOpen t leg = some (e, t')) : Pending t'.manager ref := by
  obtain ⟨⟨r, p⟩, -, h⟩ := Option.bind_eq_some_iff.1 h
  dsimp only at h
  split at h
  · rwa [asks_eq h]
  · rcases Option.or_eq_some_iff.1 h with h | ⟨-, h⟩
    · rwa [asks_eq h]
    · obtain ⟨managed, -, h⟩ := Option.bind_eq_some_iff.1 h
      rw [asks_eq h, ManagerTurn.onManager_manager, instructClose_manager]
      exact hp

theorem pending_levelStops {op : ManagedPosition} (hp : Pending t.manager ref)
    (h : setup.levelStops t op = some (e, t')) : Pending t'.manager ref := by
  unfold RaisingSetup.levelStops at h
  dsimp only at h
  split_ifs at h
  rwa [asks_eq h]

theorem pending_reconcileStops {listed : Dict String Position} {repair : Bool}
    {item : String × ManagedPosition} (hp : Pending t.manager ref)
    (h : setup.reconcileStops listed repair t item = some (e, t')) : Pending t'.manager ref := by
  obtain ⟨venue, -, h⟩ := Option.bind_eq_some_iff.1 h
  split_ifs at h
  rw [asks_eq h]
  exact hp

variable {E : Type} {stops : ManagerTurn τ → E → Option (String × ManagerTurn τ)}
  {f : ManagerTurn τ → E → ManagerTurn τ} {a : ManagerAttempt τ}

theorem pending_each (hf : ∀ t item, Pending t.manager ref → Pending (f t item).manager ref)
    (hstops : ∀ t item e t', Pending t.manager ref → stops t item = some (e, t') →
      Pending t'.manager ref)
    (h : Pending a.turn.manager ref) (items : List E) :
    Pending (a.each stops f items).turn.manager ref :=
  exec_invariant (I := fun a : ManagerAttempt τ => Pending a.turn.manager ref)
    (ManagerAttempt.next_invariant (I := fun t => Pending t.manager ref) hf hstops) h items

theorem pending_pushCloses (h : Pending a.turn.manager ref) (legs : List ExitLeg) :
    Pending (setup.pushCloses a legs).turn.manager ref :=
  pending_each (fun _ leg ht => pending_pushLeg _ ht _ leg)
    (fun _ _ _ _ ht hs => pending_legStops ht hs) h legs

theorem pending_pushLevels (h : Pending a.turn.manager ref) :
    Pending (setup.pushLevels a).turn.manager ref :=
  pending_each (fun _ op ht => pending_pushLevel _ ht op)
    (fun _ _ _ _ ht hs => pending_levelStops ht hs) h _

variable {m : VenuePositionManager} {w : World τ}

theorem pending_decided {stops : Option (String × VenuePositionManager)}
    {out : Except String (AdvanceResult × BarSlice) × VenuePositionManager} (h : Pending m ref)
    (hstops : ∀ e m', stops = some (e, m') → m'.pendingCloses = m.pendingCloses)
    (hout : out.2.pendingCloses = m.pendingCloses) :
    Pending (RaisingSetup.decided m w stops out).1.turn.manager ref := by
  obtain ⟨outcome, m'⟩ := out
  cases stops with
  | some stop => exact (congrArg (Dict.get · ref) (hstops stop.1 stop.2 rfl)).trans_ne h
  | none => cases outcome <;> exact (congrArg (Dict.get · ref) hout).trans_ne h

theorem pending_start {c : ManagerCall} {start : ManagerAttempt τ × List ExitLeg}
    (h : Pending m ref)
    (hstart : setup.start m w c = some start) : Pending start.1.turn.manager ref := by
  cases c with
  | onBar bars barIndex timestamp series =>
    obtain rfl := Option.some.inj hstart
    refine pending_each (fun _ event ht => pending_takeEntry _ ht event)
      (fun _ _ _ _ ht hs => pending_entryStops ht hs) (pending_decided h ?_ rfl) _
    intro e m' hstops
    obtain ⟨_, -, hstops⟩ := Option.bind_eq_some_iff.1 hstops
    obtain ⟨_, -, heq⟩ := Option.map_eq_some_iff.1 hstops
    rw [← (Prod.mk.inj heq).2]
  | flatten bars reason which =>
    obtain rfl := Option.some.inj hstart
    refine pending_decided h ?_ ?_
    · intro e m' hstops
      obtain ⟨_, -, hstops⟩ := Option.bind_eq_some_iff.1 hstops
      obtain ⟨_, -, heq⟩ := Option.map_eq_some_iff.1 hstops
      rw [← (Prod.mk.inj heq).2]
    · unfold flattenBook
      split <;> rfl
  | _ => cases hstart

end Stops

variable {c : ManagerCall} {s : Desk σ}

theorem left_by (h : Pending s.manager ref)
    (hleft : ¬ Pending (step setup s (.call c)).manager ref) : LeftBy setup s c ref := by
  cases c with
  | onBar bars barIndex timestamp series =>
    exact .inl ⟨_, rfl, fun hkept =>
      hleft (pending_pushLevels (pending_pushCloses hkept _))⟩
  | flatten bars reason which =>
    exact .inl ⟨_, rfl, fun hkept => hleft (pending_pushCloses hkept _)⟩
  | adopt order ack strategyId positionId =>
    exact absurd (pending_adopt h _ _ _ _ _ _ _) hleft
  | precheckEntry instrument bump =>
    refine absurd ?_ hleft
    simp only [step, RaisingSetup.attempt, ManagerSetup.call, VenuePositionManager.precheckEntry]
    split
    · exact h
    · split <;> exact h
  | account =>
    refine absurd ?_ hleft
    simp only [step, RaisingSetup.attempt, ManagerSetup.call, VenuePositionManager.account]
    split <;> exact h
  | reconcile positions repair =>
    right
    refine ⟨positions, repair, rfl, ?_⟩
    have hloop : Pending ((ManagerAttempt.mk (.start s.manager s.world) none).each
        ((recorded setup).reconcileStops (byRef positions) repair)
        ((recorded setup).reconcileOne (byRef positions) repair)
        s.manager.managedByRef.entries).turn.manager ref :=
      pending_each (fun _ item ht => pending_reconcileOne _ ht _ _ item)
        (fun _ _ _ _ ht hs => pending_reconcileStops ht hs) h _
    simp only [step, RaisingSetup.attempt] at hleft
    split_ifs at hleft
    · exact absurd hloop hleft
    · exact pending_dropUnlisted hloop hleft
  | setBarInterval symbol interval => exact absurd h hleft

theorem kept_iff_meets (s : Desk σ) (e : Event σ) : Kept setup s e ↔ Meets setup s e := by
  cases e with
  | elsewhere change => exact Iff.rfl
  | call c =>
    have hitems : ∀ start, (recorded setup).start s.manager s.world c = some start →
        (Along (Redelivered setup) (resend setup) start.1
            start.1.turn.manager.pendingCloses.entries ↔
          Along (fun a item => ¬ Forbidden setup item.2.1 a.turn.world → Unblocked setup a item)
            (resend setup) start.1 start.1.turn.manager.pendingCloses.entries) := by
      intro start _
      refine along_resend_iff _ start.1 ?_ fun item hitem => ?_
      · exact Dict.nodup_keys start.1.turn.manager.pendingCloses
      · exact fun hnone => absurd ((Dict.mem_entries.1 hitem).symm.trans hnone) (by simp)
    have hlegs : ∀ (a : Sending σ) (legs : List ExitLeg),
        Along (Held setup (RaisingSetup.stillOpen a)) (push setup (RaisingSetup.stillOpen a)) a
            legs ↔
          Along (Caught setup (RaisingSetup.stillOpen a)) (push setup (RaisingSetup.stillOpen a)) a
            legs :=
      fun a legs => along_iff_of_invariant (I := fun _ => True) (fun _ _ _ _ => trivial)
        (fun _ _ _ => held_iff) trivial legs
    constructor
    · intro h start hstart
      obtain ⟨-, hredelivered, hheld⟩ := h.1 start hstart
      exact ⟨(hitems start hstart).1 hredelivered, (hlegs _ _).1 hheld⟩
    · intro h
      refine ⟨fun start hstart => ?_, fun ref href hleft => left_by href hleft⟩
      obtain ⟨hunblocked, hcaught⟩ := h start hstart
      exact ⟨fun ref href => pending_start href hstart, (hitems start hstart).2 hunblocked,
        (hlegs _ _).2 hcaught⟩

/-- In every run, from any state: every pending close is delivered until the venue is flat if and
only if no bar raises before a close that the gateway does not forbid is sent, no stored intent
refuses a retry, and no failure reads as a success. -/
theorem closes_delivered_iff (setup : RaisingSetup σ) (s : Desk σ) (es : List (Event σ)) :
    Along (Kept setup) (step setup) s es ↔ Along (Meets setup) (step setup) s es :=
  along_iff_of_invariant (I := fun _ => True) (fun _ _ _ _ => trivial)
    (fun s e _ => kept_iff_meets s e) trivial es

section TimedOut

open Frictionless

theorem truthy_second : truthy (some "T2") = true := by decide

def losesCloses : BrokerAdapter Unit where
  venueName := "venue"
  orders v := (.ok [], v)
  positions v := (.ok [], v)
  placeOrder _ v := (.ok (ackOf "T1" truthy_first), v)
  closePosition _ _ _ v := (.error ⟨.brokerUnavailable, "timeout"⟩, v)
  amendPosition _ _ _ _ _ v := (.ok (ackOf "T1" truthy_first), v)
  closePartial _ _ _ _ v := (.error ⟨.brokerUnavailable, "timeout"⟩, v)

def barCall (index : ℤ) (price : ℚ) : ManagerCall :=
  .onBar (barsAt "EURUSD" (index * hourNs) price) index none noSeries

def freshDesk : Desk Unit := ⟨.fresh 100, ⟨IntentStore.empty, (), []⟩⟩

/-- A manager whose sources always answer. -/
def answering (setup : ManagerSetup σ) : RaisingSetup σ where
  toManagerSetup := setup
  rateRefusal _ _ := none
  contextRefusal _ _ _ := none

def stoppedOut : List (Event Unit) :=
  [.call (barCall 0 2), .call (.adopt order (ackOf "T1" truthy_first) "s" "pos_1"),
    .call (barCall 1 2), .call (barCall 2 1)]

/-- The first close times out and stays pending; on the next bar the gateway
allows the exit and the adapter is not called. -/
theorem timed_out_close_not_resent :
    let setup := answering (demoManager losesCloses)
    let s := exec (step setup) freshDesk stoppedOut
    let s' := step setup s (.call (barCall 3 1))
    s.manager.pendingCloses.keys = ["T1"] ∧ s'.manager.pendingCloses.keys = ["T1"] ∧
      s.world.calls.length = 1 ∧ s'.world.calls.length = 1 ∧
      ¬ Along (Kept setup) (step setup) freshDesk (stoppedOut ++ [.call (barCall 3 1)]) := by
  refine ⟨by decide +kernel, by decide +kernel, by decide +kernel, by decide +kernel, fun h => ?_⟩
  have hmeets := (kept_iff_meets _ _).1 h.at_last
  have hitems : ((recorded (answering (demoManager losesCloses))).start
      (exec (step (answering (demoManager losesCloses))) freshDesk stoppedOut).manager
      (exec (step (answering (demoManager losesCloses))) freshDesk stoppedOut).world
      (barCall 3 1)).map (fun start => start.1.turn.manager.pendingCloses.entries.map fun item =>
        ((recorded (answering (demoManager losesCloses))).exitAllowed item.2.1 start.1.turn.world,
          start.1.turn.world.store.blocks (closeClientRef item.2.1.positionId))) =
            some [(true, true)] := by
    decide +kernel
  obtain ⟨start, hstart, hentries⟩ := Option.map_eq_some_iff.1 hitems
  have halong := (hmeets start hstart).1
  generalize start.1.turn.manager.pendingCloses.entries = items at hentries halong
  match items with
  | [] => cases hentries
  | item :: items =>
    simp only [List.map_cons, List.cons.injEq, Prod.mk.injEq] at hentries
    have hasked : ¬ Forbidden (answering (demoManager losesCloses)) item.2.1
        start.1.turn.world :=
      fun hforbidden => Bool.false_ne_true (hforbidden.2.symm.trans hentries.1.1)
    exact absurd ((halong.1 hasked).free.symm.trans hentries.1.2) Bool.false_ne_true

/-- The calendar no longer covers the present: no context is built. -/
def uncovered : RaisingSetup Unit where
  toManagerSetup := demoManager losesCloses
  rateRefusal _ _ := none
  contextRefusal _ _ _ := some "CalendarError: the event calendar does not cover this moment"

/-- The book has closed the position, the venue is told nothing, and nothing is pending. -/
theorem close_lost_with_its_context :
    let s := exec (step uncovered) freshDesk stoppedOut
    s.manager.book.open_.length = 0 ∧ s.manager.venuePositions.keys = ["T1"] ∧
      s.manager.pendingCloses.keys = [] ∧ s.world.calls.length = 0 :=
  ⟨by decide +kernel, by decide +kernel, by decide +kernel, by decide +kernel⟩

end TimedOut

end Fiboki.PendingCloses
