import Fiboki.Broker.VenueCalls
import Fiboki.Lib.Run

/-!
The scale-outs of the book at the venue, over runs of bars and adoptions.

The size recorded for a reference is compared with the size the venue holds.
What keeps the two together is that every reference has one owner: a pending
order, or a position of the book.
-/

namespace Fiboki.ScaleOuts

open Text ManagerSetup ExecutionService Runs

variable {σ : Type}

/-- A venue that does what it is told, and changes sizes in no other way. -/
structure Obedient (adapter : BrokerAdapter σ) (held : σ → String → ℚ) : Prop where
  closes : ∀ p clientRef reason v ref, p.venueRef = some ref →
    held (adapter.closePosition p clientRef reason v).2 = Function.update (held v) ref 0
  reduces : ∀ p size clientRef reason v ref, p.venueRef = some ref → size ≤ held v ref →
    held (adapter.closePartial p size clientRef reason v).2 =
      Function.update (held v) ref (held v ref - size)
  amends : ∀ p stopLoss takeProfit clientRef reason v,
    held (adapter.amendPosition p stopLoss takeProfit clientRef reason v).2 = held v

def VenueCall.reduction : VenueCall → Option (Option String × ℚ)
  | .closePartial p size _ => some (p.venueRef, size)
  | _ => none

def reductions (w : World (σ × List VenueCall)) : List (Option String × ℚ) :=
  w.calls.filterMap VenueCall.reduction

structure Tracks (held : String → ℚ) (m : VenuePositionManager) : Prop where
  orders : ∀ s r i, m.pendingOrders.get s = some (r, i) → r ≠ "" ∧ m.venuePositions.get r ≠ none
  refs : ∀ s r, m.refBySeq.get s = some r → r ≠ "" ∧ m.venuePositions.get r ≠ none
  orders_inj : ∀ s s' r i i', m.pendingOrders.get s = some (r, i) →
    m.pendingOrders.get s' = some (r, i') → s = s'
  refs_inj : ∀ s s' r, m.refBySeq.get s = some r → m.refBySeq.get s' = some r → s = s'
  apart : ∀ s s' r i, m.pendingOrders.get s = some (r, i) → m.refBySeq.get s' ≠ some r
  sizes : ∀ r p, m.venuePositions.get r = some p → p.venueRef = some r ∧ held r = p.size
  closing : ∀ r p why, m.pendingCloses.get r = some (p, why) →
    p.venueRef = some r ∧ m.venuePositions.get r = none

namespace Tracks

variable {held held' : String → ℚ} {m : VenuePositionManager} {r : String}

theorem fresh (held : String → ℚ) (balance : ℚ) : Tracks held (.fresh balance) := by
  constructor <;> intros <;> simp_all [VenuePositionManager.fresh]

variable {m' : VenuePositionManager}

theorem congr (h : Tracks held m) (horders : m'.pendingOrders = m.pendingOrders)
    (hrefs : m'.refBySeq = m.refBySeq)
    (hvenue : m'.venuePositions = m.venuePositions) (hcloses : m'.pendingCloses = m.pendingCloses) :
    Tracks held m' := by
  obtain ⟨h1, h2, h3, h4, h5, h6, h7⟩ := h
  constructor
  · rwa [horders, hvenue]
  · rwa [hrefs, hvenue]
  · rwa [horders]
  · rwa [hrefs]
  · rwa [horders, hrefs]
  · rwa [hvenue]
  · rwa [hcloses, hvenue]

theorem dropOrder (h : Tracks held m) (s : ℕ) : Tracks held (m.dropOrder s) := by
  have hget : ∀ s' v, (m.dropOrder s).pendingOrders.get s' = some v →
      m.pendingOrders.get s' = some v := by
    intro s' v hs
    simp only [VenuePositionManager.dropOrder, Dict.get_erase] at hs
    split at hs
    · cases hs
    · exact hs
  exact { h with
    orders := fun s' r i hs => h.orders s' r i (hget _ _ hs)
    orders_inj := fun a b r i i' ha hb => h.orders_inj a b r i i' (hget _ _ ha) (hget _ _ hb)
    apart := fun a b r i ha => h.apart a b r i (hget _ _ ha) }

theorem dropSeq (h : Tracks held m) (s : ℕ) : Tracks held (m.dropSeq s) := by
  have hget : ∀ s' v, (m.dropSeq s).refBySeq.get s' = some v → m.refBySeq.get s' = some v := by
    intro s' v hs
    simp only [VenuePositionManager.dropSeq, Dict.get_erase] at hs
    split at hs
    · cases hs
    · exact hs
  exact { h with
    refs := fun s' r hs => h.refs s' r (hget _ _ hs)
    refs_inj := fun a b r ha hb => h.refs_inj a b r (hget _ _ ha) (hget _ _ hb)
    apart := fun a b r i ha hb => h.apart a b r i ha (hget _ _ hb) }

theorem dropClose (h : Tracks held m) (ref : String) : Tracks held (m.dropClose ref) := by
  refine { h with closing := fun r p why hr => h.closing r p why ?_ }
  simp only [VenuePositionManager.dropClose, Dict.get_erase] at hr
  split at hr
  · cases hr
  · exact hr

theorem dropVenue (h : Tracks held m) (horders : ∀ s i, m.pendingOrders.get s ≠ some (r, i))
    (hrefs : ∀ s, m.refBySeq.get s ≠ some r) (hheld : ∀ r', r' ≠ r → held' r' = held r') :
    Tracks held' (m.dropVenue r) := by
  have hget : ∀ r', r' ≠ r → (m.dropVenue r).venuePositions.get r' = m.venuePositions.get r' :=
    fun r' hr' => Dict.get_erase_of_ne _ hr'
  refine { h with orders := ?_, refs := ?_, sizes := ?_, closing := ?_ }
  · intro s r' i hs
    have hne : r' ≠ r := fun he => horders s i (he ▸ hs)
    exact ⟨(h.orders s r' i hs).1, by rw [hget r' hne]; exact (h.orders s r' i hs).2⟩
  · intro s r' hs
    have hne : r' ≠ r := fun he => hrefs s (he ▸ hs)
    exact ⟨(h.refs s r' hs).1, by rw [hget r' hne]; exact (h.refs s r' hs).2⟩
  · intro r' p hp
    by_cases hne : r' = r
    · subst hne
      simp [VenuePositionManager.dropVenue] at hp
    · rw [hget r' hne] at hp
      rw [hheld r' hne]
      exact h.sizes r' p hp
  · intro r' p why hr'
    obtain ⟨href, hnone⟩ := h.closing r' p why hr'
    refine ⟨href, ?_⟩
    by_cases hne : r' = r
    · subst hne
      simp [VenuePositionManager.dropVenue]
    · rw [hget r' hne]
      exact hnone

variable {p : Position}

theorem keepClose (h : Tracks held m) (hp : p.venueRef = some r)
    (hnone : m.venuePositions.get r = none) (why : String) : Tracks held (m.keepClose r p why) := by
  refine { h with closing := fun r' p' why' hr' => ?_ }
  simp only [VenuePositionManager.keepClose, Dict.get_set] at hr'
  split at hr'
  · rename_i he
    subst he
    simp only [Option.some.injEq, Prod.mk.injEq] at hr'
    exact ⟨hr'.1 ▸ hp, hnone⟩
  · exact h.closing r' p' why' hr'

theorem setPosition (h : Tracks held m) (p' : Position) (hp : m.venuePositions.get r = some p)
    (href : p'.venueRef = some r) (hself : held' r = p'.size)
    (hheld : ∀ r', r' ≠ r → held' r' = held r')
    (horders : m'.pendingOrders = m.pendingOrders) (hrefs : m'.refBySeq = m.refBySeq)
    (hvenue : m'.venuePositions = m.venuePositions.set r p')
    (hcloses : m'.pendingCloses = m.pendingCloses) : Tracks held' m' := by
  have hget : ∀ r', m.venuePositions.get r' ≠ none → m'.venuePositions.get r' ≠ none := by
    intro r' hr'
    rw [hvenue, Dict.get_set]
    split
    · simp
    · exact hr'
  constructor
  · intro s r' i hs
    rw [horders] at hs
    exact ⟨(h.orders s r' i hs).1, hget r' (h.orders s r' i hs).2⟩
  · intro s r' hs
    rw [hrefs] at hs
    exact ⟨(h.refs s r' hs).1, hget r' (h.refs s r' hs).2⟩
  · rw [horders]
    exact h.orders_inj
  · rw [hrefs]
    exact h.refs_inj
  · rw [horders, hrefs]
    exact h.apart
  · intro r' q hq
    rw [hvenue, Dict.get_set] at hq
    by_cases hr' : r = r'
    · subst hr'
      rw [if_pos rfl] at hq
      obtain rfl := Option.some.inj hq
      exact ⟨href, hself⟩
    · rw [if_neg hr'] at hq
      rw [hheld r' (Ne.symm hr')]
      exact h.sizes r' q hq
  · intro r' q why hq
    rw [hcloses] at hq
    obtain ⟨hq', hnone⟩ := h.closing r' q why hq
    have hne : r ≠ r' := by
      rintro rfl
      rw [hp] at hnone
      cases hnone
    exact ⟨hq', by rw [hvenue, Dict.get_set_of_ne _ _ hne]; exact hnone⟩

theorem linkEntry (h : Tracks held m) (horders : ∀ s i, m.pendingOrders.get s ≠ some (r, i))
    (hrefs : ∀ s, m.refBySeq.get s ≠ some r) (hr : r ≠ "") (hvenue : m.venuePositions.get r ≠ none)
    (seq : ℕ) : Tracks held (m.linkEntry seq r) := by
  have hget : ∀ s r', (m.linkEntry seq r).refBySeq.get s = some r' →
      (seq = s ∧ r = r') ∨ (seq ≠ s ∧ m.refBySeq.get s = some r') := by
    intro s r' hs
    simp only [VenuePositionManager.linkEntry, Dict.get_set] at hs
    split at hs
    · rename_i he
      exact .inl ⟨he, Option.some.inj hs⟩
    · rename_i he
      exact .inr ⟨he, hs⟩
  refine { h with refs := ?_, refs_inj := ?_, apart := ?_ }
  · intro s r' hs
    rcases hget s r' hs with ⟨-, rfl⟩ | ⟨-, hs⟩
    · exact ⟨hr, hvenue⟩
    · exact h.refs s r' hs
  · intro a b r' ha hb
    rcases hget a r' ha with ⟨ha, har⟩ | ⟨-, ha'⟩
    · rcases hget b r' hb with ⟨hb, -⟩ | ⟨-, hb'⟩
      · exact ha.symm.trans hb
      · exact absurd (har ▸ hb') (hrefs b)
    · rcases hget b r' hb with ⟨-, hbr⟩ | ⟨-, hb'⟩
      · exact absurd (hbr ▸ ha') (hrefs a)
      · exact h.refs_inj a b r' ha' hb'
  · intro a b r' i ha hb
    rcases hget b r' hb with ⟨-, rfl⟩ | ⟨-, hb'⟩
    · exact horders a i ha
    · exact h.apart a b r' i ha hb'

end Tracks

section Instructions

variable {setup : ManagerSetup σ} {held : σ → String → ℚ}
  (hobeys : Obedient setup.execution.adapter held)
  {t : ManagerTurn (σ × List VenueCall)} {p : Position} {ref : String}

def sizesAt (held : σ → String → ℚ) (t : ManagerTurn (σ × List VenueCall)) : String → ℚ :=
  held t.world.venue.1

include hobeys

theorem close_full (hp : p.venueRef = some ref) (size : ℚ) (reason : String)
    (w : World (σ × List VenueCall)) :
    (∀ r', r' ≠ ref →
      held (setup.recording.sendClose p size true reason w).2.venue.1 r' = held w.venue.1 r') ∧
    reductions (setup.recording.sendClose p size true reason w).2 = reductions w := by
  cases hallow : setup.recording.exitAllowed p w with
  | false =>
    rw [sendClose_refused _ _ hallow]
    exact ⟨fun _ _ => rfl, rfl⟩
  | true =>
    cases hb : w.store.blocking (closeClientRef p.positionId) with
    | some existing =>
      rw [sendClose_blocked _ _ hallow hb]
      exact ⟨fun _ _ => rfl, rfl⟩
    | none =>
      rw [sendClose_sends _ _ hallow hb]
      have hvenue : (closeSettled setup.recording p w).2.venue =
          (setup.recording.closeReply p w).2 := closeSettle_venue _ _ _ _ _
      constructor
      · intro r' hne
        have hupdate := hobeys.closes p (closeClientRef p.positionId)
          (setup.contextFactory p "close" w.plain).reason w.venue.1 ref hp
        dsimp only
        rw [hvenue]
        exact (congrFun hupdate r').trans (Function.update_of_ne hne _ _)
      · dsimp only
        rw [reductions, World.calls, hvenue]
        exact (List.filterMap_append).trans (List.append_nil _)

theorem amend_keeps (op : ManagedPosition) (desired : VenueIntent) (kind : AmendKind) :
    sizesAt held (setup.recording.instructAmend t op desired kind).2 = sizesAt held t ∧
    reductions (setup.recording.instructAmend t op desired kind).2.world = reductions t.world := by
  refine instructAmend_venue setup.recording
    (R := fun v v' => held v'.1 = held v.1 ∧ v'.2.filterMap VenueCall.reduction =
      v.2.filterMap VenueCall.reduction)
    (fun _ => ⟨rfl, rfl⟩) (fun _ _ _ h h' => ⟨h'.1.trans h.1, h'.2.trans h.2⟩) ?_ t op desired kind
  intro p stopLoss takeProfit clientRef reason v
  refine ⟨hobeys.amends p stopLoss takeProfit clientRef reason v.1, ?_⟩
  exact (List.filterMap_append).trans (List.append_nil _)

theorem tracks_amend (h : Tracks (sizesAt held t) t.manager) (op : ManagedPosition)
    (desired : VenueIntent) (kind : AmendKind) :
    Tracks (sizesAt held (setup.recording.instructAmend t op desired kind).2)
      (setup.recording.instructAmend t op desired kind).2.manager := by
  rw [(amend_keeps hobeys op desired kind).1, instructAmend_manager]
  split
  · unfold recordLevels
    dsimp only
    split
    · rename_i q hq
      obtain ⟨href, hsize⟩ := h.sizes _ _ hq
      exact h.setPosition (levelled q desired) hq href hsize (fun _ _ => rfl) rfl rfl rfl rfl
    · exact h.congr rfl rfl rfl rfl
  · exact h

variable {size : ℚ}

omit hobeys in
theorem reduce_blocked (hallow : ∀ context v, (setup.execution.gateway.evaluateExit context
      v).allowed = true)
    (hb : t.world.store.blocks (partialClientRef p.positionId size) = true) (kind : AmendKind)
    (reason : String) :
    (setup.recording.instructClose t p size false kind reason).2.world = t.world := by
  obtain ⟨existing, -, hexisting⟩ := IntentStore.blocking_of_blocks hb
  rw [instructClose_world]
  exact sendReduce_blocked reason (hallow _ _) hexisting

theorem reduce_sent (hallow : ∀ context v, (setup.execution.gateway.evaluateExit context
      v).allowed = true) (hp : p.venueRef = some ref) (hsize : size ≤ sizesAt held t ref)
    (hb : t.world.store.blocks (partialClientRef p.positionId size) = false) (kind : AmendKind)
    (reason : String) :
    sizesAt held (setup.recording.instructClose t p size false kind reason).2 =
        Function.update (sizesAt held t) ref (sizesAt held t ref - size) ∧
      reductions (setup.recording.instructClose t p size false kind reason).2.world =
        reductions t.world ++ [(some ref, size)] := by
  have hvenue := setup.recording.sendReduce_sends (w := t.world) reason (hallow _ _)
    (IntentStore.blocking_eq_none hb)
  rw [sizesAt, reductions, World.calls, instructClose_world, hvenue]
  constructor
  · exact hobeys.reduces p size _ reason t.world.venue.1 ref hp hsize
  · refine (List.filterMap_append).trans ?_
    rw [← hp]
    rfl

end Instructions

section Bar

variable {setup : ManagerSetup σ} {held : σ → String → ℚ}
  (hobeys : Obedient setup.execution.adapter held)
  {t : ManagerTurn (σ × List VenueCall)}

include hobeys

variable {ref : String} {p : Position}

variable {m : VenuePositionManager}

theorem tracks_closed (reason : String) (h : Tracks (sizesAt held t) t.manager)
    (hp : t.manager.venuePositions.get ref = some p)
    (hm : Tracks (sizesAt held t) m) (horders : ∀ s i, m.pendingOrders.get s ≠ some (ref, i))
    (hrefs : ∀ s, m.refBySeq.get s ≠ some ref) {t' : ManagerTurn (σ × List VenueCall)}
    (hworld : t'.world = (setup.recording.sendClose p p.size true reason t.world).2)
    (hmanager : t'.manager = m.dropVenue ref ∨
      ∃ why, t'.manager = (m.dropVenue ref).keepClose ref p why) :
    Tracks (sizesAt held t') t'.manager := by
  have href := (h.sizes ref p hp).1
  have hsizes : ∀ r', r' ≠ ref → sizesAt held t' r' = sizesAt held t r' := by
    intro r' hne
    rw [sizesAt, hworld]
    exact (close_full hobeys href p.size reason t.world).1 r' hne
  have hdropped := hm.dropVenue horders hrefs hsizes
  rcases hmanager with hmanager | ⟨why, hmanager⟩
  · rw [hmanager]
    exact hdropped
  · rw [hmanager]
    refine hdropped.keepClose href ?_ why
    simp [VenuePositionManager.dropVenue]

theorem tracks_takeEntry (h : Tracks (sizesAt held t) t.manager) (event : EntryEvent) :
    Tracks (sizesAt held (setup.recording.takeEntry t event))
      (setup.recording.takeEntry t event).manager := by
  unfold takeEntry
  cases hget : t.manager.pendingOrders.get event.pending.seq with
  | none => exact h
  | some order =>
    obtain ⟨ref, instrument⟩ := order
    dsimp only
    have hdrop := h.dropOrder event.pending.seq
    have horders : ∀ s i, (t.manager.dropOrder event.pending.seq).pendingOrders.get s ≠
        some (ref, i) := by
      intro s i hs
      simp only [VenuePositionManager.dropOrder, Dict.get_erase] at hs
      split at hs
      · cases hs
      · rename_i hne
        exact hne (h.orders_inj s _ ref i instrument hs hget)
    have hrefs : ∀ s, (t.manager.dropOrder event.pending.seq).refBySeq.get s ≠ some ref :=
      fun s => h.apart _ s ref instrument hget
    have hrecorded := h.orders _ ref instrument hget
    split
    · exact hdrop.linkEntry horders hrefs hrecorded.1 hrecorded.2 _
    · unfold closeStray
      split
      · rename_i hnone
        exact absurd hnone hrecorded.2
      · rename_i p hp
        dsimp only
        refine tracks_closed hobeys ("entry_not_modelled:" ++ event.reason) h hp hdrop
          horders hrefs ?_ ?_
        · split <;> simp
        · split
          · left
            simp
          · right
            exact ⟨_, by simp; rfl⟩

omit hobeys in
theorem dropSeq_free (h : Tracks (sizesAt held t) t.manager) {seq : ℕ}
    (hseq : t.manager.refBySeq.get seq = some ref) (s : ℕ) :
    (t.manager.dropSeq seq).refBySeq.get s ≠ some ref := by
  intro hs
  simp only [VenuePositionManager.dropSeq, Dict.get_erase] at hs
  split at hs
  · cases hs
  · rename_i hne
    exact hne (h.refs_inj s seq ref hs hseq)

variable {leg : ExitLeg}

theorem tracks_pushFinal (h : Tracks (sizesAt held t) t.manager)
    (hseq : t.manager.refBySeq.get leg.positionSeq = some ref)
    (hp : t.manager.venuePositions.get ref = some p) :
    Tracks (sizesAt held (setup.recording.pushFinal t leg ref p))
      (setup.recording.pushFinal t leg ref p).manager := by
  unfold pushFinal
  dsimp only
  refine tracks_closed (m := t.manager.dropSeq leg.positionSeq) hobeys leg.exitReason h hp
    (h.dropSeq _) (fun s i hs => h.apart s _ ref i hs hseq) (dropSeq_free h hseq) ?_ ?_
  · split <;> simp
  · split
    · left
      simp
      rfl
    · right
      exact ⟨_, by simp; rfl⟩

theorem tracks_pushPartial (hallow : ∀ context v, (setup.execution.gateway.evaluateExit context
      v).allowed = true) (h : Tracks (sizesAt held t) t.manager)
    (hp : t.manager.venuePositions.get ref = some p)
    (hfree : t.world.store.blocks (partialClientRef p.positionId leg.size) = false)
    (hsize : leg.size ≤ p.size) :
    Tracks (sizesAt held (setup.recording.pushPartial t leg ref p))
        (setup.recording.pushPartial t leg ref p).manager ∧
      reductions (setup.recording.pushPartial t leg ref p).world =
        reductions t.world ++ [(some ref, leg.size)] := by
  obtain ⟨href, hheld⟩ := h.sizes ref p hp
  unfold pushPartial
  dsimp only
  rw [min_eq_left hsize]
  obtain ⟨hsizes, hreduced⟩ := reduce_sent hobeys hallow href (by rw [hheld]; exact hsize) hfree
    .scaleOut leg.exitReason
  generalize hsent : setup.recording.instructClose t p leg.size false .scaleOut
    leg.exitReason = sent
    at hsizes hreduced ⊢
  have hmanager : sent.2.manager = t.manager := by rw [← hsent, instructClose_manager]
  have hshrunk : Tracks (sizesAt held (sent.2.onManager (·.shrink ref p leg.size)))
      (sent.2.onManager (·.shrink ref p leg.size)).manager := by
    have hself : sizesAt held sent.2 ref = max 0 (p.size - leg.size) := by
      rw [hsizes, Function.update_self, hheld, max_eq_right (sub_nonneg.2 hsize)]
    have hothers : ∀ r', r' ≠ ref → sizesAt held sent.2 r' = sizesAt held t r' := by
      intro r' hne
      rw [hsizes, Function.update_of_ne hne]
    rw [ManagerTurn.onManager_manager, hmanager]
    exact h.setPosition { p with size := max 0 (p.size - leg.size) } hp href hself hothers
      rfl rfl rfl rfl
  split
  · exact ⟨hshrunk, hreduced⟩
  · obtain ⟨-, hkept⟩ := amend_keeps hobeys (t := sent.2.onManager (·.shrink ref p leg.size)) _
      (⟨_, _⟩ : VenueIntent) .nextLeg
    exact ⟨tracks_amend hobeys hshrunk _ _ _, hkept.trans hreduced⟩

theorem tracks_retries (items : List (String × Position × String))
    (h : Tracks (sizesAt held t) t.manager)
    (hitems : ∀ item ∈ items, item.2.1.venueRef = some item.1 ∧
      t.manager.venuePositions.get item.1 = none) :
    Tracks (sizesAt held (items.foldl setup.recording.retryClose t))
      (items.foldl setup.recording.retryClose t).manager := by
  induction items generalizing t with
  | nil => exact h
  | cons item items ih =>
    obtain ⟨href, hnone⟩ := hitems item (by simp)
    have hworld : (setup.recording.retryClose t item).world = (setup.recording.sendClose item.2.1
        item.2.1.size true ("retry:" ++ item.2.2) t.world).2 := by
      unfold retryClose
      dsimp only
      split <;> simp
    have hmanager : (setup.recording.retryClose t item).manager = t.manager ∨
        (setup.recording.retryClose t item).manager = t.manager.dropClose item.1 := by
      unfold retryClose
      dsimp only
      split
      · right
        simp
      · left
        simp
    have hsizes : ∀ r', r' ≠ item.1 →
        sizesAt held (setup.recording.retryClose t item) r' = sizesAt held t r' := by
      intro r' hne
      rw [sizesAt, hworld]
      exact (close_full hobeys href _ _ t.world).1 r' hne
    have hkept : Tracks (sizesAt held (setup.recording.retryClose t item)) t.manager := by
      refine { h with sizes := fun r p hp => ⟨(h.sizes r p hp).1, ?_⟩ }
      have hne : r ≠ item.1 := by
        rintro rfl
        rw [hnone] at hp
        cases hp
      rw [hsizes r hne]
      exact (h.sizes r p hp).2
    refine ih ?_ fun other hother => ?_
    · rcases hmanager with hmanager | hmanager
      · rw [hmanager]
        exact hkept
      · rw [hmanager]
        exact hkept.dropClose item.1
    · obtain ⟨href', hnone'⟩ := hitems other (List.mem_cons_of_mem _ hother)
      refine ⟨href', ?_⟩
      rcases hmanager with hmanager | hmanager
      · rw [hmanager]
        exact hnone'
      · rw [hmanager]
        exact hnone'

theorem tracks_retryPendingCloses (h : Tracks (sizesAt held t) t.manager) :
    Tracks (sizesAt held (setup.recording.retryPendingCloses t))
      (setup.recording.retryPendingCloses t).manager :=
  tracks_retries hobeys _ h fun item hitem =>
    h.closing item.1 item.2.1 item.2.2 (Dict.mem_entries.1 hitem)

theorem tracks_takeEntries {w : World (σ × List VenueCall)} (h : Tracks (held w.venue.1) m)
    (result : AdvanceResult) :
    Tracks (sizesAt held (setup.recording.takeEntries m result w))
      (setup.recording.takeEntries m result w).manager :=
  exec_invariant (I := fun t : ManagerTurn (σ × List VenueCall) =>
    Tracks (sizesAt held t) t.manager)
    (fun _ event ht => tracks_takeEntry hobeys ht event)
    (s := .start m w) h result.entries

theorem tracks_pushLevels (h : Tracks (sizesAt held t) t.manager) :
    Tracks (sizesAt held (setup.recording.pushLevels t))
    (setup.recording.pushLevels t).manager := by
  refine exec_invariant
    (I := fun t : ManagerTurn (σ × List VenueCall) => Tracks (sizesAt held t) t.manager)
    (fun t op ht => ?_) h t.manager.book.open_
  unfold pushLevel
  dsimp only
  split
  · exact ht
  · split
    · exact ht
    · exact tracks_amend hobeys ht _ _ _

end Bar

section Legs

variable (setup : ManagerSetup σ) (adopted : VenuePositionManager) (stillOpen : List ℕ)

def LegReached (t : ManagerTurn (σ × List VenueCall)) (leg : ExitLeg) : Prop :=
  leg.final = false → ∀ ref ∈ adopted.refBySeq.get leg.positionSeq,
    reductions (setup.recording.pushLeg stillOpen t leg).world =
      reductions t.world ++ [(some ref, leg.size)]

def LegMeets (t : ManagerTurn (σ × List VenueCall)) (leg : ExitLeg) : Prop :=
  leg.final = false → ∀ ref ∈ adopted.refBySeq.get leg.positionSeq,
    t.manager.refBySeq.get leg.positionSeq = some ref ∧ leg.positionSeq ∈ stillOpen ∧
      ∀ p ∈ t.manager.venuePositions.get ref,
        t.world.store.blocks (partialClientRef p.positionId leg.size) = false ∧ leg.size ≤ p.size

instance (t : ManagerTurn (σ × List VenueCall)) (leg : ExitLeg) :
    Decidable (LegMeets adopted stillOpen t leg) := by
  unfold LegMeets
  infer_instance

/-- The turns of a bar's legs: the records agree with the venue, and what is
tracked was adopted before. -/
structure Pushing (held : σ → String → ℚ) (t : ManagerTurn (σ × List VenueCall)) : Prop where
  tracks : Tracks (sizesAt held t) t.manager
  known : ∀ s r, t.manager.refBySeq.get s = some r → adopted.refBySeq.get s = some r

variable {setup adopted stillOpen} {held : σ → String → ℚ}
  (hobeys : Obedient setup.execution.adapter held)
  (hallow : ∀ context v, (setup.execution.gateway.evaluateExit context v).allowed = true)
  {t : ManagerTurn (σ × List VenueCall)} {leg : ExitLeg}

variable {ref : String} {p : Position}

theorem pushLeg_tracked (h : Tracks (sizesAt held t) t.manager)
    (hseq : t.manager.refBySeq.get leg.positionSeq = some ref)
    (hp : t.manager.venuePositions.get ref = some p) :
    setup.recording.pushLeg stillOpen t leg =
      if leg.final ∨ leg.positionSeq ∉ stillOpen then setup.recording.pushFinal t leg ref p
      else setup.recording.pushPartial t leg ref p := by
  simp only [pushLeg, hseq, hp, if_neg (h.refs _ ref hseq).1]

theorem pushLeg_untracked (hseq : t.manager.refBySeq.get leg.positionSeq = none) :
    setup.recording.pushLeg stillOpen t leg = t := by
  simp only [pushLeg, hseq]

theorem refs_pushFinal (s : ℕ) (r : String)
    (hs : (setup.recording.pushFinal t leg ref p).manager.refBySeq.get s = some r) :
    t.manager.refBySeq.get s = some r := by
  have hrefs : (setup.recording.pushFinal t leg ref p).manager.refBySeq =
      t.manager.refBySeq.erase leg.positionSeq := by
    unfold pushFinal
    dsimp only
    split <;> simp <;> rfl
  rw [hrefs, Dict.get_erase] at hs
  split at hs
  · cases hs
  · exact hs

theorem refs_pushPartial :
    (setup.recording.pushPartial t leg ref p).manager.refBySeq = t.manager.refBySeq := by
  unfold pushPartial
  dsimp only
  split
  · simp [VenuePositionManager.shrink]
  · rw [instructAmend_manager]
    split
    · unfold recordLevels
      dsimp only
      split <;> simp [VenuePositionManager.shrink]
    · simp [VenuePositionManager.shrink]

include hobeys

theorem reductions_pushFinal (hp : p.venueRef = some ref) :
    reductions (setup.recording.pushFinal t leg ref p).world = reductions t.world := by
  have hworld : (setup.recording.pushFinal t leg ref p).world =
      (setup.recording.sendClose p p.size true leg.exitReason t.world).2 := by
    unfold pushFinal
    dsimp only
    split <;> simp
  rw [hworld]
  exact (close_full hobeys hp _ _ t.world).2

theorem reductions_pushPartial : reductions (setup.recording.pushPartial t leg ref p).world =
      reductions (setup.recording.instructClose t p (min leg.size p.size) false .scaleOut
        leg.exitReason).2.world := by
  unfold pushPartial
  dsimp only
  split
  · rfl
  · exact (amend_keeps hobeys _ _ _).2

include hallow

theorem meets_of_pushPartial (h : Tracks (sizesAt held t) t.manager)
    (hp : t.manager.venuePositions.get ref = some p)
    (hreached : reductions (setup.recording.pushPartial t leg ref p).world =
      reductions t.world ++ [(some ref, leg.size)]) :
    t.world.store.blocks (partialClientRef p.positionId leg.size) = false ∧ leg.size ≤ p.size := by
  obtain ⟨href, hheld⟩ := h.sizes ref p hp
  rw [reductions_pushPartial hobeys] at hreached
  cases hb : t.world.store.blocks (partialClientRef p.positionId (min leg.size p.size)) with
  | true =>
    rw [reduce_blocked hallow hb] at hreached
    simp at hreached
  | false =>
    have hsent := (reduce_sent hobeys hallow href (by rw [hheld]; exact min_le_right _ _) hb
      .scaleOut leg.exitReason).2
    rw [hsent] at hreached
    have hmin : min leg.size p.size = leg.size := by simpa using hreached
    rw [hmin] at hb
    exact ⟨hb, min_eq_left_iff.1 hmin⟩

theorem leg_step (h : Pushing adopted held t) :
    (LegReached setup adopted stillOpen t leg ↔ LegMeets adopted stillOpen t leg) ∧
      (LegReached setup adopted stillOpen t leg →
        Pushing adopted held (setup.recording.pushLeg stillOpen t leg)) := by
  cases hseq : t.manager.refBySeq.get leg.positionSeq with
  | none =>
    unfold LegReached
    rw [pushLeg_untracked hseq]
    refine ⟨⟨fun hr hfinal ref href => ?_, fun hm hfinal ref href => ?_⟩, fun _ => h⟩
    · have := hr hfinal ref href
      simp at this
    · exact absurd (hseq.symm.trans (hm hfinal ref href).1) (by simp)
  | some ref =>
    obtain ⟨p, hp⟩ := Option.ne_none_iff_exists'.1 (h.tracks.refs _ ref hseq).2
    have hadopted := h.known _ ref hseq
    have hpush : setup.recording.pushLeg stillOpen t leg = _ := pushLeg_tracked h.tracks hseq hp
    by_cases hfinal : leg.final = true ∨ leg.positionSeq ∉ stillOpen
    · rw [if_pos hfinal] at hpush
      unfold LegReached
      rw [hpush, reductions_pushFinal hobeys (h.tracks.sizes ref p hp).1]
      refine ⟨⟨fun hr hnot r hr' => ?_, fun hm hnot r hr' => ?_⟩, fun _ => ⟨?_, ?_⟩⟩
      · have := hr hnot r hr'
        simp at this
      · refine absurd (hm hnot r hr').2.1 (hfinal.resolve_left ?_)
        rw [hnot]
        exact Bool.false_ne_true
      · exact tracks_pushFinal hobeys h.tracks hseq hp
      · exact fun s r hs => h.known s r (refs_pushFinal s r hs)
    · rw [if_neg hfinal] at hpush
      have hnot : leg.final = false := by simpa using fun hf => hfinal (.inl hf)
      have hopen : leg.positionSeq ∈ stillOpen := by
        by_contra hclosed
        exact hfinal (.inr hclosed)
      have hmeets : LegReached setup adopted stillOpen t leg →
          t.world.store.blocks (partialClientRef p.positionId leg.size) = false ∧
            leg.size ≤ p.size := by
        intro hr
        have := hr hnot ref hadopted
        rw [hpush] at this
        exact meets_of_pushPartial hobeys hallow h.tracks hp this
      refine ⟨⟨fun hr _ r hr' => ?_, fun hm _ r hr' => ?_⟩, fun hr => ⟨?_, ?_⟩⟩
      · obtain rfl := Option.some.inj (hadopted.symm.trans hr')
        refine ⟨hseq, hopen, fun q hq => ?_⟩
        obtain rfl := Option.some.inj (hp.symm.trans hq)
        exact hmeets hr
      · obtain rfl := Option.some.inj (hadopted.symm.trans hr')
        obtain ⟨hfree, hsize⟩ := (hm hnot ref hadopted).2.2 p hp
        rw [hpush]
        exact (tracks_pushPartial hobeys hallow h.tracks hp hfree hsize).2
      · obtain ⟨hfree, hsize⟩ := hmeets hr
        rw [hpush]
        exact (tracks_pushPartial hobeys hallow h.tracks hp hfree hsize).1
      · rw [hpush, refs_pushPartial]
        exact h.known

end Legs

structure Desk (σ : Type) where
  manager : VenuePositionManager
  world : World (σ × List VenueCall)

/-- A bar, an order the venue has dealt and the manager adopts, a reversal that is
scheduled, or a bar interval that is declared. -/
inductive Event (σ : Type) where
  | bar (bars : BarMap) (barIndex : ℤ) (timestamp : Option Timestamp) (series : Series)
  | adopt (order : Order) (ack : OrderAck) (strategyId positionId : String) (dealt : σ)
  | reverse (instrument : String) (direction : Direction)
  | setBarInterval (symbol : String) (interval : Timedelta)

section Runs

variable (setup : ManagerSetup σ) (held : σ → String → ℚ)

def step (s : Desk σ) : Event σ → Desk σ
  | .bar bars barIndex timestamp series =>
    let (_, m, w) := setup.recording.onBar s.manager bars barIndex timestamp series s.world
    ⟨m, w⟩
  | .adopt order ack strategyId positionId dealt =>
    let (_, m) := s.manager.adopt setup.instruments setup.latencyBars order ack strategyId
      positionId (setup.clock dealt)
    ⟨m, { s.world with venue := (dealt, s.world.venue.2) }⟩
  | .reverse instrument direction =>
    let (_, book) := s.manager.book.scheduleReversal setup.book instrument direction
      s.manager.driver.barIndex
    ⟨{ s.manager with book := book }, s.world⟩
  | .setBarInterval symbol interval => ⟨s.manager.setBarInterval symbol interval, s.world⟩

def Dealt (s : Desk σ) : Event σ → Prop
  | .adopt order ack _ _ dealt =>
    let ref := ack.brokerRef.getD ""
    s.manager.venuePositions.get ref = none ∧ s.manager.pendingCloses.get ref = none ∧
      held dealt = Function.update (held s.world.venue.1) ref
        ((ack.fill.map Fill.filledSize).getD order.size)
  | _ => True

def pushTurn (s : Desk σ) : Event σ → Option (ManagerTurn (σ × List VenueCall) × List ExitLeg)
  | .bar bars barIndex timestamp series =>
    match setup.recording.advanceBook s.manager bars barIndex timestamp series with
    | (.ok (result, _), m) =>
      some (setup.recording.retryPendingCloses (setup.recording.takeEntries m result s.world),
        result.legs)
    | (.error _, _) => none
  | _ => none

def Reached (s : Desk σ) (e : Event σ) : Prop :=
  (∀ t ∈ pushTurn setup s e, Along
    (LegReached setup t.1.manager (t.1.manager.book.open_.map ManagedPosition.seq))
    (setup.recording.pushLeg (t.1.manager.book.open_.map ManagedPosition.seq)) t.1 t.2) ∧
  ∀ r p, (step setup s e).manager.venuePositions.get r = some p →
    held (step setup s e).world.venue.1 r = p.size

def Meets (s : Desk σ) (e : Event σ) : Prop :=
  ∀ t ∈ pushTurn setup s e, Along
    (LegMeets t.1.manager (t.1.manager.book.open_.map ManagedPosition.seq))
    (setup.recording.pushLeg (t.1.manager.book.open_.map ManagedPosition.seq)) t.1 t.2

instance (s : Desk σ) (e : Event σ) : Decidable (Meets setup s e) := by
  unfold Meets
  infer_instance

variable {setup held}

variable {t : ManagerTurn (σ × List VenueCall)}

theorem tracks_adopt {sizes : String → ℚ} {m : VenuePositionManager} (h : Tracks sizes m)
    (instruments : Registry) (latencyBars : ℕ) (order : Order) (ack : OrderAck)
    (strategyId positionId : String) (clock : Timestamp)
    (hnew : m.venuePositions.get (ack.brokerRef.getD "") = none)
    (hclosed : m.pendingCloses.get (ack.brokerRef.getD "") = none) :
    Tracks (Function.update sizes (ack.brokerRef.getD "")
        ((ack.fill.map Fill.filledSize).getD order.size))
      (m.adopt instruments latencyBars order ack strategyId positionId clock).2 := by
  have hsizes : ∀ r p, m.venuePositions.get r = some p → r ≠ ack.brokerRef.getD "" := by
    rintro r p hp rfl
    rw [hnew] at hp
    cases hp
  have hkept : Tracks (Function.update sizes (ack.brokerRef.getD "")
      ((ack.fill.map Fill.filledSize).getD order.size)) m := by
    refine { h with sizes := fun r p hp => ⟨(h.sizes r p hp).1, ?_⟩ }
    rw [Function.update_of_ne (hsizes r p hp)]
    exact (h.sizes r p hp).2
  unfold VenuePositionManager.adopt
  split
  · exact hkept
  · rename_i htruthy
    split
    · exact hkept
    · obtain ⟨ref, href, hne⟩ := exists_of_truthy (Bool.of_not_eq_false htruthy)
      rw [href, Option.getD_some] at hnew hclosed hsizes hkept ⊢
      have hset : ∀ (d : Dict String Position) q r, d.get r ≠ none →
        (d.set ref q).get r ≠ none := by
        intro d q r hr
        rw [Dict.get_set]
        split
        · simp
        · exact hr
      have hunowned : ∀ s i, m.pendingOrders.get s ≠ some (ref, i) :=
        fun s i hs => (h.orders s ref i hs).2 hnew
      have hunlinked : ∀ s, m.refBySeq.get s ≠ some ref := fun s hs => (h.refs s ref hs).2 hnew
      dsimp only [VenuePositionManager.adoptTerms]
      constructor
      · intro s r i hs
        rw [Dict.get_set] at hs
        split at hs
        · simp only [Option.some.injEq, Prod.mk.injEq] at hs
          exact ⟨hs.1 ▸ hne, by rw [← hs.1]; simp⟩
        · exact ⟨(h.orders s r i hs).1, hset _ _ _ (h.orders s r i hs).2⟩
      · intro s r hs
        exact ⟨(h.refs s r hs).1, hset _ _ _ (h.refs s r hs).2⟩
      · intro a b r i i' ha hb
        rw [Dict.get_set] at ha hb
        split at ha
        · rename_i hae
          simp only [Option.some.injEq, Prod.mk.injEq] at ha
          split at hb
          · rename_i hbe
            exact hae.symm.trans hbe
          · exact absurd (ha.1 ▸ hb) (hunowned b i')
        · split at hb
          · simp only [Option.some.injEq, Prod.mk.injEq] at hb
            exact absurd (hb.1 ▸ ha) (hunowned a i)
          · exact h.orders_inj a b r i i' ha hb
      · exact h.refs_inj
      · intro a b r i ha hb
        rw [Dict.get_set] at ha
        split at ha
        · simp only [Option.some.injEq, Prod.mk.injEq] at ha
          exact hunlinked b (ha.1 ▸ hb)
        · exact h.apart a b r i ha hb
      · intro r p hp
        rw [Dict.get_set] at hp
        split at hp
        · rename_i hr
          subst hr
          obtain rfl := Option.some.inj hp
          exact ⟨rfl, by rw [Function.update_self]; rfl⟩
        · exact hkept.sizes r p hp
      · intro r p why hr
        obtain ⟨hp, hnone⟩ := h.closing r p why hr
        have hne' : ref ≠ r := by
          rintro rfl
          rw [hclosed] at hr
          cases hr
        exact ⟨hp, by rw [Dict.get_set_of_ne _ _ hne']; exact hnone⟩

section

variable {e : Event σ} {s : Desk σ}
variable (hobeys : Obedient setup.execution.adapter held)
    (hallow : ∀ context v, (setup.execution.gateway.evaluateExit context v).allowed = true)

include hobeys hallow

theorem along_legs_iff (h : Tracks (sizesAt held t) t.manager)
    (stillOpen : List ℕ) (legs : List ExitLeg) :
    Along (LegReached setup t.manager stillOpen) (setup.recording.pushLeg stillOpen) t legs ↔
      Along (LegMeets t.manager stillOpen) (setup.recording.pushLeg stillOpen) t legs :=
  along_iff_of_invariant (I := Pushing t.manager held)
    (fun _ _ hI hP => (leg_step hobeys hallow hI).2 hP)
    (fun _ _ hI => (leg_step hobeys hallow hI).1) ⟨h, fun _ _ hs => hs⟩ legs

theorem tracks_bar (h : Tracks (sizesAt held t) t.manager)
    (result : AdvanceResult)
    (hreached : Along
      (LegReached setup t.manager (t.manager.book.open_.map ManagedPosition.seq))
      (setup.recording.pushLeg (t.manager.book.open_.map ManagedPosition.seq)) t result.legs) :
    Tracks (sizesAt held (setup.recording.pushLevels (setup.recording.pushCloses t result)))
      (setup.recording.pushLevels (setup.recording.pushCloses t result)).manager := by
  refine tracks_pushLevels hobeys ?_
  have hpushed : Pushing t.manager held (setup.recording.pushCloses t result) :=
    Along.invariant (I := Pushing t.manager held)
      (fun _ _ hI hP => (leg_step hobeys hallow hI).2 hP) ⟨h, fun _ _ hs => hs⟩ hreached
  exact hpushed.tracks

theorem tracks_step (h : Tracks (held s.world.venue.1) s.manager)
    (hdealt : Dealt held s e)
    (hreached : ∀ t ∈ pushTurn setup s e, Along
      (LegReached setup t.1.manager (t.1.manager.book.open_.map ManagedPosition.seq))
      (setup.recording.pushLeg (t.1.manager.book.open_.map ManagedPosition.seq)) t.1 t.2) :
    Tracks (held (step setup s e).world.venue.1) (step setup s e).manager := by
  cases e with
  | bar bars barIndex timestamp series =>
    have hadvanced : Tracks (held s.world.venue.1)
        (setup.recording.advanceBook s.manager bars barIndex timestamp series).2 :=
      h.congr rfl rfl rfl rfl
    simp only [pushTurn] at hreached
    simp only [step, ManagerSetup.onBar]
    generalize setup.recording.advanceBook s.manager bars barIndex timestamp series = out
      at hadvanced hreached ⊢
    obtain ⟨outcome, m⟩ := out
    cases outcome with
    | error e => exact hadvanced
    | ok advanced =>
      obtain ⟨result, view⟩ := advanced
      have hturn := tracks_retryPendingCloses hobeys (tracks_takeEntries hobeys hadvanced result)
      exact tracks_bar hobeys hallow hturn result (hreached _ rfl)
  | adopt order ack strategyId positionId dealt =>
    obtain ⟨hnew, hclosed, hheld⟩ := hdealt
    have hadopted := tracks_adopt h setup.instruments setup.latencyBars order ack strategyId
      positionId (setup.clock dealt) hnew hclosed
    rw [← hheld] at hadopted
    exact hadopted
  | reverse instrument direction | setBarInterval symbol interval => exact h.congr rfl rfl rfl rfl

omit hallow in
theorem turn_tracks (h : Tracks (held s.world.venue.1) s.manager)
    {t : ManagerTurn (σ × List VenueCall) × List ExitLeg} (ht : t ∈ pushTurn setup s e) :
    Tracks (sizesAt held t.1) t.1.manager := by
  cases e with
  | bar bars barIndex timestamp series =>
    have hadvanced : Tracks (held s.world.venue.1)
        (setup.recording.advanceBook s.manager bars barIndex timestamp series).2 :=
      h.congr rfl rfl rfl rfl
    simp only [pushTurn] at ht
    generalize setup.recording.advanceBook s.manager bars barIndex timestamp series = out
      at hadvanced ht
    obtain ⟨outcome, m⟩ := out
    cases outcome with
    | error e => cases ht
    | ok advanced =>
      obtain rfl := Option.some.inj ht
      exact tracks_retryPendingCloses hobeys (tracks_takeEntries hobeys hadvanced _)
  | _ => cases ht

theorem reached_iff_meets (h : Tracks (held s.world.venue.1) s.manager)
    (hdealt : Dealt held s e) : Reached setup held s e ↔ Meets setup s e := by
  have hlegs : ∀ t, t ∈ pushTurn setup s e → _ := fun t ht =>
    along_legs_iff hobeys hallow (turn_tracks hobeys h ht)
      (t.1.manager.book.open_.map ManagedPosition.seq) t.2
  constructor
  · intro hreached t ht
    exact (hlegs t ht).1 (hreached.1 t ht)
  · intro hmeets
    have hreached := fun t ht => (hlegs t ht).2 (hmeets t ht)
    exact ⟨hreached, fun r p hp =>
      ((tracks_step hobeys hallow h hdealt hreached).sizes r p hp).2⟩

end

end Runs

section Ladders

open Frictionless

theorem ref_of_accepted (p : Position) :
    OrderStatus.accepted = .filled ∨ OrderStatus.accepted = .partiallyFilled →
      truthy p.venueRef = true := by
  simp

def keepsSizes : BrokerAdapter (Dict String ℚ) where
  venueName := "venue"
  orders v := (.ok [], v)
  positions v := (.ok [], v)
  placeOrder _ v := (.error ⟨.brokerError, "not used"⟩, v)
  closePosition p clientRef _ v := (.ok (done p clientRef), v.set (p.venueRef.getD "") 0)
  amendPosition p _ _ clientRef _ v := (.ok (done p clientRef), v)
  closePartial p size clientRef _ v :=
    (.ok (done p clientRef),
      v.set (p.venueRef.getD "") ((v.get (p.venueRef.getD "")).getD 0 - size))
where
  done (p : Position) (clientRef : String) : OrderAck :=
    { status := .accepted, brokerRef := p.venueRef, clientRef := clientRef, orderId := ""
      fill := none, message := "", rawFilledSize := none, rawPrice := none
      ref_of_filled := ref_of_accepted p }

def sizeOf (v : Dict String ℚ) (ref : String) : ℚ := (v.get ref).getD 0

theorem keepsSizes_obedient : Obedient keepsSizes sizeOf where
  closes := by
    intro p clientRef reason v ref hp
    funext r
    simp only [keepsSizes, hp, Option.getD_some, sizeOf, Dict.get_set, Function.update_apply]
    by_cases hr : ref = r
    · simp [hr]
    · simp [hr, Ne.symm hr]
  reduces := by
    intro p size clientRef reason v ref hp _
    funext r
    simp only [keepsSizes, hp, Option.getD_some, sizeOf, Dict.get_set, Function.update_apply]
    by_cases hr : ref = r
    · simp [hr]
    · simp [hr, Ne.symm hr]
  amends := fun _ _ _ _ _ _ => rfl

def sizesManager : ManagerSetup (Dict String ℚ) := demoManager keepsSizes

def ladder (first second : ℚ) : Order :=
  { order with
    takeProfit := some 3
    takeProfitPrices := [3, 4]
    takeProfitAllocations := [first, second]
    allocations_aligned := by simp }

def dealtAck : OrderAck := ackOf "T1" truthy_first

def barEvent (index : ℤ) (price : ℚ) : Event (Dict String ℚ) :=
  .bar (barsAt "EURUSD" (index * hourNs) price) index none noSeries

def ladderRun (first second : ℚ) : List (Event (Dict String ℚ)) :=
  [barEvent 0 2, .adopt (ladder first second) dealtAck "s" "pos_1" (Dict.empty.set "T1" 10),
    barEvent 1 2, barEvent 2 3, barEvent 3 4]

def emptyWorld : World (Dict String ℚ × List VenueCall) := ⟨IntentStore.empty, .empty, []⟩

theorem dealt_ladderRun (first second : ℚ) : Along (Dealt sizeOf) (step sizesManager)
    ⟨.fresh 100, emptyWorld⟩ (ladderRun first second) := by
  refine ⟨trivial, ⟨by decide, by decide, ?_⟩, trivial, trivial, trivial, trivial⟩
  have hempty : (step sizesManager ⟨.fresh 100, emptyWorld⟩ (barEvent 0 2)).world.venue.1 =
      Dict.empty := by decide
  rw [hempty]
  funext r
  simp only [sizeOf, Dict.get_set, Function.update_apply]
  by_cases hr : "T1" = r
  · subst hr
    rfl
  · simp [dealtAck, ackOf, hr, Ne.symm hr]

end Ladders

end Fiboki.ScaleOuts
