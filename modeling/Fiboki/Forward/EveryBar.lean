import Fiboki.Forward.Planned

/-!
Every closed bar reaches the book once: what that means of a state, which steps can break it,
and the invariant that the other steps keep.
-/

namespace Fiboki.Forward

namespace ForwardState

def Reported (σ : ForwardState) (symbol : String) (c : Timestamp) : Prop :=
  ∃ r ∈ σ.reports, r.covers symbol c = true

def AfterFirst (σ : ForwardState) (symbol : String) (c : Timestamp) : Prop :=
  ∃ f ∈ σ.firstDelivered.get symbol, f < c

def Passed (d : BookDriver) (symbol : String) (c : Timestamp) : Prop :=
  ∃ b ∈ lastSeen d symbol, c ≤ b

def Accounted (σ : ForwardState) (book : Stepped) : Prop :=
  ∀ symbol, ∀ c ∈ (σ.venue symbol).keys, σ.AfterFirst symbol c → Passed book.driver symbol c →
    book.applied.count (symbol, c) = 1 ∨ σ.Reported symbol c

def appliedOf (book : Stepped) (symbol : String) : List Timestamp :=
  (book.applied.filter fun e => e.1 = symbol).map Prod.snd

structure EveryBarOnce (σ : ForwardState) : Prop where
  accounted : σ.Accounted σ.book
  increasing : ∀ symbol, (appliedOf σ.book symbol).Pairwise (· < ·)
  forward : σ.book.steps.Pairwise (· ≤ ·)
  offeredOnce : σ.offered.Nodup

instance (σ : ForwardState) (symbol : String) (c : Timestamp) : Decidable (σ.Reported symbol c) :=
  inferInstanceAs (Decidable (∃ r ∈ σ.reports, r.covers symbol c = true))

instance (σ : ForwardState) (symbol : String) (c : Timestamp) : Decidable (σ.AfterFirst symbol c) :=
  inferInstanceAs (Decidable (∃ f ∈ σ.firstDelivered.get symbol, f < c))

instance (d : BookDriver) (symbol : String) (c : Timestamp) : Decidable (Passed d symbol c) :=
  inferInstanceAs (Decidable (∃ b ∈ lastSeen d symbol, c ≤ b))

section Guard

variable (config : PollingFeedConfig)

/-- A candle comes to the venue before the feed holds a later one, and before the window that
a restored feed fetches back to. -/
def InTime (σ : ForwardState) (symbol : String) (c : Timestamp) : Prop :=
  match σ.feed.heldNewest symbol with
  | some newest => newest < c
  | none => ¬ Passed σ.book.driver symbol c ∧ ∀ floor ∈ σ.feed.floor.get symbol, floor ≤ c

def Due (σ : ForwardState) (d : BookDriver) (symbol : String) (c : Timestamp) : Prop :=
  σ.AfterFirst symbol c ∧ ¬ Passed d symbol c ∧ ¬ σ.Reported symbol c

def Reaches (σ : ForwardState) (p : PollProgress) (symbol : String)
    (incomplete : List Timestamp) : Prop :=
  ∀ c ∈ (σ.venue symbol).keys, σ.Due σ.book.driver symbol c →
    (∀ newest ∈ σ.feed.heldNewest symbol, newest < c) →
    later (σ.venue symbol) incomplete c <
        σ.feed.requestCount config symbol (p.expectedStart config) ∨
      config.alerts = true ∧ ∃ floor ∈ σ.feed.pendingFloor symbol, floor ≤ c

def TrimKeeps (σ : ForwardState) (p : PollProgress) (symbol : String)
    (incomplete : List Timestamp) : Prop :=
  let fetched := answer (σ.venue symbol) incomplete
    (σ.feed.requestCount config symbol (p.expectedStart config))
  let cut := σ.feed.cutAtFloor symbol (σ.feed.merged symbol fetched)
  ∀ c ∈ cut.keys, σ.Due σ.book.driver symbol c → σ.feed.trimStart config symbol cut ≤ cut.rank c

def FirstSeen (σ : ForwardState) (frames : Dict String Bar) : Prop :=
  ∀ e ∈ frames.entries, lastSeen σ.book.driver e.1 = none →
    ∀ c ∈ (σ.venue e.1).keys, σ.Due σ.book.driver e.1 c → c < e.2.timestamp →
      ∃ now ∈ σ.book.driver.now, now < c

def Resumes (σ : ForwardState) (snapshot : Snapshot) : Prop :=
  (∀ e ∈ σ.offered, ∃ last ∈ snapshot.feed.delivered.get e.1, e.2 ≤ last) ∧
    ∀ e ∈ snapshot.feed.floor.entries, ∀ c ∈ (σ.venue e.1).keys,
      σ.Due snapshot.book.driver e.1 c → e.2 ≤ c

instance (σ : ForwardState) (symbol : String) (c : Timestamp) : Decidable (σ.InTime symbol c) :=
  match h : σ.feed.heldNewest symbol with
  | some newest => decidable_of_iff (newest < c) (by unfold InTime; rw [h])
  | none =>
    decidable_of_iff
      (¬ Passed σ.book.driver symbol c ∧ ∀ floor ∈ σ.feed.floor.get symbol, floor ≤ c)
      (by unfold InTime; rw [h])

instance (σ : ForwardState) (d : BookDriver) (symbol : String) (c : Timestamp) :
    Decidable (σ.Due d symbol c) :=
  inferInstanceAs (Decidable (_ ∧ _ ∧ _))

instance (σ : ForwardState) (p : PollProgress) (symbol : String) (incomplete : List Timestamp) :
    Decidable (σ.Reaches config p symbol incomplete) :=
  inferInstanceAs (Decidable (∀ c ∈ (σ.venue symbol).keys, σ.Due σ.book.driver symbol c →
    (∀ newest ∈ σ.feed.heldNewest symbol, newest < c) → _ ∨ config.alerts = true ∧
      ∃ floor ∈ σ.feed.pendingFloor symbol, floor ≤ c))

instance (σ : ForwardState) (p : PollProgress) (symbol : String) (incomplete : List Timestamp) :
    Decidable (σ.TrimKeeps config p symbol incomplete) :=
  inferInstanceAs (Decidable (∀ c ∈ _, σ.Due σ.book.driver symbol c → _ ≤ _))

instance (σ : ForwardState) (frames : Dict String Bar) : Decidable (σ.FirstSeen frames) :=
  inferInstanceAs (Decidable (∀ e ∈ frames.entries, lastSeen σ.book.driver e.1 = none →
    ∀ c ∈ (σ.venue e.1).keys, σ.Due σ.book.driver e.1 c → c < e.2.timestamp →
      ∃ now ∈ σ.book.driver.now, now < c))

instance (σ : ForwardState) (snapshot : Snapshot) : Decidable (σ.Resumes snapshot) :=
  inferInstanceAs (Decidable ((∀ e ∈ σ.offered, ∃ last ∈ snapshot.feed.delivered.get e.1,
    e.2 ≤ last) ∧ ∀ e ∈ snapshot.feed.floor.entries, ∀ c ∈ (σ.venue e.1).keys,
      σ.Due snapshot.book.driver e.1 c → e.2 ≤ c))

def Kept (σ : ForwardState) : FeedEvent → Prop
  | .publish symbol start _ =>
    σ.AfterFirst symbol start → ¬ σ.Reported symbol start →
      start ∈ (σ.venue symbol).keys ∨ σ.InTime symbol start
  | .fetch (.candles incomplete) =>
    match σ.phase with
    | .fetching p =>
      match p.pending with
      | symbol :: _ => σ.Reaches config p symbol incomplete ∧ σ.TrimKeeps config p symbol incomplete
      | [] => True
    | _ => True
  | .catchUp =>
    match σ.phase with
    | .planning frames => σ.FirstSeen frames
    | _ => True
  | .advance =>
    match σ.phase with
    | .stepping [(at_, _)] _ => ∀ now ∈ σ.book.driver.now, now ≤ at_
    | _ => True
  | .restart =>
    match σ.snapshot with
    | some snapshot => σ.Resumes snapshot
    | none => True
  | _ => True

instance (σ : ForwardState) (event : FeedEvent) : Decidable (σ.Kept config event) := by
  unfold Kept
  split
  · infer_instance
  · split
    · split <;> infer_instance
    · infer_instance
  · split <;> infer_instance
  · split <;> infer_instance
  · split <;> infer_instance
  · infer_instance

end Guard

/-- What a book has been stepped through, next to what the feed has delivered. -/
structure BookInv (σ : ForwardState) (delivered : Dict String Timestamp) (book : Stepped) :
    Prop where
  index : book.driver.barIndex ≤ book.barIndex
  seen_delivered : ∀ symbol, ∀ b ∈ lastSeen book.driver symbol,
    ∃ last ∈ delivered.get symbol, b ≤ last
  seen_first : ∀ symbol, ∀ b ∈ lastSeen book.driver symbol, ∃ f, f ∈ σ.firstDelivered.get symbol
  seen_venue : ∀ symbol, ∀ b ∈ lastSeen book.driver symbol, b ∈ (σ.venue symbol).keys
  seen_now : ∀ symbol, ∀ b ∈ lastSeen book.driver symbol, ∃ now, now ∈ book.driver.now
  accounted : σ.Accounted book
  applied_passed : ∀ e ∈ book.applied, Passed book.driver e.1 e.2
  increasing : ∀ symbol, (appliedOf book symbol).Pairwise (· < ·)
  forward : book.steps.Pairwise (· ≤ ·)
  steps_now : ∀ t ∈ book.steps, ∃ now ∈ book.driver.now, t ≤ now

def ShortfallCovers (config : PollingFeedConfig) (feed : BarFeed) (symbol : String)
    (c : Timestamp) : Prop :=
  config.alerts = true ∧ ∃ short ∈ feed.floorShortfall.get symbol, short.1 ≤ c ∧ c < short.2

def Holds (feed : BarFeed) (symbol : String) (c : Timestamp) : Prop :=
  ∃ frame ∈ feed.history.get symbol, c ∈ frame.keys

structure FeedInv (config : PollingFeedConfig) (σ : ForwardState) (symbol : String) : Prop where
  held_venue : ∀ c, Holds σ.feed symbol c → c ∈ (σ.venue symbol).keys
  seen_held : ∀ b ∈ lastSeen σ.book.driver symbol, ∀ newest ∈ σ.feed.heldNewest symbol, b ≤ newest
  covered : ∀ newest ∈ σ.feed.heldNewest symbol, ∀ c ∈ (σ.venue symbol).keys,
    σ.Due σ.book.driver symbol c → c ≤ newest →
      Holds σ.feed symbol c ∨ ShortfallCovers config σ.feed symbol c
  floored : σ.feed.heldNewest symbol = none → ∀ floor ∈ σ.feed.floor.get symbol,
    ∀ c ∈ (σ.venue symbol).keys, σ.Due σ.book.driver symbol c → floor ≤ c

def New (σ : ForwardState) (symbol : String) (t : Timestamp) : Prop :=
  ∀ e ∈ σ.offered, e.1 = symbol → e.2 < t

structure OfferInv (σ : ForwardState) : Prop where
  once : σ.offered.Nodup
  delivered : ∀ e ∈ σ.offered, ∃ last ∈ σ.feed.delivered.get e.1, e.2 ≤ last

structure FramesInv (σ : ForwardState) (frames : Dict String Bar) : Prop where
  newest : ∀ symbol, ∀ bar ∈ frames.get symbol, σ.feed.heldNewest symbol = some bar.timestamp
  delivered : ∀ symbol, ∀ bar ∈ frames.get symbol, σ.feed.delivered.get symbol = some bar.timestamp
  first : ∀ symbol, ∀ bar ∈ frames.get symbol, ∃ f, f ∈ σ.firstDelivered.get symbol
  unseen : ∀ symbol, ∀ bar ∈ frames.get symbol, ¬ Passed σ.book.driver symbol bar.timestamp
  new : ∀ symbol, ∀ bar ∈ frames.get symbol, σ.New symbol bar.timestamp

structure StepsInv (σ : ForwardState) (steps : List (Timestamp × Dict String Bar)) : Prop where
  order : CatchUpOrder σ.book.driver steps
  sorted : ∀ symbol, (planned symbol steps).Pairwise (· < ·)
  unseen : ∀ symbol, ∀ t ∈ planned symbol steps, ¬ Passed σ.book.driver symbol t
  held : ∀ symbol, ∀ t ∈ planned symbol steps, ∃ newest ∈ σ.feed.heldNewest symbol, t ≤ newest
  delivered : ∀ symbol, ∀ t ∈ planned symbol steps, ∃ last ∈ σ.feed.delivered.get symbol, t ≤ last
  first : ∀ symbol, ∀ t ∈ planned symbol steps, ∃ f, f ∈ σ.firstDelivered.get symbol
  venue : ∀ symbol, ∀ t ∈ planned symbol steps, t ∈ (σ.venue symbol).keys
  covered : ∀ symbol, ∀ t ∈ planned symbol steps, ∀ c ∈ (σ.venue symbol).keys,
    σ.Due σ.book.driver symbol c → c < t → c ∈ planned symbol steps

def PhaseInv (σ : ForwardState) : Phase → Prop
  | .delivered frames => σ.FramesInv frames
  | .planning frames => σ.FramesInv frames ∧ σ.feed.floorShortfall = .empty
  | .stepping steps frames => σ.StepsInv steps ∧ (∀ symbol, ∀ bar ∈ frames.get symbol,
        σ.feed.delivered.get symbol = some bar.timestamp ∧ σ.New symbol bar.timestamp)
  | _ => True

structure Inv (config : PollingFeedConfig) (σ : ForwardState) : Prop where
  book : σ.BookInv σ.feed.delivered σ.book
  feed : ∀ symbol, σ.FeedInv config symbol
  offers : σ.OfferInv
  snapshot : ∀ snapshot ∈ σ.snapshot, σ.BookInv snapshot.feed.delivered snapshot.book ∧
    ∀ symbol c, Passed snapshot.book.driver symbol c → Passed σ.book.driver symbol c
  phase : σ.PhaseInv σ.phase

theorem Inv.everyBarOnce {config : PollingFeedConfig} {σ : ForwardState} (h : σ.Inv config) :
    σ.EveryBarOnce :=
  ⟨h.book.accounted, h.book.increasing, h.book.forward, h.offers.once⟩

end ForwardState

end Fiboki.Forward
