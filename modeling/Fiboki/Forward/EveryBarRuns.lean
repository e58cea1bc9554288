import Fiboki.Forward.EveryBarBook

/-!
Runs of the paper-forward cycle, and the run in which the book steps back.
-/

namespace Fiboki.Forward

namespace ForwardState

theorem start_inv (config : PollingFeedConfig) : start.Inv config := by
  have hunseen : ∀ symbol, lastSeen start.book.driver symbol = none := fun _ => rfl
  have hunheld : ∀ symbol, start.feed.heldNewest symbol = none := fun _ => rfl
  refine ⟨⟨le_rfl, ?_, ?_, ?_, ?_, ?_, ?_, ?_, List.Pairwise.nil, ?_⟩, ?_, ⟨List.nodup_nil, ?_⟩, ?_,
    trivial⟩
  · intro symbol b hb
    rw [hunseen] at hb
    cases hb
  · intro symbol b hb
    rw [hunseen] at hb
    cases hb
  · intro symbol b hb
    rw [hunseen] at hb
    cases hb
  · intro symbol b hb
    rw [hunseen] at hb
    cases hb
  · intro symbol c hc
    cases hc
  · intro e he
    cases he
  · intro symbol
    exact List.Pairwise.nil
  · intro t ht
    cases ht
  · intro symbol
    refine ⟨?_, ?_, ?_, ?_⟩
    · rintro c ⟨frame, hframe, -⟩
      cases hframe
    · intro b hb
      rw [hunseen] at hb
      cases hb
    · intro newest hnewest
      rw [hunheld] at hnewest
      cases hnewest
    · intro _ floor hfloor
      cases hfloor
  · intro e he
    cases he
  · intro snapshot hs
    cases hs

variable {config : PollingFeedConfig} {σ : ForwardState}

theorem Inv.step (h : σ.Inv config) {event : FeedEvent} (hkept : σ.Kept config event) :
    (σ.step config event).Inv config := by
  cases event with
  | publish symbol start row => exact h.publish hkept
  | poll now =>
    dsimp only [ForwardState.step]
    split
    · exact h.setPhase (settle_phaseInv _ _)
    · exact h
  | fetch reply =>
    dsimp only [ForwardState.step]
    cases hφ : σ.phase with
    | fetching p =>
      dsimp only
      split
      · rename_i symbol rest hpending
        cases reply with
        | failed | nothing => exact h.setPhase (settle_phaseInv _ _)
        | candles incomplete =>
          unfold Kept at hkept
          rw [hφ] at hkept
          dsimp only at hkept
          rw [hpending] at hkept
          exact h.fetch hkept.1 hkept.2
      · exact h
    | _ => exact h
  | deliver after =>
    dsimp only [ForwardState.step]
    split
    · exact h.deliver
    · exact h
  | reportShortfall =>
    dsimp only [ForwardState.step]
    split
    · rename_i frames hφ
      exact h.reportShortfall hφ
    · exact h
  | catchUp =>
    dsimp only [ForwardState.step]
    split
    · rename_i frames hφ
      unfold Kept at hkept
      rw [hφ] at hkept
      exact h.catchUp hφ hkept
    · exact h
  | advance =>
    dsimp only [ForwardState.step]
    split
    · rename_i at_ bars rest frames hφ
      apply h.advance hφ
      have hphase := h.phase
      rw [hφ] at hphase
      cases rest with
      | nil =>
        unfold Kept at hkept
        rw [hφ] at hkept
        exact hkept
      | cons step rest =>
        -- a step caught up is later than the book's by the plan
        intro now hnow
        exact (hphase.1.order.later now hnow (at_, bars) List.mem_cons_self).le
    · exact h
  | finish =>
    dsimp only [ForwardState.step]
    split
    · rename_i frames hφ
      exact h.finish hφ
    · exact h
  | fail counted =>
    dsimp only [ForwardState.step]
    split
    · exact h
    · exact h
    · exact h.fail counted
  | persist =>
    dsimp only [ForwardState.step]
    split
    · exact h.persist
    · exact h.persist
    · exact h
  | unpersisted =>
    dsimp only [ForwardState.step]
    split
    · exact h.setPhase trivial
    · exact h
  | restart =>
    dsimp only [ForwardState.step]
    split
    · exact h
    · rename_i snapshot hs
      unfold Kept at hkept
      rw [hs] at hkept
      exact h.restore hs hkept

/-- In every run whose steps meet their conditions, every closed bar reaches the book once, in
order. -/
theorem every_bar_once (config : PollingFeedConfig) (events : List FeedEvent)
    (h : Runs.Along (fun σ event => σ.Kept config event) (ForwardState.step config) start events) :
    (Runs.exec (ForwardState.step config) start events).EveryBarOnce :=
  (h.invariant (fun _ _ hInv hkept => hInv.step hkept) (start_inv config)).everyBarOnce

def twoPairs : PollingFeedConfig where
  instruments := ["EUR_USD", "GBP_USD"]
  tf := 240 * BarFeed.minuteNs
  lateCandleGrace := 20 * 10 ^ 9
  repollAttempts := 0
  warmupBars := 2
  historyBars := 10
  maxRequestBars := 10
  isOpen _ _ := true
  alerts := true
  instruments_ne := by simp
  tf_pos := by decide
  grace_nonneg := by decide
  warmup_ok := by decide
  history_ok := by decide

/-- The start of the `n`-th bar. -/
def nth (n : ℤ) : Timestamp := n * twoPairs.tf

def publishFlat (symbol : String) (n : ℤ) : FeedEvent := .publish symbol (nth n) ⟨1, 1, 1, 1⟩

def cycleAt (n : ℤ) (steps : ℕ) (formingEur formingGbp : List ℤ) : List FeedEvent :=
  [.poll (nth n), .fetch (.candles (formingEur.map nth)), .fetch (.candles (formingGbp.map nth)),
    .deliver (nth n), .reportShortfall, .catchUp] ++ List.replicate steps .advance ++
    [.finish, .persist]

def lateRun : List FeedEvent :=
  [publishFlat "EUR_USD" 0, publishFlat "GBP_USD" 0] ++ cycleAt 1 1 [1] [1] ++
    [publishFlat "EUR_USD" 1] ++ cycleAt 2 1 [2] [1, 2] ++
    [publishFlat "EUR_USD" 2] ++ cycleAt 3 1 [3] [1, 2, 3] ++
    [publishFlat "GBP_USD" 1] ++ cycleAt 4 1 [3, 4] [2, 3, 4]

theorem the_book_steps_back :
    ¬ (Runs.exec (ForwardState.step twoPairs) start lateRun).EveryBarOnce := by
  intro h
  have hsteps : (Runs.exec (ForwardState.step twoPairs) start lateRun).book.steps =
      [nth 0, nth 1, nth 2, nth 1] := by
    decide
  have hforward := h.forward
  rw [hsteps] at hforward
  revert hforward
  decide

def punctualRun : List FeedEvent :=
  [publishFlat "EUR_USD" 0, publishFlat "GBP_USD" 0] ++ cycleAt 1 1 [1] [1] ++
    [publishFlat "EUR_USD" 1, publishFlat "GBP_USD" 1] ++ cycleAt 2 1 [2] [2] ++ [.restart] ++
    [publishFlat "EUR_USD" 2, publishFlat "GBP_USD" 2] ++
    [publishFlat "EUR_USD" 3, publishFlat "GBP_USD" 3] ++ cycleAt 4 2 [4] [4]

theorem every_bar_once_punctual :
    (Runs.exec (ForwardState.step twoPairs) start punctualRun).EveryBarOnce ∧
      (Runs.exec (ForwardState.step twoPairs) start punctualRun).book.steps =
        [nth 0, nth 1, nth 2, nth 3] :=
  ⟨every_bar_once twoPairs punctualRun (by decide), by decide⟩

end ForwardState

end Fiboki.Forward
