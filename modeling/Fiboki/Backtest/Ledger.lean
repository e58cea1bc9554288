import Fiboki.Backtest.Holdings

/-!
What a step writes in the ledger: rows of the step's own time, under the strategy of
the positions that it closed.
-/

namespace Fiboki

namespace BookSetup

variable (env : BookSetup)

def strategyOf (s : String) : String := if s = "" then env.config.strategyId else s

theorem strategyOf_strategyOf (s : String) : env.strategyOf (env.strategyOf s) =
    env.strategyOf s := by
  unfold strategyOf
  by_cases hs : s = ""
  · rw [if_pos hs, ite_self]
  · rw [if_neg hs, if_neg hs]

def owner (op : ManagedPosition) : String := env.strategyOf op.position.strategyId

variable (v : BarSlice)

theorem flattenEach_reason (reason : ExitReason) (t : Turn)
    (ops : List ManagedPosition) (h : ∀ row ∈ t.result.trades, row.exitReason = reason) :
    ∀ row ∈ (env.flattenEach v reason t ops).result.trades, row.exitReason = reason := by
  induction ops generalizing t with
  | nil => exact h
  | cons op ops ih =>
    simp only [flattenEach]
    split
    · exact ih t h
    · apply ih
      intro row hrow
      rcases List.mem_append.1 hrow with hrow | hrow
      · exact h row hrow
      · rw [List.mem_singleton.1 hrow]
        rfl

theorem chargeFinancing_trades (b : PositionBook) :
    (env.chargeFinancing v b).2.trades = b.trades := by
  unfold chargeFinancing
  cases env.financing with
  | none => rfl
  | some financing =>
    dsimp only
    split_ifs <;> rfl

end BookSetup

/-- Every position and every waiting order is filed under `S`. -/
structure PositionBook.Owned (env : BookSetup) (S : String) (b : PositionBook) : Prop where
  open_ : ∀ op ∈ b.open_, env.owner op = S
  pending : ∀ e ∈ b.pending, env.strategyOf e.strategyId = S

def PositionKind.ownedBy (env : BookSetup) (S : String) : PositionKind env where
  Position op := env.owner op = S
  Order e := env.strategyOf e.strategyId = S
  stable h hop := (congrArg env.strategyOf h.strategyId).trans hop
  opens _ order _ _ horder := (env.strategyOf_strategyOf order.strategyId).trans horder

theorem Turn.Posts.stamped {env : BookSetup} {S : String} {time : Timestamp} {b : PositionBook}
    {t : Turn} (h : Posts (.ownedBy env S) time ⟨b, .empty⟩ t) :
    t.book.trades = b.trades ++ t.result.trades ∧
      ∀ row ∈ t.result.trades, row.exitTime = time ∧ row.strategyId = S := by
  obtain ⟨posts, hposts, -, htrades, hresult⟩ := h
  have hrows : t.result.trades = posts.map env.tradeOf := hresult
  rw [hrows]
  refine ⟨htrades, fun row hrow => ?_⟩
  obtain ⟨p, hp, rfl⟩ := List.mem_map.1 hrow
  exact ⟨(hposts p hp).2, (hposts p hp).1⟩

namespace PositionBook.Owned

variable {env : BookSetup} {S : String} {b : PositionBook}

theorem of_has (h : b.Has (.ownedBy env S)) : Owned env S b := ⟨h.open_, h.pending⟩

theorem has (h : Owned env S b) : b.Has (.ownedBy env S) := ⟨h.open_, h.pending⟩

theorem fresh (env : BookSetup) (S : String) (balance : ℚ) : Owned env S (.fresh balance) :=
  of_has (.fresh balance)

theorem advance (h : Owned env S b) {v : BarSlice} {result : AdvanceResult} {b' : PositionBook}
    (hadvance : env.advance v b = (.ok result, b')) :
    Owned env S b' ∧ b'.trades = b.trades ++ result.trades ∧
      ∀ row ∈ result.trades, row.exitTime = v.timestamp ∧ row.strategyId = S := by
  have hcharged := h.has.chargeFinancing v
  have htrades := env.chargeFinancing_trades v b
  unfold BookSetup.advance at hadvance
  generalize env.chargeFinancing v b = out at hcharged htrades hadvance
  obtain ⟨outcome, charged⟩ := out
  cases outcome with
  | error e => cases hadvance
  | ok u =>
    cases hadvance
    obtain ⟨hhas, hposts⟩ := hcharged.stages v
    obtain ⟨hrows, hstamped⟩ := hposts.stamped
    refine ⟨of_has hhas, ?_, hstamped⟩
    rw [← htrades]
    exact hrows

theorem flatten (h : Owned env S b) (v : BarSlice) (reason : ExitReason)
    (which : ManagedPosition → Bool) :
    (env.flatten v reason which b).2.trades = b.trades ++ (env.flatten v reason which b).1.trades ∧
      ∀ row ∈ (env.flatten v reason which b).1.trades,
        row.exitTime = v.timestamp ∧ row.strategyId = S ∧ row.exitReason = reason := by
  have hwhich : ∀ op ∈ b.open_.filter which, env.owner op = S :=
    fun op hop => h.open_ op (List.mem_of_mem_filter hop)
  obtain ⟨hrows, hstamped⟩ :=
    (Turn.Posts.flattenEach (k := .ownedBy env S) (v := v) ⟨b, .empty⟩ reason hwhich).stamped
  have hreason := env.flattenEach_reason v reason ⟨b, .empty⟩ (b.open_.filter which)
    fun _ hrow => absurd hrow List.not_mem_nil
  refine ⟨hrows, fun row hrow => ?_⟩
  obtain ⟨htime, hstrategy⟩ := hstamped row hrow
  exact ⟨htime, hstrategy, hreason row hrow⟩

theorem queueEntry (h : Owned env S b) {e : PendingEntry}
    (he : env.strategyOf e.strategyId = S) : Owned env S (b.queueEntry e) :=
  of_has (h.has.queueEntry he)

theorem scheduleReversal (h : Owned env S b) (instrument : String) (direction : Direction)
    (index : ℤ) : Owned env S (b.scheduleReversal env instrument direction index).2 ∧
      (b.scheduleReversal env instrument direction index).2.trades = b.trades := by
  refine ⟨of_has (h.has.scheduleReversal instrument direction index), ?_⟩
  unfold PositionBook.scheduleReversal
  split_ifs <;> rfl

end PositionBook.Owned

end Fiboki
