import Fiboki.Backtest.Book
import Fiboki.Lib.Escrow
import Fiboki.Lib.Run

/-!
The accounting identity of the book: the balance, the legs, the ledger rows and
the cost totals agree after every sequence of calls.
-/

namespace Fiboki

open Escrow

inductive Column where
  | gross
  | spread
  | commission
  | slippage
  | financing
  | net

/-- The costs that are totalled.  The guaranteed-stop premium is a commission. -/
inductive Charge where
  | spread
  | commission
  | slippage
  | financing

def Charge.column : Charge → Column
  | spread => .spread
  | commission => .commission
  | slippage => .slippage
  | financing => .financing

def ExitLeg.column (leg : ExitLeg) : Column → ℚ
  | .gross => leg.grossPnl
  | .spread => leg.spreadCost
  | .commission => leg.commission
  | .slippage => leg.slippageCost
  | .financing => leg.financingCost
  | .net => leg.netPnl

def Trade.column (trade : Trade) : Column → ℚ
  | .gross => trade.grossPnl
  | .spread => trade.spreadCost
  | .commission => trade.commission
  | .slippage => trade.slippageCost
  | .financing => trade.financingCost
  | .net => trade.netPnl

def ManagedPosition.column (op : ManagedPosition) : Column → ℚ
  | .gross => op.realisedGross
  | .spread => op.realisedSpread
  | .commission => op.realisedCommission
  | .slippage => op.realisedSlippage
  | .financing => op.realisedFinancing
  | .net => op.realisedNet

def ManagedPosition.pool (op : ManagedPosition) : Charge → ℚ
  | .spread => op.entryCostsAccount.spread
  | .commission => op.entryCostsAccount.commission + op.entryCostsAccount.premium
  | .slippage => op.entryCostsAccount.slippage
  | .financing => 0

def CostBreakdown.charge (costs : CostBreakdown) : Charge → ℚ
  | .spread => costs.spread
  | .commission => costs.commission + costs.guaranteedStopPremium
  | .slippage => costs.slippage
  | .financing => costs.financing

/-- `net = gross - the four named costs`. -/
def ExitLeg.Balanced (leg : ExitLeg) : Prop :=
  leg.netPnl = leg.grossPnl - leg.spreadCost - leg.commission - leg.slippageCost - leg.financingCost

structure Account where
  seq : ℕ
  reversing : Bool
  column : Column → ℚ
  pool : Charge → ℚ

def ManagedPosition.account (op : ManagedPosition) : Account :=
  ⟨op.seq, op.reversalPending, op.column, op.pool⟩

/-- The books agree, `live` being the accounts of the open positions. -/
structure Sound (initial : ℚ) (b : PositionBook) (live : List Account) : Prop where
  balance : b.balance = initial + (b.exitLegs.map ExitLeg.netPnl).sum
  realised : b.realised = (b.exitLegs.map ExitLeg.netPnl).sum
  balanced : ∀ leg ∈ b.exitLegs, leg.Balanced
  ledger : ∀ c, Conserved (b.exitLegs.map (ExitLeg.column · c)).sum
    (b.trades.map (Trade.column · c)).sum (live.map (Account.column · c))
  charges : ∀ c, Conserved (b.costs.charge c)
    (b.exitLegs.map (ExitLeg.column · c.column)).sum (live.map (Account.pool · c))
  nodup : (live.map Account.seq).Nodup
  fresh : ∀ a ∈ live, a.seq ≤ b.seq
  closes_nodup : (b.pendingCloses.map PendingClose.positionSeq).Nodup
  closes_fresh : ∀ c ∈ b.pendingCloses, c.positionSeq ≤ b.seq
  closes_reversing : ∀ c ∈ b.pendingCloses, ∀ a ∈ live, a.seq = c.positionSeq → a.reversing = true

namespace Sound

variable {initial : ℚ} {b b' : PositionBook} {live l r : List Account} {t : Turn}
  (env : BookSetup)

theorem congr (h : Sound initial b live) (hbal : b'.balance = b.balance)
    (hreal : b'.realised = b.realised) (hcosts : b'.costs = b.costs)
    (htrades : b'.trades = b.trades) (hlegs : b'.exitLegs = b.exitLegs) (hseq : b'.seq = b.seq)
    (hcloses : b'.pendingCloses = b.pendingCloses) : Sound initial b' live where
  balance := by rw [hbal, hlegs, h.balance]
  realised := by rw [hreal, hlegs, h.realised]
  balanced := hlegs ▸ h.balanced
  ledger c := by rw [hlegs, htrades]; exact h.ledger c
  charges c := by rw [hlegs, hcosts]; exact h.charges c
  nodup := h.nodup
  fresh := hseq ▸ h.fresh
  closes_nodup := hcloses ▸ h.closes_nodup
  closes_fresh := by rw [hcloses, hseq]; exact h.closes_fresh
  closes_reversing := hcloses ▸ h.closes_reversing

variable {closes : List PendingClose}

theorem keepCloses (h : Sound initial b live) (hsub : closes.Sublist b.pendingCloses) :
    Sound initial { b with pendingCloses := closes } live where
  balance := h.balance
  realised := h.realised
  balanced := h.balanced
  ledger := h.ledger
  charges := h.charges
  nodup := h.nodup
  fresh := h.fresh
  closes_nodup := (hsub.map _).nodup h.closes_nodup
  closes_fresh c hc := h.closes_fresh c (hsub.subset hc)
  closes_reversing c hc := h.closes_reversing c (hsub.subset hc)

theorem empty (initial : ℚ) : Sound initial (PositionBook.fresh initial) [] where
  balance := by simp [PositionBook.fresh]
  realised := by simp [PositionBook.fresh]
  balanced := by simp [PositionBook.fresh]
  ledger c := by simpa [PositionBook.fresh] using Conserved.zero
  charges c := by
    cases c <;> simpa [PositionBook.fresh, CostBreakdown.zero, CostBreakdown.charge] using
      Conserved.zero
  nodup := by simp
  fresh := by simp
  closes_nodup := by simp [PositionBook.fresh]
  closes_fresh := by simp [PositionBook.fresh]
  closes_reversing := by simp [PositionBook.fresh]

variable (costs : CostBreakdown)

theorem closeFill_balanced (op : ManagedPosition) (fill : ExitFill) (ts : Timestamp) (size : ℚ)
    (final : Bool) : (env.closeFill costs op fill ts size final).1.Balanced := by
  simp only [BookSetup.closeFill, ExitLeg.Balanced]

theorem closeFill_column (op : ManagedPosition) (fill : ExitFill) (ts : Timestamp) (size : ℚ)
    (final : Bool) (c : Column) :
    (env.closeFill costs op fill ts size final).2.1.column c =
      op.column c + (env.closeFill costs op fill ts size final).1.column c := by
  cases c <;> rfl

theorem closeFill_charge (op : ManagedPosition) (fill : ExitFill) (ts : Timestamp) (size : ℚ)
    (final : Bool) (c : Charge) :
    ∃ moved, (env.closeFill costs op fill ts size final).2.1.pool c = op.pool c - moved ∧
      (env.closeFill costs op fill ts size final).2.2.charge c = costs.charge c +
        ((env.closeFill costs op fill ts size final).1.column c.column - moved) := by
  refine ⟨op.pool c * BookSetup.entryShare op size final, ?_⟩
  cases final with
  | true =>
    have hshare : BookSetup.entryShare op size true = 1 := rfl
    cases c <;> simp only [BookSetup.closeFill, hshare, ManagedPosition.pool,
      CostBreakdown.charge, ExitLeg.column, Charge.column, ↓reduceIte] <;> constructor <;> ring
  | false =>
    generalize hshare : BookSetup.entryShare op size false = share
    cases c <;> simp only [BookSetup.closeFill, hshare, ManagedPosition.pool,
      CostBreakdown.charge, ExitLeg.column, Charge.column, ↓reduceIte, Bool.false_eq_true] <;>
      constructor <;> first | trivial | ring

theorem closeFill_pool (op : ManagedPosition) (fill : ExitFill) (ts : Timestamp) (size : ℚ)
    (c : Charge) : (env.closeFill costs op fill ts size true).2.1.pool c = 0 := by
  cases c <;> simp [BookSetup.closeFill, ManagedPosition.pool]

variable {op : ManagedPosition}

theorem realise (h : Sound initial t.book (l ++ op.account :: r)) (fill : ExitFill) (ts : Timestamp)
    (size : ℚ) (final : Bool) :
    Sound initial (env.realise t op fill ts size final).1.book
      (l ++ (env.realise t op fill ts size final).2.account :: r) where
  balance := by
    simp only [BookSetup.realise, List.map_append, List.sum_append, List.map_cons, List.map_nil,
      List.sum_singleton, h.balance]
    ring
  realised := by
    simp only [BookSetup.realise, List.map_append, List.sum_append, List.map_cons, List.map_nil,
      List.sum_singleton, h.realised]
  balanced leg hleg := by
    rcases List.mem_append.1 hleg with hleg | hleg
    · exact h.balanced leg hleg
    · exact List.mem_singleton.1 hleg ▸ closeFill_balanced env t.book.costs op fill ts size final
  ledger c := by
    have hledger := h.ledger c
    simp only [List.map_append, List.map_cons] at hledger
    simp only [BookSetup.realise, List.map_append, List.sum_append, List.map_cons, List.map_nil,
      List.sum_singleton]
    have hcolumn := closeFill_column env t.book.costs op fill ts size final c
    simp only [ManagedPosition.account] at hledger ⊢
    rw [hcolumn]
    exact hledger.accrue _
  charges c := by
    have hcharges := h.charges c
    simp only [List.map_append, List.map_cons] at hcharges
    obtain ⟨moved, hpool, hcharge⟩ := closeFill_charge env t.book.costs op fill ts size final c
    simp only [BookSetup.realise, List.map_append, List.sum_append, List.map_cons, List.map_nil,
      List.sum_singleton]
    simp only [ManagedPosition.account] at hcharges ⊢
    rw [hpool, hcharge]
    exact hcharges.settle _ _
  nodup := by
    have hnodup := h.nodup
    simp only [List.map_append, List.map_cons] at hnodup ⊢
    exact hnodup
  fresh a ha := by
    rcases List.mem_append.1 ha with ha | ha
    · exact h.fresh a (List.mem_append_left _ ha)
    · rcases List.mem_cons.1 ha with rfl | ha
      · exact h.fresh op.account (by simp)
      · exact h.fresh a (by simp [ha])
  closes_nodup := h.closes_nodup
  closes_fresh := h.closes_fresh
  closes_reversing c hc a ha := by
    rcases List.mem_append.1 ha with ha | ha
    · exact h.closes_reversing c hc a (List.mem_append_left _ ha)
    · rcases List.mem_cons.1 ha with rfl | ha
      · exact h.closes_reversing c hc op.account (by simp)
      · exact h.closes_reversing c hc a (by simp [ha])

theorem settle (h : Sound initial t.book (l ++ op.account :: r)) (hpool : ∀ c, op.pool c = 0)
    (ts : Timestamp) (reason : ExitReason) :
    Sound initial (env.settle t op ts reason).book (l ++ r) where
  balance := h.balance
  realised := h.realised
  balanced := h.balanced
  ledger c := by
    have hledger := h.ledger c
    simp only [List.map_append, List.map_cons] at hledger
    have hrow : (env.finalise op ts reason).column c = op.account.column c := by cases c <;> rfl
    simp only [BookSetup.settle, List.map_append, List.sum_append, List.map_cons, List.map_nil,
      List.sum_singleton, hrow]
    exact hledger.close
  charges c := by
    have hcharges := h.charges c
    simp only [List.map_append, List.map_cons] at hcharges ⊢
    have hzero : op.account.pool c = 0 := hpool c
    rw [hzero] at hcharges
    have hclosed := hcharges.close
    rw [add_zero] at hclosed
    exact hclosed
  nodup := by
    have hnodup := h.nodup
    simp only [List.map_append, List.map_cons] at hnodup ⊢
    exact (List.nodup_middle.1 hnodup).of_cons
  fresh a ha := h.fresh a (by
    rcases List.mem_append.1 ha with ha | ha <;> simp [ha])
  closes_nodup := h.closes_nodup
  closes_fresh := h.closes_fresh
  closes_reversing c hc a ha := h.closes_reversing c hc a (by
    rcases List.mem_append.1 ha with ha | ha <;> simp [ha])

theorem seq_closeAtMarket (t : Turn) (op : ManagedPosition) (fill : ExitFill) (ts : Timestamp) :
    (env.closeAtMarket t op fill ts).2.seq = op.seq := rfl

theorem pool_closeAtMarket (t : Turn) (op : ManagedPosition) (fill : ExitFill) (ts : Timestamp)
    (c : Charge) : (env.closeAtMarket t op fill ts).2.pool c = 0 :=
  closeFill_pool env t.book.costs op fill ts op.position.size c

theorem closeAtMarket (h : Sound initial t.book (l ++ op.account :: r)) (fill : ExitFill)
    (ts : Timestamp) (reason : ExitReason) :
    Sound initial (env.settle (env.closeAtMarket t op fill ts).1
      (env.closeAtMarket t op fill ts).2 ts reason).book (l ++ r) :=
  (h.realise env fill ts op.position.size true).settle env (pool_closeAtMarket env t op fill ts)
    ts reason

theorem exitLoop {t : Turn} (h : Sound initial t.book (l ++ op.account :: r)) (v : BarSlice)
    (bar : Bar) (n : ℕ) :
    Sound initial (env.exitLoop v bar n t op).1.book
        (l ++ (env.exitLoop v bar n t op).2.1.account :: r) ∧
      ((env.exitLoop v bar n t op).2.2 ≠ none →
        ∀ c, (env.exitLoop v bar n t op).2.1.pool c = 0) := by
  induction n generalizing t op with
  | zero => exact ⟨h, fun hne => absurd rfl hne⟩
  | succ n ih =>
    simp only [BookSetup.exitLoop]
    split
    · exact ⟨h, fun hne => absurd rfl hne⟩
    · rename_i decision hdecision
      generalize hsize : op.sizeForExit decision = sized
      obtain ⟨size, final⟩ := sized
      generalize hfill : (if final then decision
        else (env.resolveFor v bar op size).getD decision) = fill
      have hstep := h.realise env fill v.timestamp size final
      have hnext : Sound initial (env.realise t op fill v.timestamp size final).1.book
          (l ++ (if fill.reason = .takeProfit then
              { (env.realise t op fill v.timestamp size final).2 with
                nextLeg := (env.realise t op fill v.timestamp size final).2.nextLeg + 1 }
            else (env.realise t op fill v.timestamp size final).2).account :: r) := by
        split_ifs
        · exact hstep
        · exact hstep
      dsimp only
      cases final with
      | false => exact ih hnext
      | true =>
        refine ⟨hnext, fun _ c => ?_⟩
        have hpool := closeFill_pool env t.book.costs op fill v.timestamp size c
        simp only [if_true]
        split_ifs
        · exact hpool
        · exact hpool

variable (v : BarSlice)

theorem account_seeBar (bar : Bar) (op : ManagedPosition) :
    (BookSetup.seeBar v bar op).account = op.account := by
  simp only [BookSetup.seeBar]
  split_ifs <;> rfl

theorem account_updateProtectiveStop (op : ManagedPosition) :
    (env.updateProtectiveStop v op).account = op.account := by
  simp only [BookSetup.updateProtectiveStop]
  split_ifs <;> rfl

theorem exitBar (h : Sound initial t.book (l ++ op.account :: r)) (v : BarSlice) (bar : Bar) :
    Sound initial (env.exitBar v bar t op).1.book
        (l ++ (env.exitBar v bar t op).2.1.account :: r) ∧
      ((env.exitBar v bar t op).2.2 ≠ none → ∀ c, (env.exitBar v bar t op).2.1.pool c = 0) := by
  rw [← account_seeBar v bar op] at h
  obtain ⟨hloop, hpool⟩ := h.exitLoop env v bar (op.legs.length + 1)
  simp only [BookSetup.exitBar]
  generalize env.exitLoop v bar (op.legs.length + 1) t (BookSetup.seeBar v bar op) = out
    at hloop hpool ⊢
  obtain ⟨t', op', closed⟩ := out
  dsimp only
  split_ifs
  · exact ⟨hloop.realise env _ _ _ _, fun _ => pool_closeAtMarket env t' op' _ v.timestamp⟩
  · exact ⟨hloop, hpool⟩

theorem resolvePosition (h : Sound initial t.book (l ++ op.account :: r)) (v : BarSlice) :
    Sound initial (env.resolvePosition v t op).1.book
      (l ++ (env.resolvePosition v t op).2.toList.map ManagedPosition.account ++ r) := by
  simp only [BookSetup.resolvePosition]
  cases hbar : v.bars op.position.instrument with
  | none => simpa using h
  | some bar =>
    obtain ⟨hexit, hpool⟩ := h.exitBar env v bar
    dsimp only
    generalize env.exitBar v bar t op = out at hexit hpool ⊢
    obtain ⟨t', op', closed⟩ := out
    cases closed with
    | none => simpa [account_updateProtectiveStop] using hexit
    | some reason =>
      have hsettled := hexit.settle env (hpool (by simp)) v.timestamp reason
      have : Sound initial (env.armCooldown v op.position.instrument
          (env.settle t' op' v.timestamp reason).book) (l ++ r) := by
        simp only [BookSetup.armCooldown]
        split_ifs
        · exact hsettled
        · exact hsettled.congr rfl rfl rfl rfl rfl rfl rfl
      simpa using this

variable {ops : List ManagedPosition}

theorem resolveEach {t : Turn} {l : List Account}
    (h : Sound initial t.book (l ++ ops.map ManagedPosition.account)) (v : BarSlice) :
    Sound initial (env.resolveEach v t ops).1.book
      (l ++ (env.resolveEach v t ops).2.map ManagedPosition.account) := by
  induction ops generalizing t l with
  | nil => exact h
  | cons op ops ih =>
    rw [List.map_cons] at h
    have hnext := ih (h.resolvePosition env v)
    simp only [BookSetup.resolveEach]
    rw [List.map_append, ← List.append_assoc]
    exact hnext

theorem resolveExits (h : Sound initial t.book (t.book.open_.map ManagedPosition.account))
    (v : BarSlice) :
    Sound initial (env.resolveExits v t).book
      ((env.resolveExits v t).book.open_.map ManagedPosition.account) :=
  (resolveEach (l := []) env h v).congr rfl rfl rfl rfl rfl rfl rfl

theorem refuseEntry (h : Sound initial t.book live) (order : PendingEntry) (reason : String) :
    Sound initial (BookSetup.refuseEntry t order reason).book live :=
  h.congr rfl rfl rfl rfl rfl rfl rfl

theorem acceptEntry (h : Sound initial t.book live) (v : BarSlice) (order : PendingEntry)
    (fill : EntryFill) :
    Sound initial (env.acceptEntry v t order fill).book
      (live ++ [(env.openPosition v order fill (t.book.seq + 1)).account]) where
  balance := h.balance
  realised := h.realised
  balanced := h.balanced
  ledger c := by
    have hzero : (env.openPosition v order fill (t.book.seq + 1)).account.column c = 0 := by
      cases c <;> rfl
    rw [List.map_append, List.map_cons, List.map_nil, hzero]
    have hopen := (h.ledger c).open 0
    rwa [add_zero] at hopen
  charges c := by
    rw [List.map_append, List.map_cons, List.map_nil]
    have hopen := (h.charges c).open
      ((env.openPosition v order fill (t.book.seq + 1)).account.pool c)
    have htotal : (env.acceptEntry v t order fill).book.costs.charge c = t.book.costs.charge c +
        (env.openPosition v order fill (t.book.seq + 1)).account.pool c := by
      cases c <;> simp only [BookSetup.acceptEntry, BookSetup.openPosition, PositionBook.nextSeq,
        ManagedPosition.account, ManagedPosition.pool, CostBreakdown.charge] <;> ring
    rw [htotal]
    exact hopen
  nodup := by
    rw [List.map_append, List.map_cons, List.map_nil]
    refine List.nodup_append.2 ⟨h.nodup, by simp, ?_⟩
    rintro s hs s' hs' rfl
    obtain ⟨a, ha, rfl⟩ := List.mem_map.1 hs
    have hle := h.fresh a ha
    have heq : a.seq = t.book.seq + 1 := List.mem_singleton.1 hs'
    omega
  fresh a ha := by
    rcases List.mem_append.1 ha with ha | ha
    · exact (h.fresh a ha).trans (Nat.le_succ _)
    · rw [List.mem_singleton.1 ha]
      exact le_rfl
  closes_nodup := h.closes_nodup
  closes_fresh c hc := (h.closes_fresh c hc).trans (Nat.le_succ _)
  closes_reversing c hc a ha heq := by
    rcases List.mem_append.1 ha with ha | ha
    · exact h.closes_reversing c hc a ha heq
    · have hle := h.closes_fresh c hc
      rw [List.mem_singleton.1 ha] at heq
      have : t.book.seq + 1 = c.positionSeq := heq
      omega

theorem fillEntry (h : Sound initial t.book (t.book.open_.map ManagedPosition.account))
    (v : BarSlice) (order : PendingEntry) :
    Sound initial (env.fillEntry v t order).1.book
      ((env.fillEntry v t order).1.book.open_.map ManagedPosition.account) := by
  simp only [BookSetup.fillEntry]
  split
  · exact h
  · split
    · exact h
    · split
      · exact h.refuseEntry order _
      · split
        · exact h.refuseEntry order _
        · rename_i fill _
          have haccept := h.acceptEntry env v order fill
          simpa [BookSetup.acceptEntry, PositionBook.nextSeq] using haccept

theorem fillEach {orders : List PendingEntry} {t : Turn}
    (h : Sound initial t.book (t.book.open_.map ManagedPosition.account)) (v : BarSlice) :
    Sound initial (env.fillEach v t orders).1.book
      ((env.fillEach v t orders).1.book.open_.map ManagedPosition.account) := by
  induction orders generalizing t with
  | nil => exact h
  | cons order orders ih => exact ih (h.fillEntry env v order)

theorem fillEntries (h : Sound initial t.book (t.book.open_.map ManagedPosition.account))
    (v : BarSlice) :
    Sound initial (env.fillEntries v t).book
      ((env.fillEntries v t).book.open_.map ManagedPosition.account) :=
  (h.fillEach env v).congr rfl rfl rfl rfl rfl rfl rfl

theorem account_chargePosition {financing : FinancingModel} {v : BarSlice}
    {op op' : ManagedPosition} (h : env.chargePosition financing v op = .ok op') :
    op'.account = op.account := by
  simp only [BookSetup.chargePosition] at h
  split_ifs at h
  · exact Except.ok.inj h ▸ rfl
  · split at h
    · cases h
    · exact Except.ok.inj h ▸ rfl

theorem account_chargeEach (financing : FinancingModel) (v : BarSlice)
    (ops : List ManagedPosition) :
    (env.chargeEach financing v ops).2.map ManagedPosition.account =
      ops.map ManagedPosition.account := by
  induction ops with
  | nil => rfl
  | cons op ops ih =>
    simp only [BookSetup.chargeEach]
    split
    · rfl
    · rename_i op' hop
      rw [List.map_cons, List.map_cons, account_chargePosition env hop, ih]

theorem chargeFinancing (h : Sound initial b (b.open_.map ManagedPosition.account)) (v : BarSlice) :
    Sound initial (env.chargeFinancing v b).2
      ((env.chargeFinancing v b).2.open_.map ManagedPosition.account) := by
  simp only [BookSetup.chargeFinancing]
  split
  · exact h
  · split_ifs
    · exact h
    · rw [account_chargeEach]
      exact h.congr rfl rfl rfl rfl rfl rfl rfl

theorem filter_seq_ne {l r : List ManagedPosition}
    (h : ((l ++ op :: r).map ManagedPosition.seq).Nodup) :
    (l ++ op :: r).filter (fun p => p.seq ≠ op.seq) = l ++ r := by
  rw [List.map_append, List.map_cons] at h
  have hnot := (List.nodup_cons.1 (List.nodup_middle.1 h)).1
  have hl : l.filter (fun p => p.seq ≠ op.seq) = l := List.filter_eq_self.2 fun p hp => by
    refine decide_eq_true fun heq => hnot (List.mem_append_left _ ?_)
    exact heq ▸ List.mem_map_of_mem hp
  have hr : r.filter (fun p => p.seq ≠ op.seq) = r := List.filter_eq_self.2 fun p hp => by
    refine decide_eq_true fun heq => hnot (List.mem_append_right _ ?_)
    exact heq ▸ List.mem_map_of_mem hp
  rw [List.filter_append, hl, List.filter_cons_of_neg (by simp), hr]

theorem seqs_nodup (h : Sound initial b (ops.map ManagedPosition.account)) :
    (ops.map ManagedPosition.seq).Nodup := by
  have hnodup := h.nodup
  rwa [List.map_map] at hnodup

theorem closeOpen (h : Sound initial t.book (ops.map ManagedPosition.account)) (hop : op ∈ ops)
    (fill : ExitFill) (ts : Timestamp) (reason : ExitReason) :
    Sound initial (env.settle (env.closeAtMarket t op fill ts).1
        (env.closeAtMarket t op fill ts).2 ts reason).book
      ((ops.filter fun p => p.seq ≠ op.seq).map ManagedPosition.account) := by
  obtain ⟨l, r, rfl⟩ := List.append_of_mem hop
  rw [filter_seq_ne h.seqs_nodup, List.map_append]
  rw [List.map_append, List.map_cons] at h
  exact h.closeAtMarket env fill ts reason

theorem flattenEach {targets : List ManagedPosition} {t : Turn}
    (h : Sound initial t.book (t.book.open_.map ManagedPosition.account))
    (hmem : ∀ op ∈ targets, op ∈ t.book.open_)
    (hnodup : (targets.map ManagedPosition.seq).Nodup) (v : BarSlice) (reason : ExitReason) :
    Sound initial (env.flattenEach v reason t targets).book
      ((env.flattenEach v reason t targets).book.open_.map ManagedPosition.account) := by
  induction targets generalizing t with
  | nil => exact h
  | cons op targets ih =>
    rw [List.map_cons, List.nodup_cons] at hnodup
    simp only [BookSetup.flattenEach]
    split
    · exact ih h (fun p hp => hmem p (List.mem_cons_of_mem _ hp)) hnodup.2
    · refine ih ?_ (fun p hp => ?_) hnodup.2
      · exact (h.closeOpen env (hmem op (by simp)) _ v.timestamp reason).congr
          rfl rfl rfl rfl rfl rfl rfl
      · have hne : p.seq ≠ op.seq := fun heq => hnodup.1 (heq ▸ List.mem_map_of_mem hp)
        exact List.mem_filter.2 ⟨hmem p (List.mem_cons_of_mem _ hp), decide_eq_true hne⟩

theorem flatten (h : Sound initial b (b.open_.map ManagedPosition.account)) (v : BarSlice)
    (reason : ExitReason) (which : ManagedPosition → Bool) :
    Sound initial (env.flatten v reason which b).2
      ((env.flatten v reason which b).2.open_.map ManagedPosition.account) := by
  have hsub : (b.open_.filter which).Sublist b.open_ := List.filter_sublist
  exact flattenEach env h (fun op hop => hsub.subset hop)
    ((hsub.map ManagedPosition.seq).nodup h.seqs_nodup) v reason

theorem find_filter_seq_ne (ops : List ManagedPosition) {s k : ℕ} (h : s ≠ k) :
    (ops.filter fun p => p.seq ≠ k).find? (fun p => p.seq = s) =
      ops.find? (fun p => p.seq = s) := by
  rw [List.find?_filter]
  congr 1
  funext p
  by_cases hp : p.seq = s
  · simp [hp, h]
  · simp [hp]

theorem find_replace_seq_ne (ops : List ManagedPosition) {op op' : ManagedPosition} {s : ℕ}
    (hseq : op'.seq = op.seq) (h : s ≠ op.seq) :
    (ops.map fun p => if p.seq = op.seq then op' else p).find? (fun p => p.seq = s) =
      ops.find? (fun p => p.seq = s) := by
  induction ops with
  | nil => rfl
  | cons p ops ih =>
    rw [List.map_cons, List.find?_cons, List.find?_cons, ih]
    by_cases hp : p.seq = op.seq
    · rw [if_pos hp]
      simp [hseq, hp, Ne.symm h]
    · rw [if_neg hp]

def Untouched (r : BookSetup.Reversing) (closes : List PendingClose) : Prop :=
  ∀ c ∈ closes, r.bySeq.find? (fun p => p.seq = c.positionSeq) =
    r.open_.find? (fun p => p.seq = c.positionSeq)

theorem runClose {r : BookSetup.Reversing} {c : PendingClose} {rest : List PendingClose}
    (h : Sound initial r.turn.book (r.open_.map ManagedPosition.account))
    (hfind : Untouched r (c :: rest))
    (hnodup : ((c :: rest).map PendingClose.positionSeq).Nodup) (v : BarSlice) :
    Sound initial (env.runClose v r c).1.turn.book
        ((env.runClose v r c).1.open_.map ManagedPosition.account) ∧
      Untouched (env.runClose v r c).1 rest ∧
      (env.runClose v r c).1.turn.book.pendingCloses = r.turn.book.pendingCloses := by
  have hrest : Untouched r rest := fun d hd => hfind d (List.mem_cons_of_mem _ hd)
  simp only [BookSetup.runClose]
  split_ifs
  · exact ⟨h, hrest, rfl⟩
  · split
    · exact ⟨h, hrest, rfl⟩
    · rename_i op hop
      split
      · exact ⟨h, hrest, rfl⟩
      · rw [hfind c (by simp)] at hop
        have hseq : op.seq = c.positionSeq := by simpa using List.find?_some hop
        refine ⟨h.closeOpen env (List.mem_of_find?_eq_some hop) _ v.timestamp _, fun d hd => ?_,
          rfl⟩
        have hne : d.positionSeq ≠ op.seq := fun heq =>
          (List.nodup_cons.1 hnodup).1 ((heq.trans hseq) ▸ List.mem_map_of_mem hd)
        refine Eq.trans ?_ ((hrest d hd).trans (find_filter_seq_ne r.open_ hne).symm)
        exact find_replace_seq_ne r.bySeq (seq_closeAtMarket env r.turn op _ v.timestamp) hne

theorem runCloses {r : BookSetup.Reversing}
    (h : Sound initial r.turn.book (r.open_.map ManagedPosition.account))
    (hfind : Untouched r closes) (hnodup : (closes.map PendingClose.positionSeq).Nodup)
    (v : BarSlice) :
    Sound initial (env.runCloses v r closes).1.turn.book
        ((env.runCloses v r closes).1.open_.map ManagedPosition.account) ∧
      (env.runCloses v r closes).2.Sublist closes ∧
      (env.runCloses v r closes).1.turn.book.pendingCloses = r.turn.book.pendingCloses := by
  induction closes generalizing r with
  | nil => exact ⟨h, List.Sublist.refl _, rfl⟩
  | cons c rest ih =>
    obtain ⟨hstep, hrest, hsame⟩ := h.runClose env hfind hnodup v
    obtain ⟨hrun, hsub, hclosed⟩ := ih hstep hrest (List.nodup_cons.1 hnodup).2
    refine ⟨hrun, ?_, hclosed.trans hsame⟩
    simp only [BookSetup.runCloses]
    split_ifs
    · exact hsub.cons_cons c
    · exact hsub.cons c

theorem runPendingCloses (h : Sound initial t.book (t.book.open_.map ManagedPosition.account))
    (v : BarSlice) :
    Sound initial (env.runPendingCloses v t).book
      ((env.runPendingCloses v t).book.open_.map ManagedPosition.account) := by
  obtain ⟨hrun, hsub, hsame⟩ := runCloses (r := ⟨t, t.book.open_, t.book.open_⟩) env h
    (fun _ _ => rfl) h.closes_nodup v
  have hkept : (env.runCloses v ⟨t, t.book.open_, t.book.open_⟩ t.book.pendingCloses).2.Sublist
      (env.runCloses v ⟨t, t.book.open_, t.book.open_⟩
        t.book.pendingCloses).1.turn.book.pendingCloses := by
    rw [hsame]
    exact hsub
  exact (hrun.keepCloses hkept).congr rfl rfl rfl rfl rfl rfl rfl

theorem scheduleLoop_spec (instrument : String) (direction : Direction) (actionable : ℤ)
    (ops : List ManagedPosition) (seq : ℕ) :
    seq ≤ (PositionBook.scheduleLoop instrument direction actionable ops seq).1 ∧
      (PositionBook.scheduleLoop instrument direction actionable ops seq).2.1 =
        ops.map (fun op => if op.opposes instrument direction then
          { op with reversalPending := true } else op) ∧
      (PositionBook.scheduleLoop instrument direction actionable ops seq).2.2.map
          PendingClose.positionSeq =
        (ops.filter (·.opposes instrument direction)).map ManagedPosition.seq := by
  induction ops generalizing seq with
  | nil => exact ⟨le_rfl, rfl, rfl⟩
  | cons op ops ih =>
    simp only [PositionBook.scheduleLoop]
    by_cases hop : op.opposes instrument direction = true
    · obtain ⟨hle, hops, hcloses⟩ := ih (seq + 1)
      simp only [if_pos hop]
      refine ⟨(Nat.le_succ seq).trans hle, ?_, ?_⟩
      · rw [hops, List.map_cons, if_pos hop]
      · rw [List.map_cons, hcloses, List.filter_cons_of_pos hop, List.map_cons]
    · obtain ⟨hle, hops, hcloses⟩ := ih seq
      simp only [if_neg hop]
      refine ⟨hle, ?_, ?_⟩
      · rw [hops, List.map_cons, if_neg hop]
      · rw [hcloses, List.filter_cons_of_neg hop]

theorem scheduleReversal (h : Sound initial b (b.open_.map ManagedPosition.account))
    (instrument : String) (direction : Direction) (index : ℤ) :
    Sound initial (PositionBook.scheduleReversal env b instrument direction index).2
      ((PositionBook.scheduleReversal env b instrument direction index).2.open_.map
        ManagedPosition.account) := by
  simp only [PositionBook.scheduleReversal]
  split_ifs
  · exact h
  obtain ⟨hle, hops, hcloses⟩ := scheduleLoop_spec instrument direction
    (index + 1 + env.latencyBars) b.open_ b.seq
  generalize PositionBook.scheduleLoop instrument direction (index + 1 + env.latencyBars)
    b.open_ b.seq = out at hle hops hcloses ⊢
  obtain ⟨seq, ops, closes⟩ := out
  dsimp only at hle hops hcloses ⊢
  subst hops
  have hsame : ∀ {α : Type} (f : Account → α),
    (∀ a : Account, f { a with reversing := true } = f a) →
      ((b.open_.map fun op => if op.opposes instrument direction then
        { op with reversalPending := true } else op).map ManagedPosition.account).map f =
      (b.open_.map ManagedPosition.account).map f := by
    intro α f hf
    simp only [List.map_map]
    refine List.map_congr_left fun op _ => ?_
    simp only [Function.comp]
    split_ifs
    · exact hf op.account
    · rfl
  have hnew : ∀ c ∈ closes, ∃ op ∈ b.open_, op.opposes instrument direction = true ∧
      op.seq = c.positionSeq := fun c hc => by
    have hmem := List.mem_map_of_mem (f := PendingClose.positionSeq) hc
    rw [hcloses] at hmem
    obtain ⟨op, hop, heq⟩ := List.mem_map.1 hmem
    exact ⟨op, (List.mem_filter.1 hop).1, (List.mem_filter.1 hop).2, heq⟩
  exact
    { balance := h.balance
      realised := h.realised
      balanced := h.balanced
      ledger := fun c => by rw [hsame _ fun _ => rfl]; exact h.ledger c
      charges := fun c => by rw [hsame _ fun _ => rfl]; exact h.charges c
      nodup := by rw [hsame _ fun _ => rfl]; exact h.nodup
      fresh := fun a ha => by
        have hmem := List.mem_map_of_mem (f := Account.seq) ha
        rw [hsame _ fun _ => rfl] at hmem
        obtain ⟨a', ha', heq⟩ := List.mem_map.1 hmem
        exact heq ▸ (h.fresh a' ha').trans hle
      closes_nodup := by
        rw [List.map_append, hcloses]
        refine List.nodup_append.2 ⟨h.closes_nodup,
          (List.filter_sublist.map _).nodup h.seqs_nodup, ?_⟩
        rintro s hs s' hs' rfl
        obtain ⟨c, hc, rfl⟩ := List.mem_map.1 hs
        obtain ⟨op, hop, heq⟩ := List.mem_map.1 hs'
        obtain ⟨hopen, hopposes⟩ := List.mem_filter.1 hop
        have hreversing : op.reversalPending = true :=
          h.closes_reversing c hc op.account (List.mem_map_of_mem hopen) heq
        simp [ManagedPosition.opposes, hreversing] at hopposes
      closes_fresh := fun c hc => by
        rcases List.mem_append.1 hc with hc | hc
        · exact (h.closes_fresh c hc).trans hle
        · obtain ⟨op, hop, -, heq⟩ := hnew c hc
          exact heq ▸ (h.fresh op.account (List.mem_map_of_mem hop)).trans hle
      closes_reversing := fun c hc a ha heq => by
        obtain ⟨_, hp, rfl⟩ := List.mem_map.1 ha
        obtain ⟨op, hop, rfl⟩ := List.mem_map.1 hp
        by_cases hopposes : op.opposes instrument direction = true
        · simp [if_pos hopposes, ManagedPosition.account]
        · rw [if_neg hopposes] at heq ⊢
          rcases List.mem_append.1 hc with hc | hc
          · exact h.closes_reversing c hc op.account (List.mem_map_of_mem hop) heq
          · obtain ⟨op', hop', hopposes', heq'⟩ := hnew c hc
            have hsame : op = op' := List.inj_on_of_nodup_map h.seqs_nodup hop hop'
              (heq.trans heq'.symm)
            exact absurd (hsame ▸ hopposes') hopposes }

theorem advance (h : Sound initial b (b.open_.map ManagedPosition.account)) (v : BarSlice) :
    Sound initial (env.advance v b).2
      ((env.advance v b).2.open_.map ManagedPosition.account) := by
  have hcharged := h.chargeFinancing env v
  simp only [BookSetup.advance]
  split
  · rename_i e b' heq
    rwa [heq] at hcharged
  · rename_i b' heq
    rw [heq] at hcharged
    have hstart : Sound initial (Turn.mk b' .empty).book
        ((Turn.mk b' .empty).book.open_.map ManagedPosition.account) := hcharged
    exact ((hstart.runPendingCloses env v).fillEntries env v).resolveExits env v

end Sound

inductive BookCall where
  | queueEntry (entry : PendingEntry)
  | scheduleReversal (instrument : String) (direction : Direction) (index : ℤ)
  | advance (slice : BarSlice)
  | flatten (slice : BarSlice) (reason : ExitReason) (which : ManagedPosition → Bool)

namespace PositionBook

def call (env : BookSetup) (b : PositionBook) : BookCall → PositionBook
  | .queueEntry entry => b.queueEntry entry
  | .scheduleReversal instrument direction index =>
    (b.scheduleReversal env instrument direction index).2
  | .advance slice => (env.advance slice b).2
  | .flatten slice reason which => (env.flatten slice reason which b).2

variable (env : BookSetup)

theorem call_sound {initial : ℚ} {b : PositionBook}
    (h : Sound initial b (b.open_.map ManagedPosition.account)) (c : BookCall) :
    Sound initial (b.call env c) ((b.call env c).open_.map ManagedPosition.account) := by
  cases c with
  | queueEntry entry => exact h.congr rfl rfl rfl rfl rfl rfl rfl
  | scheduleReversal instrument direction index =>
    exact h.scheduleReversal env instrument direction index
  | advance slice => exact h.advance env slice
  | flatten slice reason which => exact h.flatten env slice reason which

theorem sound_after (initial : ℚ) (calls : List BookCall) :
    Sound initial (Runs.exec (call env) (fresh initial) calls)
      ((Runs.exec (call env) (fresh initial) calls).open_.map ManagedPosition.account) :=
  Runs.exec_invariant (I := fun b => Sound initial b (b.open_.map ManagedPosition.account))
    (fun _ c h => call_sound env h c) (Sound.empty initial) calls

/-- The accounting identity. -/
structure Identity (initial : ℚ) (b : PositionBook) : Prop where
  balance : b.balance = initial + (b.exitLegs.map ExitLeg.netPnl).sum
  realised : b.realised = (b.exitLegs.map ExitLeg.netPnl).sum
  legs : ∀ leg ∈ b.exitLegs, leg.netPnl =
    leg.grossPnl - leg.spreadCost - leg.commission - leg.slippageCost - leg.financingCost
  net : (b.trades.map Trade.netPnl).sum + (b.open_.map ManagedPosition.realisedNet).sum =
    (b.exitLegs.map ExitLeg.netPnl).sum
  spread : b.costs.spread = (b.exitLegs.map ExitLeg.spreadCost).sum +
    (b.open_.map (·.entryCostsAccount.spread)).sum
  slippage : b.costs.slippage = (b.exitLegs.map ExitLeg.slippageCost).sum +
    (b.open_.map (·.entryCostsAccount.slippage)).sum
  commission : b.costs.commission + b.costs.guaranteedStopPremium =
    (b.exitLegs.map ExitLeg.commission).sum +
      (b.open_.map fun op => op.entryCostsAccount.commission + op.entryCostsAccount.premium).sum
  financing : b.costs.financing = (b.exitLegs.map ExitLeg.financingCost).sum
  flat : b.open_ = [] → b.costs.spread = (b.trades.map Trade.spreadCost).sum ∧
    b.costs.slippage = (b.trades.map Trade.slippageCost).sum ∧
    b.costs.commission + b.costs.guaranteedStopPremium = (b.trades.map Trade.commission).sum ∧
    b.costs.financing = (b.trades.map Trade.financingCost).sum

theorem identity_after (initial : ℚ) (calls : List BookCall) :
    Identity initial (Runs.exec (call env) (fresh initial) calls) := by
  generalize hb : Runs.exec (call env) (fresh initial) calls = b
  have h : Sound initial b (b.open_.map ManagedPosition.account) :=
    hb ▸ sound_after env initial calls
  have hledger := h.ledger .net
  have hcharges : ∀ c, Conserved (b.costs.charge c)
      (b.exitLegs.map (ExitLeg.column · c.column)).sum (b.open_.map (ManagedPosition.pool · c)) :=
    fun c => by
      have := h.charges c
      rwa [List.map_map] at this
  rw [List.map_map] at hledger
  refine ⟨h.balance, h.realised, h.balanced, hledger.symm, hcharges .spread, hcharges .slippage,
    hcharges .commission, ?_, fun hflat => ?_⟩
  · have hpools : (b.open_.map (ManagedPosition.pool · .financing)).sum = 0 := by
      simp [ManagedPosition.pool]
    have hfinancing := hcharges .financing
    rw [Conserved, hpools, add_zero] at hfinancing
    exact hfinancing
  · have hclosed : ∀ c : Charge, b.costs.charge c = (b.trades.map (Trade.column · c.column)).sum :=
      fun c => by
        have hrows := h.ledger c.column
        have htotal := h.charges c
        rw [hflat] at hrows htotal
        exact htotal.all_settled.trans hrows.all_settled
    exact ⟨hclosed .spread, hclosed .slippage, hclosed .commission, hclosed .financing⟩

end PositionBook

end Fiboki
