import Fiboki.Broker.Restart
import Fiboki.Lib.Turnover

/-!
The check before an order is dealt against the book's own decision on it later: when the two
agree, whatever happens in between.
-/

namespace Fiboki

open Turnover

def PositionBook.shapes (b : PositionBook) : List (ℕ × String) := b.open_.map ManagedPosition.shape

/-- A book some time after another: who was there before is there still or has left, and who came
since has a later number. -/
structure Since (b₀ b : PositionBook) : Prop where
  nodup : (b.shapes.map Prod.fst).Nodup
  bounded : ∀ x ∈ b.shapes, x.1 ≤ b.seq
  le : b₀.seq ≤ b.seq
  stayed : (old b₀.seq b.shapes).Sublist b₀.shapes

namespace Since

variable {env : BookSetup} {b₀ b b' : PositionBook} {t : Turn} {v : BarSlice}

theorem fresh (balance : ℚ) : Since (.fresh balance) (.fresh balance) :=
  ⟨List.nodup_nil, by simp [PositionBook.shapes, PositionBook.fresh], le_rfl, List.Sublist.refl _⟩

theorem now (h : Since b₀ b) : Since b b := ⟨h.nodup, h.bounded, le_rfl, List.filter_sublist⟩

theorem keep (h : Since b₀ b) (hsub : b'.shapes.Sublist b.shapes) (hseq : b.seq ≤ b'.seq) :
    Since b₀ b' where
  nodup := h.nodup.sublist (hsub.map Prod.fst)
  bounded x hx := (h.bounded x (hsub.subset hx)).trans hseq
  le := h.le.trans hseq
  stayed := (hsub.filter _).trans h.stayed

theorem come (h : Since b₀ b) (symbol : String)
    (hshapes : b'.shapes = b.shapes ++ [(b.seq + 1, symbol)]) (hseq : b'.seq = b.seq + 1) :
      Since b₀ b' where
  nodup := by
    rw [hshapes, List.map_append, List.map_singleton, List.nodup_append]
    refine ⟨h.nodup, List.nodup_singleton _, fun n hn n' hn' => ?_⟩
    obtain ⟨x, hx, rfl⟩ := List.mem_map.1 hn
    have hle := h.bounded x hx
    rw [List.mem_singleton.1 hn']
    omega
  bounded x hx := by
    rw [hshapes] at hx
    rw [hseq]
    rcases List.mem_append.1 hx with hx | hx
    · exact (h.bounded x hx).trans (Nat.le_succ _)
    · rw [List.mem_singleton.1 hx]
  le := by
    rw [hseq]
    exact h.le.trans (Nat.le_succ _)
  stayed := by
    have hlate : ¬ b.seq + 1 ≤ b₀.seq := by
      have hle := h.le
      omega
    rw [hshapes, old, List.filter_append, List.filter_singleton, decide_eq_false hlate, cond_false,
      List.append_nil]
    exact h.stayed

theorem keptByLabels (b₀ : PositionBook) : KeptByLabels (Since b₀) := by
  intro b f hf h
  have hsame : (b.open_.map f).map ManagedPosition.shape = b.shapes := by
    rw [List.map_map]
    exact List.map_congr_left fun op _ => (hf op).1
  refine h.keep ?_ (Nat.le_refl _)
  rw [PositionBook.shapes, hsame]

theorem charge (h : Since b₀ b) (v : BarSlice) : Since b₀ (env.chargeFinancing v b).2 := by
  obtain ⟨hsame, hopen⟩ := env.sameBook_chargeFinancing v b
  apply h.keep _ hsame.seq.ge
  rw [PositionBook.shapes, hopen]
  exact List.Sublist.refl _

theorem runPendingCloses (h : Since b₀ t.book) (v : BarSlice) :
    Since b₀ (env.runPendingCloses v t).book := by
  obtain ⟨legs, hclosed, hsub, -⟩ :=
    Turn.Emits.runCloses env v ⟨t, t.book.open_, t.book.open_⟩ t.book.pendingCloses
  exact h.keep (hsub.map _) hclosed.seq.ge

theorem fillEntry (h : Since b₀ t.book) (v : BarSlice) (order : PendingEntry) :
    Since b₀ (env.fillEntry v t order).1.book := by
  rcases env.fillEntry_cases v t order with ⟨-, hstep⟩ | ⟨bar, -, -, ⟨reason, -, hstep⟩ |
    ⟨-, ⟨reason, -, hstep⟩ | ⟨fill, -, hstep⟩⟩⟩
  · rw [hstep]
    exact h
  · rw [hstep]
    exact h.keep (List.Sublist.refl _) le_rfl
  · rw [hstep]
    exact h.keep (List.Sublist.refl _) le_rfl
  · rw [hstep]
    refine h.come order.instrument.symbol ?_ rfl
    simp only [PositionBook.shapes, BookSetup.acceptEntry, List.map_append]
    rfl

theorem fillEach (h : Since b₀ t.book) (v : BarSlice) (orders : List PendingEntry) :
    Since b₀ (env.fillEach v t orders).1.book := by
  induction orders generalizing t with
  | nil => exact h
  | cons order orders ih => exact ih (h.fillEntry v order)

theorem resolveExits (h : Since b₀ t.book) (v : BarSlice) :
    Since b₀ (env.resolveExits v t).book := by
  obtain ⟨legs, hresolved, hsub⟩ := Turn.Emits.resolveEach env v t t.book.open_
  exact h.keep hsub hresolved.seq.ge

theorem advance (h : Since b₀ b) (v : BarSlice) : Since b₀ (env.advance v b).2 := by
  have hcharged : Since b₀ (env.chargeFinancing v b).2 := h.charge v
  rcases env.advance_cases v b with ⟨e, b', hcharge, hstep⟩ | ⟨b', result, hcharge, hstep, -⟩
  · rw [hcharge] at hcharged
    rw [hstep]
    exact hcharged
  · rw [hcharge] at hcharged
    rw [hstep]
    have hclosed : Since b₀ (env.runPendingCloses v ⟨b', .empty⟩).book :=
      runPendingCloses hcharged v
    have hfilled : Since b₀ (env.fillEntries v (env.runPendingCloses v ⟨b', .empty⟩)).book :=
      (hclosed.fillEach v _).keep (List.Sublist.refl _) le_rfl
    exact hfilled.resolveExits v

theorem flatten (h : Since b₀ b) (v : BarSlice) (reason : ExitReason)
    (which : ManagedPosition → Bool) : Since b₀ (env.flatten v reason which b).2 := by
  obtain ⟨-, -, hseq, hsub⟩ := env.flattenEach_keeps v reason ⟨b, .empty⟩ (b.open_.filter which)
  exact h.keep (hsub.map _) hseq.ge

theorem scheduleReversal (h : Since b₀ b) (instrument : String) (direction : Direction)
    (index : ℤ) :
    Since b₀ (b.scheduleReversal env instrument direction index).2 := by
  simp only [PositionBook.scheduleReversal]
  split_ifs
  · exact h
  obtain ⟨hle, hops, -⟩ := Sound.scheduleLoop_spec instrument direction
    (index + 1 + env.latencyBars) b.open_ b.seq
  have hshapes : (PositionBook.scheduleLoop instrument direction (index + 1 + env.latencyBars)
      b.open_ b.seq).2.1.map ManagedPosition.shape = b.shapes := by
    rw [hops, List.map_map]
    apply List.map_congr_left
    intro op _
    simp only [Function.comp]
    split_ifs <;> rfl
  refine h.keep ?_ hle
  rw [PositionBook.shapes, hshapes]

end Since

section Life

variable {σ : Type} (setup : ManagerSetup σ) (iso : IsoFormat)

/-- What a process does with its manager: it calls it, in any world, puts recovered positions back,
and before it deals it schedules on the book the reversal a signal implies.  It can be restarted at
any time. -/
inductive Later (m : VenuePositionManager) : VenuePositionManager → Prop
  | refl : Later m m
  | call {m' : VenuePositionManager} (w : World σ) (c : ManagerCall) :
      Later m m' → Later m (setup.call m' w c).2.1
  | resumed {m' : VenuePositionManager} (recovered : List RecoveredPosition) (barIndex : ℤ)
      (reattach : Bool) (w : World σ) :
      Later m m' → Later m (setup.resume m' recovered barIndex reattach w).manager
  | reversed {m' : VenuePositionManager} (instrument : String) (direction : Direction) :
      Later m m' → Later m { m' with book :=
        (m'.book.scheduleReversal setup.book instrument direction m'.driver.barIndex).2 }
  | bumped {m' : VenuePositionManager} (reason : String) :
      Later m m' → Later m { m' with book := m'.book.bump reason }
  | restored {m' m'' : VenuePositionManager} (initialBalance : ℚ)
      (intervals : Dict String Timedelta) :
      Later m m' →
      (VenuePositionManager.freshWith initialBalance intervals).restoreState iso setup.instruments
        (m'.exportState iso) = .ok m'' →
      Later m m''

def Reached (m : VenuePositionManager) : Prop :=
  ∃ initialBalance intervals, Later setup iso (.freshWith initialBalance intervals) m

variable {setup iso} {b₀ : PositionBook} {m m' : VenuePositionManager}

theorem Since.call (h : Since b₀ m.book) (w : World σ) (c : ManagerCall) :
    Since b₀ (setup.call m w c).2.1.book := by
  cases c with
  | onBar bars barIndex timestamp series =>
    apply (Since.keptByLabels b₀).onBar setup
    unfold BookDriver.advance
    split_ifs
    · exact h
    · split
      · exact h
      · exact h.advance _
  | flatten bars reason which =>
    exact (Since.keptByLabels b₀).flatten setup h bars reason which w
      fun v => h.flatten v reason which
  | adopt order ack strategyId positionId =>
    unfold ManagerSetup.call VenuePositionManager.adopt
    dsimp only
    split_ifs
    · exact h
    · exact h
    · exact h.keep (List.Sublist.refl _) (Nat.le_succ _)
  | precheckEntry instrument bump =>
    unfold ManagerSetup.call VenuePositionManager.precheckEntry
    dsimp only
    split
    · exact h
    · cases bump with
      | true => exact h.keep (List.Sublist.refl _) (Nat.le_succ _)
      | false => exact h
  | account =>
    unfold ManagerSetup.call VenuePositionManager.account
    cases m.markToMarket setup.book with
    | none | some marked => exact h
  | reconcile positions repair => exact (Since.keptByLabels b₀).reconcile setup h positions repair w
  | setBarInterval symbol interval => exact h

theorem registered_later (h : m.book.Registered setup.instruments) (hlater : Later setup iso m m') :
    m'.book.Registered setup.instruments := by
  induction hlater with
  | refl => exact h
  | call w c _ ih => exact Restart.registered_call setup ih w c
  | resumed recovered barIndex reattach w _ ih =>
    exact Restart.registered_resume setup ih recovered barIndex reattach w
  | @reversed m' instrument direction _ ih =>
    have hm' := ih
    simp only [PositionBook.scheduleReversal]
    split_ifs
    · exact hm'
    · refine ⟨fun op hop => ?_, hm'.pending⟩
      dsimp only at hop
      rw [(Sound.scheduleLoop_spec instrument direction _ m'.book.open_ m'.book.seq).2.1] at hop
      obtain ⟨op', hop', rfl⟩ := List.mem_map.1 hop
      split_ifs <;> exact hm'.open_ op' hop'
  | bumped reason _ ih => exact ⟨ih.open_, ih.pending⟩
  | restored initialBalance intervals _ h ih =>
    rw [VenuePositionManager.restoreState_exportState iso setup.instruments ih] at h
    obtain rfl := Except.ok.inj h
    exact ⟨ih.open_, ih.pending⟩

theorem Since.later (hm : m.book.Registered setup.instruments) (h : Since b₀ m.book)
    (hlater : Later setup iso m m') : Since b₀ m'.book := by
  induction hlater with
  | refl => exact h
  | call w c _ ih => exact ih.call w c
  | resumed recovered barIndex reattach w _ ih =>
    apply (Since.keptByLabels b₀).resume setup ih
    intro b item intent hb
    refine hb.come item.position.instrument ?_ rfl
    simp only [PositionBook.shapes, List.map_append]
    rfl
  | reversed instrument direction _ ih => exact ih.scheduleReversal instrument direction _
  | bumped reason _ ih => exact ih.keep (List.Sublist.refl _) (Nat.le_refl _)
  | restored initialBalance intervals hlater h ih =>
    rw [VenuePositionManager.restoreState_exportState iso setup.instruments
      (registered_later hm hlater)] at h
    obtain rfl := Except.ok.inj h
    exact ⟨ih.nodup, ih.bounded, ih.le, ih.stayed⟩

theorem Reached.registered (h : Reached setup iso m) : m.book.Registered setup.instruments := by
  obtain ⟨initialBalance, intervals, hlater⟩ := h
  exact registered_later (PositionBook.Holds.fresh initialBalance) hlater

theorem Reached.since (h : Reached setup iso m) : Since m.book m.book := by
  obtain ⟨initialBalance, intervals, hlater⟩ := h
  exact (Since.later (PositionBook.Holds.fresh initialBalance) (.fresh initialBalance) hlater).now

theorem Reached.since_later (h : Reached setup iso m) (hlater : Later setup iso m m') :
    Since m.book m'.book := Since.later h.registered h.since hlater

end Life

namespace Precheck

section Answers

variable {σ : Type} (setup : ManagerSetup σ)

def closing (m : VenuePositionManager) : List ℕ :=
  (m.book.pendingCloses.filter fun c =>
    c.actionableIndex ≤ m.driver.barIndex + 1 + setup.latencyBars).map PendingClose.positionSeq

def netted (m : VenuePositionManager) : List (ℕ × String) :=
  m.book.shapes.filter fun x => x.1 ∈ closing setup m

def counted (m : VenuePositionManager) : List (ℕ × String) :=
  m.book.shapes.filter fun x => ¬ x.1 ∈ closing setup m

theorem countP_shapes (b : PositionBook) (symbol : String) :
    b.open_.countP (fun op => op.position.instrument = symbol) =
      b.shapes.countP fun x => x.2 = symbol := by
  rw [PositionBook.shapes, List.countP_map]
  rfl

def refusal (m : VenuePositionManager) (instrument : String) : Option String :=
  if m.driver.barIndex + 1 + setup.latencyBars ≤
    (m.book.cooldownUntil.get instrument).getD (-1) then
    some "cooldown"
  else if setup.book.config.maxConcurrent ≤ (counted setup m).length then some "max_concurrent"
  else if setup.book.config.maxPerInstrument ≤
      (counted setup m).countP (fun x => x.2 = instrument) then
    some "max_per_instrument"
  else none

theorem precheckEntry_eq (m : VenuePositionManager) (instrument : String) (bump : Bool) :
    m.precheckEntry setup.book setup.latencyBars instrument bump =
      match refusal setup m instrument with
      | none => (none, m)
      | some reason =>
        (some reason, if bump then { m with book := (m.book.bump reason).nextSeq } else m) := by
  have hcounted : counted setup m =
      (m.book.open_.filter fun op => op.seq ∉ closing setup m).map ManagedPosition.shape := by
    rw [counted, PositionBook.shapes, List.filter_map]
    rfl
  rw [refusal, hcounted, List.length_map, List.countP_map]
  rfl

theorem refusal_eq_none {m : VenuePositionManager} {instrument : String} :
    refusal setup m instrument = none ↔
      (m.book.cooldownUntil.get instrument).getD (-1) < m.driver.barIndex + 1 + setup.latencyBars ∧
        (counted setup m).length < setup.book.config.maxConcurrent ∧
        (counted setup m).countP (fun x => x.2 = instrument) <
          setup.book.config.maxPerInstrument := by
  unfold refusal
  split_ifs <;> simp_all

end Answers

section Decisions

variable {σ : Type} (setup : ManagerSetup σ) (iso : IsoFormat)

/-- The turn in which a bar decides an order: its closes have run, and the orders queued before
this one have been dealt with. -/
structure Deciding (m : VenuePositionManager) (entry : PendingEntry) (v : BarSlice) (t : Turn) :
    Prop where
  view : ∃ bars timestamp ts series, m.driver.barIndex < v.index ∧
    BookDriver.stepTime bars timestamp = some ts ∧
    v = ({ m.driver with barIndex := v.index, now := some ts }.roll bars).sliceFor bars v.index ts
      m.driver.now series
  reached : ∃ b before rest, setup.book.chargeFinancing v m.book = (.ok (), b) ∧
    (setup.book.runPendingCloses v ⟨b, .empty⟩).book.pending = before ++ entry :: rest ∧
    t = (setup.book.fillEach v (setup.book.runPendingCloses v ⟨b, .empty⟩) before).1
  decided : (setup.book.fillEntry v t entry).2 = false

/-- An order that the check let through, dealt and adopted before another bar, and the turn in
which the book decides it. -/
structure Decision (m₀ : VenuePositionManager) (order : Order) (entry : PendingEntry)
    (v : BarSlice) (t : Turn) : Prop where
  reached : Reached setup iso m₀
  checked : ∃ bump, (m₀.precheckEntry setup.book setup.latencyBars order.instrument bump).1 = none
  adopted : ∃ m₁ m₂ m₃ ack strategyId positionId clock, Later setup iso m₀ m₁ ∧
    m₁.driver.barIndex = m₀.driver.barIndex ∧
    m₁.adopt setup.instruments setup.latencyBars order ack strategyId positionId clock =
      (.ok entry, m₂) ∧
    Later setup iso m₂ m₃ ∧ Deciding setup m₃ entry v t

def gates : List String := ["cooldown", "max_concurrent", "max_per_instrument"]

def GateRefused (v : BarSlice) (t : Turn) (entry : PendingEntry) : Prop :=
  ∃ reason ∈ gates, setup.book.fillEntry v t entry = (BookSetup.refuseEntry t entry reason, false)

/-- Those who came since the check, and those it took to be closed, fit in the room it saw and the
room made by those who left. -/
def Fits (m₀ : VenuePositionManager) (b : PositionBook) (limit : ℕ)
    (p : ℕ × String → Bool) : Prop :=
  ((new m₀.book.seq b.shapes).countP p + (netted setup m₀).countP p : ℤ) <
    (limit - (counted setup m₀).countP p : ℤ) + (gone m₀.book.shapes b.shapes).countP p

/-- What the check saw of the gates still holds at the bar that decides. -/
structure Kept (m₀ : VenuePositionManager) (entry : PendingEntry) (v : BarSlice) (t : Turn) :
    Prop where
  cooled : (t.book.cooldownUntil.get entry.instrument.symbol).getD (-1) < v.index
  fits : setup.book.eventBlock entry.instrument.symbol v.timestamp = none →
    Fits setup m₀ t.book setup.book.config.maxConcurrent (fun _ => true) ∧
      Fits setup m₀ t.book setup.book.config.maxPerInstrument
        (fun x => x.2 = entry.instrument.symbol)

/-- Nothing came since the check, the positions it took to be closed have left, and the cooldown is
the one it read. -/
structure Quiet (m₀ : VenuePositionManager) (asked : String) (entry : PendingEntry) (t : Turn) :
    Prop where
  spelled : asked = entry.instrument.symbol
  cooldown : t.book.cooldownUntil.get asked = m₀.book.cooldownUntil.get asked
  none_new : new m₀.book.seq t.book.shapes = []
  netted_left : (netted setup m₀).Sublist (gone m₀.book.shapes t.book.shapes)

variable {setup iso} {m₀ m m' : VenuePositionManager} {order : Order} {entry : PendingEntry}
  {v : BarSlice} {t : Turn} {b : PositionBook}

theorem fits_iff (h₀ : Since m₀.book m₀.book) (h : Since m₀.book b) (limit : ℕ)
    (p : ℕ × String → Bool) : Fits setup m₀ b limit p ↔ b.shapes.countP p < limit := by
  have hbalance := countP_balance h.stayed h₀.nodup h₀.bounded p
  have hparts : m₀.book.shapes.countP p =
      (netted setup m₀).countP p + (counted setup m₀).countP p := by
    rw [List.countP_eq_countP_filter_add m₀.book.shapes p fun x => x.1 ∈ closing setup m₀, netted,
      counted]
    congr 2
    apply List.filter_congr
    intro x _
    simp
  unfold Fits
  omega

theorem adopt_eq_ok {ack : OrderAck} {strategyId positionId : String} {clock : Timestamp}
    (h : m.adopt setup.instruments setup.latencyBars order ack strategyId positionId clock =
      (.ok entry, m')) :
    entry.actionableIndex = m.driver.barIndex + 1 + setup.latencyBars ∧
      entry.instrument = setup.instruments.get order.instrument ∧
      m'.book = m.book.nextSeq.queueEntry entry := by
  unfold VenuePositionManager.adopt at h
  split_ifs at h
  · cases h
  · cases h
  · cases h
    exact ⟨rfl, rfl, rfl⟩

theorem fillEntry_not_waiting (h : (setup.book.fillEntry v t entry).2 = false) :
    entry.actionableIndex ≤ v.index := by
  rcases setup.book.fillEntry_cases v t entry with ⟨-, hstep⟩ | ⟨bar, hdue, -⟩
  · rw [hstep] at h
    cases h
  · exact hdue

theorem Decision.since (h : Decision setup iso m₀ order entry v t) :
    Since m₀.book t.book ∧ m₀.driver.barIndex + 1 + setup.latencyBars ≤ v.index := by
  obtain ⟨m₁, m₂, m₃, ack, strategyId, positionId, clock, hbefore, hindex, hadopt, hafter,
    hdeciding⟩ := h.adopted
  obtain ⟨hactionable, hinstrument, hbook⟩ := adopt_eq_ok hadopt
  constructor
  · have hregistered : m₁.book.Registered setup.instruments :=
      registered_later h.reached.registered hbefore
    have hregistered' : m₂.book.Registered setup.instruments := by
      have hentry := setup.instruments.get_symbol order.instrument
      rw [← hinstrument] at hentry
      rw [hbook]
      exact PositionBook.Holds.queueEntry ⟨hregistered.open_, hregistered.pending⟩ hentry
    have hadopted : Since m₀.book m₂.book := by
      rw [hbook]
      exact (h.reached.since_later hbefore).keep (List.Sublist.refl _) (Nat.le_succ _)
    have hbar : Since m₀.book m₃.book := Since.later hregistered' hadopted hafter
    obtain ⟨b, before, rest, hcharge, -, rfl⟩ := hdeciding.reached
    have hcharged : Since m₀.book (setup.book.chargeFinancing v m₃.book).2 := hbar.charge v
    rw [hcharge] at hcharged
    have hclosed : Since m₀.book (setup.book.runPendingCloses v ⟨b, .empty⟩).book :=
      Since.runPendingCloses hcharged v
    exact hclosed.fillEach v before
  · have hdue := fillEntry_not_waiting hdeciding.decided
    rw [hactionable, hindex] at hdue
    exact hdue

theorem eventBlock_not_gate {symbol reason : String} {ts : Timestamp}
    (h : setup.book.eventBlock symbol ts = some reason) : reason ∉ gates := by
  unfold BookSetup.eventBlock EventBlackout.blocks at h
  split at h
  · cases h
  · split_ifs at h
    · cases h
      decide
    · cases h
      decide
    · split at h
      · split_ifs at h
        cases h
        decide
      · cases h

theorem rejectReason_not_gate (reason : RejectReason) : reason.value ∉ gates := by
  cases reason <;> decide

theorem entryRefusal_gate_iff {symbol : String} :
    (∃ reason ∈ gates, setup.book.entryRefusal b v symbol = some reason) ↔
      ¬ ((b.cooldownUntil.get symbol).getD (-1) < v.index ∧
        (setup.book.eventBlock symbol v.timestamp = none →
          b.shapes.countP (fun _ => true) < setup.book.config.maxConcurrent ∧
          b.shapes.countP (fun x => x.2 = symbol) < setup.book.config.maxPerInstrument)) := by
  have hlength : b.shapes.countP (fun _ => true) = b.open_.length := by
    rw [List.countP_true, PositionBook.shapes, List.length_map]
  rw [hlength, ← countP_shapes]
  unfold BookSetup.entryRefusal
  by_cases hcool : v.index ≤ (b.cooldownUntil.get symbol).getD (-1)
  · rw [if_pos hcool]
    exact iff_of_true ⟨_, by decide, rfl⟩ fun h => absurd h.1 (not_lt.2 hcool)
  rw [if_neg hcool]
  cases hevent : setup.book.eventBlock symbol v.timestamp with
  | some blocked =>
    refine iff_of_false ?_ fun h => h ⟨not_le.1 hcool, fun hnone => by cases hnone⟩
    rintro ⟨reason, hgate, hreason⟩
    cases hreason
    exact eventBlock_not_gate hevent hgate
  | none =>
    dsimp only
    split_ifs with hconcurrent hinstrument
    · exact iff_of_true ⟨_, by decide, rfl⟩ fun h => absurd (h.2 rfl).1 (not_lt.2 hconcurrent)
    · exact iff_of_true ⟨_, by decide, rfl⟩ fun h => absurd (h.2 rfl).2 (not_lt.2 hinstrument)
    · refine iff_of_false ?_ fun h => h
        ⟨not_le.1 hcool, fun _ => ⟨not_le.1 hconcurrent, not_le.1 hinstrument⟩⟩
      rintro ⟨reason, -, hreason⟩
      cases hreason

theorem refuseEntry_inj {reason reason' : String}
    (h : BookSetup.refuseEntry t entry reason = BookSetup.refuseEntry t entry reason') :
    reason = reason' := by
  have hentries := congrArg (fun t : Turn => t.result.entries) h
  simp only [BookSetup.refuseEntry, List.append_cancel_left_eq, List.cons.injEq,
    EntryEvent.mk.injEq, and_true, true_and] at hentries
  exact hentries

theorem gateRefused_iff (h : (setup.book.fillEntry v t entry).2 = false) :
    GateRefused setup v t entry ↔
      ∃ reason ∈ gates, setup.book.entryRefusal t.book v entry.instrument.symbol = some reason := by
  unfold GateRefused
  rcases setup.book.fillEntry_cases v t entry with ⟨-, hstep⟩ | ⟨bar, -, -,
    ⟨reason, hrefusal, hstep⟩ |
    ⟨hopen, ⟨reason, -, hstep⟩ | ⟨fill, -, hstep⟩⟩⟩
  · rw [hstep] at h
    cases h
  · rw [hrefusal, hstep]
    constructor
    · rintro ⟨gate, hgate, hsame⟩
      rw [refuseEntry_inj (congrArg Prod.fst hsame)]
      exact ⟨gate, hgate, rfl⟩
    · rintro ⟨gate, hgate, hsame⟩
      cases hsame
      exact ⟨_, hgate, rfl⟩
  · rw [hopen, hstep]
    refine iff_of_false ?_ (by simp)
    rintro ⟨gate, hgate, hsame⟩
    rw [← refuseEntry_inj (congrArg Prod.fst hsame)] at hgate
    exact rejectReason_not_gate reason hgate
  · rw [hopen, hstep]
    refine iff_of_false ?_ (by simp)
    rintro ⟨gate, hgate, hsame⟩
    have hentries := congrArg (fun s : Turn × Bool => s.1.result.entries) hsame
    simp [BookSetup.acceptEntry, BookSetup.refuseEntry] at hentries

theorem Decision.refusal_eq_none (h : Decision setup iso m₀ order entry v t) :
    refusal setup m₀ order.instrument = none := by
  obtain ⟨bump, hchecked⟩ := h.checked
  rw [precheckEntry_eq] at hchecked
  cases hrefusal : refusal setup m₀ order.instrument with
  | none => rfl
  | some reason =>
    rw [hrefusal] at hchecked
    cases hchecked

theorem kept_iff (h : Decision setup iso m₀ order entry v t) :
    ¬ GateRefused setup v t entry ↔ Kept setup m₀ entry v t := by
  obtain ⟨hsince, -⟩ := h.since
  have h₀ := h.reached.since
  have hdecided : (setup.book.fillEntry v t entry).2 = false := by
    obtain ⟨m₁, m₂, m₃, ack, strategyId, positionId, clock, -, -, -, -, hdeciding⟩ := h.adopted
    exact hdeciding.decided
  rw [gateRefused_iff hdecided, entryRefusal_gate_iff, not_not]
  constructor
  · rintro ⟨hcooled, hfits⟩
    refine ⟨hcooled, fun hevent => ?_⟩
    rw [fits_iff h₀ hsince, fits_iff h₀ hsince]
    exact hfits hevent
  · intro hkept
    refine ⟨hkept.cooled, fun hevent => ?_⟩
    rw [← fits_iff h₀ hsince, ← fits_iff h₀ hsince]
    exact hkept.fits hevent

theorem kept_of_quiet (h : Decision setup iso m₀ order entry v t)
    (hquiet : Quiet setup m₀ order.instrument entry t) : Kept setup m₀ entry v t := by
  obtain ⟨hcool, hconcurrent, hinstrument⟩ := (refusal_eq_none setup).1 h.refusal_eq_none
  rw [← List.countP_true] at hconcurrent
  rw [hquiet.spelled] at hinstrument
  have hfits : ∀ (limit : ℕ) (p : ℕ × String → Bool), (counted setup m₀).countP p < limit →
      Fits setup m₀ t.book limit p := by
    intro limit p hlimit
    have hle : (netted setup m₀).countP p ≤ (gone m₀.book.shapes t.book.shapes).countP p :=
      hquiet.netted_left.countP_le
    unfold Fits
    rw [hquiet.none_new, List.countP_nil]
    omega
  refine ⟨?_, fun _ => ⟨hfits _ _ hconcurrent, hfits _ _ hinstrument⟩⟩
  rw [← hquiet.spelled, hquiet.cooldown]
  exact hcool.trans_le h.since.2

theorem refused_seq {instrument reason : String} {bump : Bool}
    (h : m.precheckEntry setup.book setup.latencyBars instrument bump = (some reason, m')) :
    (bump = true → m'.book.seq = m.book.seq + 1) ∧ (bump = false → m' = m) := by
  rw [precheckEntry_eq] at h
  cases hrefusal : refusal setup m instrument with
  | none =>
    rw [hrefusal] at h
    cases h
  | some reason' =>
    rw [hrefusal] at h
    cases bump with
    | true =>
      cases h
      exact ⟨fun _ => rfl, fun hno => absurd hno.symm Bool.false_ne_true⟩
    | false =>
      cases h
      exact ⟨fun hyes => absurd hyes Bool.false_ne_true, fun _ => rfl⟩

end Decisions

/-- The check answers its gates: an order it lets through is turned away by none of them later, and
an order it turns away takes the number that queueing it would have taken. -/
def Exact {σ : Type} (setup : ManagerSetup σ) (iso : IsoFormat) : Prop :=
  (∀ m₀ order entry v t, Decision setup iso m₀ order entry v t → ¬ GateRefused setup v t entry) ∧
    ∀ m instrument reason m', Reached setup iso m →
      m.precheckEntry setup.book setup.latencyBars instrument true = (some reason, m') →
        ∀ terms strategyId ref, m'.book.seq = (queuePendingEntry setup.instruments m.book terms
          m.driver.barIndex setup.latencyBars strategyId ref none).2.seq

/-- An order that the check let through passes the gates exactly when what it saw of them still
holds, and it does where nothing came in between; a refusal takes the number that queueing would
have taken, unless the caller asked for none to be counted. -/
theorem precheck_exact_iff {σ : Type} (setup : ManagerSetup σ) (iso : IsoFormat) :
    (∀ m₀ order entry v t, Decision setup iso m₀ order entry v t →
      (¬ GateRefused setup v t entry ↔ Kept setup m₀ entry v t) ∧
        (Quiet setup m₀ order.instrument entry t → Kept setup m₀ entry v t)) ∧
    ∀ m instrument reason bump m', Reached setup iso m →
      m.precheckEntry setup.book setup.latencyBars instrument bump = (some reason, m') →
        (bump = false → m' = m) ∧
          (bump = true → m'.book.seq = m.book.seq + 1 ∧
            ∀ terms strategyId ref, m'.book.seq = (queuePendingEntry setup.instruments m.book terms
              m.driver.barIndex setup.latencyBars strategyId ref none).2.seq) := by
  constructor
  · intro m₀ order entry v t h
    exact ⟨kept_iff h, kept_of_quiet h⟩
  · intro m instrument reason bump m' _ h
    obtain ⟨hcounted, hleft⟩ := refused_seq h
    exact ⟨hleft, fun hbump => ⟨hcounted hbump, fun _ _ _ => hcounted hbump⟩⟩

section Sample

open Frictionless PendingCloses Restart

def single : ManagerSetup Unit :=
  { demoManager losesCloses with
    book := { book with config := { book.config with maxConcurrent := 1 } } }

def openWorld : World Unit := ⟨IntentStore.empty, ()⟩

def opened (calls : List ManagerCall) : VenuePositionManager :=
  (afterCalls single (.freshWith 100 .empty) openWorld (barCall 0 2 :: calls)).1

def adoptedAt (m : VenuePositionManager) : PendingEntry × VenuePositionManager :=
  m.adoptTerms instruments 0 order.terms none "s" "T2" "pos_2" 0

def secondBars : BarMap := barsAt "EURUSD" hourNs 2

def secondView (m : VenuePositionManager) : BarSlice :=
  ({ m.driver with barIndex := 1, now := some hourNs }.roll secondBars).sliceFor secondBars 1 hourNs
    m.driver.now noSeries

def decidingTurn (m : VenuePositionManager) (before : List PendingEntry) : Turn :=
  (single.book.fillEach (secondView m)
    (single.book.runPendingCloses (secondView m) ⟨m.book, .empty⟩) before).1

theorem later_afterCalls {σ : Type} {setup : ManagerSetup σ} {iso : IsoFormat}
    {m m' : VenuePositionManager} (h : Later setup iso m m') (w : World σ)
    (calls : List ManagerCall) : Later setup iso m (afterCalls setup m' w calls).1 := by
  unfold afterCalls
  induction calls generalizing m' w with
  | nil => exact h
  | cons c calls ih => exact ih (h.call w c) _

theorem reached_opened (calls : List ManagerCall) : Reached single morningIso (opened calls) :=
  ⟨100, .empty, later_afterCalls .refl _ _⟩

theorem decision_opened {calls : List ManagerCall} {before : List PendingEntry}
    (hindex : (opened calls).driver.barIndex = 0)
    (hchecked : ((opened calls).precheckEntry single.book 0 "EURUSD" true).1 = none)
    (hpending : (single.book.runPendingCloses (secondView (adoptedAt (opened calls)).2)
      ⟨(adoptedAt (opened calls)).2.book, .empty⟩).book.pending =
        before ++ [(adoptedAt (opened calls)).1])
    (hdecided : (single.book.fillEntry (secondView (adoptedAt (opened calls)).2)
      (decidingTurn (adoptedAt (opened calls)).2 before) (adoptedAt (opened calls)).1).2 = false) :
    Decision single morningIso (opened calls) order (adoptedAt (opened calls)).1
      (secondView (adoptedAt (opened calls)).2)
      (decidingTurn (adoptedAt (opened calls)).2 before) where
  reached := reached_opened _
  checked := ⟨true, hchecked⟩
  adopted := by
    have hadopt : (opened calls).adopt instruments 0 order (ackOf "T2" truthy_second)
      "s" "pos_2" 0 =
        (.ok (adoptedAt (opened calls)).1, (adoptedAt (opened calls)).2) := by
      unfold VenuePositionManager.adopt
      rw [if_neg (by decide), if_neg (by omega)]
      rfl
    have hlate : (adoptedAt (opened calls)).2.driver.barIndex < 1 := by
      change (opened calls).driver.barIndex < 1
      omega
    exact ⟨opened calls, _, _, _, _, _, _, .refl, rfl, hadopt, .refl,
      ⟨secondBars, none, hourNs, noSeries, hlate, rfl, rfl⟩, ⟨_, before, [], rfl, hpending, rfl⟩,
      hdecided⟩

def queuedFirst : VenuePositionManager :=
  opened [.adopt order (ackOf "T1" truthy_first) "s" "pos_1"]

theorem second_decision : Decision single morningIso queuedFirst order (adoptedAt queuedFirst).1
    (secondView (adoptedAt queuedFirst).2)
    (decidingTurn (adoptedAt queuedFirst).2 queuedFirst.book.pending) :=
  decision_opened (by decide +kernel) (by decide +kernel) (by decide +kernel) (by decide +kernel)

/-- The first order fills at the second bar, and the book is full. -/
theorem second_refused : ¬ Exact single morningIso := by
  intro h
  refine h.1 _ _ _ _ _ second_decision ((gateRefused_iff (by decide +kernel)).2 ?_)
  exact ⟨"max_concurrent", by decide, by decide +kernel⟩

theorem first_decision : Decision single morningIso (opened []) order (adoptedAt (opened [])).1
    (secondView (adoptedAt (opened [])).2) (decidingTurn (adoptedAt (opened [])).2 []) :=
  decision_opened (by decide +kernel) (by decide +kernel) (by decide +kernel) (by decide +kernel)

def full : VenuePositionManager :=
  opened [.adopt order (ackOf "T1" truthy_first) "s" "pos_1", barCall 1 2]

theorem first_not_refused : ¬ GateRefused single (secondView (adoptedAt (opened [])).2)
        (decidingTurn (adoptedAt (opened [])).2 []) (adoptedAt (opened [])).1 ∧
      (full.precheckEntry single.book single.latencyBars "EURUSD" true).1 = some "max_concurrent" ∧
      (full.precheckEntry single.book single.latencyBars "EURUSD" true).2.book.seq =
        full.book.seq + 1 := by
  have hnone : (full.precheckEntry single.book single.latencyBars "EURUSD" true).1 =
      some "max_concurrent" := by decide +kernel
  refine ⟨?_, hnone, ?_⟩
  · obtain ⟨hiff, hquiet⟩ := (precheck_exact_iff single morningIso).1 _ _ _ _ _ first_decision
    exact hiff.2 (hquiet ⟨by decide, by decide, by decide, by decide⟩)
  · exact (((precheck_exact_iff single morningIso).2 full "EURUSD" "max_concurrent" true _
      (reached_opened _) (Prod.ext hnone rfl)).2 rfl).1

end Sample

end Precheck

end Fiboki
