import Fiboki.Backtest.Ledger
import Fiboki.Backtest.OrderCustody

/-!
The trades of a book beside its final legs, and the decisions that opened their positions.
-/

namespace Fiboki

section Posted

variable {env : BookSetup} {entries : List EntryEvent}

def OpenedBy (env : BookSetup) (entries : List EntryEvent) (op : ManagedPosition) : Prop :=
  ∃ e ∈ entries, e.managed = some op.seq ∧ ∃ v fill, e.fill = some fill ∧
    SameTerms (env.openPosition v e.pending fill op.seq) op

def PositionKind.openedBy (env : BookSetup) (entries : List EntryEvent) : PositionKind env where
  Position := OpenedBy env entries
  Order _ := False
  stable := by
    rintro op op' h ⟨e, he, hs, v, fill, hfill, hterms⟩
    refine ⟨e, he, ?_, v, fill, hfill, ?_⟩
    · rw [h.seq]
      exact hs
    · rw [h.seq]
      exact hterms.trans h.toSameTerms
  opens _ _ _ _ h := h.elim

theorem Recorded.openedBy {rows : List ExitLeg} {live : List (Option BarSlice × ManagedPosition)}
    (h : Recorded env entries rows live) {p : Option BarSlice × ManagedPosition} (hp : p ∈ live) :
    OpenedBy env entries p.2 := by
  obtain ⟨e, he, hs⟩ := List.mem_filterMap.1 (h.opened p hp)
  obtain ⟨fill, stage, tr, hfill, hlives, hseq, -, hplace⟩ := h.lived e he _ hs
  obtain ⟨v, seq, hterms⟩ := hlives.terms
  rcases hplace with ⟨-, hmem⟩ | ⟨-, -, hgone⟩
  · obtain rfl := List.inj_on_of_nodup_map h.live_nodup hmem hp hseq
    obtain rfl : tr.op.seq = seq := hterms.seq
    exact ⟨e, he, hs, v, fill, hfill, hterms⟩
  · exact absurd rfl (hgone p hp)

def Posted (env : BookSetup) (entries : List EntryEvent) (b : PositionBook) : Prop :=
  ∃ posts : List (Closing × ExitReason), (∀ p ∈ posts, OpenedBy env entries p.1.op) ∧
    b.exitLegs.filter ExitLeg.final = posts.map (fun p => env.legOf p.1) ∧
    b.trades = posts.map env.tradeOf

theorem Posted.go {entries' : List EntryEvent} {t t' : Turn} {time : Timestamp}
    (h : Posted env entries t.book) (hsub : entries ⊆ entries')
    (hposts : t.Posts (.openedBy env entries') time t') : Posted env entries' t'.book := by
  obtain ⟨posts, hopened, hlegs, htrades⟩ := h
  obtain ⟨posts', hopened', hlegs', htrades', -⟩ := hposts
  refine ⟨posts ++ posts', fun p hp => ?_, ?_, ?_⟩
  · rcases List.mem_append.1 hp with hp | hp
    · obtain ⟨e, he, hterms⟩ := hopened p hp
      exact ⟨e, hsub he, hterms⟩
    · exact (hopened' p hp).1
  · rw [hlegs', hlegs, List.map_append]
  · rw [htrades', htrades, List.map_append]

theorem Posted.stages {initial : ℚ} {b : PositionBook} (h : Posted env entries b)
    (hsound : Sound initial b (b.open_.map ManagedPosition.account))
    (hbounded : ∀ s ∈ entries.filterMap EntryEvent.managed, s ≤ b.seq)
    (hrecorded : Recorded env entries b.exitLegs (b.open_.map (Prod.mk none))) (v : BarSlice) :
    let t := env.resolveExits v (env.fillEntries v (env.runPendingCloses v ⟨b, .empty⟩))
    Posted env (entries ++ t.result.entries) t.book := by
  intro t
  obtain ⟨live, hfilled⟩ := hrecorded.filled hsound hbounded v
  obtain ⟨legs, hkept, -⟩ := Turn.Emits.resolveEach env v
    (env.fillEntries v (env.runPendingCloses v ⟨b, .empty⟩))
    (env.fillEntries v (env.runPendingCloses v ⟨b, .empty⟩)).book.open_
  have hentries : t.result.entries =
      (env.fillEntries v (env.runPendingCloses v ⟨b, .empty⟩)).result.entries := hkept.entries
  have hrecorded' := hfilled.recorded
  rw [← hentries] at hrecorded'
  refine h.go (t := ⟨b, .empty⟩) (List.subset_append_left _ _)
    ((Turn.Posts.runPendingCloses (v := v) _ fun op hop => ?_).trans
      ((Turn.Posts.fillEntries v _).trans (Turn.Posts.resolveExits _ fun op hop => ?_)))
  · obtain ⟨e, he, hterms⟩ := hrecorded.openedBy (List.mem_map_of_mem (f := Prod.mk none) hop)
    exact ⟨e, List.mem_append_left _ he, hterms⟩
  · rw [← hfilled.open_] at hop
    obtain ⟨p, hp, rfl⟩ := List.mem_map.1 hop
    exact hrecorded'.openedBy hp

namespace BookHistory

theorem Refines.posted {initial : ℚ} {h : BookHistory} (hr : h.Refines env)
    (hsound : Sound initial h.book (h.book.open_.map ManagedPosition.account))
    (hposted : Posted env h.entries h.book) (e : BookEvent) :
    Posted env (h.step env e).entries (h.step env e).book := by
  cases e with
  | queueEntry order | turnAway reason | bump reason => exact hposted
  | scheduleReversal instrument direction index =>
    simp only [BookHistory.step, PositionBook.scheduleReversal]
    split_ifs <;> exact hposted
  | advance v =>
    obtain ⟨posts, hopened, hlegs, htrades⟩ := hposted
    have hsame := (env.sameBook_chargeFinancing v h.book).1
    have hcharged : Posted env h.entries (env.chargeFinancing v h.book).2 :=
      ⟨posts, hopened, by rw [hsame.rows, hlegs], by rw [env.chargeFinancing_trades, htrades]⟩
    rcases h.step_advance env v with ⟨e, b', hcharge, hstep⟩ | ⟨b', hcharge, hstep⟩
    · rw [hcharge] at hcharged
      rw [hstep]
      exact hcharged
    · have hrecorded := hr.recorded.chargeFinancing v
      have hsound' := hsound.chargeFinancing env v
      rw [hcharge] at hcharged hrecorded hsound' hsame
      rw [hstep]
      exact hcharged.stages hsound' (fun s hs => (hr.bounded s hs).trans hsame.seq.ge) hrecorded v
  | flatten v reason which =>
    refine hposted.go (t := ⟨h.book, .empty⟩) (List.Subset.refl _)
      (Turn.Posts.flattenEach (v := v) _ reason.exitReason fun op hop => ?_)
    exact hr.recorded.openedBy (List.mem_map_of_mem (f := Prod.mk none)
      (List.mem_of_mem_filter hop))
  | clear => exact hposted

end BookHistory

end Posted

def tradeAllocationIndex (b : PositionBook) (byPosition : Dict ℕ ℕ) : List (Option ℕ) :=
  let finals := (b.exitLegs.filter ExitLeg.final).map ExitLeg.positionSeq
  (List.range b.trades.length).map fun k => finals[k]?.bind byPosition.get

/-- The allocation ledger of a run beside the history of its book: for each row the order that it
queued, and the rows of the orders that wait and of the positions that are open. -/
structure AllocationRun where
  history : BookHistory
  ledger : List (Option PendingEntry)
  byPending : Dict ℕ ℕ
  byPosition : Dict ℕ ℕ

/-- What the engine does under construction: it drops a signal, or it acts on its book. -/
inductive AllocationEvent where
  | dropped (reason : String)
  | act (e : BookEvent)

/-- One event of an advance, as the engine's loop over `advanced.entries` takes it. -/
def noteEntry (rows : Dict ℕ ℕ × Dict ℕ ℕ) (e : EntryEvent) : Dict ℕ ℕ × Dict ℕ ℕ :=
  match rows.1.get e.pending.seq with
  | none => rows
  | some row =>
    (rows.1.erase e.pending.seq,
      match e.managed with
      | some s => if e.filled then rows.2.set s row else rows.2
      | none => rows.2)

namespace AllocationRun

def step (env : BookSetup) (s : AllocationRun) : AllocationEvent → AllocationRun
  | .dropped reason =>
    { s with history := s.history.step env (.bump reason), ledger := s.ledger ++ [none] }
  | .act (.queueEntry order) =>
    let history := s.history.step env (.queueEntry order)
    { s with
      history := history
      ledger := s.ledger ++ [some { order with seq := history.book.seq }]
      byPending := s.byPending.set history.book.seq s.ledger.length }
  | .act e =>
    let history := s.history.step env e
    let rows := (history.entries.drop s.history.entries.length).foldl noteEntry
      (s.byPending, s.byPosition)
    { s with history := history, byPending := rows.1, byPosition := rows.2 }

def after (env : BookSetup) (initialBalance : ℚ) (events : List AllocationEvent) : AllocationRun :=
  Runs.exec (step env) ⟨.fresh initialBalance, [], .empty, .empty⟩ events

/-- Each order that waits and each position that was opened is linked to the row of its order. -/
structure Linked (queued : List PendingEntry) (entries : List EntryEvent)
    (ledger : List (Option PendingEntry)) (rows : Dict ℕ ℕ × Dict ℕ ℕ) : Prop where
  waiting : ∀ order ∈ queued, order ∉ entries.map EntryEvent.pending →
    ∃ i, rows.1.get order.seq = some i ∧ ledger[i]? = some (some order)
  filled : ∀ e ∈ entries, ∀ s, e.managed = some s →
    ∃ i, rows.2.get s = some i ∧ ledger[i]? = some (some e.pending)

namespace Linked

variable {queued : List PendingEntry} {entries : List EntryEvent}
  {ledger : List (Option PendingEntry)} {rows : Dict ℕ ℕ × Dict ℕ ℕ}

theorem grow (h : Linked queued entries ledger rows) (row : Option PendingEntry) :
    Linked queued entries (ledger ++ [row]) rows where
  waiting order horder hwaits := by
    obtain ⟨i, hget, hrow⟩ := h.waiting order horder hwaits
    exact ⟨i, hget, by rw [List.getElem?_append_left (List.getElem?_eq_some_iff.1 hrow).1, hrow]⟩
  filled e he s hs := by
    obtain ⟨i, hget, hrow⟩ := h.filled e he s hs
    exact ⟨i, hget, by rw [List.getElem?_append_left (List.getElem?_eq_some_iff.1 hrow).1, hrow]⟩

theorem queue (h : Linked queued entries ledger rows) {order : PendingEntry}
    (hfresh : ∀ other ∈ queued, other.seq ≠ order.seq) :
    Linked (queued ++ [order]) entries (ledger ++ [some order])
      (rows.1.set order.seq ledger.length, rows.2) where
  waiting other hother hwaits := by
    rcases List.mem_append.1 hother with hother | hother
    · obtain ⟨i, hget, hrow⟩ := (h.grow (some order)).waiting other hother hwaits
      exact ⟨i, (Dict.get_set_of_ne _ _ (hfresh other hother).symm).trans hget, hrow⟩
    · obtain rfl := List.mem_singleton.1 hother
      exact ⟨ledger.length, Dict.get_set_self _ _ _, List.getElem?_concat_length⟩
  filled := (h.grow (some order)).filled

theorem note (h : Linked queued entries ledger rows) (hseqs : (queued.map PendingEntry.seq).Nodup)
    {e : EntryEvent} (hqueued : e.pending ∈ queued)
    (hnew : e.pending ∉ entries.map EntryEvent.pending)
    (hfresh : ∀ s ∈ e.managed, s ∉ entries.filterMap EntryEvent.managed)
    (hdecided : e.filled = e.managed.isSome) :
    Linked queued (entries ++ [e]) ledger (noteEntry rows e) := by
  obtain ⟨i, hget, hrow⟩ := h.waiting e.pending hqueued hnew
  unfold noteEntry
  rw [hget]
  constructor
  · intro order horder hwaits
    rw [List.map_append, List.mem_append, not_or] at hwaits
    obtain ⟨j, hget', hrow'⟩ := h.waiting order horder hwaits.1
    refine ⟨j, (Dict.get_erase_of_ne _ fun hseq => hwaits.2 ?_).trans hget', hrow'⟩
    rw [List.inj_on_of_nodup_map hseqs horder hqueued hseq]
    exact List.mem_singleton_self _
  · intro e' he' s hs
    rcases List.mem_append.1 he' with he' | he'
    · obtain ⟨j, hget', hrow'⟩ := h.filled e' he' s hs
      refine ⟨j, ?_, hrow'⟩
      cases hmanaged : e.managed with
      | none => exact hget'
      | some s' =>
        have hne : s ≠ s' := by
          rintro rfl
          exact hfresh s hmanaged (List.mem_filterMap.2 ⟨e', he', hs⟩)
        dsimp only
        split_ifs
        · exact (Dict.get_set_of_ne _ _ hne.symm).trans hget'
        · exact hget'
    · obtain rfl := List.mem_singleton.1 he'
      refine ⟨i, ?_, hrow⟩
      rw [hs] at hdecided
      simp only [hs, hdecided, Option.isSome_some, if_true, Dict.get_set_self]

theorem notes (h : Linked queued entries ledger rows) (hseqs : (queued.map PendingEntry.seq).Nodup)
    {more : List EntryEvent} (hqueued : ∀ e ∈ entries ++ more, e.pending ∈ queued)
    (hpending : ((entries ++ more).map EntryEvent.pending).Nodup)
    (hmanaged : ((entries ++ more).filterMap EntryEvent.managed).Nodup)
    (hdecided : ∀ e ∈ entries ++ more, e.filled = e.managed.isSome) :
    Linked queued (entries ++ more) ledger (more.foldl noteEntry rows) := by
  induction more generalizing entries rows with
  | nil =>
    rw [List.append_nil]
    exact h
  | cons e more ih =>
    have hnew : e.pending ∉ entries.map EntryEvent.pending := by
      rw [List.map_append, List.map_cons] at hpending
      exact fun hmem => (List.disjoint_of_nodup_append hpending) hmem List.mem_cons_self
    have hfresh : ∀ s ∈ e.managed, s ∉ entries.filterMap EntryEvent.managed := by
      intro s hs hmem
      rw [List.filterMap_append, List.filterMap_cons_some hs] at hmanaged
      exact (List.disjoint_of_nodup_append hmanaged) hmem List.mem_cons_self
    have hstep := h.note hseqs (hqueued e (by simp)) hnew hfresh (hdecided e (by simp))
    rw [List.append_cons] at hqueued hpending hmanaged hdecided ⊢
    exact ih hstep hqueued hpending hmanaged hdecided

end Linked

variable {env : BookSetup} {initial : ℚ}

/-- What a run keeps: the facts of its book, and the links of its ledger. -/
structure Inv (env : BookSetup) (initial : ℚ) (s : AllocationRun) : Prop where
  sound : Sound initial s.history.book (s.history.book.open_.map ManagedPosition.account)
  refines : s.history.Refines env
  custody : s.history.Custody env
  posted : Posted env s.history.entries s.history.book
  linked : Linked s.history.queued s.history.entries s.ledger (s.byPending, s.byPosition)

theorem entries_step (h : BookHistory) (e : BookEvent) :
    ∃ more, (h.step env e).entries = h.entries ++ more := by
  cases e with
  | advance v =>
    rcases h.step_advance env v with ⟨_, _, -, hstep⟩ | ⟨b, -, hstep⟩
    · exact ⟨[], by rw [hstep, List.append_nil]⟩
    · exact ⟨_, by rw [hstep]⟩
  | _ => exact ⟨[], (List.append_nil _).symm⟩

variable {s : AllocationRun}

theorem Linked.act (h : s.Inv env initial) {e : BookEvent}
    (hqueued : (s.history.step env e).queued = s.history.queued) :
    Linked (s.history.step env e).queued (s.history.step env e).entries s.ledger
      (((s.history.step env e).entries.drop s.history.entries.length).foldl noteEntry
        (s.byPending, s.byPosition)) := by
  obtain ⟨more, hentries⟩ : ∃ more, (s.history.step env e).entries = s.history.entries ++ more :=
    entries_step s.history e
  have hcustody := h.custody.step e
  have hplaced := hcustody.placed
  have hnumbers := hcustody.nodup
  unfold BookHistory.numbers at hnumbers
  rw [List.append_assoc] at hnumbers
  have hseqs : ((s.history.step env e).queued.map PendingEntry.seq).Nodup := hnumbers.of_append_left
  rw [hqueued] at hplaced hseqs ⊢
  rw [hentries] at hplaced hnumbers ⊢
  rw [List.drop_left]
  have hdecided := hcustody.decided
  rw [hentries] at hdecided
  have hnodup := hplaced.nodup_iff.2 hseqs.of_map
  refine h.linked.notes hseqs (fun e' he' => ?_) ?_ ?_ hdecided
  · exact hplaced.subset (List.mem_append_left _
      (List.mem_append_right _ (List.mem_map_of_mem he')))
  · exact hnodup.of_append_left.of_append_right
  · exact hnumbers.of_append_right.of_append_right

theorem Inv.history (h : s.Inv env initial) (e : BookEvent) {ledger} {rows}
    (hlinked : Linked (s.history.step env e).queued (s.history.step env e).entries ledger rows) :
    Inv env initial ⟨s.history.step env e, ledger, rows.1, rows.2⟩ :=
  ⟨h.sound.historyStep env e, h.refines.step h.sound e, h.custody.step e,
    h.refines.posted h.sound h.posted e, hlinked⟩

theorem Inv.step (h : s.Inv env initial) (a : AllocationEvent) :
    (s.step env a).Inv env initial := by
  cases a with
  | dropped reason => exact h.history (.bump reason) (h.linked.grow none)
  | act e =>
    cases e with
    | queueEntry order =>
      refine h.history (.queueEntry order) (h.linked.queue fun other hother => ?_)
      have hmem : other.seq ∈ s.history.numbers := by
        unfold BookHistory.numbers
        exact List.mem_append_left _ (List.mem_append_left _ (List.mem_map_of_mem hother))
      exact Nat.ne_of_lt (Nat.lt_succ_of_le (h.custody.bounded _ hmem))
    | turnAway reason => exact h.history (.turnAway reason) (Linked.act h rfl)
    | bump reason => exact h.history (.bump reason) (Linked.act h rfl)
    | scheduleReversal instrument direction index =>
      exact h.history (.scheduleReversal instrument direction index) (Linked.act h rfl)
    | advance v =>
      refine h.history (.advance v) (Linked.act h ?_)
      rcases s.history.step_advance env v with ⟨_, _, -, hstep⟩ | ⟨b, -, hstep⟩
      · rw [hstep]
      · rw [hstep]
    | flatten v reason which => exact h.history (.flatten v reason which) (Linked.act h rfl)
    | clear => exact h.history .clear (Linked.act h rfl)

theorem inv_after (env : BookSetup) (initial : ℚ) (events : List AllocationEvent) :
    (after env initial events).Inv env initial := by
  refine Runs.exec_invariant (I := Inv env initial) (fun _ a h => h.step a) ?_ events
  refine ⟨Sound.empty initial, ⟨Recorded.empty env, ?_⟩, .fresh env initial, ⟨[], ?_, rfl, rfl⟩,
    ⟨?_, ?_⟩⟩
  all_goals simp [BookHistory.fresh]

end AllocationRun

/-- In every state of every run the final legs of the book and its trades stand in one order, each
pair of them for one closed position, and the index takes each trade to the row of the decision
that queued the order its position was opened by. -/
theorem trades_linked (env : BookSetup) (initial : ℚ) (events : List AllocationEvent) :
    let s := AllocationRun.after env initial events
    let finals := s.history.book.exitLegs.filter ExitLeg.final
    finals.length = s.history.book.trades.length ∧ ∃ posts : List (Closing × ExitReason),
        finals = posts.map (fun p => env.legOf p.1) ∧
        s.history.book.trades = posts.map env.tradeOf ∧
        tradeAllocationIndex s.history.book s.byPosition =
          posts.map (fun p => s.byPosition.get p.1.op.seq) ∧
        ∀ p ∈ posts, ∃ e ∈ s.history.entries, ∃ v fill i, e.managed = some p.1.op.seq ∧
          e.fill = some fill ∧ SameTerms (env.openPosition v e.pending fill p.1.op.seq) p.1.op ∧
          s.byPosition.get p.1.op.seq = some i ∧ s.ledger[i]? = some (some e.pending) := by
  intro s finals
  have hinv : s.Inv env initial := AllocationRun.inv_after env initial events
  obtain ⟨posts, hopened, hfinals, htrades⟩ := hinv.posted
  have hlength : (posts.map fun p => env.legOf p.1).length = (posts.map env.tradeOf).length := by
    rw [List.length_map, List.length_map]
  rw [← hfinals, ← htrades] at hlength
  refine ⟨hlength, posts, hfinals, htrades, ?_, fun p hp => ?_⟩
  · unfold tradeAllocationIndex
    dsimp only
    rw [hfinals, htrades]
    apply List.ext_getElem
    · simp
    · intro k hk hk'
      have hinside : k < posts.length := by simpa using hk'
      simp [hinside]
  · obtain ⟨e, he, hs, v, fill, hfill, hterms⟩ := hopened p hp
    obtain ⟨i, hget, hrow⟩ := hinv.linked.filled e he _ hs
    exact ⟨e, he, v, fill, i, hs, hfill, hterms, hget, hrow⟩

end Fiboki
