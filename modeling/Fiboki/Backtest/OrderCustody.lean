import Fiboki.Backtest.PositionLives

/-!
Custody of orders and numbers: every order that was queued is waiting, decided or dropped,
no number is given twice, and the book stays within its limits.
-/

namespace Fiboki

structure Issues (seq : ℕ) (new : List ℕ) (seq' : ℕ) : Prop where
  nodup : new.Nodup
  after : ∀ n ∈ new, seq < n
  within : ∀ n ∈ new, n ≤ seq'
  le : seq ≤ seq'

namespace Issues

variable {seq seq' seq'' : ℕ} {new new' : List ℕ}

theorem none (h : seq ≤ seq') : Issues seq [] seq' := ⟨List.nodup_nil, by simp, by simp, h⟩

theorem next (seq : ℕ) : Issues seq [seq + 1] (seq + 1) :=
  ⟨by simp, by simp, by simp, Nat.le_succ seq⟩

theorem append (h : Issues seq new seq') (h' : Issues seq' new' seq'') :
    Issues seq (new ++ new') seq'' where
  nodup := by
    apply List.nodup_append.2 ⟨h.nodup, h'.nodup, _⟩
    intro n hn n' hn'
    have hle := h.within n hn
    have hlt := h'.after n' hn'
    omega
  after n hn := by
    rcases List.mem_append.1 hn with hn | hn
    · exact h.after n hn
    · exact h.le.trans_lt (h'.after n hn)
  within n hn := by
    rcases List.mem_append.1 hn with hn | hn
    · exact (h.within n hn).trans h'.le
    · exact h'.within n hn
  le := h.le.trans h'.le

theorem scheduleLoop (instrument : String) (direction : Direction) (actionable : ℤ)
    (ops : List ManagedPosition) (seq : ℕ) :
    Issues seq ((PositionBook.scheduleLoop instrument direction actionable ops seq).2.2.map
      PendingClose.seq) (PositionBook.scheduleLoop instrument direction actionable ops seq).1 := by
  induction ops generalizing seq with
  | nil => exact none le_rfl
  | cons op ops ih =>
    simp only [PositionBook.scheduleLoop]
    split_ifs
    · exact (next seq).append (ih (seq + 1))
    · exact ih seq

end Issues

structure WithinLimits (config : BookConfig) (ops : List ManagedPosition) : Prop where
  concurrent : ops.length ≤ config.maxConcurrent
  perInstrument : ∀ symbol, ops.countP (fun op => op.position.instrument = symbol) ≤
    config.maxPerInstrument

theorem WithinLimits.shapes {config : BookConfig} {ops ops' : List ManagedPosition}
    (h : WithinLimits config ops)
    (hsub : (ops'.map ManagedPosition.shape).Sublist (ops.map ManagedPosition.shape)) :
    WithinLimits config ops' where
  concurrent := by
    have hle := hsub.length_le
    rw [List.length_map, List.length_map] at hle
    exact hle.trans h.concurrent
  perInstrument symbol := by
    have hle := hsub.countP_le (p := fun shape : ℕ × String => shape.2 = symbol)
    rw [List.countP_map, List.countP_map] at hle
    exact hle.trans (h.perInstrument symbol)

theorem WithinLimits.accept {env : BookSetup} {b : PositionBook} {v : BarSlice}
    {op : ManagedPosition} (h : WithinLimits env.config b.open_)
    (hchecked : env.entryRefusal b v op.position.instrument = none) :
    WithinLimits env.config (b.open_ ++ [op]) := by
  obtain ⟨-, hconcurrent, hinstrument⟩ := env.entryRefusal_none hchecked
  constructor
  · rw [List.length_append, List.length_singleton]
    omega
  · intro symbol
    rw [List.countP_append, List.countP_singleton]
    split_ifs with hsymbol
    · have hsame : op.position.instrument = symbol := of_decide_eq_true hsymbol
      rw [hsame] at hinstrument
      omega
    · exact h.perInstrument symbol

structure DecidesOrders (env : BookSetup) (t t' : Turn) (orders still : List PendingEntry)
    (events : List EntryEvent) : Prop where
  entries : t'.result.entries = t.result.entries ++ events
  orders : (still ++ events.map EntryEvent.pending).Perm orders
  decided : ∀ e ∈ events, e.filled = e.managed.isSome
  numbers : Issues t.book.seq (events.filterMap EntryEvent.managed) t'.book.seq
  pending : t'.book.pending = t.book.pending
  pendingCloses : t'.book.pendingCloses = t.book.pendingCloses
  limits : WithinLimits env.config t.book.open_ → WithinLimits env.config t'.book.open_

namespace DecidesOrders

variable {env : BookSetup} {t t' : Turn} {v : BarSlice}

theorem waits (t : Turn) (order : PendingEntry) : DecidesOrders env t t [order] [order] [] :=
  ⟨(List.append_nil _).symm, by simp, by simp, .none le_rfl, rfl, rfl, id⟩

theorem refuses (t : Turn) (order : PendingEntry) (reason : String) :
    DecidesOrders env t (BookSetup.refuseEntry t order reason) [order] []
      [⟨order, false, reason, none, none⟩] :=
  ⟨rfl, by simp, by simp, .none le_rfl, rfl, rfl, id⟩

variable (env) in
theorem fillEntry (v : BarSlice) (t : Turn) (order : PendingEntry) :
    ∃ events, DecidesOrders env t (env.fillEntry v t order).1 [order]
      (if (env.fillEntry v t order).2 then [order] else []) events := by
  rcases env.fillEntry_cases v t order with ⟨-, hstep⟩ | ⟨bar, -, -, ⟨reason, -, hstep⟩ |
    ⟨hchecked, ⟨reason, -, hstep⟩ | ⟨fill, -, hstep⟩⟩⟩
  · rw [hstep]
    exact ⟨[], waits t order⟩
  · rw [hstep]
    exact ⟨_, refuses t order reason⟩
  · rw [hstep]
    exact ⟨_, refuses t order reason.value⟩
  · rw [hstep]
    refine ⟨_, rfl, by simp, by simp, ?_, rfl, rfl, fun h => h.accept hchecked⟩
    exact Issues.next t.book.seq

variable (env) in
theorem fillEach (v : BarSlice) (t : Turn) (orders : List PendingEntry) :
    ∃ events, DecidesOrders env t (env.fillEach v t orders).1 orders (env.fillEach v t orders).2
      events := by
  induction orders generalizing t with
  | nil => exact ⟨[], (List.append_nil _).symm, by simp [BookSetup.fillEach], by simp,
      .none le_rfl, rfl, rfl, id⟩
  | cons order orders ih =>
    obtain ⟨events, hstep⟩ := fillEntry env v t order
    obtain ⟨events', hrest⟩ := ih (env.fillEntry v t order).1
    refine ⟨events ++ events', ?_, ?_, ?_, ?_, ?_, ?_, ?_⟩
    · rw [← List.append_assoc, ← hstep.entries]
      exact hrest.entries
    · have hkept : (env.fillEach v t (order :: orders)).2 =
          (if (env.fillEntry v t order).2 then [order] else []) ++
            (env.fillEach v (env.fillEntry v t order).1 orders).2 := by
        simp only [BookSetup.fillEach]
        split_ifs <;> rfl
      have hperm := hstep.orders.append hrest.orders
      rw [hkept, List.map_append]
      refine List.Perm.trans ?_ hperm
      rw [List.append_assoc, List.append_assoc]
      apply List.Perm.append_left
      rw [← List.append_assoc, ← List.append_assoc]
      exact List.perm_append_comm.append_right _
    · intro e he
      rcases List.mem_append.1 he with he | he
      · exact hstep.decided e he
      · exact hrest.decided e he
    · rw [List.filterMap_append]
      exact hstep.numbers.append hrest.numbers
    · exact hrest.pending.trans hstep.pending
    · exact hrest.pendingCloses.trans hstep.pendingCloses
    · exact fun h => hrest.limits (hstep.limits h)

end DecidesOrders

namespace BookHistory

variable {env : BookSetup} {h : BookHistory}

def numbers (h : BookHistory) : List ℕ :=
  h.queued.map PendingEntry.seq ++ h.closes.map PendingClose.seq ++
    h.entries.filterMap EntryEvent.managed

/-- Every order is in one place, every number is given once, and the limits are kept. -/
structure Custody (env : BookSetup) (h : BookHistory) : Prop where
  placed : (h.book.pending ++ h.entries.map EntryEvent.pending ++ h.cleared).Perm h.queued
  nodup : h.numbers.Nodup
  bounded : ∀ n ∈ h.numbers, n ≤ h.book.seq
  decided : ∀ e ∈ h.entries, e.filled = e.managed.isSome
  scheduled : h.book.pendingCloses ⊆ h.closes
  limits : WithinLimits env.config h.book.open_

theorem nodup_issued {numbers new : List ℕ} (numbers' : List ℕ) {seq seq' : ℕ}
    (hnodup : numbers.Nodup)
    (hbounded : ∀ n ∈ numbers, n ≤ seq) (hissues : Issues seq new seq')
    (hperm : numbers'.Perm (numbers ++ new)) : numbers'.Nodup ∧ ∀ n ∈ numbers', n ≤ seq' := by
  constructor
  · rw [hperm.nodup_iff]
    apply List.nodup_append.2 ⟨hnodup, hissues.nodup, _⟩
    intro n hn n' hn'
    have hle := hbounded n hn
    have hlt := hissues.after n' hn'
    omega
  · intro n hn
    rcases List.mem_append.1 (hperm.mem_iff.1 hn) with hn | hn
    · exact (hbounded n hn).trans hissues.le
    · exact hissues.within n hn

namespace Custody

theorem fresh (env : BookSetup) (initial : ℚ) : Custody env (fresh initial) where
  placed := by simp [BookHistory.fresh, PositionBook.fresh]
  nodup := by simp [numbers, BookHistory.fresh]
  bounded := by simp [numbers, BookHistory.fresh]
  decided := by simp [BookHistory.fresh]
  scheduled := by simp [BookHistory.fresh, PositionBook.fresh]
  limits := ⟨Nat.zero_le _, fun _ => Nat.zero_le _⟩

theorem congr {h' : BookHistory} (hc : Custody env h) (hpending : h'.book.pending = h.book.pending)
    (hqueued : h'.queued = h.queued)
    (hentries : h'.entries = h.entries) (hcleared : h'.cleared = h.cleared)
    (hcloses : h'.closes = h.closes) (hscheduled : h'.book.pendingCloses ⊆ h.book.pendingCloses)
    (hseq : h.book.seq ≤ h'.book.seq)
    (hopen : (h'.book.open_.map ManagedPosition.shape).Sublist
      (h.book.open_.map ManagedPosition.shape)) : Custody env h' := by
  have hnumbers : h'.numbers = h.numbers := by
    simp only [BookHistory.numbers, hqueued, hcloses, hentries]
  constructor
  · rw [hpending, hentries, hcleared, hqueued]
    exact hc.placed
  · rw [hnumbers]
    exact hc.nodup
  · rw [hnumbers]
    exact fun n hn => (hc.bounded n hn).trans hseq
  · rw [hentries]
    exact hc.decided
  · rw [hcloses]
    exact List.Subset.trans hscheduled hc.scheduled
  · exact hc.limits.shapes hopen

theorem queueEntry (hc : Custody env h) (order : PendingEntry) :
    Custody env (h.step env (.queueEntry order)) := by
  have hissued := nodup_issued (h.step env (.queueEntry order)).numbers hc.nodup hc.bounded
    (Issues.next h.book.seq) (by
      simp only [numbers, step, PositionBook.nextSeq, PositionBook.queueEntry, List.map_append,
        List.map_cons, List.map_nil, List.append_assoc]
      apply List.Perm.append_left
      exact List.perm_append_comm.trans (by rw [List.append_assoc]))
  refine ⟨?_, hissued.1, hissued.2, hc.decided, hc.scheduled, hc.limits⟩
  have hadd := hc.placed.append_right [{ order with seq := h.book.seq + 1 }]
  refine List.Perm.trans ?_ hadd
  simp only [BookHistory.step, PositionBook.nextSeq, PositionBook.queueEntry, List.append_assoc]
  apply List.Perm.append_left
  exact List.perm_append_comm.trans (by rw [List.append_assoc])

theorem scheduleReversal (hc : Custody env h) (instrument : String) (direction : Direction)
    (index : ℤ) : Custody env (h.step env (.scheduleReversal instrument direction index)) := by
  simp only [step, PositionBook.scheduleReversal]
  split_ifs
  · refine hc.congr rfl rfl rfl rfl ?_ (List.Subset.refl _) le_rfl (List.Sublist.refl _)
    exact List.append_nil _
  have hissues := Issues.scheduleLoop instrument direction (index + 1 + env.latencyBars)
    h.book.open_ h.book.seq
  have hops := (Sound.scheduleLoop_spec instrument direction (index + 1 + env.latencyBars)
    h.book.open_ h.book.seq).2.1
  generalize PositionBook.scheduleLoop instrument direction (index + 1 + env.latencyBars)
    h.book.open_ h.book.seq = out at hissues hops ⊢
  obtain ⟨seq, ops, closes⟩ := out
  dsimp only at hissues hops ⊢
  have hissued := nodup_issued
    (h.queued.map PendingEntry.seq ++ (h.closes ++ closes).map PendingClose.seq ++
      h.entries.filterMap EntryEvent.managed) hc.nodup hc.bounded hissues (by
      simp only [numbers, List.map_append, List.append_assoc]
      apply List.Perm.append_left
      apply List.Perm.append_left
      exact List.perm_append_comm)
  refine ⟨hc.placed, hissued.1, hissued.2, hc.decided, fun c hmem => ?_, ?_⟩
  · rcases List.mem_append.1 hmem with hmem | hmem
    · exact List.mem_append_left _ (hc.scheduled hmem)
    · exact List.mem_append_right _ hmem
  · apply hc.limits.shapes
    have hshapes : ops.map ManagedPosition.shape = h.book.open_.map ManagedPosition.shape := by
      rw [hops, List.map_map]
      apply List.map_congr_left
      intro op _
      simp only [Function.comp]
      split_ifs <;> rfl
    rw [hshapes]

theorem stages (hc : Custody env h) (v : BarSlice) {b : PositionBook}
    (hsame : BookSetup.SameBook h.book b)
    (hopen : b.open_.map ManagedPosition.shape = h.book.open_.map ManagedPosition.shape) :
    let t := env.resolveExits v (env.fillEntries v (env.runPendingCloses v ⟨b, .empty⟩))
    Custody env { h with book := t.book, entries := h.entries ++ t.result.entries } := by
  intro t
  obtain ⟨legs, hclosed, hremoved, hsub⟩ :=
    Turn.Emits.runCloses env v ⟨⟨b, .empty⟩, b.open_, b.open_⟩ b.pendingCloses
  obtain ⟨events, hfilled⟩ := DecidesOrders.fillEach env v
    (env.runPendingCloses v ⟨b, .empty⟩) (env.runPendingCloses v ⟨b, .empty⟩).book.pending
  obtain ⟨legs', hresolved, hsurvived⟩ := Turn.Emits.resolveEach env v
    (env.fillEntries v (env.runPendingCloses v ⟨b, .empty⟩))
    (env.fillEntries v (env.runPendingCloses v ⟨b, .empty⟩)).book.open_
  have hentries : t.result.entries = events := by
    have hnone : (env.runPendingCloses v ⟨b, .empty⟩).result.entries = [] := hclosed.entries
    exact hresolved.entries.trans (hfilled.entries.trans (by rw [hnone, List.nil_append]))
  have hseq : Issues h.book.seq (events.filterMap EntryEvent.managed) t.book.seq := by
    have hnumbers := hfilled.numbers
    have hfrom : (env.runPendingCloses v ⟨b, .empty⟩).book.seq = h.book.seq :=
      hclosed.seq.trans hsame.seq
    have hto : t.book.seq =
        (env.fillEach v (env.runPendingCloses v ⟨b, .empty⟩) b.pending).1.book.seq :=
      hresolved.seq.trans (congrArg (fun orders =>
        (env.fillEach v (env.runPendingCloses v ⟨b, .empty⟩) orders).1.book.seq) hclosed.pending)
    have hpending : (env.runPendingCloses v ⟨b, .empty⟩).book.pending = b.pending := hclosed.pending
    rw [hfrom, hpending] at hnumbers
    rw [hto]
    exact hnumbers
  have hissued := nodup_issued
    (h.queued.map PendingEntry.seq ++ h.closes.map PendingClose.seq ++
      (h.entries ++ events).filterMap EntryEvent.managed) hc.nodup hc.bounded hseq (by
      rw [List.filterMap_append, ← List.append_assoc]
      exact List.Perm.refl _)
  have hpending : t.book.pending = (env.fillEach v (env.runPendingCloses v ⟨b, .empty⟩)
        (env.runPendingCloses v ⟨b, .empty⟩).book.pending).2 := hresolved.pending
  have horders : (env.runPendingCloses v ⟨b, .empty⟩).book.pending = h.book.pending :=
    hclosed.pending.trans hsame.pending
  have hperm := hfilled.orders
  rw [← hpending, horders] at hperm
  have hlimits : WithinLimits env.config (env.runPendingCloses v ⟨b, .empty⟩).book.open_ := by
    apply hc.limits.shapes
    rw [← hopen]
    exact hremoved.map _
  rw [hentries]
  refine ⟨?_, hissued.1, hissued.2, fun e he => ?_, ?_, ?_⟩
  · dsimp only
    rw [List.map_append]
    refine List.Perm.trans ?_ hc.placed
    apply List.Perm.append_right
    refine List.Perm.trans ?_ (hperm.append_right (h.entries.map EntryEvent.pending))
    rw [List.append_assoc]
    exact List.Perm.append_left _ List.perm_append_comm
  · rcases List.mem_append.1 he with he | he
    · exact hc.decided e he
    · exact hfilled.decided e he
  · have hcloses : t.book.pendingCloses = (env.runPendingCloses v ⟨b, .empty⟩).book.pendingCloses :=
      hresolved.pendingCloses.trans hfilled.pendingCloses
    intro c hmem
    rw [hcloses] at hmem
    apply hc.scheduled
    rw [← hsame.pendingCloses]
    exact hsub.subset hmem
  · exact (hfilled.limits hlimits).shapes hsurvived

theorem step (hc : Custody env h) (e : BookEvent) : Custody env (h.step env e) := by
  cases e with
  | queueEntry order => exact hc.queueEntry order
  | turnAway reason =>
    exact hc.congr rfl rfl rfl rfl rfl (List.Subset.refl _) (Nat.le_succ _) (List.Sublist.refl _)
  | bump reason =>
    exact hc.congr rfl rfl rfl rfl rfl (List.Subset.refl _) le_rfl (List.Sublist.refl _)
  | scheduleReversal instrument direction index =>
    exact hc.scheduleReversal instrument direction index
  | advance v =>
    obtain ⟨hsame, hopen⟩ := env.sameBook_chargeFinancing v h.book
    rcases h.step_advance env v with ⟨e, b', hcharge, hstep⟩ | ⟨b', hcharge, hstep⟩
    · rw [hcharge] at hsame hopen
      rw [hstep]
      exact hc.congr hsame.pending rfl rfl rfl rfl (fun c => (hsame.pendingCloses ▸ ·))
        hsame.seq.ge (hopen ▸ List.Sublist.refl _)
    · rw [hcharge] at hsame hopen
      rw [hstep]
      exact hc.stages v hsame hopen
  | flatten v reason which =>
    obtain ⟨hpending, hcloses, hseq, hsub⟩ := env.flattenEach_keeps v reason.exitReason
      ⟨h.book, .empty⟩ (h.book.open_.filter which)
    exact hc.congr hpending rfl rfl rfl rfl (fun c => (hcloses ▸ ·)) hseq.ge (hsub.map _)
  | clear =>
    refine ⟨?_, hc.nodup, hc.bounded, hc.decided, List.nil_subset _, hc.limits⟩
    refine List.Perm.trans ?_ hc.placed
    simp only [BookHistory.step, List.nil_append]
    rw [← List.append_assoc]
    exact List.perm_append_comm.trans (by rw [List.append_assoc])

end Custody

theorem custody (env : BookSetup) (initial : ℚ) (events : List BookEvent) :
    Custody env (after env initial events) :=
  Runs.exec_invariant (I := Custody env) (fun _ e hc => hc.step e) (.fresh env initial) events

end BookHistory

/-- An order that was queued is in exactly one place: waiting, decided or dropped; a decision
filled exactly when it opened a position, which has lived and is open while it lasts; no number
was given twice; a position has one pending close at most; and the limits on open positions
hold. -/
structure BookHistory.Accounted (env : BookSetup) (h : BookHistory) : Prop where
  once : ∀ order ∈ h.queued, h.book.pending.count order +
    (h.entries.map EntryEvent.pending).count order + h.cleared.count order = 1
  only : ∀ order, order ∈ h.book.pending ∨ order ∈ h.entries.map EntryEvent.pending ∨
    order ∈ h.cleared → order ∈ h.queued
  filled : ∀ e ∈ h.entries, e.filled = true ↔ ∃ s fill tr, e.managed = some s ∧
    e.fill = some fill ∧ Lives env e.pending fill none tr ∧ tr.op.seq = s ∧
    ∀ op ∈ h.book.open_, op.seq = s ↔ op = tr.op ∧ tr.closed = none
  opened : ∀ op ∈ h.book.open_, ∃ e ∈ h.entries, e.managed = some op.seq
  numbers : (h.queued.map PendingEntry.seq ++ h.closes.map PendingClose.seq ++
    h.entries.filterMap EntryEvent.managed).Nodup
  positions : (h.book.open_.map ManagedPosition.seq).Nodup
  scheduled : h.book.pendingCloses ⊆ h.closes
  oneClose : (h.book.pendingCloses.map PendingClose.positionSeq).Nodup
  concurrent : h.book.open_.length ≤ env.config.maxConcurrent
  perInstrument : ∀ symbol, h.book.open_.countP (fun op => op.position.instrument = symbol) ≤
    env.config.maxPerInstrument

theorem BookHistory.accounted_after (env : BookSetup) (initial : ℚ) (events : List BookEvent) :
    (BookHistory.after env initial events).Accounted env := by
  generalize hh : BookHistory.after env initial events = h
  have hc : h.Custody env := hh ▸ BookHistory.custody env initial events
  have hr : h.Refines env := hh ▸ BookHistory.refines env initial events
  have hsound : Sound initial h.book (h.book.open_.map ManagedPosition.account) :=
    hh ▸ BookHistory.sound env initial events
  have hseqs : (h.queued.map PendingEntry.seq).Nodup := hc.nodup.of_append_left.of_append_left
  refine ⟨fun order horder => ?_, fun order horder => ?_, fun e he => ?_, fun op hop =>
    hr.opener hop,
    hc.nodup, hsound.seqs_nodup, hc.scheduled, hsound.closes_nodup, hc.limits.concurrent,
    hc.limits.perInstrument⟩
  · rw [← List.count_append, ← List.count_append, hc.placed.count_eq]
    exact List.count_eq_one_of_mem (List.Nodup.of_map _ hseqs) horder
  · rw [← hc.placed.mem_iff, List.mem_append, List.mem_append, or_assoc]
    exact horder
  · rw [hc.decided e he, Option.isSome_iff_exists]
    constructor
    · rintro ⟨s, hs⟩
      obtain ⟨fill, tr, hfill, hlives, hseq, -, hplace⟩ := hr.life he hs
      refine ⟨s, fill, tr, hs, hfill, hlives, hseq, fun op hop => ?_⟩
      rcases hplace with ⟨hopen, hmem⟩ | ⟨hclosed, hgone⟩
      · constructor
        · intro heq
          exact ⟨List.inj_on_of_nodup_map hsound.seqs_nodup hop hmem (heq.trans hseq.symm), hopen⟩
        · rintro ⟨rfl, -⟩
          exact hseq
      · constructor
        · intro heq
          exact absurd heq (hgone op hop)
        · rintro ⟨-, hopen⟩
          exact absurd hopen hclosed
    · rintro ⟨s, -, -, hs, -⟩
      exact ⟨s, hs⟩

end Fiboki
