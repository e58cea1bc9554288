import Fiboki.Backtest.BookRun

/-!
The book refines the lives of its positions: every order that filled has lived one, the
ledger holds exactly its closing fills, and it is open in the book while it lasts.
-/

namespace Fiboki

namespace Track

variable (env : BookSetup) {tr : Track} {v : BarSlice}

@[simp] theorem legs_opened (order : PendingEntry) (fill : EntryFill) (seq : ℕ) :
    (Track.opened env v order fill seq).legs env = [] := rfl

variable (cs : List Closing)

theorem legs_close :
    (tr.close cs).map (fun c => env.legOf c.2) = tr.legs env ++ cs.map env.legOf := by
  simp [close, legs, Function.comp_def]

theorem mem_close {cs : List Closing} {c : List StopRule × Closing} :
    c ∈ tr.close cs ↔ c ∈ tr.closings ∨ ∃ c' ∈ cs, c = (tr.moves, c') := by
  simp [close, eq_comm]

theorem closings_close : (tr.close cs).map Prod.snd = tr.closings.map Prod.snd ++ cs := by
  simp [close, Function.comp_def]

theorem seeBar_none (h : v.bars tr.op.position.instrument = none) : tr.seeBar env v = tr := by
  simp only [seeBar, h]

variable {bar : Bar}

theorem seeBar_closed (h : v.bars tr.op.position.instrument = some bar)
    {reason : ExitReason} (hclosed : (env.barFills v bar tr.op).2.2 = some reason) :
    tr.seeBar env v =
      { tr with
        op := (env.barFills v bar tr.op).2.1
        closings := tr.close (env.barFills v bar tr.op).1
        closed := some reason } := by
  simp only [seeBar, h]
  generalize env.barFills v bar tr.op = out at hclosed ⊢
  obtain ⟨cs, op, closed⟩ := out
  dsimp only at hclosed
  subst hclosed
  rfl

theorem seeBar_open (h : v.bars tr.op.position.instrument = some bar)
    (hopen : (env.barFills v bar tr.op).2.2 = none) :
    tr.seeBar env v =
      { tr with
        op := env.updateProtectiveStop v (env.barFills v bar tr.op).2.1
        closings := tr.close (env.barFills v bar tr.op).1
        moves := tr.moves ++ (env.stopMove v (env.barFills v bar tr.op).2.1).toList } := by
  simp only [seeBar, h]
  generalize env.barFills v bar tr.op = out at hopen ⊢
  obtain ⟨cs, op, closed⟩ := out
  dsimp only at hopen
  subst hopen
  rfl

end Track

section Keeps

variable (env : BookSetup) {R : ManagedPosition → ManagedPosition → Prop}
  (hrefl : ∀ op, R op op) (htrans : ∀ op op' op'', R op op' → R op' op'' → R op op'')
  (hleg : ∀ c : Closing, R c.op (env.afterLeg c))

include hrefl htrans hleg

theorem exitFills_keeps (v : BarSlice) (bar : Bar) (n : ℕ) (op : ManagedPosition) :
    R op (env.exitFills v bar n op).2.1 ∧ ∀ c ∈ (env.exitFills v bar n op).1, R op c.op := by
  induction n generalizing op with
  | zero => exact ⟨hrefl op, by simp [BookSetup.exitFills]⟩
  | succ n ih =>
    simp only [BookSetup.exitFills]
    split
    · exact ⟨hrefl op, by simp⟩
    · rename_i decision hdecision
      have hstep : R op (env.afterLeg (env.closing v bar op decision)) :=
        hleg (env.closing v bar op decision)
      split_ifs
      · exact ⟨hstep, fun c hc => List.mem_singleton.1 hc ▸ hrefl op⟩
      · obtain ⟨hrest, hfills⟩ := ih (env.afterLeg (env.closing v bar op decision))
        refine ⟨htrans _ _ _ hstep hrest, fun c hc => ?_⟩
        rcases List.mem_cons.1 hc with rfl | hc
        · exact hrefl op
        · exact htrans _ _ _ hstep (hfills c hc)

theorem barFills_keeps (hsee : ∀ v bar op, R op (BookSetup.seeBar v bar op))
    (hclose : ∀ c : Closing, R c.op (env.reduced c)) (v : BarSlice) (bar : Bar)
    (op : ManagedPosition) :
    R op (env.barFills v bar op).2.1 ∧ ∀ c ∈ (env.barFills v bar op).1, R op c.op := by
  obtain ⟨hloop, hfills⟩ := exitFills_keeps env hrefl htrans hleg v bar (op.legs.length + 1)
    (BookSetup.seeBar v bar op)
  simp only [BookSetup.barFills]
  generalize env.exitFills v bar (op.legs.length + 1) (BookSetup.seeBar v bar op) = out
    at hloop hfills ⊢
  obtain ⟨cs, op', closed⟩ := out
  dsimp only at hloop hfills ⊢
  have hnow : R op op' := htrans _ _ _ (hsee v bar op) hloop
  have hbefore : ∀ c ∈ cs, R op c.op := fun c hc => htrans _ _ _ (hsee v bar op) (hfills c hc)
  split_ifs
  · refine ⟨htrans _ _ _ hnow (hclose (env.marketClosing v bar .timeStop bar.close
      (v.spacing op'.position.instrument) op')), fun c hc => ?_⟩
    rcases List.mem_append.1 hc with hc | hc
    · exact hbefore c hc
    · exact List.mem_singleton.1 hc ▸ hnow
  · exact ⟨hnow, hbefore⟩

end Keeps

variable (env : BookSetup) (v : BarSlice)

variable (bar : Bar) (op : ManagedPosition)

theorem sameTerms_barFills :
    SameTerms op (env.barFills v bar op).2.1 ∧ ∀ c ∈ (env.barFills v bar op).1, SameTerms op c.op :=
  barFills_keeps env .refl (fun _ _ _ => .trans) (sameTerms_afterLeg env) sameTerms_seeBar
    (sameTerms_reduced env) v bar op

theorem sameStop_barFills :
    SameStop op (env.barFills v bar op).2.1 ∧ ∀ c ∈ (env.barFills v bar op).1, SameStop op c.op :=
  barFills_keeps env .refl (fun _ _ _ => .trans) (sameStop_afterLeg env) sameStop_seeBar
    (sameStop_reduced env) v bar op

theorem sameTerms_chargePosition {financing : FinancingModel} {v : BarSlice}
    {op op' : ManagedPosition} (h : env.chargePosition financing v op = .ok op') :
    SameTerms op op' ∧ SameStop op op' ∧ op'.position.size = op.position.size ∧
      op'.nextLeg = op.nextLeg := by
  simp only [BookSetup.chargePosition] at h
  split_ifs at h
  · exact Except.ok.inj h ▸ ⟨.refl op, .refl op, rfl, rfl⟩
  · split at h
    · cases h
    · exact Except.ok.inj h ▸
        ⟨⟨rfl, rfl, rfl, rfl, rfl, rfl, rfl, rfl, rfl⟩, ⟨rfl, rfl, rfl, rfl⟩, rfl, rfl⟩

variable (tr : Track)

theorem Track.sameTerms_seeBar (v : BarSlice) : SameTerms tr.op (tr.seeBar env v).op := by
  cases hbar : v.bars tr.op.position.instrument with
  | none =>
    rw [tr.seeBar_none env hbar]
    exact .refl tr.op
  | some bar =>
    have hterms := (sameTerms_barFills env v bar tr.op).1
    cases hclosed : (env.barFills v bar tr.op).2.2 with
    | none =>
      rw [tr.seeBar_open env hbar hclosed]
      exact hterms.trans (sameTerms_updateProtectiveStop env v _)
    | some reason =>
      rw [tr.seeBar_closed env hbar hclosed]
      exact hterms

variable (e : PositionEvent)

theorem Track.sameTerms_step : SameTerms tr.op (tr.step env e).op := by
  cases e with
  | charge v =>
    simp only [Track.step, Track.chargeNights]
    split
    · exact .refl tr.op
    · split
      · exact .refl tr.op
      · rename_i op hop
        exact (sameTerms_chargePosition env hop).1
  | reverse => exact ⟨rfl, rfl, rfl, rfl, rfl, rfl, rfl, rfl, rfl⟩
  | bar v => exact tr.sameTerms_seeBar env v
  | market v bar reason price spacing =>
    exact sameTerms_reduced env (env.marketClosing v bar reason.exitReason price spacing tr.op)

/-- What an event can do: charge or mark a position, which leaves its fills and its stop as
they were; take it through a bar, which closes it or leaves it open; or close it at market. -/
theorem Track.step_cases :
    (∃ op nights, tr.step env e = { tr with op := op, nights := nights } ∧ SameTerms tr.op op ∧
        SameStop tr.op op ∧ op.position.size = tr.op.position.size ∧ op.nextLeg = tr.op.nextLeg) ∨
      (∃ v bar reason, v.bars tr.op.position.instrument = some bar ∧
        (env.barFills v bar tr.op).2.2 = some reason ∧
        tr.step env e = { tr with
          op := (env.barFills v bar tr.op).2.1
          closings := tr.close (env.barFills v bar tr.op).1
          closed := some reason }) ∨
      (∃ v bar, v.bars tr.op.position.instrument = some bar ∧
        (env.barFills v bar tr.op).2.2 = none ∧
        tr.step env e = { tr with
          op := env.updateProtectiveStop v (env.barFills v bar tr.op).2.1
          closings := tr.close (env.barFills v bar tr.op).1
          moves := tr.moves ++ (env.stopMove v (env.barFills v bar tr.op).2.1).toList }) ∨
      ∃ v bar reason price spacing, tr.step env e = tr.market env v bar reason price spacing := by
  cases e with
  | charge v =>
    left
    simp only [Track.step, Track.chargeNights]
    split
    · exact ⟨tr.op, tr.nights, rfl, .refl _, .refl _, rfl, rfl⟩
    · split
      · exact ⟨tr.op, tr.nights, rfl, .refl _, .refl _, rfl, rfl⟩
      · rename_i op hop
        obtain ⟨hterms, hstop, hsize, hnext⟩ := sameTerms_chargePosition env hop
        exact ⟨op, _, rfl, hterms, hstop, hsize, hnext⟩
  | reverse =>
    exact .inl ⟨_, tr.nights, rfl, ⟨rfl, rfl, rfl, rfl, rfl, rfl, rfl, rfl, rfl⟩,
      ⟨rfl, rfl, rfl, rfl⟩, rfl, rfl⟩
  | bar v =>
    rw [Track.step]
    cases hbar : v.bars tr.op.position.instrument with
    | none =>
      rw [tr.seeBar_none env hbar]
      exact .inl ⟨tr.op, tr.nights, rfl, .refl _, .refl _, rfl, rfl⟩
    | some bar =>
      cases hclosed : (env.barFills v bar tr.op).2.2 with
      | none => exact .inr (.inr (.inl ⟨v, bar, hbar, hclosed, tr.seeBar_open env hbar hclosed⟩))
      | some reason =>
        exact .inr (.inl ⟨v, bar, reason, hbar, hclosed, tr.seeBar_closed env hbar hclosed⟩)
  | market v bar reason price spacing =>
    exact .inr (.inr (.inr ⟨v, bar, reason, price, spacing, rfl⟩))

theorem Lives.terms {env : BookSetup} {order : PendingEntry} {fill : EntryFill}
    {stage : Option BarSlice} {tr : Track} (h : Lives env order fill stage tr) :
    ∃ v seq, SameTerms (env.openPosition v order fill seq) tr.op :=
  h.invariant (P := fun tr => ∃ v seq, SameTerms (env.openPosition v order fill seq) tr.op)
    (fun v _ seq _ _ => ⟨v, seq, .refl _⟩)
    (fun tr e _ ⟨v, seq, hterms⟩ => ⟨v, seq, hterms.trans (tr.sameTerms_step env e)⟩)

theorem Turn.Emits.resolvePosition (t : Turn)
    (op : ManagedPosition) : ∃ legs, Emits t (env.resolvePosition v t op).1 legs ∧
      (∀ leg ∈ legs, leg.positionSeq = op.seq) ∧
      ∀ tr : Track, tr.op = op → tr.closed = none →
        (tr.seeBar env v).legs env = tr.legs env ++ legs ∧ (env.resolvePosition v t op).2 =
            if (tr.seeBar env v).closed = none then some (tr.seeBar env v).op else none := by
  simp only [BookSetup.resolvePosition]
  cases hbar : v.bars op.position.instrument with
  | none =>
    refine ⟨[], refl t, by simp, ?_⟩
    rintro tr rfl hopen
    rw [tr.seeBar_none env hbar, List.append_nil, if_pos hopen]
    exact ⟨rfl, rfl⟩
  | some bar =>
    obtain ⟨hemits, hafter⟩ := exitBar env v bar t op
    have hterms := (sameTerms_barFills env v bar op).2
    have hlegs : ∀ leg ∈ (env.barFills v bar op).1.map env.legOf, leg.positionSeq = op.seq := by
      intro leg hleg
      obtain ⟨c, hc, rfl⟩ := List.mem_map.1 hleg
      exact (hterms c hc).seq
    dsimp only
    generalize env.exitBar v bar t op = out at hemits hafter ⊢
    obtain ⟨t', op', closed⟩ := out
    dsimp only at hemits hafter
    cases closed with
    | none =>
      have hnone : (env.barFills v bar op).2.2 = none := by rw [← hafter]
      refine ⟨_, hemits, hlegs, ?_⟩
      rintro tr rfl hopen
      rw [tr.seeBar_open env hbar hnone, if_pos hopen, ← hafter]
      exact ⟨Track.legs_close env _, rfl⟩
    | some reason =>
      have hsome : (env.barFills v bar op).2.2 = some reason := by rw [← hafter]
      refine ⟨_, ?_, hlegs, ?_⟩
      · have hsettle := hemits.trans (settle env t' op' v.timestamp reason)
        rw [List.append_nil] at hsettle
        simp only [BookSetup.armCooldown]
        split_ifs
        · exact hsettle
        · exact ⟨hsettle.rows, hsettle.open_, hsettle.pending, hsettle.pendingCloses,
            hsettle.seq, hsettle.entries⟩
      · rintro tr rfl hopen
        rw [tr.seeBar_closed env hbar hsome, if_neg (by simp)]
        exact ⟨Track.legs_close env _, rfl⟩

theorem Turn.Emits.resolveEach (t : Turn)
    (ops : List ManagedPosition) : ∃ legs, Emits t (env.resolveEach v t ops).1 legs ∧
      ((env.resolveEach v t ops).2.map ManagedPosition.shape).Sublist
        (ops.map ManagedPosition.shape) := by
  induction ops generalizing t with
  | nil => exact ⟨[], refl t, List.Sublist.refl _⟩
  | cons op ops ih =>
    obtain ⟨legs, hstep, -, hnext⟩ := resolvePosition env v t op
    obtain ⟨legs', hrest, hsub⟩ := ih (env.resolvePosition v t op).1
    refine ⟨legs ++ legs', hstep.trans hrest, ?_⟩
    simp only [BookSetup.resolveEach]
    rw [List.map_append, List.map_cons, (hnext ⟨op, [], [], 0, none⟩ rfl rfl).2]
    split_ifs
    · rw [Option.toList_some, List.map_singleton, (Track.sameTerms_seeBar env _ v).shape]
      exact hsub.cons_cons _
    · exact hsub.cons _

/-- How an event's position has lived, as the ledger and the open positions show it.  Each
open position stands beside the slice it opened on, until it has met that slice's bar. -/
def LivedAs (env : BookSetup) (rows : List ExitLeg)
    (live : List (Option BarSlice × ManagedPosition)) (e : EntryEvent) (s : ℕ) : Prop :=
  ∃ fill stage tr, e.fill = some fill ∧ Lives env e.pending fill stage tr ∧ tr.op.seq = s ∧
    tr.legs env = rows.filter (fun leg => leg.positionSeq = s) ∧
    ((tr.closed = none ∧ (stage, tr.op) ∈ live) ∨
      (tr.closed ≠ none ∧ stage = none ∧ ∀ p ∈ live, p.2.seq ≠ s))

structure Recorded (env : BookSetup) (entries : List EntryEvent) (rows : List ExitLeg)
    (live : List (Option BarSlice × ManagedPosition)) : Prop where
  managed_nodup : (entries.filterMap EntryEvent.managed).Nodup
  live_nodup : (live.map fun p => p.2.seq).Nodup
  opened : ∀ p ∈ live, p.2.seq ∈ entries.filterMap EntryEvent.managed
  filed : ∀ leg ∈ rows, leg.positionSeq ∈ entries.filterMap EntryEvent.managed
  lived : ∀ e ∈ entries, ∀ s, e.managed = some s → LivedAs env rows live e s

namespace Recorded

variable {env : BookSetup} {entries : List EntryEvent} {rows : List ExitLeg}
  {live l r : List (Option BarSlice × ManagedPosition)} {stage : Option BarSlice}
  {op : ManagedPosition}

theorem empty (env : BookSetup) : Recorded env [] [] [] :=
  ⟨List.nodup_nil, List.nodup_nil, by simp, by simp, by simp⟩

variable {p : Option BarSlice × ManagedPosition}

theorem ne_of_mem_sides (h : ((l ++ (stage, op) :: r).map fun p => p.2.seq).Nodup)
    (hp : p ∈ l ++ r) : p.2.seq ≠ op.seq := by
  rw [List.map_append, List.map_cons] at h
  have hnot := (List.nodup_cons.1 (List.nodup_middle.1 h)).1
  intro heq
  apply hnot
  rw [← List.map_append, ← heq]
  exact List.mem_map_of_mem (f := fun p : Option BarSlice × ManagedPosition => p.2.seq) hp

theorem mem_middle : p ∈ l ++ (stage, op) :: r ↔ p = (stage, op) ∨ p ∈ l ++ r := by
  simp only [List.mem_append, List.mem_cons]
  tauto

theorem go (h : Recorded env entries rows (l ++ (stage, op) :: r)) {legs : List ExitLeg}
    {next : Option ManagedPosition} (hlegs : ∀ leg ∈ legs, leg.positionSeq = op.seq)
    (hseq : ∀ op' ∈ next, op'.seq = op.seq)
    (hnext : ∀ order fill tr, Lives env order fill stage tr → tr.op = op → tr.closed = none →
      ∃ tr', Lives env order fill none tr' ∧ tr'.op.seq = op.seq ∧
        tr'.legs env = tr.legs env ++ legs ∧
        next = if tr'.closed = none then some tr'.op else none) :
    Recorded env entries (rows ++ legs) (l ++ next.toList.map (Prod.mk none) ++ r) where
  managed_nodup := h.managed_nodup
  live_nodup := by
    have hnodup := h.live_nodup
    cases next with
    | none =>
      rw [List.map_append, List.map_cons] at hnodup
      simpa using (List.nodup_middle.1 hnodup).of_cons
    | some op' =>
      have hop : op'.seq = op.seq := hseq op' rfl
      simpa [hop] using hnodup
  opened p hp := by
    have hop : op.seq ∈ entries.filterMap EntryEvent.managed := h.opened (stage, op) (by simp)
    cases next with
    | none =>
      apply h.opened p
      apply mem_middle.2 (.inr _)
      simpa using hp
    | some op' =>
      have hmem : p = (none, op') ∨ p ∈ l ++ r := by
        rw [← mem_middle]
        simpa using hp
      rcases hmem with rfl | hside
      · rw [hseq op' rfl]
        exact hop
      · exact h.opened p (mem_middle.2 (.inr hside))
  filed leg hleg := by
    rcases List.mem_append.1 hleg with hleg | hleg
    · exact h.filed leg hleg
    · rw [hlegs leg hleg]
      exact h.opened (stage, op) (by simp)
  lived e he s hs := by
    obtain ⟨fill, stage', tr, hfill, hlives, hseq', hrows, hplace⟩ := h.lived e he s hs
    by_cases hop : s = op.seq
    · have hhere : tr.closed = none ∧ (stage', tr.op) = (stage, op) := by
        rcases hplace with ⟨hopen, hmem⟩ | ⟨-, -, hgone⟩
        · rcases mem_middle.1 hmem with heq | hside
          · exact ⟨hopen, heq⟩
          · exact absurd (hseq'.trans hop) (ne_of_mem_sides h.live_nodup hside)
        · exact absurd hop.symm (hgone (stage, op) (by simp))
      obtain ⟨hopen, heq⟩ := hhere
      obtain ⟨hstage, hmine⟩ := Prod.mk.inj heq
      subst hstage
      obtain ⟨tr', hlives', hseq'', hrows', hnext'⟩ := hnext e.pending fill tr hlives hmine hopen
      refine ⟨fill, none, tr', hfill, hlives', hseq''.trans hop.symm, ?_, ?_⟩
      · have hall : legs.filter (fun leg => leg.positionSeq = s) = legs := by
          apply List.filter_eq_self.2
          intro leg hleg
          exact decide_eq_true ((hlegs leg hleg).trans hop.symm)
        rw [hrows', hrows, List.filter_append, hall]
      · cases hclosed : tr'.closed with
        | none =>
          rw [hclosed, if_pos rfl] at hnext'
          subst hnext'
          exact .inl ⟨rfl, by simp⟩
        | some reason =>
          rw [hclosed, if_neg (by simp)] at hnext'
          subst hnext'
          refine .inr ⟨by simp, rfl, fun p hp => ?_⟩
          rw [hop]
          apply ne_of_mem_sides h.live_nodup
          simpa using hp
    · have hnone : legs.filter (fun leg => leg.positionSeq = s) = [] := by
        apply List.filter_eq_nil_iff.2
        intro leg hleg heq
        exact hop ((of_decide_eq_true heq).symm.trans (hlegs leg hleg))
      refine ⟨fill, stage', tr, hfill, hlives, hseq', ?_, ?_⟩
      · rw [hrows, List.filter_append, hnone, List.append_nil]
      · rcases hplace with ⟨hopen, hmem⟩ | ⟨hclosed, hstage, hgone⟩
        · refine .inl ⟨hopen, ?_⟩
          rcases mem_middle.1 hmem with heq | hside
          · exact absurd (hseq'.symm.trans (congrArg (·.2.seq) heq)) hop
          · rcases List.mem_append.1 hside with hside | hside <;> simp [hside]
        · refine .inr ⟨hclosed, hstage, fun p hp => ?_⟩
          have hmem : (∃ op' ∈ next, p = (none, op')) ∨ p ∈ l ++ r := by
            simp only [List.mem_append, List.mem_map, Option.mem_toList] at hp ⊢
            rcases hp with (hp | ⟨op', hop', heq⟩) | hp
            · exact .inr (.inl hp)
            · exact .inl ⟨op', hop', heq.symm⟩
            · exact .inr (.inr hp)
          rcases hmem with ⟨op', hop', rfl⟩ | hside
          · rw [hseq op' hop']
            exact Ne.symm hop
          · exact hgone p (mem_middle.2 (.inr hside))

theorem goStep (h : Recorded env entries rows (l ++ (none, op) :: r)) (e : PositionEvent)
    (legs : List ExitLeg) (next : Option ManagedPosition)
    (hlegs : ∀ leg ∈ legs, leg.positionSeq = op.seq) (hseq : ∀ op' ∈ next, op'.seq = op.seq)
    (hnext : ∀ tr : Track, tr.op = op → tr.closed = none →
      (tr.step env e).legs env = tr.legs env ++ legs ∧
        next = if (tr.step env e).closed = none then some (tr.step env e).op else none) :
    Recorded env entries (rows ++ legs) (l ++ next.toList.map (Prod.mk none) ++ r) := by
  apply h.go hlegs hseq
  intro order fill tr hlives hop hopen
  obtain ⟨hrows, hkept⟩ := hnext tr hop hopen
  refine ⟨tr.step env e, hlives.step hopen e, ?_, hrows, hkept⟩
  rw [(tr.sameTerms_step env e).seq, hop]

theorem refuse (h : Recorded env entries rows live) {e : EntryEvent} (he : e.managed = none) :
    Recorded env (entries ++ [e]) rows live where
  managed_nodup := by simpa [he] using h.managed_nodup
  live_nodup := h.live_nodup
  opened := by simpa [he] using h.opened
  filed := by simpa [he] using h.filed
  lived e' he' s hs := by
    rcases List.mem_append.1 he' with he' | he'
    · exact h.lived e' he' s hs
    · rw [List.mem_singleton.1 he', he] at hs
      cases hs

variable {v : BarSlice}

theorem accept (h : Recorded env entries rows live) {order : PendingEntry} {fill : EntryFill}
    {bar : Bar} (seq : ℕ) (hbar : v.bars order.instrument.symbol = some bar)
    (hfill : env.sim.simulateEntry order.instrument order.direction order.size bar v.index
      order.stopPrice order.seq (v.spacing order.instrument.symbol) = .ok fill)
    (hfresh : ∀ s ∈ entries.filterMap EntryEvent.managed, s < seq) :
    Recorded env (entries ++ [⟨order, true, "", some fill, some seq⟩]) rows
      (live ++ [(some v, env.openPosition v order fill seq)]) where
  managed_nodup := by
    rw [List.filterMap_append]
    apply List.nodup_append.2 ⟨h.managed_nodup, by simp, _⟩
    intro s hs s' hs'
    have hlt := hfresh s hs
    have heq : s' = seq := by simpa using hs'
    omega
  live_nodup := by
    rw [List.map_append]
    apply List.nodup_append.2 ⟨h.live_nodup, by simp, _⟩
    intro s hs s' hs'
    obtain ⟨p, hp, rfl⟩ := List.mem_map.1 hs
    have hlt := hfresh _ (h.opened p hp)
    have heq : s' = seq := by simpa [BookSetup.openPosition] using hs'
    omega
  opened p hp := by
    rw [List.filterMap_append]
    rcases List.mem_append.1 hp with hp | hp
    · exact List.mem_append_left _ (h.opened p hp)
    · rw [List.mem_singleton.1 hp]
      exact List.mem_append_right _ (by simp [BookSetup.openPosition])
  filed leg hleg := by
    rw [List.filterMap_append]
    exact List.mem_append_left _ (h.filed leg hleg)
  lived e he s hs := by
    rcases List.mem_append.1 he with he | he
    · obtain ⟨fill', stage, tr, hfill', hlives, hseq, hrows, hplace⟩ := h.lived e he s hs
      refine ⟨fill', stage, tr, hfill', hlives, hseq, hrows, ?_⟩
      rcases hplace with ⟨hopen, hmem⟩ | ⟨hclosed, hstage, hgone⟩
      · exact .inl ⟨hopen, List.mem_append_left _ hmem⟩
      · refine .inr ⟨hclosed, hstage, fun p hp => ?_⟩
        rcases List.mem_append.1 hp with hp | hp
        · exact hgone p hp
        · have hlt := hfresh s (List.mem_filterMap.2 ⟨e, he, hs⟩)
          rw [List.mem_singleton.1 hp]
          exact fun heq => absurd heq (Nat.ne_of_gt hlt)
    · obtain rfl := List.mem_singleton.1 he
      obtain rfl : seq = s := Option.some.inj hs
      refine ⟨fill, some v, .opened env v order fill seq, rfl, .opened hbar hfill seq, rfl, ?_,
        .inl ⟨rfl, List.mem_append_right _ (by simp [Track.opened])⟩⟩
      symm
      apply List.filter_eq_nil_iff.2
      intro leg hleg heq
      have hlt := hfresh _ (h.filed leg hleg)
      have heq : leg.positionSeq = seq := of_decide_eq_true heq
      omega

variable {t : Turn}

variable {ops : List ManagedPosition}

theorem chargeEach (financing : FinancingModel) (hmodel : env.financing = some financing)
    (v : BarSlice)
    (h : Recorded env entries rows (l ++ ops.map (Prod.mk none))) :
    Recorded env entries rows (l ++ (env.chargeEach financing v ops).2.map (Prod.mk none)) := by
  induction ops generalizing l with
  | nil => exact h
  | cons op ops ih =>
    simp only [BookSetup.chargeEach]
    split
    · exact h
    · rename_i op' hop
      have hstep : Recorded env entries (rows ++ [])
          (l ++ (some op').toList.map (Prod.mk none) ++ ops.map (Prod.mk none)) := by
        apply h.goStep (.charge v) _ _ (by simp)
        · intro op'' hop''
          rw [← Option.some.inj hop'']
          exact (sameTerms_chargePosition env hop).1.seq
        · rintro tr rfl hopen
          simp only [Track.step, Track.chargeNights, hmodel, hop, Track.legs, List.append_nil,
            hopen, if_true, and_self]
      rw [List.append_nil] at hstep
      have hrest := ih hstep
      rw [List.append_assoc] at hrest
      exact hrest

variable {b : PositionBook}

theorem chargeFinancing (v : BarSlice)
    (h : Recorded env entries b.exitLegs (b.open_.map (Prod.mk none))) :
    Recorded env entries (env.chargeFinancing v b).2.exitLegs
      ((env.chargeFinancing v b).2.open_.map (Prod.mk none)) := by
  simp only [BookSetup.chargeFinancing]
  split
  · exact h
  · rename_i financing hmodel
    split_ifs
    · exact h
    · exact Recorded.chargeEach (l := []) financing hmodel v h

theorem close (h : Recorded env entries rows (l ++ (none, op) :: r)) (v : BarSlice) (bar : Bar)
    (reason : CloseReason) (price : ℚ) (spacing : Spacing) :
    Recorded env entries
      (rows ++ [env.legOf (env.marketClosing v bar reason.exitReason price spacing op)])
      (l ++ r) := by
  have hstep := h.goStep (.market v bar reason price spacing)
    [env.legOf (env.marketClosing v bar reason.exitReason price spacing op)] none
    (by simp [BookSetup.marketClosing]) (by simp) (fun tr hop hopen => by
      subst hop
      exact ⟨Track.legs_close env [_], rfl⟩)
  simpa using hstep

theorem closeOpen (h : Recorded env entries rows (ops.map (Prod.mk none))) (hop : op ∈ ops)
    (v : BarSlice)
    (bar : Bar) (reason : CloseReason) (price : ℚ) (spacing : Spacing) :
    Recorded env entries
      (rows ++ [env.legOf (env.marketClosing v bar reason.exitReason price spacing op)])
      ((ops.filter fun p => p.seq ≠ op.seq).map (Prod.mk none)) := by
  obtain ⟨left, right, rfl⟩ := List.append_of_mem hop
  have hseqs : ((left ++ op :: right).map ManagedPosition.seq).Nodup := by
    have hnodup := h.live_nodup
    rwa [List.map_map] at hnodup
  rw [Sound.filter_seq_ne hseqs, List.map_append]
  rw [List.map_append, List.map_cons] at h
  exact h.close v bar reason price spacing

variable {initial : ℚ}

theorem runCloses {closes : List PendingClose} {r : BookSetup.Reversing}
    (hsound : Sound initial r.turn.book (r.open_.map ManagedPosition.account))
    (hfind : Sound.Untouched r closes) (hnodup : (closes.map PendingClose.positionSeq).Nodup)
    (v : BarSlice)
    (h : Recorded env entries r.turn.book.exitLegs (r.open_.map (Prod.mk none))) :
    Recorded env entries (env.runCloses v r closes).1.turn.book.exitLegs
      ((env.runCloses v r closes).1.open_.map (Prod.mk none)) := by
  induction closes generalizing r with
  | nil => exact h
  | cons c rest ih =>
    obtain ⟨hstep, hrest, -⟩ := hsound.runClose env hfind hnodup v
    apply ih hstep hrest (List.nodup_cons.1 hnodup).2
    have hfound := hfind c (by simp)
    simp only [BookSetup.runClose]
    split_ifs
    · exact h
    split
    · exact h
    · rename_i op hop
      split
      · exact h
      · rename_i bar hbar
        rw [hfound] at hop
        exact h.closeOpen (List.mem_of_find?_eq_some hop) v bar .oppositeSignal bar.open_
          (v.spacing c.instrument)

theorem runPendingCloses (hsound : Sound initial t.book (t.book.open_.map ManagedPosition.account))
    (v : BarSlice)
    (h : Recorded env entries t.book.exitLegs (t.book.open_.map (Prod.mk none))) :
    Recorded env entries (env.runPendingCloses v t).book.exitLegs
      ((env.runPendingCloses v t).book.open_.map (Prod.mk none)) :=
  runCloses (r := ⟨t, t.book.open_, t.book.open_⟩) hsound (fun _ _ => rfl) hsound.closes_nodup v h

/-- The open positions of a book in the middle of an advance, and the number it has reached. -/
structure Staged (env : BookSetup) (entries : List EntryEvent) (v : BarSlice) (t : Turn)
    (live : List (Option BarSlice × ManagedPosition)) : Prop where
  recorded : Recorded env (entries ++ t.result.entries) t.book.exitLegs live
  open_ : live.map Prod.snd = t.book.open_
  stage : ∀ p ∈ live, p.1 = none ∨ p.1 = some v
  bounded : ∀ s ∈ (entries ++ t.result.entries).filterMap EntryEvent.managed, s ≤ t.book.seq

theorem Staged.fillEntry (h : Staged env entries v t live) (order : PendingEntry) :
    ∃ live', Staged env entries v (env.fillEntry v t order).1 live' := by
  have hrefuse : ∀ reason, Staged env entries v (BookSetup.refuseEntry t order reason) live := by
    intro reason
    refine ⟨?_, h.open_, h.stage, ?_⟩
    · have hrecorded := h.recorded.refuse (e := ⟨order, false, reason, none, none⟩) rfl
      rw [List.append_assoc] at hrecorded
      exact hrecorded
    · intro s hs
      apply h.bounded s
      simpa [BookSetup.refuseEntry] using hs
  rcases env.fillEntry_cases v t order with ⟨-, hstep⟩ | ⟨bar, -, hbar, ⟨reason, -, hstep⟩ |
    ⟨-, ⟨reason, -, hstep⟩ | ⟨fill, hfill, hstep⟩⟩⟩
  · rw [hstep]
    exact ⟨live, h⟩
  · rw [hstep]
    exact ⟨live, hrefuse _⟩
  · rw [hstep]
    exact ⟨live, hrefuse _⟩
  rw [hstep]
  have haccept := h.recorded.accept (t.book.seq + 1) hbar hfill (fun s hs =>
    Nat.lt_succ_of_le (h.bounded s hs))
  refine ⟨live ++ [(some v, env.openPosition v order fill (t.book.seq + 1))], ?_, ?_, ?_, ?_⟩
  · rw [List.append_assoc] at haccept
    exact haccept
  · rw [List.map_append, h.open_]
    rfl
  · intro p hp
    rcases List.mem_append.1 hp with hp | hp
    · exact h.stage p hp
    · exact .inr (by rw [List.mem_singleton.1 hp])
  · intro s hs
    have hs' : s ∈ (entries ++ t.result.entries).filterMap EntryEvent.managed ∨
        s = t.book.seq + 1 := by
      simpa [BookSetup.acceptEntry, BookSetup.openPosition, PositionBook.nextSeq, or_assoc] using hs
    show s ≤ t.book.seq + 1
    rcases hs' with hs' | hs'
    · exact (h.bounded s hs').trans (Nat.le_succ _)
    · omega

theorem Staged.fillEach {t : Turn} {live : List (Option BarSlice × ManagedPosition)}
    (h : Staged env entries v t live) (orders : List PendingEntry) :
    ∃ live', Staged env entries v (env.fillEach v t orders).1 live' := by
  induction orders generalizing t live with
  | nil => exact ⟨live, h⟩
  | cons order orders ih =>
    obtain ⟨live', hstep⟩ := h.fillEntry order
    exact ih hstep

theorem resolvePosition (hstage : stage = none ∨ stage = some v)
    (h : Recorded env entries t.book.exitLegs (l ++ (stage, op) :: r)) :
    Recorded env entries (env.resolvePosition v t op).1.book.exitLegs
      (l ++ (env.resolvePosition v t op).2.toList.map (Prod.mk none) ++ r) := by
  obtain ⟨legs, hemits, hlegs, hnext⟩ := Turn.Emits.resolvePosition env v t op
  rw [hemits.rows]
  apply h.go hlegs
  · intro op' hop'
    rw [(hnext ⟨op, [], [], 0, none⟩ rfl rfl).2] at hop'
    split_ifs at hop'
    · rw [← Option.some.inj hop']
      exact (Track.sameTerms_seeBar env _ v).seq
    · exact absurd hop' (Option.not_mem_none op')
  · rintro order fill tr hlives rfl hopen
    obtain ⟨hrows, hkept⟩ := hnext tr rfl hopen
    refine ⟨tr.seeBar env v, ?_, (tr.sameTerms_seeBar env v).seq, hrows, hkept⟩
    rcases hstage with rfl | rfl
    · exact hlives.step hopen (.bar v)
    · exact hlives.first

theorem resolveEach {ps : List (Option BarSlice × ManagedPosition)} {t : Turn}
    {l : List (Option BarSlice × ManagedPosition)}
    (hstage : ∀ p ∈ ps, p.1 = none ∨ p.1 = some v)
    (h : Recorded env entries t.book.exitLegs (l ++ ps)) :
    Recorded env entries (env.resolveEach v t (ps.map Prod.snd)).1.book.exitLegs
      (l ++ (env.resolveEach v t (ps.map Prod.snd)).2.map (Prod.mk none)) := by
  induction ps generalizing t l with
  | nil => exact h
  | cons p ps ih =>
    have hstep := resolvePosition (hstage p (by simp)) h
    have hrest := ih (fun q hq => hstage q (List.mem_cons_of_mem p hq)) hstep
    simp only [List.map_cons, BookSetup.resolveEach]
    rw [List.map_append, ← List.append_assoc]
    exact hrest

theorem flattenEach {targets : List ManagedPosition} {t : Turn}
    (h : Recorded env entries t.book.exitLegs (t.book.open_.map (Prod.mk none)))
    (hmem : ∀ op ∈ targets, op ∈ t.book.open_)
    (hnodup : (targets.map ManagedPosition.seq).Nodup) (v : BarSlice) (reason : CloseReason) :
    Recorded env entries (env.flattenEach v reason.exitReason t targets).book.exitLegs
      ((env.flattenEach v reason.exitReason t targets).book.open_.map (Prod.mk none)) := by
  induction targets generalizing t with
  | nil => exact h
  | cons op targets ih =>
    rw [List.map_cons, List.nodup_cons] at hnodup
    simp only [BookSetup.flattenEach]
    split
    · exact ih h (fun p hp => hmem p (List.mem_cons_of_mem _ hp)) hnodup.2
    · rename_i bar hbar
      refine ih ?_ (fun p hp => ?_) hnodup.2
      · exact h.closeOpen (hmem op (by simp)) v bar reason bar.close
          (v.spacing op.position.instrument)
      · have hne : p.seq ≠ op.seq := fun heq => hnodup.1 (heq ▸ List.mem_map_of_mem hp)
        exact List.mem_filter.2 ⟨hmem p (List.mem_cons_of_mem _ hp), decide_eq_true hne⟩

theorem scheduleLoop (instrument : String) (direction : Direction) (actionable : ℤ) (seq : ℕ)
    (h : Recorded env entries rows (l ++ ops.map (Prod.mk none))) :
    Recorded env entries rows
      (l ++ (PositionBook.scheduleLoop instrument direction actionable ops seq).2.1.map
        (Prod.mk none)) := by
  rw [(Sound.scheduleLoop_spec instrument direction actionable ops seq).2.1]
  induction ops generalizing l with
  | nil => exact h
  | cons op ops ih =>
    simp only [List.map_cons]
    have hstep : Recorded env entries rows (l ++ [(none,
        if op.opposes instrument direction then { op with reversalPending := true } else op)] ++
        ops.map (Prod.mk none)) := by
      split_ifs
      · have hgo := h.goStep .reverse [] (some { op with reversalPending := true }) (by simp)
          (by simp) (by
            rintro tr rfl hopen
            exact ⟨(List.append_nil _).symm, (if_pos hopen).symm⟩)
        rw [List.append_nil] at hgo
        exact hgo
      · simpa using h
    have hrest := ih hstep
    rw [List.append_assoc] at hrest
    exact hrest

theorem filled (hsound : Sound initial b (b.open_.map ManagedPosition.account))
    (hbounded : ∀ s ∈ entries.filterMap EntryEvent.managed, s ≤ b.seq) (v : BarSlice)
    (h : Recorded env entries b.exitLegs (b.open_.map (Prod.mk none))) :
    ∃ live, Staged env entries v (env.fillEntries v (env.runPendingCloses v ⟨b, .empty⟩)) live := by
  obtain ⟨legs, hemits, -, -⟩ :=
    Turn.Emits.runCloses env v ⟨⟨b, .empty⟩, b.open_, b.open_⟩ b.pendingCloses
  have hnone : (env.runPendingCloses v ⟨b, .empty⟩).result.entries = [] := hemits.entries
  have hseq : (env.runPendingCloses v ⟨b, .empty⟩).book.seq = b.seq := hemits.seq
  have hstart : Staged env entries v (env.runPendingCloses v ⟨b, .empty⟩)
      ((env.runPendingCloses v ⟨b, .empty⟩).book.open_.map (Prod.mk none)) := by
    refine ⟨?_, by simp [Function.comp_def], by simp, ?_⟩
    · rw [hnone, List.append_nil]
      exact h.runPendingCloses (t := ⟨b, .empty⟩) hsound v
    · rw [hnone, List.append_nil, hseq]
      exact hbounded
  obtain ⟨live, hfilled⟩ := hstart.fillEach
    (env.runPendingCloses v ⟨b, .empty⟩).book.pending
  exact ⟨live, hfilled.recorded, hfilled.open_, hfilled.stage, hfilled.bounded⟩

theorem stages (hsound : Sound initial b (b.open_.map ManagedPosition.account))
    (hbounded : ∀ s ∈ entries.filterMap EntryEvent.managed, s ≤ b.seq) (v : BarSlice)
    (h : Recorded env entries b.exitLegs (b.open_.map (Prod.mk none))) :
    let t := env.resolveExits v (env.fillEntries v (env.runPendingCloses v ⟨b, .empty⟩))
    Recorded env (entries ++ t.result.entries) t.book.exitLegs (t.book.open_.map (Prod.mk none)) ∧
      ∀ s ∈ (entries ++ t.result.entries).filterMap EntryEvent.managed, s ≤ t.book.seq := by
  intro t
  obtain ⟨live, hfilled⟩ := h.filled hsound hbounded v
  have hresolved := Recorded.resolveEach (l := []) (t := env.fillEntries v
    (env.runPendingCloses v ⟨b, .empty⟩)) hfilled.stage hfilled.recorded
  rw [hfilled.open_] at hresolved
  obtain ⟨legs', hkept, -⟩ := Turn.Emits.resolveEach env v
    (env.fillEntries v (env.runPendingCloses v ⟨b, .empty⟩))
    (env.fillEntries v (env.runPendingCloses v ⟨b, .empty⟩)).book.open_
  have hentries : t.result.entries =
      (env.fillEntries v (env.runPendingCloses v ⟨b, .empty⟩)).result.entries := hkept.entries
  have hlast : t.book.seq =
      (env.fillEntries v (env.runPendingCloses v ⟨b, .empty⟩)).book.seq := hkept.seq
  rw [hentries, hlast]
  exact ⟨hresolved, hfilled.bounded⟩

end Recorded

namespace BookHistory

variable (env : BookSetup)

/-- The record of a history: every position that is open has met the bar it opened on. -/
structure Refines (h : BookHistory) : Prop where
  recorded : Recorded env h.entries h.book.exitLegs (h.book.open_.map (Prod.mk none))
  bounded : ∀ s ∈ h.entries.filterMap EntryEvent.managed, s ≤ h.book.seq

variable {env}

variable {h : BookHistory}

theorem Refines.step {initial : ℚ} (hr : h.Refines env)
    (hsound : Sound initial h.book (h.book.open_.map ManagedPosition.account)) (e : BookEvent) :
    (h.step env e).Refines env := by
  cases e with
  | queueEntry order | turnAway reason =>
    exact ⟨hr.recorded, fun s hs => (hr.bounded s hs).trans (Nat.le_succ _)⟩
  | bump reason => exact ⟨hr.recorded, hr.bounded⟩
  | scheduleReversal instrument direction index =>
    simp only [BookHistory.step, PositionBook.scheduleReversal]
    split_ifs
    · exact ⟨hr.recorded, hr.bounded⟩
    · have hloop := Recorded.scheduleLoop (l := []) instrument direction
        (index + 1 + env.latencyBars) h.book.seq hr.recorded
      have hle := (Sound.scheduleLoop_spec instrument direction (index + 1 + env.latencyBars)
        h.book.open_ h.book.seq).1
      exact ⟨hloop, fun s hs => (hr.bounded s hs).trans hle⟩
  | advance v =>
    have hcharged := hr.recorded.chargeFinancing v
    have hsound' := hsound.chargeFinancing env v
    have hseq := (env.sameBook_chargeFinancing v h.book).1.seq
    rcases h.step_advance env v with ⟨e, b', hcharge, hstep⟩ | ⟨b', hcharge, hstep⟩
    · rw [hcharge] at hcharged hseq
      rw [hstep]
      exact ⟨hcharged, fun s hs => (hr.bounded s hs).trans hseq.ge⟩
    · rw [hcharge] at hcharged hsound' hseq
      rw [hstep]
      obtain ⟨hrecorded, hbounded⟩ := hcharged.stages hsound'
        (fun s hs => (hr.bounded s hs).trans hseq.ge) v
      exact ⟨hrecorded, hbounded⟩
  | flatten v reason which =>
    have hsub : (h.book.open_.filter which).Sublist h.book.open_ := List.filter_sublist
    obtain ⟨-, -, hseq, -⟩ := env.flattenEach_keeps v reason.exitReason ⟨h.book, .empty⟩
      (h.book.open_.filter which)
    exact ⟨Recorded.flattenEach (t := ⟨h.book, .empty⟩) hr.recorded
      (fun op hop => hsub.subset hop)
      ((hsub.map ManagedPosition.seq).nodup hsound.seqs_nodup) v reason,
      fun s hs => (hr.bounded s hs).trans hseq.ge⟩
  | clear => exact ⟨hr.recorded, hr.bounded⟩

theorem refines (env : BookSetup) (initial : ℚ) (events : List BookEvent) :
    (after env initial events).Refines env := by
  have hstart : (fresh initial).Refines env ∧ Sound initial (fresh initial).book
      ((fresh initial).book.open_.map ManagedPosition.account) :=
    ⟨⟨Recorded.empty env, by simp [fresh]⟩, Sound.empty initial⟩
  exact (Runs.exec_invariant (I := fun h : BookHistory => h.Refines env ∧
    Sound initial h.book (h.book.open_.map ManagedPosition.account))
    (fun h e hinv => ⟨hinv.1.step hinv.2 e, hinv.2.historyStep env e⟩) hstart events).1

theorem Refines.life (hr : h.Refines env) {e : EntryEvent} (he : e ∈ h.entries) {s : ℕ}
    (hs : e.managed = some s) : ∃ fill tr, e.fill = some fill ∧
      Lives env e.pending fill none tr ∧ tr.op.seq = s ∧
      tr.legs env = h.book.exitLegs.filter (fun leg => leg.positionSeq = s) ∧
      ((tr.closed = none ∧ tr.op ∈ h.book.open_) ∨
        (tr.closed ≠ none ∧ ∀ op ∈ h.book.open_, op.seq ≠ s)) := by
  obtain ⟨fill, stage, tr, hfill, hlives, hseq, hrows, hplace⟩ := hr.recorded.lived e he s hs
  rcases hplace with ⟨hopen, hmem⟩ | ⟨hclosed, hstage, hgone⟩
  · obtain ⟨op, hop, heq⟩ := List.mem_map.1 hmem
    obtain ⟨hstage, hmine⟩ := Prod.mk.inj heq
    subst hstage
    exact ⟨fill, tr, hfill, hlives, hseq, hrows, .inl ⟨hopen, hmine ▸ hop⟩⟩
  · subst hstage
    refine ⟨fill, tr, hfill, hlives, hseq, hrows, .inr ⟨hclosed, fun op hop => ?_⟩⟩
    exact hgone (none, op) (List.mem_map_of_mem hop)

variable {op : ManagedPosition}

theorem Refines.opener (hr : h.Refines env)
    (hop : op ∈ h.book.open_) : ∃ e ∈ h.entries, e.managed = some op.seq :=
  List.mem_filterMap.1 (hr.recorded.opened (none, op) (List.mem_map_of_mem hop))

theorem Refines.life_of_open (hr : h.Refines env)
    (hop : op ∈ h.book.open_) : ∃ e ∈ h.entries, ∃ fill tr, e.managed = some op.seq ∧
      e.fill = some fill ∧ Lives env e.pending fill none tr ∧ tr.op = op ∧
      tr.legs env = h.book.exitLegs.filter (fun leg => leg.positionSeq = op.seq) := by
  obtain ⟨e, he, hs⟩ := hr.opener hop
  obtain ⟨fill, tr, hfill, hlives, hseq, hrows, hplace⟩ := hr.life he hs
  refine ⟨e, he, fill, tr, hs, hfill, hlives, ?_, hrows⟩
  rcases hplace with ⟨-, hmem⟩ | ⟨-, hgone⟩
  · have hnodup := hr.recorded.live_nodup
    rw [List.map_map] at hnodup
    exact List.inj_on_of_nodup_map hnodup hmem hop hseq
  · exact absurd rfl (hgone op hop)

end BookHistory

end Fiboki
