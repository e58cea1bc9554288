import Fiboki.Forward.EveryBarFeed

/-!
The book's steps: catching up, stepping, the end of a cycle and the restart keep the invariant.
-/

namespace Fiboki.Forward

namespace ForwardState

variable {config : PollingFeedConfig} {σ : ForwardState}

section CatchUp

variable {frames : Dict String Bar}

theorem extends_catchUp : Extends σ (σ.catchUp frames) :=
  ⟨rfl, fun _ _ hf => hf, fun _ hr => List.mem_append_left _ hr⟩

variable {symbol : String}

theorem reported_catchUp {c : Timestamp}
    (h : .notModelled symbol c ∈ missed σ.feed σ.book.driver frames) :
    (σ.catchUp frames).Reported symbol c := by
  refine ⟨.notModelled symbol c, ?_, by simp [Report.covers]⟩
  exact List.mem_append_right _ (List.mem_filterMap.2 ⟨_, h, rfl⟩)

theorem planned_catchUp {t : Timestamp}
    (ht : t ∈ planned symbol (plan σ.feed σ.book.driver frames)) :
    ∃ newest ∈ frames.get symbol, newest.timestamp = t ∨
      t < newest.timestamp ∧ Holds σ.feed symbol t ∧ ¬ Passed σ.book.driver symbol t := by
  rcases mem_planned_plan.1 ht with ⟨bar, hmem, rfl⟩ | ⟨newest, hget, rfl⟩
  · obtain ⟨now, -, -, newest, hget, hafter, hbefore, held, hheld, hkey⟩ := unseen_of_apply hmem
    refine ⟨newest, hget, .inr ⟨hbefore, ⟨held, hheld, hkey⟩, ?_⟩⟩
    rintro ⟨b, hb, hle⟩
    rw [Option.mem_def.1 hb, Option.getD_some] at hafter
    exact absurd hle (not_le.2 hafter)
  · exact ⟨newest, hget, .inl rfl⟩

theorem stepsInv_catchUp (h : σ.Inv config) (hφ : σ.phase = .planning frames)
    (hfirst : σ.FirstSeen frames) :
    (σ.catchUp frames).StepsInv (plan σ.feed σ.book.driver frames) := by
  have hphase := h.phase
  rw [hφ] at hphase
  obtain ⟨hframes, hempty⟩ := hphase
  refine ⟨catchUpOrder_plan, fun _ => pairwise_planned_plan, ?_, ?_, ?_, ?_, ?_, ?_⟩
  · intro symbol t ht
    obtain ⟨newest, hget, rfl | ⟨-, -, hpassed⟩⟩ := planned_catchUp ht
    · exact hframes.unseen symbol newest hget
    · exact hpassed
  · intro symbol t ht
    obtain ⟨newest, hget, hcase⟩ := planned_catchUp ht
    refine ⟨newest.timestamp, hframes.newest symbol newest hget, ?_⟩
    rcases hcase with rfl | ⟨hlt, -⟩
    · exact le_rfl
    · exact hlt.le
  · intro symbol t ht
    obtain ⟨newest, hget, hcase⟩ := planned_catchUp ht
    refine ⟨newest.timestamp, hframes.delivered symbol newest hget, ?_⟩
    rcases hcase with rfl | ⟨hlt, -⟩
    · exact le_rfl
    · exact hlt.le
  · intro symbol t ht
    obtain ⟨newest, hget, -⟩ := planned_catchUp ht
    exact hframes.first symbol newest hget
  · intro symbol t ht
    obtain ⟨newest, hget, rfl | ⟨-, hholds, -⟩⟩ := planned_catchUp ht
    · obtain ⟨frame, hframe, hn⟩ := BarFeed.heldNewest_eq_some.1 (hframes.newest symbol newest hget)
      exact (h.feed symbol).held_venue _ ⟨frame, hframe, (Dict.newest_eq_some.1 hn).1⟩
    · exact (h.feed symbol).held_venue t hholds
  · intro symbol t ht c hc hd hlt
    obtain ⟨newest, hget, hcase⟩ := planned_catchUp ht
    have hbefore : c < newest.timestamp := by
      rcases hcase with rfl | ⟨hlt', -⟩
      · exact hlt
      · exact hlt.trans hlt'
    have hdue : σ.Due σ.book.driver symbol c := extends_catchUp.due rfl hd
    have hholds : Holds σ.feed symbol c := by
      rcases (h.feed symbol).covered _ (hframes.newest symbol newest hget) c hc hdue hbefore.le with
        hheld | ⟨-, short, hshort, -⟩
      · exact hheld
      · rw [hempty] at hshort
        cases hshort
    -- the row lies between the last bar seen and the newest, whichever bound the book has
    have hafter : ∃ now ∈ σ.book.driver.now, (lastSeen σ.book.driver symbol).getD now < c := by
      cases hseen : lastSeen σ.book.driver symbol with
      | none =>
        exact hfirst (symbol, newest) (Dict.mem_entries.2 hget) hseen c hc hdue hbefore
      | some b =>
        obtain ⟨now, hnow⟩ := h.book.seen_now symbol b hseen
        exact ⟨now, hnow, not_le.1 fun hle => hdue.2.1 ⟨b, hseen, hle⟩⟩
    obtain ⟨now, hnow, hafter⟩ := hafter
    obtain ⟨held, hheld, hkey⟩ := hholds
    rcases missed_of_unseen hnow ⟨newest, hget, hafter, hbefore, held, hheld, hkey⟩ with
      hnot | happly
    · exact absurd (reported_catchUp hnot) hd.2.2
    · exact mem_planned_plan.2 (.inl happly)

theorem Inv.catchUp (h : σ.Inv config) (hφ : σ.phase = .planning frames)
    (hfirst : σ.FirstSeen frames) : (σ.catchUp frames).Inv config := by
  have hsteps := stepsInv_catchUp h hφ hfirst
  have hphase := h.phase
  rw [hφ] at hphase
  refine ⟨h.book.extends extends_catchUp, ?_, { h.offers with }, ?_, hsteps, ?_⟩
  · intro symbol
    refine ⟨(h.feed symbol).held_venue, (h.feed symbol).seen_held, ?_, ?_⟩
    · intro newest hnewest c hc hd hle
      exact (h.feed symbol).covered newest hnewest c hc (extends_catchUp.due rfl hd) hle
    · intro hnone floor hfloor c hc hd
      exact (h.feed symbol).floored hnone floor hfloor c hc (extends_catchUp.due rfl hd)
  · intro snapshot hs
    exact ⟨(h.snapshot snapshot hs).1.extends extends_catchUp, (h.snapshot snapshot hs).2⟩
  · intro symbol bar hbar
    exact ⟨hphase.1.delivered symbol bar hbar, hphase.1.new symbol bar hbar⟩

end CatchUp

section Advance

variable {at_ : Timestamp} {bars : Dict String Bar} {rest : List (Timestamp × Dict String Bar)}
  {frames : Dict String Bar}

theorem startsOf_step (entries : List (String × Bar)) (hnodup : (entries.map Prod.fst).Nodup)
    (symbol : String) :
    (((entries.map fun e => (e.1, e.2.timestamp)).filter fun e => e.1 = symbol).map Prod.snd) =
      ((Dict.lookup symbol entries).map Bar.timestamp).toList := by
  induction entries with
  | nil => rfl
  | cons e rest ih =>
    rw [List.map_cons, List.nodup_cons] at hnodup
    rw [List.map_cons, List.filter_cons, Dict.lookup]
    by_cases hs : e.1 = symbol
    · have hnone : Dict.lookup symbol rest = none := by
        cases hlook : Dict.lookup symbol rest with
        | none => rfl
        | some bar =>
          have hmem := List.mem_map_of_mem (f := Prod.fst) (Dict.mem_of_lookup hlook)
          exact absurd (hs ▸ hmem) hnodup.1
      have htail := ih hnodup.2
      rw [hnone] at htail
      rw [if_pos (by simpa using hs), if_pos hs, List.map_cons, htail]
      rfl
    · rw [if_neg (by simpa using hs), if_neg hs]
      exact ih hnodup.2

theorem count_applied (book : Stepped) (symbol : String) (c : Timestamp) :
    book.applied.count (symbol, c) = (appliedOf book symbol).count c := by
  unfold appliedOf
  induction book.applied with
  | nil => rfl
  | cons e rest ih =>
    rw [List.count_cons, ih]
    by_cases hs : e.1 = symbol
    · rw [List.filter_cons_of_pos (by simpa using hs), List.map_cons, List.count_cons]
      have hiff : (e == (symbol, c)) = (e.2 == c) := by
        rw [Bool.eq_iff_iff, beq_iff_eq, beq_iff_eq, Prod.ext_iff]
        exact ⟨And.right, fun h => ⟨hs, h⟩⟩
      rw [hiff]
    · rw [List.filter_cons_of_neg (by simpa using hs)]
      have hne : (e == (symbol, c)) = false := by
        rw [beq_eq_false_iff_ne]
        rintro rfl
        exact hs rfl
      rw [hne]
      rfl

def bookAfter (σ : ForwardState) (at_ : Timestamp) (bars : Dict String Bar) : Stepped where
  driver := rolled σ.book.driver (barMap bars) (σ.book.barIndex + 1) at_
  barIndex := σ.book.barIndex + 1
  applied := σ.book.applied ++ bars.entries.map fun e => (e.1, e.2.timestamp)
  steps := σ.book.steps ++ [at_]

theorem advance_of_inv (h : σ.Inv config) : σ.advance at_ bars rest frames =
      { σ with phase := .stepping rest frames, book := σ.bookAfter at_ bars } := by
  have hindex := h.book.index
  unfold ForwardState.advance
  dsimp only
  rw [if_neg (by omega)]
  rfl

theorem appliedOf_bookAfter (symbol : String) : appliedOf (σ.bookAfter at_ bars) symbol =
      appliedOf σ.book symbol ++ ((bars.get symbol).map Bar.timestamp).toList := by
  unfold appliedOf bookAfter
  dsimp only
  rw [List.filter_append, List.map_append, startsOf_step _ bars.nodup_keys]
  rfl

theorem Inv.lastSeen_bookAfter (h : σ.Inv config) (symbol : String) :
    lastSeen (σ.bookAfter at_ bars).driver symbol =
      ((bars.get symbol).map Bar.timestamp).or (lastSeen σ.book.driver symbol) := by
  have hindex := h.book.index
  exact lastSeen_rolled (by omega) bars at_ symbol

theorem planned_cons (symbol : String) : planned symbol ((at_, bars) :: rest) =
      ((bars.get symbol).map Bar.timestamp).toList ++ planned symbol rest := by
  unfold planned
  rw [List.filterMap_cons]
  cases (bars.get symbol).map Bar.timestamp <;> rfl

variable {symbol : String}

theorem planned_head {bar : Bar} (h : bars.get symbol = some bar) :
    planned symbol ((at_, bars) :: rest) = bar.timestamp :: planned symbol rest := by
  rw [planned_cons, h]
  rfl

theorem planned_tail (h : bars.get symbol = none) :
    planned symbol ((at_, bars) :: rest) = planned symbol rest := by
  rw [planned_cons, h]
  rfl

variable {c : Timestamp}

theorem Inv.passed_bookAfter (h : σ.Inv config) (hsteps : σ.StepsInv ((at_, bars) :: rest))
    (hc : Passed σ.book.driver symbol c) :
    Passed (σ.bookAfter at_ bars).driver symbol c := by
  obtain ⟨b, hb, hle⟩ := hc
  unfold Passed
  rw [h.lastSeen_bookAfter]
  cases hget : bars.get symbol with
  | none => exact ⟨b, hb, hle⟩
  | some bar =>
    have hunseen := hsteps.unseen symbol bar.timestamp
      (by rw [planned_head hget]; exact List.mem_cons_self)
    refine ⟨bar.timestamp, rfl, ?_⟩
    exact hle.trans (not_le.1 fun hb' => hunseen ⟨b, hb, hb'⟩).le

theorem Inv.passed_of_bookAfter (h : σ.Inv config)
    (hc : Passed (σ.bookAfter at_ bars).driver symbol c) :
    Passed σ.book.driver symbol c ∨ ∃ bar, bars.get symbol = some bar ∧ c ≤ bar.timestamp := by
  obtain ⟨b, hb, hle⟩ := hc
  rw [h.lastSeen_bookAfter] at hb
  cases hget : bars.get symbol with
  | none =>
    rw [hget] at hb
    exact .inl ⟨b, hb, hle⟩
  | some bar =>
    rw [hget] at hb
    obtain rfl : bar.timestamp = b := Option.some.inj hb
    exact .inr ⟨bar, rfl, hle⟩

theorem Inv.increasing_bookAfter (h : σ.Inv config) (hsteps : σ.StepsInv ((at_, bars) :: rest))
    (symbol : String) : (appliedOf (σ.bookAfter at_ bars) symbol).Pairwise (· < ·) := by
  rw [appliedOf_bookAfter]
  cases hget : bars.get symbol with
  | none =>
    rw [Option.map_none, Option.toList_none, List.append_nil]
    exact h.book.increasing symbol
  | some bar =>
    apply List.pairwise_append.2
    refine ⟨h.book.increasing symbol, List.pairwise_singleton _ _, ?_⟩
    intro t ht t' ht'
    rw [List.mem_singleton.1 ht']
    obtain ⟨e, he, rfl⟩ := List.mem_map.1 ht
    obtain ⟨hmem, hs⟩ := List.mem_filter.1 he
    obtain ⟨b, hb, hle⟩ := h.book.applied_passed e hmem
    rw [of_decide_eq_true hs] at hb
    have hunseen := hsteps.unseen symbol bar.timestamp
      (by rw [planned_head hget]; exact List.mem_cons_self)
    exact hle.trans_lt (not_le.1 fun hb' => hunseen ⟨b, hb, hb'⟩)

theorem Inv.accounted_bookAfter (h : σ.Inv config)
    (hsteps : σ.StepsInv ((at_, bars) :: rest)) : σ.Accounted (σ.bookAfter at_ bars) := by
  intro symbol c hc hafter hpassed
  have hone : c ∈ appliedOf (σ.bookAfter at_ bars) symbol →
      (σ.bookAfter at_ bars).applied.count (symbol, c) = 1 := by
    intro hmem
    rw [count_applied]
    exact List.count_eq_one_of_mem ((h.increasing_bookAfter hsteps symbol).imp ne_of_lt) hmem
  by_cases hreported : σ.Reported symbol c
  · exact .inr hreported
  left
  by_cases hold : Passed σ.book.driver symbol c
  · rcases h.book.accounted symbol c hc hafter hold with hcount | hr
    · apply hone
      rw [appliedOf_bookAfter]
      apply List.mem_append_left
      rw [count_applied] at hcount
      exact List.count_pos_iff.1 (by omega)
    · exact absurd hr hreported
  · obtain ⟨bar, hget, hle⟩ := (h.passed_of_bookAfter hpassed).resolve_left hold
    have hhead : bar.timestamp ∈ planned symbol ((at_, bars) :: rest) := by
      rw [planned_head hget]
      exact List.mem_cons_self
    rcases hle.lt_or_eq with hlt | rfl
    · -- an older due candle would be planned before the step's bar
      have hmem := hsteps.covered symbol _ hhead c hc ⟨hafter, hold, hreported⟩ hlt
      have hsorted := hsteps.sorted symbol
      rw [planned_head hget] at hmem hsorted
      rcases List.mem_cons.1 hmem with rfl | hmem
      · exact absurd hlt (lt_irrefl _)
      · exact absurd ((List.pairwise_cons.1 hsorted).1 c hmem) (not_lt.2 hlt.le)
    · apply hone
      rw [appliedOf_bookAfter, hget]
      exact List.mem_append_right _ (List.mem_singleton_self _)

theorem Inv.book_advance (h : σ.Inv config) (hsteps : σ.StepsInv ((at_, bars) :: rest))
    (hnow : ∀ now ∈ σ.book.driver.now, now ≤ at_) :
    σ.BookInv σ.feed.delivered (σ.bookAfter at_ bars) := by
  have hindex := h.book.index
  have hnext : σ.book.driver.barIndex < σ.book.barIndex + 1 := by omega
  have hrolled := rolled_now hnext (barMap bars) at_
  have hseen : ∀ symbol, ∀ b ∈ lastSeen (σ.bookAfter at_ bars).driver symbol,
      b ∈ lastSeen σ.book.driver symbol ∨ b ∈ planned symbol ((at_, bars) :: rest) := by
    intro symbol b hb
    rw [h.lastSeen_bookAfter] at hb
    cases hget : bars.get symbol with
    | none =>
      rw [hget] at hb
      exact .inl hb
    | some bar =>
      rw [hget] at hb
      obtain rfl : bar.timestamp = b := Option.some.inj hb
      rw [planned_head hget]
      exact .inr List.mem_cons_self
  refine ⟨?_, ?_, ?_, ?_, ?_, h.accounted_bookAfter hsteps, ?_, h.increasing_bookAfter hsteps, ?_,
    ?_⟩
  · exact hrolled.2.le
  · intro symbol b hb
    rcases hseen symbol b hb with hb | hb
    · exact h.book.seen_delivered symbol b hb
    · exact hsteps.delivered symbol b hb
  · intro symbol b hb
    rcases hseen symbol b hb with hb | hb
    · exact h.book.seen_first symbol b hb
    · exact hsteps.first symbol b hb
  · intro symbol b hb
    rcases hseen symbol b hb with hb | hb
    · exact h.book.seen_venue symbol b hb
    · exact hsteps.venue symbol b hb
  · intro symbol b hb
    exact ⟨at_, hrolled.1⟩
  · intro e he
    rcases List.mem_append.1 he with he | he
    · exact h.passed_bookAfter hsteps (h.book.applied_passed e he)
    · obtain ⟨⟨s, bar⟩, hmem, rfl⟩ := List.mem_map.1 he
      refine ⟨bar.timestamp, ?_, le_rfl⟩
      dsimp only
      rw [h.lastSeen_bookAfter, Dict.mem_entries.1 hmem]
      rfl
  · apply List.pairwise_append.2
    refine ⟨h.book.forward, List.pairwise_singleton _ _, ?_⟩
    intro t ht t' ht'
    obtain ⟨now, hmem, hle⟩ := h.book.steps_now t ht
    rw [List.mem_singleton.1 ht']
    exact hle.trans (hnow now hmem)
  · intro t ht
    refine ⟨at_, hrolled.1, ?_⟩
    rcases List.mem_append.1 ht with ht | ht
    · obtain ⟨now, hmem, hle⟩ := h.book.steps_now t ht
      exact hle.trans (hnow now hmem)
    · exact (List.mem_singleton.1 ht).le

theorem Inv.steps_advance (h : σ.Inv config) (hsteps : σ.StepsInv ((at_, bars) :: rest))
    (φ : Phase) :
    { σ with phase := φ, book := σ.bookAfter at_ bars }.StepsInv rest := by
  have hindex := h.book.index
  have hmem : ∀ symbol, ∀ t ∈ planned symbol rest, t ∈ planned symbol ((at_, bars) :: rest) := by
    intro symbol t ht
    rw [planned_cons]
    exact List.mem_append_right _ ht
  refine ⟨?_, ?_, ?_, ?_, ?_, ?_, ?_, ?_⟩
  · exact hsteps.order.tail (rolled_now (by omega) _ _).1
  · intro symbol
    have hsorted := hsteps.sorted symbol
    rw [planned_cons] at hsorted
    exact (List.pairwise_append.1 hsorted).2.1
  · intro symbol t ht hpassed
    rcases h.passed_of_bookAfter hpassed with hold | ⟨bar, hget, hle⟩
    · exact hsteps.unseen symbol t (hmem symbol t ht) hold
    · have hsorted := hsteps.sorted symbol
      rw [planned_head hget] at hsorted
      exact absurd hle (not_le.2 ((List.pairwise_cons.1 hsorted).1 t ht))
  · exact fun symbol t ht => hsteps.held symbol t (hmem symbol t ht)
  · exact fun symbol t ht => hsteps.delivered symbol t (hmem symbol t ht)
  · exact fun symbol t ht => hsteps.first symbol t (hmem symbol t ht)
  · exact fun symbol t ht => hsteps.venue symbol t (hmem symbol t ht)
  · intro symbol t ht c hc hd hlt
    have hdue : σ.Due σ.book.driver symbol c :=
      ⟨hd.1, fun hold => hd.2.1 (h.passed_bookAfter hsteps hold), hd.2.2⟩
    have hplanned := hsteps.covered symbol t (hmem symbol t ht) c hc hdue hlt
    cases hget : bars.get symbol with
    | none =>
      rw [planned_tail hget] at hplanned
      exact hplanned
    | some bar =>
      rw [planned_head hget] at hplanned
      rcases List.mem_cons.1 hplanned with rfl | hplanned
      · refine absurd ⟨bar.timestamp, ?_, le_rfl⟩ hd.2.1
        dsimp only
        rw [h.lastSeen_bookAfter, hget]
        rfl
      · exact hplanned

theorem Inv.advance (h : σ.Inv config) (hφ : σ.phase = .stepping ((at_, bars) :: rest) frames)
    (hnow : ∀ now ∈ σ.book.driver.now, now ≤ at_) :
    (σ.advance at_ bars rest frames).Inv config := by
  have hphase := h.phase
  rw [hφ] at hphase
  obtain ⟨hsteps, hframes⟩ := hphase
  rw [advance_of_inv h]
  have hdue : ∀ {symbol : String} {c : Timestamp},
      σ.Due (σ.bookAfter at_ bars).driver symbol c → σ.Due σ.book.driver symbol c :=
    fun hd => ⟨hd.1, fun hold => hd.2.1 (h.passed_bookAfter hsteps hold), hd.2.2⟩
  refine ⟨{ h.book_advance hsteps hnow with }, ?_, { h.offers with }, ?_,
    h.steps_advance hsteps _, hframes⟩
  · intro symbol
    refine ⟨(h.feed symbol).held_venue, ?_, ?_, ?_⟩
    · intro b hb newest hnewest
      dsimp only at hb
      rw [h.lastSeen_bookAfter] at hb
      cases hget : bars.get symbol with
      | none =>
        rw [hget] at hb
        exact (h.feed symbol).seen_held b hb newest hnewest
      | some bar =>
        rw [hget] at hb
        obtain rfl : bar.timestamp = b := Option.some.inj hb
        obtain ⟨newest', hnewest', hle⟩ := hsteps.held symbol bar.timestamp
          (by rw [planned_head hget]; exact List.mem_cons_self)
        rw [← Option.some.inj (hnewest'.symm.trans hnewest)]
        exact hle
    · intro newest hnewest c hc hd hle
      exact (h.feed symbol).covered newest hnewest c hc (hdue hd) hle
    · intro hnone floor hfloor c hc hd
      exact (h.feed symbol).floored hnone floor hfloor c hc (hdue hd)
  · intro snapshot hs
    refine ⟨{ (h.snapshot snapshot hs).1 with }, ?_⟩
    intro symbol c hc
    exact h.passed_bookAfter hsteps ((h.snapshot snapshot hs).2 symbol c hc)

end Advance

theorem Inv.finish (h : σ.Inv config) {frames : Dict String Bar}
    (hφ : σ.phase = .stepping [] frames) : (σ.finish frames).Inv config := by
  have hphase := h.phase
  rw [hφ] at hphase
  refine ⟨{ h.book with }, fun symbol => { h.feed symbol with }, ⟨?_, ?_⟩, ?_, trivial⟩
  · apply List.nodup_append.2
    refine ⟨h.offers.once, ?_, ?_⟩
    · have hkeys := frames.nodup_keys
      apply List.Nodup.of_map Prod.fst
      rw [List.map_map]
      exact hkeys
    · rintro e he e' he' rfl
      obtain ⟨⟨s, bar⟩, hmem, rfl⟩ := List.mem_map.1 he'
      exact absurd ((hphase.2 s bar (Dict.mem_entries.1 hmem)).2 _ he rfl) (lt_irrefl _)
  · intro e he
    rcases List.mem_append.1 he with he | he
    · exact h.offers.delivered e he
    · obtain ⟨⟨s, bar⟩, hmem, rfl⟩ := List.mem_map.1 he
      exact ⟨bar.timestamp, (hphase.2 s bar (Dict.mem_entries.1 hmem)).1, le_rfl⟩
  · intro snapshot hs
    exact ⟨{ (h.snapshot snapshot hs).1 with }, (h.snapshot snapshot hs).2⟩

theorem Inv.fail (h : σ.Inv config) (counted : Bool) : (σ.fail counted).Inv config := by
  unfold ForwardState.fail
  cases counted with
  | false => exact h.setPhase trivial
  | true =>
    refine ⟨{ h.book with index := ?_ }, fun symbol => { h.feed symbol with },
      { h.offers with }, ?_, trivial⟩
    · have hindex := h.book.index
      show σ.book.driver.barIndex ≤ σ.book.barIndex + 1
      omega
    · intro snapshot hs
      exact ⟨{ (h.snapshot snapshot hs).1 with }, (h.snapshot snapshot hs).2⟩

theorem Inv.persist (h : σ.Inv config) : (σ.persist config).Inv config := by
  refine ⟨{ h.book with }, fun symbol => { h.feed symbol with }, { h.offers with }, ?_, trivial⟩
  rintro snapshot ⟨⟩
  exact ⟨{ h.book with }, fun _ _ hp => hp⟩

theorem Inv.restore (h : σ.Inv config) {snapshot : Snapshot} (hs : σ.snapshot = some snapshot)
    (hresumes : σ.Resumes snapshot) : (σ.restore snapshot).Inv config := by
  obtain ⟨hbook, -⟩ := h.snapshot snapshot hs
  have hnothing : ∀ symbol newest, newest ∉ (σ.restore snapshot).feed.heldNewest symbol := by
    intro symbol newest hnewest
    have hnone : (σ.restore snapshot).feed.heldNewest symbol = none := rfl
    rw [hnone] at hnewest
    cases hnewest
  refine ⟨{ hbook with }, ?_, ⟨h.offers.once, hresumes.1⟩, ?_, trivial⟩
  · intro symbol
    refine ⟨?_, ?_, ?_, ?_⟩
    · rintro c ⟨frame, hframe, -⟩
      cases hframe
    · intro b _ newest hnewest
      exact absurd hnewest (hnothing symbol newest)
    · intro newest hnewest
      exact absurd hnewest (hnothing symbol newest)
    · intro _ floor hfloor c hc hd
      exact hresumes.2 (symbol, floor) (Dict.mem_entries.2 hfloor) c hc hd
  · intro other hother
    have heq : snapshot = other := Option.some.inj (hs.symm.trans hother)
    subst heq
    exact ⟨{ hbook with }, fun _ _ hp => hp⟩

end ForwardState

end Fiboki.Forward
