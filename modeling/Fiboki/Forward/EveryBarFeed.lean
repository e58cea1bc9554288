import Fiboki.Forward.EveryBar

/-!
The venue's and the feed's steps: publishing, fetching and delivering keep the invariant.
-/

namespace Fiboki.Forward

namespace ForwardState

variable {config : PollingFeedConfig} {σ : ForwardState}

theorem Inv.setPhase (h : σ.Inv config) {φ : Phase}
    (hφ : { σ with phase := φ }.PhaseInv φ) : { σ with phase := φ }.Inv config :=
  ⟨{ h.book with }, fun symbol => { h.feed symbol with }, { h.offers with },
    fun snapshot hs => ⟨{ (h.snapshot snapshot hs).1 with }, (h.snapshot snapshot hs).2⟩, hφ⟩

theorem settle_phaseInv (p : PollProgress) (σ : ForwardState) : σ.PhaseInv (p.settle config) := by
  unfold PollProgress.settle
  split
  · trivial
  · split_ifs <;> trivial

/-- A step that only adds: the first bars and the reports there are stay. -/
structure Extends (σ σ' : ForwardState) : Prop where
  venue : σ'.venue = σ.venue
  first : ∀ symbol, ∀ f ∈ σ.firstDelivered.get symbol, f ∈ σ'.firstDelivered.get symbol
  reports : ∀ r ∈ σ.reports, r ∈ σ'.reports

section Extends

variable {σ' : ForwardState}

variable {symbol : String}

variable {c : Timestamp}

theorem Extends.reported (h : Extends σ σ')
    (hc : σ.Reported symbol c) : σ'.Reported symbol c := by
  obtain ⟨r, hr, hcovers⟩ := hc
  exact ⟨r, h.reports r hr, hcovers⟩

theorem Extends.afterFirst (h : Extends σ σ') {f c : Timestamp}
    (hf : f ∈ σ.firstDelivered.get symbol) (hc : σ'.AfterFirst symbol c) :
    σ.AfterFirst symbol c := by
  obtain ⟨f', hf', hlt⟩ := hc
  obtain rfl : f = f' := Option.some.inj ((h.first symbol f hf).symm.trans hf')
  exact ⟨f, hf, hlt⟩

theorem Extends.due (h : Extends σ σ') (hfirst : σ'.firstDelivered = σ.firstDelivered)
    {d : BookDriver} (hc : σ'.Due d symbol c) : σ.Due d symbol c := by
  obtain ⟨hafter, hpassed, hreported⟩ := hc
  unfold AfterFirst at hafter
  rw [hfirst] at hafter
  exact ⟨hafter, hpassed, fun hr => hreported (h.reported hr)⟩

variable {book : Stepped}

theorem BookInv.extends {delivered : Dict String Timestamp}
    (h : σ.BookInv delivered book) (hext : Extends σ σ') : σ'.BookInv delivered book := by
  refine { h with seen_first := ?_, seen_venue := ?_, accounted := ?_ }
  · intro symbol b hb
    obtain ⟨f, hf⟩ := h.seen_first symbol b hb
    exact ⟨f, hext.first symbol f hf⟩
  · intro symbol b hb
    rw [hext.venue]
    exact h.seen_venue symbol b hb
  · intro symbol c hc hafter hpassed
    rw [hext.venue] at hc
    have hseen := hpassed
    obtain ⟨b, hb, -⟩ := hseen
    obtain ⟨f, hf⟩ := h.seen_first symbol b hb
    rcases h.accounted symbol c hc (hext.afterFirst hf hafter) hpassed with hone | hr
    · exact .inl hone
    · exact .inr (hext.reported hr)

theorem BookInv.redelivered {delivered delivered' : Dict String Timestamp}
    (h : σ.BookInv delivered book)
    (hle : ∀ symbol, ∀ d ∈ delivered.get symbol, ∃ d' ∈ delivered'.get symbol, d ≤ d') :
    σ.BookInv delivered' book := by
  refine { h with seen_delivered := ?_ }
  intro symbol b hb
  obtain ⟨d, hd, hbd⟩ := h.seen_delivered symbol b hb
  obtain ⟨d', hd', hdd⟩ := hle symbol d hd
  exact ⟨d', hd', hbd.trans hdd⟩

end Extends

variable {row : Row}

theorem mem_venue_publish {symbol s : String} {start c : Timestamp} :
    c ∈ ((σ.publish symbol start row).venue s).keys ↔
      s = symbol ∧ c = start ∨ c ∈ (σ.venue s).keys := by
  unfold publish
  dsimp only
  by_cases hs : s = symbol
  · subst hs
    rw [Function.update_self, Dict.keys_set]
    simp
  · rw [Function.update_of_ne hs]
    simp [hs]

variable {symbol : String}

variable {c : Timestamp}

theorem Inv.not_passed_of_inTime (h : σ.Inv config)
    (hc : σ.InTime symbol c) : ¬ Passed σ.book.driver symbol c := by
  unfold InTime at hc
  split at hc
  · rename_i newest hnewest
    rintro ⟨b, hb, hcb⟩
    have hle := (h.feed symbol).seen_held b hb newest hnewest
    exact absurd (hcb.trans hle) (not_le.2 hc)
  · exact hc.1

theorem Inv.publish (h : σ.Inv config) {start : Timestamp}
    (hkept : σ.Kept config (.publish symbol start row)) :
    (σ.publish symbol start row).Inv config := by
  -- a due candle that was not there is the one published, and it came in time
  have hdue : ∀ {s : String} {c : Timestamp}, c ∈ ((σ.publish symbol start row).venue s).keys →
      σ.AfterFirst s c → ¬ σ.Reported s c → c ∈ (σ.venue s).keys ∨ σ.InTime s c := by
    intro s c hc hafter hreported
    rcases mem_venue_publish.1 hc with ⟨rfl, rfl⟩ | hc
    · exact hkept hafter hreported
    · exact .inl hc
  have hbook : ∀ {delivered : Dict String Timestamp} {book : Stepped}, σ.BookInv delivered book →
      (∀ s c, Passed book.driver s c → Passed σ.book.driver s c) →
      (σ.publish symbol start row).BookInv delivered book := by
    intro delivered book hb hpassed
    refine { hb with seen_venue := ?_, accounted := ?_ }
    · intro s b hbs
      exact mem_venue_publish.2 (.inr (hb.seen_venue s b hbs))
    · intro s c hc hafter hpass
      by_cases hreported : σ.Reported s c
      · exact .inr hreported
      · rcases hdue hc hafter hreported with hc | hin
        · exact hb.accounted s c hc hafter hpass
        · exact absurd (hpassed s c hpass) (h.not_passed_of_inTime hin)
  -- nothing due and not later than what is held can be new
  have hheld : ∀ {s : String} {c newest : Timestamp}, newest ∈ σ.feed.heldNewest s → c ≤ newest →
      σ.InTime s c → False := by
    intro s c newest hnewest hle hin
    unfold InTime at hin
    rw [hnewest] at hin
    exact absurd hle (not_le.2 hin)
  refine ⟨hbook h.book fun _ _ hp => hp, ?_, { h.offers with }, ?_, ?_⟩
  · intro s
    refine { h.feed s with held_venue := ?_, covered := ?_, floored := ?_ }
    · intro c hc
      exact mem_venue_publish.2 (.inr ((h.feed s).held_venue c hc))
    · intro newest hnewest c hc hd hle
      rcases hdue hc hd.1 hd.2.2 with hc | hin
      · exact (h.feed s).covered newest hnewest c hc hd hle
      · exact (hheld hnewest hle hin).elim
    · intro hnone floor hfloor c hc hd
      rcases hdue hc hd.1 hd.2.2 with hc | hin
      · exact (h.feed s).floored hnone floor hfloor c hc hd
      · have hfree : σ.feed.heldNewest s = none := hnone
        unfold InTime at hin
        rw [hfree] at hin
        exact hin.2 floor hfloor
  · intro snapshot hs
    exact ⟨hbook (h.snapshot snapshot hs).1 (h.snapshot snapshot hs).2, (h.snapshot snapshot hs).2⟩
  · have hphase := h.phase
    show (σ.publish symbol start row).PhaseInv σ.phase
    cases hφ : σ.phase with
    | idle | fetching p | fetched boundary missing | ended => trivial
    | delivered frames =>
      rw [hφ] at hphase
      exact { hphase with }
    | planning frames =>
      rw [hφ] at hphase
      exact ⟨{ hphase.1 with }, hphase.2⟩
    | stepping steps frames =>
      rw [hφ] at hphase
      refine ⟨{ hphase.1 with venue := ?_, covered := ?_ }, hphase.2⟩
      · intro s t ht
        exact mem_venue_publish.2 (.inr (hphase.1.venue s t ht))
      · intro s t ht c hc hd hlt
        rcases hdue hc hd.1 hd.2.2 with hc | hin
        · exact hphase.1.covered s t ht c hc hd hlt
        · obtain ⟨newest, hnewest, hle⟩ := hphase.1.held s t ht
          exact (hheld hnewest (hlt.le.trans hle) hin).elim

section Fetch

variable {p : PollProgress} {symbol : String} {rest : List String} {incomplete : List Timestamp}

variable {feed : BarFeed} {c : Timestamp}

theorem Holds.merged (h : Holds feed symbol c)
    (fetched : List (Timestamp × Row)) : c ∈ (feed.merged symbol fetched).keys := by
  obtain ⟨frame, hframe, hc⟩ := h
  exact BarFeed.mem_merged.2 (.inl ⟨frame, hframe, hc⟩)

variable {fetched : List (Timestamp × Row)}

theorem holds_keep : Holds (feed.keep config symbol fetched) symbol c ↔
      c ∈ (feed.keptFrame config symbol fetched).keys := by
  unfold Holds
  rw [BarFeed.keep_history, Dict.get_set_self]
  simp

variable {s : String}

theorem holds_keep_of_ne (hs : s ≠ symbol) :
    Holds (feed.keep config symbol fetched) s c ↔ Holds feed s c := by
  unfold Holds
  rw [BarFeed.keep_history, Dict.get_set_of_ne _ _ hs.symm]

theorem heldNewest_keep_of_ne (hs : s ≠ symbol) :
    (feed.keep config symbol fetched).heldNewest s = feed.heldNewest s := by
  unfold BarFeed.heldNewest
  rw [BarFeed.keep_history, Dict.get_set_of_ne _ _ hs.symm]

theorem heldNewest_keep {n : Timestamp} (hn : (feed.merged symbol fetched).newest = some n) :
    (feed.keep config symbol fetched).heldNewest symbol = some n := by
  unfold BarFeed.heldNewest
  rw [BarFeed.keep_history, Dict.get_set_self, Option.bind_some]
  exact BarFeed.newest_keptFrame hn

theorem FeedInv.keep_other (h : σ.FeedInv config s) (hs : s ≠ symbol)
    (fetched : List (Timestamp × Row)) (φ : Phase) :
    { σ with feed := σ.feed.keep config symbol fetched, phase := φ }.FeedInv config s := by
  refine ⟨?_, ?_, ?_, ?_⟩
  · intro c hc
    exact h.held_venue c ((holds_keep_of_ne hs).1 hc)
  · intro b hb newest hnewest
    dsimp only at hnewest
    rw [heldNewest_keep_of_ne hs] at hnewest
    exact h.seen_held b hb newest hnewest
  · intro newest hnewest c hc hd hle
    dsimp only at hnewest ⊢
    rw [heldNewest_keep_of_ne hs] at hnewest
    rw [holds_keep_of_ne hs, ShortfallCovers, BarFeed.keep_shortfall hs]
    exact h.covered newest hnewest c hc hd hle
  · intro hnone floor hfloor
    dsimp only at hnone hfloor
    rw [heldNewest_keep_of_ne hs] at hnone
    rw [BarFeed.keep_floor hs] at hfloor
    exact h.floored hnone floor hfloor

theorem Inv.keep_symbol (h : σ.Inv config) (hne : (answer (σ.venue symbol) incomplete
      (σ.feed.requestCount config symbol (p.expectedStart config))).isEmpty = false)
    (hreaches : σ.Reaches config p symbol incomplete)
    (htrim : σ.TrimKeeps config p symbol incomplete) (φ : Phase) :
    { σ with
      feed := σ.feed.keep config symbol (answer (σ.venue symbol) incomplete
        (σ.feed.requestCount config symbol (p.expectedStart config)))
      phase := φ }.FeedInv config symbol := by
  have hmem : ∀ {c : Timestamp}, c ∈ (answer (σ.venue symbol) incomplete
      (σ.feed.requestCount config symbol (p.expectedStart config))).map Prod.fst →
      c ∈ (σ.feed.merged symbol (answer (σ.venue symbol) incomplete
        (σ.feed.requestCount config symbol (p.expectedStart config)))).keys := by
    intro c hc
    exact BarFeed.mem_merged.2 (.inr hc)
  unfold TrimKeeps at htrim
  unfold Reaches at hreaches
  generalize hcount : σ.feed.requestCount config symbol (p.expectedStart config) = count at *
  generalize hfetched : answer (σ.venue symbol) incomplete count = fetched at *
  have hvenue : ∀ {c : Timestamp}, c ∈ (σ.feed.merged symbol fetched).keys →
      c ∈ (σ.venue symbol).keys := by
    intro c hc
    rcases BarFeed.mem_merged.1 hc with ⟨frame, hframe, hc⟩ | hc
    · exact (h.feed symbol).held_venue c ⟨frame, hframe, hc⟩
    · rw [← hfetched] at hc
      exact (mem_answer.1 hc).1
  -- the answer has the venue's newest candle, which is then the newest held
  obtain ⟨some_, hsome⟩ : ∃ c, c ∈ fetched.map Prod.fst := by
    cases hlist : fetched with
    | nil =>
      rw [hlist] at hne
      cases hne
    | cons e rest => exact ⟨e.1, List.mem_cons_self⟩
  obtain ⟨v, hv⟩ := Dict.exists_newest (hvenue (hmem hsome))
  obtain ⟨n, hn⟩ := Dict.exists_newest (hmem hsome)
  have hvn : v ≤ n := by
    apply (Dict.newest_eq_some.1 hn).2
    apply hmem
    rw [← hfetched] at hne ⊢
    exact newest_mem_answer hne hv
  have hheld : (σ.feed.keep config symbol fetched).heldNewest symbol = some n := heldNewest_keep hn
  -- a due candle of the merged frame passes the cut and the trim
  have hkept : ∀ {c : Timestamp}, c ∈ (σ.feed.merged symbol fetched).keys →
      (∀ floor ∈ σ.feed.pendingFloor symbol, floor ≤ c) → σ.Due σ.book.driver symbol c →
      c ∈ (σ.feed.keptFrame config symbol fetched).keys := by
    intro c hc hfloor hd
    exact BarFeed.mem_keptFrame hc hfloor (htrim c (BarFeed.mem_cutAtFloor hc hfloor) hd)
  refine ⟨?_, ?_, ?_, ?_⟩
  · intro c hc
    exact hvenue (BarFeed.keptFrame_subset (holds_keep.1 hc))
  · intro b hb newest hnewest
    dsimp only at hnewest
    rw [hheld] at hnewest
    rw [← Option.some.inj hnewest]
    exact ((Dict.newest_eq_some.1 hv).2 b (h.book.seen_venue symbol b hb)).trans hvn
  · intro newest _ c hc hd _
    dsimp only
    rw [holds_keep]
    cases hold : σ.feed.heldNewest symbol with
    | some newest =>
      have hpending := BarFeed.pendingFloor_of_held hold
      have hfloor : ∀ floor ∈ σ.feed.pendingFloor symbol, floor ≤ c := by
        rw [hpending]
        intro floor hf
        cases hf
      rcases le_or_gt c newest with hle | hlt
      · rcases (h.feed symbol).covered newest hold c hc hd hle with hholds | hshort
        · exact .inl (hkept (hholds.merged fetched) hfloor hd)
        · right
          unfold ShortfallCovers
          rw [BarFeed.keep_shortfall_of_held hpending]
          exact hshort
      · rcases hreaches c hc hd (by rw [hold]; rintro _ ⟨⟩; exact hlt) with hreach | ⟨-, hf⟩
        · left
          refine hkept (hmem ?_) hfloor hd
          rw [← hfetched]
          exact mem_answer.2 ⟨hc, hreach⟩
        · rw [hpending] at hf
          obtain ⟨floor, hf, -⟩ := hf
          cases hf
    | none =>
      have hpending := BarFeed.pendingFloor_of_not_held hold
      have hfloor : ∀ floor ∈ σ.feed.pendingFloor symbol, floor ≤ c := by
        rw [hpending]
        intro floor hf
        exact (h.feed symbol).floored hold floor hf c hc hd
      by_cases hreach : c ∈ fetched.map Prod.fst
      · exact .inl (hkept (hmem hreach) hfloor hd)
      · right
        rw [← hfetched] at hreach
        have hfar := not_and.1 (mt mem_answer.2 hreach) hc
        rcases hreaches c hc hd (by rw [hold]; rintro _ ⟨⟩) with hnear | ⟨halerts, floor, hf, hle⟩
        · exact absurd hnear hfar
        · refine ⟨halerts, ?_⟩
          -- nothing was held, so all that is merged is in the answer, and newer
          have hnewer : ∀ k ∈ (σ.feed.merged symbol fetched).keys, c < k := by
            intro k hk
            rcases BarFeed.mem_merged.1 hk with ⟨frame, hframe, hk⟩ | hk
            · obtain ⟨m, hm⟩ := Dict.exists_newest hk
              have := BarFeed.heldNewest_eq_some.2 ⟨frame, hframe, hm⟩
              rw [hold] at this
              cases this
            · rw [← hfetched] at hk
              rw [← not_le]
              intro hkc
              exact hfar ((later_anti hkc).trans_lt (mem_answer.1 hk).2)
          have hne := List.ne_nil_of_mem (hmem hsome)
          obtain ⟨first, hfirst, hlt⟩ := BarFeed.keep_shortfall_covers hf hle hne hnewer
          exact ⟨_, hfirst, hle, hlt⟩
  · intro hnone
    dsimp only at hnone
    rw [hheld] at hnone
    cases hnone

theorem Inv.fetch (h : σ.Inv config) (hreaches : σ.Reaches config p symbol incomplete)
    (htrim : σ.TrimKeeps config p symbol incomplete) :
    (σ.fetch config p symbol rest (.candles incomplete)).Inv config := by
  unfold ForwardState.fetch
  dsimp only
  by_cases hne : (answer (σ.venue symbol) incomplete
      (σ.feed.requestCount config symbol (p.expectedStart config))).isEmpty = true
  · rw [if_pos hne]
    exact h.setPhase (settle_phaseInv _ _)
  · rw [if_neg hne]
    rw [Bool.not_eq_true] at hne
    refine ⟨?_, ?_, ?_, ?_, settle_phaseInv _ _⟩
    · have hbook := h.book
      dsimp only
      rw [BarFeed.keep_delivered]
      exact { hbook with }
    · intro s
      by_cases hs : s = symbol
      · subst hs
        exact h.keep_symbol hne hreaches htrim _
      · exact (h.feed s).keep_other hs _ _
    · refine ⟨h.offers.once, ?_⟩
      intro e he
      dsimp only
      rw [BarFeed.keep_delivered]
      exact h.offers.delivered e he
    · intro snapshot hs
      exact ⟨{ (h.snapshot snapshot hs).1 with }, (h.snapshot snapshot hs).2⟩

end Fetch

section Deliver

theorem get_firstOf (entries : List (String × Bar)) (hnodup : (entries.map Prod.fst).Nodup)
    (first : Dict String Timestamp) (symbol : String) :
    (entries.foldl firstOf first).get symbol =
      (first.get symbol).or ((Dict.lookup symbol entries).map Bar.timestamp) := by
  induction entries generalizing first with
  | nil => exact (Option.or_none).symm
  | cons e rest ih =>
    rw [List.map_cons, List.nodup_cons] at hnodup
    rw [List.foldl_cons, ih hnodup.2, Dict.lookup]
    unfold firstOf
    by_cases hs : e.1 = symbol
    · rw [if_pos hs, hs]
      cases hfirst : first.get symbol with
      | some f => rw [hfirst]; rfl
      | none => rw [Dict.get_set_self]; rfl
    · rw [if_neg hs]
      cases hfirst : first.get e.1 with
      | some f => rfl
      | none => rw [Dict.get_set_of_ne _ _ hs]

variable {boundary after : Timestamp} {missing : List String}

theorem first_deliver (symbol : String) :
    (σ.deliver config boundary missing after).firstDelivered.get symbol =
      (σ.firstDelivered.get symbol).or
        (((Batch.of config σ.feed).frames.get symbol).map Bar.timestamp) :=
  get_firstOf _ (Batch.of config σ.feed).frames.nodup_keys _ _

theorem extends_deliver : Extends σ (σ.deliver config boundary missing after) := by
  refine ⟨rfl, ?_, ?_⟩
  · intro symbol f hf
    rw [first_deliver, hf]
    rfl
  · intro r hr
    exact List.mem_append_left _ (List.mem_append_left _ hr)

theorem due_deliver {d : BookDriver} {symbol : String} {c : Timestamp}
    (h : (σ.deliver config boundary missing after).Due d symbol c) :
    σ.Due d symbol c ∨ ∃ newest ∈ σ.feed.heldNewest symbol, newest < c := by
  have hreported : ¬ σ.Reported symbol c := fun hr => h.2.2 (extends_deliver.reported hr)
  obtain ⟨f, hf, hlt⟩ := h.1
  rw [first_deliver] at hf
  cases hold : σ.firstDelivered.get symbol with
  | some f' =>
    rw [hold] at hf
    obtain rfl : f' = f := Option.some.inj hf
    exact .inl ⟨⟨f', hold, hlt⟩, h.2.1, hreported⟩
  | none =>
    rw [hold] at hf
    obtain ⟨bar, hbar, hts⟩ := Option.map_eq_some_iff.1 hf
    rcases Batch.of_spec config σ.feed symbol with ⟨-, hnone⟩ | ⟨n, hn, -, -, hbars⟩
    · rw [hnone] at hbar
      cases hbar
    · refine .inr ⟨n, hn, ?_⟩
      rw [← hbars bar hbar, hts]
      exact hlt

theorem delivered_deliver (config : PollingFeedConfig) {symbol : String} {last : Timestamp}
    (h : last ∈ σ.feed.delivered.get symbol) :
    ∃ last' ∈ (Batch.of config σ.feed).delivered.get symbol, last ≤ last' := by
  rcases Batch.of_spec config σ.feed symbol with ⟨hsame, -⟩ | ⟨n, -, hmark, hlt, -⟩
  · exact ⟨last, by rw [hsame]; exact h, le_rfl⟩
  · exact ⟨n, hmark, (hlt last h).le⟩

theorem framesInv_deliver (h : σ.Inv config) :
    (σ.deliver config boundary missing after).FramesInv (Batch.of config σ.feed).frames := by
  have hspec : ∀ symbol, ∀ bar ∈ (Batch.of config σ.feed).frames.get symbol,
      σ.feed.heldNewest symbol = some bar.timestamp ∧
        (Batch.of config σ.feed).delivered.get symbol = some bar.timestamp ∧
        ∀ last ∈ σ.feed.delivered.get symbol, last < bar.timestamp := by
    intro symbol bar hbar
    rcases Batch.of_spec config σ.feed symbol with ⟨-, hnone⟩ | ⟨n, hn, hmark, hlt, hbars⟩
    · rw [hnone] at hbar
      cases hbar
    · rw [hbars bar hbar]
      exact ⟨hn, hmark, hlt⟩
  refine ⟨?_, ?_, ?_, ?_, ?_⟩
  · intro symbol bar hbar
    exact (hspec symbol bar hbar).1
  · intro symbol bar hbar
    exact (hspec symbol bar hbar).2.1
  · intro symbol bar hbar
    rw [first_deliver, hbar]
    cases σ.firstDelivered.get symbol with
    | some f => exact ⟨f, rfl⟩
    | none => exact ⟨_, rfl⟩
  · rintro symbol bar hbar ⟨b, hb, hle⟩
    obtain ⟨last, hlast, hbl⟩ := h.book.seen_delivered symbol b hb
    exact absurd (hle.trans hbl) (not_le.2 ((hspec symbol bar hbar).2.2 last hlast))
  · intro symbol bar hbar e he hs
    obtain ⟨last, hlast, hle⟩ := h.offers.delivered e he
    rw [hs] at hlast
    exact hle.trans_lt ((hspec symbol bar hbar).2.2 last hlast)

theorem Inv.deliver (h : σ.Inv config) : (σ.deliver config boundary missing after).Inv config := by
  refine ⟨?_, ?_, ?_, ?_, framesInv_deliver h⟩
  · exact (h.book.extends extends_deliver).redelivered fun symbol last hlast =>
      delivered_deliver config hlast
  · intro symbol
    refine ⟨(h.feed symbol).held_venue, (h.feed symbol).seen_held, ?_, ?_⟩
    · intro newest hnewest c hc hd hle
      rcases due_deliver hd with hd | ⟨newest', hnewest', hlt⟩
      · exact (h.feed symbol).covered newest hnewest c hc hd hle
      · have heq := Option.some.inj (hnewest.symm.trans hnewest')
        rw [heq] at hle
        exact absurd hle (not_le.2 hlt)
    · intro hnone floor hfloor c hc hd
      rcases due_deliver hd with hd | ⟨newest, hnewest, -⟩
      · exact (h.feed symbol).floored hnone floor hfloor c hc hd
      · have hheld : σ.feed.heldNewest symbol = none := hnone
        rw [hheld] at hnewest
        cases hnewest
  · refine ⟨h.offers.once, ?_⟩
    intro e he
    obtain ⟨last, hlast, hle⟩ := h.offers.delivered e he
    obtain ⟨last', hlast', hle'⟩ := delivered_deliver config hlast
    exact ⟨last', hlast', hle.trans hle'⟩
  · intro snapshot hs
    exact ⟨(h.snapshot snapshot hs).1.extends extends_deliver, (h.snapshot snapshot hs).2⟩

end Deliver

variable {frames : Dict String Bar}

theorem extends_reportShortfall : Extends σ (σ.reportShortfall config frames) :=
  ⟨rfl, fun _ _ hf => hf, fun _ hr => List.mem_append_left _ hr⟩

theorem reported_reportShortfall (h : ShortfallCovers config σ.feed symbol c) :
    (σ.reportShortfall config frames).Reported symbol c := by
  obtain ⟨halerts, short, hshort, hle, hlt⟩ := h
  refine ⟨.windowShortfall symbol short.1 short.2, ?_, ?_⟩
  · unfold reportShortfall
    dsimp only
    rw [if_pos halerts]
    exact List.mem_append_right _ (List.mem_map.2 ⟨(symbol, short), Dict.mem_entries.2 hshort, rfl⟩)
  · simp [Report.covers, hle, hlt]

theorem Inv.reportShortfall (h : σ.Inv config)
    (hφ : σ.phase = .delivered frames) : (σ.reportShortfall config frames).Inv config := by
  have hframes := h.phase
  rw [hφ] at hframes
  refine ⟨{ h.book.extends extends_reportShortfall with }, ?_, { h.offers with }, ?_,
    { hframes with }, rfl⟩
  · intro symbol
    refine ⟨(h.feed symbol).held_venue, (h.feed symbol).seen_held, ?_, ?_⟩
    · intro newest hnewest c hc hd hle
      rcases (h.feed symbol).covered newest hnewest c hc
        (extends_reportShortfall.due rfl hd) hle with
        hheld | hshort
      · exact .inl hheld
      · exact absurd (reported_reportShortfall hshort) hd.2.2
    · intro hnone floor hfloor c hc hd
      exact (h.feed symbol).floored hnone floor hfloor c hc (extends_reportShortfall.due rfl hd)
  · intro snapshot hs
    exact ⟨(h.snapshot snapshot hs).1.extends extends_reportShortfall, (h.snapshot snapshot hs).2⟩

end ForwardState

end Fiboki.Forward
