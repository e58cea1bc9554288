import Fiboki.Forward.Feeds

/-!
What a fetch keeps and what a batch delivers: one lemma for each of the feed's operations.
-/

namespace Fiboki.Forward

section Answer

variable {complete : Frame} {incomplete : List Timestamp} {count : ℕ}

theorem mem_answer {c : Timestamp} : c ∈ (answer complete incomplete count).map Prod.fst ↔
      c ∈ complete.keys ∧ later complete incomplete c < count := by
  unfold answer Dict.keys
  simp only [List.mem_map, List.mem_filter, decide_eq_true_eq]
  constructor
  · rintro ⟨e, ⟨he, hlater⟩, rfl⟩
    exact ⟨⟨e, he, rfl⟩, hlater⟩
  · rintro ⟨⟨e, he, rfl⟩, hlater⟩
    exact ⟨e, ⟨he, hlater⟩, rfl⟩

theorem later_anti {c c' : Timestamp} (h : c ≤ c') :
    later complete incomplete c' ≤ later complete incomplete c := by
  unfold later
  apply Nat.add_le_add
  · apply List.countP_mono_left
    intro k _ hk
    rw [decide_eq_true_eq] at hk ⊢
    exact lt_of_le_of_lt h hk
  · apply List.countP_mono_left
    intro k _ hk
    rw [decide_eq_true_eq] at hk ⊢
    exact lt_of_le_of_lt h hk

theorem newest_mem_answer (hne : (answer complete incomplete count).isEmpty = false) {n : Timestamp}
    (hn : complete.newest = some n) : n ∈ (answer complete incomplete count).map Prod.fst := by
  obtain ⟨hmem, hmax⟩ := Dict.newest_eq_some.1 hn
  cases hlist : answer complete incomplete count with
  | nil =>
    rw [hlist] at hne
    cases hne
  | cons e rest =>
    have he : e.1 ∈ (answer complete incomplete count).map Prod.fst := by
      rw [hlist]
      exact List.mem_cons_self
    obtain ⟨hkey, hlater⟩ := mem_answer.1 he
    rw [← hlist]
    exact mem_answer.2 ⟨hmem, (later_anti (hmax e.1 hkey)).trans_lt hlater⟩

end Answer

namespace BarFeed

variable (config : PollingFeedConfig)

variable {symbol : String} {feed : BarFeed}

variable {h : Timestamp}

theorem heldNewest_eq_some : feed.heldNewest symbol = some h ↔
      ∃ frame, feed.history.get symbol = some frame ∧ frame.newest = some h :=
  Option.bind_eq_some_iff

theorem pendingFloor_of_held
    (hh : feed.heldNewest symbol = some h) : feed.pendingFloor symbol = none := by
  unfold pendingFloor
  rw [hh]

theorem pendingFloor_of_not_held (hh : feed.heldNewest symbol = none) :
    feed.pendingFloor symbol = feed.floor.get symbol := by
  unfold pendingFloor
  rw [hh]

variable {c : Timestamp}

theorem mem_merged {fetched : List (Timestamp × Row)} :
    c ∈ (feed.merged symbol fetched).keys ↔
      (∃ frame, feed.history.get symbol = some frame ∧ c ∈ frame.keys) ∨
        c ∈ fetched.map Prod.fst := by
  unfold merged
  rw [Dict.mem_keys_addRows]
  cases feed.history.get symbol with
  | none => simp [Dict.empty, Dict.keys]
  | some frame => simp

variable {frame : Frame}

theorem mem_of_cutAtFloor (h : c ∈ (feed.cutAtFloor symbol frame).keys) : c ∈ frame.keys := by
  unfold cutAtFloor at h
  split at h
  · exact h
  · dsimp only at h
    split_ifs at h
    · exact h
    · exact (Dict.mem_keys_select.1 h).1

theorem mem_cutAtFloor (h : c ∈ frame.keys)
    (hfloor : ∀ floor, feed.pendingFloor symbol = some floor → floor ≤ c) :
    c ∈ (feed.cutAtFloor symbol frame).keys := by
  unfold cutAtFloor
  split
  · exact h
  · rename_i floor hpending
    dsimp only
    split_ifs
    · exact h
    · exact Dict.mem_keys_select.2 ⟨h, decide_eq_true (hfloor floor hpending)⟩

variable {n : Timestamp}

theorem newest_cutAtFloor
    (h : frame.newest = some n) : (feed.cutAtFloor symbol frame).newest = some n := by
  obtain ⟨hmem, hmax⟩ := Dict.newest_eq_some.1 h
  rw [Dict.newest_eq_some]
  refine ⟨?_, fun k hk => hmax k (mem_of_cutAtFloor hk)⟩
  unfold cutAtFloor
  split
  · exact hmem
  · rename_i floor hpending
    dsimp only
    split_ifs with hempty
    · exact hmem
    · refine Dict.mem_keys_select.2 ⟨hmem, decide_eq_true ?_⟩
      obtain ⟨k, hk⟩ : ∃ k, k ∈ (frame.select (floor ≤ ·)).keys := by
        cases hentries : (frame.select (floor ≤ ·)).entries with
        | nil =>
          rw [hentries] at hempty
          exact absurd rfl hempty
        | cons e rest =>
          exact ⟨e.1, by rw [Dict.keys, hentries]; exact List.mem_cons_self⟩
      obtain ⟨hkey, hle⟩ := Dict.mem_keys_select.1 hk
      exact (of_decide_eq_true hle).trans (hmax k hkey)

theorem trimStart_lt (feed : BarFeed) (symbol : String) (frame : Frame)
    (hne : frame.keys ≠ []) : feed.trimStart config symbol frame < frame.keys.length := by
  have hpos : 0 < frame.keys.length := List.length_pos_iff.2 hne
  have hhb : 0 < config.historyBars := by
    have h := config.warmup_ok.1
    have h' := config.history_ok
    omega
  rw [Dict.length_keys] at hpos ⊢
  unfold trimStart
  dsimp only
  split_ifs with hle
  · exact hpos
  · split
    · omega
    · exact lt_of_le_of_lt (min_le_left _ _) (by omega)

theorem newest_trim (feed : BarFeed) (symbol : String) (h : frame.newest = some n) :
    (frame.dropOldest (feed.trimStart config symbol frame)).newest = some n := by
  obtain ⟨hmem, hmax⟩ := Dict.newest_eq_some.1 h
  rw [Dict.newest_eq_some]
  refine ⟨?_, fun k hk => hmax k (Dict.mem_keys_of_dropOldest hk)⟩
  apply Dict.mem_keys_dropOldest hmem
  have hlt := feed.trimStart_lt config symbol frame (List.ne_nil_of_mem hmem)
  have hrank := Dict.rank_newest h
  omega

section Keep

variable {config} {feed : BarFeed} {symbol : String} {fetched : List (Timestamp × Row)}

def keptFrame (config : PollingFeedConfig) (feed : BarFeed) (symbol : String)
    (fetched : List (Timestamp × Row)) : Frame :=
  let cut := feed.cutAtFloor symbol (feed.merged symbol fetched)
  cut.dropOldest (feed.trimStart config symbol cut)

theorem keep_history : (feed.keep config symbol fetched).history =
    feed.history.set symbol (feed.keptFrame config symbol fetched) := by
  unfold keep
  dsimp only
  split <;> rfl

theorem keep_delivered : (feed.keep config symbol fetched).delivered = feed.delivered := by
  unfold keep
  dsimp only
  split <;> rfl

variable {other : String}

theorem keep_floor (h : other ≠ symbol) :
    (feed.keep config symbol fetched).floor.get other = feed.floor.get other := by
  unfold keep
  dsimp only
  split
  · rfl
  · exact Dict.get_erase_of_ne _ h

theorem keep_shortfall (h : other ≠ symbol) :
    (feed.keep config symbol fetched).floorShortfall.get other = feed.floorShortfall.get other := by
  unfold keep
  dsimp only
  split
  · rfl
  · dsimp only
    split
    · rfl
    · exact Dict.get_set_of_ne _ _ fun heq => h heq.symm

theorem keep_shortfall_of_held (h : feed.pendingFloor symbol = none) :
    (feed.keep config symbol fetched).floorShortfall = feed.floorShortfall := by
  unfold keep
  dsimp only
  rw [h]

theorem keep_shortfall_covers {floor c : Timestamp} (hfloor : feed.pendingFloor symbol = some floor)
    (hc : floor ≤ c) (hne : (feed.merged symbol fetched).keys ≠ [])
    (hall : ∀ k ∈ (feed.merged symbol fetched).keys, c < k) :
    ∃ first, (feed.keep config symbol fetched).floorShortfall.get symbol = some (floor, first) ∧
      c < first := by
  obtain ⟨first, hfirst⟩ : ∃ first, (feed.merged symbol fetched).oldest = some first := by
    unfold Dict.oldest
    cases hkeys : (feed.merged symbol fetched).keys with
    | nil => exact absurd hkeys hne
    | cons a rest => exact ⟨a, rfl⟩
  have hlt : c < first := hall first (Dict.oldest_mem hfirst)
  refine ⟨first, ?_, hlt⟩
  unfold keep
  dsimp only
  rw [hfloor]
  dsimp only
  rw [shortOf, hfirst]
  dsimp only
  rw [if_pos (hc.trans_lt hlt)]
  exact Dict.get_set_self _ _ _

theorem keptFrame_subset {c : Timestamp} (h : c ∈ (feed.keptFrame config symbol fetched).keys) :
    c ∈ (feed.merged symbol fetched).keys :=
  mem_of_cutAtFloor (Dict.mem_keys_of_dropOldest h)

theorem mem_keptFrame {c : Timestamp} (h : c ∈ (feed.merged symbol fetched).keys)
    (hfloor : ∀ floor, feed.pendingFloor symbol = some floor → floor ≤ c)
    (htrim : feed.trimStart config symbol (feed.cutAtFloor symbol (feed.merged symbol fetched)) ≤
      (feed.cutAtFloor symbol (feed.merged symbol fetched)).rank c) :
    c ∈ (feed.keptFrame config symbol fetched).keys :=
  Dict.mem_keys_dropOldest (mem_cutAtFloor h hfloor) htrim

theorem newest_keptFrame {n : Timestamp} (h : (feed.merged symbol fetched).newest = some n) :
    (feed.keptFrame config symbol fetched).newest = some n :=
  feed.newest_trim config symbol (newest_cutAtFloor h)

end Keep

end BarFeed

def Batch.Spec (feed : BarFeed) (b : Batch) (symbol : String) : Prop :=
  b.delivered.get symbol = feed.delivered.get symbol ∧ b.frames.get symbol = none ∨
    ∃ h, feed.heldNewest symbol = some h ∧ b.delivered.get symbol = some h ∧
      (∀ d, feed.delivered.get symbol = some d → d < h) ∧
      ∀ bar, b.frames.get symbol = some bar → bar.timestamp = h

variable {t : Timestamp} {row : Row}

theorem Row.bar_timestamp {bar : Bar} (h : row.bar t = some bar) : bar.timestamp = t := by
  unfold Row.bar at h
  split_ifs at h
  rw [← Option.some.inj h]

theorem newest_of_getLast {frame : Frame}
    (h : frame.entries.getLast? = some (t, row)) : frame.newest = some t := by
  unfold Dict.newest Dict.keys
  rw [List.getLast?_map, h]
  rfl

theorem Batch.offer_spec {feed : BarFeed} {alerts : Bool} {b : Batch}
    (h : ∀ symbol, b.Spec feed symbol) (asked : String) :
    ∀ symbol, (b.offer alerts feed.history asked).Spec feed symbol := by
  intro symbol
  unfold Batch.offer
  split
  · exact h symbol
  · rename_i newest row hlast
    have hheld : feed.heldNewest asked = some newest := by
      obtain ⟨frame, hframe, hrow⟩ := Option.bind_eq_some_iff.1 hlast
      exact BarFeed.heldNewest_eq_some.2 ⟨frame, hframe, newest_of_getLast hrow⟩
    by_cases hold : (b.delivered.get asked).any (newest ≤ ·) = true
    · rw [if_pos hold]
      exact h symbol
    · rw [if_neg hold]
      have hnew : ∀ d, feed.delivered.get asked = some d → d < newest := by
        intro d hd
        rcases h asked with ⟨hsame, -⟩ | ⟨n, hn, hmark, -, -⟩
        · rw [hsame, hd] at hold
          simpa using hold
        · rw [hmark, Option.some.inj (hn.symm.trans hheld)] at hold
          simp at hold
      by_cases heq : asked = symbol
      · subst heq
        right
        refine ⟨newest, hheld, ?_, hnew, ?_⟩
        · split
          · exact Dict.get_set_self _ _ _
          · exact Dict.get_set_self _ _ _
        · intro bar hbar
          split at hbar
          · rcases h asked with ⟨-, hnone⟩ | ⟨n, hn, -, -, hbars⟩
            · rw [hnone] at hbar
              cases hbar
            · rw [hbars bar hbar]
              exact Option.some.inj (hn.symm.trans hheld)
          · rename_i made hmade
            rw [Dict.get_set_self] at hbar
            rw [← Option.some.inj hbar]
            exact Row.bar_timestamp hmade
      · have hother := h symbol
        unfold Batch.Spec at hother ⊢
        split
        · rw [Dict.get_set_of_ne _ _ heq]
          exact hother
        · rw [Dict.get_set_of_ne _ _ heq, Dict.get_set_of_ne _ _ heq]
          exact hother

theorem Batch.of_spec (config : PollingFeedConfig) (feed : BarFeed) (symbol : String) :
    (Batch.of config feed).Spec feed symbol := by
  have hfold : ∀ (asked : List String) (b : Batch), (∀ s, b.Spec feed s) →
      ∀ s, (asked.foldl (Batch.offer config.alerts feed.history) b).Spec feed s := by
    intro asked
    induction asked with
    | nil => exact fun b hb => hb
    | cons a rest ih => exact fun b hb => ih _ (Batch.offer_spec hb a)
  exact hfold config.instruments _ (fun s => .inl ⟨rfl, rfl⟩) symbol

end Fiboki.Forward
