import Fiboki.Forward.Cycle
import Fiboki.Forward.Held

/-!
The steps that a cycle plans: which bars of an instrument they hold, in which order, and which
of its candles are said not to be modelled instead.
-/

namespace Fiboki.Forward

variable (entries : List (String × Bar))

theorem get_lastBars_rollBars (hnodup : (entries.map Prod.fst).Nodup) (d : BookDriver)
    (symbol : String) :
    (entries.foldl BookDriver.rollBar d).lastBars.get symbol =
      (Dict.lookup symbol entries).or (d.lastBars.get symbol) := by
  induction entries generalizing d with
  | nil => rfl
  | cons e rest ih =>
    rw [List.map_cons, List.nodup_cons] at hnodup
    rw [List.foldl_cons, ih hnodup.2]
    unfold BookDriver.rollBar
    dsimp only
    rw [Dict.get_set, Dict.lookup]
    by_cases h : e.1 = symbol
    · rw [if_pos h, if_pos h]
      have hnone : Dict.lookup symbol rest = none := by
        cases hlook : Dict.lookup symbol rest with
        | none => rfl
        | some bar =>
          have hmem := List.mem_map_of_mem (f := Prod.fst) (Dict.mem_of_lookup hlook)
          exact absurd (h ▸ hmem) hnodup.1
      rw [hnone]
      rfl
    · rw [if_neg h, if_neg h]

theorem rollBars_now (d : BookDriver) : (entries.foldl BookDriver.rollBar d).now = d.now ∧
      (entries.foldl BookDriver.rollBar d).barIndex = d.barIndex := by
  induction entries generalizing d with
  | nil => exact ⟨rfl, rfl⟩
  | cons e rest ih => exact ih (d.rollBar e)

variable {d : BookDriver} {index : ℤ}

theorem lastSeen_rolled (h : d.barIndex < index)
    (bars : Dict String Bar) (at_ : Timestamp) (symbol : String) :
    lastSeen (rolled d (barMap bars) index at_) symbol =
      ((bars.get symbol).map Bar.timestamp).or (lastSeen d symbol) := by
  unfold lastSeen rolled
  rw [if_neg (not_le.2 h), BookDriver.roll]
  rw [get_lastBars_rollBars (barMap bars).entries bars.nodup_keys]
  have hget : Dict.lookup symbol (barMap bars).entries = bars.get symbol := rfl
  rw [hget]
  cases bars.get symbol <;> rfl

theorem rolled_now (h : d.barIndex < index) (bars : BarMap)
    (at_ : Timestamp) :
    (rolled d bars index at_).now = some at_ ∧ (rolled d bars index at_).barIndex = index := by
  unfold rolled
  rw [if_neg (not_le.2 h)]
  exact rollBars_now _ _

section Missed

variable {feed : BarFeed} {d : BookDriver} {frames : Dict String Bar} {symbol : String}
  {bar : Bar} {t now : Timestamp}

def Unseen (feed : BarFeed) (d : BookDriver) (frames : Dict String Bar) (now : Timestamp)
    (symbol : String) (t : Timestamp) : Prop :=
  ∃ newest, frames.get symbol = some newest ∧ (lastSeen d symbol).getD now < t ∧
    t < newest.timestamp ∧ ∃ held, feed.history.get symbol = some held ∧ t ∈ held.keys

theorem mem_barsBetween {after before : Timestamp} {row : Row} :
    (t, row) ∈ (feed.barsBetween symbol after before).entries ↔
      ∃ held, feed.history.get symbol = some held ∧ (t, row) ∈ held.entries ∧
        after < t ∧ t < before := by
  unfold BarFeed.barsBetween
  cases feed.history.get symbol with
  | none =>
    constructor
    · intro h
      cases h
    · rintro ⟨held, h, -⟩
      cases h
  | some held =>
    have hfilter : (t, row) ∈ (held.select fun t => after < t && t < before).entries ↔
        (t, row) ∈ held.entries ∧ after < t ∧ t < before := by
      unfold Dict.select
      rw [List.mem_filter, Bool.and_eq_true, decide_eq_true_eq, decide_eq_true_eq]
    dsimp only
    rw [hfilter]
    constructor
    · intro h
      exact ⟨held, rfl, h⟩
    · rintro ⟨held', hheld, h⟩
      rwa [Option.some.inj hheld]

theorem missedRow_symbol (symbol : String) (now : Timestamp) (e : Timestamp × Row) :
    (missedRow symbol now e = .notModelled symbol e.1) ∨
      ∃ bar, missedRow symbol now e = .apply symbol bar ∧ bar.timestamp = e.1 ∧ now < e.1 := by
  unfold missedRow
  cases hbar : e.2.bar e.1 with
  | none => exact .inl rfl
  | some bar =>
    dsimp only
    split_ifs with hnow
    · exact .inl rfl
    · exact .inr ⟨bar, rfl, Row.bar_timestamp hbar, not_le.1 hnow⟩

theorem missed_of_unseen (hnow : d.now = some now) (h : Unseen feed d frames now symbol t) :
    Missed.notModelled symbol t ∈ missed feed d frames ∨
      ∃ bar, .apply symbol bar ∈ missed feed d frames ∧ bar.timestamp = t := by
  obtain ⟨newest, hframe, hafter, hbefore, held, hheld, hkey⟩ := h
  obtain ⟨row, hrow⟩ := Dict.mem_keys.1 hkey
  have hbetween := mem_barsBetween.2 ⟨held, hheld, Dict.mem_entries.2 hrow, hafter, hbefore⟩
  have hmem : missedRow symbol now (t, row) ∈ missed feed d frames := by
    unfold missed
    rw [hnow]
    exact List.mem_flatMap.2 ⟨(symbol, newest), Dict.mem_entries.2 hframe,
      List.mem_map_of_mem hbetween⟩
  rcases missedRow_symbol symbol now (t, row) with h | ⟨bar, h, ht, -⟩
  · rw [h] at hmem
    exact .inl hmem
  · rw [h] at hmem
    exact .inr ⟨bar, hmem, ht⟩

theorem unseen_of_apply (h : .apply symbol bar ∈ missed feed d frames) :
    ∃ now, d.now = some now ∧ now < bar.timestamp ∧
      Unseen feed d frames now symbol bar.timestamp := by
  unfold missed at h
  cases hnow : d.now with
  | none =>
    rw [hnow] at h
    cases h
  | some now =>
    rw [hnow] at h
    obtain ⟨⟨s, newest⟩, hframe, hmem⟩ := List.mem_flatMap.1 h
    obtain ⟨⟨t, row⟩, hbetween, hrow⟩ := List.mem_map.1 hmem
    obtain ⟨held, hheld, hkey, hafter, hbefore⟩ := mem_barsBetween.1 hbetween
    rcases missedRow_symbol s now (t, row) with h | ⟨b, h, ht, hlate⟩
    · rw [h] at hrow
      cases hrow
    · rw [h] at hrow
      injection hrow with hs hb
      subst hs hb
      dsimp only at ht hlate
      rw [ht]
      exact ⟨now, rfl, hlate, newest, Dict.mem_entries.1 hframe, hafter, hbefore, held, hheld,
        List.mem_map_of_mem hkey⟩

end Missed

section Collect

def barAt (steps : Dict Timestamp (Dict String Bar)) (t : Timestamp) (symbol : String) :
    Option Bar :=
  (steps.get t).bind fun bars => bars.get symbol

theorem barAt_collect (steps : Dict Timestamp (Dict String Bar)) (s : String) (bar : Bar)
    (t : Timestamp) (symbol : String) :
    barAt (Missed.collect steps (.apply s bar)) t symbol =
      if bar.timestamp = t ∧ s = symbol then some bar else barAt steps t symbol := by
  unfold barAt Missed.collect
  dsimp only
  rw [Dict.get_set]
  by_cases ht : bar.timestamp = t
  · rw [if_pos ht, Option.bind_some, Dict.get_set]
    by_cases hs : s = symbol
    · rw [if_pos hs, if_pos ⟨ht, hs⟩]
    · rw [if_neg hs, if_neg fun h => hs h.2, ht]
      cases steps.get t <;> rfl
  · rw [if_neg ht, if_neg fun h => ht h.1]

theorem barAt_collected (rows : List Missed) (steps : Dict Timestamp (Dict String Bar))
    (symbol : String) (t : Timestamp) :
    (∀ bar, barAt (rows.foldl Missed.collect steps) t symbol = some bar →
      barAt steps t symbol = some bar ∨ .apply symbol bar ∈ rows ∧ bar.timestamp = t) ∧
    ((barAt steps t symbol).isSome ∨ (∃ bar, .apply symbol bar ∈ rows ∧ bar.timestamp = t) →
      (barAt (rows.foldl Missed.collect steps) t symbol).isSome) := by
  induction rows generalizing steps with
  | nil =>
    refine ⟨fun bar h => .inl h, ?_⟩
    rintro (h | ⟨bar, h, -⟩)
    · exact h
    · cases h
  | cons row rest ih =>
    obtain ⟨hfrom, hto⟩ := ih (row.collect steps)
    cases row with
    | notModelled s start =>
      constructor
      · intro bar hbar
        rcases hfrom bar hbar with h | ⟨h, ht⟩
        · exact .inl h
        · exact .inr ⟨List.mem_cons_of_mem _ h, ht⟩
      · rintro (h | ⟨bar, h, ht⟩)
        · exact hto (.inl h)
        · rcases List.mem_cons.1 h with h | h
          · cases h
          · exact hto (.inr ⟨bar, h, ht⟩)
    | apply s made =>
      have hone := barAt_collect steps s made t symbol
      constructor
      · intro bar hbar
        rcases hfrom bar hbar with h | ⟨h, ht⟩
        · rw [hone] at h
          split_ifs at h with hsame
          · obtain ⟨ht, rfl⟩ := hsame
            obtain rfl := Option.some.inj h
            exact .inr ⟨List.mem_cons_self, ht⟩
          · exact .inl h
        · exact .inr ⟨List.mem_cons_of_mem _ h, ht⟩
      · intro h
        apply hto
        by_cases hsame : made.timestamp = t ∧ s = symbol
        · left
          rw [hone, if_pos hsame]
          rfl
        · rcases h with h | ⟨bar, h, ht⟩
          · left
            rw [hone, if_neg hsame]
            exact h
          · rcases List.mem_cons.1 h with h | h
            · injection h with hs hb
              subst hs hb
              exact absurd ⟨ht, rfl⟩ hsame
            · exact .inr ⟨bar, h, ht⟩

end Collect

def planned (symbol : String) (steps : List (Timestamp × Dict String Bar)) : List Timestamp :=
  steps.filterMap fun step => (step.2.get symbol).map Bar.timestamp

def caughtUp (feed : BarFeed) (d : BookDriver) (frames : Dict String Bar) :
    Dict Timestamp (Dict String Bar) :=
  (missed feed d frames).foldl Missed.collect .empty

section Plan

variable {feed : BarFeed} {d : BookDriver} {frames : Dict String Bar} {symbol : String}
  {t now : Timestamp}

variable {bar : Bar}

theorem caughtUp_bar (h : barAt (caughtUp feed d frames) t symbol = some bar) :
    .apply symbol bar ∈ missed feed d frames ∧ bar.timestamp = t := by
  rcases (barAt_collected (missed feed d frames) .empty symbol t).1 bar h with h | h
  · cases h
  · exact h

theorem caughtUp_of_apply (h : .apply symbol bar ∈ missed feed d frames) :
    ∃ made, barAt (caughtUp feed d frames) bar.timestamp symbol = some made := by
  have hto := (barAt_collected (missed feed d frames) .empty symbol bar.timestamp).2
  exact Option.isSome_iff_exists.1 (hto (.inr ⟨bar, h, rfl⟩))

theorem mem_planned_caughtUp : t ∈ planned symbol (caughtUp feed d frames).entries ↔
      ∃ bar, .apply symbol bar ∈ missed feed d frames ∧ bar.timestamp = t := by
  unfold planned
  rw [List.mem_filterMap]
  constructor
  · rintro ⟨⟨at_, bars⟩, hmem, hbar⟩
    obtain ⟨bar, hget, ht⟩ := Option.map_eq_some_iff.1 hbar
    have hat : barAt (caughtUp feed d frames) at_ symbol = some bar := by
      unfold barAt
      rw [Dict.mem_entries.1 hmem]
      exact hget
    exact ⟨bar, (caughtUp_bar hat).1, ht⟩
  · rintro ⟨bar, hmem, ht⟩
    obtain ⟨made, hmade⟩ := caughtUp_of_apply hmem
    obtain ⟨bars, hbars, hget⟩ := Option.bind_eq_some_iff.1 hmade
    refine ⟨(bar.timestamp, bars), Dict.mem_entries.2 hbars, ?_⟩
    rw [hget, Option.map_some, (caughtUp_bar hmade).2, ht]

theorem pairwise_planned_caughtUp :
    (planned symbol (caughtUp feed d frames).entries).Pairwise (· < ·) := by
  apply List.Pairwise.filterMap (R := fun (a b : Timestamp × Dict String Bar) =>
    a ∈ (caughtUp feed d frames).entries ∧ b ∈ (caughtUp feed d frames).entries ∧ a.1 < b.1)
  · intro a b ⟨ha, hb, hlt⟩ x hx y hy
    have hbar : ∀ e ∈ (caughtUp feed d frames).entries, ∀ x,
        (e.2.get symbol).map Bar.timestamp = some x → e.1 = x := by
      intro e he x hx
      obtain ⟨bar, hget, ht⟩ := Option.map_eq_some_iff.1 hx
      have hat : barAt (caughtUp feed d frames) e.1 symbol = some bar := by
        unfold barAt
        rw [Dict.mem_entries.1 he]
        exact hget
      exact (caughtUp_bar hat).2.symm.trans ht
    rw [← hbar a ha x hx, ← hbar b hb y hy]
    exact hlt
  · exact (caughtUp feed d frames).sorted.imp_of_mem fun ha hb hlt => ⟨ha, hb, hlt⟩

theorem planned_append (xs ys : List (Timestamp × Dict String Bar)) :
    planned symbol (xs ++ ys) = planned symbol xs ++ planned symbol ys :=
  List.filterMap_append

theorem plan_of_ne (h : frames.entries ≠ []) :
    plan feed d frames = (caughtUp feed d frames).entries ++ [(stampOf frames, frames)] := by
  unfold plan
  rw [if_neg]
  · rfl
  · rw [List.isEmpty_iff]
    exact h

theorem frames_ne {newest : Bar} (h : frames.get symbol = some newest) : frames.entries ≠ [] :=
  List.ne_nil_of_mem (Dict.mem_entries.2 h)

theorem mem_planned_plan : t ∈ planned symbol (plan feed d frames) ↔
      (∃ bar, .apply symbol bar ∈ missed feed d frames ∧ bar.timestamp = t) ∨
        ∃ newest, frames.get symbol = some newest ∧ newest.timestamp = t := by
  by_cases hne : frames.entries = []
  · have hempty : plan feed d frames = [] := by
      unfold plan
      rw [if_pos (by rw [hne]; rfl)]
    rw [hempty]
    constructor
    · intro h
      cases h
    · rintro (⟨bar, hmem, -⟩ | ⟨newest, hget, -⟩)
      · obtain ⟨now, -, -, newest, hget, -⟩ := unseen_of_apply hmem
        exact absurd hne (frames_ne hget)
      · exact absurd hne (frames_ne hget)
  · rw [plan_of_ne hne, planned_append, List.mem_append, mem_planned_caughtUp]
    apply or_congr_right
    unfold planned
    rw [List.mem_filterMap]
    constructor
    · rintro ⟨step, hstep, hbar⟩
      rw [List.mem_singleton.1 hstep] at hbar
      exact Option.map_eq_some_iff.1 hbar
    · rintro ⟨newest, hget, ht⟩
      exact ⟨_, List.mem_singleton_self _, by rw [hget, Option.map_some, ht]⟩

theorem pairwise_planned_plan : (planned symbol (plan feed d frames)).Pairwise (· < ·) := by
  by_cases hne : frames.entries = []
  · unfold plan
    rw [if_pos (by rw [hne]; rfl)]
    exact List.Pairwise.nil
  · rw [plan_of_ne hne, planned_append]
    apply List.pairwise_append.2
    refine ⟨pairwise_planned_caughtUp, ?_, ?_⟩
    · unfold planned
      rw [List.filterMap_cons]
      cases (frames.get symbol).map Bar.timestamp <;> simp
    · intro t ht t' ht'
      obtain ⟨bar, hmem, rfl⟩ := mem_planned_caughtUp.1 ht
      obtain ⟨now, -, -, newest, hget, -, hbefore, -⟩ := unseen_of_apply hmem
      obtain ⟨step, hstep, hbar⟩ := List.mem_filterMap.1 ht'
      rw [List.mem_singleton.1 hstep, hget] at hbar
      rw [← Option.some.inj hbar]
      exact hbefore

theorem mem_keys_collected (rows : List Missed) (steps : Dict Timestamp (Dict String Bar))
    {at_ : Timestamp}
    (h : at_ ∈ (rows.foldl Missed.collect steps).keys) :
    at_ ∈ steps.keys ∨ ∃ s bar, .apply s bar ∈ rows ∧ bar.timestamp = at_ := by
  induction rows generalizing steps with
  | nil => exact .inl h
  | cons row rest ih =>
    rcases ih (row.collect steps) h with h | ⟨s, bar, hmem, ht⟩
    · cases row with
      | notModelled s start => exact .inl h
      | apply s bar =>
        rcases (Dict.keys_set _ _ _ _).1 h with rfl | h
        · exact .inr ⟨s, bar, List.mem_cons_self, rfl⟩
        · exact .inl h
    · exact .inr ⟨s, bar, List.mem_cons_of_mem _ hmem, ht⟩

/-- All steps but the last are later than the book's, and in order. -/
structure CatchUpOrder (d : BookDriver) (steps : List (Timestamp × Dict String Bar)) : Prop where
  later : ∀ now, d.now = some now → ∀ step ∈ steps.dropLast, now < step.1
  sorted : steps.dropLast.Pairwise fun a b => a.1 < b.1

theorem catchUpOrder_plan : CatchUpOrder d (plan feed d frames) := by
  by_cases hne : frames.entries = []
  · have hempty : plan feed d frames = [] := by
      unfold plan
      rw [if_pos (by rw [hne]; rfl)]
    rw [hempty]
    exact ⟨fun _ _ _ h => (List.not_mem_nil h).elim, List.Pairwise.nil⟩
  · rw [plan_of_ne hne]
    constructor
    · intro now hnow step hstep
      rw [List.dropLast_concat] at hstep
      have hkey : step.1 ∈ (caughtUp feed d frames).keys := List.mem_map_of_mem hstep
      rcases mem_keys_collected _ _ hkey with h | ⟨s, bar, hmem, ht⟩
      · cases h
      · obtain ⟨now', hnow', hlater, -⟩ := unseen_of_apply hmem
        rw [← ht, Option.some.inj (hnow.symm.trans hnow')]
        exact hlater
    · rw [List.dropLast_concat]
      exact (caughtUp feed d frames).sorted

theorem CatchUpOrder.tail {step : Timestamp × Dict String Bar}
    {rest : List (Timestamp × Dict String Bar)} (h : CatchUpOrder d (step :: rest))
    {d' : BookDriver} (hnow : d'.now = some step.1) : CatchUpOrder d' rest := by
  cases rest with
  | nil => exact ⟨fun _ _ _ h => (List.not_mem_nil h).elim, List.Pairwise.nil⟩
  | cons step' rest =>
    have hsorted := h.sorted
    rw [List.dropLast_cons_of_ne_nil (List.cons_ne_nil _ _), List.pairwise_cons] at hsorted
    refine ⟨?_, hsorted.2⟩
    intro now hnow' other hother
    rw [← Option.some.inj (hnow.symm.trans hnow')]
    exact hsorted.1 other hother

end Plan

end Fiboki.Forward
