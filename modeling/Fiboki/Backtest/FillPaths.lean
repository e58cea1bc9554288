import Fiboki.Lib.FirstPassage
import Fiboki.Broker.Driver
import Fiboki.Sim.FillRules

/-!
What one bar says of every way the price can have gone inside it: `resolve_exit` against the
continuous paths that start at the open and take the values from the low to the high.
-/

namespace Fiboki

open FirstPassage

/-- `resolve_exit` of a position whose stop may be absent as well. -/
def FillSimulator.resolveResting (sim : FillSimulator) (i : Instrument) (d : Direction) (size : ℚ)
    (bar : Bar) (barIndex : ℤ) (stop takeProfit : Option ℚ) (sequence : ℤ) (spacing : Spacing) :
    Option ExitFill :=
  match stop with
  | some stop => sim.resolveExit i d size bar barIndex stop takeProfit sequence spacing
  | none =>
    match takeProfit with
    | none => none
    | some target =>
      let exit := fun (mid : ℚ) (gapped : Bool) =>
        some (sim.priceExit i d size bar barIndex sequence mid .takeProfit gapped false false none
          (sim.isStale spacing bar.timestamp))
      if through d bar.open_ target false then exit (worseExit d target bar.open_) true
      else if touched d bar target false then exit target false
      else none

abbrev BarPath (bar : Bar) := Path (bar.open_ : ℝ) bar.low bar.high

def Triggers (d : Direction) (isStop : Bool) (level : ℚ) (price : ℝ) : Prop :=
  match d, isStop with
  | .long, true | .short, false => price ≤ level
  | .long, false | .short, true => (level : ℝ) ≤ price

def triggered (d : Direction) (stop takeProfit : Option ℚ) : Set ℝ :=
  {price | (∃ s ∈ stop, Triggers d true s price) ∨ ∃ g ∈ takeProfit, Triggers d false g price}

/-- What the orders fill at on a path: a stop that the open is through, at the open; any other
order at its level, when the path first comes to one. -/
inductive PathFill (d : Direction) (stop takeProfit : Option ℚ) (f : ℝ → ℝ) : ℝ → Prop where
  | gap {s : ℚ} (hs : s ∈ stop) (hit : Triggers d true s (f 0)) : PathFill d stop takeProfit f (f 0)
  | stop {s : ℚ} {t : ℝ} (hs : s ∈ stop) (h : FirstAt f (triggered d stop takeProfit) t)
      (ht : t ≠ 0) (hit : Triggers d true s (f t)) : PathFill d stop takeProfit f s
  | target {g : ℚ} {t : ℝ} (hg : g ∈ takeProfit) (h : FirstAt f (triggered d stop takeProfit) t)
      (hit : Triggers d false g (f t)) : PathFill d stop takeProfit f g

def LosingSide (d : Direction) (stop takeProfit : Option ℚ) : Prop :=
  ∀ s ∈ stop, ∀ g ∈ takeProfit, d.sign * s < d.sign * g

def facing (d : Direction) (x : ℝ) : ℝ :=
  match d with
  | .long => x
  | .short => -x

variable {d : Direction} {bar : Bar} {stop takeProfit : Option ℚ}

theorem facing_injective (d : Direction) : Function.Injective (facing d) := by
  cases d with
  | long => exact Function.injective_id
  | short => exact neg_injective

theorem facing_facing (d : Direction) (x : ℝ) : facing d (facing d x) = x := by
  cases d with
  | long => rfl
  | short => exact neg_neg x

theorem facing_eq (d : Direction) (x : ℝ) : facing d x = (d.sign : ℝ) * x := by
  cases d with
  | long | short => simp [facing, Direction.sign]

theorem continuous_facing (d : Direction) : Continuous (facing d) := by
  cases d with
  | long => exact continuous_id
  | short => exact continuous_neg

def worst (d : Direction) (bar : Bar) : ℝ :=
  match d with
  | .long => bar.low
  | .short => -bar.high

def best (d : Direction) (bar : Bar) : ℝ :=
  match d with
  | .long => bar.high
  | .short => -bar.low

def levels (d : Direction) (level : Option ℚ) : Option ℝ := level.map fun q => facing d q

theorem mem_levels {level : Option ℚ} {x : ℝ} :
    x ∈ levels d level ↔ ∃ q ∈ level, facing d q = x := by
  cases level with
  | none | some q => simp [levels]

variable {level : ℚ}

variable {price : ℝ}

theorem triggers_stop_iff : Triggers d true level price ↔ facing d price ≤ facing d level := by
  cases d with
  | long => exact Iff.rfl
  | short => exact neg_le_neg_iff.symm

theorem triggers_target_iff : Triggers d false level price ↔ facing d level ≤ facing d price := by
  cases d with
  | long => exact Iff.rfl
  | short => exact neg_le_neg_iff.symm

theorem mem_triggered {x : ℝ} : x ∈ triggered d stop takeProfit ↔
    facing d x ∈ beyond (levels d stop) (levels d takeProfit) := by
  constructor
  · rintro (⟨s, hs, hit⟩ | ⟨g, hg, hit⟩)
    · exact .inl ⟨_, mem_levels.2 ⟨s, hs, rfl⟩, triggers_stop_iff.1 hit⟩
    · exact .inr ⟨_, mem_levels.2 ⟨g, hg, rfl⟩, triggers_target_iff.1 hit⟩
  · rintro (⟨l, hl, hle⟩ | ⟨u, hu, hle⟩)
    · obtain ⟨s, hs, rfl⟩ := mem_levels.1 hl
      exact .inl ⟨s, hs, triggers_stop_iff.2 hle⟩
    · obtain ⟨g, hg, rfl⟩ := mem_levels.1 hu
      exact .inr ⟨g, hg, triggers_target_iff.2 hle⟩

variable {f : ℝ → ℝ}

theorem firstAt_facing {t : ℝ} : FirstAt f (triggered d stop takeProfit) t ↔
    FirstAt (fun u => facing d (f u)) (beyond (levels d stop) (levels d takeProfit)) t := by
  constructor
  · intro h
    exact ⟨h.time, mem_triggered.1 h.inside, fun s hs hlt hmem =>
      h.before s hs hlt (mem_triggered.2 hmem)⟩
  · intro h
    exact ⟨h.time, mem_triggered.2 h.inside, fun s hs hlt hmem =>
      h.before s hs hlt (mem_triggered.1 hmem)⟩

theorem pathFill_iff {p : ℝ} : PathFill d stop takeProfit f p ↔
    Meets (levels d stop) (levels d takeProfit) (fun u => facing d (f u)) (facing d p) := by
  constructor
  · intro h
    cases h with
    | gap hs hit => exact .start (mem_levels.2 ⟨_, hs, rfl⟩) (triggers_stop_iff.1 hit)
    | stop hs h ht hit =>
      exact .lower (mem_levels.2 ⟨_, hs, rfl⟩) (firstAt_facing.1 h) ht (triggers_stop_iff.1 hit)
    | target hg h hit =>
      exact .upper (mem_levels.2 ⟨_, hg, rfl⟩) (firstAt_facing.1 h) (triggers_target_iff.1 hit)
  · intro h
    generalize hx : facing d p = x at h
    cases h with
    | start hl hle =>
      obtain ⟨s, hs, rfl⟩ := mem_levels.1 hl
      rw [facing_injective d hx]
      exact .gap hs (triggers_stop_iff.2 hle)
    | lower hl h ht hle =>
      obtain ⟨s, hs, rfl⟩ := mem_levels.1 hl
      rw [facing_injective d hx]
      exact .stop hs (firstAt_facing.2 h) ht (triggers_stop_iff.2 hle)
    | upper hu h hle =>
      obtain ⟨g, hg, rfl⟩ := mem_levels.1 hu
      rw [facing_injective d hx]
      exact .target hg (firstAt_facing.2 h) (triggers_target_iff.2 hle)

theorem apart_levels (h : LosingSide d stop takeProfit) :
    Apart (levels d stop) (levels d takeProfit) := by
  intro l hl u hu
  obtain ⟨s, hs, rfl⟩ := mem_levels.1 hl
  obtain ⟨g, hg, rfl⟩ := mem_levels.1 hu
  rw [facing_eq, facing_eq, ← Rat.cast_mul, ← Rat.cast_mul]
  exact Rat.cast_lt.2 (h s hs g hg)

theorem worst_le_open (d : Direction) (bar : Bar) : worst d bar ≤ facing d bar.open_ := by
  cases d with
  | long => exact Rat.cast_le.2 bar.coherent.1
  | short => exact neg_le_neg (Rat.cast_le.2 bar.coherent.2.1)

theorem open_le_best (d : Direction) (bar : Bar) : facing d bar.open_ ≤ best d bar := by
  cases d with
  | long => exact Rat.cast_le.2 bar.coherent.2.1
  | short => exact neg_le_neg (Rat.cast_le.2 bar.coherent.1)

def facedPath (d : Direction) (w : BarPath bar) :
    Path (facing d bar.open_) (worst d bar) (best d bar) where
  value t := facing d (w.value t)
  continuous := (continuous_facing d).comp_continuousOn w.continuous
  start := congrArg (facing d) w.start
  range := by
    cases d with
    | long => exact w.range
    | short =>
      have himage : (fun t => facing .short (w.value t)) = Neg.neg ∘ w.value := rfl
      rw [himage, Set.image_comp, w.range, Set.image_neg_Icc]
      rfl

theorem exists_facedPath (v : Path (facing d bar.open_) (worst d bar) (best d bar)) :
    ∃ w : BarPath bar, (facedPath d w).value = v.value := by
  cases d with
  | long => exact ⟨v, rfl⟩
  | short =>
    refine ⟨⟨fun t => -v.value t, v.continuous.neg, ?_, ?_⟩, ?_⟩
    · rw [v.start]
      exact neg_neg _
    · have himage : (fun t => -v.value t) = Neg.neg ∘ v.value := rfl
      rw [himage, Set.image_comp, v.range, Set.image_neg_Icc]
      show Set.Icc (- -(bar.low : ℝ)) (- -(bar.high : ℝ)) = _
      rw [neg_neg, neg_neg]
    · funext t
      exact neg_neg _

theorem through_stop_iff_facing :
    through d bar.open_ level true = true ↔ facing d bar.open_ ≤ facing d level := by
  cases d with
  | long => exact decide_eq_true_iff.trans Rat.cast_le.symm
  | short => exact decide_eq_true_iff.trans (Rat.cast_le.symm.trans neg_le_neg_iff.symm)

theorem through_target_iff_facing :
    through d bar.open_ level false = true ↔ facing d level ≤ facing d bar.open_ := by
  cases d with
  | long => exact decide_eq_true_iff.trans Rat.cast_le.symm
  | short => exact decide_eq_true_iff.trans (Rat.cast_le.symm.trans neg_le_neg_iff.symm)

theorem touched_stop_iff_facing :
    touched d bar level true = true ↔ worst d bar ≤ facing d level := by
  cases d with
  | long => exact decide_eq_true_iff.trans Rat.cast_le.symm
  | short => exact decide_eq_true_iff.trans (Rat.cast_le.symm.trans neg_le_neg_iff.symm)

theorem touched_target_iff_facing :
    touched d bar level false = true ↔ facing d level ≤ best d bar := by
  cases d with
  | long => exact decide_eq_true_iff.trans Rat.cast_le.symm
  | short => exact decide_eq_true_iff.trans (Rat.cast_le.symm.trans neg_le_neg_iff.symm)

theorem facing_worseExit (a b : ℚ) :
    facing d (worseExit d a b) = min (facing d a) (facing d b) := by
  cases d with
  | long => exact Rat.cast_min a b
  | short =>
    show -((max a b : ℚ) : ℝ) = min (-(a : ℝ)) (-(b : ℝ))
    rw [Rat.cast_max, min_neg_neg]

/-- What an exit at a mid stands for, on the position's side: the open past the stop, the open past
the target, the stop reached, or the target reached. -/
inductive Decided (stopFirst : Prop) (lower upper : Option ℝ) (lo a hi : ℝ) : ℝ → Prop where
  | gapStop {l : ℝ} (hl : l ∈ lower) (h : a ≤ l) : Decided stopFirst lower upper lo a hi a
  | gapTarget {u : ℝ} (hu : u ∈ upper) (h : u ≤ a) : Decided stopFirst lower upper lo a hi u
  | stop {l : ℝ} (hclear : a ∉ beyond lower upper) (hl : l ∈ lower) (h : lo ≤ l) :
      Decided stopFirst lower upper lo a hi l
  | target {u : ℝ} (hclear : a ∉ beyond lower upper) (hu : u ∈ upper) (h : u ≤ hi)
      (hfirst : stopFirst → ∀ l ∈ lower, l < lo) : Decided stopFirst lower upper lo a hi u

namespace Decided

variable {stopFirst : Prop} {lower upper : Option ℝ} {lo a hi m x : ℝ}

theorem reached (h : Decided stopFirst lower upper lo a hi m) (hlo : lo ≤ a) (hhi : a ≤ hi) :
    (∃ l ∈ lower, lo ≤ l) ∨ ∃ u ∈ upper, u ≤ hi := by
  cases h with
  | gapStop hl hle => exact .inl ⟨_, hl, hlo.trans hle⟩
  | gapTarget hu hle => exact .inr ⟨_, hu, hle.trans hhi⟩
  | stop _ hl hle => exact .inl ⟨_, hl, hle⟩
  | target _ hu hle _ => exact .inr ⟨_, hu, hle⟩

theorem le_meets (h : Decided stopFirst lower upper lo a hi m) (hfirst : stopFirst)
    (hapart : Apart lower upper) (w : Path a lo hi) (hx : Meets lower upper w.value x) : m ≤ x := by
  cases h with
  | gapStop hl hle => exact ((w.meets_start hapart hl hle).1 hx).ge
  | gapTarget hu hle => exact ((w.meets_level hapart hu hle).1 hx).ge
  | stop hclear hl _ =>
    rw [← w.start] at hclear
    rcases hx.mem_level hclear with hmem | hmem
    · exact (Option.mem_unique hl hmem).le
    · exact (hapart _ hl _ hmem).le
  | target hclear hu _ hmissed =>
    cases hx with
    | start hl hle => exact absurd (.inl ⟨_, hl, w.start.symm.trans_le hle⟩) hclear
    | lower hl ht _ hle =>
      exact absurd ((w.mem ht.time).1.trans hle) (not_le.2 (hmissed hfirst _ hl))
    | upper hu' _ _ => exact (Option.mem_unique hu hu').le

theorem exists_meets (h : Decided stopFirst lower upper lo a hi m) (hapart : Apart lower upper)
    (hlo : lo ≤ a) (hhi : a ≤ hi) : ∃ w : Path a lo hi, Meets lower upper w.value m := by
  cases h with
  | gapStop hl hle => exact ⟨.lowFirst hlo hhi,
      ((Path.lowFirst hlo hhi).meets_start hapart hl hle).2 rfl⟩
  | gapTarget hu hle =>
    exact ⟨.lowFirst hlo hhi, ((Path.lowFirst hlo hhi).meets_level hapart hu hle).2 rfl⟩
  | stop hclear hl hle => exact ⟨.lowFirst hlo hhi, meets_lowFirst hlo hhi hclear hl hle⟩
  | target hclear hu hle _ => exact ⟨.highFirst hlo hhi, meets_highFirst hlo hhi hclear hu hle⟩

end Decided

namespace FillSimulator

variable (sim : FillSimulator) (i : Instrument) (size : ℚ) (barIndex sequence : ℤ)
    (spacing : Spacing)

/-- The decision of `resolve_exit`, before it is priced. -/
def decideResting (d : Direction) (bar : Bar) (stop takeProfit : Option ℚ) : Option ExitDecision :=
  match stop with
  | some stop => sim.decideExit d bar barIndex stop takeProfit sequence
  | none =>
    match takeProfit with
    | none => none
    | some target =>
      if through d bar.open_ target false then
        some (.target (worseExit d target bar.open_) true false)
      else if touched d bar target false then some (.target target false false)
      else none

theorem resolveResting_eq :
    sim.resolveResting i d size bar barIndex stop takeProfit sequence spacing =
      (sim.decideResting barIndex sequence d bar stop takeProfit).map
        (sim.priceDecision i d size bar barIndex sequence (sim.isStale spacing bar.timestamp)) := by
  cases stop with
  | some stop => exact sim.resolveExit_eq i d size bar barIndex stop takeProfit sequence spacing
  | none =>
    cases takeProfit with
    | none => rfl
    | some target =>
      simp only [resolveResting, decideResting]
      split_ifs <;> rfl

theorem priceDecision_midPrice {stale : Bool} (hguaranteed : sim.profile.useGuaranteedStops = false)
    (e : ExitDecision) :
    (sim.priceDecision i d size bar barIndex sequence stale e).midPrice = e.mid := by
  rw [priceDecision, priceExit_midPrice, hguaranteed]
  simp

def Reached (d : Direction) (bar : Bar) (stop takeProfit : Option ℚ) : Prop :=
  (∃ l ∈ levels d stop, worst d bar ≤ l) ∨ ∃ u ∈ levels d takeProfit, u ≤ best d bar

theorem not_mem_beyond {s : Option ℚ} {g : Option ℚ}
    (hs : ∀ q ∈ s, ¬ through d bar.open_ q true = true)
    (hg : ∀ q ∈ g, ¬ through d bar.open_ q false = true) :
    facing d bar.open_ ∉ beyond (levels d s) (levels d g) := by
  rintro (⟨l, hl, hle⟩ | ⟨u, hu, hle⟩)
  · obtain ⟨q, hq, rfl⟩ := mem_levels.1 hl
    exact hs q hq (through_stop_iff_facing.2 hle)
  · obtain ⟨q, hq, rfl⟩ := mem_levels.1 hu
    exact hg q hq (through_target_iff_facing.2 hle)

theorem facing_gapStop {s : ℚ} (h : through d bar.open_ s true = true) :
    facing d (worseExit d s bar.open_) = facing d bar.open_ := by
  rw [facing_worseExit, min_eq_right (through_stop_iff_facing.1 h)]

theorem facing_gapTarget {g : ℚ} (h : through d bar.open_ g false = true) :
    facing d (worseExit d g bar.open_) = facing d g := by
  rw [facing_worseExit, min_eq_left (through_target_iff_facing.1 h)]

variable {e : ExitDecision}

theorem decided_target {g : ℚ} {stopFirst : Prop}
    (h : (if through d bar.open_ g false then
        some (ExitDecision.target (worseExit d g bar.open_) true false)
      else if touched d bar g false then some (.target g false false) else none) = some e) :
    Decided stopFirst (levels d none) (levels d (some g)) (worst d bar) (facing d bar.open_)
      (best d bar) (facing d e.mid) := by
  have hg : facing d g ∈ levels d (some g) := rfl
  split_ifs at h with hgap hhit
  · obtain rfl := Option.some.inj h
    rw [ExitDecision.target, facing_gapTarget hgap]
    exact .gapTarget hg (through_target_iff_facing.1 hgap)
  · obtain rfl := Option.some.inj h
    refine .target (not_mem_beyond (by simp) ?_) hg (touched_target_iff_facing.1 hhit)
      (by simp [levels])
    rintro q ⟨⟩
    exact hgap

theorem decided_of_some
    (h : sim.decideResting barIndex sequence d bar stop takeProfit = some e) :
    Decided (sim.intrabarPolicy = .stopFirst) (levels d stop) (levels d takeProfit) (worst d bar)
      (facing d bar.open_) (best d bar) (facing d e.mid) := by
  cases stop with
  | none =>
    cases takeProfit with
    | none => cases h
    | some g => exact decided_target h
  | some s =>
    have hs : facing d s ∈ levels d (some s) := rfl
    change sim.decideExit d bar barIndex s takeProfit sequence = some e at h
    unfold decideExit at h
    by_cases hgap : through d bar.open_ s true = true
    · rw [if_pos hgap] at h
      obtain rfl := Option.some.inj h
      rw [ExitDecision.stop, facing_gapStop hgap]
      exact .gapStop hs (through_stop_iff_facing.1 hgap)
    rw [if_neg hgap] at h
    have hclear : ∀ q ∈ some s, ¬ through d bar.open_ q true = true := by
      rintro q ⟨⟩
      exact hgap
    cases takeProfit with
    | none =>
      dsimp only at h
      split_ifs at h with hstop
      obtain rfl := Option.some.inj h
      exact .stop (not_mem_beyond hclear (by simp)) hs (touched_stop_iff_facing.1 hstop)
    | some g =>
      have hg : facing d g ∈ levels d (some g) := rfl
      dsimp only at h
      split_ifs at h with hopen hstop hhit hpolicy hhit
      · obtain rfl := Option.some.inj h
        rw [ExitDecision.target, facing_gapTarget hopen]
        exact .gapTarget hg (through_target_iff_facing.1 hopen)
      all_goals
        obtain rfl := Option.some.inj h
        have hclear' := not_mem_beyond (g := some g) hclear (by rintro q ⟨⟩; exact hopen)
      · exact .stop hclear' hs (touched_stop_iff_facing.1 hstop)
      · refine .target hclear' hg (touched_target_iff_facing.1 hhit) fun hfirst => absurd ?_ hpolicy
        rw [resolveAmbiguity, hfirst]
      · exact .stop hclear' hs (touched_stop_iff_facing.1 hstop)
      · refine .target hclear' hg (touched_target_iff_facing.1 hhit) fun _ l hl => ?_
        obtain ⟨q, ⟨⟩, rfl⟩ := mem_levels.1 hl
        exact not_le.1 fun hle => hstop (touched_stop_iff_facing.2 hle)

theorem exists_pathFill_iff (w : BarPath bar) :
    (∃ p, PathFill d stop takeProfit w.value p) ↔ Reached d bar stop takeProfit := by
  have hmeets : (∃ x, Meets (levels d stop) (levels d takeProfit) (facedPath d w).value x) ↔
      Reached d bar stop takeProfit :=
    (facedPath d w).meets_iff (worst_le_open d bar) (open_le_best d bar)
  rw [← hmeets]
  constructor
  · rintro ⟨p, hp⟩
    exact ⟨facing d p, pathFill_iff.1 hp⟩
  · rintro ⟨x, hx⟩
    rw [← facing_facing d x] at hx
    exact ⟨facing d x, pathFill_iff.2 hx⟩

theorem untouched_of_none (h : sim.decideResting barIndex sequence d bar stop takeProfit = none) :
    (∀ s ∈ stop, ¬ touched d bar s true = true) ∧ ∀ g ∈ takeProfit,
      ¬ touched d bar g false = true := by
  cases stop with
  | none =>
    refine ⟨nofun, ?_⟩
    rintro g ⟨⟩
    change (if _ then _ else if _ then _ else _) = _ at h
    split_ifs at h with hgap hhit
    exact hhit
  | some s =>
    change sim.decideExit d bar barIndex s takeProfit sequence = none at h
    unfold decideExit at h
    cases takeProfit with
    | none =>
      dsimp only at h
      split_ifs at h with hgap hstop
      refine ⟨?_, nofun⟩
      rintro q ⟨⟩
      exact hstop
    | some g =>
      dsimp only at h
      split_ifs at h with hgap hopen hstop hboth hpolicy hhit
      constructor
      · rintro q ⟨⟩
        exact hstop
      · rintro q ⟨⟩
        exact hhit

theorem decideResting_isSome_iff :
    (sim.decideResting barIndex sequence d bar stop takeProfit).isSome ↔
      Reached d bar stop takeProfit := by
  constructor
  · intro h
    obtain ⟨e, he⟩ := Option.isSome_iff_exists.1 h
    exact (sim.decided_of_some barIndex sequence he).reached (worst_le_open d bar)
      (open_le_best d bar)
  · intro h
    by_contra hnot
    obtain ⟨hstop, htarget⟩ :=
      sim.untouched_of_none barIndex sequence (Option.not_isSome_iff_eq_none.1 hnot)
    rcases h with ⟨l, hl, hle⟩ | ⟨u, hu, hle⟩
    · obtain ⟨s, hs, rfl⟩ := mem_levels.1 hl
      exact hstop s hs (touched_stop_iff_facing.2 hle)
    · obtain ⟨g, hg, rfl⟩ := mem_levels.1 hu
      exact htarget g hg (touched_target_iff_facing.2 hle)

/-- The exit of a position with resting orders and no guaranteed stop: it is taken where every path
through the bar comes to an order, it is the fill of one of them, and with the stop first it is no
better than any. -/
theorem bar_fill_pessimistic (stop takeProfit : Option ℚ) (d : Direction) (bar : Bar)
    (hguaranteed : sim.profile.useGuaranteedStops = false) (hside : LosingSide d stop takeProfit) :
    let exit := sim.resolveResting i d size bar barIndex stop takeProfit sequence spacing
    (exit.isSome ↔ ∀ w : BarPath bar, ∃ p, PathFill d stop takeProfit w.value p) ∧
    (∀ policy, ({ sim with intrabarPolicy := policy }.resolveResting i d size bar barIndex stop
      takeProfit sequence spacing).isSome = exit.isSome) ∧
    (sim.intrabarPolicy = .stopFirst → ∀ fill ∈ exit, ∀ (w : BarPath bar) (p : ℝ),
      PathFill d stop takeProfit w.value p → (d.sign : ℝ) * fill.midPrice ≤ d.sign * p) ∧
    ∀ fill ∈ exit, ∃ w : BarPath bar, PathFill d stop takeProfit w.value fill.midPrice := by
  intro exit
  have hlo := worst_le_open d bar
  have hhi := open_le_best d bar
  have hexit : exit.isSome ↔ Reached d bar stop takeProfit := by
    rw [← sim.decideResting_isSome_iff barIndex sequence]
    simp only [exit, resolveResting_eq, Option.isSome_map]
  have hmid : ∀ fill ∈ exit, Decided (sim.intrabarPolicy = .stopFirst) (levels d stop)
      (levels d takeProfit) (worst d bar) (facing d bar.open_) (best d bar)
      (facing d fill.midPrice) := by
    intro fill hfill
    simp only [exit, resolveResting_eq, Option.mem_def, Option.map_eq_some_iff] at hfill
    obtain ⟨e, he, rfl⟩ := hfill
    rw [sim.priceDecision_midPrice i size barIndex sequence hguaranteed]
    exact sim.decided_of_some barIndex sequence he
  refine ⟨?_, fun policy => ?_, fun hfirst fill hfill w p hp => ?_, fun fill hfill => ?_⟩
  · rw [hexit]
    constructor
    · exact fun hreached w => (exists_pathFill_iff w).2 hreached
    · intro hall
      obtain ⟨w, -⟩ := exists_facedPath (Path.lowFirst hlo hhi)
      exact (exists_pathFill_iff w).1 (hall w)
  · rw [Bool.eq_iff_iff, hexit, resolveResting_eq, Option.isSome_map]
    exact decideResting_isSome_iff _ barIndex sequence
  · have hle := (hmid fill hfill).le_meets hfirst (apart_levels hside) (facedPath d w)
      (pathFill_iff.1 hp)
    rwa [facing_eq, facing_eq] at hle
  · obtain ⟨v, hv⟩ := (hmid fill hfill).exists_meets (apart_levels hside) hlo hhi
    obtain ⟨w, hw⟩ := exists_facedPath v
    refine ⟨w, pathFill_iff.2 ?_⟩
    rw [← hw] at hv
    exact hv

end FillSimulator

open Frictionless

theorem wideBar_coherent : (93 : ℚ) ≤ 100 ∧ (100 : ℚ) ≤ 112 ∧ (93 : ℚ) ≤ 101 ∧ (101 : ℚ) ≤ 112 := by
  norm_num

def wideBar : Bar := ⟨0, 100, 112, 93, 101, wideBar_coherent⟩

theorem losingSide_wide : LosingSide .long (some 95) (some 110) := by
  rintro s ⟨⟩ g ⟨⟩
  norm_num [Direction.sign]

/-- Between a stop at 95 and a target at 110, every path through the bar comes to an order, and none
fills under the stop. -/
theorem bar_fill_pessimistic_wide :
    (∀ w : BarPath wideBar, ∃ p, PathFill .long (some 95) (some 110) w.value p) ∧
    ∀ fill ∈ book.sim.resolveResting (instrumentOf "EURUSD") .long 1 wideBar 0
      (some 95) (some 110) 0
      ⟨none, none⟩, ∀ (w : BarPath wideBar) (p : ℝ), PathFill .long (some 95) (some 110) w.value p →
        ((Direction.long.sign : ℚ) : ℝ) * fill.midPrice ≤ Direction.long.sign * p := by
  obtain ⟨hexit, -, hworst, -⟩ := book.sim.bar_fill_pessimistic (instrumentOf "EURUSD") 1 0 0
    ⟨none, none⟩ (some 95) (some 110) .long wideBar rfl losingSide_wide
  exact ⟨hexit.1 (by decide), hworst rfl⟩

end Fiboki
