import Fiboki.Lib.Series
import Fiboki.Sim.Fills

/-!
Confirmed swing highs and lows, and the Fibonacci levels of the newest leg. A column is a function
of the bar's position; a missing cell is NaN.

The swings at a bar are the newest strict extremes confirmed by then, and the leg between them is
well formed when they are two bars and the high is above the low.
-/

namespace Fiboki

open Series

abbrev BarColumn (α : Type) := ℕ → Option α

/-- The bars `lookback` before and after a bar. -/
def leftOf (prices : List ℚ) (lookback j : ℕ) : List ℚ := (prices.drop (j - lookback)).take lookback

def rightOf (prices : List ℚ) (lookback j : ℕ) : List ℚ := (prices.drop (j + 1)).take lookback

/-- One column of `_raw_fractals`: the bars beyond the most extreme price on either side. -/
def fractals (extreme : List ℚ → Option ℚ) (beyond : ℚ → ℚ → Bool) (prices : List ℚ)
    (lookback : ℕ) : BarColumn ℚ := fun j =>
  if lookback ≤ j ∧ j < prices.length - lookback then
    prices[j]?.filter fun x =>
      (extreme (leftOf prices lookback j)).all (beyond x) &&
        (extreme (rightOf prices lookback j)).all (beyond x)
  else none

def rawHigh (high : List ℚ) (lookback : ℕ) : BarColumn ℚ :=
  fractals List.max? (fun x m => m < x) high lookback

def rawLow (low : List ℚ) (lookback : ℕ) : BarColumn ℚ :=
  fractals List.min? (fun x m => x < m) low lookback

def barOf (column : BarColumn ℚ) : BarColumn ℕ := fun j => (column j).map fun _ => j

structure SwingColumns where
  highConfirmed : BarColumn ℚ
  lowConfirmed : BarColumn ℚ
  lastHigh : BarColumn ℚ
  lastLow : BarColumn ℚ
  lastHighBar : BarColumn ℕ
  lastLowBar : BarColumn ℕ
  legDirection : BarColumn ℚ

structure SwingDetector where
  lookback : ℕ
  positive : 1 ≤ lookback

def legDirection : Option ℕ → Option ℕ → Option ℚ
  | some high, some low => some (if low < high then 1 else if high < low then -1 else 0)
  | _, _ => none

/-- `SwingDetector._compute`: a swing is published `lookback` bars after its bar. -/
def SwingDetector.compute (detector : SwingDetector) (df : List Bar) : SwingColumns :=
  let lb := detector.lookback
  let high := rawHigh (df.map Bar.high) lb
  let low := rawLow (df.map Bar.low) lb
  let lastHighBar := ffill (shifted lb (barOf high))
  let lastLowBar := ffill (shifted lb (barOf low))
  { highConfirmed := shifted lb high
    lowConfirmed := shifted lb low
    lastHigh := ffill (shifted lb high)
    lastLow := ffill (shifted lb low)
    lastHighBar
    lastLowBar
    legDirection := fun i => legDirection (lastHighBar i) (lastLowBar i) }

structure Fibonacci where
  swing : SwingDetector
  retracements : List ℚ
  extensions : List ℚ
  nonempty : retracements ++ extensions ≠ []
  positive : ∀ r ∈ retracements ++ extensions, 0 < r

structure FibonacciColumns where
  dir : BarColumn ℚ
  start : BarColumn ℚ
  stop : BarColumn ℚ
  range : BarColumn ℚ
  retracements : List (ℚ × BarColumn ℚ)
  extensions : List (ℚ × BarColumn ℚ)

def npSign (x : ℚ) : ℚ := if 0 < x then 1 else if x < 0 then -1 else 0

def legOf (high low : Option ℚ) (highBar lowBar : Option ℕ) : Option (ℚ × ℚ) :=
  match high, low, highBar, lowBar with
  | some high, some low, some highBar, some lowBar =>
    if lowBar < highBar then some (low, high)
    else if highBar < lowBar then some (high, low) else none
  | _, _, _, _ => none

def Fibonacci.compute (fibonacci : Fibonacci) (df : List Bar) : FibonacciColumns :=
  let swung := fibonacci.swing.compute df
  let leg := fun i =>
    legOf (swung.lastHigh i) (swung.lastLow i) (swung.lastHighBar i) (swung.lastLowBar i)
  { dir := fun i => (leg i).map fun p => npSign (p.2 - p.1)
    start := fun i => (leg i).map Prod.fst
    stop := fun i => (leg i).map Prod.snd
    range := fun i => (leg i).map fun p => |p.2 - p.1|
    retracements := fibonacci.retracements.map fun r =>
      (r, fun i => (leg i).map fun p => p.2 - r * (p.2 - p.1))
    extensions := fibonacci.extensions.map fun r =>
      (r, fun i => (leg i).map fun p => p.1 + r * (p.2 - p.1)) }

/-- A bar beyond every other within `lookback` bars of it, with that many on either side. -/
structure StrictExtreme (beyond : ℚ → ℚ → Prop) (prices : List ℚ) (lookback j : ℕ) (x : ℚ) :
    Prop where
  price : prices[j]? = some x
  before : lookback ≤ j
  after : j + lookback < prices.length
  strict : ∀ (k : ℕ) (y : ℚ), k ≠ j → j ≤ k + lookback → k ≤ j + lookback → prices[k]? = some y →
    beyond x y

variable {lookback j : ℕ}

theorem mem_leftOf {prices : List ℚ} (h : lookback ≤ j) {y : ℚ} :
    y ∈ leftOf prices lookback j ↔ ∃ k : ℕ, j ≤ k + lookback ∧ k < j ∧ prices[k]? = some y := by
  unfold leftOf
  rw [List.mem_iff_getElem?]
  constructor
  · rintro ⟨i, hi⟩
    rw [List.getElem?_take] at hi
    split at hi
    · rw [List.getElem?_drop] at hi
      exact ⟨_, by omega, by omega, hi⟩
    · cases hi
  · rintro ⟨k, hjk, hkj, hk⟩
    refine ⟨k - (j - lookback), ?_⟩
    rw [List.getElem?_take, if_pos (by omega), List.getElem?_drop, Nat.add_sub_cancel' (by omega)]
    exact hk

theorem mem_rightOf {prices : List ℚ} {y : ℚ} :
    y ∈ rightOf prices lookback j ↔ ∃ k : ℕ, j < k ∧ k ≤ j + lookback ∧ prices[k]? = some y := by
  unfold rightOf
  rw [List.mem_iff_getElem?]
  constructor
  · rintro ⟨i, hi⟩
    rw [List.getElem?_take] at hi
    split at hi
    · rw [List.getElem?_drop] at hi
      exact ⟨_, by omega, by omega, hi⟩
    · cases hi
  · rintro ⟨k, hjk, hkj, hk⟩
    refine ⟨k - (j + 1), ?_⟩
    rw [List.getElem?_take, if_pos (by omega), List.getElem?_drop, Nat.add_sub_cancel' (by omega)]
    exact hk

section Fractals

variable {extreme : List ℚ → Option ℚ} {beyond : ℚ → ℚ → Bool} {prices : List ℚ} {lookback j : ℕ}
  {x : ℚ}

def Decides (extreme : List ℚ → Option ℚ) (beyond : ℚ → ℚ → Bool) : Prop :=
  ∀ (x : ℚ) (window : List ℚ),
    (extreme window).all (beyond x) = true ↔ ∀ y ∈ window, beyond x y = true

theorem decides_max : Decides List.max? fun x m => m < x := by
  intro x window
  cases h : window.max? with
  | none =>
    rw [List.max?_eq_none_iff] at h
    simp [h]
  | some m =>
    obtain ⟨hmem, hle⟩ := List.max?_eq_some_iff.1 h
    rw [Option.all_some, decide_eq_true_eq]
    constructor
    · intro hm y hy
      exact decide_eq_true (lt_of_le_of_lt (hle y hy) hm)
    · intro hall
      exact of_decide_eq_true (hall m hmem)

theorem decides_min : Decides List.min? fun x m => x < m := by
  intro x window
  cases h : window.min? with
  | none =>
    rw [List.min?_eq_none_iff] at h
    simp [h]
  | some m =>
    obtain ⟨hmem, hle⟩ := List.min?_eq_some_iff.1 h
    rw [Option.all_some, decide_eq_true_eq]
    constructor
    · intro hm y hy
      exact decide_eq_true (lt_of_lt_of_le hm (hle y hy))
    · intro hall
      exact of_decide_eq_true (hall m hmem)

theorem fractals_eq_some (h : Decides extreme beyond) :
    fractals extreme beyond prices lookback j = some x ↔
      StrictExtreme (fun x y => beyond x y = true) prices lookback j x := by
  unfold fractals
  constructor
  · intro hj
    split at hj
    · rename_i hrange
      rw [Option.filter_eq_some_iff, Bool.and_eq_true, h, h] at hj
      obtain ⟨hx, hleft, hright⟩ := hj
      refine ⟨hx, hrange.1, by omega, ?_⟩
      intro k y hne hlo hhi hk
      rcases lt_or_gt_of_ne hne with hlt | hgt
      · exact hleft y ((mem_leftOf hrange.1).2 ⟨k, hlo, hlt, hk⟩)
      · exact hright y (mem_rightOf.2 ⟨k, hgt, hhi, hk⟩)
    · cases hj
  · intro hj
    have hbefore := hj.before
    have hafter := hj.after
    rw [if_pos (by omega), Option.filter_eq_some_iff, Bool.and_eq_true, h, h]
    refine ⟨hj.price, ?_, ?_⟩
    · intro y hy
      obtain ⟨k, hlo, hlt, hk⟩ := (mem_leftOf hbefore).1 hy
      exact hj.strict k y (by omega) hlo (by omega) hk
    · intro y hy
      obtain ⟨k, hgt, hhi, hk⟩ := mem_rightOf.1 hy
      exact hj.strict k y (by omega) (by omega) hhi hk

end Fractals

def IsSwingHigh (df : List Bar) (lookback j : ℕ) (x : ℚ) : Prop :=
  StrictExtreme (fun x y => y < x) (df.map Bar.high) lookback j x

def IsSwingLow (df : List Bar) (lookback j : ℕ) (x : ℚ) : Prop :=
  StrictExtreme (fun x y => x < y) (df.map Bar.low) lookback j x

variable {x : ℚ}

variable {df : List Bar}

theorem rawHigh_eq_some :
    rawHigh (df.map Bar.high) lookback j = some x ↔ IsSwingHigh df lookback j x := by
  unfold rawHigh IsSwingHigh
  rw [fractals_eq_some decides_max]
  simp only [decide_eq_true_eq]

theorem rawLow_eq_some :
    rawLow (df.map Bar.low) lookback j = some x ↔ IsSwingLow df lookback j x := by
  unfold rawLow IsSwingLow
  rw [fractals_eq_some decides_min]
  simp only [decide_eq_true_eq]

/-- The newest swing known at a bar: `lookback` bars have closed after it. -/
structure NewestConfirmed (swing : ℕ → ℚ → Prop) (lookback i j : ℕ) (x : ℚ) : Prop where
  price : swing j x
  confirmed : j + lookback ≤ i
  newest : ∀ k y, swing k y → k + lookback ≤ i → k ≤ j

section Newest

variable {column : BarColumn ℚ} {swing : ℕ → ℚ → Prop} {lookback i : ℕ}

theorem last_eq_some (hswing : ∀ j x, column j = some x ↔ swing j x) {x : ℚ} :
    ffill (shifted lookback column) i = some x ↔ ∃ j, NewestConfirmed swing lookback i j x := by
  rw [ffill_shifted_eq_some]
  simp only [hswing]
  constructor
  · rintro ⟨j, hj, hji, hnewest⟩
    exact ⟨j, hj, hji, hnewest⟩
  · rintro ⟨j, hj⟩
    exact ⟨j, hj.price, hj.confirmed, hj.newest⟩

theorem barOf_eq_some {j k : ℕ} : barOf column k = some j ↔ k = j ∧ ∃ x, column k = some x := by
  unfold barOf
  rw [Option.map_eq_some_iff]
  constructor
  · rintro ⟨x, hx, rfl⟩
    exact ⟨rfl, x, hx⟩
  · rintro ⟨rfl, x, hx⟩
    exact ⟨x, hx, rfl⟩

theorem lastBar_eq_some (hswing : ∀ j x, column j = some x ↔ swing j x) {j : ℕ} :
    ffill (shifted lookback (barOf column)) i = some j ↔
      ∃ x, NewestConfirmed swing lookback i j x := by
  rw [ffill_shifted_eq_some]
  simp only [barOf_eq_some, hswing]
  constructor
  · rintro ⟨k, ⟨rfl, x, hx⟩, hki, hnewest⟩
    exact ⟨x, hx, hki, fun l y hy hli => hnewest l l ⟨rfl, y, hy⟩ hli⟩
  · rintro ⟨x, hx⟩
    refine ⟨j, ⟨rfl, x, hx.price⟩, hx.confirmed, ?_⟩
    rintro l k ⟨rfl, y, hy⟩ hli
    exact hx.newest l y hy hli

end Newest

section Columns

variable (detector : SwingDetector) (df : List Bar) (i : ℕ)

def NewestHigh (j : ℕ) (x : ℚ) : Prop :=
  NewestConfirmed (IsSwingHigh df detector.lookback) detector.lookback i j x

def NewestLow (j : ℕ) (x : ℚ) : Prop :=
  NewestConfirmed (IsSwingLow df detector.lookback) detector.lookback i j x

variable {detector df i}

theorem lastHigh_eq_some {x : ℚ} :
    (detector.compute df).lastHigh i = some x ↔ ∃ j, NewestHigh detector df i j x :=
  last_eq_some fun _ _ => rawHigh_eq_some

theorem lastLow_eq_some {x : ℚ} :
    (detector.compute df).lastLow i = some x ↔ ∃ j, NewestLow detector df i j x :=
  last_eq_some fun _ _ => rawLow_eq_some

theorem lastHighBar_eq_some {j : ℕ} :
    (detector.compute df).lastHighBar i = some j ↔ ∃ x, NewestHigh detector df i j x :=
  lastBar_eq_some fun _ _ => rawHigh_eq_some

theorem lastLowBar_eq_some {j : ℕ} :
    (detector.compute df).lastLowBar i = some j ↔ ∃ x, NewestLow detector df i j x :=
  lastBar_eq_some fun _ _ => rawLow_eq_some

end Columns

variable {prices prices' : List ℚ}

theorem strictExtreme_of_agree {beyond : ℚ → ℚ → Prop} {lookback i j : ℕ}
    (hagree : ∀ k : ℕ, k ≤ i → prices[k]? = prices'[k]?)
    (hi : i < prices'.length) (hj : j + lookback ≤ i)
    (h : StrictExtreme beyond prices lookback j x) : StrictExtreme beyond prices' lookback j x where
  price := by
    rw [← hagree j (by omega)]
    exact h.price
  before := h.before
  after := by omega
  strict k y hne hlo hhi hk := h.strict k y hne hlo hhi (by rw [hagree k (by omega)]; exact hk)

theorem fractals_agree {extreme : List ℚ → Option ℚ} {beyond : ℚ → ℚ → Bool}
    (h : Decides extreme beyond) {lookback i j : ℕ}
    (hagree : ∀ k : ℕ, k ≤ i → prices[k]? = prices'[k]?) (hi : i < prices.length)
    (hi' : i < prices'.length) (hj : j + lookback ≤ i) :
    fractals extreme beyond prices lookback j = fractals extreme beyond prices' lookback j := by
  apply Option.ext
  intro x
  rw [fractals_eq_some h, fractals_eq_some h]
  constructor
  · intro hx
    exact strictExtreme_of_agree hagree hi' hj hx
  · intro hx
    exact strictExtreme_of_agree (fun k hk => (hagree k hk).symm) hi hj hx

def SwingColumns.row (swung : SwingColumns) (i : ℕ) :
    Option ℚ × Option ℚ × Option ℚ × Option ℚ × Option ℕ × Option ℕ × Option ℚ :=
  (swung.highConfirmed i, swung.lowConfirmed i, swung.lastHigh i, swung.lastLow i,
    swung.lastHighBar i, swung.lastLowBar i, swung.legDirection i)

theorem row_causal (detector : SwingDetector) {df df' : List Bar} {i : ℕ} (hi : i < df.length)
    (hi' : i < df'.length) (hpast : df.take (i + 1) = df'.take (i + 1)) :
    (detector.compute df).row i = (detector.compute df').row i := by
  have hbars : ∀ (f : Bar → ℚ) (k : ℕ), k ≤ i → (df.map f)[k]? = (df'.map f)[k]? := by
    intro f k hk
    have hbar : (df.take (i + 1))[k]? = (df'.take (i + 1))[k]? := by rw [hpast]
    rw [List.getElem?_take, List.getElem?_take, if_pos (by omega), if_pos (by omega)] at hbar
    rw [List.getElem?_map, List.getElem?_map, hbar]
  have hhigh : ∀ j, j + detector.lookback ≤ i → rawHigh (df.map Bar.high) detector.lookback j =
        rawHigh (df'.map Bar.high) detector.lookback j :=
    fun j hj => fractals_agree decides_max (hbars Bar.high) (by rw [List.length_map]; exact hi)
      (by rw [List.length_map]; exact hi') hj
  have hlow : ∀ j, j + detector.lookback ≤ i → rawLow (df.map Bar.low) detector.lookback j =
        rawLow (df'.map Bar.low) detector.lookback j :=
    fun j hj => fractals_agree decides_min (hbars Bar.low) (by rw [List.length_map]; exact hi)
      (by rw [List.length_map]; exact hi') hj
  have hlast : ∀ {α : Type} {c c' : BarColumn α}, (∀ j, j + detector.lookback ≤ i → c j = c' j) →
      ffill (shifted detector.lookback c) i = ffill (shifted detector.lookback c') i :=
    fun h => ffill_congr fun j hj => shifted_congr fun l hl => h l (by omega)
  have hbar : ∀ {c c' : BarColumn ℚ}, (∀ j, j + detector.lookback ≤ i → c j = c' j) →
      ∀ j, j + detector.lookback ≤ i → barOf c j = barOf c' j := by
    intro c c' h j hj
    unfold barOf
    rw [h j hj]
  unfold SwingColumns.row SwingDetector.compute
  dsimp only
  rw [shifted_congr hhigh, shifted_congr hlow, hlast hhigh, hlast hlow, hlast (hbar hhigh),
    hlast (hbar hlow)]

def WellFormedLeg (swung : SwingColumns) (levels : FibonacciColumns) (i : ℕ) : Prop :=
  ∃ s a b, (s = 1 ∨ s = -1) ∧ swung.legDirection i = some s ∧ levels.dir i = some s ∧
    levels.start i = some a ∧ levels.stop i = some b ∧ s = npSign (b - a) ∧
    (levels.range i).isSome = true ∧
    (∀ p ∈ levels.retracements, ∃ x, p.2 i = some x ∧ (p.1 < 1 → min a b < x ∧ x < max a b)) ∧
    ∀ p ∈ levels.extensions, (p.2 i).isSome = true

theorem npSign_of_pos (h : 0 < x) : npSign x = 1 := if_pos h

theorem npSign_of_neg (h : x < 0) : npSign x = -1 := by
  unfold npSign
  rw [if_neg h.le.not_gt, if_pos h]

theorem pos_of_npSign (h : npSign x = 1) : 0 < x := by
  by_contra hle
  unfold npSign at h
  rw [if_neg hle] at h
  split at h
  · norm_num at h
  · norm_num at h

theorem neg_of_npSign (h : npSign x = -1) : x < 0 := by
  unfold npSign at h
  split at h
  · norm_num at h
  · split at h
    · assumption
    · norm_num at h

theorem retracement_inside {a b r : ℚ} (hne : a ≠ b) (hr : 0 < r) (hr1 : r < 1) :
    min a b < b - r * (b - a) ∧ b - r * (b - a) < max a b := by
  rcases lt_or_gt_of_ne hne with hlt | hgt
  · rw [min_eq_left hlt.le, max_eq_right hlt.le]
    constructor
    · nlinarith
    · nlinarith
  · rw [min_eq_right hgt.le, max_eq_left hgt.le]
    constructor
    · nlinarith
    · nlinarith

section Leg

variable {fibonacci : Fibonacci} {df : List Bar} {i h l : ℕ} {x y : ℚ}

def legAt (fibonacci : Fibonacci) (df : List Bar) (i : ℕ) : Option (ℚ × ℚ) :=
  let swung := fibonacci.swing.compute df
  legOf (swung.lastHigh i) (swung.lastLow i) (swung.lastHighBar i) (swung.lastLowBar i)

theorem legAt_eq (hhigh : NewestHigh fibonacci.swing df i h x)
    (hlow : NewestLow fibonacci.swing df i l y) :
    legAt fibonacci df i =
      if l < h then some (y, x) else if h < l then some (x, y) else none := by
  unfold legAt
  dsimp only
  rw [lastHigh_eq_some.2 ⟨h, hhigh⟩, lastLow_eq_some.2 ⟨l, hlow⟩, lastHighBar_eq_some.2 ⟨x, hhigh⟩,
    lastLowBar_eq_some.2 ⟨y, hlow⟩]
  rfl

theorem legDirection_eq {detector : SwingDetector} (hhigh : NewestHigh detector df i h x)
    (hlow : NewestLow detector df i l y) :
    (detector.compute df).legDirection i = some (if l < h then 1 else if h < l then -1 else 0) := by
  change legDirection ((detector.compute df).lastHighBar i) ((detector.compute df).lastLowBar i) = _
  rw [lastHighBar_eq_some.2 ⟨x, hhigh⟩, lastLowBar_eq_some.2 ⟨y, hlow⟩]
  rfl

theorem wellFormedLeg_of_leg {a b : ℚ} (hleg : legAt fibonacci df i = some (a, b)) (hne : a ≠ b)
    (hdir : (fibonacci.swing.compute df).legDirection i = some (npSign (b - a))) :
    WellFormedLeg (fibonacci.swing.compute df) (fibonacci.compute df) i := by
  have hcell : ∀ {α : Type} (f : ℚ × ℚ → α), (legAt fibonacci df i).map f = some (f (a, b)) := by
    intro α f
    rw [hleg]
    rfl
  refine ⟨npSign (b - a), a, b, ?_, hdir, hcell _, hcell _, hcell _, rfl, ?_, ?_, ?_⟩
  · rcases lt_or_gt_of_ne hne with hlt | hgt
    · exact .inl (npSign_of_pos (sub_pos.2 hlt))
    · exact .inr (npSign_of_neg (sub_neg.2 hgt))
  · exact Option.isSome_iff_exists.2 ⟨_, hcell _⟩
  · intro p hp
    obtain ⟨r, hr, rfl⟩ := List.mem_map.1 hp
    refine ⟨_, hcell _, ?_⟩
    intro hr1
    have hpos := fibonacci.positive r (List.mem_append_left _ hr)
    exact retracement_inside hne hpos hr1
  · intro p hp
    obtain ⟨r, hr, rfl⟩ := List.mem_map.1 hp
    exact Option.isSome_iff_exists.2 ⟨_, hcell _⟩

theorem leg_of_wellFormedLeg
    (hleg : WellFormedLeg (fibonacci.swing.compute df) (fibonacci.compute df) i) :
    ∃ a b, legAt fibonacci df i = some (a, b) ∧ a ≠ b ∧
      (fibonacci.swing.compute df).legDirection i = some (npSign (b - a)) := by
  obtain ⟨s, a, b, hs, hdir, -, hstart, hstop, rfl, -⟩ := hleg
  change (legAt fibonacci df i).map Prod.fst = some a at hstart
  change (legAt fibonacci df i).map Prod.snd = some b at hstop
  refine ⟨a, b, ?_, ?_, hdir⟩
  · obtain ⟨p, hp, rfl⟩ := Option.map_eq_some_iff.1 hstart
    rw [hp] at hstop ⊢
    rw [Option.map_some, Option.some.injEq] at hstop
    rw [← hstop]
  · rintro rfl
    rw [sub_self] at hs
    rcases hs with hone | hone
    · exact absurd (pos_of_npSign hone) (lt_irrefl 0)
    · exact absurd (neg_of_npSign hone) (lt_irrefl 0)

theorem wellFormedLeg_iff (hhigh : NewestHigh fibonacci.swing df i h x)
    (hlow : NewestLow fibonacci.swing df i l y) :
    WellFormedLeg (fibonacci.swing.compute df) (fibonacci.compute df) i ↔ h ≠ l ∧ y < x := by
  have hleg := legAt_eq hhigh hlow
  have hdir := legDirection_eq hhigh hlow
  constructor
  · intro hwell
    obtain ⟨a, b, hab, -, hsign⟩ := leg_of_wellFormedLeg hwell
    rw [hleg] at hab
    rw [hdir, Option.some.injEq] at hsign
    rcases lt_trichotomy l h with hup | rfl | hdown
    · rw [if_pos hup, Option.some.injEq, Prod.mk.injEq] at hab
      obtain ⟨rfl, rfl⟩ := hab
      rw [if_pos hup] at hsign
      exact ⟨by omega, sub_pos.1 (pos_of_npSign hsign.symm)⟩
    · rw [if_neg (lt_irrefl _), if_neg (lt_irrefl _)] at hab
      cases hab
    · rw [if_neg (by omega), if_pos hdown, Option.some.injEq, Prod.mk.injEq] at hab
      obtain ⟨rfl, rfl⟩ := hab
      rw [if_neg (by omega), if_pos hdown] at hsign
      exact ⟨by omega, sub_neg.1 (neg_of_npSign hsign.symm)⟩
  · rintro ⟨hne, hlt⟩
    rcases lt_or_gt_of_ne hne with hdown | hup
    · rw [if_neg (by omega), if_pos hdown] at hleg hdir
      apply wellFormedLeg_of_leg hleg hlt.ne'
      rw [npSign_of_neg (sub_neg.2 hlt)]
      exact hdir
    · rw [if_pos hup] at hleg hdir
      apply wellFormedLeg_of_leg hleg hlt.ne
      rw [npSign_of_pos (sub_pos.2 hlt)]
      exact hdir

/-- At every bar the last swing high and low are the newest confirmed strict extremes, whatever
bars come later; and with both confirmed, the leg and its levels are well formed exactly when the
two are different bars and the high is above the low. -/
theorem swings_and_legs (fibonacci : Fibonacci) (df : List Bar) (i : ℕ) (hi : i < df.length) :
    (∀ x, (fibonacci.swing.compute df).lastHigh i = some x ↔
      ∃ j, NewestHigh fibonacci.swing df i j x) ∧
    (∀ x, (fibonacci.swing.compute df).lastLow i = some x ↔
      ∃ j, NewestLow fibonacci.swing df i j x) ∧
    (∀ df' : List Bar, i < df'.length → df.take (i + 1) = df'.take (i + 1) →
      (fibonacci.swing.compute df).row i = (fibonacci.swing.compute df').row i) ∧
    ∀ h x l y, NewestHigh fibonacci.swing df i h x → NewestLow fibonacci.swing df i l y →
      (WellFormedLeg (fibonacci.swing.compute df) (fibonacci.compute df) i ↔ h ≠ l ∧ y < x) :=
  ⟨fun _ => lastHigh_eq_some, fun _ => lastLow_eq_some,
    fun _ hi' hpast => row_causal fibonacci.swing hi hi' hpast,
    fun _ _ _ _ hhigh hlow => wellFormedLeg_iff hhigh hlow⟩

end Leg

def nearestBars : Fibonacci where
  swing := ⟨1, le_rfl⟩
  retracements := [1 / 2]
  extensions := [2]
  nonempty := by decide
  positive := by decide +kernel

def barOfRange (timestamp : Timestamp) (high low : ℚ) (h : low ≤ high) : Bar :=
  ⟨timestamp, low, high, low, high, le_rfl, h, h, le_rfl⟩

def outsideBar : List Bar :=
  [barOfRange 0 2 1 (by norm_num), barOfRange 1 3 0 (by norm_num), barOfRange 2 2 1 (by norm_num)]

def equalLows : List Bar :=
  [barOfRange 0 24 22 (by norm_num), barOfRange 1 23 20 (by norm_num),
    barOfRange 2 24 22 (by norm_num), barOfRange 3 18 16 (by norm_num),
    barOfRange 4 18 16 (by norm_num), barOfRange 5 19 17 (by norm_num),
    barOfRange 6 18 17 (by norm_num)]

/-- The first leg goes up from 20 to 24. -/
theorem leg_of_equalLows :
    WellFormedLeg (nearestBars.swing.compute equalLows) (nearestBars.compute equalLows) 3 := by
  have hhigh : (nearestBars.swing.compute equalLows).lastHighBar 3 = some 2 := by decide
  have hlow : (nearestBars.swing.compute equalLows).lastLowBar 3 = some 1 := by decide
  obtain ⟨x, hx⟩ := lastHighBar_eq_some.1 hhigh
  obtain ⟨y, hy⟩ := lastLowBar_eq_some.1 hlow
  obtain rfl : 24 = x := Option.some.inj hx.price.price
  obtain rfl : 20 = y := Option.some.inj hy.price.price
  have hiff := (swings_and_legs nearestBars equalLows 3 (by decide)).2.2.2 2 24 1 20 hx hy
  exact hiff.2 ⟨by decide, by norm_num⟩

/-- One bar is both swings and the leg has no direction; and a newer high below the older low has
levels that go down on a leg that goes up. -/
theorem legs_without_their_direction : ((nearestBars.swing.compute outsideBar).lastHigh 2 = some 3 ∧
      (nearestBars.swing.compute outsideBar).lastLow 2 = some 0 ∧
      (nearestBars.swing.compute outsideBar).legDirection 2 = some 0 ∧
      (nearestBars.compute outsideBar).dir 2 = none ∧
      ¬ WellFormedLeg (nearestBars.swing.compute outsideBar) (nearestBars.compute outsideBar) 2) ∧
    (nearestBars.swing.compute equalLows).lastHigh 6 = some 19 ∧
      (nearestBars.swing.compute equalLows).lastLow 6 = some 20 ∧
      (nearestBars.swing.compute equalLows).legDirection 6 = some 1 ∧
      (nearestBars.compute equalLows).dir 6 = some (-1) ∧
      ¬ WellFormedLeg (nearestBars.swing.compute equalLows) (nearestBars.compute equalLows) 6 := by
  refine ⟨⟨by decide, by decide, by decide, by decide, ?_⟩,
    by decide +kernel, by decide +kernel, by decide +kernel, by decide +kernel, ?_⟩
  · rintro ⟨s, a, b, -, -, hdir, -⟩
    have hnone : (nearestBars.compute outsideBar).dir 2 = none := by decide
    rw [hnone] at hdir
    cases hdir
  · rintro ⟨s, a, b, -, hleg, hdir, -⟩
    have hup : (nearestBars.swing.compute equalLows).legDirection 6 = some 1 := by decide
    have hdown : (nearestBars.compute equalLows).dir 6 = some (-1) := by decide +kernel
    rw [hup, Option.some.injEq] at hleg
    rw [hdown, ← hleg] at hdir
    exact absurd hdir (by decide)

end Fiboki
