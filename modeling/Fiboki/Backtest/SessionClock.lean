import Fiboki.Backtest.Locks
import Fiboki.Lib.Run
import Fiboki.Lib.RunningSums

/-!
The session clock with its tables: the prefix of one week, and the running sums over weeks
that every caller in the process shares and extends.
-/

namespace Fiboki

namespace SessionClock

open RunningSums

inductive ClockError where
  | notTiling (slotMinutes : ℕ)
  | beforeAnchor

/-- `FxSessionCalendar` with its zone, or `ContinuousSessionCalendar`. -/
structure SessionCalendar where
  tz : String
  closure : WeekCalendar

abbrev CalendarKey := String × WeekCalendar

def SessionCalendar.key (calendar : SessionCalendar) : CalendarKey :=
  match calendar.closure with
  | .continuous => ("continuous", .continuous)
  | closure => (calendar.tz, closure)

variable (zones : String → Zone)

/-- `_week_closure`, by its key. -/
def keyClosure (key : CalendarKey) (week : ℕ) : List (ℤ × ℤ) := weekClosure (zones key.1) key.2 week

def template (closures : List (ℤ × ℤ)) (slotMinutes : ℕ) : List ℕ × ℕ :=
  let slots := weekMinutes / slotMinutes
  let prefix_ := (push fun k => if isOpen closures slotMinutes k then 1 else 0)^[slots] [0]
  (prefix_, prefix_.getLastD 0)

abbrev Cumulative := CalendarKey × ℕ → List ℕ

/-- No list is there yet: `setdefault` starts each at `[0]`. -/
def Cumulative.empty : Cumulative := fun _ => [0]

def openSlotsBefore (calendar : SessionCalendar) (slotMinutes week : ℕ) (cache : Cumulative) :
    ℕ × Cumulative :=
  let key := calendar.key
  let sums := extend (fun w => (template (keyClosure zones key w) slotMinutes).2) week (week + 1)
    (cache (key, slotMinutes))
  (sums.getD week 0, Function.update cache (key, slotMinutes) sums)

def slotOf (slotMinutes : ℕ) (ts : Timestamp) : ℤ := (ts - lockAnchor) / minuteNs / slotMinutes

/-- `SessionBarClock.index`, and the sums it leaves behind. -/
def index (calendar : SessionCalendar) (slotMinutes : ℕ) (ts : Timestamp) (cache : Cumulative) :
    Except ClockError ℤ × Cumulative :=
  let slot := slotOf slotMinutes ts
  if weekMinutes % slotMinutes ≠ 0 then (.error (.notTiling slotMinutes), cache)
  else
    let week := slot / (weekMinutes / slotMinutes : ℕ)
    let r := slot % (weekMinutes / slotMinutes : ℕ)
    let prefix_ := (template (keyClosure zones calendar.key week.toNat) slotMinutes).1
    if week < 0 then (.error .beforeAnchor, cache)
    else
      let (before, cache) := openSlotsBefore zones calendar slotMinutes week.toNat cache
      (.ok (before + prefix_.getD (r.toNat + 1) 0 - 1), cache)

/-- One call of `index`. -/
structure Query where
  calendar : SessionCalendar
  slotMinutes : ℕ
  ts : Timestamp

def cached (queries : List Query) : Cumulative :=
  Runs.exec (fun cache (q : Query) => (index zones q.calendar q.slotMinutes q.ts cache).2) .empty
    queries

variable {zones}

variable (closures : List (ℤ × ℤ))

theorem template_eq (slotMinutes : ℕ) : template closures slotMinutes =
      (table (fun k => if isOpen closures slotMinutes k then 1 else 0) (weekMinutes / slotMinutes),
        openPrefix closures slotMinutes (weekMinutes / slotMinutes)) := by
  simp only [template, iterate_push, getLastD_table]
  rw [total_indicator (fun k => isOpen closures slotMinutes k = true), openPrefix]

def openPerWeek (zones : String → Zone) (key : CalendarKey) (slotMinutes week : ℕ) : ℕ :=
  openPrefix (keyClosure zones key week) slotMinutes (weekMinutes / slotMinutes)

def Cumulative.Valid (zones : String → Zone) (cache : Cumulative) : Prop :=
  ∀ key slotMinutes, ∃ n, cache (key, slotMinutes) = table (openPerWeek zones key slotMinutes) n

theorem Cumulative.valid_empty : Cumulative.empty.Valid zones := fun _ _ => ⟨0, rfl⟩

variable {cache : Cumulative}

theorem openSlotsBefore_spec (h : cache.Valid zones) (calendar : SessionCalendar)
    (slotMinutes week : ℕ) :
    (openSlotsBefore zones calendar slotMinutes week cache).1 =
        total (openPerWeek zones calendar.key slotMinutes) week ∧
      (openSlotsBefore zones calendar slotMinutes week cache).2.Valid zones := by
  obtain ⟨n, hn⟩ := h calendar.key slotMinutes
  have hsums : extend (fun w => (template (keyClosure zones calendar.key w) slotMinutes).2) week
      (week + 1) (cache (calendar.key, slotMinutes)) =
        table (openPerWeek zones calendar.key slotMinutes) (max n week) := by
    simp only [template_eq, hn]
    exact extend_table _ n week (week + 1) (by omega)
  simp only [openSlotsBefore, hsums]
  refine ⟨getD_table _ (le_max_right n week), fun key m => ?_⟩
  by_cases hkey : (key, m) = (calendar.key, slotMinutes)
  · obtain ⟨rfl, rfl⟩ := Prod.mk.inj hkey
    exact ⟨max n week, Function.update_self _ _ _⟩
  · rw [Function.update_of_ne hkey]
    exact h key m

/-- Slot `g` is in session by its week's closure. -/
def openSlot (zones : String → Zone) (calendar : SessionCalendar) (slotMinutes g : ℕ) : Prop :=
  isOpen (keyClosure zones calendar.key (g / (weekMinutes / slotMinutes))) slotMinutes
    (g % (weekMinutes / slotMinutes)) = true

instance (calendar : SessionCalendar) (slotMinutes : ℕ) :
    DecidablePred (openSlot zones calendar slotMinutes) := fun _ =>
  inferInstanceAs (Decidable (_ = true))

variable {calendar : SessionCalendar} {slotMinutes : ℕ} {ts : Timestamp}

theorem perWeek_pos (h : slotMinutes ∣ weekMinutes) : 0 < weekMinutes / slotMinutes :=
  Nat.div_pos (Nat.le_of_dvd (by decide) h) (Nat.pos_of_dvd_of_pos h (by decide))

theorem slotOf_nonneg (slotMinutes : ℕ) (h : lockAnchor ≤ ts) : 0 ≤ slotOf slotMinutes ts :=
  Int.ediv_nonneg (Int.ediv_nonneg (sub_nonneg.2 h) (by decide)) (Int.natCast_nonneg _)

theorem slotOf_mono (slotMinutes : ℕ) {t₁ t₂ : Timestamp} (h : t₁ ≤ t₂) :
    slotOf slotMinutes t₁ ≤ slotOf slotMinutes t₂ := by
  rcases Nat.eq_zero_or_pos slotMinutes with rfl | hpos
  · simp [slotOf]
  · have hns : (0 : ℤ) < minuteNs := by decide
    exact Int.ediv_le_ediv (by exact_mod_cast hpos)
      (Int.ediv_le_ediv hns (Int.sub_le_sub_right h _))

theorem index_keeps (h : cache.Valid zones) (calendar : SessionCalendar) (slotMinutes : ℕ)
    (ts : Timestamp) : (index zones calendar slotMinutes ts cache).2.Valid zones := by
  simp only [index]
  split_ifs
  · exact h
  · exact h
  · exact (openSlotsBefore_spec h calendar slotMinutes _).2

theorem cached_valid (zones : String → Zone) (queries : List Query) :
    (cached zones queries).Valid zones :=
  Runs.exec_invariant (I := Cumulative.Valid zones)
    (fun _ q h => index_keeps h q.calendar q.slotMinutes q.ts) Cumulative.valid_empty queries

theorem index_congr {cache cache' : Cumulative} (h : cache.Valid zones) (h' : cache'.Valid zones)
    (calendar : SessionCalendar) (slotMinutes : ℕ) (ts : Timestamp) :
    (index zones calendar slotMinutes ts cache).1 =
      (index zones calendar slotMinutes ts cache').1 := by
  simp only [index]
  split_ifs
  · rfl
  · rfl
  · rw [(openSlotsBefore_spec h calendar slotMinutes _).1,
      (openSlotsBefore_spec h' calendar slotMinutes _).1]

theorem index_ok (h : cache.Valid zones) (hm : slotMinutes ∣ weekMinutes) (hts : lockAnchor ≤ ts) :
    (index zones calendar slotMinutes ts cache).1 =
      .ok (Nat.count (openSlot zones calendar slotMinutes)
        ((slotOf slotMinutes ts).toNat + 1) - 1) := by
  obtain ⟨g, hg⟩ := Int.eq_ofNat_of_zero_le (slotOf_nonneg slotMinutes hts)
  have hpos := perWeek_pos hm
  have htile : ¬ weekMinutes % slotMinutes ≠ 0 := not_not.2 (Nat.mod_eq_zero_of_dvd hm)
  have hweek : ((g : ℤ) / (weekMinutes / slotMinutes : ℕ)).toNat =
    g / (weekMinutes / slotMinutes) := by
    rw [← Int.natCast_div, Int.toNat_natCast]
  have hr : ((g : ℤ) % (weekMinutes / slotMinutes : ℕ)).toNat =
    g % (weekMinutes / slotMinutes) := by
    rw [← Int.natCast_mod, Int.toNat_natCast]
  have hneg : ¬ (g : ℤ) / (weekMinutes / slotMinutes : ℕ) < 0 :=
    not_lt.2 (Int.ediv_nonneg (Int.natCast_nonneg _) (Int.natCast_nonneg _))
  have hk : g % (weekMinutes / slotMinutes) + 1 ≤ weekMinutes / slotMinutes := Nat.mod_lt _ hpos
  have hslot : g + 1 = g / (weekMinutes / slotMinutes) * (weekMinutes / slotMinutes) +
      (g % (weekMinutes / slotMinutes) + 1) := by
    rw [← Nat.add_assoc, Nat.div_add_mod']
  have hcount : Nat.count (openSlot zones calendar slotMinutes) (g + 1) =
      total (openPerWeek zones calendar.key slotMinutes) (g / (weekMinutes / slotMinutes)) +
        openPrefix (keyClosure zones calendar.key (g / (weekMinutes / slotMinutes))) slotMinutes
          (g % (weekMinutes / slotMinutes) + 1) := by
    rw [hslot]
    exact count_blocks (fun w k => isOpen (keyClosure zones calendar.key w) slotMinutes k = true)
      _ hk
  simp only [index, hg, if_neg htile, if_neg hneg, hweek, hr, template_eq,
    (openSlotsBefore_spec h calendar slotMinutes _).1]
  rw [getD_table _ hk, total_indicator (fun k => isOpen _ slotMinutes k = true), Int.toNat_natCast,
    hcount, Nat.cast_add]
  rfl

def Closed (zones : String → Zone) (calendar : SessionCalendar) (minute : ℤ) : Prop :=
  ∃ week : ℕ, ∃ c ∈ weekClosure (zones calendar.tz) calendar.closure week,
    weekMinutes * week + c.1 ≤ minute ∧ minute < weekMinutes * week + c.2

open Classical in
noncomputable def InSession (zones : String → Zone) (calendar : SessionCalendar)
    (slotMinutes : ℕ) (slot : ℤ) : Prop :=
  slotMinutes ≤
    2 * Nat.count (fun i => ¬ Closed zones calendar (slotMinutes * slot + i)) slotMinutes

def WithinWeeks (zones : String → Zone) (calendar : SessionCalendar) : Prop :=
  ∀ week, ∀ c ∈ weekClosure (zones calendar.tz) calendar.closure week, 0 ≤ c.1 ∧ c.2 ≤ weekMinutes

theorem keyClosure_key (calendar : SessionCalendar) (week : ℕ) :
    keyClosure zones calendar.key week = weekClosure (zones calendar.tz) calendar.closure week := by
  obtain ⟨tz, closure⟩ := calendar
  cases closure <;> rfl

theorem count_outside (a start stop : ℤ) (n : ℕ) :
    (Nat.count (fun i : ℕ => ¬ (start ≤ a + i ∧ a + i < stop)) n : ℤ) =
      n - max 0 (min (a + n) stop - max a start) := by
  induction n with
  | zero =>
    rw [Nat.count_zero]
    omega
  | succ n ih =>
    rw [Nat.count_succ]
    split_ifs <;> push_cast <;> omega

theorem weekClosure_cases (zone : Zone) (closure : WeekCalendar) (week : ℕ) :
    weekClosure zone closure week = [] ∨ ∃ c, weekClosure zone closure week = [c] := by
  cases closure with
  | fx closeHour openHour => exact .inr ⟨_, rfl⟩
  | continuous => exact .inl rfl

theorem closed_iff (hweeks : WithinWeeks zones calendar) (week : ℕ) {minute : ℤ}
    (hlo : (weekMinutes * week : ℤ) ≤ minute) (hhi : minute < weekMinutes * week + weekMinutes) :
    Closed zones calendar minute ↔ ∃ c ∈ weekClosure (zones calendar.tz) calendar.closure week,
      weekMinutes * week + c.1 ≤ minute ∧ minute < weekMinutes * week + c.2 := by
  constructor
  · rintro ⟨week', c, hc, hstart, hstop⟩
    obtain ⟨hzero, hend⟩ := hweeks week' c hc
    have hle : week' ≤ week := by
      by_contra hlt
      have : (weekMinutes * (week + 1) : ℤ) ≤ weekMinutes * week' := by
        exact_mod_cast Nat.mul_le_mul_left weekMinutes (Nat.lt_of_not_le hlt)
      linarith
    have hge : week ≤ week' := by
      by_contra hlt
      have : (weekMinutes * (week' + 1) : ℤ) ≤ weekMinutes * week := by
        exact_mod_cast Nat.mul_le_mul_left weekMinutes (Nat.lt_of_not_le hlt)
      linarith
    obtain rfl := Nat.le_antisymm hle hge
    exact ⟨c, hc, hstart, hstop⟩
  · rintro ⟨c, hc, hbounds⟩
    exact ⟨week, c, hc, hbounds⟩

theorem isOpen_iff (hone : closures = [] ∨ ∃ c, closures = [c]) (slotMinutes k : ℕ) {q : ℕ → Prop}
    [DecidablePred q]
    (hq : ∀ i < slotMinutes, q i ↔
      ∃ c ∈ closures, c.1 ≤ (k * slotMinutes : ℤ) + i ∧ (k * slotMinutes : ℤ) + i < c.2) :
    isOpen closures slotMinutes k = true ↔
      slotMinutes ≤ 2 * Nat.count (fun i => ¬ q i) slotMinutes := by
  have hcount : (Nat.count (fun i => ¬ q i) slotMinutes : ℤ) = slotMinutes -
      (closures.map fun c => max 0 (min ((k + 1) * slotMinutes : ℤ) c.2 -
        max (k * slotMinutes : ℤ) c.1)).sum := by
    rcases hone with rfl | ⟨c, rfl⟩
    · rw [Nat.count_of_forall fun i hi => by simp [hq i hi]]
      simp
    · have hsame : Nat.count (fun i => ¬ q i) slotMinutes = Nat.count (fun i : ℕ =>
          ¬ (c.1 ≤ (k * slotMinutes : ℤ) + i ∧ (k * slotMinutes : ℤ) + i < c.2)) slotMinutes := by
        rw [Nat.count_eq_card_filter_range, Nat.count_eq_card_filter_range]
        congr 1
        apply Finset.filter_congr
        intro i hi
        simp [hq i (Finset.mem_range.1 hi)]
      rw [hsame, count_outside]
      simp [add_mul]
  rw [isOpen, decide_eq_true_iff, ← hcount]
  exact_mod_cast Iff.rfl

theorem inSession_iff (hweeks : WithinWeeks zones calendar) (hm : slotMinutes ∣ weekMinutes)
    (g : ℕ) : InSession zones calendar slotMinutes g ↔ openSlot zones calendar slotMinutes g := by
  obtain ⟨perWeek, hP⟩ := hm
  have hpos : 0 < slotMinutes := Nat.pos_of_mul_pos_right
    (hP ▸ by decide : 0 < slotMinutes * perWeek)
  have hdiv : weekMinutes / slotMinutes = perWeek := by
    rw [hP, Nat.mul_div_cancel_left _ hpos]
  have hk : g % perWeek < perWeek := Nat.mod_lt _ (by
    rcases Nat.eq_zero_or_pos perWeek with rfl | hpos
    · simp [weekMinutes] at hP
    · exact hpos)
  have hg : (slotMinutes * g : ℤ) = weekMinutes * (g / perWeek : ℕ) +
      (g % perWeek : ℕ) * slotMinutes := by
    have hsplit := Nat.div_add_mod g perWeek
    calc (slotMinutes * g : ℤ)
      _ = slotMinutes * (perWeek * (g / perWeek : ℕ) + (g % perWeek : ℕ)) := by
          rw [← Nat.cast_mul perWeek, ← Nat.cast_add, hsplit]
      _ = (slotMinutes * perWeek : ℕ) * (g / perWeek : ℕ) + (g % perWeek : ℕ) * slotMinutes := by
          push_cast
          ring
      _ = weekMinutes * (g / perWeek : ℕ) + (g % perWeek : ℕ) * slotMinutes := by rw [← hP]
  have hlast : ((g % perWeek : ℕ) * slotMinutes : ℤ) + slotMinutes ≤ weekMinutes := by
    have hle := Nat.mul_le_mul_right slotMinutes (Nat.succ_le_of_lt hk)
    rw [Nat.mul_comm perWeek, ← hP, Nat.succ_mul] at hle
    exact_mod_cast hle
  have hfirst : (0 : ℤ) ≤ (g % perWeek : ℕ) * slotMinutes := by positivity
  rw [openSlot, hdiv, keyClosure_key, InSession]
  classical
  symm
  apply isOpen_iff _ (weekClosure_cases _ _ _)
  intro i hi
  rw [closed_iff hweeks (g / perWeek) (by omega) (by omega), hg]
  simp only [add_assoc, add_le_add_iff_left, add_lt_add_iff_left]

open Classical in
/-- The session clock is an ordinal of sessions: whatever was asked before, between two instants
it advances by the slots in session after the first one's slot up to the second one's. -/
theorem session_clock (zones : String → Zone) (calendar : SessionCalendar)
    (hweeks : WithinWeeks zones calendar) (slotMinutes : ℕ) (hm : slotMinutes ∣ weekMinutes) :
    (∀ (queries : List Query) (ts : Timestamp),
      (index zones calendar slotMinutes ts (cached zones queries)).1 =
        (index zones calendar slotMinutes ts .empty).1) ∧
    ∀ (queries queries' : List Query) (t₁ t₂ : Timestamp), lockAnchor ≤ t₁ → t₁ ≤ t₂ →
      ∃ i₁ i₂ : ℤ, (index zones calendar slotMinutes t₁ (cached zones queries)).1 = .ok i₁ ∧
        (index zones calendar slotMinutes t₂ (cached zones queries')).1 = .ok i₂ ∧
        i₂ - i₁ = ((Finset.Ioc (slotOf slotMinutes t₁) (slotOf slotMinutes t₂)).filter
          (InSession zones calendar slotMinutes)).card ∧
        i₁ ≤ i₂ ∧ (slotOf slotMinutes t₁ = slotOf slotMinutes t₂ → i₁ = i₂) ∧
        i₂ - i₁ ≤ slotOf slotMinutes t₂ - slotOf slotMinutes t₁ := by
  refine ⟨fun queries ts =>
    index_congr (cached_valid zones queries) Cumulative.valid_empty calendar slotMinutes ts, ?_⟩
  intro queries queries' t₁ t₂ hanchor hle
  refine ⟨_, _, index_ok (cached_valid zones queries) hm hanchor,
    index_ok (cached_valid zones queries') hm (hanchor.trans hle), ?_⟩
  have hslots := slotOf_mono slotMinutes hle
  obtain ⟨a, ha⟩ := Int.eq_ofNat_of_zero_le (slotOf_nonneg slotMinutes hanchor)
  obtain ⟨b, hb⟩ := Int.eq_ofNat_of_zero_le
    (slotOf_nonneg slotMinutes (hanchor.trans hle))
  rw [ha, hb] at hslots ⊢
  have hcount := count_Ioc (openSlot zones calendar slotMinutes) (inSession_iff hweeks hm)
    (Int.ofNat_le.1 hslots)
  have hcard := Finset.card_filter_le (Finset.Ioc (a : ℤ) b) (InSession zones calendar slotMinutes)
  rw [Int.card_Ioc] at hcard
  rw [Int.toNat_natCast, Int.toNat_natCast, hcount]
  refine ⟨by push_cast; ring, by push_cast; linarith, fun hab => ?_, by omega⟩
  obtain rfl := Int.ofNat_inj.1 hab
  simp

def winter : Zone := fun day hour => day * 24 * 60 + hour * 60 + 300

def interbank : SessionCalendar := ⟨"America/New_York", .fx 17 17⟩

/-- From a Friday to the Monday after it the four-hour clock runs forward, a slot at a time. -/
theorem session_clock_weekend : ∃ i₁ i₂ : ℤ,
    (index (fun _ => winter) interbank 240 (lockAnchor + 4 * dayNs) .empty).1 = .ok i₁ ∧
      (index (fun _ => winter) interbank 240 (lockAnchor + 7 * dayNs) .empty).1 = .ok i₂ ∧
        i₁ ≤ i₂ ∧ i₂ - i₁ ≤ 18 := by
  have hweeks : WithinWeeks (fun _ => winter) interbank := by
    intro week c hc
    obtain rfl := List.mem_singleton.1 hc
    simp only [winter, weekMinutes]
    omega
  obtain ⟨i₁, i₂, h₁, h₂, -, hle, -, hsteps⟩ := (session_clock (fun _ => winter) interbank hweeks
    240 (by decide)).2 [] [] (lockAnchor + 4 * dayNs) (lockAnchor + 7 * dayNs) (by decide)
    (by decide)
  exact ⟨i₁, i₂, h₁, h₂, hle, hsteps⟩

end SessionClock

theorem Timeframe.minutes_dvd (tf : Timeframe) : tf.minutes ∣ weekMinutes := by
  cases tf <;> decide

open SessionClock RunningSums in
/-- The clock that locks are counted on, read off the tables every caller shares. -/
theorem SessionBarClock.index_eq_cached {env : Sessions} {clock : SessionBarClock}
    {calendar : WeekCalendar} (hcalendar : sessionClosures clock.tradingHours = some calendar)
    {ts : Timestamp} (hts : lockAnchor ≤ ts) (tz : String) (queries : List Query) :
    ∃ i, clock.index env ts = .ok i ∧
      (SessionClock.index (fun _ => env.zone) ⟨tz, calendar⟩ clock.timeframe.minutes ts
        (cached (fun _ => env.zone) queries)).1 = .ok i := by
  have hpos : 0 < clock.perWeek := SessionClock.perWeek_pos clock.timeframe.minutes_dvd
  have hperWeek : weekMinutes / clock.timeframe.minutes = clock.perWeek := rfl
  have hslot : 0 ≤ clock.slot ts := slotOf_nonneg clock.timeframe.minutes hts
  have hneg : ¬ clock.slot ts / clock.perWeek < 0 :=
    not_lt.2 (Int.ediv_nonneg hslot (Int.natCast_nonneg _))
  have htile : ¬ weekMinutes % clock.timeframe.minutes ≠ 0 :=
    not_not.2 (Nat.mod_eq_zero_of_dvd clock.timeframe.minutes_dvd)
  have hr : (clock.slot ts % clock.perWeek).toNat + 1 ≤ clock.perWeek := by
    have hlt := Int.emod_lt_of_pos (clock.slot ts) (Int.natCast_pos.2 hpos)
    omega
  simp only [SessionBarClock.index, hcalendar, if_neg hneg]
  refine ⟨_, rfl, ?_⟩
  have hslotOf : slotOf clock.timeframe.minutes ts = clock.slot ts := rfl
  simp only [SessionClock.index, hslotOf, if_neg htile, hperWeek, template_eq,
    (openSlotsBefore_spec (cached_valid _ queries) ⟨tz, calendar⟩ clock.timeframe.minutes _).1]
  rw [if_neg hneg, getD_table _ hr, total_indicator (fun k => isOpen _ _ k = true)]
  have hweeks : openPerWeek (fun _ => env.zone) (SessionCalendar.key ⟨tz, calendar⟩)
      clock.timeframe.minutes = fun week => openPrefix (weekClosure env.zone calendar week)
        clock.timeframe.minutes clock.perWeek := by
    funext week
    rw [openPerWeek, keyClosure_key, hperWeek]
  rw [hweeks, keyClosure_key]
  rfl

theorem SessionClock.unlisted (s : String) (h : (none : Option String).isSome) :
    s ≠ "" ∧ s ≠ "*" := by
  simp at h

def SessionClock.winterSessions : Sessions := ⟨winter, fun _ => none, unlisted⟩

open SessionClock in
theorem SessionBarClock.index_after_query : ∃ i,
    (⟨"fx_24_5", .H1⟩ : SessionBarClock).index winterSessions (lockAnchor + 8 * dayNs) = .ok i ∧
      (SessionClock.index (fun _ => winter) interbank 60 (lockAnchor + 8 * dayNs)
        (cached (fun _ => winter) [⟨interbank, 60, lockAnchor + 30 * dayNs⟩])).1 = .ok i := by
  have later : lockAnchor ≤ lockAnchor + 8 * dayNs := by decide
  exact SessionBarClock.index_eq_cached rfl later _ _

end Fiboki
