import Fiboki.Backtest.Locks
import Fiboki.Lib.Run
import Fiboki.Lib.RunningSums

/-!
The table of latest locks against the history of all of them: which closes let a
lock be overwritten while it still refuses a bar, and that no others lose one.
-/

namespace Fiboki

open Text

variable {env : Sessions}

namespace SessionBarClock

theorem minutes_pos (tf : Timeframe) : 0 < tf.minutes := by cases tf <;> decide

theorem perWeek_pos (clock : SessionBarClock) : 0 < clock.perWeek := by
  obtain ⟨hours, tf⟩ := clock
  cases tf <;> simp [perWeek, weekMinutes, Timeframe.minutes]

/-- Slot `g` of the calendar, counted from the anchor, is in session. -/
def openSlot (env : Sessions) (calendar : WeekCalendar) (clock : SessionBarClock) (g : ℕ) : Prop :=
  isOpen (weekClosure env.zone calendar (g / clock.perWeek)) clock.timeframe.minutes
    (g % clock.perWeek) = true

instance (calendar : WeekCalendar) (clock : SessionBarClock) :
    DecidablePred (openSlot env calendar clock) := fun _ =>
  inferInstanceAs (Decidable (_ = true))

variable (calendar : WeekCalendar)

theorem count_week (clock : SessionBarClock) (week : ℕ) {k : ℕ} (hk : k ≤ clock.perWeek) :
    Nat.count (openSlot env calendar clock) (week * clock.perWeek + k) =
      Nat.count (openSlot env calendar clock) (week * clock.perWeek) +
        openPrefix (weekClosure env.zone calendar week) clock.timeframe.minutes k := by
  exact RunningSums.count_block
    (fun w j => isOpen (weekClosure env.zone calendar w) clock.timeframe.minutes j = true) week hk

theorem count_weeks (clock : SessionBarClock) (week : ℕ) :
    Nat.count (openSlot env calendar clock) (week * clock.perWeek) =
      openSlotsBefore env.zone calendar clock.timeframe.minutes week := by
  exact RunningSums.count_blocks
    (fun w j => isOpen (weekClosure env.zone calendar w) clock.timeframe.minutes j = true) week
    (Nat.zero_le clock.perWeek)

variable {clock : SessionBarClock}

theorem index_eq_ok {ts : Timestamp} {idx : ℤ} (h : clock.index env ts = .ok idx) :
    0 ≤ clock.slot ts ∧ ∃ calendar, sessionClosures clock.tradingHours = some calendar ∧
      idx = Nat.count (openSlot env calendar clock) ((clock.slot ts).toNat + 1) - 1 := by
  simp only [index] at h
  cases hcal : sessionClosures clock.tradingHours with
  | none => simp [hcal] at h
  | some calendar =>
    simp only [hcal] at h
    split_ifs at h with hweek
    have hpos : (0 : ℤ) < clock.perWeek := by exact_mod_cast clock.perWeek_pos
    have hslot : 0 ≤ clock.slot ts := by
      by_contra hneg
      exact hweek (Int.ediv_neg_of_neg_of_pos (not_le.1 hneg) hpos)
    refine ⟨hslot, calendar, rfl, ?_⟩
    obtain ⟨g, hg⟩ := Int.eq_ofNat_of_zero_le hslot
    rw [hg] at h ⊢
    have hk : g % clock.perWeek + 1 ≤ clock.perWeek := Nat.mod_lt _ clock.perWeek_pos
    have hsum : g + 1 = g / clock.perWeek * clock.perWeek + (g % clock.perWeek + 1) := by
      have := Nat.div_add_mod' g clock.perWeek
      omega
    have hq : ((g : ℤ) / (clock.perWeek : ℤ)).toNat = g / clock.perWeek := by
      rw [← Int.natCast_div, Int.toNat_natCast]
    have hr : ((g : ℤ) % (clock.perWeek : ℤ)).toNat = g % clock.perWeek := by
      rw [← Int.natCast_mod, Int.toNat_natCast]
    rw [Int.toNat_natCast, hsum, count_week calendar clock _ hk, count_weeks]
    simpa [hq, hr] using (Except.ok.inj h).symm

variable {t₁ t₂ : Timestamp}

theorem slot_mono (clock : SessionBarClock) (h : t₁ ≤ t₂) : clock.slot t₁ ≤ clock.slot t₂ := by
  have hmin : (0 : ℤ) < clock.timeframe.minutes := by exact_mod_cast minutes_pos clock.timeframe
  have hns : (0 : ℤ) < minuteNs := by decide
  exact Int.ediv_le_ediv hmin (Int.ediv_le_ediv hns (Int.sub_le_sub_right h _))

theorem index_mono {i₁ i₂ : ℤ} (h : t₁ ≤ t₂) (h₁ : clock.index env t₁ = .ok i₁)
    (h₂ : clock.index env t₂ = .ok i₂) : i₁ ≤ i₂ := by
  obtain ⟨_, calendar, hcal, rfl⟩ := index_eq_ok h₁
  obtain ⟨_, calendar', hcal', rfl⟩ := index_eq_ok h₂
  obtain rfl : calendar = calendar' := Option.some.inj (hcal.symm.trans hcal')
  have hslot : (clock.slot t₁).toNat + 1 ≤ (clock.slot t₂).toNat + 1 :=
    Nat.add_le_add_right (Int.toNat_le_toNat (clock.slot_mono h)) 1
  have := Nat.count_monotone (openSlot env calendar clock) hslot
  omega

theorem index_defined {i₁ : ℤ} (h : t₁ ≤ t₂)
    (h₁ : clock.index env t₁ = .ok i₁) : ∃ i₂, clock.index env t₂ = .ok i₂ := by
  obtain ⟨hslot, calendar, hcal, -⟩ := index_eq_ok h₁
  have hpos : (0 : ℤ) < clock.perWeek := by exact_mod_cast clock.perWeek_pos
  have hweek : ¬ clock.slot t₂ / clock.perWeek < 0 :=
    not_lt.2 (Int.ediv_nonneg (hslot.trans (clock.slot_mono h)) hpos.le)
  simp only [index, hcal, if_neg hweek]
  exact ⟨_, rfl⟩

end SessionBarClock

namespace LockReason

def lockLength (rule : String) (reg : LockRegistration) : ℤ :=
  if rule = "cooldown" then reg.policy.cooldownBarsAfterClose
  else (reg.policy.stopStreak.map StopStreakRule.lockBars).getD 0

/-- How `on_close` makes a lock, under the registrations `regFor`. -/
structure Made (env : Sessions) (regFor : String → Option LockRegistration)
    (lock : LockReason) : Prop where
  index : lock.clock.index env lock.armedAt = .ok lock.armedIndex
  own : lock.scope = .instrument → ∃ instrument reg,
    lock.instrument = some instrument ∧ instrument ≠ "" ∧ instrument ≠ "*" ∧
    regFor lock.strategyId = some reg ∧
    SessionBarClock.forInstrument env instrument reg.timeframe = .ok lock.clock ∧
    lock.untilIndex = lock.armedIndex + lockLength lock.rule reg - 1

variable {bar : Timestamp}

theorem covers_eq_ok {lock : LockReason} : lock.covers env bar = .ok true ↔
      ∃ idx, lock.clock.index env bar = .ok idx ∧ lock.armedIndex ≤ idx ∧
        idx ≤ lock.untilIndex := by
  simp only [covers]
  cases lock.clock.index env bar <;> simp

theorem covers_defined {lock : LockReason}
    (hIndex : lock.clock.index env lock.armedAt = .ok lock.armedIndex)
    (hbar : lock.armedAt ≤ bar) : ∃ r, lock.covers env bar = .ok r := by
  obtain ⟨idx, hidx⟩ := SessionBarClock.index_defined hbar hIndex
  exact ⟨_, by rw [covers, hidx]⟩

variable {regFor : String → Option LockRegistration} {lock held : LockReason}

theorem key_eq (h : held.key = lock.key) (hHeld : held.Made env regFor)
    (hLock : lock.Made env regFor) :
    held.scope = lock.scope ∧ held.rule = lock.rule ∧
      (lock.scope ≠ .global → held.strategyId = lock.strategyId) ∧
      (lock.scope = .instrument → held.instrument = lock.instrument) := by
  have hrule : held.rule = lock.rule := by
    cases hs : held.scope <;> cases hs' : lock.scope <;>
      simp_all [key, LockScope.value]
  have hscope : held.scope = lock.scope := by
    cases hs : held.scope <;> cases hs' : lock.scope <;>
      simp_all [key, LockScope.value]
  refine ⟨hscope, hrule, fun hne => ?_, fun hi => ?_⟩
  · cases hs : lock.scope <;> simp_all [key]
  · obtain ⟨i, _, hi₁, hne₁, _⟩ := hHeld.own (hscope.trans hi)
    obtain ⟨j, _, hj₁, hne₂, _⟩ := hLock.own hi
    simp only [key, hscope, hi, hi₁, hj₁, toLex_inj, Prod.mk.injEq] at h
    simpa [hi₁, hj₁, pyOr, truthy_some.2 hne₁, truthy_some.2 hne₂] using h.2.2.2

theorem appliesTo_eq_of_key (h : held.key = lock.key) (hHeld : held.Made env regFor)
    (hLock : lock.Made env regFor) (instrument strategyId : String) :
    held.appliesTo instrument strategyId = lock.appliesTo instrument strategyId := by
  obtain ⟨hscope, -, hstrategy, hinstrument⟩ := key_eq h hHeld hLock
  cases hs : lock.scope <;> simp_all [appliesTo]

theorem covers_of_instrument (hKey : held.key = lock.key) (hHeld : held.Made env regFor)
    (hLock : lock.Made env regFor) (hScope : lock.scope = .instrument)
    (hArmed : held.armedAt ≤ lock.armedAt) (hbar : lock.armedAt ≤ bar)
    (hCovers : held.covers env bar = .ok true) : lock.covers env bar = .ok true := by
  obtain ⟨hscope, hrule, hstrategy, hinstrument⟩ := key_eq hKey hHeld hLock
  obtain ⟨i, reg, hi, -, -, hreg, hclock, huntil⟩ := hHeld.own (hscope.trans hScope)
  obtain ⟨j, reg', hj, -, -, hreg', hclock', huntil'⟩ := hLock.own hScope
  obtain rfl : i = j := Option.some.inj (hi.symm.trans ((hinstrument hScope).trans hj))
  have hsame : regFor held.strategyId = regFor lock.strategyId := by
    rw [hstrategy (by simp [hScope])]
  obtain rfl : reg = reg' := Option.some.inj (hreg.symm.trans (hsame.trans hreg'))
  have hclocks : held.clock = lock.clock := Except.ok.inj (hclock.symm.trans hclock')
  obtain ⟨idx, hidx, -, hle⟩ := covers_eq_ok.1 hCovers
  rw [hclocks] at hidx
  have hindex := hHeld.index
  rw [hclocks] at hindex
  have hmono := SessionBarClock.index_mono hArmed hindex hLock.index
  have hafter := SessionBarClock.index_mono hbar hLock.index hidx
  rw [hrule] at huntil
  exact covers_eq_ok.2 ⟨idx, hidx, hafter, by omega⟩

end LockReason

namespace LockBook

open LockReason

theorem firstLock_spec (symbol strategyId : String) {bar : Timestamp}
    {entries : List (LockKey × LockReason)}
    (h : ∀ e ∈ entries, ∃ r, e.2.covers env bar = .ok r) :
    ∃ r, firstLock env symbol strategyId bar entries = .ok r ∧
      (r.isSome ↔ ∃ e ∈ entries, e.2.appliesTo symbol strategyId = true ∧
        e.2.covers env bar = .ok true) := by
  induction entries with
  | nil => exact ⟨none, rfl, by simp⟩
  | cons e rest ih =>
    obtain ⟨k, lock⟩ := e
    obtain ⟨r, hr, hiff⟩ := ih fun e he => h e (List.mem_cons_of_mem _ he)
    obtain ⟨c, hc⟩ := h (k, lock) (by simp)
    simp only at hc
    by_cases happ : lock.appliesTo symbol strategyId = true
    · cases c with
      | true => exact ⟨some lock, by simp [firstLock, happ, hc], by simp [happ, hc]⟩
      | false =>
        refine ⟨r, by simp [firstLock, happ, hc, hr], ?_⟩
        simp [hiff, hc]
    · refine ⟨r, by simp [firstLock, happ, hr], ?_⟩
      simp [hiff, happ]

theorem coolDown_cases (env : Sessions) (b : LockBook) (closed : ClosedTrade) :
    (b.coolDown env closed).2 = b ∨
      ∃ own clock idx, b.registrationFor closed.strategyId = some own ∧
        SessionBarClock.forInstrument env closed.instrument own.timeframe = .ok clock ∧
        clock.index env closed.exitTime = .ok idx ∧
        (b.coolDown env closed).2 = b.arm (cooldownLock clock own.policy closed idx) := by
  simp only [coolDown]
  split
  · exact .inl rfl
  · rename_i own hown
    split_ifs
    · exact .inl rfl
    · split
      · exact .inl rfl
      · rename_i clock hclock
        split
        · exact .inl rfl
        · rename_i idx hidx
          exact .inr ⟨own, clock, idx, hown, hclock, hidx, rfl⟩

theorem evaluateStreak_cases (env : Sessions) (b : LockBook) (declarer : String)
    (reg : LockRegistration) (closed : ClosedTrade) :
    (b.evaluateStreak env declarer reg closed).2 = b ∨
      ∃ rule clock now n, reg.policy.stopStreak = some rule ∧
        SessionBarClock.forInstrument env closed.instrument reg.timeframe = .ok clock ∧
        clock.index env closed.exitTime = .ok now ∧
        b.streakCount env clock rule declarer closed.instrument now = .ok n ∧
        rule.nStops ≤ n ∧
        (b.evaluateStreak env declarer reg closed).2 =
          (b.consume (consumeKey rule.scope declarer closed.instrument)).arm
            (streakLock clock rule declarer closed now) := by
  simp only [evaluateStreak]
  split
  · exact .inl rfl
  · rename_i rule hrule
    split
    · exact .inl rfl
    · rename_i clock hclock
      split
      · exact .inl rfl
      · rename_i now hnow
        split
        · exact .inl rfl
        · rename_i n hn
          split_ifs with hlt
          · exact .inl rfl
          · exact .inr ⟨rule, clock, now, n, hrule, hclock, hnow, hn, not_lt.1 hlt, rfl⟩

theorem get_setdefault {reg v : LockRegistration} {sid : String} (seen : List String)
    (d : Dict String LockRegistration)
    (h : (seen.foldl (fun d sid => if (d.get sid).isSome then d else d.set sid reg) d).get sid
      = some v) : d.get sid = some v ∨ d.get sid = none ∧ v = reg := by
  induction seen generalizing d with
  | nil => exact .inl h
  | cons s seen ih =>
    rw [List.foldl_cons] at h
    split_ifs at h with hs
    · exact ih d h
    · rcases ih _ h with h | ⟨h, hv⟩
      · rw [Dict.get_set] at h
        split_ifs at h with hsid
        · exact .inr ⟨hsid ▸ (by simpa using hs), (Option.some.inj h).symm⟩
        · exact .inl h
      · rw [Dict.get_set] at h
        split_ifs at h with hsid
        exact .inr ⟨h, hv⟩

variable {d : String × LockRegistration}

theorem registrationFor_of_declarer {b : LockBook} {closed : ClosedTrade}
    (h : d ∈ b.streakDeclarers closed) : b.registrationFor d.1 = some d.2 := by
  have hmem := (List.mem_filter.1 h).1
  cases hdef : b.default with
  | none =>
    rw [hdef] at hmem
    rw [registrationFor, Dict.mem_entries.1 hmem]
  | some reg =>
    rw [hdef] at hmem
    rcases get_setdefault b.seen b.registrations (Dict.mem_entries.1 hmem) with h | ⟨h, hv⟩
    · rw [registrationFor, h]
    · rw [registrationFor, h, hdef, hv]

/-- At time `t`, every lock of the history that still refuses a bar is held, or
is one that a lock held under its key stands for. -/
structure Table (env : Sessions) (regFor : String → Option LockRegistration) (b : LockBook)
    (t : Timestamp) : Prop where
  registered : b.registrationFor = regFor
  made : ∀ lock ∈ b.history, lock.Made env regFor ∧ lock.armedAt ≤ t
  held : ∀ k lock, b.active.get k = some lock → lock ∈ b.history ∧ lock.key = k
  kept : ∀ lock ∈ b.history, ∀ bar, t ≤ bar → lock.covers env bar = .ok true →
    ∃ held, b.active.get lock.key = some held ∧ held.covers env bar = .ok true

variable {regFor : String → Option LockRegistration} {b b' : LockBook} {t t' : Timestamp}

theorem Table.later (h : Table env regFor b t) (ht : t ≤ t') : Table env regFor b t' where
  registered := h.registered
  made lock hl := ⟨(h.made lock hl).1, (h.made lock hl).2.trans ht⟩
  held := h.held
  kept lock hl bar hbar := h.kept lock hl bar (ht.trans hbar)

theorem Table.congr (h : Table env regFor b t) (hreg : b'.registrations = b.registrations)
    (hdef : b'.default = b.default) (hhist : b'.history = b.history)
    (hact : b'.active = b.active) : Table env regFor b' t where
  registered := by
    rw [← h.registered]
    funext sid
    simp only [registrationFor, hreg, hdef]
  made := hhist ▸ h.made
  held := by rw [hhist, hact]; exact h.held
  kept := by rw [hhist, hact]; exact h.kept

theorem Table.fresh (env : Sessions) (registrations : Dict String LockRegistration)
    (default : Option LockRegistration) (t : Timestamp) :
    Table env (fresh registrations default).registrationFor (fresh registrations default) t where
  registered := rfl
  made lock hl := by cases hl
  held k lock hk := by cases hk
  kept lock hl := by cases hl

theorem Table.noteClose (h : Table env regFor b t) (closed : ClosedTrade) :
    Table env regFor (b.noteClose closed) t :=
  h.congr rfl rfl rfl rfl

theorem Table.noteStop (h : Table env regFor b t) (closed : ClosedTrade) :
    Table env regFor (b.noteStop closed) t :=
  h.congr rfl rfl rfl rfl

variable {lock : LockReason}

theorem Table.arm (h : Table env regFor b t) (hMade : lock.Made env regFor)
    (hAt : lock.armedAt = t)
    (hOut : ∀ held, b.active.get lock.key = some held → ∀ bar, t ≤ bar →
      held.covers env bar = .ok true → lock.covers env bar = .ok true) :
    Table env regFor (b.arm lock) t where
  registered := h.registered
  made l hl := by
    rcases List.mem_append.1 hl with hl | hl
    · exact h.made l hl
    · rw [List.mem_singleton.1 hl]
      exact ⟨hMade, hAt.le⟩
  held k l hk := by
    simp only [LockBook.arm, Dict.get_set] at hk ⊢
    split_ifs at hk with heq
    · exact ⟨by simp [Option.some.inj hk], Option.some.inj hk ▸ heq⟩
    · exact ⟨List.mem_append_left _ (h.held k l hk).1, (h.held k l hk).2⟩
  kept l hl bar hbar hcov := by
    simp only [LockBook.arm, Dict.get_set] at hl ⊢
    rcases List.mem_append.1 hl with hl | hl
    · obtain ⟨held, hget, hheld⟩ := h.kept l hl bar hbar hcov
      by_cases heq : lock.key = l.key
      · rw [if_pos heq]
        exact ⟨lock, rfl, hOut held (heq ▸ hget) bar hbar hheld⟩
      · rw [if_neg heq]
        exact ⟨held, hget, hheld⟩
    · rw [List.mem_singleton.1 hl, if_pos rfl]
      exact ⟨lock, rfl, List.mem_singleton.1 hl ▸ hcov⟩

theorem Table.arm_instrument (h : Table env regFor b t)
    (hMade : lock.Made env regFor) (hAt : lock.armedAt = t) (hScope : lock.scope = .instrument) :
    Table env regFor (b.arm lock) t := by
  refine h.arm hMade hAt fun held hget bar hbar hcov => ?_
  obtain ⟨hmem, hkey⟩ := h.held _ held hget
  obtain ⟨hHeld, hBefore⟩ := h.made held hmem
  exact covers_of_instrument hkey hHeld hMade hScope (hAt ▸ hBefore) (hAt ▸ hbar) hcov

variable {clock : SessionBarClock}

theorem named_of_clock {instrument : String} {tf : Timeframe}
    (h : SessionBarClock.forInstrument env instrument tf = .ok clock) :
    (env.tradingHours instrument).isSome := by
  simp only [SessionBarClock.forInstrument] at h
  cases hh : env.tradingHours instrument <;> simp_all

theorem cooldownLock_made {closed : ClosedTrade} {own : LockRegistration} {idx : ℤ}
    (hown : regFor closed.strategyId = some own)
    (hclock : SessionBarClock.forInstrument env closed.instrument own.timeframe = .ok clock)
    (hidx : clock.index env closed.exitTime = .ok idx) :
    (cooldownLock clock own.policy closed idx).Made env regFor where
  index := hidx
  own _ := by
    obtain ⟨hne, hstar⟩ := env.named closed.instrument (named_of_clock hclock)
    exact ⟨closed.instrument, own, rfl, hne, hstar, hown, hclock, rfl⟩

variable {rule : StopStreakRule}

theorem streakLock_made (closed : ClosedTrade) {declarer : String} {reg : LockRegistration}
    {now : ℤ}
    (hreg : regFor declarer = some reg) (hrule : reg.policy.stopStreak = some rule)
    (hclock : SessionBarClock.forInstrument env closed.instrument reg.timeframe = .ok clock)
    (hnow : clock.index env closed.exitTime = .ok now) :
    (streakLock clock rule declarer closed now).Made env regFor where
  index := hnow
  own hscope := by
    have hscope : rule.scope = .instrument := hscope
    obtain ⟨hne, hstar⟩ := env.named closed.instrument (named_of_clock hclock)
    refine ⟨closed.instrument, reg, by simp [streakLock, hscope], hne, hstar, ?_, hclock, ?_⟩
    · simpa [streakLock, hscope] using hreg
    · simp [streakLock, lockLength, hrule]

/-- A streak lock, where one is armed over a held lock of its key, refuses every
bar from the close on that the held one refuses. -/
def StreakOutlasts (env : Sessions) (closed : ClosedTrade) (b : LockBook)
    (d : String × LockRegistration) : Prop :=
  ∀ rule clock now n, d.2.policy.stopStreak = some rule → rule.scope ≠ .instrument →
    SessionBarClock.forInstrument env closed.instrument d.2.timeframe = .ok clock →
    clock.index env closed.exitTime = .ok now →
    b.streakCount env clock rule d.1 closed.instrument now = .ok n → rule.nStops ≤ n →
    ∀ held, b.active.get (streakLock clock rule d.1 closed now).key = some held →
      ∀ bar idx, closed.exitTime ≤ bar → held.covers env bar = .ok true →
        clock.index env bar = .ok idx → idx < now + rule.lockBars

def StreaksOutlast (env : Sessions) (closed : ClosedTrade) :
    List (String × LockRegistration) → LockBook → Prop
  | [], _ => True
  | d :: ds, b =>
    StreakOutlasts env closed b d ∧ ∀ lock b', b.evaluateStreak env d.1 d.2 closed =
      (.ok lock, b') →
      StreaksOutlast env closed ds b'

def CloseOutlasts (env : Sessions) (b : LockBook) (closed : ClosedTrade) : Prop :=
  closed.isStopOut → ∀ armed b', (b.noteClose closed).coolDown env closed = (.ok armed, b') →
    StreaksOutlast env closed ((b'.noteStop closed).streakDeclarers closed) (b'.noteStop closed)

variable {closed : ClosedTrade}

theorem Table.coolDown (h : Table env regFor b closed.exitTime) :
    Table env regFor (b.coolDown env closed).2 closed.exitTime := by
  rcases coolDown_cases env b closed with heq | ⟨own, clock, idx, hown, hclock, hidx, heq⟩
  · rw [heq]
    exact h
  · rw [heq]
    rw [h.registered] at hown
    exact h.arm_instrument (cooldownLock_made hown hclock hidx) rfl rfl

theorem Table.evaluateStreak (h : Table env regFor b closed.exitTime) (hreg : regFor d.1 = some d.2)
    (hOut : StreakOutlasts env closed b d) :
    Table env regFor (b.evaluateStreak env d.1 d.2 closed).2 closed.exitTime := by
  rcases evaluateStreak_cases env b d.1 d.2 closed with
    heq | ⟨rule, clock, now, n, hrule, hclock, hnow, hn, hle, heq⟩
  · rw [heq]
    exact h
  · rw [heq]
    have hMade := streakLock_made closed hreg hrule hclock hnow
    have h' : Table env regFor (b.consume (consumeKey rule.scope d.1 closed.instrument))
        closed.exitTime := h.congr rfl rfl rfl rfl
    by_cases hscope : rule.scope = .instrument
    · exact h'.arm_instrument hMade rfl hscope
    · refine h'.arm hMade rfl fun held hget bar hbar hcov => ?_
      obtain ⟨idx, hidx⟩ := SessionBarClock.index_defined hbar hnow
      have hlt := hOut rule clock now n hrule hscope hclock hnow hn hle held hget bar idx hbar
        hcov hidx
      have hafter := SessionBarClock.index_mono hbar hnow hidx
      refine covers_eq_ok.2 ⟨idx, hidx, hafter, ?_⟩
      simp only [streakLock]
      omega

theorem Table.runStreaks {ds : List (String × LockRegistration)} {armed : List LockReason}
    (h : Table env regFor b closed.exitTime) (hreg : ∀ d ∈ ds, regFor d.1 = some d.2)
    (hOut : StreaksOutlast env closed ds b) :
    Table env regFor (runStreaks env closed ds armed b).2 closed.exitTime := by
  induction ds generalizing b armed with
  | nil => exact h
  | cons d ds ih =>
    have hstep := h.evaluateStreak (hreg d (by simp)) hOut.1
    simp only [LockBook.runStreaks]
    split
    · rename_i e b' heq
      rwa [heq] at hstep
    · rename_i lock b' heq
      rw [heq] at hstep
      exact ih hstep (fun d hd => hreg d (List.mem_cons_of_mem _ hd)) (hOut.2 lock b' heq)

theorem Table.onClose (h : Table env regFor b t) (ht : t ≤ closed.exitTime)
    (hOut : CloseOutlasts env b closed) :
    Table env regFor (b.onClose env closed).2 closed.exitTime := by
  have hcool := ((h.later ht).noteClose closed).coolDown
  simp only [LockBook.onClose]
  split
  · rename_i e b' heq
    rwa [heq] at hcool
  · rename_i armed b' heq
    rw [heq] at hcool
    split_ifs with hstop
    · have hnoted := hcool.noteStop closed
      refine hnoted.runStreaks (fun d hd => ?_) (hOut hstop armed b' heq)
      rw [← hnoted.registered]
      exact registrationFor_of_declarer hd
    · exact hcool

def afterCloses (env : Sessions) (b : LockBook) (closes : List ClosedTrade) : LockBook :=
  Runs.exec (fun b c => (b.onClose env c).2) b closes

theorem Table.afterCloses {closes : List ClosedTrade} (h : Table env regFor b t)
    (hSorted : closes.Pairwise (fun c d => c.exitTime ≤ d.exitTime))
    (hFrom : ∀ c ∈ closes, t ≤ c.exitTime)
    (hOut : Runs.Along (CloseOutlasts env) (fun b c => (b.onClose env c).2) b closes)
    (ht : t ≤ t') (hUpto : ∀ c ∈ closes, c.exitTime ≤ t') :
    Table env regFor (b.afterCloses env closes) t' := by
  induction closes generalizing b t with
  | nil => exact h.later ht
  | cons c closes ih =>
    obtain ⟨hlater, hSorted'⟩ := List.pairwise_cons.1 hSorted
    exact ih (h.onClose (hFrom c (by simp)) hOut.1) hSorted' hlater hOut.2
      (hUpto c (by simp)) fun d hd => hUpto d (List.mem_cons_of_mem _ hd)

def Remembers (env : Sessions) (b : LockBook) (instrument strategyId : String)
    (bar : Timestamp) : Prop :=
  ∃ r, b.isLocked env instrument strategyId bar = .ok r ∧
    (r.isSome ↔ ∃ lock ∈ b.history, lock.appliesTo (upper instrument) strategyId = true ∧
      lock.covers env bar = .ok true)

theorem Table.remembers (h : Table env regFor b t) (instrument strategyId : String) :
    b.Remembers env instrument strategyId t := by
  have hdefined : ∀ e ∈ b.active.entries, ∃ r, e.2.covers env t = .ok r := fun e he => by
    obtain ⟨hmade, hbefore⟩ := h.made e.2 (h.held e.1 e.2 (Dict.mem_entries.1 he)).1
    exact covers_defined hmade.index hbefore
  obtain ⟨r, hr, hiff⟩ := firstLock_spec (upper instrument) strategyId hdefined
  refine ⟨r, hr, hiff.trans ⟨?_, ?_⟩⟩
  · rintro ⟨e, he, happ, hcov⟩
    exact ⟨e.2, (h.held e.1 e.2 (Dict.mem_entries.1 he)).1, happ, hcov⟩
  · rintro ⟨lock, hl, happ, hcov⟩
    obtain ⟨held, hget, hheld⟩ := h.kept lock hl t le_rfl hcov
    obtain ⟨hmem, hkey⟩ := h.held _ held hget
    have hsame := appliesTo_eq_of_key hkey (h.made held hmem).1 (h.made lock hl).1
      (upper instrument) strategyId
    exact ⟨(lock.key, held), Dict.mem_entries.2 hget, hsame.trans happ, hheld⟩

theorem StreakOutlasts.of_last_bar (now : ℤ) (hrule : d.2.policy.stopStreak = some rule)
    (hclock : SessionBarClock.forInstrument env closed.instrument d.2.timeframe = .ok clock)
    (hnow : clock.index env closed.exitTime = .ok now)
    (h : (b.active.get (streakLock clock rule d.1 closed now).key).all (fun held =>
      held.clock = clock && held.untilIndex < now + rule.lockBars) = true) :
    StreakOutlasts env closed b d := by
  intro rule' clock' now' n hrule' _ hclock' hnow' _ _ held hget bar idx _ hcov hidx
  obtain rfl : rule = rule' := Option.some.inj (hrule.symm.trans hrule')
  obtain rfl : clock = clock' := Except.ok.inj (hclock.symm.trans hclock')
  obtain rfl : now = now' := Except.ok.inj (hnow.symm.trans hnow')
  obtain ⟨hsame, hlt⟩ : held.clock = clock ∧ held.untilIndex < now + rule.lockBars := by
    simpa [hget] using h
  obtain ⟨i, hi, -, hle⟩ := covers_eq_ok.1 hcov
  rw [hsame] at hi
  have : i = idx := Except.ok.inj (hi.symm.trans hidx)
  omega

theorem CloseOutlasts.of_single (hcool : ((b.noteClose closed).coolDown env closed).2 = b')
    (hd : (b'.noteStop closed).streakDeclarers closed = [d])
    (h : StreakOutlasts env closed (b'.noteStop closed) d) : CloseOutlasts env b closed := by
  intro _ armed b₁ heq
  rw [heq] at hcool
  obtain rfl : b₁ = b' := hcool
  rw [hd]
  exact ⟨h, fun _ _ _ => trivial⟩

/-- Where no close arms a strategy-wide or book-wide lock that ends before the
one it replaces, keeping the latest lock of each key loses nothing. -/
theorem no_lock_forgotten (env : Sessions) (registrations : Dict String LockRegistration)
    (default : Option LockRegistration) (closes : List ClosedTrade)
    (hSorted : closes.Pairwise (fun c d => c.exitTime ≤ d.exitTime))
    (hOut : Runs.Along (CloseOutlasts env) (fun b c => (b.onClose env c).2)
      (fresh registrations default) closes)
    (bar : Timestamp) (hbar : ∀ c ∈ closes, c.exitTime ≤ bar) (instrument strategyId : String) :
    ((fresh registrations default).afterCloses env closes).Remembers env instrument strategyId
      bar := by
  cases closes with
  | nil => exact (Table.fresh env registrations default bar).remembers instrument strategyId
  | cons c closes =>
    have hFrom : ∀ d ∈ c :: closes, c.exitTime ≤ d.exitTime := fun d hd => by
      rcases List.mem_cons.1 hd with rfl | hd
      · exact le_rfl
      · exact (List.pairwise_cons.1 hSorted).1 d hd
    have h := (Table.fresh env registrations default c.exitTime).afterCloses hSorted
      hFrom hOut (hbar c (by simp)) hbar
    exact h.remembers instrument strategyId

def winterSessions : Sessions where
  zone day hour := 1440 * day + 60 * (hour + 5)
  tradingHours s := if s = "EURUSD" then some "fx_24_5" else none
  named s h := by
    by_cases hs : s = "EURUSD"
    · subst hs
      decide
    · simp [hs] at h

/-- A stop-out on `EURUSD`, some hours after the anchor. -/
def stopOut (strategyId : String) (hours : ℤ) : ClosedTrade :=
  ⟨strategyId, "EURUSD", lockAnchor + hours * hourNs, some "stop_loss"⟩

def streakRegistration (lookbackBars lockBars : ℕ) (scope : LockScope)
    (h₁ : 1 ≤ lookbackBars := by decide) (h₂ : 1 ≤ lockBars := by decide) : LockRegistration :=
  ⟨⟨0, some ⟨2, lookbackBars, lockBars, scope, le_rfl, h₁, h₂⟩⟩, .H1⟩

/-- Two strategies share the book-wide slot: the second one's two-bar lock takes
the place of the first one's hundred bars. -/
theorem lock_overwritten_in_force :
    let closes := [stopOut "A" 0, stopOut "A" 1, stopOut "A" 20, stopOut "A" 40]
    let registrations := Dict.ofList
      [("A", streakRegistration 10 100 .global), ("B", streakRegistration 1000 2 .global)]
    let bar := lockAnchor + 50 * hourNs
    closes.Pairwise (fun c d => c.exitTime ≤ d.exitTime) ∧ (∀ c ∈ closes, c.exitTime ≤ bar) ∧
      ¬ ((fresh registrations none).afterCloses winterSessions closes).Remembers
        winterSessions "EURUSD" "A" bar := by
  refine ⟨by decide, by decide, ?_⟩
  rintro ⟨r, hr, hiff⟩
  have hnone : r = none := Except.ok.inj (hr.symm.trans (by decide))
  rw [hnone] at hiff
  exact absurd (hiff.2 (by decide)) (by decide)

def sampleDeclarer : String × LockRegistration := ("A", streakRegistration 24 6 .strategy)

/-- One strategy-wide rule, its second lock armed over the first. -/
theorem no_lock_forgotten_streaks : ((fresh (Dict.ofList [sampleDeclarer]) none).afterCloses
      winterSessions [stopOut "A" 1, stopOut "A" 2, stopOut "A" 5, stopOut "A" 6]).Remembers
        winterSessions "EURUSD" "A" (lockAnchor + 9 * hourNs) := by
  refine no_lock_forgotten winterSessions _ none _ (by decide) ?_ _ (by decide)
    "EURUSD" "A"
  refine ⟨?_, ?_, ?_, ?_, trivial⟩
  · exact .of_single rfl (d := sampleDeclarer) (by decide)
      (.of_last_bar 1 rfl rfl (by decide) (by decide))
  · exact .of_single rfl (d := sampleDeclarer) (by decide)
      (.of_last_bar 2 rfl rfl (by decide) (by decide))
  · exact .of_single rfl (d := sampleDeclarer) (by decide)
      (.of_last_bar 5 rfl rfl (by decide) (by decide))
  · exact .of_single rfl (d := sampleDeclarer) (by decide)
      (.of_last_bar 6 rfl rfl (by decide) (by decide))

end LockBook

end Fiboki
