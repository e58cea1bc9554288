import Fiboki.Backtest.PositionLives
import Fiboki.Lib.Crossings

/-!
Financing nights: what a position owes does not depend on how its life is cut into bars.
-/

namespace Fiboki

open Crossings

def rollover (hour : ℕ) (day : ℤ) : Timestamp := instant dayNs (hour * hourNs) day

def nightWeight (assetClass : AssetClass) (at_ : Timestamp) : ℕ :=
  match tripleRolloverWeekday assetClass with
  | none => 1
  | some triple =>
    if 5 ≤ at_.dayofweek then 0 else if at_.dayofweek = triple then 3 else 1

noncomputable def nightsOwed (hour : ℕ) (assetClass : AssetClass) (a b : Timestamp) : ℕ :=
  owed dayNs (hour * hourNs) (fun day => nightWeight assetClass (rollover hour day)) a b

theorem dayNs_pos : 0 < dayNs := by decide

variable {hour : ℕ}

theorem rollover_lt (h : hour < 24) : 0 ≤ hour * hourNs ∧ hour * hourNs < dayNs := by
  unfold dayNs hourNs
  omega

theorem dayNumber_rollover (h : hour < 24) (day : ℤ) :
    Timestamp.dayNumber (rollover hour day) = day := by
  obtain ⟨hnonneg, hlt⟩ := rollover_lt h
  rw [Timestamp.dayNumber, rollover, instant, add_comm, Int.add_mul_ediv_right _ _ (by decide),
    Int.ediv_eq_zero_of_lt hnonneg hlt, zero_add]

theorem dayofweek_rollover (h : hour < 24) (day : ℤ) :
    Timestamp.dayofweek (rollover hour day) = ((day + 3) % 7).toNat := by
  rw [Timestamp.dayofweek, dayNumber_rollover h]

theorem rolloverAnchor_eq (h : hour < 24) (last : Timestamp) :
    rolloverAnchor last hour = rollover hour (lastAt dayNs (hour * hourNs) last + 1) := by
  obtain ⟨hnonneg, hlt⟩ := rollover_lt h
  have hday : Timestamp.normalize last + hour * hourNs =
      rollover hour (Timestamp.dayNumber last) := rfl
  have hfloor : Timestamp.dayNumber last * dayNs ≤ last := Int.ediv_mul_le last (by decide)
  have hceil := Int.lt_ediv_add_one_mul_self last dayNs_pos
  rw [← Timestamp.dayNumber] at hceil
  simp only [rolloverAnchor, hday]
  generalize Timestamp.dayNumber last = day at hfloor hceil ⊢
  split_ifs with hpassed
  · have hlast : lastAt dayNs (hour * hourNs) last = day := by
      apply le_antisymm
      · apply Int.lt_add_one_iff.1
        rw [← lt_instant_iff dayNs_pos, instant]
        omega
      · rw [← instant_le_iff dayNs_pos]
        exact hpassed
    rw [hlast, rollover, rollover, instant, instant]
    ring
  · have hlast : lastAt dayNs (hour * hourNs) last = day - 1 := by
      apply le_antisymm
      · apply Int.le_sub_one_iff.2
        rw [← lt_instant_iff dayNs_pos]
        exact not_le.1 hpassed
      · rw [← instant_le_iff dayNs_pos, instant, sub_mul]
        omega
    rw [hlast, sub_add_cancel]

theorem nightsBetween_eq (h : hour < 24) (last now : Timestamp) : nightsBetween last now hour =
      (lastAt dayNs (hour * hourNs) now - lastAt dayNs (hour * hourNs) last).toNat := by
  simp only [nightsBetween]
  split_ifs with hpast hnone
  · have hle := lastAt_mono (hour * hourNs) dayNs_pos hpast
    omega
  · rw [rolloverAnchor_eq h, rollover, lt_instant_iff dayNs_pos] at hnone
    omega
  · rw [rolloverAnchor_eq h, rollover, not_lt, instant_le_iff dayNs_pos] at hnone
    have hcount : (now - rolloverAnchor last hour) / dayNs =
        lastAt dayNs (hour * hourNs) now - (lastAt dayNs (hour * hourNs) last + 1) := by
      have hshift : now - rolloverAnchor last hour =
          now - hour * hourNs + -(lastAt dayNs (hour * hourNs) last + 1) * dayNs := by
        rw [rolloverAnchor_eq h, rollover, instant]
        ring
      rw [hshift, Int.add_mul_ediv_right _ _ (by decide)]
      rfl
    rw [hcount]
    omega

theorem financingNights_eq (h : hour < 24) (assetClass : AssetClass) (last now : Timestamp) :
    financingNights last now hour assetClass = nightsOwed hour assetClass last now := by
  rw [nightsOwed, owed_eq_range]
  simp only [financingNights, nightsBetween_eq h, nightWeight]
  cases tripleRolloverWeekday assetClass with
  | none => simp
  | some triple =>
    have hday : ∀ j : ℕ, ((rolloverAnchor last hour).dayofweek + j) % 7 =
        (rollover hour (lastAt dayNs (hour * hourNs) last + 1 + j)).dayofweek := by
      intro j
      rw [rolloverAnchor_eq h, dayofweek_rollover h, dayofweek_rollover h]
      omega
    simp only [hday]
    rfl

section Weights

variable {hour : ℕ} (h : hour < 24) (assetClass : AssetClass)

include h

theorem nightWeight_week (day : ℤ) : nightWeight assetClass (rollover hour (day + (7 : ℕ))) =
      nightWeight assetClass (rollover hour day) := by
  have hsame : (rollover hour (day + (7 : ℕ))).dayofweek = (rollover hour day).dayofweek := by
    rw [dayofweek_rollover h, dayofweek_rollover h]
    omega
  simp only [nightWeight, hsame]

theorem nightWeight_sum : ∑ j ∈ Finset.range 7, nightWeight assetClass (rollover hour j) = 7 := by
  cases assetClass <;>
    simp [Finset.sum_range_succ, nightWeight, tripleRolloverWeekday, dayofweek_rollover h]

theorem nightsOwed_eq_days (a b : Timestamp) : nightsOwed hour assetClass a b =
      ∑ day ∈ (Finset.Icc a.dayNumber b.dayNumber).filter
        (fun day => a < rollover hour day ∧ rollover hour day ≤ b),
        nightWeight assetClass (rollover hour day) := by
  rw [nightsOwed, owed]
  apply Finset.sum_congr _ fun _ _ => rfl
  ext day
  rw [mem_crossings dayNs_pos, Finset.mem_filter, Finset.mem_Icc, ← rollover]
  constructor
  · rintro ⟨hafter, hbefore⟩
    have hfrom := Int.ediv_le_ediv dayNs_pos hafter.le
    have hto := Int.ediv_le_ediv dayNs_pos hbefore
    rw [← Timestamp.dayNumber, ← Timestamp.dayNumber, dayNumber_rollover h] at hfrom hto
    exact ⟨⟨hfrom, hto⟩, hafter, hbefore⟩
  · rintro ⟨-, hcrossed⟩
    exact hcrossed

end Weights

section Charge

variable {env : BookSetup} {financing : FinancingModel} {v : BarSlice} {op op' : ManagedPosition}

theorem chargePosition_nights (h : env.chargePosition financing v op = .ok op') :
    (env.nightsDue v op = 0 ∧ op' = op) ∨
      (0 < env.nightsDue v op ∧ op'.lastFinancingTime = some v.timestamp ∧
        op'.position.entryTime = op.position.entryTime ∧ op'.instrument = op.instrument ∧
        ∃ mark, v.mark op.position.instrument = some mark ∧
          op'.financingAccount = op.financingAccount +
            financing.nightlyCharge op.instrument op.position.direction op.position.size mark *
              env.nightsDue v op * env.rate (financing.currencyFor op.instrument) v.timestamp) := by
  simp only [BookSetup.chargePosition] at h
  rw [← BookSetup.nightsDue] at h
  split_ifs at h with hnone
  · exact .inl ⟨hnone, (Except.ok.inj h).symm⟩
  · split at h
    · cases h
    · rename_i mark hmark
      obtain rfl := Except.ok.inj h
      exact .inr ⟨Nat.pos_of_ne_zero hnone, rfl, rfl, rfl, mark, hmark, rfl⟩

end Charge

/-- What neither a bar nor a close changes of a position's financing. -/
structure SameDates (op op' : ManagedPosition) : Prop where
  lastFinancingTime : op'.lastFinancingTime = op.lastFinancingTime
  entryTime : op'.position.entryTime = op.position.entryTime
  instrument : op'.instrument = op.instrument

theorem SameDates.refl (op : ManagedPosition) : SameDates op op := ⟨rfl, rfl, rfl⟩

theorem SameDates.trans {op op' op'' : ManagedPosition} (h : SameDates op op')
    (h' : SameDates op' op'') : SameDates op op'' :=
  ⟨h'.lastFinancingTime.trans h.lastFinancingTime, h'.entryTime.trans h.entryTime,
    h'.instrument.trans h.instrument⟩

variable (env : BookSetup) (v : BarSlice)

theorem sameDates_barFills (bar : Bar) (op : ManagedPosition) :
    SameDates op (env.barFills v bar op).2.1 := by
  refine (barFills_keeps env .refl (fun _ _ _ => .trans) (fun c => ?_) (fun v bar op => ?_)
    (fun c => ⟨rfl, rfl, rfl⟩) v bar op).1
  · unfold BookSetup.afterLeg
    split_ifs <;> exact ⟨rfl, rfl, rfl⟩
  · simp only [BookSetup.seeBar]
    split_ifs <;> exact ⟨rfl, rfl, rfl⟩

theorem sameDates_updateProtectiveStop (op : ManagedPosition) :
    SameDates op (env.updateProtectiveStop v op) := by
  simp only [BookSetup.updateProtectiveStop]
  split_ifs <;> exact ⟨rfl, rfl, rfl⟩

/-- A position has been charged the nights from its entry to its last charge. -/
structure Charged (env : BookSetup) (nights : ℕ) (op : ManagedPosition) (last : Timestamp) :
    Prop where
  dated : op.lastFinancingTime = some last
  after : op.position.entryTime ≤ last
  nights : nights = nightsOwed env.config.financingRolloverHourUtc op.instrument.assetClass
    op.position.entryTime last

namespace Charged

variable {env : BookSetup} {nights : ℕ} {op op' : ManagedPosition} {last : Timestamp}

theorem congr (h : Charged env nights op last) (hsame : SameDates op op') :
    Charged env nights op' last := by
  refine ⟨hsame.lastFinancingTime.trans h.dated, ?_, ?_⟩
  · rw [hsame.entryTime]
    exact h.after
  · rw [hsame.entryTime, hsame.instrument]
    exact h.nights

theorem nightsDue (h : Charged env nights op last)
    (hhour : env.config.financingRolloverHourUtc < 24)
    (v : BarSlice) : env.nightsDue v op =
      nightsOwed env.config.financingRolloverHourUtc op.instrument.assetClass last v.timestamp := by
  rw [BookSetup.nightsDue, h.dated, Option.getD_some, financingNights_eq hhour]

variable {v : BarSlice}

theorem add (h : Charged env nights op last) (hhour : env.config.financingRolloverHourUtc < 24)
    (hlater : last ≤ v.timestamp) :
    nights + env.nightsDue v op =
      nightsOwed env.config.financingRolloverHourUtc op.instrument.assetClass
        op.position.entryTime v.timestamp := by
  rw [h.nightsDue hhour, h.nights]
  exact (owed_add dayNs_pos h.after hlater).symm

theorem charge {financing : FinancingModel} (h : Charged env nights op last)
    (hhour : env.config.financingRolloverHourUtc < 24)
    (hcharge : env.chargePosition financing v op = .ok op') :
    ∃ last', Charged env (nights + env.nightsDue v op) op' last' := by
  rcases chargePosition_nights hcharge with ⟨hnone, rfl⟩ |
    ⟨hsome, hdated, hentry, hinstrument, -⟩
  · rw [hnone, add_zero]
    exact ⟨last, h⟩
  · have hlater : last ≤ v.timestamp := by
      by_contra hpast
      rw [h.nightsDue hhour, nightsOwed, owed_of_le dayNs_pos (not_le.1 hpast).le] at hsome
      exact lt_irrefl 0 hsome
    refine ⟨v.timestamp, hdated, ?_, ?_⟩
    · rw [hentry]
      exact h.after.trans hlater
    · rw [hentry, hinstrument]
      exact h.add hhour hlater

end Charged

theorem Lives.charged {env : BookSetup} (hhour : env.config.financingRolloverHourUtc < 24)
    {order : PendingEntry} {fill : EntryFill} {stage : Option BarSlice} {tr : Track}
    (h : Lives env order fill stage tr) : ∃ last, Charged env tr.nights tr.op last := by
  apply h.invariant (P := fun tr => ∃ last, Charged env tr.nights tr.op last)
  · intro v bar seq _ _
    refine ⟨v.timestamp, rfl, le_rfl, ?_⟩
    have hnone : nightsOwed env.config.financingRolloverHourUtc order.instrument.assetClass
        v.timestamp v.timestamp = 0 := owed_of_le dayNs_pos le_rfl
    exact hnone.symm
  · rintro tr e _ ⟨last, hcharged⟩
    cases e with
    | charge v =>
      simp only [Track.step, Track.chargeNights]
      split
      · exact ⟨last, hcharged⟩
      · split
        · exact ⟨last, hcharged⟩
        · rename_i op hop
          exact hcharged.charge hhour hop
    | reverse | market v bar reason price spacing => exact ⟨last, hcharged.congr ⟨rfl, rfl, rfl⟩⟩
    | bar v =>
      refine ⟨last, ?_⟩
      rw [Track.step]
      cases hbar : v.bars tr.op.position.instrument with
      | none =>
        rw [tr.seeBar_none env hbar]
        exact hcharged
      | some bar =>
        have hsame := sameDates_barFills env v bar tr.op
        cases hclosed : (env.barFills v bar tr.op).2.2 with
        | none =>
          rw [tr.seeBar_open env hbar hclosed]
          exact hcharged.congr (hsame.trans (sameDates_updateProtectiveStop env v _))
        | some reason =>
          rw [tr.seeBar_closed env hbar hclosed]
          exact hcharged.congr hsame

/-- Nights add up over any cut of an interval, are monotone in its end, come to seven for seven
days and are the weights of the rollovers crossed; and in every run what an open position has
been charged are the nights from its entry to its last charge, however its life was cut. -/
theorem financing_independent_of_slicing (env : BookSetup)
    (hhour : env.config.financingRolloverHourUtc < 24) (initial : ℚ) (events : List BookEvent) :
    (∀ (assetClass : AssetClass) (hour : ℕ), hour < 24 →
      (∀ a b c : Timestamp, a ≤ b → b ≤ c → financingNights a c hour assetClass =
        financingNights a b hour assetClass + financingNights b c hour assetClass) ∧
      (∀ a b c : Timestamp, b ≤ c →
        financingNights a b hour assetClass ≤ financingNights a c hour assetClass) ∧
      (∀ a : Timestamp, financingNights a (a + 7 * dayNs) hour assetClass = 7) ∧
      ∀ a c : Timestamp, financingNights a c hour assetClass =
        ∑ day ∈ (Finset.Icc a.dayNumber c.dayNumber).filter
          (fun day => a < rollover hour day ∧ rollover hour day ≤ c),
          nightWeight assetClass (rollover hour day)) ∧
    ∀ op ∈ (BookHistory.after env initial events).book.open_,
      ∃ e ∈ (BookHistory.after env initial events).entries, ∃ fill tr last,
        e.managed = some op.seq ∧ Lives env e.pending fill none tr ∧ tr.op = op ∧
        op.lastFinancingTime = some last ∧
        tr.nights = financingNights op.position.entryTime last
          env.config.financingRolloverHourUtc op.instrument.assetClass ∧
        ∀ v : BarSlice, last ≤ v.timestamp →
          tr.nights + env.nightsDue v op = financingNights op.position.entryTime v.timestamp
            env.config.financingRolloverHourUtc op.instrument.assetClass := by
  constructor
  · intro assetClass hour h
    refine ⟨fun a b c hab hbc => ?_, fun a b c hbc => ?_, fun a => ?_, fun a c => ?_⟩
    · rw [financingNights_eq h, financingNights_eq h, financingNights_eq h]
      exact owed_add dayNs_pos hab hbc
    · rw [financingNights_eq h, financingNights_eq h]
      exact owed_mono dayNs_pos hbc
    · rw [financingNights_eq h]
      have hcycle := owed_cycle (n := 7) (hour * hourNs)
        (fun day => nightWeight assetClass (rollover hour day)) dayNs_pos
          (nightWeight_week h assetClass) a
      exact hcycle.trans (nightWeight_sum h assetClass)
    · rw [financingNights_eq h]
      exact nightsOwed_eq_days h assetClass a c
  · intro op hop
    obtain ⟨e, he, fill, tr, hs, -, hlives, rfl, -⟩ :=
      (BookHistory.refines env initial events).life_of_open hop
    obtain ⟨last, hcharged⟩ := hlives.charged hhour
    refine ⟨e, he, fill, tr, last, hs, hlives, rfl, hcharged.dated, ?_, fun v hlater => ?_⟩
    · rw [financingNights_eq hhour]
      exact hcharged.nights
    · rw [financingNights_eq hhour]
      exact hcharged.add hhour hlater

section Held

open Frictionless BookSample

def chargingBook : BookSetup :=
  { Frictionless.book with
    config := ⟨"USD", 4, 4, true, 21, "s", .paper⟩
    financing := some profile.financing }

def heldRun : List BookEvent :=
  [.queueEntry (longOrder 0 1 1 [] [] no_targets_aligned), flatStep 0 2, flatStep 50 2,
    flatStep 100 2]

theorem heldRun_open : (BookHistory.after chargingBook 100 heldRun).book.open_.map
    (fun op => (op.lastFinancingTime, op.position.entryTime)) = [(some (50 * hourNs), 0)] := by
  decide +kernel

/-- From a Thursday midnight to the Monday after: the rollovers of Thursday and Friday are
charged by Saturday, and the weekend's owe nothing. -/
theorem financing_held : financingNights 0 (0 + 7 * dayNs) 21 .fxMajor = 7 ∧
      ∃ tr : Track, tr.op ∈ (BookHistory.after chargingBook 100 heldRun).book.open_ ∧
        tr.nights = financingNights 0 (50 * hourNs) 21 tr.op.instrument.assetClass := by
  obtain ⟨hlaw, hrun⟩ := financing_independent_of_slicing chargingBook (by decide) 100 heldRun
  refine ⟨(hlaw .fxMajor 21 (by decide)).2.2.1 0, ?_⟩
  obtain ⟨op, hopen, hdates⟩ := List.map_eq_singleton_iff.1 heldRun_open
  obtain ⟨hlast, hentry⟩ := Prod.mk.inj hdates
  have hmem : op ∈ (BookHistory.after chargingBook 100 heldRun).book.open_ := by simp [hopen]
  obtain ⟨e, -, fill, tr, last, -, -, rfl, hdated, hnights, -⟩ := hrun op hmem
  obtain rfl : 50 * hourNs = last := Option.some.inj (hlast.symm.trans hdated)
  rw [hentry] at hnights
  exact ⟨tr, hmem, hnights⟩

end Held

end Fiboki
