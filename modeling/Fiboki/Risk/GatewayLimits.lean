import Fiboki.Risk.Gateway

/-!
What an allowed order has passed: every limit, on numbers that are there and finite.
-/

namespace Fiboki.PreTrade

open Floating Number Wire

section Reasons

def Differs (s : String) : Prop :=
  ¬ s.toList <+: shadowPrefix.toList ∧ ¬ shadowPrefix.toList <+: s.toList

instance (s : String) : Decidable (Differs s) :=
  inferInstanceAs
    (Decidable (¬ s.toList <+: shadowPrefix.toList ∧ ¬ shadowPrefix.toList <+: s.toList))

variable {s : String}

theorem Differs.append (h : Differs s) (t : String) : Differs (s ++ t) := by
  rw [Differs, String.toList_append]
  constructor
  · intro hbegins
    exact h.1 ((List.prefix_append _ _).trans hbegins)
  · intro hbegins
    rcases List.prefix_or_prefix_of_prefix hbegins
      (List.prefix_append s.toList t.toList) with hs | hs
    · exact h.2 hs
    · exact h.1 hs

theorem Differs.not_shadow (h : Differs s) : isShadowReason s = false := by
  cases hs : isShadowReason s with
  | false => rfl
  | true => exact absurd (List.isPrefixOf_iff_prefix.1 hs) h.2

def Refusing : Raised → Prop
  | .blocked reason => isShadowReason reason = false
  | .noted _ => False
  | .error _ _ => True

def Plain {α : Type} (c : Except Raised α) : Prop := ∀ e, c = .error e → Refusing e

variable {α β : Type}

theorem plain_ok (a : α) : Plain (Except.ok a : Except Raised α) := by
  intro e h
  cases h

theorem plain_error (kind message : String) :
    Plain (.error (.error kind message) : Except Raised α) := by
  intro e h
  cases h
  trivial

variable {reason : String}

theorem plain_block (h : Differs reason) : Plain (block reason : Except Raised α) := by
  intro e he
  cases he
  exact h.not_shadow

theorem plain_refuse {c : Bool} (h : Differs reason) : Plain (refuse c reason) := by
  unfold refuse
  split_ifs
  · exact plain_block h
  · exact plain_ok ()

theorem plain_bind {x : Except Raised α} {f : α → Except Raised β} (hx : Plain x)
    (hf : ∀ a, Plain (f a)) : Plain (x >>= f) := by
  intro e he
  cases x with
  | error raised =>
    cases he
    exact hx _ rfl
  | ok a => exact hf a e he

end Reasons

section Votes

variable (g : Gateway) (ctx : RiskContext) (limits : LimitSet)

theorem plain_pctOfEquity (amount equity : Number) : Plain (pctOfEquity amount equity) := by
  unfold pctOfEquity
  split_ifs
  · exact plain_error _ _
  · exact plain_ok _

theorem plain_ageSeconds (start : Option Instant) (now : Instant) :
    Plain (ageSeconds start now) := by
  unfold ageSeconds
  split
  · exact plain_error _ _
  · exact plain_error _ _
  · exact plain_error _ _
  · split
    · exact plain_ok _
    · exact plain_error _ _
    · exact plain_ok _

variable {check : String}

theorem plain_requireInputs (h : Differs check) (fields : List InputField) :
    Plain (requireInputs g ctx check fields) := by
  unfold requireInputs
  split
  · exact plain_ok _
  · split_ifs
    · exact plain_ok _
    · exact plain_block ((h.append _).append _)

theorem plain_instrument : Plain (ctx.instrument g) := by
  unfold RiskContext.instrument
  split
  · exact plain_ok _
  · exact plain_error _ _

theorem plain_planNotionalAccount : Plain (ctx.planNotionalAccount g) := by
  unfold RiskContext.planNotionalAccount
  split
  · exact plain_error _ _
  · exact plain_bind (plain_instrument g ctx) fun _ => plain_ok _

theorem plain_asserted (x : Option Number) : Plain (asserted x) := by
  unfold asserted
  split
  · exact plain_ok _
  · exact plain_error _ _

theorem plain_capCheck {head : String} (h : Differs head) (digits : ℕ) (tail : String)
    (amount limit : Number) : Plain (capCheck g ctx head digits tail amount limit) := by
  refine plain_bind (plain_pctOfEquity _ _) fun pct => plain_refuse ?_
  exact ((((h.append _).append _).append _).append _).append _

theorem plain_ageCheck {future stale : String} (hfuture : Differs future) (hstale : Differs stale)
    (start : Option Instant) (limit : Number) :
      Plain (ageCheck g ctx future stale start limit) := by
  refine plain_bind (plain_ageSeconds _ _) fun age => ?_
  refine plain_bind (plain_refuse ((hfuture.append _).append _)) fun _ => ?_
  exact plain_refuse ((((hstale.append _).append _).append _).append _)

theorem plain_lossCheck (h : Differs check) (field : InputField) (limit : Number) :
    Plain (lossCheck g ctx check field limit) := by
  refine plain_bind (plain_requireInputs g ctx h _) fun present => ?_
  cases present
  · exact plain_ok _
  · refine plain_bind (plain_asserted _) fun pnl => ?_
    split_ifs
    · exact plain_ok _
    · refine plain_bind (plain_pctOfEquity _ _) fun pct => plain_refuse ?_
      exact ((((h.append _).append _).append _).append _).append _

theorem plain_exposureCheck (h : Differs check) (key : String) (held : Dict String Number)
    (limit : Number) : Plain (exposureCheck g ctx check key held limit) := by
  refine plain_bind (plain_requireInputs g ctx h _) fun present => ?_
  cases present
  · exact plain_ok _
  · refine plain_bind (plain_planNotionalAccount g ctx) fun notional => ?_
    exact plain_capCheck g ctx (((h.append _).append _).append _) _ _ _ _

theorem plain_outsideEvents (decision : Instant) (back ahead : Timedelta) (events : List Instant) :
    Plain (outsideEvents g decision back ahead events) := by
  induction events with
  | nil => exact plain_ok _
  | cons ev rest ih =>
    cases ev with
    | nat | naive t => exact plain_block (by decide)
    | utc ev =>
      cases decision with
      | nat => exact ih
      | naive t => exact plain_error _ _
      | utc t =>
        refine plain_bind (plain_refuse ?_) fun _ => ih
        exact Differs.append (by decide) _

theorem plain_minutesDelta (x : Number) : Plain (minutesDelta x) := by
  cases x with
  | nan | inf s => exact plain_error _ _
  | fin q => exact plain_ok _

theorem plain_decisionTime (now : Instant) (barClose : Timestamp) :
    Plain (decisionTime now barClose) := by
  cases now with
  | nat => exact plain_ok _
  | naive t => exact plain_error _ _
  | utc t => exact plain_ok _

theorem differs_allows (state : KillSwitchState) (kind : RequestKind) :
    Differs (state.allows kind).2 := by
  unfold KillSwitchState.allows
  cases state.mode with
  | none => split_ifs <;> decide
  | some mode => cases mode <;> split_ifs <;> decide

theorem plain_typicalSpread (i : ContractSpec) : Plain (typicalSpread ctx i) := by
  unfold typicalSpread
  split
  · exact plain_ok _
  · split
    · exact plain_block (by decide)
    · split_ifs
      · exact plain_block (by decide)
      · exact plain_ok _

theorem plain_checkAbnormalSpread : Plain (checkAbnormalSpread g ctx limits) := by
  unfold checkAbnormalSpread
  split
  · exact plain_block (by decide)
  · refine plain_bind (plain_refuse (Differs.append (by decide) _)) fun _ => ?_
    refine plain_bind (plain_instrument g ctx) fun i => ?_
    refine plain_bind (plain_typicalSpread ctx i) fun typical => ?_
    split_ifs
    · exact plain_ok _
    · refine plain_refuse ?_
      exact ((((by decide : Differs "abnormal_spread:").append _).append _).append _).append _

theorem plain_checkStrategyLifecycle : Plain (checkStrategyLifecycle ctx) := by
  unfold checkStrategyLifecycle
  split
  · exact plain_block (by decide)
  · refine plain_bind (plain_refuse (Differs.append (by decide) _)) fun _ => ?_
    refine plain_bind (plain_refuse (by decide)) fun _ => ?_
    refine plain_bind (plain_refuse (Differs.append (by decide) _)) fun _ => ?_
    exact plain_refuse (Differs.append (by decide) _)

theorem plain_checkBrokerHealth : Plain (checkBrokerHealth g ctx limits) := by
  unfold checkBrokerHealth
  split
  · refine plain_bind (plain_refuse (Differs.append (by decide) _)) fun _ => plain_refuse ?_
    exact (((by decide : Differs "broker_unhealthy:").append _).append _).append _
  · exact plain_block (by decide)

theorem plain_checkEventBlackout : Plain (checkEventBlackout g ctx limits) := by
  unfold checkEventBlackout
  split_ifs
  · refine plain_bind (plain_minutesDelta _) fun window => ?_
    split_ifs
    · exact plain_ok _
    · exact plain_outsideEvents g _ _ _ _
  · refine plain_bind (plain_minutesDelta _) fun pre => ?_
    refine plain_bind (plain_minutesDelta _) fun post => ?_
    exact plain_bind (plain_decisionTime _ _) fun decision => plain_outsideEvents g _ _ _ _

theorem plain_checkInstrumentLock : Plain (checkInstrumentLock g ctx) := by
  unfold checkInstrumentLock
  dsimp only
  split
  · exact plain_refuse (by decide)
  · split
    · exact plain_ok _
    · exact plain_block (Differs.append (by decide) _)
    · exact plain_block (Differs.append (by decide) _)
    · exact plain_error _ _

theorem plain_checkMarginUtilisation : Plain (checkMarginUtilisation g ctx limits) := by
  unfold checkMarginUtilisation
  split_ifs
  · refine plain_refuse ?_
    exact ((((by decide : Differs "margin_utilisation:").append _).append _).append _).append _
  · have hleverage : Plain (planLeverage g ctx) := by
      unfold planLeverage
      split_ifs
      · exact plain_bind (plain_instrument g ctx) fun _ => plain_ok _
      · exact plain_ok _
    refine plain_bind hleverage fun leverage => ?_
    refine plain_bind (plain_refuse (by decide)) fun _ => ?_
    refine plain_bind (plain_planNotionalAccount g ctx) fun notional => plain_refuse ?_
    exact ((((by decide : Differs "margin_utilisation_after_trade:").append _).append _).append
      _).append _

theorem plain_handler {name : CheckName} (h : name ≠ .eventVeto) :
    Plain (handler g ctx limits name) := by
  cases name with
  | killSwitch =>
    refine plain_bind (plain_refuse (Differs.append (by decide) _)) fun _ => ?_
    split
    · exact plain_error _ _
    · exact plain_refuse (differs_allows _ _)
  | strategyLifecycle => exact plain_checkStrategyLifecycle ctx
  | marketState =>
    refine plain_bind (plain_refuse (by decide)) fun _ => ?_
    split
    · exact plain_block (by decide)
    · exact plain_refuse (by decide)
  | directionPermitted =>
    change Plain (checkDirectionPermitted g ctx)
    unfold checkDirectionPermitted
    split_ifs
    · refine plain_bind (plain_instrument g ctx) fun i => plain_refuse ?_
      exact ((Differs.append (by decide) _).append _).append _
    · exact plain_ok _
  | dataFreshness | stalePrice => exact plain_ageCheck g ctx (by decide) (by decide) _ _
  | abnormalSpread => exact plain_checkAbnormalSpread g ctx limits
  | brokerHealth => exact plain_checkBrokerHealth g ctx limits
  | eventBlackout => exact plain_checkEventBlackout g ctx limits
  | eventVeto => exact absurd rfl h
  | instrumentLock => exact plain_checkInstrumentLock g ctx
  | maxPerTradeRisk => exact plain_capCheck g ctx (by decide) _ _ _ _
  | maxAccountRisk =>
    refine plain_bind (plain_requireInputs g ctx (by decide) _) fun present => ?_
    cases present
    · exact plain_ok _
    · exact plain_bind (plain_asserted _) fun _ => plain_capCheck g ctx (by decide) _ _ _ _
  | maxInstrumentExposure | maxStrategyExposure => exact plain_exposureCheck g ctx (by decide) _ _ _
  | maxCurrencyExposure =>
    refine plain_bind (plain_requireInputs g ctx (by decide) _) fun present => ?_
    cases present
    · exact plain_ok _
    · refine plain_bind (plain_instrument g ctx) fun i => ?_
      refine plain_bind (plain_planNotionalAccount g ctx) fun add => ?_
      refine plain_bind (plain_capCheck g ctx ?_ _ _ _ _) fun _ => plain_capCheck g ctx ?_ _ _ _ _
      · exact (Differs.append (by decide) _).append _
      · exact (Differs.append (by decide) _).append _
  | maxCorrelatedExposure =>
    refine plain_bind (plain_requireInputs g ctx (by decide) _) fun present => ?_
    cases present
    · exact plain_ok _
    · refine plain_bind (plain_asserted _) fun _ => ?_
      refine plain_bind (plain_planNotionalAccount g ctx) fun _ => ?_
      exact plain_capCheck g ctx (by decide) _ _ _ _
  | dailyLoss | weeklyLoss => exact plain_lossCheck g ctx (by decide) _ _
  | totalDrawdown =>
    refine plain_refuse ?_
    exact ((((by decide : Differs "total_drawdown:").append _).append _).append _).append _
  | marginUtilisation => exact plain_checkMarginUtilisation g ctx limits

end Votes

section Allowed

variable (g : Gateway) (ctx : RiskContext) (limits : LimitSet)

theorem isShadowReason_note (text : String) :
    isShadowReason ("event_veto_shadow:" ++ text) = true := by
  unfold isShadowReason
  rw [List.isPrefixOf_iff_prefix, String.toList_append]
  exact List.prefix_append _ _

theorem isShadowReason_of_mem_shadowNotes {verdict : VetoAssessment} {r : String}
    (h : r ∈ shadowNotes verdict) : isShadowReason r = true := by
  unfold shadowNotes at h
  rcases List.mem_append.1 h with h | h
  · split_ifs at h
    · cases h
    all_goals
      rw [List.mem_singleton.1 h]
      exact isShadowReason_note ("unavailable:" ++ _)
  · rw [Option.mem_toList, Option.map_eq_some_iff] at h
    obtain ⟨v, -, rfl⟩ := h
    exact isShadowReason_note _

theorem eventVeto_raised {e : Raised} (h : checkEventVeto ctx = .error e) :
    Refusing e ∨ ∃ reasons, e = .noted reasons ∧ ∀ r ∈ reasons, isShadowReason r = true := by
  unfold checkEventVeto at h
  split at h
  · cases h
  · split_ifs at h
    split at h
    · cases h
      exact .inl trivial
    · rename_i verdict _
      cases hveto : vetoed verdict with
      | error raised =>
        rw [hveto] at h
        cases h
        unfold vetoed at hveto
        split at hveto
        · exact .inl (plain_refuse (Differs.append (by decide) _) _ hveto)
        · cases hveto
      | ok _ =>
        rw [hveto, ok_bind] at h
        by_cases hnotes : shadowNotes verdict = []
        · rw [if_pos hnotes] at h
          cases h
        · rw [if_neg hnotes] at h
          cases h
          exact .inr ⟨_, rfl, fun r hr => isShadowReason_of_mem_shadowNotes hr⟩

def Refuses (c : Check) : Prop := ∃ e, c = .error e ∧ Refusing e

theorem votes_shadow (name : CheckName) :
    (∀ r ∈ votes name (handler g ctx limits name), isShadowReason r = true) ↔
      ¬ Refuses (handler g ctx limits name) := by
  have hraised : ∀ e, handler g ctx limits name = .error e →
      Refusing e ∨ ∃ reasons, e = .noted reasons ∧ ∀ r ∈ reasons, isShadowReason r = true := by
    intro e he
    by_cases hname : name = .eventVeto
    · subst hname
      exact eventVeto_raised ctx he
    · exact .inl (plain_handler g ctx limits hname e he)
  have herror : Differs "check_error:" := by decide
  cases hc : handler g ctx limits name with
  | ok a =>
    refine iff_of_true (fun r hr => by cases hr) ?_
    rintro ⟨e, he, -⟩
    cases he
  | error e =>
    rcases hraised e hc with he | ⟨reasons, rfl, hshadow⟩
    · refine iff_of_false ?_ (not_not.2 ⟨e, rfl, he⟩)
      intro hall
      cases e with
      | blocked reason =>
        have := hall reason List.mem_cons_self
        rw [show isShadowReason reason = false from he] at this
        cases this
      | noted reasons => exact he
      | error kind message =>
        have := hall _ List.mem_cons_self
        rw [(((((herror.append _).append _).append _).append _).append _).not_shadow] at this
        cases this
    · refine iff_of_true hshadow ?_
      rintro ⟨e, he, hrefusing⟩
      cases he
      exact hrefusing

theorem runChecks_eq (names : List CheckName) (reasons : List String) (ran : List CheckName) :
    runChecks g ctx limits names (reasons, ran) =
      (reasons ++ names.flatMap fun name => votes name (handler g ctx limits name),
        ran ++ names) := by
  induction names generalizing reasons ran with
  | nil => simp only [runChecks, List.flatMap_nil, List.append_nil]
  | cons name names ih =>
    rw [runChecks, ih]
    simp only [List.flatMap_cons, List.append_assoc, List.cons_append, List.nil_append]

theorem decisionOf_eq : decisionOf g ctx limits =
      ⟨((CheckName.checks.flatMap fun name => votes name (handler g ctx limits name)).filter
          fun r => !isShadowReason r).isEmpty,
        CheckName.checks.flatMap fun name => votes name (handler g ctx limits name),
        CheckName.checks, ctx.now⟩ := by
  have hcoverage : verifyCoverage CheckName.checks = [] := by decide
  unfold decisionOf
  rw [runChecks_eq, List.nil_append, List.nil_append]
  dsimp only
  rw [hcoverage, List.append_nil]

theorem allowed_iff_shadow : (decisionOf g ctx limits).allowed = true ↔
      ∀ r ∈ (decisionOf g ctx limits).reasons, isShadowReason r = true := by
  rw [decisionOf_eq]
  simp only [List.isEmpty_iff, List.filter_eq_nil_iff, Bool.not_eq_true', Bool.not_eq_false]

theorem allowed_iff : (decisionOf g ctx limits).allowed = true ↔
      ∀ name, ¬ Refuses (handler g ctx limits name) := by
  rw [allowed_iff_shadow, decisionOf_eq]
  constructor
  · intro h name
    rw [← votes_shadow]
    intro r hr
    exact h r (List.mem_flatMap.2 ⟨name, CheckName.mem_checks name, hr⟩)
  · intro h r hr
    obtain ⟨name, -, hr⟩ := List.mem_flatMap.1 hr
    exact (votes_shadow g ctx limits name).2 (h name) r hr

theorem passed {name : CheckName} (hname : name ≠ .eventVeto)
    (h : ¬ Refuses (handler g ctx limits name)) : handler g ctx limits name = .ok () := by
  cases hc : handler g ctx limits name with
  | ok a => rfl
  | error e => exact absurd ⟨e, hc, plain_handler g ctx limits hname e hc⟩ h

def RiskContext.withoutVeto (ctx : RiskContext) : RiskContext := { ctx with eventVeto := none }

theorem allowed_withoutVeto {notes : List String} (h : checkEventVeto ctx = .error (.noted notes)) :
    (decisionOf g ctx.withoutVeto limits).allowed = (decisionOf g ctx limits).allowed := by
  rw [Bool.eq_iff_iff, allowed_iff, allowed_iff]
  apply forall_congr'
  intro name
  by_cases hname : name = .eventVeto
  · subst hname
    refine iff_of_true ?_ ?_
    · rintro ⟨e, he, -⟩
      cases he
    · rintro ⟨e, he, hrefusing⟩
      cases h.symm.trans he
      exact hrefusing
  · have hsame : handler g ctx.withoutVeto limits name = handler g ctx limits name := by
      cases name with
      | eventVeto => exact absurd rfl hname
      | _ => rfl
    rw [hsame]

end Allowed

end Fiboki.PreTrade
