import Fiboki.Risk.GatewayLimits

/-!
The limits that an allowed order meets, and the inputs for which it does: every number
that a check compares is finite, or some check refuses.
-/

namespace Fiboki.PreTrade

open Floating Number Wire

def Within (amount equity limit : Number) : Prop :=
  ∃ a e, amount = fin a ∧ equity = fin e ∧ 0 < e ∧ le (fin (a / e * 100)) limit = true

def LossBelow (pnl : Option Number) (equity limit : Number) : Prop :=
  ∃ p, pnl = some (fin p) ∧
    (0 ≤ p ∨ ∃ e, equity = fin e ∧ 0 < e ∧ lt (fin (-p / e * 100)) limit = true)

def Fresh (start : Option Instant) (now : Instant) (limit : Number) : Prop :=
  ∃ t n, start = some (.utc t) ∧ now = .utc n ∧ t ≤ n ∧ le (secondsBetween t n) limit = true

section Limits

variable (g : Gateway) (ctx : RiskContext) (limits : LimitSet)

def SpreadHolds : Prop :=
  ∃ s i t, ctx.market.spreadPrice = some (fin s) ∧ 0 ≤ s ∧
    g.registry ctx.plan.signal.instrument = some i ∧ typicalSpread ctx i = .ok (fin t) ∧
    (t ≤ 0 ∨ le (fin (s / t)) limits.maxSpreadMultiple = true)

def heldUnder (exposure : Dict String Number) (key : String) : Number :=
  (exposure.get key).getD (fin 0)

def ExposuresHold : Prop :=
  ∃ i n c, g.registry ctx.plan.signal.instrument = some i ∧ ctx.planNotionalAccount g = .ok n ∧
    ctx.correlatedExposure = some c ∧
    Within ((heldUnder ctx.snapshot.instrumentExposure ctx.plan.signal.instrument).abs + n)
      ctx.equity limits.maxInstrumentExposurePct ∧
    Within ((heldUnder ctx.snapshot.strategyExposure ctx.plan.signal.strategyId).abs + n)
      ctx.equity limits.maxStrategyExposurePct ∧
    Within (currencyAfter ctx i.base (fin ctx.plan.signal.direction.sign * n))
      ctx.equity limits.maxCurrencyExposurePct ∧
    Within (currencyAfter ctx i.quote (-(fin ctx.plan.signal.direction.sign * n)))
      ctx.equity limits.maxCurrencyExposurePct ∧
    Within (c + n) ctx.equity limits.maxCorrelatedExposurePct

def DrawdownHolds : Prop :=
  ∃ p e, ctx.snapshot.account.peakEquity = fin p ∧ ctx.equity = fin e ∧
    lt (fin (if p ≤ 0 then 0 else max 0 ((p - e) / p * 100))) limits.maxTotalDrawdownPct = true

def MarginHolds : Prop :=
  ∃ m e, ctx.snapshot.account.marginUsed = fin m ∧ ctx.equity = fin e ∧
    if limits.afterTrade = false then
      lt (fin ((if e ≤ 0 then 1 else max 0 (m / e)) * 100)) limits.maxMarginUtilisationPct = true
    else
      ∃ v n, planLeverage g ctx = .ok (fin v) ∧ 0 < v ∧ 0 < e ∧
        ctx.planNotionalAccount g = .ok (fin n) ∧
        lt (fin ((m + n / v) / e * 100)) limits.maxMarginUtilisationPct = true

def compared : List Number :=
  [limits.maxDataAgeSeconds, limits.maxPriceAgeSeconds, limits.maxSpreadMultiple,
    limits.maxPerTradeRiskPct, limits.maxAccountRiskPct, limits.maxInstrumentExposurePct,
    limits.maxStrategyExposurePct, limits.maxCurrencyExposurePct, limits.maxCorrelatedExposurePct,
    limits.maxDailyLossPct, limits.maxWeeklyLossPct, limits.maxTotalDrawdownPct,
    limits.maxMarginUtilisationPct]

/-- Every numeric limit holds, on inputs that are there and finite. -/
structure LimitsHold : Prop where
  numbers : ∀ x ∈ compared limits, x ≠ nan
  dataAge : Fresh ctx.market.lastBarTime ctx.now limits.maxDataAgeSeconds
  priceAge : Fresh ctx.market.quoteTime ctx.now limits.maxPriceAgeSeconds
  spread : SpreadHolds g ctx limits
  health : ∃ v, ctx.venue.score = some (fin v) ∧ le limits.minBrokerHealth (fin v) = true
  perTrade : Within ctx.plan.riskAmount ctx.equity limits.maxPerTradeRiskPct
  account : ∃ o, ctx.openRiskAmount = some o ∧
    Within (o + ctx.plan.riskAmount) ctx.equity limits.maxAccountRiskPct
  exposures : ExposuresHold g ctx limits
  daily : LossBelow ctx.dailyPnl ctx.equity limits.maxDailyLossPct
  weekly : LossBelow ctx.weeklyPnl ctx.equity limits.maxWeeklyLossPct
  drawdown : DrawdownHolds ctx limits
  margin : MarginHolds g ctx limits

/-- No number that the checks compare is infinite or not a number, and no limit is not a
number. -/
structure Finite : Prop where
  numbers : ∀ x ∈ compared limits, x ≠ nan
  now : ctx.now ≠ .nat
  spread : ∀ x ∈ ctx.market.spreadPrice, IsFin x
  score : ∀ x ∈ ctx.venue.score, IsFin x
  equity : IsFin ctx.equity
  riskAmount : IsFin ctx.plan.riskAmount
  openRisk : ∀ x ∈ ctx.openRiskAmount, IsFin x
  price : IsFin (orElse ctx.market.midPrice ctx.plan.signal.referencePrice)
  size : IsFin ctx.plan.size
  fx : ∀ x ∈ ctx.fxQuoteToAccount, IsFin x
  instrumentHeld : IsFin (heldUnder ctx.snapshot.instrumentExposure ctx.plan.signal.instrument)
  strategyHeld : IsFin (heldUnder ctx.snapshot.strategyExposure ctx.plan.signal.strategyId)
  currencies : ∀ i, g.registry ctx.plan.signal.instrument = some i →
    IsFin (heldUnder ctx.snapshot.currencyExposure i.base) ∧
      IsFin (heldUnder ctx.snapshot.currencyExposure i.quote)
  correlated : ∀ x ∈ ctx.correlatedExposure, IsFin x
  daily : ∀ x ∈ ctx.dailyPnl, IsFin x
  weekly : ∀ x ∈ ctx.weeklyPnl, IsFin x
  peakEquity : IsFin ctx.snapshot.account.peakEquity
  marginUsed : IsFin ctx.snapshot.account.marginUsed
  leverage : limits.afterTrade = true → IsFin ctx.plan.maxLeverageApplied

end Limits

section Passing

variable {g : Gateway} {ctx : RiskContext} {limits : LimitSet}

variable {reason : String}

theorem refuse_ok {c : Bool} (h : refuse c reason = .ok ()) : c = false := by
  cases c with
  | false => rfl
  | true => cases h

theorem refuse_bind_ok {α : Type} {c : Bool} {f : Unit → Except Raised α} {a : α}
    (h : (refuse c reason >>= f) = .ok a) : c = false ∧ f () = .ok a := by
  obtain ⟨_, hrefuse, hrest⟩ := bind_ok h
  exact ⟨refuse_ok hrefuse, hrest⟩

theorem pctOfEquity_ok {amount equity pct : Number} (h : pctOfEquity amount equity = .ok pct) :
    le equity (fin 0) = false ∧ pct = amount / equity * fin 100 := by
  unfold pctOfEquity at h
  split_ifs at h with hle
  · cases h
  · cases h
    exact ⟨by simpa using hle, rfl⟩

theorem capCheck_ok {head tail : String} {digits : ℕ} {amount limit : Number}
    (h : capCheck g ctx head digits tail amount limit = .ok ()) (ha : IsFin amount)
    (he : IsFin ctx.equity) (hlimit : limit ≠ nan) : Within amount ctx.equity limit := by
  obtain ⟨pct, hpct, hrefuse⟩ := bind_ok h
  obtain ⟨hpos, rfl⟩ := pctOfEquity_ok hpct
  have hlt := refuse_ok hrefuse
  obtain ⟨a, rfl⟩ := ha
  obtain ⟨e, he⟩ := he
  rw [he] at hpos hlt
  refine ⟨a, e, rfl, he, ?_, le_of_not_lt hlimit hlt⟩
  simpa using hpos

theorem Within.finite {amount equity limit : Number} (h : Within amount equity limit) :
    IsFin amount ∧ IsFin equity := by
  obtain ⟨a, e, ha, he, -⟩ := h
  exact ⟨⟨a, ha⟩, e, he⟩

variable {limit : Number}

variable {start : Option Instant}

theorem ageCheck_ok {future stale : String} (h : ageCheck g ctx future stale start limit = .ok ())
    (hnow : ctx.now ≠ .nat)
    (hlimit : limit ≠ nan) : Fresh start ctx.now limit := by
  obtain ⟨age, hage, hrest⟩ := bind_ok h
  obtain ⟨hfuture, hrest⟩ := refuse_bind_ok hrest
  have hstale := refuse_ok hrest
  unfold ageSeconds at hage
  split at hage
  · cases hage
  · cases hage
  · cases hage
  · rename_i t
    split at hage
    · rename_i hnat
      exact absurd hnat hnow
    · cases hage
    · rename_i n hn
      cases hage
      refine ⟨t, n, rfl, hn, ?_, le_of_not_lt hlimit hstale⟩
      unfold secondsBetween at hfuture
      rw [lt_fin, decide_eq_false_iff_not, not_lt] at hfuture
      have hdiff : (0 : ℚ) ≤ ((n - t : ℤ) : ℚ) := by
        have hscale : (0 : ℚ) < 10 ^ 9 := by norm_num
        by_contra hneg
        exact absurd (div_neg_of_neg_of_pos (not_le.1 hneg) hscale) (not_lt.2 hfuture)
      exact sub_nonneg.1 (Int.cast_nonneg_iff.1 hdiff)

theorem Fresh.now_ne {now : Instant} (h : Fresh start now limit) : now ≠ .nat := by
  obtain ⟨t, n, -, rfl, -⟩ := h
  intro h
  cases h

variable {check : String}

theorem requireInputs_ok {fields : List InputField} {b : Bool}
    (hmode : touchesBroker ctx.mode = true) (h : requireInputs g ctx check fields = .ok b) :
    b = true ∧ ∀ f ∈ fields, ∃ x, f.get ctx = some x := by
  unfold requireInputs at h
  split at h
  · rename_i hmissing
    cases h
    refine ⟨rfl, ?_⟩
    intro f hf
    unfold missingInputs at hmissing
    rw [List.map_eq_nil_iff, List.filter_eq_nil_iff] at hmissing
    exact Option.ne_none_iff_exists'.1 (by simpa using hmissing f hf)
  · rw [hmode] at h
    simp [block] at h

theorem asserted_ok {x : Option Number} {y : Number} (h : asserted x = .ok y) : x = some y := by
  cases x with
  | none => cases h
  | some x =>
    cases h
    rfl

theorem lossCheck_ok {field : InputField} (hmode : touchesBroker ctx.mode = true)
    (h : lossCheck g ctx check field limit = .ok ())
    (hfin : ∀ x ∈ field.get ctx, IsFin x) (he : IsFin ctx.equity) (hlimit : limit ≠ nan) :
    LossBelow (field.get ctx) ctx.equity limit := by
  obtain ⟨present, hpresent, hrest⟩ := bind_ok h
  obtain ⟨rfl, -⟩ := requireInputs_ok hmode hpresent
  rw [if_pos rfl] at hrest
  obtain ⟨pnl, hpnl, hrest⟩ := bind_ok hrest
  have hsome := asserted_ok hpnl
  obtain ⟨p, rfl⟩ := hfin pnl hsome
  refine ⟨p, hsome, ?_⟩
  by_cases hp : 0 ≤ p
  · exact .inl hp
  · rw [if_neg (by simpa using hp)] at hrest
    obtain ⟨pct, hpct, hrefuse⟩ := bind_ok hrest
    obtain ⟨hpos, rfl⟩ := pctOfEquity_ok hpct
    have hle := refuse_ok hrefuse
    obtain ⟨e, he⟩ := he
    rw [he] at hpos hle
    exact .inr ⟨e, he, by simpa using hpos, lt_of_not_le hlimit hle⟩

theorem instrument_ok {i : ContractSpec} (h : ctx.instrument g = .ok i) :
    g.registry ctx.plan.signal.instrument = some i := by
  unfold RiskContext.instrument at h
  split at h
  · rename_i hsome
    cases h
    exact hsome
  · cases h

variable {n : Number}

theorem planNotionalAccount_ok (h : ctx.planNotionalAccount g = .ok n) :
    ∃ fx i, ctx.fxQuoteToAccount = some fx ∧ g.registry ctx.plan.signal.instrument = some i ∧
      n = (orElse ctx.market.midPrice ctx.plan.signal.referencePrice * ctx.plan.size *
        fin i.contractSize * fx).abs := by
  unfold RiskContext.planNotionalAccount at h
  split at h
  · cases h
  · rename_i fx hfx
    obtain ⟨i, hi, hn⟩ := bind_ok h
    cases hn
    exact ⟨fx, i, hfx, instrument_ok hi, rfl⟩

theorem isFin_planNotionalAccount (h : ctx.planNotionalAccount g = .ok n) :
    IsFin n ↔ IsFin (orElse ctx.market.midPrice ctx.plan.signal.referencePrice) ∧
      IsFin ctx.plan.size ∧ ∀ x ∈ ctx.fxQuoteToAccount, IsFin x := by
  obtain ⟨fx, i, hfx, -, rfl⟩ := planNotionalAccount_ok h
  rw [isFin_abs, isFin_mul, isFin_mul, isFin_mul, hfx]
  constructor
  · rintro ⟨⟨⟨hprice, hsize⟩, -⟩, hfin⟩
    refine ⟨hprice, hsize, ?_⟩
    intro x hx
    cases hx
    exact hfin
  · rintro ⟨hprice, hsize, hfin⟩
    exact ⟨⟨⟨hprice, hsize⟩, isFin_fin⟩, hfin fx rfl⟩

theorem spread_ok (h : checkAbnormalSpread g ctx limits = .ok ())
    (hspread : ∀ x ∈ ctx.market.spreadPrice, IsFin x)
    (hprice : IsFin (orElse ctx.market.midPrice ctx.plan.signal.referencePrice))
    (hlimit : limits.maxSpreadMultiple ≠ nan) : SpreadHolds g ctx limits := by
  unfold checkAbnormalSpread at h
  split at h
  · cases h
  · rename_i spread hsome
    obtain ⟨s, rfl⟩ := hspread spread hsome
    obtain ⟨hneg, hrest⟩ := refuse_bind_ok h
    obtain ⟨i, hi, hrest⟩ := bind_ok hrest
    obtain ⟨typical, htypical, hrest⟩ := bind_ok hrest
    have hfin : IsFin typical := by
      unfold typicalSpread at htypical
      split at htypical
      · cases htypical
        exact isFin_fin
      · split at htypical
        · cases htypical
        · rename_i mid hmid
          split_ifs at htypical with hpos
          · cases htypical
          · cases htypical
            rw [hmid] at hprice
            rw [isFin_mul]
            refine ⟨isFin_fin, ?_⟩
            have hne : mid ≠ fin 0 := by
              rintro rfl
              exact hpos rfl
            unfold orElse at hprice
            split at hprice
            · rename_i heq
              cases heq
            · rename_i heq
              cases heq
              exact absurd rfl hne
            · rename_i heq
              cases heq
              exact hprice
    obtain ⟨t, rfl⟩ := hfin
    refine ⟨s, i, t, hsome, by simpa using hneg, instrument_ok hi, htypical, ?_⟩
    by_cases ht : t ≤ 0
    · exact .inl ht
    · rw [if_neg (by simpa using ht)] at hrest
      exact .inr (le_of_not_lt hlimit (refuse_ok hrest))

theorem health_ok (h : checkBrokerHealth g ctx limits = .ok ())
    (hscore : ∀ x ∈ ctx.venue.score, IsFin x) :
    ∃ v, ctx.venue.score = some (fin v) ∧ le limits.minBrokerHealth (fin v) = true := by
  unfold checkBrokerHealth at h
  split at h
  · rename_i connected score _ hsome
    obtain ⟨v, rfl⟩ := hscore score hsome
    obtain ⟨-, hrest⟩ := refuse_bind_ok h
    exact ⟨v, hsome, le_of_not_gt (ne_nan_of_le limits.health_unit.1) (refuse_ok hrest)⟩
  · cases h

theorem drawdown_ok (h : checkTotalDrawdown g ctx limits = .ok ())
    (hpeak : IsFin ctx.snapshot.account.peakEquity) (he : IsFin ctx.equity)
    (hlimit : limits.maxTotalDrawdownPct ≠ nan) : DrawdownHolds ctx limits := by
  have hle := refuse_ok h
  obtain ⟨p, hp⟩ := hpeak
  obtain ⟨e, he⟩ := he
  refine ⟨p, e, hp, he, lt_of_not_le hlimit ?_⟩
  have hdd : ctx.snapshot.account.drawdownPct =
      fin (if p ≤ 0 then 0 else max 0 ((p - e) / p * 100)) := by
    unfold AccountState.drawdownPct
    rw [hp, show ctx.snapshot.account.equity = fin e from he]
    by_cases hpos : p ≤ 0
    · rw [if_pos (by simpa using hpos), if_pos hpos]
    · rw [if_neg (by simpa using hpos), if_neg hpos, fin_sub, fin_div, fin_mul, max0_fin]
  rw [← hdd]
  exact hle

theorem margin_ok (h : checkMarginUtilisation g ctx limits = .ok ())
    (hused : IsFin ctx.snapshot.account.marginUsed) (he : IsFin ctx.equity)
    (hleverage : limits.afterTrade = true → IsFin ctx.plan.maxLeverageApplied)
    (hnotional : ∀ n, ctx.planNotionalAccount g = .ok n → IsFin n)
    (hlimit : limits.maxMarginUtilisationPct ≠ nan) : MarginHolds g ctx limits := by
  obtain ⟨m, hm⟩ := hused
  obtain ⟨e, he⟩ := he
  refine ⟨m, e, hm, he, ?_⟩
  unfold checkMarginUtilisation at h
  by_cases hafter : limits.afterTrade = false
  · rw [if_pos hafter] at h ⊢
    apply lt_of_not_le hlimit
    have hutil : ctx.snapshot.marginUtilisation = fin (if e ≤ 0 then 1 else max 0 (m / e)) := by
      unfold PortfolioSnapshot.marginUtilisation
      rw [hm, show ctx.snapshot.account.equity = fin e from he]
      by_cases hpos : e ≤ 0
      · rw [if_pos (by simpa using hpos), if_pos hpos]
      · rw [if_neg (by simpa using hpos), if_neg hpos, fin_div, max0_fin]
    rw [← fin_mul, ← hutil]
    exact refuse_ok h
  · rw [if_neg hafter] at h ⊢
    obtain ⟨leverage, hlev, hrest⟩ := bind_ok h
    obtain ⟨hpos, hrest⟩ := refuse_bind_ok hrest
    obtain ⟨notional, hn, hrest⟩ := bind_ok hrest
    have hlevfin : IsFin leverage := by
      unfold planLeverage at hlev
      split_ifs at hlev with hzero
      · obtain ⟨i, -, hi⟩ := bind_ok hlev
        cases hi
        exact isFin_fin
      · cases hlev
        exact hleverage (by simpa using hafter)
    obtain ⟨v, rfl⟩ := hlevfin
    obtain ⟨n, rfl⟩ := hnotional notional hn
    rw [he] at hpos
    rw [Bool.or_eq_false_iff, le_fin, le_fin, decide_eq_false_iff_not, decide_eq_false_iff_not,
      not_le, not_le] at hpos
    refine ⟨v, n, hlev, hpos.2, hpos.1, hn, lt_of_not_le hlimit ?_⟩
    have hle := refuse_ok hrest
    rw [hm, he] at hle
    exact hle

theorem exposureCheck_ok {check key : String} {held : Dict String Number}
    (hmode : touchesBroker ctx.mode = true) (h : exposureCheck g ctx check key held limit = .ok ())
    (he : IsFin ctx.equity) (hheld : IsFin (heldUnder held key))
    (hnotional : ∀ n, ctx.planNotionalAccount g = .ok n → IsFin n) (hlimit : limit ≠ nan) :
    ∃ n, ctx.planNotionalAccount g = .ok n ∧
      Within ((heldUnder held key).abs + n) ctx.equity limit := by
  obtain ⟨present, hpresent, hrest⟩ := bind_ok h
  obtain ⟨rfl, -⟩ := requireInputs_ok hmode hpresent
  rw [if_pos rfl] at hrest
  obtain ⟨n, hn, hrest⟩ := bind_ok hrest
  refine ⟨n, hn, capCheck_ok hrest ?_ he hlimit⟩
  exact isFin_add.2 ⟨isFin_abs.2 hheld, hnotional n hn⟩

theorem currency_ok (hmode : touchesBroker ctx.mode = true)
    (h : checkMaxCurrencyExposure g ctx limits = .ok ()) (he : IsFin ctx.equity)
    (hheld : ∀ i, g.registry ctx.plan.signal.instrument = some i →
      IsFin (heldUnder ctx.snapshot.currencyExposure i.base) ∧
        IsFin (heldUnder ctx.snapshot.currencyExposure i.quote))
    (hnotional : ∀ n, ctx.planNotionalAccount g = .ok n → IsFin n)
    (hlimit : limits.maxCurrencyExposurePct ≠ nan) :
    ∃ i n, g.registry ctx.plan.signal.instrument = some i ∧ ctx.planNotionalAccount g = .ok n ∧
      Within (currencyAfter ctx i.base (fin ctx.plan.signal.direction.sign * n))
        ctx.equity limits.maxCurrencyExposurePct ∧
      Within (currencyAfter ctx i.quote (-(fin ctx.plan.signal.direction.sign * n)))
        ctx.equity limits.maxCurrencyExposurePct := by
  obtain ⟨present, hpresent, hrest⟩ := bind_ok h
  obtain ⟨rfl, -⟩ := requireInputs_ok hmode hpresent
  rw [if_pos rfl] at hrest
  obtain ⟨i, hi, hrest⟩ := bind_ok hrest
  obtain ⟨n, hn, hrest⟩ := bind_ok hrest
  obtain ⟨_, hbase, hquote⟩ := bind_ok hrest
  obtain ⟨hibase, hiquote⟩ := hheld i (instrument_ok hi)
  have hdelta : IsFin (fin ctx.plan.signal.direction.sign * n) :=
    isFin_mul.2 ⟨isFin_fin, hnotional n hn⟩
  refine ⟨i, n, instrument_ok hi, hn, ?_, ?_⟩
  · exact capCheck_ok hbase (isFin_abs.2 (isFin_add.2 ⟨hibase, hdelta⟩)) he hlimit
  · exact capCheck_ok hquote (isFin_abs.2 (isFin_add.2 ⟨hiquote, isFin_neg.2 hdelta⟩)) he hlimit

theorem correlated_ok (hmode : touchesBroker ctx.mode = true)
    (h : checkMaxCorrelatedExposure g ctx limits = .ok ()) (he : IsFin ctx.equity)
    (hcorrelated : ∀ x ∈ ctx.correlatedExposure, IsFin x)
    (hnotional : ∀ n, ctx.planNotionalAccount g = .ok n → IsFin n)
    (hlimit : limits.maxCorrelatedExposurePct ≠ nan) :
    ∃ c n, ctx.correlatedExposure = some c ∧ ctx.planNotionalAccount g = .ok n ∧
      Within (c + n) ctx.equity limits.maxCorrelatedExposurePct := by
  obtain ⟨present, hpresent, hrest⟩ := bind_ok h
  obtain ⟨rfl, -⟩ := requireInputs_ok hmode hpresent
  rw [if_pos rfl] at hrest
  obtain ⟨c, hc, hrest⟩ := bind_ok hrest
  obtain ⟨n, hn, hrest⟩ := bind_ok hrest
  refine ⟨c, n, asserted_ok hc, hn, capCheck_ok hrest ?_ he hlimit⟩
  exact isFin_add.2 ⟨hcorrelated c (asserted_ok hc), hnotional n hn⟩

theorem account_ok (hmode : touchesBroker ctx.mode = true)
    (h : checkMaxAccountRisk g ctx limits = .ok ()) (he : IsFin ctx.equity)
    (hopen : ∀ x ∈ ctx.openRiskAmount, IsFin x) (hrisk : IsFin ctx.plan.riskAmount)
    (hlimit : limits.maxAccountRiskPct ≠ nan) :
    ∃ o, ctx.openRiskAmount = some o ∧
      Within (o + ctx.plan.riskAmount) ctx.equity limits.maxAccountRiskPct := by
  obtain ⟨present, hpresent, hrest⟩ := bind_ok h
  obtain ⟨rfl, -⟩ := requireInputs_ok hmode hpresent
  rw [if_pos rfl] at hrest
  obtain ⟨o, ho, hrest⟩ := bind_ok hrest
  refine ⟨o, asserted_ok ho, capCheck_ok hrest ?_ he hlimit⟩
  exact isFin_add.2 ⟨hopen o (asserted_ok ho), hrisk⟩

end Passing

section Law

variable {g : Gateway} {ctx : RiskContext} {limits : LimitSet}

theorem limitsHold_of_finite (hmode : touchesBroker ctx.mode = true)
    (h : ∀ name, name ≠ .eventVeto → handler g ctx limits name = .ok ())
    (hfin : Finite g ctx limits) : LimitsHold g ctx limits := by
  have hnumber : ∀ x ∈ compared limits, x ≠ nan := hfin.numbers
  simp only [compared, List.forall_mem_cons, List.not_mem_nil, false_implies, implies_true,
    and_true] at hnumber
  obtain ⟨hdata, hprice, hspread, htrade, haccount, hinstrument, hstrategy, hcurrency, hcorrelated,
    hdaily, hweekly, hdrawdown, hmargin⟩ := hnumber
  have hnotional : ∀ n, ctx.planNotionalAccount g = .ok n → IsFin n := fun n hn =>
    (isFin_planNotionalAccount hn).2 ⟨hfin.price, hfin.size, hfin.fx⟩
  obtain ⟨n, hn, hw⟩ := exposureCheck_ok hmode (h .maxInstrumentExposure (by decide)) hfin.equity
    hfin.instrumentHeld hnotional hinstrument
  obtain ⟨n', hn', hs⟩ := exposureCheck_ok hmode (h .maxStrategyExposure (by decide)) hfin.equity
    hfin.strategyHeld hnotional hstrategy
  obtain ⟨i, n'', hi, hn'', hbase, hquote⟩ := currency_ok hmode (h .maxCurrencyExposure (by decide))
    hfin.equity hfin.currencies hnotional hcurrency
  obtain ⟨c, m, hc, hm, hcorr⟩ := correlated_ok hmode (h .maxCorrelatedExposure (by decide))
    hfin.equity hfin.correlated hnotional hcorrelated
  cases hn.symm.trans hn'
  cases hn.symm.trans hn''
  cases hn.symm.trans hm
  exact {
    numbers := hfin.numbers
    dataAge := ageCheck_ok (h .dataFreshness (by decide)) hfin.now hdata
    priceAge := ageCheck_ok (h .stalePrice (by decide)) hfin.now hprice
    spread := spread_ok (h .abnormalSpread (by decide)) hfin.spread hfin.price hspread
    health := health_ok (h .brokerHealth (by decide)) hfin.score
    perTrade := capCheck_ok (h .maxPerTradeRisk (by decide)) hfin.riskAmount hfin.equity htrade
    account := account_ok hmode (h .maxAccountRisk (by decide)) hfin.equity hfin.openRisk
      hfin.riskAmount haccount
    exposures := ⟨i, n, c, hi, hn, hc, hw, hs, hbase, hquote, hcorr⟩
    daily := lossCheck_ok hmode (h .dailyLoss (by decide)) hfin.daily hfin.equity hdaily
    weekly := lossCheck_ok hmode (h .weeklyLoss (by decide)) hfin.weekly hfin.equity hweekly
    drawdown := drawdown_ok (h .totalDrawdown (by decide)) hfin.peakEquity hfin.equity hdrawdown
    margin := margin_ok (h .marginUtilisation (by decide)) hfin.marginUsed hfin.equity
      hfin.leverage hnotional hmargin }

theorem forall_mem_of_some {x : Option Number} {y : Number} (h : x = some y) (hy : IsFin y) :
    ∀ z ∈ x, IsFin z := by
  intro z hz
  cases h.symm.trans hz
  exact hy

theorem finite_of_limitsHold (h : LimitsHold g ctx limits) : Finite g ctx limits := by
  obtain ⟨s, _, _, hspread, -⟩ := h.spread
  obtain ⟨v, hscore, -⟩ := h.health
  obtain ⟨hrisk, hequity⟩ := h.perTrade.finite
  obtain ⟨o, hopen, haccount⟩ := h.account
  obtain ⟨i, n, c, hi, hn, hc, hinstrument, hstrategy, hbase, hquote, hcorrelated⟩ := h.exposures
  obtain ⟨p, hdaily, -⟩ := h.daily
  obtain ⟨w, hweekly, -⟩ := h.weekly
  obtain ⟨peak, _, hpeak, -⟩ := h.drawdown
  obtain ⟨m, e, hm, -, hmargin⟩ := h.margin
  obtain ⟨hprice, hsize, hfx⟩ :=
    (isFin_planNotionalAccount hn).1 (isFin_add.1 hinstrument.finite.1).2
  refine {
    numbers := h.numbers
    now := h.dataAge.now_ne
    spread := forall_mem_of_some hspread isFin_fin
    score := forall_mem_of_some hscore isFin_fin
    equity := hequity
    riskAmount := hrisk
    openRisk := forall_mem_of_some hopen (isFin_add.1 haccount.finite.1).1
    price := hprice
    size := hsize
    fx := hfx
    instrumentHeld := isFin_abs.1 (isFin_add.1 hinstrument.finite.1).1
    strategyHeld := isFin_abs.1 (isFin_add.1 hstrategy.finite.1).1
    currencies := ?_
    correlated := forall_mem_of_some hc (isFin_add.1 hcorrelated.finite.1).1
    daily := forall_mem_of_some hdaily isFin_fin
    weekly := forall_mem_of_some hweekly isFin_fin
    peakEquity := ⟨peak, hpeak⟩
    marginUsed := ⟨m, hm⟩
    leverage := ?_ }
  · intro j hj
    cases hi.symm.trans hj
    exact ⟨(isFin_add.1 (isFin_abs.1 hbase.finite.1)).1,
      (isFin_add.1 (isFin_abs.1 hquote.finite.1)).1⟩
  · intro hafter
    rw [if_neg (by rw [hafter]; decide)] at hmargin
    obtain ⟨v, _, hleverage, -⟩ := hmargin
    unfold planLeverage at hleverage
    split_ifs at hleverage with hzero
    · rw [hzero]
      exact isFin_fin
    · exact ⟨v, Except.ok.inj hleverage⟩

/-- The claim of the gateway: an allowed order meets every limit, every check ran once, one
attempt is on record, and a shadow note decides nothing. -/
structure FailsClosed (g : Gateway) (ctx : RiskContext) (attempts : List ExecutionAttempt) :
    Prop where
  limits : (evaluate g ctx attempts).1.allowed = true →
    LimitsHold g ctx (ctx.limits.getD g.defaultLimits)
  once : (evaluate g ctx attempts).1.checksRun = CheckName.checks ∧ CheckName.checks.Nodup ∧
    (evaluate g ctx attempts).1.reasons = CheckName.checks.flatMap fun name =>
      votes name (handler g ctx (ctx.limits.getD g.defaultLimits) name)
  recorded : (evaluate g ctx attempts).2 = attempts ++
    [attempt g ctx (evaluate g ctx attempts).1 (ctx.limits.getD g.defaultLimits)]
  shadow : ((evaluate g ctx attempts).1.allowed = true ↔
      ∀ r ∈ (evaluate g ctx attempts).1.reasons, isShadowReason r = true) ∧
    ∀ notes, checkEventVeto ctx = .error (.noted notes) →
      (evaluate g ctx.withoutVeto attempts).1.allowed = (evaluate g ctx attempts).1.allowed

/-- In a mode that can reach a venue, the gateway fails closed exactly when some check
refuses or every number that the checks compare is finite. -/
theorem fails_closed_iff (g : Gateway) (ctx : RiskContext) (attempts : List ExecutionAttempt)
    (hmode : touchesBroker ctx.mode = true) :
    FailsClosed g ctx attempts ↔
      (∃ name, Refuses (handler g ctx (ctx.limits.getD g.defaultLimits) name)) ∨
        Finite g ctx (ctx.limits.getD g.defaultLimits) := by
  constructor
  · intro h
    by_cases hrefused : ∃ name, Refuses (handler g ctx (ctx.limits.getD g.defaultLimits) name)
    · exact .inl hrefused
    · exact .inr (finite_of_limitsHold (h.limits ((allowed_iff g ctx _).2 (not_exists.1 hrefused))))
  · intro h
    refine ⟨?_, ?_, rfl, allowed_iff_shadow g ctx _, fun notes hnotes =>
      allowed_withoutVeto g ctx _ hnotes⟩
    · intro hallowed
      have hnone := (allowed_iff g ctx _).1 hallowed
      rcases h with ⟨name, hname⟩ | hfin
      · exact absurd hname (hnone name)
      · exact limitsHold_of_finite hmode (fun name hname => passed g ctx _ hname (hnone name)) hfin
    · change (decisionOf g ctx _).checksRun = _ ∧ _ ∧ (decisionOf g ctx _).reasons = _
      rw [decisionOf_eq]
      exact ⟨rfl, CheckName.nodup_checks, rfl⟩

end Law

section Blind

def plainText : Number → String
  | .nan => "nan"
  | .inf negative => if negative then "-inf" else "inf"
  | .fin q => Text.fixed3 q

def plainFormats : Formats := ⟨Json.ratioFloats, fun _ => plainText, plainText, fun t => toString t⟩

def eurusd : ContractSpec where
  symbol := "EURUSD"
  assetClass := .fxMajor
  quote := "USD"
  pipSize := 1 / 10 ^ 4
  contractSize := 1
  minSize := 1
  sizeStep := 1
  typicalSpreadPips := 1
  typicalSpreadBps := none
  retailLeverage := 30
  tradingHours := "fx_24_5"
  shortable := true
  base := "EUR"
  venue := "oanda"

def liveGateway : Gateway where
  formats := plainFormats
  registry symbol := if symbol = "EURUSD" then some eurusd else none
  durable := true
  switchState := .ok .off
  locks := none
  defaultLimits := defaultLimits
  paperAllowsMissingInputs := false

def liveContext (equity : Number) : RiskContext where
  plan :=
    { planId := "plan-1"
      signal :=
        { signalId := "sig-1", strategyId := "trend", instrument := "EURUSD", timeframe := "H1",
          direction := .long, barTime := 0, referencePrice := fin (11 / 10),
          features := Dict.empty, reference_pos := by decide +kernel }
      size := fin 1000
      riskAmount := fin 50
      maxLeverageApplied := fin 30
      portfolioWeight := fin 1
      size_pos := by decide }
  snapshot := ⟨⟨equity, fin 0, fin 10000⟩, Dict.empty, Dict.empty, Dict.empty⟩
  now := .utc (60 * 10 ^ 9)
  mode := .live
  limits := some defaultLimits
  market :=
    { midPrice := some (fin (11 / 10)), spreadPrice := some (fin (1 / 10 ^ 4)),
      quoteTime := some (.utc (30 * 10 ^ 9)), lastBarTime := some (.utc 0), marketOpen := some true,
      regime := "trend", eventTimes := [], halted := false }
  venue := ⟨some true, some (fin 1), ""⟩
  strategy := ⟨some .live, false⟩
  requestKind := .open_
  openRiskAmount := some (fin 0)
  correlatedExposure := some (fin 0)
  dailyPnl := some (fin 0)
  weeklyPnl := some (fin 0)
  fxQuoteToAccount := some (fin (4 / 5))
  eventVeto := none

theorem finite_liveContext (equity : ℚ) :
    Finite liveGateway (liveContext (fin equity)) defaultLimits where
  numbers := by decide
  now := by
    intro h
    cases h
  spread := forall_mem_of_some rfl isFin_fin
  score := forall_mem_of_some rfl isFin_fin
  equity := isFin_fin
  riskAmount := isFin_fin
  openRisk := forall_mem_of_some rfl isFin_fin
  price := by
    have hmid : orElse (some (fin (11 / 10))) (fin (11 / 10)) = fin (11 / 10) := by decide +kernel
    exact ⟨_, hmid⟩
  size := isFin_fin
  fx := forall_mem_of_some rfl isFin_fin
  instrumentHeld := isFin_fin
  strategyHeld := isFin_fin
  currencies _ _ := ⟨isFin_fin, isFin_fin⟩
  correlated := forall_mem_of_some rfl isFin_fin
  daily := forall_mem_of_some rfl isFin_fin
  weekly := forall_mem_of_some rfl isFin_fin
  peakEquity := isFin_fin
  marginUsed := isFin_fin
  leverage _ := isFin_fin

theorem fails_closed_live : FailsClosed liveGateway (liveContext (fin 10000)) [] ∧
      (evaluate liveGateway (liveContext (fin 10000)) []).1.allowed = true :=
  ⟨(fails_closed_iff liveGateway (liveContext (fin 10000)) [] rfl).2
    (.inr (finite_liveContext 10000)), by decide +kernel⟩

/-- Every check passes: each comparison with what is not a number is false. -/
theorem allowed_on_nan_equity : ¬ FailsClosed liveGateway (liveContext nan) [] := by
  intro h
  have hallowed : (evaluate liveGateway (liveContext nan) []).1.allowed = true := by
    decide +kernel
  exact not_isFin_nan (h.limits hallowed).perTrade.finite.2

end Blind

end Fiboki.PreTrade
