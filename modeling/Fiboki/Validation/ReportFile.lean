import Fiboki.Validation.Report

/-!
Reading a stored report: what comes back of a report that was written, after one round
and after any number of them.
-/

namespace Fiboki

open Wire
open Floating (Number)

variable (text : Numerals)

def RungOutcome.read : Value → Except String RungOutcome :=
  memberValue text.toStdlib "RungOutcome" RungOutcome.members RungOutcome.value

def Comparison.read : Value → Except String Comparison :=
  memberValue text.toStdlib "Comparison" Comparison.members Comparison.value

def GateStatus.read : Value → Except String GateStatus :=
  memberValue text.toStdlib "GateStatus" GateStatus.members GateStatus.value

def Verdict.read : Value → Except String Verdict :=
  memberValue text.toStdlib "Verdict" Verdict.members Verdict.value

def StrategyLifecycle.read : Value → Except String StrategyLifecycle :=
  memberValue text.toStdlib "StrategyLifecycle" StrategyLifecycle.members StrategyLifecycle.value

def Provenance.read : Value → Except String Provenance :=
  memberValue text.toStdlib "Provenance" Provenance.members Provenance.value

theorem RungOutcome.read_value (a : RungOutcome) : RungOutcome.read text (.str a.value) = .ok a :=
  memberValue_value _ (by cases a <;> rfl)

theorem Comparison.read_value (a : Comparison) : Comparison.read text (.str a.value) = .ok a :=
  memberValue_value _ (by cases a <;> rfl)

theorem GateStatus.read_value (a : GateStatus) : GateStatus.read text (.str a.value) = .ok a :=
  memberValue_value _ (by cases a <;> rfl)

theorem Verdict.read_value (a : Verdict) : Verdict.read text (.str a.value) = .ok a :=
  memberValue_value _ (by cases a <;> rfl)

theorem StrategyLifecycle.read_value (a : StrategyLifecycle) :
    StrategyLifecycle.read text (.str a.value) = .ok a :=
  memberValue_value _ (by cases a <;> rfl)

theorem Provenance.read_value (a : Provenance) : Provenance.read text (.str a.value) = .ok a :=
  memberValue_value _ (by cases a <;> rfl)

/-- `dict(x)`, of what is a mapping. -/
def asDict (v : Value) : Except String Value := Value.dict <$> v.fields

def optFloat : Value → Except String (Option Number)
  | .null => .ok none
  | .dict es => do
    let v ← decanonicalise (.dict es)
    some <$> text.float v
  | v => some <$> text.float v

/-- A field of data: `decanonicalise(dict(raw.get(key, {})))`. -/
def dataField (key : String) (raw : Value) : Except String Data := do
  let v ← raw.fieldOr key (.dict []) asDict
  Data.ofValue <$> decanonicalise v

namespace RungResult

def fromDict (raw : Value) : Except String RungResult := do
  let index ← text.int (← raw.field "index")
  let name := text.str (← raw.field "name")
  let outcome ← RungOutcome.read text (← raw.field "outcome")
  let reason := textOr text.toStdlib raw "reason" ""
  let metrics ← dataField "metrics" raw
  let provenance ← raw.fieldOr "provenance" .backtest (Provenance.read text)
  let isEvidence ← raw.fieldOr "is_evidence" true fun v => .ok (truth v)
  if h : outcome.rejects = true → reason ≠ "" then
    .ok ⟨index, name, outcome, reason, metrics, provenance, isEvidence, h⟩
  else .error (name ++ " rejected without a reason")

end RungResult

def GateResult.fromDict (raw : Value) : Except String GateResult := do
  let g ← raw.field "gate"
  let name := text.str (← g.field "name")
  let metric := text.str (← g.field "metric")
  let comparison ← Comparison.read text (← g.field "comparison")
  let threshold ← text.float (← g.field "threshold")
  let rung ← text.int (← g.field "rung")
  let rationale := textOr text.toStdlib g "rationale" ""
  let boolean ← g.fieldOr "boolean" false fun v => .ok (truth v)
  let units := textOr text.toStdlib g "units" ""
  let value ← raw.fieldOr "value" none (optFloat text)
  let status ← GateStatus.read text (← raw.field "status")
  return ⟨⟨name, metric, comparison, threshold, rung, rationale, boolean, units⟩, value, status⟩

def BindingConstraint.fromDict (raw : Value) : Except String BindingConstraint := do
  let kind := text.str (← raw.field "kind")
  let name := text.str (← raw.field "name")
  let rungIndex ← text.int (← raw.field "rung_index")
  let reason := textOr text.toStdlib raw "reason" ""
  let observed ← raw.fieldOr "observed" Option.none (optFloat text)
  let required ← raw.fieldOr "required" Option.none (optFloat text)
  let comparison := textOr text.toStdlib raw "comparison" ""
  let shortfall ← raw.fieldOr "shortfall" Option.none (optFloat text)
  return ⟨kind, name, rungIndex, reason, observed, required, comparison, shortfall⟩

namespace ValidationReport

/-- `{str(k): str(v) for k, v in dict(raw).items()}`. -/
def readLabels (raw : Value) : Except String (Dict String String) := do
  let fields ← raw.fields
  return .ofList (fields.map fun e => (e.1, text.str e.2))

def fromDict (raw : Value) : Except String ValidationReport := do
  let strategyId := text.str (← raw.field "strategy_id")
  let strategyContentHash := text.str (← raw.field "strategy_content_hash")
  let datasetVersionId := text.str (← raw.field "dataset_version_id")
  let codeVersion := text.str (← raw.field "code_version")
  let engineConfig ← dataField "engine_config" raw
  let brokerProfile ← dataField "broker_profile" raw
  let ladderConfig ← dataField "ladder_config" raw
  let windows ← dataField "windows" raw
  let gateSetVersion := textOr text.toStdlib raw "gate_set_version" ""
  let gateSetFingerprint := textOr text.toStdlib raw "gate_set_fingerprint" ""
  let gateResults ← raw.fieldOr "gate_results" [] (readList (GateResult.fromDict text))
  let rungs ← raw.fieldOr "rungs" [] (readList (RungResult.fromDict text))
  let trialCountN ← raw.fieldOr "trial_count_n" 0 text.int
  let rawTrialCount ← raw.fieldOr "raw_trial_count" 0 text.int
  let crossTrialSharpeVariance ← raw.fieldOr "cross_trial_sharpe_variance" (.fin 0) fun v => do
    text.float (← decanonicalise v)
  let dsrVarianceSource := textOr text.toStdlib raw "dsr_variance_source" ""
  let provenanceLabels ← raw.fieldOr "provenance_labels" .empty (readLabels text)
  let verdict ← raw.fieldOr "verdict" .incomplete (Verdict.read text)
  let bindingConstraint ← raw.fieldOr "binding_constraint" .none (BindingConstraint.fromDict text)
  let lifecycleRecommendation ←
    raw.fieldOr "lifecycle_recommendation" .research (StrategyLifecycle.read text)
  let notes := textOr text.toStdlib raw "notes" ""
  let reportVersion := textOr text.toStdlib raw "report_version" Fiboki.reportVersion
  let createdAt := textOr text.toStdlib raw "created_at" ""
  let experimentId := textOr text.toStdlib raw "experiment_id" ""
  let actor := textOr text.toStdlib raw "actor" ""
  return {
    strategyId, strategyContentHash, datasetVersionId, codeVersion, engineConfig, brokerProfile,
    ladderConfig, windows, gateSetVersion, gateSetFingerprint, gateResults, rungs, trialCountN,
    rawTrialCount, crossTrialSharpeVariance, dsrVarianceSource, provenanceLabels, verdict,
    bindingConstraint, lifecycleRecommendation, notes, reportVersion, createdAt, experimentId,
    actor }

def fromJson (blob : List Char) : Except String ValidationReport :=
  match Json.loads text.floats blob with
  | some raw => fromDict text raw
  | none => .error "not JSON"

def load (bytes : List UInt8) : Except String ValidationReport :=
  match Utf8.decode bytes with
  | some blob => fromJson text blob
  | none => .error "not UTF-8"

end ValidationReport


section Fields

variable {es : List (String × Value)} (h : (es.map Prod.fst).Nodup)
include h

variable {k : String} {v : Value}

theorem field_written (hmem : Dict.lookup k es = some v) :
    (canonicalise (.dict es)).field k = .ok (canonicalise v) := by
  unfold Value.field
  rw [get?_canonicalise, Dict.get_ofList h, hmem]
  rfl

theorem fieldOr_written {α : Type} (hmem : Dict.lookup k es = some v)
    (default : α) (read : Value → Except String α) :
    (canonicalise (.dict es)).fieldOr k default read = read (canonicalise v) := by
  unfold Value.fieldOr
  rw [get?_canonicalise, Dict.get_ofList h, hmem]
  rfl

theorem textOr_written {k s : String} (hmem : Dict.lookup k es = some (.str s)) (default : String) :
    textOr text.toStdlib (canonicalise (.dict es)) k default = s := by
  unfold textOr
  rw [get?_canonicalise, Dict.get_ofList h, hmem]
  exact text.str_text s

end Fields

def Data.reread (d : Data) : Except String Data :=
  Data.ofValue <$> decanonicalise (Fiboki.canonicalise d.canonicalise)

variable {fields : List (String × Data)}

theorem dataField_written {es : List (String × Value)} (h : (es.map Prod.fst).Nodup) {k : String}
    (hmem : Dict.lookup k es = some (Data.mapping fields).canonicalise) :
    dataField k (canonicalise (.dict es)) = (Data.mapping fields).reread := by
  unfold dataField Data.reread
  rw [fieldOr_written h hmem]
  rfl

@[simp] theorem canonicalise_str (s : String) : canonicalise (.str s) = .str s := rfl

@[simp] theorem canonicalise_int (z : ℤ) : canonicalise (.int z) = .int z := rfl

@[simp] theorem canonicalise_bool (b : Bool) : canonicalise (.bool b) = .bool b := rfl

theorem decanonicalise_number (x : Number) :
    decanonicalise (canonicalise (numberValue x)) = .ok (numberValue x) := by
  cases x with
  | nan => rfl
  | inf negative => cases negative <;> rfl
  | fin q => rfl

theorem optFloat_written (o : Option Number) :
    optFloat text (canonicalise (writeOption numberValue o)) = .ok o := by
  cases o with
  | none => rfl
  | some x =>
    have hread := text.float_number x
    have hback := decanonicalise_number x
    cases x with
    | fin q =>
      change some <$> text.float (numberValue (.fin q)) = _
      rw [hread]
      rfl
    | nan =>
      change (decanonicalise (canonicalise (numberValue .nan)) >>= fun v =>
        some <$> text.float v) = _
      rw [hback, ok_bind, hread]
      rfl
    | inf negative =>
      change (decanonicalise (canonicalise (numberValue (.inf negative))) >>= fun v =>
        some <$> text.float v) = _
      rw [hback, ok_bind, hread]
      rfl

theorem nodup_gate (g : Gate) : (g.entries.map Prod.fst).Nodup := by
  show ["name", "metric", "comparison", "threshold", "rung", "boolean", "units",
    "rationale"].Nodup
  decide

theorem nodup_gateResult (g : GateResult) : ((g.entries text).map Prod.fst).Nodup := by
  show ["gate", "value", "status", "passed", "shortfall", "description"].Nodup
  decide

theorem gateResult_written {g : GateResult} {q : ℚ} (hq : g.gate.threshold = .fin q) :
    GateResult.fromDict text (canonicalise (g.toDict text)) = .ok g := by
  have hgate := nodup_gate g.gate
  have hresult := nodup_gateResult text g
  unfold GateResult.fromDict GateResult.toDict
  rw [field_written hresult (k := "gate") (v := .dict g.gate.entries) rfl,
    fieldOr_written hresult (k := "value") (v := writeOption numberValue g.value) rfl,
    field_written hresult (k := "status") (v := .str g.status.value) rfl]
  simp only [ok_bind]
  rw [field_written hgate (k := "name") (v := .str g.gate.name) rfl,
    field_written hgate (k := "metric") (v := .str g.gate.metric) rfl,
    field_written hgate (k := "comparison") (v := .str g.gate.comparison.value) rfl,
    field_written hgate (k := "threshold") (v := numberValue g.gate.threshold) rfl,
    field_written hgate (k := "rung") (v := .int g.gate.rung) rfl,
    textOr_written text hgate (k := "rationale") (s := g.gate.rationale) rfl,
    fieldOr_written hgate (k := "boolean") (v := .bool g.gate.boolean) rfl,
    textOr_written text hgate (k := "units") (s := g.gate.units) rfl]
  have hthreshold :
      text.float (canonicalise (numberValue g.gate.threshold)) = .ok g.gate.threshold := by
    have hread := text.float_number g.gate.threshold
    rw [hq] at hread ⊢
    exact hread
  simp only [ok_bind, canonicalise_str, canonicalise_int, canonicalise_bool, hthreshold,
    optFloat_written, text.str_text, text.int_int, Comparison.read_value, GateStatus.read_value,
    truth]
  rfl

theorem nodup_rung (r : RungResult) : (r.entries.map Prod.fst).Nodup := by
  show ["index", "name", "label", "outcome", "reason", "metrics", "provenance",
    "is_evidence"].Nodup
  decide

def RungResult.reread (r : RungResult) : Except String RungResult := do
  let metrics ← r.metrics.reread
  return { r with metrics }

theorem rung_written {r : RungResult} (hmetrics : r.metrics = .mapping fields) :
    RungResult.fromDict text (canonicalise r.toDict) = r.reread := by
  have hrung := nodup_rung r
  have hdata : dataField "metrics" (canonicalise (.dict r.entries)) = r.metrics.reread := by
    rw [hmetrics]
    refine dataField_written hrung ?_
    rw [← hmetrics]
    rfl
  unfold RungResult.fromDict RungResult.toDict RungResult.reread
  rw [hdata, field_written hrung (k := "index") (v := .int r.index) rfl,
    field_written hrung (k := "name") (v := .str r.name) rfl,
    field_written hrung (k := "outcome") (v := .str r.outcome.value) rfl,
    textOr_written text hrung (k := "reason") (s := r.reason) rfl,
    fieldOr_written hrung (k := "provenance") (v := .str r.provenance.value) rfl,
    fieldOr_written hrung (k := "is_evidence") (v := .bool r.isEvidence) rfl]
  simp only [ok_bind, canonicalise_str, canonicalise_int, canonicalise_bool, text.str_text,
    text.int_int, RungOutcome.read_value, Provenance.read_value, truth, dif_pos r.reasoned]
  rfl

variable (b : BindingConstraint)

theorem nodup_binding : ((b.entries text).map Prod.fst).Nodup := by
  show ["kind", "name", "rung_index", "reason", "observed", "required", "comparison", "shortfall",
    "description"].Nodup
  decide

theorem binding_written :
    BindingConstraint.fromDict text (canonicalise (b.toDict text)) = .ok b := by
  have hbinding := nodup_binding text b
  unfold BindingConstraint.fromDict BindingConstraint.toDict
  rw [field_written hbinding (k := "kind") (v := .str b.kind) rfl,
    field_written hbinding (k := "name") (v := .str b.name) rfl,
    field_written hbinding (k := "rung_index") (v := .int b.rungIndex) rfl,
    textOr_written text hbinding (k := "reason") (s := b.reason) rfl,
    fieldOr_written hbinding (k := "observed") (v := writeOption numberValue b.observed) rfl,
    fieldOr_written hbinding (k := "required") (v := writeOption numberValue b.required) rfl,
    textOr_written text hbinding (k := "comparison") (s := b.comparison) rfl,
    fieldOr_written hbinding (k := "shortfall") (v := writeOption numberValue b.shortfall) rfl]
  simp only [ok_bind, canonicalise_str, canonicalise_int, optFloat_written, text.str_text,
    text.int_int]
  rfl

variable {α β : Type}

variable {read : Value → Except String β} {again : α → Except String β}

variable {write : α → Value} {xs : List α}

theorem mapM_written (h : ∀ x ∈ xs, read (write x) = again x) :
    (xs.map write).mapM read = xs.mapM again := by
  induction xs with
  | nil => rfl
  | cons x xs ih =>
    have hx := h x List.mem_cons_self
    have hxs := ih fun y hy => h y (List.mem_cons_of_mem _ hy)
    rw [List.map_cons, List.mapM_cons, List.mapM_cons, hx, hxs]

theorem readList_written
    (h : ∀ x ∈ xs, read (canonicalise (write x)) = again x) :
    readList read (canonicalise (.list (xs.map write))) = xs.mapM again := by
  rw [canonicalise, canonicaliseItems_eq_map, List.map_map]
  exact mapM_written h

theorem mapM_ok {α : Type} (xs : List α) : xs.mapM (.ok : α → Except String α) = .ok xs := by
  induction xs with
  | nil => rfl
  | cons x xs ih =>
    rw [List.mapM_cons, ih]
    rfl

namespace ValidationReport

variable (r : ValidationReport)

theorem nodup_entries : ((r.entries text).map Prod.fst).Nodup := by
  show ["report_version", "created_at", "experiment_id", "actor", "strategy_id",
    "strategy_content_hash", "dataset_version_id", "code_version", "engine_config",
    "broker_profile", "ladder_config", "windows", "gate_set_version", "gate_set_fingerprint",
    "gate_results", "rungs", "trial_count_n", "raw_trial_count", "cross_trial_sharpe_variance",
    "dsr_variance_source", "provenance_labels", "verdict", "binding_constraint",
    "lifecycle_recommendation", "notes"].Nodup
  decide

theorem labels_written (labels : Dict String String) :
    readLabels text (canonicalise (.dict (labels.map Value.str).entries)) = .ok labels := by
  have hcanonical : Canonical (.dict (labels.map Value.str).entries) := by
    refine ⟨(labels.map Value.str).sorted, canonicalFields_iff.2 fun e he => ?_⟩
    obtain ⟨a, -, rfl⟩ := List.mem_map.1 he
    trivial
  rw [canonicalise_of_canonical hcanonical]
  have hfields : ((labels.map Value.str).entries.map fun e => (e.1, text.str e.2)) =
      labels.entries := by
    change ((labels.entries.map fun e => (e.1, Value.str e.2)).map fun e => (e.1, text.str e.2)) = _
    rw [List.map_map]
    refine (List.map_congr_left fun e _ => ?_).trans (List.map_id _)
    exact congrArg (Prod.mk e.1) (text.str_text e.2)
  unfold readLabels Value.fields
  rw [ok_bind, hfields, Dict.ofList_entries]
  rfl

theorem variance_written (x : Number) :
    (do text.float (← decanonicalise (canonicalise (Data.float x).canonicalise))) = .ok x := by
  have hview : (Data.float x).canonicalise = canonicalise (numberValue x) := by
    cases x <;> rfl
  rw [hview, canonicalise_of_canonical (canonical_canonicalise _), decanonicalise_number, ok_bind]
  exact text.float_number x

def reread (r : ValidationReport) : Except String ValidationReport := do
  let engineConfig ← r.engineConfig.reread
  let brokerProfile ← r.brokerProfile.reread
  let ladderConfig ← r.ladderConfig.reread
  let windows ← r.windows.reread
  let rungs ← r.rungs.mapM RungResult.reread
  return { r with engineConfig, brokerProfile, ladderConfig, windows, rungs }

/-- What holds of a report that was built from finite thresholds: its data are mappings. -/
structure Plain (r : ValidationReport) : Prop where
  engineConfig : ∃ es, r.engineConfig = .mapping es
  brokerProfile : ∃ es, r.brokerProfile = .mapping es
  ladderConfig : ∃ es, r.ladderConfig = .mapping es
  windows : ∃ es, r.windows = .mapping es
  metrics : ∀ rung ∈ r.rungs, ∃ es, rung.metrics = .mapping es
  thresholds : ∀ g ∈ r.gateResults, ∃ q, g.gate.threshold = .fin q

theorem dataField_entries {k : String} {d : Data}
    (hd : ∃ es, d = .mapping es) (hmem : Dict.lookup k (r.entries text) = some d.canonicalise) :
    dataField k (canonicalise (.dict (r.entries text))) = d.reread := by
  obtain ⟨es, rfl⟩ := hd
  exact dataField_written (nodup_entries text r) hmem

theorem fromDict_toDict {r : ValidationReport} (h : r.Plain) :
    fromDict text (canonicalise (r.toDict text)) = r.reread := by
  have hr := nodup_entries text r
  have hgates : readList (GateResult.fromDict text)
      (canonicalise (.list (r.gateResults.map (GateResult.toDict text)))) = .ok r.gateResults := by
    refine Eq.trans (readList_written fun g hg => ?_) (mapM_ok r.gateResults)
    obtain ⟨q, hq⟩ := h.thresholds g hg
    exact gateResult_written text hq
  have hrungs : readList (RungResult.fromDict text)
      (canonicalise (.list (r.rungs.map RungResult.toDict))) = r.rungs.mapM RungResult.reread := by
    refine readList_written fun rung hrung => ?_
    obtain ⟨es, hes⟩ := h.metrics rung hrung
    exact rung_written text hes
  unfold fromDict toDict reread
  rw [dataField_entries text r h.engineConfig rfl, dataField_entries text r h.brokerProfile rfl,
    dataField_entries text r h.ladderConfig rfl, dataField_entries text r h.windows rfl,
    field_written hr (k := "strategy_id") (v := .str r.strategyId) rfl,
    field_written hr (k := "strategy_content_hash") (v := .str r.strategyContentHash) rfl,
    field_written hr (k := "dataset_version_id") (v := .str r.datasetVersionId) rfl,
    field_written hr (k := "code_version") (v := .str r.codeVersion) rfl,
    textOr_written text hr (k := "gate_set_version") (s := r.gateSetVersion) rfl,
    textOr_written text hr (k := "gate_set_fingerprint") (s := r.gateSetFingerprint) rfl,
    fieldOr_written hr (k := "gate_results")
      (v := .list (r.gateResults.map (GateResult.toDict text))) rfl,
    fieldOr_written hr (k := "rungs") (v := .list (r.rungs.map RungResult.toDict)) rfl,
    fieldOr_written hr (k := "trial_count_n") (v := .int r.trialCountN) rfl,
    fieldOr_written hr (k := "raw_trial_count") (v := .int r.rawTrialCount) rfl,
    fieldOr_written hr (k := "cross_trial_sharpe_variance")
      (v := (Data.float r.crossTrialSharpeVariance).canonicalise) rfl,
    textOr_written text hr (k := "dsr_variance_source") (s := r.dsrVarianceSource) rfl,
    fieldOr_written hr (k := "provenance_labels")
      (v := .dict (r.provenanceLabels.map Value.str).entries) rfl,
    fieldOr_written hr (k := "verdict") (v := .str r.verdict.value) rfl,
    fieldOr_written hr (k := "binding_constraint") (v := r.bindingConstraint.toDict text) rfl,
    fieldOr_written hr (k := "lifecycle_recommendation")
      (v := .str r.lifecycleRecommendation.value) rfl,
    textOr_written text hr (k := "notes") (s := r.notes) rfl,
    textOr_written text hr (k := "report_version") (s := r.reportVersion) rfl,
    textOr_written text hr (k := "created_at") (s := r.createdAt) rfl,
    textOr_written text hr (k := "experiment_id") (s := r.experimentId) rfl,
    textOr_written text hr (k := "actor") (s := r.actor) rfl,
    hgates, hrungs, labels_written, variance_written, binding_written]
  simp only [ok_bind, canonicalise_str, canonicalise_int, text.str_text, text.int_int,
    Verdict.read_value, StrategyLifecycle.read_value]

end ValidationReport

theorem Data.reread_ok {d : Data} (h : d.Distinct) : (∃ d', d.reread = .ok d') ↔ d.Readable := by
  rw [← Data.readable_written h]
  unfold Data.reread
  constructor
  · rintro ⟨d', hd⟩
    obtain ⟨x, hx, -⟩ := bind_ok hd
    exact ⟨x, hx⟩
  · rintro ⟨x, hx⟩
    exact ⟨Data.ofValue x, by rw [hx]; rfl⟩

theorem Data.canonicalise_reread {d d' : Data} (h : d.reread = .ok d') :
    Fiboki.canonicalise d'.canonicalise = Fiboki.canonicalise d.canonicalise := by
  obtain ⟨x, hx, hd⟩ := bind_ok h
  cases hd
  have hcanonical := canonical_canonicalise d.canonicalise
  have hview : (Data.ofValue x).canonicalise = Fiboki.canonicalise d.canonicalise :=
    (Data.canonicalise_ofValue x).trans (canonicalise_decanonicalise hcanonical hx)
  change Fiboki.canonicalise (Data.ofValue x).canonicalise = _
  rw [hview, canonicalise_of_canonical hcanonical]

theorem map_of_mapM {again : α → Except String α} {f : α → β} {xs ys : List α}
    (h : xs.mapM again = .ok ys) (hf : ∀ x y, again x = .ok y → f y = f x) :
    ys.map f = xs.map f := by
  have hread := forall₂_of_mapM h
  clear h
  induction hread with
  | nil => rfl
  | cons hy _ ih => rw [List.map_cons, List.map_cons, hf _ _ hy, ih]

namespace RungResult

variable {r r' : RungResult}

theorem reread_eq (h : r.reread = .ok r') :
    ∃ metrics, r.metrics.reread = .ok metrics ∧ r' = { r with metrics } := by
  obtain ⟨metrics, hm, h⟩ := bind_ok h
  cases h
  exact ⟨metrics, hm, rfl⟩

theorem canonicalise_reread (h : r.reread = .ok r') :
    canonicalise r'.toDict = canonicalise r.toDict := by
  obtain ⟨metrics, hm, rfl⟩ := reread_eq h
  have hview := Data.canonicalise_reread hm
  unfold toDict entries
  rw [canonicalise, canonicalise]
  simp only [canonicaliseFields, hview]
  rfl

end RungResult

namespace ValidationReport

variable {r r' : ValidationReport}

def data (r : ValidationReport) : List Data :=
  [r.engineConfig, r.brokerProfile, r.ladderConfig, r.windows] ++ r.rungs.map RungResult.metrics

theorem reread_eq (h : r.reread = .ok r') : ∃ engineConfig brokerProfile ladderConfig windows rungs,
      r.engineConfig.reread = .ok engineConfig ∧ r.brokerProfile.reread = .ok brokerProfile ∧
      r.ladderConfig.reread = .ok ladderConfig ∧ r.windows.reread = .ok windows ∧
      r.rungs.mapM RungResult.reread = .ok rungs ∧
      r' = { r with engineConfig, brokerProfile, ladderConfig, windows, rungs } := by
  obtain ⟨engineConfig, he, h⟩ := bind_ok h
  obtain ⟨brokerProfile, hb, h⟩ := bind_ok h
  obtain ⟨ladderConfig, hl, h⟩ := bind_ok h
  obtain ⟨windows, hw, h⟩ := bind_ok h
  obtain ⟨rungs, hr, h⟩ := bind_ok h
  cases h
  exact ⟨engineConfig, brokerProfile, ladderConfig, windows, rungs, he, hb, hl, hw, hr, rfl⟩

theorem reread_ok : (∃ r', r.reread = .ok r') ↔ ∀ d ∈ r.data, ∃ d', d.reread = .ok d' := by
  unfold data
  constructor
  · rintro ⟨r', h⟩
    obtain ⟨e, b, l, w, rungs, he, hb, hl, hw, hr, -⟩ := reread_eq h
    simp only [List.forall_mem_append, List.forall_mem_cons, List.forall_mem_map]
    refine ⟨⟨⟨e, he⟩, ⟨b, hb⟩, ⟨l, hl⟩, ⟨w, hw⟩, ?_⟩, ?_⟩
    · intro d hd
      cases hd
    · intro rung hrung
      obtain ⟨rung', hrung'⟩ := mapM_isOk.1 ⟨rungs, hr⟩ rung hrung
      obtain ⟨metrics, hm, -⟩ := RungResult.reread_eq hrung'
      exact ⟨metrics, hm⟩
  · intro h
    simp only [List.forall_mem_append, List.forall_mem_cons, List.forall_mem_map] at h
    obtain ⟨⟨⟨e, he⟩, ⟨b, hb⟩, ⟨l, hl⟩, ⟨w, hw⟩, -⟩, hmetrics⟩ := h
    have hrungs : ∃ rungs, r.rungs.mapM RungResult.reread = .ok rungs := by
      refine mapM_isOk.2 fun rung hrung => ?_
      obtain ⟨metrics, hm⟩ := hmetrics rung hrung
      exact ⟨{ rung with metrics }, by unfold RungResult.reread; rw [hm]; rfl⟩
    obtain ⟨rungs, hr⟩ := hrungs
    refine ⟨{ r with
      engineConfig := e, brokerProfile := b, ladderConfig := l, windows := w, rungs }, ?_⟩
    unfold reread
    rw [he, hb, hl, hw, hr]
    rfl

theorem canonicalise_reread (h : r.reread = .ok r') :
    canonicalise (r'.toDict text) = canonicalise (r.toDict text) := by
  obtain ⟨e, b, l, w, rungs, he, hb, hl, hw, hr, rfl⟩ := reread_eq h
  have hrungs : canonicalise (.list (rungs.map RungResult.toDict)) =
      canonicalise (.list (r.rungs.map RungResult.toDict)) := by
    simp only [canonicalise, canonicaliseItems_eq_map, List.map_map]
    exact congrArg Value.list (map_of_mapM hr fun _ _ hxy => RungResult.canonicalise_reread hxy)
  unfold toDict entries
  rw [canonicalise, canonicalise]
  simp only [canonicaliseFields, hrungs, Data.canonicalise_reread he, Data.canonicalise_reread hb,
    Data.canonicalise_reread hl, Data.canonicalise_reread hw]

structure Keeps (r r' : ValidationReport) : Prop where
  toJson : r'.toJson text = r.toJson text
  contentHash : r'.contentHash text = r.contentHash text
  verdict : r'.verdict = r.verdict
  bindingConstraint : r'.bindingConstraint = r.bindingConstraint
  gateResults : r'.gateResults = r.gateResults
  outcomes : r'.rungs.map RungResult.outcome = r.rungs.map RungResult.outcome

theorem keeps_refl (r : ValidationReport) : Keeps text r r := ⟨rfl, rfl, rfl, rfl, rfl, rfl⟩

theorem keeps_reread (h : r.reread = .ok r') : Keeps text r r' := by
  have hview := canonicalise_reread text h
  have hdumps : ∀ style, dumps text style (r'.toDict text) = dumps text style (r.toDict text) := by
    intro style
    unfold dumps
    rw [hview]
  obtain ⟨e, b, l, w, rungs, -, -, -, -, hr, rfl⟩ := reread_eq h
  refine ⟨hdumps _, ?_, rfl, rfl, rfl, ?_⟩
  · unfold contentHash
    rw [hdumps]
  · refine map_of_mapM hr fun x y hxy => ?_
    obtain ⟨metrics, -, rfl⟩ := RungResult.reread_eq hxy
    rfl

theorem fromJson_toJson (h : r.Plain) : fromJson text (r.toJson text) = r.reread := by
  unfold fromJson toJson
  rw [loads_dumps]
  exact fromDict_toDict text h

theorem load_save (r : ValidationReport) :
    load text (r.save text) = fromJson text (r.toJson text) := by
  unfold load save
  rw [Utf8.decode_encode]

def rounds : ℕ → ValidationReport → Except String ValidationReport
  | 0, r => .ok r
  | n + 1, r => do
    let r ← load text (r.save text)
    rounds n r

def Survives (r : ValidationReport) : Prop :=
  (∃ r', fromJson text (r.toJson text) = .ok r' ∧ Keeps text r r') ∧
    ∀ n, ∃ r', rounds text n r = .ok r' ∧ Keeps text r r'

theorem rounds_eq (h : r.Plain) (hr : r.reread = .ok r') (n : ℕ) :
    rounds text (n + 1) r = .ok r' := by
  have hload : ∀ s : ValidationReport, s.toJson text = r.toJson text →
      load text (s.save text) = .ok r' := by
    intro s hs
    rw [load_save, hs, fromJson_toJson text h, hr]
  have hkeep := (keeps_reread text hr).toJson
  have hstay : ∀ m, rounds text m r' = .ok r' := by
    intro m
    induction m with
    | zero => rfl
    | succ m ih =>
      unfold rounds
      rw [hload r' hkeep, ok_bind, ih]
  unfold rounds
  rw [hload r rfl, ok_bind, hstay]

theorem survives_iff_reread (h : r.Plain) : r.Survives text ↔ ∃ r', r.reread = .ok r' := by
  constructor
  · rintro ⟨⟨r', hr, -⟩, -⟩
    rw [fromJson_toJson text h] at hr
    exact ⟨r', hr⟩
  · rintro ⟨r', hr⟩
    have hkeep := keeps_reread text hr
    refine ⟨⟨r', (fromJson_toJson text h).trans hr, hkeep⟩, ?_⟩
    intro n
    cases n with
    | zero => exact ⟨r, rfl, keeps_refl text r⟩
    | succ n => exact ⟨r', rounds_eq text h hr n, hkeep⟩

end ValidationReport

/-- Parts as they come: metrics are mappings, thresholds finite, and the keys of every mapping
have distinct texts. -/
structure ReportParts.Valid (parts : ReportParts) : Prop where
  metrics : ∀ rung ∈ parts.rungs, ∃ es, rung.metrics = .mapping es
  thresholds : ∀ g ∈ parts.gateResults, ∃ q, g.gate.threshold = .fin q
  distinct : ∀ d ∈ (ValidationReport.build text parts).data, d.Distinct

namespace ValidationReport

theorem plain_build {parts : ReportParts} (h : parts.Valid text) : (build text parts).Plain where
  engineConfig := ⟨_, rfl⟩
  brokerProfile := ⟨_, rfl⟩
  ladderConfig := ⟨_, rfl⟩
  windows := ⟨_, rfl⟩
  metrics := h.metrics
  thresholds := h.thresholds

/-- A stored report is the report exactly when no mapping of its metrics and configurations
has the tag of a number as its only key and something else than such a number in it. -/
theorem stored_report (parts : ReportParts) (h : parts.Valid text) :
    (build text parts).Survives text ↔ ∀ d ∈ (build text parts).data, d.Readable := by
  rw [survives_iff_reread text (plain_build text h), reread_ok]
  exact forall₂_congr fun d hd => Data.reread_ok (h.distinct d hd)

end ValidationReport

namespace StoredSample

def numerals : Numerals where
  toStdlib := epochStdlib
  general _ x :=
    match x with
    | .fin q => String.ofList (Json.intText q.num)
    | .nan => "nan"
    | .inf negative => if negative then "-inf" else "inf"
  float v :=
    match v with
    | .nan => .ok .nan
    | .inf negative => .ok (.inf negative)
    | .num q => .ok (.fin q)
    | .int z => .ok (.fin z)
    | _ => .error "not a number"
  float_number x := by cases x <;> rfl

def gate : Gate := ⟨"min_trades", "n_trades", .gte, .fin 400, 0, "", false, "trades"⟩

def parts (metrics : List (String × Data)) : ReportParts where
  strategyId := "s"
  strategyContentHash := "h"
  datasetVersionId := "d"
  gateSet := ⟨"v1", [gate], List.nodup_singleton _⟩
  gateResults := [gate.evaluate (some (.fin 450)) true]
  rungs := [⟨0, "SANITY", .pass, "", .mapping metrics, .backtest, true,
    fun h => absurd h (by decide)⟩]
  engineConfig := [("seed", .int 7)]
  brokerProfile := []
  ladderConfig := []
  windows := []
  trialCountN := 0
  rawTrialCount := 0
  crossTrialSharpeVariance := .nan
  dsrVarianceSource := ""
  provenanceLabels := .empty
  experimentId := ""
  actor := ""
  notes := ""
  codeVersion := "unknown"
  createdAt := "1970-01-01T00:00:00+00:00"

variable {metrics : List (String × Data)}

theorem mem_data {d : Data} (hd : d ∈ (ValidationReport.build numerals (parts metrics)).data) :
    d = .mapping [("seed", .int 7)] ∨ d = .mapping [] ∨ d = .mapping metrics := by
  simp only [ValidationReport.data, ValidationReport.build, parts, List.map_cons, List.map_nil,
    List.cons_append, List.nil_append, List.mem_cons, List.not_mem_nil, or_false] at hd
  tauto

theorem valid_parts (h : (Data.mapping metrics).Distinct) :
    (parts metrics).Valid numerals where
  metrics rung hrung := by
    rw [List.mem_singleton.1 hrung]
    exact ⟨metrics, rfl⟩
  thresholds g hg := by
    rw [List.mem_singleton.1 hg]
    exact ⟨400, rfl⟩
  distinct d hd := by
    have hseed : ([("seed", Data.int 7)].map Prod.fst).Nodup := List.nodup_singleton _
    rcases mem_data hd with rfl | rfl | rfl
    · exact ⟨hseed, trivial, trivial⟩
    · exact ⟨List.nodup_nil, trivial⟩
    · exact h

def tagged : List (String × Data) := [("units", .mapping [("$float", .str "price")])]

theorem tagged_distinct : (Data.mapping tagged).Distinct :=
  ⟨List.nodup_singleton _, ⟨List.nodup_singleton _, trivial, trivial⟩, trivial⟩

/-- A report that carries it cannot be loaded. -/
theorem tagged_report_lost : (parts tagged).Valid numerals ∧
      ¬ (ValidationReport.build numerals (parts tagged)).Survives numerals := by
  have hvalid := valid_parts tagged_distinct
  refine ⟨hvalid, ?_⟩
  rw [ValidationReport.survives_iff_reread numerals (ValidationReport.plain_build numerals hvalid),
    ValidationReport.reread_ok]
  intro hall
  have hmem : Data.mapping tagged ∈ (ValidationReport.build numerals (parts tagged)).data := by
    unfold ValidationReport.data
    exact List.mem_append_right _ List.mem_cons_self
  obtain ⟨d', hd⟩ := hall _ hmem
  cases hd

def nested : List (String × Data) :=
  [("sharpe", .float .nan),
    ("windows", .seq [.mapping [("edge", .float (.inf true))], .array (.seq [.float .nan])]),
    ("tags", .set [("b", .str "b"), ("a", .enum (.str "a"))]),
    ("tag", .mapping [("$float", .str "nan")])]

theorem nested_distinct : (Data.mapping nested).Distinct := by
  have hkeys : (nested.map Prod.fst).Nodup := by
    show ["sharpe", "windows", "tags", "tag"].Nodup
    decide
  refine ⟨hkeys, trivial, ⟨⟨List.nodup_singleton _, trivial, trivial⟩, ⟨trivial, trivial⟩, trivial⟩,
    ⟨trivial, trivial, trivial⟩, ⟨List.nodup_singleton _, trivial, trivial⟩, trivial⟩

theorem stored_report_nested :
    (ValidationReport.build numerals (parts nested)).Survives numerals := by
  refine (ValidationReport.stored_report numerals (parts nested) (valid_parts nested_distinct)).2 ?_
  intro d hd
  have hlook : ∀ d, [("$float", Data.str "nan")] = [("$float", d)] →
      d.text? = some "nan" ∨ d.text? = some "inf" ∨ d.text? = some "-inf" := by
    rintro d h
    cases h
    exact .inl rfl
  have hother : ∀ (k : String) (e : Data) (es : List (String × Data)), k ≠ "$float" →
      ∀ d, (k, e) :: es = [("$float", d)] →
        d.text? = some "nan" ∨ d.text? = some "inf" ∨ d.text? = some "-inf" := by
    intro k e es hk d h
    cases h
    exact absurd rfl hk
  rcases mem_data hd with rfl | rfl | rfl
  · exact ⟨hother _ _ _ (by decide), trivial, trivial⟩
  · exact ⟨fun d h => absurd h (List.cons_ne_nil _ _).symm, trivial⟩
  · exact ⟨hother _ _ _ (by decide), trivial,
      ⟨⟨hother _ _ _ (by decide), trivial, trivial⟩, ⟨trivial, trivial⟩, trivial⟩,
      ⟨trivial, trivial, trivial⟩, ⟨hlook, trivial, trivial⟩, trivial⟩

end StoredSample

end Fiboki
