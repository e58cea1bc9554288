import Fiboki.Agents.JobLaw
import Fiboki.Core.Stdlib
import Fiboki.Lib.Floating
import Fiboki.Lib.TypedJson
import Mathlib.Data.Finset.Basic

/-!
The spec of a job as its caller builds it, what the ledger records of it, and what the handler
of every attempt is given of its payload.
-/

namespace Fiboki

open Wire TypedJson Floating Runs

def JobType.all : List JobType :=
  [backtest, validation, walkforward, ablation, sensitivity, dataQualityScan, regimeScan,
    librarianFiling]

def JobType.value : JobType → String
  | backtest => "backtest"
  | validation => "validation"
  | walkforward => "walkforward"
  | ablation => "ablation"
  | sensitivity => "sensitivity"
  | dataQualityScan => "data_quality_scan"
  | regimeScan => "regime_scan"
  | librarianFiling => "librarian_filing"

inductive Capability where
  | readMarketData
  | readDataQuality
  | readRegime
  | readExperiments
  | readResearchMemory
  | readStrategy
  | readValidationReport
  | readTradeLedger
  | readPortfolio
  | readExecutionTelemetry
  | readAuditLedger
  | readExternalWeb
  | readForecastScores
  | readNewsSnapshot
  | writeHypothesis
  | writeStrategyProposal
  | writeStrategyMutation
  | writeExperimentDesign
  | writeCritique
  | writeResearchNote
  | writeForecast
  | writeEventAnnotation
  | writeDebateTurn
  | writeConviction
  | submitJob
  deriving DecidableEq

namespace Capability

def all : List Capability :=
  [readMarketData, readDataQuality, readRegime, readExperiments, readResearchMemory, readStrategy,
    readValidationReport, readTradeLedger, readPortfolio, readExecutionTelemetry, readAuditLedger,
    readExternalWeb, readForecastScores, readNewsSnapshot, writeHypothesis, writeStrategyProposal,
    writeStrategyMutation, writeExperimentDesign, writeCritique, writeResearchNote, writeForecast,
    writeEventAnnotation, writeDebateTurn, writeConviction, submitJob]

def value : Capability → String
  | readMarketData => "read:market_data"
  | readDataQuality => "read:data_quality"
  | readRegime => "read:regime"
  | readExperiments => "read:experiments"
  | readResearchMemory => "read:research_memory"
  | readStrategy => "read:strategy"
  | readValidationReport => "read:validation_report"
  | readTradeLedger => "read:trade_ledger"
  | readPortfolio => "read:portfolio"
  | readExecutionTelemetry => "read:execution_telemetry"
  | readAuditLedger => "read:audit_ledger"
  | readExternalWeb => "read:external_web"
  | readForecastScores => "read:forecast_scores"
  | readNewsSnapshot => "read:news_snapshot"
  | writeHypothesis => "write:hypothesis"
  | writeStrategyProposal => "write:strategy_proposal"
  | writeStrategyMutation => "write:strategy_mutation"
  | writeExperimentDesign => "write:experiment_design"
  | writeCritique => "write:critique"
  | writeResearchNote => "write:research_note"
  | writeForecast => "write:forecast"
  | writeEventAnnotation => "write:event_annotation"
  | writeDebateTurn => "write:debate_turn"
  | writeConviction => "write:conviction"
  | submitJob => "submit:job"

end Capability

/-- The fields of a `JobSpec`, before or after `__post_init__`. -/
structure JobSpecFields where
  jobType : JobType
  queue : String
  payload : List (TypedJson.Key × Obj)
  idempotencyKey : String := ""
  submittedBy : String := ""
  role : String := ""
  requiredCapabilities : Finset Capability := ∅
  maxAttempts : ℤ := 3
  backoffSeconds : Number := .fin 1
  backoffFactor : Number := .fin 2
  maxBackoffSeconds : Number := .fin 300
  scheduledFor : Option Timestamp := none
  trigger : String := "manual"
  auditActionId : Option String := none
  createdAt : Option Timestamp := none

section Records

/-- `json.dumps` with the separators `(",", ":")` of a value whose keys are sorted. -/
def compactText (floats : Json.FloatText) (v : Value) : List Char :=
  Json.write floats (Json.compact Json.Escape.ascii) 0 v

variable (std : Stdlib) (digest : List Char → String)

/-- `canonical_key`, where `digest` is the start of the SHA-256; `none` where it raises, or for
a payload with a NaN for a key, which is not recorded. -/
def canonicalKey (jobType : JobType) (payload : List (TypedJson.Key × Obj)) : Option String :=
  (encode std.floats true
    (textKeyed [("job_type", .str jobType.value), ("payload", .dict payload)])).map fun v =>
      jobType.value ++ ":" ++ digest (compactText std.floats v)

namespace JobSpecFields

def postInit (s : JobSpecFields) : Except String JobSpecFields :=
  if s.queue = "" then .error "a job needs a named queue"
  else if s.maxAttempts < 1 then .error "max_attempts must be >= 1"
  else if s.backoffSeconds.lt (.fin 0) || s.backoffFactor.lt (.fin 1) then
    .error "backoff must be non-negative with a factor >= 1"
  else if s.idempotencyKey = "" then
    match canonicalKey std digest s.jobType s.payload with
    | some key => .ok { s with idempotencyKey := key }
    | none => .error "TypeError"
  else .ok s

def floatObj : Number → Obj
  | .nan => .nan
  | .inf negative => .inf negative
  | .fin q => .num q

def isoObj : Option Timestamp → Obj
  | none => .none
  | some t => .str (std.isoformat t)

def textObj : Option String → Obj
  | none => .none
  | some s => .str s

def capabilityValues (caps : Finset Capability) : List String :=
  (StableSort.sortBy Capability.value (Capability.all.filter fun c => c ∈ caps)).map
    Capability.value

/-- The `body` of `_spec_to_json`. -/
def body (s : JobSpecFields) : List (String × Obj) :=
  [("job_type", .str s.jobType.value),
    ("queue", .str s.queue),
    ("payload", .dict s.payload),
    ("idempotency_key", .str s.idempotencyKey),
    ("submitted_by", .str s.submittedBy),
    ("role", .str s.role),
    ("required_capabilities", .list ((capabilityValues s.requiredCapabilities).map .str)),
    ("max_attempts", .int s.maxAttempts),
    ("backoff_seconds", floatObj s.backoffSeconds),
    ("backoff_factor", floatObj s.backoffFactor),
    ("max_backoff_seconds", floatObj s.maxBackoffSeconds),
    ("scheduled_for", isoObj std s.scheduledFor),
    ("trigger", .str s.trigger),
    ("audit_action_id", textObj s.auditActionId),
    ("created_at", isoObj std s.createdAt)]

/-- `_spec_to_json`; `none` is the refusal of what is not JSON-serialisable. -/
def toJson (s : JobSpecFields) : Option (List Char) :=
  (encode std.floats false (textKeyed (s.body std))).map (compactText std.floats)

def readFloat : Value → Except String Number
  | .num q => .ok (.fin q)
  | .int z => .ok (.fin z)
  | .nan => .ok .nan
  | .inf negative => .ok (.inf negative)
  | v => .error ("could not convert string to float: " ++ std.str v)

def readIso : Value → Except String (Option Timestamp)
  | .null | .str "" => .ok none
  | .str text => (std.fromisoformat text).map some
  | v => .error ("fromisoformat: argument must be str, not " ++ std.str v)

def fromJson (text : List Char) : Except String JobSpecFields := do
  let some raw := Json.loads std.floats text | .error "JSONDecodeError"
  let jobType ← raw.field "job_type" >>= memberValue std "JobType" JobType.all JobType.value
  let queue ← raw.field "queue" >>= Value.text
  let payload ← raw.field "payload" >>= Value.fields
  let idempotencyKey ← raw.field "idempotency_key" >>= Value.text
  let submittedBy ← raw.fieldOr "submitted_by" "" Value.text
  let role ← raw.fieldOr "role" "" Value.text
  let capabilities ← raw.fieldOr "required_capabilities" [] Value.items
  let capabilities ← capabilities.mapM (memberValue std "Capability" Capability.all
    Capability.value)
  let maxAttempts ← raw.field "max_attempts" >>= std.int
  let backoffSeconds ← raw.field "backoff_seconds" >>= readFloat std
  let backoffFactor ← raw.field "backoff_factor" >>= readFloat std
  let maxBackoffSeconds ← raw.field "max_backoff_seconds" >>= readFloat std
  let scheduledFor ← raw.fieldOr "scheduled_for" none (readIso std)
  let trigger ← raw.fieldOr "trigger" "manual" Value.text
  let auditActionId ← raw.fieldOr "audit_action_id" none (readOption Value.text)
  let createdAt ← raw.fieldOr "created_at" none (readIso std)
  postInit std digest
    { jobType, queue, payload := ofFields payload, idempotencyKey, submittedBy, role,
      requiredCapabilities := capabilities.toFinset, maxAttempts, backoffSeconds, backoffFactor,
      maxBackoffSeconds, scheduledFor, trigger, auditActionId, createdAt }

/-- The spec that `submit` records. -/
def recordedAt (s : JobSpecFields) (now : Timestamp) : JobSpecFields :=
  { s with createdAt := some (s.createdAt.getD now) }

/-- What is read of a payload that was recorded; `none` where it is refused. -/
def recordedPayload (s : JobSpecFields) : Option Obj :=
  (encode std.floats false (.dict s.payload)).map fun v => ofValue (Json.ordered v)

structure RowOf (s : JobSpecFields) (row : JobSpec) : Prop where
  jobType : row.jobType = s.jobType
  queue : row.queue = s.queue
  payload : ∃ v, encode std.floats false (.dict s.payload) = some v ∧
    row.payload = String.ofList (compactText std.floats v)
  idempotencyKey : row.idempotencyKey = s.idempotencyKey
  maxAttempts : (row.maxAttempts : ℤ) = s.maxAttempts
  backoffSeconds : s.backoffSeconds = .fin row.backoffSeconds
  backoffFactor : s.backoffFactor = .fin row.backoffFactor
  maxBackoffSeconds : s.maxBackoffSeconds = .fin row.maxBackoffSeconds
  scheduledFor : row.scheduledFor = s.scheduledFor
  createdAt : row.createdAt = s.createdAt

end JobSpecFields

/-- `dict(record.spec.payload)`, which `_execute` hands to the handler. -/
def JobRecord.handlerPayload (record : JobRecord) : Option Obj :=
  (Json.loads std.floats record.spec.payload.toList).map ofValue

/-- A `JobSpec` and the arguments it was built with. -/
structure JobCall where
  given : JobSpecFields
  spec : JobSpecFields
  built : given.postInit std digest = .ok spec
  distinct : Distinct (.dict given.payload)

end Records

section Reading

variable {std : Stdlib} {digest : List Char → String}

theorem find?_jobType (t : JobType) : JobType.all.find? (fun u => u.value == t.value) = some t := by
  cases t <;> decide

variable (c : Capability)

theorem find?_capability : Capability.all.find? (fun d => d.value == c.value) = some c := by
  cases c <;> decide

theorem Capability.mem_all : c ∈ Capability.all := by
  cases c <;> decide

namespace JobSpecFields

theorem encode_floatObj {n : Number} {w : Value}
    (h : encode std.floats false (floatObj n) = some w) :
      readFloat std (Json.ordered w) = .ok n := by
  cases n <;> cases h
  rfl

theorem encode_isoObj (hiso : ∀ t, std.isoformat t ≠ "") (t : Option Timestamp) :
    ∃ w, encode std.floats false (isoObj std t) = some w ∧
      readIso std (Json.ordered w) = .ok t := by
  cases t with
  | none => exact ⟨_, rfl, rfl⟩
  | some t =>
    refine ⟨_, rfl, ?_⟩
    show readIso std (.str (std.isoformat t)) = _
    unfold readIso
    split
    · rename_i heq
      cases heq
    · rename_i heq
      exact absurd (Value.str.inj heq) (hiso t)
    · rename_i heq
      cases heq
      rw [std.fromisoformat_isoformat]
      rfl
    · rename_i hstr
      exact absurd rfl (hstr _)

theorem encode_textObj (s : Option String) : ∃ w, encode std.floats false (textObj s) = some w ∧
      readOption Value.text (Json.ordered w) = .ok s := by
  cases s with
  | none | some s => exact ⟨_, rfl, rfl⟩

variable (names : List String)

theorem encodeItems_str :
    encodeItems std.floats false (names.map .str) = some (names.map .str) := by
  induction names with
  | nil => rfl
  | cons name names ih =>
    rw [List.map_cons, encodeItems, ih]
    rfl

theorem orderedItems_str : Json.orderedItems (names.map .str) = names.map .str := by
  induction names with
  | nil => rfl
  | cons name names ih =>
    rw [List.map_cons, Json.orderedItems, ih]
    rfl

theorem read_capabilities (caps : List Capability) :
    ((caps.map Capability.value).map Value.str).mapM
      (memberValue std "Capability" Capability.all Capability.value) = .ok caps := by
  induction caps with
  | nil => rfl
  | cons c caps ih =>
    rw [List.map_cons, List.map_cons, List.mapM_cons,
      memberValue_value std (find?_capability c), ih]
    rfl

theorem toFinset_sorted (caps : Finset Capability) :
    (StableSort.sortBy Capability.value (Capability.all.filter fun c => c ∈ caps)).toFinset =
      caps := by
  ext c
  have hperm := List.perm_insertionSort (fun a b : Capability => a.value ≤ b.value)
    (Capability.all.filter fun c => c ∈ caps)
  rw [List.mem_toFinset, StableSort.sortBy, hperm.mem_iff, List.mem_filter]
  simp [Capability.mem_all]

theorem nodup_body (s : JobSpecFields) : ((s.body std).map Prod.fst).Nodup := by
  show (["job_type", "queue", "payload", "idempotency_key", "submitted_by", "role",
    "required_capabilities", "max_attempts", "backoff_seconds", "backoff_factor",
    "max_backoff_seconds", "scheduled_for", "trigger", "audit_action_id", "created_at"] :
      List String).Nodup
  decide

def Recorded (std : Stdlib) (s : JobSpecFields) (raw : Value) : Prop :=
  ∀ k x, (k, x) ∈ s.body std →
    ∃ w, encode std.floats false x = some w ∧ raw.get? k = some (Json.ordered w)

variable {s : JobSpecFields}

theorem recorded_of_toJson {text : List Char} (h : s.toJson std = some text) :
    ∃ raw, Json.loads std.floats text = some raw ∧ s.Recorded std raw := by
  obtain ⟨v, hv, rfl⟩ := Option.map_eq_some_iff.1 h
  refine ⟨_, Json.loads_write_ordered std.floats _ v, fun k x hmem => ?_⟩
  obtain ⟨vs, -, hvs⟩ := encode_textKeyed hv
  obtain ⟨f, -, -, hw⟩ := PyJson.exists_of_forall₂ hvs hmem
  exact ⟨f.2, hw, get?_read hv s.nodup_body hmem hw⟩

namespace Recorded

variable {s : JobSpecFields} {raw : Value} (h : s.Recorded std raw)

include h

theorem get {k : String} {x : Obj} {w : Value} (hmem : (k, x) ∈ s.body std)
    (hw : encode std.floats false x = some w) : raw.get? k = some (Json.ordered w) := by
  obtain ⟨w', hw', hget⟩ := h k x hmem
  rw [hget, Option.some.inj (hw'.symm.trans hw)]

theorem text (k t : String) (hmem : (k, Obj.str t) ∈ s.body std) :
    (raw.field k >>= Value.text) = .ok t := by
  rw [Value.field, h.get hmem rfl]
  rfl

theorem textOr (k t default : String) (hmem : (k, Obj.str t) ∈ s.body std) :
    raw.fieldOr k default Value.text = .ok t := by
  rw [Value.fieldOr, h.get hmem rfl]
  rfl

theorem float (k : String) (n : Number) (hmem : (k, floatObj n) ∈ s.body std) :
    (raw.field k >>= readFloat std) = .ok n := by
  obtain ⟨w, hw, hget⟩ := h k _ hmem
  rw [Value.field, hget]
  exact encode_floatObj hw

theorem instant (hiso : ∀ t, std.isoformat t ≠ "") (k : String) (t : Option Timestamp)
    (hmem : (k, isoObj std t) ∈ s.body std) : raw.fieldOr k none (readIso std) = .ok t := by
  obtain ⟨w, hw, hread⟩ := encode_isoObj hiso t
  rw [Value.fieldOr, h.get hmem hw]
  exact hread

theorem jobType : (raw.field "job_type" >>=
    memberValue std "JobType" JobType.all JobType.value) = .ok s.jobType := by
  rw [Value.field, h.get (x := .str s.jobType.value) (by simp [body]) rfl]
  exact memberValue_value std (find?_jobType s.jobType)

theorem capabilities :
    (raw.fieldOr "required_capabilities" [] Value.items >>= fun items =>
      items.mapM (memberValue std "Capability" Capability.all Capability.value)) =
        .ok (StableSort.sortBy Capability.value
          (Capability.all.filter fun c => c ∈ s.requiredCapabilities)) := by
  have hencode : encode std.floats false
      (.list ((capabilityValues s.requiredCapabilities).map .str)) =
        some (.list ((capabilityValues s.requiredCapabilities).map .str)) := by
    rw [encode, encodeItems_str]
    rfl
  rw [Value.fieldOr, h.get (by simp [body]) hencode, Json.ordered, orderedItems_str]
  exact read_capabilities _

theorem attempts : (raw.field "max_attempts" >>= std.int) = .ok s.maxAttempts := by
  rw [Value.field, h.get (x := .int s.maxAttempts) (by simp [body]) rfl]
  exact std.int_int _

theorem audit : raw.fieldOr "audit_action_id" none (readOption Value.text) =
    .ok s.auditActionId := by
  obtain ⟨w, hw, hread⟩ := @encode_textObj std s.auditActionId
  rw [Value.fieldOr, h.get (by simp [body]) hw]
  exact hread

theorem payload : ∃ fields, s.recordedPayload std = some (.dict (ofFields fields)) ∧
    (raw.field "payload" >>= Value.fields) = .ok fields := by
  obtain ⟨w, hw, hget⟩ := h "payload" (.dict s.payload) (by simp [body])
  have hdict := hw
  rw [encode, Option.bind_eq_some_iff] at hdict
  obtain ⟨items, -, hdict⟩ := hdict
  obtain ⟨sorted, -, rfl⟩ := Option.map_eq_some_iff.1 hdict
  refine ⟨(Dict.ofList (Json.orderedFields sorted)).entries, ?_, ?_⟩
  · rw [recordedPayload, hw]
    rfl
  · rw [Value.field, hget]
    rfl

end Recorded

theorem postInit_again (h : s.postInit std digest = .ok s) (payload : List (TypedJson.Key × Obj))
    (createdAt : Option Timestamp) :
    { s with payload := payload, createdAt := createdAt }.postInit std digest =
      .ok { s with payload := payload, createdAt := createdAt } := by
  unfold postInit at h ⊢
  dsimp only at h ⊢
  split_ifs at h ⊢ with hqueue hattempts hbackoff hkey
  · exfalso
    split at h
    · rename_i key hkeyed
      have heq := congrArg JobSpecFields.idempotencyKey (Except.ok.inj h)
      obtain ⟨v, -, rfl⟩ := Option.map_eq_some_iff.1 hkeyed
      rw [hkey] at heq
      have hchars := congrArg String.toList heq
      simp at hchars
    · cases h
  · rfl

theorem fromJson_toJson (hiso : ∀ t, std.isoformat t ≠ "") {text : List Char}
    (hpost : s.postInit std digest = .ok s) (h : s.toJson std = some text) :
    ∃ payload, s.recordedPayload std = some (.dict payload) ∧
      fromJson std digest text = .ok { s with payload := payload } := by
  obtain ⟨raw, hread, hraw⟩ := recorded_of_toJson h
  obtain ⟨fields, hrecorded, hfields⟩ := hraw.payload
  have hcapabilities := hraw.capabilities
  obtain ⟨items, hitems, hcapabilities⟩ := Wire.bind_ok hcapabilities
  refine ⟨ofFields fields, hrecorded, ?_⟩
  unfold fromJson
  simp only [hread, hraw.jobType, hraw.text "queue" s.queue (by simp [body]), hfields,
    hraw.text "idempotency_key" s.idempotencyKey (by simp [body]),
    hraw.textOr "submitted_by" s.submittedBy "" (by simp [body]),
    hraw.textOr "role" s.role "" (by simp [body]), hitems, hcapabilities, hraw.attempts,
    hraw.float "backoff_seconds" s.backoffSeconds (by simp [body]),
    hraw.float "backoff_factor" s.backoffFactor (by simp [body]),
    hraw.float "max_backoff_seconds" s.maxBackoffSeconds (by simp [body]),
    hraw.instant hiso "scheduled_for" s.scheduledFor (by simp [body]),
    hraw.textOr "trigger" s.trigger "manual" (by simp [body]), hraw.audit,
    hraw.instant hiso "created_at" s.createdAt (by simp [body]), Wire.ok_bind, toFinset_sorted]
  exact postInit_again hpost (ofFields fields) s.createdAt

end JobSpecFields

variable {s : JobSpecFields}

theorem JobSpecFields.RowOf.handlerPayload {row : JobSpec} (h : s.RowOf std row)
    {record : JobRecord} (hspec : record.spec.payload = row.payload) :
    record.handlerPayload std = s.recordedPayload std := by
  obtain ⟨v, hv, hpayload⟩ := h.payload
  rw [JobRecord.handlerPayload, hspec, hpayload, String.toList_ofList, compactText,
    Json.loads_write_ordered, JobSpecFields.recordedPayload, hv]
  rfl

theorem JobSpecFields.same_recorded_iff {x : Obj} (hdistinct : Distinct (.dict s.payload))
    (h : s.recordedPayload std = some x) : Same (.dict s.payload) x ↔ Plain (.dict s.payload) := by
  obtain ⟨v, hv, rfl⟩ := Option.map_eq_some_iff.1 h
  exact same_iff_plain hv hdistinct

theorem JobSpecFields.postInit_given {given s : JobSpecFields}
    (h : given.postInit std digest = .ok s) :
    s = { given with idempotencyKey := s.idempotencyKey } ∧ s.postInit std digest = .ok s ∧
      (given.idempotencyKey = "" →
        canonicalKey std digest given.jobType given.payload = some s.idempotencyKey) := by
  have hgiven := h
  unfold postInit at h
  split_ifs at h with hqueue hattempts hbackoff hkey
  · split at h
    · rename_i key hkeyed
      cases h
      refine ⟨rfl, ?_, fun _ => hkeyed⟩
      obtain ⟨v, -, rfl⟩ := Option.map_eq_some_iff.1 hkeyed
      unfold postInit
      rw [if_neg hqueue, if_neg hattempts, if_neg hbackoff, if_neg]
      intro hempty
      have hchars := congrArg String.toList hempty
      simp at hchars
    · cases h
  · cases h
    exact ⟨rfl, hgiven, fun h => absurd h hkey⟩

theorem JobType.value_prefix {t u : JobType} {r r' : String}
    (h : t.value ++ ":" ++ r = u.value ++ ":" ++ r') : t = u ∧ r = r' := by
  have hvalue : ∀ (t : JobType) (r : String),
      (t.value ++ ":" ++ r).toList.takeWhile (· ≠ ':') = t.value.toList := by
    intro t r
    have htext : ∀ c ∈ t.value.toList, decide (c ≠ ':') = true := by cases t <;> simp [value]
    rw [String.toList_append, String.toList_append, List.append_assoc,
      List.takeWhile_append_of_pos htext]
    simp
  have htu : t.value = u.value := String.toList_inj.1 (by rw [← hvalue t r, h, hvalue u r'])
  have hsame : t = u := by
    have hfind := find?_jobType t
    rw [htu, find?_jobType u] at hfind
    exact (Option.some.inj hfind).symm
  subst hsame
  have hchars := congrArg String.toList h
  simp only [String.toList_append (s := t.value ++ ":")] at hchars
  exact ⟨rfl, String.toList_inj.1 (List.append_cancel_left hchars)⟩

variable {key : String}

theorem canonicalKey_eq {x : Obj}
    (h : canonicalKey std digest s.jobType s.payload = some key)
    (hx : s.recordedPayload std = some x) :
    ∃ text, key = s.jobType.value ++ ":" ++ digest text ∧
      (Json.loads std.floats text >>= fun raw => (raw.get? "payload").map ofValue) = some x := by
  obtain ⟨v, hv, rfl⟩ := Option.map_eq_some_iff.1 h
  obtain ⟨p, hp, rfl⟩ := Option.map_eq_some_iff.1 hx
  have hget := get?_read hv (by simp) (List.mem_cons_of_mem _ List.mem_cons_self)
    (encode_lax _ _ hp)
  refine ⟨_, rfl, ?_⟩
  rw [compactText, Json.loads_write_ordered]
  show ((Json.ordered v).get? "payload").map ofValue = _
  rw [hget]
  rfl

theorem canonicalKey_injective (hdigest : Function.Injective digest) {s t : JobSpecFields}
    {x y : Obj} (hs : canonicalKey std digest s.jobType s.payload = some key)
    (ht : canonicalKey std digest t.jobType t.payload = some key)
    (hx : s.recordedPayload std = some x) (hy : t.recordedPayload std = some y) :
    s.jobType = t.jobType ∧ x = y := by
  obtain ⟨text, rfl, htext⟩ := canonicalKey_eq hs hx
  obtain ⟨text', hkey, htext'⟩ := canonicalKey_eq ht hy
  obtain ⟨htype, hdigests⟩ := JobType.value_prefix hkey
  rw [hdigest hdigests, htext'] at htext
  exact ⟨htype, (Option.some.inj htext).symm⟩

end Reading

namespace JobSystem

variable {ι : Type} [DecidableEq ι]

theorem keeps_exec {s : JobSystem ι} (h : JobInv s) (run : List (JobEvent ι)) :
    Keeps s.ledger (exec step s run).ledger := by
  induction run generalizing s with
  | nil => exact .of_jobs rfl
  | cons e run ih =>
    obtain ⟨hinv, hkeeps⟩ := step_spec h e
    exact hkeeps.trans (ih hinv)

theorem inv_exec (run : List (JobEvent ι)) : JobInv (exec step .initial run : JobSystem ι) :=
  exec_invariant (I := JobInv) (fun _ e h => (step_spec h e).1) inv_initial run

theorem record_of_inserted {before after : List (JobEvent ι)} {i : ℕ} {o : ι} {jobId : String}
    {now : Timestamp} {row : JobSpec} {ledger : JobLedger}
    (hsubmitted : (exec step .initial before : JobSystem ι).submissions[i]? = some (o, row))
    (hinsert : (exec step .initial before : JobSystem ι).ledger.insert row jobId now = .ok ledger)
    {k : ℕ} {f : Flight ι}
    (hf : ((exec step .initial (before ++ .insert i jobId now :: after) : JobSystem ι).runs
      jobId).flights[k]? = some f) (hopen : f.phase ≠ .ended) :
    f.record.spec = { row with createdAt := some (row.createdAt.getD now) } := by
  rw [exec_append, exec_cons] at hf
  have hinv := inv_exec (ι := ι) before
  generalize (exec step .initial before : JobSystem ι) = s at hsubmitted hinsert hinv hf
  obtain ⟨hinv', -⟩ := step_spec hinv (.insert i jobId now)
  have hledger : (s.step (.insert i jobId now)).ledger = ledger := by
    unfold step
    dsimp only
    rw [hsubmitted]
    dsimp only
    rw [hinsert]
  obtain ⟨-, hjobs, -⟩ := JobLedger.insert_ok hinsert
  have hrow : JobLedger.newRow row jobId now (s.ledger.queueSeq + 1) ∈
      (s.step (.insert i jobId now)).ledger.jobs := by
    rw [hledger, hjobs]
    exact List.mem_append_right _ List.mem_cons_self
  obtain ⟨kept, hkept, hid, hspec, -, -⟩ := keeps_exec hinv' after _ hrow
  have hlast : JobInv (exec step (s.step (.insert i jobId now)) after) :=
    exec_invariant (I := JobInv) (fun _ e h => (step_spec h e).1) hinv' after
  have hok := hlast.rows.rows kept hkept
  rw [hid] at hok
  rw [(hok.flights k f hf ?_).spec, hspec]
  · rfl
  · intro h
    cases hphase : f.phase with
    | ended => exact hopen hphase
    | claimed | started _ | concluded _ _ =>
      rw [hphase] at h
      cases h

end JobSystem

section Claim

variable {std : Stdlib} {digest : List Char → String} {ι : Type} [DecidableEq ι]

/-- `submit` takes a spec into the ledger: nothing was found under its key, it was recorded, and
the insert went through. -/
def JobCall.Accepted (call : JobCall std digest) (s : JobSystem ι) (i : ℕ) (jobId : String)
    (now : Timestamp) : Prop :=
  ∃ o row ledger text, s.submissions[i]? = some (o, row) ∧ call.spec.RowOf std row ∧
    (call.spec.recordedAt now).toJson std = some text ∧ s.ledger.insert row jobId now = .ok ledger

theorem JobCall.recorded (call : JobCall std digest) {row : JobSpec} (h : call.spec.RowOf std row) :
    ∃ x, call.spec.recordedPayload std = some x := by
  obtain ⟨v, hv, -⟩ := h.payload
  exact ⟨_, by rw [JobSpecFields.recordedPayload, hv]; rfl⟩

/-- Of a spec that is accepted, in every run, the handler of every attempt is given the payload
that was submitted exactly where that is plain; the other fields are read back as they were
recorded; and a derived key is shared by equal job types and recorded payloads alone. -/
theorem JobCall.runs_on_submitted_iff (hdigest : Function.Injective digest)
    (hiso : ∀ t, std.isoformat t ≠ "") (call : JobCall std digest) {before : List (JobEvent ι)}
    {i : ℕ} {jobId : String} {now : Timestamp}
    (h : call.Accepted (exec JobSystem.step .initial before) i jobId now) :
    (∀ (after : List (JobEvent ι)) (k : ℕ) (f : Flight ι),
      ((exec JobSystem.step .initial (before ++ .insert i jobId now :: after)).runs
        jobId).flights[k]? = some f → f.phase ≠ .ended →
        ((∃ x, f.record.handlerPayload std = some x ∧ Same (.dict call.given.payload) x) ↔
          Plain (.dict call.given.payload))) ∧
      (∃ text payload, (call.spec.recordedAt now).toJson std = some text ∧
        JobSpecFields.fromJson std digest text =
          .ok { call.given with
            payload := payload
            idempotencyKey := call.spec.idempotencyKey
            createdAt := some (call.given.createdAt.getD now) }) ∧
      ∀ (other : JobCall std digest) {before' : List (JobEvent ι)} {i' : ℕ} {jobId' : String}
        {now' : Timestamp}, other.Accepted (exec JobSystem.step .initial before') i' jobId' now' →
        call.given.idempotencyKey = "" → other.given.idempotencyKey = "" →
        call.spec.idempotencyKey = other.spec.idempotencyKey →
        call.given.jobType = other.given.jobType ∧
          call.spec.recordedPayload std = other.spec.recordedPayload std := by
  obtain ⟨o, row, ledger, text, hsubmitted, hrow, htext, hinsert⟩ := h
  obtain ⟨hspec, hpost, hkey⟩ := JobSpecFields.postInit_given call.built
  obtain ⟨x, hx⟩ := call.recorded hrow
  refine ⟨fun after k f hf hopen => ?_, ?_, ?_⟩
  · have hrecord := JobSystem.record_of_inserted hsubmitted hinsert hf hopen
    have hpayload : f.record.handlerPayload std = some x := by
      rw [hrow.handlerPayload (by rw [hrecord]), hx]
    rw [hspec] at hx
    have hiff := JobSpecFields.same_recorded_iff call.distinct hx
    rw [hpayload]
    exact ⟨fun ⟨y, hy, hsame⟩ => hiff.1 (Option.some.inj hy ▸ hsame), fun hplain =>
      ⟨x, rfl, hiff.2 hplain⟩⟩
  · obtain ⟨payload, -, hread⟩ := JobSpecFields.fromJson_toJson hiso
      (JobSpecFields.postInit_again hpost _ _) htext
    refine ⟨text, payload, htext, ?_⟩
    have hfields := congrArg (fun s => { s.recordedAt now with payload := payload }) hspec
    rw [hread]
    exact congrArg Except.ok hfields
  · intro other before' i' jobId' now' hother hderived hderived' hsame
    obtain ⟨-, row', -, -, -, hrow', -⟩ := hother
    obtain ⟨hspec', -, hkey'⟩ := JobSpecFields.postInit_given other.built
    obtain ⟨y, hy⟩ := other.recorded hrow'
    rw [hx, hy]
    rw [hspec] at hx
    rw [hspec'] at hy
    obtain ⟨htype, hxy⟩ := canonicalKey_injective hdigest (s := call.given) (t := other.given)
      (hkey hderived) (hsame ▸ hkey' hderived') hx hy
    exact ⟨htype, congrArg some hxy⟩

end Claim

namespace JobSample

def given (x : Obj) : JobSpecFields where
  jobType := .backtest
  queue := "research"
  payload := [(.exact (.str "windows"), x)]
  idempotencyKey := "windows"

def call (x : Obj) (hx : Distinct x) : JobCall epochStdlib String.ofList where
  given := given x
  spec := given x
  built := rfl
  distinct := ⟨List.nodup_singleton _, hx, trivial⟩

def row (text : String) : JobSpec where
  jobType := .backtest
  queue := "research"
  payload := text
  idempotencyKey := "windows"
  maxAttempts := 3
  backoffSeconds := 1
  backoffFactor := 2
  maxBackoffSeconds := 300
  scheduledFor := none
  createdAt := none
  queue_named := by decide
  maxAttempts_pos := by decide
  backoff_nonneg := by decide
  factor_ge_one := by decide

def before (text : String) : List (JobEvent Unit) := [.register () .backtest, .submit () (row text)]

def after : List (JobEvent Unit) := [.acquire () "worker" 1, .claim () "research" 0]

theorem isoformat_ne (t : Timestamp) : epochStdlib.isoformat t ≠ "" := by
  unfold epochStdlib
  dsimp only
  split_ifs with ht
  · decide
  · intro h
    have hshape := Json.numberShape_intText t
    rw [String.ofList_eq_empty_iff.1 h] at hshape
    cases hshape

theorem accepted {x : Obj} {v : Value} (hx : Distinct x)
    (hv : encode epochStdlib.floats false x = some v)
    (htext : (((given x).recordedAt 0).toJson epochStdlib).isSome = true) :
    (call x hx).Accepted
      (exec JobSystem.step .initial
        (before (String.ofList (compactText epochStdlib.floats (.dict [("windows", v)])))))
      0 "job" 0 := by
  have hpayload : encode epochStdlib.floats false (.dict (given x).payload) =
      some (.dict [("windows", v)]) := by
    rw [given, encode, encodeFields, hv]
    rfl
  obtain ⟨text, htext⟩ := Option.isSome_iff_exists.1 htext
  exact ⟨(), _, _, text, rfl, ⟨rfl, rfl, ⟨_, hpayload, rfl⟩, rfl, rfl, rfl, rfl, rfl, rfl, rfl⟩,
    htext, rfl⟩

theorem number_is_given : ∃ f : Flight Unit,
    ((exec JobSystem.step .initial (before (String.ofList (compactText epochStdlib.floats
      (.dict [("windows", .int 3)]))) ++ .insert 0 "job" 0 :: after)).runs
        "job").flights[0]? = some f ∧
      ∃ x, f.record.handlerPayload epochStdlib = some x ∧
        Same (.dict (given (.int 3)).payload) x := by
  have haccepted := accepted (x := .int 3) trivial rfl rfl
  have hruns := (JobCall.runs_on_submitted_iff (fun _ _ => String.ofList_injective) isoformat_ne
    (call (.int 3) trivial) haccepted).1
  refine ⟨_, rfl, (hruns after 0 _ rfl fun h => ?_).2 ⟨⟨⟨_, rfl⟩, trivial⟩, trivial⟩⟩
  cases h

def byWindow : Obj := .dict [(.exact (.int 20), .str "fast")]

theorem distinct_byWindow : Distinct byWindow := ⟨List.nodup_singleton _, trivial, trivial⟩

theorem not_plain_byWindow : ¬ Plain (.dict (given byWindow).payload) := by
  rintro ⟨⟨-, ⟨⟨s, hs⟩, -⟩, -⟩, -⟩
  cases hs

theorem number_key_becomes_text : ∃ (c : JobCall epochStdlib String.ofList)
    (before after : List (JobEvent Unit)) (f : Flight Unit),
    c.Accepted (exec JobSystem.step .initial before) 0 "job" 0 ∧
      ((exec JobSystem.step .initial (before ++ .insert 0 "job" 0 :: after)).runs
        "job").flights[0]? = some f ∧ f.phase ≠ .ended ∧
      ¬ ∃ x, f.record.handlerPayload epochStdlib = some x ∧ Same (.dict c.given.payload) x := by
  have haccepted := accepted distinct_byWindow rfl rfl
  refine ⟨call byWindow distinct_byWindow, _, after, _, haccepted, rfl, ?_, ?_⟩
  · intro h
    cases h
  · rintro ⟨x, hx, hsame⟩
    obtain ⟨v, -, rfl⟩ := Option.map_eq_some_iff.1 hx
    exact not_plain_byWindow (plain_of_same _ v hsame)

end JobSample

end Fiboki
