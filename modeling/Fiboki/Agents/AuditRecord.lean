import Fiboki.Core.Stdlib
import Fiboki.Lib.PyJson
import Fiboki.Lib.Digests
import Fiboki.Lib.Utf8

/-!
One line of the audit ledger: the projection of live Python values to JSON, the payload of a
record, its hash, and the record that a stored payload is read back as.
-/

namespace Fiboki.Audit

open Json PyJson Wire

/-- A live Python value. A member of an enumeration that is not itself text or a number
carries its value, an instant its `isoformat`, an object its `repr`. -/
inductive Py where
  | none
  | nan
  | inf (negative : Bool)
  | bool (b : Bool)
  | int (z : ℤ)
  | num (q : ℚ)
  | str (s : String)
  | mapping (es : List (Py × Py))
  | bytes (raw : List UInt8)
  | sequence (xs : List Py)
  | enum (value : Raw)
  | datetime (isoformat : String)
  | model (dump : Py)
  | object (repr : String)

inductive PyNumber where
  | nan
  | inf (negative : Bool)
  | bool (b : Bool)
  | int (z : ℤ)
  | num (q : ℚ)

def PyNumber.raw : PyNumber → Raw
  | nan => .nan
  | inf negative => .inf negative
  | bool b => .bool b
  | int z => .int z
  | num q => .num q

def PyNumber.value : PyNumber → Value
  | nan => .nan
  | inf negative => .inf negative
  | bool b => .bool b
  | int z => .int z
  | num q => .num q

def PyNumber.isInt : PyNumber → Bool
  | int _ => true
  | nan | inf _ | bool _ | num _ => false

def PyNumber.isFloat : PyNumber → Bool
  | nan | inf _ | num _ => true
  | bool _ | int _ => false

/-- What audit records take from the language beside `Stdlib`: `str` of any value, bytes
decoded with replacements, and `float` of a value read from JSON. -/
structure AuditLib extends Stdlib where
  text : Py → String
  text_str : ∀ s, text (.str s) = s
  decodeReplace : List UInt8 → String
  float : Value → Except String PyNumber
  float_num : ∀ q, float (.num q) = .ok (.num q)
  float_nan : float .nan = .ok .nan
  float_inf : ∀ b, float (.inf b) = .ok (.inf b)

mutual
/-- `_canonical(payload)`. -/
def canonical (lib : AuditLib) : Py → Raw
  | .none => .none
  | .nan => .nan
  | .inf negative => .inf negative
  | .bool b => .bool b
  | .int z => .int z
  | .num q => .num q
  | .str s => .str s
  | .mapping es =>
    .dict (keyed (Dict.ofList (StableSort.sortBy Prod.fst (canonicalFields lib es))).entries)
  | .bytes raw => .str (lib.decodeReplace raw)
  | .sequence xs => .list (canonicalItems lib xs)
  | .enum value => value
  | .datetime isoformat => .str isoformat
  | .model dump => canonical lib dump
  | .object repr => .str repr

def canonicalItems (lib : AuditLib) : List Py → List Raw
  | [] => []
  | x :: xs => canonical lib x :: canonicalItems lib xs

def canonicalFields (lib : AuditLib) : List (Py × Py) → List (String × Raw)
  | [] => []
  | e :: es => (lib.text e.1, canonical lib e.2) :: canonicalFields lib es
end

mutual
/-- What `json.loads` gives for a value. -/
def Py.ofValue : Value → Py
  | .null => .none
  | .nan => .nan
  | .inf negative => .inf negative
  | .bool b => .bool b
  | .int z => .int z
  | .num q => .num q
  | .str s => .str s
  | .list xs => .sequence (Py.ofItems xs)
  | .dict es => .mapping (Py.ofFields es)

def Py.ofItems : List Value → List Py
  | [] => []
  | x :: xs => Py.ofValue x :: Py.ofItems xs

def Py.ofFields : List (String × Value) → List (Py × Py)
  | [] => []
  | e :: es => (.str e.1, Py.ofValue e.2) :: Py.ofFields es
end

inductive AuditOutcome where
  | ok
  | denied
  | error
  | rejected
  | timeout

def AuditOutcome.value : AuditOutcome → String
  | ok => "ok"
  | denied => "denied"
  | error => "error"
  | rejected => "rejected"
  | timeout => "timeout"

def AuditOutcome.members : List AuditOutcome := [ok, denied, error, rejected, timeout]

inductive ActionKind where
  | toolCall
  | modelCall
  | jobSubmit
  | jobRun
  | workflowStep

def ActionKind.value : ActionKind → String
  | toolCall => "tool_call"
  | modelCall => "model_call"
  | jobSubmit => "job_submit"
  | jobRun => "job_run"
  | workflowStep => "workflow_step"

def ActionKind.members : List ActionKind := [toolCall, modelCall, jobSubmit, jobRun, workflowStep]

structure AuditRecord where
  agentId : String
  role : String
  kind : ActionKind
  tool : String
  inputs : List (Py × Py)
  outputs : List (Py × Py)
  reason : String
  outcome : AuditOutcome
  prompt : String
  parentActionId : Option String
  workflowId : Option String
  model : String
  modelVersion : String
  provider : String
  promptTokens : PyNumber
  completionTokens : PyNumber
  costUsd : PyNumber
  wallMs : PyNumber
  error : String
  capability : String
  modelId : Option String
  modelDigest : Option String
  manifestHash : Option String
  actionId : String
  recordedAt : Timestamp
  sequence : ℤ
  previousHash : String
  recordHash : String

def genesisHash : String := String.ofList (List.replicate 64 '0')

def optionalRaw : Option String → Raw
  | some s => .str s
  | none => .none

namespace AuditRecord

section Hashing

variable (lib : AuditLib) (r : AuditRecord)

def baseFields : List (String × Raw) :=
  [("action_id", .str r.actionId),
    ("sequence", .int r.sequence),
    ("recorded_at", .str (lib.isoformat r.recordedAt)),
    ("agent_id", .str r.agentId),
    ("role", .str r.role),
    ("kind", .str r.kind.value),
    ("tool", .str r.tool),
    ("capability", .str r.capability),
    ("inputs", canonical lib (.mapping r.inputs)),
    ("outputs", canonical lib (.mapping r.outputs)),
    ("reason", .str r.reason),
    ("prompt", .str r.prompt),
    ("parent_action_id", optionalRaw r.parentActionId),
    ("workflow_id", optionalRaw r.workflowId),
    ("model", .str r.model),
    ("model_version", .str r.modelVersion),
    ("provider", .str r.provider),
    ("prompt_tokens", r.promptTokens.raw),
    ("completion_tokens", r.completionTokens.raw),
    ("cost_usd", r.costUsd.raw),
    ("wall_ms", r.wallMs.raw),
    ("outcome", .str r.outcome.value),
    ("error", .str r.error),
    ("previous_hash", .str r.previousHash)]

def provenance : List (String × Raw) :=
  [("model_id", r.modelId), ("model_digest", r.modelDigest),
    ("manifest_hash", r.manifestHash)].filterMap fun e => e.2.map fun s => (e.1, Raw.str s)

def payload (withHash : Bool) : List (String × Raw) :=
  r.baseFields lib ++ r.provenance ++
    if withHash then [("record_hash", .str r.recordHash)] else []

/-- The text that is hashed, `none` where it cannot be written. -/
def blob : Option (List Char) := dumps lib.floats true (.dict (keyed (r.payload lib false)))

def computeHash : Option String := (r.blob lib).map fun text => Sha256.hexdigest (Utf8.encode text)

def staged (sequence : ℤ) (previousHash : String) : AuditRecord :=
  { r with sequence, previousHash, recordHash := "" }

def sealed (sequence : ℤ) (previousHash : String) : Option AuditRecord :=
  ((r.staged sequence previousHash).computeHash lib).map fun recordHash =>
    { r.staged sequence previousHash with recordHash }

def lineText : Option (List Char) := dumps lib.floats false (.dict (keyed (r.payload lib true)))

end Hashing

section Reading

variable (lib : AuditLib)

/-- `dict(raw.get(key) or {})`; a list of pairs, which no payload has there, is refused. -/
def dictOr (raw : Value) (key : String) : Except String (List (Py × Py)) :=
  match raw.get? key with
  | none => .ok []
  | some v =>
    if truth v then
      match v with
      | .dict es => .ok (Py.ofFields es)
      | _ => .error "dictionary update sequence"
    else .ok []

/-- `raw.get(key)` of an identifier, which is text or nothing. -/
def optionalText (raw : Value) (key : String) : Except String (Option String) :=
  match raw.get? key with
  | none | some .null => .ok none
  | some (.str s) => .ok (some s)
  | some _ => .error "not an identifier"

/-- `_optional_str(raw.get(key))`. -/
def optionalStr (raw : Value) (key : String) : Option String :=
  match raw.get? key with
  | none | some .null => none
  | some v => some (lib.str v)

def intOr (raw : Value) (key : String) (default : ℤ) : Except String ℤ :=
  match raw.get? key with
  | none => .ok default
  | some v => lib.int v

def floatOr (raw : Value) (key : String) : Except String PyNumber :=
  match raw.get? key with
  | none => .ok (.num 0)
  | some v => lib.float v

/-- `str(raw[key])`. -/
def required (raw : Value) (key : String) : Except String String := (raw.field key).map lib.str

def fromPayload (raw : Value) : Except String AuditRecord := do
  let agentId ← required lib raw "agent_id"
  let role ← required lib raw "role"
  let kind ← memberValue lib.toStdlib "ActionKind" ActionKind.members ActionKind.value
    (← raw.field "kind")
  let tool ← required lib raw "tool"
  let inputs ← dictOr raw "inputs"
  let outputs ← dictOr raw "outputs"
  let reason := textOr lib.toStdlib raw "reason" ""
  let outcome ← memberValue lib.toStdlib "Outcome" AuditOutcome.members AuditOutcome.value
    (← raw.field "outcome")
  let prompt := textOr lib.toStdlib raw "prompt" ""
  let parentActionId ← optionalText raw "parent_action_id"
  let workflowId ← optionalText raw "workflow_id"
  let model := textOr lib.toStdlib raw "model" ""
  let modelVersion := textOr lib.toStdlib raw "model_version" ""
  let provider := textOr lib.toStdlib raw "provider" ""
  let promptTokens ← intOr lib raw "prompt_tokens" 0
  let completionTokens ← intOr lib raw "completion_tokens" 0
  let costUsd ← floatOr lib raw "cost_usd"
  let wallMs ← floatOr lib raw "wall_ms"
  let error := textOr lib.toStdlib raw "error" ""
  let capability := textOr lib.toStdlib raw "capability" ""
  let modelId := optionalStr lib raw "model_id"
  let modelDigest := optionalStr lib raw "model_digest"
  let manifestHash := optionalStr lib raw "manifest_hash"
  let actionId ← required lib raw "action_id"
  let recordedAt ← lib.fromisoformat (← required lib raw "recorded_at")
  let sequence ← intOr lib raw "sequence" (-1)
  let previousHash := textOr lib.toStdlib raw "previous_hash" genesisHash
  let recordHash := textOr lib.toStdlib raw "record_hash" ""
  return {
    agentId, role, kind, tool, inputs, outputs, reason, outcome, prompt, parentActionId, workflowId,
    model, modelVersion, provider, costUsd, wallMs, error, capability, modelId, modelDigest,
    manifestHash, actionId, recordedAt, sequence, previousHash, recordHash
    promptTokens := .int promptTokens
    completionTokens := .int completionTokens }

end Reading

end AuditRecord

section ReadBack

variable {lib : AuditLib} {default : Bool}

theorem canonicalFields_ofFields (es : List (String × Value)) :
    canonicalFields lib (Py.ofFields es) = es.map fun e =>
      (e.1, canonical lib (Py.ofValue e.2)) := by
  induction es with
  | nil => rfl
  | cons e es ih =>
    rw [Py.ofFields, canonicalFields, ih, lib.text_str]
    rfl

theorem ofList_sortBy {α : Type} {xs : List (String × α)} (h : (xs.map Prod.fst).Nodup) :
    Dict.ofList (StableSort.sortBy Prod.fst xs) = Dict.ofList xs := by
  have hperm := List.perm_insertionSort (fun a b : String × α => a.1 ≤ b.1) xs
  have hnodup : ((StableSort.sortBy Prod.fst xs).map Prod.fst).Nodup :=
    (hperm.map Prod.fst).nodup_iff.2 h
  apply Dict.ext_get
  intro k
  cases hget : (Dict.ofList xs).get k with
  | none =>
    cases hget' : (Dict.ofList (StableSort.sortBy Prod.fst xs)).get k with
    | none => rfl
    | some v =>
      have hmem := hperm.subset (Dict.mem_of_get_ofList hget')
      rw [Dict.get_ofList h, Dict.lookup_of_mem_nodup h hmem] at hget
      cases hget
  | some v =>
    have hmem := hperm.symm.subset (Dict.mem_of_get_ofList hget)
    rw [Dict.get_ofList hnodup]
    exact Dict.lookup_of_mem_nodup hnodup hmem

mutual
theorem encode_canonical_ofValue : ∀ v : Value, Sorted v →
    encode lib.floats default (canonical lib (Py.ofValue v)) = some v
  | .null, _ | .nan, _ | .inf _, _ | .bool _, _ | .int _, _ | .num _, _ | .str _, _ => rfl
  | .list xs, h => by
    rw [Py.ofValue, canonical, encode, encodeItems_canonical_ofItems xs h]
    rfl
  | .dict es, h => by
    have hnodup : (es.map Prod.fst).Nodup := Dict.nodup_keys ⟨es, h.1⟩
    have hfields := encode_canonical_ofFields es h.2
    rw [Py.ofValue, canonical, canonicalFields_ofFields, ofList_sortBy]
    · rw [Dict.ofList_map (fun v => canonical lib (Py.ofValue v)), encode_keyed]
      refine ⟨es, ?_, by rw [Dict.ofList_entries ⟨es, h.1⟩]⟩
      rw [Dict.ofList_entries ⟨es, h.1⟩]
      show Encoded lib.floats default (es.map fun e => (e.1, canonical lib (Py.ofValue e.2))) es
      clear h hnodup
      induction es with
      | nil => exact .nil
      | cons e es ih =>
        exact .cons ⟨rfl, hfields e List.mem_cons_self⟩
          (ih fun d hd => hfields d (List.mem_cons_of_mem _ hd))
    · rw [List.map_map]
      exact hnodup

theorem encodeItems_canonical_ofItems : ∀ xs : List Value, SortedItems xs →
    encodeItems lib.floats default (canonicalItems lib (Py.ofItems xs)) = some xs
  | [], _ => rfl
  | x :: xs, h => by
    rw [Py.ofItems, canonicalItems, encodeItems, encode_canonical_ofValue x h.1,
      encodeItems_canonical_ofItems xs h.2]

theorem encode_canonical_ofFields : ∀ es : List (String × Value), SortedFields es → ∀ e ∈ es,
    encode lib.floats default (canonical lib (Py.ofValue e.2)) = some e.2
  | [], _, e, he => absurd he List.not_mem_nil
  | d :: es, h, e, he => by
    rcases List.mem_cons.1 he with heq | he
    · rw [heq]
      exact encode_canonical_ofValue d.2 h.1
    · exact encode_canonical_ofFields es h.2 e he
end

end ReadBack

end Fiboki.Audit
