import Fiboki.Data.Schema
import Fiboki.Lib.JsonAscii
import Fiboki.Lib.StableSort

/-!
Content-addressed dataset versions: the parameters of a transformation and their canonical
form, the version id, and the catalogue that registers and resolves versions.

An id is taken of the canonical form of the lineage.  The catalogue stores the lineage as it
is, and what is resolved is made canonical again.
-/

namespace Fiboki.Bars

open Wire

inductive Key where
  | str (s : String)
  | int (z : ℤ)
  | num (q : ℚ)
  | nan
  | inf (negative : Bool)
  | bool (b : Bool)
  | none
  /-- A member of an `Enum` class that is also `str`, `int` or `float`: it is its value but for
  what `str` gives, `Class.MEMBER`. -/
  | enum (printed : String) (value : Key)

inductive PyValue where
  | none
  | bool (b : Bool)
  | int (z : ℤ)
  | num (q : ℚ)
  | nan
  | inf (negative : Bool)
  | str (s : String)
  /-- A member of a class of `str` and `Enum`, which JSON takes for its value. -/
  | strEnum (value : String)
  /-- A member of an `Enum` whose value is text; it has no JSON. -/
  | plainEnum (value : String)
  | instant (isoformat : String)
  | path (text : String)
  | list (xs : List PyValue)
  | tuple (xs : List PyValue)
  | dict (es : List (Key × PyValue))
  /-- An instance of a dataclass. -/
  | record (fields : List (String × PyValue))
  | other

namespace Key

def isText : Key → Bool
  | str _ => true
  | enum _ value => value.isText
  | _ => false

def content : Key → String
  | str s => s
  | enum _ value => value.content
  | _ => ""

def isNumber : Key → Bool
  | int _ | num _ | nan | inf _ | bool _ => true
  | enum _ value => value.isNumber
  | _ => false

def number : Key → WithBot (WithTop ℚ)
  | int z => ((z : ℚ) : WithTop ℚ)
  | num q => (q : WithTop ℚ)
  | inf true => ⊥
  | bool b => ((if b then 1 else 0 : ℚ) : WithTop ℚ)
  | enum _ value => value.number
  | _ => (⊤ : WithTop ℚ)

variable (floats : Json.FloatText)

/-- `str(key)`. -/
def printed : Key → String
  | str s => s
  | int z => String.ofList (Json.intText z)
  | num q => String.ofList (floats.text q)
  | nan => "nan"
  | inf negative => if negative then "-inf" else "inf"
  | bool b => if b then "True" else "False"
  | none => "None"
  | enum name _ => name

def jsonText : Key → String
  | str s => s
  | int z => String.ofList (Json.intText z)
  | num q => String.ofList (floats.text q)
  | nan => "NaN"
  | inf negative => if negative then "-Infinity" else "Infinity"
  | bool b => if b then "true" else "false"
  | none => "null"
  | enum _ value => value.jsonText

end Key

/-- `sorted(value.items())`: all text, or all numbers, or one item. -/
def sortItems {α : Type} (es : List (Key × α)) : Option (List (Key × α)) :=
  if es.all fun e => e.1.isText then some (StableSort.sortBy (fun e => e.1.content) es)
  else if es.length ≤ 1 then some es
  else if es.all fun e => e.1.isNumber then some (StableSort.sortBy (fun e => e.1.number) es)
  else none

def textDict (es : List (String × PyValue)) : PyValue :=
  .dict ((Dict.ofList es).entries.map fun e => (.str e.1, e.2))

/-- `value.value` where it is text. -/
def textField : List (String × PyValue) → Option String
  | [] => none
  | (name, v) :: rest =>
    if name = "value" then
      match v with
      | .str text | .strEnum text => some text
      | _ => none
    else textField rest

section Canonical

variable (floats : Json.FloatText)

mutual
/-- `_canonical_json_value`, `none` where its sort raises. -/
def canonical : PyValue → Option PyValue
  | .dict es =>
    (canonicalEntries es).bind fun items => (sortItems items).map fun sorted =>
      textDict (sorted.map fun e => (e.1.printed floats, e.2))
  | .list xs => (canonicalItems xs).map .list
  | .tuple xs => (canonicalItems xs).map .list
  | .instant isoformat => some (.str isoformat)
  | .path text => some (.str text)
  | .strEnum value => some (.str value)
  | .plainEnum value => some (.str value)
  | .record fields =>
    match textField fields with
    | some text => some (.str text)
    | none => some (.record fields)
  | v => some v

def canonicalItems : List PyValue → Option (List PyValue)
  | [] => some []
  | x :: xs =>
    match canonical x, canonicalItems xs with
    | some y, some ys => some (y :: ys)
    | _, _ => none

def canonicalEntries : List (Key × PyValue) → Option (List (Key × PyValue))
  | [] => some []
  | e :: es =>
    match canonical e.2, canonicalEntries es with
    | some y, some ys => some ((e.1, y) :: ys)
    | _, _ => none
end

mutual
/-- The JSON that `json.dumps` writes, `none` where it raises. -/
def encode : PyValue → Option Value
  | .none => some .null
  | .bool b => some (.bool b)
  | .int z => some (.int z)
  | .num q => some (.num q)
  | .nan => some .nan
  | .inf negative => some (.inf negative)
  | .str s => some (.str s)
  | .strEnum value => some (.str value)
  | .list xs => (encodeItems xs).map .list
  | .tuple xs => (encodeItems xs).map .list
  | .dict es => (encodeEntries es).map .dict
  | .plainEnum _ | .instant _ | .path _ | .record _ | .other => none

def encodeItems : List PyValue → Option (List Value)
  | [] => some []
  | x :: xs =>
    match encode x, encodeItems xs with
    | some v, some vs => some (v :: vs)
    | _, _ => none

def encodeEntries : List (Key × PyValue) → Option (List (String × Value))
  | [] => some []
  | e :: es =>
    match encode e.2, encodeEntries es with
    | some v, some vs => some ((e.1.jsonText floats, v) :: vs)
    | _, _ => none
end

end Canonical

mutual
/-- The recursion of `dataclasses.asdict`. -/
def asDict : PyValue → PyValue
  | .list xs => .list (asDictItems xs)
  | .tuple xs => .tuple (asDictItems xs)
  | .dict es => .dict (asDictEntries es)
  | .record fields => .dict (asDictFields fields)
  | v => v

def asDictItems : List PyValue → List PyValue
  | [] => []
  | x :: xs => asDict x :: asDictItems xs

def asDictEntries : List (Key × PyValue) → List (Key × PyValue)
  | [] => []
  | e :: es => (e.1, asDict e.2) :: asDictEntries es

def asDictFields : List (String × PyValue) → List (Key × PyValue)
  | [] => []
  | e :: es => (.str e.1, asDict e.2) :: asDictFields es
end

mutual
/-- What `json.loads` gives. -/
def ofJson : Value → PyValue
  | .null => .none
  | .nan => .nan
  | .inf negative => .inf negative
  | .bool b => .bool b
  | .int z => .int z
  | .num q => .num q
  | .str s => .str s
  | .list xs => .list (ofJsonItems xs)
  | .dict es => .dict (ofJsonFields es)

def ofJsonItems : List Value → List PyValue
  | [] => []
  | x :: xs => ofJson x :: ofJsonItems xs

def ofJsonFields : List (String × Value) → List (Key × PyValue)
  | [] => []
  | e :: es => (.str e.1, ofJson e.2) :: ofJsonFields es
end

structure TransformationStep where
  operation : String
  parameters : List (Key × PyValue)
  codeVersion : String
  inputs : List String

namespace TransformationStep

variable (floats : Json.FloatText)

def fields (s : TransformationStep) (parameters : PyValue) : PyValue :=
  .dict [(.str "operation", .str s.operation), (.str "parameters", parameters),
    (.str "code_version", .str s.codeVersion), (.str "inputs", .list (s.inputs.map .str))]

def canonical (s : TransformationStep) : Option PyValue :=
  (Bars.canonical floats (.dict s.parameters)).map s.fields

def toDict (s : TransformationStep) : PyValue := s.fields (asDict (.dict s.parameters))

def fromDict (raw : Value) : Except String TransformationStep := do
  let operation ← raw.field "operation"
  let operation ← operation.text
  let parameters ← raw.fieldOr "parameters" [] Value.fields
  let codeVersion ← raw.fieldOr "code_version" "" Value.text
  let inputs ← raw.fieldOr "inputs" [] Value.items
  let inputs ← inputs.mapM Value.text
  return ⟨operation, ofJsonFields parameters, codeVersion, inputs⟩

end TransformationStep

section Identity

variable (floats : Json.FloatText)

def canonicalLineage (lineage : List TransformationStep) : Option (List PyValue) :=
  lineage.mapM (TransformationStep.canonical floats)

def payload (contentChecksum : String) (lineage : List TransformationStep) : Option (List Char) :=
  (canonicalLineage floats lineage).bind fun steps =>
    (encode floats (.dict [(.str "content_checksum", .str contentChecksum),
      (.str "lineage", .list steps)])).map (Json.asciiText floats)

def idOf (text : List Char) : String :=
  "ds_" ++ String.ofList ((Blake2b.hexdigest (Utf8.encode text)).toList.take 24)

/-- `none` where the parameters have no canonical form or no JSON. -/
def computeVersionId (contentChecksum : String) (lineage : List TransformationStep) :
    Option String :=
  (payload floats contentChecksum lineage).map idOf

end Identity

structure DatasetPath where
  layer : String
  instrument : String
  timeframe : String
  versionId : String
  deriving DecidableEq

structure IntegrityReport where
  isClean : Bool

structure DatasetVersion where
  contentChecksum : String
  lineage : List TransformationStep
  instrument : String
  timeframe : Timeframe
  priceBasis : PriceBasis
  kind : DatasetKind
  quality : DataQuality
  rowCount : ℕ
  /-- Empty until the version is stored. -/
  storagePath : Option DatasetPath
  source : String
  parentIds : List String
  metadata : PyValue
  integrityReport : Option IntegrityReport

def DatasetVersion.versionId (floats : Json.FloatText) (v : DatasetVersion) : Option String :=
  computeVersionId floats v.contentChecksum v.lineage

structure DatasetVersionRow where
  versionId : String
  contentChecksum : String
  instrument : String
  timeframe : String
  priceBasis : String
  kind : String
  quality : String
  rowCount : ℕ
  storagePath : Option DatasetPath
  source : String
  lineageJson : Value
  parentIdsJson : List String
  metadataJson : Value
  integrityJson : Option IntegrityReport

inductive VersioningError where
  | notSerialisable
  | conflict (mismatches : List String)
  | notFound (versionId : String)
  | corrupt

abbrev DatasetCatalogue := String → Option DatasetVersionRow

section Register

variable (floats : Json.FloatText)

def jsonColumn (v : PyValue) : Option Value := (encode floats v).map Json.ordered

def assertCompatible (row : DatasetVersionRow) (v : DatasetVersion) : Except VersioningError Unit :=
  let mismatches :=
    (if row.contentChecksum ≠ v.contentChecksum then ["content_checksum"] else []) ++
    (if row.rowCount ≠ v.rowCount then ["row_count"] else []) ++
    (if row.instrument ≠ v.instrument then ["instrument"] else []) ++
    (if row.timeframe ≠ v.timeframe.value then ["timeframe"] else [])
  if mismatches = [] then .ok () else .error (.conflict mismatches)

def newRow (versionId : String) (v : DatasetVersion) : Option DatasetVersionRow := do
  let lineage ← jsonColumn floats (.list (v.lineage.map TransformationStep.toDict))
  let metadata ← canonical floats v.metadata
  let metadata ← jsonColumn floats metadata
  return {
    versionId, contentChecksum := v.contentChecksum, instrument := v.instrument
    timeframe := v.timeframe.value, priceBasis := v.priceBasis.value, kind := v.kind.value
    quality := v.quality.value, rowCount := v.rowCount, storagePath := v.storagePath
    source := v.source, lineageJson := lineage, parentIdsJson := v.parentIds
    metadataJson := metadata, integrityJson := v.integrityReport }

def register (catalogue : DatasetCatalogue) (v : DatasetVersion) :
    Except VersioningError (DatasetCatalogue × String) :=
  match v.versionId floats with
  | none => .error .notSerialisable
  | some vid =>
    match catalogue vid with
    | some row => do
      assertCompatible row v
      return (catalogue, vid)
    | none =>
      match newRow floats vid v with
      | none => .error .notSerialisable
      | some row => .ok (Function.update catalogue vid (some row), vid)

end Register

def DatasetKind.members : List DatasetKind := [.raw, .validated, .repaired, .resampled, .feature]

def DataQuality.members : List DataQuality := [.raw, .validated, .repaired, .suspect, .rejected]

def member {α : Type} (members : List α) (value : α → String) (text : String) :
    Except VersioningError α :=
  match members.find? fun a => value a = text with
  | some a => .ok a
  | none => .error .corrupt

def rowToVersion (row : DatasetVersionRow) : Except VersioningError DatasetVersion := do
  let lineage ← ((row.lineageJson.items.bind fun steps =>
    steps.mapM TransformationStep.fromDict).mapError fun _ => .corrupt)
  let timeframe ← member Timeframe.members Timeframe.value row.timeframe
  let priceBasis ← member PriceBasis.members PriceBasis.value row.priceBasis
  let kind ← member DatasetKind.members DatasetKind.value row.kind
  let quality ← member DataQuality.members DataQuality.value row.quality
  return {
    contentChecksum := row.contentChecksum, lineage, instrument := row.instrument, timeframe
    priceBasis, kind, quality, rowCount := row.rowCount, storagePath := row.storagePath
    source := row.source, parentIds := row.parentIdsJson, metadata := ofJson row.metadataJson
    integrityReport := row.integrityJson }

def resolve (catalogue : DatasetCatalogue) (versionId : String) :
    Except VersioningError DatasetVersion :=
  match catalogue versionId with
  | none => .error (.notFound versionId)
  | some row => rowToVersion row

end Fiboki.Bars
