import Fiboki.Data.Versioning
import Fiboki.Core.Text
import Fiboki.Lib.Civil
import Fiboki.Lib.Partitions

/-!
The layered parquet store: a frame is written in one file a year under the path of its version
id, and read back file by file and sorted.
-/

namespace Fiboki.Bars

open Wire

/-- A `Timestamp` in nanoseconds. -/
structure Instant where
  ns : ℤ
  representable : -2 ^ 63 < ns ∧ ns < 2 ^ 63

def yearOf (ns : ℤ) : ℤ := Civil.year (ns / 86400000000000)

/-- `Timestamp.to_pydatetime`, which has no nanoseconds. -/
def micros (ns : ℤ) : ℤ := ns / 1000

/-- `start <= timestamp <= end_inclusive`. -/
structure Window where
  start : Option Instant
  endInclusive : Option Instant

namespace Window

def whole : Window := ⟨none, none⟩

def Has (w : Window) (ns : ℤ) : Prop := (∀ b ∈ w.start, b.ns ≤ ns) ∧ ∀ b ∈ w.endInclusive, ns ≤ b.ns

instance (w : Window) (ns : ℤ) : Decidable (w.Has ns) := inferInstanceAs (Decidable (_ ∧ _))

def keeps (w : Window) (us : ℤ) : Bool :=
  (w.start.all fun b => micros b.ns ≤ us) && w.endInclusive.all fun b => us ≤ micros b.ns

def keepsYear (w : Window) (year : ℤ) : Bool :=
  (w.start.all fun b => yearOf b.ns ≤ year) && w.endInclusive.all fun b => year ≤ yearOf b.ns

end Window

def isNaN (bits : BitVec 64) : Bool := 0x7ff0000000000000 < bits.toNat % 2 ^ 63

def quietNaN : BitVec 64 := 0x7ff8000000000000

/-- A row of a table, in microseconds; a float cell that held a NaN is empty. -/
structure ArrowRow where
  us : ℤ
  instrument : String
  timeframe : String
  priceBasis : String
  cell : NumericColumn → Option (BitVec 64)
  representable : -2 ^ 63 < 1000 * us ∧ 1000 * us < 2 ^ 63

/-- `Table.from_pandas` of a row, which raises where nanoseconds would be lost. -/
def Row.toArrow (r : Row) : Option ArrowRow :=
  if h : 1000 * (r.timestamp / 1000) = r.timestamp then
    some {
      us := r.timestamp / 1000, instrument := r.instrument, timeframe := r.timeframe
      priceBasis := r.priceBasis
      cell := fun c => if !c.isInt && isNaN (r.value c) then none else some (r.value c)
      representable := by rw [h]; exact r.representable }
  else none

/-- `Table.to_pandas` of a row. -/
def ArrowRow.toRow (r : ArrowRow) : Row where
  timestamp := 1000 * r.us
  instrument := r.instrument
  timeframe := r.timeframe
  priceBasis := r.priceBasis
  value c := (r.cell c).getD quietNaN
  representable := r.representable

inductive StoreError where
  | schema (e : SchemaError)
  | arrowInvalid
  | noTimestampColumn
  | checksumMismatch
  | rawImmutability
  | datasetNotFound
  | dirtyData
  | notRaw
  | cannotProduceRaw
  | notSerialisable
  | versioning (e : VersioningError)

def frameToArrow (f : Frame) : Except StoreError (List ArrowRow) :=
  match validateFrameShape f with
  | .error e => .error (.schema e)
  | .ok _ =>
    match f.rows.mapM Row.toArrow with
    | none => .error .arrowInvalid
    | some rows => .ok rows

theorem nodup_columnOrder : columnOrder.Nodup := by decide

def frameFromArrow (columns : List NumericColumn) (rows : List ArrowRow) :
    Except StoreError Frame :=
  let f : Frame := {
    columns := columnOrder.filter fun c => c ∈ columns
    rows := rows.map ArrowRow.toRow
    nodup := nodup_columnOrder.filter _ }
  match validateFrameShape f with
  | .error e => .error (.schema e)
  | .ok _ => .ok f

/-- What is under a path: one file for each year, and the files beside them. -/
structure Directory where
  columns : List NumericColumn
  partitions : List (ℤ × List ArrowRow)
  document : Option Value
  integrity : Option IntegrityReport
  readOnly : Bool

def Directory.empty : Directory := ⟨[], [], none, none, false⟩

/-- `write_to_dataset(..., partition_cols=["year"])`. -/
def partition (rows : List ArrowRow) : List (ℤ × List ArrowRow) :=
  Partitions.split (fun r => yearOf (1000 * r.us)) rows

/-- The order in which a scan takes the files of a directory; each file gives the rows that
were written, in their order. -/
structure Parquet where
  arrange : List (ℤ × List ArrowRow) → List (ℤ × List ArrowRow)
  perm : ∀ files, (arrange files).Perm files

/-- `_read_frame`. A directory without a file gives a table without columns, whose index has
no time zone to convert. -/
def readFrame (parquet : Parquet) (dir : Directory) (w : Window) : Except StoreError Frame :=
  if dir.partitions.isEmpty then .error .noTimestampColumn
  else
    let rows := (parquet.arrange dir.partitions).flatMap fun p =>
      if w.keepsYear p.1 then p.2.filter fun r => w.keeps r.us else []
    match frameFromArrow dir.columns rows with
    | .error e => .error e
    | .ok f => .ok { f with rows := StableSort.sortBy Row.timestamp f.rows }

structure Adjustment where
  kind : String
  description : String
  parameters : List (Key × PyValue)

def Adjustment.toDict (a : Adjustment) : PyValue :=
  .dict [(.str "kind", .str a.kind), (.str "description", .str a.description),
    (.str "parameters", asDict (.dict a.parameters))]

structure BarDatasetMetadata where
  instrument : String
  timeframe : Timeframe
  priceBasis : PriceBasis
  source : String
  sourceIdentifier : String
  ingestionVersion : String
  checksum : String
  timezoneOfOrigin : String
  quality : DataQuality
  kind : DatasetKind
  adjustments : List Adjustment
  /-- The fields that the store only writes, as `to_dict` has them. -/
  further : List (Key × PyValue)

namespace BarDatasetMetadata

def toDict (m : BarDatasetMetadata) : PyValue :=
  .dict ([(.str "instrument", .str m.instrument), (.str "timeframe", .str m.timeframe.value),
    (.str "price_basis", .str m.priceBasis.value), (.str "source", .str m.source),
    (.str "source_identifier", .str m.sourceIdentifier),
    (.str "ingestion_version", .str m.ingestionVersion), (.str "checksum", .str m.checksum),
    (.str "timezone_of_origin", .str m.timezoneOfOrigin), (.str "quality", .str m.quality.value),
    (.str "kind", .str m.kind.value),
    (.str "adjustments", .list (m.adjustments.map Adjustment.toDict))] ++ m.further)

def ingestStep (m : BarDatasetMetadata) : TransformationStep where
  operation := "ingest_raw"
  parameters := [(.str "source", .str m.source),
    (.str "source_identifier", .str m.sourceIdentifier),
    (.str "timezone_of_origin", .str m.timezoneOfOrigin),
    (.str "price_basis", .str m.priceBasis.value),
    (.str "adjustments", .list (m.adjustments.map Adjustment.toDict))]
  codeVersion := m.ingestionVersion
  inputs := []

end BarDatasetMetadata

/-- What `write_raw` and `write_canonical` hand on. -/
structure WriteJob where
  kind : DatasetKind
  lineage : List TransformationStep
  parentIds : List String
  integrity : Option IntegrityReport
  immutable : Bool

def DatasetKind.layer : DatasetKind → String
  | .raw => "raw"
  | .validated | .repaired | .resampled => "canonical"
  | .feature => "features"

structure DataStore where
  files : DatasetPath → Option Directory
  catalogue : DatasetCatalogue

structure StoredDataset where
  version : DatasetVersion
  path : DatasetPath

section Write

variable (floats : Json.FloatText)

def versionOf (f : Frame) (m : BarDatasetMetadata) (job : WriteJob) (checksum : String) :
    DatasetVersion where
  contentChecksum := checksum
  lineage := job.lineage
  instrument := m.instrument
  timeframe := m.timeframe
  priceBasis := m.priceBasis
  kind := job.kind
  quality := m.quality
  rowCount := f.rows.length
  storagePath := none
  source := m.source
  parentIds := job.parentIds
  metadata := m.toDict
  integrityReport := job.integrity

def datasetPath (m : BarDatasetMetadata) (job : WriteJob) (versionId : String) : DatasetPath where
  layer := job.kind.layer
  instrument := Text.upper m.instrument
  timeframe := m.timeframe.value
  versionId := versionId

/-- `_dataset.json`. Its keys are sorted, mapping by mapping, as the canonical form sorts
them. -/
def document (m : BarDatasetMetadata) (job : WriteJob) (versionId : String) : Option Value :=
  let payload : PyValue := .dict [(.str "version_id", .str versionId), (.str "dataset", m.toDict),
    (.str "lineage", .list (job.lineage.map TransformationStep.toDict)),
    (.str "parent_ids", .list (job.parentIds.map .str)), (.str "kind", .str job.kind.value)]
  (canonical floats payload).bind fun _ => (encode floats payload).map Json.ordered

def populate (f : Frame) (doc : Option Value) (job : WriteJob) :
    Directory × Except StoreError Unit :=
  match frameToArrow f with
  | .error e => (.empty, .error e)
  | .ok rows =>
    match doc with
    | none => (⟨f.columns, partition rows, none, none, false⟩, .error .notSerialisable)
    | some d => (⟨f.columns, partition rows, some d, job.integrity, job.immutable⟩, .ok ())

def finish (s : DataStore) (version : DatasetVersion) (target : DatasetPath)
    (placed : Directory × Except StoreError Unit) : DataStore × Except StoreError StoredDataset :=
  let s := { s with files := Function.update s.files target (some placed.1) }
  match placed.2 with
  | .error e => (s, .error e)
  | .ok _ =>
    let version := { version with storagePath := some target }
    match register floats s.catalogue version with
    | .error e => (s, .error (.versioning e))
    | .ok (catalogue, _) => ({ s with catalogue }, .ok ⟨version, target⟩)

variable (parquet : Parquet)

def settle (existing : Option Directory) (job : WriteJob) (checksum : String) :
    Except StoreError (Option Directory) :=
  match existing with
  | none => .ok none
  | some dir =>
    if job.immutable then
      match readFrame parquet dir .whole with
      | .error e => .error e
      | .ok stored =>
        if contentChecksum stored = .ok checksum then .ok (some dir) else .error .rawImmutability
    else .ok none

def write (s : DataStore) (f : Frame) (m : BarDatasetMetadata) (job : WriteJob) :
    DataStore × Except StoreError StoredDataset :=
  match contentChecksum f with
  | .error e => (s, .error (.schema e))
  | .ok checksum =>
    if m.checksum ≠ "" ∧ m.checksum ≠ checksum then (s, .error .checksumMismatch)
    else
      let version := versionOf f m job checksum
      match version.versionId floats with
      | none => (s, .error .notSerialisable)
      | some vid =>
        let target := datasetPath m job vid
        match settle parquet (s.files target) job checksum with
        | .error e => (s, .error e)
        | .ok (some dir) => finish floats s version target (dir, .ok ())
        | .ok none =>
          finish floats s version target (populate f (document floats m job vid) job)

inductive WriteCall where
  | raw (lineage : Option (List TransformationStep))
  | canonical (source : DatasetVersion) (transformation : TransformationStep)
      (integrity : Option IntegrityReport) (kind : DatasetKind)

def WriteCall.job (m : BarDatasetMetadata) : WriteCall → Except StoreError WriteJob
  | .raw lineage => .ok {
      kind := .raw
      lineage := if (lineage.getD []).isEmpty then [m.ingestStep] else lineage.getD []
      parentIds := [], integrity := none, immutable := true }
  | .canonical source transformation integrity kind =>
    if kind = .raw then .error .cannotProduceRaw
    else
      match source.versionId floats with
      | none => .error .notSerialisable
      | some parent => .ok {
          kind, lineage := source.lineage ++ [transformation], parentIds := [parent]
          integrity, immutable := false }

/-- `write_raw` and `write_canonical`. -/
def put (s : DataStore) (f : Frame) (m : BarDatasetMetadata) (call : WriteCall) :
    DataStore × Except StoreError StoredDataset :=
  match validateFrameShape f with
  | .error e => (s, .error (.schema e))
  | .ok _ =>
    match call.job floats m with
    | .error e => (s, .error e)
    | .ok job => write floats parquet s f m job

end Write

def readableClean (v : DatasetVersion) : Bool :=
  v.quality ≠ .suspect && v.quality ≠ .rejected && v.integrityReport.all fun report =>
    report.isClean

section Read

variable (parquet : Parquet)

def DataStore.directory (s : DataStore) (v : DatasetVersion) : Option Directory :=
  v.storagePath.bind s.files

def read (s : DataStore) (vid : String) (w : Window) (allowSuspect verifyChecksum : Bool) :
    Except StoreError Frame :=
  match resolve s.catalogue vid with
  | .error e => .error (.versioning e)
  | .ok version =>
    match s.directory version with
    | none => .error .datasetNotFound
    | some dir =>
      if !allowSuspect && !readableClean version then .error .dirtyData
      else
        match readFrame parquet dir w with
        | .error e => .error e
        | .ok f =>
          if verifyChecksum && w.start.isNone && w.endInclusive.isNone then
            if contentChecksum f = .ok version.contentChecksum then .ok f
            else .error .checksumMismatch
          else .ok f

def verifyImmutable (s : DataStore) (vid : String) : Except StoreError Bool :=
  match resolve s.catalogue vid with
  | .error e => .error (.versioning e)
  | .ok version =>
    if version.kind ≠ .raw then .error .notRaw
    else
      match s.directory version with
      | none => .error .datasetNotFound
      | some dir =>
        match readFrame parquet dir .whole with
        | .error e => .error e
        | .ok f =>
          if contentChecksum f = .ok version.contentChecksum then .ok true
          else .error .rawImmutability

end Read

end Fiboki.Bars
