import Fiboki.Core.Enums
import Fiboki.Lib.Digests
import Fiboki.Lib.Utf8
import Fiboki.Lib.Wire
import Mathlib.Algebra.Group.Int.Defs
import Mathlib.Data.List.Dedup

/-!
The canonical bar schema: which frames are canonically shaped, and the content checksum that
is taken of their bytes.
-/

namespace Fiboki.Bars

inductive PriceBasis where
  | bid
  | ask
  | mid
  | last
  | syntheticMid
  | lastAsMid

namespace PriceBasis

def value : PriceBasis → String
  | bid => "bid"
  | ask => "ask"
  | mid => "mid"
  | last => "last"
  | syntheticMid => "synthetic_mid"
  | lastAsMid => "last_as_mid"

def members : List PriceBasis := [bid, ask, mid, last, syntheticMid, lastAsMid]

def ofValue (value : String) : Option PriceBasis := members.find? fun b => b.value = value

theorem ofValue_value (b : PriceBasis) : ofValue b.value = some b := by cases b <;> rfl

end PriceBasis

inductive DatasetKind where
  | raw
  | validated
  | repaired
  | resampled
  | feature
  deriving DecidableEq

namespace DatasetKind

def value : DatasetKind → String
  | raw => "raw"
  | validated => "validated"
  | repaired => "repaired"
  | resampled => "resampled"
  | feature => "feature"

end DatasetKind

inductive DataQuality where
  | raw
  | validated
  | repaired
  | suspect
  | rejected
  deriving DecidableEq

def DataQuality.value : DataQuality → String
  | raw => "raw"
  | validated => "validated"
  | repaired => "repaired"
  | suspect => "suspect"
  | rejected => "rejected"

inductive NumericColumn where
  | opening
  | high
  | low
  | close
  | volume
  | tickVolume
  | bidOpen
  | bidHigh
  | bidLow
  | bidClose
  | askOpen
  | askHigh
  | askLow
  | askClose
  deriving DecidableEq

namespace NumericColumn

def name : NumericColumn → String
  | opening => "open"
  | high => "high"
  | low => "low"
  | close => "close"
  | volume => "volume"
  | tickVolume => "tick_volume"
  | bidOpen => "bid_open"
  | bidHigh => "bid_high"
  | bidLow => "bid_low"
  | bidClose => "bid_close"
  | askOpen => "ask_open"
  | askHigh => "ask_high"
  | askLow => "ask_low"
  | askClose => "ask_close"

/-- `_INT_COLUMNS`; the others hold floats. -/
def isInt (c : NumericColumn) : Bool := c = volume || c = tickVolume

end NumericColumn

def ohlcColumns : List NumericColumn := [.opening, .high, .low, .close]

theorem nodup_ohlcColumns : ohlcColumns.Nodup := by decide

/-- `COLUMN_ORDER` after the identity columns. -/
def columnOrder : List NumericColumn :=
  ohlcColumns ++ [.volume, .tickVolume, .bidOpen, .bidHigh, .bidLow, .bidClose, .askOpen,
    .askHigh, .askLow, .askClose]

/-- One row, at a nanosecond since the epoch: a float cell by its bits, an integer cell in
two's complement. Nothing reads a cell of a column that the frame does not have. -/
@[ext] structure Row where
  timestamp : ℤ
  instrument : String
  timeframe : String
  priceBasis : String
  value : NumericColumn → BitVec 64
  representable : -2 ^ 63 < timestamp ∧ timestamp < 2 ^ 63

@[ext] structure Frame where
  columns : List NumericColumn
  rows : List Row
  nodup : columns.Nodup

inductive SchemaError where
  | missing (columns : List String)
  | mixes (column : String) (values : List String)
  | notAMember (column value : String)
  deriving DecidableEq

def theOnly (column : String) (values : List String) : Except SchemaError String :=
  match values.dedup with
  | [v] => .ok v
  | vs => .error (.mixes column vs)

def checkMember (column value : String) (known : Bool) : Except SchemaError Unit :=
  if known then .ok () else .error (.notAMember column value)

def validateIdentity (rows : List Row) : Except SchemaError Unit := do
  let basis ← theOnly "price_basis" (rows.map Row.priceBasis)
  checkMember "price_basis" basis (PriceBasis.ofValue basis).isSome
  let timeframe ← theOnly "timeframe" (rows.map Row.timeframe)
  checkMember "timeframe" timeframe (Timeframe.ofValue timeframe).isSome
  let _ ← theOnly "instrument" (rows.map Row.instrument)

def validateFrameShape (f : Frame) : Except SchemaError Unit :=
  let missing := ohlcColumns.filter fun c => c ∉ f.columns
  if missing ≠ [] then .error (.missing (missing.map NumericColumn.name))
  else if f.rows.isEmpty then .ok ()
  else validateIdentity f.rows

def Frame.ordered (f : Frame) : List NumericColumn := columnOrder.filter fun c => c ∈ f.columns

def word (w : BitVec 64) : List UInt8 := (List.range 8).map fun i => UInt8.ofNat (w.toNat / 256 ^ i)

def textCells (values : List String) : List UInt8 :=
  values.flatMap fun s => Utf8.encode s.toList ++ [0x1f]

def columnBytes (name : String) (cells : List UInt8) : List UInt8 :=
  Utf8.encode name.toList ++ 0 :: cells ++ [0x1e]

/-- What `content_checksum` hashes: the index in nanoseconds, then column by column. -/
def contentBytes (f : Frame) : List UInt8 :=
  Utf8.encode "fiboki-bars-v1".toList ++ 0 ::
    (f.rows.flatMap fun r => word (BitVec.ofInt 64 r.timestamp)) ++
    columnBytes "instrument" (textCells (f.rows.map Row.instrument)) ++
    columnBytes "timeframe" (textCells (f.rows.map Row.timeframe)) ++
    columnBytes "price_basis" (textCells (f.rows.map Row.priceBasis)) ++
    f.ordered.flatMap fun c => columnBytes c.name (f.rows.flatMap fun r => word (r.value c))

def contentChecksum (f : Frame) : Except SchemaError String := do
  validateFrameShape f
  return Blake2b.hexdigest (contentBytes f)

variable {v : String}

theorem theOnly_eq_ok {column : String} {values : List String} :
    theOnly column values = .ok v ↔ values ≠ [] ∧ ∀ x ∈ values, x = v := by
  have hmem : ∀ x, x ∈ values.dedup ↔ x ∈ values := fun x => List.mem_dedup
  have hnodup := List.nodup_dedup values
  unfold theOnly
  constructor
  · intro h
    split at h
    · rename_i w hw
      cases h
      rw [hw] at hmem
      refine ⟨?_, fun x hx => List.mem_singleton.1 ((hmem x).2 hx)⟩
      rintro rfl
      exact List.not_mem_nil ((hmem v).1 List.mem_cons_self)
    · cases h
  · rintro ⟨hne, hall⟩
    have hv : values.dedup = [v] := by
      have hsub : ∀ x ∈ values.dedup, x = v := fun x hx => hall x ((hmem x).1 hx)
      cases hd : values.dedup with
      | nil =>
        obtain ⟨x, hx⟩ := List.exists_mem_of_ne_nil values hne
        have := (hmem x).2 hx
        rw [hd] at this
        cases this
      | cons a rest =>
        rw [hd] at hsub hnodup
        obtain rfl := hsub a List.mem_cons_self
        cases rest with
        | nil => rfl
        | cons b rest =>
          have hb := hsub b (List.mem_cons_of_mem _ List.mem_cons_self)
          subst hb
          exact absurd List.mem_cons_self (List.nodup_cons.1 hnodup).1
    rw [hv]

theorem checkMember_eq_ok {column value : String} {known : Bool} :
    checkMember column value known = .ok () ↔ known = true := by
  unfold checkMember
  cases known <;> simp

theorem PriceBasis.ofValue_isSome :
    (PriceBasis.ofValue v).isSome = true ↔ ∃ b : PriceBasis, b.value = v := by
  constructor
  · intro h
    obtain ⟨b, hb⟩ := Option.isSome_iff_exists.1 h
    unfold PriceBasis.ofValue at hb
    have hval := List.find?_some hb
    exact ⟨b, of_decide_eq_true hval⟩
  · rintro ⟨b, rfl⟩
    rw [PriceBasis.ofValue_value]
    rfl

theorem timeframe_isSome :
    (Timeframe.ofValue v).isSome = true ↔ ∃ tf : Timeframe, tf.value = v := by
  constructor
  · intro h
    obtain ⟨tf, htf⟩ := Option.isSome_iff_exists.1 h
    unfold Timeframe.ofValue at htf
    have hval := List.find?_some htf
    exact ⟨tf, of_decide_eq_true hval⟩
  · rintro ⟨tf, rfl⟩
    rw [Timeframe.ofValue_value]
    rfl

variable {rows : List Row}

theorem theOnly_map {column v : String} {field : Row → String} (hne : rows ≠ []) :
    theOnly column (rows.map field) = .ok v ↔ ∀ r ∈ rows, field r = v := by
  rw [theOnly_eq_ok]
  constructor
  · rintro ⟨-, h⟩ r hr
    exact h _ (List.mem_map_of_mem hr)
  · intro h
    refine ⟨by simpa using hne, ?_⟩
    intro x hx
    obtain ⟨r, hr, rfl⟩ := List.mem_map.1 hx
    exact h r hr

structure Identified (rows : List Row) : Prop where
  basis : ∃ b : PriceBasis, ∀ r ∈ rows, r.priceBasis = b.value
  timeframe : ∃ tf : Timeframe, ∀ r ∈ rows, r.timeframe = tf.value
  instrument : ∃ i, ∀ r ∈ rows, r.instrument = i

theorem validateIdentity_eq_ok (hne : rows ≠ []) :
    validateIdentity rows = .ok () ↔ Identified rows := by
  constructor
  · intro h
    obtain ⟨basis, hbasis, h⟩ := Wire.bind_ok h
    obtain ⟨_, hknown, h⟩ := Wire.bind_ok h
    obtain ⟨timeframe, htimeframe, h⟩ := Wire.bind_ok h
    obtain ⟨_, hmember, h⟩ := Wire.bind_ok h
    obtain ⟨instrument, hinstrument, -⟩ := Wire.bind_ok h
    obtain ⟨b, rfl⟩ := PriceBasis.ofValue_isSome.1 (checkMember_eq_ok.1 hknown)
    obtain ⟨tf, rfl⟩ := timeframe_isSome.1 (checkMember_eq_ok.1 hmember)
    exact ⟨⟨b, (theOnly_map hne).1 hbasis⟩, ⟨tf, (theOnly_map hne).1 htimeframe⟩,
      ⟨instrument, (theOnly_map hne).1 hinstrument⟩⟩
  · rintro ⟨⟨b, hb⟩, ⟨tf, htf⟩, ⟨i, hi⟩⟩
    unfold validateIdentity
    rw [(theOnly_map hne).2 hb, (theOnly_map hne).2 htf, (theOnly_map hne).2 hi]
    have hknown : checkMember "price_basis" b.value (PriceBasis.ofValue b.value).isSome = .ok () :=
      checkMember_eq_ok.2 (PriceBasis.ofValue_isSome.2 ⟨b, rfl⟩)
    have hmember : checkMember "timeframe" tf.value (Timeframe.ofValue tf.value).isSome = .ok () :=
      checkMember_eq_ok.2 (timeframe_isSome.2 ⟨tf, rfl⟩)
    simp only [bind, Except.bind, hknown, hmember]
    rfl

theorem Identified.nil : Identified [] :=
  ⟨⟨.bid, fun _ h => absurd h List.not_mem_nil⟩, ⟨.M1, fun _ h => absurd h List.not_mem_nil⟩,
    ⟨"", fun _ h => absurd h List.not_mem_nil⟩⟩

/-- The frames that `validate_frame_shape` accepts. -/
structure Accepted (f : Frame) : Prop where
  ohlc : ∀ c ∈ ohlcColumns, c ∈ f.columns
  identified : Identified f.rows

variable {f : Frame}

theorem validateFrameShape_eq_ok : validateFrameShape f = .ok () ↔ Accepted f := by
  have hohlc : (ohlcColumns.filter fun c => c ∉ f.columns) = [] ↔
      ∀ c ∈ ohlcColumns, c ∈ f.columns := by
    rw [List.filter_eq_nil_iff]
    simp
  unfold validateFrameShape
  constructor
  · intro h
    dsimp only at h
    split_ifs at h with hmissing hrows
    · refine ⟨hohlc.1 (not_not.1 hmissing), ?_⟩
      rw [List.isEmpty_iff.1 hrows]
      exact .nil
    · have hne : f.rows ≠ [] := fun hnil => hrows (List.isEmpty_iff.2 hnil)
      exact ⟨hohlc.1 (not_not.1 hmissing), (validateIdentity_eq_ok hne).1 h⟩
  · intro h
    dsimp only
    rw [if_neg (not_not.2 (hohlc.2 h.ohlc))]
    split_ifs with hrows
    · rfl
    · exact (validateIdentity_eq_ok fun hnil => hrows (List.isEmpty_iff.2 hnil)).2 h.identified

theorem contentChecksum_eq_ok {checksum : String} : contentChecksum f = .ok checksum ↔
      Accepted f ∧ Blake2b.hexdigest (contentBytes f) = checksum := by
  unfold contentChecksum
  constructor
  · intro h
    obtain ⟨_, hshape, h⟩ := Wire.bind_ok h
    exact ⟨validateFrameShape_eq_ok.1 hshape, Except.ok.inj h⟩
  · rintro ⟨hf, rfl⟩
    rw [validateFrameShape_eq_ok.2 hf]
    rfl

end Fiboki.Bars
