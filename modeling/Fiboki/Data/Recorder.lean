import Fiboki.Core.Text
import Fiboki.Lib.JsonAscii
import Fiboki.Lib.Numerals
import Fiboki.Lib.Run
import Fiboki.Lib.Utf8

/-!
The segmented log of the recorder: the frame of a record, the sessions that write one
directory and the reader of all its segments.

A payload is the JSON object that its keys and values make; a lone surrogate, which no
text here can hold, is left out. Payloads read back have their keys in order, and two
objects that differ in that order alone are one.
-/

namespace Fiboki.Recorder

open Json Runs Wire

abbrev Bytes := List UInt8

abbrev Payload := List (String × Value)

/-- `text.encode("ascii")`. -/
def asciiBytes (text : List Char) : Bytes := text.map fun c => UInt8.ofNat c.toNat

/-- The characters that `int` sees in bytes. -/
def chars (raw : Bytes) : List Char := raw.map fun b => Char.ofNat b.toNat

section Framing

variable (floats : FloatText)

def recordBody (payload : Payload) : Bytes := Utf8.encode (asciiText floats (.dict payload))

/-- `<crc32 hex> <len> <json>` and a line feed. -/
def encodeRecord (payload : Payload) : Bytes :=
  let body := recordBody floats payload
  asciiBytes (Crc32.crcText body ++ ' ' :: (Text.digits body.length ++ [' '])) ++ body ++ [10]

/-- `raw.split(b" ", 1)` into two. -/
def splitOnce (raw : Bytes) : Option (Bytes × Bytes) :=
  match raw.dropWhile (· != 32) with
  | [] => none
  | _ :: rest => some (raw.takeWhile (· != 32), rest)

inductive DecodeError where
  | tornWrite
  | malformedFrame
  | lengthMismatch (declared : ℤ) (got : ℕ)
  | crcMismatch
  | notJson

def decodeRecord (line : Bytes) : Except DecodeError Value :=
  if ¬ [10] <:+ line then .error .tornWrite
  else match splitOnce line.dropLast with
    | none => .error .malformedFrame
    | some (crcHex, rest) => match splitOnce rest with
      | none => .error .malformedFrame
      | some (lengthBytes, body) => match Numerals.int 10 (chars lengthBytes) with
        | none => .error .malformedFrame
        | some declaredLen =>
          if (body.length : ℤ) ≠ declaredLen then .error (.lengthMismatch declaredLen body.length)
          else if Numerals.int 16 (chars crcHex) ≠ some ((Crc32.crc32 body).toNat : ℤ) then
            .error .crcMismatch
          else match (Utf8.decode body).bind (loads floats) with
            | none => .error .notJson
            | some payload => .ok payload

end Framing

abbrev Directory := Dict String Bytes

def segmentPrefix : List Char := ['s', 'e', 'g']

def segmentSuffix : List Char := ['.', 'n', 'd', 'j', 's', 'o', 'n']

/-- `f"{index:06d}"`. -/
def padded (index : ℤ) : List Char :=
  if index < 0 then '-' :: List.leftpad 5 '0' (Text.digits index.natAbs)
  else List.leftpad 6 '0' (Text.digits index.natAbs)

def segmentName (index : ℤ) : String :=
  String.ofList (segmentPrefix ++ '-' :: padded index ++ segmentSuffix)

structure AppendOnlyLog where
  segmentIndex : ℤ
  recordsInSegment : ℕ
  bytesInSegment : ℕ
  maxRecordsPerSegment : ℤ
  maxBytesPerSegment : ℤ

/-- `name[len(SEGMENT_PREFIX) + 1 : -len(SEGMENT_SUFFIX)]`. -/
def stem (name : String) : List Char :=
  (name.toList.take (name.toList.length - segmentSuffix.length)).drop (segmentPrefix.length + 1)

/-- The index after that of the name sorted last, `none` where it has no number. -/
def nextSegmentIndex (directory : Directory) : Option ℤ :=
  match directory.entries.getLast? with
  | none => some 0
  | some last => (Numerals.int 10 (stem last.1)).map (· + 1)

namespace AppendOnlyLog

def currentFile (log : AppendOnlyLog) (directory : Directory) : Bytes :=
  (directory.get (segmentName log.segmentIndex)).getD []

def openSegment (log : AppendOnlyLog) (directory : Directory) : Directory × AppendOnlyLog :=
  let raw := log.currentFile directory
  (directory.set (segmentName log.segmentIndex) raw,
    { log with recordsInSegment := 0, bytesInSegment := raw.length })

def rotate (log : AppendOnlyLog) (directory : Directory) : Directory × AppendOnlyLog :=
  { log with segmentIndex := log.segmentIndex + 1 }.openSegment directory

def write (log : AppendOnlyLog) (directory : Directory) (blob : Bytes) : Directory :=
  directory.set (segmentName log.segmentIndex) (log.currentFile directory ++ blob)

def counted (log : AppendOnlyLog) (blob : Bytes) : AppendOnlyLog :=
  { log with
    recordsInSegment := log.recordsInSegment + 1
    bytesInSegment := log.bytesInSegment + blob.length }

def full (log : AppendOnlyLog) : Bool :=
  decide (log.maxRecordsPerSegment ≤ log.recordsInSegment ∨
    log.maxBytesPerSegment ≤ log.bytesInSegment)

def append (log : AppendOnlyLog) (directory : Directory) (blob : Bytes) :
    Directory × AppendOnlyLog :=
  let written := log.counted blob
  if written.full then written.rotate (log.write directory blob)
  else (log.write directory blob, written)

end AppendOnlyLog

/-- The directory, the session that has it open, and what its history says: the records
written whole, and whether a crash left a part of one. -/
structure State where
  directory : Directory
  log : Option AppendOnlyLog
  written : List Payload
  torn : Bool

def State.initial : State := ⟨Dict.empty, none, [], false⟩

/-- `crash payload n` is the end of a session after `n` bytes of a record; one that dies
between two records has put none. -/
inductive Event where
  | opens (maxRecordsPerSegment maxBytesPerSegment : ℤ)
  | append (payload : Payload)
  | rotate
  | close
  | crash (payload : Payload) (n : ℕ)

section Sessions

variable (floats : FloatText)

def step (s : State) : Event → State
  | .opens maxRecords maxBytes =>
    match s.log, nextSegmentIndex s.directory with
    | none, some index =>
      let (directory, log) := AppendOnlyLog.openSegment ⟨index, 0, 0, maxRecords, maxBytes⟩
        s.directory
      { s with directory, log := some log }
    | _, _ => s
  | .append payload =>
    match s.log with
    | none => s
    | some log =>
      let (directory, log) := log.append s.directory (encodeRecord floats payload)
      { s with directory, log := some log, written := s.written ++ [payload] }
  | .rotate =>
    match s.log with
    | none => s
    | some log =>
      let (directory, log) := log.rotate s.directory
      { s with directory, log := some log }
  | .close => { s with log := none }
  | .crash payload n =>
    match s.log with
    | none => s
    | some log =>
      let blob := encodeRecord floats payload
      let s := { s with directory := log.write s.directory (blob.take n), log := none }
      if blob.length ≤ n then { s with written := s.written ++ [payload] }
      else if n = 0 then s
      else { s with torn := true }

end Sessions

structure ReadReport where
  recordsRead : ℕ
  segmentsRead : ℕ
  truncatedTail : Bool
  corruptInteriorLines : List (String × ℕ)

/-- A corrupt record with valid ones after it: its segment and its line. -/
structure LogCorruption where
  segment : String
  line : ℕ
  deriving DecidableEq

/-- `raw.splitlines(keepends=True)`. -/
def splitlines : Bytes → List Bytes
  | [] => []
  | b :: rest =>
    if b = 10 ∨ (b = 13 ∧ rest.head? ≠ some 10) then [b] :: splitlines rest
    else match splitlines rest with
      | [] => [[b]]
      | line :: lines => (b :: line) :: lines

structure Progress where
  records : List Value
  truncatedTail : Bool
  corruptInterior : List (String × ℕ)

section Reading

variable (floats : FloatText) (tolerate : Bool)

/-- The lines of a segment from number `lineNo` on. -/
def readLines (name : String) (lastSegment : Bool) :
    ℕ → List Bytes → Progress → Except LogCorruption Progress
  | _, [], p => .ok p
  | lineNo, line :: rest, p =>
    match decodeRecord floats line with
    | .ok payload =>
      readLines name lastSegment (lineNo + 1) rest { p with records := p.records ++ [payload] }
    | .error _ =>
      if lastSegment && rest.isEmpty then
        readLines name lastSegment (lineNo + 1) rest { p with truncatedTail := true }
      else if tolerate then
        readLines name lastSegment (lineNo + 1) rest
          { p with corruptInterior := p.corruptInterior ++ [(name, lineNo)] }
      else .error ⟨name, lineNo⟩

def readSegments : List (String × Bytes) → Progress → Except LogCorruption Progress
  | [], p => .ok p
  | seg :: rest, p =>
    match readLines floats tolerate seg.1 rest.isEmpty 0 (splitlines seg.2) p with
    | .error e => .error e
    | .ok p => readSegments rest p

def readAll (directory : Directory) : Except LogCorruption (List Value × ReadReport) :=
  match readSegments floats tolerate directory.entries ⟨[], false, []⟩ with
  | .error e => .error e
  | .ok p =>
    .ok (p.records, ⟨p.records.length, directory.entries.length, p.truncatedTail,
      p.corruptInterior⟩)

end Reading

def raised : Except LogCorruption (List Value × ReadReport) → Option LogCorruption
  | .error e => some e
  | .ok _ => none

section Records

variable {floats : FloatText}

variable {text : List Char}

theorem chars_asciiBytes (h : ∀ c ∈ text, c.toNat < 128) : chars (asciiBytes text) = text := by
  unfold chars asciiBytes
  rw [List.map_map]
  conv_rhs => rw [← List.map_id text]
  apply List.map_congr_left
  intro c hc
  have hlt := h c hc
  simp only [Function.comp_apply, id_eq]
  rw [UInt8.toNat_ofNat', Nat.mod_eq_of_lt (by omega), Char.ofNat_toNat]

variable {b : UInt8}

theorem mem_asciiBytes (h : ∀ c ∈ text, c.toNat < 128)
    (hb : b ∈ asciiBytes text) : ∃ c ∈ text, b.toNat = c.toNat := by
  obtain ⟨c, hc, rfl⟩ := List.mem_map.1 hb
  have hlt := h c hc
  refine ⟨c, hc, ?_⟩
  rw [UInt8.toNat_ofNat', Nat.mod_eq_of_lt (by omega)]

theorem ascii_crcText (body : Bytes) : ∀ c ∈ Crc32.crcText body, c.toNat < 128 ∧ 33 ≤ c.toNat := by
  have hdigit : ∀ n < 16, (Nat.digitChar n).toNat < 128 ∧ 33 ≤ (Nat.digitChar n).toNat := by decide
  intro c hc
  unfold Crc32.crcText Sha256.hexWord at hc
  obtain ⟨i, -, rfl⟩ := List.mem_map.1 (List.mem_reverse.1 hc)
  exact hdigit _ (Nat.mod_lt _ (by omega))

theorem ascii_digits (n : ℕ) : ∀ c ∈ Text.digits n, c.toNat < 128 ∧ 33 ≤ c.toNat := by
  intro c hc
  have hdigit := (Bool.and_eq_true _ _).mp (Text.isDigit_of_mem_digits hc)
  have hlow : 48 ≤ c.toNat := by simpa [UInt32.le_iff_toNat_le] using hdigit.1
  have hhigh : c.toNat ≤ 57 := by simpa [UInt32.le_iff_toNat_le] using hdigit.2
  omega

variable {payload : Payload}

theorem mem_recordBody (hb : b ∈ recordBody floats payload) : 32 ≤ b.toNat := by
  obtain ⟨c, hc, hb⟩ := List.mem_flatMap.1 hb
  have hprintable := printable_asciiText floats (.dict payload) c hc
  rw [Utf8.encodeChar_ascii hprintable.2, List.mem_singleton] at hb
  rw [hb, UInt8.toNat_ofNat', Nat.mod_eq_of_lt (by omega)]
  exact hprintable.1

theorem splitOnce_space {front : Bytes} (h : ∀ b ∈ front, b ≠ 32) (rest : Bytes) :
    splitOnce (front ++ 32 :: rest) = some (front, rest) := by
  have hkeep : ∀ b ∈ front, (b != 32) = true := fun b hb => bne_iff_ne.2 (h b hb)
  have hdrop : (front ++ 32 :: rest).dropWhile (· != 32) = 32 :: rest := by
    rw [List.dropWhile_append_of_pos hkeep]
    rfl
  have htake : (front ++ 32 :: rest).takeWhile (· != 32) = front := by
    rw [List.takeWhile_append_of_pos hkeep]
    exact List.append_nil front
  unfold splitOnce
  rw [hdrop, htake]

theorem ne_space (h : ∀ c ∈ text, c.toNat < 128 ∧ 33 ≤ c.toNat) :
    ∀ b ∈ asciiBytes text, b ≠ 32 := by
  rintro b hb rfl
  obtain ⟨c, hc, hsame⟩ := mem_asciiBytes (fun c hc => (h c hc).1) hb
  have hc := (h c hc).2
  have : (32 : UInt8).toNat = 32 := rfl
  omega

def recordFrame (floats : FloatText) (payload : Payload) : Bytes :=
  asciiBytes (Crc32.crcText (recordBody floats payload)) ++
    32 :: (asciiBytes (Text.digits (recordBody floats payload).length) ++
      32 :: recordBody floats payload)

theorem encodeRecord_eq (payload : Payload) :
    encodeRecord floats payload = recordFrame floats payload ++ [10] := by
  simp [encodeRecord, recordFrame, asciiBytes]

theorem decodeRecord_encodeRecord (payload : Payload) :
    decodeRecord floats (encodeRecord floats payload) = .ok (ordered (.dict payload)) := by
  have hread : (Utf8.decode (recordBody floats payload)).bind (loads floats) =
      some (ordered (.dict payload)) := by
    rw [recordBody, Utf8.decode_encode]
    exact loads_write floats _ (sorted_ordered _)
  rw [encodeRecord_eq]
  unfold decodeRecord
  rw [if_neg (not_not_intro (List.suffix_append _ _)), List.dropLast_concat, recordFrame,
    splitOnce_space (ne_space (ascii_crcText _))]
  dsimp only
  rw [splitOnce_space (ne_space (ascii_digits _))]
  dsimp only
  rw [chars_asciiBytes fun c hc => (ascii_digits _ c hc).1,
    chars_asciiBytes fun c hc => (ascii_crcText _ c hc).1, Numerals.int_crcText]
  unfold Text.digits
  rw [Numerals.int_toDigits]
  dsimp only
  rw [if_neg (not_not_intro rfl), if_neg (not_not_intro rfl), hread]

theorem mem_recordFrame (hb : b ∈ recordFrame floats payload) : b ≠ 10 ∧ b ≠ 13 := by
  have hbig : 32 ≤ b.toNat := by
    unfold recordFrame at hb
    simp only [List.mem_append, List.mem_cons] at hb
    rcases hb with hb | rfl | hb | rfl | hb
    · obtain ⟨c, hc, hsame⟩ := mem_asciiBytes (fun c hc => (ascii_crcText _ c hc).1) hb
      have := (ascii_crcText _ c hc).2
      omega
    · decide
    · obtain ⟨c, hc, hsame⟩ := mem_asciiBytes (fun c hc => (ascii_digits _ c hc).1) hb
      have := (ascii_digits _ c hc).2
      omega
    · decide
    · exact mem_recordBody hb
  constructor <;> rintro rfl <;> revert hbig <;> decide

def Unbroken (raw : Bytes) : Prop := ∀ b ∈ raw, b ≠ 10 ∧ b ≠ 13

theorem splitlines_line {line : Bytes} (h : Unbroken line) (rest : Bytes) :
    splitlines (line ++ 10 :: rest) = (line ++ [10]) :: splitlines rest := by
  induction line with
  | nil => rw [List.nil_append, splitlines, if_pos (.inl rfl), List.nil_append]
  | cons b line ih =>
    have hb := h b List.mem_cons_self
    rw [List.cons_append, splitlines, if_neg, ih fun c hc => h c (List.mem_cons_of_mem _ hc)]
    · rfl
    · rintro (hten | ⟨hthirteen, -⟩)
      · exact hb.1 hten
      · exact hb.2 hthirteen

variable {raw : Bytes}

theorem splitlines_unbroken (h : Unbroken raw) (hne : raw ≠ []) : splitlines raw = [raw] := by
  induction raw with
  | nil => exact absurd rfl hne
  | cons b raw ih =>
    have hb := h b List.mem_cons_self
    rw [splitlines, if_neg]
    · cases raw with
      | nil => rfl
      | cons c raw => rw [ih (fun d hd => h d (List.mem_cons_of_mem _ hd)) (List.cons_ne_nil _ _)]
    · rintro (hten | ⟨hthirteen, -⟩)
      · exact hb.1 hten
      · exact hb.2 hthirteen

theorem unbroken_take {n : ℕ} (h : n < (encodeRecord floats payload).length) :
    Unbroken ((encodeRecord floats payload).take n) := by
  rw [encodeRecord_eq, List.length_append, List.length_singleton] at h
  intro b hb
  rw [encodeRecord_eq, List.take_append_of_le_length (by omega)] at hb
  exact mem_recordFrame (List.mem_of_mem_take hb)

theorem decodeRecord_unbroken (h : Unbroken raw) : decodeRecord floats raw = .error .tornWrite := by
  refine if_pos fun hsuffix => ?_
  exact (h 10 (hsuffix.subset (List.mem_singleton_self _))).1 rfl

end Records

end Fiboki.Recorder
