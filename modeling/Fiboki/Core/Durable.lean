import Fiboki.Core.Text
import Fiboki.Lib.Digests
import Fiboki.Lib.Json
import Fiboki.Lib.Lines
import Fiboki.Lib.Utf8

/-!
An append-only file of JSON lines, each framed with the CRC-32 of its payload: the
framing, the scan of a file and the check of its tail.
-/

namespace Fiboki.Durable

open Json Utf8 Crc32

abbrev Bytes := List UInt8

abbrev Payload := List Char

def crcPrefix : List Char := "\x7b\"_crc32\":\"".toList

def hexLength : ℕ := 8

def afterCrc : ℕ := crcPrefix.length + hexLength

def crc (payload : Payload) : List Char := crcText (encode payload)

def frameLine (payload : Payload) : Except String (List Char) :=
  if ¬ (['{'] <+: payload) ∨ ¬ (['}'] <:+ payload) then
    .error "durable lines are JSON objects: payload must be '\x7b...\x7d'"
  else if '\n' ∈ payload ∨ '\r' ∈ payload then
    .error "a durable line may not contain a raw newline"
  else if crcPrefix.dropLast <+: payload then
    .error "payload is already framed (it starts with the _crc32 key)"
  else if payload = ['{', '}'] then .ok (crcPrefix ++ crc payload ++ ['"', '}'])
  else if ((payload.drop 1).take 1).any Text.isSpace then
    .error "payload must start '\x7b\"' (no whitespace after the brace)"
  else .ok (crcPrefix ++ crc payload ++ ['"', ','] ++ payload.drop 1)

inductive FrameError where
  | malformedFrame
  | crcMismatch
  | notJson
  | notUtf8
  deriving DecidableEq

def unframe (tail : List Char) : Except FrameError Payload :=
  if tail = ['"', '}'] then .ok ['{', '}']
  else if ['"', ','] <+: tail then .ok ('{' :: tail.drop 2)
  else .error .malformedFrame

section Reading

variable (floats : FloatText)

/-- A payload past the limits of `json.loads`, on the digits of an integer or the depth of nesting,
is read here as any other. -/
def decodeLine (line : List Char) : Except FrameError (Payload × Bool) :=
  if crcPrefix <+: line then
    let digits := (line.drop crcPrefix.length).take hexLength
    match unframe (line.drop afterCrc) with
    | .error e => .error e
    | .ok payload =>
      if digits.length ≠ hexLength ∨ crc payload ≠ digits.map Char.toLower then
        .error .crcMismatch
      else .ok (payload, true)
  else match loads floats line with
    | none => .error .notJson
    | some _ => .ok (line, false)

/-- The bytes that `bytes.strip` takes off. -/
def isSpaceByte (b : UInt8) : Bool := (9 ≤ b.toNat && b.toNat ≤ 13) || b.toNat == 32

def strip (raw : Bytes) : Bytes := (raw.dropWhile isSpaceByte).rdropWhile isSpaceByte

def decodeBytes (text : Bytes) : Except FrameError Payload :=
  match decode text with
  | none => .error .notUtf8
  | some line => (decodeLine floats line).map Prod.fst

def isNewline (b : UInt8) : Bool := b == 10

inductive TornReason where
  | failedVerification (error : FrameError)
  | notTerminated
  deriving DecidableEq

structure Scan where
  payloads : List Payload
  goodLen : ℕ
  torn : Option Bytes
  reason : Option TornReason
  deriving DecidableEq

structure DurableLogCorrupt where
  line : ℕ
  error : FrameError

/-- The scan from its complete line number `index` on, which starts at byte `pos`. -/
def scanFrom (blob unfinished : Bytes) :
    ℕ → ℕ → List Payload → List Bytes → Except DurableLogCorrupt Scan
  | _, pos, payloads, [] =>
    if unfinished ≠ [] then .ok ⟨payloads, pos, some (blob.drop pos), some .notTerminated⟩
    else .ok ⟨payloads, pos, none, none⟩
  | index, pos, payloads, raw :: rest =>
    let stop := pos + raw.length + 1
    if strip raw = [] then scanFrom blob unfinished (index + 1) stop payloads rest
    else match decodeBytes floats (strip raw) with
      | .error e =>
        if (∀ r ∈ rest, strip r = []) ∧ strip unfinished = [] then
          .ok ⟨payloads, pos, some (blob.drop pos), some (.failedVerification e)⟩
        else .error ⟨index + 1, e⟩
      | .ok payload =>
        scanFrom blob unfinished (index + 1) stop (payloads ++ [payload]) rest

def scan (blob : Bytes) : Except DurableLogCorrupt Scan :=
  scanFrom floats blob (Lines.cut isNewline blob).2 0 0 [] (Lines.cut isNewline blob).1

/-- The bytes after the last newline of `body`, and whether it has one. -/
def lastLine (body : Bytes) : Bytes × Bool :=
  (body.rtakeWhile fun b => !isNewline b, body.any isNewline)

def tailWindow : ℕ := 2 ^ 16

def tailIsClean (file : Bytes) : Bool :=
  let window := min file.length tailWindow
  let tail := file.drop (file.length - window)
  if ¬ ([10] <:+ tail) then false
  else
    let body := tail.dropLast
    if (lastLine body).2 = false ∧ window < file.length then true
    else
      let last := strip (lastLine body).1
      if last = [] then true
      else match decodeBytes floats last with
        | .error _ => false
        | .ok _ => true

/-- The file that an append finds once it has repaired the tail, `truncates` telling
whether the quarantine got as far as cutting the file. -/
def repaired (truncates : Bool) (file : Bytes) : Except DurableLogCorrupt Bytes :=
  if file.length ≠ 0 ∧ tailIsClean floats file = false then
    match scan floats file with
    | .error e => .error e
    | .ok found =>
      .ok (if found.torn.isSome && truncates then file.take found.goodLen else file)
  else .ok file

end Reading

def recordText (line : Payload) (frame : Bool) : Except String (List Char) :=
  if frame then frameLine line else .ok line

def recordBytes (line : Payload) (frame : Bool) : Except String Bytes :=
  match recordText line frame with
  | .error e => .error e
  | .ok text =>
    if '\n' ∈ text then .error "a durable record is one line"
    else .ok (encode (text ++ ['\n']))

section Frames

variable {floats : FloatText} {payload line : Payload}

theorem length_crc (payload : Payload) : (crc payload).length = hexLength := length_crcText _

theorem drop_crc (digits rest : List Char) :
    (crcPrefix ++ digits ++ rest).drop crcPrefix.length = digits ++ rest := by
  rw [List.append_assoc, List.drop_left]

theorem drop_afterCrc {digits : List Char} (h : digits.length = hexLength) (rest : List Char) :
    (crcPrefix ++ digits ++ rest).drop afterCrc = rest := by
  have hlen : (crcPrefix ++ digits).length = afterCrc := by rw [List.length_append, h, afterCrc]
  rw [← hlen, List.drop_left]

variable {tail : List Char}

theorem decodeLine_framed (h : unframe tail = .ok payload) :
    decodeLine floats (crcPrefix ++ crc payload ++ tail) = .ok (payload, true) := by
  have hbegins : crcPrefix <+: crcPrefix ++ crc payload ++ tail := by
    rw [List.append_assoc]
    exact List.prefix_append _ _
  have hdigits : ((crcPrefix ++ crc payload ++ tail).drop crcPrefix.length).take hexLength
      = crc payload := by
    rw [drop_crc, ← length_crc payload, List.take_left]
  unfold decodeLine
  rw [if_pos hbegins]
  simp only [drop_afterCrc (length_crc payload), h, hdigits]
  rw [if_neg]
  intro hbad
  rcases hbad with hbad | hbad
  · exact hbad (length_crc payload)
  · exact hbad (lower_crcText _).symm

theorem frameLine_ok (h : frameLine payload = .ok line) :
    ∃ tail, line = crcPrefix ++ crc payload ++ tail ∧ unframe tail = .ok payload ∧
      ['}'] <:+ tail ∧ '\n' ∉ tail := by
  unfold frameLine at h
  split_ifs at h with hbraces hnewline hframed hempty hspace
  · cases h
    exact ⟨['"', '}'], rfl, by rw [hempty]; rfl, ⟨['"'], rfl⟩, by decide⟩
  · push Not at hbraces hnewline
    obtain ⟨⟨body, hbody⟩, hclose⟩ := hbraces
    cases h
    refine ⟨['"', ','] ++ body, by rw [← hbody]; rfl, ?_, ?_, ?_⟩
    · unfold unframe
      rw [if_neg (by simp), if_pos (List.prefix_append _ _), ← hbody]
      rfl
    · have hsuffix : ['}'] <:+ body := by
        obtain ⟨front, hfront⟩ := hclose
        rw [← hbody] at hfront
        cases front with
        | nil => exact absurd (List.cons.inj hfront).1 (by decide)
        | cons c front => exact ⟨front, (List.cons.inj hfront).2⟩
      exact hsuffix.trans (List.suffix_append _ _)
    · intro hmem
      rcases List.mem_append.1 hmem with hmem | hmem
      · exact absurd hmem (by decide)
      · exact hnewline.1 (hbody ▸ List.mem_append_right _ hmem)

theorem strip_self {raw : Bytes} (hhead : ∀ b ∈ raw.head?, isSpaceByte b = false)
    (hlast : ∀ b ∈ raw.getLast?, isSpaceByte b = false) : strip raw = raw := by
  cases raw with
  | nil => rfl
  | cons b raw =>
    have hb := hhead b rfl
    unfold strip
    rw [List.dropWhile_cons_of_neg (by rw [hb]; decide), List.rdropWhile_eq_self_iff]
    intro hne hspace
    rw [hlast _ (List.getLast?_eq_some_getLast hne)] at hspace
    cases hspace

def Whole (floats : FloatText) (payload : Payload) (data : Bytes) : Prop :=
  ∃ body, data = body ++ [10] ∧ (10 : UInt8) ∉ body ∧ strip body ≠ [] ∧
    decodeBytes floats (strip body) = .ok payload

def Accepted (floats : FloatText) (line : Payload) : Prop :=
  strip (encode line) ≠ [] ∧ decodeBytes floats (strip (encode line)) = .ok line

variable {data : Bytes}

theorem recordBytes_ok {frame : Bool} (h : recordBytes line frame = .ok data) :
    ∃ text, recordText line frame = .ok text ∧ '\n' ∉ text ∧ data = encode text ++ [10] := by
  unfold recordBytes at h
  cases htext : recordText line frame with
  | error e =>
    rw [htext] at h
    cases h
  | ok text =>
    rw [htext] at h
    dsimp only at h
    split_ifs at h with hnewline
    cases h
    exact ⟨text, rfl, hnewline, encode_append text ['\n']⟩

theorem strip_framed (digits : List Char) (h : ['}'] <:+ tail) :
    strip (encode (crcPrefix ++ digits ++ tail)) = encode (crcPrefix ++ digits ++ tail) := by
  obtain ⟨front, rfl⟩ := h
  apply strip_self
  · intro b hb
    cases hb
    decide
  · intro b hb
    rw [← List.append_assoc, encode_append, show encode ['}'] = [125] from rfl,
      List.getLast?_concat] at hb
    cases hb
    decide

theorem whole_of_framed (h : recordBytes line true = .ok data) : Whole floats line data := by
  obtain ⟨text, htext, hnewline, rfl⟩ := recordBytes_ok h
  obtain ⟨tail, rfl, hunframe, hclose, -⟩ := frameLine_ok htext
  refine ⟨_, rfl, fun hmem => hnewline (newline_mem_encode hmem), ?_, ?_⟩
  · rw [strip_framed _ hclose]
    exact List.cons_ne_nil _ _
  · rw [strip_framed _ hclose]
    unfold decodeBytes
    rw [decode_encode]
    dsimp only
    rw [decodeLine_framed hunframe]
    rfl

theorem whole_of_accepted (h : recordBytes line false = .ok data)
    (hline : Accepted floats line) : Whole floats line data := by
  obtain ⟨text, htext, hnewline, rfl⟩ := recordBytes_ok h
  cases htext
  exact ⟨_, rfl, fun hmem => hnewline (newline_mem_encode hmem), hline⟩

end Frames

section Scans

variable {floats : FloatText}

theorem not_isNewline {bytes : Bytes} (h : (10 : UInt8) ∉ bytes) :
    ∀ b ∈ bytes, isNewline b = false := by
  intro b hb
  cases hnewline : isNewline b with
  | false => rfl
  | true => exact absurd (beq_iff_eq.1 hnewline ▸ hb) h

theorem scanFrom_whole {payload : Payload} {body : Bytes} (hblank : strip body ≠ [])
    (hdecode : decodeBytes floats (strip body) = .ok payload) (blob unfinished : Bytes)
    (index pos : ℕ) (payloads : List Payload) (rest : List Bytes) :
    scanFrom floats blob unfinished index pos payloads (body :: rest) =
      scanFrom floats blob unfinished (index + 1) (pos + body.length + 1) (payloads ++ [payload])
        rest := by
  rw [scanFrom, if_neg hblank, hdecode]

variable (floats) in
theorem tailIsClean_unfinished {torn : Bytes} (file : Bytes) (hne : torn ≠ [])
    (h : (10 : UInt8) ∉ torn) : tailIsClean floats (file ++ torn) = false := by
  unfold tailIsClean
  dsimp only
  rw [if_pos]
  intro hsuffix
  have hend : [10] <:+ file ++ torn := hsuffix.trans (List.drop_suffix _ _)
  rw [List.singleton_suffix_iff_getLast?_eq_some] at hend
  rw [List.getLast?_append_of_ne_nil _ hne] at hend
  exact h (List.mem_of_getLast? hend)

end Scans

end Fiboki.Durable
