import Fiboki.Agents.AuditRoundTrip
import Fiboki.Core.DurableRuns
import Fiboki.Lib.HashChain

/-!
The durable audit ledger: its file of JSON lines, the chain that an instance holds of it,
catching up with the file, sealing a record and reading the file anew.
-/

namespace Fiboki.Audit

open Json PyJson Wire Durable AuditRecord

/-- What a ledger raises; beside a broken chain, an unreadable record read anew and a
record that cannot be written, an `AuditChainForkError`. -/
inductive AuditError where
  | brokenChain
  | unreadable (line : ℕ) (error : String)
  | truncated (size seen : ℕ)
  | notABoundary (index : ℕ)
  | unreadableTail
  | otherTail (found : Option Value) (expected : String)
  | unended
  | discontinuous (actionId : String) (sequence : ℤ)
  | notJson
  | notALine (error : String)
  | corrupt (error : DurableLogCorrupt)

section File

variable (lib : AuditLib)

/-- `AuditRecord.from_payload(json.loads(text))`. -/
def readRecord (text : Bytes) : Except String AuditRecord :=
  match (Utf8.decode text).bind (loads lib.floats) with
  | none => .error "not JSON"
  | some stored => fromPayload lib stored

def parseFrom : ℕ → List Bytes → Except AuditError (List AuditRecord)
  | _, [] => .ok []
  | lineno, line :: rest =>
    if strip line = [] then parseFrom (lineno + 1) rest
    else match readRecord lib (strip line) with
      | .error e => .error (.unreadable lineno e)
      | .ok r => (parseFrom (lineno + 1) rest).map (r :: ·)

/-- `_parse_lines(blob)`. -/
def parseLines (blob : Bytes) : Except AuditError (List AuditRecord) :=
  parseFrom lib 1 ((Lines.cut isNewline blob).1 ++ [(Lines.cut isNewline blob).2])

def chunkSize : ℕ := 8192

/-- The chunks before `cursor`, read backwards up to a newline, and `parts` behind them. -/
def readBack (file : Bytes) (cursor : ℕ) (parts : Bytes) : Bytes :=
  if cursor = 0 then parts
  else
    let step := min chunkSize cursor
    let chunk := (file.drop (cursor - step)).take step
    if chunk.any isNewline then chunk.rtakeWhile (fun b => !isNewline b) ++ parts
    else readBack file (cursor - step) (chunk ++ parts)
termination_by cursor
decreasing_by simp only [chunkSize]; omega

/-- `_line_ending_at(handle, end)`. -/
def lineEndingAt (file : Bytes) (stop : ℕ) : Except AuditError Bytes :=
  if file[stop - 1]? ≠ some 10 then .error (.notABoundary (stop - 1))
  else .ok (readBack file (stop - 1) [])

/-- `_verify(records)`, from a position and a hash on. A record that came from a file has
a hash. -/
def verifyFrom : ℤ → String → List AuditRecord → Bool
  | _, _, [] => true
  | i, previous, r :: rest =>
    if r.sequence ≠ i ∨ r.previousHash ≠ previous then false
    else if r.computeHash lib ≠ some r.recordHash then false
    else verifyFrom (i + 1) r.recordHash rest

def verify (records : List AuditRecord) : Bool := verifyFrom lib 0 genesisHash records

end File

structure JsonlAuditLedger where
  records : List AuditRecord
  offset : ℕ
  loadedChainOk : Bool

namespace JsonlAuditLedger

section Operations

variable (lib : AuditLib)

def tailHash (l : JsonlAuditLedger) : String :=
  (l.records.getLast?.map AuditRecord.recordHash).getD genesisHash

def checkTail (file : Bytes) (l : JsonlAuditLedger) : Except AuditError Unit :=
  if l.records.isEmpty then .ok ()
  else do
    let onDisk ← lineEndingAt file l.offset
    match (Utf8.decode onDisk).bind (loads lib.floats) with
    | none => .error .unreadableTail
    | some stored =>
      match stored.get? "record_hash" with
      | some (.str diskHash) =>
        if diskHash = l.tailHash then .ok ()
        else .error (.otherTail (some (.str diskHash)) l.tailHash)
      | found => .error (.otherTail found l.tailHash)

def follow : String → ℤ → List AuditRecord → Except AuditError Unit
  | _, _, [] => .ok ()
  | previous, next, r :: rest =>
    if r.sequence ≠ next ∨ r.previousHash ≠ previous ∨
        r.computeHash lib ≠ some r.recordHash then .error (.discontinuous r.actionId next)
    else follow r.recordHash (next + 1) rest

def catchUp (file : Bytes) (l : JsonlAuditLedger) : Except AuditError JsonlAuditLedger :=
  if l.loadedChainOk = false then .error .brokenChain
  else if file.length < l.offset then .error (.truncated file.length l.offset)
  else if file.length = 0 then .ok l
  else do
    l.checkTail lib file
    if file.length = l.offset then return l
    let blob := file.drop l.offset
    if ¬ [10] <:+ blob then .error .unended
    let fresh ← parseLines lib blob
    follow lib l.tailHash l.records.length fresh
    return { l with records := l.records ++ fresh, offset := file.length }

def prepare (l : JsonlAuditLedger) (record : AuditRecord) :
    Except AuditError (AuditRecord × Bytes) :=
  match record.sealed lib l.records.length l.tailHash with
  | none => .error .notJson
  | some sealed =>
    match sealed.lineText lib with
    | none => .error .notJson
    | some text =>
      match recordBytes text false with
      | .error e => .error (.notALine e)
      | .ok data => .ok (sealed, data)

def extended (l : JsonlAuditLedger) (sealed : AuditRecord) (data : Bytes) : JsonlAuditLedger :=
  { l with records := l.records ++ [sealed], offset := l.offset + data.length }

/-- `append(record)`: the file and the instance after it, and what it returned or raised. -/
def append (file : Bytes) (l : JsonlAuditLedger) (record : AuditRecord) :
    Bytes × JsonlAuditLedger × Except AuditError AuditRecord :=
  match l.catchUp lib file with
  | .error e => (file, l, .error e)
  | .ok l =>
    match l.prepare lib record with
    | .error e => (file, l, .error e)
    | .ok (sealed, data) =>
      match repaired lib.floats true file with
      | .error e => (file, l, .error (.corrupt e))
      | .ok file => (file ++ data, l.extended sealed data, .ok sealed)

def verifyChain (l : JsonlAuditLedger) : Bool := verify lib l.records

/-- What `reload()` makes of an instance, and `JsonlAuditLedger(path)` of a new one; a file
that is not there is as good as an empty one. -/
def reload (file : Bytes) : Except AuditError JsonlAuditLedger := do
  let records ← parseLines lib file
  return ⟨records, file.length, verify lib records⟩

end Operations

end JsonlAuditLedger

section Lines

variable {lib : AuditLib} {r : AuditRecord}

theorem unframed_text {floats : FloatText} {es : List (String × Value)}
    (h : ∀ e ∈ es, (quote (compact Escape.ascii) e.1).take 2 ≠ ['"', '_']) :
    ¬ crcPrefix <+: write floats (compact Escape.ascii) 0 (.dict es) := by
  intro hframed
  cases es with
  | nil =>
    have htext : write floats (compact Escape.ascii) 0 (.dict []) = ['{', '}'] := rfl
    rw [htext] at hframed
    exact absurd hframed (by decide)
  | cons e rest =>
    have htext : ∃ more, write floats (compact Escape.ascii) 0 (.dict (e :: rest)) =
        '{' :: (quote (compact Escape.ascii) e.1 ++ more) := by
      cases rest with
      | nil | cons f rest => exact ⟨_, by simp [write, writeFields, compact]; rfl⟩
    obtain ⟨more, htext⟩ := htext
    rw [htext] at hframed
    have hquote : ['"', '_'] <+: quote (compact Escape.ascii) e.1 ++ more := by
      have hshort : ['{', '"', '_'] <+: crcPrefix := by decide
      exact (List.cons_prefix_cons.1 (hshort.trans hframed)).2
    have hlong : 2 ≤ (quote (compact Escape.ascii) e.1).length := by
      simp only [quote, List.length_cons, List.length_append, List.length_nil]
      omega
    have htake : ['"', '_'] = (quote (compact Escape.ascii) e.1 ++ more).take 2 :=
      List.prefix_iff_eq_take.1 hquote
    rw [List.take_append_of_le_length hlong] at htake
    exact h e List.mem_cons_self htake.symm

theorem names_unframed : ∀ k ∈ baseNames ++ provenanceNames ++ ["record_hash"],
    (quote (compact Escape.ascii) k).take 2 ≠ ['"', '_'] := by
  decide

variable {text : List Char}

theorem lineText_spec (h : r.lineText lib = some text) :
    (∃ body, text = '{' :: (body ++ ['}'])) ∧ '\n' ∉ text ∧ ¬ crcPrefix <+: text := by
  obtain ⟨vs, hvs, rfl⟩ := lineText_eq_some.1 h
  refine ⟨⟨_, by rw [write]; rfl⟩, ?_, ?_⟩
  · intro hmem
    exact absurd (printable_write lib.floats 0 _ _ hmem).1 (by decide)
  · apply unframed_text
    intro e he
    apply names_unframed
    have hkey : e.1 ∈ vs.map Prod.fst :=
      List.mem_map_of_mem (Dict.mem_of_get_ofList (Dict.mem_entries.1 he))
    rw [← hvs.keys] at hkey
    exact payload_sublist.subset hkey

theorem strip_text (h : ∃ body, text = '{' :: (body ++ ['}'])) :
    strip (Utf8.encode text) = Utf8.encode text := by
  obtain ⟨body, rfl⟩ := h
  have hbytes : Utf8.encode ('{' :: (body ++ ['}'])) = 123 :: (Utf8.encode body ++ [125]) := by
    rw [← List.singleton_append, Utf8.encode_append, Utf8.encode_append]
    rfl
  rw [hbytes]
  apply strip_self
  · intro b hb
    cases hb
    decide
  · intro b hb
    rw [← List.cons_append, List.getLast?_concat] at hb
    cases hb
    decide

variable (lib r) in
def lineRecord : Durable.Record :=
  let text := (r.lineText lib).getD []
  ⟨0, text, Utf8.encode text ++ [10]⟩

variable (lib r) in
def Written : Prop := (∃ text, r.lineText lib = some text) ∧ Exact lib r

theorem line_lineRecord (h : r.lineText lib = some text) :
    (lineRecord lib r).line = Utf8.encode text := by
  unfold Durable.Record.line lineRecord
  rw [h]
  exact List.dropLast_concat

theorem whole_lineRecord (h : r.lineText lib = some text) :
    recordBytes text false = .ok (lineRecord lib r).data ∧
      Whole lib.floats (lineRecord lib r).payload (lineRecord lib r).data := by
  obtain ⟨hbraces, hnewline, hframe⟩ := lineText_spec h
  have hdata : recordBytes text false = .ok (lineRecord lib r).data := by
    unfold recordBytes recordText lineRecord
    simp only [Bool.false_eq_true, if_false, hnewline, h, Option.getD_some]
    exact congrArg Except.ok (Utf8.encode_append text ['\n'])
  refine ⟨hdata, ?_⟩
  have hpayload : (lineRecord lib r).payload = text := by
    unfold lineRecord
    rw [h]
    rfl
  rw [hpayload]
  refine whole_of_accepted hdata ⟨?_, ?_⟩
  · rw [strip_text hbraces]
    obtain ⟨body, rfl⟩ := hbraces
    exact List.cons_ne_nil _ _
  · rw [strip_text hbraces]
    obtain ⟨stored, hload, -⟩ := loads_lineText h
    unfold decodeBytes decodeLine
    rw [Utf8.decode_encode]
    dsimp only
    rw [if_neg hframe, hload]
    rfl

theorem Written.whole (h : Written lib r) :
    Whole lib.floats (lineRecord lib r).payload (lineRecord lib r).data := by
  obtain ⟨⟨text, htext⟩, -⟩ := h
  exact (whole_lineRecord htext).2

theorem Written.read (h : Written lib r) : strip (lineRecord lib r).line ≠ [] ∧
      ∃ s, readRecord lib (strip (lineRecord lib r).line) = .ok s ∧ Alike lib r s := by
  obtain ⟨⟨text, htext⟩, hexact⟩ := h
  obtain ⟨stored, s, hload, hs, halike, -⟩ := fromPayload_lineText htext hexact
  rw [line_lineRecord htext, strip_text (lineText_spec htext).1]
  constructor
  · obtain ⟨body, rfl⟩ := (lineText_spec htext).1
    exact List.cons_ne_nil _ _
  · refine ⟨s, ?_, halike⟩
    unfold readRecord
    rw [Utf8.decode_encode, Option.bind_some, hload]
    exact hs

end Lines

section Files

variable {lib : AuditLib} {kept : List AuditRecord}

variable (lib) in
def ledgerFile (kept : List AuditRecord) : Bytes := contents (kept.map (lineRecord lib))

variable (lib) in
def unendedLine : Option AuditRecord → Bytes
  | none => []
  | some r => (lineRecord lib r).line

theorem ledgerFile_append (more : List AuditRecord) :
    ledgerFile lib (kept ++ more) = ledgerFile lib kept ++ ledgerFile lib more := by
  simp only [ledgerFile, contents, List.map_append, List.flatMap_append]

theorem ledgerFile_snoc (r : AuditRecord) :
    ledgerFile lib (kept ++ [r]) = ledgerFile lib kept ++ (lineRecord lib r).data := by
  rw [ledgerFile_append]
  exact congrArg (ledgerFile lib kept ++ ·) (List.append_nil _)

variable {r : AuditRecord}

theorem Written.data (h : Written lib r) :
    (lineRecord lib r).data = (lineRecord lib r).line ++ [10] ∧
      (10 : UInt8) ∉ (lineRecord lib r).line ∧ (lineRecord lib r).line ≠ [] := by
  obtain ⟨hdata, hline, hblank, -⟩ := h.whole.line
  refine ⟨hdata, hline, ?_⟩
  intro hnil
  rw [hnil] at hblank
  exact hblank rfl

theorem ledgerFile_ends (h : ∀ r ∈ kept, Written lib r) (hne : kept ≠ []) :
    ∃ front, ledgerFile lib kept = front ++ [10] := by
  obtain ⟨init, r, rfl⟩ := (List.eq_nil_or_concat' kept).resolve_left hne
  have hr := h r (List.mem_append_right _ List.mem_cons_self)
  exact ⟨ledgerFile lib init ++ (lineRecord lib r).line, by
    rw [ledgerFile_snoc, hr.data.1, List.append_assoc]⟩

theorem ledgerFile_eq_nil (h : ∀ r ∈ kept, Written lib r) (hnil : ledgerFile lib kept = []) :
    kept = [] := by
  by_contra hne
  obtain ⟨front, hfront⟩ := ledgerFile_ends h hne
  rw [hfront] at hnil
  exact absurd hnil (by simp)

theorem unendedLine_notMem {unended : Option AuditRecord} (h : ∀ r ∈ unended, Written lib r) :
    (10 : UInt8) ∉ unendedLine lib unended := by
  cases unended with
  | none => exact List.not_mem_nil
  | some r => exact (h r rfl).data.2.1

theorem parseFrom_lines (h : ∀ r ∈ kept, Written lib r) :
    ∃ rows, List.Forall₂ (Alike lib) kept rows ∧ ∀ lineno more,
      parseFrom lib lineno (kept.map (fun r => (lineRecord lib r).line) ++ more) =
        (parseFrom lib (lineno + kept.length) more).map (rows ++ ·) := by
  induction kept with
  | nil =>
    refine ⟨[], .nil, fun lineno more => ?_⟩
    rw [List.map_nil, List.nil_append, List.length_nil, Nat.add_zero]
    cases parseFrom lib lineno more <;> rfl
  | cons r kept ih =>
    obtain ⟨rows, hrows, hparse⟩ := ih fun x hx => h x (List.mem_cons_of_mem _ hx)
    obtain ⟨hblank, s, hs, halike⟩ := (h r List.mem_cons_self).read
    refine ⟨s :: rows, .cons halike hrows, fun lineno more => ?_⟩
    rw [List.map_cons, List.cons_append, parseFrom, if_neg hblank, hs]
    dsimp only
    rw [hparse, List.length_cons, Nat.add_right_comm, Nat.add_assoc]
    cases parseFrom lib (lineno + (kept.length + 1)) more <;> rfl

theorem parseLines_file (kept : List AuditRecord) (unended : Option AuditRecord)
    (h : ∀ r ∈ kept ++ unended.toList, Written lib r) :
    ∃ rows, parseLines lib (ledgerFile lib kept ++ unendedLine lib unended) = .ok rows ∧
      List.Forall₂ (Alike lib) (kept ++ unended.toList) rows := by
  have hkept : ∀ r ∈ kept, Written lib r := fun r hr => h r (List.mem_append_left _ hr)
  have hunended : ∀ r ∈ unended, Written lib r := fun r hr =>
    h r (List.mem_append_right _ (Option.mem_toList.2 hr))
  have hwhole : ∀ x ∈ kept.map (lineRecord lib), Whole lib.floats x.payload x.data := by
    intro x hx
    obtain ⟨r, hr, rfl⟩ := List.mem_map.1 hx
    exact (hkept r hr).whole
  obtain ⟨rows, hrows, hparse⟩ := parseFrom_lines hkept
  unfold parseLines ledgerFile
  rw [cut_contents hwhole (unendedLine_notMem hunended), List.map_map]
  have hlines := hparse 1 [unendedLine lib unended]
  simp only [Function.comp_def]
  rw [hlines]
  cases unended with
  | none =>
    refine ⟨rows, ?_, by rwa [Option.toList_none, List.append_nil]⟩
    have hempty : strip (unendedLine lib none) = [] := rfl
    rw [parseFrom, if_pos hempty, parseFrom]
    exact congrArg Except.ok (List.append_nil rows)
  | some r =>
    obtain ⟨hblank, s, hs, halike⟩ := (hunended r rfl).read
    refine ⟨rows ++ [s], ?_, List.rel_append hrows (.cons halike .nil)⟩
    have hline : unendedLine lib (some r) = (lineRecord lib r).line := rfl
    rw [hline, parseFrom, if_neg hblank, hs]
    rfl

theorem readBack_eq (file : Bytes) (cursor : ℕ) (parts : Bytes) :
    readBack file cursor parts =
      (file.take cursor).rtakeWhile (fun b => !isNewline b) ++ parts := by
  induction cursor using Nat.strong_induction_on generalizing parts with
  | _ cursor ih =>
    rw [readBack]
    by_cases hzero : cursor = 0
    · rw [if_pos hzero, hzero]
      rfl
    · rw [if_neg hzero]
      dsimp only
      have hstep : cursor - min chunkSize cursor + min chunkSize cursor = cursor := by omega
      have hless : cursor - min chunkSize cursor < cursor := by
        unfold chunkSize
        omega
      have hsplit : file.take cursor = file.take (cursor - min chunkSize cursor) ++
          (file.drop (cursor - min chunkSize cursor)).take (min chunkSize cursor) := by
        rw [← List.take_add, hstep]
      rw [hsplit]
      split_ifs with hnewline
      · obtain ⟨b, hb, hbreak⟩ := List.any_eq_true.1 hnewline
        rw [Lines.rtakeWhile_append_of_exists ⟨b, hb, by rw [hbreak]; rfl⟩]
      · rw [ih _ hless, Lines.rtakeWhile_append_of_all, List.append_assoc]
        intro b hb
        have hnone : isNewline b ≠ true := fun h => hnewline (List.any_eq_true.2 ⟨b, hb, h⟩)
        rw [Bool.eq_false_iff.2 hnone]
        rfl

theorem rtakeWhile_ledgerFile (h : ∀ r ∈ kept, Written lib r) :
    (ledgerFile lib kept).rtakeWhile (fun b => !isNewline b) = [] := by
  by_cases hne : kept = []
  · rw [hne]
    rfl
  · obtain ⟨front, hfront⟩ := ledgerFile_ends h hne
    rw [hfront, List.rtakeWhile_concat_neg _ _ _ (by decide)]

theorem lineEndingAt_file (h : ∀ x ∈ kept ++ [r], Written lib x) (more : Bytes) :
    lineEndingAt (ledgerFile lib (kept ++ [r]) ++ more) (ledgerFile lib (kept ++ [r])).length =
      .ok (lineRecord lib r).line := by
  obtain ⟨hdata, hline, -⟩ := (h r (List.mem_append_right _ List.mem_cons_self)).data
  have hsplit : ledgerFile lib (kept ++ [r]) =
      (ledgerFile lib kept ++ (lineRecord lib r).line) ++ [10] := by
    rw [ledgerFile_snoc, hdata, List.append_assoc]
  have hstop : (ledgerFile lib (kept ++ [r])).length - 1 =
      (ledgerFile lib kept ++ (lineRecord lib r).line).length := by
    rw [hsplit, List.length_append, List.length_singleton]
    omega
  unfold lineEndingAt
  rw [hstop, hsplit, List.append_assoc, if_neg, readBack_eq, List.take_left, List.append_nil,
    Lines.rtakeWhile_append_of_all, rtakeWhile_ledgerFile]
  · rfl
  · exact fun x hx => h x (List.mem_append_left _ hx)
  · intro b hb
    rw [not_isNewline hline b hb]
    rfl
  · rw [List.getElem?_append_right (le_refl _), Nat.sub_self]
    exact not_not_intro rfl

end Files

section Chain

variable {lib : AuditLib}

variable (lib) in
def auditChain :
    HashChain.Scheme AuditRecord (ℤ × String × Option (List Char)) (Option String) where
  position := AuditRecord.sequence
  previous r := some r.previousHash
  hash r := some r.recordHash
  bytes r := (r.sequence, r.previousHash, r.blob lib)
  digest b := b.2.2.map fun text => Sha256.hexdigest (Utf8.encode text)
  position_bytes _ _ h := congrArg Prod.fst h
  previous_bytes _ _ h := congrArg (fun b => some b.2.1) h

variable (lib) in
def Chained (rows : List AuditRecord) : Prop := (auditChain lib).Linked 0 (some genesisHash) rows

def tailHashOf (rows : List AuditRecord) : String :=
  (rows.getLast?.map AuditRecord.recordHash).getD genesisHash

theorem lastHash_eq (rows : List AuditRecord) :
    (auditChain lib).lastHash (some genesisHash) rows = some (tailHashOf rows) := by
  rcases List.eq_nil_or_concat' rows with rfl | ⟨init, r, rfl⟩
  · rfl
  · rw [HashChain.Scheme.lastHash_snoc]
    unfold tailHashOf
    rw [List.getLast?_concat]
    rfl

theorem linked_cons {i : ℕ} {previous : String} {r : AuditRecord} {rows : List AuditRecord} :
    (auditChain lib).Linked i (some previous) (r :: rows) ↔
      (r.sequence = i ∧ r.previousHash = previous ∧ r.computeHash lib = some r.recordHash) ∧
        (auditChain lib).Linked (i + 1) (some r.recordHash) rows := by
  rw [HashChain.Scheme.Linked]
  constructor
  · rintro ⟨hposition, hprevious, hdigest, hrest⟩
    exact ⟨⟨hposition, Option.some.inj hprevious, hdigest⟩, hrest⟩
  · rintro ⟨⟨hposition, hprevious, hdigest⟩, hrest⟩
    exact ⟨hposition, congrArg some hprevious, hdigest, hrest⟩

theorem verifyFrom_iff {rows : List AuditRecord} {i : ℕ} {previous : String} :
    verifyFrom lib i previous rows = true ↔ (auditChain lib).Linked i (some previous) rows := by
  induction rows generalizing i previous with
  | nil => exact ⟨fun _ => trivial, fun _ => rfl⟩
  | cons r rows ih =>
    have hnext : ((i : ℤ) + 1) = ((i + 1 : ℕ) : ℤ) := by omega
    rw [linked_cons, verifyFrom, hnext]
    split_ifs with hplace hhash
    · constructor
      · intro hfalse
        cases hfalse
      · rintro ⟨⟨hsequence, hprevious, -⟩, -⟩
        rcases hplace with hne | hne
        · exact absurd hsequence hne
        · exact absurd hprevious hne
    · constructor
      · intro hfalse
        cases hfalse
      · rintro ⟨⟨-, -, hcompute⟩, -⟩
        exact absurd hcompute hhash
    · push Not at hplace hhash
      rw [ih]
      exact ⟨fun hrest => ⟨⟨hplace.1, hplace.2, hhash⟩, hrest⟩, And.right⟩

theorem verify_iff {rows : List AuditRecord} : verify lib rows = true ↔ Chained lib rows :=
  @verifyFrom_iff lib rows 0 genesisHash

theorem follow_of_linked {rows : List AuditRecord} {i : ℕ} {previous : String}
    (h : (auditChain lib).Linked i (some previous) rows) :
    JsonlAuditLedger.follow lib previous i rows = .ok () := by
  induction rows generalizing i previous with
  | nil => rfl
  | cons r rows ih =>
    obtain ⟨⟨hsequence, hprevious, hhash⟩, hrest⟩ := linked_cons.1 h
    rw [JsonlAuditLedger.follow, if_neg]
    · exact ih hrest
    · rintro (hne | hne | hne)
      · exact hne hsequence
      · exact hne hprevious
      · exact hne hhash

variable {kept rows : List AuditRecord}

theorem linked_alike (h : List.Forall₂ (Alike lib) kept rows) {i : ℕ} {previous : String}
    (hkept : (auditChain lib).Linked i (some previous) kept) :
    (auditChain lib).Linked i (some previous) rows := by
  induction h generalizing i previous with
  | nil => trivial
  | @cons r s kept rows hhead _ ih =>
    obtain ⟨⟨hsequence, hprevious, hhash⟩, hrest⟩ := linked_cons.1 hkept
    rw [linked_cons, ← hhead.sequence, ← hhead.previousHash, ← hhead.computeHash,
      ← hhead.recordHash]
    exact ⟨⟨hsequence, hprevious, hhash⟩, ih hrest⟩

theorem hashes_alike (h : List.Forall₂ (Alike lib) kept rows) :
    rows.map AuditRecord.recordHash = kept.map AuditRecord.recordHash := by
  induction h with
  | nil => rfl
  | cons hhead _ ih => rw [List.map_cons, List.map_cons, ih, hhead.recordHash]

theorem tailHashOf_alike
    (h : List.Forall₂ (Alike lib) kept rows) : tailHashOf rows = tailHashOf kept := by
  unfold tailHashOf
  rw [← List.getLast?_map, ← List.getLast?_map, hashes_alike h]

end Chain

/-- The instance has read the records `seen`, which end at byte `size`. -/
structure Sees (lib : AuditLib) (seen : List AuditRecord) (size : ℕ) (l : JsonlAuditLedger) :
    Prop where
  records : List.Forall₂ (Alike lib) seen l.records
  offset : l.offset = size
  ok : l.loadedChainOk = true

namespace JsonlAuditLedger

section Specs

variable {lib : AuditLib} {kept seen : List AuditRecord} {l : JsonlAuditLedger} {size : ℕ}

theorem tailHash_of_sees (h : Sees lib seen size l) : l.tailHash = tailHashOf seen :=
  tailHashOf_alike h.records

theorem length_of_sees (h : Sees lib seen size l) : l.records.length = seen.length :=
  h.records.length_eq.symm

theorem checkTail_of_sees (hseen : ∀ r ∈ seen, Written lib r)
    (h : Sees lib seen (ledgerFile lib seen).length l) (more : Bytes) :
    l.checkTail lib (ledgerFile lib seen ++ more) = .ok () := by
  unfold checkTail
  rcases List.eq_nil_or_concat' seen with rfl | ⟨init, r, rfl⟩
  · have hnil : l.records = [] := List.forall₂_nil_left_iff.1 h.records
    rw [hnil]
    rfl
  · have hne : ¬ l.records.isEmpty = true := by
      intro hempty
      have := length_of_sees h
      rw [List.isEmpty_iff.1 hempty, List.length_append, List.length_singleton] at this
      cases this
    obtain ⟨⟨text, htext⟩, hexact⟩ := hseen r (List.mem_append_right _ List.mem_cons_self)
    obtain ⟨stored, s, hload, -, -, hhash⟩ := fromPayload_lineText htext hexact
    have htail : l.tailHash = r.recordHash := by
      rw [tailHash_of_sees h]
      unfold tailHashOf
      rw [List.getLast?_concat]
      rfl
    rw [if_neg hne, h.offset, lineEndingAt_file hseen, ok_bind, line_lineRecord htext,
      Utf8.decode_encode, Option.bind_some, hload]
    simp only [hhash, htail, if_true]

theorem catchUp_of_sees (more : List AuditRecord) (hkept : ∀ r ∈ seen ++ more, Written lib r)
    (hchain : Chained lib (seen ++ more)) (h : Sees lib seen (ledgerFile lib seen).length l) :
    ∃ l', l.catchUp lib (ledgerFile lib (seen ++ more)) = .ok l' ∧
      Sees lib (seen ++ more) (ledgerFile lib (seen ++ more)).length l' := by
  have hseen : ∀ r ∈ seen, Written lib r := fun r hr => hkept r (List.mem_append_left _ hr)
  have hmore : ∀ r ∈ more, Written lib r := fun r hr => hkept r (List.mem_append_right _ hr)
  have hfile : ledgerFile lib (seen ++ more) = ledgerFile lib seen ++ ledgerFile lib more :=
    ledgerFile_append more
  have hlength : (ledgerFile lib (seen ++ more)).length =
      l.offset + (ledgerFile lib more).length := by
    rw [hfile, List.length_append, h.offset]
  have hself : (ledgerFile lib more).length = 0 → more = [] := fun hzero =>
    ledgerFile_eq_nil hmore (List.length_eq_zero_iff.1 hzero)
  unfold catchUp
  rw [if_neg (by rw [h.ok]; decide), if_neg (by omega)]
  by_cases hzero : (ledgerFile lib (seen ++ more)).length = 0
  · obtain rfl := hself (by omega)
    rw [if_pos hzero]
    rw [List.append_nil]
    exact ⟨l, rfl, h⟩
  · rw [if_neg hzero]
    have htail : l.checkTail lib (ledgerFile lib (seen ++ more)) = .ok () := by
      rw [hfile]
      exact checkTail_of_sees hseen h _
    rw [htail, ok_bind]
    by_cases hlevel : (ledgerFile lib (seen ++ more)).length = l.offset
    · obtain rfl := hself (by omega)
      rw [if_pos hlevel, List.append_nil]
      exact ⟨l, rfl, h⟩
    · rw [if_neg hlevel]
      have hdrop : (ledgerFile lib (seen ++ more)).drop l.offset = ledgerFile lib more := by
        rw [hfile, h.offset, List.drop_left]
      obtain ⟨rows, hparse, hrows⟩ := parseLines_file more none
        (by rwa [Option.toList_none, List.append_nil])
      have hends : ¬ ¬ [10] <:+ ledgerFile lib more := by
        obtain ⟨front, hfront⟩ := ledgerFile_ends hmore (by
          rintro rfl
          exact hlevel (by rw [hlength]; rfl))
        rw [hfront]
        exact not_not_intro (List.suffix_append _ _)
      have hlinked := (HashChain.Scheme.linked_append _).1 hchain
      rw [lastHash_eq, Nat.zero_add] at hlinked
      rw [Option.toList_none, List.append_nil] at hrows
      rw [unendedLine, List.append_nil] at hparse
      have hfollow : follow lib l.tailHash l.records.length rows = .ok () := by
        rw [tailHash_of_sees h, length_of_sees h]
        exact follow_of_linked (linked_alike hrows hlinked.2)
      refine ⟨{ l with
        records := l.records ++ rows, offset := (ledgerFile lib (seen ++ more)).length },
        ?_, List.rel_append h.records hrows, rfl, h.ok⟩
      simp only [hdrop, if_neg hends, hparse, ok_bind, hfollow]
      rfl

variable {u : AuditRecord}

theorem catchUp_unended {more : List AuditRecord}
    (hkept : ∀ r ∈ seen ++ more, Written lib r) (hu : Written lib u)
    (h : Sees lib seen (ledgerFile lib seen).length l) :
    l.catchUp lib (ledgerFile lib (seen ++ more) ++ unendedLine lib (some u)) =
      .error .unended := by
  have hseen : ∀ r ∈ seen, Written lib r := fun r hr => hkept r (List.mem_append_left _ hr)
  obtain ⟨-, hnewline, hne⟩ := hu.data
  have hline : unendedLine lib (some u) = (lineRecord lib u).line := rfl
  have hfile : ledgerFile lib (seen ++ more) ++ (lineRecord lib u).line =
      ledgerFile lib seen ++ (ledgerFile lib more ++ (lineRecord lib u).line) := by
    rw [ledgerFile_append, List.append_assoc]
  have hpos := List.length_pos_of_ne_nil hne
  have hlength : l.offset < (ledgerFile lib (seen ++ more) ++ (lineRecord lib u).line).length := by
    rw [h.offset, hfile, List.length_append, List.length_append]
    omega
  have htail : l.checkTail lib (ledgerFile lib (seen ++ more) ++ (lineRecord lib u).line) =
      .ok () := by
    rw [hfile]
    exact checkTail_of_sees hseen h _
  have hdrop : (ledgerFile lib (seen ++ more) ++ (lineRecord lib u).line).drop l.offset =
      ledgerFile lib more ++ (lineRecord lib u).line := by
    rw [hfile, h.offset, List.drop_left]
  have hends : ¬ [10] <:+ ledgerFile lib more ++ (lineRecord lib u).line := by
    rw [List.singleton_suffix_iff_getLast?_eq_some, List.getLast?_append_of_ne_nil _ hne]
    exact fun hlast => hnewline (List.mem_of_getLast? hlast)
  unfold catchUp
  rw [hline, if_neg (by rw [h.ok]; decide), if_neg (by omega), if_neg (by omega), htail, ok_bind,
    if_neg (by omega)]
  simp only [hdrop, if_pos hends]
  rfl

theorem catchUp_unended_read (hu : Written lib u)
    (h : Sees lib (kept ++ [u]) (ledgerFile lib kept ++ unendedLine lib (some u)).length l) :
    ∃ e, l.catchUp lib (ledgerFile lib kept ++ unendedLine lib (some u)) = .error e := by
  obtain ⟨-, hnewline, hne⟩ := hu.data
  have hline : unendedLine lib (some u) = (lineRecord lib u).line := rfl
  rw [hline] at h ⊢
  have hpos := List.length_pos_of_ne_nil hne
  have hlength : (ledgerFile lib kept ++ (lineRecord lib u).line).length ≠ 0 := by
    rw [List.length_append]
    omega
  have hrecords : ¬ l.records.isEmpty = true := by
    intro hempty
    have := length_of_sees h
    rw [List.isEmpty_iff.1 hempty, List.length_append, List.length_singleton] at this
    cases this
  have hlast : (ledgerFile lib kept ++ (lineRecord lib u).line)[
      (ledgerFile lib kept ++ (lineRecord lib u).line).length - 1]? ≠ some 10 := by
    rw [← List.getLast?_eq_getElem?, List.getLast?_append_of_ne_nil _ hne]
    exact fun hlast => hnewline (List.mem_of_getLast? hlast)
  refine ⟨.notABoundary ((ledgerFile lib kept ++ (lineRecord lib u).line).length - 1), ?_⟩
  unfold catchUp checkTail lineEndingAt
  rw [if_neg (by rw [h.ok]; decide), h.offset, if_neg (by omega), if_neg hlength, if_neg hrecords,
    if_pos hlast]
  rfl

variable {r : AuditRecord}

theorem prepare_of_hasJson (h : Sees lib seen size l) (hr : HasJson lib r) :
    ∃ s, l.prepare lib r = .ok (s, (lineRecord lib s).data) ∧
      r.sealed lib seen.length (tailHashOf seen) = some s ∧
        (∃ text, s.lineText lib = some text) := by
  obtain ⟨s, hs⟩ := hr.sealed (l.records.length : ℤ) l.tailHash
  have hjson : HasJson lib s := by
    rw [(sealed_eq_some hs).1]
    exact ⟨hr.inputs, hr.outputs⟩
  obtain ⟨text, htext⟩ := Option.isSome_iff_exists.1 (lineText_isSome.2 hjson)
  refine ⟨s, ?_, ?_, text, htext⟩
  · unfold prepare
    rw [hs]
    simp only [htext, (whole_lineRecord htext).1]
  · rw [← tailHash_of_sees h, ← length_of_sees h]
    exact hs

theorem prepare_of_not_hasJson (hr : ¬ HasJson lib r) : l.prepare lib r = .error .notJson := by
  unfold prepare
  cases hs : r.sealed lib l.records.length l.tailHash with
  | none => rfl
  | some s =>
    have hline : s.lineText lib = none := by
      rw [← Option.not_isSome_iff_eq_none, lineText_isSome]
      rw [(sealed_eq_some hs).1]
      exact fun hjson => hr ⟨hjson.inputs, hjson.outputs⟩
    simp only [hline]

theorem chained_snoc {r s : AuditRecord} (hchain : Chained lib kept)
    (hs : r.sealed lib kept.length (tailHashOf kept) = some s) : Chained lib (kept ++ [s]) := by
  obtain ⟨hplace, hhash⟩ := sealed_eq_some hs
  refine (HashChain.Scheme.linked_snoc _).2 ⟨hchain, ?_, ?_, ?_⟩
  · rw [Nat.zero_add, hplace]
    rfl
  · rw [lastHash_eq, hplace]
    rfl
  · exact hhash

theorem sees_extended {s : AuditRecord} (h : Sees lib kept (ledgerFile lib kept).length l) :
    Sees lib (kept ++ [s]) (ledgerFile lib (kept ++ [s])).length
      (l.extended s (lineRecord lib s).data) := by
  refine ⟨List.rel_append h.records (.cons (Alike.refl s) .nil), ?_, h.ok⟩
  rw [ledgerFile_snoc, List.length_append, ← h.offset]
  rfl

theorem repaired_ledgerFile (hkept : ∀ r ∈ kept, Written lib r) :
    repaired lib.floats true (ledgerFile lib kept) = .ok (ledgerFile lib kept) := by
  have hwhole : ∀ x ∈ kept.map (lineRecord lib), Whole lib.floats x.payload x.data := by
    intro x hx
    obtain ⟨r, hr, rfl⟩ := List.mem_map.1 hx
    exact (hkept r hr).whole
  have := repaired_contents hwhole  List.not_mem_nil  fun _ => rfl
  rwa [List.append_nil] at this

theorem reload_of_chained (kept : List AuditRecord) (unended : Option AuditRecord)
    (hkept : ∀ r ∈ kept ++ unended.toList, Written lib r)
    (hchain : Chained lib (kept ++ unended.toList)) :
    ∃ l, reload lib (ledgerFile lib kept ++ unendedLine lib unended) = .ok l ∧
      Sees lib (kept ++ unended.toList)
        (ledgerFile lib kept ++ unendedLine lib unended).length l := by
  obtain ⟨rows, hparse, hrows⟩ := parseLines_file kept unended hkept
  have hverify : verify lib rows = true := verify_iff.2 (linked_alike hrows hchain)
  refine ⟨⟨rows, _, verify lib rows⟩, ?_, hrows, rfl, hverify⟩
  unfold reload
  rw [hparse]
  rfl

end Specs

end JsonlAuditLedger

end Fiboki.Audit
