import Fiboki.Lib.HashChain
import Fiboki.Lib.JsonAscii
import Fiboki.Lib.Utf8
import Fiboki.Lifecycle.Degradation
import Fiboki.Lifecycle.Reload

/-!
The store of rule registrations: the parameters of a stopping rule, committed to
before the data are seen and chained by their hashes.

What the last hash of an intact log, or of an intact store of registrations, says
about its records: everything that is stored of them.
-/

namespace Fiboki

open Wire Text
open Json (asciiText)

def StoppingRuleKind.parameterType : StoppingRuleKind → String
  | psrFloor => "PsrFloorParameters"
  | bootstrapDrawdown => "BootstrapDrawdownParameters"
  | cusumExcessReturn => "CusumParameters"

/-- A typed parameter object: the rule whose class it has, and its `to_dict()`. -/
structure RuleParameters where
  kind : StoppingRuleKind
  toDict : Dict String Value

structure RuleRegistration where
  registrationId : String
  sequence : ℤ
  strategyContentHash : String
  kind : StoppingRuleKind
  parametersJson : Dict String Value
  parametersFingerprint : String
  registeredAt : Timestamp
  registeredBy : String
  reason : String
  supersedes : String
  previousHash : String
  recordHash : String

section Store

variable (std : Stdlib)

/-- The bytes that `_fingerprint` digests. -/
def fingerprintBytes (payload : List (String × Value)) : List UInt8 :=
  Utf8.encode (asciiText std.floats (.dict payload))

def fingerprint (payload : List (String × Value)) : String :=
  Sha256.hexdigest (fingerprintBytes std payload)

namespace RuleRegistration

def payload (r : RuleRegistration) : List (String × Value) :=
  [("registration_id", .str r.registrationId),
    ("sequence", .int r.sequence),
    ("strategy_content_hash", .str r.strategyContentHash),
    ("kind", .str r.kind.value),
    ("parameters", .dict r.parametersJson.entries),
    ("parameters_fingerprint", .str r.parametersFingerprint),
    ("registered_at", .str (std.isoformat r.registeredAt)),
    ("registered_by", .str r.registeredBy),
    ("reason", .str r.reason),
    ("supersedes", .str r.supersedes),
    ("previous_hash", .str r.previousHash)]

def recomputeHash (r : RuleRegistration) : String := fingerprint std (r.payload std)

end RuleRegistration

namespace PreRegistrationStore

def active (rows : List RuleRegistration) (hash : String) (kind : StoppingRuleKind) :
    Option RuleRegistration :=
  (rows.filter fun r => r.strategyContentHash = hash ∧ r.kind = kind).getLast?

def headHash (rows : List RuleRegistration) : String :=
  match rows.getLast? with
  | some row => row.recordHash
  | none => genesisHash

/-- The registration as it is sealed behind `rows`. -/
def sealed (rows : List RuleRegistration) (hash : String) (kind : StoppingRuleKind)
    (parameters : RuleParameters) (registeredBy reason : String) (now : Timestamp) :
    RuleRegistration :=
  let draft : RuleRegistration :=
    { registrationId := "reg_" ++ short hash ++ "_" ++ kind.value ++ "_" ++ natText rows.length
      sequence := rows.length
      strategyContentHash := hash
      kind := kind
      parametersJson := parameters.toDict
      parametersFingerprint := fingerprint std
        [("kind", .str kind.value), ("parameters", .dict parameters.toDict.entries)]
      registeredAt := now
      registeredBy := registeredBy
      reason := reason
      supersedes := match active rows hash kind with
        | some previous => previous.registrationId
        | none => ""
      previousHash := headHash rows
      recordHash := "" }
  { draft with recordHash := draft.recomputeHash std }

/-- `register`: the rows afterwards, and the registration that is in force. -/
def register (rows : List RuleRegistration) (hash : String) (kind : StoppingRuleKind)
    (parameters : RuleParameters) (registeredBy reason : String) (now : Timestamp) :
    Except String (List RuleRegistration × RuleRegistration) :=
  if isBlank registeredBy then
    .error ("a registration must name who made it: a pre-registration nobody " ++
      "signed is not a commitment")
  else if isBlank reason then
    .error "a registration must say why these parameters"
  else if parameters.kind ≠ kind then
    .error (kind.value ++ " expects " ++ kind.parameterType ++ ", got " ++
      parameters.kind.parameterType)
  else
    let record := sealed std rows hash kind parameters registeredBy reason now
    match active rows hash kind with
    | some previous =>
      if previous.parametersFingerprint = record.parametersFingerprint then .ok (rows, previous)
      else .ok (rows ++ [record], record)
    | none => .ok (rows ++ [record], record)

/-- `verify`, from position `i` on. -/
def verifyFrom : ℕ → String → List RuleRegistration → Bool × Option ℕ × String
  | _, _, [] => (true, none, "chain intact")
  | i, previous, row :: rest =>
    if row.sequence ≠ i then
      (false, some i, "sequence " ++ toString row.sequence ++ " at position " ++ natText i)
    else if row.previousHash ≠ previous then
      (false, some i, "previous_hash does not match its predecessor")
    else if row.recomputeHash std ≠ row.recordHash then
      (false, some i, "record_hash does not match the payload")
    else verifyFrom (i + 1) row.recordHash rest

def verify (rows : List RuleRegistration) : Bool × Option ℕ × String :=
  verifyFrom std 0 genesisHash rows

end PreRegistrationStore

end Store

open HashChain
open Json (asciiText ordered)

section Bytes

variable {std : Stdlib}

theorem encode_injective {s t : List Char} (h : Utf8.encode s = Utf8.encode t) : s = t := by
  have hread := Utf8.decode_encode s
  rw [h, Utf8.decode_encode] at hread
  exact (Option.some.inj hread).symm

variable (std) in
theorem isoformat_injective {s t : Timestamp} (h : std.isoformat s = std.isoformat t) : s = t := by
  have hread := std.fromisoformat_isoformat s
  rw [h, std.fromisoformat_isoformat] at hread
  exact (Except.ok.inj hread).symm

theorem StrategyLifecycle.value_injective {s t : StrategyLifecycle} (h : s.value = t.value) :
    s = t := by
  cases s <;> cases t <;> first | rfl | exact absurd h (by decide)

theorem TransitionKind.value_injective {s t : TransitionKind} (h : s.value = t.value) : s = t := by
  cases s <;> cases t <;> first | rfl | exact absurd h (by decide)

theorem EvidenceKind.value_injective {s t : EvidenceKind} (h : s.value = t.value) : s = t := by
  cases s <;> cases t <;> first | rfl | exact absurd h (by decide)

theorem StoppingRuleKind.value_injective {s t : StoppingRuleKind} (h : s.value = t.value) :
    s = t := by
  cases s <;> cases t <;> first | rfl | exact absurd h (by decide)

end Bytes

/-- Two pieces of evidence that are stored alike: details are told apart in their
canonical view only. -/
structure Evidence.SamePayload (e f : Evidence) : Prop where
  kind : e.kind = f.kind
  id : e.id = f.id
  summary : e.summary = f.summary
  detail : canonicalise (.dict e.detail.entries) = canonicalise (.dict f.detail.entries)

/-- Two records that are stored alike, but for their own hashes. -/
structure TransitionRecord.SamePayload (r s : TransitionRecord) : Prop where
  sequence : r.sequence = s.sequence
  recordedAt : r.recordedAt = s.recordedAt
  strategyId : r.strategyId = s.strategyId
  strategyContentHash : r.strategyContentHash = s.strategyContentHash
  fromState : r.fromState = s.fromState
  toState : r.toState = s.toState
  kind : r.kind = s.kind
  actor : r.actor = s.actor
  automatic : r.automatic = s.automatic
  reason : r.reason = s.reason
  evidence : List.Forall₂ Evidence.SamePayload r.evidence s.evidence
  previousHash : r.previousHash = s.previousHash

variable {e f : Evidence}

theorem Evidence.SamePayload.eq (h : e.SamePayload f)
    (he : Canonical (.dict e.detail.entries)) (hf : Canonical (.dict f.detail.entries)) : e =
      f := by
  have hdetail := h.detail
  rw [canonicalise_of_canonical he, canonicalise_of_canonical hf] at hdetail
  have hdict : e.detail = f.detail := by
    rw [← Dict.ofList_entries e.detail, Value.dict.inj hdetail, Dict.ofList_entries]
  cases e
  cases f
  obtain ⟨hkind, hid, hsummary, -⟩ := h
  dsimp only at hkind hid hsummary hdict
  subst hkind hid hsummary hdict
  rfl

def Agree (view : Value → Value) (es fs : List (String × Value)) : Prop :=
  ∀ k v w, (k, v) ∈ es → (k, w) ∈ fs → view v = view w

section Agree

variable {es fs : List (String × Value)}

theorem agree_of_canonicalise (h : canonicalise (.dict es) = canonicalise (.dict fs))
    (hes : (es.map Prod.fst).Nodup) (hfs : (fs.map Prod.fst).Nodup) : Agree canonicalise es fs := by
  intro k v w hv hw
  have hget := get?_canonicalise_of_mem hes hv
  rw [h, get?_canonicalise_of_mem hfs hw] at hget
  exact (Option.some.inj hget).symm

theorem agree_of_ordered (h : ordered (.dict es) = ordered (.dict fs))
    (hes : (es.map Prod.fst).Nodup) (hfs : (fs.map Prod.fst).Nodup) : Agree ordered es fs := by
  intro k v w hv hw
  have hget := Json.get?_ordered_of_mem hes hv
  rw [h, Json.get?_ordered_of_mem hfs hw] at hget
  exact (Option.some.inj hget).symm

variable {a b : String}

theorem Agree.text (h : Agree canonicalise es fs) (k : String)
    (ha : (k, .str a) ∈ es) (hb : (k, .str b) ∈ fs) : a = b :=
  Value.str.inj (h k (.str a) (.str b) ha hb)

theorem Agree.orderedText (h : Agree ordered es fs) (k : String)
    (ha : (k, .str a) ∈ es) (hb : (k, .str b) ∈ fs) : a = b :=
  Value.str.inj (h k (.str a) (.str b) ha hb)

end Agree

theorem Actor.eq_of_toDict {a b : Actor} (h : canonicalise a.toDict = canonicalise b.toDict) :
    a = b := by
  have hread := Actor.fromDict_toDict epochStdlib a
  rw [h, Actor.fromDict_toDict] at hread
  exact (Except.ok.inj hread).symm

theorem Evidence.samePayload_of_toDict
    (h : canonicalise e.toDict = canonicalise f.toDict) : e.SamePayload f := by
  have hkeys : ∀ g : Evidence, ([("kind", Value.str g.kind.value), ("id", .str g.id),
      ("summary", .str g.summary),
      ("detail", canonicalise (.dict g.detail.entries))].map Prod.fst).Nodup := by
    intro g
    show ["kind", "id", "summary", "detail"].Nodup
    decide
  unfold Evidence.toDict at h
  have hagree := agree_of_canonicalise h (hkeys e) (hkeys f)
  refine ⟨EvidenceKind.value_injective ?_, ?_, ?_, ?_⟩
  · exact hagree.text "kind" (by simp) (by simp)
  · exact hagree.text "id" (by simp) (by simp)
  · exact hagree.text "summary" (by simp) (by simp)
  · have hdetail := hagree "detail" (canonicalise (.dict e.detail.entries))
      (canonicalise (.dict f.detail.entries)) (by simp) (by simp)
    rwa [canonicalise_of_canonical (canonical_canonicalise _),
      canonicalise_of_canonical (canonical_canonicalise _)] at hdetail

variable {xs ys : List Evidence}

theorem samePayload_of_evidence (h : canonicalise (.list (xs.map Evidence.toDict)) =
      canonicalise (.list (ys.map Evidence.toDict))) :
    List.Forall₂ Evidence.SamePayload xs ys := by
  rw [canonicalise, canonicalise, canonicaliseItems_eq_map, canonicaliseItems_eq_map, List.map_map,
    List.map_map, Value.list.injEq] at h
  have hpairs : List.Forall₂ (fun e f => canonicalise e.toDict = canonicalise f.toDict) xs ys := by
    rw [← List.forall₂_eq_eq_eq, List.forall₂_map_left_iff, List.forall₂_map_right_iff] at h
    exact h
  exact hpairs.imp fun e f => Evidence.samePayload_of_toDict

namespace TransitionRecord

variable (std : Stdlib)

def hashedBytes (r : TransitionRecord) : List UInt8 :=
  Utf8.encode (canonicalText std.floats (.dict (r.payload std)))

theorem nodup_payload (r : TransitionRecord) : ((r.payload std).map Prod.fst).Nodup := by
  show ["sequence", "at", "strategy_id", "strategy_content_hash", "from_state", "to_state", "kind",
    "actor", "automatic", "reason", "evidence", "previous_hash"].Nodup
  decide

variable {std}

theorem samePayload_of_hashedBytes {r s : TransitionRecord}
    (h : r.hashedBytes std = s.hashedBytes std) : r.SamePayload s := by
  have htext := encode_injective h
  have hview : canonicalise (.dict (r.payload std)) = canonicalise (.dict (s.payload std)) := by
    have hread := loads_canonicalText std.floats (.dict (r.payload std))
    rw [htext, loads_canonicalText] at hread
    exact (Option.some.inj hread).symm
  have hagree := agree_of_canonicalise hview (r.nodup_payload std) (s.nodup_payload std)
  refine ⟨?_, isoformat_injective std ?_, ?_, ?_, StrategyLifecycle.value_injective ?_,
    StrategyLifecycle.value_injective ?_, TransitionKind.value_injective ?_, Actor.eq_of_toDict ?_,
    ?_, ?_, samePayload_of_evidence ?_, ?_⟩
  · exact Value.int.inj (hagree "sequence" (.int r.sequence) (.int s.sequence) (by simp [payload])
      (by simp [payload]))
  · exact hagree.text "at" (by simp [payload]) (by simp [payload])
  · exact hagree.text "strategy_id" (by simp [payload]) (by simp [payload])
  · exact hagree.text "strategy_content_hash" (by simp [payload]) (by simp [payload])
  · exact hagree.text "from_state" (by simp [payload]) (by simp [payload])
  · exact hagree.text "to_state" (by simp [payload]) (by simp [payload])
  · exact hagree.text "kind" (by simp [payload]) (by simp [payload])
  · exact hagree "actor" r.actor.toDict s.actor.toDict (by simp [payload]) (by simp [payload])
  · exact Value.bool.inj (hagree "automatic" (.bool r.automatic) (.bool s.automatic)
      (by simp [payload]) (by simp [payload]))
  · exact hagree.text "reason" (by simp [payload]) (by simp [payload])
  · exact hagree "evidence" (.list (r.evidence.map Evidence.toDict))
      (.list (s.evidence.map Evidence.toDict)) (by simp [payload]) (by simp [payload])
  · exact hagree.text "previous_hash" (by simp [payload]) (by simp [payload])

variable (std) in
def scheme : Scheme TransitionRecord (List UInt8) String where
  position := sequence
  previous := previousHash
  hash := recordHash
  bytes := hashedBytes std
  digest := Sha256.hexdigest
  position_bytes _ _ h := (samePayload_of_hashedBytes h).sequence
  previous_bytes _ _ h := (samePayload_of_hashedBytes h).previousHash

end TransitionRecord

theorem linked_of_firstBreak {std : Stdlib} {i : ℕ} {previous : String}
    {rows : List TransitionRecord} (h : firstBreak std i previous rows = none) :
    (TransitionRecord.scheme std).Linked i previous rows := by
  induction rows generalizing i previous with
  | nil => trivial
  | cons r rows ih =>
    rw [firstBreak] at h
    split_ifs at h with h1 h2 h3
    exact ⟨not_not.1 h1, not_not.1 h2, not_not.1 h3, ih h⟩

theorem evidence_eq (h : List.Forall₂ Evidence.SamePayload xs ys)
    (hxs : ∀ e ∈ xs, Canonical (.dict e.detail.entries))
    (hys : ∀ e ∈ ys, Canonical (.dict e.detail.entries)) : xs = ys := by
  induction h with
  | nil => rfl
  | @cons e f xs ys hhead _ ih =>
    have hef : e = f := hhead.eq (hxs e List.mem_cons_self) (hys f List.mem_cons_self)
    have htail := ih (fun a ha => hxs a (List.mem_cons_of_mem _ ha))
      (fun a ha => hys a (List.mem_cons_of_mem _ ha))
    rw [hef, htail]

theorem TransitionRecord.SamePayload.eq {r s : TransitionRecord} (h : r.SamePayload s)
    (hhash : r.recordHash = s.recordHash) (hr : r.Representable) (hs : s.Representable) : r =
      s := by
  have hevidence : r.evidence = s.evidence := evidence_eq h.evidence hr hs
  cases r
  cases s
  obtain ⟨h1, h2, h3, h4, h5, h6, h7, h8, h9, h10, -, h12⟩ := h
  dsimp only at h1 h2 h3 h4 h5 h6 h7 h8 h9 h10 h12 hhash hevidence
  subst h1 h2 h3 h4 h5 h6 h7 h8 h9 h10 h12 hhash hevidence
  rfl

/-- Two registrations that are stored alike, but for their own hashes; parameters are the
same without regard to the order of their keys. -/
structure RuleRegistration.SamePayload (r s : RuleRegistration) : Prop where
  registrationId : r.registrationId = s.registrationId
  sequence : r.sequence = s.sequence
  strategyContentHash : r.strategyContentHash = s.strategyContentHash
  kind : r.kind = s.kind
  parameters : ordered (.dict r.parametersJson.entries) = ordered (.dict s.parametersJson.entries)
  parametersFingerprint : r.parametersFingerprint = s.parametersFingerprint
  registeredAt : r.registeredAt = s.registeredAt
  registeredBy : r.registeredBy = s.registeredBy
  reason : r.reason = s.reason
  supersedes : r.supersedes = s.supersedes
  previousHash : r.previousHash = s.previousHash

namespace RuleRegistration

variable (std : Stdlib)

def hashedBytes (r : RuleRegistration) : List UInt8 := fingerprintBytes std (r.payload std)

theorem nodup_payload (r : RuleRegistration) : ((r.payload std).map Prod.fst).Nodup := by
  show ["registration_id", "sequence", "strategy_content_hash", "kind", "parameters",
    "parameters_fingerprint", "registered_at", "registered_by", "reason", "supersedes",
    "previous_hash"].Nodup
  decide

variable {std}

theorem samePayload_of_hashedBytes {r s : RuleRegistration}
    (h : r.hashedBytes std = s.hashedBytes std) : r.SamePayload s := by
  have hview := Json.asciiText_injective (encode_injective h)
  have hagree := agree_of_ordered hview (r.nodup_payload std) (s.nodup_payload std)
  refine ⟨?_, ?_, ?_, StoppingRuleKind.value_injective ?_, ?_, ?_, isoformat_injective std ?_, ?_,
    ?_, ?_, ?_⟩
  · exact hagree.orderedText "registration_id" (by simp [payload]) (by simp [payload])
  · exact Value.int.inj (hagree "sequence" (.int r.sequence) (.int s.sequence) (by simp [payload])
      (by simp [payload]))
  · exact hagree.orderedText "strategy_content_hash" (by simp [payload]) (by simp [payload])
  · exact hagree.orderedText "kind" (by simp [payload]) (by simp [payload])
  · exact hagree "parameters" (.dict r.parametersJson.entries) (.dict s.parametersJson.entries)
      (by simp [payload]) (by simp [payload])
  · exact hagree.orderedText "parameters_fingerprint" (by simp [payload]) (by simp [payload])
  · exact hagree.orderedText "registered_at" (by simp [payload]) (by simp [payload])
  · exact hagree.orderedText "registered_by" (by simp [payload]) (by simp [payload])
  · exact hagree.orderedText "reason" (by simp [payload]) (by simp [payload])
  · exact hagree.orderedText "supersedes" (by simp [payload]) (by simp [payload])
  · exact hagree.orderedText "previous_hash" (by simp [payload]) (by simp [payload])

variable (std) in
def scheme : Scheme RuleRegistration (List UInt8) String where
  position := sequence
  previous := previousHash
  hash := recordHash
  bytes := hashedBytes std
  digest := Sha256.hexdigest
  position_bytes _ _ h := (samePayload_of_hashedBytes h).sequence
  previous_bytes _ _ h := (samePayload_of_hashedBytes h).previousHash

end RuleRegistration

namespace PreRegistrationStore

variable {std : Stdlib}

theorem verifyFrom_iff {i : ℕ} {previous : String} {rows : List RuleRegistration} :
    (verifyFrom std i previous rows).1 = true ↔
      (RuleRegistration.scheme std).Linked i previous rows := by
  induction rows generalizing i previous with
  | nil => exact iff_of_true rfl trivial
  | cons r rows ih =>
    have hdigest : (RuleRegistration.scheme std).digest ((RuleRegistration.scheme std).bytes r) =
        r.recomputeHash std := rfl
    rw [verifyFrom, Scheme.Linked, hdigest]
    split_ifs with h1 h2 h3
    · exact iff_of_false id fun h => h1 h.1
    · exact iff_of_false id fun h => h2 h.2.1
    · exact iff_of_false id fun h => h3 h.2.2.1
    · rw [ih]
      exact ⟨fun h => ⟨not_not.1 h1, not_not.1 h2, not_not.1 h3, h⟩, fun h => h.2.2.2⟩

variable (std) in
theorem headHash_eq_lastHash (rows : List RuleRegistration) :
    headHash rows = (RuleRegistration.scheme std).lastHash genesisHash rows := by
  unfold headHash Scheme.lastHash
  cases rows.getLast? <;> rfl

variable (std)

structure RegisterCall where
  strategyContentHash : String
  kind : StoppingRuleKind
  parameters : RuleParameters
  registeredBy : String
  reason : String
  now : Timestamp

def registered (rows : List RuleRegistration) (c : RegisterCall) : List RuleRegistration :=
  match register std rows c.strategyContentHash c.kind c.parameters c.registeredBy
    c.reason c.now with
  | .ok (rows', _) => rows'
  | .error _ => rows

theorem registered_cases (rows : List RuleRegistration) (c : RegisterCall) :
    registered std rows c = rows ∨
      registered std rows c = rows ++ [sealed std rows c.strategyContentHash c.kind c.parameters
        c.registeredBy c.reason c.now] := by
  unfold registered register
  dsimp only
  split_ifs
  · exact .inl rfl
  · exact .inl rfl
  · exact .inl rfl
  · cases active rows c.strategyContentHash c.kind with
    | none => exact .inr rfl
    | some previous =>
      dsimp only
      split_ifs
      · exact .inl rfl
      · exact .inr rfl

theorem verify_registered (calls : List RegisterCall) :
    (verify std (Runs.exec (registered std) [] calls)).1 = true := by
  have hstep : ∀ rows c, (RuleRegistration.scheme std).Linked 0 genesisHash rows →
      (RuleRegistration.scheme std).Linked 0 genesisHash (registered std rows c) := by
    intro rows c h
    rcases registered_cases std rows c with heq | heq
    · rw [heq]
      exact h
    · rw [heq, Scheme.linked_snoc]
      refine ⟨h, ?_, headHash_eq_lastHash std rows, rfl⟩
      rw [Nat.zero_add]
      rfl
  have hempty : (RuleRegistration.scheme std).Linked 0 genesisHash [] := trivial
  exact verifyFrom_iff.2 (Runs.exec_invariant hstep hempty calls)

end PreRegistrationStore

theorem headHash_eq_scheme (std : Stdlib) (rows : List TransitionRecord) :
    headHash rows = (TransitionRecord.scheme std).lastHash genesisHash rows := by
  unfold headHash Scheme.lastHash
  cases rows.getLast? <;> rfl

theorem linked_of_verified {std : Stdlib} {rows : List TransitionRecord}
    (h : (verifyRows std rows).ok = true) :
    (TransitionRecord.scheme std).Linked 0 genesisHash rows := by
  unfold verifyRows at h
  cases hbreak : firstBreak std 0 genesisHash rows with
  | none => exact linked_of_firstBreak hbreak
  | some b =>
    rw [hbreak] at h
    cases h

/-- Logs that verify and end in one hash are stored alike, record by record; and so are
stores of registrations. -/
theorem stored_of_headHash (std : Stdlib) : (∀ rows rows' : List TransitionRecord,
      Set.InjOn Sha256.hexdigest {b | ∃ r ∈ rows ++ rows', r.hashedBytes std = b} →
      (verifyRows std rows).ok = true → (verifyRows std rows').ok = true →
      rows.length = rows'.length ∨ (rows ≠ [] ∧ rows' ≠ []) →
      headHash rows = headHash rows' →
      List.Forall₂ (fun r s => r.SamePayload s ∧ r.recordHash = s.recordHash ∧
        (r.Representable → s.Representable → r = s)) rows rows') ∧
    (∀ rows rows' : List RuleRegistration,
      Set.InjOn Sha256.hexdigest {b | ∃ r ∈ rows ++ rows', r.hashedBytes std = b} →
      (PreRegistrationStore.verify std rows).1 = true →
      (PreRegistrationStore.verify std rows').1 = true →
      rows.length = rows'.length ∨ (rows ≠ [] ∧ rows' ≠ []) →
      PreRegistrationStore.headHash rows = PreRegistrationStore.headHash rows' →
      List.Forall₂ (fun r s => r.SamePayload s ∧ r.recordHash = s.recordHash) rows rows') := by
  constructor
  · intro rows rows' hinj hok hok' hlen hhead
    have hfree : (TransitionRecord.scheme std).Collisionless rows rows' := hinj
    have hrows := linked_of_verified hok
    have hrows' := linked_of_verified hok'
    rw [headHash_eq_scheme std, headHash_eq_scheme std] at hhead
    have hlength := Scheme.length_eq_of_lastHash hfree hrows hrows' hlen hhead
    refine (Scheme.same_of_lastHash hfree hrows hrows' hlength hhead).imp ?_
    rintro r s ⟨hbytes, hhash⟩
    have hsame : r.SamePayload s := TransitionRecord.samePayload_of_hashedBytes hbytes
    exact ⟨hsame, hhash, hsame.eq hhash⟩
  · intro rows rows' hinj hok hok' hlen hhead
    have hfree : (RuleRegistration.scheme std).Collisionless rows rows' := hinj
    have hrows := PreRegistrationStore.verifyFrom_iff.1 hok
    have hrows' := PreRegistrationStore.verifyFrom_iff.1 hok'
    rw [PreRegistrationStore.headHash_eq_lastHash std,
      PreRegistrationStore.headHash_eq_lastHash std] at hhead
    have hlength := Scheme.length_eq_of_lastHash hfree hrows hrows' hlen hhead
    refine (Scheme.same_of_lastHash hfree hrows hrows' hlength hhead).imp ?_
    rintro r s ⟨hbytes, hhash⟩
    exact ⟨RuleRegistration.samePayload_of_hashedBytes hbytes, hhash⟩

namespace TagSample

def actor : Actor := ⟨.human, "ana", by decide, by decide⟩

def evidence (v : Value) : Evidence :=
  ⟨.validationReport, "report-1", "", Dict.empty.set "sharpe" v, by decide⟩

/-- A registration of a strategy on a report that measured `v`. -/
def record (v : Value) : TransitionRecord :=
  .sealRecord epochStdlib 0 0 "s" "hash-s" .discovery .discovery .registration actor "first"
    [evidence v] genesisHash

def tag : Value := .dict [("$float", .str "nan")]

variable (v : Value)

theorem verified : (verifyRows epochStdlib [record v]).ok = true := by
  have hbreak : firstBreak epochStdlib 0 genesisHash [record v] = none := by
    rw [firstBreak, if_neg (fun h => h rfl), if_neg (fun h => h rfl), if_neg (fun h => h rfl)]
    rfl
  unfold verifyRows
  rw [hbreak]

theorem payload_tag : (record .nan).payload epochStdlib = (record tag).payload epochStdlib := rfl

theorem bytes_tag : (record .nan).hashedBytes epochStdlib = (record tag).hashedBytes epochStdlib :=
  congrArg (fun p => Utf8.encode (canonicalText epochStdlib.floats (.dict p))) payload_tag

theorem recordHash_eq :
    (record v).recordHash = Sha256.hexdigest ((record v).hashedBytes epochStdlib) := rfl

theorem head_tag : headHash [record .nan] = headHash [record tag] := by
  show (record .nan).recordHash = (record tag).recordHash
  rw [recordHash_eq, recordHash_eq, bytes_tag]

theorem collisionless : Set.InjOn Sha256.hexdigest
    {b | ∃ r ∈ [record .nan] ++ [record tag], r.hashedBytes epochStdlib = b} := by
  have hall : ∀ r ∈ [record .nan] ++ [record tag],
      r.hashedBytes epochStdlib = (record tag).hashedBytes epochStdlib := by
    intro r hr
    rcases List.mem_cons.1 hr with rfl | hr
    · exact bytes_tag
    · rw [List.mem_singleton.1 hr]
  rintro a ⟨r, hr, rfl⟩ b ⟨s, hs, rfl⟩ -
  rw [hall r hr, hall s hs]

/-- A detail that is not a number can be replaced by its tag unseen. -/
theorem nan_hashes_as_tag : ¬ ∀ rows rows' : List TransitionRecord,
      Set.InjOn Sha256.hexdigest {b | ∃ r ∈ rows ++ rows', r.hashedBytes epochStdlib = b} →
      (verifyRows epochStdlib rows).ok = true → (verifyRows epochStdlib rows').ok = true →
      rows.length = rows'.length → headHash rows = headHash rows' →
      List.Forall₂ (fun r s => r.evidence.map Evidence.detail = s.evidence.map Evidence.detail)
        rows rows' := by
  intro h
  have hsame := h [record .nan] [record tag] collisionless (verified _) (verified _) rfl head_tag
  obtain ⟨hdetail, -⟩ := List.forall₂_cons.1 hsame
  have hentries : [("sharpe", Value.nan)] = [("sharpe", tag)] :=
    congrArg (fun d : Dict String Value => d.entries) (List.cons.inj hdetail).1
  cases (Prod.mk.inj (List.cons.inj hentries).1).2

def call : PreRegistrationStore.RegisterCall :=
  ⟨"hash-s", .psrFloor, ⟨.psrFloor, Dict.empty.set "threshold" .nan⟩, "ana", "first", 0⟩

def store : List RuleRegistration :=
  Runs.exec (PreRegistrationStore.registered epochStdlib) [] [call]

theorem collisionless_store : Set.InjOn Sha256.hexdigest
    {b | ∃ r ∈ store ++ store, r.hashedBytes epochStdlib = b} := by
  obtain ⟨r, hstore⟩ : ∃ r, store = [r] := ⟨_, rfl⟩
  rw [hstore]
  rintro a ⟨s, hs, rfl⟩ b ⟨t, ht, rfl⟩ -
  have hs : s = r := by simpa using hs
  have ht : t = r := by simpa using ht
  rw [hs, ht]

theorem stored_of_headHash_tag : (record .nan).SamePayload (record tag) ∧
      List.Forall₂ (fun r s => r.SamePayload s ∧ r.recordHash = s.recordHash) store store := by
  constructor
  · have hsame := (stored_of_headHash epochStdlib).1 [record .nan] [record tag] collisionless
      (verified _) (verified _) (.inl rfl) head_tag
    exact (List.forall₂_cons.1 hsame).1.1
  · have hok := PreRegistrationStore.verify_registered epochStdlib [call]
    exact (stored_of_headHash epochStdlib).2 store store collisionless_store hok hok (.inl rfl) rfl

end TagSample

end Fiboki
