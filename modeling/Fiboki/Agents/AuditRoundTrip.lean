import Fiboki.Agents.AuditRecord

/-!
What the line of a record is read back as: a record with the same JSON and the same hash,
unless a number changes its type on the way or an enumeration's mapping its order.
-/

namespace Fiboki.Audit

open Json PyJson Wire

mutual
def Py.InOrder (floats : FloatText) : Py → Prop
  | .mapping es => Py.InOrderFields floats es
  | .sequence xs => Py.InOrderItems floats xs
  | .model dump => Py.InOrder floats dump
  | .enum value => ∀ v, encode floats false value = some v → Sorted v
  | .none | .nan | .inf _ | .bool _ | .int _ | .num _ | .str _ | .bytes _ | .datetime _
  | .object _ => True

def Py.InOrderItems (floats : FloatText) : List Py → Prop
  | [] => True
  | x :: xs => Py.InOrder floats x ∧ Py.InOrderItems floats xs

def Py.InOrderFields (floats : FloatText) : List (Py × Py) → Prop
  | [] => True
  | e :: es => Py.InOrder floats e.2 ∧ Py.InOrderFields floats es
end

section Order

variable {lib : AuditLib}

mutual
theorem sorted_canonical : ∀ p : Py, p.InOrder lib.floats → ∀ v : Value,
    encode lib.floats false (canonical lib p) = some v → Sorted v
  | .none, _, v, h | .nan, _, v, h | .inf _, _, v, h | .bool _, _, v, h | .int _, _, v, h
  | .num _, _, v, h | .str _, _, v, h | .bytes _, _, v, h | .datetime _, _, v, h
  | .object _, _, v, h => by
    cases h
    trivial
  | .enum value, horder, v, h => horder v h
  | .model dump, horder, v, h => sorted_canonical dump horder v h
  | .sequence xs, horder, v, h => by
    rw [canonical, encode, Option.map_eq_some_iff] at h
    obtain ⟨vs, hvs, rfl⟩ := h
    exact sorted_canonicalItems xs horder vs hvs
  | .mapping es, horder, v, h => by
    rw [canonical] at h
    obtain ⟨vs, hvs, rfl⟩ := encode_keyed.1 h
    refine ⟨(Dict.ofList vs).sorted, sortedFields_of_forall fun f hf => ?_⟩
    obtain ⟨e, he, henc⟩ := hvs.mem (Dict.mem_of_get_ofList (Dict.mem_entries.1 hf))
    have hsorted := Dict.mem_of_get_ofList (Dict.mem_entries.1 he)
    have hmem := (List.perm_insertionSort _ (canonicalFields lib es)).subset hsorted
    exact sorted_canonicalFields es horder e hmem f.2 henc

theorem sorted_canonicalItems : ∀ xs : List Py, Py.InOrderItems lib.floats xs →
    ∀ vs : List Value, encodeItems lib.floats false (canonicalItems lib xs) = some vs →
      SortedItems vs
  | [], _, vs, h => by
    cases h
    trivial
  | x :: xs, horder, vs, h => by
    rw [canonicalItems, encodeItems] at h
    split at h
    · rename_i v rest hv hrest
      cases h
      exact ⟨sorted_canonical x horder.1 v hv, sorted_canonicalItems xs horder.2 rest hrest⟩
    · cases h

theorem sorted_canonicalFields : ∀ es : List (Py × Py), Py.InOrderFields lib.floats es →
    ∀ e ∈ canonicalFields lib es, ∀ v : Value, encode lib.floats false e.2 = some v → Sorted v
  | [], _, e, he, v, h => absurd he List.not_mem_nil
  | d :: es, horder, e, he, v, h => by
    rw [canonicalFields] at he
    rcases List.mem_cons.1 he with rfl | he
    · exact sorted_canonical d.2 horder.1 v h
    · exact sorted_canonicalFields es horder.2 e he v h
end

end Order

namespace AuditRecord

section Payload

variable {lib : AuditLib} {r : AuditRecord} {withHash : Bool}

def baseNames : List String :=
  ["action_id", "sequence", "recorded_at", "agent_id", "role", "kind", "tool", "capability",
    "inputs", "outputs", "reason", "prompt", "parent_action_id", "workflow_id", "model",
    "model_version", "provider", "prompt_tokens", "completion_tokens", "cost_usd", "wall_ms",
    "outcome", "error", "previous_hash"]

def provenanceNames : List String := ["model_id", "model_digest", "manifest_hash"]

theorem map_fst_filterMap (xs : List (String × Option String)) :
    ((xs.filterMap fun e => e.2.map fun s => (e.1, Raw.str s)).map Prod.fst).Sublist
      (xs.map Prod.fst) := by
  induction xs with
  | nil => exact .slnil
  | cons e xs ih =>
    obtain ⟨k, value⟩ := e
    cases value with
    | none => exact ih.cons k
    | some s => exact ih.cons_cons k

theorem provenance_sublist : (r.provenance.map Prod.fst).Sublist provenanceNames :=
  map_fst_filterMap _

theorem payload_sublist : ((r.payload lib withHash).map Prod.fst).Sublist
      (baseNames ++ provenanceNames ++ ["record_hash"]) := by
  unfold payload
  rw [List.map_append, List.map_append]
  refine (List.Sublist.append (List.Sublist.append (List.Sublist.refl _) provenance_sublist) ?_)
  cases withHash with
  | false => exact List.nil_sublist _
  | true => exact List.Sublist.refl _

theorem payload_nodup : ((r.payload lib withHash).map Prod.fst).Nodup := by
  have hnames : (baseNames ++ provenanceNames ++ ["record_hash"]).Nodup := by decide
  exact hnames.sublist payload_sublist

variable {text : List Char}

theorem lineText_eq_some :
    r.lineText lib = some text ↔ ∃ vs, Encoded lib.floats false (r.payload lib true) vs ∧
      text = write lib.floats (compact Escape.ascii) 0 (.dict (Dict.ofList vs).entries) := by
  unfold lineText dumps
  rw [Option.map_eq_some_iff]
  constructor
  · rintro ⟨v, hv, rfl⟩
    obtain ⟨vs, hvs, rfl⟩ := encode_keyed.1 hv
    exact ⟨vs, hvs, rfl⟩
  · rintro ⟨vs, hvs, rfl⟩
    exact ⟨_, encode_keyed.2 ⟨vs, hvs, rfl⟩, rfl⟩

theorem ordered_entries (vs : List (String × Value)) :
    ordered (.dict (Dict.ofList vs).entries) = ordered (.dict vs) := by
  rw [ordered, ordered, orderedFields_eq_map, orderedFields_eq_map, Dict.ofList_map,
    Dict.ofList_map,
    Dict.ofList_entries]

def provenanceFields (r : AuditRecord) : List (String × Option String) :=
  [("model_id", r.modelId), ("model_digest", r.modelDigest), ("manifest_hash", r.manifestHash)]

theorem mem_provenance {k s : String} (h : (k, some s) ∈ r.provenanceFields) :
    (k, Raw.str s) ∈ r.provenance :=
  List.mem_filterMap.2 ⟨(k, some s), h, rfl⟩

theorem notMem_payload {k : String} (h : (k, none) ∈ r.provenanceFields) :
    k ∉ (r.payload lib withHash).map Prod.fst := by
  have hnames : ((r.provenanceFields).map Prod.fst).Nodup :=
    show provenanceNames.Nodup by decide
  have hprovenance : k ∈ r.provenanceFields.map Prod.fst := List.mem_map_of_mem h
  have hothers : ∀ name ∈ provenanceNames, name ∉ baseNames ∧ name ≠ "record_hash" := by decide
  obtain ⟨hbase, hhash⟩ := hothers k hprovenance
  intro hmem
  unfold payload at hmem
  rw [List.map_append, List.map_append, List.mem_append, List.mem_append] at hmem
  rcases hmem with (hmem | hmem) | hmem
  · exact hbase hmem
  · obtain ⟨e, he, rfl⟩ := List.mem_map.1 hmem
    obtain ⟨⟨name, value⟩, hd, hvalue⟩ := List.mem_filterMap.1 he
    obtain ⟨s, rfl, rfl⟩ := Option.map_eq_some_iff.1 hvalue
    have hsome := Dict.lookup_of_mem_nodup hnames hd
    rw [Dict.lookup_of_mem_nodup hnames h] at hsome
    cases hsome
  · cases withHash with
    | false => cases hmem
    | true => exact hhash (List.mem_singleton.1 hmem)

def Holds (lib : AuditLib) (stored : Value) (e : String × Raw) : Prop :=
  ∃ v, encode lib.floats false e.2 = some v ∧ stored.get? e.1 = some (ordered v)

theorem loads_lineText (h : r.lineText lib = some text) :
    ∃ stored, loads lib.floats text = some stored ∧ (∀ e ∈ r.payload lib true, Holds lib stored e) ∧
      ∀ k, k ∉ (r.payload lib true).map Prod.fst → stored.get? k = none := by
  obtain ⟨vs, hvs, rfl⟩ := lineText_eq_some.1 h
  refine ⟨ordered (.dict vs), ?_, ?_, ?_⟩
  · rw [loads_write_ordered, ordered_entries]
  · intro e he
    obtain ⟨v, hv, hget⟩ := hvs.get payload_nodup he
    exact ⟨v, hv, by rw [get?_ordered, hget, Option.map_some]⟩
  · intro k hk
    rw [get?_ordered, hvs.get_none hk, Option.map_none]

end Payload

section Writing

variable {lib : AuditLib} {r : AuditRecord}

structure HasJson (lib : AuditLib) (r : AuditRecord) : Prop where
  inputs : (encode lib.floats false (canonical lib (.mapping r.inputs))).isSome
  outputs : (encode lib.floats false (canonical lib (.mapping r.outputs))).isSome

theorem isSome_optionalRaw (value : Option String) :
    (encode lib.floats false (optionalRaw value)).isSome := by
  cases value <;> rfl

theorem isSome_number (n : PyNumber) : (encode lib.floats false n.raw).isSome := by
  cases n <;> rfl

theorem HasJson.payload (h : HasJson lib r) (withHash : Bool) :
    ∀ e ∈ r.payload lib withHash, (encode lib.floats false e.2).isSome := by
  have hbase : ∀ e ∈ r.baseFields lib, (encode lib.floats false e.2).isSome := by
    simp only [baseFields, List.forall_mem_cons, h.inputs, h.outputs, isSome_optionalRaw,
      isSome_number, encode, Option.isSome_some, true_and]
    exact fun _ he => absurd he List.not_mem_nil
  intro e he
  rcases List.mem_append.1 he with he | he
  · rcases List.mem_append.1 he with he | he
    · exact hbase e he
    · obtain ⟨d, -, hd⟩ := List.mem_filterMap.1 he
      obtain ⟨s, -, rfl⟩ := Option.map_eq_some_iff.1 hd
      rfl
  · cases withHash with
    | false => cases he
    | true =>
      rw [List.mem_singleton.1 he]
      rfl

theorem lineText_isSome : (r.lineText lib).isSome ↔ HasJson lib r := by
  unfold lineText dumps
  rw [Option.isSome_map, encode_keyed_isSome]
  constructor
  · intro h
    have hbase := fun e he =>
      h e (List.mem_append_left _ (List.mem_append_left r.provenance he))
    simp only [baseFields, List.forall_mem_cons] at hbase
    obtain ⟨-, -, -, -, -, -, -, -, hinputs, houtputs, -⟩ := hbase
    exact ⟨hinputs, houtputs⟩
  · intro h
    exact h.payload true

theorem HasJson.blob (h : HasJson lib r) : ∃ text, r.blob lib = some text := by
  obtain ⟨v, hv⟩ := Option.isSome_iff_exists.1 (encode_keyed_isSome.2 (h.payload false))
  unfold AuditRecord.blob dumps
  rw [encode_default _ v hv]
  exact ⟨_, rfl⟩

theorem computeHash_recordHash (r : AuditRecord) (hash : String) :
    { r with recordHash := hash }.computeHash lib = r.computeHash lib := rfl

theorem sealed_eq_some {i : ℤ} {previousHash : String} {s : AuditRecord}
    (h : r.sealed lib i previousHash = some s) :
    s = { r.staged i previousHash with recordHash := s.recordHash } ∧
      s.computeHash lib = some s.recordHash := by
  obtain ⟨hash, hhash, rfl⟩ := Option.map_eq_some_iff.1 h
  exact ⟨rfl, hhash⟩

theorem HasJson.sealed (h : HasJson lib r) (i : ℤ) (previousHash : String) :
    ∃ s, r.sealed lib i previousHash = some s := by
  have hstaged : HasJson lib (r.staged i previousHash) := ⟨h.inputs, h.outputs⟩
  obtain ⟨text, htext⟩ := hstaged.blob
  unfold AuditRecord.sealed computeHash
  rw [htext]
  exact ⟨_, rfl⟩

end Writing

section Fields

variable {lib : AuditLib} {stored : Value} {k : String}

variable {s : String}

theorem Holds.str (h : Holds lib stored (k, .str s)) : stored.get? k = some (.str s) := by
  obtain ⟨v, hv, hget⟩ := h
  cases hv
  exact hget

theorem Holds.required (h : Holds lib stored (k, .str s)) : required lib stored k = .ok s := by
  unfold AuditRecord.required Value.field
  rw [h.str]
  exact congrArg Except.ok (lib.str_text s)

theorem Holds.field (h : Holds lib stored (k, .str s)) : stored.field k = .ok (.str s) := by
  unfold Value.field
  rw [h.str]

theorem Holds.textOr {s default : String} (h : Holds lib stored (k, .str s)) :
    textOr lib.toStdlib stored k default = s := by
  unfold Fiboki.textOr
  rw [h.str]
  exact lib.str_text s

variable {value : Option String}

theorem Holds.optionalText (h : Holds lib stored (k, optionalRaw value)) :
    optionalText stored k = .ok value := by
  obtain ⟨v, hv, hget⟩ := h
  unfold AuditRecord.optionalText
  rw [hget]
  cases value <;> cases hv <;> rfl

variable {n : PyNumber}

theorem Holds.number (h : Holds lib stored (k, n.raw)) : stored.get? k = some n.value := by
  obtain ⟨v, hv, hget⟩ := h
  cases n <;> cases hv <;> exact hget

theorem Holds.intOr {z default : ℤ} (h : Holds lib stored (k, n.raw))
    (hn : lib.int n.value = .ok z) : intOr lib stored k default = .ok z := by
  unfold AuditRecord.intOr
  rw [h.number]
  exact hn

theorem Holds.floatOr {n m : PyNumber} (h : Holds lib stored (k, n.raw))
    (hn : lib.float n.value = .ok m) : floatOr lib stored k = .ok m := by
  unfold AuditRecord.floatOr
  rw [h.number]
  exact hn

theorem Holds.dictOr {es : List (String × Value)} {raw : Raw} (h : Holds lib stored (k, raw))
    (henc : encode lib.floats false raw = some (.dict es)) (hsorted : Sorted (.dict es)) :
    dictOr stored k = .ok (Py.ofFields es) := by
  obtain ⟨v, hv, hget⟩ := h
  rw [henc] at hv
  cases hv
  unfold AuditRecord.dictOr
  rw [hget, ordered_eq_self _ hsorted]
  cases es <;> rfl

theorem optionalStr_of_provenance (hsome : ∀ s, value = some s → Holds lib stored (k, .str s))
    (hnone : value = none → stored.get? k = none) : optionalStr lib stored k = value := by
  unfold AuditRecord.optionalStr
  cases value with
  | none => rw [hnone rfl]
  | some s =>
    rw [(hsome s rfl).str]
    exact congrArg some (lib.str_text s)

end Fields

section RoundTrip

variable {lib : AuditLib} {r : AuditRecord}

/-- What a record is asked to have in order to be read back as it was written. -/
structure Exact (lib : AuditLib) (r : AuditRecord) : Prop where
  promptTokens : r.promptTokens.isInt = true
  completionTokens : r.completionTokens.isInt = true
  costUsd : r.costUsd.isFloat = true
  wallMs : r.wallMs.isFloat = true
  inputs : (Py.mapping r.inputs).InOrder lib.floats
  outputs : (Py.mapping r.outputs).InOrder lib.floats

variable {s : AuditRecord}

theorem Exact.sealed {i : ℤ} {previousHash : String} (h : Exact lib r)
    (hs : r.sealed lib i previousHash = some s) : Exact lib s := by
  rw [(sealed_eq_some hs).1]
  exact ⟨h.promptTokens, h.completionTokens, h.costUsd, h.wallMs, h.inputs, h.outputs⟩

/-- Two records with one JSON text and one hash, whatever they hold. -/
structure Alike (lib : AuditLib) (r s : AuditRecord) : Prop where
  payload : ∀ default withHash, encode lib.floats default (.dict (keyed (r.payload lib withHash))) =
    encode lib.floats default (.dict (keyed (s.payload lib withHash)))
  actionId : r.actionId = s.actionId
  sequence : r.sequence = s.sequence
  previousHash : r.previousHash = s.previousHash
  recordHash : r.recordHash = s.recordHash

theorem Alike.refl (r : AuditRecord) : Alike lib r r := ⟨fun _ _ => rfl, rfl, rfl, rfl, rfl⟩

theorem Alike.lineText (h : Alike lib r s) : r.lineText lib = s.lineText lib := by
  unfold AuditRecord.lineText dumps
  rw [h.payload false true]

theorem Alike.computeHash (h : Alike lib r s) : r.computeHash lib = s.computeHash lib := by
  unfold AuditRecord.computeHash blob dumps
  rw [h.payload true false]

variable {n : PyNumber}

theorem int_of_isInt (h : n.isInt = true) : ∃ z, n = .int z ∧ lib.int n.value = .ok z := by
  cases n with
  | int z => exact ⟨z, rfl, lib.int_int z⟩
  | nan | inf negative | bool b | num q => cases h

theorem float_of_isFloat (h : n.isFloat = true) : lib.float n.value = .ok n := by
  cases n with
  | nan => exact lib.float_nan
  | inf negative => exact lib.float_inf negative
  | num q => exact lib.float_num q
  | bool b | int z => cases h

variable {es : List (Py × Py)}

theorem encode_mapping (horder : (Py.mapping es).InOrder lib.floats)
    (h : (encode lib.floats false (canonical lib (.mapping es))).isSome) :
    ∃ fields, encode lib.floats false (canonical lib (.mapping es)) = some (.dict fields) ∧
      Sorted (.dict fields) := by
  obtain ⟨v, hv⟩ := Option.isSome_iff_exists.1 h
  have hsorted := sorted_canonical _ horder v hv
  have hdict := hv
  rw [canonical] at hdict
  obtain ⟨vs, -, rfl⟩ := encode_keyed.1 hdict
  exact ⟨_, hv, hsorted⟩

theorem encode_ofFields {fields : List (String × Value)} (default : Bool)
    (h : encode lib.floats false (canonical lib (.mapping es)) = some (.dict fields))
    (hsorted : Sorted (.dict fields)) :
    encode lib.floats default (canonical lib (.mapping es)) =
      encode lib.floats default (canonical lib (.mapping (Py.ofFields fields))) := by
  have hback : encode lib.floats default (canonical lib (.mapping (Py.ofFields fields))) =
      some (.dict fields) := encode_canonical_ofValue (.dict fields) hsorted
  rw [hback]
  cases default with
  | false => exact h
  | true => exact encode_default _ _ h

theorem alike_of_encode {inputs outputs : List (Py × Py)}
    (hin : ∀ default, encode lib.floats default (canonical lib (.mapping r.inputs)) =
      encode lib.floats default (canonical lib (.mapping inputs)))
    (hout : ∀ default, encode lib.floats default (canonical lib (.mapping r.outputs)) =
      encode lib.floats default (canonical lib (.mapping outputs))) :
    Alike lib r { r with inputs, outputs } := by
  refine ⟨fun default withHash => encode_keyed_congr ?_, rfl, rfl, rfl, rfl⟩
  have hself : ∀ xs : List (String × Raw), List.Forall₂ (fun e f : String × Raw => e.1 = f.1 ∧
      encode lib.floats default e.2 = encode lib.floats default f.2) xs xs :=
    fun xs => List.forall₂_same.2 fun _ _ => ⟨rfl, rfl⟩
  refine List.rel_append (List.rel_append ?_ (hself _)) (hself _)
  have hfirst := hself ((r.baseFields lib).take 8)
  have hlast := hself ((r.baseFields lib).drop 10)
  exact List.rel_append hfirst (.cons ⟨rfl, hin default⟩ (.cons ⟨rfl, hout default⟩ hlast))

theorem memberValue_actionKind (k : ActionKind) :
    memberValue lib.toStdlib "ActionKind" ActionKind.members ActionKind.value (.str k.value) =
      .ok k := by
  cases k <;> rfl

theorem memberValue_auditOutcome (o : AuditOutcome) :
    memberValue lib.toStdlib "Outcome" AuditOutcome.members AuditOutcome.value (.str o.value) =
      .ok o := by
  cases o <;> rfl

variable {text : List Char}

theorem fromPayload_coerced (h : r.lineText lib = some text)
    (hinputs : (Py.mapping r.inputs).InOrder lib.floats)
    (houtputs : (Py.mapping r.outputs).InOrder lib.floats) {promptTokens completionTokens : ℤ}
    {costUsd wallMs : PyNumber} (hprompted : lib.int r.promptTokens.value = .ok promptTokens)
    (hcompleted : lib.int r.completionTokens.value = .ok completionTokens)
    (hcosts : lib.float r.costUsd.value = .ok costUsd)
    (hlasts : lib.float r.wallMs.value = .ok wallMs) :
    ∃ stored ins outs, loads lib.floats text = some stored ∧
      stored.get? "record_hash" = some (.str r.recordHash) ∧
      (encode lib.floats false (canonical lib (.mapping r.inputs)) = some (.dict ins) ∧
        Sorted (.dict ins)) ∧
      (encode lib.floats false (canonical lib (.mapping r.outputs)) = some (.dict outs) ∧
        Sorted (.dict outs)) ∧
      fromPayload lib stored = .ok { r with
        inputs := Py.ofFields ins
        outputs := Py.ofFields outs
        promptTokens := .int promptTokens
        completionTokens := .int completionTokens
        costUsd, wallMs } := by
  obtain ⟨stored, hload, hfields, hmissing⟩ := loads_lineText h
  have hprovenance := fun e he =>
    hfields e (List.mem_append_left _ (List.mem_append_right (r.baseFields lib) he))
  have hbase :=
    fun e he => hfields e (List.mem_append_left _ (List.mem_append_left r.provenance he))
  have hhash : Holds lib stored ("record_hash", .str r.recordHash) :=
    hfields _ (List.mem_append_right _ List.mem_cons_self)
  simp only [baseFields, List.forall_mem_cons] at hbase
  obtain ⟨hactionId, hsequence, hrecordedAt, hagentId, hrole, hkind, htool, hcapability, hin, hout,
    hreason, hprompt, hparent, hworkflow, hmodel, hmodelVersion, hprovider, hpromptTokens,
    hcompletionTokens, hcostUsd, hwallMs, houtcome, herror, hprevious, -⟩ := hbase
  have hjson : HasJson lib r := lineText_isSome.1 (Option.isSome_iff_exists.2 ⟨text, h⟩)
  obtain ⟨ins, hins⟩ := encode_mapping hinputs hjson.inputs
  obtain ⟨outs, houts⟩ := encode_mapping houtputs hjson.outputs
  have hoptional : ∀ k value, (k, value) ∈ r.provenanceFields →
      optionalStr lib stored k = value := by
    intro k value hmem
    apply optionalStr_of_provenance
    · rintro s rfl
      exact hprovenance _ (mem_provenance hmem)
    · rintro rfl
      exact hmissing k (notMem_payload hmem)
  have hid := hoptional "model_id" r.modelId (.head _)
  have hdigest := hoptional "model_digest" r.modelDigest (.tail _ (.head _))
  have hmanifest := hoptional "manifest_hash" r.manifestHash (.tail _ (.tail _ (.head _)))
  have hplace : Holds lib stored ("sequence", (PyNumber.int r.sequence).raw) := hsequence
  refine ⟨stored, ins, outs, hload, hhash.str, hins, houts, ?_⟩
  simp only [fromPayload, hactionId.required, hrecordedAt.required, hagentId.required,
    hrole.required, hkind.field, htool.required, hcapability.textOr, hin.dictOr hins.1 hins.2,
    hout.dictOr houts.1 houts.2, hreason.textOr, hprompt.textOr, hparent.optionalText,
    hworkflow.optionalText, hmodel.textOr, hmodelVersion.textOr, hprovider.textOr,
    hpromptTokens.intOr hprompted, hcompletionTokens.intOr hcompleted, hcostUsd.floatOr hcosts,
    hwallMs.floatOr hlasts, houtcome.field, herror.textOr, hprevious.textOr, hhash.textOr,
    hplace.intOr (lib.int_int r.sequence), hid, hdigest, hmanifest, ok_bind,
    memberValue_actionKind, memberValue_auditOutcome, lib.fromisoformat_isoformat]
  rfl

theorem fromPayload_lineText (h : r.lineText lib = some text)
    (hexact : Exact lib r) :
    ∃ stored s, loads lib.floats text = some stored ∧ fromPayload lib stored = .ok s ∧
      Alike lib r s ∧ stored.get? "record_hash" = some (.str r.recordHash) := by
  obtain ⟨promptTokens, hprompt, hprompted⟩ := int_of_isInt hexact.promptTokens
  obtain ⟨completionTokens, hcompletion, hcompleted⟩ := int_of_isInt hexact.completionTokens
  obtain ⟨stored, ins, outs, hload, hhash, hins, houts, hread⟩ :=
    fromPayload_coerced h hexact.inputs hexact.outputs hprompted hcompleted
      (float_of_isFloat hexact.costUsd) (float_of_isFloat hexact.wallMs)
  rw [← hprompt, ← hcompletion] at hread
  exact ⟨stored, _, hload, hread,
    alike_of_encode (fun default => encode_ofFields default hins.1 hins.2)
      (fun default => encode_ofFields default houts.1 houts.2), hhash⟩

end RoundTrip

end AuditRecord

end Fiboki.Audit
