import Fiboki.Agents.AuditLedger

/-!
A ledger opened again after any number of appends: it verifies and goes on, provided that
every record appended is read back as it was written.
-/

namespace Fiboki.Audit

open Json PyJson Wire Durable AuditRecord Runs

/-- A file, the instance that appends to it, and the records its appends returned. -/
structure Session where
  file : Bytes
  ledger : JsonlAuditLedger
  returned : List AuditRecord

namespace Session

def initial : Session := ⟨[], ⟨[], 0, true⟩, []⟩

def append (lib : AuditLib) (s : Session) (r : AuditRecord) : Session :=
  let (file, ledger, result) := s.ledger.append lib s.file r
  match result with
  | .error _ => { s with file, ledger }
  | .ok sealed => ⟨file, ledger, s.returned ++ [sealed]⟩

def run (lib : AuditLib) (records : List AuditRecord) : Session := exec (append lib) initial records

/-- The file holds the returned records, the instance has read them, and they are a chain. -/
structure Inv (lib : AuditLib) (s : Session) : Prop where
  written : ∀ r ∈ s.returned, Written lib r
  chained : Chained lib s.returned
  file : s.file = ledgerFile lib s.returned
  sees : Sees lib s.returned s.file.length s.ledger

section Steps

variable {lib : AuditLib} {s : Session}

theorem inv_initial : Inv lib initial where
  written _ h := absurd h List.not_mem_nil
  chained := trivial
  file := rfl
  sees := ⟨.nil, rfl, rfl⟩

theorem Inv.appends (h : Inv lib s) {l : JsonlAuditLedger}
    (hl : Sees lib s.returned s.file.length l) (r : AuditRecord) :
    (HasJson lib r → ∃ l' sealed, l.append lib s.file r =
        (ledgerFile lib (s.returned ++ [sealed]), l', .ok sealed) ∧
        r.sealed lib s.returned.length (tailHashOf s.returned) = some sealed ∧
        (∃ text, sealed.lineText lib = some text) ∧
        Sees lib (s.returned ++ [sealed]) (ledgerFile lib (s.returned ++ [sealed])).length l') ∧
      (¬ HasJson lib r → ∃ l', l.append lib s.file r = (s.file, l', .error .notJson) ∧
        Sees lib s.returned s.file.length l') := by
  rw [h.file] at hl ⊢
  obtain ⟨l', hcatch, hl'⟩ := JsonlAuditLedger.catchUp_of_sees []
    (by rw [List.append_nil]; exact h.written) (by rw [List.append_nil]; exact h.chained) hl
  rw [List.append_nil] at hcatch hl'
  unfold JsonlAuditLedger.append
  rw [hcatch]
  dsimp only
  constructor
  · intro hr
    obtain ⟨sealed, hprepare, hsealed, htext⟩ := JsonlAuditLedger.prepare_of_hasJson hl' hr
    refine ⟨l'.extended sealed (lineRecord lib sealed).data, sealed, ?_, hsealed, htext,
      JsonlAuditLedger.sees_extended hl'⟩
    rw [hprepare, ledgerFile_snoc]
    dsimp only
    rw [JsonlAuditLedger.repaired_ledgerFile h.written]
  · intro hr
    rw [JsonlAuditLedger.prepare_of_not_hasJson hr]
    exact ⟨l', rfl, hl'⟩

variable {r : AuditRecord}

theorem Inv.append (h : Inv lib s) (hr : HasJson lib r → Exact lib r) :
    Inv lib (s.append lib r) := by
  obtain ⟨haccept, hrefuse⟩ := h.appends h.sees r
  unfold Session.append
  by_cases hjson : HasJson lib r
  · obtain ⟨l', sealed, happend, hsealed, htext, hl'⟩ := haccept hjson
    rw [happend]
    refine ⟨?_, JsonlAuditLedger.chained_snoc h.chained hsealed, rfl, hl'⟩
    intro x hx
    rcases List.mem_append.1 hx with hx | hx
    · exact h.written x hx
    · rw [List.mem_singleton.1 hx]
      exact ⟨htext, (hr hjson).sealed hsealed⟩
  · obtain ⟨l', happend, hl'⟩ := hrefuse hjson
    rw [happend]
    exact ⟨h.written, h.chained, h.file, hl'⟩

theorem Inv.accepted (h : Inv lib s) (hr : HasJson lib r) :
    ∃ sealed text, r.sealed lib s.returned.length (tailHashOf s.returned) = some sealed ∧
      sealed.lineText lib = some text ∧
      (s.append lib r).file = ledgerFile lib (s.returned ++ [sealed]) ∧
      (s.append lib r).returned = s.returned ++ [sealed] := by
  obtain ⟨l', sealed, happend, hsealed, ⟨text, htext⟩, -⟩ := (h.appends h.sees r).1 hr
  refine ⟨sealed, text, hsealed, htext, ?_, ?_⟩
  · unfold Session.append
    rw [happend]
  · unfold Session.append
    rw [happend]

theorem inv_run {records : List AuditRecord} (h : ∀ r ∈ records, HasJson lib r → Exact lib r) :
    Inv lib (run lib records) := by
  unfold run
  induction records using List.reverseRecOn with
  | nil => exact inv_initial
  | append_singleton records r ih =>
    rw [exec_append]
    exact (ih fun x hx => h x (List.mem_append_left _ hx)).append
      (h r (List.mem_append_right _ List.mem_cons_self))

theorem Inv.reopened (h : Inv lib s) :
    ∃ l, JsonlAuditLedger.reload lib s.file = .ok l ∧ Sees lib s.returned s.file.length l := by
  have hnone : s.returned ++ (none : Option AuditRecord).toList = s.returned := by
    rw [Option.toList_none, List.append_nil]
  obtain ⟨l, hreload, hl⟩ := JsonlAuditLedger.reload_of_chained s.returned none
    (by rw [hnone]; exact h.written) (by rw [hnone]; exact h.chained)
  rw [hnone] at hl
  rw [unendedLine, List.append_nil, ← h.file] at hreload hl
  exact ⟨l, hreload, hl⟩

end Steps

end Session

namespace AuditRecord

section Distinct

variable {lib : AuditLib} {r s : AuditRecord}

def stored (lib : AuditLib) (r : AuditRecord) : Option Value :=
  (r.lineText lib).bind (loads lib.floats)

def Apart (lib : AuditLib) (r s : AuditRecord) : Prop :=
  Set.InjOn (fun text => Sha256.hexdigest (Utf8.encode text))
    {text | r.blob lib = some text ∨ s.blob lib = some text}

theorem stored_eq_some {v : Value} (h : r.stored lib = some v) :
    ∃ es, r.blob lib =
      some (write lib.floats (compact Escape.ascii) 0 (.dict (Dict.ofList es).entries)) ∧
      ∀ k, v.get? k = if "record_hash" = k then some (.str r.recordHash)
        else (ordered (.dict es)).get? k := by
  obtain ⟨text, htext, hload⟩ := Option.bind_eq_some_iff.1 h
  have hjson : HasJson lib r := lineText_isSome.1 (Option.isSome_iff_exists.2 ⟨text, htext⟩)
  obtain ⟨w, hw⟩ := Option.isSome_iff_exists.1 (encode_keyed_isSome.2 (hjson.payload false))
  obtain ⟨es, hes, rfl⟩ := encode_keyed.1 hw
  refine ⟨es, ?_, ?_⟩
  · unfold blob dumps
    rw [encode_default _ _ hw]
    rfl
  · have hpayload : r.payload lib true =
        r.payload lib false ++ [("record_hash", .str r.recordHash)] := by
      unfold payload
      rw [if_neg Bool.false_ne_true, List.append_nil]
      rfl
    have hall : Encoded lib.floats false (r.payload lib true)
        (es ++ [("record_hash", .str r.recordHash)]) := by
      rw [hpayload]
      exact List.rel_append hes (.cons ⟨rfl, rfl⟩ .nil)
    rw [lineText_eq_some.2 ⟨_, hall, rfl⟩] at htext
    cases htext
    rw [loads_write_ordered, ordered_entries] at hload
    cases hload
    intro k
    rw [get?_ordered, get?_ordered, Dict.ofList_snoc, Dict.get_set]
    split_ifs <;> rfl

theorem stored_of_recordHash {v w : Value} (hapart : Apart lib r s)
    (hr : r.computeHash lib = some r.recordHash) (hs : s.computeHash lib = some s.recordHash)
    (hv : r.stored lib = some v) (hw : s.stored lib = some w) (hhash : r.recordHash = s.recordHash)
    (k : String) : v.get? k = w.get? k := by
  obtain ⟨es, hblob, hget⟩ := stored_eq_some hv
  obtain ⟨fs, hblob', hget'⟩ := stored_eq_some hw
  have hdigest : (r.blob lib).map (fun text => Sha256.hexdigest (Utf8.encode text)) =
      (s.blob lib).map (fun text => Sha256.hexdigest (Utf8.encode text)) :=
    hr.trans ((congrArg some hhash).trans hs.symm)
  rw [hblob, hblob', Option.map_some, Option.map_some] at hdigest
  have htext := hapart (.inl hblob) (.inr hblob') (Option.some.inj hdigest)
  have hvalue : ordered (.dict es) = ordered (.dict fs) := by
    have hload := loads_write_ordered lib.floats (compact Escape.ascii)
      (.dict (Dict.ofList es).entries)
    rw [htext, loads_write_ordered, ordered_entries, ordered_entries] at hload
    exact (Option.some.inj hload).symm
  rw [hget, hget', hvalue, hhash]

end Distinct

end AuditRecord

/-- A new instance on the file of any appends verifies, holds the hashes that were returned
and appends as the old one would; and different payloads have different hashes. -/
theorem reopened_ledger_law (lib : AuditLib) (records : List AuditRecord)
    (h : ∀ r ∈ records, HasJson lib r → Exact lib r) :
    (∃ l, JsonlAuditLedger.reload lib (Session.run lib records).file = .ok l ∧
      l.verifyChain lib = true ∧
      l.records.map AuditRecord.recordHash =
        (Session.run lib records).returned.map AuditRecord.recordHash ∧
      ∀ r, ((l.append lib (Session.run lib records).file r).1,
            (l.append lib (Session.run lib records).file r).2.2) =
          (((Session.run lib records).append lib r).file,
            ((Session.run lib records).ledger.append lib (Session.run lib records).file r).2.2) ∧
        (HasJson lib r → ∃ sealed,
          (l.append lib (Session.run lib records).file r).2.2 = .ok sealed)) ∧
    ∀ (a b a' b' : AuditRecord) (i j : ℤ) (g g' : String) (v w : Value),
      a.sealed lib i g = some a' → b.sealed lib j g' = some b' →
      a'.stored lib = some v → b'.stored lib = some w → Apart lib a' b' →
      (∃ k, v.get? k ≠ w.get? k) → a'.recordHash ≠ b'.recordHash := by
  constructor
  · have hinv := Session.inv_run h
    obtain ⟨l, hreload, hl⟩ := hinv.reopened
    refine ⟨l, hreload, ?_, hashes_alike hl.records, fun r => ?_⟩
    · exact verify_iff.2 (linked_alike hl.records hinv.chained)
    · obtain ⟨haccept, hrefuse⟩ := hinv.appends hl r
      obtain ⟨haccept', hrefuse'⟩ := hinv.appends hinv.sees r
      by_cases hr : HasJson lib r
      · obtain ⟨_, sealed, happend, hsealed, -⟩ := haccept hr
        obtain ⟨_, sealed', happend', hsealed', -⟩ := haccept' hr
        rw [hsealed] at hsealed'
        cases hsealed'
        unfold Session.append
        rw [happend, happend']
        exact ⟨rfl, fun _ => ⟨sealed, rfl⟩⟩
      · obtain ⟨_, happend, -⟩ := hrefuse hr
        obtain ⟨_, happend', -⟩ := hrefuse' hr
        unfold Session.append
        rw [happend, happend']
        exact ⟨rfl, fun hjson => absurd hjson hr⟩
  · rintro a b a' b' i j g g' v w ha hb hv hw hapart ⟨k, hne⟩ hhash
    exact hne (stored_of_recordHash hapart (sealed_eq_some ha).2 (sealed_eq_some hb).2
      hv hw hhash k)

def zeroText (q : ℚ) : List Char := if q = 0 then ['0', '.', '0'] else ratioText q

def zeroFloats : FloatText where
  text := zeroText
  parse := parseRatio
  parse_text q := by
    unfold zeroText
    split_ifs with h
    · rw [h]
      decide +kernel
    · exact parseRatio_ratioText q
  shape_text q := by
    unfold zeroText
    split_ifs
    · rfl
    · exact shape_ratioText q

def epochAuditLib : AuditLib where
  toStdlib := { epochStdlib with floats := zeroFloats }
  text p := match p with
    | .str s => s
    | .int z => String.ofList (intText z)
    | .bool true => "True"
    | .bool false => "False"
    | .nan => "nan"
    | .object repr => repr
    | _ => "None"
  text_str _ := rfl
  decodeReplace raw := String.ofList ((Utf8.decode raw).getD [])
  float v := match v with
    | .num q => .ok (.num q)
    | .nan => .ok .nan
    | .inf negative => .ok (.inf negative)
    | .int z => .ok (.num z)
    | .bool b => .ok (.num (if b then 1 else 0))
    | _ => .error "float() argument"
  float_num _ := rfl
  float_nan := rfl
  float_inf _ := rfl

def integerCost : AuditRecord where
  agentId := "analyst"
  role := "research"
  kind := .toolCall
  tool := "read_bars"
  inputs := []
  outputs := []
  reason := "check the spread"
  outcome := .ok
  prompt := ""
  parentActionId := none
  workflowId := none
  model := ""
  modelVersion := ""
  provider := ""
  promptTokens := .int 0
  completionTokens := .int 0
  costUsd := .int 0
  wallMs := .num 0
  error := ""
  capability := ""
  modelId := none
  modelDigest := none
  manifestHash := none
  actionId := "act_0"
  recordedAt := 0
  sequence := -1
  previousHash := genesisHash
  recordHash := ""

def floatCost : AuditRecord :=
  { integerCost with
    costUsd := .num 0
    inputs := [(.int 2, .sequence [.nan, .bytes [104, 105]]), (.str "10", .inf true)] }

theorem floatCost_exact : ∀ r ∈ [floatCost], HasJson epochAuditLib r → Exact epochAuditLib r := by
  intro r hr _
  rw [List.mem_singleton.1 hr]
  exact ⟨rfl, rfl, rfl, rfl, ⟨⟨trivial, trivial, trivial⟩, trivial, trivial⟩, trivial⟩

theorem reopened_ledger_law_floatCost :
    ∃ l, JsonlAuditLedger.reload epochAuditLib (Session.run epochAuditLib [floatCost]).file =
      .ok l ∧
      l.verifyChain epochAuditLib = true ∧
      l.records.map AuditRecord.recordHash =
        (Session.run epochAuditLib [floatCost]).returned.map AuditRecord.recordHash := by
  obtain ⟨⟨l, hreload, hverify, hhashes, -⟩, -⟩ :=
    reopened_ledger_law epochAuditLib [floatCost] floatCost_exact
  exact ⟨l, hreload, hverify, hhashes⟩

theorem integerCost_hash : ({ integerCost.staged 0 genesisHash with costUsd := .num 0 }).computeHash
    epochAuditLib ≠ (integerCost.staged 0 genesisHash).computeHash epochAuditLib := by
  decide +kernel

theorem parseLines_single {lib : AuditLib} {r s : AuditRecord} {text : List Char}
    (h : r.lineText lib = some text) (hs : readRecord lib (Utf8.encode text) = .ok s) :
    parseLines lib (ledgerFile lib [r]) = .ok [s] := by
  have hwhole : ∀ x ∈ [r].map (lineRecord lib), Whole lib.floats x.payload x.data := by
    intro x hx
    rw [List.mem_singleton.1 hx]
    exact (whole_lineRecord h).2
  have hcut := cut_contents hwhole (List.not_mem_nil (a := 10))
  rw [List.append_nil] at hcut
  have hblank : strip (Utf8.encode text) ≠ [] := by
    rw [strip_text (lineText_spec h).1]
    obtain ⟨body, rfl⟩ := (lineText_spec h).1
    exact List.cons_ne_nil _ _
  have hempty : strip ([] : Bytes) = [] := rfl
  unfold parseLines ledgerFile
  rw [hcut, List.map_map, List.map_singleton, List.singleton_append, Function.comp_apply,
    line_lineRecord h, parseFrom, if_neg hblank, strip_text (lineText_spec h).1, hs, parseFrom,
    if_pos hempty]
  rfl

/-- After one append of a record whose cost is the integer 0, a new instance finds the chain
broken. -/
theorem integer_cost_breaks_the_chain :
    ∃ l, JsonlAuditLedger.reload epochAuditLib (Session.run epochAuditLib [integerCost]).file =
      .ok l ∧
      (Session.run epochAuditLib [integerCost]).returned.length = 1 ∧
      l.verifyChain epochAuditLib = false := by
  have hjson : HasJson epochAuditLib integerCost := ⟨rfl, rfl⟩
  obtain ⟨sealed, text, hsealed, htext, hfile, hreturned⟩ := Session.inv_initial.accepted hjson
  have hone : Session.initial.returned ++ [sealed] = [sealed] := rfl
  rw [hone] at hfile hreturned
  obtain ⟨hash, hhash, rfl⟩ := Option.map_eq_some_iff.1 hsealed
  obtain ⟨stored, ins, outs, hload, -, hins, houts, hread⟩ :=
    fromPayload_coerced htext trivial trivial (epochAuditLib.int_int 0) (epochAuditLib.int_int 0)
      (rfl : epochAuditLib.float (.int 0) = .ok (.num 0)) (epochAuditLib.float_num 0)
  have hempty : encode epochAuditLib.floats false (canonical epochAuditLib (.mapping [])) =
      some (.dict []) := rfl
  cases hempty.symm.trans hins.1
  cases hempty.symm.trans houts.1
  have hrecord : readRecord epochAuditLib (Utf8.encode text) = .ok
      { integerCost.staged 0 genesisHash with costUsd := .num 0, recordHash := hash } := by
    unfold readRecord
    rw [Utf8.decode_encode, Option.bind_some, hload]
    exact hread
  have hrun : Session.run epochAuditLib [integerCost] =
      Session.initial.append epochAuditLib integerCost := by
    unfold Session.run
    rw [exec_cons, exec_nil]
  have hunverified : verify epochAuditLib
      [{ integerCost.staged 0 genesisHash with costUsd := .num 0, recordHash := hash }] =
        false := by
    have hplace : integerCost.staged (Session.initial.returned.length : ℤ)
        (tailHashOf Session.initial.returned) = integerCost.staged 0 genesisHash := rfl
    rw [hplace] at hhash
    unfold verify
    rw [verifyFrom, if_neg, if_pos]
    · intro hequal
      rw [← hhash] at hequal
      exact integerCost_hash ((computeHash_recordHash _ hash).symm.trans hequal)
    · rintro (hne | hne)
      · exact hne rfl
      · exact hne rfl
  have hreload : ∃ l, JsonlAuditLedger.reload epochAuditLib
      (Session.run epochAuditLib [integerCost]).file = .ok l ∧ l.records =
        [{ integerCost.staged 0 genesisHash with costUsd := .num 0, recordHash := hash }] := by
    rw [hrun, hfile]
    unfold JsonlAuditLedger.reload
    rw [parseLines_single htext hrecord]
    exact ⟨_, rfl, rfl⟩
  obtain ⟨l, hl, hrecords⟩ := hreload
  refine ⟨l, hl, ?_, ?_⟩
  · rw [hrun, hreturned]
    rfl
  · unfold JsonlAuditLedger.verifyChain
    rw [hrecords]
    exact hunverified

end Fiboki.Audit
