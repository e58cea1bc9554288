import Fiboki.Lib.Lines
import Fiboki.Lifecycle.Ladder

/-!
The log kept in a file, one JSON text a line, and what a reload finds in it.

A record survives unless one of its texts has a character that the reader takes for
the end of a line and the writer leaves as it is.
-/

namespace Fiboki

open Wire Text StrategyLifecycle Json

section Readers

variable (std : Stdlib)

def Actor.fromDict (raw : Value) : Except String Actor := do
  let kind ← memberValue std "ActorKind" ActorKind.members ActorKind.value (← raw.field "kind")
  Actor.make kind (std.str (← raw.field "name"))

def Evidence.fromDict (raw : Value) : Except String Evidence := do
  let kind ← memberValue std "EvidenceKind" EvidenceKind.members EvidenceKind.value
    (← raw.field "kind")
  let id := std.str (← raw.field "id")
  let summary := textOr std raw "summary" ""
  let detail ← raw.fieldOr "detail" Dict.empty (fun v => Dict.ofList <$> v.fields)
  Evidence.make kind id summary detail

def TransitionRecord.fromDict (raw : Value) : Except String TransitionRecord := do
  let sequence ← std.int (← raw.field "sequence")
  let recordedAt ← std.fromisoformat (std.str (← raw.field "at"))
  let strategyId := textOr std raw "strategy_id" ""
  let strategyContentHash := std.str (← raw.field "strategy_content_hash")
  let fromState ← memberValue std "StrategyLifecycle" StrategyLifecycle.members
    StrategyLifecycle.value (← raw.field "from_state")
  let toState ← memberValue std "StrategyLifecycle" StrategyLifecycle.members
    StrategyLifecycle.value (← raw.field "to_state")
  let kind ← memberValue std "TransitionKind" TransitionKind.members TransitionKind.value
    (← raw.field "kind")
  let actor ← Actor.fromDict std (← raw.field "actor")
  let automatic := truth (← raw.field "automatic")
  let reason := textOr std raw "reason" ""
  let evidence ← raw.fieldOr "evidence" [] (readList (Evidence.fromDict std))
  let previousHash := std.str (← raw.field "previous_hash")
  let recordHash := textOr std raw "record_hash" ""
  return ⟨sequence, recordedAt, strategyId, strategyContentHash, fromState, toState, kind, actor,
    automatic, reason, evidence, previousHash, recordHash⟩

/-- The characters at which `str.splitlines` ends a line; the reader has already turned
every carriage return into a line feed. -/
def isLineBreak (c : Char) : Bool :=
  let n := c.toNat
  (10 ≤ n && n ≤ 13) || (0x1C ≤ n && n ≤ 0x1E) || n == 0x85 || n == 0x2028 || n == 0x2029

def universalNewlines : List Char → List Char
  | '\r' :: '\n' :: rest => '\n' :: universalNewlines rest
  | '\r' :: rest => '\n' :: universalNewlines rest
  | c :: rest => c :: universalNewlines rest
  | [] => []

def splitlines (text : List Char) : List (List Char) := Lines.split isLineBreak text

def readLine (line : List Char) : Except LifecycleError TransitionRecord :=
  match loads std.floats line with
  | none => .error (.valueError "a line of the log is not JSON")
  | some v => (TransitionRecord.fromDict std v).mapError .valueError

def readLines : List (List Char) → Except LifecycleError (List TransitionRecord)
  | [] => .ok []
  | line :: rest =>
    if line.all isSpace then readLines rest
    else do return (← readLine std line) :: (← readLines rest)

/-- `FileTransitionLog`: the text of its file. -/
def fileTransitionLog : TransitionLog (List Char) where
  records text := readLines std (splitlines (universalNewlines text))
  append text record := text ++ (record.toJson std ++ ['\n'])

def TransitionLog.verify {L : Type} (store : TransitionLog L) (log : L) :
    Except LifecycleError ChainVerification := do
  return verifyRows std (← store.records log)

end Readers

section RoundTrip

variable (std : Stdlib)

theorem memberValue_lifecycle (s : StrategyLifecycle) :
    memberValue std "StrategyLifecycle" StrategyLifecycle.members StrategyLifecycle.value
      (.str s.value) = .ok s := by
  cases s <;> rfl

theorem memberValue_transitionKind (k : TransitionKind) :
    memberValue std "TransitionKind" TransitionKind.members TransitionKind.value
      (.str k.value) = .ok k := by
  cases k <;> rfl

theorem memberValue_actorKind (k : ActorKind) :
    memberValue std "ActorKind" ActorKind.members ActorKind.value (.str k.value) = .ok k := by
  cases k <;> rfl

theorem memberValue_evidenceKind (k : EvidenceKind) :
    memberValue std "EvidenceKind" EvidenceKind.members EvidenceKind.value
      (.str k.value) = .ok k := by
  cases k <;> rfl

variable (a : Actor)

theorem Actor.make_self : Actor.make a.kind a.name = .ok a := by
  unfold Actor.make
  rw [dif_pos a.named, dif_pos a.ruleNamed]

theorem Evidence.make_self (e : Evidence) : Evidence.make e.kind e.id e.summary
    e.detail = .ok e := by
  unfold Evidence.make
  rw [dif_pos e.named]

theorem Actor.fromDict_toDict : Actor.fromDict std (canonicalise a.toDict) = .ok a := by
  have hkeys : ([("kind", Value.str a.kind.value), ("name", .str a.name)].map Prod.fst).Nodup := by
    show ["kind", "name"].Nodup
    decide
  unfold Actor.fromDict Actor.toDict
  rw [field_canonicalise hkeys (k := "kind") (v := .str a.kind.value) (by simp),
    field_canonicalise hkeys (k := "name") (v := .str a.name) (by simp)]
  simp only [canonicalise, ok_bind, memberValue_actorKind, std.str_text]
  exact a.make_self

theorem Evidence.fromDict_toDict {e : Evidence} (h : Canonical (.dict e.detail.entries)) :
    Evidence.fromDict std (canonicalise e.toDict) = .ok e := by
  have hkeys : ([("kind", Value.str e.kind.value), ("id", .str e.id), ("summary", .str e.summary),
      ("detail", canonicalise (.dict e.detail.entries))].map Prod.fst).Nodup := by
    show ["kind", "id", "summary", "detail"].Nodup
    decide
  unfold Evidence.fromDict Evidence.toDict textOr Value.fieldOr
  rw [field_canonicalise hkeys (k := "kind") (v := .str e.kind.value) (by simp),
    field_canonicalise hkeys (k := "id") (v := .str e.id) (by simp),
    get?_canonicalise_of_mem hkeys (k := "summary") (v := .str e.summary) (by simp),
    get?_canonicalise_of_mem hkeys (k := "detail") (v := canonicalise (.dict e.detail.entries))
      (by simp)]
  rw [canonicalise_of_canonical h, canonicalise_of_canonical h]
  simp only [canonicalise, ok_bind, memberValue_evidenceKind, std.str_text, Value.fields, ok_map,
    Dict.ofList_entries]
  exact e.make_self

theorem readList_evidence {xs : List Evidence} (h : ∀ e ∈ xs, Canonical (.dict e.detail.entries)) :
    readList (Evidence.fromDict std) (canonicalise (.list (xs.map Evidence.toDict))) = .ok xs := by
  have hlist : canonicalise (.list (xs.map Evidence.toDict)) =
      writeList (fun e => canonicalise (Evidence.toDict e)) xs := by
    rw [canonicalise, canonicaliseItems_eq_map, List.map_map]
    rfl
  rw [hlist]
  exact readList_writeList _ _ fun e he => Evidence.fromDict_toDict std (h e he)

namespace TransitionRecord

/-- The entries of `toDict`. -/
def entries (r : TransitionRecord) : List (String × Value) :=
  r.payload std ++ [("record_hash", .str r.recordHash)]

variable (r : TransitionRecord)

theorem nodup_entries : ((r.entries std).map Prod.fst).Nodup := by
  show ["sequence", "at", "strategy_id", "strategy_content_hash", "from_state", "to_state", "kind",
    "actor", "automatic", "reason", "evidence", "previous_hash", "record_hash"].Nodup
  decide

theorem ascii_keys : ∀ k ∈ (r.entries std).map Prod.fst, ∀ c ∈ k.toList, c.toNat < 128 := by
  have hkeys : ∀ k ∈ ["sequence", "at", "strategy_id", "strategy_content_hash", "from_state",
      "to_state", "kind", "actor", "automatic", "reason", "evidence", "previous_hash",
      "record_hash"], Text.isAscii k = true := by decide
  intro k hk
  exact Text.lt_of_isAscii (hkeys k hk)

def Representable (r : TransitionRecord) : Prop :=
  ∀ e ∈ r.evidence, Canonical (.dict e.detail.entries)

theorem fromDict_toDict {r : TransitionRecord} (h : r.Representable) :
    fromDict std (canonicalise (r.toDict std)) = .ok r := by
  have hfield : ∀ {k : String} {v : Value}, (k, v) ∈ r.entries std →
      (canonicalise (r.toDict std)).field k = .ok (canonicalise v) :=
    fun hmem => field_canonicalise (r.nodup_entries std) hmem
  have hget : ∀ {k : String} {v : Value}, (k, v) ∈ r.entries std →
      (canonicalise (r.toDict std)).get? k = some (canonicalise v) :=
    fun hmem => get?_canonicalise_of_mem (r.nodup_entries std) hmem
  unfold fromDict textOr Value.fieldOr
  rw [hfield (k := "sequence") (v := .int r.sequence) (by simp [entries, payload]),
    hfield (k := "at") (v := .str (std.isoformat r.recordedAt)) (by simp [entries, payload]),
    hget (k := "strategy_id") (v := .str r.strategyId) (by simp [entries, payload]),
    hfield (k := "strategy_content_hash") (v := .str r.strategyContentHash)
      (by simp [entries, payload]),
    hfield (k := "from_state") (v := .str r.fromState.value) (by simp [entries, payload]),
    hfield (k := "to_state") (v := .str r.toState.value) (by simp [entries, payload]),
    hfield (k := "kind") (v := .str r.kind.value) (by simp [entries, payload]),
    hfield (k := "actor") (v := r.actor.toDict) (by simp [entries, payload]),
    hfield (k := "automatic") (v := .bool r.automatic) (by simp [entries, payload]),
    hget (k := "reason") (v := .str r.reason) (by simp [entries, payload]),
    hget (k := "evidence") (v := .list (r.evidence.map Evidence.toDict))
      (by simp [entries, payload]),
    hfield (k := "previous_hash") (v := .str r.previousHash) (by simp [entries, payload]),
    hget (k := "record_hash") (v := .str r.recordHash) (by simp [entries, payload])]
  simp only [readList_evidence std h]
  simp only [canonicalise, ok_bind, std.int_int, std.str_text, std.fromisoformat_isoformat,
    memberValue_lifecycle, memberValue_transitionKind, truth]
  rw [Actor.fromDict_toDict]
  rfl

def Carried (r : TransitionRecord) (c : Char) : Prop :=
  c ∈ r.strategyId.toList ∨ c ∈ r.strategyContentHash.toList ∨ c ∈ r.actor.name.toList ∨
    c ∈ r.reason.toList ∨
    (∃ e ∈ r.evidence, c ∈ e.id.toList ∨ c ∈ e.summary.toList ∨
      Carries (.dict e.detail.entries) c) ∨
    c ∈ r.previousHash.toList ∨ c ∈ r.recordHash.toList

end TransitionRecord

section Characters

variable {c : Char} (hc : 128 ≤ c.toNat)
include hc

theorem notMem_of_ascii {s : String} (h : ∀ d ∈ s.toList, d.toNat < 128) : c ∉ s.toList := by
  intro hmem
  have := h c hmem
  omega

theorem notMem_lifecycle (s : StrategyLifecycle) : c ∉ s.value.toList :=
  notMem_of_ascii hc (Text.lt_of_isAscii (by cases s <;> decide))

theorem notMem_transitionKind (k : TransitionKind) : c ∉ k.value.toList :=
  notMem_of_ascii hc (Text.lt_of_isAscii (by cases k <;> decide))

theorem notMem_actorKind (k : ActorKind) : c ∉ k.value.toList :=
  notMem_of_ascii hc (Text.lt_of_isAscii (by cases k <;> decide))

theorem notMem_evidenceKind (k : EvidenceKind) : c ∉ k.value.toList :=
  notMem_of_ascii hc (Text.lt_of_isAscii (by cases k <;> decide))

theorem carries_actor (a : Actor) : Carries (canonicalise a.toDict) c ↔ c ∈ a.name.toList := by
  have hkind := notMem_actorKind hc a.kind
  unfold Actor.toDict
  have hkeys : ∀ k ∈ ["kind", "name"], Text.isAscii k = true := by decide
  rw [carries_canonicalise_ascii ["kind", "name"] rfl (by decide)
    (fun k hk => Text.lt_of_isAscii (hkeys k hk)) hc]
  simp only [List.exists_mem_cons_iff, canonicalise, carries_str, hkind, false_or]
  simp

theorem carries_evidence {e : Evidence} (h : Canonical (.dict e.detail.entries)) :
    Carries (canonicalise e.toDict) c ↔
      c ∈ e.id.toList ∨ c ∈ e.summary.toList ∨ Carries (.dict e.detail.entries) c := by
  have hkind := notMem_evidenceKind hc e.kind
  unfold Evidence.toDict
  have hkeys : ∀ k ∈ ["kind", "id", "summary", "detail"], Text.isAscii k = true := by decide
  rw [carries_canonicalise_ascii ["kind", "id", "summary", "detail"] rfl (by decide)
    (fun k hk => Text.lt_of_isAscii (hkeys k hk)) hc]
  simp only [List.exists_mem_cons_iff, canonicalise_of_canonical h]
  simp only [canonicalise, carries_str, hkind, false_or]
  simp

theorem mem_toJson_iff (std : Stdlib) {r : TransitionRecord} (h : r.Representable) :
    c ∈ r.toJson std ↔ r.Carried c := by
  have hat := notMem_of_ascii hc (std.isoformat_ascii r.recordedAt)
  have hfrom := notMem_lifecycle hc r.fromState
  have hto := notMem_lifecycle hc r.toState
  have hkind := notMem_transitionKind hc r.kind
  have hevidence : Carries (canonicalise (.list (r.evidence.map Evidence.toDict))) c ↔
      ∃ e ∈ r.evidence, c ∈ e.id.toList ∨ c ∈ e.summary.toList ∨
        Carries (.dict e.detail.entries) c := by
    rw [canonicalise, canonicaliseItems_eq_map, carries_list, List.map_map]
    simp only [List.mem_map, exists_exists_and_eq_and, Function.comp_apply]
    exact exists_congr fun e => and_congr_right fun he => carries_evidence hc (h e he)
  have hvalues : c ∈ r.toJson std ↔ ∃ e ∈ r.entries std, Carries (canonicalise e.2) c := by
    refine ((holds_render std.floats (canonicalise (r.toDict std))).2 c hc).trans ?_
    exact carries_canonicalise_ascii _ rfl (r.nodup_entries std) (r.ascii_keys std) hc
  rw [hvalues]
  unfold TransitionRecord.entries TransitionRecord.payload TransitionRecord.Carried
  simp only [List.mem_append, List.mem_cons, List.not_mem_nil, or_false, or_and_right, exists_or,
    exists_eq_left, hevidence, carries_actor hc]
  have hint : ¬ Carries (.int r.sequence) c := by simp [Carries, strings]
  have hbool : ¬ Carries (.bool r.automatic) c := by simp [Carries, strings]
  simp only [canonicalise, carries_str, hat, hfrom, hto, hkind, hint, hbool, false_or, or_assoc]

end Characters

end RoundTrip

def isSeparator (c : Char) : Bool :=
  let n := c.toNat
  n == 0x85 || n == 0x2028 || n == 0x2029

def TransitionRecord.Unbroken (r : TransitionRecord) : Prop :=
  ∀ c, isSeparator c = true → ¬ r.Carried c

section File

variable (std : Stdlib)

def fileText (rows : List TransitionRecord) : List Char :=
  rows.flatMap fun r => r.toJson std ++ ['\n']

variable {c : Char}

theorem isSeparator_big (h : isSeparator c = true) : 128 ≤ c.toNat := by
  simp only [isSeparator, Bool.or_eq_true, beq_iff_eq] at h
  omega

theorem isLineBreak_of_isSeparator (h : isSeparator c = true) : isLineBreak c = true := by
  simp only [isSeparator, Bool.or_eq_true, beq_iff_eq] at h
  simp only [isLineBreak, Bool.or_eq_true, Bool.and_eq_true, decide_eq_true_eq, beq_iff_eq]
  omega

theorem isSeparator_of_isLineBreak (h : isLineBreak c = true) (hc : 32 ≤ c.toNat) :
    isSeparator c = true := by
  simp only [isLineBreak, Bool.or_eq_true, Bool.and_eq_true, decide_eq_true_eq, beq_iff_eq] at h
  simp only [isSeparator, Bool.or_eq_true, beq_iff_eq]
  omega

theorem universalNewlines_self {text : List Char} (h : '\r' ∉ text) :
    universalNewlines text = text := by
  induction text with
  | nil => rfl
  | cons c rest ih =>
    rw [List.mem_cons, not_or] at h
    have hc : c ≠ '\r' := fun hc => h.1 hc.symm
    rw [universalNewlines, ih h.2]
    · intro rest' heq
      exact absurd heq hc
    · intro heq
      exact absurd heq hc

namespace TransitionRecord

variable (r : TransitionRecord)

theorem printable_toJson : ∀ c ∈ r.toJson std, 32 ≤ c.toNat :=
  (holds_render std.floats (canonicalise (r.toDict std))).1

theorem toJson_eq : ∃ es, Sorted (.dict es) ∧ canonicalise (r.toDict std) = .dict es ∧
    r.toJson std = render std.floats (.dict es) := by
  have hsorted := sorted_of_canonical (canonical_canonicalise (r.toDict std))
  exact ⟨_, hsorted, rfl, rfl⟩

theorem toJson_head : ∃ rest, r.toJson std = '{' :: rest := by
  obtain ⟨es, -, -, hjson⟩ := r.toJson_eq std
  exact ⟨_, hjson⟩

variable {r}

theorem unbroken_toJson (hrep : r.Representable) (h : r.Unbroken) :
    ∀ c ∈ r.toJson std, isLineBreak c = false := by
  intro c hc
  by_contra hbreak
  have hsep := isSeparator_of_isLineBreak (Bool.eq_true_of_not_eq_false hbreak)
    (r.printable_toJson std c hc)
  exact h c hsep ((mem_toJson_iff (isSeparator_big hsep) std hrep).1 hc)

theorem broken_toJson (hrep : r.Representable) (h : ¬ r.Unbroken) :
    ∃ c ∈ r.toJson std, isLineBreak c = true := by
  unfold Unbroken at h
  push Not at h
  obtain ⟨c, hsep, hcarried⟩ := h
  exact ⟨c, (mem_toJson_iff (isSeparator_big hsep) std hrep).2 hcarried,
    isLineBreak_of_isSeparator hsep⟩

theorem readLine_toJson (hrep : r.Representable) : readLine std (r.toJson std) = .ok r := by
  have hload := loads_canonicalText std.floats (r.toDict std)
  unfold readLine toJson
  rw [hload]
  dsimp only
  rw [fromDict_toDict std hrep]
  rfl

end TransitionRecord

theorem printable_fileText (rows : List TransitionRecord) : '\r' ∉ fileText std rows := by
  intro h
  obtain ⟨r, -, hr⟩ := List.mem_flatMap.1 h
  rcases List.mem_append.1 hr with hr | hr
  · have := r.printable_toJson std _ hr
    exact absurd this (by decide)
  · cases List.mem_singleton.1 hr

theorem not_blank_line {rest : List Char} (h : isSpace c = false) :
    ¬ (c :: rest).all isSpace = true := by
  rw [List.all_cons, h, Bool.false_and]
  exact Bool.false_ne_true

theorem fileText_cons (r : TransitionRecord) (rows : List TransitionRecord) :
    fileText std (r :: rows) = r.toJson std ++ '\n' :: fileText std rows := by
  unfold fileText
  rw [List.flatMap_cons, List.append_assoc]
  rfl

variable {rows : List TransitionRecord}

theorem readLines_fileText (hrep : ∀ r ∈ rows, r.Representable)
    (h : ∀ r ∈ rows, r.Unbroken) : readLines std (splitlines (fileText std rows)) = .ok rows := by
  induction rows with
  | nil => rfl
  | cons r rows ih =>
    have hr := hrep r List.mem_cons_self
    have hline := r.unbroken_toJson std hr (h r List.mem_cons_self)
    obtain ⟨rest, hhead⟩ := r.toJson_head std
    have hrows := ih (fun a ha => hrep a (List.mem_cons_of_mem _ ha))
      (fun a ha => h a (List.mem_cons_of_mem _ ha))
    unfold splitlines at hrows ⊢
    rw [fileText_cons, Lines.split_line hline (by decide), readLines,
      if_neg (by rw [hhead]; exact not_blank_line (by decide)), r.readLine_toJson std hr, hrows]
    rfl

theorem readLines_broken (hrep : ∀ r ∈ rows, r.Representable) (h : ∃ r ∈ rows, ¬ r.Unbroken) :
    ∃ e, readLines std (splitlines (fileText std rows)) = .error e := by
  induction rows with
  | nil =>
    obtain ⟨r, hr, -⟩ := h
    cases hr
  | cons r rows ih =>
    have hr := hrep r List.mem_cons_self
    obtain ⟨rest, hhead⟩ := r.toJson_head std
    by_cases hunbroken : r.Unbroken
    · have hline := r.unbroken_toJson std hr hunbroken
      obtain ⟨a, ha, hbroken⟩ := h
      rcases List.mem_cons.1 ha with rfl | ha
      · exact absurd hunbroken hbroken
      obtain ⟨e, he⟩ := ih (fun a ha => hrep a (List.mem_cons_of_mem _ ha)) ⟨a, ha, hbroken⟩
      refine ⟨e, ?_⟩
      unfold splitlines at he ⊢
      rw [fileText_cons, Lines.split_line hline (by decide), readLines,
        if_neg (by rw [hhead]; exact not_blank_line (by decide)), r.readLine_toJson std hr, he]
      rfl
    · obtain ⟨p, b, q, hcut, hp, hb⟩ := Lines.exists_first (r.broken_toJson std hr hunbroken)
      -- What is left of the line before its first separator is a proper prefix.
      obtain ⟨es, -, -, hjson⟩ := r.toJson_eq std
      have hnone : loads std.floats p = none :=
        loads_prefix std.floats (hjson.symm.trans hcut) (by simp)
      have hfirst : ∃ p', p = '{' :: p' := by
        cases p with
        | nil =>
          rw [hhead, List.nil_append, List.cons.injEq] at hcut
          rw [← hcut.1] at hb
          exact absurd hb (by decide)
        | cons c p' =>
          rw [hhead, List.cons_append, List.cons.injEq] at hcut
          exact ⟨p', by rw [hcut.1]⟩
      obtain ⟨p', rfl⟩ := hfirst
      refine ⟨.valueError "a line of the log is not JSON", ?_⟩
      have hrest : ('{' :: p' ++ b :: q) ++ '\n' :: fileText std rows =
          '{' :: p' ++ b :: (q ++ '\n' :: fileText std rows) := by
        rw [List.append_assoc]
        rfl
      unfold splitlines
      rw [fileText_cons, hcut, hrest, Lines.split_line hp hb, readLines,
        if_neg (not_blank_line (by decide))]
      unfold readLine
      rw [hnone]
      rfl

theorem records_fileText (hrep : ∀ r ∈ rows, r.Representable) (h : ∀ r ∈ rows, r.Unbroken) :
    (fileTransitionLog std).records (fileText std rows) = .ok rows := by
  show readLines std (splitlines (universalNewlines (fileText std rows))) = .ok rows
  rw [universalNewlines_self (printable_fileText std rows)]
  exact readLines_fileText std hrep h

theorem records_broken (hrep : ∀ r ∈ rows, r.Representable) (h : ∃ r ∈ rows, ¬ r.Unbroken) :
    ∃ e, (fileTransitionLog std).records (fileText std rows) = .error e := by
  show ∃ e, readLines std (splitlines (universalNewlines (fileText std rows))) = .error e
  rw [universalNewlines_self (printable_fileText std rows)]
  exact readLines_broken std hrep h

end File

end Fiboki
