import Fiboki.Lifecycle.Log

/-!
What a reopened file log and a machine built on it find after a run, against the
records that the run wrote.
-/

namespace Fiboki

open Wire Text StrategyLifecycle Json Runs LifecycleStateMachine

section Chain

variable (std : Stdlib)

/-- The hash the next record commits to, after `rows` that follow `previous`. -/
def lastHash (previous : String) (rows : List TransitionRecord) : String :=
  match rows.getLast? with
  | some row => row.recordHash
  | none => previous

variable {rows : List TransitionRecord}

variable {r : TransitionRecord} {previous : String}

theorem firstBreak_snoc {i : ℕ}
    (h : firstBreak std i previous rows = none)
    (hseq : r.sequence = ((i + rows.length : ℕ) : ℤ))
    (hprev : r.previousHash = lastHash previous rows) (hhash : r.recomputeHash std = r.recordHash) :
    firstBreak std i previous (rows ++ [r]) = none := by
  induction rows generalizing i previous with
  | nil =>
    have hzero : r.sequence = (i : ℤ) := hseq
    have hfirst : r.previousHash = previous := hprev
    rw [List.nil_append, firstBreak, if_neg (not_not.2 hzero), if_neg (not_not.2 hfirst),
      if_neg (not_not.2 hhash)]
    rfl
  | cons a rows ih =>
    rw [firstBreak] at h
    rw [List.cons_append, firstBreak]
    split_ifs at h with h1 h2 h3
    rw [if_neg h1, if_neg h2, if_neg h3]
    apply ih h
    · rw [hseq, List.length_cons]
      omega
    · rw [hprev]
      unfold lastHash
      cases rows with
      | nil => rfl
      | cons b rows => rw [List.getLast?_cons_cons,
          List.getLast?_eq_some_getLast (List.cons_ne_nil _ _)]

theorem ascii_recordHash {i : ℕ} (h : firstBreak std i previous rows = none)
    (hr : r ∈ rows) : ∀ c ∈ r.recordHash.toList, c.toNat < 128 := by
  induction rows generalizing i previous with
  | nil => cases hr
  | cons a rows ih =>
    rw [firstBreak] at h
    split_ifs at h with h1 h2 h3
    rcases List.mem_cons.1 hr with rfl | hr
    · rw [← not_not.1 h3]
      exact fun c hc => Sha256.ascii_hexdigest hc
    · exact ih h hr

theorem ascii_headHash
    (h : firstBreak std 0 genesisHash rows = none) : ∀ c ∈ (headHash rows).toList,
      c.toNat < 128 := by
  unfold headHash
  cases hlast : rows.getLast? with
  | none =>
    show ∀ c ∈ genesisHash.toList, c.toNat < 128
    unfold genesisHash
    rw [String.toList_ofList]
    intro c hc
    rw [(List.mem_replicate.1 hc).2]
    decide
  | some r => exact ascii_recordHash std h (List.mem_of_getLast? hlast)

end Chain

namespace LifecycleCall

def evidence : LifecycleCall → List Evidence
  | register _ _ _ _ evidence _ => evidence
  | transition _ _ _ _ evidence _ => evidence

def reason : LifecycleCall → String
  | register _ _ _ reason _ _ => reason
  | transition _ _ _ reason _ _ => reason

def strategyId? : LifecycleCall → Option String
  | register id _ _ _ _ _ => some id
  | transition _ _ _ _ _ _ => none

def Carried (call : LifecycleCall) (c : Char) : Prop :=
  (∃ id ∈ call.strategyId?, c ∈ id.toList) ∨ c ∈ call.hash.toList ∨ c ∈ call.actor.name.toList ∨
    c ∈ call.reason.toList ∨
    ∃ e ∈ call.evidence, c ∈ e.id.toList ∨ c ∈ e.summary.toList ∨ Carries (.dict e.detail.entries) c

def Unbroken (call : LifecycleCall) : Prop := ∀ c, isSeparator c = true → ¬ call.Carried c

def Representable (call : LifecycleCall) : Prop :=
  ∀ e ∈ call.evidence, Canonical (.dict e.detail.entries)

end LifecycleCall

section Run

variable (std : Stdlib)

/-- What the file, the rows written to it and the machine's records have to do with one
another. -/
structure Kept (m : LifecycleStateMachine (List Char)) (rows : List TransitionRecord) : Prop where
  log : m.log = fileText std rows
  representable : ∀ r ∈ rows, r.Representable
  chain : firstBreak std 0 genesisHash rows = none
  replayed : rows.foldlM replayRow Dict.empty = .ok m.records
  origin : ∀ hash s, m.records.get hash = some s → ∃ r ∈ rows, r.strategyId = s.strategyId

variable {std} {m : LifecycleStateMachine (List Char)} {rows : List TransitionRecord}

theorem replayRow_known {records : Dict String StrategyRecord} {row : TransitionRecord}
    {current : StrategyRecord} (hkind : row.kind ≠ .registration)
    (hget : records.get row.strategyContentHash = some current) :
    replayRow records row = .ok (records.set row.strategyContentHash (current.applied row)) := by
  unfold replayRow
  rw [if_neg hkind, hget]

variable (std) in
theorem kept_fresh : Kept std ⟨[], .empty⟩ [] where
  log := rfl
  representable r hr := by cases hr
  chain := rfl
  replayed := rfl
  origin hash s hget := by cases hget

theorem Kept.read (h : Kept std m rows) {found : List TransitionRecord}
    (hread : (fileTransitionLog std).records m.log = .ok found) :
    found = rows ∧ ∀ r ∈ rows, r.Unbroken := by
  rw [h.log] at hread
  by_cases hall : ∀ r ∈ rows, r.Unbroken
  · rw [records_fileText std h.representable hall] at hread
    exact ⟨(Except.ok.inj hread).symm, hall⟩
  · push Not at hall
    obtain ⟨e, he⟩ := records_broken std h.representable hall
    rw [he] at hread
    cases hread

variable {record : TransitionRecord} {s' : StrategyRecord}

theorem Kept.append (h : Kept std m rows) {hash : String} (hrep : record.Representable)
    (hseq : record.sequence = rows.length)
    (hprev : record.previousHash = headHash rows)
    (hhash : record.recomputeHash std = record.recordHash)
    (hreplay : replayRow m.records record = .ok (m.records.set hash s'))
    (hid : ∃ r ∈ rows ++ [record], r.strategyId = s'.strategyId) :
    Kept std ⟨m.log ++ (record.toJson std ++ ['\n']), m.records.set hash s'⟩
      (rows ++ [record]) := by
  refine ⟨?_, ?_, ?_, ?_, ?_⟩
  · rw [h.log]
    unfold fileText
    rw [List.flatMap_append, List.flatMap_singleton]
  · intro r hr
    rcases List.mem_append.1 hr with hr | hr
    · exact h.representable r hr
    · obtain rfl := List.mem_singleton.1 hr
      exact hrep
  · exact firstBreak_snoc std h.chain (by rw [hseq, Nat.zero_add]) hprev hhash
  · rw [List.foldlM_append, h.replayed]
    simp only [ok_bind, List.foldlM_cons, List.foldlM_nil, hreplay]
    rfl
  · intro k s hget
    rw [Dict.get_set] at hget
    split_ifs at hget
    · obtain rfl := Option.some.inj hget
      exact hid
    · obtain ⟨r, hr, hr'⟩ := h.origin k s hget
      exact ⟨r, List.mem_append_left _ hr, hr'⟩

theorem representable_note (hash reason : String) :
    Canonical (.dict (registrationNote hash reason).detail.entries) :=
  ⟨List.Pairwise.nil, trivial⟩

theorem Kept.accepted (h : Kept std m rows) {c : LifecycleCall} (hrep : c.Representable)
    (hacc : Accepted std (fileTransitionLog std) m c record s') :
    Kept std ⟨m.log ++ (record.toJson std ++ ['\n']), m.records.set c.hash s'⟩
      (rows ++ [record]) := by
  cases hacc with
  | @registered id hash actor reason evidence now found hread habsent =>
    obtain ⟨rfl, -⟩ := h.read hread
    refine h.append ?_ rfl rfl rfl (if_pos rfl)
      ⟨_, List.mem_append_right _ (List.mem_singleton_self _), rfl⟩
    intro e he
    change e ∈ (if evidence = [] then [registrationNote hash reason] else evidence) at he
    split_ifs at he
    · obtain rfl := List.mem_singleton.1 he
      exact representable_note hash reason
    · exact hrep e he
  | @moved hash toState actor reason evidence now found current e hread hknown hallowed =>
    obtain ⟨rfl, -⟩ := h.read hread
    have hkind := (edgeLaw hallowed.isEdge).requested
    refine h.append hrep rfl rfl rfl ?_ ⟨_, List.mem_append_right _ (List.mem_singleton_self _), ?_⟩
    · exact replayRow_known hkind hknown
    · rw [applied_eq _ _ hkind]
      rfl

theorem mem_short {c : Char} {s : String} (h : c ∈ (short s).toList) : c ∈ s.toList := by
  unfold short at h
  rw [String.toList_ofList] at h
  exact List.mem_of_mem_take h

theorem carried_note {c : Char} (hc : 128 ≤ c.toNat) {hash reason : String}
    (h : ∃ e ∈ [registrationNote hash reason], c ∈ e.id.toList ∨ c ∈ e.summary.toList ∨
      Carries (.dict e.detail.entries) c) : c ∈ hash.toList ∨ c ∈ reason.toList := by
  obtain ⟨e, he, h⟩ := h
  obtain rfl := List.mem_singleton.1 he
  rcases h with hid | hsummary | hdetail
  · change c ∈ ("registration:" ++ short hash).toList at hid
    rw [String.toList_append, List.mem_append] at hid
    rcases hid with hid | hid
    · exact absurd hid (notMem_of_ascii hc (Text.lt_of_isAscii (by decide)))
    · exact .inl (mem_short hid)
  · exact .inr hsummary
  · obtain ⟨s, hs, -⟩ := hdetail
    cases hs

/-- The separators of an accepted call are those of its record: hashes have none, and
the id of an earlier row has none. -/
theorem Kept.unbroken_iff (h : Kept std m rows) {call : LifecycleCall}
    (hacc : Accepted std (fileTransitionLog std) m call record s') :
    record.Unbroken ↔ call.Unbroken := by
  have hprevious {c : Char} (hc : isSeparator c = true) : c ∉ (headHash rows).toList :=
    notMem_of_ascii (isSeparator_big hc) (ascii_headHash std h.chain)
  have hown {c : Char} (hc : isSeparator c = true) {text : List UInt8} :
      c ∉ (Sha256.hexdigest text).toList :=
    notMem_of_ascii (isSeparator_big hc) fun d hd => Sha256.ascii_hexdigest hd
  refine forall_congr' fun c => forall_congr' fun hc => not_congr ?_
  cases hacc with
  | @registered id hash actor reason evidence now found hread habsent =>
    obtain ⟨rfl, -⟩ := h.read hread
    unfold TransitionRecord.Carried LifecycleCall.Carried
    constructor
    · rintro (hid | hhash | hname | hreason | hevidence | hprev | hrecord)
      · exact .inl ⟨id, rfl, hid⟩
      · exact .inr (.inl hhash)
      · exact .inr (.inr (.inl hname))
      · exact .inr (.inr (.inr (.inl hreason)))
      · change ∃ e ∈ (if evidence = [] then [registrationNote hash reason] else evidence), _
          at hevidence
        split_ifs at hevidence
        · rcases carried_note (isSeparator_big hc) hevidence with hhash | hreason
          · exact .inr (.inl hhash)
          · exact .inr (.inr (.inr (.inl hreason)))
        · exact .inr (.inr (.inr (.inr hevidence)))
      · exact absurd hprev (hprevious hc)
      · exact absurd hrecord (hown hc)
    · rintro (⟨id', hid', hid⟩ | hhash | hname | hreason | hevidence)
      · obtain rfl := Option.some.inj hid'
        exact .inl hid
      · exact .inr (.inl hhash)
      · exact .inr (.inr (.inl hname))
      · exact .inr (.inr (.inr (.inl hreason)))
      · refine .inr (.inr (.inr (.inr (.inl ?_))))
        change ∃ e ∈ (if evidence = [] then [registrationNote hash reason] else evidence), _
        split_ifs with hnil
        · obtain ⟨e, he, -⟩ := hevidence
          change e ∈ evidence at he
          rw [hnil] at he
          cases he
        · exact hevidence
  | @moved hash toState actor reason evidence now found current e hread hknown hallowed =>
    obtain ⟨rfl, hunbroken⟩ := h.read hread
    obtain ⟨row, hrow, hid⟩ := h.origin hash current hknown
    have hcurrent : c ∉ current.strategyId.toList := by
      intro hmem
      exact hunbroken row hrow c hc (.inl (hid ▸ hmem))
    unfold TransitionRecord.Carried LifecycleCall.Carried
    constructor
    · rintro (hmem | hhash | hname | hreason | hevidence | hprev | hrecord)
      · exact absurd hmem hcurrent
      · exact .inr (.inl hhash)
      · exact .inr (.inr (.inl hname))
      · exact .inr (.inr (.inr (.inl hreason)))
      · exact .inr (.inr (.inr (.inr hevidence)))
      · exact absurd hprev (hprevious hc)
      · exact absurd hrecord (hown hc)
    · rintro (⟨id', hid', -⟩ | hhash | hname | hreason | hevidence)
      · cases hid'
      · exact .inr (.inl hhash)
      · exact .inr (.inr (.inl hname))
      · exact .inr (.inr (.inr (.inl hreason)))
      · exact .inr (.inr (.inr (.inr (.inl hevidence))))

end Run

namespace Reload

variable (std : Stdlib)

abbrev Machine := LifecycleStateMachine (List Char)

def recordOf (m : Machine) (c : LifecycleCall) : Option TransitionRecord :=
  (m.perform std (fileTransitionLog std) c).2.toOption.bind fun s' => s'.history.getLast?

def written : Machine → List LifecycleCall → List TransitionRecord
  | _, [] => []
  | m, c :: calls => (recordOf std m c).toList ++
      written (m.step std (fileTransitionLog std) c) calls

def Accepts (m : Machine) (c : LifecycleCall) : Prop :=
  ∃ s', (m.perform std (fileTransitionLog std) c).2 = .ok s'

/-- The file of a machine holds the records that were written, its chain is intact, and a
machine built on it is the same machine. -/
def Survives (m : Machine) (rows : List TransitionRecord) : Prop :=
  (fileTransitionLog std).records m.log = .ok rows ∧
    (fileTransitionLog std).verify std m.log = .ok ⟨true, rows.length, none, ""⟩ ∧
    load std (fileTransitionLog std) m.log = .ok m

variable {std} {m : Machine} {rows : List TransitionRecord}

theorem verifyRows_intact (h : firstBreak std 0 genesisHash rows = none) :
    verifyRows std rows = ⟨true, rows.length, none, ""⟩ := by
  unfold verifyRows
  rw [h]

theorem load_intact {records : Dict String StrategyRecord}
    (h : firstBreak std 0 genesisHash rows = none)
    (hreplay : rows.foldlM replayRow Dict.empty = .ok records) :
    load std inMemoryTransitionLog rows = .ok ⟨rows, records⟩ := by
  have hread : inMemoryTransitionLog.records rows = .ok rows := rfl
  unfold load
  rw [hread]
  simp only [ok_bind, verifyRows_intact h]
  rw [hreplay]
  rfl

theorem survives_iff_unbroken (h : Kept std m rows) :
    Survives std m rows ↔ ∀ r ∈ rows, r.Unbroken := by
  constructor
  · rintro ⟨hread, -, -⟩
    exact (h.read hread).2
  · intro hall
    have hread := records_fileText std h.representable hall
    rw [← h.log] at hread
    have hverify := verifyRows_intact h.chain
    refine ⟨hread, ?_, ?_⟩
    · unfold TransitionLog.verify
      rw [hread]
      exact congrArg Except.ok hverify
    · unfold load
      rw [hread]
      simp only [ok_bind, hverify]
      rw [h.replayed]
      rfl

theorem recordOf_accepted {c : LifecycleCall} {record : TransitionRecord} {s' : StrategyRecord}
    (hacc : Accepted std (fileTransitionLog std) m c record s')
    (hp : m.perform std (fileTransitionLog std) c =
      (⟨m.log ++ (record.toJson std ++ ['\n']), m.records.set c.hash s'⟩, .ok s')) :
    recordOf std m c = some record := by
  unfold recordOf
  rw [hp]
  show s'.history.getLast? = some record
  cases hacc with
  | registered hread habsent => rfl
  | moved hread hknown hallowed =>
    rw [applied_eq _ _ (edgeLaw hallowed.isEdge).requested]
    exact List.getLast?_concat

/-- A run keeps its file and its machine together, and breaks no row exactly when no
accepted call has a separator in its texts. -/
theorem kept_run (calls : List LifecycleCall) (hrep : ∀ c ∈ calls, c.Representable)
    (h : Kept std m rows) :
    Kept std (exec (step std (fileTransitionLog std)) m calls) (rows ++ written std m calls) ∧
      ((∀ r ∈ written std m calls, r.Unbroken) ↔
        Along (fun m c => Accepts std m c → c.Unbroken) (step std (fileTransitionLog std))
          m calls) := by
  induction calls generalizing m rows with
  | nil =>
    refine ⟨?_, fun _ => trivial, fun _ r hr => ?_⟩
    · rw [written, List.append_nil]
      exact h
    · cases hr
  | cons c calls ih =>
    have hrep' : ∀ a ∈ calls, a.Representable := fun a ha => hrep a (List.mem_cons_of_mem _ ha)
    rcases perform_cases std (fileTransitionLog std) m c with
      ⟨e, he⟩ | ⟨record, s', hacc, hp⟩
    · have hstep : m.step std (fileTransitionLog std) c = m := by
        unfold step
        rw [he]
      have hnone : recordOf std m c = none := by
        unfold recordOf
        rw [he]
        rfl
      have hrefused : ¬ Accepts std m c := by
        rintro ⟨s', hs'⟩
        rw [he] at hs'
        cases hs'
      rw [exec_cons, along_cons, written, hnone, hstep]
      obtain ⟨hkept, hiff⟩ := ih hrep' h
      refine ⟨hkept, hiff.trans ?_⟩
      exact ⟨fun hrest => ⟨fun hc => absurd hc hrefused, hrest⟩, fun hboth => hboth.2⟩
    · have hkept := h.accepted (hrep c List.mem_cons_self) hacc
      have hstep : m.step std (fileTransitionLog std) c =
          ⟨m.log ++ (record.toJson std ++ ['\n']), m.records.set c.hash s'⟩ := by
        unfold step
        rw [hp]
        rfl
      have haccepts : Accepts std m c := ⟨s', by rw [hp]⟩
      have hrow := h.unbroken_iff hacc
      rw [exec_cons, along_cons, written, recordOf_accepted hacc hp, hstep]
      obtain ⟨hkept', hiff⟩ := ih hrep' hkept
      refine ⟨?_, ?_⟩
      · rw [List.append_assoc] at hkept'
        exact hkept'
      · show (∀ r ∈ record :: written std _ calls, r.Unbroken) ↔ _
        rw [List.forall_mem_cons, hiff, hrow]
        exact and_congr_left fun _ => ⟨fun hc _ => hc, fun hc => hc haccepts⟩

/-- A log reopened after a run of representable calls is the log that was written, and
its machine the machine that wrote it, exactly when no accepted call has a separator in
its texts. -/
theorem survives_iff (std : Stdlib) (calls : List LifecycleCall)
    (hrep : ∀ c ∈ calls, c.Representable) :
    Survives std (exec (step std (fileTransitionLog std)) ⟨[], .empty⟩ calls)
        (written std ⟨[], .empty⟩ calls) ↔
      Along (fun m c => Accepts std m c → c.Unbroken) (step std (fileTransitionLog std))
        ⟨[], .empty⟩ calls := by
  obtain ⟨hkept, hiff⟩ := kept_run calls hrep (kept_fresh std)
  exact (survives_iff_unbroken hkept).trans hiff

theorem representable_promotedToShadow : ∀ c ∈ LadderRuns.promotedToShadow, c.Representable := by
  have hnote : Canonical (.dict LadderRuns.note.detail.entries) := ⟨List.Pairwise.nil, trivial⟩
  intro c hc e he
  have hmem : e = LadderRuns.note := by
    simp only [LadderRuns.promotedToShadow, LadderRuns.promoteTo, List.mem_cons, List.not_mem_nil,
      or_false] at hc
    rcases hc with rfl | rfl | rfl | rfl | rfl | rfl
    · cases he
    all_goals exact List.mem_singleton.1 he
  rw [hmem]
  exact hnote

/-- The promotions to SHADOW, in a file. -/
theorem promotions_survive_iff : (∀ c ∈ LadderRuns.promotedToShadow, c.Representable) ∧
    (Survives epochStdlib
        (exec (step epochStdlib (fileTransitionLog epochStdlib)) ⟨[], .empty⟩
          LadderRuns.promotedToShadow)
        (written epochStdlib ⟨[], .empty⟩ LadderRuns.promotedToShadow) ↔
      Along (fun m c => Accepts epochStdlib m c → c.Unbroken)
        (step epochStdlib (fileTransitionLog epochStdlib)) ⟨[], .empty⟩
        LadderRuns.promotedToShadow) :=
  ⟨representable_promotedToShadow, survives_iff epochStdlib _ representable_promotedToShadow⟩

def separated : LifecycleCall :=
  .register "trend" "a1" LadderRuns.operator "first line\u2028second line" [] 0

/-- It is accepted and written, and the file can no longer be read. -/
theorem line_separator_lost : ¬ ∀ calls : List LifecycleCall, (∀ c ∈ calls, c.Representable) →
      Survives epochStdlib
        (exec (step epochStdlib (fileTransitionLog epochStdlib)) ⟨[], .empty⟩ calls)
        (written epochStdlib ⟨[], .empty⟩ calls) := by
  intro h
  have hrep : ∀ c ∈ [separated], c.Representable := by
    intro c hc e he
    obtain rfl := List.mem_singleton.1 hc
    cases he
  have hread := (h [separated] hrep).1
  have hfails : ((fileTransitionLog epochStdlib).records
      (exec (step epochStdlib (fileTransitionLog epochStdlib)) ⟨[], .empty⟩
      [separated]).log).toOption.isNone
      = true := by
    decide +kernel
  rw [hread] at hfails
  cases hfails

end Reload

end Fiboki
