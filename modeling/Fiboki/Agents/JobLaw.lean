import Fiboki.Agents.JobRuns

/-!
What every interleaving on a job ledger keeps: its rows, their attempts and who may change
them.
-/

namespace Fiboki

open Runs

section Transactions

variable {ι : Type} {granted : List Binding} {l l' : JobLedger} {runs : String → JobRun ι}
  {b : Binding}

namespace JobLedger

theorem checkFence_low (h : b.fence < l.fenceHwm) (advance : Bool) :
    l.checkFence (some b) advance = .error (.fencedOut b.holder b.fence l.fenceHwm) := if_pos h

variable {fence : Option ℤ}

theorem checkFence_advance (h : l.checkFence (some b) true = .ok (l', fence)) :
    l.fenceHwm ≤ b.fence ∧ fence = some b.fence ∧ l' = { l with fenceHwm := b.fence } := by
  unfold checkFence at h
  dsimp only at h
  split_ifs at h with hlow hraise
  · cases h
    exact ⟨not_lt.1 hlow, rfl, rfl⟩
  · cases h
    have hsame : l.fenceHwm = b.fence := by
      simp only [Bool.true_and, decide_eq_true_eq] at hraise
      omega
    exact ⟨not_lt.1 hlow, rfl, by rw [← hsame]⟩

theorem checkFence_keep (h : l.checkFence (some b) false = .ok (l', fence)) :
    fence = some b.fence ∧ l' = l := by
  unfold checkFence at h
  dsimp only at h
  split_ifs at h with hlow hraise
  · cases hraise
  · cases h
    exact ⟨rfl, rfl⟩

end JobLedger

def Keeps (l l' : JobLedger) : Prop :=
  ∀ row ∈ l.jobs, ∃ row' ∈ l'.jobs, row'.jobId = row.jobId ∧ row'.spec = row.spec ∧
    row.attempts <+: row'.attempts ∧ (row.status.terminal = true → row' = row)

theorem Keeps.of_initial (h : l.jobs <+: l'.jobs) : Keeps l l' :=
  fun row hrow => ⟨row, h.subset hrow, rfl, rfl, List.prefix_rfl, fun _ => rfl⟩

theorem Keeps.of_jobs (h : l'.jobs = l.jobs) : Keeps l l' := .of_initial (h ▸ List.prefix_rfl)

theorem Keeps.trans {l'' : JobLedger} (h : Keeps l l') (h' : Keeps l' l'') : Keeps l l'' := by
  intro row hrow
  obtain ⟨mid, hmid, hid, hspec, hattempts, hend⟩ := h row hrow
  obtain ⟨row'', hrow'', hid', hspec', hattempts', hend'⟩ := h' mid hmid
  refine ⟨row'', hrow'', hid'.trans hid, hspec'.trans hspec, hattempts.trans hattempts', ?_⟩
  intro hterminal
  have hsame := hend hterminal
  rw [hsame] at hend'
  exact hend' hterminal

theorem Keeps.update {hit : Job → Bool} {set : Job → Job}
    (h : ∀ row ∈ l.jobs, hit row = true → (set row).jobId = row.jobId ∧ (set row).spec = row.spec ∧
      row.attempts <+: (set row).attempts ∧ row.status.terminal = false) :
    Keeps l (l.update hit set) := by
  intro row hrow
  refine ⟨_, List.mem_map_of_mem hrow, ?_⟩
  split_ifs with hhit
  · obtain ⟨hid, hspec, hattempts, hopen⟩ := h row hrow hhit
    refine ⟨hid, hspec, hattempts, fun hterminal => ?_⟩
    rw [hopen] at hterminal
    cases hterminal
  · exact ⟨rfl, rfl, List.prefix_rfl, fun _ => rfl⟩

namespace JobLedger

theorem insert_ok {spec : JobSpec} {jobId : String} {now : Timestamp}
    (h : l.insert spec jobId now = .ok l') :
    (∀ row ∈ l.jobs, row.jobId ≠ jobId ∧ row.spec.idempotencyKey ≠ spec.idempotencyKey) ∧
      l'.jobs = l.jobs ++ [newRow spec jobId now (l.queueSeq + 1)] ∧ l'.fenceHwm = l.fenceHwm := by
  unfold insert at h
  dsimp only at h
  split_ifs at h with hclash
  cases h
  refine ⟨fun row hrow => ?_, rfl, rfl⟩
  simp only [List.any_eq_true, Bool.or_eq_true, beq_iff_eq, not_exists, not_and, not_or] at hclash
  exact hclash row hrow

theorem claimNext_ok {handles : JobType → Bool} {queue : String} {now : Timestamp}
    {answer : Option (JobRecord × Option ℤ)}
    (h : l.claimNext (some b) handles queue now = .ok (l', answer)) :
    l.fenceHwm ≤ b.fence ∧ ((answer = none ∧ l' = { l with fenceHwm := b.fence }) ∨
        ∃ row ∈ l.jobs, row.status.runnable = true ∧
          answer = some (recordFromRow row false, some b.fence) ∧
          l' = { l with fenceHwm := b.fence }.update (fun r => r.jobId == row.jobId)
            fun r => claimedRow r b.holder (some b.fence) now) := by
  unfold claimNext at h
  split at h
  · cases h
  · rename_i raised fence hcheck
    obtain ⟨hle, rfl, rfl⟩ := checkFence_advance hcheck
    refine ⟨hle, ?_⟩
    split at h
    · cases h
      exact .inl ⟨rfl, rfl⟩
    · rename_i row hfind
      cases h
      have hmem := List.mem_of_find?_eq_some hfind
      unfold queued StableSort.sortBy at hmem
      rw [List.mem_insertionSort, List.mem_filter, Bool.and_eq_true] at hmem
      exact .inr ⟨row, hmem.1, hmem.2.2, rfl, rfl⟩

variable {fence : Option ℤ}

theorem finish_ok {updated : JobRecord} {resultJson : Option String}
    (h : l.finish (some b) updated fence resultJson = .ok l') :
    ∃ next : JobLedger, next.jobs = l.jobs ∧ next.fenceHwm = l.fenceHwm ∧
      (∃ row ∈ l.jobs, isClaim updated.jobId b.holder fence row = true) ∧
      l' = next.update (isClaim updated.jobId b.holder fence)
        (finishedRow updated resultJson next.queueSeq) := by
  unfold finish at h
  split at h
  · cases h
  · rename_i checked fence' hcheck
    obtain ⟨-, rfl⟩ := checkFence_keep hcheck
    dsimp only at h
    split_ifs at h with hfailed hany hany
    · cases h
      exact ⟨checked.nextSeq, rfl, rfl, List.any_eq_true.1 hany, rfl⟩
    · cases h
      exact ⟨checked, rfl, rfl, List.any_eq_true.1 hany, rfl⟩

variable {row : Job}

theorem isClaim_iff {jobId holder : String} :
    isClaim jobId holder fence row = true ↔
      row.jobId = jobId ∧ row.status = .running ∧ row.claimedBy = holder ∧
        row.claimFence = fence := by
  simp only [isClaim, Bool.and_eq_true, beq_iff_eq, and_assoc]

theorem abandonedRows_spec (h : row ∈ l.abandonedRows (some b) (some b.fence)) :
    row ∈ l.jobs ∧ row.status = .running ∧
      ¬ (row.claimedBy = b.holder ∧ row.claimFence = some b.fence) := by
  unfold abandonedRows StableSort.sortBy at h
  rw [List.mem_filter, List.mem_insertionSort, List.mem_filter, beq_iff_eq] at h
  obtain ⟨⟨hrow, hrunning⟩, hother⟩ := h
  refine ⟨hrow, hrunning, ?_⟩
  rintro ⟨hholder, hfence⟩
  simp [hholder, hfence, holderOf] at hother

theorem nodup_abandonedRows (h : (l.jobs.map Job.jobId).Nodup) (binding : Option Binding)
    (fence : Option ℤ) : ((l.abandonedRows binding fence).map Job.jobId).Nodup := by
  have hsorted : ((StableSort.sortBy Job.queueSeq
      (l.jobs.filter fun row => row.status == .running)).map Job.jobId).Nodup := by
    have hperm := (List.perm_insertionSort (fun a b : Job => a.queueSeq ≤ b.queueSeq)
      (l.jobs.filter fun row => row.status == .running)).map Job.jobId
    exact hperm.nodup_iff.2 (h.sublist (List.filter_sublist.map _))
  exact hsorted.sublist (List.filter_sublist.map _)

end JobLedger

variable {now : Timestamp}

variable {jobId : String}

theorem RowsOk.insert (h : RowsOk granted l runs) {spec : JobSpec}
    (hinsert : l.insert spec jobId now = .ok l') : RowsOk granted l' runs := by
  obtain ⟨hnew, hjobs, hmark⟩ := JobLedger.insert_ok hinsert
  have hid : jobId ∉ l.jobs.map Job.jobId := by
    intro hmem
    obtain ⟨row, hrow, hsame⟩ := List.mem_map.1 hmem
    exact (hnew row hrow).1 hsame
  have hkey : spec.idempotencyKey ∉ l.jobs.map fun row => row.spec.idempotencyKey := by
    intro hmem
    obtain ⟨row, hrow, hsame⟩ := List.mem_map.1 hmem
    exact (hnew row hrow).2 hsame
  constructor
  · rw [hjobs, List.map_append]
    refine List.nodup_append.2 ⟨h.ids, List.nodup_singleton _, fun x hx y hy hxy => ?_⟩
    rw [hxy, List.mem_singleton.1 hy] at hx
    exact hid hx
  · rw [hjobs, List.map_append]
    refine List.nodup_append.2 ⟨h.keys, List.nodup_singleton _, fun x hx y hy hxy => ?_⟩
    rw [hxy, List.mem_singleton.1 hy] at hx
    exact hkey hx
  · intro row hrow
    rw [hjobs] at hrow
    rw [hmark]
    rcases List.mem_append.1 hrow with hrow | hrow
    · exact h.rows row hrow
    · rw [List.mem_singleton.1 hrow]
      show RowOk granted l.fenceHwm (runs jobId) _
      rw [h.fresh jobId hid]
      refine ⟨rfl, rfl, rfl, le_rfl, Nat.zero_le _, fun _ => spec.maxAttempts_pos, ?_,
        fun _ => rfl, ?_⟩
      · intro hrunning
        cases hrunning
      · intro k f hf
        cases hf
  · intro id hmem
    apply h.fresh id
    intro hold
    rw [hjobs, List.map_append] at hmem
    exact hmem (List.mem_append_left _ hold)

theorem RowsOk.claim (h : RowsOk granted l runs) (hb : b ∈ granted) {handles : JobType → Bool}
    {queue : String} {record : JobRecord} {fence : Option ℤ} (o : ι)
    (hclaim : l.claimNext (some b) handles queue now = .ok (l', some (record, fence))) :
    RowsOk granted l' (Function.update runs record.jobId
      { runs record.jobId with
        flights := (runs record.jobId).flights ++ [Flight.mk o record fence .claimed] }) ∧
      Keeps l l' := by
  obtain ⟨hle, hanswer | ⟨row, hrow, hrunnable, hanswer, rfl⟩⟩ := JobLedger.claimNext_ok hclaim
  · cases hanswer.1
  · cases hanswer
    have hraised : RowsOk granted { l with fenceHwm := b.fence } runs :=
      h.mono (List.Subset.refl _) rfl hle
    have hok := (h.rows row hrow).claim hrunnable hb hle o now
    constructor
    · apply hraised.update hrow _ _ rfl rfl hok
      · exact beq_self_eq_true row.jobId
      · exact fun r hr => beq_iff_eq.1 hr
    · refine Keeps.trans (.of_jobs rfl) (Keeps.update fun r hr hhit => ?_)
      have hsame := h.unique hrow hr (beq_iff_eq.1 hhit)
      refine ⟨rfl, rfl, List.prefix_rfl, ?_⟩
      rw [hsame]
      cases hstatus : row.status <;> rw [hstatus] at hrunnable <;> first | rfl | cases hrunnable

theorem RowsOk.finish (h : RowsOk granted l runs) {k : ℕ} {f : Flight ι}
    (hf : (runs jobId).flights[k]? = some f) {updated : JobRecord} {resultJson : Option String}
    (hphase : f.phase = .concluded updated resultJson)
    (hfinish : l.finish (some b) updated f.fence resultJson = .ok l') :
    RowsOk granted l' (Function.update runs jobId
      { (runs jobId).setPhase k f .ended with
        added := (runs jobId).added ++ [Added.mk k .outcome] }) ∧ Keeps l l' := by
  obtain ⟨row, hrow, rfl⟩ := h.exists_row hf
  obtain ⟨next, hjobs, hmark, ⟨hitRow, hmem, hhit⟩, rfl⟩ := JobLedger.finish_ok hfinish
  have hok := h.rows row hrow
  have hflight : FlightOk l.fenceHwm row (runs row.jobId).flights.length k f := by
    apply hok.flights k f hf
    rw [hphase]
    exact Bool.false_ne_true
  have hupdated : updated.jobId = row.jobId := by
    obtain ⟨started, finished, outcome, rfl⟩ := hflight.concluded updated resultJson hphase
    obtain ⟨a, status, -, hid, -⟩ := f.record.concluded_spec started finished outcome
    exact hid.trans hflight.jobId
  -- The row that the outcome is written over is the one the claim was on.
  obtain ⟨hid, hrunning, -, hfence⟩ := JobLedger.isClaim_iff.1 hhit
  have hsame := h.unique hrow hmem (hid.trans hupdated)
  subst hsame
  obtain ⟨⟨a, hattempts⟩, hfinished⟩ := hok.finish hf hphase hrunning hfence next.queueSeq
  have hnext : RowsOk granted next runs := h.mono (List.Subset.refl _) hjobs (le_of_eq hmark.symm)
  rw [← hmark] at hfinished
  constructor
  · exact hnext.update (hjobs ▸ hrow) hhit
      (fun r hr => (JobLedger.isClaim_iff.1 hr).1.trans hupdated) rfl rfl hfinished
  · refine Keeps.trans (.of_jobs hjobs) (Keeps.update fun r hr hhit' => ?_)
    have hsame := h.unique hrow (hjobs ▸ hr) ((JobLedger.isClaim_iff.1 hhit').1.trans hupdated)
    subst hsame
    refine ⟨rfl, rfl, ?_, by rw [hrunning]; rfl⟩
    show _ <+: updated.attempts
    rw [hattempts]
    exact List.prefix_append _ _

theorem RowsOk.abandonRows (hfences : ∀ c ∈ granted, c.fence = b.fence → c = b) (reason : String)
    (now : Timestamp) (rows : List Job) (h : RowsOk granted l runs) (hmark : l.fenceHwm = b.fence)
    (hrows : ∀ row ∈ rows, row ∈ l.jobs ∧ row.status = .running ∧
      ¬ (row.claimedBy = b.holder ∧ row.claimFence = some b.fence))
    (hnodup : (rows.map Job.jobId).Nodup) :
    RowsOk granted (rows.foldl (JobLedger.abandon reason now) l)
        (rows.foldl JobSystem.noteAbandoned runs) ∧
      Keeps l (rows.foldl (JobLedger.abandon reason now) l) := by
  induction rows generalizing l runs with
  | nil => exact ⟨h, .of_jobs rfl⟩
  | cons row rows ih =>
    obtain ⟨hrow, hrunning, hother⟩ := hrows row List.mem_cons_self
    rw [List.map_cons, List.nodup_cons] at hnodup
    have hok := h.rows row hrow
    obtain ⟨c, hc, hholder, hfence, hle⟩ := hok.claimed hrunning
    have hlt : c.fence < l.fenceHwm := by
      refine lt_of_le_of_ne hle fun hsame => hother ?_
      have := hfences c hc (hsame.trans hmark)
      subst this
      exact ⟨hholder, hfence⟩
    have hclosed := hok.abandon hrunning hfence hlt reason now (l.queueSeq + 1)
    have hnext : RowsOk granted l.nextSeq runs := h.mono (List.Subset.refl _) rfl le_rfl
    have habandoned : RowsOk granted (JobLedger.abandon reason now l row)
        (JobSystem.noteAbandoned runs row) := by
      apply hnext.update hrow _ _ rfl rfl hclosed
      · exact beq_self_eq_true row.jobId
      · exact fun r hr => beq_iff_eq.1 hr
    have hkeeps : Keeps l (JobLedger.abandon reason now l row) := by
      refine Keeps.trans (.of_jobs rfl) (Keeps.update fun r hr hhit => ?_)
      have hsame := h.unique hrow hr (beq_iff_eq.1 hhit)
      subst hsame
      obtain ⟨a, status, -, -, -, hattempts, -⟩ := JobLedger.abandonedRecord_spec reason now r
      refine ⟨rfl, rfl, ?_, by rw [hrunning]; rfl⟩
      show _ <+: (JobLedger.abandonedRecord reason now r).attempts
      rw [hattempts]
      exact List.prefix_append _ _
    have hrest := ih habandoned hmark (fun r hr => by
      obtain ⟨hmem, hrun, hnot⟩ := hrows r (List.mem_cons_of_mem _ hr)
      refine ⟨List.mem_map.2 ⟨r, hmem, if_neg ?_⟩, hrun, hnot⟩
      intro hsame
      exact hnodup.1 (beq_iff_eq.1 hsame ▸ List.mem_map_of_mem hr)) hnodup.2
    rw [List.foldl_cons, List.foldl_cons]
    exact ⟨hrest.1, hkeeps.trans hrest.2⟩

theorem RowsOk.recover (h : RowsOk granted l runs) (hb : b ∈ granted)
    (hfences : ∀ c ∈ granted, ∀ d ∈ granted, c.fence = d.fence → c = d) {reason : String}
    {rows : List Job}
    (hrecover : l.recoverAbandoned (some b) reason now = .ok (l', rows)) :
    RowsOk granted l' (rows.foldl JobSystem.noteAbandoned runs) ∧ Keeps l l' := by
  unfold JobLedger.recoverAbandoned at hrecover
  split at hrecover
  · cases hrecover
  · rename_i raised fence hcheck
    obtain ⟨hle, rfl, rfl⟩ := JobLedger.checkFence_advance hcheck
    cases hrecover
    have hraised : RowsOk granted { l with fenceHwm := b.fence } runs :=
      h.mono (List.Subset.refl _) rfl hle
    exact hraised.abandonRows (fun c hc hsame => hfences c hc b hb hsame) reason now _ rfl
      (fun row hrow => JobLedger.abandonedRows_spec hrow)
      (JobLedger.nodup_abandonedRows hraised.ids _ _)

end Transactions

namespace JobSystem

variable {ι : Type} [DecidableEq ι] {s : JobSystem ι}

omit [DecidableEq ι] in
theorem inv_initial : JobInv (JobSystem.initial : JobSystem ι) where
  rows := ⟨List.nodup_nil, List.nodup_nil, fun row hrow => absurd hrow List.not_mem_nil,
    fun _ _ => rfl⟩
  bound := fun o b hb => by cases hb
  fences := fun b hb => absurd hb List.not_mem_nil

omit [DecidableEq ι] in
theorem inv_rows (h : JobInv s) {ledger : JobLedger} {runs : String → JobRun ι}
    (hrows : RowsOk s.granted ledger runs) : JobInv { s with ledger, runs } :=
  ⟨hrows, h.bound, h.fences⟩

theorem inv_acquire (h : JobInv s) (o : ι) (holder : String) (fence : ℤ) :
    JobInv (s.step (.acquire o holder fence)) := by
  unfold step
  dsimp only
  split_ifs with hnew
  · refine ⟨h.rows.mono (List.subset_append_left _ _) rfl le_rfl, ?_, ?_⟩
    · intro q b hb
      by_cases hq : q = o
      · subst hq
        change Function.update s.binding q _ q = _ at hb
        rw [Function.update_self] at hb
        cases hb
        exact List.mem_append_right _ (List.mem_singleton_self _)
      · change Function.update s.binding o _ q = _ at hb
        rw [Function.update_of_ne hq] at hb
        exact List.mem_append_left _ (h.bound q b hb)
    · intro b hb c hc hsame
      rcases List.mem_append.1 hb with hb | hb <;> rcases List.mem_append.1 hc with hc | hc
      · exact h.fences b hb c hc hsame
      · rw [List.mem_singleton.1 hc] at hsame
        exact absurd hsame (ne_of_lt (hnew b hb))
      · rw [List.mem_singleton.1 hb] at hsame
        exact absurd hsame.symm (ne_of_lt (hnew c hc))
      · rw [List.mem_singleton.1 hb, List.mem_singleton.1 hc]
  · exact h

theorem inv_share (h : JobInv s) (o q : ι) : JobInv (s.step (.share o q)) := by
  refine ⟨h.rows, ?_, h.fences⟩
  intro p b hb
  by_cases hp : p = o
  · subst hp
    change Function.update s.binding p _ p = _ at hb
    rw [Function.update_self] at hb
    exact h.bound q b hb
  · change Function.update s.binding o _ p = _ at hb
    rw [Function.update_of_ne hp] at hb
    exact h.bound p b hb

theorem submit_rows (s : JobSystem ι) (o : ι) (spec : JobSpec) :
    ∃ submissions, s.step (.submit o spec) = { s with submissions } := by
  unfold step
  dsimp only
  split
  · exact ⟨_, rfl⟩
  · exact ⟨s.submissions, rfl⟩

theorem insert_spec (h : JobInv s) (i : ℕ) (jobId : String) (now : Timestamp) :
    JobInv (s.step (.insert i jobId now)) ∧ Keeps s.ledger
      (s.step (.insert i jobId now)).ledger := by
  unfold step
  dsimp only
  split
  · exact ⟨h, .of_jobs rfl⟩
  · rename_i o spec hsubmission
    split
    · exact ⟨⟨h.rows, h.bound, h.fences⟩, .of_jobs rfl⟩
    · rename_i ledger hinsert
      obtain ⟨-, hjobs, -⟩ := JobLedger.insert_ok hinsert
      exact ⟨⟨h.rows.insert hinsert, h.bound, h.fences⟩,
        .of_initial (hjobs ▸ List.prefix_append _ _)⟩

theorem claim_spec (h : JobInv s) (o : ι) (queue : String) (now : Timestamp) :
    JobInv (s.step (.claim o queue now)) ∧ Keeps s.ledger (s.step (.claim o queue now)).ledger := by
  unfold step
  dsimp only
  split
  · exact ⟨h, .of_jobs rfl⟩
  · rename_i b hb
    split
    · exact ⟨h, .of_jobs rfl⟩
    · rename_i ledger hclaim
      obtain ⟨hle, ⟨-, rfl⟩ | ⟨row, hrow, -, hanswer, -⟩⟩ := JobLedger.claimNext_ok hclaim
      · exact ⟨inv_rows h (h.rows.mono (List.Subset.refl _) rfl hle), .of_jobs rfl⟩
      · cases hanswer
    · rename_i ledger record fence hclaim
      obtain ⟨hrows, hkeeps⟩ := h.rows.claim (h.bound o b hb) o hclaim
      exact ⟨inv_rows h hrows, hkeeps⟩

omit [DecidableEq ι] in
theorem inv_setPhase (h : JobInv s) {jobId : String} {k : ℕ} {f : Flight ι}
    (hf : (s.runs jobId).flights[k]? = some f) (hlive : ¬ (f.phase matches .ended))
    {phase : FlightPhase} (hphase : ¬ (phase matches .claimed)) (hconcluded : ∀ updated resultJson,
      phase = .concluded updated resultJson →
        ∃ started finished outcome, updated = f.record.concluded started finished outcome)
    {starts : ℕ} (hstarts : starts ≤ (s.runs jobId).starts +
      if f.phase matches .claimed then 1 else 0) :
    JobInv (s.setRun jobId { (s.runs jobId).setPhase k f phase with starts }) := by
  obtain ⟨row, hrow, rfl⟩ := h.rows.exists_row hf
  have hok := (h.rows.rows row hrow).setPhase hf hlive hphase hconcluded hstarts
  exact inv_rows h (h.rows.setRun hrow hok)

theorem inv_start (h : JobInv s) (jobId : String) (k : ℕ) (now : Timestamp) :
    JobInv (s.step (.start jobId k now)) := by
  unfold step
  dsimp only
  split
  · exact h
  · rename_i f hf
    split
    · rename_i hclaimed
      apply inv_setPhase h hf
      · rw [hclaimed]
        exact Bool.false_ne_true
      · exact Bool.false_ne_true
      · intro updated resultJson hsame
        cases hsame
      · rw [hclaimed]
        exact le_rfl
    · exact h

theorem inv_handled (h : JobInv s) (jobId : String) (k : ℕ) (now : Timestamp)
    (outcome : HandlerOutcome) : JobInv (s.step (.handled jobId k now outcome)) := by
  unfold step
  dsimp only
  split
  · exact h
  · rename_i f hf
    split
    · rename_i started hstarted
      apply inv_setPhase h hf
      · rw [hstarted]
        exact Bool.false_ne_true
      · exact Bool.false_ne_true
      · intro updated resultJson hsame
        cases hsame
        exact ⟨started, now, outcome, rfl⟩
      · exact Nat.le_add_right _ _
    · exact h

theorem finish_spec (h : JobInv s) (jobId : String) (k : ℕ) :
    JobInv (s.step (.finish jobId k)) ∧ Keeps s.ledger (s.step (.finish jobId k)).ledger := by
  unfold step
  dsimp only
  split
  · exact ⟨h, .of_jobs rfl⟩
  · rename_i f hf
    split
    · rename_i updated resultJson hphase
      split
      · exact ⟨h, .of_jobs rfl⟩
      · rename_i b hb
        split
        · refine ⟨?_, .of_jobs rfl⟩
          apply inv_setPhase h hf
          · rw [hphase]
            exact Bool.false_ne_true
          · exact Bool.false_ne_true
          · intro updated' resultJson' hsame
            cases hsame
          · exact Nat.le_add_right _ _
        · rename_i ledger hfinish
          obtain ⟨hrows, hkeeps⟩ := h.rows.finish hf hphase hfinish
          exact ⟨inv_rows h hrows, hkeeps⟩
    · exact ⟨h, .of_jobs rfl⟩

theorem recover_spec (h : JobInv s) (o : ι) (reason : String) (now : Timestamp) :
    JobInv (s.step (.recover o reason now)) ∧
      Keeps s.ledger (s.step (.recover o reason now)).ledger := by
  unfold step
  dsimp only
  split
  · exact ⟨h, .of_jobs rfl⟩
  · rename_i b hb
    split
    · exact ⟨h, .of_jobs rfl⟩
    · rename_i ledger rows hrecover
      obtain ⟨hrows, hkeeps⟩ := h.rows.recover (h.bound o b hb) h.fences hrecover
      exact ⟨inv_rows h hrows, hkeeps⟩

theorem step_spec (h : JobInv s) (e : JobEvent ι) :
    JobInv (s.step e) ∧ Keeps s.ledger (s.step e).ledger := by
  cases e with
  | acquire o holder fence =>
    refine ⟨inv_acquire h o holder fence, .of_jobs ?_⟩
    unfold step
    dsimp only
    split_ifs <;> rfl
  | share o q => exact ⟨inv_share h o q, .of_jobs rfl⟩
  | register o jobType => exact ⟨⟨h.rows, h.bound, h.fences⟩, .of_jobs rfl⟩
  | submit o spec =>
    obtain ⟨submissions, hstep⟩ := submit_rows s o spec
    rw [hstep]
    exact ⟨⟨h.rows, h.bound, h.fences⟩, .of_jobs rfl⟩
  | insert i jobId now => exact insert_spec h i jobId now
  | claim o queue now => exact claim_spec h o queue now
  | start jobId k now =>
    refine ⟨inv_start h jobId k now, .of_jobs ?_⟩
    unfold step
    dsimp only
    split
    · rfl
    · split <;> rfl
  | handled jobId k now outcome =>
    refine ⟨inv_handled h jobId k now outcome, .of_jobs ?_⟩
    unfold step
    dsimp only
    split
    · rfl
    · split <;> rfl
  | finish jobId k => exact finish_spec h jobId k
  | recover o reason now => exact recover_spec h o reason now

def OnlyInserts (l l' : JobLedger) : Prop :=
  ∃ rows, l'.jobs = l.jobs ++ rows ∧ ∀ row ∈ rows, row.status = .pending ∧ row.attempts = []

theorem OnlyInserts.of_jobs {l l' : JobLedger} (h : l'.jobs = l.jobs) : OnlyInserts l l' :=
  ⟨[], by rw [h, List.append_nil], fun _ hrow => absurd hrow List.not_mem_nil⟩

def Fenced (s : JobSystem ι) (e : JobEvent ι) : Prop :=
  ∀ o b, s.actor e = some o → s.binding o = some b → b.fence < s.ledger.fenceHwm →
    OnlyInserts s.ledger (s.step e).ledger

theorem fenced_claim (s : JobSystem ι) (o : ι) (queue : String) (now : Timestamp) :
    s.Fenced (.claim o queue now) := by
  intro q b hactor hb hlow
  cases hactor
  have hrefused : s.ledger.claimNext (some b) (s.handles o) queue now =
      .error (.fencedOut b.holder b.fence s.ledger.fenceHwm) := by
    unfold JobLedger.claimNext
    rw [JobLedger.checkFence_low hlow]
  unfold step
  simp only [hb, hrefused]
  exact .of_jobs rfl

theorem fenced_finish (s : JobSystem ι) (jobId : String) (k : ℕ) : s.Fenced (.finish jobId k) := by
  intro q b hactor hb hlow
  unfold step
  dsimp only
  unfold actor at hactor
  dsimp only at hactor
  split
  · exact .of_jobs rfl
  · rename_i f hf
    rw [hf] at hactor
    cases hactor
    split
    · rename_i updated resultJson hphase
      have hrefused : s.ledger.finish (some b) updated f.fence resultJson =
          .error (.fencedOut b.holder b.fence s.ledger.fenceHwm) := by
        unfold JobLedger.finish
        rw [JobLedger.checkFence_low hlow]
      simp only [hb, hrefused]
      exact .of_jobs rfl
    · exact .of_jobs rfl

theorem fenced_recover (s : JobSystem ι) (o : ι) (reason : String) (now : Timestamp) :
    s.Fenced (.recover o reason now) := by
  intro q b hactor hb hlow
  cases hactor
  have hrefused : s.ledger.recoverAbandoned (some b) reason now =
      .error (.fencedOut b.holder b.fence s.ledger.fenceHwm) := by
    unfold JobLedger.recoverAbandoned
    rw [JobLedger.checkFence_low hlow]
  unfold step
  simp only [hb, hrefused]
  exact .of_jobs rfl

theorem step_fenced (s : JobSystem ι) (e : JobEvent ι) : s.Fenced e := by
  cases e with
  | claim o queue now => exact fenced_claim s o queue now
  | finish jobId k => exact fenced_finish s jobId k
  | recover o reason now => exact fenced_recover s o reason now
  | acquire o holder fence =>
    intro q b _ _ _
    unfold step
    dsimp only
    split_ifs <;> exact .of_jobs rfl
  | share o q | register o jobType => exact fun _ _ _ _ _ => .of_jobs rfl
  | submit o spec =>
    intro q b _ _ _
    obtain ⟨submissions, hstep⟩ := submit_rows s o spec
    rw [hstep]
    exact .of_jobs rfl
  | insert i jobId now =>
    intro q b _ _ _
    unfold step
    dsimp only
    split
    · exact .of_jobs rfl
    · split
      · exact .of_jobs rfl
      · rename_i ledger hinsert
        obtain ⟨-, hjobs, -⟩ := JobLedger.insert_ok hinsert
        refine ⟨_, hjobs, fun row hrow => ?_⟩
        rw [List.mem_singleton.1 hrow]
        exact ⟨rfl, rfl⟩
  | start jobId k now | handled jobId k now outcome =>
    intro q b _ _ _
    unfold step
    dsimp only
    split
    · exact .of_jobs rfl
    · split <;> exact .of_jobs rfl

/-- What a ledger shows at any time. A job's nth attempt is the only entry of its nth claim,
by the execution of that claim or as abandoned. -/
structure Sound (s : JobSystem ι) : Prop where
  keys : (s.ledger.jobs.map fun row => row.spec.idempotencyKey).Nodup
  ids : (s.ledger.jobs.map Job.jobId).Nodup
  numbered : ∀ row ∈ s.ledger.jobs,
    row.attempts.map Attempt.number = List.range' 1 row.attempts.length
  limited : ∀ row ∈ s.ledger.jobs, row.attempts.length ≤ row.spec.maxAttempts
  started : ∀ row ∈ s.ledger.jobs, (s.runs row.jobId).starts ≤ row.spec.maxAttempts
  once : ∀ row ∈ s.ledger.jobs,
    (s.runs row.jobId).added.map Added.claim = List.range row.attempts.length

omit [DecidableEq ι] in
theorem sound_of_inv (h : JobInv s) : Sound s where
  keys := h.rows.keys
  ids := h.rows.ids
  numbered := fun row hrow => (h.rows.rows row hrow).numbered
  limited := fun row hrow => (h.rows.rows row hrow).limit
  started := fun row hrow => by
    have hok := h.rows.rows row hrow
    have hclaims := hok.claims
    have hstarts := hok.starts
    split_ifs at hclaims with hrunning
    · have hroom := hok.room (by rw [hrunning]; rfl)
      omega
    · have hlimit := hok.limit
      omega
  once := fun row hrow => (h.rows.rows row hrow).added

/-- Whatever orchestrators do on a ledger, in whatever order: no step loses a row or touches
one that is at an end, one fenced out only inserts, and what the ledger shows is sound. -/
theorem job_ledger_law (run : List (JobEvent ι)) :
    Along (fun s e => Keeps s.ledger (s.step e).ledger ∧ s.Fenced e) step .initial run ∧
      Sound (exec step .initial run) := by
  have hstep : ∀ (s : JobSystem ι) (e : JobEvent ι), JobInv s → JobInv (s.step e) :=
    fun s e h => (step_spec h e).1
  constructor
  · exact along_of_invariant (I := JobInv) hstep (fun s e h => ⟨(step_spec h e).2, step_fenced s e⟩)
      inv_initial run
  · exact sound_of_inv (exec_invariant (I := JobInv) hstep inv_initial run)

end JobSystem

end Fiboki
