import Fiboki.Lib.Run
import Fiboki.Obs.Outbox

/-!
Runs of any number of processes over one outbox: each sends critical alerts and makes retry
passes, one statement or one send at a time, and can crash between any two.

A retry pass goes group by group: `AlertOutbox.retry` has one group of channels, and
`AlertDispatcher.retry_pending` one for each of its outbox channels.
-/

namespace Fiboki

open Runs Alerts

/-- What a channel's `send` does: it returns, or raises an exception of this text. -/
inductive SendOutcome where
  | accepted
  | raised (error : PyText)

/-- One `pending()` of a retry pass: the channels that were retried, the table and the clock. -/
structure Reading where
  channels : List String
  table : Table
  now : ℤ

def Reading.due (reading : Reading) : List OutboxRow :=
  (AlertOutbox.pending reading.table reading.now).filter fun row => row.channel ∈ reading.channels

/-- A retry pass: the channels that it is to retry, what it read of them so far, and the rows
that it attempted. -/
structure RetryPass where
  groups : List (List String)
  readings : List Reading
  attempted : List ℕ

def RetryPass.dueIds (pass : RetryPass) : List ℕ :=
  pass.readings.flatMap fun reading => reading.due.map OutboxRow.id

/-- The pass read all its channels and attempted, in their order, the due rows it read of each,
each of them once; and no row twice where no channel is in two groups. -/
structure RetryPass.Complete (pass : RetryPass) : Prop where
  channels : pass.readings.map Reading.channels = pass.groups
  attempted : pass.attempted = pass.dueIds
  once : ∀ reading ∈ pass.readings, (reading.due.map OutboxRow.id).Nodup
  distinct : pass.groups.flatten.Nodup → pass.attempted.Nodup

inductive Task where
  | idle
  /-- `OutboxChannel.send` has enqueued the row. -/
  | enqueued (id : ℕ) (alert : Alert)
  | answered (id : ℕ) (alert : Alert) (outcome : SendOutcome)
  /-- A retry pass has these due rows to attempt, and then these groups of channels. -/
  | passing (pass : RetryPass) (due : List OutboxRow) (left : List (List String))
  | settling (pass : RetryPass) (row : OutboxRow) (outcome : SendOutcome) (due : List OutboxRow)
      (left : List (List String))

/-- The table and the processes.  `accepted` records the sends that returned, and `ended` the
retry passes that returned or raised. -/
structure OutboxSystem where
  table : Table
  tasks : ℕ → Task
  accepted : List (ℕ × Alert)
  ended : List RetryPass

inductive OutboxAction where
  | send (process : ℕ) (channel : String) (alert : Alert) (now : ℤ)
  | answer (process : ℕ) (outcome : SendOutcome)
  | mark (process : ℕ) (now : ℤ)
  | retry (process : ℕ) (groups : List (List String))
  | read (process : ℕ) (now : ℤ)
  | attempt (process : ℕ) (outcome : SendOutcome)
  | settle (process : ℕ) (now : ℤ)
  | crash (process : ℕ)

namespace OutboxSystem

def fresh : OutboxSystem := ⟨Table.empty, fun _ => .idle, [], []⟩

def goto (s : OutboxSystem) (process : ℕ) (task : Task) : OutboxSystem :=
  { s with tasks := Function.update s.tasks process task }

def heard (s : OutboxSystem) (id : ℕ) (alert : Alert) : SendOutcome → OutboxSystem
  | .accepted => { s with accepted := s.accepted ++ [(id, alert)] }
  | .raised _ => s

variable (outbox : AlertOutbox) (minSeverity : Severity)

def step (s : OutboxSystem) : OutboxAction → OutboxSystem
  | .send p channel alert now =>
    match s.tasks p with
    | .idle =>
      if alert.severity.rank < minSeverity.rank then s
      else
        let (table, id) := AlertOutbox.enqueue s.table channel alert now
        { s with table }.goto p (.enqueued id alert)
    | _ => s
  | .answer p outcome =>
    match s.tasks p with
    | .enqueued id alert => (s.heard id alert outcome).goto p (.answered id alert outcome)
    | _ => s
  | .mark p now =>
    match s.tasks p with
    | .answered id _ .accepted =>
      { s with table := AlertOutbox.markDelivered s.table id now }.goto p .idle
    | .answered id _ (.raised error) =>
      match outbox.markFailed s.table id now error with
      | .ok table => { s with table }.goto p .idle
      | .error _ => s.goto p .idle
    | _ => s
  | .retry p groups =>
    match s.tasks p with
    | .idle => s.goto p (.passing ⟨groups, [], []⟩ [] groups)
    | _ => s
  | .read p now =>
    match s.tasks p with
    | .passing pass [] (channels :: left) =>
      let reading : Reading := ⟨channels, s.table, now⟩
      s.goto p (.passing { pass with readings := pass.readings ++ [reading] } reading.due left)
    | .passing pass [] [] => { s with ended := s.ended ++ [pass] }.goto p .idle
    | _ => s
  | .attempt p outcome =>
    match s.tasks p with
    | .passing pass (row :: due) left =>
      (s.heard row.id row.alert outcome).goto p
        (.settling { pass with attempted := pass.attempted ++ [row.id] } row outcome due left)
    | _ => s
  | .settle p now =>
    match s.tasks p with
    | .settling pass row .accepted due left =>
      { s with table := AlertOutbox.markDelivered s.table row.id now }.goto p
        (.passing pass due left)
    | .settling pass row (.raised error) due left =>
      match outbox.markFailed s.table row.id now error with
      | .ok table => { s with table }.goto p (.passing pass due left)
      -- the exception leaves `retry`, and the pass with it
      | .error _ => { s with ended := s.ended ++ [pass] }.goto p .idle
    | _ => s
  | .crash p => s.goto p .idle

def DeliveredAccepted (s : OutboxSystem) : Prop :=
  ∀ row ∈ s.table.rows, row.deliveredAt.isSome = true → (row.id, row.alert) ∈ s.accepted

/-- A step that does not leave a retry pass with work undone: where a failed attempt is booked
before the end of the pass, it can be booked. -/
def Books (s : OutboxSystem) : OutboxAction → Prop
  | .settle p now =>
    match s.tasks p with
    | .settling _ row (.raised error) due left =>
      outbox.Bookable s.table row.id now error ∨ (due = [] ∧ left = [])
    | _ => True
  | _ => True

/-- A pass between two of its steps, with the rows and the groups that it has left. -/
structure PassInv (s : OutboxSystem) (pass : RetryPass) (due : List OutboxRow)
    (left : List (List String)) : Prop where
  channels : pass.readings.map Reading.channels ++ left = pass.groups
  attempted : pass.attempted ++ due.map OutboxRow.id = pass.dueIds
  numbered : ∀ reading ∈ pass.readings, Alerts.Numbered reading.table
  persist : ∀ reading ∈ pass.readings, Persist reading.table s.table

def Holds (s : OutboxSystem) (id : ℕ) (alert : Alert) : Prop :=
  ∃ row ∈ s.table.rows, row.id = id ∧ row.alert = alert

def TaskInv (s : OutboxSystem) : Task → Prop
  | .idle => True
  | .enqueued id alert => s.Holds id alert
  | .answered id alert outcome =>
    s.Holds id alert ∧ (outcome = .accepted → (id, alert) ∈ s.accepted)
  | .passing pass due left => s.PassInv pass due left ∧ ∀ row ∈ due, s.Holds row.id row.alert
  | .settling pass row outcome due left =>
    s.PassInv pass due left ∧ (∀ other ∈ row :: due, s.Holds other.id other.alert) ∧
      (outcome = .accepted → (row.id, row.alert) ∈ s.accepted)

structure Inv (s : OutboxSystem) : Prop where
  numbered : Alerts.Numbered s.table
  delivered : s.DeliveredAccepted
  tasks : ∀ p, s.TaskInv (s.tasks p)

/-- What a step may do to the rows and the record of the sends. -/
structure Later (s s' : OutboxSystem) : Prop where
  persist : Persist s.table s'.table
  accepted : s.accepted ⊆ s'.accepted

theorem Later.refl (s : OutboxSystem) : s.Later s := ⟨Persist.refl _, List.Subset.refl _⟩

variable {s s' : OutboxSystem} {outbox : AlertOutbox} {minSeverity : Severity}

variable {id : ℕ} {alert : Alert}

theorem Holds.later (h : s.Holds id alert) (hlater : s.Later s') : s'.Holds id alert := by
  obtain ⟨row, hrow, hid, halert⟩ := h
  obtain ⟨row', hrow', hid', -, halert'⟩ := hlater.persist row hrow
  exact ⟨row', hrow', hid'.trans hid, halert'.trans halert⟩

variable {left : List (List String)} {due : List OutboxRow}

theorem PassInv.later {pass : RetryPass} (h : s.PassInv pass due left)
    (hlater : s.Later s') : s'.PassInv pass due left :=
  ⟨h.channels, h.attempted, h.numbered, fun r hr => (h.persist r hr).trans hlater.persist⟩

variable {task : Task}

theorem TaskInv.later (h : s.TaskInv task) (hlater : s.Later s') : s'.TaskInv task := by
  cases task with
  | idle => trivial
  | enqueued id alert => exact Holds.later h hlater
  | answered id alert outcome => exact ⟨h.1.later hlater, fun ho => hlater.accepted (h.2 ho)⟩
  | passing pass due left => exact ⟨h.1.later hlater, fun row hrow => (h.2 row hrow).later hlater⟩
  | settling pass row outcome due left =>
    exact ⟨h.1.later hlater, fun other hother => (h.2.1 other hother).later hlater,
      fun ho => hlater.accepted (h.2.2 ho)⟩

variable {p : ℕ}

theorem Inv.goto (h : s.Inv) (hlater : s.Later s') (htasks : s'.tasks = s.tasks)
    (hnumbered : Alerts.Numbered s'.table) (hdelivered : s'.DeliveredAccepted)
    (htask : s'.TaskInv task) : (s'.goto p task).Inv := by
  have hgoto : s'.Later (s'.goto p task) := ⟨Persist.refl _, List.Subset.refl _⟩
  refine ⟨hnumbered, hdelivered, fun q => ?_⟩
  by_cases hq : q = p
  · subst hq
    change (s'.goto q task).TaskInv (Function.update s'.tasks q task q)
    rw [Function.update_self]
    exact htask.later hgoto
  · change (s'.goto p task).TaskInv (Function.update s'.tasks p task q)
    rw [Function.update_of_ne hq, htasks]
    exact ((h.tasks q).later hlater).later hgoto

theorem Inv.stay (h : s.Inv) (htask : s.TaskInv task) : (s.goto p task).Inv :=
  h.goto (Later.refl s) rfl h.numbered h.delivered htask

theorem later_heard (id : ℕ) (alert : Alert) (outcome : SendOutcome) :
    s.Later (s.heard id alert outcome) := by
  cases outcome with
  | accepted => exact ⟨Persist.refl _, List.subset_append_left _ _⟩
  | raised error => exact Later.refl s

theorem mem_accepted_heard {outcome : SendOutcome}
    (h : outcome = .accepted) : (id, alert) ∈ (s.heard id alert outcome).accepted := by
  subst h
  exact List.mem_append_right _ (List.mem_singleton.2 rfl)

theorem table_heard (id : ℕ) (alert : Alert) (outcome : SendOutcome) :
    (s.heard id alert outcome).table = s.table := by
  cases outcome <;> rfl

theorem tasks_heard (id : ℕ) (alert : Alert) (outcome : SendOutcome) :
    (s.heard id alert outcome).tasks = s.tasks := by
  cases outcome <;> rfl

theorem ended_heard (id : ℕ) (alert : Alert) (outcome : SendOutcome) :
    (s.heard id alert outcome).ended = s.ended := by
  cases outcome <;> rfl

theorem Inv.heard (h : s.Inv) (id : ℕ) (alert : Alert) (outcome : SendOutcome)
    (htask : (s.heard id alert outcome).TaskInv task) :
    ((s.heard id alert outcome).goto p task).Inv := by
  have hlater : s.Later (s.heard id alert outcome) := later_heard id alert outcome
  apply h.goto hlater (tasks_heard id alert outcome)
  · rw [table_heard]
    exact h.numbered
  · intro row hrow hdelivered
    rw [table_heard] at hrow
    exact hlater.accepted (h.delivered row hrow hdelivered)
  · exact htask

theorem Inv.markDelivered (h : s.Inv) (hholds : s.Holds id alert)
    (haccepted : (id, alert) ∈ s.accepted) (now : ℤ) {p : ℕ}
    (htask : s.TaskInv task) :
    ({ s with table := AlertOutbox.markDelivered s.table id now }.goto p task).Inv := by
  have hlater : s.Later { s with table := AlertOutbox.markDelivered s.table id now } :=
    ⟨persist_update (change_delivered now), List.Subset.refl _⟩
  apply h.goto hlater rfl (h.numbered.update (change_delivered now)) ?_ (htask.later hlater)
  intro row hrow hdelivered
  obtain ⟨old, hold, rfl⟩ := List.mem_map.1 hrow
  obtain ⟨held, hheld, hid, halert⟩ := hholds
  by_cases hsame : old.id = id
  · have heq := h.numbered.unique hold hheld (hsame.trans hid.symm)
    rw [if_pos hsame]
    subst heq
    rw [← hid, ← halert] at haccepted
    exact haccepted
  · rw [if_neg hsame] at hdelivered ⊢
    exact h.delivered old hold hdelivered

variable {error : PyText} {table : Table}

theorem Inv.markFailed (h : s.Inv) {now : ℤ}
    (hfailed : outbox.markFailed s.table id now error = .ok table)
    (htask : s.TaskInv task) : ({ s with table }.goto p task).Inv := by
  obtain ⟨change, hchange, hdelivered, rfl⟩ := markFailed_spec hfailed
  have hlater : s.Later { s with table := s.table.update id change } :=
    ⟨persist_update hchange, List.Subset.refl _⟩
  apply h.goto hlater rfl (h.numbered.update hchange) ?_ (htask.later hlater)
  intro row hrow hmarked
  obtain ⟨old, hold, rfl⟩ := List.mem_map.1 hrow
  obtain ⟨hid, -, halert⟩ := hchange.apply id old
  have hold' : old.deliveredAt.isSome = true := by
    split_ifs at hmarked
    · rwa [hdelivered] at hmarked
    · exact hmarked
  rw [hid, halert]
  exact h.delivered old hold hold'

theorem PassInv.read {pass : RetryPass} {channels : List String}
    (h : s.PassInv pass [] (channels :: left)) (hnumbered : Alerts.Numbered s.table) (now : ℤ) :
    s.PassInv { pass with readings := pass.readings ++ [⟨channels, s.table, now⟩] }
      (Reading.due ⟨channels, s.table, now⟩) left where
  channels := by
    rw [List.map_append, List.append_assoc]
    exact h.channels
  attempted := by
    have hattempted := h.attempted
    rw [List.map_nil, List.append_nil] at hattempted
    unfold RetryPass.dueIds at hattempted ⊢
    rw [List.flatMap_append, ← hattempted, List.flatMap_singleton]
  numbered r hr := by
    rcases List.mem_append.1 hr with hr | hr
    · exact h.numbered r hr
    · rw [List.mem_singleton.1 hr]
      exact hnumbered
  persist r hr := by
    rcases List.mem_append.1 hr with hr | hr
    · exact h.persist r hr
    · rw [List.mem_singleton.1 hr]
      exact Persist.refl s.table

theorem PassInv.attempt {pass : RetryPass} {row : OutboxRow}
    (h : s.PassInv pass (row :: due) left) :
    s.PassInv { pass with attempted := pass.attempted ++ [row.id] } due left where
  channels := h.channels
  attempted := by
    rw [List.append_assoc]
    exact h.attempted
  numbered := h.numbered
  persist := h.persist

theorem Inv.close (h : s.Inv) (pass : RetryPass) (p : ℕ) :
    ({ s with ended := s.ended ++ [pass] }.goto p .idle).Inv := by
  have hlater : s.Later { s with ended := s.ended ++ [pass] } :=
    ⟨Persist.refl _, List.Subset.refl _⟩
  exact h.goto hlater rfl h.numbered h.delivered trivial

theorem Inv.step (h : s.Inv) (action : OutboxAction) :
    (OutboxSystem.step outbox minSeverity s action).Inv := by
  cases action with
  | send p channel alert now =>
    unfold OutboxSystem.step
    dsimp only
    split
    · split_ifs
      · exact h
      · have hlater : s.Later
            { s with table := (AlertOutbox.enqueue s.table channel alert now).1 } :=
          ⟨persist_enqueue s.table channel alert now, List.Subset.refl _⟩
        apply h.goto hlater rfl (h.numbered.enqueue channel alert now)
        · intro row hrow hdelivered
          rcases List.mem_append.1 hrow with hrow | hrow
          · exact h.delivered row hrow hdelivered
          · rw [List.mem_singleton.1 hrow] at hdelivered
            cases hdelivered
        · exact ⟨_, List.mem_append_right _ (List.mem_singleton.2 rfl), rfl, rfl⟩
    · exact h
  | answer p outcome =>
    unfold OutboxSystem.step
    dsimp only
    split
    · rename_i id alert htask
      have hinv := h.tasks p
      rw [htask] at hinv
      exact h.heard id alert outcome ⟨Holds.later hinv (later_heard id alert outcome),
        mem_accepted_heard⟩
    · exact h
  | mark p now =>
    unfold OutboxSystem.step
    dsimp only
    split
    · rename_i id alert htask
      have hinv := h.tasks p
      rw [htask] at hinv
      exact h.markDelivered hinv.1 (hinv.2 rfl) now trivial
    · split
      · rename_i hfailed
        exact h.markFailed hfailed trivial
      · exact h.stay trivial
    · exact h
  | retry p groups =>
    unfold OutboxSystem.step
    dsimp only
    split
    · refine h.stay ⟨⟨rfl, rfl, ?_, ?_⟩, ?_⟩
      · exact fun r hr => absurd hr List.not_mem_nil
      · exact fun r hr => absurd hr List.not_mem_nil
      · exact fun r hr => absurd hr List.not_mem_nil
    · exact h
  | read p now =>
    unfold OutboxSystem.step
    dsimp only
    split
    · rename_i pass channels left htask
      have hinv := h.tasks p
      rw [htask] at hinv
      refine h.stay ⟨hinv.1.read h.numbered now, fun row hrow => ?_⟩
      exact ⟨row, (List.mem_filter.1 (List.mem_filter.1 hrow).1).1, rfl, rfl⟩
    · exact h.close _ p
    · exact h
  | attempt p outcome =>
    unfold OutboxSystem.step
    dsimp only
    split
    · rename_i pass row due left htask
      have hinv := h.tasks p
      rw [htask] at hinv
      have hlater : s.Later (s.heard row.id row.alert outcome) :=
        later_heard row.id row.alert outcome
      exact h.heard row.id row.alert outcome ⟨hinv.1.attempt.later hlater,
        fun other hother => (hinv.2 other hother).later hlater, mem_accepted_heard⟩
    · exact h
  | settle p now =>
    unfold OutboxSystem.step
    dsimp only
    split
    · rename_i pass row due left htask
      have hinv := h.tasks p
      rw [htask] at hinv
      exact h.markDelivered (hinv.2.1 row List.mem_cons_self) (hinv.2.2 rfl) now
        ⟨hinv.1, fun other hother => hinv.2.1 other (List.mem_cons_of_mem _ hother)⟩
    · rename_i pass row error due left htask
      have hinv := h.tasks p
      rw [htask] at hinv
      split
      · rename_i hfailed
        exact h.markFailed hfailed
          ⟨hinv.1, fun other hother => hinv.2.1 other (List.mem_cons_of_mem _ hother)⟩
      · exact h.close _ p
    · exact h
  | crash p => exact h.stay trivial

theorem inv_fresh : fresh.Inv where
  numbered := ⟨List.Pairwise.nil, fun _ hrow => absurd hrow List.not_mem_nil⟩
  delivered _ hrow := absurd hrow List.not_mem_nil
  tasks _ := trivial

theorem step_persist (outbox : AlertOutbox) (minSeverity : Severity) (s : OutboxSystem)
    (action : OutboxAction) : Persist s.table (step outbox minSeverity s action).table := by
  cases action with
  | send p channel alert now =>
    unfold step
    dsimp only
    split
    · split_ifs
      · exact Persist.refl _
      · exact persist_enqueue s.table channel alert now
    · exact Persist.refl _
  | answer p outcome =>
    unfold step
    dsimp only
    split
    · rename_i id alert _
      exact (later_heard id alert outcome).persist
    · exact Persist.refl _
  | mark p now | settle p now =>
    unfold step
    dsimp only
    split
    · exact persist_update (change_delivered now)
    · split
      · rename_i hfailed
        obtain ⟨change, hchange, -, htable⟩ := markFailed_spec hfailed
        rw [htable]
        exact persist_update hchange
      · exact Persist.refl _
    · exact Persist.refl _
  | retry p groups =>
    unfold step
    dsimp only
    split
    · exact Persist.refl _
    · exact Persist.refl _
  | read p now =>
    unfold step
    dsimp only
    split
    · exact Persist.refl _
    · exact Persist.refl _
    · exact Persist.refl _
  | attempt p outcome =>
    unfold step
    dsimp only
    split
    · rename_i row _ _ _
      exact (later_heard row.id row.alert outcome).persist
    · exact Persist.refl _
  | crash p => exact Persist.refl _

theorem PassInv.nodup {pass : RetryPass} (h : s.PassInv pass due left)
    (hnumbered : Alerts.Numbered s.table)
    (hgroups : (pass.readings.map Reading.channels).flatten.Nodup) : pass.dueIds.Nodup := by
  unfold RetryPass.dueIds
  rw [List.nodup_flatMap]
  constructor
  · intro reading hreading
    exact (pending_nodup (h.numbered reading hreading) reading.now).sublist
      (List.filter_sublist.map OutboxRow.id)
  · rw [List.nodup_flatten, List.pairwise_map] at hgroups
    apply hgroups.2.imp_of_mem
    intro reading reading' hreading hreading' hdisjoint id hid hid'
    obtain ⟨row, hrow, rfl⟩ := List.mem_map.1 hid
    obtain ⟨row', hrow', heq⟩ := List.mem_map.1 hid'
    obtain ⟨hpending, hchannel⟩ := List.mem_filter.1 hrow
    obtain ⟨hpending', hchannel'⟩ := List.mem_filter.1 hrow'
    obtain ⟨now, hnow, hid, hsame, -⟩ :=
      h.persist reading hreading row (List.mem_filter.1 hpending).1
    obtain ⟨now', hnow', hid', hsame', -⟩ :=
      h.persist reading' hreading' row' (List.mem_filter.1 hpending').1
    have hunique := hnumbered.unique hnow hnow' (hid.trans (heq.symm.trans hid'.symm))
    rw [hunique, hsame'] at hsame
    have hboth := of_decide_eq_true hchannel
    rw [← hsame] at hboth
    exact hdisjoint hboth (of_decide_eq_true hchannel')

theorem PassInv.complete_iff {pass : RetryPass} (h : s.PassInv pass due left)
    (hnumbered : Alerts.Numbered s.table) : pass.Complete ↔ due = [] ∧ left = [] := by
  constructor
  · intro hcomplete
    have hdue := h.attempted
    have hleft := h.channels
    rw [hcomplete.attempted] at hdue
    rw [hcomplete.channels] at hleft
    exact ⟨List.map_eq_nil_iff.1 (List.append_right_eq_self.1 hdue),
      List.append_right_eq_self.1 hleft⟩
  · rintro ⟨rfl, rfl⟩
    have hattempted := h.attempted
    have hchannels := h.channels
    rw [List.map_nil, List.append_nil] at hattempted
    rw [List.append_nil] at hchannels
    refine ⟨hchannels, hattempted, fun reading hreading => ?_, fun hgroups => ?_⟩
    · exact (pending_nodup (h.numbered reading hreading) reading.now).sublist
        (List.filter_sublist.map OutboxRow.id)
    · rw [hattempted]
      rw [← hchannels] at hgroups
      exact h.nodup hnumbered hgroups

theorem step_ended (h : s.Inv) (action : OutboxAction) :
    (∀ pass ∈ (step outbox minSeverity s action).ended, pass.Complete) ↔
      (∀ pass ∈ s.ended, pass.Complete) ∧ s.Books outbox action := by
  cases action with
  | send p channel alert now =>
    unfold step
    dsimp only
    split
    · split_ifs
      · exact (and_iff_left trivial).symm
      · exact (and_iff_left trivial).symm
    · exact (and_iff_left trivial).symm
  | answer p outcome =>
    unfold step
    dsimp only
    split
    · rename_i id alert _
      change (∀ pass ∈ (s.heard id alert outcome).ended, pass.Complete) ↔ _
      rw [ended_heard]
      exact (and_iff_left trivial).symm
    · exact (and_iff_left trivial).symm
  | mark p now =>
    unfold step
    dsimp only
    split
    · exact (and_iff_left trivial).symm
    · split
      · exact (and_iff_left trivial).symm
      · exact (and_iff_left trivial).symm
    · exact (and_iff_left trivial).symm
  | retry p groups =>
    unfold step
    dsimp only
    split
    · exact (and_iff_left trivial).symm
    · exact (and_iff_left trivial).symm
  | read p now =>
    unfold step
    dsimp only
    split
    · exact (and_iff_left trivial).symm
    · rename_i pass htask
      have hinv := h.tasks p
      rw [htask] at hinv
      have hcomplete := (hinv.1.complete_iff h.numbered).2 ⟨rfl, rfl⟩
      constructor
      · exact fun hall => ⟨fun other hother => hall other (List.mem_append_left _ hother), trivial⟩
      · rintro ⟨hall, -⟩ other hother
        rcases List.mem_append.1 hother with hother | hother
        · exact hall other hother
        · rwa [List.mem_singleton.1 hother]
    · exact (and_iff_left trivial).symm
  | attempt p outcome =>
    unfold step
    dsimp only
    split
    · rename_i row _ _ _
      change (∀ pass ∈ (s.heard row.id row.alert outcome).ended, pass.Complete) ↔ _
      rw [ended_heard]
      exact (and_iff_left trivial).symm
    · exact (and_iff_left trivial).symm
  | settle p now =>
    cases htask : s.tasks p with
    | settling pass row outcome due left =>
      cases outcome with
      | accepted =>
        simp only [step, Books, htask]
        exact (and_iff_left trivial).symm
      | raised error =>
        have hinv := h.tasks p
        rw [htask] at hinv
        have hcomplete := hinv.1.complete_iff h.numbered
        have hbookable := outbox.markFailed_ok_iff s.table row.id now error
        simp only [step, Books, htask]
        cases hfailed : outbox.markFailed s.table row.id now error with
        | ok table =>
          rw [hfailed] at hbookable
          exact (and_iff_left (Or.inl (hbookable.1 ⟨table, rfl⟩))).symm
        | error e =>
          have hnot : ¬ outbox.Bookable s.table row.id now error := by
            rw [← hbookable, hfailed]
            rintro ⟨table, htable⟩
            cases htable
          constructor
          · intro hall
            refine ⟨fun other hother => hall other (List.mem_append_left _ hother), Or.inr ?_⟩
            exact hcomplete.1 (hall pass (List.mem_append_right _ (List.mem_singleton.2 rfl)))
          · rintro ⟨hall, hbooks⟩ other hother
            rcases List.mem_append.1 hother with hother | hother
            · exact hall other hother
            · rw [List.mem_singleton.1 hother]
              exact hcomplete.2 (hbooks.resolve_left hnot)
    | idle | enqueued id alert | answered id alert outcome | passing pass due left =>
      simp only [step, Books, htask]
      exact (and_iff_left trivial).symm
  | crash p => exact (and_iff_left trivial).symm

theorem exec_ended (h : s.Inv) (actions : List OutboxAction) :
    (∀ pass ∈ (exec (step outbox minSeverity) s actions).ended, pass.Complete) ↔
      (∀ pass ∈ s.ended, pass.Complete) ∧
        Along (Books outbox) (step outbox minSeverity) s actions := by
  induction actions generalizing s with
  | nil => exact (and_iff_left trivial).symm
  | cons action actions ih =>
    rw [exec_cons, ih (h.step action), step_ended h action, along_cons, and_assoc]

/-- In every run: a row is marked delivered only after a send of its alert returned, and no row is
dropped; and every retry pass that is not cut by a crash attempts every due row of its channels
once, exactly when no failed attempt that cannot be booked leaves work of its pass undone. -/
theorem owed_until_accepted (outbox : AlertOutbox) (minSeverity : Severity)
    (actions later : List OutboxAction) :
    (exec (step outbox minSeverity) fresh actions).DeliveredAccepted ∧
      Persist (exec (step outbox minSeverity) fresh actions).table
        (exec (step outbox minSeverity) fresh (actions ++ later)).table ∧
      ((∀ pass ∈ (exec (step outbox minSeverity) fresh actions).ended, pass.Complete) ↔
        Along (Books outbox) (step outbox minSeverity) fresh actions) := by
  have hinv : (exec (step outbox minSeverity) fresh actions).Inv :=
    exec_invariant (fun s action h => h.step action) inv_fresh actions
  refine ⟨hinv.delivered, ?_, ?_⟩
  · rw [exec_append]
    generalize exec (step outbox minSeverity) fresh actions = s
    induction later generalizing s with
    | nil => exact Persist.refl _
    | cons action later ih =>
      exact (step_persist outbox minSeverity s action).trans (ih _)
  · rw [exec_ended inv_fresh]
    exact and_iff_right fun pass hpass => absurd hpass List.not_mem_nil

def alarm : Alert := ⟨.critical, "worker_down"⟩

def hourly (k : ℕ) : ℤ := k * (3600 * 10 ^ 6)

def failingPass (k : ℕ) : List OutboxAction :=
  [.retry 0 [["webhook"]], .read 0 (hourly k), .attempt 0 (.raised []), .settle 0 (hourly k)]

def outage : ℕ → List OutboxAction
  | 0 => [.send 0 "webhook" alarm 0, .crash 0]
  | k + 1 => outage k ++ failingPass (k + 1) ++ [.read 0 (hourly (k + 1))]

/-- The one row has failed so often, and is due at the next hour. -/
structure Down (s : OutboxSystem) (k : ℕ) (row : OutboxRow) : Prop where
  rows : s.table.rows = [row]
  id : row.id = 1
  channel : row.channel = "webhook"
  attempts : row.attempts = k
  undelivered : row.deliveredAt = none
  due : row.nextAttemptAt ≤ hourly (k + 1)
  lastId : s.table.lastId = 1
  task : s.tasks 0 = .idle
  ended : ∀ pass ∈ s.ended, pass.Complete

variable {delay : ℚ}

theorem nextAttempt_le {k : ℕ} (hnonneg : 0 ≤ delay) (hdelay : delay ≤ 3600) :
    0 ≤ Text.roundHalfEven (((hourly k : ℤ) / 10 ^ 6 + delay) * 10 ^ 6) ∧
      Text.roundHalfEven (((hourly k : ℤ) / 10 ^ 6 + delay) * 10 ^ 6) ≤ hourly (k + 1) := by
  have hhour : ((hourly k : ℤ) : ℚ) = k * (3600 * 10 ^ 6) := by
    unfold hourly
    push_cast
    ring
  have hhour' : ((hourly (k + 1) : ℤ) : ℚ) = (k + 1) * (3600 * 10 ^ 6) := by
    unfold hourly
    push_cast
    ring
  have hk : (0 : ℚ) ≤ k := Nat.cast_nonneg k
  constructor
  · apply Text.roundHalfEven_nonneg
    rw [hhour]
    positivity
  · apply Text.roundHalfEven_le_intCast
    rw [hhour, hhour']
    linarith

theorem attemptsOf_cons (row : OutboxRow) (rest : List OutboxRow) (lastId : ℕ) :
    Table.attemptsOf ⟨row :: rest, lastId⟩ row.id = row.attempts := by
  unfold Table.attemptsOf
  simp

theorem hourly_lt_maxInstant {k : ℕ} (hk : k ≤ 1025) : hourly k < maxInstant := by
  unfold hourly maxInstant
  omega

theorem fromTimestamp_hourly {k : ℕ} (hk : k < 1025) (hnonneg : 0 ≤ delay)
    (hdelay : delay ≤ 3600) : ∃ next, fromTimestamp ((hourly k : ℤ) / 10 ^ 6 + delay) = .ok next ∧
      next ≤ hourly (k + 1) := by
  obtain ⟨hlow, hhigh⟩ := nextAttempt_le (k := k) hnonneg hdelay
  have hmax : hourly (k + 1) < maxInstant := hourly_lt_maxInstant hk
  have hmin : minInstant ≤ 0 := by decide
  refine ⟨_, ?_, hhigh⟩
  unfold fromTimestamp
  rw [if_neg]
  rintro (hyear | hyear)
  · exact absurd hyear (not_lt.2 (hmin.trans hlow))
  · exact absurd (hyear.trans hhigh) (not_le.2 hmax)

theorem markFailed_of {outbox : AlertOutbox} {now next : ℤ}
    (hdelay : outbox.delay (table.attemptsOf id + 1) = .ok delay)
    (hdate : fromTimestamp (now / 10 ^ 6 + delay) = .ok next)
    (htext : encodable (error.take 500) = true) :
    outbox.markFailed table id now error = .ok (table.update id fun row =>
      { row with
        attempts := table.attemptsOf id + 1, lastAttemptAt := some now, nextAttemptAt := next
        lastError := error.take 500 }) := by
  unfold AlertOutbox.markFailed
  dsimp only
  rw [hdelay]
  dsimp only
  rw [hdate]
  dsimp only
  rw [if_pos htext]

theorem Down.booked {s : OutboxSystem} {k : ℕ} {row : OutboxRow} (h : s.Down k row)
    (hk : k < 1024) : ∃ row', defaultOutbox.markFailed s.table row.id (hourly (k + 1)) [] =
        .ok { s.table with rows := [row'] } ∧ row'.id = 1 ∧ row'.channel = "webhook" ∧
      row'.attempts = k + 1 ∧ row'.deliveredAt = none ∧ row'.nextAttemptAt ≤ hourly (k + 2) := by
  have hattempts : s.table.attemptsOf row.id = k := by
    have heq := attemptsOf_cons row [] s.table.lastId
    rw [← h.rows] at heq
    exact heq.trans h.attempts
  have hdelay : defaultOutbox.delay (s.table.attemptsOf row.id + 1) =
      .ok (min (30 * 2 ^ k) 3600) := by
    rw [hattempts]
    unfold AlertOutbox.delay
    rw [if_neg (by omega)]
    rfl
  have hnonneg : (0 : ℚ) ≤ min (30 * 2 ^ k) 3600 := by positivity
  obtain ⟨next, hdate, hnext⟩ :=
    fromTimestamp_hourly (k := k + 1) (by omega) hnonneg (min_le_right _ _)
  refine ⟨{ row with
    attempts := k + 1, lastAttemptAt := some (hourly (k + 1)), lastError := List.take 500 []
    nextAttemptAt := next }, ?_, h.id, h.channel, rfl, h.undelivered, hnext⟩
  rw [markFailed_of hdelay hdate (congrArg encodable List.take_nil), hattempts]
  unfold Table.update
  rw [h.rows, List.map_singleton, if_pos rfl]

theorem Down.due_eq {s : OutboxSystem} {k : ℕ} {row : OutboxRow} (h : s.Down k row) :
    Reading.due ⟨["webhook"], s.table, hourly (k + 1)⟩ = [row] := by
  unfold Reading.due AlertOutbox.pending
  simp [h.rows, h.undelivered, h.due, h.channel]

theorem Down.pass {s : OutboxSystem} {k : ℕ} {row : OutboxRow} (h : s.Down k row)
    (hk : k < 1024) : ∃ row', (exec (step defaultOutbox .critical) s
      (failingPass (k + 1) ++ [.read 0 (hourly (k + 1))])).Down (k + 1) row' := by
  obtain ⟨row', hfailed, hid, hchannel, hattempts, hundelivered, hdue⟩ := h.booked hk
  refine ⟨row', ?_⟩
  have hrun : exec (step defaultOutbox .critical) s
      (failingPass (k + 1) ++ [.read 0 (hourly (k + 1))]) =
      ⟨{ s.table with rows := [row'] }, Function.update s.tasks 0 .idle, s.accepted,
        s.ended ++ [⟨[["webhook"]], [⟨["webhook"], s.table, hourly (k + 1)⟩], [row.id]⟩]⟩ := by
    simp [failingPass, step, goto, heard, h.task, h.due_eq, hfailed]
  rw [hrun]
  refine ⟨rfl, hid, hchannel, hattempts, hundelivered, hdue, h.lastId, rfl, fun pass hpass => ?_⟩
  rcases List.mem_append.1 hpass with hpass | hpass
  · exact h.ended pass hpass
  · rw [List.mem_singleton.1 hpass]
    refine ⟨rfl, ?_, ?_, fun _ => List.nodup_singleton _⟩
    · unfold RetryPass.dueIds
      rw [List.flatMap_singleton, h.due_eq, List.map_singleton]
    · intro reading hreading
      rw [List.mem_singleton.1 hreading, h.due_eq]
      exact List.nodup_singleton _

theorem down_outage {k : ℕ} (hk : k ≤ 1024) :
    ∃ row, (exec (step defaultOutbox .critical) fresh (outage k)).Down k row := by
  induction k with
  | zero =>
    refine ⟨⟨1, "webhook", alarm, 0, 0, none, 0, [], none⟩, rfl, rfl, rfl, rfl, rfl, ?_, rfl, rfl,
      ?_⟩
    · decide
    · exact fun pass hpass => absurd hpass List.not_mem_nil
  | succ k ih =>
    obtain ⟨row, hdown⟩ := ih (by omega)
    rw [outage, List.append_assoc, exec_append]
    exact hdown.pass (by omega)

theorem Down.unbooked {s : OutboxSystem} {row : OutboxRow} (h : s.Down 1024 row)
    (rest : List OutboxRow) (lastId : ℕ) (now : ℤ) :
    defaultOutbox.markFailed ⟨row :: rest, lastId⟩ row.id now [] = .error .overflow := by
  have hattempts : Table.attemptsOf ⟨row :: rest, lastId⟩ row.id = 1024 :=
    (attemptsOf_cons row rest lastId).trans h.attempts
  unfold AlertOutbox.markFailed
  dsimp only
  rw [hattempts]
  rfl

def secondRow : OutboxRow := ⟨2, "webhook", alarm, 0, 0, none, 0, [], none⟩

def lastReading (row : OutboxRow) : Reading := ⟨["webhook"], ⟨[row, secondRow], 2⟩, hourly 1025⟩

theorem Down.due_lastReading {s : OutboxSystem} {row : OutboxRow} (h : s.Down 1024 row) :
    (lastReading row).due = [row, secondRow] := by
  have hsecond : (0 : ℤ) ≤ hourly 1025 := by decide
  unfold Reading.due AlertOutbox.pending
  simp [lastReading, secondRow, h.undelivered, h.due, h.channel, hsecond]

theorem ended_failingPass {s : OutboxSystem} {k : ℕ} {row : OutboxRow} {error : OutboxError}
    (hidle : s.tasks 0 = .idle)
    (hdue : Reading.due ⟨["webhook"], s.table, hourly k⟩ = row :: due)
    (hfailed : defaultOutbox.markFailed s.table row.id (hourly k) [] = .error error) :
    (exec (step defaultOutbox .critical) s (failingPass k)).ended =
      s.ended ++ [⟨[["webhook"]], [⟨["webhook"], s.table, hourly k⟩], [row.id]⟩] := by
  simp [failingPass, step, goto, heard, hidle, hdue, hfailed]

theorem Down.blocked {s : OutboxSystem} {row : OutboxRow} (h : s.Down 1024 row) :
    (exec (step defaultOutbox .critical) s
      ([.send 0 "webhook" alarm 0, .crash 0] ++ failingPass 1025)).ended =
      s.ended ++ [⟨[["webhook"]], [lastReading row], [row.id]⟩] := by
  have hsend : exec (step defaultOutbox .critical) s [.send 0 "webhook" alarm 0, .crash 0] =
      ⟨⟨[row, secondRow], 2⟩, Function.update s.tasks 0 .idle, s.accepted, s.ended⟩ := by
    simp [step, goto, h.task, AlertOutbox.enqueue, h.rows, h.lastId, alarm, Severity.rank,
      secondRow]
  have hidle : Function.update s.tasks 0 Task.idle 0 = .idle := Function.update_self _ _ _
  rw [exec_append, hsend]
  exact ended_failingPass hidle h.due_lastReading (h.unbooked [secondRow] 2 (hourly 1025))

/-- After 1024 failures a second alert is owed; the next pass cannot book the failure of the
first row, and does not attempt the second. -/
theorem long_outage_blocks_the_next_row : ∃ pass ∈ (exec (step defaultOutbox .critical) fresh
    (outage 1024 ++ [.send 0 "webhook" alarm 0, .crash 0] ++ failingPass 1025)).ended,
      ¬ pass.Complete := by
  obtain ⟨row, h⟩ := down_outage (le_refl 1024)
  rw [List.append_assoc, exec_append]
  generalize exec (step defaultOutbox .critical) fresh (outage 1024) = s at h
  refine ⟨⟨[["webhook"]], [lastReading row], [row.id]⟩, ?_, fun hcomplete => ?_⟩
  · rw [h.blocked]
    exact List.mem_append_right _ (List.mem_singleton.2 rfl)
  · have hattempted := hcomplete.attempted
    unfold RetryPass.dueIds at hattempted
    rw [List.flatMap_singleton, h.due_lastReading] at hattempted
    cases hattempted

end OutboxSystem

end Fiboki
