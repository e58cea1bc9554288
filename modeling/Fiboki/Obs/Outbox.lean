import Fiboki.Core.Text
import Mathlib.Data.List.Nodup

/-!
The outbox of critical alerts: a row is written before the send, and marked after it.

Instants are microseconds of the UTC clock.  What the database raises on its own is a crash.
-/

namespace Fiboki

open Text

namespace Alerts

inductive Severity where
  | info
  | warning
  | error
  | critical

def Severity.rank : Severity → ℕ
  | info => 0
  | warning => 1
  | error => 2
  | critical => 3

structure Alert where
  severity : Severity
  json : String

abbrev PyText := List ℕ

def encodable (text : PyText) : Bool := text.all fun c => !(0xD800 ≤ c && c ≤ 0xDFFF)

structure OutboxRow where
  id : ℕ
  channel : String
  alert : Alert
  enqueuedAt : ℤ
  attempts : ℕ
  lastAttemptAt : Option ℤ
  nextAttemptAt : ℤ
  lastError : PyText
  deliveredAt : Option ℤ

/-- The `alert_outbox` table, its rows by ascending id. -/
structure Table where
  rows : List OutboxRow
  lastId : ℕ

namespace Table

def empty : Table := ⟨[], 0⟩

/-- `UPDATE ... WHERE id = ?`. -/
def update (table : Table) (id : ℕ) (change : OutboxRow → OutboxRow) : Table :=
  { table with rows := table.rows.map fun row => if row.id = id then change row else row }

def attemptsOf (table : Table) (id : ℕ) : ℕ :=
  match table.rows.find? fun row => row.id = id with
  | none => 0
  | some row => row.attempts

end Table

inductive OutboxError where
  /-- `int too large to convert to float`. -/
  | overflow
  /-- `year is out of range`. -/
  | year
  /-- `surrogates not allowed`. -/
  | surrogates

structure AlertOutbox where
  baseBackoffSeconds : ℚ
  maxBackoffSeconds : ℚ

def defaultOutbox : AlertOutbox := ⟨30, 3600⟩

def minInstant : ℤ := -62135596800 * 10 ^ 6

def maxInstant : ℤ := 253402300800 * 10 ^ 6

def fromTimestamp (seconds : ℚ) : Except OutboxError ℤ :=
  let t := roundHalfEven (seconds * 10 ^ 6)
  if t < minInstant ∨ maxInstant ≤ t then .error .year else .ok t

namespace AlertOutbox

variable (outbox : AlertOutbox)

def enqueue (table : Table) (channel : String) (alert : Alert) (now : ℤ) : Table × ℕ :=
  let id := table.lastId + 1
  (⟨table.rows ++ [⟨id, channel, alert, now, 0, none, now, [], none⟩], id⟩, id)

def markDelivered (table : Table) (id : ℕ) (now : ℤ) : Table :=
  table.update id fun row =>
    { row with deliveredAt := some now, attempts := row.attempts + 1, lastAttemptAt := some now }

/-- The delay doubles with each attempt.  A power of two from `2 ** 1024` on has no float. -/
def delay (attempts : ℕ) : Except OutboxError ℚ :=
  if 1024 ≤ attempts - 1 then .error .overflow
  else .ok (min (outbox.baseBackoffSeconds * 2 ^ (attempts - 1)) outbox.maxBackoffSeconds)

def markFailed (table : Table) (id : ℕ) (now : ℤ) (error : PyText) : Except OutboxError Table :=
  let attempts := table.attemptsOf id + 1
  match outbox.delay attempts with
  | .error e => .error e
  | .ok delay =>
    match fromTimestamp (now / 10 ^ 6 + delay) with
    | .error e => .error e
    | .ok next =>
      if encodable (error.take 500) then
        .ok (table.update id fun row =>
          { row with
            attempts, lastAttemptAt := some now, nextAttemptAt := next
            lastError := error.take 500 })
      else .error .surrogates

def pending (table : Table) (now : ℤ) : List OutboxRow :=
  table.rows.filter fun row => row.deliveredAt.isNone && row.nextAttemptAt ≤ now

/-- The failure can be booked: the row has been attempted fewer than 1024 times, its next attempt
has a date, and the error has a text that the database stores. -/
structure Bookable (table : Table) (id : ℕ) (now : ℤ) (error : PyText) : Prop where
  attempts : table.attemptsOf id < 1024
  date : ∀ delay, outbox.delay (table.attemptsOf id + 1) = .ok delay →
    minInstant ≤ roundHalfEven ((now / 10 ^ 6 + delay) * 10 ^ 6) ∧
      roundHalfEven ((now / 10 ^ 6 + delay) * 10 ^ 6) < maxInstant
  text : encodable (error.take 500) = true

theorem markFailed_ok_iff (table : Table) (id : ℕ) (now : ℤ) (error : PyText) :
    (∃ table', outbox.markFailed table id now error = .ok table') ↔
      outbox.Bookable table id now error := by
  unfold markFailed
  dsimp only
  by_cases hattempts : table.attemptsOf id < 1024
  · have hdelay : outbox.delay (table.attemptsOf id + 1) =
        .ok (min (outbox.baseBackoffSeconds * 2 ^ table.attemptsOf id)
          outbox.maxBackoffSeconds) := by
      unfold delay
      rw [if_neg (by omega)]
      rfl
    rw [hdelay]
    dsimp only
    unfold fromTimestamp
    dsimp only
    split_ifs with hyear htext
    · refine iff_of_false (by rintro ⟨table', h⟩; cases h) ?_
      intro hbook
      have := hbook.date _ hdelay
      omega
    · refine iff_of_true ⟨_, rfl⟩ ⟨hattempts, ?_, htext⟩
      intro other hother
      rw [hdelay] at hother
      rw [← Except.ok.inj hother]
      omega
    · refine iff_of_false (by rintro ⟨table', h⟩; cases h) ?_
      intro hbook
      exact htext hbook.text
  · have hdelay : outbox.delay (table.attemptsOf id + 1) = .error .overflow := by
      unfold delay
      rw [if_pos (by omega)]
    rw [hdelay]
    refine iff_of_false (by rintro ⟨table', h⟩; cases h) ?_
    intro hbook
    exact hattempts hbook.attempts

end AlertOutbox

def Persist (table table' : Table) : Prop :=
  ∀ row ∈ table.rows, ∃ row' ∈ table'.rows,
    row'.id = row.id ∧ row'.channel = row.channel ∧ row'.alert = row.alert

theorem Persist.refl (table : Table) : Persist table table :=
  fun row h => ⟨row, h, rfl, rfl, rfl⟩

theorem Persist.trans {table table' table'' : Table} (h : Persist table table')
    (h' : Persist table' table'') : Persist table table'' := by
  intro row hrow
  obtain ⟨row', hrow', hid, hchannel, halert⟩ := h row hrow
  obtain ⟨row'', hrow'', hid', hchannel', halert'⟩ := h' row' hrow'
  exact ⟨row'', hrow'', hid'.trans hid, hchannel'.trans hchannel, halert'.trans halert⟩

structure Numbered (table : Table) : Prop where
  ascending : (table.rows.map OutboxRow.id).Pairwise (· < ·)
  last : ∀ row ∈ table.rows, row.id ≤ table.lastId

variable {table : Table}

theorem Numbered.nodup (h : Numbered table) : (table.rows.map OutboxRow.id).Nodup :=
  h.ascending.imp fun hlt => hlt.ne

theorem Numbered.unique (h : Numbered table) {row row' : OutboxRow} (hrow : row ∈ table.rows)
    (hrow' : row' ∈ table.rows) (hid : row.id = row'.id) :
    row = row' := List.inj_on_of_nodup_map h.nodup hrow hrow' hid

structure Change (change : OutboxRow → OutboxRow) : Prop where
  id : ∀ row, (change row).id = row.id
  channel : ∀ row, (change row).channel = row.channel
  alert : ∀ row, (change row).alert = row.alert

section Update

variable {table : Table} {id : ℕ} {change : OutboxRow → OutboxRow}

theorem Change.apply (h : Change change) (id : ℕ) (row : OutboxRow) :
    (if row.id = id then change row else row).id = row.id ∧
      (if row.id = id then change row else row).channel = row.channel ∧
      (if row.id = id then change row else row).alert = row.alert := by
  split_ifs
  · exact ⟨h.id row, h.channel row, h.alert row⟩
  · exact ⟨rfl, rfl, rfl⟩

theorem persist_update (h : Change change) : Persist table (table.update id change) :=
  fun row hrow => ⟨_, List.mem_map_of_mem hrow, h.apply id row⟩

theorem Numbered.update (h : Change change) (hnum : Numbered table) :
    Numbered (table.update id change) where
  ascending := by
    have hids : (table.update id change).rows.map OutboxRow.id = table.rows.map OutboxRow.id := by
      unfold Table.update
      rw [List.map_map]
      exact List.map_congr_left fun row _ => (h.apply id row).1
    rw [hids]
    exact hnum.ascending
  last row hrow := by
    obtain ⟨old, hold, rfl⟩ := List.mem_map.1 hrow
    rw [(h.apply id old).1]
    exact hnum.last old hold

end Update

theorem change_delivered (now : ℤ) : Change fun row =>
    { row with deliveredAt := some now, attempts := row.attempts + 1, lastAttemptAt := some now } :=
  ⟨fun _ => rfl, fun _ => rfl, fun _ => rfl⟩

theorem markFailed_spec {outbox : AlertOutbox} {table table' : Table} {id : ℕ} {now : ℤ}
    {error : PyText} (h : outbox.markFailed table id now error = .ok table') :
    ∃ change, Change change ∧ (∀ row, (change row).deliveredAt = row.deliveredAt) ∧
      table' = table.update id change := by
  unfold AlertOutbox.markFailed at h
  dsimp only at h
  split at h
  · cases h
  split at h
  · cases h
  split_ifs at h
  refine ⟨_, ?_, ?_, (Except.ok.inj h).symm⟩
  · exact ⟨fun _ => rfl, fun _ => rfl, fun _ => rfl⟩
  · exact fun _ => rfl

theorem persist_enqueue (table : Table) (channel : String) (alert : Alert) (now : ℤ) :
    Persist table (AlertOutbox.enqueue table channel alert now).1 :=
  fun row hrow => ⟨row, List.mem_append_left _ hrow, rfl, rfl, rfl⟩

theorem Numbered.enqueue (h : Numbered table) (channel : String) (alert : Alert)
    (now : ℤ) : Numbered (AlertOutbox.enqueue table channel alert now).1 where
  ascending := by
    unfold AlertOutbox.enqueue
    rw [List.map_append, List.pairwise_append]
    refine ⟨h.ascending, List.pairwise_singleton _ _, fun id hid id' hid' => ?_⟩
    obtain ⟨row, hrow, rfl⟩ := List.mem_map.1 hid
    rw [List.map_singleton, List.mem_singleton] at hid'
    rw [hid']
    exact Nat.lt_succ_of_le (h.last row hrow)
  last row hrow := by
    rcases List.mem_append.1 hrow with hrow | hrow
    · exact Nat.le_succ_of_le (h.last row hrow)
    · rw [List.mem_singleton.1 hrow]
      exact le_refl _

theorem pending_nodup (h : Numbered table) (now : ℤ) :
    ((AlertOutbox.pending table now).map OutboxRow.id).Nodup :=
  h.nodup.sublist (List.filter_sublist.map OutboxRow.id)

end Alerts

end Fiboki
