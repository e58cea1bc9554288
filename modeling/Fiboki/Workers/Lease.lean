import Fiboki.Core.Enums
import Fiboki.Lib.Run

/-!
The single-writer lease: one row of `worker_lease` and any number of `WorkerLease`
objects, whose database transactions and clock readings interleave.

An object is known to the row by its holder string only.  The fence it will renew with
is read back in a transaction of its own, after the one that granted the lease.
-/

namespace Fiboki

open Runs

/-- The row of `worker_lease`. -/
structure LeaseRow where
  holder : String
  acquiredAt : Timestamp
  expiresAt : Timestamp
  fence : ℕ

def LeaseRow.liveAt (r : LeaseRow) (now : Timestamp) : Prop := now < r.expiresAt

instance (r : LeaseRow) (now : Timestamp) : Decidable (r.liveAt now) :=
  inferInstanceAs (Decidable (now < r.expiresAt))

/-- Where an object is in `acquire`, `renew` or `release`; a time is the clock reading
that the transaction to come will use. -/
inductive LeasePhase where
  | idle
  | opened
  | timed (now : Timestamp)
  | granted
  | renewing (now : Timestamp)
  | releasing (now : Timestamp)
  | crashed
  deriving DecidableEq

structure WorkerLease where
  holder : String
  ttl : Timestamp
  ttl_pos : 0 < ttl
  fence : ℕ
  held : Bool
  phase : LeasePhase

def WorkerLease.make (holder : String) (ttl : Timestamp) (ttl_pos : 0 < ttl) : WorkerLease :=
  ⟨holder, ttl, ttl_pos, 0, false, .idle⟩

/-- The database, the clock and the objects.  `grants` and `acquired` record who was
granted the lease and which calls of `acquire` returned, with the fence. -/
structure LeaseSystem (ι : Type) where
  row : Option LeaseRow
  clock : Timestamp
  advisory : Option ι
  leases : ι → WorkerLease
  grants : List ι
  acquired : List (ι × ℕ)

/-- `proceed` takes the next step of the call an object is in. -/
inductive LeaseEvent (ι : Type) where
  | tick (elapsed : ℕ)
  | acquire (o : ι)
  | renew (o : ι)
  | release (o : ι)
  | proceed (o : ι)
  | forceRelease (reading : Timestamp)
  | crash (o : ι)

namespace LeaseSystem

variable {ι : Type} [DecidableEq ι]

def fresh (clock : Timestamp) (leases : ι → WorkerLease) : LeaseSystem ι :=
  ⟨none, clock, none, fun o => .make (leases o).holder (leases o).ttl (leases o).ttl_pos, [], []⟩

def put (s : LeaseSystem ι) (o : ι) (lease : WorkerLease) : LeaseSystem ι :=
  { s with leases := Function.update s.leases o lease }

def goto (s : LeaseSystem ι) (o : ι) (phase : LeasePhase) : LeaseSystem ι :=
  s.put o { s.leases o with phase }

def dropAdvisory (s : LeaseSystem ι) (o : ι) : LeaseSystem ι :=
  if s.advisory = some o then { s with advisory := none } else s

/-- The transaction of `acquire`: an update of a free row or of one's own, the insert of
the first row, or a refusal. -/
def takeRow (s : LeaseSystem ι) (o : ι) (now : Timestamp) : LeaseSystem ι :=
  let lease := s.leases o
  let row fence : LeaseRow := ⟨lease.holder, now, now + lease.ttl, fence⟩
  match s.row with
  | none => { s.goto o .granted with row := some (row 1), grants := s.grants ++ [o] }
  | some r =>
    if r.expiresAt ≤ now ∨ r.holder = lease.holder then
      { s.goto o .granted with row := some (row (r.fence + 1)), grants := s.grants ++ [o] }
    else (s.goto o .idle).dropAdvisory o

def readBack (s : LeaseSystem ι) (o : ι) : LeaseSystem ι :=
  match s.row with
  | some r =>
    if r.holder = (s.leases o).holder then
      { s.put o { s.leases o with fence := r.fence, held := true, phase := .idle } with
        acquired := s.acquired ++ [(o, r.fence)] }
    else (s.goto o .idle).dropAdvisory o
  | none => (s.goto o .idle).dropAdvisory o

/-- The row is the object's by holder and fence: the guard of `renew`. -/
def CanRenew (s : LeaseSystem ι) (o : ι) : Prop :=
  ∃ r, s.row = some r ∧ r.holder = (s.leases o).holder ∧ r.fence = (s.leases o).fence

def renewRow (s : LeaseSystem ι) (o : ι) (now : Timestamp) : LeaseSystem ι :=
  let lease := s.leases o
  match s.row with
  | some r =>
    if r.holder = lease.holder ∧ r.fence = lease.fence then
      { s.goto o .idle with row := some { r with expiresAt := now + lease.ttl } }
    else s.put o { lease with held := false, phase := .idle }
  | none => s.put o { lease with held := false, phase := .idle }

/-- The transaction of `release`, which asks for the holder only. -/
def releaseRow (s : LeaseSystem ι) (o : ι) (now : Timestamp) : LeaseSystem ι :=
  let lease := s.leases o
  let after := (s.put o { lease with held := false, phase := .idle }).dropAdvisory o
  match s.row with
  | some r =>
    if r.holder = lease.holder then { after with row := some { r with expiresAt := now } }
    else after
  | none => after

def proceed (s : LeaseSystem ι) (o : ι) : LeaseSystem ι :=
  match (s.leases o).phase with
  | .opened => s.goto o (.timed s.clock)
  | .timed now => s.takeRow o now
  | .granted => s.readBack o
  | .renewing now => s.renewRow o now
  | .releasing now => s.releaseRow o now
  | .idle | .crashed => s

/-- On PostgreSQL `acquire` first asks for the advisory lock, which one session has
until it drops it or ends. -/
def step (postgres : Bool) (s : LeaseSystem ι) : LeaseEvent ι → LeaseSystem ι
  | .tick elapsed => { s with clock := s.clock + elapsed }
  | .acquire o =>
    if (s.leases o).phase ≠ .idle then s
    else if postgres then
      if s.advisory.isSome then s else { s.goto o .opened with advisory := some o }
    else s.goto o .opened
  | .renew o => if (s.leases o).phase ≠ .idle then s else s.goto o (.renewing s.clock)
  | .release o => if (s.leases o).phase ≠ .idle then s else s.goto o (.releasing s.clock)
  | .proceed o => s.proceed o
  | .forceRelease reading =>
    if reading ≤ s.clock then
      { s with row := s.row.map fun r => { r with expiresAt := reading } }
    else s
  | .crash o => (s.goto o .crashed).dropAdvisory o

def rowFence (s : LeaseSystem ι) : ℕ := (s.row.map LeaseRow.fence).getD 0

/-- The step changes no holder, no fence, no record and finds nobody newly granted. -/
structure Quiet (s s' : LeaseSystem ι) : Prop where
  owner : s'.row.map (fun r => (r.holder, r.fence)) = s.row.map fun r => (r.holder, r.fence)
  grants : s'.grants = s.grants
  acquired : s'.acquired = s.acquired
  holder : ∀ o, (s'.leases o).holder = (s.leases o).holder
  fence : ∀ o, (s'.leases o).fence = (s.leases o).fence
  granted : ∀ o, (s'.leases o).phase = .granted → (s.leases o).phase = .granted
  timed : ∀ o now, (s'.leases o).phase = .timed now →
    (s.leases o).phase = .timed now ∨ now = s.clock
  clock : s.clock ≤ s'.clock

/-- The step grants the lease to `o`. -/
structure Grants (s s' : LeaseSystem ι) (o : ι) (now : Timestamp) : Prop where
  timed : (s.leases o).phase = .timed now
  free : ∀ r, s.row = some r → r.expiresAt ≤ now ∨ r.holder = (s.leases o).holder
  row : s'.row = some
    ⟨(s.leases o).holder, now, now + (s.leases o).ttl, s.rowFence + 1⟩
  grants : s'.grants = s.grants ++ [o]
  acquired : s'.acquired = s.acquired
  leases : s'.leases = (s.goto o .granted).leases
  clock : s'.clock = s.clock

/-- The step ends a call of `acquire` by `o`, which reads back the fence of the row. -/
structure Reads (s s' : LeaseSystem ι) (o : ι) (r : LeaseRow) : Prop where
  granted : (s.leases o).phase = .granted
  found : s.row = some r
  holder : r.holder = (s.leases o).holder
  row : s'.row = s.row
  grants : s'.grants = s.grants
  acquired : s'.acquired = s.acquired ++ [(o, r.fence)]
  leases : s'.leases = Function.update s.leases o
    { s.leases o with fence := r.fence, held := true, phase := .idle }
  clock : s'.clock = s.clock

variable (s : LeaseSystem ι) (o : ι)

@[simp] theorem dropAdvisory_row : (s.dropAdvisory o).row = s.row := by
  unfold dropAdvisory
  split <;> rfl

@[simp] theorem dropAdvisory_leases : (s.dropAdvisory o).leases = s.leases := by
  unfold dropAdvisory
  split <;> rfl

@[simp] theorem dropAdvisory_grants : (s.dropAdvisory o).grants = s.grants := by
  unfold dropAdvisory
  split <;> rfl

@[simp] theorem dropAdvisory_acquired : (s.dropAdvisory o).acquired = s.acquired := by
  unfold dropAdvisory
  split <;> rfl

@[simp] theorem dropAdvisory_clock : (s.dropAdvisory o).clock = s.clock := by
  unfold dropAdvisory
  split <;> rfl

theorem quiet_of_put {s s' : LeaseSystem ι} {o : ι} {lease : WorkerLease}
    (hrow : s'.row.map (fun r => (r.holder, r.fence)) = s.row.map fun r => (r.holder, r.fence))
    (hgrants : s'.grants = s.grants) (hacquired : s'.acquired = s.acquired)
    (hleases : s'.leases = (s.put o lease).leases)
    (hholder : lease.holder = (s.leases o).holder) (hfence : lease.fence = (s.leases o).fence)
    (hphase : lease.phase ≠ .granted)
    (htimed : ∀ now, lease.phase = .timed now → now = s.clock) (hclock : s.clock ≤ s'.clock) :
    Quiet s s' where
  owner := hrow
  grants := hgrants
  acquired := hacquired
  holder p := by
    rw [hleases]
    by_cases hp : p = o
    · subst hp
      simpa [put] using hholder
    · simp [put, hp]
  fence p := by
    rw [hleases]
    by_cases hp : p = o
    · subst hp
      simpa [put] using hfence
    · simp [put, hp]
  granted p hp := by
    rw [hleases] at hp
    by_cases hpo : p = o
    · subst hpo
      exact absurd (by simpa [put] using hp) hphase
    · simpa [put, hpo] using hp
  timed p now hp := by
    rw [hleases] at hp
    by_cases hpo : p = o
    · subst hpo
      exact .inr (htimed now (by simpa [put] using hp))
    · exact .inl (by simpa [put, hpo] using hp)
  clock := hclock

theorem quiet_goto {phase : LeasePhase} (h : phase ≠ .granted)
    (htimed : ∀ now, phase = .timed now → now = s.clock) : Quiet s (s.goto o phase) :=
  quiet_of_put rfl rfl rfl rfl rfl rfl h htimed le_rfl

theorem quiet_dropHeld : Quiet s (s.put o { s.leases o with held := false, phase := .idle }) :=
  quiet_of_put rfl rfl rfl rfl rfl rfl (by simp) (by simp) le_rfl

theorem Quiet.dropAdvisory {s s' : LeaseSystem ι} (h : Quiet s s') (o : ι) :
    Quiet s (s'.dropAdvisory o) where
  owner := by rw [dropAdvisory_row, h.owner]
  grants := by rw [dropAdvisory_grants, h.grants]
  acquired := by rw [dropAdvisory_acquired, h.acquired]
  holder p := by rw [dropAdvisory_leases, h.holder]
  fence p := by rw [dropAdvisory_leases, h.fence]
  granted p hp := h.granted p (by rwa [dropAdvisory_leases] at hp)
  timed p now hp := h.timed p now (by rwa [dropAdvisory_leases] at hp)
  clock := by rw [dropAdvisory_clock]; exact h.clock

theorem quiet_refused : Quiet s ((s.goto o .idle).dropAdvisory o) :=
  (quiet_goto s o (by simp) (by simp)).dropAdvisory o

omit [DecidableEq ι] in
theorem quiet_refl : Quiet s s :=
  ⟨rfl, rfl, rfl, fun _ => rfl, fun _ => rfl, fun _ => id, fun _ _ => .inl, le_rfl⟩

variable (postgres : Bool)

theorem step_cases (s : LeaseSystem ι) (e : LeaseEvent ι) : Quiet s (s.step postgres e) ∨
      (∃ o now, e = .proceed o ∧ Grants s (s.step postgres e) o now) ∨
      ∃ o r, e = .proceed o ∧ Reads s (s.step postgres e) o r := by
  cases e with
  | tick elapsed =>
    exact .inl ⟨rfl, rfl, rfl, fun _ => rfl, fun _ => rfl, fun _ => id, fun _ _ => .inl,
      Int.le.intro elapsed rfl⟩
  | acquire o =>
    left
    simp only [step]
    split_ifs
    · exact quiet_refl s
    · exact quiet_refl s
    · exact quiet_of_put rfl rfl rfl rfl rfl rfl (by simp) (by simp) le_rfl
    · exact quiet_goto s o (by simp) (by simp)
  | renew o | release o =>
    left
    simp only [step]
    split_ifs
    · exact quiet_refl s
    · exact quiet_goto s o (by simp) (by simp)
  | forceRelease reading =>
    left
    simp only [step]
    split_ifs
    · refine ⟨?_, rfl, rfl, fun _ => rfl, fun _ => rfl, fun _ => id, fun _ _ => .inl, le_rfl⟩
      cases s.row <;> rfl
    · exact quiet_refl s
  | crash o =>
    exact .inl ((quiet_goto s o (by simp) (by simp)).dropAdvisory o)
  | proceed o =>
    simp only [step, proceed]
    split
    · exact .inl (quiet_goto s o (by simp) (by simp))
    · rename_i now hphase
      unfold takeRow
      dsimp only
      split
      · rename_i hrow
        refine .inr (.inl ⟨o, now, rfl, hphase, ?_, ?_, rfl, rfl, rfl, rfl⟩)
        · intro r hr
          rw [hrow] at hr
          cases hr
        · simp [rowFence, hrow]
      · rename_i r hrow
        split_ifs with hfree
        · refine .inr (.inl ⟨o, now, rfl, hphase, ?_, ?_, rfl, rfl, rfl, rfl⟩)
          · intro r' hr'
            rw [hrow] at hr'
            cases hr'
            exact hfree
          · simp [rowFence, hrow]
        · exact .inl (quiet_refused s o)
    · rename_i hphase
      unfold readBack
      split
      · rename_i r hrow
        split_ifs with hholder
        · exact .inr (.inr ⟨o, r, rfl, hphase, hrow, hholder, rfl, rfl, rfl, rfl, rfl⟩)
        · exact .inl (quiet_refused s o)
      · exact .inl (quiet_refused s o)
    · rename_i now hphase
      left
      unfold renewRow
      dsimp only
      split
      · rename_i r hrow
        split_ifs
        · exact quiet_of_put (by simp [hrow]) rfl rfl rfl rfl rfl (by simp) (by simp) le_rfl
        · exact quiet_dropHeld s o
      · exact quiet_dropHeld s o
    · rename_i now hphase
      left
      have hquiet := (quiet_dropHeld s o).dropAdvisory o
      unfold releaseRow
      dsimp only
      split
      · rename_i r hrow
        split_ifs
        · exact ⟨by simp [hrow], hquiet.grants, hquiet.acquired, hquiet.holder, hquiet.fence,
            hquiet.granted, hquiet.timed, hquiet.clock⟩
        · exact hquiet
      · exact hquiet
    · exact .inl (quiet_refl s)
    · exact .inl (quiet_refl s)

/-- The row counts the grants and names the holder of the last one; no transaction uses
a clock reading from the future. -/
structure Counted (s : LeaseSystem ι) : Prop where
  fence : s.rowFence = s.grants.length
  holder : ∀ r, s.row = some r → ∃ o, s.grants.getLast? = some o ∧ r.holder = (s.leases o).holder
  past : ∀ o now, (s.leases o).phase = .timed now → now ≤ s.clock

def GrantsToHolder (postgres : Bool) (s : LeaseSystem ι) (e : LeaseEvent ι) : Prop :=
  ∀ o r, (s.step postgres e).grants = s.grants ++ [o] → s.row = some r → r.liveAt s.clock →
    r.holder = (s.leases o).holder

def CountsGrants (postgres : Bool) (s : LeaseSystem ι) (e : LeaseEvent ι) : Prop :=
  (s.step postgres e).rowFence = s.rowFence + ((s.step postgres e).grants.length - s.grants.length)

def ReleasesOwn (postgres : Bool) (s : LeaseSystem ι) (e : LeaseEvent ι) : Prop :=
  ∀ o now p, e = .proceed o → (s.leases o).phase = .releasing now →
    s.grants.getLast? = some p → (s.leases p).holder ≠ (s.leases o).holder →
    (s.step postgres e).row = s.row

/-- The fences of the calls of `acquire` that returned go up. -/
def FencesRise (s : LeaseSystem ι) : Prop := s.acquired.Pairwise fun a b => a.2 < b.2

instance (s : LeaseSystem ι) : Decidable s.FencesRise :=
  inferInstanceAs (Decidable (s.acquired.Pairwise fun a b => a.2 < b.2))

def OneRenewer (s : LeaseSystem ι) : Prop := ∀ o p, s.CanRenew o → s.CanRenew p → o = p

/-- Whenever `acquire` reads back a row with its own holder string, its object is the
last that was granted the lease. -/
def ReadsOwnGrant (s : LeaseSystem ι) : LeaseEvent ι → Prop
  | .proceed o =>
    (s.leases o).phase = .granted →
      (∃ r, s.row = some r ∧ r.holder = (s.leases o).holder) → s.grants.getLast? = some o
  | _ => True

omit [DecidableEq ι] in
theorem Quiet.rowFence {s s' : LeaseSystem ι} (h : Quiet s s') : s'.rowFence = s.rowFence := by
  have hfence := congrArg (Option.map Prod.snd) h.owner
  simp only [Option.map_map] at hfence
  unfold LeaseSystem.rowFence
  exact congrArg (Option.getD · 0) hfence

variable {now : Timestamp}

theorem Grants.rowFence {s s' : LeaseSystem ι} {o : ι} (h : Grants s s' o now) :
    s'.rowFence = s.rowFence + 1 := by
  simp [LeaseSystem.rowFence, h.row]

theorem Grants.holder {s s' : LeaseSystem ι} {o : ι} (h : Grants s s' o now)
    (p : ι) : (s'.leases p).holder = (s.leases p).holder := by
  rw [h.leases]
  by_cases hp : p = o
  · subst hp
    simp [goto, put]
  · simp [goto, put, hp]

theorem Reads.lease_holder {s s' : LeaseSystem ι} {o : ι} {r : LeaseRow} (h : Reads s s' o r)
    (p : ι) : (s'.leases p).holder = (s.leases p).holder := by
  rw [h.leases]
  by_cases hp : p = o
  · subst hp
    simp
  · simp [hp]

variable (clock : Timestamp) (leases : ι → WorkerLease)

omit [DecidableEq ι] in
theorem counted_fresh :
    Counted (fresh clock leases) where
  fence := rfl
  holder r hr := by cases hr
  past o now h := by cases h

theorem counted_step {s : LeaseSystem ι} (h : Counted s) (e : LeaseEvent ι) :
    Counted (s.step postgres e) := by
  rcases step_cases postgres s e with hq | ⟨o, now, rfl, hg⟩ | ⟨o, r, rfl, hr⟩
  · refine ⟨by rw [hq.rowFence, hq.grants, h.fence], ?_, ?_⟩
    · intro r hrow
      have howner := hq.owner
      rw [hrow] at howner
      obtain ⟨r₀, hr₀, hsame⟩ := Option.map_eq_some_iff.1 howner.symm
      obtain ⟨o, hlast, hholder⟩ := h.holder r₀ hr₀
      refine ⟨o, by rw [hq.grants, hlast], ?_⟩
      rw [hq.holder, ← hholder]
      exact (congrArg Prod.fst hsame).symm
    · intro o now hphase
      rcases hq.timed o now hphase with hold | rfl
      · exact (h.past o now hold).trans hq.clock
      · exact hq.clock
  · refine ⟨by rw [hg.rowFence, hg.grants, h.fence, List.length_append]; rfl, ?_, ?_⟩
    · intro r hrow
      rw [hg.row] at hrow
      cases hrow
      refine ⟨o, by rw [hg.grants, List.getLast?_concat], ?_⟩
      rw [hg.holder]
    · intro p time hphase
      rw [hg.clock]
      apply h.past p time
      rw [hg.leases] at hphase
      by_cases hp : p = o
      · subst hp
        simp [goto, put] at hphase
      · simpa [goto, put, hp] using hphase
  · refine ⟨?_, ?_, ?_⟩
    · rw [hr.grants, ← h.fence, LeaseSystem.rowFence, hr.row]
      rfl
    · intro r' hrow
      rw [hr.row] at hrow
      obtain ⟨p, hlast, hholder⟩ := h.holder r' hrow
      exact ⟨p, by rw [hr.grants, hlast], by rw [hr.lease_holder, hholder]⟩
    · intro p time hphase
      rw [hr.clock]
      apply h.past p time
      rw [hr.leases] at hphase
      by_cases hp : p = o
      · subst hp
        simp at hphase
      · simpa [hp] using hphase

theorem grantsToHolder {s : LeaseSystem ι} (h : Counted s) (e : LeaseEvent ι) :
    GrantsToHolder postgres s e := by
  intro o r hgrants hrow hlive
  rcases step_cases postgres s e with hq | ⟨p, now, rfl, hg⟩ | ⟨p, r', rfl, hr⟩
  · rw [hq.grants] at hgrants
    exact absurd hgrants (by simp)
  · rw [hg.grants, List.append_cancel_left_eq, List.cons.injEq] at hgrants
    obtain rfl := hgrants.1
    rcases hg.free r hrow with hexpired | hholder
    · -- Expired at the reading, so expired now.
      exact absurd hlive (not_lt.2 (hexpired.trans (h.past _ now hg.timed)))
    · exact hholder
  · rw [hr.grants] at hgrants
    exact absurd hgrants (by simp)

theorem countsGrants (s : LeaseSystem ι) (e : LeaseEvent ι) : CountsGrants postgres s e := by
  unfold CountsGrants
  rcases step_cases postgres s e with hq | ⟨p, now, rfl, hg⟩ | ⟨p, r', rfl, hr⟩
  · rw [hq.rowFence, hq.grants, Nat.sub_self, Nat.add_zero]
  · rw [hg.rowFence, hg.grants, List.length_append, List.length_singleton, Nat.add_sub_cancel_left]
  · rw [hr.grants, Nat.sub_self, Nat.add_zero, LeaseSystem.rowFence, hr.row]
    rfl

theorem releasesOwn {s : LeaseSystem ι} (h : Counted s) (e : LeaseEvent ι) :
    ReleasesOwn postgres s e := by
  intro o now p he hphase hlast hother
  subst he
  simp only [step, proceed, hphase, releaseRow]
  split
  · rename_i r hrow
    obtain ⟨q, hq, hholder⟩ := h.holder r hrow
    rw [hlast] at hq
    cases hq
    rw [if_neg (hholder ▸ hother), dropAdvisory_row]
    rfl
  · rw [dropAdvisory_row]
    rfl

/-- Each object's fence numbers a grant of its own, each returned call of `acquire` a
grant that nobody is still to read back. -/
structure Owned (s : LeaseSystem ι) : Prop where
  counted : Counted s
  fence : ∀ o, (s.leases o).fence ≠ 0 → s.grants[(s.leases o).fence - 1]? = some o
  read : ∀ a ∈ s.acquired, a.2 ≤ s.grants.length ∧
    (a.2 = s.grants.length → ∀ o, (s.leases o).phase = .granted → s.grants.getLast? ≠ some o)
  rise : FencesRise s

omit [DecidableEq ι] in
theorem Owned.oneRenewer {s : LeaseSystem ι} (h : Owned s) : OneRenewer s := by
  rintro o p ⟨r, hrow, -, hfence⟩ ⟨r', hrow', -, hfence'⟩
  rw [hrow] at hrow'
  cases hrow'
  have hpos : r.fence ≠ 0 := by
    obtain ⟨q, hq, -⟩ := h.counted.holder r hrow
    have hcount := h.counted.fence
    rw [LeaseSystem.rowFence, hrow] at hcount
    intro hzero
    simp only [Option.map_some, Option.getD_some, hzero] at hcount
    rw [List.length_eq_zero_iff.1 hcount.symm] at hq
    cases hq
  have ho := h.fence o (hfence ▸ hpos)
  have hp := h.fence p (hfence' ▸ hpos)
  rw [← hfence] at ho
  rw [← hfence', ho] at hp
  exact Option.some.inj hp

omit [DecidableEq ι] in
theorem owned_fresh :
    Owned (fresh clock leases) where
  counted := counted_fresh clock leases
  fence o h := absurd rfl h
  read a h := by cases h
  rise := .nil

theorem owned_step {s : LeaseSystem ι} (h : Owned s) {e : LeaseEvent ι}
    (hown : s.ReadsOwnGrant e) : Owned (s.step postgres e) := by
  have hcounted := counted_step postgres h.counted e
  rcases step_cases postgres s e with hq | ⟨o, now, rfl, hg⟩ | ⟨o, r, rfl, hr⟩
  · refine ⟨hcounted, ?_, ?_, ?_⟩
    · intro o hne
      rw [hq.fence] at hne ⊢
      rw [hq.grants]
      exact h.fence o hne
    · intro a ha
      rw [hq.acquired] at ha
      rw [hq.grants]
      exact ⟨(h.read a ha).1, fun heq o ho => (h.read a ha).2 heq o (hq.granted o ho)⟩
    · unfold FencesRise
      rw [hq.acquired]
      exact h.rise
  · have hfence : ∀ p, ((s.step postgres (.proceed o)).leases p).fence = (s.leases p).fence := by
      intro p
      rw [hg.leases]
      by_cases hp : p = o
      · subst hp
        simp [goto, put]
      · simp [goto, put, hp]
    refine ⟨hcounted, ?_, ?_, ?_⟩
    · intro p hne
      rw [hfence] at hne ⊢
      rw [hg.grants]
      have hold := h.fence p hne
      rw [List.getElem?_append_left (List.getElem?_eq_some_iff.1 hold).1]
      exact hold
    · intro a ha
      rw [hg.acquired] at ha
      have hle := (h.read a ha).1
      rw [hg.grants, List.length_append, List.length_singleton]
      exact ⟨by omega, fun heq => absurd heq (by omega)⟩
    · unfold FencesRise
      rw [hg.acquired]
      exact h.rise
  · have hlast := hown hr.granted ⟨r, hr.found, hr.holder⟩
    have hcount : r.fence = s.grants.length := by
      rw [← h.counted.fence, LeaseSystem.rowFence, hr.found]
      rfl
    refine ⟨hcounted, ?_, ?_, ?_⟩
    · intro p
      rw [hr.leases, hr.grants]
      by_cases hp : p = o
      · subst hp
        intro _
        simp only [Function.update_self]
        rw [hcount, ← List.getLast?_eq_getElem?]
        exact hlast
      · simp only [Function.update_of_ne hp]
        exact h.fence p
    · intro a ha
      rw [hr.acquired] at ha
      rw [hr.grants]
      rcases List.mem_append.1 ha with hmem | hmem
      · refine ⟨(h.read a hmem).1, fun heq p hphase => ?_⟩
        -- The grant read now was still to be read, so no earlier call has its fence.
        exact absurd hlast ((h.read a hmem).2 heq o hr.granted)
      · obtain rfl := List.mem_singleton.1 hmem
        refine ⟨hcount.le, fun _ p hphase hp => ?_⟩
        rw [hlast] at hp
        cases hp
        simp [hr.leases] at hphase
    · unfold FencesRise
      rw [hr.acquired, List.pairwise_append]
      refine ⟨h.rise, List.pairwise_singleton _ _, ?_⟩
      intro a ha b hb
      obtain rfl := List.mem_singleton.1 hb
      obtain ⟨hle, hread⟩ := h.read a ha
      apply lt_of_le_of_ne (hcount ▸ hle)
      intro heq
      exact hread (heq.trans hcount) o hr.granted hlast

omit [DecidableEq ι] in
theorem readsOwnGrant_of_distinct {s : LeaseSystem ι} (h : Counted s)
    (hdistinct : ∀ o p, (s.leases o).holder = (s.leases p).holder → o = p) (e : LeaseEvent ι) :
    s.ReadsOwnGrant e := by
  cases e with
  | proceed o =>
    rintro - ⟨r, hrow, hholder⟩
    obtain ⟨p, hlast, hp⟩ := h.holder r hrow
    rw [hlast, hdistinct o p (hholder.symm.trans hp)]
  | _ => trivial

theorem holder_step (s : LeaseSystem ι) (e : LeaseEvent ι) (o : ι) :
    ((s.step postgres e).leases o).holder = (s.leases o).holder := by
  rcases step_cases postgres s e with hq | ⟨p, now, rfl, hg⟩ | ⟨p, r, rfl, hr⟩
  · exact hq.holder o
  · exact hg.holder o
  · exact hr.lease_holder o

/-- Only an object of the holder's own string takes or shortens a live lease; fences go
up and one object at most can renew, as long as every acquisition reads back its own
grant, which it does when no two objects share a string. -/
theorem single_writer (postgres : Bool) (clock : Timestamp) (leases : ι → WorkerLease)
    (run : List (LeaseEvent ι)) :
    Along (fun s e => GrantsToHolder postgres s e ∧ CountsGrants postgres s e ∧
        ReleasesOwn postgres s e) (step postgres) (fresh clock leases) run ∧
      (Along ReadsOwnGrant (step postgres) (fresh clock leases) run →
        Along (fun s e => FencesRise (s.step postgres e) ∧ OneRenewer (s.step postgres e))
          (step postgres) (fresh clock leases) run) ∧
      ((∀ o p, (leases o).holder = (leases p).holder → o = p) →
        Along ReadsOwnGrant (step postgres) (fresh clock leases) run) := by
  refine ⟨?_, ?_, ?_⟩
  · refine along_of_invariant (I := Counted) (fun s e h => counted_step postgres h e) ?_
      (counted_fresh clock leases) run
    intro s e h
    exact ⟨grantsToHolder postgres h e, countsGrants postgres s e, releasesOwn postgres h e⟩
  · intro hown
    refine hown.mono_of_invariant (I := Owned) (fun s e h he => owned_step postgres h he) ?_
      (owned_fresh clock leases)
    intro s e h he
    exact ⟨(owned_step postgres h he).rise, (owned_step postgres h he).oneRenewer⟩
  · intro hdistinct
    refine along_of_invariant
      (I := fun s => Counted s ∧ ∀ o, (s.leases o).holder = (leases o).holder) ?_ ?_
      ⟨counted_fresh clock leases, fun _ => rfl⟩ run
    · rintro s e ⟨h, hsame⟩
      exact ⟨counted_step postgres h e, fun o => (holder_step postgres s e o).trans (hsame o)⟩
    · rintro s e ⟨h, hsame⟩
      refine readsOwnGrant_of_distinct h ?_ e
      intro o p hop
      rw [hsame, hsame] at hop
      exact hdistinct o p hop

def GrantsToOwner (postgres : Bool) (s : LeaseSystem ι) (e : LeaseEvent ι) : Prop :=
  ∀ o r, (s.step postgres e).grants = s.grants ++ [o] → s.row = some r → r.liveAt s.clock →
    s.grants.getLast? = some o

def ShortensOwn (postgres : Bool) (s : LeaseSystem ι) (e : LeaseEvent ι) : Prop :=
  ∀ o now p r r', e = .proceed o → (s.leases o).phase = .releasing now →
    s.grants.getLast? = some p → p ≠ o → s.row = some r → (s.step postgres e).row = some r' →
    r.expiresAt ≤ r'.expiresAt

end LeaseSystem

namespace LeaseTwins

open LeaseSystem

def twins : Bool → WorkerLease := fun _ => .make "research@worker:1" 60 (by decide)

def grantedFirst : List (LeaseEvent Bool) :=
  [.acquire false, .proceed false, .proceed false, .acquire true, .proceed true]

def bothRead : List (LeaseEvent Bool) :=
  grantedFirst ++ [.proceed true, .proceed false, .proceed true]

theorem twins_share_the_lease :
    ¬ Along (GrantsToOwner false) (step false) (fresh 0 twins) bothRead ∧
      ¬ Along (fun s e => FencesRise (s.step false e)) (step false) (fresh 0 twins) bothRead ∧
      ¬ Along (fun s e => OneRenewer (s.step false e)) (step false) (fresh 0 twins) bothRead ∧
      ¬ Along (ShortensOwn false) (step false) (fresh 0 twins)
        (bothRead ++ [.tick 5, .release false, .proceed false]) := by
  refine ⟨?_, ?_, ?_, ?_⟩
  · intro h
    have hlast := ((along_append _ grantedFirst _).1 h).2.1 true _ rfl rfl (by decide)
    exact absurd hlast (by decide)
  · intro h
    exact absurd (((along_append _ (bothRead.dropLast) [.proceed true]).1 h).2.1) (by decide)
  · intro h
    have hone := ((along_append _ (bothRead.dropLast) [.proceed true]).1 h).2.1
      false true ⟨_, rfl, rfl, rfl⟩ ⟨_, rfl, rfl, rfl⟩
    cases hone
  · intro h
    have hkeep := ((along_append _ bothRead _).1 h).2.2.2.1 false 5 true _ _ rfl rfl rfl
      (by decide) rfl rfl
    exact absurd hkeep (by decide)

end LeaseTwins

end Fiboki
