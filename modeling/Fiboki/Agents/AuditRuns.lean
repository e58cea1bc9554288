import Fiboki.Agents.AuditReopen

/-!
Instances of the audit ledger on one path, in any processes: each append under the file's
exclusive lock, each of its bytes a step of its own, each process free to die between two.
-/

namespace Fiboki.Audit

open Json Wire Durable AuditRecord Runs

namespace AuditSystem

/-- The append that holds the lock: whose it is, its record, the bytes of its line, and
those that are not in the file yet. -/
structure Writing (ι : Type) where
  writer : ι
  record : AuditRecord
  data : Bytes
  rest : Bytes

structure State (ι : Type) where
  file : Bytes
  writing : Option (Writing ι)
  ledger : ι → Option JsonlAuditLedger
  acked : List AuditRecord

def State.initial {ι : Type} : State ι := ⟨[], none, fun _ => none, []⟩

/-- `append` takes the lock and seals, `write` puts the next `n` bytes, `finish` returns the
record; a crash ends the process of an instance, wherever it is. -/
inductive Move (ι : Type) where
  | opens (p : ι)
  | reload (p : ι)
  | append (p : ι) (record : AuditRecord)
  | write (p : ι) (n : ℕ)
  | finish (p : ι)
  | crash (p : ι)

section System

variable {ι : Type} [DecidableEq ι] (lib : AuditLib)

def State.put (s : State ι) (p : ι) (l : Option JsonlAuditLedger) : State ι :=
  { s with ledger := Function.update s.ledger p l }

def begun (s : State ι) (p : ι) (l : JsonlAuditLedger) (record : AuditRecord) : State ι :=
  match l.catchUp lib s.file with
  | .error _ => s
  | .ok l =>
    match l.prepare lib record with
    | .error _ => s.put p (some l)
    | .ok (record, data) =>
      match repaired lib.floats true s.file with
      | .error _ => s.put p (some l)
      | .ok file => { s.put p (some l) with file, writing := some ⟨p, record, data, data⟩ }

/-- A move that has to wait for the lock, or that the instance is not ready for, changes
nothing. Where there is no file yet, an instance is new without a lock. -/
def step (s : State ι) : Move ι → State ι
  | .opens p =>
    match s.ledger p, s.writing, JsonlAuditLedger.reload lib s.file with
    | none, none, .ok l => s.put p (some l)
    | none, some _, .ok l => if s.file = [] then s.put p (some l) else s
    | _, _, _ => s
  | .reload p =>
    match s.ledger p, s.writing, JsonlAuditLedger.reload lib s.file with
    | some _, none, .ok l => s.put p (some l)
    | _, _, _ => s
  | .append p record =>
    match s.ledger p, s.writing with
    | some l, none => begun lib s p l record
    | _, _ => s
  | .write p n =>
    match s.writing with
    | some w =>
      if w.writer = p then
        { s with file := s.file ++ w.rest.take n, writing := some { w with rest := w.rest.drop n } }
      else s
    | none => s
  | .finish p =>
    match s.writing, s.ledger p with
    | some w, some l =>
      if w.writer = p ∧ w.rest = [] then
        { s.put p (some (l.extended w.record w.data)) with
          writing := none, acked := s.acked ++ [w.record] }
      else s
    | _, _ => s
  | .crash p =>
    match s.writing with
    | some w => if w.writer = p then { s.put p none with writing := none } else s.put p none
    | none => s.put p none

def Fits (s : State ι) : Move ι → Prop
  | .append _ record => HasJson lib record → Exact lib record
  | .crash p => ∀ w ∈ s.writing, w.writer = p → w.rest = w.data ∨ w.rest.length ≤ 1
  | .opens _ | .reload _ | .write _ _ | .finish _ => True

def lineOf (r : AuditRecord) : Bytes := (lineRecord lib r).line

def completeLines (file : Bytes) : List Bytes := (Lines.cut isNewline file).1

/-- The acknowledged records are in the file, the file is one chain, and whoever seals
next does so on its end. -/
structure Safe (s : State ι) : Prop where
  once : ∀ r ∈ s.acked, (completeLines s.file).count (lineOf lib r) = 1
  inOrder : (s.acked.map (lineOf lib)).Sublist (completeLines s.file)
  chain : ∃ rows, parseFrom lib 1 (completeLines s.file) = .ok rows ∧ verify lib rows = true ∧
    ∀ p record w, s.writing = none → (step lib s (.append p record)).writing = some w →
      (s.file = [] ∨ [10] <:+ s.file) ∧ w.record.previousHash = tailHashOf rows ∧
        w.record.sequence = rows.length
  reopened : s.writing = none → ∃ l, JsonlAuditLedger.reload lib s.file = .ok l ∧
    l.verifyChain lib = true ∧ (s.acked.map (lineOf lib)).Sublist (l.records.map (lineOf lib))

end System

section Invariant

variable {ι : Type} {lib : AuditLib} {s : State ι} {kept : List AuditRecord}
  {unended : Option AuditRecord}

def Behind (lib : AuditLib) (kept : List AuditRecord) (l : JsonlAuditLedger) : Prop :=
  ∃ seen more, kept = seen ++ more ∧ Sees lib seen (ledgerFile lib seen).length l

/-- An append under way: its record follows on the records kept, and its writer has read
them all. -/
structure Underway (lib : AuditLib) (s : State ι) (kept : List AuditRecord) (w : Writing ι) :
    Prop where
  written : Written lib w.record
  chained : Chained lib (kept ++ [w.record])
  data : w.data = (lineRecord lib w.record).data
  rest : ∃ done, w.data = done ++ w.rest ∧ s.file = ledgerFile lib kept ++ done
  ledger : ∃ l, s.ledger w.writer = some l ∧ Sees lib kept (ledgerFile lib kept).length l

/-- The file holds the lines of the records kept, and the one that lacks its newline. -/
structure Inv (lib : AuditLib) (s : State ι) (kept : List AuditRecord)
    (unended : Option AuditRecord) : Prop where
  written : ∀ r ∈ kept ++ unended.toList, Written lib r
  chained : Chained lib (kept ++ unended.toList)
  acked : s.acked.Sublist kept
  free : s.writing = none → s.file = ledgerFile lib kept ++ unendedLine lib unended
  held : ∀ w, s.writing = some w → unended = none ∧ Underway lib s kept w
  ledgers : ∀ p l, s.ledger p = some l → Behind lib kept l ∨
    ∃ u, unended = some u ∧ s.writing = none ∧ Sees lib (kept ++ [u]) s.file.length l

theorem inv_initial : Inv lib (State.initial : State ι) [] none where
  written _ h := absurd h List.not_mem_nil
  chained := trivial
  acked := List.Sublist.slnil
  free _ := rfl
  held _ h := by cases h
  ledgers _ _ h := by cases h

variable {l : JsonlAuditLedger}

theorem Behind.append (h : Behind lib kept l) (r : AuditRecord) : Behind lib (kept ++ [r]) l := by
  obtain ⟨seen, more, rfl, hl⟩ := h
  exact ⟨seen, more ++ [r], List.append_assoc _ _ _, hl⟩

theorem behind_of_sees (h : Sees lib kept (ledgerFile lib kept).length l) : Behind lib kept l :=
  ⟨kept, [], (List.append_nil kept).symm, h⟩

theorem Inv.reloaded (h : Inv lib s kept unended) (hfree : s.writing = none) :
    ∃ l, JsonlAuditLedger.reload lib s.file = .ok l ∧
      Sees lib (kept ++ unended.toList) s.file.length l ∧
      (Behind lib kept l ∨
        ∃ u, unended = some u ∧ s.writing = none ∧ Sees lib (kept ++ [u]) s.file.length l) := by
  obtain ⟨l, hreload, hl⟩ := JsonlAuditLedger.reload_of_chained kept unended h.written h.chained
  rw [← h.free hfree] at hreload hl
  refine ⟨l, hreload, hl, ?_⟩
  cases unended with
  | none =>
    rw [Option.toList_none, List.append_nil] at hl
    have hfile := h.free hfree
    rw [unendedLine, List.append_nil] at hfile
    rw [hfile] at hl
    exact .inl (behind_of_sees hl)
  | some u => exact .inr ⟨u, rfl, hfree, hl⟩

variable {w : Writing ι}

theorem Underway.complete (h : Underway lib s kept w) (hrest : w.rest = []) :
    s.file = ledgerFile lib (kept ++ [w.record]) := by
  obtain ⟨done, hdata, hfile⟩ := h.rest
  rw [hrest, List.append_nil, h.data] at hdata
  rw [hfile, ← hdata, ledgerFile_snoc]

variable {r : AuditRecord}

theorem written_snoc (h : ∀ r ∈ kept, Written lib r) (hr : Written lib r) :
    ∀ x ∈ kept ++ [r], Written lib x := by
  intro x hx
  rcases List.mem_append.1 hx with hx | hx
  · exact h x hx
  · rw [List.mem_singleton.1 hx]
    exact hr

variable [DecidableEq ι]

variable {o : Option JsonlAuditLedger}

theorem put_ledger {s : State ι} {p q : ι}
    (h : (s.put p o).ledger q = some l) : o = some l ∨ s.ledger q = some l := by
  change Function.update s.ledger p o q = some l at h
  by_cases hq : q = p
  · subst hq
    rw [Function.update_self] at h
    exact .inl h
  · rw [Function.update_of_ne hq] at h
    exact .inr h

variable {p : ι}

theorem Inv.put (h : Inv lib s kept unended) (hp : ∀ w, s.writing = some w → w.writer ≠ p)
    (ho : ∀ l, o = some l → Behind lib kept l ∨
      ∃ u, unended = some u ∧ s.writing = none ∧ Sees lib (kept ++ [u]) s.file.length l) :
    Inv lib (s.put p o) kept unended where
  written := h.written
  chained := h.chained
  acked := h.acked
  free := h.free
  held w hw := by
    obtain ⟨hunended, hunder⟩ := h.held w hw
    refine ⟨hunended, hunder.written, hunder.chained, hunder.data, hunder.rest, ?_⟩
    obtain ⟨l, hl, hsees⟩ := hunder.ledger
    refine ⟨l, ?_, hsees⟩
    show Function.update s.ledger p o w.writer = some l
    rw [Function.update_of_ne (hp w hw)]
    exact hl
  ledgers q l hq := by
    rcases put_ledger hq with heq | hold
    · exact ho l heq
    · exact h.ledgers q l hold

theorem Inv.opens (h : Inv lib s kept unended) (p : ι) :
    Inv lib (step lib s (.opens p)) kept unended := by
  unfold step
  dsimp only
  split
  · rename_i l hnone hfree hreload
    obtain ⟨l', hreload', -, hplace⟩ := h.reloaded hfree
    rw [hreload] at hreload'
    cases hreload'
    apply h.put
    · intro w hw
      rw [hfree] at hw
      cases hw
    · intro l' hl'
      cases hl'
      exact hplace
  · rename_i w l hnone hheld hreload
    split_ifs with hempty
    · rw [hempty] at hreload
      cases hreload
      apply h.put
      · intro w' hw' hwriter
        obtain ⟨-, hunder⟩ := h.held w' hw'
        obtain ⟨l, hl, -⟩ := hunder.ledger
        rw [hwriter, hnone] at hl
        cases hl
      · intro l' hl'
        cases hl'
        exact .inl ⟨[], kept, rfl, .nil, rfl, rfl⟩
    · exact h
  · exact h

theorem Inv.reload (h : Inv lib s kept unended) (p : ι) :
    Inv lib (step lib s (.reload p)) kept unended := by
  unfold step
  dsimp only
  split
  · rename_i old l hold hfree hreload
    obtain ⟨l', hreload', -, hplace⟩ := h.reloaded hfree
    rw [hreload] at hreload'
    cases hreload'
    apply h.put
    · intro w hw
      rw [hfree] at hw
      cases hw
    · intro l' hl'
      cases hl'
      exact hplace
  · exact h

def started (lib : AuditLib) (s : State ι) (p : ι) (l : JsonlAuditLedger) (r : AuditRecord) :
    State ι :=
  { s.put p (some l) with
    writing := some ⟨p, r, (lineRecord lib r).data, (lineRecord lib r).data⟩ }

theorem Inv.begins (h : Inv lib s kept none) (hfree : s.writing = none) (hl : s.ledger p = some l)
    (r : AuditRecord) :
    ∃ l', Sees lib kept (ledgerFile lib kept).length l' ∧
      (HasJson lib r → ∃ sealed, begun lib s p l r = started lib s p l' sealed ∧
        r.sealed lib kept.length (tailHashOf kept) = some sealed ∧
        ∃ text, sealed.lineText lib = some text) ∧
      (¬ HasJson lib r → begun lib s p l r = s.put p (some l')) := by
  have hwritten := h.written
  have hchained := h.chained
  have hfile := h.free hfree
  rw [Option.toList_none, List.append_nil] at hwritten hchained
  rw [unendedLine, List.append_nil] at hfile
  rcases h.ledgers p l hl with ⟨seen, more, rfl, hsees⟩ | ⟨v, hv, -⟩
  · obtain ⟨l', hcatch, hl'⟩ := JsonlAuditLedger.catchUp_of_sees more hwritten hchained hsees
    refine ⟨l', hl', fun hr => ?_, fun hr => ?_⟩
    · obtain ⟨sealed, hprepare, hsealed, htext⟩ := JsonlAuditLedger.prepare_of_hasJson hl' hr
      refine ⟨sealed, ?_, hsealed, htext⟩
      unfold AuditSystem.begun started
      rw [hfile, hcatch]
      dsimp only
      rw [hprepare]
      dsimp only
      rw [JsonlAuditLedger.repaired_ledgerFile hwritten]
      rw [← hfile]
      rfl
    · unfold AuditSystem.begun
      rw [hfile, hcatch]
      dsimp only
      rw [JsonlAuditLedger.prepare_of_not_hasJson hr]
  · cases hv

theorem Inv.begun (h : Inv lib s kept unended) (hfree : s.writing = none) (hl : s.ledger p = some l)
    (r : AuditRecord) :
    ((begun lib s p l r).writing = none ∧ Inv lib (begun lib s p l r) kept unended) ∨
      unended = none ∧ ∃ l' sealed, begun lib s p l r = started lib s p l' sealed ∧ HasJson lib r ∧
        r.sealed lib kept.length (tailHashOf kept) = some sealed ∧
        (∃ text, sealed.lineText lib = some text) ∧
        Sees lib kept (ledgerFile lib kept).length l' := by
  cases unended with
  | some u =>
    have hfile := h.free hfree
    have hu : Written lib u := h.written u (List.mem_append_right _ List.mem_cons_self)
    have herror : ∃ e, l.catchUp lib s.file = .error e := by
      rw [hfile]
      rcases h.ledgers p l hl with ⟨seen, more, rfl, hsees⟩ | ⟨v, hv, -, hsees⟩
      · exact ⟨_, JsonlAuditLedger.catchUp_unended
          (fun x hx => h.written x (List.mem_append_left _ hx)) hu hsees⟩
      · cases hv
        rw [hfile] at hsees
        exact JsonlAuditLedger.catchUp_unended_read hu hsees
    obtain ⟨e, herror⟩ := herror
    have hsame : AuditSystem.begun lib s p l r = s := by
      unfold AuditSystem.begun
      rw [herror]
    rw [hsame]
    exact .inl ⟨hfree, h⟩
  | none =>
    obtain ⟨l', hl', hstarts, hrefuses⟩ := h.begins hfree hl r
    by_cases hr : HasJson lib r
    · obtain ⟨sealed, hbegun, hsealed, htext⟩ := hstarts hr
      exact .inr ⟨rfl, l', sealed, hbegun, hr, hsealed, htext, hl'⟩
    · rw [hrefuses hr]
      refine .inl ⟨hfree, h.put ?_ ?_⟩
      · intro w hw
        rw [hfree] at hw
        cases hw
      · intro x hx
        cases hx
        exact .inl (behind_of_sees hl')

theorem Inv.started (h : Inv lib s kept none) (hfree : s.writing = none) {r sealed : AuditRecord}
    (hsealed : r.sealed lib kept.length (tailHashOf kept) = some sealed)
    (hwritten : Written lib sealed) (hl : Sees lib kept (ledgerFile lib kept).length l) :
    Inv lib (started lib s p l sealed) kept none where
  written := h.written
  chained := h.chained
  acked := h.acked
  free hnone := by cases hnone
  held w hw := by
    cases hw
    have hchained := h.chained
    rw [Option.toList_none, List.append_nil] at hchained
    have hfile := h.free hfree
    refine ⟨rfl, hwritten, JsonlAuditLedger.chained_snoc hchained hsealed, rfl, ⟨[], rfl, hfile⟩,
      l, ?_, hl⟩
    exact Function.update_self _ _ _
  ledgers q l' hq := by
    rcases put_ledger hq with heq | hold
    · cases heq
      exact .inl (behind_of_sees hl)
    · rcases h.ledgers q l' hold with hbehind | ⟨u, hu, -⟩
      · exact .inl hbehind
      · cases hu

theorem Inv.append (h : Inv lib s kept unended)
    (hr : HasJson lib r → Exact lib r) : Inv lib (step lib s (.append p r)) kept unended := by
  unfold step
  dsimp only
  split
  · rename_i l hl hfree
    rcases h.begun hfree hl r with ⟨-, hinv⟩ | ⟨rfl, l', sealed, hbegun, hjson, hsealed, htext, hl'⟩
    · exact hinv
    · rw [hbegun]
      exact h.started hfree hsealed ⟨htext, (hr hjson).sealed hsealed⟩ hl'
  · exact h

theorem Inv.write (h : Inv lib s kept unended) (p : ι) (n : ℕ) :
    Inv lib (step lib s (.write p n)) kept unended := by
  unfold step
  dsimp only
  split
  · rename_i w hw
    split_ifs with hwriter
    · obtain ⟨rfl, hunder⟩ := h.held w hw
      obtain ⟨done, hdata, hfile⟩ := hunder.rest
      refine ⟨h.written, h.chained, h.acked, fun hnone => (by cases hnone), ?_, ?_⟩
      · intro w' hw'
        cases hw'
        refine ⟨rfl, hunder.written, hunder.chained, hunder.data, ⟨done ++ w.rest.take n, ?_, ?_⟩,
          hunder.ledger⟩
        · rw [List.append_assoc, List.take_append_drop]
          exact hdata
        · rw [← List.append_assoc, ← hfile]
      · intro q l hq
        rcases h.ledgers q l hq with hbehind | ⟨u, hu, -⟩
        · exact .inl hbehind
        · cases hu
    · exact h
  · exact h

theorem Inv.finish (h : Inv lib s kept unended) (p : ι) :
    ∃ kept', Inv lib (step lib s (.finish p)) kept' unended := by
  unfold step
  dsimp only
  split
  · rename_i w l hw hl
    split_ifs with hdone
    · obtain ⟨rfl, hrest⟩ := hdone
      obtain ⟨rfl, hunder⟩ := h.held w hw
      obtain ⟨l', hl', hsees⟩ := hunder.ledger
      rw [hl] at hl'
      cases hl'
      have hnone : ∀ xs : List AuditRecord, xs ++ (none : Option AuditRecord).toList = xs := by
        intro xs
        rw [Option.toList_none, List.append_nil]
      refine ⟨kept ++ [w.record], ⟨?_, ?_, ?_, ?_, ?_, ?_⟩⟩
      · have hwritten := h.written
        rw [hnone] at hwritten ⊢
        exact written_snoc hwritten hunder.written
      · rw [hnone]
        exact hunder.chained
      · exact h.acked.append (List.Sublist.refl _)
      · intro _
        rw [unendedLine, List.append_nil]
        exact hunder.complete hrest
      · intro w' hw'
        cases hw'
      · intro q x hq
        rcases put_ledger hq with heq | hold
        · cases heq
          rw [hunder.data]
          exact .inl (behind_of_sees (JsonlAuditLedger.sees_extended hsees))
        · rcases h.ledgers q x hold with hbehind | ⟨u, hu, -⟩
          · exact .inl (hbehind.append w.record)
          · cases hu
    · exact ⟨kept, h⟩
  · exact ⟨kept, h⟩

theorem Inv.crashed (h : Inv lib s kept unended) (hw : s.writing = some w)
    (hfits : w.rest = w.data ∨ w.rest.length ≤ 1) :
    ∃ kept' unended', Inv lib { s.put w.writer none with writing := none } kept' unended' := by
  obtain ⟨rfl, hunder⟩ := h.held w hw
  obtain ⟨done, hdata, hfile⟩ := hunder.rest
  have hwritten := h.written
  have hchained := h.chained
  rw [Option.toList_none, List.append_nil] at hwritten hchained
  have hbehind : ∀ q l, (s.put w.writer none).ledger q = some l → Behind lib kept l := by
    intro q l hq
    rcases put_ledger hq with heq | hold
    · cases heq
    · rcases h.ledgers q l hold with hbehind | ⟨u, hu, -⟩
      · exact hbehind
      · cases hu
  have hrests : w.rest = w.data ∨ w.rest = [] ∨ w.rest = [10] := by
    rcases hfits with hall | hshort
    · exact .inl hall
    · right
      have hsuffix : w.rest <:+ (lineRecord lib w.record).line ++ [10] := by
        rw [← hunder.written.data.1, ← hunder.data]
        exact ⟨done, hdata.symm⟩
      rcases List.eq_nil_or_concat' w.rest with hnil | ⟨init, b, hb⟩
      · exact .inl hnil
      · right
        rw [hb, List.length_append, List.length_singleton] at hshort
        obtain rfl := List.length_eq_zero_iff.1 (show init.length = 0 by omega)
        rw [hb] at hsuffix ⊢
        have hlast := List.singleton_suffix_iff_getLast?_eq_some.1 hsuffix
        rw [List.getLast?_concat] at hlast
        rw [List.nil_append, ← Option.some.inj hlast]
  rcases hrests with hall | hnil | hnewline
  · have hdone : done = [] := by
      rw [hall] at hdata
      exact List.self_eq_append_left.1 hdata
    refine ⟨kept, none, h.written, h.chained, h.acked, fun _ => ?_, fun _ hnone => (by cases hnone),
      fun q l hq => .inl (hbehind q l hq)⟩
    rw [unendedLine, List.append_nil, ← List.append_nil (ledgerFile lib kept), ← hdone]
    exact hfile
  · refine ⟨kept ++ [w.record], none, ?_, ?_, h.acked.trans (List.sublist_append_left _ _),
      fun _ => ?_, fun _ hnone => (by cases hnone), fun q l hq => .inl ((hbehind q l hq).append _)⟩
    · rw [Option.toList_none, List.append_nil]
      exact written_snoc hwritten hunder.written
    · rw [Option.toList_none, List.append_nil]
      exact hunder.chained
    · rw [unendedLine, List.append_nil]
      exact hunder.complete hnil
  · refine ⟨kept, some w.record, written_snoc hwritten hunder.written, hunder.chained, h.acked,
      fun _ => ?_, fun _ hnone => (by cases hnone), fun q l hq => .inl (hbehind q l hq)⟩
    have hline : done = (lineRecord lib w.record).line := by
      rw [hunder.data, hunder.written.data.1, hnewline] at hdata
      exact (List.append_cancel_right hdata).symm
    rw [unendedLine, ← hline]
    exact hfile

theorem Inv.step (h : Inv lib s kept unended) {m : Move ι} (hm : Fits lib s m) :
    ∃ kept' unended', Inv lib (AuditSystem.step lib s m) kept' unended' := by
  cases m with
  | opens p => exact ⟨kept, unended, h.opens p⟩
  | reload p => exact ⟨kept, unended, h.reload p⟩
  | append p r => exact ⟨kept, unended, h.append hm⟩
  | write p n => exact ⟨kept, unended, h.write p n⟩
  | finish p =>
    obtain ⟨kept', hinv⟩ := h.finish p
    exact ⟨kept', unended, hinv⟩
  | crash p =>
    unfold AuditSystem.step
    dsimp only
    split
    · rename_i w hw
      split_ifs with hwriter
      · subst hwriter
        exact h.crashed hw (hm w hw rfl)
      · refine ⟨kept, unended, h.put ?_ ?_⟩
        · intro w' hw'
          rw [hw] at hw'
          cases hw'
          exact hwriter
        · intro l hl
          cases hl
    · rename_i hfree
      refine ⟨kept, unended, h.put ?_ ?_⟩
      · intro w' hw'
        rw [hfree] at hw'
        cases hw'
      · intro l hl
        cases hl

end Invariant

section Meaning

variable {lib : AuditLib} {kept rows : List AuditRecord}

theorem cut_ledgerFile (h : ∀ r ∈ kept, Written lib r) {torn : Bytes}
    (htorn : (10 : UInt8) ∉ torn) :
    Lines.cut isNewline (ledgerFile lib kept ++ torn) = (kept.map (lineOf lib), torn) := by
  have hwhole : ∀ x ∈ kept.map (lineRecord lib), Whole lib.floats x.payload x.data := by
    intro x hx
    obtain ⟨r, hr, rfl⟩ := List.mem_map.1 hx
    exact (h r hr).whole
  unfold ledgerFile
  rw [cut_contents hwhole htorn, List.map_map]
  rfl

theorem sequence_of_lineOf {r s : AuditRecord} (hr : Written lib r) (hs : Written lib s)
    (h : lineOf lib r = lineOf lib s) : r.sequence = s.sequence := by
  obtain ⟨⟨text, htext⟩, -⟩ := hr
  obtain ⟨⟨text', htext'⟩, -⟩ := hs
  unfold lineOf at h
  rw [line_lineRecord htext, line_lineRecord htext'] at h
  have hdecode := Utf8.decode_encode text
  rw [h, Utf8.decode_encode] at hdecode
  obtain rfl := Option.some.inj hdecode
  obtain ⟨stored, hload, hfields, -⟩ := loads_lineText htext
  obtain ⟨stored', hload', hfields', -⟩ := loads_lineText htext'
  rw [hload] at hload'
  cases hload'
  have hsequence : Holds lib stored ("sequence", (PyNumber.int r.sequence).raw) :=
    hfields _ (List.mem_append_left _ (List.mem_append_left _ (.tail _ (.head _))))
  have hsequence' : Holds lib stored ("sequence", (PyNumber.int s.sequence).raw) :=
    hfields' _ (List.mem_append_left _ (List.mem_append_left _ (.tail _ (.head _))))
  have hvalue := hsequence.number.symm.trans hsequence'.number
  exact Value.int.inj (Option.some.inj hvalue)

theorem sequences_of_linked {i : ℕ} {previous : String}
    (h : (auditChain lib).Linked i (some previous) rows) :
    rows.map AuditRecord.sequence = (List.range' i rows.length).map Nat.cast := by
  induction rows generalizing i previous with
  | nil => rfl
  | cons r rows ih =>
    obtain ⟨⟨hsequence, -, -⟩, hrest⟩ := linked_cons.1 h
    rw [List.map_cons, List.length_cons, List.range'_succ, List.map_cons, ih hrest, hsequence]

theorem nodup_lines (hwritten : ∀ r ∈ kept, Written lib r) (hchained : Chained lib kept) :
    (kept.map (lineOf lib)).Nodup := by
  have hsequences : (kept.map AuditRecord.sequence).Nodup := by
    rw [sequences_of_linked hchained]
    exact List.Nodup.map Nat.cast_injective List.nodup_range'
  refine List.Nodup.map_on ?_ hsequences.of_map
  intro r hr s hs hline
  exact List.inj_on_of_nodup_map hsequences hr hs
    (sequence_of_lineOf (hwritten r hr) (hwritten s hs) hline)

theorem lines_alike (h : List.Forall₂ (Alike lib) kept rows) :
    rows.map (lineOf lib) = kept.map (lineOf lib) := by
  induction h with
  | nil => rfl
  | @cons r s kept rows hhead _ ih =>
    have hline : lineOf lib s = lineOf lib r := by
      unfold lineOf lineRecord
      rw [hhead.lineText]
    rw [List.map_cons, List.map_cons, ih, hline]

variable {ι : Type} {s : State ι} {unended : Option AuditRecord}

theorem Inv.lines (h : Inv lib s kept unended) :
    ∃ whole, completeLines s.file = whole.map (lineOf lib) ∧ (∀ r ∈ whole, Written lib r) ∧
      Chained lib whole ∧ s.acked.Sublist whole ∧ (s.writing = none → whole = kept) := by
  have hkept : ∀ r ∈ kept, Written lib r := fun r hr => h.written r (List.mem_append_left _ hr)
  have hchained : Chained lib kept := ((HashChain.Scheme.linked_append _).1 h.chained).1
  have hlines : ∀ torn, (10 : UInt8) ∉ torn →
      completeLines (ledgerFile lib kept ++ torn) = kept.map (lineOf lib) := by
    intro torn htorn
    unfold completeLines
    rw [cut_ledgerFile hkept htorn]
  cases hw : s.writing with
  | none =>
    refine ⟨kept, ?_, hkept, hchained, h.acked, fun _ => rfl⟩
    rw [h.free hw]
    exact hlines _ (unendedLine_notMem fun r hr =>
      h.written r (List.mem_append_right _ (Option.mem_toList.2 hr)))
  | some w =>
    obtain ⟨-, hunder⟩ := h.held w hw
    by_cases hrest : w.rest = []
    · refine ⟨kept ++ [w.record], ?_, written_snoc hkept hunder.written, hunder.chained,
        h.acked.trans (List.sublist_append_left _ _), fun hnone => (by cases hnone)⟩
      have hcut := cut_ledgerFile (written_snoc hkept hunder.written) List.not_mem_nil
      rw [List.append_nil] at hcut
      unfold completeLines
      rw [hunder.complete hrest, hcut]
    · refine ⟨kept, ?_, hkept, hchained, h.acked, fun hnone => (by cases hnone)⟩
      obtain ⟨done, hdata, hfile⟩ := hunder.rest
      rw [hfile]
      apply hlines
      obtain ⟨hline, hnewline, -⟩ := hunder.written.data
      rw [hunder.data, hline] at hdata
      -- What is there of the line stops before its newline.
      have hinitial : done <+: (lineRecord lib w.record).line ++ [10] := ⟨w.rest, hdata.symm⟩
      rcases List.prefix_concat_iff.1 hinitial with hall | hpart
      · rw [hall] at hdata
        exact absurd (List.self_eq_append_right.1 hdata) hrest
      · exact fun hmem => hnewline (hpart.subset hmem)

theorem Inv.safe [DecidableEq ι] (h : Inv lib s kept unended) : Safe lib s := by
  obtain ⟨whole, hlines, hwritten, hchained, hacked, hsettled⟩ := h.lines
  obtain ⟨rows, hrows, hparse⟩ := parseFrom_lines hwritten
  refine ⟨?_, ?_, ⟨rows, ?_, verify_iff.2 (linked_alike hrows hchained), ?_⟩, ?_⟩
  · intro r hr
    rw [hlines]
    exact List.count_eq_one_of_mem (nodup_lines hwritten hchained)
      (List.mem_map_of_mem (hacked.subset hr))
  · rw [hlines]
    exact hacked.map _
  · have := hparse 1 []
    rw [List.append_nil, parseFrom] at this
    rw [hlines]
    refine this.trans ?_
    exact congrArg Except.ok (List.append_nil rows)
  · intro p record w hfree hw
    obtain rfl := hsettled hfree
    unfold AuditSystem.step at hw
    dsimp only at hw
    cases hl : s.ledger p with
    | none =>
      rw [hl] at hw
      rw [hfree] at hw
      cases hw
    | some l =>
      rw [hl, hfree] at hw
      dsimp only at hw
      rcases h.begun hfree hl record with ⟨hnone, -⟩ | ⟨rfl, l', sealed, hbegun, -, hsealed, -⟩
      · rw [hnone] at hw
        cases hw
      · rw [hbegun] at hw
        cases hw
        have hplace := (sealed_eq_some hsealed).1
        refine ⟨?_, ?_, ?_⟩
        · have hfile := h.free hfree
          rw [unendedLine, List.append_nil] at hfile
          rw [hfile]
          by_cases hne : whole = []
          · left
            rw [hne]
            rfl
          · obtain ⟨front, hfront⟩ := ledgerFile_ends hwritten hne
            right
            rw [hfront]
            exact List.suffix_append _ _
        · rw [tailHashOf_alike hrows, hplace]
          rfl
        · rw [← hrows.length_eq, hplace]
          rfl
  · intro hfree
    obtain ⟨l, hreload, hl, -⟩ := h.reloaded hfree
    refine ⟨l, hreload, verify_iff.2 (linked_alike hl.records h.chained), ?_⟩
    rw [lines_alike hl.records]
    exact (h.acked.trans (List.sublist_append_left _ _)).map _

end Meaning

/-- In every run in which each record written is read back as it was, and no crash leaves a
part of a record's text, the ledger keeps what it acknowledged as one chain. -/
theorem audit_chain_law {ι : Type} [DecidableEq ι] (lib : AuditLib) (ms : List (Move ι))
    (h : Along (Fits lib) (step lib) State.initial ms) :
    Safe lib (exec (step lib) State.initial ms) := by
  obtain ⟨kept, unended, hinv⟩ := Along.invariant
    (I := fun s : State ι => ∃ kept unended, Inv lib s kept unended)
    (fun s m ⟨_, _, hs⟩ hm => hs.step hm) ⟨[], none, inv_initial⟩ h
  exact hinv.safe

section Torn

variable {lib : AuditLib} {kept : List AuditRecord} {r : AuditRecord} {text : List Char}

theorem strip_torn {body : List Char} (h : ∀ c ∈ '{' :: body, c.toNat < 128) {n : ℕ}
    (hpos : 0 < n) :
    ∃ m, 0 < m ∧ m ≤ n ∧
      strip ((Utf8.encode ('{' :: body)).take n) = Utf8.encode (('{' :: body).take m) := by
  obtain ⟨k, rfl⟩ := Nat.exists_eq_succ_of_ne_zero (Nat.pos_iff_ne_zero.1 hpos)
  have hbytes : (Utf8.encode ('{' :: body)).take (k + 1) = 123 :: (Utf8.encode body).take k := rfl
  have hinitial : strip (123 :: (Utf8.encode body).take k) <+: 123 ::
    (Utf8.encode body).take k := by
    unfold strip
    rw [List.dropWhile_cons_of_neg (by decide)]
    exact List.rdropWhile_prefix _ _
  have hne : strip (123 :: (Utf8.encode body).take k) ≠ [] := by
    unfold strip
    rw [List.dropWhile_cons_of_neg (by decide), Ne, List.rdropWhile_eq_nil_iff]
    intro hall
    exact absurd (hall 123 List.mem_cons_self) (by decide)
  have htake := List.prefix_iff_eq_take.1 hinitial
  have hlength := hinitial.length_le
  rw [← hbytes] at hinitial hne htake hlength
  refine ⟨_, List.length_pos_of_ne_nil hne, ?_, ?_⟩
  · exact hlength.trans (List.length_take_le _ _)
  · rw [← Utf8.take_encode h]
    conv_lhs => rw [htake]
    rw [List.take_take, Nat.min_eq_left (hlength.trans (List.length_take_le _ _))]

theorem readRecord_torn (htext : r.lineText lib = some text) {n : ℕ} (hpos : 0 < n)
    (hn : n < text.length) :
    strip ((Utf8.encode text).take n) ≠ [] ∧
      ∃ e, readRecord lib (strip ((Utf8.encode text).take n)) = .error e := by
  obtain ⟨vs, -, hwrite⟩ := lineText_eq_some.1 htext
  have hascii : ∀ c ∈ text, c.toNat < 128 := by
    intro c hc
    rw [hwrite] at hc
    exact (printable_write lib.floats 0 _ c hc).2
  obtain ⟨body, hbody⟩ := (lineText_spec htext).1
  obtain ⟨m, hm, hle, hstrip⟩ := strip_torn (hbody ▸ hascii) hpos
  rw [← hbody] at hstrip
  have hmore : text.drop m ≠ [] := by
    rw [Ne, List.drop_eq_nil_iff]
    omega
  have hload : loads lib.floats (text.take m) = none :=
    loads_write_prefix lib.floats (hwrite.symm.trans (List.take_append_drop m text).symm) hmore
  have hread : readRecord lib (strip ((Utf8.encode text).take n)) = .error "not JSON" := by
    rw [hstrip]
    unfold readRecord
    rw [Utf8.decode_encode, Option.bind_some, hload]
  refine ⟨?_, _, hread⟩
  intro hnil
  rw [hstrip, hbody] at hnil
  obtain ⟨k, rfl⟩ := Nat.exists_eq_succ_of_ne_zero (Nat.pos_iff_ne_zero.1 hm)
  cases hnil

theorem reload_torn (hkept : ∀ x ∈ kept, Written lib x) (htext : r.lineText lib = some text) {n : ℕ}
    (hpos : 0 < n) (hn : n < text.length) :
    ∃ e, JsonlAuditLedger.reload lib (ledgerFile lib kept ++ (Utf8.encode text).take n) =
      .error e := by
  obtain ⟨hblank, e, hread⟩ := readRecord_torn htext hpos hn
  obtain ⟨rows, -, hparse⟩ := parseFrom_lines hkept
  have hnewline : (10 : UInt8) ∉ (Utf8.encode text).take n := by
    intro hmem
    exact (lineText_spec htext).2.1 (Utf8.newline_mem_encode (List.mem_of_mem_take hmem))
  have hlines : parseLines lib (ledgerFile lib kept ++ (Utf8.encode text).take n) =
      .error (.unreadable (1 + kept.length) e) := by
    unfold parseLines
    rw [cut_ledgerFile hkept hnewline]
    refine (hparse 1 _).trans ?_
    rw [parseFrom, if_neg hblank, hread]
    rfl
  refine ⟨.unreadable (1 + kept.length) e, ?_⟩
  unfold JsonlAuditLedger.reload
  rw [hlines]
  rfl

end Torn

section Samples

def twoWriters : List (Move ℕ) :=
  [.opens 2, .crash 2, .opens 0, .opens 1, .append 0 floatCost, .write 0 100, .write 0 100000,
    .finish 0, .append 1 floatCost, .write 1 100000, .finish 1, .reload 0]

theorem audit_chain_law_twoWriters :
    Safe epochAuditLib (exec (step epochAuditLib) State.initial twoWriters) := by
  apply audit_chain_law
  have hexact : HasJson epochAuditLib floatCost → Exact epochAuditLib floatCost :=
    floatCost_exact floatCost List.mem_cons_self
  refine ⟨trivial, ?_, trivial, trivial, hexact, trivial, trivial, trivial, hexact,
    trivial, trivial,
    trivial, trivial⟩
  intro w hw
  cases hw

variable {lib : AuditLib} {s : State ℕ} {kept : List AuditRecord}

variable {l : JsonlAuditLedger} {r : AuditRecord}

theorem append_undisturbed (h : Inv lib s kept none) (hfree : s.writing = none) {p : ℕ}
    (hl : s.ledger p = some l) (hr : HasJson lib r)
    (hexact : Exact lib r) :
    ∃ n kept', Inv lib (exec (step lib) s [.append p r, .write p n, .finish p]) kept' none ∧
      (exec (step lib) s [.append p r, .write p n, .finish p]).writing = none ∧
      (exec (step lib) s [.append p r, .write p n, .finish p]).acked ≠ [] ∧
      ∃ l, (exec (step lib) s [.append p r, .write p n, .finish p]).ledger p = some l := by
  obtain ⟨l', -, hstarts, -⟩ := h.begins hfree hl r
  obtain ⟨sealed, hbegun, -⟩ := hstarts hr
  have happend : step lib s (.append p r) = started lib s p l' sealed := by
    unfold step
    dsimp only
    rw [hl, hfree]
    exact hbegun
  have hwritten := h.append (p := p) fun _ => hexact
  rw [happend] at hwritten
  obtain ⟨kept', hfinished⟩ := (hwritten.write p (lineRecord lib sealed).data.length).finish p
  have hput : step lib (step lib (started lib s p l' sealed)
      (.write p (lineRecord lib sealed).data.length)) (.finish p) =
      { s.put p (some (l'.extended sealed (lineRecord lib sealed).data)) with
        file := s.file ++ (lineRecord lib sealed).data, writing := none
        acked := s.acked ++ [sealed] } := by
    simp only [step, started, State.put, if_true, List.drop_length, List.take_length,
      Function.update_self, Function.update_idem, true_and]
  refine ⟨(lineRecord lib sealed).data.length, kept', ?_⟩
  rw [exec_cons, exec_cons, exec_cons, exec_nil, happend]
  rw [hput] at hfinished ⊢
  refine ⟨hfinished, rfl, ?_, _, Function.update_self _ _ _⟩
  exact List.append_ne_nil_of_right_ne_nil _ (List.cons_ne_nil _ _)

theorem append_torn (h : Inv lib s kept none) (hfree : s.writing = none) {p : ℕ}
    (hl : s.ledger p = some l) (hr : HasJson lib r) :
    (exec (step lib) s [.append p r, .write p 1, .crash p]).writing = none ∧
      (exec (step lib) s [.append p r, .write p 1, .crash p]).acked = s.acked ∧
      ∃ e, JsonlAuditLedger.reload lib
        (exec (step lib) s [.append p r, .write p 1, .crash p]).file = .error e := by
  obtain ⟨l', -, hstarts, -⟩ := h.begins hfree hl r
  obtain ⟨sealed, hbegun, -, text, htext⟩ := hstarts hr
  have happend : step lib s (.append p r) = started lib s p l' sealed := by
    unfold step
    dsimp only
    rw [hl, hfree]
    exact hbegun
  have hcrash : step lib (step lib (started lib s p l' sealed) (.write p 1)) (.crash p) =
      { s.put p none with
        file := s.file ++ (lineRecord lib sealed).data.take 1, writing := none } := by
    simp only [step, started, State.put, if_true, Function.update_idem]
  rw [exec_cons, exec_cons, exec_cons, exec_nil, happend, hcrash]
  refine ⟨rfl, rfl, ?_⟩
  obtain ⟨body, hbody⟩ := (lineText_spec htext).1
  have hlength : 1 < text.length := by
    rw [hbody, List.length_cons, List.length_append, List.length_singleton]
    omega
  have hfirst : (lineRecord lib sealed).data.take 1 = (Utf8.encode text).take 1 := by
    unfold lineRecord
    rw [htext, hbody]
    rfl
  have hfile := h.free hfree
  rw [unendedLine, List.append_nil] at hfile
  have hwritten := h.written
  rw [Option.toList_none, List.append_nil] at hwritten
  obtain ⟨e, he⟩ := reload_torn hwritten htext Nat.zero_lt_one hlength
  refine ⟨e, ?_⟩
  dsimp only
  rw [hfirst, hfile]
  exact he

/-- After a crash within a line no new instance loads the acknowledged record. -/
theorem torn_line_hides_the_ledger :
    ∃ ms : List (Move ℕ), (exec (step epochAuditLib) State.initial ms).acked ≠ [] ∧
      (exec (step epochAuditLib) State.initial ms).writing = none ∧
      (∃ e, JsonlAuditLedger.reload epochAuditLib
        (exec (step epochAuditLib) State.initial ms).file = .error e) ∧
      ¬ Safe epochAuditLib (exec (step epochAuditLib) State.initial ms) := by
  have hjson : HasJson epochAuditLib floatCost := ⟨rfl, rfl⟩
  have hexact : Exact epochAuditLib floatCost := floatCost_exact floatCost List.mem_cons_self hjson
  have hopened : Inv epochAuditLib (step epochAuditLib State.initial (.opens 0)) [] none :=
    Inv.opens inv_initial 0
  have hslot : (step epochAuditLib State.initial (.opens 0)).ledger 0 = some ⟨[], 0, true⟩ := rfl
  obtain ⟨n, kept, hinv, hfree, hacked, l, hl⟩ := append_undisturbed hopened rfl hslot hjson hexact
  obtain ⟨hfree', hacked', e, he⟩ := append_torn hinv hfree hl hjson
  refine ⟨.opens 0 :: ([.append 0 floatCost, .write 0 n, .finish 0] ++
    [.append 0 floatCost, .write 0 1, .crash 0]), ?_⟩
  rw [exec_cons, exec_append]
  refine ⟨?_, hfree', ⟨e, he⟩, ?_⟩
  · rw [hacked']
    exact hacked
  · intro hsafe
    obtain ⟨l', hreload, -⟩ := hsafe.reopened hfree'
    rw [he] at hreload
    cases hreload

end Samples

end AuditSystem

end Fiboki.Audit
