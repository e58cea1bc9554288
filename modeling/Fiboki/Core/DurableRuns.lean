import Mathlib.Data.List.Range
import Fiboki.Core.Durable
import Fiboki.Lib.Run

/-!
Processes that append to one file and read it, each of which may stop after any byte.

A file keeps every acknowledged record as long as no append glues its record to a torn
tail that could not be cut off.
-/

namespace Fiboki.Durable

open Json Runs Utf8

/-- One append that got the lock: its place in the order of appends, its payload and
the bytes it writes. -/
structure Record where
  seq : ℕ
  payload : Payload
  data : Bytes
  deriving DecidableEq

/-- Where a process is. A reader carries the records acknowledged when it was called. -/
inductive Phase where
  | idle
  | waiting (payload : Payload) (data : Bytes)
  | appending (record : Record) (rest : Bytes)
  | reading (known : List ℕ) (quarantine : Bool)
  | locking (known : List ℕ) (found : Scan)
  deriving DecidableEq

structure State (ι : Type) where
  file : Bytes
  holder : Option ι
  phase : ι → Phase
  records : List Record
  acked : List ℕ

def State.initial {ι : Type} : State ι := ⟨[], none, fun _ => .idle, [], []⟩

/-- What becomes of a reader's repair: no lock, or the lock with the quarantine failing
before it cuts the file, or cutting it. -/
inductive Repair where
  | noLock
  | keeps
  | truncates

/-- `append` and `read` call the functions, `acquire` takes the lock and repairs the
tail, `write` puts the next `n` bytes, `finish` returns, `peek` is the reader's look
without the lock and `lock` its look with it. -/
inductive Move (ι : Type) where
  | append (p : ι) (line : Payload) (frame : Bool)
  | acquire (p : ι) (truncates : Bool)
  | write (p : ι) (n : ℕ)
  | finish (p : ι)
  | crash (p : ι)
  | read (p : ι) (quarantine : Bool)
  | peek (p : ι)
  | lock (p : ι) (repair : Repair)

/-- What `read_payloads` returned or raised, to a caller who knew of some records. -/
structure Returned where
  known : List ℕ
  result : Except DurableLogCorrupt (List Payload)

section System

variable {ι : Type} [DecidableEq ι] (floats : FloatText)

def State.goto (s : State ι) (p : ι) (phase : Phase) : State ι :=
  { s with phase := Function.update s.phase p phase }

def acquired (s : State ι) (p : ι) (payload : Payload) (data : Bytes) (truncates : Bool) :
    State ι :=
  match repaired floats truncates s.file with
  | .error _ => s.goto p .idle
  | .ok file =>
    let record := ⟨s.records.length, payload, data⟩
    { s.goto p (.appending record data) with
      file, holder := some p, records := s.records ++ [record] }

def peeked (s : State ι) (p : ι) (known : List ℕ) (quarantine : Bool) : State ι × Option Returned :=
  match scan floats s.file with
  | .error e => (s.goto p .idle, some ⟨known, .error e⟩)
  | .ok found =>
    if found.torn = none ∨ quarantine = false then
      (s.goto p .idle, some ⟨known, .ok found.payloads⟩)
    else (s.goto p (.locking known found), none)

def relooked (s : State ι) (p : ι) (known : List ℕ) (truncates : Bool) :
    State ι × Option Returned :=
  match scan floats s.file with
  | .error e => (s.goto p .idle, some ⟨known, .error e⟩)
  | .ok found =>
    ({ s.goto p .idle with
        file := if found.torn.isSome && truncates then s.file.take found.goodLen else s.file },
      some ⟨known, .ok found.payloads⟩)

def act (s : State ι) : Move ι → State ι × Option Returned
  | .append p line frame =>
    match s.phase p, recordBytes line frame with
    | .idle, .ok data => (s.goto p (.waiting line data), none)
    | _, _ => (s, none)
  | .acquire p truncates =>
    match s.phase p, s.holder with
    | .waiting payload data, none => (acquired floats s p payload data truncates, none)
    | _, _ => (s, none)
  | .write p n =>
    match s.phase p with
    | .appending record rest =>
      ({ s.goto p (.appending record (rest.drop n)) with file := s.file ++ rest.take n }, none)
    | _ => (s, none)
  | .finish p =>
    match s.phase p with
    | .appending record [] =>
      ({ s.goto p .idle with holder := none, acked := s.acked ++ [record.seq] }, none)
    | _ => (s, none)
  | .crash p =>
    match s.phase p with
    | .appending _ _ => ({ s.goto p .idle with holder := none }, none)
    | _ => (s.goto p .idle, none)
  | .read p quarantine =>
    match s.phase p with
    | .idle => (s.goto p (.reading s.acked quarantine), none)
    | _ => (s, none)
  | .peek p =>
    match s.phase p with
    | .reading known quarantine => peeked floats s p known quarantine
    | _ => (s, none)
  | .lock p repair =>
    match s.phase p, repair, s.holder with
    | .locking known found, .noLock, _ => (s.goto p .idle, some ⟨known, .ok found.payloads⟩)
    | .locking known _, .keeps, none => relooked floats s p known false
    | .locking known _, .truncates, none => relooked floats s p known true
    | _, _, _ => (s, none)

def step (s : State ι) (m : Move ι) : State ι := (act floats s m).1

/-- The payloads are those of some records in the order of the appends, among them every
record that was known to be acknowledged. -/
def Shows (records : List Record) (known : List ℕ) (payloads : List Payload) : Prop :=
  ∃ kept : List Record, kept.Sublist records ∧
    (∀ r ∈ records, r.seq ∈ known → r ∈ kept) ∧ payloads = kept.map Record.payload

def Lawful (s : State ι) (m : Move ι) : Prop :=
  ∀ returned, (act floats s m).2 = some returned →
    ∃ payloads, returned.result = .ok payloads ∧ Shows s.records returned.known payloads

def NeedsRepair (file : Bytes) : Prop :=
  file.length ≠ 0 ∧ tailIsClean floats file = false ∧
    ∃ found, scan floats file = .ok found ∧ found.torn ≠ none

def Repairs (s : State ι) : Move ι → Prop
  | .append _ line frame => frame = true ∨ Accepted floats line
  | .acquire p truncates =>
    ∀ payload data, s.phase p = .waiting payload data → s.holder = none →
      NeedsRepair floats s.file → truncates = true
  | _ => True

end System

section Files

variable {floats : FloatText}

def contents (kept : List Record) : Bytes := kept.flatMap Record.data

theorem contents_snoc (kept : List Record) (r : Record) :
    contents (kept ++ [r]) = contents kept ++ r.data := by
  simp only [contents, List.flatMap_append, List.flatMap_singleton]

def Record.line (r : Record) : Bytes := r.data.dropLast

theorem Whole.line {r : Record} (h : Whole floats r.payload r.data) :
    r.data = r.line ++ [10] ∧ (10 : UInt8) ∉ r.line ∧ strip r.line ≠ [] ∧
      decodeBytes floats (strip r.line) = .ok r.payload := by
  obtain ⟨body, hdata, hbody⟩ := h
  have hline : r.line = body := by rw [Record.line, hdata, List.dropLast_concat]
  rw [hline]
  exact ⟨hdata, hbody⟩

variable {kept : List Record} {torn : Bytes}

theorem cut_contents (h : ∀ r ∈ kept, Whole floats r.payload r.data) (htorn : (10 : UInt8) ∉ torn) :
    Lines.cut isNewline (contents kept ++ torn) = (kept.map Record.line, torn) := by
  induction kept with
  | nil => exact Lines.cut_unfinished (not_isNewline htorn)
  | cons r kept ih =>
    obtain ⟨hdata, hline, -⟩ := (h r List.mem_cons_self).line
    have hsplit : contents (r :: kept) ++ torn = r.line ++ 10 :: (contents kept ++ torn) := by
      change r.data ++ contents kept ++ torn = _
      rw [hdata]
      simp only [List.append_assoc, List.cons_append, List.nil_append]
    rw [hsplit, Lines.cut_line (not_isNewline hline) rfl,
      ih fun x hx => h x (List.mem_cons_of_mem _ hx)]
    rfl

def unfinished (torn : Bytes) : Option Bytes := if torn = [] then none else some torn

theorem scanFrom_records (h : ∀ r ∈ kept, Whole floats r.payload r.data) (blob torn : Bytes)
    (index pos : ℕ) (payloads : List Payload)
    (hblob : blob.drop (pos + (contents kept).length) = torn) :
    ∃ reason, scanFrom floats blob torn index pos payloads (kept.map Record.line) =
      .ok ⟨payloads ++ kept.map Record.payload, pos + (contents kept).length, unfinished torn,
        reason⟩ := by
  induction kept generalizing index pos payloads with
  | nil =>
    simp only [contents, List.flatMap_nil, List.length_nil, Nat.add_zero] at hblob
    simp only [List.map_nil, scanFrom, List.append_nil, contents, List.flatMap_nil,
      List.length_nil, Nat.add_zero, hblob, unfinished]
    by_cases hne : torn = []
    · exact ⟨none, by simp [hne]⟩
    · exact ⟨some .notTerminated, by simp [hne]⟩
  | cons r kept ih =>
    obtain ⟨hdata, -, hblank, hdecode⟩ := (h r List.mem_cons_self).line
    have hlength : pos + (contents (r :: kept)).length
        = pos + r.line.length + 1 + (contents kept).length := by
      change pos + (r.data ++ contents kept).length = _
      rw [hdata]
      simp only [List.length_append, List.length_singleton]
      omega
    rw [hlength] at hblob ⊢
    obtain ⟨reason, hscan⟩ := ih (fun x hx => h x (List.mem_cons_of_mem _ hx)) (index + 1)
      (pos + r.line.length + 1) (payloads ++ [r.payload]) hblob
    refine ⟨reason, ?_⟩
    rw [List.map_cons, scanFrom_whole hblank hdecode, hscan]
    simp only [List.map_cons, List.append_assoc, List.singleton_append]

theorem scan_contents (h : ∀ r ∈ kept, Whole floats r.payload r.data)
    (htorn : (10 : UInt8) ∉ torn) :
    ∃ reason, scan floats (contents kept ++ torn) =
      .ok ⟨kept.map Record.payload, (contents kept).length, unfinished torn, reason⟩ := by
  have hdrop : (contents kept ++ torn).drop (0 + (contents kept).length) = torn := by
    rw [Nat.zero_add, List.drop_left]
  obtain ⟨reason, hscan⟩ := scanFrom_records h (contents kept ++ torn) torn 0 0 [] hdrop
  refine ⟨reason, ?_⟩
  unfold scan
  rw [cut_contents h htorn, hscan, Nat.zero_add, List.nil_append]

theorem repaired_contents (h : ∀ r ∈ kept, Whole floats r.payload r.data)
    (htorn : (10 : UInt8) ∉ torn) {truncates : Bool}
    (htruncates : NeedsRepair floats (contents kept ++ torn) → truncates = true) :
    repaired floats truncates (contents kept ++ torn) = .ok (contents kept) := by
  obtain ⟨reason, hscan⟩ := scan_contents h htorn
  unfold repaired
  by_cases hne : torn = []
  · rw [hscan, hne]
    simp [unfinished]
  · have hunclean := tailIsClean_unfinished floats (contents kept) hne htorn
    have hsize : (contents kept ++ torn).length ≠ 0 := by
      rw [List.length_append]
      have := List.length_pos_of_ne_nil hne
      omega
    have htrue : truncates = true :=
      htruncates ⟨hsize, hunclean, _, hscan, by simp [unfinished, hne]⟩
    rw [if_pos ⟨hsize, hunclean⟩, hscan, htrue]
    simp [unfinished, hne]

end Files

section Invariant

variable {ι : Type}

/-- The records that a file holds whole: in order, and every acknowledged one. -/
structure Holds (records : List Record) (acked : List ℕ) (kept : List Record) : Prop where
  inOrder : kept.Sublist records
  all : ∀ r ∈ records, r.seq ∈ acked → r ∈ kept

def Settled (s : State ι) : Prop :=
  ∃ kept torn, Holds s.records s.acked kept ∧ (10 : UInt8) ∉ torn ∧ s.file = contents kept ++ torn

def Writing (s : State ι) (record : Record) (rest : Bytes) : Prop :=
  ∃ before kept written, s.records = before ++ [record] ∧ Holds before s.acked kept ∧
    (∀ i ∈ s.acked, i < before.length) ∧ record.data = written ++ rest ∧
    s.file = contents kept ++ written

def Fits (floats : FloatText) (s : State ι) (p : ι) : Phase → Prop
  | .idle => True
  | .waiting payload data => Whole floats payload data
  | .appending _ _ => s.holder = some p
  | .reading known _ => ∀ i ∈ known, i ∈ s.acked
  | .locking known found => (∀ i ∈ known, i ∈ s.acked) ∧ Shows s.records known found.payloads

structure Inv (floats : FloatText) (s : State ι) : Prop where
  numbered : s.records.map Record.seq = List.range s.records.length
  whole : ∀ r ∈ s.records, Whole floats r.payload r.data
  bounded : ∀ i ∈ s.acked, i < s.records.length
  free : s.holder = none → Settled s
  held : ∀ p, s.holder = some p → ∃ record rest, s.phase p = .appending record rest ∧
    Writing s record rest
  fits : ∀ p, Fits floats s p (s.phase p)

variable {floats : FloatText} {s s' : State ι} {p : ι}

theorem inv_initial : Inv floats (State.initial : State ι) where
  numbered := rfl
  whole := by
    intro r hr
    cases hr
  bounded := by
    intro i hi
    cases hi
  free _ := ⟨[], [], ⟨List.Sublist.slnil, fun r hr _ => hr⟩, List.not_mem_nil, rfl⟩
  held := by
    intro p hp
    cases hp
  fits _ := trivial

theorem Inv.not_holder (h : Inv floats s)
    (hphase : ∀ record rest, s.phase p ≠ .appending record rest) :
    s.holder ≠ some p := by
  intro hholder
  obtain ⟨record, rest, hp, -⟩ := h.held p hholder
  exact hphase record rest hp

variable {phase : Phase}

theorem Fits.later (h : Fits floats s p phase) (hholder : s.holder = some p → s'.holder = some p)
    (hacked : ∀ i ∈ s.acked, i ∈ s'.acked)
    (hrecords : s.records.Sublist s'.records)
    (hnew : ∀ r ∈ s'.records, r.seq ∈ s.acked → r ∈ s.records) : Fits floats s' p phase := by
  cases phase with
  | idle => trivial
  | waiting payload data => exact h
  | appending record rest => exact hholder h
  | reading known quarantine => exact fun i hi => hacked i (h i hi)
  | locking known found =>
    obtain ⟨hknown, kept, hsub, hall, hpayloads⟩ := h
    refine ⟨fun i hi => hacked i (hknown i hi), kept, hsub.trans hrecords, ?_, hpayloads⟩
    intro r hr hseq
    exact hall r (hnew r hr (hknown _ hseq)) hseq

variable {record : Record}

theorem seq_snoc {before : List Record}
    (h : (before ++ [record]).map Record.seq = List.range (before ++ [record]).length) :
    before.map Record.seq = List.range before.length ∧ record.seq = before.length := by
  rw [List.length_append, List.length_singleton, List.range_succ, List.map_append] at h
  obtain ⟨hbefore, hrecord⟩ := List.append_inj' h rfl
  exact ⟨hbefore, List.singleton_inj.1 hrecord⟩

variable {records kept : List Record}

variable {acked : List ℕ}

theorem Holds.snoc (h : Holds records acked kept) (hnew : record.seq ∉ acked) :
    Holds (records ++ [record]) acked kept where
  inOrder := h.inOrder.trans (List.sublist_append_left _ _)
  all := by
    intro r hr hseq
    rcases List.mem_append.1 hr with hr | hr
    · exact h.all r hr hseq
    · rw [List.mem_singleton.1 hr] at hseq
      exact absurd hseq hnew

theorem Holds.put
    (h : Holds records acked kept) : Holds (records ++ [record]) acked (kept ++ [record]) where
  inOrder := h.inOrder.append (List.Sublist.refl _)
  all := by
    intro r hr hseq
    rcases List.mem_append.1 hr with hr | hr
    · exact List.mem_append_left _ (h.all r hr hseq)
    · exact List.mem_append_right _ hr

theorem Inv.settled (h : Inv floats s) : Settled s := by
  cases hholder : s.holder with
  | none => exact h.free hholder
  | some p =>
    obtain ⟨record, rest, -, before, kept, written, hrecords, hkept, hacked, hdata, hfile⟩ :=
      h.held p hholder
    have hseq : record.seq = before.length := by
      have hnumbered := h.numbered
      rw [hrecords] at hnumbered
      exact (seq_snoc hnumbered).2
    have hmem : record ∈ s.records := by
      rw [hrecords]
      exact List.mem_append_right _ List.mem_cons_self
    obtain ⟨hline, hnewline, -⟩ := (h.whole record hmem).line
    cases rest with
    | nil =>
      refine ⟨kept ++ [record], [], ?_, List.not_mem_nil, ?_⟩
      · rw [hrecords]
        exact hkept.put
      · rw [List.append_nil] at hdata
        rw [contents_snoc, List.append_nil, hdata]
        exact hfile
    | cons b rest =>
      refine ⟨kept, written, ?_, ?_, hfile⟩
      · rw [hrecords]
        refine hkept.snoc ?_
        intro hmem
        have := hacked _ hmem
        omega
      · intro hmem
        apply hnewline
        have hbegins : written <+: record.line ++ [10] := by
          rw [← hline, hdata]
          exact List.prefix_append _ _
        have hshort : written.length ≤ record.line.length := by
          have hlen := congrArg List.length (hline.symm.trans hdata)
          simp only [List.length_append, List.length_cons, List.length_nil] at hlen
          omega
        exact (List.prefix_of_prefix_length_le hbegins (List.prefix_append _ _) hshort).mem hmem

variable {known : List ℕ}

theorem Inv.scan (h : Inv floats s) (hknown : ∀ i ∈ known, i ∈ s.acked) :
    ∃ kept torn reason, Holds s.records s.acked kept ∧ s.file = contents kept ++ torn ∧
      scan floats s.file = .ok ⟨kept.map Record.payload, (contents kept).length, unfinished torn,
        reason⟩ ∧ Shows s.records known (kept.map Record.payload) := by
  obtain ⟨kept, torn, hkept, htorn, hfile⟩ := h.settled
  obtain ⟨reason, hscan⟩ := scan_contents (fun r hr => h.whole r (hkept.inOrder.mem hr)) htorn
  rw [← hfile] at hscan
  exact ⟨kept, torn, reason, hkept, hfile, hscan, kept, hkept.inOrder,
    fun r hr hseq => hkept.all r hr (hknown _ hseq), rfl⟩

variable {rest : Bytes}

theorem Inv.writing (h : Inv floats s) (hphase : s.phase p = .appending record rest) :
    s.holder = some p ∧ Writing s record rest := by
  have hholder : s.holder = some p := by
    have := h.fits p
    rw [hphase] at this
    exact this
  obtain ⟨record', rest', hphase', hwriting⟩ := h.held p hholder
  cases hphase.symm.trans hphase'
  exact ⟨hholder, hwriting⟩

variable [DecidableEq ι]

theorem fits_update (h : ∀ q, Fits floats s q (s.phase q))
    (hphase : s'.phase = Function.update s.phase p phase) (hp : Fits floats s' p phase)
    (hholder : ∀ q, q ≠ p → s.holder = some q → s'.holder = some q)
    (hacked : ∀ i ∈ s.acked, i ∈ s'.acked) (hrecords : s.records.Sublist s'.records)
    (hnew : ∀ r ∈ s'.records, r.seq ∈ s.acked → r ∈ s.records) (q : ι) :
    Fits floats s' q (s'.phase q) := by
  rw [hphase]
  by_cases hq : q = p
  · subst hq
    rw [Function.update_self]
    exact hp
  · rw [Function.update_of_ne hq]
    exact (h q).later (hholder q hq) hacked hrecords hnew

theorem inv_goto (h : Inv floats s) (hp : s.holder ≠ some p)
    (hphase : Fits floats s p phase) : Inv floats (s.goto p phase) where
  numbered := h.numbered
  whole := h.whole
  bounded := h.bounded
  free := h.free
  held := by
    intro q hq
    have hne : q ≠ p := by
      rintro rfl
      exact hp hq
    obtain ⟨record, rest, hrecord, hwriting⟩ := h.held q hq
    refine ⟨record, rest, ?_, hwriting⟩
    change Function.update s.phase p phase q = _
    rw [Function.update_of_ne hne]
    exact hrecord
  fits := by
    refine fits_update h.fits rfl ?_ (fun _ _ hq => hq) (fun _ hi => hi) (List.Sublist.refl _)
      fun _ hr _ => hr
    cases phase <;> exact hphase

theorem inv_acquired (h : Inv floats s) (hfree : s.holder = none) {payload : Payload} {data : Bytes}
    (hwhole : Whole floats payload data) {truncates : Bool}
    (htruncates : NeedsRepair floats s.file → truncates = true) :
    Inv floats (acquired floats s p payload data truncates) := by
  obtain ⟨kept, torn, hkept, htorn, hfile⟩ := h.free hfree
  have hrepaired : repaired floats truncates s.file = .ok (contents kept) := by
    rw [hfile] at htruncates ⊢
    exact repaired_contents (fun r hr => h.whole r (hkept.inOrder.mem hr)) htorn htruncates
  unfold acquired
  rw [hrepaired]
  refine ⟨?_, ?_, ?_, ?_, ?_, ?_⟩
  · simp only [List.map_append, List.map_cons, List.map_nil, List.length_append, List.length_cons,
      List.length_nil, List.range_succ, h.numbered]
  · intro r hr
    rcases List.mem_append.1 hr with hr | hr
    · exact h.whole r hr
    · rw [List.mem_singleton.1 hr]
      exact hwhole
  · intro i hi
    have := h.bounded i hi
    simp only [List.length_append, List.length_cons, List.length_nil]
    omega
  · intro hnone
    cases hnone
  · intro q hq
    cases hq
    exact ⟨_, data, Function.update_self _ _ _, s.records, kept, [], rfl, hkept, h.bounded, rfl,
      (List.append_nil _).symm⟩
  · refine fits_update h.fits rfl rfl ?_ (fun _ hi => hi) (List.sublist_append_left _ _) ?_
    · intro q _ hq
      rw [hfree] at hq
      cases hq
    · intro r hr hseq
      rcases List.mem_append.1 hr with hr | hr
      · exact hr
      · rw [List.mem_singleton.1 hr] at hseq
        exact absurd (h.bounded _ hseq) (Nat.lt_irrefl _)

theorem inv_write (h : Inv floats s) (hphase : s.phase p = .appending record rest) (n : ℕ) :
    Inv floats { s.goto p (.appending record (rest.drop n)) with
      file := s.file ++ rest.take n } := by
  obtain ⟨hholder, before, kept, written, hrecords, hkept, hacked, hdata, hfile⟩ := h.writing hphase
  refine ⟨h.numbered, h.whole, h.bounded, ?_, ?_, ?_⟩
  · intro hnone
    exact absurd (hholder.symm.trans hnone) (by simp)
  · intro q hq
    cases hholder.symm.trans hq
    refine ⟨record, rest.drop n, Function.update_self _ _ _, before, kept, written ++ rest.take n,
      hrecords, hkept, hacked, ?_, ?_⟩
    · rw [List.append_assoc, List.take_append_drop]
      exact hdata
    · change s.file ++ rest.take n = _
      rw [hfile, List.append_assoc]
  · exact fits_update h.fits rfl hholder (fun _ _ hq => hq) (fun _ hi => hi) (List.Sublist.refl _)
      fun _ hr _ => hr

theorem inv_released (h : Inv floats s) (hphase : s.phase p = .appending record rest)
    (acked : List ℕ)
    (hacked : ∀ i ∈ s.acked, i ∈ acked) (hbounded : ∀ i ∈ acked, i < s.records.length)
    (hsettled : Settled { s with acked }) :
    Inv floats { s.goto p .idle with holder := none, acked } := by
  refine ⟨h.numbered, h.whole, hbounded, fun _ => hsettled, ?_, ?_⟩
  · intro q hq
    cases hq
  · refine fits_update h.fits rfl trivial ?_ hacked (List.Sublist.refl _) fun _ hr _ => hr
    intro q hne hq
    exact absurd (Option.some.inj ((h.writing hphase).1.symm.trans hq)).symm hne

theorem inv_crash (h : Inv floats s) (hphase : s.phase p = .appending record rest) :
    Inv floats { s.goto p .idle with holder := none } :=
  inv_released h hphase s.acked (fun _ hi => hi) h.bounded h.settled

theorem inv_finish (h : Inv floats s) (hphase : s.phase p = .appending record []) :
    Inv floats { s.goto p .idle with holder := none, acked := s.acked ++ [record.seq] } := by
  obtain ⟨-, before, kept, written, hrecords, hkept, -, hdata, hfile⟩ := h.writing hphase
  have hnumbered := h.numbered
  rw [hrecords] at hnumbered
  obtain ⟨hbefore, hseq⟩ := seq_snoc hnumbered
  rw [List.append_nil] at hdata
  refine inv_released h hphase _ (fun i hi => List.mem_append_left _ hi) ?_ ?_
  · intro i hi
    rcases List.mem_append.1 hi with hi | hi
    · exact h.bounded i hi
    · rw [List.mem_singleton.1 hi, hseq, hrecords, List.length_append, List.length_singleton]
      omega
  · refine ⟨kept ++ [record], [], ⟨?_, ?_⟩, List.not_mem_nil, ?_⟩
    · change (kept ++ [record]).Sublist s.records
      rw [hrecords]
      exact hkept.inOrder.append (List.Sublist.refl _)
    · intro r hr hmem
      change r ∈ s.records at hr
      rw [hrecords] at hr
      rcases List.mem_append.1 hr with hr | hr
      · have hlt : r.seq < before.length := by
          rw [← List.mem_range, ← hbefore]
          exact List.mem_map_of_mem hr
        rcases List.mem_append.1 hmem with hmem | hmem
        · exact List.mem_append_left _ (hkept.all r hr hmem)
        · have := List.mem_singleton.1 hmem
          omega
      · exact List.mem_append_right _ hr
    · change s.file = _
      rw [contents_snoc, List.append_nil, hdata]
      exact hfile

theorem peeked_spec (h : Inv floats s) {quarantine : Bool}
    (hphase : s.phase p = .reading known quarantine) :
    Inv floats (peeked floats s p known quarantine).1 ∧
      ∀ returned, (peeked floats s p known quarantine).2 = some returned →
        ∃ payloads, returned.result = .ok payloads ∧ Shows s.records returned.known payloads := by
  have hknown : ∀ i ∈ known, i ∈ s.acked := by
    have := h.fits p
    rw [hphase] at this
    exact this
  have hnot : s.holder ≠ some p := h.not_holder (by simp [hphase])
  obtain ⟨kept, torn, reason, -, -, hscan, hshows⟩ := h.scan hknown
  unfold peeked
  rw [hscan]
  dsimp only
  split_ifs with hdone
  · refine ⟨inv_goto h hnot trivial, ?_⟩
    intro returned hreturned
    cases hreturned
    exact ⟨_, rfl, hshows⟩
  · refine ⟨inv_goto h hnot ⟨hknown, hshows⟩, ?_⟩
    intro returned hreturned
    cases hreturned

theorem relooked_spec (h : Inv floats s) {found : Scan} (truncates : Bool)
    (hphase : s.phase p = .locking known found) (hfree : s.holder = none) :
    Inv floats (relooked floats s p known truncates).1 ∧
      ∀ returned, (relooked floats s p known truncates).2 = some returned →
        ∃ payloads, returned.result = .ok payloads ∧ Shows s.records returned.known payloads := by
  have hknown : ∀ i ∈ known, i ∈ s.acked := by
    have := h.fits p
    rw [hphase] at this
    exact this.1
  obtain ⟨kept, torn, reason, hkept, hfile, hscan, hshows⟩ := h.scan hknown
  unfold relooked
  rw [hscan]
  dsimp only
  refine ⟨⟨h.numbered, h.whole, h.bounded, ?_, ?_, ?_⟩, ?_⟩
  · intro _
    change Settled { s with file := _ }
    split_ifs
    · refine ⟨kept, [], hkept, List.not_mem_nil, ?_⟩
      change s.file.take (contents kept).length = _
      rw [hfile, List.take_left, List.append_nil]
    · exact h.settled
  · intro q hq
    rw [show s.holder = some q from hq] at hfree
    cases hfree
  · exact fits_update h.fits rfl trivial (fun _ _ hq => hq) (fun _ hi => hi) (List.Sublist.refl _)
      fun _ hr _ => hr
  · intro returned hreturned
    cases hreturned
    exact ⟨_, rfl, hshows⟩

theorem act_spec (h : Inv floats s) {m : Move ι} (hm : Repairs floats s m) :
    Inv floats (step floats s m) ∧ Lawful floats s m := by
  unfold step Lawful
  cases m with
  | append p line frame =>
    simp only [act]
    split
    · rename_i hphase hdata
      refine ⟨inv_goto h (h.not_holder (by simp [hphase])) ?_, by simp⟩
      cases frame with
      | true => exact whole_of_framed hdata
      | false => exact whole_of_accepted hdata (hm.resolve_left (by decide))
    · exact ⟨h, by simp⟩
  | acquire p truncates =>
    simp only [act]
    split
    · rename_i payload data hphase hfree
      refine ⟨inv_acquired h hfree ?_ (hm _ _ hphase hfree), by simp⟩
      have := h.fits p
      rw [hphase] at this
      exact this
    · exact ⟨h, by simp⟩
  | write p n =>
    simp only [act]
    split
    · rename_i record rest hphase
      exact ⟨inv_write h hphase n, by simp⟩
    · exact ⟨h, by simp⟩
  | finish p =>
    simp only [act]
    split
    · rename_i record hphase
      exact ⟨inv_finish h hphase, by simp⟩
    · exact ⟨h, by simp⟩
  | crash p =>
    simp only [act]
    split
    · rename_i record rest hphase
      exact ⟨inv_crash h hphase, by simp⟩
    · rename_i hphase
      exact ⟨inv_goto h (h.not_holder hphase) trivial, by simp⟩
  | read p quarantine =>
    simp only [act]
    split
    · rename_i hphase
      exact ⟨inv_goto h (h.not_holder (by simp [hphase])) fun _ hi => hi, by simp⟩
    · exact ⟨h, by simp⟩
  | peek p =>
    simp only [act]
    split
    · rename_i known quarantine hphase
      exact peeked_spec h hphase
    · exact ⟨h, by simp⟩
  | lock p repair =>
    simp only [act]
    split
    · rename_i known found hphase
      have hfits := h.fits p
      rw [hphase] at hfits
      refine ⟨inv_goto h (h.not_holder (by simp [hphase])) trivial, ?_⟩
      intro returned hreturned
      cases hreturned
      exact ⟨_, rfl, hfits.2⟩
    · rename_i known found hphase hfree
      exact relooked_spec h false hphase hfree
    · rename_i known found hphase hfree
      exact relooked_spec h true hphase hfree
    · exact ⟨h, by simp⟩

/-- In every run in which the appends repair what they find torn, every read returns the
acknowledged records in order, and no read raises. -/
theorem crash_law (floats : FloatText) (ms : List (Move ι))
    (h : Along (Repairs floats) (step floats) State.initial ms) :
    Along (Lawful floats) (step floats) State.initial ms :=
  Along.mono_of_invariant (I := Inv floats) (fun _ _ hs hm => (act_spec hs hm).1)
    (fun _ _ hs hm => (act_spec hs hm).2) inv_initial h

end Invariant

section Runs

def firstPayload : Payload := "\x7b\"seq\":1\x7d".toList

def secondPayload : Payload := "\x7b\"seq\":2\x7d".toList

def tornAppend (truncates : Bool) : List (Move ℕ) :=
  [.append 0 firstPayload true, .acquire 0 true, .write 0 5, .crash 0,
    .append 1 secondPayload true, .acquire 1 truncates, .write 1 100, .finish 1,
    .read 2 false]

theorem crash_law_torn_append : Along (Lawful ratioFloats) (step ratioFloats) State.initial
      (tornAppend true ++ [.peek 2, .read 2 true, .peek 2, .lock 2 .keeps]) := by
  apply crash_law
  refine ⟨.inl rfl, fun _ _ _ _ _ => rfl, trivial, trivial, .inl rfl, fun _ _ _ _ _ => rfl, ?_⟩
  exact ⟨trivial, trivial, trivial, trivial, trivial, trivial, trivial, trivial⟩

def gluedText : List Char :=
  crcPrefix.take 5 ++ (crcPrefix ++ crc secondPayload ++ "\",\"seq\":2\x7d".toList)

theorem scan_glued : scan ratioFloats (encode (gluedText ++ ['\n'])) =
    .ok ⟨[], 0, some (encode (gluedText ++ ['\n'])), some (.failedVerification .notJson)⟩ := by
  have hcut : Lines.cut isNewline (encode (gluedText ++ ['\n'])) = ([encode gluedText], []) := by
    decide +kernel
  have hstrip : strip (encode gluedText) = encode gluedText := by decide +kernel
  have hloads : loads ratioFloats gluedText = none := Option.isNone_iff_eq_none.1 (by decide)
  have hline : decodeLine ratioFloats gluedText = .error .notJson := by
    unfold decodeLine
    rw [if_neg (by decide), hloads]
  have hdecode : decodeBytes ratioFloats (encode gluedText) = .error .notJson := by
    unfold decodeBytes
    rw [decode_encode]
    dsimp only
    rw [hline]
    rfl
  unfold scan
  rw [hcut, scanFrom, if_neg (by rw [hstrip]; decide), hstrip, hdecode]
  rfl

/-- The second record is acknowledged, and the read after it shows nothing. -/
theorem acknowledged_record_lost : ¬ Along (Lawful ratioFloats) (step ratioFloats) State.initial
      (tornAppend false ++ [.peek 2]) := by
  intro h
  have hread := Along.at_last h
  have hphase : (exec (step ratioFloats) State.initial (tornAppend false)).phase 2
      = .reading [1] false := by
    decide +kernel
  have hfile : (exec (step ratioFloats) State.initial (tornAppend false)).file
      = encode (gluedText ++ ['\n']) := by
    decide +kernel
  have hlast : (exec (step ratioFloats) State.initial (tornAppend false)).records.getLast?.map
      Record.seq = some 1 := by
    decide +kernel
  have hreturned : (act ratioFloats (exec (step ratioFloats) State.initial (tornAppend false))
      (.peek 2)).2 = some ⟨[1], .ok []⟩ := by
    simp only [act, hphase, peeked, hfile, scan_glued]
    rfl
  obtain ⟨payloads, hresult, kept, -, hall, hkept⟩ := hread _ hreturned
  obtain ⟨record, hrecord, hseq⟩ := Option.map_eq_some_iff.1 hlast
  have hmem := hall record (List.mem_of_getLast? hrecord) (by simp [hseq])
  cases hresult
  rw [List.map_eq_nil_iff.1 hkept.symm] at hmem
  cases hmem

end Runs

end Fiboki.Durable
