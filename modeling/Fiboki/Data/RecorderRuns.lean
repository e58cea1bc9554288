import Fiboki.Data.Recorder

/-!
Sessions one after another on one directory: what the reader makes of the segments
they leave.
-/

namespace Fiboki.Recorder

open Json Runs Wire

/-- The directory's entries for the contents of its segments from number `k` on. -/
def named (k : ℕ) : List Bytes → List (String × Bytes)
  | [] => []
  | raw :: rest => (segmentName k, raw) :: named (k + 1) rest

theorem named_append (k : ℕ) (front back : List Bytes) :
    named k (front ++ back) = named k front ++ named (k + front.length) back := by
  induction front generalizing k with
  | nil => rfl
  | cons raw front ih =>
    rw [List.cons_append, named, ih, named, List.cons_append, List.length_cons]
    congr 3
    omega

def segmentLimit : ℕ := 10 ^ 6

theorem padded_natCast (i : ℕ) : padded (i : ℤ) = List.leftpad 6 '0' (Nat.toDigits 10 i) := by
  unfold padded
  rw [if_neg (by omega)]
  rfl

theorem segmentName_lt {i j : ℕ} (hij : i < j) (hj : j < segmentLimit) :
    segmentName i < segmentName j := by
  rw [String.lt_iff_toList_lt]
  unfold segmentName
  rw [String.toList_ofList, String.toList_ofList, padded_natCast, padded_natCast]
  have hlt : List.leftpad 6 '0' (Nat.toDigits 10 i) < List.leftpad 6 '0' (Nat.toDigits 10 j) :=
    Numerals.leftpad_lt hij hj
  have hlen : ∀ n < segmentLimit, (List.leftpad 6 '0' (Nat.toDigits 10 n)).length = 6 := by
    intro n hn
    rw [Numerals.leftpad_eq_lastDigits hn, Numerals.length_lastDigits]
  rw [List.append_assoc, List.append_assoc]
  apply List.append_left_lt
  rw [List.cons_append, List.cons_append, List.cons_lt_cons_iff]
  refine .inr ⟨rfl, Numerals.append_lt_append ?_ hlt _ _⟩
  rw [hlen i (hij.trans hj), hlen j hj]

theorem stem_segmentName (index : ℤ) : stem (segmentName index) = padded index := by
  have htake : ∀ body : List Char,
      (body ++ segmentSuffix).take ((body ++ segmentSuffix).length - segmentSuffix.length) =
        body := by
    intro body
    rw [List.length_append, Nat.add_sub_cancel, List.take_left]
  unfold stem segmentName
  rw [String.toList_ofList, htake]
  rfl

theorem int_stem (i : ℕ) : Numerals.int 10 (stem (segmentName i)) = some (i : ℤ) := by
  rw [stem_segmentName, padded_natCast]
  exact Numerals.int_padded _ i

variable {raws : List Bytes}

theorem mem_named {k : ℕ} {e : String × Bytes} (h : e ∈ named k raws) :
    ∃ i < k + raws.length, e.1 = segmentName i := by
  induction raws generalizing k with
  | nil => cases h
  | cons raw raws ih =>
    rw [named] at h
    rcases List.mem_cons.1 h with rfl | h
    · exact ⟨k, by simp, rfl⟩
    · obtain ⟨i, hi, hname⟩ := ih h
      refine ⟨i, ?_, hname⟩
      rw [List.length_cons]
      omega

def Holds (d : Directory) (raws : List Bytes) : Prop :=
  d.entries = named 0 raws ∧ raws.length ≤ segmentLimit

variable {d : Directory}

theorem Holds.nextSegmentIndex (h : Holds d raws) :
    nextSegmentIndex d = some (raws.length : ℤ) := by
  unfold Recorder.nextSegmentIndex
  rw [h.1]
  rcases List.eq_nil_or_concat raws with rfl | ⟨front, raw, rfl⟩
  · rfl
  · rw [List.concat_eq_append, named_append, named, named, List.getLast?_concat]
    dsimp only
    rw [Nat.zero_add, int_stem, List.length_append]
    rfl

theorem Holds.above (h : Holds d raws)
    (hroom : raws.length < segmentLimit) : ∀ e ∈ d.entries, e.1 < segmentName raws.length := by
  intro e he
  rw [h.1] at he
  obtain ⟨i, hi, hname⟩ := mem_named he
  rw [hname]
  exact segmentName_lt (by omega) hroom

theorem Holds.openSegment (h : Holds d raws) (hroom : raws.length < segmentLimit)
    (log : AppendOnlyLog)
    (hindex : log.segmentIndex = raws.length) : Holds (log.openSegment d).1 (raws ++ [[]]) := by
  unfold AppendOnlyLog.openSegment AppendOnlyLog.currentFile
  dsimp only
  rw [hindex, Dict.get_above (h.above hroom)]
  constructor
  · rw [Dict.entries_set_above (h.above hroom), h.1, named_append, Nat.zero_add]
    rfl
  · rw [List.length_append, List.length_singleton]
    omega

theorem Holds.write {front : List Bytes} {raw : Bytes} (h : Holds d (front ++ [raw]))
    {log : AppendOnlyLog} (hindex : log.segmentIndex = front.length)
    (blob : Bytes) : Holds (log.write d blob) (front ++ [raw ++ blob]) := by
  have hentries : d.entries = named 0 front ++ [(segmentName front.length, raw)] := by
    rw [h.1, named_append, Nat.zero_add]
    rfl
  unfold AppendOnlyLog.write AppendOnlyLog.currentFile
  rw [hindex, Dict.get_last hentries]
  constructor
  · rw [Dict.entries_set_last hentries, named_append, Nat.zero_add]
    rfl
  · have hle := h.2
    rw [List.length_append, List.length_singleton] at hle ⊢
    exact hle

section Reading

variable {floats : FloatText}

def readBack (payload : Payload) : Value := ordered (.dict payload)

def blobs (floats : FloatText) (payloads : List Payload) : Bytes :=
  payloads.flatMap (encodeRecord floats)

variable (payloads : List Payload)

theorem blobs_snoc (p : Payload) :
    blobs floats (payloads ++ [p]) = blobs floats payloads ++ encodeRecord floats p := by
  rw [blobs, List.flatMap_append]
  exact congrArg _ (List.append_nil _)

theorem splitlines_blobs (rest : Bytes) : splitlines (blobs floats payloads ++ rest) =
      payloads.map (encodeRecord floats) ++ splitlines rest := by
  induction payloads with
  | nil => rfl
  | cons p payloads ih =>
    have hline : Unbroken (recordFrame floats p) := fun b hb => mem_recordFrame hb
    rw [blobs, List.flatMap_cons, encodeRecord_eq, List.append_assoc, List.append_assoc,
      List.singleton_append, splitlines_line hline, ← encodeRecord_eq]
    exact congrArg _ ih

variable {tolerate : Bool}

variable (name : String)

theorem readLines_records (lastSegment : Bool) (payloads : List Payload) (lineNo : ℕ)
    (rest : List Bytes) (p : Progress) :
    readLines floats tolerate name lastSegment lineNo
      (payloads.map (encodeRecord floats) ++ rest) p =
      readLines floats tolerate name lastSegment (lineNo + payloads.length) rest
        { p with records := p.records ++ payloads.map readBack } := by
  induction payloads generalizing lineNo p with
  | nil => simp
  | cons payload payloads ih =>
    rw [List.map_cons, List.cons_append, readLines, decodeRecord_encodeRecord]
    dsimp only
    rw [ih, List.length_cons, List.map_cons, List.append_assoc, List.singleton_append,
      show lineNo + 1 + payloads.length = lineNo + (payloads.length + 1) by omega]
    rfl

theorem readSegments_records (groups : List (List Payload)) (k : ℕ) (rest : List (String × Bytes))
    (p : Progress) :
    readSegments floats tolerate (named k (groups.map (blobs floats)) ++ rest) p =
      readSegments floats tolerate rest
        { p with records := p.records ++ groups.flatten.map readBack } := by
  induction groups generalizing k p with
  | nil => simp [named]
  | cons g groups ih =>
    have hlines : splitlines (blobs floats g) = g.map (encodeRecord floats) ++ [] := by
      rw [← List.append_nil (blobs floats g), splitlines_blobs]
      rfl
    rw [List.map_cons, named, List.cons_append, readSegments, hlines, readLines_records, readLines]
    dsimp only
    rw [ih, List.flatten_cons, List.map_append, List.append_assoc]

variable {tail : Bytes}

theorem readSegments_tail (htail : Unbroken tail) (p : Progress) :
    readSegments floats tolerate [(name, blobs floats payloads ++ tail)] p =
      .ok { p with
        records := p.records ++ payloads.map readBack
        truncatedTail := p.truncatedTail || decide (tail ≠ []) } := by
  rw [readSegments, splitlines_blobs, readLines_records]
  by_cases hne : tail = []
  · subst hne
    simp [splitlines, readLines, readSegments]
  · rw [splitlines_unbroken htail hne, readLines, decodeRecord_unbroken htail]
    simp [readLines, readSegments, hne]

theorem readSegments_interior (htail : Unbroken tail) (hne : tail ≠ [])
    (next : String × Bytes) (p : Progress) :
    readSegments floats false [(name, blobs floats payloads ++ tail), next] p =
      .error ⟨name, payloads.length⟩ := by
  rw [readSegments, splitlines_blobs, readLines_records, splitlines_unbroken htail hne, readLines,
    decodeRecord_unbroken htail]
  simp

end Reading

section Law

variable (floats : FloatText)

def Survives (s : State) : Prop :=
  readAll floats false s.directory =
    .ok (s.written.map readBack, ⟨s.written.length, s.directory.entries.length, s.torn, []⟩)

def openedBy (s : State) : Event → Option ℤ
  | .opens _ _ => if s.log.isNone then nextSegmentIndex s.directory else none
  | .append payload =>
    s.log.bind fun log =>
      if (log.counted (encodeRecord floats payload)).full then some (log.segmentIndex + 1)
      else none
  | .rotate => s.log.map fun log => log.segmentIndex + 1
  | .close | .crash _ _ => none

def WithinLimit (s : State) (e : Event) : Prop := ∀ i ∈ openedBy floats s e, i < segmentLimit

def AfterWhole (s : State) : Event → Prop
  | .opens _ _ => s.log = none → s.torn = false
  | _ => True

def Sound (s : State) (e : Event) : Prop := WithinLimit floats s e ∧ AfterWhole s e

/-- Whole records in every segment but the last, whole records and a tail there. -/
structure Shows (s : State) (closed : List (List Payload)) (current : List Payload) (tail : Bytes) :
    Prop where
  holds : Holds s.directory (closed.map (blobs floats) ++ [blobs floats current ++ tail])
  written : s.written = closed.flatten ++ current
  unbroken : Unbroken tail
  torn : s.torn = decide (tail ≠ [])
  log : ∀ log, s.log = some log → tail = [] ∧ log.segmentIndex = closed.length

def Inv (s : State) : Prop := s = .initial ∨ ∃ closed current tail,
    Shows floats s closed current tail

variable {floats} {s : State}

theorem Inv.survives (h : Inv floats s) : Survives floats s := by
  unfold Survives readAll
  rcases h with rfl | ⟨closed, current, tail, h⟩
  · rfl
  · have hentries := h.holds.1
    rw [named_append] at hentries
    rw [hentries, readSegments_records, named, named, readSegments_tail _ _ h.unbroken]
    simp only [h.written, h.torn, List.nil_append, List.map_append, Bool.false_or,
      List.length_append, List.length_map]

variable {closed : List (List Payload)} {current : List Payload}

theorem Shows.nextSegment {d : Directory} (log : AppendOnlyLog)
    (hlast : Holds d (closed.map (blobs floats) ++ [blobs floats current]))
    (hindex : log.segmentIndex = closed.length + 1) (hroom : log.segmentIndex < segmentLimit)
    {written : List Payload} (hwritten : written = closed.flatten ++ current) :
    Inv floats ⟨(log.openSegment d).1, some (log.openSegment d).2, written, false⟩ := by
  have hlen : (closed.map (blobs floats) ++ [blobs floats current]).length = closed.length + 1 := by
    simp
  have hopened := hlast.openSegment (by omega) log (by omega)
  refine .inr ⟨closed ++ [current], [], [], ?_, ?_, ?_, rfl, ?_⟩
  · simpa [blobs] using hopened
  · simpa using hwritten
  · intro b hb
    cases hb
  · intro log' hlog
    cases hlog
    refine ⟨rfl, ?_⟩
    rw [List.length_append, List.length_singleton]
    exact hindex

theorem Shows.open {tail : Bytes} (h : Shows floats s closed current tail) :
    nextSegmentIndex s.directory = some (closed.length + 1 : ℤ) := by
  rw [h.holds.nextSegmentIndex]
  simp

theorem Inv.opened (h : Inv floats s) {log : AppendOnlyLog} (hlog : s.log = some log) :
    ∃ closed current, Shows floats s closed current [] ∧ log.segmentIndex = closed.length ∧
      Holds s.directory (closed.map (blobs floats) ++ [blobs floats current]) ∧ s.torn = false := by
  rcases h with rfl | ⟨closed, current, tail, h⟩
  · cases hlog
  · obtain ⟨rfl, hindex⟩ := h.log log hlog
    have hholds := h.holds
    rw [List.append_nil] at hholds
    exact ⟨closed, current, h, hindex, hholds, h.torn⟩

theorem inv_opens (h : Inv floats s) (maxRecords maxBytes : ℤ)
    (hs : Sound floats s (.opens maxRecords maxBytes)) :
    Inv floats (step floats s (.opens maxRecords maxBytes)) := by
  cases hlog : s.log with
  | some log =>
    unfold step
    rw [hlog]
    exact h
  | none =>
    rcases h with rfl | ⟨closed, current, tail, h⟩
    · refine .inr ⟨[], [], [], ⟨rfl, ?_⟩, rfl, ?_, rfl, ?_⟩
      · rw [List.length_append]
        unfold segmentLimit
        simp
      · intro b hb
        cases hb
      · intro log hlog
        cases hlog
        exact ⟨rfl, rfl⟩
    · have htail : tail = [] := by
        have := hs.2 hlog
        rw [h.torn, decide_eq_false_iff_not, not_not] at this
        exact this
      have hroom : (closed.length + 1 : ℤ) < segmentLimit := by
        apply hs.1
        unfold openedBy
        rw [hlog, h.open]
        rfl
      have htorn : s.torn = false := hs.2 hlog
      have hlast := h.holds
      rw [htail, List.append_nil] at hlast
      have hopened := Shows.nextSegment ⟨closed.length + 1, 0, 0, maxRecords, maxBytes⟩ hlast rfl
        hroom h.written
      unfold step
      rw [hlog, h.open]
      rw [← htorn] at hopened
      exact hopened

theorem inv_append (h : Inv floats s) (payload : Payload) (hs : Sound floats s (.append payload)) :
    Inv floats (step floats s (.append payload)) := by
  cases hlog : s.log with
  | none =>
    unfold step
    rw [hlog]
    exact h
  | some log =>
    obtain ⟨closed, current, hshows, hindex, hlast, htorn⟩ := h.opened hlog
    have hwrite := hlast.write (by rw [hindex, List.length_map]) (encodeRecord floats payload)
    rw [← blobs_snoc] at hwrite
    have hwritten : s.written ++ [payload] = closed.flatten ++ (current ++ [payload]) := by
      rw [hshows.written, List.append_assoc]
    unfold step
    rw [hlog]
    dsimp only
    unfold AppendOnlyLog.append
    by_cases hfull : (log.counted (encodeRecord floats payload)).full = true
    · have hroom : log.segmentIndex + 1 < segmentLimit := by
        apply hs.1
        simp only [openedBy, hlog, Option.bind_some, hfull, if_true]
        rfl
      have hnext := Shows.nextSegment
        { log.counted (encodeRecord floats payload) with
          segmentIndex := log.segmentIndex + 1 } hwrite (by rw [hindex]) hroom hwritten
      rw [← htorn] at hnext
      simp only [hfull, if_true]
      exact hnext
    · simp only [hfull, Bool.false_eq_true, if_false]
      refine .inr ⟨closed, current ++ [payload], [], ?_, hwritten, hshows.unbroken, htorn, ?_⟩
      · rw [List.append_nil]
        exact hwrite
      · intro log' hlog'
        cases hlog'
        exact ⟨rfl, hindex⟩

theorem inv_rotate (h : Inv floats s) (hs : Sound floats s .rotate) :
    Inv floats (step floats s .rotate) := by
  cases hlog : s.log with
  | none =>
    unfold step
    rw [hlog]
    exact h
  | some log =>
    obtain ⟨closed, current, hshows, hindex, hlast, htorn⟩ := h.opened hlog
    have hroom : log.segmentIndex + 1 < segmentLimit := by
      apply hs.1
      unfold openedBy
      rw [hlog]
      rfl
    have hnext := Shows.nextSegment { log with segmentIndex := log.segmentIndex + 1 } hlast
      (by rw [hindex]) hroom hshows.written
    rw [← htorn] at hnext
    unfold step
    rw [hlog]
    exact hnext

theorem inv_close (h : Inv floats s) : Inv floats (step floats s .close) := by
  rcases h with rfl | ⟨closed, current, tail, h⟩
  · exact .inl rfl
  · refine .inr ⟨closed, current, tail, h.holds, h.written, h.unbroken, h.torn, ?_⟩
    intro log hlog
    cases hlog

theorem inv_crash (h : Inv floats s) (payload : Payload) (n : ℕ) :
    Inv floats (step floats s (.crash payload n)) := by
  cases hlog : s.log with
  | none =>
    unfold step
    rw [hlog]
    exact h
  | some log =>
    obtain ⟨closed, current, hshows, hindex, hlast, htorn⟩ := h.opened hlog
    have hwrite := hlast.write (by rw [hindex, List.length_map])
      ((encodeRecord floats payload).take n)
    unfold step
    rw [hlog]
    dsimp only
    split_ifs with hwhole hnone
    · -- The session died with the record on disk.
      rw [List.take_of_length_le hwhole, ← blobs_snoc] at hwrite
      refine .inr ⟨closed, current ++ [payload], [], ?_, ?_, hshows.unbroken, htorn, ?_⟩
      · rw [List.append_nil, List.take_of_length_le hwhole]
        exact hwrite
      · show s.written ++ [payload] = _
        rw [hshows.written, List.append_assoc]
      · intro log' hlog'
        cases hlog'
    · subst hnone
      rw [List.take_zero] at hwrite
      refine .inr ⟨closed, current, [], hwrite, hshows.written, hshows.unbroken, htorn, ?_⟩
      intro log' hlog'
      cases hlog'
    · refine .inr ⟨closed, current, _, hwrite, hshows.written, unbroken_take (by omega), ?_, ?_⟩
      · have hne : (encodeRecord floats payload).take n ≠ [] := by
          rw [Ne, List.take_eq_nil_iff]
          rintro (rfl | hempty)
          · exact hnone rfl
          · rw [hempty] at hwhole
            exact hwhole (Nat.zero_le n)
        exact (decide_eq_true hne).symm
      · intro log' hlog'
        cases hlog'

theorem inv_step (h : Inv floats s) (e : Event) (hs : Sound floats s e) :
    Inv floats (step floats s e) := by
  cases e with
  | opens maxRecords maxBytes => exact inv_opens h maxRecords maxBytes hs
  | append payload => exact inv_append h payload hs
  | rotate => exact inv_rotate h hs
  | close => exact inv_close h
  | crash payload n => exact inv_crash h payload n

theorem opens_after_torn (h : Inv floats s) (maxRecords maxBytes : ℤ)
    (hs : WithinLimit floats s (.opens maxRecords maxBytes)) (hlog : s.log = none)
    (htorn : s.torn = true) :
    ∃ e, readAll floats false (step floats s (.opens maxRecords maxBytes)).directory =
      .error e := by
  rcases h with rfl | ⟨closed, current, tail, h⟩
  · cases htorn
  · have htail : tail ≠ [] := by
      rw [h.torn, decide_eq_true_eq] at htorn
      exact htorn
    have hroom : (closed.length + 1 : ℤ) < segmentLimit := by
      apply hs
      unfold openedBy
      rw [hlog, h.open]
      rfl
    have hopened := h.holds.openSegment
      (by
        rw [List.length_append, List.length_map, List.length_singleton]
        omega)
      ⟨closed.length + 1, 0, 0, maxRecords, maxBytes⟩ (by simp)
    have hdirectory : (step floats s (.opens maxRecords maxBytes)).directory =
        (AppendOnlyLog.openSegment ⟨closed.length + 1, 0, 0, maxRecords, maxBytes⟩
          s.directory).1 := by
      unfold step
      rw [hlog, h.open]
    rw [hdirectory]
    refine ⟨⟨segmentName closed.length, current.length⟩, ?_⟩
    unfold readAll
    rw [hopened.1, List.append_assoc, named_append, readSegments_records, List.singleton_append,
      named, named, named, readSegments_interior _ _ h.unbroken htail, List.length_map,
      Nat.zero_add]

theorem step_sound (h : Inv floats s) (e : Event) (hs : WithinLimit floats s e)
    (hafter : Survives floats (step floats s e)) : Sound floats s e := by
  refine ⟨hs, ?_⟩
  cases e with
  | opens maxRecords maxBytes =>
    intro hlog
    cases htorn : s.torn with
    | false => rfl
    | true =>
      obtain ⟨error, herror⟩ := opens_after_torn h maxRecords maxBytes hs hlog htorn
      unfold Survives at hafter
      rw [herror] at hafter
      cases hafter
  | append | rotate | close | crash => trivial

theorem sound_iff_survives (h : Inv floats s) (run : List Event) :
    Along (Sound floats) (step floats) s run ↔ Along (WithinLimit floats) (step floats) s run ∧
        ∀ before after, run = before ++ after → Survives floats (exec (step floats) s before) := by
  induction run generalizing s with
  | nil =>
    refine ⟨fun _ => ⟨trivial, fun before after heq => ?_⟩, fun _ => trivial⟩
    rw [(List.append_eq_nil_iff.1 heq.symm).1]
    exact h.survives
  | cons e run ih =>
    constructor
    · rintro ⟨hsound, hrest⟩
      have hnext := (ih (inv_step h e hsound)).1 hrest
      refine ⟨⟨hsound.1, hnext.1⟩, fun before after heq => ?_⟩
      cases before with
      | nil => exact h.survives
      | cons e' before =>
        obtain ⟨rfl, htail⟩ := List.cons.inj heq
        exact hnext.2 before after htail
    · rintro ⟨⟨hlimit, hlimits⟩, hall⟩
      have hsound := step_sound h e hlimit (hall [e] run rfl)
      refine ⟨hsound, (ih (inv_step h e hsound)).2 ⟨hlimits, fun before after heq => ?_⟩⟩
      exact hall (e :: before) after (by rw [heq, List.cons_append])

variable (floats) in
/-- The log survives a run, in every state of it, just as long as no session is opened
behind a part of a record and the names of the segments do not outgrow their width. -/
theorem recorder_log_law (run : List Event) : Along (Sound floats) (step floats) .initial run ↔
      Along (WithinLimit floats) (step floats) .initial run ∧
        ∀ before after, run = before ++ after →
          Survives floats (exec (step floats) .initial before) :=
  sound_iff_survives (.inl rfl) run

def tornRun : List Event :=
  [.opens 100000 67108864, .append [("sequence", .int 0)], .crash [("sequence", .int 1)] 5,
    .opens 100000 67108864, .append [("sequence", .int 2)]]

theorem restart_hides_the_log :
    raised (readAll ratioFloats false (exec (step ratioFloats) .initial tornRun).directory) =
        some ⟨"seg-000000.ndjson", 1⟩ ∧
      ¬ ∀ run : List Event, Survives ratioFloats (exec (step ratioFloats) .initial run) := by
  have hread :
    raised (readAll ratioFloats false (exec (step ratioFloats) .initial tornRun).directory) =
      some ⟨"seg-000000.ndjson", 1⟩ := by
    decide +kernel
  refine ⟨hread, fun hall => ?_⟩
  have hsurvives := hall tornRun
  unfold Survives at hsurvives
  rw [hsurvives] at hread
  cases hread

end Law

end Fiboki.Recorder
