import Fiboki.Data.StoreLaw

/-!
Writes that stop half-way: the stores that a crash inside a write can leave, and what the same
write makes of them when it is repeated.
-/

namespace Fiboki.Bars

variable {floats : Json.FloatText} {parquet : Parquet}

/-- The data, the metadata and the integrity report of a write are all there, and read-only where
they are to be. -/
structure Complete (floats : Json.FloatText) (f : Frame) (m : BarDatasetMetadata) (job : WriteJob)
    (vid : String) (dir : Directory) : Prop where
  columns : dir.columns = f.columns
  partitions : ∃ rows, frameToArrow f = .ok rows ∧ dir.partitions = partition rows
  document : ∃ doc, document floats m job vid = some doc ∧ dir.document = some doc
  integrity : dir.integrity = job.integrity
  readOnly : dir.readOnly = job.immutable

variable {job : WriteJob}

variable {m : BarDatasetMetadata}

variable {dir : Directory} {vid : String} {f : Frame}

theorem complete_iff
    : Complete floats f m job vid dir ↔
      populate f (document floats m job vid) job = (dir, .ok ()) := by
  constructor
  · rintro ⟨hcolumns, ⟨rows, hrows, hpartitions⟩, ⟨doc, hdoc, hdocument⟩, hintegrity, hreadOnly⟩
    obtain ⟨columns, partitions, stored, integrity, readOnly⟩ := dir
    dsimp only at hcolumns hpartitions hdocument hintegrity hreadOnly
    subst hcolumns hpartitions hdocument hintegrity hreadOnly
    unfold populate
    rw [hrows, hdoc]
  · intro h
    unfold populate at h
    cases hrows : frameToArrow f with
    | error e =>
      rw [hrows] at h
      cases h
    | ok rows =>
      rw [hrows] at h
      cases hdoc : document floats m job vid with
      | none =>
        rw [hdoc] at h
        cases h
      | some doc =>
        rw [hdoc] at h
        cases h
        exact ⟨rfl, ⟨rows, hrows, rfl⟩, ⟨doc, hdoc, rfl⟩, rfl, rfl⟩

def Verifies (parquet : Parquet) (dir : Directory) (checksum : String) : Prop :=
  ∃ stored, readFrame parquet dir .whole = .ok stored ∧ contentChecksum stored = .ok checksum

def Leaves (floats : Json.FloatText) (parquet : Parquet) (f : Frame) (m : BarDatasetMetadata)
    (job : WriteJob) (vid : String) (existing : Option Directory) (dir : Directory) : Prop :=
  (job.immutable = true ∧ existing = some dir ∧ Verifies parquet dir (checksumOf f)) ∨
    ((job.immutable = false ∨ existing = none) ∧ Complete floats f m job vid dir)

variable {checksum : String}

theorem settle_of_verifies (hraw : job.immutable = true)
    (h : Verifies parquet dir checksum) :
    settle parquet (some dir) job checksum = .ok (some dir) := by
  obtain ⟨stored, hread, hsame⟩ := h
  unfold settle
  dsimp only
  rw [if_pos hraw, hread]
  exact if_pos hsame

theorem settle_none_iff {existing : Option Directory} :
    settle parquet existing job checksum = .ok none ↔ job.immutable = false ∨ existing = none := by
  cases existing with
  | none => exact iff_of_true rfl (.inr rfl)
  | some dir =>
    by_cases hraw : job.immutable = true
    · refine iff_of_false (fun h => ?_) fun h => ?_
      · cases settle_immutable h hraw
      · rcases h with hfalse | hnone
        · rw [hraw] at hfalse
          cases hfalse
        · cases hnone
    · unfold settle
      dsimp only
      rw [if_neg hraw]
      exact iff_of_true rfl (.inl (by simpa using hraw))

theorem Writing.put_eq_ok {call : WriteCall}
    (hw : Writing floats f m call job vid) {t t' : DataStore} {out : StoredDataset} :
    put floats parquet t f m call = (t', .ok out) ↔
      ∃ dir, Leaves floats parquet f m job vid (t.files (datasetPath m job vid)) dir ∧
        t'.files = Function.update t.files (datasetPath m job vid) (some dir) ∧
        (∃ vid', register floats t.catalogue (storedVersion f m job vid) =
          .ok (t'.catalogue, vid')) ∧
        out = ⟨storedVersion f m job vid, datasetPath m job vid⟩ := by
  rw [hw.put_eq parquet]
  constructor
  · intro h
    cases hsettle : settle parquet (t.files (datasetPath m job vid)) job (checksumOf f) with
    | error e =>
      rw [hsettle] at h
      cases h
    | ok kept =>
      rw [hsettle] at h
      cases kept with
      | some dir =>
        obtain ⟨hfile, hraw, hverified⟩ := settle_kept hsettle
        obtain ⟨-, hreg, hfiles, hout⟩ := finish_eq_ok.1 h
        exact ⟨dir, .inl ⟨hraw, hfile, hverified⟩, hfiles, hreg, hout⟩
      | none =>
        obtain ⟨hplaced, hreg, hfiles, hout⟩ := finish_eq_ok.1 h
        have hcomplete := complete_iff.2 (Prod.ext rfl hplaced)
        exact ⟨_, .inr ⟨settle_none_iff.1 hsettle, hcomplete⟩, hfiles, hreg, hout⟩
  · rintro ⟨dir, hleaves, hfiles, hreg, hout⟩
    rcases hleaves with ⟨hraw, hfile, hverified⟩ | ⟨hnew, hcomplete⟩
    · rw [hfile, settle_of_verifies hraw hverified]
      exact finish_eq_ok.2 ⟨rfl, hreg, hfiles, hout⟩
    · rw [settle_none_iff.2 hnew]
      refine finish_eq_ok.2 ⟨?_, hreg, ?_, hout⟩
      · rw [complete_iff.1 hcomplete]
      · rw [complete_iff.1 hcomplete]
        exact hfiles

def DataStore.place (s : DataStore) (target : DatasetPath) (dir : Option Directory) : DataStore :=
  { s with files := Function.update s.files target dir }

@[simp] theorem DataStore.place_files (s : DataStore) (target : DatasetPath)
    (dir : Option Directory) : (s.place target dir).files target = dir :=
  Function.update_self _ _ _

/-- What is left of a directory of which files have been removed. -/
structure Remains (old dir : Directory) : Prop where
  columns : dir.columns = old.columns
  partitions : dir.partitions.Sublist old.partitions
  document : dir.document = none ∨ dir.document = old.document
  integrity : dir.integrity = none ∨ dir.integrity = old.integrity

/-- The stores that a crash leaves inside a write from `s`, which would have come to `s'`. -/
inductive Interrupted (floats : Json.FloatText) (f : Frame) (m : BarDatasetMetadata)
    (job : WriteJob) (vid : String) (s s' : DataStore) : DataStore → Prop where
  /-- Before anything was changed. -/
  | untouched : Interrupted floats f m job vid s s' s
  | removing (old dir : Directory) (hreplaceable : job.immutable = false)
      (hold : s.files (datasetPath m job vid) = some old) (hdir : Remains old dir) :
      Interrupted floats f m job vid s s' (s.place (datasetPath m job vid) (some dir))
  | removed (old : Directory) (hreplaceable : job.immutable = false)
      (hold : s.files (datasetPath m job vid) = some old) :
      Interrupted floats f m job vid s s' (s.place (datasetPath m job vid) none)
  /-- The directory is made, and some of the files of the years are written. -/
  | writing (rows : List ArrowRow) (files : List (ℤ × List ArrowRow))
      (hnew : job.immutable = false ∨ s.files (datasetPath m job vid) = none)
      (hrows : frameToArrow f = .ok rows) (hfiles : files.Sublist (partition rows)) :
      Interrupted floats f m job vid s s'
        (s.place (datasetPath m job vid) (some ⟨f.columns, files, none, none, false⟩))
  | documented (rows : List ArrowRow) (doc : Wire.Value)
      (hnew : job.immutable = false ∨ s.files (datasetPath m job vid) = none)
      (hrows : frameToArrow f = .ok rows) (hdoc : document floats m job vid = some doc) :
      Interrupted floats f m job vid s s'
        (s.place (datasetPath m job vid) (some ⟨f.columns, partition rows, some doc, none, false⟩))
  | reported (rows : List ArrowRow) (doc : Wire.Value)
      (hnew : job.immutable = false ∨ s.files (datasetPath m job vid) = none)
      (hrows : frameToArrow f = .ok rows) (hdoc : document floats m job vid = some doc) :
      Interrupted floats f m job vid s s' (s.place (datasetPath m job vid)
        (some ⟨f.columns, partition rows, some doc, job.integrity, false⟩))
  /-- The files are read-only where they are to be; the version is not registered. -/
  | locked (dir : Directory)
      (hnew : job.immutable = false ∨ s.files (datasetPath m job vid) = none)
      (hdir : Complete floats f m job vid dir) :
      Interrupted floats f m job vid s s' (s.place (datasetPath m job vid) (some dir))
  | registered : Interrupted floats f m job vid s s' s'

/-- The repeated write comes to the state of the uninterrupted one, with everything there. -/
structure Finished (floats : Json.FloatText) (parquet : Parquet) (f : Frame)
    (m : BarDatasetMetadata) (call : WriteCall) (job : WriteJob) (vid : String) (t s' : DataStore)
    (out : StoredDataset) : Prop where
  repeated : put floats parquet t f m call = (s', .ok out)
  complete : ∃ dir, s'.files (datasetPath m job vid) = some dir ∧ Complete floats f m job vid dir

def Repeatable (floats : Json.FloatText) (parquet : Parquet) (f : Frame) (m : BarDatasetMetadata)
    (job : WriteJob) (vid : String) (t : DataStore) : Prop :=
  job.immutable = false ∨ t.files (datasetPath m job vid) = none ∨
    ∃ dir, t.files (datasetPath m job vid) = some dir ∧ Complete floats f m job vid dir ∧
      Verifies parquet dir (checksumOf f)

section Crash

variable {s s' t : DataStore} {f : Frame} {m : BarDatasetMetadata} {call : WriteCall}
  {job : WriteJob} {vid : String} {out : StoredDataset}

theorem Interrupted.frame (h : Interrupted floats f m job vid s s' t)
    (hfiles : ∃ dir, s'.files = Function.update s.files (datasetPath m job vid) (some dir))
    (dir : Option Directory) :
    Function.update t.files (datasetPath m job vid) dir =
      Function.update s.files (datasetPath m job vid) dir := by
  cases h with
  | untouched => rfl
  | registered =>
    obtain ⟨dir', hdir'⟩ := hfiles
    rw [hdir', Function.update_idem]
  | _ => exact Function.update_idem _ _ _

theorem Interrupted.catalogue (h : Interrupted floats f m job vid s s' t) :
    t.catalogue = s.catalogue ∨ t.catalogue = s'.catalogue := by
  cases h with
  | registered => exact .inr rfl
  | _ => exact .inl rfl

variable {dir dir' : Directory}

theorem Interrupted.present (h : Interrupted floats f m job vid s s' t)
    (hraw : job.immutable = true)
    (hfile : s.files (datasetPath m job vid) = some dir)
    (hleaves : Leaves floats parquet f m job vid (s.files (datasetPath m job vid)) dir')
    (hfiles : s'.files = Function.update s.files (datasetPath m job vid) (some dir')) :
    t.files (datasetPath m job vid) = some dir := by
  have hnew : ¬ (job.immutable = false ∨ s.files (datasetPath m job vid) = none) := by
    simp [hraw, hfile]
  cases h with
  | untouched => exact hfile
  | removing old dir hreplaceable | removed old hreplaceable =>
    exact absurd (.inl hreplaceable) hnew
  | writing rows files hopen | documented rows doc hopen | reported rows doc hopen =>
    exact absurd hopen hnew
  | locked dir hopen => exact absurd hopen hnew
  | registered =>
    rcases hleaves with ⟨-, hsame, -⟩ | ⟨hopen, -⟩
    · rw [hfiles, Function.update_self, ← hsame, hfile]
    · exact absurd hopen hnew

theorem Complete.unique (h : Complete floats f m job vid dir)
    (h' : Complete floats f m job vid dir') : dir = dir' :=
  (Prod.mk.inj ((complete_iff.1 h).symm.trans (complete_iff.1 h'))).1

theorem Finished.repeatable (hw : Writing floats f m call job vid)
    (h : Finished floats parquet f m call job vid t s' out) :
    Repeatable floats parquet f m job vid t := by
  obtain ⟨dir, hdir, hcomplete⟩ := h.complete
  obtain ⟨dir', hleaves, hfiles, -, -⟩ := hw.put_eq_ok.1 h.repeated
  rw [hfiles, Function.update_self] at hdir
  cases hdir
  rcases hleaves with ⟨-, hfile, hverified⟩ | ⟨hreplaceable | hnone, -⟩
  · exact .inr (.inr ⟨dir, hfile, hcomplete, hverified⟩)
  · exact .inl hreplaceable
  · exact .inr (.inl hnone)

theorem Repeatable.finished (hw : Writing floats f m call job vid)
    (hput : put floats parquet s f m call = (s', .ok out))
    (hcrash : Interrupted floats f m job vid s s' t)
    (h : Repeatable floats parquet f m job vid t) :
    Finished floats parquet f m call job vid t s' out := by
  obtain ⟨dir, hleaves, hfiles, ⟨vid', hreg⟩, hout⟩ := hw.put_eq_ok.1 hput
  have hregistered : ∃ vid', register floats t.catalogue (storedVersion f m job vid) =
      .ok (s'.catalogue, vid') := by
    rcases hcrash.catalogue with hsame | hsame
    · exact ⟨vid', by rw [hsame]; exact hreg⟩
    · exact ⟨vid', by rw [hsame]; exact register_again hreg⟩
  have hframe := hcrash.frame ⟨dir, hfiles⟩ (some dir)
  rw [← hfiles] at hframe
  have hplaced : s'.files (datasetPath m job vid) = some dir := by
    rw [hfiles, Function.update_self]
  have hdone : ∀ hcomplete : Complete floats f m job vid dir,
      Leaves floats parquet f m job vid (t.files (datasetPath m job vid)) dir →
      Finished floats parquet f m call job vid t s' out := fun hcomplete hleaves' =>
    ⟨hw.put_eq_ok.2 ⟨dir, hleaves', hframe.symm, hregistered, hout⟩, dir, hplaced, hcomplete⟩
  by_cases hraw : job.immutable = true
  · -- a raw dataset: nothing there, or all of it
    rcases h with hreplaceable | hnone | ⟨dir', hfile, hcomplete', hverified⟩
    · rw [hraw] at hreplaceable
      cases hreplaceable
    · rcases hleaves with ⟨-, hpresent, hverified⟩ | ⟨-, hcomplete⟩
      · rw [hcrash.present hraw hpresent (.inl ⟨hraw, hpresent, hverified⟩) hfiles] at hnone
        cases hnone
      · exact hdone hcomplete (.inr ⟨.inr hnone, hcomplete⟩)
    · have hsame : dir' = dir := by
        rcases hleaves with ⟨-, hpresent, hverified⟩ | ⟨-, hcomplete⟩
        · rw [hcrash.present hraw hpresent (.inl ⟨hraw, hpresent, hverified⟩) hfiles] at hfile
          exact (Option.some.inj hfile).symm
        · exact hcomplete'.unique hcomplete
      subst hsame
      exact hdone hcomplete' (.inl ⟨hraw, hfile, hverified⟩)
  · -- a derived dataset is written anew, whatever is there
    have hreplaceable : job.immutable = false := by simpa using hraw
    rcases hleaves with ⟨himmutable, -⟩ | ⟨-, hcomplete⟩
    · exact absurd himmutable hraw
    · exact hdone hcomplete (.inr ⟨.inl hreplaceable, hcomplete⟩)

theorem Finished.read (hw : Writing floats f m call job vid)
    (hput : put floats parquet s f m call = (s', .ok out))
    (h : Finished floats parquet f m call job vid t s' out) (hrow : s.catalogue vid = none)
    (hrows : f.rows ≠ []) : Bars.read parquet s' vid .whole true false = .ok (restored f) := by
  obtain ⟨dir, hdir, hcomplete⟩ := h.complete
  obtain ⟨-, -, -, ⟨vid', hreg⟩, -⟩ := hw.put_eq_ok.1 hput
  have hdeposited : Deposited floats s' f m job vid := by
    refine ⟨congrArg Prod.snd (complete_iff.1 hcomplete), by rw [hdir, complete_iff.1 hcomplete],
      ?_⟩
    obtain ⟨hid, ⟨hknown, -⟩ | ⟨-, row, hnew, hcatalogue⟩⟩ := register_eq_ok hreg
    · have hvid : vid = vid' := Option.some.inj (hw.versionId.symm.trans hid)
      rw [← hvid] at hknown
      exact absurd hrow hknown
    · have hvid : vid = vid' := Option.some.inj (hw.versionId.symm.trans hid)
      subst hvid
      exact ⟨row, hnew, by rw [hcatalogue, Function.update_self]⟩
  obtain ⟨w, hresolve, -, hdirectory⟩ := hdeposited.resolve
  exact (read_eq_ok hresolve hdirectory hw.accepted (hdeposited.holds hw) _ _ _ _).2
    ⟨.inl rfl, hrows, rfl, fun hverify => nomatch hverify⟩

/-- An interrupted write is finished by its repetition exactly where that finds nothing under the
path, or everything, or may write it anew. -/
theorem interrupted_finished_iff (hw : Writing floats f m call job vid)
    (hput : put floats parquet s f m call = (s', .ok out))
    (hcrash : Interrupted floats f m job vid s s' t) :
    ((Finished floats parquet f m call job vid t s' out ∧ (s.catalogue vid = none → f.rows ≠ [] →
          Bars.read parquet s' vid .whole true false = .ok (restored f))) ↔
      Repeatable floats parquet f m job vid t) := by
  constructor
  · exact fun h => h.1.repeatable hw
  · intro h
    have hfinished := h.finished hw hput hcrash
    exact ⟨hfinished, hfinished.read hw hput⟩

end Crash

theorem sortedId_eq :
    (versionOf sortedBars sortedMetadata sortedJob (checksumOf sortedBars)).versionId
    Json.ratioFloats = some sortedId := by
  have hsome : ((versionOf sortedBars sortedMetadata sortedJob (checksumOf sortedBars)).versionId
      Json.ratioFloats).isSome = true := by rfl
  rw [← Option.some_get hsome]
  exact congrArg some (Option.get_eq_getD _)

theorem writing_sortedBars :
    Writing Json.ratioFloats sortedBars sortedMetadata (.raw none) sortedJob sortedId :=
  ⟨steady_sortedBars.accepted, rfl, .inr rfl, sortedId_eq⟩

theorem put_sortedBars : ∃ s' out,
    put Json.ratioFloats inOrder emptyStore sortedBars sortedMetadata (.raw none) = (s', .ok out) :=
  (writing_sortedBars.put_new inOrder rfl rfl).1.2 ⟨steady_sortedBars.grid, by rfl, by rfl⟩

def madeDirectory : DataStore :=
  emptyStore.place (datasetPath sortedMetadata sortedJob sortedId)
    (some ⟨sortedBars.columns, [], none, none, false⟩)

theorem interrupted_madeDirectory (s' : DataStore) :
    Interrupted Json.ratioFloats sortedBars sortedMetadata sortedJob sortedId emptyStore s'
      madeDirectory := by
  obtain ⟨rows, hrows⟩ := exists_tabled.2 steady_sortedBars.grid
  exact .writing rows [] (.inr rfl) (frameToArrow_eq_ok.2 ⟨steady_sortedBars.accepted, hrows⟩)
    (List.nil_sublist _)

/-- A raw write that stopped before its directory was made, and one that stopped just after. -/
theorem cut_write_finished_iff : ∃ s' out,
    put Json.ratioFloats inOrder emptyStore sortedBars sortedMetadata (.raw none) = (s', .ok out) ∧
      ∀ t, t = emptyStore ∨ t = madeDirectory →
        ((Finished Json.ratioFloats inOrder sortedBars sortedMetadata (.raw none) sortedJob sortedId
            t s' out ∧
          (emptyStore.catalogue sortedId = none → sortedBars.rows ≠ [] →
            Bars.read inOrder s' sortedId .whole true false = .ok (restored sortedBars))) ↔
          Repeatable Json.ratioFloats inOrder sortedBars sortedMetadata sortedJob sortedId t) := by
  obtain ⟨s', out, hput⟩ := put_sortedBars
  refine ⟨s', out, hput, ?_⟩
  rintro t (rfl | rfl)
  · exact interrupted_finished_iff writing_sortedBars hput .untouched
  · exact interrupted_finished_iff writing_sortedBars hput (interrupted_madeDirectory s')

/-- A raw write that stopped once its directory was made is never finished. -/
theorem made_directory_is_not_finished :
    ¬ ∀ (floats : Json.FloatText) (parquet : Parquet) (s s' t : DataStore) (f : Frame)
      (m : BarDatasetMetadata) (call : WriteCall) (job : WriteJob) (vid : String)
      (out : StoredDataset), Writing floats f m call job vid →
      put floats parquet s f m call = (s', .ok out) → Interrupted floats f m job vid s s' t →
      Finished floats parquet f m call job vid t s' out := by
  intro hclaim
  obtain ⟨s', out, hput⟩ := put_sortedBars
  have hfinished := hclaim _ inOrder _ _ _ _ _ (.raw none) _ _ out writing_sortedBars hput
    (interrupted_madeDirectory s')
  rcases hfinished.repeatable writing_sortedBars with hreplaceable | hnone | ⟨dir, hdir,
    hcomplete, -⟩
  · cases hreplaceable
  · rw [madeDirectory, DataStore.place_files] at hnone
    cases hnone
  · rw [madeDirectory, DataStore.place_files] at hdir
    cases hdir
    obtain ⟨doc, -, hdoc⟩ := hcomplete.document
    cases hdoc

end Fiboki.Bars
