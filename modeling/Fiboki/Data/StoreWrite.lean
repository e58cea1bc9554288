import Fiboki.Data.Resolution
import Fiboki.Data.StoreRead

/-!
What a write leaves in the store, and what is read of it by its version id.
-/

namespace Fiboki.Bars

variable {floats : Json.FloatText} {parquet : Parquet}

variable {f : Frame}

theorem populate_holds (doc : Option Wire.Value) (job : WriteJob) (hf : Accepted f)
    (hgrid : ∀ r ∈ f.rows, r.OnGrid) : Holds (populate f doc job).1 f := by
  obtain ⟨table, htable⟩ := exists_tabled.2 hgrid
  unfold populate
  rw [frameToArrow_eq_ok.2 ⟨hf, htable⟩]
  cases doc with
  | none | some d => exact ⟨rfl, table, htable, rfl⟩

variable {job : WriteJob}

theorem populate_eq_ok {doc : Option Wire.Value} (hf : Accepted f) :
    (populate f doc job).2 = .ok () ↔ (∀ r ∈ f.rows, r.OnGrid) ∧ doc.isSome = true := by
  rw [← exists_tabled]
  unfold populate
  cases htable : frameToArrow f with
  | error e =>
    refine iff_of_false (fun h => nomatch h) ?_
    rintro ⟨⟨table, h⟩, -⟩
    rw [frameToArrow_eq_ok.2 ⟨hf, h⟩] at htable
    cases htable
  | ok table =>
    have htabled := (frameToArrow_eq_ok.1 htable).2
    cases doc with
    | none => exact iff_of_false (fun h => nomatch h) fun h => nomatch h.2
    | some d => exact iff_of_true rfl ⟨⟨table, htabled⟩, rfl⟩

variable {dir : Directory}

theorem settle_of_holds (parquet : Parquet) (checksum : String) (hf : Accepted f) (h : Holds dir f)
    (hraw : job.immutable = true) :
    settle parquet (some dir) job checksum = .ok (some dir) ↔
      f.rows ≠ [] ∧ contentChecksum (restored f) = .ok checksum := by
  unfold settle
  dsimp only
  rw [if_pos hraw, readFrame_of_holds hf h]
  by_cases hrows : f.rows = []
  · rw [if_pos (List.isEmpty_iff.2 hrows)]
    exact iff_of_false (fun heq => nomatch heq) fun hand => hand.1 hrows
  · rw [if_neg fun hempty => hrows (List.isEmpty_iff.1 hempty)]
    show (if contentChecksum (restored f) = .ok checksum then _ else _) = _ ↔ _
    by_cases hsame : contentChecksum (restored f) = .ok checksum
    · rw [if_pos hsame]
      exact iff_of_true rfl ⟨hrows, hsame⟩
    · rw [if_neg hsame]
      exact iff_of_false (fun heq => nomatch heq) fun hand => hsame hand.2

variable {checksum : String}

theorem settle_immutable {kept : Option Directory}
    (h : settle parquet (some dir) job checksum = .ok kept)
    (hraw : job.immutable = true) : kept = some dir := by
  unfold settle at h
  dsimp only at h
  rw [if_pos hraw] at h
  cases hread : readFrame parquet dir .whole with
  | error e =>
    rw [hread] at h
    cases h
  | ok g =>
    rw [hread] at h
    dsimp only at h
    split_ifs at h
    cases h
    rfl

theorem settle_kept {existing : Option Directory}
    (h : settle parquet existing job checksum = .ok (some dir)) :
    existing = some dir ∧ job.immutable = true ∧
      ∃ g, readFrame parquet dir .whole = .ok g ∧ contentChecksum g = .ok checksum := by
  unfold settle at h
  cases existing with
  | none => cases h
  | some dir' =>
    dsimp only at h
    split_ifs at h with hraw
    case neg => cases h
    cases hread : readFrame parquet dir' .whole with
    | error e =>
      rw [hread] at h
      cases h
    | ok g =>
      rw [hread] at h
      dsimp only at h
      split_ifs at h with hsame
      cases h
      exact ⟨rfl, hraw, g, hread, hsame⟩

theorem finish_eq_ok {s s' : DataStore} {version : DatasetVersion} {target : DatasetPath}
    {placed : Directory × Except StoreError Unit} {out : StoredDataset} :
    finish floats s version target placed = (s', .ok out) ↔ placed.2 = .ok () ∧
      (∃ vid, register floats s.catalogue { version with storagePath := some target } =
        .ok (s'.catalogue, vid)) ∧
      s'.files = Function.update s.files target (some placed.1) ∧
      out = ⟨{ version with storagePath := some target }, target⟩ := by
  obtain ⟨dir, stopped⟩ := placed
  obtain ⟨files', catalogue'⟩ := s'
  unfold finish
  dsimp only
  cases stopped with
  | error e =>
    refine iff_of_false (fun h => nomatch (Prod.mk.inj h).2) fun h => nomatch h.1
  | ok u =>
    dsimp only
    cases hreg : register floats s.catalogue { version with storagePath := some target } with
    | error e =>
      refine iff_of_false (fun h => nomatch (Prod.mk.inj h).2) ?_
      rintro ⟨-, ⟨vid, hvid⟩, -⟩
      cases hvid
    | ok p =>
      constructor
      · intro h
        cases h
        exact ⟨rfl, ⟨p.2, rfl⟩, rfl, rfl⟩
      · rintro ⟨-, ⟨vid, hvid⟩, rfl, rfl⟩
        cases hvid
        rfl

theorem finish_cases (floats : Json.FloatText) (s : DataStore) (version : DatasetVersion)
    (target : DatasetPath)
    (placed : Directory × Except StoreError Unit) :
    (finish floats s version target placed).1.files =
        Function.update s.files target (some placed.1) ∧
      ((finish floats s version target placed).1.catalogue = s.catalogue ∨
        ∃ vid, register floats s.catalogue { version with storagePath := some target } =
          .ok ((finish floats s version target placed).1.catalogue, vid)) := by
  obtain ⟨dir, stopped⟩ := placed
  unfold finish
  dsimp only
  cases stopped with
  | error e => exact ⟨rfl, .inl rfl⟩
  | ok u =>
    dsimp only
    cases hreg : register floats s.catalogue { version with storagePath := some target } with
    | error e => exact ⟨rfl, .inl rfl⟩
    | ok p => exact ⟨rfl, .inr ⟨p.2, rfl⟩⟩

/-- What is written: a frame, its metadata, how, and the version id that comes of them. -/
structure Writing (floats : Json.FloatText) (f : Frame) (m : BarDatasetMetadata) (call : WriteCall)
    (job : WriteJob) (vid : String) : Prop where
  accepted : Accepted f
  called : call.job floats m = .ok job
  checksum : m.checksum = "" ∨ m.checksum = checksumOf f
  id : (versionOf f m job (checksumOf f)).versionId floats = some vid

variable {vid : String}

variable {m : BarDatasetMetadata}

variable {call : WriteCall}

theorem Writing.put_eq (parquet : Parquet) (h : Writing floats f m call job vid)
    (s : DataStore) :
    put floats parquet s f m call =
      match settle parquet (s.files (datasetPath m job vid)) job (checksumOf f) with
      | .error e => (s, .error e)
      | .ok (some dir) =>
        finish floats s (versionOf f m job (checksumOf f)) (datasetPath m job vid) (dir, .ok ())
      | .ok none =>
        finish floats s (versionOf f m job (checksumOf f)) (datasetPath m job vid)
          (populate f (document floats m job vid) job) := by
  unfold put
  rw [validateFrameShape_eq_ok.2 h.accepted, h.called]
  dsimp only
  unfold write
  rw [h.accepted.contentChecksum]
  dsimp only
  rw [if_neg fun hne => h.checksum.elim hne.1 hne.2]
  split
  · rename_i hnone
    rw [h.id] at hnone
    cases hnone
  · rename_i vid' hsome
    obtain rfl : vid = vid' := Option.some.inj (h.id.symm.trans hsome)
    rfl

def storedVersion (f : Frame) (m : BarDatasetMetadata) (job : WriteJob) (vid : String) :
    DatasetVersion :=
  { versionOf f m job (checksumOf f) with storagePath := some (datasetPath m job vid) }

theorem Writing.versionId (h : Writing floats f m call job vid) :
    (storedVersion f m job vid).versionId floats = some vid :=
  h.id

variable {catalogue : DatasetCatalogue}

variable {v : DatasetVersion}

theorem register_new (hid : v.versionId floats = some vid)
    (hnew : catalogue vid = none) :
    (∃ p, register floats catalogue v = .ok p) ↔ (newRow floats vid v).isSome = true := by
  unfold register
  rw [hid]
  dsimp only
  rw [hnew]
  dsimp only
  cases newRow floats vid v with
  | none => exact iff_of_false (fun ⟨_, h⟩ => nomatch h) fun h => nomatch h
  | some row => exact iff_of_true ⟨_, rfl⟩ rfl

theorem register_known {row : DatasetVersionRow}
    (hid : v.versionId floats = some vid)
    (hrow : newRow floats vid v = some row) (hknown : catalogue vid = some row) :
    register floats catalogue v = .ok (catalogue, vid) := by
  have hcompatible : assertCompatible row v = .ok () := by
    unfold newRow at hrow
    obtain ⟨lineage, -, hrow⟩ := Option.bind_eq_some_iff.1 hrow
    obtain ⟨metadata, -, hrow⟩ := Option.bind_eq_some_iff.1 hrow
    obtain ⟨column, -, hrow⟩ := Option.bind_eq_some_iff.1 hrow
    cases hrow
    unfold assertCompatible
    simp
  unfold register
  rw [hid]
  dsimp only
  rw [hknown]
  dsimp only
  rw [hcompatible]
  rfl

structure Deposited (floats : Json.FloatText) (t : DataStore) (f : Frame) (m : BarDatasetMetadata)
    (job : WriteJob) (vid : String) : Prop where
  placed : (populate f (document floats m job vid) job).2 = .ok ()
  file : t.files (datasetPath m job vid) = some (populate f (document floats m job vid) job).1
  row : ∃ row, newRow floats vid (storedVersion f m job vid) = some row ∧ t.catalogue vid = some row

section Deposited

variable {s t : DataStore} {f : Frame} {m : BarDatasetMetadata} {call : WriteCall} {job : WriteJob}
  {vid : String}

theorem Deposited.onGrid (hw : Writing floats f m call job vid)
    (h : Deposited floats t f m job vid) :
    ∀ r ∈ f.rows, r.OnGrid :=
  ((populate_eq_ok hw.accepted).1 h.placed).1

theorem Deposited.holds (hw : Writing floats f m call job vid)
    (h : Deposited floats t f m job vid) :
    Holds (populate f (document floats m job vid) job).1 f :=
  populate_holds _ _ hw.accepted (h.onGrid hw)

theorem Deposited.resolve (h : Deposited floats t f m job vid) :
    ∃ w, resolve t.catalogue vid = .ok w ∧ Resolves floats (storedVersion f m job vid) w ∧
      t.directory w = some (populate f (document floats m job vid) job).1 := by
  obtain ⟨row, hrow, hknown⟩ := h.row
  obtain ⟨w, hw, hresolves⟩ := rowToVersion_newRow hrow
  refine ⟨w, ?_, hresolves, ?_⟩
  · unfold Bars.resolve
    rw [hknown]
    exact hw
  · unfold DataStore.directory
    rw [hresolves.storagePath]
    exact h.file

/-- The write of a new dataset succeeds where every timestamp is on the grid and the metadata
are serialisable, and leaves it in the store. -/
theorem Writing.put_new (parquet : Parquet) (h : Writing floats f m call job vid)
    (hfile : s.files (datasetPath m job vid) = none) (hrow : s.catalogue vid = none) :
    ((∃ s' out, put floats parquet s f m call = (s', .ok out)) ↔
      (∀ r ∈ f.rows, r.OnGrid) ∧ (document floats m job vid).isSome = true ∧
        (newRow floats vid (storedVersion f m job vid)).isSome = true) ∧
    ∀ s' out, put floats parquet s f m call = (s', .ok out) → Deposited floats s' f m job vid := by
  have hput := h.put_eq parquet s
  rw [hfile] at hput
  rw [hput]
  show ((∃ s' out, finish floats s _ _ _ = (s', .ok out)) ↔ _) ∧
    ∀ s' out, finish floats s _ _ _ = (s', .ok out) → _
  constructor
  · rw [← and_assoc, ← populate_eq_ok h.accepted, ← register_new h.versionId hrow]
    constructor
    · rintro ⟨s', out, hfinish⟩
      obtain ⟨hplaced, ⟨vid', hreg⟩, -⟩ := finish_eq_ok.1 hfinish
      exact ⟨hplaced, ⟨_, hreg⟩⟩
    · rintro ⟨hplaced, ⟨p, hreg⟩⟩
      exact ⟨⟨_, p.1⟩, _, finish_eq_ok.2 ⟨hplaced, ⟨p.2, hreg⟩, rfl, rfl⟩⟩
  · intro s' out hfinish
    obtain ⟨hplaced, ⟨vid', hreg⟩, hfiles, -⟩ := finish_eq_ok.1 hfinish
    refine ⟨hplaced, ?_, ?_⟩
    · rw [hfiles, Function.update_self]
    · obtain ⟨hid, ⟨hknown, -⟩ | ⟨-, row, hnew, hcatalogue⟩⟩ := register_eq_ok hreg
      · have hvid : vid = vid' := Option.some.inj (h.versionId.symm.trans hid)
        rw [← hvid] at hknown
        exact absurd hrow hknown
      · have hvid : vid = vid' := Option.some.inj (h.versionId.symm.trans hid)
        subst hvid
        exact ⟨row, hnew, by rw [hcatalogue, Function.update_self]⟩

theorem Deposited.put_again (hw : Writing floats f m call job vid)
    (h : Deposited floats t f m job vid)
    (hdigest : Set.InjOn Blake2b.hexdigest {contentBytes f, contentBytes (restored f)}) :
    (∃ out, put floats parquet t f m call = (t, .ok out)) ↔
      (job.immutable = true → Restores f) := by
  obtain ⟨row, hrow, hknown⟩ := h.row
  have hreg := register_known hw.versionId hrow hknown
  have hfinish : ∀ placed, placed.2 = .ok () →
      placed.1 = (populate f (document floats m job vid) job).1 →
      ∃ out, finish floats t (versionOf f m job (checksumOf f)) (datasetPath m job vid) placed =
        (t, .ok out) := by
    intro placed hok hdir
    refine ⟨_, finish_eq_ok.2 ⟨hok, ⟨vid, hreg⟩, ?_, rfl⟩⟩
    rw [hdir, ← h.file, Function.update_eq_self]
  rw [hw.put_eq parquet, h.file]
  by_cases himmutable : job.immutable = true
  · have hsettle := settle_of_holds parquet (checksumOf f) hw.accepted (h.holds hw) himmutable
    rw [← restores_iff hw.accepted hdigest] at hsettle
    rw [← hsettle]
    constructor
    · rintro ⟨out, hput⟩ -
      cases hkept : settle parquet (some (populate f (document floats m job vid) job).1) job
          (checksumOf f) with
      | error e =>
        rw [hkept] at hput
        cases hput
      | ok kept =>
        rw [settle_immutable hkept himmutable]
    · intro hkept
      rw [hkept himmutable]
      exact hfinish _ rfl rfl
  · refine iff_of_true ?_ fun himm => absurd himm himmutable
    have hsettle : settle parquet (some (populate f (document floats m job vid) job).1) job
        (checksumOf f) = .ok none := by
      unfold settle
      dsimp only
      rw [if_neg himmutable]
    rw [hsettle]
    exact hfinish _ h.placed rfl

variable {w : DatasetVersion}

theorem read_eq_ok {dir : Directory} (hresolve : resolve t.catalogue vid = .ok w)
    (hdir : t.directory w = some dir) (hf : Accepted f) (hholds : Holds dir f) (window : Window)
    (allowSuspect verifyChecksum : Bool) (g : Frame) :
    read parquet t vid window allowSuspect verifyChecksum = .ok g ↔
      (allowSuspect = true ∨ readableClean w = true) ∧ f.rows ≠ [] ∧ g = selected f window ∧
        (verifyChecksum = true → window.start = none → window.endInclusive = none →
          contentChecksum g = .ok w.contentChecksum) := by
  unfold read
  rw [hresolve]
  dsimp only
  rw [hdir]
  dsimp only
  by_cases hclean : allowSuspect = true ∨ readableClean w = true
  swap
  · rw [if_pos (by
      rw [not_or] at hclean
      simp [hclean.1, hclean.2])]
    exact iff_of_false (fun h => nomatch h) fun h => hclean h.1
  rw [if_neg (by rcases hclean with h | h <;> simp [h]), readFrame_of_holds hf hholds]
  by_cases hrows : f.rows = []
  · rw [if_pos (List.isEmpty_iff.2 hrows)]
    exact iff_of_false (fun h => nomatch h) fun h => h.2.1 hrows
  rw [if_neg fun hempty => hrows (List.isEmpty_iff.1 hempty)]
  dsimp only
  split_ifs with hwhole hsame
  · constructor
    · intro h
      cases h
      exact ⟨hclean, hrows, rfl, fun _ _ _ => hsame⟩
    · rintro ⟨-, -, rfl, -⟩
      rfl
  · refine iff_of_false (fun h => nomatch h) ?_
    rintro ⟨-, -, rfl, hverify⟩
    rw [Bool.and_eq_true, Bool.and_eq_true, Option.isNone_iff_eq_none, Option.isNone_iff_eq_none]
      at hwhole
    exact hsame (hverify hwhole.1.1 hwhole.1.2 hwhole.2)
  · constructor
    · intro h
      cases h
      refine ⟨hclean, hrows, rfl, fun hv hs he => absurd ?_ hwhole⟩
      rw [hv, hs, he]
      rfl
    · rintro ⟨-, -, rfl, -⟩
      rfl

theorem verifyImmutable_eq_ok {dir : Directory}
    (hresolve : resolve t.catalogue vid = .ok w) (hdir : t.directory w = some dir)
    (hkind : w.kind = .raw) (hf : Accepted f) (hholds : Holds dir f) :
    verifyImmutable parquet t vid = .ok true ↔
      f.rows ≠ [] ∧ contentChecksum (restored f) = .ok w.contentChecksum := by
  unfold verifyImmutable
  rw [hresolve]
  dsimp only
  rw [if_neg (not_not.2 hkind), hdir]
  dsimp only
  rw [readFrame_of_holds hf hholds]
  by_cases hrows : f.rows = []
  · rw [if_pos (List.isEmpty_iff.2 hrows)]
    exact iff_of_false (fun h => nomatch h) fun h => h.1 hrows
  rw [if_neg fun hempty => hrows (List.isEmpty_iff.1 hempty)]
  show (if contentChecksum (restored f) = .ok _ then _ else _) = _ ↔ _
  split_ifs with hsame
  · exact iff_of_true rfl ⟨hrows, hsame⟩
  · exact iff_of_false (fun h => nomatch h) fun h => hsame h.2

variable {allowSuspect : Bool}

theorem Deposited.read_whole (hw : Writing floats f m call job vid)
    (h : Deposited floats t f m job vid)
    (hdigest : Set.InjOn Blake2b.hexdigest {contentBytes f, contentBytes (restored f)})
    (verifyChecksum : Bool)
    (hclean : allowSuspect = true ∨ readableClean (storedVersion f m job vid) = true) :
    (∃ g, read parquet t vid .whole allowSuspect verifyChecksum = .ok g ∧
      contentChecksum g = .ok (checksumOf f)) ↔ Restores f := by
  obtain ⟨w, hresolve, hresolves, hdir⟩ := h.resolve
  have hchecksum : w.contentChecksum = checksumOf f := hresolves.contentChecksum
  have hclean' : allowSuspect = true ∨ readableClean w = true := by
    unfold readableClean at hclean ⊢
    rw [hresolves.quality, hresolves.integrityReport]
    exact hclean
  rw [restores_iff hw.accepted hdigest]
  constructor
  · rintro ⟨g, hread, hsame⟩
    obtain ⟨-, hrows, rfl, -⟩ := (read_eq_ok hresolve hdir hw.accepted (h.holds hw) _ _ _ g).1 hread
    exact ⟨hrows, hsame⟩
  · rintro ⟨hrows, hsame⟩
    refine ⟨restored f, ?_, hsame⟩
    apply (read_eq_ok hresolve hdir hw.accepted (h.holds hw) _ _ _ _).2
    refine ⟨hclean', hrows, rfl, fun _ _ _ => ?_⟩
    rw [hchecksum]
    exact hsame

theorem Deposited.verifyImmutable (hw : Writing floats f m call job vid)
    (h : Deposited floats t f m job vid)
    (hdigest : Set.InjOn Blake2b.hexdigest {contentBytes f, contentBytes (restored f)})
    (hraw : job.kind = .raw) : Bars.verifyImmutable parquet t vid = .ok true ↔ Restores f := by
  obtain ⟨w, hresolve, hresolves, hdir⟩ := h.resolve
  have hchecksum : w.contentChecksum = checksumOf f := hresolves.contentChecksum
  have hkind : w.kind = .raw := hresolves.kind.trans hraw
  rw [verifyImmutable_eq_ok hresolve hdir hkind hw.accepted (h.holds hw), hchecksum,
    restores_iff hw.accepted hdigest]

theorem verifyImmutable_true {b : Bool} (h : Bars.verifyImmutable parquet t vid = .ok b) :
    b = true := by
  unfold Bars.verifyImmutable at h
  split at h
  · cases h
  · split at h
    · cases h
    · split at h
      · cases h
      · split at h
        · cases h
        · split at h
          · cases h
            rfl
          · cases h

theorem Deposited.raises (hw : Writing floats f m call job vid) (h : Deposited floats t f m job vid)
    (hdigest : Set.InjOn Blake2b.hexdigest {contentBytes f, contentBytes (restored f)})
    (hraw : job.kind = .raw) (himmutable : job.immutable = true) (hlost : ¬ Restores f) :
    (∃ e, put floats parquet t f m call = (t, .error e)) ∧
      (∃ e, Bars.verifyImmutable parquet t vid = .error e) ∧
      ∀ allowSuspect, ∃ e, read parquet t vid .whole allowSuspect true = .error e := by
  refine ⟨?_, ?_, ?_⟩
  · rw [hw.put_eq parquet, h.file]
    cases hkept : settle parquet (some (populate f (document floats m job vid) job).1) job
        (checksumOf f) with
    | error e => exact ⟨e, rfl⟩
    | ok kept =>
      rw [settle_immutable hkept himmutable, settle_of_holds parquet _ hw.accepted (h.holds hw)
        himmutable, ← restores_iff hw.accepted hdigest] at hkept
      exact absurd hkept hlost
  · cases hverified : Bars.verifyImmutable parquet t vid with
    | error e => exact ⟨e, rfl⟩
    | ok b =>
      rw [verifyImmutable_true hverified, h.verifyImmutable hw hdigest hraw] at hverified
      exact absurd hverified hlost
  · intro allowSuspect
    obtain ⟨w, hresolve, hresolves, hdir⟩ := h.resolve
    cases hread : read parquet t vid .whole allowSuspect true with
    | error e => exact ⟨e, rfl⟩
    | ok g =>
      obtain ⟨-, hrows, rfl, hsame⟩ :=
        (read_eq_ok hresolve hdir hw.accepted (h.holds hw) _ _ _ g).1 hread
      have hsame := hsame rfl rfl rfl
      rw [hresolves.contentChecksum] at hsame
      exact absurd ((restores_iff hw.accepted hdigest).2 ⟨hrows, hsame⟩) hlost

theorem Deposited.read_window (hw : Writing floats f m call job vid)
    (h : Deposited floats t f m job vid)
    (hclean : allowSuspect = true ∨ readableClean (storedVersion f m job vid) = true)
    (window : Window) :
    (∃ g, read parquet t vid window allowSuspect false = .ok g ∧
      g.rows.Perm ((f.rows.map Row.stored).filter fun r => window.Has r.timestamp)) ↔
      f.rows ≠ [] ∧ window.Clear f := by
  obtain ⟨w, hresolve, hresolves, hdir⟩ := h.resolve
  have hclean' : allowSuspect = true ∨ readableClean w = true := by
    unfold readableClean at hclean ⊢
    rw [hresolves.quality, hresolves.integrityReport]
    exact hclean
  rw [← selected_perm_iff (h.onGrid hw)]
  constructor
  · rintro ⟨g, hread, hperm⟩
    obtain ⟨-, hrows, rfl, -⟩ := (read_eq_ok hresolve hdir hw.accepted (h.holds hw) _ _ _ g).1 hread
    exact ⟨hrows, hperm⟩
  · rintro ⟨hrows, hperm⟩
    refine ⟨selected f window, ?_, hperm⟩
    apply (read_eq_ok hresolve hdir hw.accepted (h.holds hw) _ _ _ _).2
    exact ⟨hclean', hrows, rfl, fun hverify => nomatch hverify⟩

end Deposited

end Fiboki.Bars
