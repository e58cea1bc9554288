import Fiboki.Data.StoreWrite

/-!
The store gives back what it was given, where the frame is already in the form in which it is
read.
-/

namespace Fiboki.Bars

variable {floats : Json.FloatText} {parquet : Parquet}

theorem put_cases (floats : Json.FloatText) (parquet : Parquet) (s : DataStore) (f : Frame)
    (m : BarDatasetMetadata) (call : WriteCall) :
    (∃ e, put floats parquet s f m call = (s, .error e)) ∨
    ∃ job vid, Writing floats f m call job vid ∧
      ∃ kept, settle parquet (s.files (datasetPath m job vid)) job (checksumOf f) = .ok kept ∧
        put floats parquet s f m call = finish floats s (versionOf f m job (checksumOf f))
          (datasetPath m job vid)
          (kept.elim (populate f (document floats m job vid) job) fun dir => (dir, .ok ())) := by
  cases hshape : validateFrameShape f with
  | error e =>
    left
    unfold put
    rw [hshape]
    exact ⟨_, rfl⟩
  | ok u =>
    have hf := validateFrameShape_eq_ok.1 hshape
    cases hjob : call.job floats m with
    | error e =>
      left
      unfold put
      rw [hshape, hjob]
      exact ⟨_, rfl⟩
    | ok job =>
      by_cases hchecksum : m.checksum ≠ "" ∧ m.checksum ≠ checksumOf f
      · left
        unfold put
        rw [hshape, hjob]
        dsimp only
        unfold write
        rw [hf.contentChecksum]
        dsimp only
        rw [if_pos hchecksum]
        exact ⟨_, rfl⟩
      cases hid : (versionOf f m job (checksumOf f)).versionId floats with
      | none =>
        left
        unfold put
        rw [hshape, hjob]
        dsimp only
        unfold write
        rw [hf.contentChecksum]
        dsimp only
        rw [if_neg hchecksum]
        rw [hid]
        exact ⟨_, rfl⟩
      | some vid =>
        have hw : Writing floats f m call job vid := by
          refine ⟨hf, hjob, ?_, hid⟩
          rw [not_and_or, not_not, not_not] at hchecksum
          exact hchecksum
        rw [hw.put_eq parquet]
        cases hkept : settle parquet (s.files (datasetPath m job vid)) job (checksumOf f) with
        | error e => exact .inl ⟨_, rfl⟩
        | ok kept =>
          refine .inr ⟨job, vid, hw, kept, hkept, ?_⟩
          cases kept <;> rfl

variable {vid : String}

theorem register_again {catalogue catalogue' : DatasetCatalogue} {v : DatasetVersion}
    (h : register floats catalogue v = .ok (catalogue', vid)) :
    register floats catalogue' v = .ok (catalogue', vid) := by
  obtain ⟨hid, ⟨-, hsame⟩ | ⟨-, row, hrow, rfl⟩⟩ := register_eq_ok h
  · rw [hsame] at h ⊢
    exact h
  · exact register_known hid hrow (Function.update_self _ _ _)

variable {f : Frame}

theorem put_twice {s s' : DataStore} {m : BarDatasetMetadata} {call : WriteCall}
    {out : StoredDataset} (hrestores : Restores f)
    (h : put floats parquet s f m call = (s', .ok out)) :
    ∃ out', put floats parquet s' f m call = (s', .ok out') := by
  rcases put_cases floats parquet s f m call with ⟨e, herror⟩ | ⟨job, vid, hw, kept, hkept, hput⟩
  · rw [herror] at h
    cases h
  rw [hput] at h
  obtain ⟨hplaced, ⟨vid', hreg⟩, hfiles, -⟩ := finish_eq_ok.1 h
  have hagain : ∀ placed : Directory × Except StoreError Unit, placed.2 = .ok () →
      s'.files (datasetPath m job vid) = some placed.1 →
      ∃ out', finish floats s' (versionOf f m job (checksumOf f)) (datasetPath m job vid) placed =
        (s', .ok out') := by
    intro placed hok hdir
    refine ⟨_, finish_eq_ok.2 ⟨hok, ⟨vid', register_again hreg⟩, ?_, rfl⟩⟩
    rw [← hdir, Function.update_eq_self]
  rw [hw.put_eq parquet]
  cases kept with
  | some dir =>
    have hdir : s'.files (datasetPath m job vid) = some dir := by
      rw [hfiles, Function.update_self]
      rfl
    rw [(settle_kept hkept).1] at hkept
    rw [hdir, hkept]
    exact hagain _ rfl hdir
  | none =>
    have hdir : s'.files (datasetPath m job vid) =
        some (populate f (document floats m job vid) job).1 := by
      rw [hfiles, Function.update_self]
      rfl
    rw [hdir]
    by_cases himmutable : job.immutable = true
    · have hgrid := ((populate_eq_ok hw.accepted).1 hplaced).1
      have hholds := populate_holds (document floats m job vid) job hw.accepted hgrid
      rw [(settle_of_holds parquet _ hw.accepted hholds himmutable).2
        ⟨hrestores.rows, hrestores.checksum hw.accepted⟩]
      exact hagain _ rfl hdir
    · have hsettle : settle parquet (some (populate f (document floats m job vid) job).1) job
          (checksumOf f) = .ok none := by
        unfold settle
        dsimp only
        rw [if_neg himmutable]
      rw [hsettle]
      exact hagain _ hplaced hdir

structure PutCall where
  frame : Frame
  metadata : BarDatasetMetadata
  call : WriteCall

def emptyStore : DataStore := ⟨fun _ => none, fun _ => none⟩

def putAll (floats : Json.FloatText) (parquet : Parquet) (puts : List PutCall) : DataStore :=
  puts.foldl (fun s p => (put floats parquet s p.frame p.metadata p.call).1) emptyStore

def putTexts (floats : Json.FloatText) (puts : List PutCall) : Set (List Char) :=
  {t | ∃ p ∈ puts, ∃ job, p.call.job floats p.metadata = .ok job ∧
    payload floats (checksumOf p.frame) job.lineage = some t}

structure Steady (f : Frame) : Prop where
  accepted : Accepted f
  restores : Restores f
  grid : ∀ r ∈ f.rows, r.OnGrid

/-- A row whose file holds a frame with the checksum that is registered. -/
structure RowSound (floats : Json.FloatText) (texts : Set (List Char)) (s : DataStore)
    (vid : String) (row : DatasetVersionRow) (v : DatasetVersion) (p : DatasetPath)
    (dir : Directory) (f : Frame) : Prop where
  new : newRow floats vid v = some row
  text : ∃ t ∈ texts, payload floats v.contentChecksum v.lineage = some t ∧ idOf t = vid
  path : v.storagePath = some p
  id : p.versionId = vid
  file : s.files p = some dir
  steady : Steady f
  holds : Holds dir f
  checksum : v.contentChecksum = checksumOf f

structure Sound (floats : Json.FloatText) (texts : Set (List Char)) (s : DataStore) : Prop where
  files : ∀ p dir, s.files p = some dir → ∃ f, Steady f ∧ Holds dir f
  rows : ∀ vid row, s.catalogue vid = some row → ∃ v p dir f,
    RowSound floats texts s vid row v p dir f

theorem sound_empty (texts : Set (List Char)) : Sound floats texts emptyStore where
  files _ _ h := nomatch h
  rows _ _ h := nomatch h

variable {texts : Set (List Char)} {s : DataStore}

theorem settled_holds (hs : Sound floats texts s) (hf : Steady f) {job : WriteJob} {p : DatasetPath}
    {kept : Option Directory}
    (doc : Option Wire.Value) (h : settle parquet (s.files p) job (checksumOf f) = .ok kept) :
    ∃ g, Steady g ∧ checksumOf g = checksumOf f ∧
      Holds (kept.elim (populate f doc job) fun dir => (dir, .ok ())).1 g := by
  cases kept with
  | none => exact ⟨f, hf, rfl, populate_holds doc job hf.accepted hf.grid⟩
  | some dir =>
    obtain ⟨hfile, himmutable, -⟩ := settle_kept h
    obtain ⟨g, hg, hholds⟩ := hs.files p dir hfile
    rw [hfile, settle_of_holds parquet _ hg.accepted hholds himmutable,
      hg.restores.checksum hg.accepted] at h
    exact ⟨g, hg, Except.ok.inj h.2, hholds⟩

theorem Sound.put (hs : Sound floats texts s) (hdigest : Set.InjOn idOf texts) (p : PutCall)
    (hsteady : Accepted p.frame → Steady p.frame)
    (htexts : putTexts floats [p] ⊆ texts) :
    Sound floats texts (Bars.put floats parquet s p.frame p.metadata p.call).1 := by
  obtain ⟨f, m, call⟩ := p
  rcases put_cases floats parquet s f m call with ⟨e, herror⟩ | ⟨job, vid, hw, kept, hkept, hput⟩
  · rw [herror]
    exact hs
  have hf := hsteady hw.accepted
  obtain ⟨text, htext, hid⟩ := Option.map_eq_some_iff.1 hw.id
  have hmem : text ∈ texts := htexts ⟨_, List.mem_singleton_self _, job, hw.called, htext⟩
  obtain ⟨g, hg, hchecksum, hholds⟩ := settled_holds hs hf (document floats m job vid) hkept
  obtain ⟨hfiles, hcatalogue⟩ := finish_cases floats s
    (versionOf f m job (checksumOf f)) (datasetPath m job vid)
    (kept.elim (populate f (document floats m job vid) job) fun dir => (dir, .ok ()))
  rw [← hput] at hfiles hcatalogue
  -- the rows that were there before: their files are as they were, or have the same content
  have hold : ∀ vid' row, s.catalogue vid' = some row → ∃ v q dir f',
      RowSound floats texts (Bars.put floats parquet s f m call).1 vid' row v q dir f' := by
    intro vid' row hrow
    obtain ⟨v, q, dir, f', hsound⟩ := hs.rows vid' row hrow
    by_cases hq : q = datasetPath m job vid
    · subst hq
      obtain ⟨t, ht, htv, hidv⟩ := hsound.text
      have hsame : vid = vid' := hsound.id
      have htt : t = text := hdigest ht hmem (by rw [hidv, hid, hsame])
      subst htt
      have hpayload := (payload_injective htv htext).1
      refine ⟨v, _, _, g, hsound.new, hsound.text, hsound.path, hsound.id, ?_, hg, hholds, ?_⟩
      · rw [hfiles, Function.update_self]
      · rw [hpayload, hchecksum]
        rfl
    · refine ⟨v, q, dir, f', ?_⟩
      refine { hsound with file := ?_ }
      rw [hfiles, Function.update_of_ne hq]
      exact hsound.file
  refine ⟨?_, ?_⟩
  · intro q dir hdir
    rw [hfiles] at hdir
    by_cases hq : q = datasetPath m job vid
    · subst hq
      rw [Function.update_self] at hdir
      cases hdir
      exact ⟨g, hg, hholds⟩
    · rw [Function.update_of_ne hq] at hdir
      exact hs.files q dir hdir
  · intro vid' row hrow
    rcases hcatalogue with hsame | ⟨vid'', hreg⟩
    · rw [hsame] at hrow
      exact hold vid' row hrow
    obtain ⟨hid', ⟨-, hsame⟩ | ⟨-, row', hnew, hupdate⟩⟩ := register_eq_ok hreg
    · rw [hsame] at hrow
      exact hold vid' row hrow
    obtain rfl : vid = vid'' := Option.some.inj (hw.versionId.symm.trans hid')
    rw [hupdate] at hrow
    by_cases hvid : vid' = vid
    · subst hvid
      rw [Function.update_self] at hrow
      cases hrow
      refine ⟨_, _, _, g, hnew, ⟨text, hmem, htext, hid⟩, rfl, rfl, ?_, hg, hholds, hchecksum.symm⟩
      rw [hfiles, Function.update_self]
    · rw [Function.update_of_ne hvid] at hrow
      exact hold vid' row hrow

theorem sound_putAll {puts : List PutCall} (hsteady : ∀ p ∈ puts, Accepted p.frame → Steady p.frame)
    (hdigest : Set.InjOn idOf (putTexts floats puts)) :
    Sound floats (putTexts floats puts) (putAll floats parquet puts) := by
  have hrun : ∀ (rest : List PutCall) (s : DataStore), (∀ p ∈ rest, p ∈ puts) →
      Sound floats (putTexts floats puts) s → Sound floats (putTexts floats puts)
        (rest.foldl (fun s p => (put floats parquet s p.frame p.metadata p.call).1) s) := by
    intro rest
    induction rest with
    | nil => exact fun s _ hs => hs
    | cons p rest ih =>
      intro s hmem hs
      apply ih _ fun q hq => hmem q (List.mem_cons_of_mem _ hq)
      have hp := hmem p List.mem_cons_self
      apply hs.put hdigest p (hsteady p hp)
      rintro t ⟨q, hq, ht⟩
      rw [List.mem_singleton.1 hq] at ht
      exact ⟨p, hp, ht⟩
  exact hrun puts _ (fun _ hp => hp) (sound_empty _)

theorem Sound.reads (hs : Sound floats texts s) {row : DatasetVersionRow}
    (hrow : s.catalogue vid = some row) :
    ∃ w f, resolve s.catalogue vid = .ok w ∧ w.contentChecksum = checksumOf f ∧
      (w.kind = .raw → verifyImmutable parquet s vid = .ok true) ∧
      ∀ allowSuspect : Bool, allowSuspect = true ∨ readableClean w = true →
        (∀ verifyChecksum, ∃ g, read parquet s vid .whole allowSuspect verifyChecksum = .ok g ∧
          contentChecksum g = .ok w.contentChecksum) ∧
        ∀ window : Window, window.Clear f → ∃ g,
          read parquet s vid window allowSuspect false = .ok g ∧
          g.rows.Perm ((f.rows.map Row.stored).filter fun r => window.Has r.timestamp) := by
  obtain ⟨v, p, dir, f, hsound⟩ := hs.rows vid row hrow
  obtain ⟨w, hw, hresolves⟩ := rowToVersion_newRow hsound.new
  have hf := hsound.steady
  have hresolve : resolve s.catalogue vid = .ok w := by
    unfold resolve
    rw [hrow]
    exact hw
  have hdir : s.directory w = some dir := by
    unfold DataStore.directory
    rw [hresolves.storagePath, hsound.path]
    exact hsound.file
  have hchecksum : w.contentChecksum = checksumOf f :=
    hresolves.contentChecksum.trans hsound.checksum
  have hrestored : contentChecksum (restored f) = .ok w.contentChecksum := by
    rw [hchecksum]
    exact hf.restores.checksum hf.accepted
  refine ⟨w, f, hresolve, hchecksum, ?_, ?_⟩
  · intro hraw
    exact (verifyImmutable_eq_ok hresolve hdir hraw hf.accepted hsound.holds).2
      ⟨hf.restores.rows, hrestored⟩
  · intro allowSuspect hclean
    refine ⟨fun verifyChecksum => ⟨restored f, ?_, hrestored⟩, fun window hclear =>
      ⟨selected f window, ?_, (selected_perm_iff hf.grid).2 hclear⟩⟩
    · exact (read_eq_ok hresolve hdir hf.accepted hsound.holds _ _ _ _).2
        ⟨hclean, hf.restores.rows, rfl, fun _ _ _ => hrestored⟩
    · exact (read_eq_ok hresolve hdir hf.accepted hsound.holds _ _ _ _).2
        ⟨hclean, hf.restores.rows, rfl, fun hverify => nomatch hverify⟩

/-- A dataset that has been written, while its directory and its row stay as they are, is read
with its checksum, verified, and written again exactly when its frame restores; a window of it
is read exactly when it is clear. Where all frames are steady every version of every store that
is reached is read as it was registered. -/
theorem gives_back_what_it_was_given (floats : Json.FloatText) (parquet : Parquet) :
    (∀ (s : DataStore) (f : Frame) (m : BarDatasetMetadata) (call : WriteCall) (job : WriteJob)
      (vid : String), Writing floats f m call job vid →
      s.files (datasetPath m job vid) = none → s.catalogue vid = none →
      Set.InjOn Blake2b.hexdigest {contentBytes f, contentBytes (restored f)} →
      ((∃ s' out, put floats parquet s f m call = (s', .ok out)) ↔
        (∀ r ∈ f.rows, r.OnGrid) ∧ (document floats m job vid).isSome = true ∧
          (newRow floats vid (storedVersion f m job vid)).isSome = true) ∧
      ∀ s' out, put floats parquet s f m call = (s', .ok out) →
        ∀ t : DataStore, t.files (datasetPath m job vid) = s'.files (datasetPath m job vid) →
        t.catalogue vid = s'.catalogue vid →
        ((∃ out', put floats parquet t f m call = (t, .ok out')) ↔
          (job.immutable = true → Restores f)) ∧
        (job.kind = .raw → (verifyImmutable parquet t vid = .ok true ↔ Restores f)) ∧
        ∀ allowSuspect : Bool,
          allowSuspect = true ∨ readableClean (storedVersion f m job vid) = true →
          (∀ verifyChecksum, (∃ g, read parquet t vid .whole allowSuspect verifyChecksum = .ok g ∧
              contentChecksum g = .ok (checksumOf f)) ↔ Restores f) ∧
          ∀ window : Window, (∃ g, read parquet t vid window allowSuspect false = .ok g ∧
            g.rows.Perm ((f.rows.map Row.stored).filter fun r => window.Has r.timestamp)) ↔
            f.rows ≠ [] ∧ window.Clear f) ∧
    (∀ (s s' : DataStore) (f : Frame) (m : BarDatasetMetadata) (call : WriteCall)
      (out : StoredDataset), Restores f → put floats parquet s f m call = (s', .ok out) →
      ∃ out', put floats parquet s' f m call = (s', .ok out')) ∧
    ∀ puts : List PutCall, (∀ p ∈ puts, Accepted p.frame → Steady p.frame) →
      Set.InjOn idOf (putTexts floats puts) →
      ∀ vid row, (putAll floats parquet puts).catalogue vid = some row →
      ∃ w f, resolve (putAll floats parquet puts).catalogue vid = .ok w ∧
        w.contentChecksum = checksumOf f ∧
        (w.kind = .raw → verifyImmutable parquet (putAll floats parquet puts) vid = .ok true) ∧
        ∀ allowSuspect : Bool, allowSuspect = true ∨ readableClean w = true →
          (∀ verifyChecksum, ∃ g,
            read parquet (putAll floats parquet puts) vid .whole allowSuspect
              verifyChecksum = .ok g ∧
            contentChecksum g = .ok w.contentChecksum) ∧
          ∀ window : Window, window.Clear f → ∃ g,
            read parquet (putAll floats parquet puts) vid window allowSuspect false = .ok g ∧
            g.rows.Perm ((f.rows.map Row.stored).filter fun r => window.Has r.timestamp) := by
  refine ⟨?_, ?_, ?_⟩
  · intro s f m call job vid hw hfile hrow hdigest
    obtain ⟨hput, hdeposited⟩ := hw.put_new parquet hfile hrow
    refine ⟨hput, ?_⟩
    intro s' out hok t hfiles hcatalogue
    have hs' := hdeposited s' out hok
    have ht : Deposited floats t f m job vid :=
      ⟨hs'.placed, hfiles.trans hs'.file, by rw [hcatalogue]; exact hs'.row⟩
    refine ⟨ht.put_again hw hdigest, ht.verifyImmutable hw hdigest, ?_⟩
    intro allowSuspect hclean
    exact ⟨fun verifyChecksum => ht.read_whole hw hdigest verifyChecksum hclean,
      ht.read_window hw hclean⟩
  · intro s s' f m call out hrestores h
    exact put_twice hrestores h
  · intro puts hsteady hdigest vid row hrow
    exact (sound_putAll hsteady hdigest).reads hrow

def twoBars (first second : ℤ) (hfirst : 0 < first ∧ first < 9000000000)
    (hsecond : 0 < second ∧ second < 9000000000) : Frame where
  columns := ohlcColumns
  rows := [
    ⟨first * 1000000000, "EURUSD", "H1", "mid", fun _ => 0x3ff0000000000000, by omega⟩,
    ⟨second * 1000000000, "EURUSD", "H1", "mid", fun _ => 0x3ff8000000000000, by omega⟩]
  nodup := nodup_ohlcColumns

def barMetadata : BarDatasetMetadata where
  instrument := "EURUSD"
  timeframe := .H1
  priceBasis := .mid
  source := "csv"
  sourceIdentifier := "eurusd.csv"
  ingestionVersion := "2.0.0"
  checksum := ""
  timezoneOfOrigin := "UTC"
  quality := .raw
  kind := .raw
  adjustments := []
  further := []

def inOrder : Parquet := ⟨id, fun _ => .refl _⟩

def givenBack (f : Frame) : Option (Bool × Bool × Bool) :=
  let m := { barMetadata with checksum := checksumOf f }
  match put Json.ratioFloats inOrder emptyStore f m (.raw none) with
  | (_, .error _) => none
  | (s, .ok out) =>
    (out.version.versionId Json.ratioFloats).map fun vid =>
      ((put Json.ratioFloats inOrder s f m (.raw none)).2.isOk,
        (verifyImmutable inOrder s vid).isOk, (read inOrder s vid .whole true true).isOk)

def metadataOf (f : Frame) : BarDatasetMetadata := { barMetadata with checksum := checksumOf f }

def rawJob (f : Frame) : WriteJob := ⟨.raw, [(metadataOf f).ingestStep], [], none, true⟩

theorem givenBack_of_lost
    (hw : Writing Json.ratioFloats f (metadataOf f) (.raw none) (rawJob f) vid)
    (hgrid : ∀ r ∈ f.rows, r.OnGrid)
    (hdocument : (document Json.ratioFloats (metadataOf f) (rawJob f) vid).isSome = true)
    (hrow : (newRow Json.ratioFloats vid
      (storedVersion f (metadataOf f) (rawJob f) vid)).isSome = true)
    (hdigest : Set.InjOn Blake2b.hexdigest {contentBytes f, contentBytes (restored f)})
    (hlost : ¬ Restores f) : givenBack f = some (false, false, false) := by
  obtain ⟨hput, hdeposited⟩ := hw.put_new (s := emptyStore) inOrder rfl rfl
  obtain ⟨s', out, hok⟩ := hput.2 ⟨hgrid, hdocument, hrow⟩
  obtain ⟨⟨e, hagain⟩, ⟨e', hverify⟩, hread⟩ :=
    (hdeposited s' out hok).raises hw hdigest rfl rfl hlost
  obtain ⟨e'', hread⟩ := hread true
  have hfinish := hok
  rw [hw.put_eq inOrder] at hfinish
  obtain ⟨-, -, -, hout⟩ := finish_eq_ok.1 hfinish
  have hid : out.version.versionId Json.ratioFloats = some vid := by
    rw [hout]
    exact hw.versionId
  unfold givenBack
  unfold metadataOf at hok hagain
  dsimp only
  rw [hok]
  dsimp only
  rw [hid, hagain, Option.map_some, hverify, hread]
  rfl

def unsortedBars : Frame := twoBars 1600003600 1600000000 (by decide) (by decide)

/-- The rows are hashed as they come and read in their order. -/
theorem unsorted_bars_are_not_given_back :
    givenBack (twoBars 1600003600 1600000000 (by decide) (by decide)) =
      some (false, false, false) := by
  change givenBack unsortedBars = _
  obtain ⟨vid, hid⟩ : ∃ vid, (versionOf unsortedBars (metadataOf unsortedBars)
      (rawJob unsortedBars) (checksumOf unsortedBars)).versionId Json.ratioFloats = some vid :=
    Option.isSome_iff_exists.1 (by rfl)
  have hdiffer : Blake2b.hexdigest (contentBytes unsortedBars) ≠
      Blake2b.hexdigest (contentBytes (restored unsortedBars)) := by decide +kernel
  apply givenBack_of_lost ⟨validateFrameShape_eq_ok.1 (by rfl), rfl, .inr rfl, hid⟩ (by decide)
    (by rfl) (by rfl)
  · rintro a (rfl | rfl) b (rfl | rfl) heq
    · rfl
    · exact absurd heq hdiffer
    · exact absurd heq hdiffer.symm
    · rfl
  · decide

def sortedBars : Frame := twoBars 1600000000 1600003600 (by decide) (by decide)

def sortedMetadata : BarDatasetMetadata := { barMetadata with checksum := checksumOf sortedBars }

def sortedJob : WriteJob := ⟨.raw, [sortedMetadata.ingestStep], [], none, true⟩

def sortedId : String :=
  ((versionOf sortedBars sortedMetadata sortedJob (checksumOf sortedBars)).versionId
    Json.ratioFloats).getD ""

theorem steady_sortedBars : Steady sortedBars where
  accepted := validateFrameShape_eq_ok.1 (by rfl)
  restores := by decide
  grid := by decide

theorem row_of_verified {t : DataStore} (h : verifyImmutable parquet t vid = .ok true) :
    ∃ row, t.catalogue vid = some row := by
  cases hrow : t.catalogue vid with
  | some row => exact ⟨row, rfl⟩
  | none =>
    unfold verifyImmutable resolve at h
    rw [hrow] at h
    cases h

theorem sorted_bars_are_given_back :
    ∃ s' out, put Json.ratioFloats inOrder emptyStore sortedBars sortedMetadata (.raw none) =
        (s', .ok out) ∧
      verifyImmutable inOrder s' sortedId = .ok true ∧
      (∃ out', put Json.ratioFloats inOrder s' sortedBars sortedMetadata (.raw none) =
        (s', .ok out')) ∧
      ∃ w, resolve s'.catalogue sortedId = .ok w ∧
        ∃ g, read inOrder s' sortedId .whole true true = .ok g ∧
          contentChecksum g = .ok w.contentChecksum := by
  have hsome : ((versionOf sortedBars sortedMetadata sortedJob (checksumOf sortedBars)).versionId
      Json.ratioFloats).isSome = true := by rfl
  have hid : (versionOf sortedBars sortedMetadata sortedJob (checksumOf sortedBars)).versionId
      Json.ratioFloats = some sortedId := by
    rw [← Option.some_get hsome]
    exact congrArg some (Option.get_eq_getD _)
  have hdocument : ∀ vid,
      (document Json.ratioFloats sortedMetadata sortedJob vid).isSome = true := fun _ => by rfl
  have hrow : ∀ vid, (newRow Json.ratioFloats vid
      (storedVersion sortedBars sortedMetadata sortedJob vid)).isSome = true := fun _ => by rfl
  have hw : Writing Json.ratioFloats sortedBars sortedMetadata (.raw none) sortedJob sortedId :=
    ⟨steady_sortedBars.accepted, rfl, .inr rfl, hid⟩
  have hdigest : Set.InjOn Blake2b.hexdigest {contentBytes sortedBars,
    contentBytes (restored sortedBars)} := by
    rw [steady_sortedBars.restores.contentBytes_eq steady_sortedBars.accepted,
      Set.pair_eq_singleton]
    exact Set.injOn_singleton _ _
  obtain ⟨hput, hkept⟩ := (gives_back_what_it_was_given Json.ratioFloats inOrder).1
    emptyStore _ _ _ _
    sortedId hw rfl rfl hdigest
  obtain ⟨s', out, hok⟩ := hput.2 ⟨steady_sortedBars.grid, hdocument _, hrow _⟩
  have hverified := ((hkept s' out hok s' rfl rfl).2.1 rfl).2 steady_sortedBars.restores
  obtain ⟨row, hrow⟩ := row_of_verified hverified
  have hrun : putAll Json.ratioFloats inOrder [⟨sortedBars, sortedMetadata, .raw none⟩] = s' := by
    unfold putAll
    rw [List.foldl_cons, List.foldl_nil, hok]
  have htexts : Set.InjOn idOf
      (putTexts Json.ratioFloats [⟨sortedBars, sortedMetadata, .raw none⟩]) := by
    rintro t ⟨p, hp, job, hjob, ht⟩ t' ⟨p', hp', job', hjob', ht'⟩ -
    rw [List.mem_singleton.1 hp] at hjob ht
    rw [List.mem_singleton.1 hp'] at hjob' ht'
    cases hjob
    cases hjob'
    exact Option.some.inj (ht.symm.trans ht')
  obtain ⟨w, f, hresolve, -, -, hread⟩ :=
    (gives_back_what_it_was_given Json.ratioFloats inOrder).2.2
    [⟨sortedBars, sortedMetadata, .raw none⟩]
    (fun p hp _ => by rw [List.mem_singleton.1 hp]; exact steady_sortedBars) htexts sortedId row
    (by rw [hrun]; exact hrow)
  rw [hrun] at hresolve hread
  refine ⟨s', out, hok, hverified, ?_, w, hresolve, (hread true (.inl rfl)).1 true⟩
  exact (gives_back_what_it_was_given Json.ratioFloats inOrder).2.1 emptyStore s' _ _ _ out
    steady_sortedBars.restores hok

end Fiboki.Bars
