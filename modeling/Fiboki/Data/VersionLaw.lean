import Fiboki.Data.ContentBytes
import Fiboki.Data.Resolution

/-!
A version id is content plus lineage, and survives the catalogue where the parameters do.
-/

namespace Fiboki.Bars

def frameVersionId (floats : Json.FloatText) (f : Frame) (L : List TransformationStep) :
    Option String :=
  match contentChecksum f with
  | .ok checksum => computeVersionId floats checksum L
  | .error _ => none

def idTexts (floats : Json.FloatText) (frames : List (Frame × List TransformationStep)) :
    Set (List Char) :=
  {t | ∃ e ∈ frames, payload floats (Blake2b.hexdigest (contentBytes e.1)) e.2 = some t}

variable {floats : Json.FloatText} {vid : String}

theorem frameVersionId_eq_some {f : Frame} {L : List TransformationStep} :
    frameVersionId floats f L = some vid ↔
      Accepted f ∧ ∃ t, payload floats (Blake2b.hexdigest (contentBytes f)) L = some t ∧
        idOf t = vid := by
  unfold frameVersionId
  constructor
  · intro h
    split at h
    · rename_i checksum hchecksum
      obtain ⟨hf, rfl⟩ := contentChecksum_eq_ok.1 hchecksum
      exact ⟨hf, Option.map_eq_some_iff.1 h⟩
    · cases h
  · rintro ⟨hf, t, ht, rfl⟩
    rw [contentChecksum_eq_ok.2 ⟨hf, rfl⟩]
    show (payload floats _ L).map idOf = _
    rw [ht]
    rfl

variable {L M : List TransformationStep}

theorem canonicalLineage_payload (h : canonicalLineage floats L = canonicalLineage floats M)
    (checksum : String) : payload floats checksum L = payload floats checksum M := by
  unfold payload
  rw [h]

theorem frameVersionId_eq_iff {f g : Frame} {i j : String} (hf : Canonical f) (hg : Canonical g)
    (hi : frameVersionId floats f L = some i) (hj : frameVersionId floats g M = some j)
    (hbytes : Set.InjOn Blake2b.hexdigest {contentBytes f, contentBytes g})
    (htexts : Set.InjOn idOf (idTexts floats [(f, L), (g, M)])) :
    i = j ↔ SameContent f g ∧ canonicalLineage floats L = canonicalLineage floats M := by
  obtain ⟨-, t, ht, rfl⟩ := frameVersionId_eq_some.1 hi
  obtain ⟨-, t', ht', rfl⟩ := frameVersionId_eq_some.1 hj
  constructor
  · intro heq
    have htext : t = t' := htexts ⟨(f, L), List.mem_cons_self, ht⟩
      ⟨(g, M), List.mem_cons_of_mem _ List.mem_cons_self, ht'⟩ heq
    rw [← htext] at ht'
    obtain ⟨hchecksum, hlineage⟩ := payload_injective ht ht'
    have hsame := hbytes (Set.mem_insert _ _) (Set.mem_insert_of_mem _ rfl) hchecksum
    exact ⟨(contentBytes_eq_iff hf hg).1 hsame, hlineage⟩
  · rintro ⟨hcontent, hlineage⟩
    rw [hcontent.contentBytes_eq, canonicalLineage_payload hlineage, ht'] at ht
    rw [Option.some.inj ht]

theorem resolve_row {catalogue : DatasetCatalogue} {row : DatasetVersionRow}
    (h : catalogue vid = some row) : resolve catalogue vid = rowToVersion row := by
  unfold resolve
  rw [h]

def versionTexts (floats : Json.FloatText) (v w : DatasetVersion) : Set (List Char) :=
  {t | payload floats v.contentChecksum v.lineage = some t ∨
    payload floats w.contentChecksum w.lineage = some t}

theorem resolve_of_register {catalogue catalogue' : DatasetCatalogue} {v : DatasetVersion}
    (h : register floats catalogue v = .ok (catalogue', vid))
    (hnew : catalogue vid = none) :
    ∃ w, resolve catalogue' vid = .ok w ∧
      ((∀ s ∈ v.lineage, Survives floats (.dict s.parameters)) → w.versionId floats = some vid) ∧
      (Set.InjOn idOf (versionTexts floats v w) → (w.versionId floats = some vid ↔
          ∀ s ∈ v.lineage, StoredAsHashed floats (.dict s.parameters)) ∧
        ((∀ s ∈ v.lineage, Unswapped floats (.dict s.parameters)) → (w.versionId floats = some vid ↔
            ∀ s ∈ v.lineage, Survives floats (.dict s.parameters)))) := by
  obtain ⟨hid, ⟨hknown, -⟩ | ⟨-, row, hrow, rfl⟩⟩ := register_eq_ok h
  · exact absurd hnew hknown
  obtain ⟨w, hw, hresolves⟩ := rowToVersion_newRow hrow
  refine ⟨w, ?_, hresolves.versionId_of_survives hid, ?_⟩
  · rw [resolve_row (Function.update_self vid (some row) catalogue), hw]
  intro hdigest
  have hiff := hresolves.versionId_iff hid fun t ht t' ht' heq =>
    hdigest (.inl ht) (.inr ht') heq
  refine ⟨hiff, fun hunswapped => ⟨fun hsame s hs => ?_, hresolves.versionId_of_survives hid⟩⟩
  have hstored := hiff.1 hsame s hs
  obtain ⟨text, htext, -⟩ := Option.map_eq_some_iff.1 hid
  obtain ⟨ps, hps, -⟩ := payload_eq_some.1 htext
  obtain ⟨bs, hbs, -⟩ := hresolves.lineage
  obtain ⟨p, -, c, hc, -⟩ := Pointwise.mem_left hps hs
  obtain ⟨b, -, hb⟩ := Pointwise.mem_left hbs hs
  exact (hunswapped s hs).survives c b hc hb (hstored c b hc hb)

/-- Two versions of canonical frames have one id exactly when they have the same content and,
in canonical form, the same lineage. A version that is registered is resolved under its id
exactly when its parameters survive. -/
theorem content_plus_lineage (floats : Json.FloatText) :
    (∀ (f g : Frame) (L M : List TransformationStep) (i j : String),
      Canonical f → Canonical g → frameVersionId floats f L = some i →
      frameVersionId floats g M = some j →
      Set.InjOn Blake2b.hexdigest {contentBytes f, contentBytes g} →
      Set.InjOn idOf (idTexts floats [(f, L), (g, M)]) →
      (i = j ↔ SameContent f g ∧ canonicalLineage floats L = canonicalLineage floats M)) ∧
    (∀ (catalogue catalogue' : DatasetCatalogue) (v : DatasetVersion) (vid : String),
      register floats catalogue v = .ok (catalogue', vid) →
      (catalogue vid ≠ none → catalogue' = catalogue) ∧
      (catalogue vid = none → ∃ w, resolve catalogue' vid = .ok w ∧
        ((∀ s ∈ v.lineage, Survives floats (.dict s.parameters)) → w.versionId floats = some vid) ∧
        (Set.InjOn idOf (versionTexts floats v w) → (w.versionId floats = some vid ↔
            ∀ s ∈ v.lineage, StoredAsHashed floats (.dict s.parameters)) ∧
          ((∀ s ∈ v.lineage, Unswapped floats (.dict s.parameters)) →
            (w.versionId floats = some vid ↔
              ∀ s ∈ v.lineage, Survives floats (.dict s.parameters)))))) ∧
    (∀ vs : List DatasetVersion, (∀ v ∈ vs, ∀ s ∈ v.lineage, Survives floats (.dict s.parameters)) →
      ∀ vid row, registerAll floats (fun _ => none) vs vid = some row →
        ∃ w, resolve (registerAll floats (fun _ => none) vs) vid = .ok w ∧
          w.versionId floats = some vid) := by
  refine ⟨?_, ?_, ?_⟩
  · intro f g L M i j hf hg hi hj hbytes htexts
    exact frameVersionId_eq_iff hf hg hi hj hbytes htexts
  · intro catalogue catalogue' v vid h
    refine ⟨fun hknown => ?_, resolve_of_register h⟩
    obtain ⟨-, ⟨-, hsame⟩ | ⟨hnew, -⟩⟩ := register_eq_ok h
    · exact hsame
    · exact absurd hnew hknown
  · intro vs hsurvives vid row hrow
    have hempty : ResolvesAll floats fun _ => none := fun vid row hrow => nomatch hrow
    obtain ⟨w, hw, hid⟩ := hempty.registerAll hsurvives vid row hrow
    exact ⟨w, (resolve_row hrow).trans hw, hid⟩

def levelsVersion (key : Key) : DatasetVersion where
  contentChecksum := "c0"
  lineage := [⟨"resample", [(.str "levels", .dict [(key, .tuple [.int 1, .none])])], "2.0.0", []⟩]
  instrument := "EURUSD"
  timeframe := .H1
  priceBasis := .mid
  kind := .resampled
  quality := .validated
  rowCount := 3
  storagePath := none
  source := "csv"
  parentIds := []
  metadata := .dict []
  integrityReport := none

def resolvedAgain (floats : Json.FloatText) (v : DatasetVersion) : Option Bool :=
  match register floats (fun _ => none) v with
  | .error _ => none
  | .ok (catalogue, vid) =>
    match resolve catalogue vid with
    | .error _ => none
    | .ok w => some (w.versionId floats = some vid)

/-- `{"levels": {True: (1, None)}}`: the key is hashed as `True` and stored as `true`. -/
theorem truth_value_is_not_resolved :
    resolvedAgain Json.ratioFloats (levelsVersion (.bool true)) = some false := by
  decide +kernel

def oneBar : Frame where
  columns := ohlcColumns
  rows := [⟨1600000000000000000, "EURUSD", "H1", "mid", fun _ => 0x3ff0000000000000, by decide⟩]
  nodup := nodup_ohlcColumns

theorem canonical_oneBar : Canonical oneBar where
  accepted := validateFrameShape_eq_ok.1 (by rfl)
  ordered := by decide
  upper := by
    intro r hr
    rw [List.mem_singleton.1 hr]
    exact List.forall_iff_forall_mem.1 (by decide)

theorem survives_levels : ∀ s ∈ (levelsVersion (.int 1)).lineage,
    Survives Json.ratioFloats (.dict s.parameters) := by
  intro s hs
  rw [List.mem_singleton.1 hs]
  refine .dict ?_ ?_
  · intro e he
    rw [List.mem_singleton.1 he]
    rfl
  · intro e he
    rw [List.mem_singleton.1 he]
    refine .dict ?_ ?_
    · intro d hd
      rw [List.mem_singleton.1 hd]
      rfl
    · intro d hd
      rw [List.mem_singleton.1 hd]
      refine .tuple fun x hx => .leaf ?_
      rcases List.mem_pair.1 hx with rfl | rfl <;> trivial

theorem whole_number_is_resolved :
    (∃ i, frameVersionId Json.ratioFloats oneBar (levelsVersion (.int 1)).lineage = some i ∧
      (i = i ↔ SameContent oneBar oneBar ∧
        canonicalLineage Json.ratioFloats (levelsVersion (.int 1)).lineage =
          canonicalLineage Json.ratioFloats (levelsVersion (.int 1)).lineage)) ∧
    ∃ catalogue vid w, register Json.ratioFloats (fun _ => none) (levelsVersion (.int 1)) =
        .ok (catalogue, vid) ∧
      resolve catalogue vid = .ok w ∧ w.versionId Json.ratioFloats = some vid := by
  have hid : (frameVersionId Json.ratioFloats oneBar (levelsVersion (.int 1)).lineage).isSome =
    true := by
    decide
  have hreg : (register Json.ratioFloats (fun _ => none) (levelsVersion (.int 1))).isOk = true := by
    decide
  obtain ⟨i, hi⟩ := Option.isSome_iff_exists.1 hid
  refine ⟨⟨i, hi, ?_⟩, ?_⟩
  · apply (content_plus_lineage Json.ratioFloats).1 oneBar oneBar _ _ i i canonical_oneBar
      canonical_oneBar hi hi
    · rw [Set.pair_eq_singleton]
      exact Set.injOn_singleton _ _
    · rintro t ⟨e, he, ht⟩ t' ⟨e', he', ht'⟩ -
      have hsame : e = e' := by
        rcases List.mem_pair.1 he with rfl | rfl <;> rcases List.mem_pair.1
          he' with rfl | rfl <;> rfl
      rw [hsame, ht'] at ht
      exact (Option.some.inj ht).symm
  · cases hok : register Json.ratioFloats (fun _ => none) (levelsVersion (.int 1)) with
    | error e =>
      rw [hok] at hreg
      cases hreg
    | ok p =>
      obtain ⟨w, hw, hsurvives, -⟩ :=
        ((content_plus_lineage Json.ratioFloats).2.1 _ p.1 _ p.2 hok).2 rfl
      exact ⟨p.1, p.2, w, rfl, hw, hsurvives survives_levels⟩

end Fiboki.Bars
