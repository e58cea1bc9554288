import Fiboki.Data.Catalogue

/-!
A registered version, resolved: its id is the id it was registered under where its parameters
survive being stored.
-/

namespace Fiboki.Bars

open Wire

variable {floats : Json.FloatText}

def SameSteps (L L' : List TransformationStep) : Prop :=
  List.Forall₂ (fun s s' : TransformationStep => s.operation = s'.operation ∧
    s.codeVersion = s'.codeVersion ∧ s.inputs = s'.inputs) L L'

variable {L : List TransformationStep}

theorem mapM_fromDict {bs : List Value}
    (h : List.Forall₂ (fun s b => encode floats (asDict (.dict s.parameters)) = some b) L bs) :
    ∃ L', ((List.zipWith TransformationStep.json L bs).map Json.ordered).mapM
        TransformationStep.fromDict = .ok L' ∧
      List.Forall₂ (Hashed floats) L' (bs.map Json.ordered) ∧ SameSteps L L' := by
  induction h with
  | nil => exact ⟨[], rfl, .nil, .nil⟩
  | @cons s b L bs hb _ ih =>
    obtain ⟨s', hs', hreread⟩ := fromDict_json hb
    obtain ⟨L', hL', hhashed, hsame⟩ := ih
    refine ⟨s' :: L', ?_, .cons hreread.hashed hhashed, .cons ?_ hsame⟩
    · rw [List.zipWith_cons_cons, List.map_cons, List.mapM_cons, hs', hL']
      rfl
    · exact ⟨hreread.operation.symm, hreread.codeVersion.symm, hreread.inputs.symm⟩

theorem zipWith_json {L L' : List TransformationStep} (h : SameSteps L L') (ps : List Value) :
    List.zipWith TransformationStep.json L' ps = List.zipWith TransformationStep.json L ps := by
  induction h generalizing ps with
  | nil => rfl
  | @cons s s' L L' hhead _ ih =>
    cases ps with
    | nil => rfl
    | cons p ps =>
      rw [List.zipWith_cons_cons, List.zipWith_cons_cons, ih]
      unfold TransformationStep.json
      rw [hhead.1, hhead.2.1, hhead.2.2]

theorem hashed_eq_stored_iff {ps bs : List Value} (hps : List.Forall₂ (Hashed floats) L ps)
    (hbs : List.Forall₂ (fun s b => encode floats (asDict (.dict s.parameters)) = some b) L bs) :
    ps = bs.map Json.ordered ↔ ∀ s ∈ L, StoredAsHashed floats (.dict s.parameters) := by
  induction hps generalizing bs with
  | nil =>
    cases hbs
    exact iff_of_true rfl fun s hs => absurd hs List.not_mem_nil
  | @cons s p L ps hp _ ih =>
    cases hbs with
    | @cons _ b _ bs hb hbs =>
      obtain ⟨c, hc, hcp⟩ := hp
      rw [List.map_cons, List.cons.injEq, ih hbs, List.forall_mem_cons]
      apply and_congr_left
      intro _
      constructor
      · rintro rfl c' b' hc' hb'
        rw [hc] at hc'
        rw [hb] at hb'
        cases hc'
        cases hb'
        exact hcp
      · intro h
        have hstored := h c b hc hb
        rw [hcp] at hstored
        exact Option.some.inj hstored

theorem member_timeframe (tf : Timeframe) :
    member Timeframe.members Timeframe.value tf.value = .ok tf := by cases tf <;> rfl

theorem member_priceBasis (b : PriceBasis) :
    member PriceBasis.members PriceBasis.value b.value = .ok b := by cases b <;> rfl

theorem member_kind (k : DatasetKind) :
    member DatasetKind.members DatasetKind.value k.value = .ok k := by cases k <;> rfl

theorem member_quality (q : DataQuality) :
    member DataQuality.members DataQuality.value q.value = .ok q := by cases q <;> rfl

/-- A version that is resolved is the one that was registered, but for the form in which its
parameters are kept. -/
structure Resolves (floats : Json.FloatText) (v w : DatasetVersion) : Prop where
  contentChecksum : w.contentChecksum = v.contentChecksum
  instrument : w.instrument = v.instrument
  timeframe : w.timeframe = v.timeframe
  priceBasis : w.priceBasis = v.priceBasis
  kind : w.kind = v.kind
  quality : w.quality = v.quality
  rowCount : w.rowCount = v.rowCount
  storagePath : w.storagePath = v.storagePath
  integrityReport : w.integrityReport = v.integrityReport
  steps : SameSteps v.lineage w.lineage
  lineage : ∃ bs, List.Forall₂
      (fun s b => encode floats (asDict (.dict s.parameters)) = some b) v.lineage bs ∧
    List.Forall₂ (Hashed floats) w.lineage (bs.map Json.ordered)

variable {vid : String}

theorem rowToVersion_newRow {v : DatasetVersion} {row : DatasetVersionRow}
    (h : newRow floats vid v = some row) : ∃ w, rowToVersion row = .ok w ∧ Resolves floats v w := by
  unfold newRow at h
  obtain ⟨column, hcolumn, h⟩ := Option.bind_eq_some_iff.1 h
  obtain ⟨metadata, -, h⟩ := Option.bind_eq_some_iff.1 h
  obtain ⟨metadataColumn, -, h⟩ := Option.bind_eq_some_iff.1 h
  cases h
  obtain ⟨bs, hbs, rfl⟩ := lineageColumn_eq_some.1 hcolumn
  obtain ⟨L', hL', hhashed, hsame⟩ := mapM_fromDict hbs
  refine ⟨{ v with lineage := L', metadata := ofJson metadataColumn }, ?_, ?_⟩
  · unfold rowToVersion
    simp only [Value.items, member_timeframe, member_priceBasis, member_kind, member_quality]
    show (do
      let lineage ← (List.mapM TransformationStep.fromDict _).mapError _
      _) = _
    rw [hL']
    rfl
  · exact ⟨rfl, rfl, rfl, rfl, rfl, rfl, rfl, rfl, rfl, hsame, bs, hbs, hhashed⟩

variable {catalogue catalogue' : DatasetCatalogue}

theorem register_eq_ok {v : DatasetVersion}
    (h : register floats catalogue v = .ok (catalogue', vid)) :
    v.versionId floats = some vid ∧ ((catalogue vid ≠ none ∧ catalogue' = catalogue) ∨
        (catalogue vid = none ∧ ∃ row, newRow floats vid v = some row ∧
          catalogue' = Function.update catalogue vid (some row))) := by
  unfold register at h
  cases hid : v.versionId floats with
  | none =>
    rw [hid] at h
    cases h
  | some vid' =>
    rw [hid] at h
    dsimp only at h
    cases hrow : catalogue vid' with
    | some row =>
      rw [hrow] at h
      obtain ⟨_, _, h⟩ := bind_ok h
      cases h
      exact ⟨rfl, .inl ⟨by rw [hrow]; exact Option.some_ne_none _, rfl⟩⟩
    | none =>
      rw [hrow] at h
      cases hadd : newRow floats vid' v with
      | none =>
        rw [hadd] at h
        cases h
      | some row =>
        rw [hadd] at h
        cases h
        exact ⟨rfl, .inr ⟨hrow, row, hadd, rfl⟩⟩

variable {v w : DatasetVersion}

theorem Resolves.payload (h : Resolves floats v w) {text : List Char}
    (hv : payload floats v.contentChecksum v.lineage = some text) :
    ∃ text', Bars.payload floats w.contentChecksum w.lineage = some text' ∧
      (text' = text ↔ ∀ s ∈ v.lineage, StoredAsHashed floats (.dict s.parameters)) := by
  obtain ⟨ps, hps, rfl⟩ := payload_eq_some.1 hv
  obtain ⟨bs, hbs, hhashed⟩ := h.lineage
  refine ⟨_, payload_eq_some.2 ⟨bs.map Json.ordered, hhashed, rfl⟩, ?_⟩
  rw [← hashed_eq_stored_iff hps hbs, h.contentChecksum]
  constructor
  · intro htext
    obtain ⟨-, hsteps⟩ := payloadText_injective htext
    obtain ⟨-, hparams⟩ := steps_of_json hhashed.length_eq hps.length_eq hsteps
    rw [hashed_ordered hhashed, hashed_ordered hps] at hparams
    exact hparams.symm
  · rintro rfl
    rw [zipWith_json h.steps]

theorem Resolves.versionId_of_survives (h : Resolves floats v w)
    (hid : v.versionId floats = some vid)
    (hsurvives : ∀ s ∈ v.lineage, Survives floats (.dict s.parameters)) :
    w.versionId floats = some vid := by
  obtain ⟨text, htext, rfl⟩ := Option.map_eq_some_iff.1 hid
  obtain ⟨text', htext', hiff⟩ := h.payload htext
  have hsame := hiff.2 fun s hs => (hsurvives s hs).storedAsHashed
  unfold DatasetVersion.versionId computeVersionId
  rw [htext', hsame]
  rfl

theorem Resolves.versionId_iff (h : Resolves floats v w) (hid : v.versionId floats = some vid)
    (hdigest : ∀ t ∈ Bars.payload floats v.contentChecksum v.lineage,
      ∀ t' ∈ Bars.payload floats w.contentChecksum w.lineage, idOf t = idOf t' → t = t') :
    w.versionId floats = some vid ↔
      ∀ s ∈ v.lineage, StoredAsHashed floats (.dict s.parameters) := by
  obtain ⟨text, htext, rfl⟩ := Option.map_eq_some_iff.1 hid
  obtain ⟨text', htext', hiff⟩ := h.payload htext
  rw [← hiff]
  unfold DatasetVersion.versionId computeVersionId
  rw [htext', Option.map_some, Option.some_inj]
  constructor
  · intro heq
    exact (hdigest text htext text' htext' heq.symm).symm
  · intro heq
    rw [heq]

def registerAll (floats : Json.FloatText) (catalogue : DatasetCatalogue)
    (vs : List DatasetVersion) :
    DatasetCatalogue :=
  vs.foldl (fun catalogue v =>
    match register floats catalogue v with
    | .ok (catalogue', _) => catalogue'
    | .error _ => catalogue) catalogue

def ResolvesAll (floats : Json.FloatText) (catalogue : DatasetCatalogue) : Prop :=
  ∀ vid row, catalogue vid = some row →
    ∃ w, rowToVersion row = .ok w ∧ w.versionId floats = some vid

theorem ResolvesAll.register {v : DatasetVersion} (hall : ResolvesAll floats catalogue)
    (hsurvives : ∀ s ∈ v.lineage, Survives floats (.dict s.parameters))
    (h : register floats catalogue v = .ok (catalogue', vid)) : ResolvesAll floats catalogue' := by
  obtain ⟨hid, ⟨-, rfl⟩ | ⟨-, row, hrow, rfl⟩⟩ := register_eq_ok h
  · exact hall
  · intro vid' row' hrow'
    by_cases heq : vid' = vid
    · subst heq
      rw [Function.update_self] at hrow'
      cases hrow'
      obtain ⟨w, hw, hresolves⟩ := rowToVersion_newRow hrow
      exact ⟨w, hw, hresolves.versionId_of_survives hid hsurvives⟩
    · rw [Function.update_of_ne heq] at hrow'
      exact hall vid' row' hrow'

theorem ResolvesAll.registerAll {catalogue : DatasetCatalogue} {vs : List DatasetVersion}
    (hall : ResolvesAll floats catalogue)
    (hsurvives : ∀ v ∈ vs, ∀ s ∈ v.lineage, Survives floats (.dict s.parameters)) :
    ResolvesAll floats (registerAll floats catalogue vs) := by
  induction vs generalizing catalogue with
  | nil => exact hall
  | cons v vs ih =>
    refine ih ?_ fun u hu => hsurvives u (List.mem_cons_of_mem _ hu)
    dsimp only
    split
    · rename_i catalogue' vid hreg
      exact hall.register (hsurvives v List.mem_cons_self) hreg
    · exact hall

end Fiboki.Bars
