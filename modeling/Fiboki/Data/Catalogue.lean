import Fiboki.Data.Survival

/-!
The version id as a function of content and lineage, and what the catalogue resolves.
-/

namespace Fiboki.Bars

open Wire

variable {floats : Json.FloatText}

def TransformationStep.json (s : TransformationStep) (parameters : Value) : Value :=
  .dict [("operation", .str s.operation), ("parameters", parameters),
    ("code_version", .str s.codeVersion), ("inputs", .list (s.inputs.map .str))]

def Hashed (floats : Json.FloatText) (s : TransformationStep) (p : Value) : Prop :=
  ∃ c, canonical floats (.dict s.parameters) = some c ∧ encode floats c = some p

def payloadText (floats : Json.FloatText) (checksum : String) (steps : List Value) : List Char :=
  Json.asciiText floats (.dict [("content_checksum", .str checksum), ("lineage", .list steps)])

variable (inputs : List String)

theorem encodeItems_str : encodeItems floats (inputs.map .str) = some (inputs.map .str) := by
  rw [encodeItems_eq_some, List.forall₂_map_left_iff, List.forall₂_map_right_iff, List.forall₂_same]
  exact fun _ _ => rfl

theorem encode_fields (s : TransformationStep) (c : PyValue) :
    encode floats (s.fields c) = (encode floats c).map s.json := by
  unfold TransformationStep.fields TransformationStep.json
  cases hc : encode floats c with
  | none => simp [encode, encodeEntries, hc]
  | some p => simp [encode, encodeEntries, hc, encodeItems_str, Key.jsonText]

variable {s : TransformationStep}

variable {j : Value}

theorem encode_canonical_step :
    (∃ step, s.canonical floats = some step ∧ encode floats step = some j) ↔
      ∃ p, Hashed floats s p ∧ j = s.json p := by
  unfold TransformationStep.canonical Hashed
  constructor
  · rintro ⟨step, hstep, hj⟩
    obtain ⟨c, hc, rfl⟩ := Option.map_eq_some_iff.1 hstep
    rw [encode_fields] at hj
    obtain ⟨p, hp, rfl⟩ := Option.map_eq_some_iff.1 hj
    exact ⟨p, ⟨c, hc, hp⟩, rfl⟩
  · rintro ⟨p, ⟨c, hc, hp⟩, rfl⟩
    refine ⟨s.fields c, by rw [hc]; rfl, ?_⟩
    rw [encode_fields, hp]
    rfl

variable {L : List TransformationStep}

variable {text : List Char}

theorem payload_eq_some {checksum : String} :
    payload floats checksum L = some text ↔ ∃ ps, List.Forall₂ (Hashed floats) L ps ∧
        text = payloadText floats checksum (List.zipWith TransformationStep.json L ps) := by
  have hsteps : (∃ steps, canonicalLineage floats L = some steps ∧
      (encode floats (.dict [(.str "content_checksum", .str checksum),
        (.str "lineage", .list steps)])).map (Json.asciiText floats) = some text) ↔
      ∃ js, List.Forall₂ (fun s j => ∃ p, Hashed floats s p ∧ j = s.json p) L js ∧
        text = payloadText floats checksum js := by
    have hdict : ∀ steps, encode floats (.dict [(.str "content_checksum", .str checksum),
        (.str "lineage", .list steps)]) = (encodeItems floats steps).map fun js =>
          .dict [("content_checksum", .str checksum), ("lineage", .list js)] := by
      intro steps
      cases hjs : encodeItems floats steps with
      | none => simp [encode, encodeEntries, hjs]
      | some js => simp [encode, encodeEntries, hjs, Key.jsonText]
    constructor
    · rintro ⟨steps, hsteps, htext⟩
      rw [hdict, Option.map_map] at htext
      obtain ⟨js, hjs, rfl⟩ := Option.map_eq_some_iff.1 htext
      refine ⟨js, ?_, rfl⟩
      exact (Pointwise.comp_iff.1 ⟨steps, Pointwise.mapM_eq_some.1 hsteps,
        encodeItems_eq_some.1 hjs⟩).imp
        fun _ _ => encode_canonical_step.1
    · rintro ⟨js, hjs, rfl⟩
      obtain ⟨steps, hsteps, hjs⟩ := Pointwise.comp_iff.2
        (hjs.imp fun _ _ => encode_canonical_step.2)
      refine ⟨steps, Pointwise.mapM_eq_some.2 hsteps, ?_⟩
      rw [hdict, encodeItems_eq_some.2 hjs]
      rfl
  unfold payload
  rw [Option.bind_eq_some_iff, hsteps]
  constructor
  · rintro ⟨js, hjs, rfl⟩
    obtain ⟨ps, hps, rfl⟩ := Pointwise.zipWith_iff.1 hjs
    exact ⟨ps, hps, rfl⟩
  · rintro ⟨ps, hps, rfl⟩
    exact ⟨_, Pointwise.zipWith_iff.2 ⟨ps, hps, rfl⟩, rfl⟩

theorem orderedItems_eq_map (vs : List Value) : Json.orderedItems vs = vs.map Json.ordered := by
  induction vs with
  | nil => rfl
  | cons v vs ih => rw [Json.orderedItems, ih, List.map_cons]

/-- The fields of a step, found in its JSON with the keys in order. -/
structure StepFields (j : Value) (s : TransformationStep) (p : Value) : Prop where
  operation : j.get? "operation" = some (.str s.operation)
  parameters : j.get? "parameters" = some (Json.ordered p)
  codeVersion : j.get? "code_version" = some (.str s.codeVersion)
  inputs : j.get? "inputs" = some (.list (s.inputs.map .str))

theorem stepFields (s : TransformationStep) (p : Value) :
    StepFields (Json.ordered (s.json p)) s p := by
  have hnodup : ([("operation", Value.str s.operation), ("parameters", p),
      ("code_version", .str s.codeVersion), ("inputs", .list (s.inputs.map .str))].map
        Prod.fst).Nodup := by
    simp only [List.map_cons, List.map_nil]
    decide
  have hinputs : Json.ordered (.list (s.inputs.map .str)) = .list (s.inputs.map .str) := by
    rw [Json.ordered, orderedItems_eq_map, List.map_map]
    rfl
  unfold TransformationStep.json
  constructor
  · exact Json.get?_ordered_of_mem hnodup (.head _)
  · exact Json.get?_ordered_of_mem hnodup (.tail _ (.head _))
  · exact Json.get?_ordered_of_mem hnodup (.tail _ (.tail _ (.head _)))
  · have hget := Json.get?_ordered_of_mem hnodup (.tail _ (.tail _ (.tail _ (.head _))))
    rwa [hinputs] at hget

theorem json_injective {s s' : TransformationStep} {p p' : Value}
    (h : Json.ordered (s.json p) = Json.ordered (s'.json p')) :
    (s.operation = s'.operation ∧ s.codeVersion = s'.codeVersion ∧ s.inputs = s'.inputs) ∧
      Json.ordered p = Json.ordered p' := by
  have hs := stepFields s p
  have hs' := stepFields s' p'
  rw [← h] at hs'
  have hop := hs.operation.symm.trans hs'.operation
  have hparams := hs.parameters.symm.trans hs'.parameters
  have hcode := hs.codeVersion.symm.trans hs'.codeVersion
  have hinputs := hs.inputs.symm.trans hs'.inputs
  refine ⟨⟨?_, ?_, ?_⟩, Option.some.inj hparams⟩
  · exact Value.str.inj (Option.some.inj hop)
  · exact Value.str.inj (Option.some.inj hcode)
  · exact List.map_injective_iff.2 (fun _ _ => Value.str.inj)
      (Value.list.inj (Option.some.inj hinputs))

variable {c c' : String}

theorem payloadText_injective {js js' : List Value}
    (h : payloadText floats c js = payloadText floats c' js') :
    c = c' ∧ js.map Json.ordered = js'.map Json.ordered := by
  have hvalue := Json.asciiText_injective h
  have hget : ∀ (c : String) (js : List Value),
      (Json.ordered (.dict [("content_checksum", .str c), ("lineage", .list js)])).get?
          "content_checksum" = some (.str c) ∧
        (Json.ordered (.dict [("content_checksum", .str c), ("lineage", .list js)])).get?
          "lineage" = some (.list (js.map Json.ordered)) := by
    intro c js
    have hnodup :
      ([("content_checksum", Value.str c), ("lineage", .list js)].map Prod.fst).Nodup := by
      simp only [List.map_cons, List.map_nil]
      decide
    have hlist : Json.ordered (.list js) = .list (js.map Json.ordered) := by
      rw [Json.ordered, orderedItems_eq_map]
    rw [← hlist]
    exact ⟨Json.get?_ordered_of_mem hnodup (.head _),
      Json.get?_ordered_of_mem hnodup (.tail _ (.head _))⟩
  obtain ⟨hc, hjs⟩ := hget c js
  obtain ⟨hc', hjs'⟩ := hget c' js'
  rw [hvalue] at hc hjs
  exact ⟨Value.str.inj (Option.some.inj (hc.symm.trans hc')),
    Value.list.inj (Option.some.inj (hjs.symm.trans hjs'))⟩

theorem steps_of_json {L L' : List TransformationStep} {ps ps' : List Value}
    (hps : L.length = ps.length) (hps' : L'.length = ps'.length)
    (h : (List.zipWith TransformationStep.json L ps).map Json.ordered =
      (List.zipWith TransformationStep.json L' ps').map Json.ordered) :
    List.Forall₂ (fun s s' : TransformationStep => s.operation = s'.operation ∧
      s.codeVersion = s'.codeVersion ∧ s.inputs = s'.inputs) L L' ∧
      ps.map Json.ordered = ps'.map Json.ordered := by
  induction L generalizing L' ps ps' with
  | nil =>
    obtain rfl := List.eq_nil_of_length_eq_zero hps.symm
    cases L' with
    | nil =>
      obtain rfl := List.eq_nil_of_length_eq_zero hps'.symm
      exact ⟨.nil, rfl⟩
    | cons s' L' =>
      cases ps' with
      | nil => cases hps'
      | cons p' ps' => cases h
  | cons s L ih =>
    cases ps with
    | nil => cases hps
    | cons p ps =>
      cases L' with
      | nil => cases h
      | cons s' L' =>
        cases ps' with
        | nil => cases hps'
        | cons p' ps' =>
          rw [List.zipWith_cons_cons, List.zipWith_cons_cons, List.map_cons, List.map_cons] at h
          obtain ⟨hhead, htail⟩ := List.cons.inj h
          obtain ⟨hfields, hp⟩ := json_injective hhead
          obtain ⟨hL, hps⟩ := ih (Nat.succ.inj hps) (Nat.succ.inj hps') htail
          exact ⟨.cons hfields hL, by rw [List.map_cons, List.map_cons, hp, hps]⟩

variable {p : Value}

theorem Hashed.sorted (h : Hashed floats s p) : Json.Sorted p := by
  obtain ⟨c, hc, hp⟩ := h
  exact (faithful _ c p hc hp).2

theorem Hashed.ofJson (h : Hashed floats s p) :
    canonical floats (.dict s.parameters) = some (ofJson p) := by
  obtain ⟨c, hc, hp⟩ := h
  rw [hc, (faithful _ c p hc hp).1]

theorem hashed_ordered {ps : List Value}
    (h : List.Forall₂ (Hashed floats) L ps) : ps.map Json.ordered = ps := by
  induction h with
  | nil => rfl
  | cons hhead _ ih => rw [List.map_cons, Json.ordered_eq_self _ hhead.sorted, ih]

theorem payload_injective {L L' : List TransformationStep}
    (h : payload floats c L = some text) (h' : payload floats c' L' = some text) :
    c = c' ∧ canonicalLineage floats L = canonicalLineage floats L' := by
  obtain ⟨ps, hps, htext⟩ := payload_eq_some.1 h
  obtain ⟨ps', hps', htext'⟩ := payload_eq_some.1 h'
  obtain ⟨hc, hsteps⟩ := payloadText_injective (htext.symm.trans htext')
  obtain ⟨hL, hp⟩ := steps_of_json hps.length_eq hps'.length_eq hsteps
  rw [hashed_ordered hps, hashed_ordered hps'] at hp
  subst hp
  refine ⟨hc, ?_⟩
  have hsame : ∀ {L L' : List TransformationStep} {ps : List Value},
    List.Forall₂ (Hashed floats) L ps →
      List.Forall₂ (Hashed floats) L' ps →
      List.Forall₂ (fun s s' : TransformationStep => s.operation = s'.operation ∧
        s.codeVersion = s'.codeVersion ∧ s.inputs = s'.inputs) L L' →
      canonicalLineage floats L = canonicalLineage floats L' := by
    intro L L' ps hps hps' hL
    unfold canonicalLineage
    induction hL generalizing ps with
    | nil => rfl
    | @cons s s' L L' hhead _ ih =>
      cases hps with
      | @cons _ p _ ps hp hps =>
        cases hps' with
        | cons hp' hps' =>
          have hstep : s.canonical floats = s'.canonical floats := by
            unfold TransformationStep.canonical TransformationStep.fields
            rw [hp.ofJson, hp'.ofJson, hhead.1, hhead.2.1, hhead.2.2]
          rw [List.mapM_cons, List.mapM_cons, hstep, ih hps hps']
  exact hsame hps hps' hL

theorem encode_toDict : encode floats s.toDict = some j ↔
      ∃ b, encode floats (asDict (.dict s.parameters)) = some b ∧ j = s.json b := by
  unfold TransformationStep.toDict
  rw [encode_fields, Option.map_eq_some_iff]
  constructor
  · rintro ⟨b, hb, rfl⟩
    exact ⟨b, hb, rfl⟩
  · rintro ⟨b, hb, rfl⟩
    exact ⟨b, hb, rfl⟩

theorem lineageColumn_eq_some {column : Value} :
    jsonColumn floats (.list (L.map TransformationStep.toDict)) = some column ↔
      ∃ bs, List.Forall₂ (fun s b => encode floats (asDict (.dict s.parameters)) = some b) L bs ∧
        column = .list ((List.zipWith TransformationStep.json L bs).map Json.ordered) := by
  have hitems : ∀ js, encodeItems floats (L.map TransformationStep.toDict) = some js ↔
      ∃ bs, List.Forall₂ (fun s b => encode floats (asDict (.dict s.parameters)) = some b) L bs ∧
        js = List.zipWith TransformationStep.json L bs := by
    intro js
    rw [encodeItems_eq_some, List.forall₂_map_left_iff, ← Pointwise.zipWith_iff]
    exact ⟨fun h => h.imp fun _ _ => encode_toDict.1, fun h => h.imp fun _ _ => encode_toDict.2⟩
  unfold jsonColumn
  rw [encode, Option.map_map]
  constructor
  · intro h
    obtain ⟨js, hjs, rfl⟩ := Option.map_eq_some_iff.1 h
    obtain ⟨bs, hbs, rfl⟩ := (hitems js).1 hjs
    refine ⟨bs, hbs, ?_⟩
    show Json.ordered (.list _) = _
    rw [Json.ordered, orderedItems_eq_map]
  · rintro ⟨bs, hbs, rfl⟩
    rw [(hitems _).2 ⟨bs, hbs, rfl⟩]
    show some (Json.ordered (.list _)) = _
    rw [Json.ordered, orderedItems_eq_map]

structure Reread (floats : Json.FloatText) (s : TransformationStep) (b : Value)
    (s' : TransformationStep) : Prop where
  operation : s'.operation = s.operation
  codeVersion : s'.codeVersion = s.codeVersion
  inputs : s'.inputs = s.inputs
  parameters : PyValue.dict s'.parameters = ofJson (Json.ordered b)

theorem mapM_text : (inputs.map Value.str).mapM Value.text = .ok inputs := by
  induction inputs with
  | nil => rfl
  | cons i inputs ih =>
    rw [List.map_cons, List.mapM_cons, ih]
    rfl

variable {b : Value}

theorem fromDict_json (hb : encode floats (asDict (.dict s.parameters)) = some b) :
    ∃ s', TransformationStep.fromDict (Json.ordered (s.json b)) = .ok s' ∧
      Reread floats s b s' := by
  have hdict : ∃ fs, Json.ordered b = .dict fs := by
    rw [asDict, encode] at hb
    obtain ⟨fs, -, rfl⟩ := Option.map_eq_some_iff.1 hb
    exact ⟨_, rfl⟩
  obtain ⟨fs, hfs⟩ := hdict
  have hfields := stepFields s b
  refine ⟨⟨s.operation, ofJsonFields fs, s.codeVersion, s.inputs⟩, ?_, rfl, rfl, rfl, ?_⟩
  · have hparams := hfields.parameters
    rw [hfs] at hparams
    unfold TransformationStep.fromDict Value.field Value.fieldOr
    rw [hfields.operation, hparams, hfields.codeVersion, hfields.inputs]
    simp only [ok_bind, Value.text_str]
    show (do
      let parameters ← Except.ok fs
      let inputs ← Except.ok (s.inputs.map Value.str)
      let inputs ← inputs.mapM Value.text
      return TransformationStep.mk s.operation (ofJsonFields parameters) s.codeVersion inputs) = _
    simp only [ok_bind, mapM_text]
    rfl
  · rw [hfs]
    rfl

theorem Reread.hashed {s s' : TransformationStep} (h : Reread floats s b s') :
    Hashed floats s' (Json.ordered b) :=
  ⟨ofJson (Json.ordered b), by rw [h.parameters, canonical_ofJson _ (Json.sorted_ordered b)],
    encode_ofJson _⟩

end Fiboki.Bars
