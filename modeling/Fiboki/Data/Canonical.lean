import Fiboki.Data.Versioning
import Fiboki.Lib.Pointwise

/-!
The canonical form of parameters and their JSON: what is read back of a form that has been
written, and when parameters are stored as they are hashed.
-/

namespace Fiboki.Bars

open Wire

variable {floats : Json.FloatText}

variable {xs ys : List PyValue}

theorem canonicalItems_eq_some : canonicalItems floats xs = some ys ↔
      List.Forall₂ (fun x y => canonical floats x = some y) xs ys := by
  induction xs generalizing ys with
  | nil => simp [canonicalItems, eq_comm]
  | cons x xs ih =>
    rw [canonicalItems]
    constructor
    · intro h
      split at h
      · rename_i y rest hy hrest
        cases h
        exact .cons hy (ih.1 hrest)
      · cases h
    · intro h
      cases h with
      | cons hy hrest => rw [hy, ih.2 hrest]

theorem canonicalEntries_eq_some {es ds : List (Key × PyValue)} :
    canonicalEntries floats es = some ds ↔
      List.Forall₂ (fun e d => e.1 = d.1 ∧ canonical floats e.2 = some d.2) es ds := by
  induction es generalizing ds with
  | nil => simp [canonicalEntries, eq_comm]
  | cons e es ih =>
    rw [canonicalEntries]
    constructor
    · intro h
      split at h
      · rename_i y rest hy hrest
        cases h
        exact .cons ⟨rfl, hy⟩ (ih.1 hrest)
      · cases h
    · intro h
      cases h with
      | cons hy hrest => rw [hy.2, ih.2 hrest, hy.1]

variable {vs : List Value}

theorem encodeItems_eq_some {xs : List PyValue} :
    encodeItems floats xs = some vs ↔ List.Forall₂ (fun x v => encode floats x = some v) xs vs := by
  induction xs generalizing vs with
  | nil => simp [encodeItems, eq_comm]
  | cons x xs ih =>
    rw [encodeItems]
    constructor
    · intro h
      split at h
      · rename_i v rest hv hrest
        cases h
        exact .cons hv (ih.1 hrest)
      · cases h
    · intro h
      cases h with
      | cons hv hrest => rw [hv, ih.2 hrest]

theorem encodeEntries_eq_some {es : List (Key × PyValue)} {fs : List (String × Value)} :
    encodeEntries floats es = some fs ↔
      List.Forall₂ (fun e f => e.1.jsonText floats = f.1 ∧ encode floats e.2 = some f.2) es fs := by
  induction es generalizing fs with
  | nil => simp [encodeEntries, eq_comm]
  | cons e es ih =>
    rw [encodeEntries]
    constructor
    · intro h
      split at h
      · rename_i v rest hv hrest
        cases h
        exact .cons ⟨rfl, hv⟩ (ih.1 hrest)
      · cases h
    · intro h
      cases h with
      | cons hv hrest => rw [hv.2, ih.2 hrest, hv.1]

theorem asDictItems_eq_map (xs : List PyValue) : asDictItems xs = xs.map asDict := by
  induction xs with
  | nil => rfl
  | cons x xs ih => rw [asDictItems, ih, List.map_cons]

theorem asDictEntries_eq_map (es : List (Key × PyValue)) :
    asDictEntries es = es.map fun e => (e.1, asDict e.2) := by
  induction es with
  | nil => rfl
  | cons e es ih => rw [asDictEntries, ih, List.map_cons]

theorem ofJsonItems_eq_map (vs : List Value) : ofJsonItems vs = vs.map ofJson := by
  induction vs with
  | nil => rfl
  | cons v vs ih => rw [ofJsonItems, ih, List.map_cons]

theorem ofJsonFields_eq_map (fs : List (String × Value)) :
    ofJsonFields fs = fs.map fun f => (.str f.1, ofJson f.2) := by
  induction fs with
  | nil => rfl
  | cons f fs ih => rw [ofJsonFields, ih, List.map_cons]

def PyValue.Leaf : PyValue → Prop
  | .list _ | .tuple _ | .dict _ | .record _ => False
  | _ => True

section Induction

set_option linter.unusedSectionVars false

variable {P : PyValue → Prop} (leaf : ∀ v : PyValue, v.Leaf → P v)
  (list : ∀ xs, (∀ x ∈ xs, P x) → P (.list xs)) (tuple : ∀ xs, (∀ x ∈ xs, P x) → P (.tuple xs))
  (dict : ∀ es : List (Key × PyValue), (∀ e ∈ es, P e.2) → P (.dict es))
  (record : ∀ fs, P (.record fs))

include leaf list tuple dict record

mutual
theorem PyValue.induct : ∀ v : PyValue, P v
  | .list xs => list xs (PyValue.inductItems xs)
  | .tuple xs => tuple xs (PyValue.inductItems xs)
  | .dict es => dict es (PyValue.inductEntries es)
  | .record fs => record fs
  | .none | .bool _ | .int _ | .num _ | .nan | .inf _ | .str _ | .strEnum _ | .plainEnum _
  | .instant _ | .path _ | .other => leaf _ trivial

theorem PyValue.inductItems : ∀ xs : List PyValue, ∀ x ∈ xs, P x
  | [], _, hx => absurd hx List.not_mem_nil
  | y :: ys, x, hx => by
    rcases List.mem_cons.1 hx with heq | hx
    · rw [heq]
      exact PyValue.induct y
    · exact PyValue.inductItems ys x hx

theorem PyValue.inductEntries : ∀ es : List (Key × PyValue), ∀ e ∈ es, P e.2
  | [], _, he => absurd he List.not_mem_nil
  | d :: ds, e, he => by
    rcases List.mem_cons.1 he with heq | he
    · rw [heq]
      exact PyValue.induct d.2
    · exact PyValue.inductEntries ds e he
end

end Induction

mutual
theorem encode_ofJson : ∀ v : Value, encode floats (ofJson v) = some v
  | .null | .nan | .inf _ | .bool _ | .int _ | .num _ | .str _ => rfl
  | .list vs => by rw [ofJson, encode, encodeItems_ofJson vs]; rfl
  | .dict fs => by rw [ofJson, encode, encodeEntries_ofJson fs]; rfl

theorem encodeItems_ofJson : ∀ vs : List Value, encodeItems floats (ofJsonItems vs) = some vs
  | [] => rfl
  | v :: vs => by rw [ofJsonItems, encodeItems, encode_ofJson v, encodeItems_ofJson vs]

theorem encodeEntries_ofJson : ∀ fs : List (String × Value),
    encodeEntries floats (ofJsonFields fs) = some fs
  | [] => rfl
  | f :: fs => by
    rw [ofJsonFields, encodeEntries, encode_ofJson f.2, encodeEntries_ofJson fs]
    rfl
end

variable {es : List (String × PyValue)}

theorem sortItems_text : sortItems (es.map fun e => ((.str e.1 : Key), e.2)) =
      some (StableSort.sortBy (fun e => e.1.content)
        (es.map fun e => ((.str e.1 : Key), e.2))) := by
  unfold sortItems
  rw [if_pos]
  simp [Key.isText]

theorem canonical_textEntries (d : Dict String PyValue)
    (h : ∀ e ∈ d.entries, canonical floats e.2 = some e.2) :
    canonical floats (.dict (d.entries.map fun e => (.str e.1, e.2))) =
      some (.dict (d.entries.map fun e => (.str e.1, e.2))) := by
  have hentries : canonicalEntries floats (d.entries.map fun e => ((.str e.1 : Key), e.2)) =
      some (d.entries.map fun e => (.str e.1, e.2)) := by
    rw [canonicalEntries_eq_some, List.forall₂_map_left_iff, List.forall₂_map_right_iff,
      List.forall₂_same]
    exact fun e he => ⟨rfl, h e he⟩
  have hsorted : (d.entries.map fun e => ((.str e.1 : Key), e.2)).Pairwise
      fun a b => a.1.content ≤ b.1.content := by
    rw [List.pairwise_map]
    exact d.sorted.imp fun hlt => hlt.le
  rw [canonical, hentries, Option.bind_some, sortItems_text, Option.map_some,
    StableSort.sortBy_of_sorted _ hsorted, List.map_map]
  have hprinted : (fun e : Key × PyValue => (e.1.printed floats, e.2)) ∘
      (fun e : String × PyValue => (.str e.1, e.2)) = id := rfl
  rw [hprinted, List.map_id, textDict, Dict.ofList_entries]

mutual
theorem canonical_ofJson : ∀ v : Value, Json.Sorted v → canonical floats (ofJson v) =
    some (ofJson v)
  | .null, _ | .nan, _ | .inf _, _ | .bool _, _ | .int _, _ | .num _, _ | .str _, _ => rfl
  | .list vs, h => by
    have hitems : canonicalItems floats (vs.map ofJson) = some (vs.map ofJson) := by
      rw [canonicalItems_eq_some, List.forall₂_same]
      intro x hx
      obtain ⟨v, hv, rfl⟩ := List.mem_map.1 hx
      exact canonicalItems_ofJson vs h v hv
    rw [ofJson, canonical, ofJsonItems_eq_map, hitems]
    rfl
  | .dict fs, h => by
    have hmap : (Dict.mk fs h.1).map ofJson = ⟨fs.map fun f => (f.1, ofJson f.2), _⟩ := rfl
    have hfields := canonicalFields_ofJson fs h.2
    have hentries : ∀ e ∈ ((Dict.mk fs h.1).map ofJson).entries, canonical floats e.2 =
      some e.2 := by
      intro e he
      obtain ⟨f, hf, rfl⟩ := List.mem_map.1 he
      exact hfields f hf
    have hcanonical := canonical_textEntries _ hentries
    rw [hmap, List.map_map] at hcanonical
    rw [ofJson, ofJsonFields_eq_map]
    exact hcanonical

theorem canonicalItems_ofJson : ∀ vs : List Value, Json.SortedItems vs →
    ∀ v ∈ vs, canonical floats (ofJson v) = some (ofJson v)
  | [], _, _, hv => absurd hv List.not_mem_nil
  | w :: ws, h, v, hv => by
    rcases List.mem_cons.1 hv with heq | hv
    · rw [heq]
      exact canonical_ofJson w h.1
    · exact canonicalItems_ofJson ws h.2 v hv

theorem canonicalFields_ofJson : ∀ fs : List (String × Value), Json.SortedFields fs →
    ∀ f ∈ fs, canonical floats (ofJson f.2) = some (ofJson f.2)
  | [], _, _, hf => absurd hf List.not_mem_nil
  | g :: gs, h, f, hf => by
    rcases List.mem_cons.1 hf with heq | hf
    · rw [heq]
      exact canonical_ofJson g.2 h.1
    · exact canonicalFields_ofJson gs h.2 f hf
end

theorem sortItems_perm {α : Type} {es ds : List (Key × α)} (h : sortItems es = some ds) :
    ds.Perm es := by
  unfold sortItems at h
  split_ifs at h <;> cases h
  · exact List.perm_insertionSort _ es
  · exact .refl _
  · exact List.perm_insertionSort _ es

theorem canonical_dict {es : List (Key × PyValue)} {c : PyValue}
    (h : canonical floats (.dict es) = some c) :
    ∃ items sorted, List.Forall₂ (fun e d => e.1 = d.1 ∧ canonical floats e.2 = some d.2) es items ∧
      sortItems items = some sorted ∧
      c = textDict (sorted.map fun e => (e.1.printed floats, e.2)) := by
  rw [canonical, Option.bind_eq_some_iff] at h
  obtain ⟨items, hitems, h⟩ := h
  obtain ⟨sorted, hsorted, rfl⟩ := Option.map_eq_some_iff.1 h
  exact ⟨items, sorted, canonicalEntries_eq_some.1 hitems, hsorted, rfl⟩

theorem encode_textDict (f : PyValue → Value)
    (h : ∀ e ∈ (Dict.ofList es).entries, encode floats e.2 = some (f e.2)) :
    encode floats (textDict es) =
      some (.dict (Dict.ofList (es.map fun e => (e.1, f e.2))).entries) := by
  have hentries :
    encodeEntries floats ((Dict.ofList es).entries.map fun e => ((.str e.1 : Key), e.2)) =
      some ((Dict.ofList es).map f).entries := by
    rw [encodeEntries_eq_some]
    show List.Forall₂ _ _ ((Dict.ofList es).entries.map fun e => (e.1, f e.2))
    rw [List.forall₂_map_left_iff, List.forall₂_map_right_iff, List.forall₂_same]
    exact fun e he => ⟨rfl, h e he⟩
  rw [textDict, encode, hentries, Option.map_some, Dict.ofList_map]

theorem encode_textDict_mem {a : Value} (h : encode floats (textDict es) = some a)
    {e : String × PyValue}
    (he : e ∈ (Dict.ofList es).entries) : ∃ v, encode floats e.2 = some v := by
  rw [textDict, encode] at h
  obtain ⟨fs, hfs, -⟩ := Option.map_eq_some_iff.1 h
  rw [encodeEntries_eq_some, List.forall₂_map_left_iff] at hfs
  obtain ⟨f, -, hf⟩ := Pointwise.mem_left hfs he
  exact ⟨f.2, hf.2⟩

def Faithful (floats : Json.FloatText) (v : PyValue) : Prop :=
  ∀ c a, canonical floats v = some c → encode floats c = some a → ofJson a = c ∧ Json.Sorted a

theorem faithful_items
    (hitems : List.Forall₂ (fun x y => canonical floats x = some y) xs ys)
    (hvs : List.Forall₂ (fun y v => encode floats y = some v) ys vs)
    (ih : ∀ x ∈ xs, Faithful floats x) : vs.map ofJson = ys ∧ Json.SortedItems vs := by
  induction hitems generalizing vs with
  | nil =>
    cases hvs
    exact ⟨rfl, trivial⟩
  | @cons x y xs ys hxy _ ihs =>
    cases hvs with
    | @cons _ v _ vs hyv hvs =>
      obtain ⟨hback, hsorted⟩ := ih x List.mem_cons_self y v hxy hyv
      obtain ⟨hrest, hrestSorted⟩ := ihs hvs fun z hz => ih z (List.mem_cons_of_mem _ hz)
      exact ⟨by rw [List.map_cons, hback, hrest], hsorted, hrestSorted⟩

theorem faithful (v : PyValue) : Faithful floats v := by
  induction v using PyValue.induct with
  | leaf v hv =>
    intro c a hc ha
    cases v <;> cases hv <;> cases hc <;> cases ha <;> exact ⟨rfl, trivial⟩
  | list xs ih | tuple xs ih =>
    intro c a hc ha
    rw [canonical] at hc
    obtain ⟨ys, hys, rfl⟩ := Option.map_eq_some_iff.1 hc
    rw [encode] at ha
    obtain ⟨vs, hvs, rfl⟩ := Option.map_eq_some_iff.1 ha
    obtain ⟨hback, hsorted⟩ :=
      faithful_items (canonicalItems_eq_some.1 hys) (encodeItems_eq_some.1 hvs) ih
    exact ⟨by rw [ofJson, ofJsonItems_eq_map, hback], hsorted⟩
  | dict es ih =>
    intro c a hc ha
    obtain ⟨items, sorted, hitems, hsorted, rfl⟩ := canonical_dict hc
    let f : PyValue → Value := fun y => (encode floats y).getD .null
    let pairs := sorted.map fun e => (e.1.printed floats, e.2)
    have hmem : ∀ e ∈ (Dict.ofList pairs).entries, encode floats e.2 = some (f e.2) := by
      intro e he
      obtain ⟨v, hv⟩ := encode_textDict_mem ha he
      simp only [f, hv, Option.getD_some]
    have hvalue : ∀ e ∈ (Dict.ofList pairs).entries,
        ofJson (f e.2) = e.2 ∧ Json.Sorted (f e.2) := by
      intro e he
      have hpair := Dict.mem_of_get_ofList (Dict.mem_entries.1 he)
      obtain ⟨d, hd, hde⟩ := List.mem_map.1 hpair
      obtain ⟨g, hg, hgd⟩ := Pointwise.mem_right hitems ((sortItems_perm hsorted).mem_iff.1 hd)
      have hval : d.2 = e.2 := congrArg Prod.snd hde
      exact ih g hg e.2 (f e.2) (hval ▸ hgd.2) (hmem e he)
    rw [encode_textDict f hmem, Dict.ofList_map] at ha
    cases ha
    constructor
    · rw [ofJson, ofJsonFields_eq_map, textDict]
      show PyValue.dict (((Dict.ofList pairs).entries.map fun e => (e.1, f e.2)).map _) = _
      rw [List.map_map]
      congr 1
      apply List.map_congr_left
      intro e he
      exact Prod.ext rfl (hvalue e he).1
    · refine ⟨((Dict.ofList pairs).map f).sorted, Json.sortedFields_of_forall ?_⟩
      intro g hg
      obtain ⟨e, he, rfl⟩ := List.mem_map.1 hg
      exact (hvalue e he).2
  | record fs =>
    intro c a hc ha
    rw [canonical] at hc
    split at hc
    · cases hc
      cases ha
      exact ⟨rfl, trivial⟩
    · cases hc
      cases ha

end Fiboki.Bars
