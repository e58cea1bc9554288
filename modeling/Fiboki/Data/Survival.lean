import Fiboki.Data.Canonical

/-!
Which parameters are stored as they are hashed.

The hash is of keys as `str` writes them, the catalogue has keys as JSON writes them, and the
two differ for a truth value, `None`, a number that is not finite and most members of an
enumeration.
-/

namespace Fiboki.Bars

open Wire

variable {floats : Json.FloatText}

/-- `str` and JSON write the key alike. -/
def Key.Plain (floats : Json.FloatText) (k : Key) : Prop := k.printed floats = k.jsonText floats

def Key.isEnum : Key → Bool
  | .enum _ _ => true
  | _ => false

theorem Key.plain_iff {k : Key} : k.Plain floats ↔
      match k with
      | .str _ | .int _ | .num _ => True
      | .nan | .inf _ | .bool _ | .none => False
      | .enum printed value => printed = value.jsonText floats := by
  unfold Key.Plain
  cases k with
  | str s | int z | num q => exact iff_of_true rfl trivial
  | nan => exact iff_of_false (show "nan" ≠ "NaN" by decide) id
  | none => exact iff_of_false (show "None" ≠ "null" by decide) id
  | inf negative =>
    cases negative
    · exact iff_of_false (show "inf" ≠ "Infinity" by decide) id
    · exact iff_of_false (show "-inf" ≠ "-Infinity" by decide) id
  | bool b =>
    cases b
    · exact iff_of_false (show "False" ≠ "false" by decide) id
    · exact iff_of_false (show "True" ≠ "true" by decide) id
  | enum printed value => exact Iff.rfl

def numberOf (floats : Json.FloatText) (text : String) : WithBot (WithTop ℚ) :=
  match Json.readNumber floats text.toList with
  | some (.int z) => ((z : ℚ) : WithTop ℚ)
  | some (.num q) => (q : WithTop ℚ)
  | _ =>
    if text = "-Infinity" then ⊥
    else if text = "true" then ((1 : ℚ) : WithTop ℚ)
    else if text = "false" then ((0 : ℚ) : WithTop ℚ)
    else (⊤ : WithTop ℚ)

theorem readNumber_int (floats : Json.FloatText) (z : ℤ) : Json.readNumber floats (Json.intText z) =
    some (.int z) := by
  unfold Json.readNumber
  rw [Json.numberShape_intText]
  show some (Value.int (Json.readInt (Json.intText z))) = _
  rw [Json.readInt_intText]

theorem readNumber_num (floats : Json.FloatText) (q : ℚ) : Json.readNumber floats (floats.text q) =
    some (.num q) := by
  unfold Json.readNumber
  rw [floats.shape_text]
  dsimp only
  rw [floats.parse_text]

theorem readNumber_word {cs : List Char} (h : Json.numberShape cs = none) :
    Json.readNumber floats cs = none := by
  unfold Json.readNumber
  rw [h]

theorem number_eq_numberOf (floats : Json.FloatText) : ∀ {k : Key}, k.isNumber = true →
    k.number = numberOf floats (k.jsonText floats)
  | .int z, _ => by
    rw [numberOf, Key.jsonText, String.toList_ofList, readNumber_int]
    rfl
  | .num q, _ => by
    rw [numberOf, Key.jsonText, String.toList_ofList, readNumber_num]
    rfl
  | .nan, _ | .inf false, _ | .inf true, _ | .bool false, _ | .bool true, _ => by
    rw [numberOf, Key.jsonText, readNumber_word (by decide)]
    rfl
  | .enum _ value, h => number_eq_numberOf floats (k := value) h

theorem content_eq_jsonText (floats : Json.FloatText) : ∀ {k : Key}, k.isText = true → k.content =
    k.jsonText floats
  | .str _, _ => rfl
  | .enum _ value, h => content_eq_jsonText floats (k := value) h

def numberWords : List String := ["nan", "inf", "-inf", "True", "False"]

theorem printed_mem_numberWords {k : Key} (hnumber : k.isNumber = true) (henum : k.isEnum = false)
    (h : ¬ k.Plain floats) : k.printed floats ∈ numberWords := by
  rw [Key.plain_iff] at h
  cases k with
  | str s | none => cases hnumber
  | int z | num q => exact absurd trivial h
  | nan => exact List.mem_cons_self
  | inf negative => cases negative <;> rw [Key.printed] <;> decide
  | bool b => cases b <;> rw [Key.printed] <;> decide
  | enum printed value => cases henum

theorem number_notMem_numberWords {cs : List Char} {v : Value}
    (hread : Json.readNumber floats cs = some v) : String.ofList cs ∉ numberWords := by
  intro hmem
  have hword : ∀ w ∈ numberWords, Json.numberShape w.toList = none := by decide
  have hnone := hword _ hmem
  rw [String.toList_ofList] at hnone
  rw [readNumber_word hnone] at hread
  cases hread

theorem jsonText_notMem_numberWords : ∀ {k : Key}, k.isNumber = true →
    k.jsonText floats ∉ numberWords
  | .int z, _ => by
    rw [Key.jsonText]
    exact number_notMem_numberWords (readNumber_int floats z)
  | .num q, _ => by
    rw [Key.jsonText]
    exact number_notMem_numberWords (readNumber_num floats q)
  | .nan, _ => by rw [Key.jsonText]; decide
  | .inf negative, _ => by cases negative <;> rw [Key.jsonText] <;> decide
  | .bool b, _ => by cases b <;> rw [Key.jsonText] <;> decide
  | .enum _ value, h => jsonText_notMem_numberWords (k := value) h

theorem filter_sortItems {es ds : List (Key × PyValue)} (h : sortItems es = some ds)
    (hplain : ∀ e ∈ es, e.1.Plain floats) (t : String) :
    (ds.filter fun e => e.1.printed floats = t) = es.filter fun e => e.1.printed floats = t := by
  have htext : ∀ a ∈ es, ∀ b ∈ es, a.1.printed floats = t → b.1.printed floats = t →
      a.1.jsonText floats = b.1.jsonText floats := by
    intro a ha b hb hat hbt
    rw [← hplain a ha, ← hplain b hb, hat, hbt]
  unfold sortItems at h
  split_ifs at h with htexts hone hnumbers
  · cases h
    apply StableSort.filter_sortBy
    intro a ha b hb hat hbt
    have hall := List.all_eq_true.1 htexts
    rw [content_eq_jsonText floats (hall a ha), content_eq_jsonText floats (hall b hb)]
    exact htext a ha b hb (of_decide_eq_true hat) (of_decide_eq_true hbt)
  · cases h
    rfl
  · cases h
    apply StableSort.filter_sortBy
    intro a ha b hb hat hbt
    have hall := List.all_eq_true.1 hnumbers
    rw [number_eq_numberOf floats (hall a ha), number_eq_numberOf floats (hall b hb),
      htext a ha b hb (of_decide_eq_true hat) (of_decide_eq_true hbt)]

/-- Every key of every mapping in it is plain, and no dataclass is in it. -/
inductive Survives (floats : Json.FloatText) : PyValue → Prop
  | leaf {v} : v.Leaf → Survives floats v
  | list {xs} : (∀ x ∈ xs, Survives floats x) → Survives floats (.list xs)
  | tuple {xs} : (∀ x ∈ xs, Survives floats x) → Survives floats (.tuple xs)
  | dict {es : List (Key × PyValue)} : (∀ e ∈ es, e.1.Plain floats) →
      (∀ e ∈ es, Survives floats e.2) → Survives floats (.dict es)

def StoredAsHashed (floats : Json.FloatText) (v : PyValue) : Prop :=
  ∀ c b, canonical floats v = some c → encode floats (asDict v) = some b →
    encode floats c = some (Json.ordered b)

theorem storedAsHashed_items {xs ys : List PyValue} {vs : List Value}
    (hys : List.Forall₂ (fun x y => canonical floats x = some y) xs ys)
    (hvs : List.Forall₂ (fun x v => encode floats (asDict x) = some v) xs vs)
    (ih : ∀ x ∈ xs, StoredAsHashed floats x) :
    encodeItems floats ys = some (Json.orderedItems vs) := by
  induction hys generalizing vs with
  | nil =>
    cases hvs
    rfl
  | @cons x y xs ys hxy _ ihs =>
    cases hvs with
    | @cons _ v _ vs hxv hvs =>
      rw [encodeItems, ih x List.mem_cons_self y v hxy hxv,
        ihs hvs fun z hz => ih z (List.mem_cons_of_mem _ hz)]
      rfl

theorem Survives.storedAsHashed {v : PyValue} (h : Survives floats v) :
    StoredAsHashed floats v := by
  induction h with
  | @leaf v hv =>
    intro c b hc hb
    cases v <;> cases hv <;> cases hc <;> cases hb <;> rfl
  | @list xs _ ih | @tuple xs _ ih =>
    intro c b hc hb
    rw [canonical] at hc
    obtain ⟨ys, hys, rfl⟩ := Option.map_eq_some_iff.1 hc
    rw [asDict, encode, asDictItems_eq_map] at hb
    obtain ⟨vs, hvs, rfl⟩ := Option.map_eq_some_iff.1 hb
    rw [encodeItems_eq_some, List.forall₂_map_left_iff] at hvs
    rw [encode, storedAsHashed_items (canonicalItems_eq_some.1 hys) hvs ih]
    rfl
  | @dict es hplain _ ih =>
    intro c b hc hb
    obtain ⟨items, sorted, hitems, hsorted, rfl⟩ := canonical_dict hc
    rw [asDict, encode, asDictEntries_eq_map] at hb
    obtain ⟨fs, hfs, rfl⟩ := Option.map_eq_some_iff.1 hb
    rw [encodeEntries_eq_some, List.forall₂_map_left_iff] at hfs
    let f : PyValue → Value := fun y => (encode floats y).getD .null
    have hitem : ∀ d ∈ items, d.1.Plain floats ∧ encode floats d.2 = some (f d.2) := by
      intro d hd
      obtain ⟨e, he, hkey, hcan⟩ := Pointwise.mem_right hitems hd
      obtain ⟨g, -, -, henc⟩ := Pointwise.mem_left hfs he
      have hval := ih e he d.2 g.2 hcan henc
      refine ⟨hkey ▸ hplain e he, ?_⟩
      simp only [f, hval, Option.getD_some]
    have hmem : ∀ e ∈ (Dict.ofList (sorted.map fun e => (e.1.printed floats, e.2))).entries,
        encode floats e.2 = some (f e.2) := by
      intro e he
      obtain ⟨d, hd, hde⟩ := List.mem_map.1 (Dict.mem_of_get_ofList (Dict.mem_entries.1 he))
      have hval : d.2 = e.2 := congrArg Prod.snd hde
      rw [← hval]
      exact (hitem d ((sortItems_perm hsorted).mem_iff.1 hd)).2
    have hsame : Dict.ofList (sorted.map fun e => (e.1.printed floats, f e.2)) =
        Dict.ofList (items.map fun e => (e.1.printed floats, f e.2)) := by
      apply Dict.ofList_congr
      intro t
      rw [List.filter_map, List.filter_map]
      exact congrArg _ (filter_sortItems hsorted (fun d hd => (hitem d hd).1) t)
    have hstored : (items.map fun e => (e.1.printed floats, f e.2)) =
        fs.map fun g => (g.1, Json.ordered g.2) := by
      apply Pointwise.map_eq hitems hfs
      intro e he d g hd hg
      have hval := ih e he d.2 g.2 hd.2 hg.2
      refine Prod.ext ?_ ?_
      · show d.1.printed floats = g.1
        rw [← hd.1, hplain e he, ← hg.1]
      · simp only [f, hval, Option.getD_some]
    rw [encode_textDict f hmem, List.map_map]
    show some (Value.dict (Dict.ofList (sorted.map fun e => (e.1.printed floats, f e.2))).entries) =
      _
    rw [hsame, hstored, Json.ordered, Json.orderedFields_eq_map]

/-- In no mapping of it are two plain keys written alike, or is what `str` writes for a member
of an enumeration the JSON of a key. -/
inductive Unswapped (floats : Json.FloatText) : PyValue → Prop
  | leaf {v} : v.Leaf → Unswapped floats v
  | record {fields} : Unswapped floats (.record fields)
  | list {xs} : (∀ x ∈ xs, Unswapped floats x) → Unswapped floats (.list xs)
  | tuple {xs} : (∀ x ∈ xs, Unswapped floats x) → Unswapped floats (.tuple xs)
  | dict {es : List (Key × PyValue)} : es.Pairwise (fun e f => e.1.Plain floats → f.1.Plain floats →
        e.1.jsonText floats ≠ f.1.jsonText floats) →
      (∀ e ∈ es, ∀ f ∈ es, e.1.isEnum = true → ¬ e.1.Plain floats →
        f.1.jsonText floats ≠ e.1.printed floats) →
      (∀ e ∈ es, Unswapped floats e.2) → Unswapped floats (.dict es)

theorem printed_ne_jsonText {es items sorted : List (Key × PyValue)}
    (hitems : List.Forall₂ (fun e d => e.1 = d.1 ∧ canonical floats e.2 = some d.2) es items)
    (hsorted : sortItems items = some sorted)
    (henum : ∀ e ∈ es, ∀ f ∈ es, e.1.isEnum = true → ¬ e.1.Plain floats →
      f.1.jsonText floats ≠ e.1.printed floats)
    {e f : Key × PyValue} (he : e ∈ es) (hf : f ∈ es) (hplain : ¬ e.1.Plain floats) :
    f.1.jsonText floats ≠ e.1.printed floats := by
  cases hmember : e.1.isEnum with
  | true => exact henum e he f hf hmember hplain
  | false =>
    obtain ⟨d, hd, hed, -⟩ := Pointwise.mem_left hitems he
    obtain ⟨g, hg, hfg, -⟩ := Pointwise.mem_left hitems hf
    unfold sortItems at hsorted
    split_ifs at hsorted with htexts hone hnumbers
    · -- text that is no member of an enumeration is plain
      have htext := List.all_eq_true.1 htexts d hd
      rw [← hed] at htext
      rw [Key.plain_iff] at hplain
      cases hkey : e.1 with
      | str s =>
        rw [hkey] at hplain
        exact absurd trivial hplain
      | enum printed value =>
        rw [hkey] at hmember
        cases hmember
      | _ =>
        rw [hkey] at htext
        cases htext
    · have hlength : es.length ≤ 1 := hitems.length_eq ▸ hone
      have hsame : f = e := by
        match es, he, hf, hlength with
        | [a], he, hf, _ => rw [List.mem_singleton.1 he, List.mem_singleton.1 hf]
      rw [hsame]
      exact fun heq => hplain heq.symm
    · have hall := List.all_eq_true.1 hnumbers
      intro heq
      have hword := printed_mem_numberWords (hed ▸ hall d hd) hmember hplain
      rw [← heq] at hword
      exact jsonText_notMem_numberWords (hfg ▸ hall g hg) hword

theorem Unswapped.survives_items {xs ys : List PyValue} {vs : List Value}
    (hys : List.Forall₂ (fun x y => canonical floats x = some y) xs ys)
    (hvs : List.Forall₂ (fun x v => encode floats (asDict x) = some v) xs vs)
    (h : encodeItems floats ys = some (Json.orderedItems vs))
    (ih : ∀ x ∈ xs, ∀ c b, canonical floats x = some c → encode floats (asDict x) = some b →
      encode floats c = some (Json.ordered b) → Survives floats x) :
    ∀ x ∈ xs, Survives floats x := by
  induction hys generalizing vs with
  | nil => exact fun x hx => absurd hx List.not_mem_nil
  | @cons x y xs ys hxy _ ihs =>
    cases hvs with
    | @cons _ v _ vs hxv hvs =>
      rw [encodeItems] at h
      split at h
      · rename_i w ws hw hws
        rw [Json.orderedItems] at h
        obtain ⟨rfl, rfl⟩ := List.cons.inj (Option.some.inj h)
        intro z hz
        rcases List.mem_cons.1 hz with rfl | hz
        · exact ih z List.mem_cons_self y v hxy hxv hw
        · exact ihs hvs hws (fun a ha => ih a (List.mem_cons_of_mem _ ha)) z hz
      · cases h

theorem Unswapped.survives {v : PyValue} (h : Unswapped floats v) :
    ∀ c b, canonical floats v = some c → encode floats (asDict v) = some b →
      encode floats c = some (Json.ordered b) → Survives floats v := by
  induction h with
  | leaf hv => exact fun _ _ _ _ _ => .leaf hv
  | record =>
    intro c b hc hb heq
    rw [canonical] at hc
    rw [asDict, encode] at hb
    obtain ⟨fs, -, rfl⟩ := Option.map_eq_some_iff.1 hb
    split at hc <;> cases hc <;> cases heq
  | list _ ih | tuple _ ih =>
    intro c b hc hb heq
    rw [canonical] at hc
    obtain ⟨ys, hys, rfl⟩ := Option.map_eq_some_iff.1 hc
    rw [asDict, encode, asDictItems_eq_map] at hb
    obtain ⟨vs, hvs, rfl⟩ := Option.map_eq_some_iff.1 hb
    rw [encodeItems_eq_some, List.forall₂_map_left_iff] at hvs
    rw [encode] at heq
    obtain ⟨ws, hws, hlist⟩ := Option.map_eq_some_iff.1 heq
    cases hlist
    have hall := Unswapped.survives_items (canonicalItems_eq_some.1 hys) hvs hws ih
    first | exact .list hall | exact .tuple hall
  | @dict es hpairs henum _ ih =>
    intro c b hc hb heq
    obtain ⟨items, sorted, hitems, hsorted, rfl⟩ := canonical_dict hc
    rw [asDict, encode, asDictEntries_eq_map] at hb
    obtain ⟨fs, hfs, rfl⟩ := Option.map_eq_some_iff.1 hb
    rw [encodeEntries_eq_some, List.forall₂_map_left_iff] at hfs
    let f : PyValue → Value := fun y => (encode floats y).getD .null
    let pairs := sorted.map fun e => (e.1.printed floats, e.2)
    have hmem : ∀ e ∈ (Dict.ofList pairs).entries, encode floats e.2 = some (f e.2) := by
      intro e he
      obtain ⟨v, hv⟩ := encode_textDict_mem heq he
      simp only [f, hv, Option.getD_some]
    have hdict : Dict.ofList (pairs.map fun e => (e.1, f e.2)) =
        Dict.ofList (fs.map fun g => (g.1, Json.ordered g.2)) := by
      rw [encode_textDict f hmem, Json.ordered, Json.orderedFields_eq_map] at heq
      have hentries := Value.dict.inj (Option.some.inj heq)
      apply Dict.ext_get
      intro k
      unfold Dict.get
      rw [hentries]
    have hplain : ∀ e ∈ es, e.1.Plain floats := by
      intro e he
      by_contra hnot
      obtain ⟨d, hd, hed, -⟩ := Pointwise.mem_left hitems he
      have hkey : e.1.printed floats ∈ (Dict.ofList (pairs.map fun e => (e.1, f e.2))).keys := by
        rw [Dict.mem_keys_ofList, List.map_map, List.map_map, hed]
        exact List.mem_map_of_mem ((sortItems_perm hsorted).mem_iff.2 hd)
      rw [hdict, Dict.mem_keys_ofList, List.map_map] at hkey
      obtain ⟨g, hg, hgkey⟩ := List.mem_map.1 hkey
      obtain ⟨e', he', hjson, -⟩ := Pointwise.mem_right hfs hg
      exact printed_ne_jsonText hitems hsorted henum he he' hnot (hjson.trans hgkey)
    refine .dict hplain fun e he => ?_
    obtain ⟨d, hd, hed, hcan⟩ := Pointwise.mem_left hitems he
    obtain ⟨g, hg, hjson, henc⟩ := Pointwise.mem_left hfs he
    have hself : List.Forall₂ (fun a b => a = b) es es := List.forall₂_same.2 fun _ _ => rfl
    have hnodup : (es.map fun e => e.1.jsonText floats).Nodup := by
      rw [List.Nodup, List.pairwise_map]
      exact hpairs.imp_of_mem fun ha hb hne => hne (hplain _ ha) (hplain _ hb)
    have hfsKeys : ((fs.map fun g => (g.1, Json.ordered g.2)).map Prod.fst).Nodup := by
      have hkeys : fs.map (fun g => g.1) = es.map fun e => e.1.jsonText floats :=
        Pointwise.map_eq hfs hself fun a _ g b hg hb => hb ▸ hg.1.symm
      rw [List.map_map]
      exact hkeys ▸ hnodup
    have hpairKeys : (pairs.map Prod.fst).Nodup := by
      have hkeys : (items.map fun d => d.1.printed floats) = es.map fun e => e.1.jsonText floats :=
        Pointwise.map_eq hitems hself fun a ha d b hd hb => by
          rw [← hb, ← hd.1, hplain a ha]
      rw [List.map_map]
      exact ((sortItems_perm hsorted).map _).nodup_iff.2 (hkeys ▸ hnodup)
    have hpair : (d.1.printed floats, d.2) ∈ pairs :=
      List.mem_map_of_mem ((sortItems_perm hsorted).mem_iff.2 hd)
    have hhashed : (Dict.ofList (pairs.map fun e => (e.1, f e.2))).get (d.1.printed floats) =
        some (f d.2) := by
      have hkeys : ((pairs.map fun e => (e.1, f e.2)).map Prod.fst).Nodup := by
        rw [List.map_map]
        exact hpairKeys
      rw [Dict.get_ofList hkeys]
      exact Dict.lookup_of_mem_nodup hkeys
        (List.mem_map_of_mem (f := fun e : String × PyValue => (e.1, f e.2)) hpair)
    have hstored : (Dict.ofList (fs.map fun g => (g.1, Json.ordered g.2))).get g.1 =
        some (Json.ordered g.2) := by
      rw [Dict.get_ofList hfsKeys]
      exact Dict.lookup_of_mem_nodup hfsKeys
        (List.mem_map_of_mem (f := fun g : String × Value => (g.1, Json.ordered g.2)) hg)
    have hkey : d.1.printed floats = g.1 := by rw [← hed, hplain e he, ← hjson]
    rw [hdict, hkey, hstored] at hhashed
    apply ih e he d.2 g.2 hcan henc
    rw [Option.some.inj hhashed]
    exact hmem _ ((Dict.mem_ofList hpairKeys).2 hpair)

end Fiboki.Bars
