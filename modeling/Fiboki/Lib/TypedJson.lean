import Fiboki.Lib.PyJson

/-!
Python values with their types, and which of them `json.dumps` and `json.loads` give back as
they were.

A tuple comes back as a list, an instance of a derived class as one of the built-in type, and a
key as text; what has no JSON is refused.
-/

namespace TypedJson

open Json Wire PyJson

/-- A key of a mapping: of a built-in type that the encoder takes, of a class derived from such
a type, a NaN, or of any other type. -/
inductive Key where
  | exact (key : JsonKey)
  | derived (key : JsonKey)
  | nan
  | other

/-- `other` has no JSON, only what `str` makes of it.  A text here has no lone surrogate. -/
inductive Obj where
  | none
  | nan
  | inf (negative : Bool)
  | bool (b : Bool)
  | int (z : ℤ)
  | num (q : ℚ)
  | str (s : String)
  | list (xs : List Obj)
  | tuple (xs : List Obj)
  | dict (es : List (Key × Obj))
  | derived (x : Obj)
  | other (text : String)

def finiteKey : JsonKey → Bool
  | .inf _ => false
  | _ => true

def Key.json (lax : Bool) : Key → Option JsonKey
  | exact k | derived k => if lax || finiteKey k then some k else Option.none
  | nan | other => Option.none

section Encoding

variable (floats : FloatText)

mutual
/-- What `json.dumps(value, sort_keys=True)` writes, `none` where it raises: a lax one has
`default=str` and takes what is not finite, a strict one has `allow_nan=False`. -/
def encode (lax : Bool) : Obj → Option Value
  | .none => some .null
  | .nan => if lax then some .nan else none
  | .inf negative => if lax then some (.inf negative) else none
  | .bool b => some (.bool b)
  | .int z => some (.int z)
  | .num q => some (.num q)
  | .str s => some (.str s)
  | .list xs | .tuple xs => (encodeItems lax xs).map .list
  | .dict es => (encodeFields lax es).bind fun fields => (sortFields floats fields).map .dict
  | .derived x => encode lax x
  | .other text => if lax then some (.str text) else none

def encodeItems (lax : Bool) : List Obj → Option (List Value)
  | [] => some []
  | x :: xs =>
    match encode lax x, encodeItems lax xs with
    | some v, some vs => some (v :: vs)
    | _, _ => none

def encodeFields (lax : Bool) : List (Key × Obj) → Option (List (JsonKey × Value))
  | [] => some []
  | e :: es =>
    match e.1.json lax, encode lax e.2, encodeFields lax es with
    | some k, some v, some vs => some ((k, v) :: vs)
    | _, _, _ => none
end

end Encoding

mutual
/-- What `json.loads` gives. -/
def ofValue : Value → Obj
  | .null => .none
  | .nan => .nan
  | .inf negative => .inf negative
  | .bool b => .bool b
  | .int z => .int z
  | .num q => .num q
  | .str s => .str s
  | .list vs => .list (ofItems vs)
  | .dict es => .dict (ofFields es)

def ofItems : List Value → List Obj
  | [] => []
  | v :: vs => ofValue v :: ofItems vs

def ofFields : List (String × Value) → List (Key × Obj)
  | [] => []
  | e :: es => (.exact (.str e.1), ofValue e.2) :: ofFields es
end

mutual
def Same : Obj → Obj → Prop
  | .nan, _ => False
  | .list xs, y => ∃ ys, y = .list ys ∧ SameItems xs ys
  | .tuple xs, y => ∃ ys, y = .tuple ys ∧ SameItems xs ys
  | .dict es, y => ∃ fs, y = .dict fs ∧ es.length = fs.length ∧ SameFields es fs
  | .derived x, y => ∃ z, y = .derived z ∧ Same x z
  | x, y => y = x

def SameItems : List Obj → List Obj → Prop
  | [], ys => ys = []
  | x :: xs, ys => ∃ z zs, ys = z :: zs ∧ Same x z ∧ SameItems xs zs

def SameFields : List (Key × Obj) → List (Key × Obj) → Prop
  | [], _ => True
  | e :: es, fs => (∃ f ∈ fs, e.1 = f.1 ∧ Same e.2 f.2) ∧ SameFields es fs
end

mutual
def Plain : Obj → Prop
  | .tuple _ | .derived _ => False
  | .list xs => PlainItems xs
  | .dict es => PlainFields es
  | _ => True

def PlainItems : List Obj → Prop
  | [] => True
  | x :: xs => Plain x ∧ PlainItems xs

def PlainFields : List (Key × Obj) → Prop
  | [] => True
  | e :: es => ((∃ s, e.1 = .exact (.str s)) ∧ Plain e.2) ∧ PlainFields es
end

mutual
def Distinct : Obj → Prop
  | .list xs | .tuple xs => DistinctItems xs
  | .dict es => (es.map Prod.fst).Nodup ∧ DistinctFields es
  | .derived x => Distinct x
  | _ => True

def DistinctItems : List Obj → Prop
  | [] => True
  | x :: xs => Distinct x ∧ DistinctItems xs

def DistinctFields : List (Key × Obj) → Prop
  | [] => True
  | e :: es => Distinct e.2 ∧ DistinctFields es
end

theorem ofFields_eq_map (es : List (String × Value)) :
    ofFields es = es.map fun e => (.exact (.str e.1), ofValue e.2) := by
  induction es with
  | nil => rfl
  | cons e es ih => rw [ofFields, ih, List.map_cons]

mutual
theorem plain_of_same : ∀ (x : Obj) (v : Value), Same x (ofValue v) → Plain x
  | .none, _, _ | .nan, _, _ | .inf _, _, _ | .bool _, _, _ | .int _, _, _ | .num _, _, _
  | .str _, _, _ | .other _, _, _ => trivial
  | .tuple xs, v, h => by
    obtain ⟨ys, hys, -⟩ := h
    cases v <;> cases hys
  | .derived x, v, h => by
    obtain ⟨z, hz, -⟩ := h
    cases v <;> cases hz
  | .list xs, v, h => by
    obtain ⟨ys, hys, hitems⟩ := h
    cases v <;> cases hys
    exact plainItems_of_same xs _ hitems
  | .dict es, v, h => by
    obtain ⟨fs, hfs, -, hfields⟩ := h
    cases v <;> cases hfs
    exact plainFields_of_same es _ hfields

theorem plainItems_of_same : ∀ (xs : List Obj) (vs : List Value), SameItems xs (ofItems vs) →
    PlainItems xs
  | [], _, _ => trivial
  | x :: xs, vs, h => by
    obtain ⟨z, zs, hvs, hhead, htail⟩ := h
    cases vs with
    | nil => cases hvs
    | cons v vs =>
      cases hvs
      exact ⟨plain_of_same x v hhead, plainItems_of_same xs vs htail⟩

theorem plainFields_of_same : ∀ (es : List (Key × Obj)) (fs : List (String × Value)),
    SameFields es (ofFields fs) → PlainFields es
  | [], _, _ => trivial
  | e :: es, fs, h => by
    obtain ⟨⟨f, hf, hkey, hvalue⟩, htail⟩ := h
    rw [ofFields_eq_map] at hf
    obtain ⟨g, -, rfl⟩ := List.mem_map.1 hf
    exact ⟨⟨⟨g.1, hkey⟩, plain_of_same e.2 g.2 hvalue⟩, plainFields_of_same es fs htail⟩
end

section Reading

variable {floats : FloatText}

variable {lax : Bool}

variable {x : Obj}

theorem encodeItems_cons {xs : List Obj} {vs : List Value}
    (h : encodeItems floats lax (x :: xs) = some vs) :
    ∃ v rest, vs = v :: rest ∧ encode floats lax x = some v ∧
      encodeItems floats lax xs = some rest := by
  rw [encodeItems] at h
  split at h
  · rename_i v rest hv hrest
    cases h
    exact ⟨v, rest, rfl, hv, hrest⟩
  · cases h

variable {es : List (Key × Obj)}

variable {fields : List (JsonKey × Value)}

theorem encodeFields_cons {e : Key × Obj} (h : encodeFields floats lax (e :: es) = some fields) :
    ∃ k v rest, fields = (k, v) :: rest ∧ e.1.json lax = some k ∧
      encode floats lax e.2 = some v ∧ encodeFields floats lax es = some rest := by
  rw [encodeFields] at h
  split at h
  · rename_i k v rest hk hv hrest
    cases h
    exact ⟨k, v, rest, rfl, hk, hv, hrest⟩
  · cases h

theorem encodeFields_text (h : encodeFields floats lax es = some fields)
    (hkeys : ∀ e ∈ es, ∃ s, e.1 = .exact (.str s)) :
    ∃ vs : List (String × Value), fields = keyed vs ∧ List.Forall₂
      (fun e f => e.1 = .exact (.str f.1) ∧ encode floats lax e.2 = some f.2) es vs := by
  induction es generalizing fields with
  | nil =>
    cases h
    exact ⟨[], rfl, .nil⟩
  | cons e es ih =>
    obtain ⟨k, v, rest, rfl, hk, hv, hrest⟩ := encodeFields_cons h
    obtain ⟨s, hs⟩ := hkeys e List.mem_cons_self
    obtain ⟨vs, rfl, hvs⟩ := ih hrest fun d hd => hkeys d (List.mem_cons_of_mem _ hd)
    have hkey : k = .str s := by
      rw [hs] at hk
      simpa [Key.json, finiteKey] using hk.symm
    exact ⟨(s, v) :: vs, by rw [hkey]; rfl, .cons ⟨hs, hv⟩ hvs⟩

theorem PlainFields.keys (h : PlainFields es) : ∀ e ∈ es, ∃ s, e.1 = .exact (.str s) := by
  induction es with
  | nil => exact fun e he => absurd he List.not_mem_nil
  | cons d es ih =>
    intro e he
    rcases List.mem_cons.1 he with rfl | he
    · exact h.1.1
    · exact ih h.2 e he

variable {vs : List (String × Value)}

theorem nodup_fields (hvs : List.Forall₂ (fun e f => e.1 = .exact (.str f.1) ∧
      encode floats lax e.2 = some f.2) es vs) (hnodup : (es.map Prod.fst).Nodup) :
    (vs.map Prod.fst).Nodup := by
  have hkeys : es.map Prod.fst = (vs.map Prod.fst).map fun s => Key.exact (.str s) := by
    clear hnodup
    induction hvs with
    | nil => rfl
    | cons hhead _ ih => rw [List.map_cons, List.map_cons, List.map_cons, ih, hhead.1]
  rw [hkeys] at hnodup
  exact hnodup.of_map _

theorem length_ofList (h : (vs.map Prod.fst).Nodup) :
    (Dict.ofList vs).entries.length = vs.length := by
  have hperm : (Dict.ofList vs).entries.Perm vs :=
    (List.perm_ext_iff_of_nodup (Dict.nodup_keys _).of_map h.of_map).2
      fun e => Dict.mem_ofList h
  exact hperm.length_eq

theorem ordered_ofList (vs : List (String × Value)) :
    ordered (.dict (Dict.ofList vs).entries) = .dict ((Dict.ofList vs).map ordered).entries := by
  have hfields : orderedFields (Dict.ofList vs).entries =
    ((Dict.ofList vs).map ordered).entries := by
    rw [orderedFields_eq_map]
    rfl
  rw [ordered, hfields, Dict.ofList_entries]

theorem ofValue_ordered_dict (vs : List (String × Value)) :
    ofValue (ordered (.dict (Dict.ofList vs).entries)) =
      .dict ((Dict.ofList vs).entries.map fun e => (.exact (.str e.1), ofValue (ordered e.2))) := by
  rw [ordered_ofList, ofValue, ofFields_eq_map]
  show Obj.dict (((Dict.ofList vs).entries.map fun e => (e.1, ordered e.2)).map _) = _
  rw [List.map_map]
  rfl

mutual
theorem same_read : ∀ (x : Obj) (v : Value), encode floats false x = some v → Plain x →
    Distinct x → Same x (ofValue (ordered v))
  | .none, v, h, _, _ | .bool _, v, h, _, _ | .int _, v, h, _, _ | .num _, v, h, _, _
  | .str _, v, h, _, _ => by
    cases h
    rfl
  | .nan, v, h, _, _ | .inf _, v, h, _, _ | .other _, v, h, _, _ => by cases h
  | .tuple _, _, _, h, _ | .derived _, _, _, h, _ => h.elim
  | .list xs, v, h, hplain, hdistinct => by
    rw [encode, Option.map_eq_some_iff] at h
    obtain ⟨vs, hvs, rfl⟩ := h
    exact ⟨_, rfl, sameItems_read xs vs hvs hplain hdistinct⟩
  | .dict es, v, h, hplain, hdistinct => by
    rw [encode, Option.bind_eq_some_iff] at h
    obtain ⟨fields, hfields, h⟩ := h
    obtain ⟨vs, rfl, hvs⟩ := encodeFields_text hfields hplain.keys
    rw [sortFields, stringKeys_keyed] at h
    cases h
    have hnodup := nodup_fields hvs hdistinct.1
    refine ⟨_, ofValue_ordered_dict vs, ?_, sameFields_read es vs _ hvs hplain hdistinct.2 ?_⟩
    · rw [List.length_map, length_ofList hnodup, hvs.length_eq]
    · exact fun f hf => List.mem_map.2 ⟨f, (Dict.mem_ofList hnodup).2 hf, rfl⟩

theorem sameItems_read : ∀ (xs : List Obj) (vs : List Value),
    encodeItems floats false xs = some vs → PlainItems xs → DistinctItems xs →
      SameItems xs (ofItems (orderedItems vs))
  | [], vs, h, _, _ => by
    cases h
    rfl
  | x :: xs, vs, h, hplain, hdistinct => by
    obtain ⟨v, rest, rfl, hv, hrest⟩ := encodeItems_cons h
    exact ⟨_, _, rfl, same_read x v hv hplain.1 hdistinct.1,
      sameItems_read xs rest hrest hplain.2 hdistinct.2⟩

theorem sameFields_read : ∀ (es : List (Key × Obj)) (vs : List (String × Value))
    (fs : List (Key × Obj)), List.Forall₂ (fun e f => e.1 = .exact (.str f.1) ∧
      encode floats false e.2 = some f.2) es vs → PlainFields es → DistinctFields es →
      (∀ f ∈ vs, (Key.exact (.str f.1), ofValue (ordered f.2)) ∈ fs) → SameFields es fs
  | [], _, _, _, _, _, _ => trivial
  | e :: es, vs, fs, hvs, hplain, hdistinct, hmem => by
    cases hvs with
    | @cons _ f _ vs hhead htail =>
      refine ⟨⟨_, hmem f List.mem_cons_self, hhead.1, ?_⟩, ?_⟩
      · exact same_read e.2 f.2 hhead.2 hplain.1.2 hdistinct.1
      · exact sameFields_read es vs fs htail hplain.2 hdistinct.2
          fun g hg => hmem g (List.mem_cons_of_mem _ hg)
end

variable {v : Value}

theorem same_iff_plain (h : encode floats false x = some v)
    (hdistinct : Distinct x) : Same x (ofValue (ordered v)) ↔ Plain x :=
  ⟨plain_of_same x (ordered v), fun hplain => same_read x v h hplain hdistinct⟩

theorem Key.json_lax {key : Key} {k : JsonKey} (h : key.json false = some k) :
    key.json true = some k := by
  cases key <;> simp [Key.json] at h ⊢
  all_goals exact h.2

mutual
theorem encode_lax : ∀ (x : Obj) (v : Value), encode floats false x = some v →
    encode floats true x = some v
  | .none, v, h | .bool _, v, h | .int _, v, h | .num _, v, h | .str _, v, h => h
  | .nan, v, h | .inf _, v, h | .other _, v, h => by cases h
  | .derived x, v, h => encode_lax x v h
  | .list xs, v, h | .tuple xs, v, h => by
    rw [encode, Option.map_eq_some_iff] at h
    obtain ⟨vs, hvs, rfl⟩ := h
    rw [encode, encodeItems_lax xs vs hvs]
    rfl
  | .dict es, v, h => by
    rw [encode, Option.bind_eq_some_iff] at h
    obtain ⟨fields, hfields, h⟩ := h
    rw [encode, encodeFields_lax es fields hfields]
    exact h

theorem encodeItems_lax : ∀ (xs : List Obj) (vs : List Value),
    encodeItems floats false xs = some vs → encodeItems floats true xs = some vs
  | [], vs, h => h
  | x :: xs, vs, h => by
    obtain ⟨v, rest, rfl, hv, hrest⟩ := encodeItems_cons h
    rw [encodeItems, encode_lax x v hv, encodeItems_lax xs rest hrest]

theorem encodeFields_lax : ∀ (es : List (Key × Obj)) (fields : List (JsonKey × Value)),
    encodeFields floats false es = some fields → encodeFields floats true es = some fields
  | [], fields, h => h
  | e :: es, fields, h => by
    obtain ⟨k, v, rest, rfl, hk, hv, hrest⟩ := encodeFields_cons h
    rw [encodeFields, Key.json_lax hk, encode_lax e.2 v hv, encodeFields_lax es rest hrest]
end

def textKeyed (es : List (String × Obj)) : Obj := .dict (es.map fun e => (.exact (.str e.1), e.2))

theorem encode_textKeyed {es : List (String × Obj)}
    (h : encode floats lax (textKeyed es) = some v) :
    ∃ vs : List (String × Value), v = .dict (Dict.ofList vs).entries ∧
      List.Forall₂ (fun e f => e.1 = f.1 ∧ encode floats lax e.2 = some f.2) es vs := by
  rw [textKeyed, encode, Option.bind_eq_some_iff] at h
  obtain ⟨fields, hfields, h⟩ := h
  have hkeys : ∀ e ∈ es.map fun e => (Key.exact (.str e.1), e.2), ∃ s, e.1 =
    Key.exact (.str s) := by
    intro e he
    obtain ⟨d, -, rfl⟩ := List.mem_map.1 he
    exact ⟨d.1, rfl⟩
  obtain ⟨vs, rfl, hvs⟩ := encodeFields_text hfields hkeys
  rw [sortFields, stringKeys_keyed] at h
  cases h
  refine ⟨vs, rfl, (List.forall₂_map_left_iff.1 hvs).imp fun e f hef => ⟨?_, hef.2⟩⟩
  simpa using hef.1

theorem get?_read {es : List (String × Obj)} {v w : Value} {k : String}
    (h : encode floats lax (textKeyed es) = some v) (hnodup : (es.map Prod.fst).Nodup)
    (hmem : (k, x) ∈ es) (hx : encode floats lax x = some w) :
    (ordered v).get? k = some (ordered w) := by
  obtain ⟨vs, rfl, hvs⟩ := encode_textKeyed h
  have hkeys : es.map Prod.fst = vs.map Prod.fst := by
    clear h hnodup hmem
    induction hvs with
    | nil => rfl
    | cons hhead _ ih => rw [List.map_cons, List.map_cons, ih, hhead.1]
  obtain ⟨f, hf, hkey, hvalue⟩ := exists_of_forall₂ hvs hmem
  have hfw : f = (k, w) := Prod.ext hkey.symm (Option.some.inj (hvalue.symm.trans hx))
  rw [hkeys] at hnodup
  have hget : (Dict.ofList vs).get k = some w := by
    rw [Dict.get_ofList hnodup]
    exact Dict.lookup_of_mem_nodup hnodup (hfw ▸ hf)
  rw [ordered_ofList]
  show ((Dict.ofList vs).map ordered).get k = _
  rw [Dict.get_map, hget]
  rfl

end Reading

end TypedJson
