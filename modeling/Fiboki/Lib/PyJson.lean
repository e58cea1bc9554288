import Fiboki.Lib.JsonAscii
import Fiboki.Lib.StableSort

/-!
`json.dumps` of live Python values: mappings whose keys need not be text, and objects that
have no JSON of their own.

The keys of a mapping are sorted as the values they are and turned into text after that.
-/

namespace PyJson

open Json Wire

/-- A key that the encoder accepts. A NaN, which no sort puts anywhere, is not among them. -/
inductive JsonKey where
  | str (s : String)
  | int (z : ℤ)
  | num (q : ℚ)
  | inf (negative : Bool)
  | bool (b : Bool)
  | none
  deriving DecidableEq

/-- A value handed to the encoder; `other` has no JSON, only what `str` makes of it. -/
inductive Raw where
  | none
  | nan
  | inf (negative : Bool)
  | bool (b : Bool)
  | int (z : ℤ)
  | num (q : ℚ)
  | str (s : String)
  | list (xs : List Raw)
  | dict (es : List (JsonKey × Raw))
  | other (text : String)

def JsonKey.number : JsonKey → Option (WithBot (WithTop ℚ))
  | int z => some ((z : ℚ) : WithTop ℚ)
  | num q => some (q : WithTop ℚ)
  | inf negative => some (if negative then ⊥ else (⊤ : WithTop ℚ))
  | bool b => some ((if b then 1 else 0 : ℚ) : WithTop ℚ)
  | str _ | none => Option.none

section Encoding

variable (floats : FloatText)

def JsonKey.text : JsonKey → String
  | str s => s
  | int z => String.ofList (intText z)
  | num q => String.ofList (floats.text q)
  | inf negative => if negative then "-Infinity" else "Infinity"
  | bool b => if b then "true" else "false"
  | none => "null"

def stringKeys : List (JsonKey × Value) → Option (List (String × Value))
  | [] => some []
  | (.str s, v) :: rest => (stringKeys rest).map fun es => (s, v) :: es
  | _ :: _ => none

def numberKeys : List (JsonKey × Value) → Option (List (WithBot (WithTop ℚ) × String × Value))
  | [] => some []
  | (k, v) :: rest =>
    match k.number, numberKeys rest with
    | some n, some es => some ((n, k.text floats, v) :: es)
    | _, _ => none

/-- `sorted(dct.items())`, whose keys are distinct: all text, or all numbers, or one. -/
def sortFields (fields : List (JsonKey × Value)) : Option (List (String × Value)) :=
  match stringKeys fields with
  | some es => some (Dict.ofList es).entries
  | none =>
    if fields.length ≤ 1 then some (fields.map fun e => (e.1.text floats, e.2))
    else (numberKeys floats fields).map fun es => (StableSort.sortBy Prod.fst es).map Prod.snd

mutual
/-- The JSON value that `json.dumps(raw, sort_keys=True)` writes, with or without
`default=str`; `none` where it raises. -/
def encode (default : Bool) : Raw → Option Value
  | .none => some .null
  | .nan => some .nan
  | .inf negative => some (.inf negative)
  | .bool b => some (.bool b)
  | .int z => some (.int z)
  | .num q => some (.num q)
  | .str s => some (.str s)
  | .list xs => (encodeItems default xs).map .list
  | .dict es => (encodeFields default es).bind fun fields => (sortFields floats fields).map .dict
  | .other text => if default then some (.str text) else none

def encodeItems (default : Bool) : List Raw → Option (List Value)
  | [] => some []
  | x :: xs =>
    match encode default x, encodeItems default xs with
    | some v, some vs => some (v :: vs)
    | _, _ => none

def encodeFields (default : Bool) : List (JsonKey × Raw) → Option (List (JsonKey × Value))
  | [] => some []
  | e :: es =>
    match encode default e.2, encodeFields default es with
    | some v, some vs => some ((e.1, v) :: vs)
    | _, _ => none
end

/-- `json.dumps(raw, sort_keys=True, separators=(",", ":"))`. -/
def dumps (default : Bool) (raw : Raw) : Option (List Char) :=
  (encode floats default raw).map fun v => write floats (compact Escape.ascii) 0 v

end Encoding

section Default

variable {floats : FloatText}

mutual
theorem encode_default : ∀ (raw : Raw) (v : Value), encode floats false raw = some v →
    encode floats true raw = some v
  | .none, v, h | .nan, v, h | .inf _, v, h | .bool _, v, h | .int _, v, h | .num _, v, h
  | .str _, v, h => h
  | .list xs, v, h => by
    rw [encode, Option.map_eq_some_iff] at h
    obtain ⟨vs, hvs, rfl⟩ := h
    rw [encode, encodeItems_default xs vs hvs]
    rfl
  | .dict es, v, h => by
    rw [encode, Option.bind_eq_some_iff] at h
    obtain ⟨fields, hfields, h⟩ := h
    rw [encode, encodeFields_default es fields hfields]
    exact h
  | .other text, v, h => by
    rw [encode] at h
    cases h

theorem encodeItems_default : ∀ (xs : List Raw) (vs : List Value),
    encodeItems floats false xs = some vs → encodeItems floats true xs = some vs
  | [], vs, h => h
  | x :: xs, vs, h => by
    rw [encodeItems] at h
    split at h
    · rename_i v rest hv hrest
      cases h
      rw [encodeItems, encode_default x v hv, encodeItems_default xs rest hrest]
    · cases h

theorem encodeFields_default : ∀ (es : List (JsonKey × Raw)) (vs : List (JsonKey × Value)),
    encodeFields floats false es = some vs → encodeFields floats true es = some vs
  | [], vs, h => h
  | e :: es, vs, h => by
    rw [encodeFields] at h
    split at h
    · rename_i v rest hv hrest
      cases h
      rw [encodeFields, encode_default e.2 v hv, encodeFields_default es rest hrest]
    · cases h
end

end Default

section Keyed

variable {floats : FloatText} {default : Bool}

def keyed {α : Type} (es : List (String × α)) : List (JsonKey × α) :=
  es.map fun e => (JsonKey.str e.1, e.2)

theorem stringKeys_keyed (es : List (String × Value)) : stringKeys (keyed es) = some es := by
  induction es with
  | nil => rfl
  | cons e es ih =>
    have htail : stringKeys (keyed (e :: es)) = (stringKeys (keyed es)).map fun es =>
      (e.1, e.2) :: es :=
      rfl
    rw [htail, ih]
    rfl

def Encoded (floats : FloatText) (default : Bool) (es : List (String × Raw))
    (fields : List (String × Value)) : Prop :=
  List.Forall₂ (fun e f => e.1 = f.1 ∧ encode floats default e.2 = some f.2) es fields

variable {es : List (String × Raw)}

theorem encodeFields_keyed {fields : List (JsonKey × Value)} :
    encodeFields floats default (keyed es) = some fields ↔
      ∃ vs, fields = keyed vs ∧ Encoded floats default es vs := by
  induction es generalizing fields with
  | nil =>
    constructor
    · intro h
      cases h
      exact ⟨[], rfl, .nil⟩
    · rintro ⟨vs, rfl, hvs⟩
      cases hvs
      rfl
  | cons e es ih =>
    have hcons : keyed (e :: es) = (JsonKey.str e.1, e.2) :: keyed es := rfl
    rw [hcons, encodeFields]
    constructor
    · intro h
      split at h
      · rename_i v rest hv hrest
        cases h
        obtain ⟨vs, rfl, hvs⟩ := ih.1 hrest
        exact ⟨(e.1, v) :: vs, rfl, .cons ⟨rfl, hv⟩ hvs⟩
      · cases h
    · rintro ⟨vs, rfl, hvs⟩
      cases hvs with
      | @cons _ f _ fs hhead htail =>
        rw [hhead.2, ih.2 ⟨fs, rfl, htail⟩]
        show some _ = some ((JsonKey.str f.1, f.2) :: keyed fs)
        rw [hhead.1]

theorem encode_keyed {v : Value} : encode floats default (.dict (keyed es)) = some v ↔
      ∃ vs, Encoded floats default es vs ∧ v = .dict (Dict.ofList vs).entries := by
  rw [encode, Option.bind_eq_some_iff]
  constructor
  · rintro ⟨fields, hfields, h⟩
    obtain ⟨vs, rfl, hvs⟩ := encodeFields_keyed.1 hfields
    rw [sortFields, stringKeys_keyed] at h
    cases h
    exact ⟨vs, hvs, rfl⟩
  · rintro ⟨vs, hvs, rfl⟩
    refine ⟨keyed vs, encodeFields_keyed.2 ⟨vs, rfl, hvs⟩, ?_⟩
    rw [sortFields, stringKeys_keyed]
    rfl

variable {vs : List (String × Value)}

theorem Encoded.keys (h : Encoded floats default es vs) : es.map Prod.fst = vs.map Prod.fst := by
  induction h with
  | nil => rfl
  | cons hhead _ ih => rw [List.map_cons, List.map_cons, hhead.1, ih]

theorem exists_of_forall₂ {α β : Type} {R : α → β → Prop} {xs : List α} {ys : List β}
    (h : List.Forall₂ R xs ys) {x : α} (hx : x ∈ xs) : ∃ y ∈ ys, R x y := by
  induction h with
  | nil => cases hx
  | @cons a b xs ys hhead _ ih =>
    rcases List.mem_cons.1 hx with rfl | hx
    · exact ⟨b, List.mem_cons_self, hhead⟩
    · obtain ⟨y, hy, hR⟩ := ih hx
      exact ⟨y, List.mem_cons_of_mem _ hy, hR⟩

theorem Encoded.mem (h : Encoded floats default es vs) {f : String × Value} (hf : f ∈ vs) :
    ∃ e ∈ es, encode floats default e.2 = some f.2 := by
  obtain ⟨e, he, -, henc⟩ := exists_of_forall₂ h.flip hf
  exact ⟨e, he, henc⟩

variable {k : String}

theorem Encoded.get (h : Encoded floats default es vs) (hnodup : (es.map Prod.fst).Nodup)
    {raw : Raw}
    (hmem : (k, raw) ∈ es) :
    ∃ v, encode floats default raw = some v ∧ (Dict.ofList vs).get k = some v := by
  have hnodup' : (vs.map Prod.fst).Nodup := h.keys ▸ hnodup
  have hfield : ∃ v, encode floats default raw = some v ∧ (k, v) ∈ vs := by
    clear hnodup hnodup'
    induction h with
    | nil => cases hmem
    | @cons e f es fs hhead _ ih =>
      rcases List.mem_cons.1 hmem with rfl | hmem
      · refine ⟨f.2, hhead.2, ?_⟩
        have hkey : f = (k, f.2) := Prod.ext hhead.1.symm rfl
        rw [← hkey]
        exact List.mem_cons_self
      · obtain ⟨v, hv, hin⟩ := ih hmem
        exact ⟨v, hv, List.mem_cons_of_mem _ hin⟩
  obtain ⟨v, hv, hin⟩ := hfield
  refine ⟨v, hv, ?_⟩
  rw [Dict.get_ofList hnodup', Dict.lookup_of_mem_nodup hnodup' hin]

theorem Encoded.get_none (h : Encoded floats default es vs)
    (hk : k ∉ es.map Prod.fst) : (Dict.ofList vs).get k = none := by
  rw [h.keys] at hk
  cases hget : (Dict.ofList vs).get k with
  | none => rfl
  | some v => exact absurd (List.mem_map_of_mem (Dict.mem_of_get_ofList hget)) hk

theorem encode_keyed_isSome : (encode floats default (.dict (keyed es))).isSome ↔
      ∀ e ∈ es, (encode floats default e.2).isSome := by
  constructor
  · intro h e he
    obtain ⟨v, hv⟩ := Option.isSome_iff_exists.1 h
    obtain ⟨vs, hvs, -⟩ := encode_keyed.1 hv
    clear h hv
    induction hvs with
    | nil => cases he
    | @cons d f es fs hhead _ ih =>
      rcases List.mem_cons.1 he with rfl | he
      · rw [hhead.2]
        rfl
      · exact ih he
  · intro h
    have hvs : ∃ vs, Encoded floats default es vs := by
      induction es with
      | nil => exact ⟨[], .nil⟩
      | cons e es ih =>
        obtain ⟨v, hv⟩ := Option.isSome_iff_exists.1 (h e List.mem_cons_self)
        obtain ⟨vs, hvs⟩ := ih fun d hd => h d (List.mem_cons_of_mem _ hd)
        exact ⟨(e.1, v) :: vs, .cons ⟨rfl, hv⟩ hvs⟩
    obtain ⟨vs, hvs⟩ := hvs
    rw [encode_keyed.2 ⟨vs, hvs, rfl⟩]
    rfl

theorem encode_keyed_congr {es fs : List (String × Raw)} (h : List.Forall₂ (fun e f => e.1 = f.1 ∧
      encode floats default e.2 = encode floats default f.2) es fs) :
    encode floats default (.dict (keyed es)) = encode floats default (.dict (keyed fs)) := by
  have hfields : encodeFields floats default (keyed es) =
    encodeFields floats default (keyed fs) := by
    induction h with
    | nil => rfl
    | @cons e f es fs hhead _ ih =>
      show encodeFields floats default ((JsonKey.str e.1, e.2) :: keyed es) =
        encodeFields floats default ((JsonKey.str f.1, f.2) :: keyed fs)
      rw [encodeFields, encodeFields, hhead.1, hhead.2, ih]
  rw [encode, encode, hfields]

end Keyed

end PyJson
