import Fiboki.Lib.PyJson

/-!
`json.dumps(dict(x), sort_keys=True, default=str)` of any value a Python function can return, and
what stops it: a value inside itself, keys that have no order or no text, a nesting or a number
beyond what the interpreter takes, an object that has no text.
-/

namespace LiveJson

open Json Wire PyJson

/-- What is raised, by its class; `own` by an object's own code. -/
inductive Failure where
  | typeError
  | valueError
  | overflowError
  | recursionError
  | unicodeEncodeError
  | own (typeName : String)

/-- A key of a mapping: one the encoder accepts, a NaN, or any other object. -/
inductive LiveKey where
  | json (k : JsonKey)
  | nan
  | foreign (text : Except Failure String)

/-- A value as it is in memory. `list` is a list or a tuple, `other` an object that the encoder
knows nothing of, with what `str` does to it, and `enclosing` a container that this place is inside
of. -/
inductive Live where
  | none
  | nan
  | inf (negative : Bool)
  | bool (b : Bool)
  | int (z : ℤ)
  | num (q : ℚ)
  | str (s : String)
  | list (xs : List Live)
  | dict (es : List (LiveKey × Live))
  | other (text : Except Failure String)
  | enclosing

/-- What a function returned: one of these values, or any other object, a sequence that holds
such objects included, with what `dict` makes of it. -/
inductive Returned where
  | value (x : Live)
  | object (asDict : Except Failure (List (LiveKey × Live)))

/-- How deep the interpreter nests when it writes JSON and when it reads it, the digits of the
longest number it turns into text, the text of a float, and where a sort leaves keys that a NaN is
among. -/
structure Interpreter where
  encodeDepth : ℕ
  decodeDepth : ℕ
  intDigits : ℕ
  floats : FloatText
  sortNan : {α : Type} → List (LiveKey × α) → List (LiveKey × α)
  sortNan_perm : ∀ {α : Type} (es : List (LiveKey × α)), (sortNan es).Perm es

variable (py : Interpreter)

/-- `int.__repr__` takes the number. -/
def Interpreter.prints (z : ℤ) : Bool := z.natAbs < 10 ^ py.intDigits

def LiveKey.toLive : LiveKey → Live
  | json (.str s) => .str s
  | json (.int z) => .int z
  | json (.num q) => .num q
  | json (.inf negative) => .inf negative
  | json (.bool b) => .bool b
  | json .none => .none
  | nan => .nan
  | foreign text => .other text

def asKey : Live → Except Failure LiveKey
  | .str s => .ok (.json (.str s))
  | .int z => .ok (.json (.int z))
  | .num q => .ok (.json (.num q))
  | .inf negative => .ok (.json (.inf negative))
  | .bool b => .ok (.json (.bool b))
  | .none => .ok (.json .none)
  | .nan => .ok .nan
  | .other text => .ok (.foreign text)
  | .list _ | .dict _ | .enclosing => .error .typeError

/-- An element of a sequence that `dict` is given. -/
def asPair : Live → Except Failure (LiveKey × Live)
  | .list [k, x] => (asKey k).map fun key => (key, x)
  | .dict [(k, _), (k', _)] => .ok (k, k'.toLive)
  | .str s =>
    match s.toList with
    | [c, d] => .ok (.json (.str c.toString), .str d.toString)
    | _ => .error .valueError
  | .list _ | .dict _ => .error .valueError
  | _ => .error .typeError

def LiveKey.same : LiveKey → LiveKey → Bool
  | json k, json k' => k = k' || (k.number.isSome && k.number = k'.number)
  | _, _ => false

def putPair (es : List (LiveKey × Live)) (e : LiveKey × Live) : List (LiveKey × Live) :=
  if es.any fun e' => e'.1.same e.1 then
    es.map fun e' => if e'.1.same e.1 then (e'.1, e.2) else e'
  else es ++ [e]

def dictOfPairs : List (LiveKey × Live) → List Live → Except Failure (List (LiveKey × Live))
  | es, [] => .ok es
  | es, x :: xs => (asPair x).bind fun e => dictOfPairs (putPair es e) xs

/-- `dict(x)`. -/
def dictOf : Returned → Except Failure (List (LiveKey × Live))
  | .value (.dict es) => .ok es
  | .value (.list xs) => dictOfPairs [] xs
  | .value (.str s) => if s = "" then .ok [] else .error .valueError
  | .value _ => .error .typeError
  | .object asDict => asDict

inductive KeyKind where
  | text
  | number
  | none
  | foreign
  deriving DecidableEq

def LiveKey.kind : LiveKey → KeyKind
  | json (.str _) => .text
  | json .none => .none
  | json _ | nan => .number
  | foreign _ => .foreign

def oneKind (keys : List LiveKey) : Bool := keys.all fun k => keys.all fun k' => k.kind = k'.kind

def LiveKey.name : LiveKey → String
  | json (.str s) => s
  | _ => ""

def LiveKey.rank : LiveKey → WithBot (WithTop ℚ)
  | json k => k.number.getD ⊥
  | _ => ⊥

def LiveKey.isNan : LiveKey → Bool
  | nan => true
  | _ => false

/-- `sorted(dct.items())` of distinct keys of one kind. -/
def ordered {α : Type} (es : List (LiveKey × α)) : List (LiveKey × α) :=
  if es.any fun e => e.1.isNan then py.sortNan es
  else if es.all fun e => e.1.kind = .text then StableSort.sortBy (fun e => e.1.name) es
  else StableSort.sortBy (fun e => e.1.rank) es

def keyText : LiveKey → Except Failure String
  | .json (.int z) => if py.prints z then .ok (JsonKey.text py.floats (.int z))
      else .error .valueError
  | .json k => .ok (k.text py.floats)
  | .nan => .ok "NaN"
  | .foreign _ => .error .typeError

def writeEntries : List (LiveKey × Except Failure Value) → Except Failure (List (String × Value))
  | [] => .ok []
  | (k, r) :: rest => do
    let key ← keyText py k
    let v ← r
    let fields ← writeEntries rest
    return (key, v) :: fields

def writeMapping (fields : List (LiveKey × Except Failure Value)) : Except Failure Value :=
  if oneKind (fields.map Prod.fst) then (writeEntries py (ordered py fields)).map .dict
  else .error .typeError

mutual
/-- The JSON value of a live one, with `room` levels left to nest. -/
def encode : ℕ → Live → Except Failure Value
  | _, .none => .ok .null
  | _, .nan => .ok .nan
  | _, .inf negative => .ok (.inf negative)
  | _, .bool b => .ok (.bool b)
  | _, .int z => if py.prints z then .ok (.int z) else .error .valueError
  | _, .num q => .ok (.num q)
  | _, .str s => .ok (.str s)
  | 0, .list _ => .error .recursionError
  | room + 1, .list xs => (encodeItems room xs).map .list
  | 0, .dict _ => .error .recursionError
  | room + 1, .dict es => writeMapping py (encodeFields room es)
  | room, .other text => text.bind fun s => if room = 0 then .error .recursionError
      else .ok (.str s)
  | _, .enclosing => .error .valueError

def encodeItems : ℕ → List Live → Except Failure (List Value)
  | _, [] => .ok []
  | room, x :: xs => do
    let v ← encode room x
    let vs ← encodeItems room xs
    return v :: vs

def encodeFields : ℕ → List (LiveKey × Live) → List (LiveKey × Except Failure Value)
  | _, [] => []
  | room, (k, x) :: es => (k, encode room x) :: encodeFields room es
end

mutual
/-- `json.loads` gets to the bottom of a value, with `room` levels left. -/
def fits : ℕ → Value → Bool
  | 0, .list _ => false
  | room + 1, .list xs => fitsItems room xs
  | 0, .dict _ => false
  | room + 1, .dict es => fitsFields room es
  | _, _ => true

def fitsItems : ℕ → List Value → Bool
  | _, [] => true
  | room, x :: xs => fits room x && fitsItems room xs

def fitsFields : ℕ → List (String × Value) → Bool
  | _, [] => true
  | room, (_, v) :: es => fits room v && fitsFields room es
end

/-- `json.dumps(dict(x), sort_keys=True, default=str, separators=(",", ":"))`, as the value that is
written. -/
def dumps (x : Returned) : Except Failure Value := do
  let es ← dictOf x
  encode py py.encodeDepth (.dict es)

/-- The text, which `json.loads` reads back. -/
def dumpsLoads (x : Returned) : Except Failure String := do
  let v ← dumps py x
  if fits py.decodeDepth v then
    return String.ofList (write py.floats (compact Escape.ascii) 0 v)
  else .error .recursionError

mutual
def parts : ℕ → Live → List (ℕ × Live)
  | d, .list xs => (d, .list xs) :: partsItems (d + 1) xs
  | d, .dict es => (d, .dict es) :: partsFields (d + 1) es
  | d, x => [(d, x)]

def partsItems : ℕ → List Live → List (ℕ × Live)
  | _, [] => []
  | d, x :: xs => parts d x ++ partsItems d xs

def partsFields : ℕ → List (LiveKey × Live) → List (ℕ × Live)
  | _, [] => []
  | d, (_, x) :: es => parts d x ++ partsFields d es
end

def LiveKey.accepted : LiveKey → Bool
  | json (.int z) => py.prints z
  | json _ | nan => true
  | foreign _ => false

def Encodes (d : ℕ) : Live → Prop
  | .int z => py.prints z
  | .list _ => d < py.encodeDepth
  | .dict es => d < py.encodeDepth ∧ oneKind (es.map Prod.fst) ∧ ∀ k ∈ es.map Prod.fst,
      k.accepted py
  | .other text => d < py.encodeDepth ∧ ∃ s, text = .ok s
  | .enclosing => False
  | _ => True

def Loads (d : ℕ) : Live → Prop
  | .list _ | .dict _ => d < py.decodeDepth
  | _ => True

def Recordable (x : Returned) : Prop :=
  ∃ es, dictOf x = .ok es ∧
    ∀ part ∈ parts 0 (.dict es), Encodes py part.1 part.2 ∧ Loads py part.1 part.2

section Mappings

variable {py}

variable (py) in
theorem ordered_perm {α : Type} (es : List (LiveKey × α)) : (ordered py es).Perm es := by
  unfold ordered
  split_ifs
  · exact py.sortNan_perm es
  · exact List.perm_insertionSort _ es
  · exact List.perm_insertionSort _ es

theorem keyText_isOk {k : LiveKey} : (∃ s, keyText py k = .ok s) ↔ k.accepted py = true := by
  cases k with
  | nan | foreign text => simp [keyText, LiveKey.accepted]
  | json k =>
    cases k with
    | int z => by_cases hz : py.prints z <;> simp [keyText, LiveKey.accepted, hz]
    | _ => simp [keyText, LiveKey.accepted]

variable {es : List (LiveKey × Except Failure Value)}

theorem writeEntries_eq_ok {fields : List (String × Value)} : writeEntries py es = .ok fields ↔
      List.Forall₂ (fun e f => keyText py e.1 = .ok f.1 ∧ e.2 = .ok f.2) es fields := by
  induction es generalizing fields with
  | nil =>
    rw [List.forall₂_nil_left_iff, writeEntries, Except.ok.injEq, eq_comm]
  | cons e es ih =>
    obtain ⟨k, r⟩ := e
    rw [writeEntries]
    constructor
    · intro h
      obtain ⟨key, hkey, h⟩ := bind_ok h
      obtain ⟨v, hv, h⟩ := bind_ok h
      obtain ⟨rest, hrest, h⟩ := bind_ok h
      cases h
      exact .cons ⟨hkey, hv⟩ (ih.1 hrest)
    · intro h
      cases h with
      | cons hhead htail =>
        obtain ⟨hkey, rfl⟩ := hhead
        rw [hkey, ih.2 htail]
        rfl

theorem writeEntries_isOk : (∃ fields, writeEntries py es = .ok fields) ↔
      ∀ e ∈ es, e.1.accepted py = true ∧ ∃ v, e.2 = .ok v := by
  constructor
  · rintro ⟨fields, h⟩ e he
    obtain ⟨f, -, hkey, hv⟩ := exists_of_forall₂ (writeEntries_eq_ok.1 h) he
    exact ⟨keyText_isOk.1 ⟨_, hkey⟩, _, hv⟩
  · intro h
    induction es with
    | nil => exact ⟨[], rfl⟩
    | cons e es ih =>
      obtain ⟨fields, hfields⟩ := ih fun e he => h e (List.mem_cons_of_mem _ he)
      obtain ⟨hkey, v, hv⟩ := h e List.mem_cons_self
      obtain ⟨s, hs⟩ := keyText_isOk.2 hkey
      exact ⟨(s, v) :: fields, writeEntries_eq_ok.2 (.cons ⟨hs, hv⟩ (writeEntries_eq_ok.1 hfields))⟩

variable {fields : List (LiveKey × Except Failure Value)}

theorem writeMapping_isOk : (∃ v, writeMapping py fields = .ok v) ↔
      oneKind (fields.map Prod.fst) ∧ ∀ e ∈ fields, e.1.accepted py = true ∧ ∃ v, e.2 = .ok v := by
  have hperm := ordered_perm py fields
  unfold writeMapping
  by_cases hkind : oneKind (fields.map Prod.fst)
  · rw [if_pos hkind]
    have hwritten : (∃ v, (writeEntries py (ordered py fields)).map Value.dict = .ok v) ↔
        ∃ out, writeEntries py (ordered py fields) = .ok out := by
      cases writeEntries py (ordered py fields) <;> simp [Except.map]
    rw [hwritten, writeEntries_isOk]
    constructor
    · exact fun h => ⟨hkind, fun e he => h e (hperm.mem_iff.2 he)⟩
    · exact fun h e he => h.2 e (hperm.mem_iff.1 he)
  · rw [if_neg hkind]
    simp [hkind]

variable {v : Value}

theorem writeMapping_dict
    (h : writeMapping py fields = .ok v) : ∃ out, v = .dict out := by
  unfold writeMapping at h
  split_ifs at h
  cases hout : writeEntries py (ordered py fields) with
  | error e =>
    rw [hout] at h
    cases h
  | ok out =>
    rw [hout] at h
    cases h
    exact ⟨out, rfl⟩

variable {room : ℕ}

theorem fitsItems_iff {vs : List Value} :
    fitsItems room vs = true ↔ ∀ v ∈ vs, fits room v = true := by
  induction vs with
  | nil => simp [fitsItems]
  | cons v vs ih => rw [fitsItems, Bool.and_eq_true, ih, List.forall_mem_cons]

theorem fitsFields_iff {fields : List (String × Value)} :
    fitsFields room fields = true ↔ ∀ f ∈ fields, fits room f.2 = true := by
  induction fields with
  | nil => simp [fitsFields]
  | cons f fields ih => rw [fitsFields, Bool.and_eq_true, ih, List.forall_mem_cons]

theorem writeMapping_fits (h : writeMapping py fields = .ok v) :
    fits (room + 1) v = true ↔ ∀ e ∈ fields, ∀ w, e.2 = .ok w → fits room w = true := by
  unfold writeMapping at h
  split_ifs at h
  cases hout : writeEntries py (ordered py fields) with
  | error e =>
    rw [hout] at h
    cases h
  | ok out =>
    rw [hout] at h
    cases h
    have hpairs := writeEntries_eq_ok.1 hout
    have hperm := ordered_perm py fields
    rw [fits, fitsFields_iff]
    constructor
    · intro hfits e he w hw
      obtain ⟨f, hf, -, hv⟩ := exists_of_forall₂ hpairs (hperm.mem_iff.2 he)
      rw [hw] at hv
      cases hv
      exact hfits f hf
    · intro hfits f hf
      obtain ⟨e, he, -, hv⟩ := exists_of_forall₂ hpairs.flip hf
      exact hfits e (hperm.mem_iff.1 he) _ hv

end Mappings

section Encoding

variable {py}

variable (py) in
theorem keys_encodeFields (room : ℕ) (es : List (LiveKey × Live)) :
    (encodeFields py room es).map Prod.fst = es.map Prod.fst := by
  induction es with
  | nil => rfl
  | cons e es ih => rw [encodeFields, List.map_cons, List.map_cons, ih]

theorem map_isOk {α β : Type} {r : Except Failure α} {f : α → β} :
    (∃ b, r.map f = .ok b) ↔ ∃ a, r = .ok a := by
  cases r <;> simp [Except.map]

mutual
theorem encode_isOk : ∀ (x : Live) (d room : ℕ), d + room = py.encodeDepth →
    ((∃ v, encode py room x = .ok v) ↔ ∀ part ∈ parts d x, Encodes py part.1 part.2)
  | .none, _, _, _ | .nan, _, _, _ | .inf _, _, _, _ | .bool _, _, _, _ | .num _, _, _, _
  | .str _, _, _, _ | .enclosing, _, _, _ => by simp [encode, parts, Encodes]
  | .int z, _, _, _ => by
    by_cases hz : py.prints z <;> simp [encode, parts, Encodes, hz]
  | .other text, d, room, h => by
    have hroom : room = 0 ↔ ¬ d < py.encodeDepth := by omega
    cases text with
    | error e => simp [encode, parts, Encodes, Except.bind]
    | ok s => by_cases hd : d < py.encodeDepth <;> simp [encode, parts, Encodes,
        Except.bind, hroom, hd]
  | .list xs, d, 0, h => by
    have hd : ¬ d < py.encodeDepth := by omega
    simp [encode, parts, Encodes, hd]
  | .list xs, d, room + 1, h => by
    have hd : d < py.encodeDepth := by omega
    rw [encode, map_isOk, encodeItems_isOk xs (d + 1) room (by omega), parts, List.forall_mem_cons]
    exact ⟨fun hxs => ⟨hd, hxs⟩, fun hxs => hxs.2⟩
  | .dict es, d, 0, h => by
    have hd : ¬ d < py.encodeDepth := by omega
    simp [encode, parts, Encodes, hd]
  | .dict es, d, room + 1, h => by
    have hd : d < py.encodeDepth := by omega
    have hes := encodeFields_isOk es (d + 1) room (by omega)
    have hkeys : (∀ e ∈ encodeFields py room es, e.1.accepted py = true) ↔
        ∀ k ∈ es.map Prod.fst, k.accepted py = true := by
      rw [← keys_encodeFields py room es, List.forall_mem_map]
    rw [encode, writeMapping_isOk, keys_encodeFields, parts, List.forall_mem_cons, ← hes]
    constructor
    · exact fun hok => ⟨⟨hd, hok.1, hkeys.1 fun e he => (hok.2 e he).1⟩, fun e he => (hok.2 e he).2⟩
    · exact fun hok => ⟨hok.1.2.1, fun e he => ⟨hkeys.2 hok.1.2.2 e he, hok.2 e he⟩⟩

theorem encodeItems_isOk : ∀ (xs : List Live) (d room : ℕ), d + room = py.encodeDepth →
    ((∃ vs, encodeItems py room xs = .ok vs) ↔ ∀ part ∈ partsItems d xs, Encodes py part.1 part.2)
  | [], _, _, _ => by simp [encodeItems, partsItems]
  | x :: xs, d, room, h => by
    rw [partsItems, List.forall_mem_append, ← encode_isOk x d room h,
      ← encodeItems_isOk xs d room h,
      encodeItems]
    constructor
    · rintro ⟨vs, hvs⟩
      obtain ⟨v, hv, hvs⟩ := bind_ok hvs
      obtain ⟨ws, hws, -⟩ := bind_ok hvs
      exact ⟨⟨v, hv⟩, ws, hws⟩
    · rintro ⟨⟨v, hv⟩, vs, hvs⟩
      rw [hv, hvs]
      exact ⟨v :: vs, rfl⟩

theorem encodeFields_isOk : ∀ (es : List (LiveKey × Live)) (d room : ℕ), d + room = py.encodeDepth →
    ((∀ e ∈ encodeFields py room es, ∃ v, e.2 = .ok v) ↔
      ∀ part ∈ partsFields d es, Encodes py part.1 part.2)
  | [], _, _, _ => by simp [encodeFields, partsFields]
  | (k, x) :: es, d, room, h => by
    rw [encodeFields, partsFields, List.forall_mem_append, List.forall_mem_cons,
      encode_isOk x d room h, encodeFields_isOk es d room h]
end

mutual
theorem encode_fits : ∀ (x : Live) (room : ℕ) (v : Value) (d n : ℕ), encode py room x = .ok v →
    d + n = py.decodeDepth → (fits n v = true ↔ ∀ part ∈ parts d x, Loads py part.1 part.2)
  | .none, _, v, _, n, h, _ | .nan, _, v, _, n, h, _ | .inf _, _, v, _, n, h, _
  | .bool _, _, v, _, n, h, _ | .num _, _, v, _, n, h, _ | .str _, _, v, _, n, h, _ => by
    rw [encode] at h
    cases h
    cases n <;> simp [fits, parts, Loads]
  | .enclosing, _, _, _, _, h, _ => by
    rw [encode] at h
    cases h
  | .int z, _, v, _, n, h, _ => by
    rw [encode] at h
    split_ifs at h
    cases h
    cases n <;> simp [fits, parts, Loads]
  | .other text, room, v, _, n, h, _ => by
    rw [encode] at h
    obtain ⟨s, -, h⟩ := bind_ok h
    split_ifs at h
    cases h
    cases n <;> simp [fits, parts, Loads]
  | .list xs, 0, _, _, _, h, _ | .dict es, 0, _, _, _, h, _ => by
    rw [encode] at h
    cases h
  | .list xs, room + 1, v, d, n, h, hn => by
    rw [encode] at h
    cases hvs : encodeItems py room xs with
    | error e =>
      rw [hvs] at h
      cases h
    | ok vs =>
      rw [hvs] at h
      cases h
      cases n with
      | zero =>
        have hd : ¬ d < py.decodeDepth := by omega
        simp [fits, parts, Loads, hd]
      | succ n =>
        have hd : d < py.decodeDepth := by omega
        rw [fits, fitsItems_iff, encodeItems_fits xs room vs (d + 1) n hvs (by omega), parts,
          List.forall_mem_cons]
        exact ⟨fun hxs => ⟨hd, hxs⟩, fun hxs => hxs.2⟩
  | .dict es, room + 1, v, d, n, h, hn => by
    rw [encode] at h
    cases n with
    | zero =>
      have hd : ¬ d < py.decodeDepth := by omega
      obtain ⟨fields, rfl⟩ := writeMapping_dict h
      simp [fits, parts, Loads, hd]
    | succ n =>
      have hd : d < py.decodeDepth := by omega
      rw [writeMapping_fits h, encodeFields_fits es room (d + 1) n (writeMapping_isOk.1 ⟨v, h⟩).2
        (by omega), parts, List.forall_mem_cons]
      exact ⟨fun hes => ⟨hd, hes⟩, fun hes => hes.2⟩

theorem encodeItems_fits : ∀ (xs : List Live) (room : ℕ) (vs : List Value) (d n : ℕ),
    encodeItems py room xs = .ok vs → d + n = py.decodeDepth →
      ((∀ v ∈ vs, fits n v = true) ↔ ∀ part ∈ partsItems d xs, Loads py part.1 part.2)
  | [], _, vs, _, _, h, _ => by
    rw [encodeItems] at h
    cases h
    simp [partsItems]
  | x :: xs, room, vs, d, n, h, hn => by
    rw [encodeItems] at h
    obtain ⟨w, hw, h⟩ := bind_ok h
    obtain ⟨ws, hws, h⟩ := bind_ok h
    cases h
    rw [partsItems, List.forall_mem_append, List.forall_mem_cons, encode_fits x room w d n hw hn,
      encodeItems_fits xs room ws d n hws hn]

theorem encodeFields_fits : ∀ (es : List (LiveKey × Live)) (room d n : ℕ),
    (∀ e ∈ encodeFields py room es, e.1.accepted py = true ∧ ∃ v, e.2 = .ok v) →
      d + n = py.decodeDepth →
        ((∀ e ∈ encodeFields py room es, ∀ w, e.2 = .ok w → fits n w = true) ↔
          ∀ part ∈ partsFields d es, Loads py part.1 part.2)
  | [], _, _, _, _, _ => by simp [encodeFields, partsFields]
  | (k, x) :: es, room, d, n, h, hn => by
    rw [encodeFields, List.forall_mem_cons] at h
    obtain ⟨⟨-, v, hv⟩, h⟩ := h
    rw [encodeFields, partsFields, List.forall_mem_append, List.forall_mem_cons,
      encodeFields_fits es room d n h hn, ← encode_fits x room v d n hv hn]
    refine and_congr_left fun _ => ⟨fun hfits => hfits v hv, fun hfits w hw => ?_⟩
    rw [hv] at hw
    cases hw
    exact hfits
end

theorem dumpsLoads_isOk {x : Returned} : (∃ s, dumpsLoads py x = .ok s) ↔ Recordable py x := by
  unfold dumpsLoads dumps Recordable
  constructor
  · rintro ⟨s, h⟩
    obtain ⟨v, hv, h⟩ := bind_ok h
    obtain ⟨es, hes, hv⟩ := bind_ok hv
    split_ifs at h with hfits
    have hencodes := (encode_isOk (.dict es) 0 py.encodeDepth (Nat.zero_add _)).1 ⟨v, hv⟩
    have hloads := (encode_fits (.dict es) _ v 0 py.decodeDepth hv (Nat.zero_add _)).1 hfits
    exact ⟨es, hes, fun part hpart => ⟨hencodes part hpart, hloads part hpart⟩⟩
  · rintro ⟨es, hes, hparts⟩
    obtain ⟨v, hv⟩ := (encode_isOk (.dict es) 0 py.encodeDepth (Nat.zero_add _)).2
      fun part hpart => (hparts part hpart).1
    have hfits := (encode_fits (.dict es) _ v 0 py.decodeDepth hv (Nat.zero_add _)).2
      fun part hpart => (hparts part hpart).2
    rw [hes]
    simp only [ok_bind, hv, hfits, if_true]
    exact ⟨_, rfl⟩

end Encoding

end LiveJson
