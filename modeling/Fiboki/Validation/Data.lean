import Fiboki.Lib.Floating
import Fiboki.Validation.Canonical
import Mathlib.Data.List.Sort

/-!
Report data of any nesting, its canonical view, and the inverse of that view where
it has one.
-/

namespace Fiboki

open Wire
open Floating (Number)

/-- What a report may carry. A key, and a member of a set, is given with its text; the
members of a set stand in the order the set is iterated. -/
inductive Data where
  | none
  | bool (b : Bool)
  | int (z : ℤ)
  | float (x : Number)
  | str (s : String)
  | enum (value : Value)
  | mapping (fields : List (String × Data))
  | seq (xs : List Data)
  | set (members : List (String × Data))
  | object (toDict : Data)
  | dated (isoformat : String)
  | array (tolist : Data)
  | other (text : String)

namespace Data

mutual
def canonicalise : Data → Value
  | none => .null
  | bool b => .bool b
  | int z => .int z
  | float .nan => .dict [("$float", .str "nan")]
  | float (.inf negative) => .dict [("$float", .str (if negative then "-inf" else "inf"))]
  | float (.fin q) => .num q
  | str s => .str s
  | enum v => v
  | mapping es => .dict (Dict.ofList (canonicaliseFields es)).entries
  | seq xs => .list (canonicaliseItems xs)
  | set xs => .list (((canonicaliseFields xs).insertionSort fun a b => a.1 ≤ b.1).map Prod.snd)
  | object d => canonicalise d
  | dated s => .str s
  | array d => canonicalise d
  | other s => .str s

def canonicaliseItems : List Data → List Value
  | [] => []
  | x :: xs => canonicalise x :: canonicaliseItems xs

def canonicaliseFields : List (String × Data) → List (String × Value)
  | [] => []
  | e :: es => (e.1, canonicalise e.2) :: canonicaliseFields es
end

mutual
def ofValue : Value → Data
  | .null => none
  | .nan => float .nan
  | .inf negative => float (.inf negative)
  | .bool b => bool b
  | .int z => int z
  | .num q => float (.fin q)
  | .str s => str s
  | .list xs => seq (ofItems xs)
  | .dict es => mapping (ofFields es)

def ofItems : List Value → List Data
  | [] => []
  | x :: xs => ofValue x :: ofItems xs

def ofFields : List (String × Value) → List (String × Data)
  | [] => []
  | e :: es => (e.1, ofValue e.2) :: ofFields es
end

mutual
theorem canonicalise_ofValue : ∀ v : Value, (ofValue v).canonicalise = Fiboki.canonicalise v
  | .null | .nan | .inf _ | .bool _ | .int _ | .num _ | .str _ => rfl
  | .list xs => congrArg Value.list (canonicaliseItems_ofItems xs)
  | .dict es => by
    rw [ofValue, canonicalise, canonicaliseFields_ofFields es]
    rfl

theorem canonicaliseItems_ofItems : ∀ xs : List Value,
    canonicaliseItems (ofItems xs) = Fiboki.canonicaliseItems xs
  | [] => rfl
  | x :: xs => congrArg₂ List.cons (canonicalise_ofValue x) (canonicaliseItems_ofItems xs)

theorem canonicaliseFields_ofFields : ∀ es : List (String × Value),
    canonicaliseFields (ofFields es) = Fiboki.canonicaliseFields es
  | [] => rfl
  | e :: es =>
    congrArg₂ List.cons (congrArg (Prod.mk e.1) (canonicalise_ofValue e.2))
      (canonicaliseFields_ofFields es)
end

theorem canonicaliseFields_eq_map (es : List (String × Data)) :
    canonicaliseFields es = es.map fun e => (e.1, e.2.canonicalise) := by
  induction es with
  | nil => rfl
  | cons e es ih => rw [canonicaliseFields, ih, List.map_cons]

theorem canonicaliseItems_eq_map (xs : List Data) : canonicaliseItems xs = xs.map canonicalise := by
  induction xs with
  | nil => rfl
  | cons x xs ih => rw [canonicaliseItems, ih, List.map_cons]

end Data

def untag : Option Value → Except String Value
  | some (.str s) =>
    if s = "nan" then .ok .nan
    else if s = "inf" then .ok (.inf false)
    else if s = "-inf" then .ok (.inf true)
    else .error s
  | _ => .error "unhashable or unknown"

mutual
def decanonicalise : Value → Except String Value
  | .dict es => do
    if es.map Prod.fst = ["$float"] then untag (Dict.lookup "$float" es)
    else
      let fields ← decanonicaliseFields es
      return .dict fields
  | .list xs => do
    let items ← decanonicaliseItems xs
    return .list items
  | v => .ok v

def decanonicaliseItems : List Value → Except String (List Value)
  | [] => .ok []
  | x :: xs => do
    let y ← decanonicalise x
    let ys ← decanonicaliseItems xs
    return y :: ys

def decanonicaliseFields : List (String × Value) → Except String (List (String × Value))
  | [] => .ok []
  | e :: es => do
    let y ← decanonicalise e.2
    let ys ← decanonicaliseFields es
    return (e.1, y) :: ys
end

def TagOnly (es : List (String × Value)) : Prop :=
  ∀ v, es = [("$float", v)] → v = .str "nan" ∨ v = .str "inf" ∨ v = .str "-inf"

mutual
def Untangled : Value → Prop
  | .dict es => TagOnly es ∧ UntangledFields es
  | .list xs => UntangledItems xs
  | _ => True

def UntangledItems : List Value → Prop
  | [] => True
  | x :: xs => Untangled x ∧ UntangledItems xs

def UntangledFields : List (String × Value) → Prop
  | [] => True
  | e :: es => Untangled e.2 ∧ UntangledFields es
end

variable {v : Value}

theorem untag_ok :
    (∃ x, untag (some v) = .ok x) ↔ v = .str "nan" ∨ v = .str "inf" ∨ v = .str "-inf" := by
  constructor
  · rintro ⟨x, hx⟩
    unfold untag at hx
    split at hx
    · next s heq =>
        cases heq
        split_ifs at hx with hnan hinf hneg
        · exact .inl (congrArg Value.str hnan)
        · exact .inr (.inl (congrArg Value.str hinf))
        · exact .inr (.inr (congrArg Value.str hneg))
    · cases hx
  · rintro (rfl | rfl | rfl)
    · exact ⟨.nan, rfl⟩
    · exact ⟨.inf false, rfl⟩
    · exact ⟨.inf true, rfl⟩

theorem canonicalise_untag {v x : Value} (h : untag (some v) = .ok x) :
    canonicalise x = .dict [("$float", v)] := by
  rcases untag_ok.1 ⟨x, h⟩ with rfl | rfl | rfl
  all_goals
    cases h
    rfl

variable {es : List (String × Value)}

theorem eq_tagged (h : es.map Prod.fst = ["$float"]) :
    ∃ v, es = [("$float", v)] ∧ Dict.lookup "$float" es = some v := by
  obtain ⟨e, rfl, hk⟩ := List.map_eq_singleton_iff.1 h
  refine ⟨e.2, ?_, ?_⟩
  · rw [← hk]
  · unfold Dict.lookup
    rw [← hk]
    simp

theorem tagOnly_of_ne (h : es.map Prod.fst ≠ ["$float"]) : TagOnly es := by
  rintro v rfl
  exact absurd rfl h

mutual
theorem decanonicalise_ok : ∀ c : Value, (∃ x, decanonicalise c = .ok x) ↔ Untangled c
  | .dict es => by
    unfold decanonicalise Untangled
    by_cases htag : es.map Prod.fst = ["$float"]
    · obtain ⟨v, rfl, hlook⟩ := eq_tagged htag
      rw [if_pos htag, hlook, untag_ok]
      constructor
      · rintro hv
        refine ⟨?_, ?_, trivial⟩
        · rintro w hw
          cases hw
          exact hv
        · rcases hv with rfl | rfl | rfl <;> trivial
      · rintro ⟨hv, -⟩
        exact hv v rfl
    · rw [if_neg htag, and_iff_right (tagOnly_of_ne htag), ← decanonicaliseFields_ok es]
      constructor
      · rintro ⟨x, hx⟩
        obtain ⟨fields, hf, -⟩ := bind_ok hx
        exact ⟨fields, hf⟩
      · rintro ⟨fields, hf⟩
        exact ⟨.dict fields, by rw [hf]; rfl⟩
  | .list xs => by
    unfold decanonicalise Untangled
    rw [← decanonicaliseItems_ok xs]
    constructor
    · rintro ⟨x, hx⟩
      obtain ⟨items, hi, -⟩ := bind_ok hx
      exact ⟨items, hi⟩
    · rintro ⟨items, hi⟩
      exact ⟨.list items, by rw [hi]; rfl⟩
  | .null | .nan | .inf _ | .bool _ | .int _ | .num _ | .str _ =>
      ⟨fun _ => trivial, fun _ => ⟨_, rfl⟩⟩

theorem decanonicaliseItems_ok : ∀ xs : List Value,
    (∃ ys, decanonicaliseItems xs = .ok ys) ↔ UntangledItems xs
  | [] => ⟨fun _ => trivial, fun _ => ⟨_, rfl⟩⟩
  | x :: xs => by
    unfold decanonicaliseItems UntangledItems
    rw [← decanonicalise_ok x, ← decanonicaliseItems_ok xs]
    constructor
    · rintro ⟨zs, h⟩
      obtain ⟨y, hy, h⟩ := bind_ok h
      obtain ⟨ys, hys, -⟩ := bind_ok h
      exact ⟨⟨y, hy⟩, ys, hys⟩
    · rintro ⟨⟨y, hy⟩, ys, hys⟩
      exact ⟨y :: ys, by rw [hy, hys]; rfl⟩

theorem decanonicaliseFields_ok : ∀ es : List (String × Value),
    (∃ fs, decanonicaliseFields es = .ok fs) ↔ UntangledFields es
  | [] => ⟨fun _ => trivial, fun _ => ⟨_, rfl⟩⟩
  | e :: es => by
    unfold decanonicaliseFields UntangledFields
    rw [← decanonicalise_ok e.2, ← decanonicaliseFields_ok es]
    constructor
    · rintro ⟨fs, h⟩
      obtain ⟨y, hy, h⟩ := bind_ok h
      obtain ⟨ys, hys, -⟩ := bind_ok h
      exact ⟨⟨y, hy⟩, ys, hys⟩
    · rintro ⟨⟨y, hy⟩, ys, hys⟩
      exact ⟨(e.1, y) :: ys, by rw [hy, hys]; rfl⟩
end

mutual
theorem canonicalise_decanonicalise : ∀ {c x : Value}, Canonical c → decanonicalise c = .ok x →
    canonicalise x = c
  | .dict es, x, hc, h => by
    unfold decanonicalise at h
    by_cases htag : es.map Prod.fst = ["$float"]
    · obtain ⟨v, rfl, hlook⟩ := eq_tagged htag
      rw [if_pos htag, hlook] at h
      exact canonicalise_untag h
    · rw [if_neg htag] at h
      obtain ⟨fields, hf, hx⟩ := bind_ok h
      cases hx
      have hfields := canonicaliseFields_decanonicalise hc.2 hf
      have hsorted := Dict.ofList_entries (⟨es, hc.1⟩ : Dict String Value)
      rw [canonicalise, hfields]
      exact congrArg (fun d : Dict String Value => Value.dict d.entries) hsorted
  | .list xs, x, hc, h => by
    unfold decanonicalise at h
    obtain ⟨items, hi, hx⟩ := bind_ok h
    cases hx
    exact congrArg Value.list (canonicaliseItems_decanonicalise hc hi)
  | .null, _, _, h | .bool _, _, _, h | .int _, _, _, h | .num _, _, _, h | .str _, _, _, h => by
    cases h
    rfl

theorem canonicaliseItems_decanonicalise : ∀ {xs ys : List Value}, CanonicalItems xs →
    decanonicaliseItems xs = .ok ys → canonicaliseItems ys = xs
  | [], _, _, h => by
    cases h
    rfl
  | x :: xs, _, hc, h => by
    unfold decanonicaliseItems at h
    obtain ⟨y, hy, h⟩ := bind_ok h
    obtain ⟨ys, hys, h⟩ := bind_ok h
    cases h
    rw [canonicaliseItems, canonicalise_decanonicalise hc.1 hy,
      canonicaliseItems_decanonicalise hc.2 hys]

theorem canonicaliseFields_decanonicalise : ∀ {es fs : List (String × Value)}, CanonicalFields es →
    decanonicaliseFields es = .ok fs → canonicaliseFields fs = es
  | [], _, _, h => by
    cases h
    rfl
  | e :: es, _, hc, h => by
    unfold decanonicaliseFields at h
    obtain ⟨y, hy, h⟩ := bind_ok h
    obtain ⟨ys, hys, h⟩ := bind_ok h
    cases h
    rw [canonicaliseFields, canonicalise_decanonicalise hc.1 hy,
      canonicaliseFields_decanonicalise hc.2 hys]
end

theorem canonicalise_eq_str {s : String} : canonicalise v = .str s ↔ v = .str s := by
  cases v <;> simp [canonicalise]

theorem untangledFields_iff : UntangledFields es ↔ ∀ e ∈ es, Untangled e.2 := by
  induction es with
  | nil => exact ⟨fun _ e he => absurd he List.not_mem_nil, fun _ => trivial⟩
  | cons e es ih => rw [UntangledFields, ih, List.forall_mem_cons]

variable {xs : List Value}

theorem untangledItems_iff : UntangledItems xs ↔ ∀ x ∈ xs, Untangled x := by
  induction xs with
  | nil => exact ⟨fun _ x hx => absurd hx List.not_mem_nil, fun _ => trivial⟩
  | cons x xs ih => rw [UntangledItems, ih, List.forall_mem_cons]

section Fields

variable {α : Type} {f : α → Value} {es : List (String × α)} (h : (es.map Prod.fst).Nodup)
include h

theorem nodup_map_keys : ((es.map fun e => (e.1, f e.2)).map Prod.fst).Nodup := by
  rwa [List.map_map]

theorem untangled_ofList : Untangled (.dict (Dict.ofList (es.map fun e => (e.1, f e.2))).entries) ↔
      (∀ a, es = [("$float", a)] → f a = .str "nan" ∨ f a = .str "inf" ∨ f a = .str "-inf") ∧
        ∀ e ∈ es, Untangled (f e.2) := by
  have hkeys : ((es.map fun e => (e.1, f e.2)).map Prod.fst).Nodup := nodup_map_keys h
  rw [Untangled]
  refine and_congr ?_ ?_
  · constructor
    · rintro htag a rfl
      exact htag (f a) ((Dict.ofList_eq_singleton hkeys).2 rfl)
    · intro hall v hv
      obtain ⟨⟨k, a⟩, rfl, he⟩ := List.map_eq_singleton_iff.1
        ((Dict.ofList_eq_singleton hkeys).1 hv)
      cases he
      exact hall a rfl
  · rw [untangledFields_iff]
    constructor
    · intro hall e he
      exact hall _ ((Dict.mem_ofList hkeys).2 (List.mem_map_of_mem he))
    · intro hall v hv
      obtain ⟨e, he, rfl⟩ := List.mem_map.1 ((Dict.mem_ofList hkeys).1 hv)
      exact hall e he

end Fields

mutual
def DistinctKeys : Value → Prop
  | .dict es => (es.map Prod.fst).Nodup ∧ DistinctKeysFields es
  | .list xs => DistinctKeysItems xs
  | _ => True

def DistinctKeysItems : List Value → Prop
  | [] => True
  | x :: xs => DistinctKeys x ∧ DistinctKeysItems xs

def DistinctKeysFields : List (String × Value) → Prop
  | [] => True
  | e :: es => DistinctKeys e.2 ∧ DistinctKeysFields es
end

theorem untangled_nan : Untangled (.dict [("$float", .str "nan")]) := by
  refine ⟨?_, trivial, trivial⟩
  intro v hv
  cases hv
  exact .inl rfl

theorem untangled_inf (negative : Bool) :
    Untangled (.dict [("$float", .str (if negative then "-inf" else "inf"))]) := by
  refine ⟨?_, trivial, trivial⟩
  intro v hv
  cases hv
  cases negative
  · exact .inr (.inl rfl)
  · exact .inr (.inr rfl)

theorem distinctKeysFields_iff : DistinctKeysFields es ↔ ∀ e ∈ es, DistinctKeys e.2 := by
  induction es with
  | nil => exact ⟨fun _ e he => absurd he List.not_mem_nil, fun _ => trivial⟩
  | cons e es ih => rw [DistinctKeysFields, ih, List.forall_mem_cons]

theorem distinctKeysItems_iff : DistinctKeysItems xs ↔ ∀ x ∈ xs, DistinctKeys x := by
  induction xs with
  | nil => exact ⟨fun _ x hx => absurd hx List.not_mem_nil, fun _ => trivial⟩
  | cons x xs ih => rw [DistinctKeysItems, ih, List.forall_mem_cons]

mutual
theorem untangled_canonicalise : ∀ {v : Value}, DistinctKeys v →
    (Untangled (canonicalise v) ↔ Untangled v)
  | .dict es, h => by
    rw [canonicalise, canonicaliseFields_eq_map, untangled_ofList h.1, Untangled,
      untangledFields_iff]
    refine and_congr ?_ (untangledFields_canonicalise h.2)
    simp only [canonicalise_eq_str]
    rfl
  | .list xs, h => by
    rw [canonicalise, canonicaliseItems_eq_map, Untangled, Untangled, untangledItems_iff,
      untangledItems_iff, List.forall_mem_map]
    exact untangledItems_canonicalise h
  | .nan, _ => iff_of_true untangled_nan trivial
  | .inf negative, _ => iff_of_true (untangled_inf negative) trivial
  | .null, _ | .bool _, _ | .int _, _ | .num _, _ | .str _, _ => Iff.rfl

theorem untangledItems_canonicalise : ∀ {xs : List Value}, DistinctKeysItems xs →
    ((∀ x ∈ xs, Untangled (canonicalise x)) ↔ ∀ x ∈ xs, Untangled x)
  | [], _ => by simp
  | x :: xs, h => by
    rw [List.forall_mem_cons, List.forall_mem_cons, untangled_canonicalise h.1,
      untangledItems_canonicalise h.2]

theorem untangledFields_canonicalise : ∀ {es : List (String × Value)}, DistinctKeysFields es →
    ((∀ e ∈ es, Untangled (canonicalise e.2)) ↔ ∀ e ∈ es, Untangled e.2)
  | [], _ => by simp
  | e :: es, h => by
    rw [List.forall_mem_cons, List.forall_mem_cons, untangled_canonicalise h.1,
      untangledFields_canonicalise h.2]
end

namespace Data

def text? : Data → Option String
  | str s | dated s | other s | enum (.str s) => some s
  | object d | array d => text? d
  | _ => Option.none

theorem canonicalise_eq_str : ∀ {d : Data} {s : String}, d.canonicalise = .str s ↔ d.text? = some s
  | .object d, s | .array d, s => by
    rw [canonicalise, text?]
    exact canonicalise_eq_str
  | .enum v, s => by cases v <;> simp [canonicalise, text?]
  | .float x, s => by cases x <;> simp [canonicalise, text?]
  | .none, s | .bool _, s | .int _, s | .str _, s | .mapping _, s | .seq _, s | .set _, s
  | .dated _, s | .other _, s => by simp [canonicalise, text?]

mutual
def Distinct : Data → Prop
  | enum v => DistinctKeys v
  | mapping es => (es.map Prod.fst).Nodup ∧ DistinctFields es
  | seq xs => DistinctItems xs
  | set xs => DistinctFields xs
  | object d | array d => Distinct d
  | _ => True

def DistinctItems : List Data → Prop
  | [] => True
  | x :: xs => Distinct x ∧ DistinctItems xs

def DistinctFields : List (String × Data) → Prop
  | [] => True
  | e :: es => Distinct e.2 ∧ DistinctFields es
end

mutual
def Readable : Data → Prop
  | enum v => Untangled v
  | mapping es =>
    (∀ d, es = [("$float", d)] →
      d.text? = some "nan" ∨ d.text? = some "inf" ∨ d.text? = some "-inf") ∧ ReadableFields es
  | seq xs => ReadableItems xs
  | set xs => ReadableFields xs
  | object d | array d => Readable d
  | _ => True

def ReadableItems : List Data → Prop
  | [] => True
  | x :: xs => Readable x ∧ ReadableItems xs

def ReadableFields : List (String × Data) → Prop
  | [] => True
  | e :: es => Readable e.2 ∧ ReadableFields es
end

mutual
theorem readable_iff : ∀ {d : Data}, d.Distinct → (Untangled d.canonicalise ↔ d.Readable)
  | .mapping es, h => by
    rw [canonicalise, canonicaliseFields_eq_map, untangled_ofList h.1, Readable]
    refine and_congr ?_ (readableFields_iff h.2)
    simp only [canonicalise_eq_str]
  | .seq xs, h => by
    rw [canonicalise, canonicaliseItems_eq_map, Untangled, untangledItems_iff, List.forall_mem_map]
    exact readableItems_iff h
  | .set xs, h => by
    have hmem : (∀ v ∈ ((canonicaliseFields xs).insertionSort fun a b => a.1 ≤ b.1).map Prod.snd,
        Untangled v) ↔ ∀ e ∈ xs, Untangled e.2.canonicalise := by
      rw [List.forall_mem_map]
      simp only [(List.perm_insertionSort _ _).mem_iff]
      rw [canonicaliseFields_eq_map, List.forall_mem_map]
    rw [canonicalise, Untangled, untangledItems_iff, hmem]
    exact readableFields_iff h
  | .object d, h | .array d, h => by
    rw [canonicalise, Readable]
    exact readable_iff h
  | .enum v, _ => Iff.rfl
  | .float .nan, _ => iff_of_true untangled_nan trivial
  | .float (.inf negative), _ => iff_of_true (untangled_inf negative) trivial
  | .float (.fin _), _ | .none, _ | .bool _, _ | .int _, _ | .str _, _ | .dated _, _
  | .other _, _ => Iff.rfl

theorem readableItems_iff : ∀ {xs : List Data}, DistinctItems xs →
    ((∀ x ∈ xs, Untangled x.canonicalise) ↔ ReadableItems xs)
  | [], _ => by simp [ReadableItems]
  | x :: xs, h => by
    rw [List.forall_mem_cons, ReadableItems, readable_iff h.1, readableItems_iff h.2]

theorem readableFields_iff : ∀ {es : List (String × Data)}, DistinctFields es →
    ((∀ e ∈ es, Untangled e.2.canonicalise) ↔ ReadableFields es)
  | [], _ => by simp [ReadableFields]
  | e :: es, h => by
    rw [List.forall_mem_cons, ReadableFields, readable_iff h.1, readableFields_iff h.2]
end

mutual
theorem distinctKeys_canonicalise : ∀ {d : Data}, d.Distinct → DistinctKeys d.canonicalise
  | .mapping es, h => by
    rw [canonicalise, canonicaliseFields_eq_map, DistinctKeys]
    refine ⟨Dict.nodup_keys _, distinctKeysFields_iff.2 fun v hv => ?_⟩
    obtain ⟨e, he, rfl⟩ := List.mem_map.1 ((Dict.mem_ofList (nodup_map_keys h.1)).1 hv)
    exact distinctKeys_fields h.2 e he
  | .seq xs, h => by
    rw [canonicalise, canonicaliseItems_eq_map, DistinctKeys, distinctKeysItems_iff,
      List.forall_mem_map]
    exact distinctKeys_items h
  | .set xs, h => by
    rw [canonicalise, DistinctKeys, distinctKeysItems_iff, List.forall_mem_map]
    simp only [(List.perm_insertionSort _ _).mem_iff]
    rw [canonicaliseFields_eq_map, List.forall_mem_map]
    exact distinctKeys_fields h
  | .object d, h | .array d, h => by
    rw [canonicalise]
    exact distinctKeys_canonicalise h
  | .enum v, h => h
  | .float .nan, _ | .float (.inf _), _ => ⟨List.nodup_singleton _, trivial, trivial⟩
  | .float (.fin _), _ | .none, _ | .bool _, _ | .int _, _ | .str _, _ | .dated _, _
  | .other _, _ => trivial

theorem distinctKeys_items : ∀ {xs : List Data}, DistinctItems xs →
    ∀ x ∈ xs, DistinctKeys x.canonicalise
  | [], _ => fun _ hx => absurd hx List.not_mem_nil
  | _ :: _, h => List.forall_mem_cons.2 ⟨distinctKeys_canonicalise h.1, distinctKeys_items h.2⟩

theorem distinctKeys_fields : ∀ {es : List (String × Data)}, DistinctFields es →
    ∀ e ∈ es, DistinctKeys e.2.canonicalise
  | [], _ => fun _ he => absurd he List.not_mem_nil
  | _ :: _, h => List.forall_mem_cons.2 ⟨distinctKeys_canonicalise h.1, distinctKeys_fields h.2⟩
end

theorem readable_written {d : Data} (h : d.Distinct) :
    (∃ x, decanonicalise (Fiboki.canonicalise d.canonicalise) = .ok x) ↔ d.Readable := by
  rw [decanonicalise_ok, untangled_canonicalise (distinctKeys_canonicalise h), readable_iff h]

end Data

end Fiboki
