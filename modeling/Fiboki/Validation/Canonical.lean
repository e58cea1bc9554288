import Fiboki.Lib.Json

/-!
The canonical view of report data: keys in order, and no number that is not
finite. Canonical data is what JSON can represent.
-/

namespace Fiboki

open Wire Json

mutual
def canonicalise : Value → Value
  | .dict es => .dict (Dict.ofList (canonicaliseFields es)).entries
  | .list xs => .list (canonicaliseItems xs)
  | .nan => .dict [("$float", .str "nan")]
  | .inf negative => .dict [("$float", .str (if negative then "-inf" else "inf"))]
  | v => v

def canonicaliseItems : List Value → List Value
  | [] => []
  | x :: xs => canonicalise x :: canonicaliseItems xs

def canonicaliseFields : List (String × Value) → List (String × Value)
  | [] => []
  | e :: es => (e.1, canonicalise e.2) :: canonicaliseFields es
end

mutual
def Canonical : Value → Prop
  | .dict es => es.Pairwise (fun a b => a.1 < b.1) ∧ CanonicalFields es
  | .list xs => CanonicalItems xs
  | .nan => False
  | .inf _ => False
  | _ => True

def CanonicalItems : List Value → Prop
  | [] => True
  | x :: xs => Canonical x ∧ CanonicalItems xs

def CanonicalFields : List (String × Value) → Prop
  | [] => True
  | e :: es => Canonical e.2 ∧ CanonicalFields es
end

variable (es : List (String × Value))

theorem canonicaliseFields_eq_map :
    canonicaliseFields es = es.map fun e => (e.1, canonicalise e.2) := by
  induction es with
  | nil => rfl
  | cons e es ih => rw [canonicaliseFields, ih, List.map_cons]

theorem canonicalFields_iff {es : List (String × Value)} :
    CanonicalFields es ↔ ∀ e ∈ es, Canonical e.2 := by
  induction es with
  | nil =>
    constructor
    · intro _ e he
      cases he
    · intro _
      trivial
  | cons e es ih => rw [CanonicalFields, ih, List.forall_mem_cons]

mutual
theorem sorted_of_canonical : ∀ {v : Value}, Canonical v → Sorted v
  | .dict _, h => ⟨h.1, sortedFields_of_canonical h.2⟩
  | .list _, h => sortedItems_of_canonical h
  | .null, _ | .bool _, _ | .int _, _ | .num _, _ | .str _, _ => trivial

theorem sortedItems_of_canonical : ∀ {xs : List Value}, CanonicalItems xs → SortedItems xs
  | [], _ => trivial
  | _ :: _, h => ⟨sorted_of_canonical h.1, sortedItems_of_canonical h.2⟩

theorem sortedFields_of_canonical : ∀ {es : List (String × Value)}, CanonicalFields es →
    SortedFields es
  | [], _ => trivial
  | _ :: _, h => ⟨sorted_of_canonical h.1, sortedFields_of_canonical h.2⟩
end

mutual
theorem canonicalise_of_canonical : ∀ {v : Value}, Canonical v → canonicalise v = v
  | .dict es, h => by
    have hfields := canonicaliseFields_of_canonical h.2
    have hdict := Dict.ofList_entries (⟨es, h.1⟩ : Dict String Value)
    rw [canonicalise, hfields]
    exact congrArg (fun d : Dict String Value => Value.dict d.entries) hdict
  | .list xs, h => congrArg Value.list (canonicaliseItems_of_canonical h)
  | .null, _ | .bool _, _ | .int _, _ | .num _, _ | .str _, _ => rfl

theorem canonicaliseItems_of_canonical : ∀ {xs : List Value}, CanonicalItems xs →
    canonicaliseItems xs = xs
  | [], _ => rfl
  | x :: xs, h => by
    rw [canonicaliseItems, canonicalise_of_canonical h.1, canonicaliseItems_of_canonical h.2]

theorem canonicaliseFields_of_canonical : ∀ {es : List (String × Value)}, CanonicalFields es →
    canonicaliseFields es = es
  | [], _ => rfl
  | e :: es, h => by
    rw [canonicaliseFields, canonicalise_of_canonical h.1, canonicaliseFields_of_canonical h.2]
end

mutual
theorem canonical_canonicalise : ∀ v : Value, Canonical (canonicalise v)
  | .dict es => by
    have hfields := canonicalFields_iff.1 (canonicalFields_canonicalise es)
    refine ⟨(Dict.ofList (canonicaliseFields es)).sorted, canonicalFields_iff.2 fun e he => ?_⟩
    exact hfields e (Dict.mem_of_get_ofList (Dict.mem_entries.1 he))
  | .list xs => canonicalItems_canonicalise xs
  | .nan | .inf _ => ⟨List.pairwise_singleton _ _, trivial, trivial⟩
  | .null | .bool _ | .int _ | .num _ | .str _ => trivial

theorem canonicalItems_canonicalise : ∀ xs : List Value, CanonicalItems (canonicaliseItems xs)
  | [] => trivial
  | x :: xs => ⟨canonical_canonicalise x, canonicalItems_canonicalise xs⟩

theorem canonicalFields_canonicalise : ∀ es : List (String × Value),
    CanonicalFields (canonicaliseFields es)
  | [] => trivial
  | e :: es => ⟨canonical_canonicalise e.2, canonicalFields_canonicalise es⟩
end

theorem get?_canonicalise (k : String) :
    (canonicalise (.dict es)).get? k = ((Dict.ofList es).get k).map canonicalise := by
  rw [canonicalise, canonicaliseFields_eq_map, Dict.ofList_map, ← Dict.get_map]
  rfl

section Fields

variable {es : List (String × Value)} (h : (es.map Prod.fst).Nodup)
include h

variable {k : String} {v : Value}

theorem get?_canonicalise_of_mem (hmem : (k, v) ∈ es) :
    (canonicalise (.dict es)).get? k = some (canonicalise v) := by
  have hlook : Dict.lookup k es = some v := Dict.lookup_of_mem_nodup h hmem
  rw [get?_canonicalise, Dict.get_ofList h, hlook]
  rfl

theorem field_canonicalise (hmem : (k, v) ∈ es) :
    (canonicalise (.dict es)).field k = .ok (canonicalise v) := by
  unfold Value.field
  rw [get?_canonicalise_of_mem h hmem]

theorem carries_canonicalise_dict {c : Char} :
    Carries (canonicalise (.dict es)) c ↔ ∃ e ∈ es, c ∈ e.1.toList ∨
      Carries (canonicalise e.2) c := by
  have hkeys : ((es.map fun e => (e.1, canonicalise e.2)).map Prod.fst).Nodup := by
    rwa [List.map_map]
  rw [canonicalise, canonicaliseFields_eq_map, carries_dict]
  constructor
  · rintro ⟨e, he, hc⟩
    rw [Dict.mem_ofList hkeys] at he
    obtain ⟨a, ha, rfl⟩ := List.mem_map.1 he
    exact ⟨a, ha, hc⟩
  · rintro ⟨e, he, hc⟩
    exact ⟨_, (Dict.mem_ofList hkeys).2 (List.mem_map_of_mem he), hc⟩

end Fields

theorem carries_canonicalise_ascii {es : List (String × Value)} (keys : List String)
    (hkeys : es.map Prod.fst = keys) (hnodup : keys.Nodup)
    (hascii : ∀ k ∈ keys, ∀ d ∈ k.toList, d.toNat < 128) {c : Char} (hc : 128 ≤ c.toNat) :
    Carries (canonicalise (.dict es)) c ↔ ∃ e ∈ es, Carries (canonicalise e.2) c := by
  subst hkeys
  refine (carries_canonicalise_dict hnodup).trans ?_
  refine exists_congr fun e => and_congr_right fun he => or_iff_right ?_
  intro hmem
  have := hascii e.1 (List.mem_map_of_mem he) c hmem
  omega

theorem canonicaliseItems_eq_map (xs : List Value) :
    canonicaliseItems xs = xs.map canonicalise := by
  induction xs with
  | nil => rfl
  | cons x xs ih => rw [canonicaliseItems, ih, List.map_cons]

/-- `json.dumps(canonicalise(v), sort_keys=True, separators=(",", ":"),
ensure_ascii=False)`. -/
def canonicalText (floats : FloatText) (v : Value) : List Char := render floats (canonicalise v)

theorem loads_canonicalText (floats : FloatText) (v : Value) :
    loads floats (canonicalText floats v) = some (canonicalise v) :=
  loads_render floats (sorted_of_canonical (canonical_canonicalise v))

end Fiboki
