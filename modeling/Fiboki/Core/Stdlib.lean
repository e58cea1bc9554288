import Fiboki.Core.Enums
import Fiboki.Core.Text
import Fiboki.Lib.Json

/-!
What stored records take from the language: the texts of numbers and instants, and the
readers of a value of any kind.
-/

namespace Fiboki

open Wire Text

/-- What the records take from the language: the texts of numbers and of instants in
UTC, and `int` and `str` of a value. -/
structure Stdlib where
  floats : Json.FloatText
  isoformat : Timestamp → String
  fromisoformat : String → Except String Timestamp
  fromisoformat_isoformat : ∀ t, fromisoformat (isoformat t) = .ok t
  isoformat_ascii : ∀ t, ∀ c ∈ (isoformat t).toList, c.toNat < 128
  int : Value → Except String ℤ
  int_int : ∀ z, int (.int z) = .ok z
  str : Value → String
  str_text : ∀ s, str (.str s) = s

def epochStdlib : Stdlib where
  floats := Json.ratioFloats
  isoformat t := if t = 0 then "1970-01-01T00:00:00+00:00" else String.ofList (Json.intText t)
  fromisoformat s :=
    if s = "1970-01-01T00:00:00+00:00" then .ok 0 else .ok (Json.readInt s.toList)
  fromisoformat_isoformat t := by
    by_cases ht : t = 0
    · rw [if_pos ht, if_pos rfl, ht]
    · have hne : String.ofList (Json.intText t) ≠ "1970-01-01T00:00:00+00:00" := by
        intro h
        have hchars := congrArg String.toList h
        rw [String.toList_ofList] at hchars
        have hcolon : ':' ∈ Json.intText t := by
          rw [hchars]
          decide
        have := Json.isNumberChar_intText hcolon
        cases this
      rw [if_neg ht, if_neg hne, String.toList_ofList, Json.readInt_intText]
  isoformat_ascii t := by
    intro c hc
    by_cases ht : t = 0
    · rw [if_pos ht] at hc
      exact Text.lt_of_isAscii (by decide) c hc
    · rw [if_neg ht, String.toList_ofList] at hc
      exact (Json.ascii_of_isNumberChar (Json.isNumberChar_intText hc)).2
  int v := match v with
    | .int z => .ok z
    | .bool b => .ok (if b then 1 else 0)
    | .num q => .ok (if 0 ≤ q then ⌊q⌋ else ⌈q⌉)
    | _ => .error "invalid literal for int()"
  int_int _ := rfl
  str v := match v with
    | .str s => s
    | .null => "None"
    | .bool true => "True"
    | .bool false => "False"
    | v => String.ofList (Json.render Json.ratioFloats v)
  str_text _ := rfl

/-- `Cls(value)`: the member of an enumeration with this value. -/
def memberOf {α : Type} (cls : String) (members : List α) (value : α → String) (s : String) :
    Except String α :=
  match members.find? fun a => value a == s with
  | some a => .ok a
  | none => .error (pyRepr s ++ " is not a valid " ++ cls)

variable (std : Stdlib)

/-- `Cls(v)` of a value that need not be a string. -/
def memberValue {α : Type} (cls : String) (members : List α) (value : α → String) :
    Value → Except String α
  | .str s => memberOf cls members value s
  | v => .error (std.str v ++ " is not a valid " ++ cls)

/-- `str(raw.get(key, default))`. -/
def textOr (raw : Value) (key default : String) : String :=
  match raw.get? key with
  | some v => std.str v
  | none => default

/-- `bool(v)`. -/
def truth : Value → Bool
  | .null => false
  | .bool b => b
  | .int z => z ≠ 0
  | .num q => q ≠ 0
  | .str s => s ≠ ""
  | .list xs => !xs.isEmpty
  | .dict es => !es.isEmpty
  | .nan | .inf _ => true

theorem memberValue_value {α : Type} {cls : String} {members : List α} {value : α → String} {a : α}
    (h : members.find? (fun b => value b == value a) = some a) :
    memberValue std cls members value (.str (value a)) = .ok a := by
  unfold memberValue memberOf
  simp only [h]

end Fiboki
