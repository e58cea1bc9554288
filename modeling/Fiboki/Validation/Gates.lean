import Fiboki.Lib.Floating
import Fiboki.Lib.JsonAscii
import Fiboki.Lib.Utf8
import Fiboki.Lib.Digests
import Fiboki.Core.Stdlib

/-!
Promotion gates as data: a named comparison of one measured value with a threshold.
-/

namespace Fiboki

open Wire
open Floating (Number)

def numberValue : Number → Value
  | .nan => .nan
  | .inf negative => .inf negative
  | .fin q => .num q

/-- What reports take from the language besides: `f"{x:.{digits}g}"`, and `float` of a
value. -/
structure Numerals extends Stdlib where
  general : ℕ → Number → String
  float : Value → Except String Number
  float_number : ∀ x, float (numberValue x) = .ok x

inductive Comparison where
  | gt
  | gte
  | lt
  | lte

namespace Comparison

def value : Comparison → String
  | gt => "gt"
  | gte => "gte"
  | lt => "lt"
  | lte => "lte"

def members : List Comparison := [gt, gte, lt, lte]

def symbol : Comparison → String
  | gt => ">"
  | gte => ">="
  | lt => "<"
  | lte => "<="

def wantsLarger : Comparison → Bool
  | gt | gte => true
  | lt | lte => false

def holds (comparison : Comparison) (value threshold : Number) : Bool :=
  if value.isfinite then
    match comparison with
    | gt => Number.lt threshold value
    | gte => Number.le threshold value
    | lt => Number.lt value threshold
    | lte => Number.le value threshold
  else false

end Comparison

inductive GateStatus where
  | pass
  | fail
  | notApplicable
  | notEvaluated
  deriving DecidableEq

namespace GateStatus

def value : GateStatus → String
  | pass => "pass"
  | fail => "fail"
  | notApplicable => "not_applicable"
  | notEvaluated => "not_evaluated"

def members : List GateStatus := [pass, fail, notApplicable, notEvaluated]

def blocksPromotion : GateStatus → Bool
  | fail | notEvaluated => true
  | pass | notApplicable => false

end GateStatus

/-- One promotion threshold; `rung` is the rung that produces its metric. -/
structure Gate where
  name : String
  metric : String
  comparison : Comparison
  threshold : Number
  rung : ℤ
  rationale : String
  boolean : Bool
  units : String

structure GateResult where
  gate : Gate
  value : Option Number
  status : GateStatus

namespace Gate

def evaluate (gate : Gate) (value : Option Number) (applicable : Bool) : GateResult :=
  if applicable then
    match value with
    | none => ⟨gate, none, .notEvaluated⟩
    | some v =>
      if v.isfinite then
        ⟨gate, some v, if gate.comparison.holds v gate.threshold then .pass else .fail⟩
      else ⟨gate, some v, .notEvaluated⟩
  else ⟨gate, none, .notApplicable⟩

/-- The entries of `toDict`. -/
def entries (gate : Gate) : List (String × Value) :=
  [("name", .str gate.name),
    ("metric", .str gate.metric),
    ("comparison", .str gate.comparison.value),
    ("threshold", numberValue gate.threshold),
    ("rung", .int gate.rung),
    ("boolean", .bool gate.boolean),
    ("units", .str gate.units),
    ("rationale", .str gate.rationale)]

def toDict (gate : Gate) : Value := .dict gate.entries

@[simp] theorem gate_evaluate (gate : Gate) (value : Option Number) (applicable : Bool) :
    (gate.evaluate value applicable).gate = gate := by
  unfold evaluate
  cases applicable with
  | false => rfl
  | true =>
    cases value with
    | none => rfl
    | some v =>
      simp only [if_true]
      split_ifs <;> rfl

end Gate

namespace GateResult

def passed (r : GateResult) : Bool := decide (r.status = .pass)

def shortfall (r : GateResult) : Option Number :=
  match r.value with
  | none => none
  | some v =>
    if v.isfinite then
      some (Number.max0 (if r.gate.comparison.wantsLarger then r.gate.threshold - v
        else v - r.gate.threshold))
    else none

variable (text : Numerals)

def describe (r : GateResult) : String :=
  let g := r.gate
  match r.value with
  | none =>
    g.name ++ ": " ++ r.status.value ++ " (required " ++ g.comparison.symbol ++ " " ++
      text.general 6 g.threshold ++ ")"
  | some v =>
    if g.boolean then
      g.name ++ ": " ++ (if Number.le (.fin (1 / 2)) v then "yes" else "no") ++
        " (required yes) -> " ++ r.status.value
    else
      g.name ++ ": " ++ text.general 4 v ++ " vs required " ++ g.comparison.symbol ++ " " ++
        text.general 6 g.threshold ++ " -> " ++ r.status.value

/-- The entries of `toDict`. -/
def entries (r : GateResult) : List (String × Value) :=
  [("gate", r.gate.toDict),
    ("value", writeOption numberValue r.value),
    ("status", .str r.status.value),
    ("passed", .bool r.passed),
    ("shortfall", writeOption numberValue r.shortfall),
    ("description", .str (r.describe text))]

def toDict (r : GateResult) : Value := .dict (r.entries text)

end GateResult

/-- `min(items, key=key)`: the first of the least. -/
def minBy {α : Type} (key : α → ℤ) : List α → Option α
  | [] => none
  | x :: xs => some (xs.foldl (fun least y => if key y < key least then y else least) x)

variable {α : Type} {key : α → ℤ} {xs : List α}

@[simp] theorem minBy_eq_none : minBy key xs = none ↔ xs = [] := by
  cases xs with
  | nil => exact iff_of_true rfl rfl
  | cons x xs => exact iff_of_false nofun nofun

theorem mem_of_minBy {x : α} (h : minBy key xs = some x) : x ∈ xs := by
  have hfold : ∀ (ys : List α) (least : α),
      ys.foldl (fun least y => if key y < key least then y else least) least ∈ least :: ys := by
    intro ys
    induction ys with
    | nil => exact fun least => List.mem_cons_self ..
    | cons y ys ih =>
      intro least
      rw [List.foldl_cons]
      have hstep := ih (if key y < key least then y else least)
      split at hstep
      next hlt =>
        rw [if_pos hlt]
        exact List.mem_cons_of_mem _ hstep
      next hle =>
        rw [if_neg hle]
        rcases List.mem_cons.1 hstep with h | h
        · exact List.mem_cons.2 (.inl h)
        · exact List.mem_cons_of_mem _ (List.mem_cons_of_mem _ h)
  cases xs with
  | nil => cases h
  | cons y ys =>
    cases h
    exact hfold ys y

structure GateSet where
  version : String
  gates : List Gate
  nodup : (gates.map Gate.name).Nodup

namespace GateSet

variable (s : GateSet)

def byName (name : String) : Except String Gate :=
  match s.gates.find? fun g => g.name = name with
  | some g => .ok g
  | none => .error name

def evaluate (values : Dict String (Option Number)) (notApplicable : List String) :
    List GateResult :=
  s.gates.map fun gate =>
    gate.evaluate ((values.get gate.metric).join) (decide (gate.name ∉ notApplicable))

def bindingConstraint (results : List GateResult) : Option GateResult :=
  minBy (fun r => r.gate.rung) (results.filter fun r => r.status.blocksPromotion)

def fingerprint (text : Numerals) : String :=
  Sha256.hexdigest <| Utf8.encode <| Json.asciiText text.floats <|
    .dict [("version", .str s.version), ("gates", .list (s.gates.map Gate.toDict))]

def minTrlFloorTrades : ℤ := 150

def usesMinTrlGate : Bool :=
  match s.byName "min_trades" with
  | .ok g =>
    if g.metric = "n_trades" then false
    else s.gates.any fun g => decide (g.metric = "n_trades_over_min_trl")
  | .error _ => s.gates.any fun g => decide (g.metric = "n_trades_over_min_trl")

/-- `int(x)`. -/
def truncate : Number → Except String ℤ
  | .fin q => .ok (if 0 ≤ q then ⌊q⌋ else ⌈q⌉)
  | .nan => .error "cannot convert float NaN to integer"
  | .inf _ => .error "cannot convert float infinity to integer"

def sanityTradeFloor : Except String ℤ :=
  if s.usesMinTrlGate then .ok minTrlFloorTrades
  else do
    let g ← s.byName "min_trades"
    truncate g.threshold

end GateSet

end Fiboki
