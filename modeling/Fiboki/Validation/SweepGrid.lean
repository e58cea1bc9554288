import Fiboki.Lib.Subsample
import Fiboki.Validation.Evaluation

/-!
The sweep of a strategy document: the declared domain of each parameter, what a sweep enumerates
of it, and the grid that is thinned to so many values an axis and so many points.
-/

namespace Fiboki

open Floating (Number)

namespace ParamValue

def key : ParamValue → ParamValue
  | bool b => float (.fin (if b then 1 else 0))
  | int z => float (.fin z)
  | v => v

/-- `v in values`. -/
def isIn (v : ParamValue) (values : List ParamValue) : Bool := values.any fun u => u.key = v.key

/-- `values.index(v)`. -/
def indexIn (values : List ParamValue) (v : ParamValue) : ℕ := values.findIdx fun u => u.key = v.key

def hashable : ParamValue → Bool
  | other _ => false
  | _ => true

/-- `float(v)` of an `int | float` that is no `bool`. -/
def toFloat : ParamValue → Option Number
  | int z => some (.fin z)
  | float x => some x
  | _ => Option.none

/-- The elements of `set(values)`. -/
def distinct : List ParamValue → List ParamValue
  | [] => []
  | v :: values => v :: (distinct values).filter fun u => u.key ≠ v.key

end ParamValue

open ParamValue (distinct indexIn)

inductive ParameterKind where
  | int
  | float
  | choice
  | bool
  deriving DecidableEq

def ParameterKind.value : ParameterKind → String
  | int => "int"
  | float => "float"
  | choice => "choice"
  | bool => "bool"

def integral : Number → Bool
  | .fin q => q = ⌊q⌋
  | _ => false

/-- `_domain_is_explicit` of a number. -/
def numberIsExplicit (kind : ParameterKind) (default : ParamValue)
    (minValue maxValue step : Option ℚ) : Except String Unit :=
  match minValue, maxValue with
  | some lo, some hi =>
    if hi < lo then .error "min_value must be <= max_value"
    else if step.any (· ≤ 0) then .error "step must be > 0"
    else
      match default.toFloat with
      | none => .error "numeric parameter default must be a number"
      | some x =>
        if !(Number.le (.fin lo) x && Number.le x (.fin hi)) then
          .error "default is outside its bounds"
        else if kind = .int ∧ integral x = false then
          .error "int parameter default must be integral"
        else .ok ()
  | _, _ => .error (kind.value ++ " parameter needs min_value and max_value")

def domainIsExplicit (kind : ParameterKind) (default : ParamValue)
    (minValue maxValue step : Option ℚ) (choices : Option (List ParamValue)) : Except String Unit :=
  match kind with
  | .int | .float => numberIsExplicit kind default minValue maxValue step
  | .choice =>
    match choices with
    | none | some [] => .error "choice parameter needs a non-empty choices list"
    | some choices =>
      if default.isIn choices then .ok () else .error "default is not in choices"
  | .bool =>
    match default with
    | .bool _ => .ok ()
    | _ => .error "bool parameter default must be a bool"

structure ParameterSpec where
  kind : ParameterKind
  default : ParamValue
  minValue : Option ℚ
  maxValue : Option ℚ
  step : Option ℚ
  choices : Option (List ParamValue)
  explicit : domainIsExplicit kind default minValue maxValue step choices = .ok ()

namespace ParameterSpec

variable (spec : ParameterSpec)

def lo : ℚ := spec.minValue.getD 0

def hi : ℚ := spec.maxValue.getD 0

def assertInDomain (name : String) (value : ParamValue) : Except String ParamValue :=
  match spec.kind with
  | .bool =>
    match value with
    | .bool b => .ok (.bool b)
    | _ => .error (name ++ ": not a bool")
  | .choice =>
    if value.isIn (spec.choices.getD []) then .ok value
    else .error (name ++ ": not one of the choices")
  | .int | .float =>
    match value.toFloat with
    | none => .error (name ++ ": not a number")
    | some x =>
      if !(Number.le (.fin spec.lo) x && Number.le x (.fin spec.hi)) then
        .error (name ++ ": outside the declared domain")
      else if spec.kind = .int then
        match x with
        | .fin q => if q = ⌊q⌋ then .ok (.int ⌊q⌋) else .error (name ++ ": not integral")
        | _ => .error (name ++ ": not integral")
      else .ok (.float x)

def stride : Option ℚ :=
  match spec.step with
  | some s => if s = 0 then (if spec.kind = .int then some 1 else none) else some s
  | none => if spec.kind = .int then some 1 else none

def walk (stop step : ℚ) : ℕ → ℚ → List ℚ
  | 0, _ => []
  | fuel + 1, v => if v ≤ stop then v :: walk stop step fuel (v + step) else []

def pointValue (v : ℚ) : ParamValue :=
  if spec.kind = .int then .int (Text.roundHalfEven v) else .float (.fin (Text.roundTo v 10))

def stopAt : ℚ := spec.hi + 1 / 10 ^ 12

def domain : Except String (List ParamValue) :=
  match spec.kind with
  | .bool => .ok [.bool false, .bool true]
  | .choice => .ok (spec.choices.getD [])
  | .int | .float =>
    match spec.stride with
    | none =>
      .error ("float parameter without a step has a continuous domain; " ++
        "sample it rather than enumerating")
    | some step =>
      .ok ((walk spec.stopAt step (⌊(spec.stopAt - spec.lo) / step⌋₊ + 1) spec.lo).map
        spec.pointValue)

def sampled (k : ℕ) : List ParamValue :=
  (List.range k).map fun i : ℕ =>
    .float (.fin (Text.roundTo (spec.lo + (spec.hi - spec.lo) * i / ((k : ℚ) - 1)) 10))

def enumerated (maxValuesPerAxis : ℤ) : List ParamValue :=
  match spec.domain with
  | .ok values => values
  | .error _ => spec.sampled (max 2 maxValuesPerAxis).toNat

end ParameterSpec

/-- `sorted({round(i * (n - 1) / (keep - 1)) for i in range(keep)})`. -/
def spread (n keep : ℕ) : List ℕ :=
  ((List.range keep).map fun i : ℕ =>
    (Text.roundHalfEven ((i : ℚ) * ((n : ℚ) - 1) / ((keep : ℚ) - 1))).toNat).dedup.insertionSort
      (· ≤ ·)

def thin (values : List ParamValue) (keep : ℤ) (default : ParamValue) :
    Except String (List ParamValue) :=
  let keep := (max 1 keep).toNat
  if values.length ≤ keep then .ok values
  else if keep = 1 then
    if default.isIn values then .ok [default] else .ok values[values.length / 2]?.toList
  else
    let chosen := Subsample.pick values (spread values.length keep)
    if default ≠ .none ∧ default.isIn values = true ∧ default.isIn chosen = false ∧
        2 < chosen.length then
      let chosen := chosen.set (1 + (chosen.length - 2) / 2) default
      if chosen.all ParamValue.hashable then
        .ok ((distinct chosen).insertionSort fun a b => indexIn values a ≤ indexIn values b)
      else .error "unhashable type"
    else .ok chosen

abbrev Axis := String × List ParamValue

def axisError (seen : List String) : List Axis → String
  | [] => ""
  | (name, values) :: axes =>
    if name ∈ seen then "duplicate parameter axis " ++ Text.pyRepr name
    else if values = [] then "parameter axis " ++ Text.pyRepr name ++ " has an empty domain"
    else axisError (name :: seen) axes

def sizeOf (axes : List Axis) : ℕ := (axes.map fun axis => axis.2.length).prod

def widest (axes : List Axis) : ℕ :=
  let width (i : ℕ) : ℕ := ((axes.map fun axis => axis.2.length)[i]?).getD 0
  (List.range axes.length).foldl (fun best i => if width best < width i then i else best) 0

/-- The loop of `capped`, as long as it has fuel. -/
def capLoop (maxPoints : ℤ) : ℕ → List Axis → Except String (List Axis)
  | 0, axes => .ok axes
  | fuel + 1, axes =>
    if (sizeOf axes : ℤ) ≤ maxPoints then .ok axes
    else
      match axes[widest axes]? with
      | none => .ok axes
      | some (name, values) =>
        if values.length ≤ 2 then .ok axes
        else do
          let values ← thin values (values.length - 1) .none
          capLoop maxPoints fuel (axes.set (widest axes) (name, values))

namespace ParameterGrid

/-- `__post_init__`. -/
def make (axes : List Axis) (truncatedFrom : ℕ) : Except String ParameterGrid :=
  if h : (axes.map Prod.fst).Nodup ∧ ∀ axis ∈ axes, axis.2 ≠ [] then
    .ok ⟨axes, truncatedFrom, h.1, h.2⟩
  else .error (axisError [] axes)

def capped (grid : ParameterGrid) (maxPoints : ℤ) : Except String ParameterGrid :=
  if maxPoints < 1 then .error "max_points must be >= 1"
  else if (grid.fullSize : ℤ) ≤ maxPoints ∨ grid.axes = [] then .ok grid
  else do
    let axes ← capLoop maxPoints (grid.axes.map fun axis => axis.2.length).sum grid.axes
    make axes grid.fullSize

def sweptSpecs (parameters : Dict String ParameterSpec) (include_ : Option (List String)) :
    List (String × ParameterSpec) :=
  parameters.entries.filter fun e => include_.all fun wanted => wanted.contains e.1

def declaredAxes (parameters : Dict String ParameterSpec) (include_ : Option (List String))
    (maxValuesPerAxis : ℤ) : Except String (List Axis) :=
  (sweptSpecs parameters include_).mapM fun e => do
    let values ← thin (e.2.enumerated maxValuesPerAxis) maxValuesPerAxis e.2.default
    .ok (e.1, values)

def fromDocument (parameters : Dict String ParameterSpec) (include_ : Option (List String))
    (maxValuesPerAxis maxPoints : ℤ) : Except String ParameterGrid := do
  let axes ← declaredAxes parameters include_ maxValuesPerAxis
  let grid ← make axes 0
  grid.capped maxPoints

end ParameterGrid

end Fiboki
