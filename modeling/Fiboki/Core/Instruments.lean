import Fiboki.Core.Enums
import Fiboki.Core.Text

/-!
Contract specifications, the UTC clock, and the size arithmetic that reads them.
-/

namespace Fiboki

open Text

def hourNs : ℤ := 3600 * 10 ^ 9

def dayNs : ℤ := 24 * hourNs

namespace Timestamp

def dayNumber (t : Timestamp) : ℤ := t / dayNs

def normalize (t : Timestamp) : Timestamp := dayNumber t * dayNs

def hour (t : Timestamp) : ℕ := (t % dayNs / hourNs).toNat

def dayofweek (t : Timestamp) : ℕ := ((dayNumber t + 3) % 7).toNat

def dayOfMonth (day : ℤ) : ℤ :=
  let z := day + 719468
  let doe := z % 146097
  let yoe := (doe - doe / 1460 + doe / 36524 - doe / 146096) / 365
  let doy := doe - (365 * yoe + yoe / 4 - yoe / 100)
  let mp := (5 * doy + 2) / 153
  doy - (153 * mp + 2) / 5 + 1

/-- `ts.day == ts.days_in_month`: the next day is the first of a month. -/
def isMonthEnd (t : Timestamp) : Bool := dayOfMonth (dayNumber t + 1) == 1

end Timestamp

structure Instrument where
  symbol : String
  assetClass : AssetClass
  quote : String
  pipSize : ℚ
  contractSize : ℚ
  minSize : ℚ
  sizeStep : ℚ
  typicalSpreadPips : ℚ
  typicalSpreadBps : Option ℚ
  retailLeverage : ℚ
  tradingHours : String
  shortable : Bool
  deriving DecidableEq

/-- The registry: every symbol asked for, to the one instrument of that symbol. -/
structure Registry where
  get : String → Instrument
  get_symbol : ∀ s, get (get s).symbol = get s

def unknownInstrument (symbol : String) : String :=
  "Unknown instrument " ++ pyRepr symbol ++ ". Register it in core/instruments.py — " ++
    "V2 refuses to guess contract specs, because guessing is how V1 " ++
    "produced wrong position sizes."

/-- `int(q)`: truncation toward zero. -/
def pyInt (q : ℚ) : ℤ := if 0 ≤ q then ⌊q⌋ else ⌈q⌉

/-- `round_size`: down to the size step. -/
def roundSize (instrument : Instrument) (size : ℚ) : ℚ :=
  if size ≤ 0 then 0
  else roundTo (pyInt (size / instrument.sizeStep + 1 / 10 ^ 9) * instrument.sizeStep) 10

/-- `snap_to_step`: a size within a relative billionth of a step boundary moves onto it. -/
def snapToStep (size step : ℚ) : ℚ :=
  if step ≤ 0 ∨ size ≤ 0 then size
  else
    let nearest := roundHalfEven (size / step)
    if 0 < nearest ∧ |size - nearest * step| ≤ 1 / 10 ^ 9 * max size step then nearest * step
    else size

end Fiboki
