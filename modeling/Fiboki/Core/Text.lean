import Mathlib.Data.List.DropRight
import Mathlib.Data.Rat.Floor

/-!
The Python text and number conventions that keys, messages and prices rely on:
truth of a string, `repr`, `round` to even, and the `:.10f` format.
-/

namespace Fiboki.Text

/-- `str.upper` of an instrument symbol, which is ASCII. -/
def upper (s : String) : String := String.ofList (s.toList.map Char.toUpper)

/-- `needle in hay`. -/
def contains (needle hay : String) : Bool :=
  hay.toList.tails.any fun rest => needle.toList.isPrefixOf rest

/-- `bool(s)` of an optional string. -/
def truthy (s : Option String) : Bool := s.getD "" != ""

/-- `a or b` of optional strings. -/
def pyOr (a b : Option String) : Option String := if truthy a then a else b

variable {s : String}

theorem truthy_some : truthy (some s) = true ↔ s ≠ "" := by
  simp [truthy]

theorem exists_of_truthy {s : Option String} (h : truthy s = true) : ∃ t, s = some t ∧ t ≠ "" := by
  cases s with
  | none => cases h
  | some t => exact ⟨t, rfl, truthy_some.1 h⟩

/-- `str.isspace` of one character. -/
def isSpace (c : Char) : Bool :=
  let n := c.toNat
  (9 ≤ n && n ≤ 13) || (28 ≤ n && n ≤ 32) || n == 0x85 || n == 0xA0 || n == 0x1680 ||
    (0x2000 ≤ n && n ≤ 0x200A) || n == 0x2028 || n == 0x2029 || n == 0x202F || n == 0x205F ||
    n == 0x3000

def strip (s : String) : List Char := (s.toList.dropWhile isSpace).rdropWhile isSpace

/-- `not s.strip()`. -/
def isBlank (s : String) : Bool := s.toList.all isSpace

/-- `s[:12]`. -/
def short (s : String) : String := String.ofList (s.toList.take 12)

def isAscii (s : String) : Bool := s.toList.all fun c => decide (c.toNat < 128)

theorem lt_of_isAscii (h : isAscii s = true) : ∀ c ∈ s.toList, c.toNat < 128 := by
  intro c hc
  exact of_decide_eq_true (List.all_eq_true.1 h c hc)

theorem isBlank_append_left (t : String) (h : isBlank s = false) : isBlank (s ++ t) = false := by
  unfold isBlank at h ⊢
  rw [String.toList_append, List.all_append, h, Bool.false_and]

def reprChar (quote : Char) (c : Char) : List Char :=
  if c = '\n' then ['\\', 'n']
  else if c = '\r' then ['\\', 'r']
  else if c = '\t' then ['\\', 't']
  else if c = '\\' then ['\\', '\\']
  else if c = quote then ['\\', c]
  else [c]

/-- `repr(s)` of a string of printable characters. -/
def pyRepr (s : String) : String :=
  let quote := if '\'' ∈ s.toList ∧ '"' ∉ s.toList then '"' else '\''
  String.ofList ([quote] ++ s.toList.flatMap (reprChar quote) ++ [quote])

/-- `repr(s)` of an optional string. -/
def reprOption : Option String → String
  | none => "None"
  | some s => pyRepr s

/-- `repr` of a list of strings. -/
def reprList (xs : List String) : String := "[" ++ String.intercalate ", " (xs.map pyRepr) ++ "]"

def roundHalfEven (q : ℚ) : ℤ :=
  let f := ⌊q⌋
  let r := q - f
  if r < 1 / 2 then f
  else if 1 / 2 < r then f + 1
  else if f % 2 = 0 then f else f + 1

/-- `float(q)` rounded to `digits` decimals. -/
def roundTo (q : ℚ) (digits : ℕ) : ℚ := (roundHalfEven (q * 10 ^ digits) : ℚ) / 10 ^ digits

theorem roundHalfEven_intCast (n : ℤ) : roundHalfEven (n : ℚ) = n := by
  simp [roundHalfEven]

variable {q : ℚ}

theorem roundHalfEven_nonneg (h : 0 ≤ q) : 0 ≤ roundHalfEven q := by
  have hf : 0 ≤ ⌊q⌋ := Int.floor_nonneg.2 h
  simp only [roundHalfEven]
  split_ifs <;> omega

theorem roundHalfEven_le_add_half (q : ℚ) : (roundHalfEven q : ℚ) ≤ q + 1 / 2 := by
  have hfloor := Int.floor_le q
  unfold roundHalfEven
  dsimp only
  split_ifs with hlow hhigh heven
  · linarith
  · push_cast
    linarith
  · linarith
  · push_cast
    linarith

theorem sub_half_le_roundHalfEven (q : ℚ) : q - 1 / 2 ≤ (roundHalfEven q : ℚ) := by
  have hfloor := Int.lt_floor_add_one q
  unfold roundHalfEven
  dsimp only
  split_ifs with hlow hhigh heven
  · linarith
  · push_cast
    linarith
  · linarith
  · push_cast
    linarith

theorem roundHalfEven_lt {p q : ℚ} (h : p + 1 < q) : roundHalfEven p < roundHalfEven q := by
  have hp := roundHalfEven_le_add_half p
  have hq := sub_half_le_roundHalfEven q
  have hlt : (roundHalfEven p : ℚ) < roundHalfEven q := by linarith
  exact_mod_cast hlt

theorem intCast_le_roundHalfEven {n : ℤ} (h : (n : ℚ) ≤ q) : n ≤ roundHalfEven q := by
  have hq := sub_half_le_roundHalfEven q
  have hlt : (n : ℚ) < roundHalfEven q + 1 := by linarith
  have hlt : n < roundHalfEven q + 1 := by exact_mod_cast hlt
  omega

theorem roundHalfEven_le_intCast {n : ℤ} (h : q ≤ n) : roundHalfEven q ≤ n := by
  have hq := roundHalfEven_le_add_half q
  have hlt : (roundHalfEven q : ℚ) < n + 1 := by linarith
  have hlt : roundHalfEven q < n + 1 := by exact_mod_cast hlt
  omega

/-- The magnitude of `x` in units of its tenth decimal, as `:.10f` rounds it. -/
def units10 (x : ℚ) : ℕ := (roundHalfEven (|x| * 10 ^ 10)).toNat

def digits (n : ℕ) : List Char := Nat.toDigits 10 n

/-- `n` in at least ten digits. -/
def padded10 (n : ℕ) : List Char := List.replicate (10 - (digits n).length) '0' ++ digits n

def fixed10Chars (x : ℚ) : List Char :=
  (if x < 0 then ['-'] else []) ++ digits (units10 x / 10 ^ 10) ++ '.' ::
    padded10 (units10 x % 10 ^ 10)

/-- `f"{x:.10f}"`. -/
def fixed10 (x : ℚ) : String := String.ofList (fixed10Chars x)

/-- `f"{x:.3f}"`. -/
def fixed3 (x : ℚ) : String :=
  let units := (roundHalfEven (|x| * 10 ^ 3)).toNat
  let decimals := digits (units % 10 ^ 3)
  String.ofList ((if x < 0 then ['-'] else []) ++ digits (units / 10 ^ 3) ++ '.' ::
    List.replicate (3 - decimals.length) '0' ++ decimals)

/-- `f"{x:.0%}"`. -/
def percent (x : ℚ) : String :=
  String.ofList ((if x < 0 then ['-'] else []) ++ digits (roundHalfEven (|x| * 100)).toNat ++ ['%'])

theorem isDigit_of_mem_digits {n : ℕ} {c : Char} (h : c ∈ digits n) : c.isDigit :=
  Nat.isDigit_of_mem_toDigits (by omega) (by omega) h

/-- `str(n)` of a natural number. -/
def natText (n : ℕ) : String := String.ofList (digits n)

/-- `int(s)` of a string of digits. -/
def natOfText (s : String) : Except String ℕ :=
  if s.toList ≠ [] ∧ s.toList.all Char.isDigit then .ok (Nat.ofDigitChars 10 s.toList 0)
  else .error ("invalid literal for int() with base 10: " ++ pyRepr s)

theorem natOfText_natText (n : ℕ) : natOfText (natText n) = .ok n := by
  have hne : digits n ≠ [] := Nat.toDigits_ne_nil
  have hall : (digits n).all Char.isDigit = true :=
    List.all_eq_true.2 fun c hc => isDigit_of_mem_digits hc
  unfold natOfText natText
  rw [String.toList_ofList, if_pos ⟨hne, hall⟩]
  exact congrArg Except.ok Nat.ofDigitChars_ten_toDigits

example : fixed10 (1 / 3) = "0.3333333333" := by decide +kernel

end Fiboki.Text
