import Fiboki.Lib.Wire
import Mathlib.Data.List.TakeWhile
import Mathlib.Tactic.IntervalCases

/-!
The JSON text of a value: a writer without blanks and with sorted keys that escapes
only what it must, and a reader of every JSON text.

The reader undoes the writer, and no proper prefix of a written object, array or
string can be read.
-/

namespace Json

open Wire

def natText (n : ℕ) : List Char := Nat.toDigits 10 n

def intText (z : ℤ) : List Char :=
  if z < 0 then '-' :: natText z.natAbs else natText z.natAbs

def exponentOk : List Char → Bool
  | [] => true
  | c :: rest =>
    let ds := match rest with
      | '+' :: ds => ds
      | '-' :: ds => ds
      | ds => ds
    (c == 'e' || c == 'E') && !ds.isEmpty && ds.all Char.isDigit

def fractionOk : List Char → Bool
  | '.' :: rest => !(rest.takeWhile Char.isDigit).isEmpty &&
      exponentOk (rest.dropWhile Char.isDigit)
  | rest => exponentOk rest

def unsigned : List Char → List Char
  | '-' :: rest => rest
  | rest => rest

def unsignedShape (body : List Char) : Option Bool :=
  let whole := body.takeWhile Char.isDigit
  let rest := body.dropWhile Char.isDigit
  if whole = [] ∨ (whole.head? = some '0' ∧ whole.length ≠ 1) then none
  else if rest = [] then some false
  else if fractionOk rest then some true
  else none

def numberShape (token : List Char) : Option Bool := unsignedShape (unsigned token)

def readInt : List Char → ℤ
  | '-' :: ds => -(Nat.ofDigitChars 10 ds 0 : ℤ)
  | ds => Nat.ofDigitChars 10 ds 0

/-- The shortest text of a floating-point number, and the reading of any such text;
a text beyond the largest number reads as infinite. -/
structure FloatText where
  text : ℚ → List Char
  parse : List Char → Option ℚ
  parse_text : ∀ q, parse (text q) = some q
  shape_text : ∀ q, numberShape (text q) = some true

def isNumberChar (c : Char) : Bool :=
  c.isDigit || c == '-' || c == '+' || c == '.' || c == 'e' || c == 'E'

variable (floats : FloatText)

def readNumber (token : List Char) : Option Value :=
  match numberShape token with
  | none => none
  | some false => some (.int (readInt token))
  | some true =>
    match floats.parse token with
    | some q => some (.num q)
    | none => some (.inf (token.head? == some '-'))

def number (cs : List Char) : Option (Value × List Char) :=
  (readNumber floats (cs.takeWhile isNumberChar)).map fun v => (v, cs.dropWhile isNumberChar)

def hexDigit (n : ℕ) : Char := Nat.digitChar n

def hexVal (c : Char) : Option ℕ :=
  if c.isDigit then some (c.toNat - '0'.toNat)
  else if 'a' ≤ c ∧ c ≤ 'f' then some (c.toNat - 'a'.toNat + 10)
  else if 'A' ≤ c ∧ c ≤ 'F' then some (c.toNat - 'A'.toNat + 10)
  else none

def hex4 (a b c d : Char) : Option ℕ := do
  return (((← hexVal a) * 16 + (← hexVal b)) * 16 + (← hexVal c)) * 16 + (← hexVal d)

def escapeChar (c : Char) : List Char :=
  if c = '"' then ['\\', '"']
  else if c = '\\' then ['\\', '\\']
  else if c = '\n' then ['\\', 'n']
  else if c = '\r' then ['\\', 'r']
  else if c = '\t' then ['\\', 't']
  else if c = '\x08' then ['\\', 'b']
  else if c = '\x0c' then ['\\', 'f']
  else if c.toNat < 32 then ['\\', 'u', '0', '0', hexDigit (c.toNat / 16), hexDigit (c.toNat % 16)]
  else [c]

def stringText (s : String) : List Char := '"' :: s.toList.flatMap escapeChar ++ ['"']

def simpleEscape : Char → Option ℕ
  | '"' => some '"'.toNat
  | '\\' => some '\\'.toNat
  | '/' => some '/'.toNat
  | 'b' => some 8
  | 'f' => some 12
  | 'n' => some 10
  | 'r' => some 13
  | 't' => some 9
  | _ => none

def scanUnits : List Char → Option (List ℕ × List Char)
  | [] => none
  | '"' :: rest => some ([], rest)
  | '\\' :: 'u' :: a :: b :: c :: d :: rest => do
    let unit ← hex4 a b c d
    let (units, rest) ← scanUnits rest
    return (unit :: units, rest)
  | '\\' :: c :: rest => do
    let unit ← simpleEscape c
    let (units, rest) ← scanUnits rest
    return (unit :: units, rest)
  | c :: rest =>
    if c = '\\' ∨ c.toNat < 32 then none
    else do
      let (units, rest) ← scanUnits rest
      return (c.toNat :: units, rest)

def unitChar (u : ℕ) : Char := if u.isValidChar then Char.ofNat u else '\uFFFD'

def joinUnits : List ℕ → List Char
  | [] => []
  | [u] => [unitChar u]
  | u :: v :: rest =>
    if 0xD800 ≤ u ∧ u < 0xDC00 ∧ 0xDC00 ≤ v ∧ v < 0xE000 then
      unitChar (0x10000 + (u - 0xD800) * 0x400 + (v - 0xDC00)) :: joinUnits rest
    else unitChar u :: joinUnits (v :: rest)

def scanString (cs : List Char) : Option (String × List Char) :=
  (scanUnits cs).map fun r => (String.ofList (joinUnits r.1), r.2)

mutual
/-- `json.dumps(v, separators=(",", ":"), ensure_ascii=False)`. -/
def render : Value → List Char
  | .null => ['n', 'u', 'l', 'l']
  | .nan => ['N', 'a', 'N']
  | .inf false => ['I', 'n', 'f', 'i', 'n', 'i', 't', 'y']
  | .inf true => ['-', 'I', 'n', 'f', 'i', 'n', 'i', 't', 'y']
  | .bool true => ['t', 'r', 'u', 'e']
  | .bool false => ['f', 'a', 'l', 's', 'e']
  | .int z => intText z
  | .num q => floats.text q
  | .str s => stringText s
  | .list xs => '[' :: renderItems xs ++ [']']
  | .dict es => '{' :: renderFields es ++ ['}']

def renderItems : List Value → List Char
  | [] => []
  | [x] => render x
  | x :: y :: rest => render x ++ ',' :: renderItems (y :: rest)

def renderFields : List (String × Value) → List Char
  | [] => []
  | [(k, v)] => stringText k ++ ':' :: render v
  | (k, v) :: e :: rest => stringText k ++ ':' :: render v ++ ',' :: renderFields (e :: rest)
end

def isBlank (c : Char) : Bool := c == ' ' || c == '\t' || c == '\n' || c == '\r'

def skip (cs : List Char) : List Char := cs.dropWhile isBlank

mutual
def value : ℕ → List Char → Option (Value × List Char)
  | 0, _ => none
  | n + 1, cs =>
    match cs with
    | '"' :: rest => (scanString rest).map fun r => (.str r.1, r.2)
    | '[' :: rest =>
      match skip rest with
      | ']' :: rest => some (.list [], rest)
      | rest => (items n rest).map fun r => (.list r.1, r.2)
    | '{' :: rest =>
      match skip rest with
      | '}' :: rest => some (.dict [], rest)
      | rest => (fields n rest).map fun r => (.dict (Dict.ofList r.1).entries, r.2)
    | 'n' :: 'u' :: 'l' :: 'l' :: rest => some (.null, rest)
    | 't' :: 'r' :: 'u' :: 'e' :: rest => some (.bool true, rest)
    | 'f' :: 'a' :: 'l' :: 's' :: 'e' :: rest => some (.bool false, rest)
    | 'N' :: 'a' :: 'N' :: rest => some (.nan, rest)
    | 'I' :: 'n' :: 'f' :: 'i' :: 'n' :: 'i' :: 't' :: 'y' :: rest => some (.inf false, rest)
    | '-' :: 'I' :: 'n' :: 'f' :: 'i' :: 'n' :: 'i' :: 't' :: 'y' :: rest => some (.inf true, rest)
    | cs => number floats cs

def items : ℕ → List Char → Option (List Value × List Char)
  | 0, _ => none
  | n + 1, cs => do
    let (v, rest) ← value n cs
    match skip rest with
    | ',' :: rest =>
      let (vs, rest) ← items n (skip rest)
      return (v :: vs, rest)
    | ']' :: rest => return ([v], rest)
    | _ => none

def fields : ℕ → List Char → Option (List (String × Value) × List Char)
  | 0, _ => none
  | n + 1, '"' :: cs => do
    let (k, rest) ← scanString cs
    match skip rest with
    | ':' :: rest =>
      let (v, rest) ← value n (skip rest)
      match skip rest with
      | ',' :: rest =>
        let (es, rest) ← fields n (skip rest)
        return ((k, v) :: es, rest)
      | '}' :: rest => return ([(k, v)], rest)
      | _ => none
    | _ => none
  | _ + 1, _ => none
end

/-- `json.loads(text)`, without its limits on the digits of an integer and on the depth of
nesting. -/
def loads (text : List Char) : Option Value :=
  match value floats (text.length + 1) (skip text) with
  | some (v, rest) => if skip rest = [] then some v else none
  | none => none

variable {c : Char}

theorem isDigit_natText {n : ℕ} (h : c ∈ natText n) : c.isDigit = true :=
  Nat.isDigit_of_mem_toDigits (by omega) (by omega) h

theorem head_natText {n : ℕ} (hn : 0 < n) : (natText n).head? ≠ some '0' := by
  induction n using Nat.strongRecOn with
  | ind n ih =>
    unfold natText
    by_cases hsmall : n < 10
    · rw [Nat.toDigits_of_lt_base hsmall]
      interval_cases n <;> decide
    · rw [Nat.toDigits_of_base_le (by omega) (by omega)]
      have hdiv := ih (n / 10) (by omega) (by omega)
      have hne : natText (n / 10) ≠ [] := Nat.toDigits_ne_nil
      unfold natText at hdiv hne
      rwa [List.head?_append_of_ne_nil _ hne]

variable (n : ℕ)

theorem span_natText :
    (natText n).takeWhile Char.isDigit = natText n ∧ (natText n).dropWhile Char.isDigit = [] := by
  constructor
  · exact List.takeWhile_eq_self_iff.2 fun c hc => isDigit_natText hc
  · exact List.dropWhile_eq_nil_iff.2 fun c hc => isDigit_natText hc

variable {rest : List Char}

theorem minus_ne_natText {n : ℕ} : natText n ≠ '-' :: rest := by
  intro h
  have hd := isDigit_natText (n := n) (c := '-') (by rw [h]; exact List.mem_cons_self)
  cases hd

theorem unsigned_natText : unsigned (natText n) = natText n := by
  unfold unsigned
  split
  · rename_i rest h
    exact absurd h minus_ne_natText
  · rfl

variable (z : ℤ)

theorem unsigned_intText : unsigned (intText z) = natText z.natAbs := by
  unfold intText
  split
  · rfl
  · exact unsigned_natText z.natAbs

theorem whole_natText :
    ¬ (natText n = [] ∨ ((natText n).head? = some '0' ∧ (natText n).length ≠ 1)) := by
  rintro (hnil | ⟨hhead, hlen⟩)
  · exact Nat.toDigits_ne_nil hnil
  · rcases Nat.eq_zero_or_pos n with hn | hn
    · rw [hn] at hlen
      exact hlen rfl
    · exact head_natText hn hhead

theorem numberShape_intText : numberShape (intText z) = some false := by
  unfold numberShape unsignedShape
  rw [unsigned_intText, (span_natText _).1, (span_natText _).2]
  dsimp only
  rw [if_neg (whole_natText _), if_pos rfl]

theorem readInt_natText : readInt (natText n) = n := by
  unfold readInt
  split
  · rename_i ds h
    exact absurd h minus_ne_natText
  · rw [natText, Nat.ofDigitChars_ten_toDigits]

theorem readInt_intText : readInt (intText z) = z := by
  unfold intText
  split
  · change -((Nat.ofDigitChars 10 (natText z.natAbs) 0 : ℕ) : ℤ) = z
    rw [natText, Nat.ofDigitChars_ten_toDigits]
    omega
  · rw [readInt_natText]
    omega

theorem isNumberChar_of_isDigit (h : c.isDigit = true) : isNumberChar c = true := by
  simp [isNumberChar, h]

variable {cs : List Char}

theorem isNumberChar_exponent (h : exponentOk cs = true) : ∀ c ∈ cs, isNumberChar c = true := by
  intro c hc
  cases cs with
  | nil => cases hc
  | cons a rest =>
    simp only [exponentOk, Bool.and_eq_true, Bool.or_eq_true, beq_iff_eq, List.all_eq_true] at h
    obtain ⟨⟨ha, -⟩, hds⟩ := h
    rcases List.mem_cons.1 hc with rfl | hc
    · rcases ha with rfl | rfl <;> rfl
    · split at hds
      · rcases List.mem_cons.1 hc with rfl | hc
        · rfl
        · exact isNumberChar_of_isDigit (hds c hc)
      · rcases List.mem_cons.1 hc with rfl | hc
        · rfl
        · exact isNumberChar_of_isDigit (hds c hc)
      · exact isNumberChar_of_isDigit (hds c hc)

theorem isNumberChar_digits (h : ∀ c ∈ cs.dropWhile Char.isDigit, isNumberChar c = true) :
    ∀ c ∈ cs, isNumberChar c = true := by
  intro c hc
  rw [← List.takeWhile_append_dropWhile (p := Char.isDigit) (l := cs)] at hc
  rcases List.mem_append.1 hc with hc | hc
  · exact isNumberChar_of_isDigit (List.mem_takeWhile_imp hc)
  · exact h c hc

theorem isNumberChar_fraction (h : fractionOk cs = true) : ∀ c ∈ cs, isNumberChar c = true := by
  unfold fractionOk at h
  split at h
  · rename_i rest
    simp only [Bool.and_eq_true] at h
    intro c hc
    rcases List.mem_cons.1 hc with rfl | hc
    · rfl
    · exact isNumberChar_digits (isNumberChar_exponent h.2) c hc
  · exact isNumberChar_exponent h

variable {body : List Char} {b : Bool}

theorem unsignedShape_some (h : unsignedShape body = some b) :
    (∀ c ∈ body, isNumberChar c = true) ∧ ∃ c rest, body = c :: rest ∧ c.isDigit = true := by
  unfold unsignedShape at h
  dsimp only at h
  split at h
  · cases h
  · rename_i hwhole
    constructor
    · apply isNumberChar_digits
      split at h
      · rename_i hrest
        simp [hrest]
      · split at h
        · rename_i hfraction
          exact isNumberChar_fraction hfraction
        · cases h
    · cases body with
      | nil => simp at hwhole
      | cons c rest =>
        refine ⟨c, rest, rfl, ?_⟩
        by_contra hc
        simp [hc] at hwhole

def NumberHead (cs : List Char) : Prop :=
  ∃ c r, (cs = c :: r ∨ cs = '-' :: c :: r) ∧ c.isDigit = true

variable {token : List Char}

theorem numberHead_append (h : NumberHead token) (rest : List Char) :
    NumberHead (token ++ rest) := by
  obtain ⟨c, r, heq, hc⟩ := h
  rcases heq with rfl | rfl
  · exact ⟨c, r ++ rest, .inl rfl, hc⟩
  · exact ⟨c, r ++ rest, .inr rfl, hc⟩

theorem numberShape_some (h : numberShape token = some b) :
    (∀ c ∈ token, isNumberChar c = true) ∧ NumberHead token := by
  unfold numberShape at h
  obtain ⟨hall, c, rest, hbody, hc⟩ := unsignedShape_some h
  unfold unsigned at hall hbody
  split at hbody
  · subst hbody
    refine ⟨?_, c, rest, .inr rfl, hc⟩
    intro x hx
    rcases List.mem_cons.1 hx with rfl | hx
    · rfl
    · exact hall x hx
  · subst hbody
    refine ⟨?_, c, rest, .inl rfl, hc⟩
    rename_i hminus
    split at hall
    · rename_i heq
      exact absurd heq (hminus _)
    · exact hall

theorem isValidChar_toNat (c : Char) : c.toNat.isValidChar := c.valid

theorem unitChar_toNat (c : Char) : unitChar c.toNat = c := by
  unfold unitChar
  rw [if_pos (isValidChar_toNat c)]
  exact Char.ofNat_toNat c

theorem not_surrogate (c : Char) : ¬ (0xD800 ≤ c.toNat ∧ c.toNat < 0xE000) := by
  have h := isValidChar_toNat c
  unfold Nat.isValidChar at h
  omega

theorem joinUnits_map (cs : List Char) : joinUnits (cs.map Char.toNat) = cs := by
  induction cs with
  | nil => rfl
  | cons c cs ih =>
    cases cs with
    | nil => simp [joinUnits, unitChar_toNat]
    | cons d cs =>
      have hc := not_surrogate c
      rw [List.map_cons, List.map_cons, joinUnits, if_neg (by omega), unitChar_toNat]
      rw [List.map_cons] at ih
      rw [ih]

theorem hexVal_hexDigit : ∀ n < 16, hexVal (hexDigit n) = some n := by decide

theorem hex4_control (h : c.toNat < 32) :
    hex4 '0' '0' (hexDigit (c.toNat / 16)) (hexDigit (c.toNat % 16)) = some c.toNat := by
  have hzero : hexVal '0' = some 0 := rfl
  unfold hex4
  rw [hzero, hexVal_hexDigit _ (by omega), hexVal_hexDigit _ (by omega)]
  simp only [Option.bind_eq_bind, Option.bind_some, Option.pure_def, Option.some.injEq]
  omega

theorem scanUnits_plain (hquote : c ≠ '"') (hslash : c ≠ '\\') (hctrl : ¬ c.toNat < 32) :
    scanUnits (c :: rest) = (scanUnits rest).map fun r => (c.toNat :: r.1, r.2) := by
  rw [scanUnits.eq_def]
  split
  · rename_i h
    cases h
  · rename_i h
    cases h
    exact absurd rfl hquote
  · rename_i h
    cases h
    exact absurd rfl hslash
  · rename_i h
    cases h
    exact absurd rfl hslash
  · rename_i h
    cases h
    rw [if_neg (not_or.2 ⟨hslash, hctrl⟩)]
    cases scanUnits rest <;> rfl

theorem scanUnits_escapeChar (c : Char) (rest : List Char) :
    scanUnits (escapeChar c ++ rest) = (scanUnits rest).map fun r => (c.toNat :: r.1, r.2) := by
  unfold escapeChar
  split_ifs with h1 h2 h3 h4 h5 h6 h7 h8
  · subst h1
    cases h : scanUnits rest <;> simp [scanUnits, simpleEscape, h]
  · subst h2
    cases h : scanUnits rest <;> simp [scanUnits, simpleEscape, h]
  · subst h3
    cases h : scanUnits rest <;> simp [scanUnits, simpleEscape, h]
  · subst h4
    cases h : scanUnits rest <;> simp [scanUnits, simpleEscape, h]
  · subst h5
    cases h : scanUnits rest <;> simp [scanUnits, simpleEscape, h]
  · subst h6
    cases h : scanUnits rest <;> simp [scanUnits, simpleEscape, h]
  · subst h7
    cases h : scanUnits rest <;> simp [scanUnits, simpleEscape, h]
  · rw [List.cons_append, List.cons_append, List.cons_append, List.cons_append, List.cons_append,
      List.cons_append, List.nil_append, scanUnits, hex4_control h8]
    cases scanUnits rest <;> rfl
  · exact scanUnits_plain h1 h2 h8

/-- How a character is written between quotes, and the code units that are read back. -/
structure Escape where
  char : Char → List Char
  units : Char → List ℕ
  scan_char : ∀ c rest, scanUnits (char c ++ rest) =
    (scanUnits rest).map fun r => (units c ++ r.1, r.2)
  join_units : ∀ cs, joinUnits (cs.flatMap units) = cs

namespace Escape

/-- `ensure_ascii=False`. -/
def plain : Escape where
  char := escapeChar
  units c := [c.toNat]
  scan_char := scanUnits_escapeChar
  join_units cs := by
    have hflat : cs.flatMap (fun c => [c.toNat]) = cs.map Char.toNat := List.flatMap_pure_eq_map _ _
    rw [hflat]
    exact joinUnits_map cs

variable (esc : Escape)

theorem scan_text (cs rest : List Char) :
    scanUnits (cs.flatMap esc.char ++ '"' :: rest) = some (cs.flatMap esc.units, rest) := by
  induction cs with
  | nil => rfl
  | cons c cs ih =>
    rw [List.flatMap_cons, List.append_assoc, esc.scan_char, ih]
    rfl

theorem scan_string (s : String) (rest : List Char) :
    scanString (s.toList.flatMap esc.char ++ '"' :: rest) = some (s, rest) := by
  unfold scanString
  rw [esc.scan_text, Option.map_some, esc.join_units, String.ofList_toList]

end Escape

theorem scanUnits_append {units : List ℕ} (h : scanUnits cs = some (units, rest))
    (more : List Char) : scanUnits (cs ++ more) = some (units, rest ++ more) := by
  fun_induction scanUnits cs generalizing units rest with
  | case1 => cases h
  | case2 tail =>
    cases h
    rfl
  | case3 a b c d tail ih =>
    simp only [Option.bind_eq_bind, Option.bind_eq_some_iff, Option.pure_def, Option.some.injEq,
      Prod.mk.injEq] at h
    obtain ⟨unit, hunit, ⟨us, r⟩, hrest, rfl, rfl⟩ := h
    simp only [List.cons_append, scanUnits, hunit, ih hrest, Option.bind_eq_bind, Option.bind_some,
      Option.pure_def]
  | case4 c tail hne ih =>
    simp only [Option.bind_eq_bind, Option.bind_eq_some_iff, Option.pure_def, Option.some.injEq,
      Prod.mk.injEq] at h
    obtain ⟨unit, hunit, ⟨us, r⟩, hrest, rfl, rfl⟩ := h
    have hu : c ≠ 'u' := by
      rintro rfl
      cases hunit
    rw [List.cons_append, List.cons_append, scanUnits]
    · simp only [hunit, ih hrest, Option.bind_eq_bind, Option.bind_some, Option.pure_def]
    · rintro a b c' d tail' rfl
      exact absurd rfl hu
  | case5 c tail hquote hu hslash hbad => cases h
  | case6 c tail hquote hu hslash hgood ih =>
    simp only [Option.bind_eq_bind, Option.bind_eq_some_iff, Option.pure_def, Option.some.injEq,
      Prod.mk.injEq] at h
    obtain ⟨⟨us, r⟩, hrest, rfl, rfl⟩ := h
    rw [not_or] at hgood
    rw [List.cons_append, scanUnits_plain hquote hgood.1 hgood.2, ih hrest]
    rfl

variable {s : String}

theorem scanString_append (h : scanString cs = some (s, rest)) (more : List Char) :
    scanString (cs ++ more) = some (s, rest ++ more) := by
  unfold scanString at h ⊢
  cases hu : scanUnits cs with
  | none => simp [hu] at h
  | some r =>
    rw [hu] at h
    cases h
    rw [scanUnits_append hu]
    rfl

mutual
def Sorted : Value → Prop
  | .list xs => SortedItems xs
  | .dict es => es.Pairwise (fun a b => a.1 < b.1) ∧ SortedFields es
  | _ => True

def SortedItems : List Value → Prop
  | [] => True
  | x :: xs => Sorted x ∧ SortedItems xs

def SortedFields : List (String × Value) → Prop
  | [] => True
  | e :: es => Sorted e.2 ∧ SortedFields es
end

def Delimited (rest : List Char) : Prop := ∀ c r, rest = c :: r → isNumberChar c = false

theorem delimited_cons (h : isNumberChar c = false) : Delimited (c :: rest) := by
  intro c' r heq
  cases heq
  exact h

theorem span_number {token rest : List Char} (h : ∀ c ∈ token, isNumberChar c = true)
    (hrest : Delimited rest) :
    (token ++ rest).takeWhile isNumberChar = token ∧
      (token ++ rest).dropWhile isNumberChar = rest := by
  have hstop : rest.takeWhile isNumberChar = [] ∧ rest.dropWhile isNumberChar = rest := by
    cases rest with
    | nil => exact ⟨rfl, rfl⟩
    | cons c r =>
      have hc := hrest c r rfl
      simp [hc]
  constructor
  · rw [List.takeWhile_append_of_pos h, hstop.1, List.append_nil]
  · rw [List.dropWhile_append_of_pos h, hstop.2]

theorem number_token {token rest : List Char} (h : numberShape token = some b)
    (hrest : Delimited rest) :
    number floats (token ++ rest) = (readNumber floats token).map fun v => (v, rest) := by
  unfold number
  obtain ⟨hspan, hdrop⟩ := span_number (numberShape_some h).1 hrest
  rw [hspan, hdrop]

theorem value_number (h : NumberHead cs) (n : ℕ) : value floats (n + 1) cs = number floats cs := by
  obtain ⟨c, r, heq, hc⟩ := h
  rw [value]
  all_goals
    intro rest hkeyword
    rcases heq with rfl | rfl
    · cases hkeyword
      cases hc
    · cases hkeyword <;> cases hc

/-- How strings are escaped, and what stands before an item at a depth and after a colon. -/
structure Style where
  escape : Escape
  newline : ℕ → List Char
  gap : List Char
  newline_blank : ∀ d, ∀ c ∈ newline d, isBlank c = true
  gap_blank : ∀ c ∈ gap, isBlank c = true

variable (style : Style)

def quote (s : String) : List Char := '"' :: s.toList.flatMap style.escape.char ++ ['"']

mutual
/-- `json.dumps` of a value at a depth, in a style. -/
def write : ℕ → Value → List Char
  | _, .null => ['n', 'u', 'l', 'l']
  | _, .nan => ['N', 'a', 'N']
  | _, .inf false => ['I', 'n', 'f', 'i', 'n', 'i', 't', 'y']
  | _, .inf true => ['-', 'I', 'n', 'f', 'i', 'n', 'i', 't', 'y']
  | _, .bool true => ['t', 'r', 'u', 'e']
  | _, .bool false => ['f', 'a', 'l', 's', 'e']
  | _, .int z => intText z
  | _, .num q => floats.text q
  | _, .str s => quote style s
  | d, .list xs =>
    '[' :: (if xs.isEmpty then [] else style.newline (d + 1)) ++ writeItems (d + 1) xs ++
      (if xs.isEmpty then [] else style.newline d) ++ [']']
  | d, .dict es =>
    '{' :: (if es.isEmpty then [] else style.newline (d + 1)) ++ writeFields (d + 1) es ++
      (if es.isEmpty then [] else style.newline d) ++ ['}']

def writeItems : ℕ → List Value → List Char
  | _, [] => []
  | d, [x] => write d x
  | d, x :: y :: rest => write d x ++ ',' :: style.newline d ++ writeItems d (y :: rest)

def writeFields : ℕ → List (String × Value) → List Char
  | _, [] => []
  | d, [(k, v)] => quote style k ++ ':' :: style.gap ++ write d v
  | d, (k, v) :: e :: rest =>
    quote style k ++ ':' :: style.gap ++ write d v ++ ',' :: style.newline d ++
      writeFields d (e :: rest)
end

theorem nothing_blank : ∀ c ∈ ([] : List Char), isBlank c = true :=
    fun _ h => absurd h List.not_mem_nil

/-- `separators=(",", ":")` and no indent. -/
def compact (escape : Escape) : Style :=
    ⟨escape, fun _ => [], [], fun _ => nothing_blank, nothing_blank⟩

mutual
theorem write_compact : ∀ (d : ℕ) (v : Value), write floats (compact .plain) d v = render floats v
  | _, .null | _, .nan | _, .int _ | _, .num _ | _, .str _ => rfl
  | _, .inf negative => by cases negative <;> rfl
  | _, .bool b => by cases b <;> rfl
  | d, .list xs => by
    have hxs := writeItems_compact (d + 1) xs
    rw [write, render, ← hxs]
    simp [compact]
  | d, .dict es => by
    have hes := writeFields_compact (d + 1) es
    rw [write, render, ← hes]
    simp [compact]

theorem writeItems_compact : ∀ (d : ℕ) (xs : List Value),
    writeItems floats (compact .plain) d xs = renderItems floats xs
  | _, [] => rfl
  | d, [x] => write_compact d x
  | d, x :: y :: rest => by
    rw [writeItems, renderItems, write_compact d x, writeItems_compact d (y :: rest)]
    simp only [compact, List.append_assoc, List.cons_append, List.nil_append]

theorem writeFields_compact : ∀ (d : ℕ) (es : List (String × Value)),
    writeFields floats (compact .plain) d es = renderFields floats es
  | _, [] => rfl
  | d, [(k, v)] => by
    rw [writeFields, renderFields, write_compact d v]
    simp only [compact, List.append_assoc, List.cons_append, List.nil_append]
    rfl
  | d, (k, v) :: e :: rest => by
    rw [writeFields, renderFields, write_compact d v, writeFields_compact d (e :: rest)]
    simp only [compact, List.append_assoc, List.cons_append, List.nil_append]
    rfl
end

variable (d : ℕ)

theorem write_head (v : Value) :
    ∃ c r, write floats style d v = c :: r ∧ isBlank c = false ∧ c ≠ ']' := by
  have hnumber : ∀ token b, numberShape token = some b →
      ∃ c r, token = c :: r ∧ isBlank c = false ∧ c ≠ ']' := by
    intro token b hshape
    have hall := (numberShape_some hshape).1
    have hhead := (numberShape_some hshape).2
    cases token with
    | nil =>
      obtain ⟨c, r, heq, -⟩ := hhead
      rcases heq with heq | heq <;> cases heq
    | cons c r =>
      have hc := hall c List.mem_cons_self
      refine ⟨c, r, rfl, ?_, ?_⟩
      · by_contra hblank
        simp only [Bool.not_eq_false, isBlank, Bool.or_eq_true, beq_iff_eq] at hblank
        rcases hblank with ((rfl | rfl) | rfl) | rfl <;> cases hc
      · rintro rfl
        cases hc
  cases v with
  | null | nan => exact ⟨_, _, rfl, rfl, by decide⟩
  | inf negative => cases negative <;> exact ⟨_, _, rfl, rfl, by decide⟩
  | bool b => cases b <;> exact ⟨_, _, rfl, rfl, by decide⟩
  | int z => exact hnumber _ _ (numberShape_intText z)
  | num q => exact hnumber _ _ (floats.shape_text q)
  | str s | list xs | dict es => exact ⟨_, _, rfl, rfl, by decide⟩

theorem skip_cons (h : isBlank c = false) : skip (c :: rest) = c :: rest := by
  simp [skip, h]

theorem skip_blanks {blanks rest : List Char} (h : ∀ b ∈ blanks, isBlank b = true)
    (hc : isBlank c = false) : skip (blanks ++ c :: rest) = c :: rest := by
  unfold skip
  rw [List.dropWhile_append_of_pos h]
  exact skip_cons hc

theorem skip_write {blanks : List Char} (h : ∀ b ∈ blanks, isBlank b = true) (d : ℕ) (v : Value)
    (rest : List Char) :
    skip (blanks ++ (write floats style d v ++ rest)) = write floats style d v ++ rest := by
  obtain ⟨c, r, heq, hc, -⟩ := write_head floats style d v
  rw [heq, List.cons_append, skip_blanks h hc]

theorem writeItems_head (x : Value) (xs : List Value) :
    ∃ c r, writeItems floats style d (x :: xs) = c :: r ∧ isBlank c = false ∧ c ≠ ']' := by
  obtain ⟨c, r, heq, hc, hne⟩ := write_head floats style d x
  cases xs with
  | nil => exact ⟨c, r, by rw [writeItems, heq], hc, hne⟩
  | cons y ys =>
    exact ⟨c, _, by rw [writeItems, heq, List.cons_append, List.cons_append], hc, hne⟩

theorem writeFields_head (e : String × Value) (es : List (String × Value)) :
    ∃ r, writeFields floats style d (e :: es) = '"' :: r := by
  obtain ⟨k, v⟩ := e
  cases es <;> exact ⟨_, rfl⟩

variable {r : List Char}

theorem value_list (h : skip body = c :: r) (hc : c ≠ ']') (n : ℕ) :
    value floats (n + 1) ('[' :: body) =
      (items floats n (c :: r)).map fun r => (.list r.1, r.2) := by
  rw [value, h]
  split
  · rename_i heq
    cases heq
    exact absurd rfl hc
  · rfl

theorem value_dict (h : skip body = '"' :: r) (n : ℕ) :
    value floats (n + 1) ('{' :: body) =
      (fields floats n ('"' :: r)).map fun r => (.dict (Dict.ofList r.1).entries, r.2) := by
  rw [value, h]
  rfl

theorem delimited_blanks {blanks rest : List Char} (h : ∀ b ∈ blanks, isBlank b = true)
    (hc : isNumberChar c = false) : Delimited (blanks ++ c :: rest) := by
  intro c' r heq
  cases blanks with
  | nil =>
    cases heq
    exact hc
  | cons b blanks =>
    have hb := h b List.mem_cons_self
    cases heq
    simp only [isBlank, Bool.or_eq_true, beq_iff_eq] at hb
    rcases hb with ((rfl | rfl) | rfl) | rfl <;> rfl

mutual
/-- `sort_keys=True`: the keys of every object in order. -/
def ordered : Value → Value
  | .dict es => .dict (Dict.ofList (orderedFields es)).entries
  | .list xs => .list (orderedItems xs)
  | v => v

def orderedItems : List Value → List Value
  | [] => []
  | x :: xs => ordered x :: orderedItems xs

def orderedFields : List (String × Value) → List (String × Value)
  | [] => []
  | e :: es => (e.1, ordered e.2) :: orderedFields es
end

mutual
theorem ordered_eq_self : ∀ v : Value, Sorted v → ordered v = v
  | .dict es, h => by
    have hentries := Dict.ofList_entries ⟨es, h.1⟩
    rw [ordered, orderedFields_eq_self es h.2]
    exact congrArg Value.dict (congrArg Dict.entries hentries)
  | .list xs, h => by rw [ordered, orderedItems_eq_self xs h]
  | .null, _ | .bool _, _ | .int _, _ | .num _, _ | .str _, _ | .nan, _ | .inf _, _ => rfl

theorem orderedItems_eq_self : ∀ xs : List Value, SortedItems xs → orderedItems xs = xs
  | [], _ => rfl
  | x :: xs, h => by rw [orderedItems, ordered_eq_self x h.1, orderedItems_eq_self xs h.2]

theorem orderedFields_eq_self : ∀ es : List (String × Value), SortedFields es →
    orderedFields es = es
  | [], _ => rfl
  | e :: es, h => by rw [orderedFields, ordered_eq_self e.2 h.1, orderedFields_eq_self es h.2]
end

mutual
theorem value_write : ∀ (d : ℕ) (v : Value) (n : ℕ) (rest : List Char),
    (write floats style d v).length < n → Delimited rest →
    value floats n (write floats style d v ++ rest) = some (ordered v, rest)
  | _, v, 0, rest, hn, _ => absurd hn (Nat.not_lt_zero _)
  | _, .null, n + 1, rest, _, _ => rfl
  | _, .nan, n + 1, rest, _, _ => rfl
  | _, .inf false, n + 1, rest, _, _ => rfl
  | _, .inf true, n + 1, rest, _, _ => rfl
  | _, .bool true, n + 1, rest, _, _ => rfl
  | _, .bool false, n + 1, rest, _, _ => rfl
  | _, .int z, n + 1, rest, _, hrest => by
    have hshape := numberShape_intText z
    rw [write, value_number]
    · rw [number_token floats hshape hrest, readNumber, hshape, readInt_intText]
      rfl
    · exact numberHead_append (numberShape_some hshape).2 rest
  | _, .num q, n + 1, rest, _, hrest => by
    have hshape := floats.shape_text q
    rw [write, value_number]
    · rw [number_token floats hshape hrest, readNumber, hshape]
      simp only [floats.parse_text]
      rfl
    · exact numberHead_append (numberShape_some hshape).2 rest
  | _, .str s, n + 1, rest, _, _ => by
    rw [write, quote, List.cons_append, List.cons_append, List.append_assoc,
      List.singleton_append, value, Escape.scan_string]
    rfl
  | _, .list [], n + 1, rest, _, _ => rfl
  | d, .list (x :: xs), n + 1, rest, hn, _ => by
    obtain ⟨c, r, heq, hc, hne⟩ := writeItems_head floats style (d + 1) x xs
    have hitems := items_write (d + 1) x xs n rest (style.newline d)
      (style.newline_blank d) (by
        rw [write] at hn
        simp only [List.length_append, List.length_cons, List.length_nil] at hn
        omega)
    rw [write]
    simp only [List.isEmpty_cons, Bool.false_eq_true, if_false, List.cons_append,
      List.append_assoc, List.nil_append]
    rw [heq, List.cons_append] at hitems ⊢
    rw [value_list floats (skip_blanks (style.newline_blank (d + 1)) hc) hne, hitems]
    rfl
  | _, .dict [], n + 1, rest, _, _ => rfl
  | d, .dict (e :: es), n + 1, rest, hn, _ => by
    obtain ⟨r, heq⟩ := writeFields_head floats style (d + 1) e es
    have hfields := fields_write (d + 1) e es n rest (style.newline d)
      (style.newline_blank d) (by
        rw [write] at hn
        simp only [List.length_append, List.length_cons, List.length_nil] at hn
        omega)
    rw [write]
    simp only [List.isEmpty_cons, Bool.false_eq_true, if_false, List.cons_append,
      List.append_assoc, List.nil_append]
    rw [heq, List.cons_append] at hfields ⊢
    rw [value_dict floats (skip_blanks (style.newline_blank (d + 1)) rfl), hfields]
    rfl

theorem items_write : ∀ (d : ℕ) (x : Value) (xs : List Value) (n : ℕ) (rest blanks : List Char),
    (∀ b ∈ blanks, isBlank b = true) →
    (writeItems floats style d (x :: xs)).length + 1 < n →
    items floats n (writeItems floats style d (x :: xs) ++ (blanks ++ ']' :: rest)) =
      some (orderedItems (x :: xs), rest)
  | _, x, xs, 0, rest, _, _, hn => absurd hn (by omega)
  | d, x, [], n + 1, rest, blanks, hb, hn => by
    have hx := value_write d x n (blanks ++ ']' :: rest) (by
      rw [writeItems] at hn
      omega) (delimited_blanks hb rfl)
    rw [writeItems, items, hx]
    simp only [Option.bind_eq_bind, Option.bind_some, Option.pure_def, skip_blanks hb
      (show isBlank ']' = false from rfl)]
    rfl
  | d, x, y :: ys, n + 1, rest, blanks, hb, hn => by
    rw [writeItems] at hn
    simp only [List.length_append, List.length_cons] at hn
    have hx := value_write d x n (',' :: (style.newline d ++ (writeItems floats style d (y :: ys) ++
      (blanks ++ ']' :: rest)))) (by omega) (delimited_cons rfl)
    have hys := items_write d y ys n rest blanks hb (by omega)
    obtain ⟨c, r, heq, hc, -⟩ := writeItems_head floats style d y ys
    rw [writeItems]
    simp only [List.append_assoc, List.cons_append, items, hx]
    rw [heq, List.cons_append] at hys ⊢
    simp only [Option.bind_eq_bind, Option.bind_some, skip_cons (show isBlank ',' = false from rfl),
      skip_blanks (style.newline_blank d) hc, hys, Option.pure_def]
    rfl

theorem fields_write : ∀ (d : ℕ) (e : String × Value) (es : List (String × Value)) (n : ℕ)
    (rest blanks : List Char), (∀ b ∈ blanks, isBlank b = true) →
    (writeFields floats style d (e :: es)).length + 1 < n →
    fields floats n (writeFields floats style d (e :: es) ++ (blanks ++ '}' :: rest)) =
      some (orderedFields (e :: es), rest)
  | _, e, es, 0, rest, _, _, hn => absurd hn (by omega)
  | d, (k, v), [], n + 1, rest, blanks, hb, hn => by
    rw [writeFields] at hn
    simp only [List.length_append, List.length_cons, quote] at hn
    have hv := value_write d v n (blanks ++ '}' :: rest) (by omega) (delimited_blanks hb rfl)
    rw [writeFields, quote]
    simp only [List.cons_append, List.append_assoc, List.nil_append, fields,
      Escape.scan_string, Option.bind_eq_bind, Option.bind_some, Option.pure_def,
      skip_cons (show isBlank ':' = false from rfl), skip_write floats style style.gap_blank, hv,
      skip_blanks hb (show isBlank '}' = false from rfl)]
    rfl
  | d, (k, v), e :: es, n + 1, rest, blanks, hb, hn => by
    rw [writeFields] at hn
    simp only [List.length_append, List.length_cons, quote] at hn
    have hv :=
      value_write d v n (',' :: (style.newline d ++ (writeFields floats style d (e :: es) ++
      (blanks ++ '}' :: rest)))) (by omega) (delimited_cons rfl)
    have hes := fields_write d e es n rest blanks hb (by omega)
    obtain ⟨r, heq⟩ := writeFields_head floats style d e es
    rw [heq, List.cons_append] at hes hv
    rw [writeFields, quote, heq]
    simp only [List.cons_append, List.append_assoc, List.nil_append, fields,
      Escape.scan_string, Option.bind_eq_bind, Option.bind_some, Option.pure_def,
      skip_cons (show isBlank ':' = false from rfl), skip_write floats style style.gap_blank, hv,
      hes, skip_cons (show isBlank ',' = false from rfl),
      skip_blanks (style.newline_blank d) (show isBlank '"' = false from rfl)]
    rfl
end

theorem loads_write_ordered (v : Value) :
    loads floats (write floats style 0 v) = some (ordered v) := by
  have hread := value_write floats style 0 v ((write floats style 0 v).length + 1) [] (by omega)
    (by intro c r heq; cases heq)
  have hskip := skip_write floats style nothing_blank 0 v []
  rw [List.append_nil] at hread hskip
  unfold loads
  rw [List.nil_append] at hskip
  rw [hskip, hread]
  rfl

variable {v : Value}

theorem loads_write (h : Sorted v) : loads floats (write floats style 0 v) = some v := by
  rw [loads_write_ordered, ordered_eq_self v h]

theorem write_injective {v w : Value} (hv : Sorted v) (hw : Sorted w)
    (h : write floats style 0 v = write floats style 0 w) : v = w := by
  have hread := loads_write floats style hv
  rw [h, loads_write floats style hw] at hread
  exact (Option.some.inj hread).symm

theorem loads_render (h : Sorted v) : loads floats (render floats v) = some v := by
  rw [← write_compact floats 0 v]
  exact loads_write floats (compact .plain) h

def Closed (text rest : List Char) : Prop :=
  rest ≠ [] ∨ ∃ c r, text = c :: r ∧ (c = '"' ∨ c = '[' ∨ c = '{')

theorem skip_append {cs rest : List Char} (h : skip cs = c :: rest) (more : List Char) :
    skip (cs ++ more) = c :: (rest ++ more) := by
  unfold skip at h ⊢
  induction cs with
  | nil => cases h
  | cons a cs ih =>
    rw [List.cons_append]
    by_cases ha : isBlank a = true
    · rw [List.dropWhile_cons_of_pos ha] at h ⊢
      exact ih h
    · rw [List.dropWhile_cons_of_neg ha] at h ⊢
      cases h
      rfl

theorem number_append {cs rest : List Char} (h : number floats cs = some (v, rest))
    (hrest : rest ≠ []) (more : List Char) :
    NumberHead (cs ++ more) ∧ number floats (cs ++ more) = some (v, rest ++ more) := by
  unfold number at h
  cases hread : readNumber floats (cs.takeWhile isNumberChar) with
  | none => simp [hread] at h
  | some v' =>
    rw [hread] at h
    cases h
    have hsplit := List.takeWhile_append_dropWhile (p := isNumberChar) (l := cs)
    have hdelimited : Delimited (cs.dropWhile isNumberChar ++ more) := by
      intro c r heq
      cases hd : cs.dropWhile isNumberChar with
      | nil => exact absurd hd hrest
      | cons d ds =>
        rw [hd, List.cons_append] at heq
        cases heq
        have hhead := List.head?_dropWhile_not isNumberChar cs
        rw [hd] at hhead
        simpa using hhead
    cases hshape : numberShape (cs.takeWhile isNumberChar) with
    | none => simp [readNumber, hshape] at hread
    | some b =>
      have htoken := number_token floats hshape hdelimited
      rw [← List.append_assoc, hsplit, hread] at htoken
      have hhead := numberHead_append (numberShape_some hshape).2
        (cs.dropWhile isNumberChar ++ more)
      rw [← List.append_assoc, hsplit] at hhead
      exact ⟨hhead, htoken⟩

theorem value_nil : value floats n [] = none := by
  cases n <;> rfl

theorem items_nil : items floats n [] = none := by
  cases n with
  | zero => rfl
  | succ n => rw [items, value_nil]; rfl

theorem fields_nil : fields floats n [] = none := by
  cases n <;> rfl

/-- More fuel and more text change nothing about what was read. -/
structure Stable (n : ℕ) : Prop where
  value : ∀ {cs v rest} m more, n ≤ m → value floats n cs = some (v, rest) → Closed cs rest →
    Json.value floats m (cs ++ more) = some (v, rest ++ more)
  items : ∀ {cs vs rest} m more, n ≤ m → items floats n cs = some (vs, rest) →
    Json.items floats m (cs ++ more) = some (vs, rest ++ more)
  fields : ∀ {cs es rest} m more, n ≤ m → fields floats n cs = some (es, rest) →
    Json.fields floats m (cs ++ more) = some (es, rest ++ more)

section Step

variable {floats} {n m : ℕ} (ih : Stable floats n) (hm : n ≤ m) (more : List Char)

include ih hm

variable {v : Value}

theorem list_append {tail rest : List Char}
    (h : value floats (n + 1) ('[' :: tail) = some (v, rest)) :
    value floats (m + 1) ('[' :: tail ++ more) = some (v, rest ++ more) := by
  cases hskip : skip tail with
  | nil =>
    rw [value, hskip] at h
    simp only [items_nil, Option.map_none] at h
    cases h
  | cons c r =>
    have hskip' := skip_append hskip more
    rw [List.cons_append]
    by_cases hc : c = ']'
    · subst hc
      rw [value, hskip] at h
      cases h
      rw [value, hskip']
      rfl
    · rw [value_list floats hskip hc] at h
      cases hi : items floats n (c :: r) with
      | none => simp [hi] at h
      | some read =>
        rw [hi] at h
        cases h
        rw [value_list floats hskip' hc, ← List.cons_append, ih.items m more hm hi]
        rfl

theorem dict_append {tail rest : List Char}
    (h : value floats (n + 1) ('{' :: tail) = some (v, rest)) :
    value floats (m + 1) ('{' :: tail ++ more) = some (v, rest ++ more) := by
  cases hskip : skip tail with
  | nil =>
    rw [value, hskip] at h
    simp only [fields_nil, Option.map_none] at h
    cases h
  | cons c r =>
    have hskip' := skip_append hskip more
    rw [List.cons_append]
    by_cases hc : c = '}'
    · subst hc
      rw [value, hskip] at h
      cases h
      rw [value, hskip']
      rfl
    · have hread : ∀ k tail' rest', skip tail' = c :: rest' → value floats (k + 1) ('{' :: tail') =
            (fields floats k (c :: rest')).map fun r => (.dict (Dict.ofList r.1).entries, r.2) := by
        intro k tail' rest' hs
        rw [value, hs]
        split
        · rename_i heq
          cases heq
          exact absurd rfl hc
        · rfl
      rw [hread n tail r hskip] at h
      cases hf : fields floats n (c :: r) with
      | none => simp [hf] at h
      | some read =>
        rw [hf] at h
        cases h
        rw [hread m (tail ++ more) (r ++ more) hskip', ← List.cons_append, ih.fields m more hm hf]
        rfl

variable {cs rest : List Char}

theorem value_append (h : value floats (n + 1) cs = some (v, rest)) (hclosed : Closed cs rest) :
    value floats (m + 1) (cs ++ more) = some (v, rest ++ more) := by
  have hfull := h
  rw [value.eq_def] at h
  dsimp only at h
  split at h
  · rename_i tail
    cases hs : scanString tail with
    | none => simp [hs] at h
    | some r =>
      rw [hs] at h
      cases h
      rw [List.cons_append, value, scanString_append hs]
      rfl
  · exact list_append ih hm more hfull
  · exact dict_append ih hm more hfull
  all_goals first
    | (cases h
       rfl)
    | (rcases hclosed with hrest | ⟨c, r, rfl, hc⟩
       · have hnumber := number_append floats h hrest more
         rw [value_number floats hnumber.1, hnumber.2]
       · exfalso
         rcases hc with rfl | rfl | rfl <;> simp_all)

theorem items_append {vs : List Value} (h : items floats (n + 1) cs = some (vs, rest)) :
    items floats (m + 1) (cs ++ more) = some (vs, rest ++ more) := by
  rw [items] at h ⊢
  simp only [Option.bind_eq_bind, Option.bind_eq_some_iff, Prod.exists, Option.pure_def] at h
  obtain ⟨v, r, hv, h⟩ := h
  split at h
  · rename_i tail hskip
    simp only [Option.bind_eq_some_iff, Prod.exists, Option.some.injEq, Prod.mk.injEq] at h
    obtain ⟨vs', r', hvs, rfl, rfl⟩ := h
    have hr : r ≠ [] := by
      rintro rfl
      cases hskip
    cases htail : skip tail with
    | nil =>
      rw [htail, items_nil] at hvs
      cases hvs
    | cons c t =>
      rw [htail] at hvs
      have hmore := ih.items m more hm hvs
      simp only [ih.value m more hm hv (.inl hr), skip_append hskip, skip_append htail,
        Option.bind_eq_bind, Option.bind_some, Option.pure_def]
      rw [← List.cons_append, hmore]
      rfl
  · rename_i tail hskip
    simp only [Option.some.injEq, Prod.mk.injEq] at h
    obtain ⟨rfl, rfl⟩ := h
    have hr : r ≠ [] := by
      rintro rfl
      cases hskip
    simp only [ih.value m more hm hv (.inl hr), skip_append hskip, Option.bind_eq_bind,
      Option.bind_some, Option.pure_def]
  · cases h

theorem fields_append {es : List (String × Value)}
    (h : fields floats (n + 1) cs = some (es, rest)) :
    fields floats (m + 1) (cs ++ more) = some (es, rest ++ more) := by
  rw [fields.eq_def] at h
  dsimp only at h
  split at h
  · cases h
  · rename_i k n' cs' heq
    obtain rfl : n = n' := by omega
    simp only [Option.bind_eq_bind, Option.bind_eq_some_iff, Prod.exists, Option.pure_def] at h
    obtain ⟨key, r, hs, h⟩ := h
    rw [List.cons_append, fields]
    split at h
    · rename_i tail hcolon
      simp only [Option.bind_eq_some_iff, Prod.exists] at h
      obtain ⟨v, r', hv, h⟩ := h
      cases htail : skip tail with
      | nil =>
        rw [htail, value_nil] at hv
        cases hv
      | cons c t =>
        rw [htail] at hv
        have hr : r' ≠ [] := by
          rintro rfl
          cases h
        have hvalue := ih.value m more hm hv (.inl hr)
        rw [List.cons_append] at hvalue
        simp only [scanString_append hs, skip_append hcolon, skip_append htail, hvalue,
          Option.bind_eq_bind, Option.bind_some, Option.pure_def]
        split at h
        · rename_i tail' hcomma
          simp only [Option.bind_eq_some_iff, Prod.exists, Option.some.injEq, Prod.mk.injEq] at h
          obtain ⟨es', r'', hes, rfl, rfl⟩ := h
          cases htail' : skip tail' with
          | nil =>
            rw [htail', fields_nil] at hes
            cases hes
          | cons c' t' =>
            rw [htail'] at hes
            have hmore := ih.fields m more hm hes
            rw [List.cons_append] at hmore
            simp only [skip_append hcomma, skip_append htail', hmore, Option.bind_some]
        · rename_i tail' hbrace
          simp only [Option.some.injEq, Prod.mk.injEq] at h
          obtain ⟨rfl, rfl⟩ := h
          simp only [skip_append hbrace]
        · cases h
    · cases h
  · cases h

end Step

theorem stable : Stable floats n := by
  induction n with
  | zero =>
    constructor
    · intro cs v rest m more _ h _
      cases h
    · intro cs vs rest m more _ h
      cases h
    · intro cs es rest m more _ h
      cases h
  | succ n ih =>
    constructor
    · intro cs v rest m more hm h hclosed
      obtain ⟨m, rfl⟩ : ∃ k, m = k + 1 := ⟨m - 1, by omega⟩
      exact value_append ih (by omega) more h hclosed
    · intro cs vs rest m more hm h
      obtain ⟨m, rfl⟩ : ∃ k, m = k + 1 := ⟨m - 1, by omega⟩
      exact items_append ih (by omega) more h
    · intro cs es rest m more hm h
      obtain ⟨m, rfl⟩ : ∃ k, m = k + 1 := ⟨m - 1, by omega⟩
      exact fields_append ih (by omega) more h

variable {es : List (String × Value)}

variable {p more : List Char}

theorem loads_write_prefix {style : Style}
    (h : write floats style 0 (.dict es) = p ++ more) (hmore : more ≠ []) :
      loads floats p = none := by
  cases p with
  | nil => rfl
  | cons c p =>
    have hbrace : c = '{' := by
      rw [write, List.cons_append, List.cons_append, List.cons_append] at h
      exact (List.cons.inj h).1.symm
    subst hbrace
    unfold loads
    rw [skip_cons rfl]
    cases hread : value floats (('{' :: p).length + 1) ('{' :: p) with
    | none => rfl
    | some r =>
      obtain ⟨v, rest⟩ := r
      have hclosed : Closed ('{' :: p) rest := .inr ⟨_, _, rfl, .inr (.inr rfl)⟩
      have hlen : ('{' :: p).length + 1 ≤ (write floats style 0 (.dict es)).length + 1 := by
        rw [h, List.length_append]
        omega
      have hlong := (stable floats _).value _ more hlen hread hclosed
      have hfull := value_write floats style 0 (.dict es)
        ((write floats style 0 (.dict es)).length + 1) [] (by omega)
        (by intro c r heq; cases heq)
      rw [List.append_nil] at hfull
      rw [← h, hfull] at hlong
      simp only [Option.some.injEq, Prod.mk.injEq] at hlong
      -- Nothing is left of the whole text, yet the prefix left what follows it.
      have hempty := List.append_eq_nil_iff.1 hlong.2.symm
      exact absurd hempty.2 hmore

theorem loads_prefix (h : render floats (.dict es) = p ++ more)
    (hmore : more ≠ []) : loads floats p = none := by
  rw [← write_compact floats 0] at h
  exact loads_write_prefix floats h hmore

mutual
def strings : Value → List String
  | .str s => [s]
  | .list xs => stringsItems xs
  | .dict es => stringsFields es
  | _ => []

def stringsItems : List Value → List String
  | [] => []
  | x :: xs => strings x ++ stringsItems xs

def stringsFields : List (String × Value) → List String
  | [] => []
  | e :: es => e.1 :: strings e.2 ++ stringsFields es
end

def Carries (v : Value) (c : Char) : Prop := ∃ s ∈ strings v, c ∈ s.toList

@[simp] theorem carries_str : Carries (.str s) c ↔ c ∈ s.toList := by
  simp [Carries, strings]

theorem carries_list {xs : List Value} : Carries (.list xs) c ↔ ∃ x ∈ xs, Carries x c := by
  unfold Carries
  rw [strings]
  induction xs with
  | nil => simp [stringsItems]
  | cons x xs ih =>
    rw [stringsItems]
    simp only [List.mem_append, or_and_right, exists_or, ih, List.exists_mem_cons_iff]

theorem carries_dict : Carries (.dict es) c ↔ ∃ e ∈ es, c ∈ e.1.toList ∨ Carries e.2 c := by
  unfold Carries
  rw [strings]
  induction es with
  | nil => simp [stringsFields]
  | cons e es ih =>
    rw [stringsFields]
    simp only [List.mem_append, List.mem_cons, or_and_right, exists_or, ih, exists_eq_left,
      or_assoc]

theorem ascii_of_isNumberChar (h : isNumberChar c = true) : 32 ≤ c.toNat ∧ c.toNat < 128 := by
  simp only [isNumberChar, Bool.or_eq_true, beq_iff_eq] at h
  rcases h with ((((h | rfl) | rfl) | rfl) | rfl) | rfl
  · simp only [Char.isDigit, Bool.and_eq_true, decide_eq_true_eq, UInt32.le_iff_toNat_le] at h
    change 48 ≤ c.toNat ∧ c.toNat ≤ 57 at h
    omega
  all_goals decide

theorem ascii_digitChar : ∀ n < 16, 32 ≤ (hexDigit n).toNat ∧ (hexDigit n).toNat < 128 := by decide

theorem mem_escapeChar {c x : Char} (h : x ∈ escapeChar c) :
    32 ≤ x.toNat ∧ (128 ≤ x.toNat → x = c) := by
  have hascii : ∀ y : Char, 32 ≤ y.toNat ∧ y.toNat < 128 → 32 ≤ y.toNat ∧
    (128 ≤ y.toNat → y = c) := by
    intro y hy
    exact ⟨hy.1, fun hbig => absurd hbig (by omega)⟩
  by_cases hsmall : c.toNat < 32
  · have hhigh := ascii_digitChar (c.toNat / 16) (by omega)
    have hlow := ascii_digitChar (c.toNat % 16) (by omega)
    unfold escapeChar at h
    split_ifs at h
    all_goals
      simp only [List.mem_cons, List.not_mem_nil, or_false] at h
      apply hascii
    iterate 7 · rcases h with rfl | rfl <;> decide
    rcases h with rfl | rfl | rfl | rfl | rfl | rfl
    · decide
    · decide
    · decide
    · decide
    · exact hhigh
    · exact hlow
  · unfold escapeChar at h
    split_ifs at h
    all_goals simp only [List.mem_cons, List.not_mem_nil, or_false] at h
    iterate 7 · rcases h with rfl | rfl <;> exact hascii _ (by decide)
    subst h
    exact ⟨by omega, fun _ => rfl⟩

theorem mem_escapeChar_self (h : 128 ≤ c.toNat) : c ∈ escapeChar c := by
  have hne : ∀ d : Char, d.toNat < 128 → c ≠ d := by
    intro d hd hcd
    rw [hcd] at h
    omega
  unfold escapeChar
  rw [if_neg (hne '"' (by decide)), if_neg (hne '\\' (by decide)), if_neg (hne '\n' (by decide)),
    if_neg (hne '\r' (by decide)), if_neg (hne '\t' (by decide)), if_neg (hne '\x08' (by decide)),
    if_neg (hne '\x0c' (by decide)), if_neg (by omega)]
  exact List.mem_singleton_self c

/-- What a text holds: printable characters, and beyond ASCII just those of the
strings `ss`. -/
def Holds (text : List Char) (ss : List String) : Prop :=
  (∀ c ∈ text, 32 ≤ c.toNat) ∧ ∀ c : Char, 128 ≤ c.toNat → (c ∈ text ↔ ∃ s ∈ ss, c ∈ s.toList)

theorem Holds.ascii {text : List Char} (h : ∀ c ∈ text, 32 ≤ c.toNat ∧ c.toNat < 128) :
    Holds text [] := by
  refine ⟨fun c hc => (h c hc).1, fun c hbig => ⟨fun hc => ?_, fun hs => ?_⟩⟩
  · exact absurd hbig (by have := (h c hc).2; omega)
  · obtain ⟨s, hs, -⟩ := hs
    cases hs

theorem Holds.append {t u : List Char} {ss us : List String} (ht : Holds t ss) (hu : Holds u us) :
    Holds (t ++ u) (ss ++ us) := by
  constructor
  · intro c hc
    rcases List.mem_append.1 hc with hc | hc
    · exact ht.1 c hc
    · exact hu.1 c hc
  · intro c hbig
    rw [List.mem_append, ht.2 c hbig, hu.2 c hbig]
    constructor
    · rintro (⟨s, hs, hc⟩ | ⟨s, hs, hc⟩)
      · exact ⟨s, List.mem_append_left _ hs, hc⟩
      · exact ⟨s, List.mem_append_right _ hs, hc⟩
    · rintro ⟨s, hs, hc⟩
      rcases List.mem_append.1 hs with hs | hs
      · exact .inl ⟨s, hs, hc⟩
      · exact .inr ⟨s, hs, hc⟩

variable {ss : List String} {t : List Char}

theorem Holds.cons (h : Holds t ss) {a : Char}
    (ha : 32 ≤ a.toNat ∧ a.toNat < 128) : Holds (a :: t) ss := by
  have hone : Holds [a] [] := .ascii fun c hc => by
    rw [List.mem_singleton] at hc
    rw [hc]
    exact ha
  exact hone.append h

theorem Holds.snoc (h : Holds t ss) {a : Char}
    (ha : 32 ≤ a.toNat ∧ a.toNat < 128) : Holds (t ++ [a]) ss := by
  have hone : Holds [a] [] := .ascii fun c hc => by
    rw [List.mem_singleton] at hc
    rw [hc]
    exact ha
  have := h.append hone
  rwa [List.append_nil] at this

theorem holds_string (s : String) : Holds (stringText s) [s] := by
  have hbody : Holds (s.toList.flatMap escapeChar) [s] := by
    constructor
    · intro c hc
      obtain ⟨a, -, ha⟩ := List.mem_flatMap.1 hc
      exact (mem_escapeChar ha).1
    · intro c hbig
      constructor
      · intro hc
        obtain ⟨a, hs, ha⟩ := List.mem_flatMap.1 hc
        obtain rfl := (mem_escapeChar ha).2 hbig
        exact ⟨s, List.mem_singleton_self s, hs⟩
      · rintro ⟨s', hs', hc⟩
        rw [List.mem_singleton] at hs'
        subst hs'
        exact List.mem_flatMap.2 ⟨c, hc, mem_escapeChar_self hbig⟩
  exact (hbody.snoc (by decide)).cons (by decide)

theorem holds_number (h : numberShape token = some b) : Holds token [] :=
  .ascii fun c hc => ascii_of_isNumberChar ((numberShape_some h).1 c hc)

theorem isNumberChar_intText {z : ℤ} (h : c ∈ intText z) : isNumberChar c = true :=
  (numberShape_some (numberShape_intText z)).1 c h

theorem holds_word (s : String)
    (h : (s.toList.all fun c => decide (32 ≤ c.toNat ∧ c.toNat < 128)) = true) :
    Holds s.toList [] := by
  apply Holds.ascii
  intro c hc
  exact of_decide_eq_true (List.all_eq_true.1 h c hc)

mutual
theorem holds_render : ∀ v : Value, Holds (render floats v) (strings v)
  | .null => holds_word "null" (by decide)
  | .nan => holds_word "NaN" (by decide)
  | .inf false => holds_word "Infinity" (by decide)
  | .inf true => holds_word "-Infinity" (by decide)
  | .bool true => holds_word "true" (by decide)
  | .bool false => holds_word "false" (by decide)
  | .int z => holds_number (numberShape_intText z)
  | .num q => holds_number (floats.shape_text q)
  | .str s => holds_string s
  | .list xs => ((holds_items xs).snoc (by decide)).cons (by decide)
  | .dict es => ((holds_fields es).snoc (by decide)).cons (by decide)

theorem holds_items : ∀ xs : List Value, Holds (renderItems floats xs) (stringsItems xs)
  | [] => .ascii (by intro c hc; cases hc)
  | [x] => by
    have hx := holds_render x
    rw [renderItems, stringsItems, stringsItems, List.append_nil]
    exact hx
  | x :: y :: rest => (holds_render x).append ((holds_items (y :: rest)).cons (by decide))

theorem holds_fields : ∀ es : List (String × Value),
    Holds (renderFields floats es) (stringsFields es)
  | [] => .ascii (by intro c hc; cases hc)
  | [(k, v)] => by
    have hv := (holds_string k).append ((holds_render v).cons (a := ':') (by decide))
    rw [renderFields, stringsFields, stringsFields, List.append_nil]
    exact hv
  | (k, v) :: e :: rest => by
    have hv := (holds_string k).append ((holds_render v).cons (a := ':') (by decide))
    have hrest := (holds_fields (e :: rest)).cons (a := ',') (by decide)
    have := hv.append hrest
    rw [renderFields, stringsFields]
    simpa only [List.append_assoc, List.cons_append, List.nil_append] using this
end

def ratioText (q : ℚ) : List Char := intText q.num ++ '.' :: natText q.den

def parseRatio (token : List Char) : Option ℚ :=
  match token.dropWhile (· ≠ '.') with
  | _ :: den => some (readInt (token.takeWhile (· ≠ '.')) / (Nat.ofDigitChars 10 den 0 : ℕ))
  | [] => none

theorem point_notMem_intText : '.' ∉ intText z := by
  have hdigits : '.' ∉ natText z.natAbs := by
    intro h
    have := isDigit_natText h
    cases this
  unfold intText
  split_ifs
  · simp only [List.mem_cons, not_or]
    exact ⟨by decide, hdigits⟩
  · exact hdigits

variable (q : ℚ)

theorem span_ratioText : (ratioText q).takeWhile (· ≠ '.') = intText q.num ∧
      (ratioText q).dropWhile (· ≠ '.') = '.' :: natText q.den := by
  have hall : ∀ c ∈ intText q.num, (decide (c ≠ '.')) = true := by
    intro c hc
    have hne : c ≠ '.' := by
      rintro rfl
      exact point_notMem_intText q.num hc
    exact decide_eq_true hne
  unfold ratioText
  constructor
  · rw [List.takeWhile_append_of_pos hall, List.takeWhile_cons_of_neg (by decide), List.append_nil]
  · rw [List.dropWhile_append_of_pos hall, List.dropWhile_cons_of_neg (by decide)]

theorem parseRatio_ratioText : parseRatio (ratioText q) = some q := by
  obtain ⟨htake, hdrop⟩ := span_ratioText q
  unfold parseRatio
  rw [hdrop, htake, readInt_intText]
  have hden : Nat.ofDigitChars 10 (natText q.den) 0 = q.den := Nat.ofDigitChars_ten_toDigits
  simp only [hden, Rat.num_div_den]

theorem unsigned_ratioText :
    unsigned (ratioText q) = natText q.num.natAbs ++ '.' :: natText q.den := by
  unfold ratioText intText
  split_ifs
  · rfl
  · obtain ⟨c, rest, hc⟩ := List.exists_cons_of_ne_nil
      (Nat.toDigits_ne_nil (b := 10) (n := q.num.natAbs))
    have hfirst : natText q.num.natAbs = c :: rest := hc
    rw [hfirst, List.cons_append]
    unfold unsigned
    split
    · rename_i heq
      rw [List.cons.injEq] at heq
      rw [heq.1] at hfirst
      exact absurd hfirst minus_ne_natText
    · rfl

theorem shape_ratioText : numberShape (ratioText q) = some true := by
  have hdigits : ∀ c ∈ natText q.num.natAbs, c.isDigit = true := fun c hc => isDigit_natText hc
  have hwhole : (natText q.num.natAbs ++ '.' :: natText q.den).takeWhile Char.isDigit =
      natText q.num.natAbs := by
    rw [List.takeWhile_append_of_pos hdigits, List.takeWhile_cons_of_neg (by decide),
      List.append_nil]
  have hrest : (natText q.num.natAbs ++ '.' :: natText q.den).dropWhile Char.isDigit =
      '.' :: natText q.den := by
    rw [List.dropWhile_append_of_pos hdigits, List.dropWhile_cons_of_neg (by decide)]
  have hfraction : fractionOk ('.' :: natText q.den) = true := by
    have hne : natText q.den ≠ [] := Nat.toDigits_ne_nil
    change (!((natText q.den).takeWhile Char.isDigit).isEmpty &&
      exponentOk ((natText q.den).dropWhile Char.isDigit)) = true
    rw [(span_natText q.den).1, (span_natText q.den).2]
    simp [exponentOk, hne]
  unfold numberShape unsignedShape
  rw [unsigned_ratioText, hwhole, hrest]
  dsimp only
  rw [if_neg (whole_natText _), if_neg (by simp), if_pos hfraction]

def ratioFloats : FloatText where
  text := ratioText
  parse := parseRatio
  parse_text := parseRatio_ratioText
  shape_text := shape_ratioText

end Json
