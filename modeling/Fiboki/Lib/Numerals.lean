import Mathlib.Data.List.DropRight
import Fiboki.Lib.Digests
import Fiboki.Lib.Json

/-!
Integers read from text in a base up to sixteen: blanks around, a sign, and single
underscores between the digits.
-/

namespace Numerals

open Json

/-- The digits that follow, `ready` telling whether a digit stands just before. -/
def scan (base : ℕ) : Bool → ℕ → List Char → Option ℕ
  | ready, acc, [] => if ready then some acc else none
  | ready, acc, c :: cs =>
    if c = '_' then if ready then scan base false acc cs else none
    else match hexVal c with
      | none => none
      | some d => if d < base then scan base true (acc * base + d) cs else none

def isSpace (c : Char) : Bool := (9 ≤ c.toNat && c.toNat ≤ 13) || c == ' '

/-- What follows the `0x` that base sixteen allows. -/
def afterBase (base : ℕ) : List Char → List Char
  | '0' :: x :: cs =>
    if base = 16 ∧ (x = 'x' ∨ x = 'X') then
      match cs with
      | '_' :: cs => cs
      | cs => cs
    else '0' :: x :: cs
  | cs => cs

def magnitude (base : ℕ) (cs : List Char) : Option ℕ := scan base false 0 (afterBase base cs)

/-- `int(text, base)`, `none` where it raises. -/
def int (base : ℕ) (text : List Char) : Option ℤ :=
  match (text.dropWhile isSpace).rdropWhile isSpace with
  | '-' :: cs => (magnitude base cs).map fun n => -(n : ℤ)
  | '+' :: cs => (magnitude base cs).map Int.ofNat
  | cs => (magnitude base cs).map Int.ofNat

variable {c : Char}

theorem plain_digit {d : ℕ} (h : hexVal c = some d) :
    isSpace c = false ∧ c ≠ '_' ∧ c ≠ '-' ∧ c ≠ '+' ∧ c ≠ 'x' ∧ c ≠ 'X' := by
  refine ⟨?_, ?_, ?_, ?_, ?_, ?_⟩
  · cases hspace : isSpace c with
    | false => rfl
    | true =>
      have hle : c.toNat ≤ 32 := by
        simp only [isSpace, Bool.or_eq_true, Bool.and_eq_true, decide_eq_true_eq,
          beq_iff_eq] at hspace
        rcases hspace with hspace | rfl
        · omega
        · decide
      have hbounds : 48 ≤ c.toNat := by
        unfold hexVal at h
        split_ifs at h with hdigit hlower hupper
        · have := (Bool.and_eq_true _ _).mp hdigit
          simpa [UInt32.le_iff_toNat_le] using this.1
        · exact le_trans (by decide) (UInt32.le_iff_toNat_le.1 hlower.1)
        · exact le_trans (by decide) (UInt32.le_iff_toNat_le.1 hupper.1)
      omega
  all_goals
    rintro rfl
    cases h

theorem scan_cons {base d : ℕ} (h : hexVal c = some d) (hd : d < base) (ready : Bool)
    (acc : ℕ) (cs : List Char) :
    scan base ready acc (c :: cs) = scan base true (acc * base + d) cs := by
  rw [scan, if_neg (plain_digit h).2.1, h]
  exact if_pos hd

variable {text : List Char}

theorem int_digits {base : ℕ} (h : ∀ c ∈ text, ∃ d, hexVal c = some d) :
    int base text = (scan base false 0 text).map Int.ofNat := by
  have hplain : ∀ c ∈ text, isSpace c = false := fun c hc => by
    obtain ⟨d, hd⟩ := h c hc
    exact (plain_digit hd).1
  have hdrop : (text.dropWhile isSpace).rdropWhile isSpace = text := by
    have hfront : text.dropWhile isSpace = text := by
      cases text with
      | nil => rfl
      | cons c text => rw [List.dropWhile_cons_of_neg (by rw [hplain c List.mem_cons_self]; decide)]
    rw [hfront, List.rdropWhile_eq_self_iff]
    intro hne hspace
    rw [hplain _ (List.getLast_mem hne)] at hspace
    cases hspace
  have hbase : afterBase base text = text := by
    unfold afterBase
    split
    · rename_i x cs
      rw [if_neg]
      rintro ⟨-, hx⟩
      obtain ⟨d, hd⟩ := h x (List.mem_cons_of_mem _ List.mem_cons_self)
      have := plain_digit hd
      rcases hx with rfl | rfl
      · exact this.2.2.2.2.1 rfl
      · exact this.2.2.2.2.2 rfl
    · rfl
  have hmagnitude : magnitude base text = scan base false 0 text := by rw [magnitude, hbase]
  unfold int
  rw [hdrop]
  split
  · rename_i cs
    obtain ⟨d, hd⟩ := h '-' List.mem_cons_self
    cases hd
  · rename_i cs
    obtain ⟨d, hd⟩ := h '+' List.mem_cons_self
    cases hd
  · rw [hmagnitude]

theorem hexVal_of_isDigit (h : c.isDigit = true) :
    hexVal c = some (c.toNat - '0'.toNat) ∧ c.toNat - '0'.toNat < 10 := by
  refine ⟨if_pos h, ?_⟩
  have := (Bool.and_eq_true _ _).mp h
  have hle : c.toNat ≤ 57 := by simpa [UInt32.le_iff_toNat_le] using this.2
  have : '0'.toNat = 48 := rfl
  omega

theorem scan_decimal (h : ∀ c ∈ text, c.isDigit = true) (acc : ℕ) :
    scan 10 true acc text = some (Nat.ofDigitChars 10 text acc) := by
  induction text generalizing acc with
  | nil => rfl
  | cons c text ih =>
    obtain ⟨hvalue, hlt⟩ := hexVal_of_isDigit (h c List.mem_cons_self)
    rw [scan_cons hvalue hlt, ih fun d hd => h d (List.mem_cons_of_mem _ hd),
      Nat.ofDigitChars_cons, Nat.mul_comm]

theorem int_padded (zeros n : ℕ) :
    int 10 (List.replicate zeros '0' ++ Nat.toDigits 10 n) = some (n : ℤ) := by
  have hdigits : ∀ c ∈ List.replicate zeros '0' ++ Nat.toDigits 10 n, c.isDigit = true := by
    intro c hc
    rcases List.mem_append.1 hc with hc | hc
    · rw [List.eq_of_mem_replicate hc]
      rfl
    · exact Nat.isDigit_of_mem_toDigits (by omega) (by omega) hc
  have hvalue : Nat.ofDigitChars 10 (List.replicate zeros '0' ++ Nat.toDigits 10 n) 0 = n := by
    induction zeros with
    | zero =>
      rw [List.replicate_zero, List.nil_append]
      exact Nat.ofDigitChars_toDigits (by omega) (by omega)
    | succ zeros ih =>
      rw [List.replicate_succ, List.cons_append, Nat.ofDigitChars_cons]
      exact ih fun c hc => hdigits c (List.mem_cons_of_mem _ hc)
  rw [int_digits fun c hc => ⟨_, (hexVal_of_isDigit (hdigits c hc)).1⟩]
  cases htext : List.replicate zeros '0' ++ Nat.toDigits 10 n with
  | nil =>
    have := (List.append_eq_nil_iff.1 htext).2
    exact absurd this (Nat.toDigits_ne_nil)
  | cons c text =>
    rw [htext] at hdigits hvalue
    obtain ⟨hc, hlt⟩ := hexVal_of_isDigit (hdigits c List.mem_cons_self)
    have hscan : scan 10 false 0 (c :: text) = scan 10 true 0 (c :: text) := by
      rw [scan_cons hc hlt, scan_cons hc hlt]
    rw [hscan, scan_decimal hdigits, hvalue]
    rfl

theorem int_toDigits (n : ℕ) : int 10 (Nat.toDigits 10 n) = some (n : ℤ) := int_padded 0 n

theorem int_crcText (message : List UInt8) :
    int 16 (Crc32.crcText message) = some ((Crc32.crc32 message).toNat : ℤ) := by
  have hlt : (Crc32.crc32 message).toNat < 2 ^ 32 := (Crc32.crc32 message).isLt
  unfold Crc32.crcText Sha256.hexWord
  generalize (Crc32.crc32 message).toNat = w at hlt
  have hdigit : ∀ i, hexVal (Nat.digitChar (w / 16 ^ i % 16)) = some (w / 16 ^ i % 16) :=
    fun i => hexVal_hexDigit _ (Nat.mod_lt _ (by omega))
  have hbound : ∀ i, w / 16 ^ i % 16 < 16 := fun i => Nat.mod_lt _ (by omega)
  rw [int_digits]
  · simp only [show List.range 8 = [0, 1, 2, 3, 4, 5, 6, 7] from rfl, List.map_cons, List.map_nil,
      List.reverse_cons, List.reverse_nil, List.nil_append, List.cons_append,
      scan_cons (hdigit _) (hbound _)]
    rw [scan, if_pos rfl]
    simp only [Option.map_some, Option.some.injEq]
    norm_num
    omega
  · intro c hc
    obtain ⟨i, -, rfl⟩ := List.mem_map.1 (List.mem_reverse.1 hc)
    exact ⟨_, hdigit i⟩

/-- The last `width` digits of a number. -/
def lastDigits : ℕ → ℕ → List Char
  | 0, _ => []
  | width + 1, n => lastDigits width (n / 10) ++ [Nat.digitChar (n % 10)]

theorem length_lastDigits (width n : ℕ) : (lastDigits width n).length = width := by
  induction width generalizing n with
  | zero => rfl
  | succ width ih => rw [lastDigits, List.length_append, ih, List.length_singleton]

theorem lastDigits_zero (width : ℕ) : lastDigits width 0 = List.replicate width '0' := by
  induction width with
  | zero => rfl
  | succ width ih =>
    rw [lastDigits, Nat.zero_div, ih, List.replicate_succ']
    rfl

theorem leftpad_eq_lastDigits {width n : ℕ} (h : n < 10 ^ (width + 1)) :
    List.leftpad (width + 1) '0' (Nat.toDigits 10 n) = lastDigits (width + 1) n := by
  induction width generalizing n with
  | zero =>
    have hsmall : n < 10 := by simpa using h
    rw [Nat.toDigits_of_lt_base hsmall, lastDigits, Nat.mod_eq_of_lt hsmall]
    rfl
  | succ width ih =>
    by_cases hsmall : n < 10
    · rw [Nat.toDigits_of_lt_base hsmall, lastDigits, Nat.mod_eq_of_lt hsmall,
        Nat.div_eq_of_lt hsmall, lastDigits_zero]
      rfl
    · have hsplit : Nat.toDigits 10 n = Nat.toDigits 10 (n / 10) ++ [Nat.digitChar (n % 10)] := by
        rw [← Nat.toDigits_of_lt_base (Nat.mod_lt n (by omega)),
          Nat.toDigits_append_toDigits (by omega) (by omega) (Nat.mod_lt n (by omega)),
          Nat.div_add_mod]
      have hlt : n / 10 < 10 ^ (width + 1) := by
        rw [Nat.div_lt_iff_lt_mul (by omega), ← Nat.pow_succ]
        exact h
      rw [hsplit, lastDigits, ← ih hlt]
      simp only [List.leftpad, List.length_append, List.length_singleton, ← List.append_assoc]
      congr 3
      omega

theorem append_lt_append {a b : List Char} (hlen : a.length = b.length) (h : a < b)
    (x y : List Char) : a ++ x < b ++ y := by
  induction a generalizing b with
  | nil =>
    cases b with
    | nil => exact absurd h (List.lt_irrefl _)
    | cons d b => cases hlen
  | cons c a ih =>
    cases b with
    | nil => cases hlen
    | cons d b =>
      rw [List.cons_append, List.cons_append, List.cons_lt_cons_iff]
      rcases List.cons_lt_cons_iff.1 h with hhead | ⟨rfl, htail⟩
      · exact .inl hhead
      · exact .inr ⟨rfl, ih (Nat.succ.inj hlen) htail⟩

variable {width m n : ℕ}

theorem lastDigits_lt (hmn : m < n) (hn : n < 10 ^ width) :
    lastDigits width m < lastDigits width n := by
  have hdigit : ∀ b < 10, ∀ a < b, Nat.digitChar a < Nat.digitChar b := by decide
  induction width generalizing m n with
  | zero => omega
  | succ width ih =>
    rw [lastDigits, lastDigits]
    rcases Nat.lt_or_eq_of_le (Nat.div_le_div_right (c := 10) hmn.le) with hlt | heq
    · have hn' : n / 10 < 10 ^ width := by
        rw [Nat.div_lt_iff_lt_mul (by omega), ← Nat.pow_succ]
        exact hn
      apply append_lt_append _ (ih hlt hn')
      rw [length_lastDigits, length_lastDigits]
    · rw [heq]
      apply List.append_left_lt
      rw [List.cons_lt_cons_iff]
      exact .inl (hdigit _ (Nat.mod_lt _ (by omega)) _ (by omega))

theorem leftpad_lt (hmn : m < n) (hn : n < 10 ^ (width + 1)) :
    List.leftpad (width + 1) '0' (Nat.toDigits 10 m) <
      List.leftpad (width + 1) '0' (Nat.toDigits 10 n) := by
  rw [leftpad_eq_lastDigits (hmn.trans hn), leftpad_eq_lastDigits hn]
  exact lastDigits_lt hmn hn

end Numerals
