import Fiboki.Lib.Json

/-!
The JSON text of a value as it is written by default: every character that is not
printable ASCII is escaped by its UTF-16 code units, and a pair of surrogates is read
back as the character it stands for.
-/

namespace Json

open Wire

def utf16 (c : Char) : List ℕ :=
  if c.toNat < 0x10000 then [c.toNat]
  else [0xD800 + (c.toNat - 0x10000) / 0x400, 0xDC00 + (c.toNat - 0x10000) % 0x400]

def unitText (u : ℕ) : List Char :=
  ['\\', 'u', hexDigit (u / 4096), hexDigit (u / 256 % 16), hexDigit (u / 16 % 16),
    hexDigit (u % 16)]

/-- A character between quotes where `ensure_ascii` is set. -/
def asciiChar (c : Char) : List Char :=
  if c.toNat < 127 then escapeChar c else (utf16 c).flatMap unitText

def asciiUnits (c : Char) : List ℕ := if c.toNat < 127 then [c.toNat] else utf16 c

variable (c : Char)

theorem toNat_lt : c.toNat < 0x110000 := by
  have h := isValidChar_toNat c
  unfold Nat.isValidChar at h
  omega

variable {u : ℕ}

theorem utf16_lt {c : Char} (h : u ∈ utf16 c) : u < 65536 := by
  have hc := toNat_lt c
  unfold utf16 at h
  split_ifs at h with hsmall
  · rw [List.mem_singleton] at h
    omega
  · rcases List.mem_cons.1 h with rfl | h
    · omega
    · rw [List.mem_singleton] at h
      omega

theorem hex4_unit (h : u < 65536) :
    hex4 (hexDigit (u / 4096)) (hexDigit (u / 256 % 16)) (hexDigit (u / 16 % 16))
      (hexDigit (u % 16)) = some u := by
  unfold hex4
  rw [hexVal_hexDigit _ (by omega), hexVal_hexDigit _ (by omega), hexVal_hexDigit _ (by omega),
    hexVal_hexDigit _ (by omega)]
  simp only [Option.bind_eq_bind, Option.bind_some, Option.pure_def, Option.some.injEq]
  omega

theorem scanUnits_unit (h : u < 65536) (rest : List Char) :
    scanUnits (unitText u ++ rest) = (scanUnits rest).map fun r => (u :: r.1, r.2) := by
  unfold unitText
  rw [List.cons_append, List.cons_append, List.cons_append, List.cons_append, List.cons_append,
    List.cons_append, List.nil_append, scanUnits, hex4_unit h]
  cases scanUnits rest <;> rfl

theorem scanUnits_units {us : List ℕ} (h : ∀ u ∈ us, u < 65536) (rest : List Char) :
    scanUnits (us.flatMap unitText ++ rest) = (scanUnits rest).map fun r => (us ++ r.1, r.2) := by
  induction us with
  | nil =>
    rw [List.flatMap_nil, List.nil_append]
    cases scanUnits rest <;> rfl
  | cons u us ih =>
    have htail := ih fun v hv => h v (List.mem_cons_of_mem _ hv)
    rw [List.flatMap_cons, List.append_assoc, scanUnits_unit (h u List.mem_cons_self), htail]
    cases scanUnits rest <;> rfl

theorem scanUnits_asciiChar (rest : List Char) :
    scanUnits (asciiChar c ++ rest) = (scanUnits rest).map fun r => (asciiUnits c ++ r.1, r.2) := by
  unfold asciiChar asciiUnits
  split_ifs with h
  · rw [scanUnits_escapeChar]
    rfl
  · exact scanUnits_units (fun u hu => utf16_lt hu) rest

variable (us : List ℕ)

theorem joinUnits_single : joinUnits (c.toNat :: us) = c :: joinUnits us := by
  cases us with
  | nil => exact congrArg (fun d => [d]) (unitChar_toNat c)
  | cons u us =>
    have hc := not_surrogate c
    rw [joinUnits, if_neg (by omega), unitChar_toNat]

theorem joinUnits_pair {c : Char} (h : ¬ c.toNat < 0x10000) (us : List ℕ) :
    joinUnits ((0xD800 + (c.toNat - 0x10000) / 0x400) ::
      (0xDC00 + (c.toNat - 0x10000) % 0x400) :: us) = c :: joinUnits us := by
  have hc := toNat_lt c
  have hvalue : 0x10000 + (0xD800 + (c.toNat - 0x10000) / 0x400 - 0xD800) * 0x400 +
      (0xDC00 + (c.toNat - 0x10000) % 0x400 - 0xDC00) = c.toNat := by omega
  rw [joinUnits, if_pos (by omega), hvalue, unitChar_toNat]

theorem joinUnits_utf16 : joinUnits (utf16 c ++ us) = c :: joinUnits us := by
  unfold utf16
  split_ifs with h
  · exact joinUnits_single c us
  · exact joinUnits_pair h us

theorem joinUnits_ascii (cs : List Char) : joinUnits (cs.flatMap asciiUnits) = cs := by
  induction cs with
  | nil => rfl
  | cons c cs ih =>
    rw [List.flatMap_cons]
    unfold asciiUnits
    split_ifs with h
    · rw [List.cons_append, List.nil_append, joinUnits_single]
      exact congrArg (c :: ·) ih
    · rw [joinUnits_utf16]
      exact congrArg (c :: ·) ih

/-- `ensure_ascii=True`. -/
def Escape.ascii : Escape where
  char := asciiChar
  units := asciiUnits
  scan_char := scanUnits_asciiChar
  join_units := joinUnits_ascii

variable (es : List (String × Value))

theorem orderedFields_eq_map : orderedFields es = es.map fun e => (e.1, ordered e.2) := by
  induction es with
  | nil => rfl
  | cons e es ih => rw [orderedFields, ih, List.map_cons]

theorem sortedFields_of_forall {es : List (String × Value)} (h : ∀ e ∈ es, Sorted e.2) :
    SortedFields es := by
  induction es with
  | nil => trivial
  | cons e es ih => exact ⟨h e List.mem_cons_self, ih fun d hd => h d (List.mem_cons_of_mem _ hd)⟩

mutual
theorem sorted_ordered : ∀ v : Value, Sorted (ordered v)
  | .dict es => by
    refine ⟨(Dict.ofList (orderedFields es)).sorted, sortedFields_of_forall fun e he => ?_⟩
    exact sorted_orderedFields es e (Dict.mem_of_get_ofList (Dict.mem_entries.1 he))
  | .list xs => sorted_orderedItems xs
  | .null | .bool _ | .int _ | .num _ | .str _ | .nan | .inf _ => trivial

theorem sorted_orderedItems : ∀ xs : List Value, SortedItems (orderedItems xs)
  | [] => trivial
  | x :: xs => ⟨sorted_ordered x, sorted_orderedItems xs⟩

theorem sorted_orderedFields : ∀ es : List (String × Value), ∀ e ∈ orderedFields es, Sorted e.2
  | [], _, he => absurd he List.not_mem_nil
  | d :: es, e, he => by
    rcases List.mem_cons.1 he with rfl | he
    · exact sorted_ordered d.2
    · exact sorted_orderedFields es e he
end

theorem get?_ordered (k : String) :
    (ordered (.dict es)).get? k = ((Dict.ofList es).get k).map ordered := by
  rw [ordered, orderedFields_eq_map, Dict.ofList_map, ← Dict.get_map]
  rfl

theorem get?_ordered_of_mem {es : List (String × Value)} (h : (es.map Prod.fst).Nodup) {k : String}
    {v : Value} (hmem : (k, v) ∈ es) : (ordered (.dict es)).get? k = some (ordered v) := by
  rw [get?_ordered, Dict.get_ofList h, Dict.lookup_of_mem_nodup h hmem]
  rfl

/-- `json.dumps(v, sort_keys=True, separators=(",", ":"))`. -/
def asciiText (floats : FloatText) (v : Value) : List Char :=
  write floats (compact Escape.ascii) 0 (ordered v)

theorem asciiText_injective {floats : FloatText} {v w : Value}
    (h : asciiText floats v = asciiText floats w) : ordered v = ordered w :=
  write_injective floats _ (sorted_ordered v) (sorted_ordered w) h

def Printable (cs : List Char) : Prop := ∀ c ∈ cs, 32 ≤ c.toNat ∧ c.toNat < 128

theorem printable_nil : Printable [] := fun _ hc => absurd hc List.not_mem_nil

variable {cs : List Char}

theorem Printable.cons {c : Char} (h : Printable cs)
    (hc : 32 ≤ c.toNat ∧ c.toNat < 128) : Printable (c :: cs) := by
  intro d hd
  rcases List.mem_cons.1 hd with rfl | hd
  · exact hc
  · exact h d hd

theorem Printable.append {cs ds : List Char} (hc : Printable cs) (hd : Printable ds) :
    Printable (cs ++ ds) := by
  intro c hmem
  rcases List.mem_append.1 hmem with hmem | hmem
  · exact hc c hmem
  · exact hd c hmem

theorem Printable.snoc (h : Printable cs) {c : Char}
    (hc : 32 ≤ c.toNat ∧ c.toNat < 128) : Printable (cs ++ [c]) :=
  h.append (printable_nil.cons hc)

theorem printable_asciiChar : Printable (asciiChar c) := by
  intro x hx
  unfold asciiChar at hx
  split_ifs at hx with hsmall
  · have hmem := mem_escapeChar hx
    refine ⟨hmem.1, ?_⟩
    by_contra hbig
    have hsame := hmem.2 (by omega)
    rw [hsame] at hbig
    omega
  · obtain ⟨u, hu, hx⟩ := List.mem_flatMap.1 hx
    have hbound := utf16_lt hu
    unfold unitText at hx
    simp only [List.mem_cons, List.not_mem_nil, or_false] at hx
    rcases hx with rfl | rfl | rfl | rfl | rfl | rfl
    · decide
    · decide
    all_goals
      apply ascii_digitChar
      omega

variable (s : String)

theorem printable_quote : Printable (quote (compact Escape.ascii) s) := by
  have hbody : Printable (s.toList.flatMap asciiChar) := by
    intro x hx
    obtain ⟨c, -, hx⟩ := List.mem_flatMap.1 hx
    exact printable_asciiChar c x hx
  exact (hbody.snoc (by decide)).cons (by decide)

theorem printable_token {token : List Char} {b : Bool} (h : numberShape token = some b) :
    Printable token :=
  fun c hc => ascii_of_isNumberChar ((numberShape_some h).1 c hc)

theorem printable_word
    (h : (s.toList.all fun c => decide (32 ≤ c.toNat ∧ c.toNat < 128)) = true) :
    Printable s.toList :=
  fun c hc => of_decide_eq_true (List.all_eq_true.1 h c hc)

mutual
theorem printable_write (floats : FloatText) :
    ∀ (d : ℕ) (v : Value), Printable (write floats (compact Escape.ascii) d v)
  | _, .null => printable_word "null" (by decide)
  | _, .nan => printable_word "NaN" (by decide)
  | _, .inf false => printable_word "Infinity" (by decide)
  | _, .inf true => printable_word "-Infinity" (by decide)
  | _, .bool true => printable_word "true" (by decide)
  | _, .bool false => printable_word "false" (by decide)
  | _, .int z => printable_token (numberShape_intText z)
  | _, .num q => printable_token (floats.shape_text q)
  | _, .str s => printable_quote s
  | d, .list xs => by
    have hitems := ((printable_writeItems floats (d + 1) xs).snoc (c := ']') (by decide)).cons
      (c := '[') (by decide)
    cases xs <;> simpa [write, compact] using hitems
  | d, .dict es => by
    have hfields := ((printable_writeFields floats (d + 1) es).snoc (c := '}') (by decide)).cons
      (c := '{') (by decide)
    cases es <;> simpa [write, compact] using hfields

theorem printable_writeItems (floats : FloatText) :
    ∀ (d : ℕ) (xs : List Value), Printable (writeItems floats (compact Escape.ascii) d xs)
  | _, [] => printable_nil
  | d, [x] => by
    rw [writeItems]
    exact printable_write floats d x
  | d, x :: y :: rest => by
    have hrest := (printable_writeItems floats d (y :: rest)).cons (c := ',') (by decide)
    have := (printable_write floats d x).append hrest
    rw [writeItems]
    simpa [compact] using this

theorem printable_writeFields (floats : FloatText) : ∀ (d : ℕ) (es : List (String × Value)),
      Printable (writeFields floats (compact Escape.ascii) d es)
  | _, [] => printable_nil
  | d, [(k, v)] => by
    have := (printable_quote k).append ((printable_write floats d v).cons (c := ':') (by decide))
    rw [writeFields]
    simpa [compact] using this
  | d, (k, v) :: e :: rest => by
    have hv := (printable_quote k).append ((printable_write floats d v).cons (c := ':') (by decide))
    have hrest := (printable_writeFields floats d (e :: rest)).cons (c := ',') (by decide)
    have := hv.append hrest
    rw [writeFields]
    simpa [compact, List.append_assoc] using this
end

theorem printable_asciiText (floats : FloatText) (v : Value) : Printable (asciiText floats v) :=
  printable_write floats 0 (ordered v)

end Json
