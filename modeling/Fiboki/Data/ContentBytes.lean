import Fiboki.Data.Schema
import Fiboki.Lib.Separators

/-!
The bytes of a canonical frame determine it.

Neither the number of rows nor the length of a text is written.  Of two frames with as many
rows, the parts end where a lower-case letter or a separator says; two frames with different
numbers of rows would have the first column name of the one inside the numbers of the other,
and all the text that comes with it does not fit there.
-/

namespace Fiboki.Bars

open Separators

def bytesOf (s : String) : List UInt8 := Utf8.encode s.toList

def Lower (b : UInt8) : Prop := 97 ≤ b ∧ b ≤ 122

instance (b : UInt8) : Decidable (Lower b) := inferInstanceAs (Decidable (_ ∧ _))

def colsBytes (cols : List (NumericColumn × List UInt8)) : List UInt8 :=
  cols.flatMap fun c => columnBytes c.1.name c.2

def layout (n : ℕ) (instrument timeframe basis : List UInt8)
    (cols : List (NumericColumn × List UInt8)) : List UInt8 :=
  columnBytes "instrument" (repeated n instrument 0x1f) ++
    columnBytes "timeframe" (repeated n timeframe 0x1f) ++
    columnBytes "price_basis" (repeated n basis 0x1f) ++
    colsBytes cols

structure Parts (n : ℕ) (instrument timeframe basis : List UInt8)
    (cols : List (NumericColumn × List UInt8)) : Prop where
  instrument : ∀ b ∈ instrument, ¬ Lower b
  timeframe : ∃ tf : Timeframe, timeframe = bytesOf tf.value
  basis : ∃ p : PriceBasis, basis = bytesOf p.value
  cols : ∀ c ∈ cols, c.2.length = 8 * n

theorem timeframe_bytes (tf : Timeframe) :
    (∀ b ∈ bytesOf tf.value, ¬ Lower b ∧ b ≠ 0x1e) ∧ 2 ≤ (bytesOf tf.value).length := by
  rw [← List.forall_iff_forall_mem]
  cases tf <;> decide

variable (p : PriceBasis)

theorem basis_bytes : (∀ b ∈ bytesOf p.value, b ≠ 0x1e) ∧ 3 ≤ (bytesOf p.value).length := by
  rw [← List.forall_iff_forall_mem]
  cases p <;> decide

variable (c : NumericColumn)

theorem column_bytes :
    (∀ b ∈ bytesOf c.name, b ≠ 0) ∧ ∃ b rest, bytesOf c.name = b :: rest ∧ Lower b := by
  rw [← List.forall_iff_forall_mem]
  cases c <;> exact ⟨by decide, _, _, rfl, by decide⟩

theorem bytesOf_name_injective {c c' : NumericColumn} (h : bytesOf c.name = bytesOf c'.name) :
    c = c' := by
  revert h
  cases c <;> cases c' <;> decide

theorem columnBytes_eq (name : String) (cells rest : List UInt8) :
    columnBytes name cells ++ rest = bytesOf name ++ 0 :: (cells ++ 0x1e :: rest) := by
  unfold columnBytes bytesOf
  simp

theorem colsBytes_cons (c : NumericColumn × List UInt8) (cols : List (NumericColumn × List UInt8)) :
    colsBytes (c :: cols) = bytesOf c.1.name ++ 0 :: (c.2 ++ 0x1e :: colsBytes cols) := by
  unfold colsBytes
  rw [List.flatMap_cons, columnBytes_eq]

variable {cols cols' : List (NumericColumn × List UInt8)} {n : ℕ}

theorem cols_injective (h : ∀ c ∈ cols, c.2.length = 8 * n) (h' : ∀ c ∈ cols', c.2.length = 8 * n)
    (heq : colsBytes cols = colsBytes cols') : cols = cols' := by
  induction cols generalizing cols' with
  | nil =>
    cases cols' with
    | nil => rfl
    | cons c' cols' =>
      rw [colsBytes_cons] at heq
      have hlength := congrArg List.length heq
      simp [colsBytes] at hlength
  | cons c cols ih =>
    cases cols' with
    | nil =>
      rw [colsBytes_cons] at heq
      have hlength := congrArg List.length heq
      simp [colsBytes] at hlength
    | cons c' cols' =>
      rw [colsBytes_cons, colsBytes_cons] at heq
      obtain ⟨hname, hrest⟩ := split_unique (p := fun b => b ≠ 0) (column_bytes c.1).1
        (column_bytes c'.1).1 (fun hne => hne rfl) (fun hne => hne rfl) heq
      have hlength : c.2.length = c'.2.length :=
        (h c List.mem_cons_self).trans (h' c' List.mem_cons_self).symm
      obtain ⟨hcells, htail⟩ := List.append_inj (List.cons.inj hrest).2 hlength
      have hhead : c = c' := Prod.ext (bytesOf_name_injective hname) hcells
      rw [hhead, ih (fun d hd => h d (List.mem_cons_of_mem _ hd))
        (fun d hd => h' d (List.mem_cons_of_mem _ hd)) (List.cons.inj htail).2]

theorem layout_eq (n : ℕ) (instrument timeframe basis : List UInt8)
    (cols : List (NumericColumn × List UInt8)) :
    layout n instrument timeframe basis cols =
      bytesOf "instrument" ++ 0 :: ((repeated n instrument 0x1f ++ [0x1e]) ++
        (bytesOf "timeframe" ++ 0 :: ((repeated n timeframe 0x1f ++ [0x1e]) ++
          (bytesOf "price_basis" ++ 0 :: (repeated n basis 0x1f ++ 0x1e :: colsBytes cols))))) := by
  unfold layout columnBytes bytesOf
  simp

variable {cell : List UInt8}

theorem not_lower_repeated (h : ∀ b ∈ cell, ¬ Lower b) :
    ∀ b ∈ repeated n cell 0x1f ++ [0x1e], ¬ Lower b := by
  intro b hb
  rcases List.mem_append.1 hb with hb | hb
  · rcases mem_repeated hb with hb | rfl
    · exact h b hb
    · decide
  · rw [List.mem_singleton.1 hb]
    decide

theorem layout_injective {i t b i' t' b' : List UInt8} (h : Parts n i t b cols)
    (h' : Parts n i' t' b' cols') (heq : layout n i t b cols = layout n i' t' b' cols') :
    (n ≠ 0 → i = i' ∧ t = t' ∧ b = b') ∧ cols = cols' := by
  have hlower : ∃ a rest, bytesOf "timeframe" = a :: rest ∧ ¬ ¬ Lower a :=
    ⟨_, _, rfl, by decide⟩
  have hlower' : ∃ a rest, bytesOf "price_basis" = a :: rest ∧ ¬ ¬ Lower a :=
    ⟨_, _, rfl, by decide⟩
  obtain ⟨a, rest, ha, hlow⟩ := hlower
  obtain ⟨a', rest', ha', hlow'⟩ := hlower'
  obtain ⟨tf, rfl⟩ := h.timeframe
  obtain ⟨tf', rfl⟩ := h'.timeframe
  obtain ⟨p, rfl⟩ := h.basis
  obtain ⟨p', rfl⟩ := h'.basis
  rw [layout_eq, layout_eq] at heq
  have hfirst := (List.cons.inj (List.append_cancel_left heq)).2
  rw [ha, List.cons_append] at hfirst
  obtain ⟨hinstrument, hsecond⟩ := split_unique (p := fun b => ¬ Lower b)
    (not_lower_repeated h.instrument) (not_lower_repeated h'.instrument) hlow hlow hfirst
  have hthird := (List.cons.inj (List.append_cancel_left (List.cons.inj hsecond).2)).2
  rw [ha', List.cons_append] at hthird
  obtain ⟨htimeframe, hfourth⟩ := split_unique (p := fun b => ¬ Lower b)
    (not_lower_repeated fun b hb => ((timeframe_bytes tf).1 b hb).1)
    (not_lower_repeated fun b hb => ((timeframe_bytes tf').1 b hb).1) hlow' hlow' hthird
  have hfifth := (List.cons.inj (List.append_cancel_left (List.cons.inj hfourth).2)).2
  have hbasis : ∀ (q : PriceBasis), ∀ b ∈ repeated n (bytesOf q.value) 0x1f, b ≠ 0x1e := by
    intro q b hb
    rcases mem_repeated hb with hb | rfl
    · exact (basis_bytes q).1 b hb
    · decide
  obtain ⟨hbases, hcols⟩ := split_unique (p := fun b => b ≠ 0x1e) (hbasis p) (hbasis p')
    (fun hne => hne rfl) (fun hne => hne rfl) hfifth
  refine ⟨?_, cols_injective h.cols h'.cols (List.cons.inj hcols).2⟩
  intro hn
  obtain ⟨k, rfl⟩ := Nat.exists_eq_succ_of_ne_zero hn
  exact ⟨repeated_injective (List.append_cancel_right hinstrument),
    repeated_injective (List.append_cancel_right htimeframe), repeated_injective hbases⟩

def NoIn : List UInt8 → Prop := Clear 0x69 fun b => b = 0x6e

def NoName : List UInt8 → Prop := Clear 0x1e Lower

variable {xs : List UInt8}

theorem noIn_of_not_lower (h : ∀ b ∈ xs, ¬ Lower b) : NoIn xs :=
  clear_of_notMem fun hmem => h _ hmem (by decide)

theorem noIn_basis : NoIn (bytesOf p.value ++ [0x1f]) := by
  unfold NoIn
  cases p <;> decide

theorem noIn_name : NoIn (bytesOf c.name ++ [0]) := by
  unfold NoIn
  cases c <;> decide

theorem cells_of_cols {cols : List (NumericColumn × List UInt8)}
    (h : ∀ c ∈ cols, c.2.length = 8 * n) {pre rest : List UInt8}
    (heq : colsBytes cols = pre ++ 0x69 :: 0x6e :: rest) :
    ∃ cells cols', cells.length ≤ 8 * n ∧
      0x69 :: 0x6e :: rest = cells ++ 0x1e :: colsBytes cols' := by
  induction cols generalizing pre with
  | nil => simp [colsBytes] at heq
  | cons c cols ih =>
    rw [colsBytes_cons, ← List.singleton_append, ← List.append_assoc] at heq
    obtain ⟨more, -, hcells⟩ := (noIn_name c.1).skip rfl heq
    rcases List.append_eq_append_iff.1 hcells with ⟨after, -, hrest⟩ | ⟨cells, hc, hrest⟩
    · cases after with
      | nil => cases hrest
      | cons x after =>
        exact ih (fun d hd => h d (List.mem_cons_of_mem _ hd)) (List.cons.inj hrest).2
    · refine ⟨cells, cols, ?_, hrest⟩
      have hlength := h c List.mem_cons_self
      rw [hc, List.length_append] at hlength
      omega

theorem noName_repeated (h : ∀ b ∈ cell, ¬ Lower b) : NoName (repeated n cell 0x1f) :=
  (clear_snoc h (by decide) (by decide)).repeated

theorem noName_of_ne (h : ∀ b ∈ xs, b ≠ 0x1e) : NoName xs :=
  clear_of_notMem fun hmem => h _ hmem rfl

theorem ne_repeated (h : ∀ b ∈ cell, b ≠ 0x1e) : ∀ b ∈ repeated n cell 0x1f, b ≠ 0x1e := by
  intro b hb
  rcases mem_repeated hb with hb | rfl
  · exact h b hb
  · decide

theorem skip_part {part tail pre rest : List UInt8} {next : String} {c : NumericColumn}
    (hpart : NoName part) (hne : bytesOf next ≠ bytesOf c.name) (hzero : ∀ b ∈ bytesOf next, b ≠ 0)
    (heq : part ++ 0x1e :: (bytesOf next ++ 0 :: tail) =
      pre ++ 0x1e :: (bytesOf c.name ++ 0 :: rest)) :
    ∃ more, pre = part ++ 0x1e :: more ∧
      bytesOf next ++ 0 :: tail = more ++ 0x1e :: (bytesOf c.name ++ 0 :: rest) := by
  obtain ⟨hname, y, name, hc, hlower⟩ := column_bytes c
  rw [hc, List.cons_append] at heq
  obtain ⟨more, rfl, hmore⟩ := hpart.skip hlower heq
  cases more with
  | nil =>
    have htail := (List.cons.inj hmore).2
    rw [← List.cons_append, ← hc] at htail
    exact absurd (split_unique (p := fun b => b ≠ 0) hzero hname (fun h => h rfl)
      (fun h => h rfl) htail).1 hne
  | cons x more =>
    obtain ⟨rfl, htail⟩ := List.cons.inj hmore
    rw [hc]
    exact ⟨more, rfl, htail⟩

theorem noName_part {name : String} {cells : List UInt8} (hname : NoName (bytesOf name ++ [0]))
    (hcells : NoName cells) : NoName (bytesOf name ++ 0 :: cells) := by
  rw [← List.singleton_append, ← List.append_assoc]
  exact hname.append hcells

variable {i t b : List UInt8}

theorem length_le_of_name {m : ℕ} {cols : List (NumericColumn × List UInt8)}
    (h : Parts m i t b cols) {c : NumericColumn} {cells rest : List UInt8}
    (heq : layout m i t b cols = cells ++ 0x1e :: (bytesOf c.name ++ 0 :: rest)) :
    8 * m ≤ cells.length := by
  obtain ⟨tf, rfl⟩ := h.timeframe
  obtain ⟨p, rfl⟩ := h.basis
  have hinstrument : NoName (bytesOf "instrument" ++ 0 :: repeated m i 0x1f) :=
    noName_part (by unfold NoName; decide) (noName_repeated h.instrument)
  have htimeframe : NoName (bytesOf "timeframe" ++ 0 :: repeated m (bytesOf tf.value) 0x1f) :=
    noName_part (by unfold NoName; decide)
      (noName_of_ne (ne_repeated fun b hb => ((timeframe_bytes tf).1 b hb).2))
  have hbasis : NoName (bytesOf "price_basis" ++ 0 :: repeated m (bytesOf p.value) 0x1f) :=
    noName_part (by unfold NoName; decide)
      (noName_of_ne (ne_repeated (basis_bytes p).1))
  have hlayout : layout m i (bytesOf tf.value) (bytesOf p.value) cols =
      (bytesOf "instrument" ++ 0 :: repeated m i 0x1f) ++ 0x1e :: (bytesOf "timeframe" ++ 0 ::
        (repeated m (bytesOf tf.value) 0x1f ++ 0x1e :: (bytesOf "price_basis" ++ 0 ::
          (repeated m (bytesOf p.value) 0x1f ++ 0x1e :: colsBytes cols)))) := by
    unfold layout columnBytes bytesOf
    simp
  rw [hlayout] at heq
  obtain ⟨pre, rfl, hpre⟩ := skip_part hinstrument (by cases c <;> decide)
    (List.forall_iff_forall_mem.1 (by decide)) heq
  rw [← List.cons_append, ← List.append_assoc] at hpre
  obtain ⟨pre', rfl, hpre'⟩ := skip_part htimeframe (by cases c <;> decide)
    (List.forall_iff_forall_mem.1 (by decide)) hpre
  rw [← List.cons_append, ← List.append_assoc] at hpre'
  obtain ⟨-, y, name, hc, hlower⟩ := column_bytes c
  rw [hc, List.cons_append] at hpre'
  obtain ⟨pre'', rfl, -⟩ := hbasis.skip hlower hpre'
  simp only [List.length_append, List.length_cons, length_repeated]
  have htlength := Nat.mul_le_mul_left m (timeframe_bytes tf).2
  have hblength := Nat.mul_le_mul_left m (basis_bytes p).2
  rw [Nat.mul_add, Nat.mul_add, Nat.mul_add]
  omega

theorem length_layout {m : ℕ} {cols : List (NumericColumn × List UInt8)}
    (h : Parts m i t b cols) : 8 * m + 1 ≤ (layout m i t b cols).length := by
  obtain ⟨tf, rfl⟩ := h.timeframe
  obtain ⟨p, rfl⟩ := h.basis
  rw [layout_eq]
  simp only [List.length_append, List.length_cons, length_repeated]
  have htlength := Nat.mul_le_mul_left m (timeframe_bytes tf).2
  have hblength := Nat.mul_le_mul_left m (basis_bytes p).2
  rw [Nat.mul_add, Nat.mul_add, Nat.mul_add]
  omega

theorem layout_ne {n m : ℕ} (hnm : n < m) {index index' i t b i' t' b' : List UInt8}
    (hindex : index.length = 8 * n)
    (hindex' : index'.length = 8 * m) (h : Parts n i t b cols) (h' : Parts m i' t' b' cols') :
    index ++ layout n i t b cols ≠ index' ++ layout m i' t' b' cols' := by
  intro heq
  have hmin := length_layout h'
  obtain ⟨tf, rfl⟩ := h.timeframe
  obtain ⟨p, rfl⟩ := h.basis
  -- the longer index ends inside the layout of the shorter one
  obtain ⟨beyond, hover, hlayout⟩ : ∃ beyond, index' = index ++ beyond ∧
      layout n i (bytesOf tf.value) (bytesOf p.value) cols = beyond ++ layout m i' t' b' cols' := by
    rcases List.append_eq_append_iff.1 heq with ⟨beyond, ho, hl⟩ | ⟨beyond, ho, -⟩
    · exact ⟨beyond, ho, hl⟩
    · have := congrArg List.length ho
      rw [List.length_append] at this
      omega
  have hlength : 8 ≤ beyond.length := by
    have := congrArg List.length hover
    rw [List.length_append] at this
    omega
  obtain ⟨rest, hrest⟩ : ∃ rest, layout m i' t' b' cols' = 0x69 :: 0x6e :: rest := by
    rw [layout_eq]
    exact ⟨_, rfl⟩
  have hinstrument : bytesOf "instrument" = 0x69 :: (bytesOf "instrument").tail := rfl
  rw [layout_eq, hinstrument, hrest] at hlayout
  cases beyond with
  | nil => simp at hlength
  | cons x beyond =>
    rw [List.cons_append, List.cons_append] at hlayout
    have htail := (List.cons.inj hlayout).2
    -- the text columns of the shorter one, whose first letter is gone, are passed over
    have htext : NoIn ((bytesOf "instrument").tail ++ [0] ++ (repeated n i 0x1f ++ [0x1e]) ++
        (bytesOf "timeframe" ++ [0]) ++ (repeated n (bytesOf tf.value) 0x1f ++ [0x1e]) ++
        (bytesOf "price_basis" ++ [0]) ++ repeated n (bytesOf p.value) 0x1f ++ [0x1e]) := by
      have hname : NoIn ((bytesOf "instrument").tail ++ [0]) ∧ NoIn (bytesOf "timeframe" ++ [0]) ∧
          NoIn (bytesOf "price_basis" ++ [0]) ∧ NoIn [0x1e] := by
        unfold NoIn
        decide
      have hi : NoIn (repeated n i 0x1f ++ [0x1e]) :=
        noIn_of_not_lower (not_lower_repeated h.instrument)
      have ht : NoIn (repeated n (bytesOf tf.value) 0x1f ++ [0x1e]) :=
        noIn_of_not_lower (not_lower_repeated fun b hb => ((timeframe_bytes tf).1 b hb).1)
      have hp : NoIn (repeated n (bytesOf p.value) 0x1f) := (noIn_basis p).repeated
      exact (((((hname.1.append hi).append hname.2.1).append ht).append hname.2.2.1).append
        hp).append hname.2.2.2
    have hskip : ((bytesOf "instrument").tail ++ [0] ++ (repeated n i 0x1f ++ [0x1e]) ++
        (bytesOf "timeframe" ++ [0]) ++ (repeated n (bytesOf tf.value) 0x1f ++ [0x1e]) ++
        (bytesOf "price_basis" ++ [0]) ++ repeated n (bytesOf p.value) 0x1f ++ [0x1e]) ++
        colsBytes cols = beyond ++ 0x69 :: 0x6e :: rest := by
      rw [← htail]
      simp only [List.append_assoc, List.cons_append, List.nil_append]
    obtain ⟨pre, -, hcols⟩ := htext.skip rfl hskip
    obtain ⟨cells, cols'', hcells, hlong⟩ := cells_of_cols h.cols hcols
    rw [← hrest] at hlong
    cases cols'' with
    | nil =>
      have := congrArg List.length hlong
      rw [List.length_append] at this
      simp [colsBytes] at this
      omega
    | cons c cols'' =>
      rw [colsBytes_cons] at hlong
      have := length_le_of_name h' hlong
      omega

/-- The shape that `canonical_frame` gives: the canonical columns in their order, one identity,
and an instrument in upper case. -/
structure Canonical (f : Frame) : Prop where
  accepted : Accepted f
  ordered : f.columns = f.ordered
  upper : ∀ r ∈ f.rows, ∀ c ∈ r.instrument.toList, ¬ ('a' ≤ c ∧ c ≤ 'z')

structure SameContent (f g : Frame) : Prop where
  columns : f.columns = g.columns
  rows : List.Forall₂ (fun r r' : Row => r.timestamp = r'.timestamp ∧
    r.instrument = r'.instrument ∧ r.timeframe = r'.timeframe ∧ r.priceBasis = r'.priceBasis ∧
    ∀ c ∈ f.columns, r.value c = r'.value c) f.rows g.rows

def indexBytes (f : Frame) : List UInt8 :=
  f.rows.flatMap fun r => word (BitVec.ofInt 64 r.timestamp)

def colsOf (f : Frame) : List (NumericColumn × List UInt8) :=
  f.ordered.map fun c => (c, f.rows.flatMap fun r => word (r.value c))

theorem length_word (w : BitVec 64) : (word w).length = 8 := by
  unfold word
  rw [List.length_map, List.length_range]

theorem length_flatMap_word (rows : List Row) (g : Row → BitVec 64) :
    (rows.flatMap fun r => word (g r)).length = 8 * rows.length := by
  induction rows with
  | nil => rfl
  | cons r rows ih =>
    rw [List.flatMap_cons, List.length_append, length_word, ih, List.length_cons]
    omega

theorem textCells_eq {rows : List Row} {field : Row → String} {v : String}
    (h : ∀ r ∈ rows, field r = v) :
    textCells (rows.map field) = repeated rows.length (bytesOf v) 0x1f := by
  induction rows with
  | nil => rfl
  | cons r rows ih =>
    have hcons : textCells ((r :: rows).map field) =
        (bytesOf (field r) ++ [0x1f]) ++ textCells (rows.map field) := rfl
    rw [hcons, h r List.mem_cons_self, ih fun q hq => h q (List.mem_cons_of_mem _ hq),
      List.length_cons, repeated_succ, List.append_assoc, List.singleton_append]

theorem not_lower_bytesOf {s : String} (h : ∀ c ∈ s.toList, ¬ ('a' ≤ c ∧ c ≤ 'z')) :
    ∀ b ∈ bytesOf s, ¬ Lower b := by
  intro b hb hlow
  obtain ⟨c, hc, hbc⟩ := List.mem_flatMap.1 hb
  have hlow' : 97 ≤ b.toNat ∧ b.toNat ≤ 122 := hlow
  by_cases hascii : c.toNat < 128
  · rw [Utf8.encodeChar_ascii hascii, List.mem_singleton] at hbc
    have hnat : b.toNat = c.toNat := by
      rw [hbc, UInt8.toNat_ofNat']
      omega
    rw [hnat] at hlow'
    exact h c hc hlow'
  · have hhigh := Utf8.encodeChar_high (Nat.le_of_not_lt hascii) hbc
    omega

theorem word_injective {w w' : BitVec 64} (h : word w = word w') : w = w' := by
  apply BitVec.eq_of_toNat_eq
  have hw := w.isLt
  have hw' := w'.isLt
  unfold word at h
  have hbyte : ∀ i < 8, w.toNat / 256 ^ i % 256 = w'.toNat / 256 ^ i % 256 := by
    intro i hi
    have hget := List.map_inj_left.1 h i (List.mem_range.2 hi)
    have hnat := congrArg UInt8.toNat hget
    rwa [UInt8.toNat_ofNat', UInt8.toNat_ofNat'] at hnat
  have hmod : ∀ k ≤ 8, w.toNat % 256 ^ k = w'.toNat % 256 ^ k := by
    intro k
    induction k with
    | zero => intro _; rw [Nat.pow_zero, Nat.mod_one, Nat.mod_one]
    | succ k ih =>
      intro hk
      rw [Nat.mod_pow_succ, Nat.mod_pow_succ, ih (by omega), hbyte k (by omega)]
  have hall := hmod 8 (le_refl 8)
  have hpow : 256 ^ 8 = 2 ^ 64 := rfl
  rwa [hpow, Nat.mod_eq_of_lt hw, Nat.mod_eq_of_lt hw'] at hall

theorem Row.bounds (r : Row) :
    -9223372036854775808 < r.timestamp ∧ r.timestamp < 9223372036854775808 := by
  simpa using r.representable

theorem ofInt_injective {r r' : Row}
    (h : BitVec.ofInt 64 r.timestamp = BitVec.ofInt 64 r'.timestamp) :
    r.timestamp = r'.timestamp := by
  have hr := r.bounds
  have hr' := r'.bounds
  have hint := congrArg BitVec.toInt h
  rw [BitVec.toInt_ofInt, BitVec.toInt_ofInt, Int.bmod_eq_of_le, Int.bmod_eq_of_le] at hint
  · exact hint
  all_goals omega

variable {rows rows' : List Row}

theorem words_injective {g : Row → BitVec 64} (hlength : rows.length = rows'.length)
    (h : (rows.flatMap fun r => word (g r)) = rows'.flatMap fun r => word (g r)) :
    List.Forall₂ (fun r r' => g r = g r') rows rows' := by
  induction rows generalizing rows' with
  | nil =>
    obtain rfl := List.eq_nil_of_length_eq_zero hlength.symm
    exact .nil
  | cons r rows ih =>
    cases rows' with
    | nil => cases hlength
    | cons r' rows' =>
      rw [List.flatMap_cons, List.flatMap_cons] at h
      obtain ⟨hhead, htail⟩ := List.append_inj h (by rw [length_word, length_word])
      exact .cons (word_injective hhead) (ih (Nat.succ.inj hlength) htail)

theorem contentBytes_eq {f : Frame} {i : String} {tf : Timeframe} {p : PriceBasis}
    (hi : ∀ r ∈ f.rows, r.instrument = i) (htf : ∀ r ∈ f.rows, r.timeframe = tf.value)
    (hp : ∀ r ∈ f.rows, r.priceBasis = p.value) :
    contentBytes f = bytesOf "fiboki-bars-v1" ++ 0 :: (indexBytes f ++
      layout f.rows.length (bytesOf i) (bytesOf tf.value) (bytesOf p.value) (colsOf f)) := by
  unfold contentBytes layout indexBytes colsOf colsBytes
  rw [textCells_eq hi, textCells_eq htf, textCells_eq hp, List.flatMap_map]
  simp only [List.append_assoc, List.cons_append, bytesOf]

theorem Canonical.parts {f : Frame} (h : Canonical f) :
    ∃ (i : String) (tf : Timeframe) (p : PriceBasis), (∀ r ∈ f.rows, r.instrument = i) ∧
      (∀ r ∈ f.rows, r.timeframe = tf.value) ∧ (∀ r ∈ f.rows, r.priceBasis = p.value) ∧
      Parts f.rows.length (bytesOf i) (bytesOf tf.value) (bytesOf p.value) (colsOf f) := by
  obtain ⟨⟨p, hp⟩, ⟨tf, htf⟩, ⟨i, hi⟩⟩ := h.accepted.identified
  have hcols : ∀ c ∈ colsOf f, c.2.length = 8 * f.rows.length := by
    intro c hc
    obtain ⟨d, -, rfl⟩ := List.mem_map.1 hc
    exact length_flatMap_word _ _
  cases hrows : f.rows with
  | nil =>
    rw [hrows] at hcols
    refine ⟨"", tf, p, ?_, ?_, ?_, ?_, ⟨tf, rfl⟩, ⟨p, rfl⟩, hcols⟩
    · exact fun r hr => absurd hr List.not_mem_nil
    · exact fun r hr => absurd hr List.not_mem_nil
    · exact fun r hr => absurd hr List.not_mem_nil
    · exact fun b hb => absurd hb List.not_mem_nil
  | cons r rows =>
    have hr : r ∈ f.rows := hrows ▸ List.mem_cons_self
    rw [← hrows]
    refine ⟨i, tf, p, hi, htf, hp, ?_, ⟨tf, rfl⟩, ⟨p, rfl⟩, hcols⟩
    rw [← hi r hr]
    exact not_lower_bytesOf (h.upper r hr)

theorem bytesOf_injective {s s' : String} (h : bytesOf s = bytesOf s') : s = s' := by
  have hdecode := congrArg Utf8.decode h
  unfold bytesOf at hdecode
  rw [Utf8.decode_encode, Utf8.decode_encode] at hdecode
  exact String.toList_injective (Option.some.inj hdecode)

theorem map_eq_of_rows {β : Type} {g : Row → β}
    (h : List.Forall₂ (fun r r' => g r = g r') rows rows') : rows.map g = rows'.map g := by
  rw [← List.forall₂_eq_eq_eq, List.forall₂_map_left_iff, List.forall₂_map_right_iff]
  exact h

variable {f g : Frame}

theorem SameContent.contentBytes_eq (h : SameContent f g) : contentBytes f = contentBytes g := by
  have hordered : f.ordered = g.ordered := by
    unfold Frame.ordered
    rw [h.columns]
  have htime := map_eq_of_rows (h.rows.imp fun _ _ hr => hr.1)
  have hinstrument := map_eq_of_rows (h.rows.imp fun _ _ hr => hr.2.1)
  have htimeframe := map_eq_of_rows (h.rows.imp fun _ _ hr => hr.2.2.1)
  have hbasis := map_eq_of_rows (h.rows.imp fun _ _ hr => hr.2.2.2.1)
  have hindex : (f.rows.flatMap fun r => word (BitVec.ofInt 64 r.timestamp)) =
      g.rows.flatMap fun r => word (BitVec.ofInt 64 r.timestamp) := by
    rw [← List.flatMap_map Row.timestamp fun t => word (BitVec.ofInt 64 t), htime, List.flatMap_map]
  have hcols :
    (f.ordered.flatMap fun c => columnBytes c.name (f.rows.flatMap fun r => word (r.value c))) =
      g.ordered.flatMap fun c => columnBytes c.name (g.rows.flatMap fun r => word (r.value c)) := by
    rw [← hordered]
    apply List.flatMap_congr
    intro c hc
    have hcolumn : c ∈ f.columns := of_decide_eq_true (List.mem_filter.1 hc).2
    have hcells := map_eq_of_rows (h.rows.imp fun _ _ hr => hr.2.2.2.2 c hcolumn)
    rw [← List.flatMap_map (fun r : Row => r.value c) word, hcells, List.flatMap_map]
  unfold contentBytes
  rw [hindex, hinstrument, htimeframe, hbasis, hcols]

theorem contentBytes_eq_iff (hf : Canonical f) (hg : Canonical g) :
    contentBytes f = contentBytes g ↔ SameContent f g := by
  refine ⟨?_, SameContent.contentBytes_eq⟩
  · intro h
    obtain ⟨i, tf, p, hi, htf, hp, hparts⟩ := hf.parts
    obtain ⟨i', tf', p', hi', htf', hp', hparts'⟩ := hg.parts
    have hindex : (indexBytes f).length = 8 * f.rows.length := length_flatMap_word _ _
    have hindex' : (indexBytes g).length = 8 * g.rows.length := length_flatMap_word _ _
    rw [contentBytes_eq hi htf hp, contentBytes_eq hi' htf' hp'] at h
    have hbytes := (List.cons.inj (List.append_cancel_left h)).2
    have hlength : f.rows.length = g.rows.length := by
      rcases Nat.lt_trichotomy f.rows.length g.rows.length with hlt | heq | hgt
      · exact absurd hbytes (layout_ne hlt hindex hindex' hparts hparts')
      · exact heq
      · exact absurd hbytes.symm (layout_ne hgt hindex' hindex hparts' hparts)
    obtain ⟨hindices, hlayout⟩ := List.append_inj hbytes (by rw [hindex, hindex', hlength])
    rw [hlength] at hparts hlayout
    obtain ⟨hidentity, hcols⟩ := layout_injective hparts hparts' hlayout
    have hordered : f.ordered = g.ordered := by
      have := congrArg (List.map Prod.fst) hcols
      unfold colsOf at this
      rwa [List.map_map, List.map_map, show Prod.fst ∘ (fun c : NumericColumn =>
        (c, f.rows.flatMap fun r => word (r.value c))) = id from rfl,
        show Prod.fst ∘ (fun c : NumericColumn =>
        (c, g.rows.flatMap fun r => word (r.value c))) = id from rfl, List.map_id,
        List.map_id] at this
    have hcolumns : f.columns = g.columns := by rw [hf.ordered, hg.ordered, hordered]
    refine ⟨hcolumns, List.forall₂_iff_get.2 ⟨hlength, ?_⟩⟩
    intro k hk hk'
    have hr : f.rows.get ⟨k, hk⟩ ∈ f.rows := List.get_mem _ _
    have hr' : g.rows.get ⟨k, hk'⟩ ∈ g.rows := List.get_mem _ _
    obtain ⟨hname, htime, hbase⟩ := hidentity (by omega)
    refine ⟨?_, ?_, ?_, ?_, ?_⟩
    · exact ofInt_injective ((List.forall₂_iff_get.1 (words_injective hlength hindices)).2 k hk hk')
    · rw [hi _ hr, hi' _ hr', bytesOf_injective hname]
    · rw [htf _ hr, htf' _ hr', bytesOf_injective htime]
    · rw [hp _ hr, hp' _ hr', bytesOf_injective hbase]
    · intro c hc
      have hcell : (f.rows.flatMap fun r => word (r.value c)) =
          g.rows.flatMap fun r => word (r.value c) := by
        have hmem : c ∈ f.ordered := hf.ordered ▸ hc
        unfold colsOf at hcols
        rw [← hordered] at hcols
        exact (Prod.mk.inj (List.map_inj_left.1 hcols c hmem)).2
      exact (List.forall₂_iff_get.1 (words_injective hlength hcell)).2 k hk hk'

end Fiboki.Bars
