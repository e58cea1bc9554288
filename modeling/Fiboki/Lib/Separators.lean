import Mathlib.Data.List.Basic

/-!
Texts whose parts are ended by separators and have no lengths: where a part ends, and where in
a text two neighbours cannot stand.
-/

namespace Separators

variable {α : Type*}

theorem split_unique {p : α → Prop} {xs ys rest rest' : List α} {a b : α} (hx : ∀ x ∈ xs, p x)
    (hy : ∀ y ∈ ys, p y) (ha : ¬ p a) (hb : ¬ p b) (h : xs ++ a :: rest = ys ++ b :: rest') :
    xs = ys ∧ a :: rest = b :: rest' := by
  induction xs generalizing ys with
  | nil =>
    cases ys with
    | nil => exact ⟨rfl, h⟩
    | cons y ys =>
      obtain ⟨rfl, -⟩ := List.cons.inj h
      exact absurd (hy a List.mem_cons_self) ha
  | cons x xs ih =>
    cases ys with
    | nil =>
      obtain ⟨rfl, -⟩ := List.cons.inj h
      exact absurd (hx x List.mem_cons_self) hb
    | cons y ys =>
      obtain ⟨rfl, htail⟩ := List.cons.inj h
      obtain ⟨rfl, hrest⟩ := ih (fun z hz => hx z (List.mem_cons_of_mem _ hz))
        (fun z hz => hy z (List.mem_cons_of_mem _ hz)) htail
      exact ⟨rfl, hrest⟩

/-- Nowhere in the text, nor at its end, does `first` stand before something of `second`. -/
def Clear (first : α) (second : α → Prop) : List α → Prop
  | [] => True
  | [a] => a ≠ first
  | a :: b :: rest => ¬ (a = first ∧ second b) ∧ Clear first second (b :: rest)

instance clearDecidable [DecidableEq α] (first : α) (second : α → Prop) [DecidablePred second] :
    ∀ xs, Decidable (Clear first second xs)
  | [] => .isTrue trivial
  | [a] => inferInstanceAs (Decidable (a ≠ first))
  | a :: b :: rest =>
    have : Decidable (Clear first second (b :: rest)) := clearDecidable first second (b :: rest)
    inferInstanceAs (Decidable (¬ (a = first ∧ second b) ∧ Clear first second (b :: rest)))

section Clear

variable {first : α} {second : α → Prop}

variable {xs : List α}

theorem Clear.tail {a : α} (h : Clear first second (a :: xs)) : Clear first second xs := by
  cases xs with
  | nil => trivial
  | cons b xs => exact h.2

theorem Clear.append {xs ys : List α} (hx : Clear first second xs) (hy : Clear first second ys) :
    Clear first second (xs ++ ys) := by
  induction xs with
  | nil => exact hy
  | cons a xs ih =>
    cases xs with
    | nil =>
      cases ys with
      | nil => exact hx
      | cons b ys => exact ⟨fun hab => hx hab.1, hy⟩
    | cons b xs => exact ⟨hx.1, ih hx.2⟩

theorem clear_of_notMem (h : first ∉ xs) : Clear first second xs := by
  induction xs with
  | nil => trivial
  | cons a xs ih =>
    have hne : a ≠ first := fun heq => h (heq ▸ List.mem_cons_self)
    cases xs with
    | nil => exact hne
    | cons b xs => exact ⟨fun hab => hne hab.1, ih fun hmem => h (List.mem_cons_of_mem _ hmem)⟩

theorem clear_snoc {a : α} (h : ∀ x ∈ xs, ¬ second x) (ha : a ≠ first)
    (hsecond : ¬ second a) : Clear first second (xs ++ [a]) := by
  induction xs with
  | nil => exact ha
  | cons b xs ih =>
    have htail := ih fun x hx => h x (List.mem_cons_of_mem _ hx)
    cases xs with
    | nil => exact ⟨fun hab => hsecond hab.2, htail⟩
    | cons c xs =>
      exact ⟨fun hab => h c (List.mem_cons_of_mem _ List.mem_cons_self) hab.2, htail⟩

theorem Clear.skip {xs ys pre rest : List α} {b : α} (h : Clear first second xs) (hb : second b)
    (heq : xs ++ ys = pre ++ first :: b :: rest) :
    ∃ more, pre = xs ++ more ∧ ys = more ++ first :: b :: rest := by
  induction xs generalizing pre with
  | nil => exact ⟨pre, rfl, heq⟩
  | cons a xs ih =>
    cases pre with
    | nil =>
      obtain ⟨rfl, htail⟩ := List.cons.inj heq
      cases xs with
      | nil => exact absurd rfl h
      | cons c xs =>
        obtain ⟨rfl, -⟩ := List.cons.inj htail
        exact absurd ⟨rfl, hb⟩ h.1
    | cons p pre =>
      obtain ⟨rfl, htail⟩ := List.cons.inj heq
      obtain ⟨more, rfl, hys⟩ := ih h.tail htail
      exact ⟨more, rfl, hys⟩

end Clear

/-- `n` times a cell and its separator. -/
def repeated (n : ℕ) (cell : List α) (sep : α) : List α :=
  (List.replicate n (cell ++ [sep])).flatten

section Repeated

variable {n : ℕ} {cell cell' : List α} {sep : α}

theorem repeated_succ : repeated (n + 1) cell sep = cell ++ sep :: repeated n cell sep := by
  unfold repeated
  rw [List.replicate_succ, List.flatten_cons, List.append_assoc, List.singleton_append]

theorem length_repeated : (repeated n cell sep).length = n * (cell.length + 1) := by
  induction n with
  | zero => rw [Nat.zero_mul]; rfl
  | succ n ih =>
    rw [repeated_succ, List.length_append, List.length_cons, ih, Nat.succ_mul]
    omega

theorem mem_repeated {a : α} (h : a ∈ repeated n cell sep) : a ∈ cell ∨ a = sep := by
  unfold repeated at h
  obtain ⟨part, hpart, ha⟩ := List.mem_flatten.1 h
  rw [List.eq_of_mem_replicate hpart] at ha
  simpa using ha

theorem repeated_injective (h : repeated (n + 1) cell sep = repeated (n + 1) cell' sep) :
    cell = cell' := by
  have hlength := congrArg List.length h
  rw [length_repeated, length_repeated] at hlength
  have hsame : cell.length = cell'.length := by
    have := Nat.eq_of_mul_eq_mul_left (Nat.succ_pos n) hlength
    omega
  rw [repeated_succ, repeated_succ] at h
  exact (List.append_inj h hsame).1

theorem Clear.repeated {first : α} {second : α → Prop}
    (h : Clear first second (cell ++ [sep])) : Clear first second (repeated n cell sep) := by
  induction n with
  | zero => trivial
  | succ n ih =>
    rw [repeated_succ, ← List.singleton_append, ← List.append_assoc]
    exact h.append ih

end Repeated

end Separators
