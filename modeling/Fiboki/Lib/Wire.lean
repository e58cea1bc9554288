import Fiboki.Lib.Dict
import Mathlib.Data.Rat.Init
import Mathlib.Data.String.Basic

/-!
State as text-like values: scalars, lists and string-keyed dictionaries.

A writer turns a value into one of these and a reader turns it back or refuses.
The round-trip rules say that a reader which undoes a writer on every item of a
container undoes it on the container.
-/

namespace Wire

inductive Value where
  | null
  | nan
  | inf (negative : Bool)
  | bool (b : Bool)
  | int (z : ℤ)
  | num (q : ℚ)
  | str (s : String)
  | list (xs : List Value)
  | dict (entries : List (String × Value))

variable {α κ ν : Type} [LinearOrder κ]

section Ok

variable {ε : Type} {β : Type}

@[simp] theorem ok_bind (a : α) (f : α → Except ε β) : (Except.ok a >>= f) = f a := rfl

@[simp] theorem ok_map (a : α) (f : α → β) : f <$> (Except.ok a : Except ε α) = .ok (f a) := rfl

variable {x : Except ε α}

theorem bind_ok {f : α → Except ε β} {b : β} (h : (x >>= f) = .ok b) :
    ∃ a, x = .ok a ∧ f a = .ok b := by
  cases x with
  | error e => cases h
  | ok a => exact ⟨a, rfl, h⟩

theorem ok_of_map {f : α → β} {b : β} (h : x.toOption.map f = some b) :
    ∃ a, x = .ok a ∧ f a = b := by
  cases x with
  | error e => cases h
  | ok a => exact ⟨a, rfl, Option.some.inj h⟩

end Ok

namespace Value

def float : Value → Except String ℚ
  | num q => .ok q
  | int z => .ok z
  | _ => .error "not a number"

def integer : Value → Except String ℤ
  | int z => .ok z
  | _ => .error "not an integer"

def natural : Value → Except String ℕ
  | int (.ofNat n) => .ok n
  | _ => .error "not a natural number"

def text : Value → Except String String
  | str s => .ok s
  | _ => .error "not a string"

def flag : Value → Except String Bool
  | bool b => .ok b
  | _ => .error "not a boolean"

@[simp] theorem float_num (q : ℚ) : (num q).float = .ok q := rfl
@[simp] theorem integer_int (z : ℤ) : (int z).integer = .ok z := rfl
@[simp] theorem natural_int (n : ℕ) : (int n).natural = .ok n := rfl
@[simp] theorem text_str (s : String) : (str s).text = .ok s := rfl
@[simp] theorem flag_bool (b : Bool) : (bool b).flag = .ok b := rfl

def items : Value → Except String (List Value)
  | list xs => .ok xs
  | _ => .error "not a list"

def fields : Value → Except String (List (String × Value))
  | dict entries => .ok entries
  | _ => .error "not a dictionary"

/-- `state.get(key)`. -/
def get? (key : String) : Value → Option Value
  | dict entries => Dict.lookup key entries
  | _ => none

/-- `state[key]`. -/
def field (key : String) (v : Value) : Except String Value :=
  match v.get? key with
  | some x => .ok x
  | none => .error key

def fieldOr (key : String) (default : α) (read : Value → Except String α) (v : Value) :
    Except String α :=
  match v.get? key with
  | some x => read x
  | none => .ok default

end Value

def writeOption (write : α → Value) : Option α → Value
  | none => .null
  | some a => write a

def readOption (read : Value → Except String α) : Value → Except String (Option α)
  | .null => .ok none
  | v => (read v).map some

theorem readOption_writeOption {read : Value → Except String α} {write : α → Value} {o : Option α}
    (hnull : ∀ a, write a ≠ .null) (h : ∀ a ∈ o, read (write a) = .ok a) :
    readOption read (writeOption write o) = .ok o := by
  cases o with
  | none => rfl
  | some a =>
    have hread := h a rfl
    have hne := hnull a
    simp only [writeOption]
    cases hw : write a with
    | null => exact absurd hw hne
    | _ =>
      rw [hw] at hread
      simp only [readOption, hread]
      rfl

def writeList (write : α → Value) (xs : List α) : Value := .list (xs.map write)

def readList (read : Value → Except String α) (v : Value) : Except String (List α) := do
  (← v.items).mapM read

variable {β γ : Type} {read : β → Except String γ}

theorem mapM_map (write : γ → β) {xs : List γ}
    (h : ∀ x ∈ xs, read (write x) = .ok x) : (xs.map write).mapM read = .ok xs := by
  induction xs with
  | nil => rfl
  | cons x xs ih =>
    have hx := h x List.mem_cons_self
    have hxs := ih fun y hy => h y (List.mem_cons_of_mem _ hy)
    rw [List.map_cons, List.mapM_cons, hx, hxs]
    rfl

variable {xs : List β}

theorem forall₂_of_mapM {ys : List γ}
    (h : xs.mapM read = .ok ys) : List.Forall₂ (fun x y => read x = .ok y) xs ys := by
  induction xs generalizing ys with
  | nil =>
    cases h
    exact .nil
  | cons x xs ih =>
    rw [List.mapM_cons] at h
    obtain ⟨y, hy, h⟩ := bind_ok h
    obtain ⟨zs, hzs, h⟩ := bind_ok h
    cases h
    exact .cons hy (ih hzs)

theorem mapM_isOk : (∃ ys, xs.mapM read = .ok ys) ↔ ∀ x ∈ xs, ∃ y, read x = .ok y := by
  induction xs with
  | nil => exact ⟨fun _ x hx => absurd hx List.not_mem_nil, fun _ => ⟨[], rfl⟩⟩
  | cons x xs ih =>
    rw [List.forall_mem_cons, ← ih, List.mapM_cons]
    constructor
    · rintro ⟨ys, h⟩
      obtain ⟨y, hy, h⟩ := bind_ok h
      obtain ⟨zs, hzs, -⟩ := bind_ok h
      exact ⟨⟨y, hy⟩, zs, hzs⟩
    · rintro ⟨⟨y, hy⟩, zs, hzs⟩
      exact ⟨y :: zs, by rw [hy, hzs]; rfl⟩

theorem readList_writeList (read : Value → Except String α) (write : α → Value) {xs : List α}
    (h : ∀ x ∈ xs, read (write x) = .ok x) : readList read (writeList write xs) = .ok xs :=
  mapM_map write h

def writeDict (key : κ → String) (write : ν → Value) (d : Dict κ ν) : Value :=
  .dict (d.entries.map fun e => (key e.1, write e.2))

def readEntry (key : String → Except String κ) (read : Value → Except String ν)
    (e : String × Value) : Except String (κ × ν) := do
  return (← key e.1, ← read e.2)

def readDict (key : String → Except String κ) (read : Value → Except String ν) (v : Value) :
    Except String (Dict κ ν) := do
  return .ofList (← (← v.fields).mapM (readEntry key read))

theorem readDict_writeDict (key : String → Except String κ) (keyText : κ → String)
    (read : Value → Except String ν) (write : ν → Value) (d : Dict κ ν)
    (hkey : ∀ k, key (keyText k) = .ok k) (h : ∀ e ∈ d.entries, read (write e.2) = .ok e.2) :
    readDict key read (writeDict keyText write d) = .ok d := by
  have hentries : (d.entries.map fun e => (keyText e.1, write e.2)).mapM (readEntry key read) =
      .ok d.entries := by
    refine mapM_map (fun e : κ × ν => (keyText e.1, write e.2)) fun e he => ?_
    simp only [readEntry, hkey, h e he]
    rfl
  calc readDict key read (writeDict keyText write d)
      = ((d.entries.map fun e => (keyText e.1, write e.2)).mapM (readEntry key read)).bind
          (fun es => .ok (.ofList es)) := rfl
    _ = .ok (.ofList d.entries) := by rw [hentries]; rfl
    _ = .ok d := by rw [d.ofList_entries]

end Wire
