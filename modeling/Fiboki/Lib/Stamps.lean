import Mathlib.Order.Bounds.Defs
import Mathlib.Order.Lattice

/-!
Times that may be missing: a linear order with at most one further value, of which no
comparison holds and which the maximum passes on.
-/

namespace Fiboki

/-- A linear order, but for one value that is not even at most itself. -/
class IsClock (T : Type) [LE T] [LT T] [Max T] : Prop where
  le_self_left : ∀ {a b : T}, a ≤ b → a ≤ a
  le_self_right : ∀ {a b : T}, a ≤ b → b ≤ b
  le_trans : ∀ {a b c : T}, a ≤ b → b ≤ c → a ≤ c
  le_antisymm : ∀ {a b : T}, a ≤ b → b ≤ a → a = b
  le_of_not_lt : ∀ {a b : T}, a ≤ a → b ≤ b → ¬b < a → a ≤ b
  le_total : ∀ {a b : T}, a ≤ a → b ≤ b → a ≤ b ∨ b ≤ a
  max_of_le : ∀ {a b : T}, a ≤ b → max a b = b
  max_of_ge : ∀ {a b : T}, b ≤ a → max a b = a
  max_missing : ∀ {a b : T}, ¬a ≤ a ∨ ¬b ≤ b → ¬max a b ≤ max a b
  missing_unique : ∀ {a b : T}, ¬a ≤ a → ¬b ≤ b → a = b

instance {T : Type} [LinearOrder T] : IsClock T where
  le_self_left _ := le_rfl
  le_self_right _ := le_rfl
  le_trans := fun h h' => h.trans h'
  le_antisymm := le_antisymm
  le_of_not_lt _ _ h := not_lt.1 h
  le_total _ _ := le_total _ _
  max_of_le := max_eq_right
  max_of_ge := max_eq_left
  max_missing h := absurd le_rfl (h.elim id fun h => absurd le_rfl h)
  missing_unique h := absurd le_rfl h

section Maximum

variable {T : Type} [LE T] [LT T] [Max T] [IsClock T] {a : T} {l : List T}

open IsClock

theorem isGreatest_foldl_max (h : ∀ x ∈ a :: l, x ≤ x) :
    IsGreatest {x | x ∈ a :: l} (l.foldl max a) := by
  induction l generalizing a with
  | nil =>
    refine ⟨List.mem_cons_self, fun x hx => ?_⟩
    rw [List.mem_singleton.1 hx]
    exact h a List.mem_cons_self
  | cons b l ih =>
    have ha : a ≤ a := h a List.mem_cons_self
    have hb : b ≤ b := h b (by simp)
    have hmax : (max a b = a ∨ max a b = b) ∧ a ≤ max a b ∧ b ≤ max a b := by
      rcases IsClock.le_total ha hb with hab | hba
      · rw [max_of_le hab]
        exact ⟨.inr rfl, hab, hb⟩
      · rw [max_of_ge hba]
        exact ⟨.inl rfl, ha, hba⟩
    obtain ⟨hmem, hle⟩ := ih (a := max a b) fun x hx => by
      rcases List.mem_cons.1 hx with rfl | hx
      · exact le_self_right hmax.2.1
      · exact h x (by simp [hx])
    have hfirst : max a b ≤ l.foldl max (max a b) := hle List.mem_cons_self
    refine ⟨?_, fun x hx => ?_⟩
    · rcases List.mem_cons.1 hmem with heq | hmem
      · rw [List.foldl_cons, heq]
        rcases hmax.1 with heq | heq <;> simp [heq]
      · exact List.mem_cons_of_mem _ (List.mem_cons_of_mem _ hmem)
    · rcases List.mem_cons.1 hx with rfl | hx
      · exact IsClock.le_trans hmax.2.1 hfirst
      · rcases List.mem_cons.1 hx with rfl | hx
        · exact IsClock.le_trans hmax.2.2 hfirst
        · exact hle (List.mem_cons_of_mem _ hx)

theorem missing_foldl_max (h : ∃ x ∈ a :: l, ¬x ≤ x) : ¬l.foldl max a ≤ l.foldl max a := by
  induction l generalizing a with
  | nil =>
    obtain ⟨x, hx, hmissing⟩ := h
    rwa [List.mem_singleton.1 hx] at hmissing
  | cons b l ih =>
    obtain ⟨x, hx, hmissing⟩ := h
    rw [List.foldl_cons]
    rcases List.mem_cons.1 hx with rfl | hx
    · exact ih ⟨_, List.mem_cons_self, max_missing (.inl hmissing)⟩
    · rcases List.mem_cons.1 hx with rfl | hx
      · exact ih ⟨_, List.mem_cons_self, max_missing (.inr hmissing)⟩
      · exact ih ⟨x, List.mem_cons_of_mem _ hx, hmissing⟩

end Maximum

/-- A time, or the NaN or NaT in its place. -/
inductive Stamp (T : Type) where
  | at_ (t : T)
  | nan

namespace Stamp

variable {T : Type}

def Le [LE T] : Stamp T → Stamp T → Prop
  | at_ a, at_ b => a ≤ b
  | at_ _, nan => False
  | nan, _ => False

def Lt [LT T] : Stamp T → Stamp T → Prop
  | at_ a, at_ b => a < b
  | at_ _, nan => False
  | nan, _ => False

def map₂ (f : T → T → T) : Stamp T → Stamp T → Stamp T
  | at_ a, at_ b => at_ (f a b)
  | at_ _, nan => nan
  | nan, _ => nan

instance [LE T] : LE (Stamp T) := ⟨Le⟩

instance [LT T] : LT (Stamp T) := ⟨Lt⟩

instance [Max T] : Max (Stamp T) := ⟨map₂ max⟩

instance [Add T] : Add (Stamp T) := ⟨map₂ (· + ·)⟩

instance [Sub T] : Sub (Stamp T) := ⟨map₂ (· - ·)⟩

instance [LE T] [DecidableLE T] : DecidableLE (Stamp T)
  | at_ a, at_ b => inferInstanceAs (Decidable (a ≤ b))
  | at_ _, nan => inferInstanceAs (Decidable False)
  | nan, _ => inferInstanceAs (Decidable False)

instance [LT T] [DecidableLT T] : DecidableLT (Stamp T)
  | at_ a, at_ b => inferInstanceAs (Decidable (a < b))
  | at_ _, nan => inferInstanceAs (Decidable False)
  | nan, _ => inferInstanceAs (Decidable False)

@[simp] theorem at_le_at [LE T] {a b : T} : at_ a ≤ at_ b ↔ a ≤ b := Iff.rfl

@[simp] theorem at_lt_at [LT T] {a b : T} : at_ a < at_ b ↔ a < b := Iff.rfl

@[simp] theorem not_nan_le [LE T] (a : Stamp T) : ¬nan ≤ a := id

@[simp] theorem not_le_nan [LE T] (a : Stamp T) : ¬a ≤ nan := by
  cases a <;> exact id

@[simp] theorem max_at [Max T] (a b : T) : max (at_ a) (at_ b) = at_ (max a b) := rfl

@[simp] theorem max_nan [Max T] (a : Stamp T) : max a nan = nan := by
  cases a <;> rfl

@[simp] theorem nan_max [Max T] (a : Stamp T) : max nan a = nan := rfl

instance [LinearOrder T] : IsClock (Stamp T) where
  le_self_left {a b} h := by cases a <;> cases b <;> simp_all
  le_self_right {a b} h := by cases a <;> cases b <;> simp_all
  le_trans {a b c} h h' := by
    cases a <;> cases b <;> cases c <;> simp_all
    exact h.trans h'
  le_antisymm {a b} h h' := by
    cases a <;> cases b <;> simp_all
    exact h.antisymm h'
  le_of_not_lt {a b} h h' hlt := by cases a <;> cases b <;> simp_all
  le_total {a b} h h' := by
    cases a <;> cases b <;> simp_all
    exact LinearOrder.le_total _ _
  max_of_le {a b} h := by cases a <;> cases b <;> simp_all
  max_of_ge {a b} h := by cases a <;> cases b <;> simp_all
  max_missing {a b} h := by cases a <;> cases b <;> simp_all
  missing_unique {a b} h h' := by cases a <;> cases b <;> simp_all

/-- The times of a list that holds no NaN. -/
def times : List (Stamp T) → Option (List T)
  | [] => some []
  | at_ t :: rest => (times rest).map (t :: ·)
  | nan :: _ => none

end Stamp

end Fiboki
