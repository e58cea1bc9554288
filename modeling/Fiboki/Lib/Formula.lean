import Mathlib.Data.List.Basic

/-!
Formulas of nested conjunctions, disjunctions and negations over atoms.

Some atoms turn false.  What that does to a formula is read off the formula and its old
value alone: an atom can only be silenced, and a negation swaps what is silenced with what
is woken.
-/

universe u

inductive Formula (α : Type u) where
  | atom (a : α)
  | all (fs : List (Formula α))
  | any (fs : List (Formula α))
  | not (f : Formula α)

namespace Formula

variable {α : Type u}

@[elab_as_elim]
theorem induct {motive : Formula α → Prop} (atom : ∀ a, motive (.atom a))
    (all : ∀ fs, (∀ f ∈ fs, motive f) → motive (.all fs))
    (any : ∀ fs, (∀ f ∈ fs, motive f) → motive (.any fs))
    (not : ∀ f, motive f → motive (.not f)) (f : Formula α) : motive f := by
  refine @Formula.rec α motive (fun fs => ∀ f ∈ fs, motive f) atom all any not ?_ ?_ f
  · intro f hf
    cases hf
  · intro f fs hf hfs g hg
    rcases List.mem_cons.1 hg with rfl | hg
    · exact hf
    · exact hfs g hg

section Values

variable (v : α → Bool)

mutual

def holds : Formula α → Bool
  | atom a => v a
  | all fs => holdsAll fs
  | any fs => holdsAny fs
  | not f => !holds f

def holdsAll : List (Formula α) → Bool
  | [] => true
  | f :: fs => holds f && holdsAll fs

def holdsAny : List (Formula α) → Bool
  | [] => false
  | f :: fs => holds f || holdsAny fs

end

@[simp] theorem holds_atom (a : α) : holds v (atom a) = v a := by rw [holds]

@[simp] theorem holds_not (f : Formula α) : holds v (not f) = !holds v f := by rw [holds]

variable (fs : List (Formula α))

@[simp] theorem holds_all : holds v (all fs) = fs.all (holds v) := by
  rw [holds]
  induction fs with
  | nil => rw [holdsAll, List.all_nil]
  | cons f fs ih => rw [holdsAll, ih, List.all_cons]

@[simp] theorem holds_any : holds v (any fs) = fs.any (holds v) := by
  rw [holds]
  induction fs with
  | nil => rw [holdsAny, List.any_nil]
  | cons f fs ih => rw [holdsAny, ih, List.any_cons]

end Values

/-- What becomes of a value: it stays, turns from false to true, or from true to false. -/
inductive Change where
  | kept
  | woken
  | silenced
  deriving DecidableEq

namespace Change

def flip : Change → Change
  | kept => kept
  | woken => silenced
  | silenced => woken

def after : Change → Bool → Bool
  | kept, b => b
  | woken, _ => true
  | silenced, _ => false

def Of (b : Bool) : Change → Prop
  | kept => True
  | woken => b = false
  | silenced => b = true

theorem after_flip (c : Change) (b : Bool) : c.flip.after (!b) = !c.after b := by
  cases c <;> rfl

variable {c : Change}

theorem Of.flip {b : Bool} (h : c.Of b) : c.flip.Of (!b) := by
  cases c with
  | kept => trivial
  | woken | silenced => exact congrArg Bool.not h

theorem after_eq_true {b : Bool} (h : c.Of b) :
    c.after b = true ↔ c = woken ∨ b = true ∧ c ≠ silenced := by
  cases c with
  | kept | woken | silenced => simp [after]

end Change

def conj (parts : List (Bool × Change)) : Change :=
  if parts.all Prod.fst then
    if parts.any fun p => p.2 = .silenced then .silenced else .kept
  else if parts.all fun p => p.2.after p.1 then .woken
  else .kept

def disj (parts : List (Bool × Change)) : Change :=
  (conj (parts.map fun p => (!p.1, p.2.flip))).flip

section Changes

variable (v lost : α → Bool)

mutual

/-- What becomes of a formula when the atoms of `lost` turn false. -/
def change : Formula α → Change
  | atom a => if v a && lost a then .silenced else .kept
  | all fs => conj (changes fs)
  | any fs => disj (changes fs)
  | not f => (change f).flip

def changes : List (Formula α) → List (Bool × Change)
  | [] => []
  | f :: fs => (holds v f, change f) :: changes fs

end

theorem changes_eq (fs : List (Formula α)) :
    changes v lost fs = fs.map fun f => (holds v f, change v lost f) := by
  induction fs with
  | nil => rw [changes, List.map_nil]
  | cons f fs ih => rw [changes, ih, List.map_cons]

/-- The valuation with the atoms of `lost` turned false. -/
def without (a : α) : Bool := v a && !lost a

variable {v lost}

variable {β : Type*} {p q : β → Bool} {xs : List β}

theorem all_congr_mem (h : ∀ x ∈ xs, p x = q x) : xs.all p = xs.all q := by
  rw [Bool.eq_iff_iff, List.all_eq_true, List.all_eq_true]
  exact forall₂_congr fun x hx => by rw [h x hx]

theorem any_congr_mem (h : ∀ x ∈ xs, p x = q x) : xs.any p = xs.any q := by
  rw [List.any_eq_not_all_not, List.any_eq_not_all_not]
  congr 1
  exact all_congr_mem fun x hx => by rw [h x hx]

variable {parts : List (Bool × Change)}

theorem conj_spec (h : ∀ p ∈ parts, p.2.Of p.1) : (conj parts).Of (parts.all Prod.fst) ∧
      (conj parts).after (parts.all Prod.fst) = parts.all fun p => p.2.after p.1 := by
  unfold conj
  split_ifs with hall hany hafter
  · refine ⟨hall, ?_⟩
    obtain ⟨p, hp, hsil⟩ := List.any_eq_true.1 hany
    rw [decide_eq_true_eq] at hsil
    change false = _
    symm
    rw [List.all_eq_false]
    refine ⟨p, hp, ?_⟩
    rw [hsil]
    exact Bool.false_ne_true
  · refine ⟨trivial, ?_⟩
    change parts.all Prod.fst = _
    rw [hall]
    symm
    rw [List.all_eq_true]
    intro p hp
    have hkeep : p.2 ≠ .silenced := by
      intro hsil
      exact hany (List.any_eq_true.2 ⟨p, hp, decide_eq_true hsil⟩)
    have hold : p.1 = true := List.all_eq_true.1 hall p hp
    exact (Change.after_eq_true (h p hp)).2 (.inr ⟨hold, hkeep⟩)
  · rw [Bool.not_eq_true] at hall
    exact ⟨hall, hafter.symm⟩
  · refine ⟨trivial, ?_⟩
    change parts.all Prod.fst = _
    rw [Bool.not_eq_true] at hall hafter
    rw [hall, hafter]

theorem disj_spec (h : ∀ p ∈ parts, p.2.Of p.1) : (disj parts).Of (parts.any Prod.fst) ∧
      (disj parts).after (parts.any Prod.fst) = parts.any fun p => p.2.after p.1 := by
  have hdual : ∀ p ∈ parts.map fun p => (!p.1, p.2.flip), Change.Of p.1 p.2 := by
    intro p hp
    obtain ⟨q, hq, rfl⟩ := List.mem_map.1 hp
    exact (h q hq).flip
  have hfst : (parts.map fun p : Bool × Change => (!p.1, p.2.flip)).all Prod.fst =
      !parts.any Prod.fst := by
    rw [List.all_map, List.not_any_eq_all_not]
    rfl
  have hafter : ((parts.map fun p : Bool × Change => (!p.1, p.2.flip)).all
      fun p => p.2.after p.1) = !parts.any fun p => p.2.after p.1 := by
    rw [List.all_map, List.not_any_eq_all_not]
    congr 1
    funext p
    exact Change.after_flip p.2 p.1
  obtain ⟨hof, heq⟩ := conj_spec hdual
  rw [hfst] at hof heq
  rw [hafter] at heq
  unfold disj
  constructor
  · simpa using hof.flip
  · have hflip := Change.after_flip (conj (parts.map fun p => (!p.1, p.2.flip)))
      (!parts.any Prod.fst)
    rw [heq, Bool.not_not, Bool.not_not] at hflip
    exact hflip

variable (f : Formula α)

theorem change_spec : (change v lost f).Of (holds v f) ∧
      (change v lost f).after (holds v f) = holds (without v lost) f := by
  induction f using induct with
  | atom a =>
    rw [change, holds_atom, holds_atom, without]
    cases v a <;> cases lost a <;> simp [Change.Of, Change.after]
  | all fs ih =>
    have hparts : ∀ p ∈ changes v lost fs, p.2.Of p.1 := by
      intro p hp
      rw [changes_eq] at hp
      obtain ⟨f, hf, rfl⟩ := List.mem_map.1 hp
      exact (ih f hf).1
    obtain ⟨hof, hafter⟩ := conj_spec hparts
    rw [change, holds_all, holds_all]
    rw [changes_eq] at hof hafter ⊢
    rw [List.all_map] at hof hafter
    refine ⟨hof, hafter.trans ?_⟩
    rw [List.all_map]
    exact all_congr_mem fun f hf => (ih f hf).2
  | any fs ih =>
    have hparts : ∀ p ∈ changes v lost fs, p.2.Of p.1 := by
      intro p hp
      rw [changes_eq] at hp
      obtain ⟨f, hf, rfl⟩ := List.mem_map.1 hp
      exact (ih f hf).1
    obtain ⟨hof, hafter⟩ := disj_spec hparts
    rw [change, holds_any, holds_any]
    rw [changes_eq] at hof hafter ⊢
    rw [List.any_map] at hof hafter
    refine ⟨hof, hafter.trans ?_⟩
    rw [List.any_map]
    exact any_congr_mem fun f hf => (ih f hf).2
  | not f ih =>
    rw [change, holds_not, holds_not, ← ih.2]
    exact ⟨ih.1.flip, Change.after_flip _ _⟩

theorem holds_without : holds (without v lost) f = true ↔
    change v lost f = .woken ∨ holds v f = true ∧ change v lost f ≠ .silenced := by
  rw [← (change_spec f).2]
  exact Change.after_eq_true (change_spec f).1

end Changes

mutual

def atoms : Formula α → List α
  | atom a => [a]
  | all fs => atomsOf fs
  | any fs => atomsOf fs
  | not f => atoms f

def atomsOf : List (Formula α) → List α
  | [] => []
  | f :: fs => atoms f ++ atomsOf fs

end

section Visited

variable (v : α → Bool)

mutual

def visited : Formula α → List α
  | atom a => [a]
  | all fs => visitedAll fs
  | any fs => visitedAny fs
  | not f => visited f

def visitedAll : List (Formula α) → List α
  | [] => []
  | f :: fs => visited f ++ if holds v f then visitedAll fs else []

def visitedAny : List (Formula α) → List α
  | [] => []
  | f :: fs => visited f ++ if holds v f then [] else visitedAny fs

end

variable {fs : List (Formula α)}

variable {a : α}

theorem mem_atomsOf : a ∈ atomsOf fs ↔ ∃ f ∈ fs, a ∈ atoms f := by
  induction fs with
  | nil => simp [atomsOf]
  | cons f fs ih => simp [atomsOf, ih]

variable {v}

theorem exists_of_visitedAll (h : a ∈ visitedAll v fs) : ∃ f ∈ fs, a ∈ visited v f := by
  induction fs with
  | nil => cases h
  | cons f fs ih =>
    rw [visitedAll, List.mem_append] at h
    rcases h with hf | hrest
    · exact ⟨f, List.mem_cons_self, hf⟩
    · split_ifs at hrest
      · obtain ⟨g, hg, ha⟩ := ih hrest
        exact ⟨g, List.mem_cons_of_mem _ hg, ha⟩
      · cases hrest

theorem exists_of_visitedAny (h : a ∈ visitedAny v fs) : ∃ f ∈ fs, a ∈ visited v f := by
  induction fs with
  | nil => cases h
  | cons f fs ih =>
    rw [visitedAny, List.mem_append] at h
    rcases h with hf | hrest
    · exact ⟨f, List.mem_cons_self, hf⟩
    · split_ifs at hrest
      · cases hrest
      · obtain ⟨g, hg, ha⟩ := ih hrest
        exact ⟨g, List.mem_cons_of_mem _ hg, ha⟩

theorem visited_subset (f : Formula α) : visited v f ⊆ atoms f := by
  induction f using induct with
  | atom a => rw [visited, atoms]; exact List.Subset.refl _
  | all fs ih =>
    rw [visited, atoms]
    intro a ha
    obtain ⟨f, hf, hin⟩ := exists_of_visitedAll ha
    exact mem_atomsOf.2 ⟨f, hf, ih f hf hin⟩
  | any fs ih =>
    rw [visited, atoms]
    intro a ha
    obtain ⟨f, hf, hin⟩ := exists_of_visitedAny ha
    exact mem_atomsOf.2 ⟨f, hf, ih f hf hin⟩
  | not f ih => rwa [visited, atoms]

def Settled (v w : α → Bool) (f : Formula α) : Prop :=
  (∀ a ∈ visited v f, v a = w a) → holds w f = holds v f ∧ visited w f = visited v f

variable {w : α → Bool}

theorem visitedAll_congr (hfs : ∀ f ∈ fs, Settled v w f)
    (h : ∀ a ∈ visitedAll v fs, v a = w a) :
    holdsAll w fs = holdsAll v fs ∧ visitedAll w fs = visitedAll v fs := by
  induction fs with
  | nil => exact ⟨rfl, rfl⟩
  | cons f fs ih =>
    obtain ⟨hholds, hvisited⟩ := hfs f List.mem_cons_self fun a ha =>
      h a (by rw [visitedAll]; exact List.mem_append_left _ ha)
    rw [holdsAll, holdsAll, visitedAll, visitedAll, hholds, hvisited]
    cases hf : holds v f with
    | false => exact ⟨rfl, rfl⟩
    | true =>
      obtain ⟨hrest, hrest'⟩ := ih (fun g hg => hfs g (List.mem_cons_of_mem _ hg)) fun a ha =>
        h a (by rw [visitedAll, hf]; exact List.mem_append_right _ ha)
      rw [hrest, hrest']
      exact ⟨rfl, rfl⟩

theorem visitedAny_congr (hfs : ∀ f ∈ fs, Settled v w f)
    (h : ∀ a ∈ visitedAny v fs, v a = w a) :
    holdsAny w fs = holdsAny v fs ∧ visitedAny w fs = visitedAny v fs := by
  induction fs with
  | nil => exact ⟨rfl, rfl⟩
  | cons f fs ih =>
    obtain ⟨hholds, hvisited⟩ := hfs f List.mem_cons_self fun a ha =>
      h a (by rw [visitedAny]; exact List.mem_append_left _ ha)
    rw [holdsAny, holdsAny, visitedAny, visitedAny, hholds, hvisited]
    cases hf : holds v f with
    | true => exact ⟨rfl, rfl⟩
    | false =>
      obtain ⟨hrest, hrest'⟩ := ih (fun g hg => hfs g (List.mem_cons_of_mem _ hg)) fun a ha =>
        h a (by rw [visitedAny, hf]; exact List.mem_append_right _ ha)
      rw [hrest, hrest']
      exact ⟨rfl, rfl⟩

theorem settled (v w : α → Bool) (f : Formula α) : Settled v w f := by
  induction f using induct with
  | atom a =>
    intro h
    rw [visited, visited, holds, holds]
    exact ⟨(h a (by rw [visited]; exact List.mem_cons_self)).symm, rfl⟩
  | all fs ih =>
    unfold Settled
    rw [visited, visited, holds, holds]
    exact visitedAll_congr ih
  | any fs ih =>
    unfold Settled
    rw [visited, visited, holds, holds]
    exact visitedAny_congr ih
  | not f ih =>
    unfold Settled
    rw [visited, visited, holds, holds]
    intro h
    obtain ⟨hholds, hvisited⟩ := ih h
    exact ⟨congrArg Bool.not hholds, hvisited⟩

theorem holdsAll_eq (v : α → Bool) (fs : List (Formula α)) : holdsAll v fs = fs.all (holds v) := by
  rw [← holds_all, holds]

theorem holdsAny_eq (v : α → Bool) (fs : List (Formula α)) : holdsAny v fs = fs.any (holds v) := by
  rw [← holds_any, holds]

end Visited

end Formula
