import Mathlib.Tactic.Abel

/-!
A stock taken down in parts.

Each part but the last leaves a least amount behind it, and the last takes whatever
there is.  The takes are lists of amounts, each marked when it is the last one.
-/

namespace Drain

universe u

variable {G : Type u} [AddCommGroup G] [LE G]

inductive Drains (least : G) : G → List (G × Bool) → G → Prop where
  | nil (s : G) : Drains least s [] s
  | part {s x s' : G} {takes : List (G × Bool)} (h : least ≤ s - x)
      (rest : Drains least (s - x) takes s') : Drains least s ((x, false) :: takes) s'
  | all (s : G) : Drains least s [(s, true)] 0

variable {least s s' s'' : G} {takes takes' : List (G × Bool)}

theorem Drains.append (h : Drains least s takes s') (hopen : ∀ x ∈ takes, x.2 = false)
    (h' : Drains least s' takes' s'') : Drains least s (takes ++ takes') s'' := by
  induction h with
  | nil s => exact h'
  | part hleast rest ih =>
    exact .part hleast (ih (fun x hx => hopen x (List.mem_cons_of_mem _ hx)) h')
  | all s => exact absurd (hopen (s, true) (by simp)) (by simp)

theorem Drains.sum (h : Drains least s takes s') : s = (takes.map Prod.fst).sum + s' := by
  induction h with
  | nil s => simp
  | @part s x s' takes hleast rest ih =>
    rw [List.map_cons, List.sum_cons, add_assoc, ← ih]
    abel
  | all s => simp

theorem Drains.last (h : Drains least s takes s') : (∀ x ∈ takes, x.2 = false) ∨
      s' = 0 ∧ ∃ init x, takes = init ++ [(x, true)] ∧ ∀ y ∈ init, y.2 = false := by
  induction h with
  | nil s => exact .inl (by simp)
  | @part s x s' takes hleast rest ih =>
    rcases ih with hopen | ⟨hzero, init, y, rfl, hinit⟩
    · refine .inl fun y hy => ?_
      rcases List.mem_cons.1 hy with rfl | hy
      · rfl
      · exact hopen y hy
    · refine .inr ⟨hzero, (x, false) :: init, y, rfl, fun z hz => ?_⟩
      rcases List.mem_cons.1 hz with rfl | hz
      · rfl
      · exact hinit z hz
  | all s => exact .inr ⟨rfl, [], s, rfl, by simp⟩

theorem Drains.least_le (h : Drains least s takes s') {before after : List (G × Bool)} {x : G}
    (htakes : takes = before ++ (x, false) :: after) :
    least ≤ s - ((before.map Prod.fst).sum + x) := by
  induction h generalizing before with
  | nil s => simp at htakes
  | @part s y s' takes hleast rest ih =>
    cases before with
    | nil =>
      obtain ⟨hhead, -⟩ := List.cons.inj htakes
      obtain ⟨rfl, -⟩ := Prod.mk.inj hhead
      simpa using hleast
    | cons b before =>
      rw [List.cons_append] at htakes
      obtain ⟨rfl, hrest⟩ := List.cons.inj htakes
      have hle := ih hrest
      rw [List.map_cons, List.sum_cons, add_assoc, ← sub_sub]
      exact hle
  | all s =>
    cases before with
    | nil | cons b before => simp at htakes

end Drain
