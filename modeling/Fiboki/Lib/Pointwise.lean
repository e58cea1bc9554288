import Mathlib.Data.List.Forall2

/-!
Two lists related member by member.
-/

namespace Pointwise

variable {α β : Type}

theorem mem_right {R : α → β → Prop} {xs : List α} {ys : List β} (h : List.Forall₂ R xs ys) {y : β}
    (hy : y ∈ ys) : ∃ x ∈ xs, R x y := by
  induction h with
  | nil => cases hy
  | @cons a b as bs hab _ ih =>
    rcases List.mem_cons.1 hy with rfl | hy
    · exact ⟨a, List.mem_cons_self, hab⟩
    · obtain ⟨x, hx, hr⟩ := ih hy
      exact ⟨x, List.mem_cons_of_mem _ hx, hr⟩

theorem mem_left {R : α → β → Prop} {xs : List α} {ys : List β} (h : List.Forall₂ R xs ys) {x : α}
    (hx : x ∈ xs) : ∃ y ∈ ys, R x y :=
  mem_right h.flip hx

theorem map_eq {α β γ δ : Type} {R : α → β → Prop} {S : α → γ → Prop} {g : β → δ} {h : γ → δ}
    {xs : List α} {ys : List β} {zs : List γ} (hys : List.Forall₂ R xs ys)
    (hzs : List.Forall₂ S xs zs) (heq : ∀ x ∈ xs, ∀ y z, R x y → S x z → g y = h z) :
    ys.map g = zs.map h := by
  induction hys generalizing zs with
  | nil =>
    cases hzs
    rfl
  | @cons x y xs ys hxy _ ih =>
    cases hzs with
    | @cons _ z _ zs hxz hzs =>
      rw [List.map_cons, List.map_cons, heq x List.mem_cons_self y z hxy hxz,
        ih hzs fun a ha => heq a (List.mem_cons_of_mem _ ha)]

variable {f : α → Option β}

theorem mapM_eq_some {xs : List α} {ys : List β} :
    xs.mapM f = some ys ↔ List.Forall₂ (fun x y => f x = some y) xs ys := by
  induction xs generalizing ys with
  | nil => simp [eq_comm]
  | cons x xs ih =>
    rw [List.mapM_cons]
    constructor
    · intro h
      obtain ⟨y, hy, h⟩ := Option.bind_eq_some_iff.1 h
      obtain ⟨rest, hrest, h⟩ := Option.bind_eq_some_iff.1 h
      cases h
      exact .cons hy (ih.1 hrest)
    · intro h
      cases h with
      | cons hy hrest =>
        rw [hy, ih.2 hrest]
        rfl

theorem mapM_congr {m : Type → Type} [Monad m] [LawfulMonad m] {f g : α → m β} {xs : List α}
    (h : ∀ x ∈ xs, f x = g x) : xs.mapM f = xs.mapM g := by
  induction xs with
  | nil => rfl
  | cons x xs ih =>
    rw [List.mapM_cons, List.mapM_cons, h x List.mem_cons_self,
      ih fun y hy => h y (List.mem_cons_of_mem _ hy)]

theorem mapM_eq_some_map {g : α → β} {xs : List α}
    (h : ∀ x ∈ xs, f x = some (g x)) : xs.mapM f = some (xs.map g) := by
  rw [mapM_eq_some, List.forall₂_map_right_iff, List.forall₂_same]
  exact h

theorem comp_iff {α β γ : Type} {R : α → β → Prop} {S : β → γ → Prop} {xs : List α} {zs : List γ} :
    (∃ ys, List.Forall₂ R xs ys ∧ List.Forall₂ S ys zs) ↔
      List.Forall₂ (fun x z => ∃ y, R x y ∧ S y z) xs zs := by
  constructor
  · rintro ⟨ys, hxy, hyz⟩
    induction hxy generalizing zs with
    | nil =>
      cases hyz
      exact .nil
    | @cons x y _ _ hhead _ ih =>
      cases hyz with
      | cons hz htail => exact .cons ⟨y, hhead, hz⟩ (ih htail)
  · intro h
    induction h with
    | nil => exact ⟨[], .nil, .nil⟩
    | cons hhead _ ih =>
      obtain ⟨y, hxy, hyz⟩ := hhead
      obtain ⟨ys, hxys, hyzs⟩ := ih
      exact ⟨y :: ys, .cons hxy hxys, .cons hyz hyzs⟩

theorem zipWith_iff {α β γ : Type} {R : α → β → Prop} {g : α → β → γ} {xs : List α} {zs : List γ} :
    List.Forall₂ (fun x z => ∃ y, R x y ∧ z = g x y) xs zs ↔
      ∃ ys, List.Forall₂ R xs ys ∧ zs = List.zipWith g xs ys := by
  constructor
  · intro h
    induction h with
    | nil => exact ⟨[], .nil, rfl⟩
    | cons hhead _ ih =>
      obtain ⟨y, hxy, rfl⟩ := hhead
      obtain ⟨ys, hxys, rfl⟩ := ih
      exact ⟨y :: ys, .cons hxy hxys, rfl⟩
  · rintro ⟨ys, hxys, rfl⟩
    induction hxys with
    | nil => exact .nil
    | @cons _ y _ _ hxy _ ih => exact .cons ⟨y, hxy, rfl⟩ ih

end Pointwise
