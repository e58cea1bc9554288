import Mathlib.Data.List.DropRight

/-!
Lists cut into lines at the members that are breaks. A break ends its line and
belongs to none; a last line need not be ended.
-/

namespace Lines

variable {α : Type} (isBreak : α → Bool)

def split : List α → List (List α)
  | [] => []
  | c :: cs =>
    if isBreak c then [] :: split cs
    else match split cs with
      | [] => [[c]]
      | line :: rest => (c :: line) :: rest

variable {isBreak}

variable {line rest : List α}

theorem split_line {b : α} (hline : ∀ c ∈ line, isBreak c = false)
    (hb : isBreak b = true) : split isBreak (line ++ b :: rest) = line :: split isBreak rest := by
  induction line with
  | nil => rw [List.nil_append, split, if_pos hb]
  | cons c line ih =>
    have hc : ¬ isBreak c = true := by
      rw [hline c List.mem_cons_self]
      decide
    rw [List.cons_append, split, if_neg hc, ih fun d hd => hline d (List.mem_cons_of_mem _ hd)]

def cut (isBreak : α → Bool) : List α → List (List α) × List α
  | [] => ([], [])
  | c :: cs =>
    if isBreak c then ([] :: (cut isBreak cs).1, (cut isBreak cs).2)
    else match (cut isBreak cs).1 with
      | [] => ([], c :: (cut isBreak cs).2)
      | line :: rest => ((c :: line) :: rest, (cut isBreak cs).2)

theorem cut_unfinished {rest : List α} (h : ∀ c ∈ rest, isBreak c = false) :
    cut isBreak rest = ([], rest) := by
  induction rest with
  | nil => rfl
  | cons c rest ih =>
    have hc : ¬ isBreak c = true := by
      rw [h c List.mem_cons_self]
      decide
    rw [cut, if_neg hc, ih fun d hd => h d (List.mem_cons_of_mem _ hd)]

theorem cut_line {b : α} (hline : ∀ c ∈ line, isBreak c = false)
    (hb : isBreak b = true) :
    cut isBreak (line ++ b :: rest) = (line :: (cut isBreak rest).1, (cut isBreak rest).2) := by
  induction line with
  | nil => rw [List.nil_append, cut, if_pos hb]
  | cons c line ih =>
    have hc : ¬ isBreak c = true := by
      rw [hline c List.mem_cons_self]
      decide
    rw [List.cons_append, cut, if_neg hc, ih fun d hd => hline d (List.mem_cons_of_mem _ hd)]

theorem exists_first {cs : List α} (h : ∃ c ∈ cs, isBreak c = true) :
    ∃ line b rest, cs = line ++ b :: rest ∧ (∀ c ∈ line, isBreak c = false) ∧ isBreak b = true := by
  induction cs with
  | nil =>
    obtain ⟨c, hc, -⟩ := h
    cases hc
  | cons c cs ih =>
    by_cases hc : isBreak c = true
    · exact ⟨[], c, cs, rfl, by simp, hc⟩
    · obtain ⟨d, hd, hbreak⟩ := h
      rcases List.mem_cons.1 hd with rfl | hd
      · exact absurd hbreak hc
      · obtain ⟨line, b, rest, hcs, hline, hb⟩ := ih ⟨d, hd, hbreak⟩
        refine ⟨c :: line, b, rest, by rw [hcs, List.cons_append], ?_, hb⟩
        intro x hx
        rcases List.mem_cons.1 hx with rfl | hx
        · simpa using hc
        · exact hline x hx

section Backwards

variable {p : α → Bool}

variable {xs ys : List α}

theorem rtakeWhile_append_of_all (h : ∀ y ∈ ys, p y = true) :
    (xs ++ ys).rtakeWhile p = xs.rtakeWhile p ++ ys := by
  unfold List.rtakeWhile
  rw [List.reverse_append, List.takeWhile_append_of_pos fun y hy => h y (List.mem_reverse.1 hy),
    List.reverse_append, List.reverse_reverse]

theorem rtakeWhile_append_of_exists (h : ∃ y ∈ ys, p y = false) :
    (xs ++ ys).rtakeWhile p = ys.rtakeWhile p := by
  unfold List.rtakeWhile
  rw [List.reverse_append, List.takeWhile_append, if_neg]
  intro hlength
  have hself := (List.takeWhile_prefix p (l := ys.reverse)).eq_of_length hlength
  obtain ⟨y, hy, hfalse⟩ := h
  have htrue := List.takeWhile_eq_self_iff.1 hself y (List.mem_reverse.2 hy)
  rw [hfalse] at htrue
  cases htrue

end Backwards

end Lines
