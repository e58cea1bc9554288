import Mathlib.Tactic.Abel

/-!
Amounts that are charged once and settled in parts.

A total is charged; each holder keeps a pool of what was charged and is not yet
settled.  The total is what is settled plus what the pools hold, through every
charge, partial settlement and closing of a pool.
-/

namespace Escrow

universe u

variable {G : Type u} [AddCommGroup G]

def Conserved (total settled : G) (pools : List G) : Prop := total = settled + pools.sum

variable {t s p : G} {ps l r : List G}

theorem Conserved.zero : Conserved (0 : G) 0 [] := by simp [Conserved]

theorem Conserved.open (h : Conserved t s ps) (c : G) : Conserved (t + c) s (ps ++ [c]) := by
  simp only [Conserved, List.sum_append, List.sum_singleton] at h ⊢
  rw [h]
  abel

theorem Conserved.accrue (h : Conserved t s (l ++ p :: r)) (c : G) :
    Conserved (t + c) s (l ++ (p + c) :: r) := by
  simp only [Conserved, List.sum_append, List.sum_cons] at h ⊢
  rw [h]
  abel

theorem Conserved.settle (h : Conserved t s (l ++ p :: r)) (x m : G) :
    Conserved (t + (x - m)) (s + x) (l ++ (p - m) :: r) := by
  simp only [Conserved, List.sum_append, List.sum_cons] at h ⊢
  rw [h]
  abel

theorem Conserved.close (h : Conserved t s (l ++ p :: r)) : Conserved t (s + p) (l ++ r) := by
  simp only [Conserved, List.sum_append, List.sum_cons] at h ⊢
  rw [h]
  abel

theorem Conserved.all_settled (h : Conserved t s []) : t = s := by
  simpa [Conserved] using h

end Escrow
