import Mathlib

/-!
Running sums kept in a table that grows on demand, and counting by blocks.
-/

namespace RunningSums

variable {f : ℕ → ℕ} {sums : List ℕ} {n k : ℕ}

def total (f : ℕ → ℕ) (n : ℕ) : ℕ := ((List.range n).map f).sum

@[simp] theorem total_zero (f : ℕ → ℕ) : total f 0 = 0 := rfl

theorem total_succ (f : ℕ → ℕ) (n : ℕ) : total f (n + 1) = total f n + f n := by
  simp [total, List.range_succ]

/-- The table of the first `n + 1` sums. -/
def table (f : ℕ → ℕ) (n : ℕ) : List ℕ := (List.range (n + 1)).map (total f)

@[simp] theorem length_table (f : ℕ → ℕ) (n : ℕ) : (table f n).length = n + 1 := by
  simp [table]

theorem getD_table (f : ℕ → ℕ) (h : k ≤ n) : (table f n).getD k 0 = total f k := by
  have hlt : k < n + 1 := Nat.lt_succ_of_le h
  simp [table, List.getD_eq_getElem?_getD, List.getElem?_range hlt]

theorem getLastD_table (f : ℕ → ℕ) (n : ℕ) : (table f n).getLastD 0 = total f n := by
  simp [table, List.range_succ]

def push (f : ℕ → ℕ) (sums : List ℕ) : List ℕ := sums ++ [sums.getLastD 0 + f (sums.length - 1)]

theorem push_table (f : ℕ → ℕ) (n : ℕ) : push f (table f n) = table f (n + 1) := by
  rw [push, getLastD_table, length_table, Nat.add_sub_cancel, ← total_succ]
  simp [table, List.range_succ]

theorem iterate_push (f : ℕ → ℕ) (n : ℕ) : (push f)^[n] [0] = table f n := by
  induction n with
  | zero => rfl
  | succ n ih => rw [Function.iterate_succ_apply', ih, push_table]

/-- Push until the sum at `k` is there. -/
def extend (f : ℕ → ℕ) (k : ℕ) : ℕ → List ℕ → List ℕ
  | 0, sums => sums
  | fuel + 1, sums => if k < sums.length then sums else extend f k fuel (push f sums)

theorem extend_table (f : ℕ → ℕ) (n k fuel : ℕ) (hfuel : k ≤ n + fuel) :
    extend f k fuel (table f n) = table f (max n k) := by
  induction fuel generalizing n with
  | zero =>
    have hle : k ≤ n := hfuel
    rw [extend, max_eq_left hle]
  | succ fuel ih =>
    rw [extend, length_table]
    split_ifs with h
    · rw [max_eq_left (Nat.le_of_lt_succ h)]
    · have hlt : n + 1 ≤ k := not_lt.1 h
      rw [push_table, ih (n + 1) (by omega), max_eq_right hlt, max_eq_right (by omega)]

variable (p : ℕ → Prop)

theorem total_indicator [DecidablePred p] (n : ℕ) :
    total (fun k => if p k then 1 else 0) n = Nat.count p n := by
  induction n with
  | zero => simp
  | succ n ih => rw [total_succ, ih, Nat.count_succ]

theorem count_Ioc [DecidablePred p] {P : ℤ → Prop} [DecidablePred P]
    (h : ∀ g : ℕ, P g ↔ p g) {a b : ℕ} (hab : a ≤ b) :
    Nat.count p (b + 1) = Nat.count p (a + 1) + ((Finset.Ioc (a : ℤ) b).filter P).card := by
  induction b, hab using Nat.le_induction with
  | base => simp
  | succ b hab ih =>
    have hinsert : Finset.Ioc (a : ℤ) (b + 1 : ℕ) =
      insert ((b + 1 : ℕ) : ℤ) (Finset.Ioc (a : ℤ) b) := by
      ext x
      simp only [Finset.mem_insert, Finset.mem_Ioc]
      omega
    rw [Nat.count_succ, ih, hinsert, Finset.filter_insert]
    simp only [h]
    split_ifs
    · rw [Finset.card_insert_of_notMem (by simp), Nat.add_assoc]
    · rfl

section Blocks

variable (q : ℕ → ℕ → Prop) [∀ w, DecidablePred (q w)]

theorem count_block (w : ℕ) (hk : k ≤ n) : Nat.count (fun g => q (g / n) (g % n)) (w * n + k) =
      Nat.count (fun g => q (g / n) (g % n)) (w * n) + Nat.count (q w) k := by
  induction k with
  | zero => simp
  | succ k ih =>
    have hlt : k < n := hk
    have hpos : 0 < n := Nat.zero_lt_of_lt hlt
    have hdiv : (w * n + k) / n = w := by
      rw [Nat.mul_comm, Nat.mul_add_div hpos, Nat.div_eq_of_lt hlt, Nat.add_zero]
    have hmod : (w * n + k) % n = k := by
      rw [Nat.mul_comm, Nat.mul_add_mod, Nat.mod_eq_of_lt hlt]
    rw [← Nat.add_assoc, Nat.count_succ, ih hlt.le, Nat.count_succ, hdiv, hmod, Nat.add_assoc]

theorem count_blocks (w : ℕ) (hk : k ≤ n) : Nat.count (fun g => q (g / n) (g % n)) (w * n + k) =
      total (fun w => Nat.count (q w) n) w + Nat.count (q w) k := by
  rw [count_block q w hk]
  congr 1
  induction w with
  | zero => simp
  | succ w ih => rw [Nat.succ_mul, count_block q w le_rfl, ih, total_succ]

end Blocks

end RunningSums
