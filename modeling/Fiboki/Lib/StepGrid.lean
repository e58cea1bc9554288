import Mathlib

/-!
Whole numbers of steps under a limit, where a limit that is short of a step by less than a relative
tolerance counts as the step.
-/

namespace StepGrid

variable {K : Type*} [Field K] [LinearOrder K] [IsStrictOrderedRing K]

/-- `x` is over `y` by no more than a share of the greater of them. -/
def AtMost (tol x y : K) : Prop := x - y ≤ tol * max x y

section AtMost

variable {tol x y z : K}

theorem atMost_of_le (htol : 0 ≤ tol) (hy : 0 ≤ y) (h : x ≤ y) : AtMost tol x y := by
  have hslack : 0 ≤ tol * max x y := mul_nonneg htol (hy.trans (le_max_right x y))
  exact (sub_nonpos.2 h).trans hslack

theorem AtMost.mul_right (h : AtMost tol x y) {u : K} (hu : 0 ≤ u) :
    AtMost tol (x * u) (y * u) := by
  have hscaled := mul_le_mul_of_nonneg_right h hu
  rw [AtMost, ← sub_mul, ← max_mul_of_nonneg x y hu]
  calc (x - y) * u ≤ tol * max x y * u := hscaled
    _ = tol * (max x y * u) := mul_assoc _ _ _

theorem AtMost.trans_le (h : AtMost tol x y) (htol : 0 ≤ tol) (hx : 0 ≤ x) (hyz : y ≤ z) :
    AtMost tol x z := by
  rcases le_total x z with hxz | hzx
  · exact atMost_of_le htol (hx.trans hxz) hxz
  · rw [AtMost, max_eq_left (hyz.trans hzx)] at h
    rw [AtMost, max_eq_left hzx]
    exact (sub_le_sub_left hyz x).trans h

end AtMost

variable (nearest : K → ℤ) (tol step : K)

/-- The limit comes to `k` steps: it is `k` steps or more, or `k` is the number of steps nearest to
it and it is short of them by no more than the tolerance. -/
def Reaches (limit : K) (k : ℕ) : Prop :=
  k * step ≤ limit ∨ (nearest (limit / step) = k ∧ k * step - limit ≤ tol * max limit step)

def Near (limit : K) : Prop :=
  0 < nearest (limit / step) ∧ |limit - nearest (limit / step) * step| ≤ tol * max limit step

instance (limit : K) : Decidable (Near nearest tol step limit) :=
  inferInstanceAs (Decidable (_ ∧ _))

def snap (limit : K) : K :=
  if Near nearest tol step limit then nearest (limit / step) * step else limit

variable {nearest tol step} {limit : K} {k : ℕ}

theorem Reaches.atMost (h : Reaches nearest tol step limit k) (htol : 0 ≤ tol) (hlimit : 0 ≤ limit)
    (hstep : 0 < step) (hk : 0 < k) : AtMost tol (k * step) limit := by
  rcases h with hle | ⟨-, hslack⟩
  · exact atMost_of_le htol hlimit hle
  · have hone : step ≤ k * step := by
      have hcast : (1 : K) ≤ k := Nat.one_le_cast.2 hk
      exact le_mul_of_one_le_left hstep.le hcast
    have hmax : max limit step ≤ max (k * step) limit :=
      max_le (le_max_right _ _) (hone.trans (le_max_left _ _))
    exact hslack.trans (mul_le_mul_of_nonneg_left hmax htol)

theorem not_reaches (hnear : ∀ q, |(nearest q : K) - q| ≤ 1 / 2) (hstep : 0 < step)
    (hlimit : limit ≤ 0)
    (hk : 0 < k) : ¬ Reaches nearest tol step limit k := by
  have hcast : (1 : K) ≤ k := Nat.one_le_cast.2 hk
  rintro (hle | ⟨heq, -⟩)
  · have hpos : 0 < (k : K) * step := mul_pos (zero_lt_one.trans_le hcast) hstep
    exact absurd (hle.trans hlimit) (not_le.2 hpos)
  · have hq : limit / step ≤ 0 := div_nonpos_of_nonpos_of_nonneg hlimit hstep.le
    have hclose := abs_le.1 (hnear (limit / step))
    rw [heq, Int.cast_natCast] at hclose
    linarith

theorem nearest_eq (hnear : ∀ q, |(nearest q : K) - q| ≤ 1 / 2) {q : K} {m : ℤ}
    (h : |(m : K) - q| < 1 / 2) : nearest q = m := by
  have hclose := abs_le.1 (hnear q)
  have hm := abs_lt.1 h
  have hlow : ((nearest q : ℤ) : K) < m + 1 := by linarith
  have hhigh : (m : K) < nearest q + 1 := by linarith
  have hlow' : nearest q < m + 1 := by exact_mod_cast hlow
  have hhigh' : m < nearest q + 1 := by exact_mod_cast hhigh
  omega

theorem steps_le_iff (hstep : 0 < step) : k * step ≤ limit ↔ (k : K) ≤ limit / step :=
  (le_div_iff₀ hstep).symm

theorem isGreatest_of_near (hnear : ∀ q, |(nearest q : K) - q| ≤ 1 / 2) (hstep : 0 < step)
    (h : Near nearest tol step limit) {n : ℕ} (hn : nearest (limit / step) = n) :
    IsGreatest {k : ℕ | Reaches nearest tol step limit k} n := by
  refine ⟨.inr ⟨hn, ?_⟩, fun k hk => ?_⟩
  · have hslack := h.2
    rw [hn, Int.cast_natCast, abs_sub_comm] at hslack
    exact (le_abs_self _).trans hslack
  · rcases hk with hle | ⟨heq, -⟩
    · have hclose := abs_le.1 (hnear (limit / step))
      have hkq : (k : K) ≤ limit / step := (steps_le_iff hstep).1 hle
      rw [hn, Int.cast_natCast] at hclose
      have hlt : (k : K) < n + 1 := by linarith
      have hlt' : k < n + 1 := by exact_mod_cast hlt
      omega
    · rw [hn] at heq
      omega

section Floor

variable [FloorRing K]

theorem floor_add_tol (hnear : ∀ q, |(nearest q : K) - q| ≤ 1 / 2) (htol : 0 ≤ tol)
    (hhalf : tol < 1 / 2) (hstep : 0 < step) (hlimit : 0 < limit)
    (h : ¬ Near nearest tol step limit) : ⌊limit / step + tol⌋ = ⌊limit / step⌋ := by
  have hnonneg : 0 ≤ ⌊limit / step⌋ := Int.floor_nonneg.2 (div_pos hlimit hstep).le
  apply le_antisymm
  · by_contra hover
    obtain ⟨m, hm⟩ : ∃ m, m = ⌊limit / step⌋ + 1 := ⟨_, rfl⟩
    have hle : (m : K) ≤ limit / step + tol := Int.le_floor.1 (by omega)
    have hlt : limit / step < m := Int.floor_lt.1 (by omega)
    have habs : |(m : K) - limit / step| ≤ tol := by
      rw [abs_of_pos (sub_pos.2 hlt)]
      linarith
    have hnearest : nearest (limit / step) = m := nearest_eq hnear (habs.trans_lt hhalf)
    have hdist : |limit - m * step| = |(m : K) - limit / step| * step := by
      rw [← abs_of_pos hstep, ← abs_mul, abs_of_pos hstep, sub_mul, div_mul_cancel₀ _ hstep.ne',
        abs_sub_comm]
    refine h ⟨by omega, ?_⟩
    rw [hnearest, hdist]
    calc |(m : K) - limit / step| * step ≤ tol * step := mul_le_mul_of_nonneg_right habs hstep.le
      _ ≤ tol * max limit step := mul_le_mul_of_nonneg_left (le_max_right _ _) htol
  · exact Int.floor_le_floor (le_add_of_nonneg_right htol)

theorem isGreatest_of_not_near (hstep : 0 < step) (h : ¬ Near nearest tol step limit) {n : ℕ}
    (hn : ⌊limit / step⌋ = n) : IsGreatest {k : ℕ | Reaches nearest tol step limit k} n := by
  have hgreatest : ∀ k : ℕ, k * step ≤ limit → k ≤ n := by
    intro k hk
    have hfloor : (k : ℤ) ≤ ⌊limit / step⌋ :=
      Int.le_floor.2 (by exact_mod_cast (steps_le_iff hstep).1 hk)
    omega
  refine ⟨.inl ?_, fun k hk => ?_⟩
  · have hle := Int.floor_le (limit / step)
    rw [hn, Int.cast_natCast] at hle
    exact (steps_le_iff hstep).2 hle
  · rcases hk with hle | ⟨heq, hslack⟩
    · exact hgreatest k hle
    · by_contra hlt
      have hover : limit < k * step := not_le.1 fun hle => hlt (hgreatest k hle)
      refine h ⟨by omega, ?_⟩
      rw [heq, Int.cast_natCast, abs_sub_comm, abs_of_pos (sub_pos.2 hover)]
      exact hslack

theorem floor_snap (hnear : ∀ q, |(nearest q : K) - q| ≤ 1 / 2) (htol : 0 ≤ tol)
    (hhalf : tol < 1 / 2)
    (hstep : 0 < step) (hlimit : 0 < limit) :
    ∃ n : ℕ, ⌊snap nearest tol step limit / step + tol⌋ = n ∧
      IsGreatest {k : ℕ | Reaches nearest tol step limit k} n := by
  by_cases h : Near nearest tol step limit
  · obtain ⟨n, hn⟩ := Int.eq_ofNat_of_zero_le h.1.le
    refine ⟨n, ?_, isGreatest_of_near hnear hstep h hn⟩
    rw [snap, if_pos h, mul_div_cancel_right₀ _ hstep.ne', Int.floor_intCast_add,
      Int.floor_eq_zero_iff.2 ⟨htol, by linarith⟩, add_zero, hn]
  · obtain ⟨n, hn⟩ := Int.eq_ofNat_of_zero_le (Int.floor_nonneg.2 (div_pos hlimit hstep).le)
    refine ⟨n, ?_, isGreatest_of_not_near hstep h hn⟩
    rw [snap, if_neg h, floor_add_tol hnear htol hhalf hstep hlimit h, hn]

end Floor

end StepGrid
