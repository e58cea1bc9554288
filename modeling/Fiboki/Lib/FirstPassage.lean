import Mathlib

/-!
Continuous paths over the unit interval, and the first time at which one comes into a closed set.
-/

namespace FirstPassage

open Set

/-- A path that starts at `a` and takes the values from `lo` to `hi`. -/
structure Path (a lo hi : ℝ) where
  value : ℝ → ℝ
  continuous : ContinuousOn value (Icc 0 1)
  start : value 0 = a
  range : image value (Icc 0 1) = Icc lo hi

/-- The path is in the set at `t`, and was not before. -/
structure FirstAt (f : ℝ → ℝ) (S : Set ℝ) (t : ℝ) : Prop where
  time : t ∈ Icc (0 : ℝ) 1
  inside : f t ∈ S
  before : ∀ s ∈ Icc (0 : ℝ) 1, s < t → f s ∉ S

variable {f : ℝ → ℝ} {S : Set ℝ} {a lo hi level t u : ℝ}

theorem exists_firstAt (hf : ContinuousOn f (Icc 0 1)) (hS : IsClosed S)
    (h : ∃ t ∈ Icc (0 : ℝ) 1, f t ∈ S) : ∃ t, FirstAt f S t := by
  have hclosed : IsClosed (Icc 0 1 ∩ preimage f S) :=
    hf.preimage_isClosed_of_isClosed isClosed_Icc hS
  have hcompact : IsCompact (Icc 0 1 ∩ preimage f S) :=
    isCompact_Icc.of_isClosed_subset hclosed inter_subset_left
  obtain ⟨t₀, ht₀, hin⟩ := h
  obtain ⟨t, ⟨htime, hinside⟩, hleast⟩ := hcompact.exists_isLeast ⟨t₀, ht₀, hin⟩
  refine ⟨t, htime, hinside, fun s hs hst hmem => ?_⟩
  exact absurd (hleast ⟨hs, hmem⟩) (not_le.2 hst)

theorem FirstAt.eq_zero_iff (h : FirstAt f S t) : t = 0 ↔ f 0 ∈ S := by
  constructor
  · rintro rfl
    exact h.inside
  · intro h0
    have hnot : ¬ 0 < t := fun hpos => h.before 0 ⟨le_rfl, zero_le_one⟩ hpos h0
    exact le_antisymm (not_lt.1 hnot) h.time.1

theorem FirstAt.le_of_mem (h : FirstAt f S t) (hu : u ∈ Icc (0 : ℝ) 1) (hmem : f u ∈ S) : t ≤ u :=
  not_lt.1 fun hlt => h.before u hu hlt hmem

variable (w : Path a lo hi)

theorem Path.mem (ht : t ∈ Icc (0 : ℝ) 1) : w.value t ∈ Icc lo hi := by
  rw [← w.range]
  exact mem_image_of_mem _ ht

theorem Path.exists_eq {p : ℝ} (hp : p ∈ Icc lo hi) : ∃ t ∈ Icc (0 : ℝ) 1, w.value t = p := by
  rw [← w.range] at hp
  exact hp

/-- From `a` to `b` in the first half of the time, and on to `c`. -/
def turning (a b c t : ℝ) : ℝ := a + (b - a) * min (t + t) 1 + (c - b) * max (t + t - 1) 0

theorem continuous_turning (a b c : ℝ) : Continuous (turning a b c) := by
  unfold turning
  fun_prop

theorem turning_zero (a b c : ℝ) : turning a b c 0 = a := by
  unfold turning
  norm_num

theorem turning_half (a b c : ℝ) : turning a b c (1 / 2) = b := by
  unfold turning
  norm_num

theorem turning_one (a b c : ℝ) : turning a b c 1 = c := by
  unfold turning
  norm_num

variable {b c : ℝ}

theorem turning_first (ht : 0 ≤ t) (hhalf : t ≤ 1 / 2) : turning a b c t ∈ uIcc a b := by
  have hleg : turning a b c t = a + (b - a) * (2 * t) := by
    unfold turning
    rw [min_eq_left (by linarith), max_eq_right (by linarith)]
    ring
  rw [hleg, mem_uIcc]
  rcases le_total a b with hab | hab
  · exact .inl ⟨by nlinarith, by nlinarith⟩
  · exact .inr ⟨by nlinarith, by nlinarith⟩

theorem turning_second (hhalf : 1 / 2 ≤ t) (ht : t ≤ 1) : turning a b c t ∈ uIcc b c := by
  have hleg : turning a b c t = b + (c - b) * (2 * t - 1) := by
    unfold turning
    rw [min_eq_right (by linarith), max_eq_left (by linarith)]
    ring
  rw [hleg, mem_uIcc]
  rcases le_total b c with hbc | hbc
  · exact .inl ⟨by nlinarith, by nlinarith⟩
  · exact .inr ⟨by nlinarith, by nlinarith⟩

theorem range_turning (ha : a ∈ uIcc b c) : image (turning a b c) (Icc 0 1) = uIcc b c := by
  apply Subset.antisymm
  · rintro p ⟨t, ⟨h0, h1⟩, rfl⟩
    rcases le_total t (1 / 2) with hhalf | hhalf
    · have hsub : uIcc a b ⊆ uIcc b c := uIcc_subset_uIcc ha left_mem_uIcc
      exact hsub (turning_first h0 hhalf)
    · exact turning_second hhalf h1
  · have hcover : uIcc (turning a b c (1 / 2)) (turning a b c 1) ⊆
        image (turning a b c) (uIcc (1 / 2) 1) :=
      intermediate_value_uIcc (continuous_turning a b c).continuousOn
    have hlater : uIcc (1 / 2 : ℝ) 1 ⊆ Icc 0 1 := by
      rw [uIcc_of_le (by norm_num)]
      exact Icc_subset_Icc_left (by norm_num)
    rw [turning_half, turning_one] at hcover
    exact hcover.trans (image_mono hlater)

noncomputable def Path.lowFirst (hlo : lo ≤ a) (hhi : a ≤ hi) : Path a lo hi where
  value := turning a lo hi
  continuous := (continuous_turning a lo hi).continuousOn
  start := turning_zero a lo hi
  range := by rw [range_turning (mem_uIcc_of_le hlo hhi), uIcc_of_le (hlo.trans hhi)]

noncomputable def Path.highFirst (hlo : lo ≤ a) (hhi : a ≤ hi) : Path a lo hi where
  value := turning a hi lo
  continuous := (continuous_turning a hi lo).continuousOn
  start := turning_zero a hi lo
  range := by rw [range_turning (mem_uIcc_of_ge hlo hhi), uIcc_of_ge (hlo.trans hhi)]

def beyond (lower upper : Option ℝ) : Set ℝ := {x | (∃ l ∈ lower, x ≤ l) ∨ ∃ u ∈ upper, u ≤ x}

/-- What a path meets first. A lower barrier that it starts past is met where it starts, and an
upper one at its level. -/
inductive Meets (lower upper : Option ℝ) (f : ℝ → ℝ) : ℝ → Prop where
  | start {l : ℝ} (hl : l ∈ lower) (h : f 0 ≤ l) : Meets lower upper f (f 0)
  | lower {l t : ℝ} (hl : l ∈ lower) (h : FirstAt f (beyond lower upper) t) (ht : t ≠ 0)
      (hle : f t ≤ l) : Meets lower upper f l
  | upper {u t : ℝ} (hu : u ∈ upper) (h : FirstAt f (beyond lower upper) t) (hle : u ≤ f t) :
      Meets lower upper f u

def Apart (lower upper : Option ℝ) : Prop := ∀ l ∈ lower, ∀ u ∈ upper, l < u

variable {lower upper : Option ℝ} {x : ℝ}

theorem isClosed_beyond (lower upper : Option ℝ) : IsClosed (beyond lower upper) := by
  have hlower : IsClosed {x : ℝ | ∃ l ∈ lower, x ≤ l} := by
    cases lower with
    | none => simp
    | some l =>
      have heq : {x : ℝ | ∃ l' ∈ some l, x ≤ l'} = Iic l := by
        ext x
        simp
      rw [heq]
      exact isClosed_Iic
  have hupper : IsClosed {x : ℝ | ∃ u ∈ upper, u ≤ x} := by
    cases upper with
    | none => simp
    | some u =>
      have heq : {x : ℝ | ∃ u' ∈ some u, u' ≤ x} = Ici u := by
        ext x
        simp
      rw [heq]
      exact isClosed_Ici
  exact hlower.union hupper

theorem Path.meets_iff (hlo : lo ≤ a) (hhi : a ≤ hi) :
    (∃ x, Meets lower upper w.value x) ↔ (∃ l ∈ lower, lo ≤ l) ∨ ∃ u ∈ upper, u ≤ hi := by
  constructor
  · rintro ⟨x, hx⟩
    cases hx with
    | start hl h =>
      rw [w.start] at h
      exact .inl ⟨_, hl, hlo.trans h⟩
    | lower hl h _ hle => exact .inl ⟨_, hl, (w.mem h.time).1.trans hle⟩
    | upper hu h hle => exact .inr ⟨_, hu, hle.trans (w.mem h.time).2⟩
  · intro h
    have hreach : ∃ t ∈ Icc (0 : ℝ) 1, w.value t ∈ beyond lower upper := by
      rcases h with ⟨l, hl, hle⟩ | ⟨u, hu, hle⟩
      · obtain ⟨t, ht, heq⟩ := w.exists_eq (left_mem_Icc.2 (hlo.trans hhi))
        exact ⟨t, ht, .inl ⟨l, hl, heq.trans_le hle⟩⟩
      · obtain ⟨t, ht, heq⟩ := w.exists_eq (right_mem_Icc.2 (hlo.trans hhi))
        exact ⟨t, ht, .inr ⟨u, hu, hle.trans heq.ge⟩⟩
    obtain ⟨t, ht⟩ := exists_firstAt w.continuous (isClosed_beyond lower upper) hreach
    rcases ht.inside with ⟨l, hl, hle⟩ | ⟨u, hu, hle⟩
    · by_cases h0 : t = 0
      · subst h0
        exact ⟨_, .start hl hle⟩
      · exact ⟨_, .lower hl ht h0 hle⟩
    · exact ⟨_, .upper hu ht hle⟩

theorem Path.meets_start (hapart : Apart lower upper) {l : ℝ} (hl : l ∈ lower)
    (h : a ≤ l) : Meets lower upper w.value x ↔ x = a := by
  have hstart : w.value 0 ≤ l := w.start.trans_le h
  constructor
  · intro hx
    cases hx with
    | start => exact w.start
    | lower _ hfirst ht _ => exact absurd (hfirst.eq_zero_iff.2 (.inl ⟨l, hl, hstart⟩)) ht
    | upper hu hfirst hle =>
      rw [hfirst.eq_zero_iff.2 (.inl ⟨l, hl, hstart⟩)] at hle
      exact absurd (hle.trans hstart) (not_le.2 (hapart l hl x hu))
  · intro hx
    rw [hx.trans w.start.symm]
    exact .start hl hstart

theorem Path.meets_level (hapart : Apart lower upper) {u : ℝ} (hu : u ∈ upper)
    (h : u ≤ a) : Meets lower upper w.value x ↔ x = u := by
  have hstart : u ≤ w.value 0 := h.trans_eq w.start.symm
  have hmem : w.value 0 ∈ beyond lower upper := .inr ⟨u, hu, hstart⟩
  constructor
  · intro hx
    cases hx with
    | @start l hl hle => exact absurd (hstart.trans hle) (not_le.2 (hapart l hl u hu))
    | lower _ hfirst ht _ => exact absurd (hfirst.eq_zero_iff.2 hmem) ht
    | upper hu' _ _ => exact Option.mem_unique hu' hu
  · rintro rfl
    refine .upper (t := 0) hu ⟨⟨le_rfl, zero_le_one⟩, hmem, ?_⟩ hstart
    exact fun s hs hlt => absurd hs.1 (not_le.2 hlt)

theorem Meets.mem_level (h : Meets lower upper f x) (hclear : f 0 ∉ beyond lower upper) :
    x ∈ lower ∨ x ∈ upper := by
  cases h with
  | start hl hle => exact absurd (.inl ⟨_, hl, hle⟩) hclear
  | lower hl => exact .inl hl
  | upper hu => exact .inr hu

theorem exists_firstAt_turning {b : ℝ} (c : ℝ) (hS : IsClosed S) (hb : b ∈ S) :
    ∃ t, FirstAt (turning a b c) S t ∧ turning a b c t ∈ uIcc a b := by
  have hmem : turning a b c (1 / 2) ∈ S := by rwa [turning_half]
  have htime : (1 / 2 : ℝ) ∈ Icc (0 : ℝ) 1 := ⟨by norm_num, by norm_num⟩
  obtain ⟨t, ht⟩ := exists_firstAt (continuous_turning a b c).continuousOn hS ⟨1 / 2, htime, hmem⟩
  exact ⟨t, ht, turning_first ht.time.1 (ht.le_of_mem htime hmem)⟩

theorem meets_lowFirst (hlo : lo ≤ a) (hhi : a ≤ hi) (hclear : a ∉ beyond lower upper) {l : ℝ}
    (hl : l ∈ lower) (hle : lo ≤ l) : Meets lower upper (Path.lowFirst hlo hhi).value l := by
  obtain ⟨t, ht, hleg⟩ := exists_firstAt_turning (a := a) (b := lo) hi
    (isClosed_beyond lower upper) (.inl ⟨l, hl, hle⟩)
  rw [uIcc_of_ge hlo] at hleg
  rcases ht.inside with ⟨l', hl', hbelow⟩ | ⟨u, hu, habove⟩
  · obtain rfl := Option.mem_unique hl' hl
    refine .lower hl ht (fun h0 => hclear ?_) hbelow
    rw [ht.eq_zero_iff, turning_zero] at h0
    exact h0
  · exact absurd (.inr ⟨u, hu, habove.trans hleg.2⟩) hclear

theorem meets_highFirst (hlo : lo ≤ a) (hhi : a ≤ hi) (hclear : a ∉ beyond lower upper) {u : ℝ}
    (hu : u ∈ upper) (hle : u ≤ hi) : Meets lower upper (Path.highFirst hlo hhi).value u := by
  obtain ⟨t, ht, hleg⟩ := exists_firstAt_turning (a := a) (b := hi) lo
    (isClosed_beyond lower upper) (.inr ⟨u, hu, hle⟩)
  rw [uIcc_of_le hhi] at hleg
  rcases ht.inside with ⟨l, hl, hbelow⟩ | ⟨u', hu', habove⟩
  · exact absurd (.inl ⟨l, hl, hleg.1.trans hbelow⟩) hclear
  · obtain rfl := Option.mem_unique hu' hu
    exact .upper hu ht habove

end FirstPassage
