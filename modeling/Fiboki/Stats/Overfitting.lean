import Fiboki.Lib.ArraySplit
import Fiboki.Lib.Combinations
import Fiboki.Lib.Pointwise
import Mathlib.Analysis.SpecialFunctions.Log.Basic

/-!
The probability of backtest overfitting by combinatorially symmetric cross-validation, with exact
arithmetic: rows are periods, and a row has one return for each trial.

The cross-validation from block moments is the one from the rows, its relative ranks are proper,
and the order of the trials does not matter without ties.
-/

namespace Fiboki

open ArraySplit Combinations

/-- The functions of the numerical library that are not arithmetic: a square root is positive
exactly where its argument is. -/
structure RealFunctions (K : Type) [Zero K] [LT K] where
  sqrt : K → K
  log : K → K
  sqrt_pos : ∀ x, 0 < sqrt x ↔ 0 < x

section Columns

variable {K : Type} [Field K] {N : ℕ}

def column (rows : List (Fin N → K)) (j : Fin N) : List K := rows.map fun row => row j

def mean (xs : List K) : K := xs.sum / xs.length

def sampleVariance (xs : List K) : K :=
  (xs.map fun x => (x - mean xs) ^ 2).sum / ((xs.length : K) - 1)

structure BlockMoments (K : Type) (N : ℕ) where
  counts : List K
  sums : List (Fin N → K)
  sumsq : List (Fin N → K)

def blockMoments (matrix : List (Fin N → K)) (nSplits : ℕ) : BlockMoments K N :=
  let blocks := arraySplit matrix nSplits
  { counts := blocks.map fun block => (block.length : K)
    sums := blocks.map fun block j => (column block j).sum
    sumsq := blocks.map fun block j => ((column block j).map fun x => x ^ 2).sum }

def select (combo : List ℕ) (b : ℕ) : K := if b ∈ combo then 1 else 0

def complement (combo : List ℕ) (b : ℕ) : K := 1 - select combo b

def weighted (weight : ℕ → K) (values : List K) : K :=
  (values.zipIdx.map fun x => weight x.2 * x.1).sum

variable [LinearOrder K]

def sharpeColumns (fns : RealFunctions K) (block : List (Fin N → K)) : Except String (Fin N → K) :=
  if block.length < 2 then .error "need at least 2 rows to compute a Sharpe ratio"
  else .ok fun j =>
    let mean := mean (column block j)
    let sd := fns.sqrt (sampleVariance (column block j))
    if 0 < sd then mean / sd else 0

def sharpeFromMoments (fns : RealFunctions K) (n : K) (s1 s2 : Fin N → K) : Fin N → K := fun j =>
  let mean := s1 j / n
  let var := (s2 j - n * mean ^ 2) / (n - 1)
  if 0 < var then mean / fns.sqrt var else 0

def sharpeOfBlocks (fns : RealFunctions K) (moments : BlockMoments K N) (weight : ℕ → K) :
    Fin N → K :=
  sharpeFromMoments fns (weighted weight moments.counts)
    (fun j => weighted weight (moments.sums.map fun s => s j))
    (fun j => weighted weight (moments.sumsq.map fun s => s j))

def rowsOfBlocks (blocks : List (List (Fin N → K))) (chosen : ℕ → Bool) : List (Fin N → K) :=
  (blocks.zipIdx.filter fun x => chosen x.2).flatMap Prod.fst

/-- The performance of every trial in sample and out of sample. -/
structure Performances (K : Type) (N : ℕ) where
  inSample : Fin N → K
  outOfSample : Fin N → K

def performancesOf (fns : RealFunctions K) (matrix : List (Fin N → K)) (nSplits : ℕ)
    (performance : Option (List (Fin N → K) → Except String (Fin N → K))) (combo : List ℕ) :
    Except String (Performances K N) :=
  match performance with
  | none =>
    let moments := blockMoments matrix nSplits
    .ok ⟨sharpeOfBlocks fns moments (select combo), sharpeOfBlocks fns moments (complement combo)⟩
  | some performance => do
    let blocks := arraySplit matrix nSplits
    let inSample ← performance (rowsOfBlocks blocks fun b => b ∈ combo)
    let outOfSample ← performance (rowsOfBlocks blocks fun b => b ∉ combo)
    .ok ⟨inSample, outOfSample⟩

/-- `np.argmax`: the first of the greatest. -/
def argmax (h : 0 < N) (f : Fin N → K) : Fin N :=
  (List.finRange N).foldl (fun best j => if f best < f j then j else best) ⟨0, h⟩

/-- The in-sample winner of a combination and how it does out of sample. -/
structure Winner (K : Type) (N : ℕ) where
  best : Fin N
  bestIs : K
  bestOos : K
  omega : K

def winner (h : 0 < N) (perf : Performances K N) : Winner K N :=
  let best := argmax h perf.inSample
  let bestOos := perf.outOfSample best
  let fewer := (List.finRange N).countP fun j => perf.outOfSample j < bestOos
  let equal := (List.finRange N).countP fun j => perf.outOfSample j = bestOos
  let rank := (fewer : K) + ((equal : K) + 1) / 2
  ⟨best, perf.inSample best, bestOos, rank / ((N : K) + 1)⟩

def logit (fns : RealFunctions K) (logitClip omega : K) : K :=
  min (max (fns.log (omega / (1 - omega))) (-|logitClip|)) |logitClip|

/-- `_ols`: slope, intercept and the share of the variance explained. -/
def ols (points : List (K × K)) : K × K × K :=
  let xm := mean (points.map Prod.fst)
  let ym := mean (points.map Prod.snd)
  let sxx := (points.map fun p => (p.1 - xm) ^ 2).sum
  if sxx ≤ 0 then (0, ym, 0)
  else
    let slope := (points.map fun p => (p.1 - xm) * (p.2 - ym)).sum / sxx
    let intercept := ym - slope * xm
    let sst : K := (points.map fun p => (p.2 - ym) ^ 2).sum
    let r2 : K := if sst ≤ 0 then 0
      else 1 - (points.map fun p => (p.2 - (intercept + slope * p.1)) ^ 2).sum / sst
    (slope, intercept, r2)

structure PBOResult (K : Type) (N : ℕ) where
  /-- The share of the combinations whose winner ranks in the lower half out of sample. -/
  pbo : K
  logits : List K
  relativeRanks : List K
  isBestIndex : List (Fin N)
  isPerformance : List K
  oosPerformance : List K
  degradationSlope : K
  degradationIntercept : K
  degradationR2 : K
  probabilityOfLoss : K
  nCombinations : ℕ
  nTrials : ℕ
  nSplits : ℤ
  nObs : ℕ

def share {α : Type} (test : α → Bool) (xs : List α) : K := (xs.countP test : K) / xs.length

def pboResult (fns : RealFunctions K) (logitClip : K) (nSplits : ℤ) (nObs : ℕ)
    (winners : List (Winner K N)) : PBOResult K N :=
  let logits := winners.map fun w => logit fns logitClip w.omega
  let (slope, intercept, r2) := ols (winners.map fun w => (w.bestIs, w.bestOos))
  { pbo := share (fun x => x ≤ 0) logits
    logits
    relativeRanks := winners.map Winner.omega
    isBestIndex := winners.map Winner.best
    isPerformance := winners.map Winner.bestIs
    oosPerformance := winners.map Winner.bestOos
    degradationSlope := slope
    degradationIntercept := intercept
    degradationR2 := r2
    probabilityOfLoss := share (fun w : Winner K N => w.bestOos < 0) winners
    nCombinations := winners.length
    nTrials := N
    nSplits, nObs }

def combosOf (nSplits : ℤ) : List (List ℕ) :=
  combinations (nSplits.toNat / 2) (List.range nSplits.toNat)

def combinatoriallySymmetricCv (fns : RealFunctions K) (matrix : List (Fin N → K))
    (nSplits : ℤ) (performance : Option (List (Fin N → K) → Except String (Fin N → K)))
    (logitClip : K) : Except String (PBOResult K N) :=
  if h : N < 2 then .error "CSCV needs at least 2 trials to rank"
  else if nSplits % 2 ≠ 0 ∨ nSplits < 4 then .error "n_splits must be even and >= 4"
  else if (matrix.length : ℤ) < 2 * nSplits then .error ("need at least 2 rows per block: " ++
    toString matrix.length ++ " rows cannot support S=" ++ toString nSplits)
  else do
    let perfs ← (combosOf nSplits).mapM
      (performancesOf fns matrix nSplits.toNat performance)
    .ok (pboResult fns logitClip nSplits matrix.length
      (perfs.map (winner (Nat.lt_of_lt_of_le Nat.zero_lt_two (not_lt.1 h)))))

end Columns

section Blocks

theorem two_le_length_rowsOfBlocks {R : Type} {N : ℕ} {matrix : List (Fin N → R)} {nSplits b : ℕ}
    {chosen : ℕ → Bool} (hrows : 2 * nSplits ≤ matrix.length) (hb : b < nSplits)
    (hchosen : chosen b = true) : 2 ≤ (rowsOfBlocks (arraySplit matrix nSplits) chosen).length := by
  have hlt : b < (arraySplit matrix nSplits).length := by
    rw [length_arraySplit matrix (by omega)]
    exact hb
  have hblock : 2 ≤ ((arraySplit matrix nSplits)[b]).length := by
    have hmem := List.mem_map_of_mem (f := List.length) (List.getElem_mem hlt)
    rw [map_length_arraySplit matrix (by omega)] at hmem
    have hdiv : 2 ≤ matrix.length / nSplits := by
      rw [Nat.le_div_iff_mul_le (by omega)]
      exact hrows
    unfold sectionSizes at hmem
    rw [List.mem_append, List.mem_replicate, List.mem_replicate] at hmem
    omega
  have hsub : ((arraySplit matrix nSplits)[b]).Sublist
      (rowsOfBlocks (arraySplit matrix nSplits) chosen) := by
    unfold rowsOfBlocks
    rw [List.flatMap_def]
    apply List.sublist_flatten_of_mem
    refine List.mem_map.2 ⟨((arraySplit matrix nSplits)[b], b), ?_, rfl⟩
    rw [List.mem_filter, List.mem_zipIdx_iff_getElem?, List.getElem?_eq_getElem hlt]
    exact ⟨rfl, hchosen⟩
  exact hblock.trans hsub.length_le

theorem exists_not_mem_combo {n k : ℕ} {combo : List ℕ}
    (hcombo : combo ∈ combinations k (List.range n))
    (hk : k < n) : ∃ b < n, b ∉ combo := by
  obtain ⟨hsub, hlength⟩ := mem_combinations.1 hcombo
  by_contra hall
  have hsubset : List.range n ⊆ combo := by
    intro b hb
    by_contra hnot
    exact hall ⟨b, List.mem_range.1 hb, hnot⟩
  have hle := (List.nodup_range (n := n)).length_le_of_subset hsubset
  rw [List.length_range] at hle
  omega

end Blocks

section Moments

variable {K : Type} [Field K] {N : ℕ}

variable {chosen : ℕ → Bool}

theorem weighted_rowsOfBlocks {weight : ℕ → K} (hweight : ∀ b, weight b = if chosen b then 1 else 0)
    (total : List (Fin N → K) → K)
    (hnil : total [] = 0) (happend : ∀ xs ys, total (xs ++ ys) = total xs + total ys)
    (blocks : List (List (Fin N → K))) :
    weighted weight (blocks.map total) = total (rowsOfBlocks blocks chosen) := by
  have hfrom : ∀ k, (((blocks.map total).zipIdx k).map fun x => weight x.2 * x.1).sum =
      total (((blocks.zipIdx k).filter fun x => chosen x.2).flatMap Prod.fst) := by
    induction blocks with
    | nil =>
      intro k
      exact hnil.symm
    | cons block blocks ih =>
      intro k
      rw [List.map_cons, List.zipIdx_cons, List.map_cons, List.sum_cons, ih, List.zipIdx_cons]
      cases hk : chosen k with
      | true =>
        rw [List.filter_cons, if_pos hk, List.flatMap_cons, happend, hweight, hk, if_pos rfl,
          one_mul]
      | false =>
        rw [List.filter_cons, if_neg (by simp [hk]), hweight, hk, if_neg (by simp), zero_mul,
          zero_add]
  exact hfrom 0

theorem sum_sq_sub_mean {xs : List K} (h : (xs.length : K) ≠ 0) :
    (xs.map fun x => (x - mean xs) ^ 2).sum =
      (xs.map fun x => x ^ 2).sum - xs.length * mean xs ^ 2 := by
  have hexpand : ∀ (m : K) (ys : List K), (ys.map fun x => (x - m) ^ 2).sum =
      (ys.map fun x => x ^ 2).sum - 2 * m * ys.sum + ys.length * m ^ 2 := by
    intro m ys
    induction ys with
    | nil => simp
    | cons y ys ih =>
      simp only [List.map_cons, List.sum_cons, ih, List.length_cons, Nat.cast_add, Nat.cast_one]
      ring
  have hsum : xs.sum = xs.length * mean xs := by
    unfold mean
    field_simp
  rw [hexpand, hsum]
  ring

variable [LinearOrder K] {fns : RealFunctions K}

variable {matrix : List (Fin N → K)}

theorem sharpeColumns_rowsOfBlocks [IsStrictOrderedRing K] {nSplits : ℕ} (weight : ℕ → K)
    (hweight : ∀ b, weight b = if chosen b then 1 else 0)
    (hrows : 2 ≤ (rowsOfBlocks (arraySplit matrix nSplits) chosen).length) :
    sharpeColumns fns (rowsOfBlocks (arraySplit matrix nSplits) chosen) =
      .ok (sharpeOfBlocks fns (blockMoments matrix nSplits) weight) := by
  unfold sharpeColumns
  rw [if_neg (by omega)]
  congr 1
  funext j
  unfold sharpeOfBlocks sharpeFromMoments blockMoments
  generalize arraySplit matrix nSplits = blocks at *
  have hcounts : weighted weight (blocks.map fun block => (block.length : K)) =
      ((column (rowsOfBlocks blocks chosen) j).length : K) := by
    rw [weighted_rowsOfBlocks hweight (fun block => (block.length : K)) (by simp)
      (by intro xs ys; simp)]
    unfold column
    rw [List.length_map]
  have hsums : weighted weight (blocks.map fun block => (column block j).sum) =
      (column (rowsOfBlocks blocks chosen) j).sum := by
    apply weighted_rowsOfBlocks hweight
    · rfl
    · intro xs ys
      simp [column]
  have hsumsq :
      weighted weight (blocks.map fun block => ((column block j).map fun x => x ^ 2).sum) =
        ((column (rowsOfBlocks blocks chosen) j).map fun x => x ^ 2).sum := by
    apply weighted_rowsOfBlocks hweight
    · rfl
    · intro xs ys
      simp [column]
  have hlength : ((column (rowsOfBlocks blocks chosen) j).length : K) ≠ 0 := by
    unfold column
    rw [List.length_map, Nat.cast_ne_zero]
    omega
  simp only [List.map_map, Function.comp_def]
  rw [hcounts, hsums, hsumsq]
  generalize column (rowsOfBlocks blocks chosen) j = xs at *
  have hvar : sampleVariance xs =
      ((xs.map fun x => x ^ 2).sum - xs.length * (xs.sum / xs.length) ^ 2) /
        ((xs.length : K) - 1) := by
    unfold sampleVariance
    rw [sum_sq_sub_mean hlength]
    rfl
  rw [hvar]
  simp only [fns.sqrt_pos]
  rfl

theorem performancesOf_sharpeColumns [IsStrictOrderedRing K] {nSplits : ℤ} (heven : nSplits % 2 = 0)
    (hfour : 4 ≤ nSplits)
    (hrows : 2 * nSplits ≤ matrix.length) {combo : List ℕ} (hcombo : combo ∈ combosOf nSplits) :
    performancesOf fns matrix nSplits.toNat none combo =
      performancesOf fns matrix nSplits.toNat (some (sharpeColumns fns)) combo := by
  have hrows' : 2 * nSplits.toNat ≤ matrix.length := by omega
  unfold combosOf at hcombo
  obtain ⟨out, hout, hnot⟩ := exists_not_mem_combo hcombo (by omega)
  obtain ⟨b, hb⟩ : ∃ b, b ∈ combo := by
    apply List.exists_mem_of_length_pos
    rw [(mem_combinations.1 hcombo).2]
    omega
  have hlt : b < nSplits.toNat := List.mem_range.1 ((mem_combinations.1 hcombo).1.subset hb)
  unfold performancesOf
  dsimp only
  rw [sharpeColumns_rowsOfBlocks (select combo) (by intro b; simp [select])
      (two_le_length_rowsOfBlocks hrows' hlt (by simpa using hb)),
    sharpeColumns_rowsOfBlocks (complement combo)
      (by intro b; by_cases h : b ∈ combo <;> simp [complement, select, h])
      (two_le_length_rowsOfBlocks hrows' hout (by simpa using hnot))]
  rfl

theorem combinatoriallySymmetricCv_eq [IsStrictOrderedRing K] (fns : RealFunctions K)
    (matrix : List (Fin N → K)) (nSplits : ℤ) (logitClip : K) :
    combinatoriallySymmetricCv fns matrix nSplits none logitClip =
      combinatoriallySymmetricCv fns matrix nSplits (some (sharpeColumns fns)) logitClip := by
  unfold combinatoriallySymmetricCv
  split
  · rfl
  split
  · rfl
  split
  · rfl
  have heq : (combosOf nSplits).mapM (performancesOf fns matrix nSplits.toNat none) =
      (combosOf nSplits).mapM
        (performancesOf fns matrix nSplits.toNat (some (sharpeColumns fns))) := by
    apply Pointwise.mapM_congr
    intro combo hcombo
    exact performancesOf_sharpeColumns (by omega) (by omega) (by omega) hcombo
  rw [heq]

end Moments

section Ranks

variable {K : Type} [LinearOrder K] {N : ℕ}

variable {f : Fin N → K}

theorem foldl_argmax {b : Fin N} {l : List (Fin N)}
    (h : (b :: l).Pairwise (· ≤ ·)) :
    ∀ j ∈ b :: l, f j ≤ f (l.foldl (fun best j => if f best < f j then j else best) b) ∧
        (j < l.foldl (fun best j => if f best < f j then j else best) b →
          f j < f (l.foldl (fun best j => if f best < f j then j else best) b)) := by
  induction l generalizing b with
  | nil =>
    intro j hj
    obtain rfl := List.mem_singleton.1 hj
    exact ⟨le_rfl, fun hlt => absurd hlt (lt_irrefl _)⟩
  | cons a l ih =>
    obtain ⟨hb, hal⟩ := List.pairwise_cons.1 h
    rw [List.foldl_cons]
    by_cases hlt : f b < f a
    · rw [if_pos hlt]
      intro j hj
      rcases List.mem_cons.1 hj with rfl | hj
      · have hfirst := hlt.trans_le (ih hal a List.mem_cons_self).1
        exact ⟨hfirst.le, fun _ => hfirst⟩
      · exact ih hal j hj
    · rw [if_neg hlt]
      have hbl : (b :: l).Pairwise (· ≤ ·) :=
        List.pairwise_cons.2 ⟨fun c hc => hb c (List.mem_cons_of_mem _ hc), hal.tail⟩
      intro j hj
      rcases List.mem_cons.1 hj with rfl | hj
      · exact ih hbl j List.mem_cons_self
      rcases List.mem_cons.1 hj with rfl | hj
      · obtain ⟨hle, hbefore⟩ := ih hbl b List.mem_cons_self
        have hjb := not_lt.1 hlt
        refine ⟨hjb.trans hle, fun hj => hjb.trans_lt (hbefore ?_)⟩
        exact (hb j List.mem_cons_self).trans_lt hj
      · exact ih hbl j (List.mem_cons_of_mem _ hj)

theorem argmax_spec (h : 0 < N) (f : Fin N → K) (j : Fin N) :
    f j ≤ f (argmax h f) ∧ (j < argmax h f → f j < f (argmax h f)) := by
  have hsorted : (⟨0, h⟩ :: List.finRange N).Pairwise (· ≤ ·) := by
    rw [List.pairwise_cons]
    refine ⟨fun a _ => Fin.mk_le_of_le_val (Nat.zero_le a), ?_⟩
    exact (List.pairwise_lt_finRange N).imp le_of_lt
  exact foldl_argmax hsorted j (List.mem_cons_of_mem _ (List.mem_finRange j))

def IsBest (f : Fin N → K) (i : Fin N) : Prop := ∀ j, f j ≤ f i

theorem isBest_argmax (h : 0 < N) (f : Fin N → K) : IsBest f (argmax h f) :=
  fun j => (argmax_spec h f j).1

theorem argmax_comp (h : 0 < N) (σ : Equiv.Perm (Fin N))
    (hunique : ∀ i j, IsBest f i → IsBest f j → i = j) : σ (argmax h (f ∘ σ)) = argmax h f := by
  apply hunique _ _ _ (isBest_argmax h f)
  intro j
  have hbest := isBest_argmax h (f ∘ σ) (σ.symm j)
  simpa using hbest

theorem countP_comp (σ : Equiv.Perm (Fin N)) (test : Fin N → Bool) :
    (List.finRange N).countP (fun j => test (σ j)) = (List.finRange N).countP test := by
  have hmap := List.countP_map (p := test) (f := σ) (l := List.finRange N)
  rw [(Equiv.Perm.map_finRange_perm σ).countP_eq] at hmap
  exact hmap.symm

variable [Field K]

theorem winner_comp (h : 0 < N) {perf : Performances K N} (σ : Equiv.Perm (Fin N))
    (hunique : ∀ i j, IsBest perf.inSample i → IsBest perf.inSample j → i = j) :
    σ (winner h ⟨perf.inSample ∘ σ, perf.outOfSample ∘ σ⟩).best = (winner h perf).best ∧
      (winner h ⟨perf.inSample ∘ σ, perf.outOfSample ∘ σ⟩).bestOos = (winner h perf).bestOos ∧
      (winner h ⟨perf.inSample ∘ σ, perf.outOfSample ∘ σ⟩).omega = (winner h perf).omega := by
  have hbest := argmax_comp h σ hunique
  unfold winner
  dsimp only [Function.comp_apply]
  rw [hbest]
  refine ⟨rfl, rfl, ?_⟩
  rw [countP_comp σ fun j =>
      decide (perf.outOfSample j < perf.outOfSample (argmax h perf.inSample)),
    countP_comp σ fun j =>
      decide (perf.outOfSample j = perf.outOfSample (argmax h perf.inSample))]

variable [IsStrictOrderedRing K]

theorem omega_mem (h : 0 < N) (perf : Performances K N) :
    0 < (winner h perf).omega ∧ (winner h perf).omega < 1 := by
  unfold winner
  dsimp only
  generalize hbest : perf.outOfSample (argmax h perf.inSample) = best
  have hself : 1 ≤ (List.finRange N).countP fun j => decide (perf.outOfSample j = best) := by
    rw [Nat.one_le_iff_ne_zero, ← Nat.pos_iff_ne_zero, List.countP_pos_iff]
    exact ⟨argmax h perf.inSample, List.mem_finRange _, by simpa using hbest⟩
  have htotal : ((List.finRange N).countP fun j => decide (perf.outOfSample j < best)) +
      ((List.finRange N).countP fun j => decide (perf.outOfSample j = best)) ≤ N := by
    have hsplit := List.length_eq_countP_add_countP (l := List.finRange N)
      (fun j => decide (perf.outOfSample j < best))
    have hmono := List.countP_mono_left (l := List.finRange N)
      (p := fun j => decide (perf.outOfSample j = best))
      (q := fun j => decide ¬decide (perf.outOfSample j < best) = true) (by
        intro j _ hj
        simp only [decide_eq_true_eq] at hj ⊢
        exact hj.not_lt)
    rw [List.length_finRange] at hsplit
    omega
  generalize ((List.finRange N).countP fun j => decide (perf.outOfSample j < best)) = fewer at *
  generalize ((List.finRange N).countP fun j => decide (perf.outOfSample j = best)) = equal at *
  have hself' : (1 : K) ≤ equal := by exact_mod_cast hself
  have htotal' : (fewer : K) + equal ≤ N := by exact_mod_cast htotal
  have hfewer : (0 : K) ≤ fewer := Nat.cast_nonneg _
  have hdenom : (0 : K) < N + 1 := by linarith
  constructor
  · apply div_pos _ hdenom
    linarith
  · rw [div_lt_one hdenom]
    linarith

end Ranks

section Whole

variable {K : Type} [Field K] [LinearOrder K] {N : ℕ} {fns : RealFunctions K}

def fastPerformances (fns : RealFunctions K) (matrix : List (Fin N → K)) (nSplits : ℕ)
    (combo : List ℕ) : Performances K N :=
  ⟨sharpeOfBlocks fns (blockMoments matrix nSplits) (select combo),
    sharpeOfBlocks fns (blockMoments matrix nSplits) (complement combo)⟩

def winners (fns : RealFunctions K) (h : 0 < N) (matrix : List (Fin N → K)) (nSplits : ℤ) :
    List (Winner K N) :=
  ((combosOf nSplits).map (fastPerformances fns matrix nSplits.toNat)).map (winner h)

/-- A matrix and a number of splits that the cross-validation accepts. -/
structure Admissible (N : ℕ) (nObs : ℕ) (nSplits : ℤ) : Prop where
  trials : 2 ≤ N
  even : nSplits % 2 = 0
  four : 4 ≤ nSplits
  rows : 2 * nSplits ≤ nObs

theorem combinatoriallySymmetricCv_ok {matrix : List (Fin N → K)} {nSplits : ℤ}
    (h : Admissible N matrix.length nSplits) (logitClip : K) :
    combinatoriallySymmetricCv fns matrix nSplits none logitClip =
      .ok (pboResult fns logitClip nSplits matrix.length
        (winners fns (by have := h.trials; omega) matrix nSplits)) := by
  unfold combinatoriallySymmetricCv
  have htrials := h.trials
  have heven := h.even
  have hfour := h.four
  have hrows := h.rows
  rw [dif_neg (by omega), if_neg (by omega), if_neg (by omega)]
  have hall : (combosOf nSplits).mapM (performancesOf fns matrix nSplits.toNat none) =
      .ok ((combosOf nSplits).map (fastPerformances fns matrix nSplits.toNat)) :=
    List.mapM_pure
  rw [hall]
  rfl

section Permuted

theorem sections_map {α β : Type} (f : α → β) (sizes : List ℕ) (xs : List α) :
    sections sizes (xs.map f) = (sections sizes xs).map fun block => block.map f := by
  induction sizes generalizing xs with
  | nil => rfl
  | cons s sizes ih =>
    rw [sections, sections, List.map_cons, List.map_take, ← ih, List.map_drop]

variable (σ : Equiv.Perm (Fin N))

def permuted {R : Type} (matrix : List (Fin N → R)) : List (Fin N → R) :=
  matrix.map fun row => row ∘ σ

theorem sharpeOfBlocks_permuted (matrix : List (Fin N → K)) (nSplits : ℕ) (weight : ℕ → K) :
    sharpeOfBlocks fns (blockMoments (permuted σ matrix) nSplits) weight =
      sharpeOfBlocks fns (blockMoments matrix nSplits) weight ∘ σ := by
  funext j
  unfold sharpeOfBlocks sharpeFromMoments blockMoments permuted arraySplit
  rw [List.length_map, sections_map]
  simp only [List.map_map, Function.comp_def, column, List.length_map]

def NoTie (fns : RealFunctions K) (matrix : List (Fin N → K)) (nSplits : ℤ) : Prop :=
  ∀ combo ∈ combosOf nSplits, ∀ perf,
    performancesOf fns matrix nSplits.toNat none combo = .ok perf →
      ∀ i j, IsBest perf.inSample i → IsBest perf.inSample j → i = j

variable {nSplits : ℤ}

theorem winners_permuted (h : 0 < N) {matrix : List (Fin N → K)}
    (htie : NoTie fns matrix nSplits) :
    (winners fns h (permuted σ matrix) nSplits).map Winner.omega =
      (winners fns h matrix nSplits).map Winner.omega := by
  unfold winners
  rw [List.map_map, List.map_map, List.map_map, List.map_map]
  apply List.map_congr_left
  intro combo hcombo
  have hwinner := winner_comp h σ (htie combo hcombo _ rfl)
  have hperf : fastPerformances fns (permuted σ matrix) nSplits.toNat combo =
      ⟨(fastPerformances fns matrix nSplits.toNat combo).inSample ∘ σ,
        (fastPerformances fns matrix nSplits.toNat combo).outOfSample ∘ σ⟩ := by
    unfold fastPerformances
    rw [sharpeOfBlocks_permuted, sharpeOfBlocks_permuted]
  simp only [Function.comp_apply]
  rw [hperf]
  exact hwinner.2.2

theorem pbo_congr {logitClip : K} {nObs nObs' : ℕ} {ws ws' : List (Winner K N)}
    (h : ws'.map Winner.omega = ws.map Winner.omega) :
    (pboResult fns logitClip nSplits nObs' ws').pbo =
      (pboResult fns logitClip nSplits nObs ws).pbo := by
  have hlogits := congrArg (List.map (logit fns logitClip)) h
  rw [List.map_map, List.map_map] at hlogits
  exact congrArg (share fun x => decide (x ≤ 0)) hlogits

end Permuted

end Whole

noncomputable def realFunctions : RealFunctions ℝ where
  sqrt := Real.sqrt
  log := Real.log
  sqrt_pos _ := Real.sqrt_pos

def eightPeriods : List (Fin 2 → ℝ) :=
  [(1, 8), (2, 7), (3, 6), (4, 5), (5, 4), (6, 3), (7, 2), (8, 1)].map
    fun period : ℕ × ℕ => ![(period.1 : ℝ), period.2]

end Fiboki
