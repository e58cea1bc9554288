import Mathlib.Data.List.Infix

/-!
Regime labels, and the confirmation that adopts a label once it has held for long enough.
-/

namespace Fiboki

variable {α : Type} [DecidableEq α]

/-- The loop variables of `confirm`. -/
structure Confirmation (α : Type) where
  held : α
  candidate : α
  run : ℕ

def Confirmation.start (unknown : α) : Confirmation α := ⟨unknown, unknown, 0⟩

def Confirmation.see (minDwell : ℤ) (unknown : α) (s : Confirmation α) (lab : α) : Confirmation α :=
  if lab = unknown then ⟨s.held, unknown, 0⟩
  else if lab = s.held then ⟨s.held, unknown, 0⟩
  else
    let run := if lab = s.candidate then s.run + 1 else 1
    if minDwell ≤ run then ⟨lab, unknown, 0⟩ else ⟨s.held, lab, run⟩

def confirmFrom (minDwell : ℤ) (unknown : α) (s : Confirmation α) : List α → List α
  | [] => []
  | lab :: labels => (s.see minDwell unknown lab).held ::
      confirmFrom minDwell unknown (s.see minDwell unknown lab) labels

def confirm (labels : List α) (minDwell : ℤ) (unknown : α) : Except String (List α) :=
  if minDwell < 1 then .error "min_dwell must be >= 1"
  else .ok (confirmFrom minDwell unknown (.start unknown) labels)

def Sustained (minDwell : ℤ) (unknown : α) (labels : List α) (lab : α) : Prop :=
  lab ≠ unknown ∧ List.replicate minDwell.toNat lab <:+ labels

def IsLatest (minDwell : ℤ) (unknown : α) (labels : List α) (t : ℕ) (lab : α) : Prop :=
  (∃ j ≤ t, Sustained minDwell unknown (labels.take (j + 1)) lab ∧
      ∀ j', j < j' → j' ≤ t → ∀ other, ¬Sustained minDwell unknown (labels.take (j' + 1)) other) ∨
    lab = unknown ∧ ∀ j ≤ t, ∀ other, ¬Sustained minDwell unknown (labels.take (j + 1)) other

def EndsIn (labels : List α) (lab : α) (run : ℕ) : Prop :=
  ∀ n, List.replicate n lab <:+ labels ↔ n ≤ run

section Runs

omit [DecidableEq α]

variable {labels : List α} {lab other : α}

theorem replicate_suffix_concat {n : ℕ} : List.replicate (n + 1) other <:+ labels ++ [lab] ↔
      lab = other ∧ List.replicate n other <:+ labels := by
  rw [List.replicate_succ', List.suffix_concat_iff]
  constructor
  · rintro (hnil | ⟨t, ht, hsuffix⟩)
    · exact absurd hnil (List.append_ne_nil_of_right_ne_nil _ (List.cons_ne_nil _ _))
    · obtain ⟨rfl, hlab⟩ := List.append_inj' ht rfl
      exact ⟨(List.singleton_inj.1 hlab).symm, hsuffix⟩
  · rintro ⟨rfl, hsuffix⟩
    exact .inr ⟨_, rfl, hsuffix⟩

theorem EndsIn.nil (lab : α) : EndsIn [] lab 0 := by
  intro n
  rw [List.suffix_nil, List.replicate_eq_nil_iff, Nat.le_zero]

theorem EndsIn.again {run : ℕ} (h : EndsIn labels lab run) :
    EndsIn (labels ++ [lab]) lab (run + 1) := by
  intro n
  cases n with
  | zero => exact iff_of_true List.nil_suffix (Nat.zero_le _)
  | succ n =>
    rw [replicate_suffix_concat, h n, Nat.succ_le_succ_iff]
    exact and_iff_right rfl

theorem EndsIn.cut (labels : List α) (h : lab ≠ other) : EndsIn (labels ++ [lab]) other 0 := by
  intro n
  cases n with
  | zero => exact iff_of_true List.nil_suffix le_rfl
  | succ n =>
    rw [replicate_suffix_concat]
    exact iff_of_false (fun hand => h hand.1) (Nat.not_succ_le_zero n)

end Runs

section Loop

variable {minDwell : ℤ} {unknown : α} {labels : List α} {s : Confirmation α}

def Counts (unknown : α) (labels : List α) (s : Confirmation α) : Prop :=
  ∀ lab, lab ≠ unknown → lab ≠ s.held → EndsIn labels lab (if lab = s.candidate then s.run else 0)

theorem Counts.start (unknown : α) : Counts unknown [] (.start unknown) := by
  intro lab hlab _
  rw [if_neg (show lab ≠ (Confirmation.start unknown).candidate from hlab)]
  exact .nil lab

theorem Counts.cut (held lab : α) (h : lab = unknown ∨ lab = held) :
    Counts unknown (labels ++ [lab]) ⟨held, unknown, 0⟩ := by
  intro other hknown hheld
  rw [if_neg (show other ≠ unknown from hknown)]
  refine .cut labels fun heq => ?_
  rcases h with h | h
  · exact hknown (heq ▸ h)
  · exact hheld (heq ▸ h)

omit [DecidableEq α] in
theorem sustained_concat (hdwell : 1 ≤ minDwell) {lab other : α}
    (h : Sustained minDwell unknown (labels ++ [lab]) other) : other = lab := by
  obtain ⟨n, hn⟩ := Nat.exists_eq_add_of_le' (show 1 ≤ minDwell.toNat by omega)
  have hsuffix := h.2
  rw [hn, replicate_suffix_concat] at hsuffix
  exact hsuffix.1.symm

theorem Counts.see (h : Counts unknown labels s) (minDwell : ℤ) (lab : α) :
    Counts unknown (labels ++ [lab]) (s.see minDwell unknown lab) ∧
      ((Sustained minDwell unknown (labels ++ [lab]) lab ∧
          (s.see minDwell unknown lab).held = lab) ∨
        (¬Sustained minDwell unknown (labels ++ [lab]) lab ∧
          (s.see minDwell unknown lab).held = s.held)) := by
  unfold Confirmation.see
  by_cases hunknown : lab = unknown
  · rw [if_pos hunknown]
    exact ⟨.cut s.held lab (.inl hunknown), .inr ⟨fun hs => hs.1 hunknown, rfl⟩⟩
  rw [if_neg hunknown]
  by_cases hheld : lab = s.held
  · rw [if_pos hheld]
    refine ⟨.cut s.held lab (.inr hheld), ?_⟩
    by_cases hs : Sustained minDwell unknown (labels ++ [lab]) lab
    · exact .inl ⟨hs, hheld.symm⟩
    · exact .inr ⟨hs, rfl⟩
  rw [if_neg hheld]
  dsimp only
  have hrun : EndsIn (labels ++ [lab]) lab (if lab = s.candidate then s.run + 1 else 1) := by
    have hnext := (h lab hunknown hheld).again
    rwa [apply_ite (· + 1)] at hnext
  have hblock : Sustained minDwell unknown (labels ++ [lab]) lab ↔
      minDwell ≤ ((if lab = s.candidate then s.run + 1 else 1 : ℕ) : ℤ) := by
    unfold Sustained
    rw [hrun, Int.toNat_le]
    exact and_iff_right hunknown
  by_cases hdone : minDwell ≤ ((if lab = s.candidate then s.run + 1 else 1 : ℕ) : ℤ)
  · rw [if_pos hdone]
    exact ⟨.cut lab lab (.inr rfl), .inl ⟨hblock.2 hdone, rfl⟩⟩
  · rw [if_neg hdone]
    refine ⟨fun other hknown hother => ?_, .inr ⟨fun hs => hdone (hblock.1 hs), rfl⟩⟩
    by_cases heq : other = lab
    · subst heq
      rw [if_pos rfl]
      exact hrun
    · rw [if_neg heq]
      exact .cut labels (Ne.symm heq)

theorem counts_foldl (minDwell : ℤ) (unknown : α) (labels : List α) :
    Counts unknown labels (labels.foldl (Confirmation.see minDwell unknown) (.start unknown)) := by
  induction labels using List.reverseRecOn with
  | nil => exact .start unknown
  | append_singleton labels lab ih =>
    rw [List.foldl_concat]
    exact (ih.see minDwell lab).1

theorem length_confirmFrom (minDwell : ℤ) (unknown : α) (s : Confirmation α) (labels : List α) :
    (confirmFrom minDwell unknown s labels).length = labels.length := by
  induction labels generalizing s with
  | nil => rfl
  | cons lab labels ih => rw [confirmFrom, List.length_cons, ih, List.length_cons]

variable {t : ℕ}

theorem getElem_confirmFrom (h : t < (confirmFrom minDwell unknown s labels).length) :
    (confirmFrom minDwell unknown s labels)[t] =
      ((labels.take (t + 1)).foldl (Confirmation.see minDwell unknown) s).held := by
  induction labels generalizing s t with
  | nil => exact absurd h (Nat.not_lt_zero t)
  | cons lab labels ih =>
    cases t with
    | zero => rfl
    | succ t => exact ih (Nat.lt_of_succ_lt_succ h)

def heldAfter (minDwell : ℤ) (unknown : α) (labels : List α) (n : ℕ) : α :=
  ((labels.take n).foldl (Confirmation.see minDwell unknown) (.start unknown)).held

theorem heldAfter_succ (unknown : α) (hdwell : 1 ≤ minDwell) (h : t < labels.length) :
    (Sustained minDwell unknown (labels.take (t + 1)) (heldAfter minDwell unknown labels (t + 1))) ∨
      (∀ other, ¬Sustained minDwell unknown (labels.take (t + 1)) other) ∧
        heldAfter minDwell unknown labels (t + 1) = heldAfter minDwell unknown labels t := by
  unfold heldAfter
  rw [← List.take_concat_get' labels t h, List.foldl_concat]
  rcases ((counts_foldl minDwell unknown (labels.take t)).see minDwell labels[t]).2 with
    ⟨hs, heq⟩ | ⟨hs, heq⟩
  · left
    rw [heq]
    exact hs
  · refine .inr ⟨fun other hother => ?_, heq⟩
    rw [sustained_concat hdwell hother] at hother
    exact hs hother

theorem isLatest_heldAfter (hdwell : 1 ≤ minDwell) (h : t < labels.length) :
    IsLatest minDwell unknown labels t (heldAfter minDwell unknown labels (t + 1)) := by
  induction t with
  | zero =>
    rcases heldAfter_succ unknown hdwell h with hs | ⟨hnone, heq⟩
    · exact .inl ⟨0, le_rfl, hs, fun j' hlt hle => absurd hlt (not_lt.2 hle)⟩
    · refine .inr ⟨heq, fun j hj => ?_⟩
      obtain rfl := Nat.le_zero.1 hj
      exact hnone
  | succ t ih =>
    rcases heldAfter_succ unknown hdwell h with hs | ⟨hnone, heq⟩
    · exact .inl ⟨t + 1, le_rfl, hs, fun j' hlt hle => absurd hlt (not_lt.2 hle)⟩
    rw [heq]
    rcases ih (by omega) with ⟨j, hj, hs, hlater⟩ | ⟨hheld, hearlier⟩
    · refine .inl ⟨j, hj.trans (Nat.le_succ t), hs, fun j' hlt hle => ?_⟩
      rcases Nat.le_succ_iff.1 hle with hle | rfl
      · exact hlater j' hlt hle
      · exact hnone
    · refine .inr ⟨hheld, fun j hj => ?_⟩
      rcases Nat.le_succ_iff.1 hj with hj | rfl
      · exact hearlier j hj
      · exact hnone

end Loop

/-- Confirmation gives at each bar the label of the latest block, and what follows of that. -/
structure IsConfirmation (minDwell : ℤ) (unknown : α) (labels out : List α) : Prop where
  length : out.length = labels.length
  latest : ∀ t (h : t < out.length), IsLatest minDwell unknown labels t out[t]
  causal : ∀ labels' out', confirm labels' minDwell unknown = .ok out' → ∀ t,
    labels'.take (t + 1) = labels.take (t + 1) → t < labels.length → out'[t]? = out[t]?
  known : ∀ t t' (h : t ≤ t') (h' : t' < out.length), out[t] ≠ unknown → out[t'] ≠ unknown
  changes : ∀ t (h : t + 1 < out.length), out[t + 1] ≠ out[t] →
    Sustained minDwell unknown (labels.take (t + 2)) out[t + 1]

/-- What `confirm` returns is a confirmation, for every dwell of a bar or more. -/
theorem confirm_latest (labels : List α) {minDwell : ℤ} (unknown : α) (hdwell : 1 ≤ minDwell) :
    ∃ out, confirm labels minDwell unknown = .ok out ∧
      IsConfirmation minDwell unknown labels out := by
  have hout : ∀ labels : List α, confirm labels minDwell unknown =
      .ok (confirmFrom minDwell unknown (.start unknown) labels) :=
    fun _ => if_neg (Int.not_lt.2 hdwell)
  have hlength := length_confirmFrom minDwell unknown (.start unknown)
  refine ⟨_, hout labels, hlength labels, fun t h => ?_, fun labels' out' h' t htake ht => ?_,
    fun t t' hle h' hknown => ?_, fun t h hne => ?_⟩
  · rw [getElem_confirmFrom]
    exact isLatest_heldAfter hdwell (by rwa [hlength] at h)
  · rw [hout] at h'
    cases h'
    have htake' : t < labels'.length := by
      have := congrArg List.length htake
      rw [List.length_take, List.length_take] at this
      omega
    rw [List.getElem?_eq_getElem (by rwa [hlength]), List.getElem?_eq_getElem (by rwa [hlength]),
      getElem_confirmFrom, getElem_confirmFrom, htake]
  · rw [getElem_confirmFrom] at hknown ⊢
    rw [hlength] at h'
    induction t', hle using Nat.le_induction with
    | base => exact hknown
    | succ t' _ ih =>
      rcases heldAfter_succ unknown hdwell h' with hs | ⟨-, heq⟩
      · exact hs.1
      · exact fun hlost => ih (by omega) (heq.symm.trans hlost)
  · rw [getElem_confirmFrom, getElem_confirmFrom] at hne
    rw [getElem_confirmFrom]
    rw [hlength] at h
    rcases heldAfter_succ unknown hdwell h with hs | ⟨-, heq⟩
    · exact hs
    · exact absurd heq hne

theorem confirm_latest_sample : ∃ out, confirm ["a", "a", "b", "a", "b", "b", "?"] 2 "?" = .ok out ∧
      IsConfirmation 2 "?" ["a", "a", "b", "a", "b", "b", "?"] out :=
  confirm_latest _ "?" (by decide)

end Fiboki
