import Mathlib.Logic.Basic

/-!
Runs of a deterministic system that takes one event at a time.

The nondeterminism of an environment sits in the events.  A run is a list of
events, a property of a run is a property of each of its steps, and an invariant
is carried along the steps that a guard lets through.
-/

namespace Runs

universe u v w

variable {S : Type u} {E : Type v}

def exec (step : S → E → S) (s : S) (es : List E) : S := es.foldl step s

/-- Every step of the run meets `P`, which sees the state before it and the event. -/
def Along (P : S → E → Prop) (step : S → E → S) : S → List E → Prop
  | _, [] => True
  | s, e :: es => P s e ∧ Along P step (step s e) es

instance Along.decidable (P : S → E → Prop) [∀ s e, Decidable (P s e)] (step : S → E → S) :
    (s : S) → (es : List E) → Decidable (Along P step s es)
  | _, [] => isTrue trivial
  | s, e :: es =>
    have := Along.decidable P step (step s e) es
    inferInstanceAs (Decidable (P s e ∧ Along P step (step s e) es))

variable {P Q : S → E → Prop} {I : S → Prop} {step : S → E → S}

@[simp] theorem exec_nil (s : S) : exec step s [] = s := rfl

@[simp] theorem exec_cons (s : S) (e : E) (es : List E) :
    exec step s (e :: es) = exec step (step s e) es := rfl

theorem exec_append (s : S) (es fs : List E) :
    exec step s (es ++ fs) = exec step (exec step s es) fs := by
  simp only [exec, List.foldl_append]

@[simp] theorem along_nil (s : S) : Along P step s [] := trivial

@[simp] theorem along_cons (s : S) (e : E) (es : List E) :
    Along P step s (e :: es) ↔ P s e ∧ Along P step (step s e) es := Iff.rfl

theorem along_append (s : S) (es fs : List E) :
    Along P step s (es ++ fs) ↔ Along P step s es ∧ Along P step (exec step s es) fs := by
  induction es generalizing s with
  | nil => simp
  | cons e es ih => simp only [List.cons_append, along_cons, exec_cons, ih, and_assoc]

variable {s : S}

theorem Along.at_last {es fs : List E} {e : E}
    (h : Along P step s (es ++ e :: fs)) : P (exec step s es) e :=
  ((along_append s es (e :: fs)).1 h).2.1

variable {es : List E}

theorem Along.invariant (hstep : ∀ s e, I s → P s e → I (step s e)) (hInv : I s)
    (h : Along P step s es) : I (exec step s es) := by
  induction es generalizing s with
  | nil => exact hInv
  | cons e es ih => exact ih (hstep s e hInv h.1) h.2

theorem exec_invariant (hstep : ∀ s e, I s → I (step s e)) (hInv : I s) (es : List E) :
    I (exec step s es) := by
  induction es generalizing s with
  | nil => exact hInv
  | cons e es ih => exact ih (hstep s e hInv)

/-- Two systems that agree wherever the run goes. -/
theorem Along.exec_eq {step' : S → E → S} (h : Along P step s es)
    (hsame : ∀ s e, P s e → step s e = step' s e) : exec step s es = exec step' s es := by
  induction es generalizing s with
  | nil => rfl
  | cons e es ih =>
    rw [exec_cons, exec_cons, ih h.2, hsame s e h.1]

theorem Along.mono_of_invariant (hstep : ∀ s e, I s → P s e → I (step s e))
    (himp : ∀ s e, I s → P s e → Q s e)
    (hInv : I s) (h : Along P step s es) : Along Q step s es := by
  induction es generalizing s with
  | nil => trivial
  | cons e es ih => exact ⟨himp s e hInv h.1, ih (hstep s e hInv h.1) h.2⟩

theorem along_of_invariant (hstep : ∀ s e, I s → I (step s e)) (himp : ∀ s e, I s → Q s e)
    (hInv : I s) (es : List E) : Along Q step s es := by
  induction es generalizing s with
  | nil => trivial
  | cons e es ih => exact ⟨himp s e hInv, ih (hstep s e hInv)⟩

theorem Along.mono (himp : ∀ s e, P s e → Q s e) (h : Along P step s es) : Along Q step s es :=
  Along.mono_of_invariant (I := fun _ => True) (fun _ _ _ _ => trivial)
    (fun s e _ => himp s e) trivial h

theorem along_iff_of_invariant (hstep : ∀ s e, I s → P s e → I (step s e))
    (hiff : ∀ s e, I s → (P s e ↔ Q s e))
    (hInv : I s) (es : List E) : Along P step s es ↔ Along Q step s es := by
  induction es generalizing s with
  | nil => simp
  | cons e es ih =>
    simp only [along_cons, ← hiff s e hInv]
    refine and_congr_right fun hP => ?_
    exact ih (hstep s e hInv hP)

end Runs
