import Mathlib

/-!
The year of a day of the proleptic Gregorian calendar, days being counted from 1970-01-01.
-/

namespace Civil

def yearStart (y : ℤ) : ℤ := 365 * (y - 1970) + (y - 1969) / 4 - (y - 1901) / 100 + (y - 1601) / 400

def year (day : ℤ) : ℤ :=
  let y := 400 * day / 146097 + 1970
  if day < yearStart y then y - 1 else if yearStart (y + 1) ≤ day then y + 1 else y

theorem yearStart_lt_succ (y : ℤ) : yearStart y < yearStart (y + 1) := by
  unfold yearStart
  omega

theorem yearStart_strictMono : StrictMono yearStart := by
  apply strictMono_int_of_lt_succ
  exact yearStart_lt_succ

theorem year_spec (day : ℤ) : yearStart (year day) ≤ day ∧ day < yearStart (year day + 1) := by
  have hlow : yearStart (400 * day / 146097 + 1970 - 1) ≤ day := by
    unfold yearStart
    omega
  have hhigh : day < yearStart (400 * day / 146097 + 1970 + 1 + 1) := by
    unfold yearStart
    omega
  unfold year
  dsimp only
  split_ifs with hbefore hafter
  · refine ⟨hlow, ?_⟩
    rwa [sub_add_cancel]
  · exact ⟨hafter, hhigh⟩
  · exact ⟨not_lt.1 hbefore, not_le.1 hafter⟩

theorem year_monotone : Monotone year := by
  intro a b hab
  by_contra hlt
  have hle : year b + 1 ≤ year a := by omega
  have hstart := yearStart_strictMono.monotone hle
  have ha := (year_spec a).1
  have hb := (year_spec b).2
  omega

end Civil
