import Mathlib.Data.List.Sort
import Mathlib.Data.List.Dedup

/-!
An append-only log of keyed values in which the last value of a key wins.

The log is the whole state: the current value of a key, the table of current
values and its sorted listing are all read off it.
-/

namespace Journal

universe u v

variable {κ : Type u} {ν : Type v} [DecidableEq κ] (key : ν → κ)

/-- The current value of `k`: the last entry written under it. -/
def current (log : List ν) (k : κ) : Option ν := log.reverse.find? (fun v => key v = k)

/-- The keys that have a current value, in the order `le` lists them. -/
def keys (le : κ → κ → Bool) (log : List ν) : List κ :=
  (log.map key).dedup.insertionSort (fun a b => le a b)

/-- The current value of every key, in the order `le` lists the keys. -/
def snapshot (le : κ → κ → Bool) (log : List ν) : List ν :=
  (keys key le log).filterMap (current key log)

variable {key}

theorem current_append (log : List ν) (v : ν) (k : κ) :
    current key (log ++ [v]) k = if key v = k then some v else current key log k := by
  by_cases h : key v = k <;> simp [current, h]

theorem current_append_self (log : List ν) (v : ν) : current key (log ++ [v]) (key v) = some v := by
  simp [current_append]

variable {v : ν}

theorem current_append_of_ne (log : List ν) {k : κ} (h : key v ≠ k) :
    current key (log ++ [v]) k = current key log k := by
  simp [current_append, h]

variable {log : List ν}

theorem key_of_current {k : κ} (h : current key log k = some v) : key v = k := by
  simpa using List.find?_some h

theorem mem_of_current {k : κ} (h : current key log k = some v) : v ∈ log := by
  simpa using List.mem_of_find?_eq_some h

variable (le : κ → κ → Bool)

theorem mem_keys (log : List ν) (k : κ) : k ∈ keys key le log ↔ ∃ v ∈ log, key v = k := by
  simp [keys]

theorem mem_snapshot (log : List ν) (v : ν) :
    v ∈ snapshot key le log ↔ current key log (key v) = some v := by
  simp only [snapshot, List.mem_filterMap]
  constructor
  · rintro ⟨k, -, hk⟩
    rwa [key_of_current hk]
  · intro h
    exact ⟨key v, (mem_keys le log _).2 ⟨v, mem_of_current h, rfl⟩, h⟩

theorem nodup_keys (log : List ν) : (keys key le log).Nodup :=
  (List.perm_insertionSort _ _).nodup_iff.2 (List.nodup_dedup _)

theorem nodup_snapshot (log : List ν) : ((snapshot key le log).map key).Nodup := by
  have hsub : ∀ ks : List κ, ((ks.filterMap (current key log)).map key).Sublist ks := by
    intro ks
    induction ks with
    | nil => simp
    | cons k ks ih =>
      cases h : current key log k with
      | none => simpa [List.filterMap_cons, h] using ih.trans (List.sublist_cons_self k ks)
      | some v =>
        have hk := key_of_current h
        simpa [List.filterMap_cons, h, hk] using ih
  exact (nodup_keys le log).sublist (hsub _)

theorem pairwise_snapshot {le : κ → κ → Bool} (htotal : ∀ a b, le a b = true ∨ le b a = true)
    (htrans : ∀ a b c, le a b = true → le b c = true → le a c = true) (log : List ν) :
    (snapshot key le log).Pairwise (fun v w => le (key v) (key w) = true) := by
  have : Std.Total (fun a b => le a b = true) := ⟨htotal⟩
  have : IsTrans κ (fun a b => le a b = true) := ⟨htrans⟩
  have hkeys : (keys key le log).Pairwise (fun a b => le a b = true) :=
    List.pairwise_insertionSort _ _
  refine hkeys.filterMap _ fun a b hab v hv w hw => ?_
  rwa [key_of_current hv, key_of_current hw]

section Rewrite

variable (f : ν → Option ν)

def rewrite (log : List ν) (vs : List ν) : List ν :=
  vs.foldl (fun log v => match f v with
    | none => log
    | some w => log ++ [w]) log

theorem rewrite_cons (log : List ν) (v : ν) (vs : List ν) :
    rewrite f log (v :: vs) = rewrite f (match f v with | none => log | some w => log ++ [w]) vs :=
  rfl

variable {f}

variable {vs : List ν}

theorem current_rewrite_of_notMem (hkey : ∀ v w, f v = some w → key w = key v) {k : κ}
    (hk : k ∉ vs.map key) (log : List ν) :
    current key (rewrite f log vs) k = current key log k := by
  induction vs generalizing log with
  | nil => rfl
  | cons v vs ih =>
    simp only [List.map_cons, List.mem_cons, not_or] at hk
    rw [rewrite_cons, ih hk.2]
    cases hv : f v with
    | none => rfl
    | some w => exact current_append_of_ne _ (by rw [hkey v w hv]; exact Ne.symm hk.1)

theorem current_rewrite_of_mem (hkey : ∀ v w, f v = some w → key w = key v)
    (hnd : (vs.map key).Nodup) {v : ν} (hv : v ∈ vs) (log : List ν) :
    current key (rewrite f log vs) (key v) = (f v).or (current key log (key v)) := by
  induction vs generalizing log with
  | nil => cases hv
  | cons x vs ih =>
    simp only [List.map_cons, List.nodup_cons] at hnd
    rw [rewrite_cons]
    rcases List.mem_cons.1 hv with rfl | hmem
    · rw [current_rewrite_of_notMem hkey hnd.1]
      cases hx : f v with
      | none => rfl
      | some w => simp [current_append, hkey v w hx]
    · rw [ih hnd.2 hmem]
      have hne : key x ≠ key v := fun h => hnd.1 (h ▸ List.mem_map_of_mem hmem)
      cases hx : f x with
      | none => rfl
      | some w => rw [current_append_of_ne _ (by rwa [hkey x w hx])]

end Rewrite

end Journal
