import Mathlib.Data.List.Basic
import Mathlib.Data.List.Induction
import Mathlib.Order.Lattice

/-!
Finite maps as strictly sorted lists of entries.

The order is part of the type, so two maps that answer every lookup alike are
equal, and the entries are already the listing in key order.
-/

universe u v w

/-- A finite map from `κ` to `ν`, its entries in increasing key order. -/
structure Dict (κ : Type u) (ν : Type v) [LinearOrder κ] where
  entries : List (κ × ν)
  sorted : entries.Pairwise (fun a b => a.1 < b.1)

namespace Dict

variable {κ : Type u} {ν : Type v} {μ : Type w} [LinearOrder κ]

instance [DecidableEq ν] : DecidableEq (Dict κ ν) := fun a b =>
  decidable_of_iff (a.entries = b.entries)
    ⟨fun h => by cases a; cases b; simp_all, fun h => by rw [h]⟩

def empty : Dict κ ν := ⟨[], List.Pairwise.nil⟩

def lookup (k : κ) : List (κ × ν) → Option ν
  | [] => none
  | (a, v) :: rest => if a = k then some v else lookup k rest

def insertEntry (k : κ) (v : ν) : List (κ × ν) → List (κ × ν)
  | [] => [(k, v)]
  | (a, x) :: rest =>
    if k < a then (k, v) :: (a, x) :: rest
    else if k = a then (k, v) :: rest
    else (a, x) :: insertEntry k v rest

variable {xs : List (κ × ν)} {k : κ} {v : ν} {e : κ × ν}

theorem mem_insertEntry (h : e ∈ insertEntry k v xs) : e = (k, v) ∨ e ∈ xs := by
  induction xs with
  | nil => simpa [insertEntry] using h
  | cons x xs ih =>
    obtain ⟨a, y⟩ := x
    simp only [insertEntry] at h
    split_ifs at h with h1 h2
    · simpa using h
    · rcases List.mem_cons.1 h with h | h
      · exact .inl h
      · exact .inr (List.mem_cons_of_mem _ h)
    · rcases List.mem_cons.1 h with h | h
      · exact .inr (by simp [h])
      · exact (ih h).imp_right (List.mem_cons_of_mem _)

theorem sorted_insertEntry (h : xs.Pairwise (fun a b => a.1 < b.1)) :
    (insertEntry k v xs).Pairwise (fun a b => a.1 < b.1) := by
  induction xs with
  | nil => simp [insertEntry]
  | cons x xs ih =>
    obtain ⟨a, y⟩ := x
    obtain ⟨hx, hxs⟩ := List.pairwise_cons.1 h
    simp only [insertEntry]
    split_ifs with h1 h2
    · refine List.pairwise_cons.2 ⟨fun e he => ?_, h⟩
      rcases List.mem_cons.1 he with rfl | he
      · exact h1
      · exact lt_trans h1 (hx e he)
    · exact List.pairwise_cons.2 ⟨fun e he => h2 ▸ hx e he, hxs⟩
    · refine List.pairwise_cons.2 ⟨fun e he => ?_, ih hxs⟩
      rcases mem_insertEntry he with rfl | he
      · exact lt_of_le_of_ne (not_lt.1 h1) (Ne.symm h2)
      · exact hx e he

theorem lookup_insertEntry (k k' : κ) (v : ν) (xs : List (κ × ν)) :
    lookup k' (insertEntry k v xs) = if k = k' then some v else lookup k' xs := by
  induction xs with
  | nil => simp [insertEntry, lookup]
  | cons x xs ih =>
    obtain ⟨a, y⟩ := x
    simp only [insertEntry]
    split_ifs with h1 h2 h3 h4
    · simp [lookup, h2]
    · simp [lookup, h2]
    · simp [lookup, h4]
    · rw [lookup, if_neg h4, lookup, if_neg (h3 ▸ h4)]
    · rename_i h5
      rw [lookup, if_neg (fun h => h3 (h5.trans h.symm)), ih, if_pos h5]
    · rename_i h5
      rw [lookup, ih, if_neg h5]
      rfl

theorem lookup_eq_none_of_lt (h : ∀ e ∈ xs, k < e.1) : lookup k xs = none := by
  induction xs with
  | nil => rfl
  | cons x xs ih =>
    rw [lookup, if_neg (ne_of_gt (h x (by simp)))]
    exact ih fun e he => h e (List.mem_cons_of_mem _ he)

theorem mem_of_lookup (h : lookup k xs = some v) : (k, v) ∈ xs := by
  induction xs with
  | nil => cases h
  | cons x xs ih =>
    obtain ⟨a, y⟩ := x
    rw [lookup] at h
    split_ifs at h with ha
    · simp_all
    · exact List.mem_cons_of_mem _ (ih h)

theorem lookup_of_mem (hs : xs.Pairwise (fun a b => a.1 < b.1))
    (h : (k, v) ∈ xs) : lookup k xs = some v := by
  induction xs with
  | nil => cases h
  | cons x xs ih =>
    obtain ⟨a, y⟩ := x
    obtain ⟨hx, hxs⟩ := List.pairwise_cons.1 hs
    rcases List.mem_cons.1 h with h | h
    · simp only [Prod.mk.injEq] at h
      rw [lookup, if_pos h.1.symm, h.2]
    · rw [lookup, if_neg (ne_of_lt (hx _ h)), ih hxs h]

theorem lookup_append (k : κ) (xs ys : List (κ × ν)) :
    lookup k (xs ++ ys) = (lookup k xs).or (lookup k ys) := by
  induction xs with
  | nil => rfl
  | cons x xs ih =>
    rw [List.cons_append, lookup, lookup, ih]
    split_ifs <;> rfl

def get (d : Dict κ ν) (k : κ) : Option ν := lookup k d.entries

def set (d : Dict κ ν) (k : κ) (v : ν) : Dict κ ν :=
  ⟨insertEntry k v d.entries, sorted_insertEntry d.sorted⟩

def erase (d : Dict κ ν) (k : κ) : Dict κ ν :=
  ⟨d.entries.filter (fun e => e.1 ≠ k), d.sorted.filter _⟩

def keys (d : Dict κ ν) : List κ := d.entries.map Prod.fst

/-- The map with each value replaced by `f` of it. -/
def map (f : ν → μ) (d : Dict κ ν) : Dict κ μ :=
  ⟨d.entries.map (fun e => (e.1, f e.2)), List.pairwise_map.2 d.sorted⟩

def ofList (xs : List (κ × ν)) : Dict κ ν := xs.foldl (fun d e => d.set e.1 e.2) empty

@[simp] theorem get_empty (k : κ) : (empty : Dict κ ν).get k = none := rfl

variable (d : Dict κ ν)

theorem get_set (k k' : κ) (v : ν) : (d.set k v).get k' = if k = k' then some v else d.get k' :=
  lookup_insertEntry k k' v d.entries

@[simp] theorem get_set_self (k : κ) (v : ν) : (d.set k v).get k = some v := by
  rw [get_set, if_pos rfl]

theorem get_set_of_ne {k k' : κ} (v : ν) (h : k ≠ k') : (d.set k v).get k' = d.get k' := by
  rw [get_set, if_neg h]

theorem get_erase (k k' : κ) : (d.erase k).get k' = if k' = k then none else d.get k' := by
  simp only [get, erase]
  induction d.entries with
  | nil => simp [lookup]
  | cons x xs ih =>
    obtain ⟨a, y⟩ := x
    by_cases ha : a = k
    · rw [List.filter_cons_of_neg (by simp [ha]), ih, lookup]
      by_cases hk : k' = k
      · simp [hk]
      · rw [if_neg hk, if_neg hk, if_neg (fun h => hk (h.symm.trans ha))]
    · rw [List.filter_cons_of_pos (by simpa using ha), lookup, ih, lookup]
      by_cases hk : k' = k
      · rw [if_pos hk, if_neg (fun h => ha (h.trans hk)), if_pos hk]
      · rw [if_neg hk, if_neg hk]

@[simp] theorem get_erase_self (k : κ) : (d.erase k).get k = none := by
  rw [get_erase, if_pos rfl]

theorem get_erase_of_ne {k k' : κ} (h : k' ≠ k) : (d.erase k).get k' = d.get k' := by
  rw [get_erase, if_neg h]

theorem mem_entries {d : Dict κ ν} : (k, v) ∈ d.entries ↔ d.get k = some v :=
  ⟨lookup_of_mem d.sorted, mem_of_lookup⟩

theorem mem_keys {d : Dict κ ν} : k ∈ d.keys ↔ ∃ v, d.get k = some v := by
  simp only [keys, List.mem_map, Prod.exists, exists_and_right, exists_eq_right, mem_entries]

theorem insertEntry_above (h : ∀ e ∈ xs, e.1 < k) (v : ν) :
    insertEntry k v xs = xs ++ [(k, v)] := by
  induction xs with
  | nil => rfl
  | cons x xs ih =>
    have hx := h x List.mem_cons_self
    rw [insertEntry, if_neg (not_lt_of_gt hx), if_neg (ne_of_gt hx),
      ih fun e he => h e (List.mem_cons_of_mem _ he)]
    rfl

theorem insertEntry_last (h : ∀ e ∈ xs, e.1 < k) (v w : ν) :
    insertEntry k v (xs ++ [(k, w)]) = xs ++ [(k, v)] := by
  induction xs with
  | nil => rw [List.nil_append, insertEntry, if_neg (lt_irrefl k), if_pos rfl, List.nil_append]
  | cons x xs ih =>
    have hx := h x List.mem_cons_self
    rw [List.cons_append, insertEntry, if_neg (not_lt_of_gt hx), if_neg (ne_of_gt hx),
      ih fun e he => h e (List.mem_cons_of_mem _ he)]
    rfl

theorem entries_set_above {d : Dict κ ν} (h : ∀ e ∈ d.entries, e.1 < k) (v : ν) :
    (d.set k v).entries = d.entries ++ [(k, v)] :=
  insertEntry_above h v

theorem get_above {d : Dict κ ν} (h : ∀ e ∈ d.entries, e.1 < k) : d.get k = none := by
  cases hget : d.get k with
  | none => rfl
  | some v => exact absurd (h _ (mem_entries.2 hget)) (lt_irrefl k)

variable {front : List (κ × ν)}

theorem lt_last {d : Dict κ ν} (h : d.entries = front ++ [(k, v)]) : ∀ e ∈ front, e.1 < k := by
  intro e he
  have hsorted := d.sorted
  rw [h, List.pairwise_append] at hsorted
  exact hsorted.2.2 e he (k, v) (List.mem_singleton_self _)

theorem entries_set_last {d : Dict κ ν} {w : ν} (h : d.entries = front ++ [(k, w)])
    (v : ν) : (d.set k v).entries = front ++ [(k, v)] := by
  have hinsert := insertEntry_last (lt_last h) v w
  rw [← h] at hinsert
  exact hinsert

theorem get_last {d : Dict κ ν} (h : d.entries = front ++ [(k, v)]) : d.get k = some v :=
  mem_entries.1 (h ▸ List.mem_append_right _ (List.mem_singleton_self _))

theorem nodup_keys : (d.entries.map Prod.fst).Nodup :=
  List.pairwise_map.2 (d.sorted.imp fun h => ne_of_lt h)

variable (f : ν → μ)

theorem lookup_map (k : κ) (xs : List (κ × ν)) :
    lookup k (xs.map fun e => (e.1, f e.2)) = (lookup k xs).map f := by
  induction xs with
  | nil => rfl
  | cons x xs ih =>
    rw [List.map_cons, lookup, lookup, ih]
    split_ifs <;> rfl

@[simp] theorem get_map (d : Dict κ ν) (k : κ) : (d.map f).get k = (d.get k).map f :=
  lookup_map f k d.entries

theorem mem_of_get_ofList (h : (ofList xs).get k = some v) : (k, v) ∈ xs := by
  have hfold : ∀ (xs : List (κ × ν)) (d : Dict κ ν),
      (xs.foldl (fun d e => d.set e.1 e.2) d).get k = some v → d.get k = some v ∨ (k, v) ∈ xs := by
    intro xs
    induction xs with
    | nil =>
      intro d hd
      exact .inl hd
    | cons e xs ih =>
      intro d hd
      rcases ih (d.set e.1 e.2) hd with hd | hd
      · rw [get_set] at hd
        by_cases hk : e.1 = k
        · rw [if_pos hk] at hd
          obtain rfl := Option.some.inj hd
          exact .inr (by simp [← hk])
        · rw [if_neg hk] at hd
          exact .inl hd
      · exact .inr (List.mem_cons_of_mem _ hd)
  rcases hfold xs empty h with h | h
  · cases h
  · exact h

theorem ofList_snoc (xs : List (κ × ν)) (e : κ × ν) : ofList (xs ++ [e]) =
    (ofList xs).set e.1 e.2 := by
  unfold ofList
  rw [List.foldl_append]
  rfl

theorem ext_get {d d' : Dict κ ν} (h : ∀ k, d.get k = d'.get k) : d = d' := by
  obtain ⟨xs, hxs⟩ := d
  obtain ⟨ys, hys⟩ := d'
  suffices xs = ys by subst this; rfl
  simp only [get] at h
  induction xs generalizing ys with
  | nil =>
    cases ys with
    | nil => rfl
    | cons y ys => simpa [lookup] using h y.1
  | cons x xs ih =>
    cases ys with
    | nil => simpa [lookup] using h x.1
    | cons y ys =>
      obtain ⟨hx, hxs'⟩ := List.pairwise_cons.1 hxs
      obtain ⟨hy, hys'⟩ := List.pairwise_cons.1 hys
      have hkey : x.1 = y.1 := by
        rcases lt_trichotomy x.1 y.1 with hlt | heq | hgt
        · have hnone : lookup x.1 (y :: ys) = none :=
            lookup_eq_none_of_lt fun e he => by
              rcases List.mem_cons.1 he with rfl | he
              · exact hlt
              · exact lt_trans hlt (hy e he)
          rw [← h, lookup, if_pos rfl] at hnone
          cases hnone
        · exact heq
        · have hnone : lookup y.1 (x :: xs) = none :=
            lookup_eq_none_of_lt fun e he => by
              rcases List.mem_cons.1 he with rfl | he
              · exact hgt
              · exact lt_trans hgt (hx e he)
          rw [h, lookup, if_pos rfl] at hnone
          cases hnone
      have hval : x.2 = y.2 := by
        have := h x.1
        rw [lookup, if_pos rfl, lookup, if_pos hkey.symm] at this
        exact Option.some.inj this
      have hrest : xs = ys := by
        refine ih hxs' ys hys' fun k => ?_
        have hk := h k
        rw [lookup, lookup, hkey] at hk
        by_cases hky : y.1 = k
        · rw [lookup_eq_none_of_lt fun e he => hky ▸ hkey ▸ hx e he,
            lookup_eq_none_of_lt fun e he => hky ▸ hy e he]
        · rwa [if_neg hky, if_neg hky] at hk
      rw [Prod.ext hkey hval, hrest]

theorem set_map (d : Dict κ ν) (k : κ) (v : ν) : (d.map f).set k (f v) = (d.set k v).map f := by
  apply ext_get
  intro k'
  rw [get_map, get_set, get_set, get_map]
  split_ifs <;> rfl

theorem ofList_map (xs : List (κ × ν)) :
    ofList (xs.map fun e => (e.1, f e.2)) = (ofList xs).map f := by
  induction xs using List.reverseRecOn with
  | nil => rfl
  | append_singleton xs e ih =>
    rw [List.map_append, List.map_singleton, ofList_snoc, ofList_snoc, ih, set_map]

theorem get_ofList (h : (xs.map Prod.fst).Nodup) (k : κ) : (ofList xs).get k = lookup k xs := by
  induction xs using List.reverseRecOn with
  | nil => rfl
  | append_singleton xs e ih =>
    rw [List.map_append, List.map_singleton, List.nodup_append] at h
    obtain ⟨hxs, -, hdisjoint⟩ := h
    rw [ofList_snoc, get_set, ih hxs, lookup_append]
    by_cases hk : e.1 = k
    · have hnone : lookup k xs = none := by
        by_contra hsome
        obtain ⟨v, hv⟩ := Option.ne_none_iff_exists'.1 hsome
        have hmem : k ∈ xs.map Prod.fst := List.mem_map_of_mem (mem_of_lookup hv)
        exact hdisjoint k hmem e.1 (List.mem_singleton_self _) hk.symm
      rw [if_pos hk, hnone]
      simp [lookup, hk]
    · rw [if_neg hk]
      simp [lookup, hk]

theorem get_ofList_eq_getLast? (xs : List (κ × ν)) (k : κ) :
    (ofList xs).get k = (xs.filter fun e => e.1 = k).getLast?.map Prod.snd := by
  induction xs using List.reverseRecOn with
  | nil => rfl
  | append_singleton xs e ih =>
    rw [ofList_snoc, get_set, List.filter_append]
    by_cases hk : e.1 = k
    · rw [if_pos hk, List.filter_singleton, decide_eq_true hk]
      simp
    · rw [if_neg hk, List.filter_singleton, decide_eq_false hk, ih]
      simp

theorem ofList_congr {xs ys : List (κ × ν)}
    (h : ∀ k, (xs.filter fun e => e.1 = k) = ys.filter fun e => e.1 = k) : ofList xs =
      ofList ys := by
  apply ext_get
  intro k
  rw [get_ofList_eq_getLast?, get_ofList_eq_getLast?, h]

theorem mem_keys_ofList : k ∈ (ofList xs).keys ↔ k ∈ xs.map Prod.fst := by
  rw [mem_keys]
  constructor
  · rintro ⟨v, hv⟩
    exact List.mem_map_of_mem (mem_of_get_ofList hv)
  · intro hk
    obtain ⟨e, he, rfl⟩ := List.mem_map.1 hk
    rw [get_ofList_eq_getLast?]
    have hmem : e ∈ xs.filter fun d => d.1 = e.1 := List.mem_filter.2 ⟨he, decide_eq_true rfl⟩
    rw [List.getLast?_eq_some_getLast (List.ne_nil_of_mem hmem)]
    exact ⟨_, rfl⟩

theorem ofList_entries : ofList d.entries = d := ext_get fun k => get_ofList d.nodup_keys k

theorem lookup_of_mem_nodup (h : (xs.map Prod.fst).Nodup)
    (he : e ∈ xs) : lookup e.1 xs = some e.2 := by
  induction xs with
  | nil => cases he
  | cons x xs ih =>
    obtain ⟨hnot, hxs⟩ := List.nodup_cons.1 h
    rcases List.mem_cons.1 he with rfl | he
    · exact if_pos rfl
    · have hne : x.1 ≠ e.1 := by
        intro heq
        exact hnot (heq ▸ List.mem_map_of_mem he)
      exact (if_neg hne).trans (ih hxs he)

theorem mem_ofList (h : (xs.map Prod.fst).Nodup) : e ∈ (ofList xs).entries ↔ e ∈ xs := by
  obtain ⟨k, v⟩ := e
  rw [mem_entries, get_ofList h]
  constructor
  · exact mem_of_lookup
  · intro he
    exact lookup_of_mem_nodup h he

theorem ofList_eq_singleton (h : (xs.map Prod.fst).Nodup) :
    (ofList xs).entries = [e] ↔ xs = [e] := by
  constructor
  · intro heq
    have hall : ∀ d ∈ xs, d = e := by
      intro d hd
      have hmem := (mem_ofList h).2 hd
      rw [heq] at hmem
      exact List.mem_singleton.1 hmem
    have he : e ∈ xs := by
      rw [← mem_ofList h, heq]
      exact List.mem_singleton_self e
    cases xs with
    | nil => cases he
    | cons a rest =>
      cases rest with
      | nil => rw [hall a List.mem_cons_self]
      | cons b rest =>
        have ha := hall a List.mem_cons_self
        have hb := hall b (List.mem_cons_of_mem _ List.mem_cons_self)
        rw [ha, hb] at h
        simp at h
  · rintro rfl
    rfl

end Dict
