import Mathlib.Data.List.Forall2
import Mathlib.Data.List.Induction
import Mathlib.Data.Set.Function

/-!
Hash chains: every record carries the hash of the record before it and a digest of
its own bytes, and the bytes say which hash came before.

Where the digest does not collide, the last hash of a chain settles the bytes of
every record in it.
-/

namespace HashChain

universe u v w

/-- How a record is chained: its position, the hash before it, its own hash, and the
bytes that are digested. -/
structure Scheme (R : Type u) (B : Type v) (H : Type w) where
  position : R → ℤ
  previous : R → H
  hash : R → H
  bytes : R → B
  digest : B → H
  position_bytes : ∀ r s, bytes r = bytes s → position r = position s
  previous_bytes : ∀ r s, bytes r = bytes s → previous r = previous s

namespace Scheme

variable {R : Type u} {B : Type v} {H : Type w} (c : Scheme R B H) {genesis : H}

/-- The records stand from position `i` on, after the hash `h`. -/
def Linked : ℕ → H → List R → Prop
  | _, _, [] => True
  | i, h, r :: rest =>
    c.position r = i ∧ c.previous r = h ∧ c.digest (c.bytes r) = c.hash r ∧
      Linked (i + 1) (c.hash r) rest

/-- The hash of the last record, and `h` where there is none. -/
def lastHash (h : H) (rows : List R) : H := (rows.getLast?.map c.hash).getD h

@[simp] theorem lastHash_nil (h : H) : c.lastHash h [] = h := rfl

@[simp] theorem lastHash_snoc (h : H) (rows : List R) (r : R) : c.lastHash h (rows ++ [r]) =
    c.hash r := by
  unfold lastHash
  rw [List.getLast?_append, List.getLast?_singleton]
  rfl

theorem lastHash_cons (h : H) (r : R) (rows : List R) :
    c.lastHash h (r :: rows) = c.lastHash (c.hash r) rows := by
  induction rows using List.reverseRecOn with
  | nil => rfl
  | append_singleton rows s => rw [← List.cons_append, lastHash_snoc, lastHash_snoc]

theorem linked_snoc {rows : List R} {r : R} {i : ℕ} {h : H} : c.Linked i h (rows ++ [r]) ↔
      c.Linked i h rows ∧ c.position r = (i + rows.length : ℕ) ∧
        c.previous r = c.lastHash h rows ∧ c.digest (c.bytes r) = c.hash r := by
  induction rows generalizing i h with
  | nil =>
    simp only [List.nil_append, Linked, and_true, true_and, lastHash_nil, List.length_nil,
      Nat.add_zero]
  | cons s rows ih =>
    rw [List.cons_append, Linked, ih, Linked, lastHash_cons, List.length_cons, Nat.add_right_comm,
      Nat.add_assoc i]
    constructor
    · rintro ⟨h1, h2, h3, h4, h5⟩
      exact ⟨⟨h1, h2, h3, h4⟩, h5⟩
    · rintro ⟨⟨h1, h2, h3, h4⟩, h5⟩
      exact ⟨h1, h2, h3, h4, h5⟩

theorem linked_append {rows more : List R} {i : ℕ} {h : H} : c.Linked i h (rows ++ more) ↔
      c.Linked i h rows ∧ c.Linked (i + rows.length) (c.lastHash h rows) more := by
  induction rows generalizing i h with
  | nil => simp only [List.nil_append, Linked, true_and, List.length_nil, Nat.add_zero,
      lastHash_nil]
  | cons r rows ih =>
    rw [List.cons_append, Linked, Linked, ih, lastHash_cons, List.length_cons,
      Nat.add_right_comm i, Nat.add_assoc i]
    simp only [and_assoc]

def Collisionless (rows rows' : List R) : Prop :=
  Set.InjOn c.digest {b | ∃ r ∈ rows ++ rows', c.bytes r = b}

variable {c}

theorem Collisionless.bytes_eq {rows rows' : List R} (h : c.Collisionless rows rows') {r s : R}
    (hr : r ∈ rows) (hs : s ∈ rows') (heq : c.digest (c.bytes r) = c.digest (c.bytes s)) :
    c.bytes r = c.bytes s :=
  h ⟨r, List.mem_append_left _ hr, rfl⟩ ⟨s, List.mem_append_right _ hs, rfl⟩ heq

theorem Collisionless.mono {rows rows' more more' : List R}
    (h : c.Collisionless (rows ++ more) (rows' ++ more')) : c.Collisionless rows rows' := by
  refine Set.InjOn.mono ?_ h
  rintro b ⟨r, hr, rfl⟩
  refine ⟨r, ?_, rfl⟩
  rcases List.mem_append.1 hr with hr | hr
  · exact List.mem_append_left _ (List.mem_append_left _ hr)
  · exact List.mem_append_right _ (List.mem_append_left _ hr)

variable {rows rows' : List R} {i : ℕ} {h : H}

theorem same_of_lastHash (hinj : c.Collisionless rows rows') (hrows : c.Linked i h rows)
    (hrows' : c.Linked i h rows') (hlen : rows.length = rows'.length)
    (hlast : c.lastHash h rows = c.lastHash h rows') :
    List.Forall₂ (fun r s => c.bytes r = c.bytes s ∧ c.hash r = c.hash s) rows rows' := by
  induction rows using List.reverseRecOn generalizing rows' with
  | nil =>
    obtain rfl := List.length_eq_zero_iff.1 hlen.symm
    exact .nil
  | append_singleton rows r ih =>
    rcases List.eq_nil_or_concat rows' with rfl | ⟨rows', s, rfl⟩
    · rw [List.length_append] at hlen
      cases hlen
    · rw [List.concat_eq_append] at hlen hrows' hlast hinj ⊢
      rw [lastHash_snoc, lastHash_snoc] at hlast
      obtain ⟨hrows, -, hprev, hdigest⟩ := c.linked_snoc.1 hrows
      obtain ⟨hrows', -, hprev', hdigest'⟩ := c.linked_snoc.1 hrows'
      have hbytes : c.bytes r = c.bytes s :=
        hinj.bytes_eq (List.mem_append_right _ List.mem_cons_self)
          (List.mem_append_right _ List.mem_cons_self)
          (hdigest.trans (hlast.trans hdigest'.symm))
      have hbefore : c.lastHash h rows = c.lastHash h rows' :=
        hprev.symm.trans ((c.previous_bytes r s hbytes).trans hprev')
      have hshort : rows.length = rows'.length := by
        simpa only [List.length_append, List.length_singleton, Nat.add_right_cancel_iff] using hlen
      exact List.rel_append (ih hinj.mono hrows hrows' hshort hbefore)
        (.cons ⟨hbytes, hlast⟩ .nil)

theorem length_eq_of_lastHash (hinj : c.Collisionless rows rows') (hrows : c.Linked i h rows)
    (hrows' : c.Linked i h rows') (hlen : rows.length = rows'.length ∨ rows ≠ [] ∧ rows' ≠ [])
    (hlast : c.lastHash h rows = c.lastHash h rows') : rows.length = rows'.length := by
  rcases hlen with hlen | ⟨hne, hne'⟩
  · exact hlen
  obtain ⟨init, r, rfl⟩ := (List.eq_nil_or_concat' rows).resolve_left hne
  obtain ⟨init', s, rfl⟩ := (List.eq_nil_or_concat' rows').resolve_left hne'
  rw [lastHash_snoc, lastHash_snoc] at hlast
  obtain ⟨-, hpos, -, hdigest⟩ := c.linked_snoc.1 hrows
  obtain ⟨-, hpos', -, hdigest'⟩ := c.linked_snoc.1 hrows'
  have hbytes : c.bytes r = c.bytes s :=
    hinj.bytes_eq (List.mem_append_right _ List.mem_cons_self)
      (List.mem_append_right _ List.mem_cons_self) (hdigest.trans (hlast.trans hdigest'.symm))
  have hposition := c.position_bytes r s hbytes
  rw [List.length_append, List.length_append, List.length_singleton, List.length_singleton]
  omega

end Scheme

end HashChain
