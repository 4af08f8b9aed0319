import Mathlib.Data.List.Nodup
import Mathlib.Data.List.Perm.Basic
import Mathlib.Order.Lattice

/-!
# Sorted insertion that refuses a key it meets

`insertBy key new xs` walks `xs` until it meets the key of `new` (refused, `none`) or a larger
one (inserted before it). On a list whose keys strictly increase the refusal is exact: it
happens when the key is present and at no other time (`insertBy_eq_none_iff`).
-/

namespace SortedInsert

variable {α κ : Type*} [LinearOrder κ] {key : α → κ}

/-- Insert `new` before the first larger key, unless its own key is met first. -/
def insertBy (key : α → κ) (new : α) : List α → Option (List α)
  | [] => some [new]
  | iter :: rest =>
    if key iter = key new then none
    else if key new < key iter then some (new :: iter :: rest)
    else (insertBy key new rest).map (iter :: ·)

/-- Insertion looks at nothing but the keys. -/
theorem insertBy_map {β : Type*} (key : β → κ) (f : α → β) (new : α) (xs : List α) :
    insertBy key (f new) (xs.map f) = (insertBy (key ∘ f) new xs).map (List.map f) := by
  induction xs with
  | nil => rfl
  | cons iter rest ih =>
    rw [List.map_cons, insertBy, insertBy, ih]
    simp only [Function.comp_apply]
    split
    next => rfl
    next =>
      split
      next => rfl
      next => rw [Option.map_map, Option.map_map]; rfl

/-- Keys strictly increase along the list. -/
def Increasing (key : α → κ) (xs : List α) : Prop :=
  xs.Pairwise fun a b => key a < key b

instance (key : α → κ) (xs : List α) : Decidable (Increasing key xs) :=
  inferInstanceAs (Decidable (xs.Pairwise fun a b => key a < key b))

/-- The empty list is increasing. -/
@[simp] theorem increasing_nil : Increasing key ([] : List α) := List.Pairwise.nil

/-- An increasing list begins with the element of the least key. -/
theorem increasing_cons {a : α} {xs : List α} :
    Increasing key (a :: xs) ↔ (∀ x ∈ xs, key a < key x) ∧ Increasing key xs :=
  List.pairwise_cons

/-- Taking elements out of an increasing list leaves it increasing. -/
theorem Increasing.sublist {xs ys : List α} (h : Increasing key ys) (hs : xs.Sublist ys) :
    Increasing key xs :=
  List.Pairwise.sublist hs h

/-- No key occurs twice. -/
theorem Increasing.nodup_keys {xs : List α} (h : Increasing key xs) : (xs.map key).Nodup := by
  rw [List.Nodup, List.pairwise_map]
  exact List.Pairwise.imp (fun hlt => ne_of_lt hlt) h

/-- Keys that increase strictly do not repeat, so no element does. -/
theorem Increasing.nodup {xs : List α} (h : Increasing key xs) : xs.Nodup :=
  h.nodup_keys.of_map

/-- Two members with one key are one member. -/
theorem Increasing.eq_of_key {xs : List α} (h : Increasing key xs) {a b : α}
    (ha : a ∈ xs) (hb : b ∈ xs) (hk : key a = key b) : a = b :=
  List.inj_on_of_nodup_map h.nodup_keys ha hb hk

/-- A refused insertion means the key is there. -/
theorem mem_of_insertBy_eq_none {new : α} {xs : List α} (h : insertBy key new xs = none) :
    ∃ x ∈ xs, key x = key new := by
  induction xs with
  | nil => cases h
  | cons iter rest ih =>
    unfold insertBy at h
    split at h
    next heq => exact ⟨iter, List.mem_cons_self, heq⟩
    next =>
      split at h
      next => cases h
      next =>
        obtain ⟨x, hx, hk⟩ := ih (Option.map_eq_none_iff.mp h)
        exact ⟨x, List.mem_cons_of_mem _ hx, hk⟩

/-- On increasing keys the walk meets every key up to the one it looks for, so it refuses
exactly the keys that are present. -/
theorem insertBy_eq_none_iff {new : α} {xs : List α} (h : Increasing key xs) :
    insertBy key new xs = none ↔ ∃ x ∈ xs, key x = key new := by
  refine ⟨mem_of_insertBy_eq_none, ?_⟩
  rintro ⟨x, hx, hk⟩
  induction xs with
  | nil => cases hx
  | cons iter rest ih =>
    obtain ⟨hlt, hrest⟩ := increasing_cons.mp h
    unfold insertBy
    rcases List.mem_cons.mp hx with rfl | hx
    · rw [if_pos hk]
    · have hi : key iter < key new := hk ▸ hlt x hx
      rw [if_neg (ne_of_lt hi), if_neg (not_lt_of_gt hi), ih hrest hx, Option.map_none]

/-- An insertion adds the new element and nothing else. -/
theorem insertBy_perm {new : α} {xs ys : List α} (h : insertBy key new xs = some ys) :
    ys.Perm (new :: xs) := by
  induction xs generalizing ys with
  | nil => cases h; exact .refl _
  | cons iter rest ih =>
    unfold insertBy at h
    split at h
    next => cases h
    next =>
      split at h
      next => cases h; exact .refl _
      next =>
        obtain ⟨zs, hzs, rfl⟩ := Option.map_eq_some_iff.mp h
        exact ((ih hzs).cons iter).trans (.swap new iter rest)

/-- An insertion keeps the keys increasing. -/
theorem insertBy_increasing {new : α} {xs ys : List α} (h : Increasing key xs)
    (hins : insertBy key new xs = some ys) : Increasing key ys := by
  induction xs generalizing ys with
  | nil => cases hins; exact List.pairwise_singleton _ _
  | cons iter rest ih =>
    obtain ⟨hlt, hrest⟩ := increasing_cons.mp h
    unfold insertBy at hins
    split at hins
    next => cases hins
    next hne =>
      split at hins
      next hlt' =>
        cases hins
        refine increasing_cons.mpr ⟨?_, h⟩
        intro x hx
        rcases List.mem_cons.mp hx with rfl | hx
        · exact hlt'
        · exact lt_trans hlt' (hlt x hx)
      next hge =>
        obtain ⟨zs, hzs, rfl⟩ := Option.map_eq_some_iff.mp hins
        refine increasing_cons.mpr ⟨?_, ih hrest hzs⟩
        intro x hx
        rcases List.mem_cons.mp ((insertBy_perm hzs).mem_iff.mp hx) with rfl | hx
        · exact lt_of_le_of_ne (not_lt.mp hge) hne
        · exact hlt x hx

/-- A key above all others goes to the end, whatever the order of the others. -/
theorem insertBy_last {new : α} {xs : List α} (h : ∀ x ∈ xs, key x < key new) :
    insertBy key new xs = some (xs ++ [new]) := by
  induction xs with
  | nil => rfl
  | cons iter rest ih =>
    have hi := h iter List.mem_cons_self
    rw [insertBy, if_neg (ne_of_lt hi), if_neg (not_lt_of_gt hi),
      ih fun x hx => h x (List.mem_cons_of_mem _ hx)]
    rfl

/-- Increasing lists with the same members are the same list. -/
theorem Increasing.ext {xs ys : List α} (hx : Increasing key xs) (hy : Increasing key ys)
    (h : ∀ a, a ∈ xs ↔ a ∈ ys) : xs = ys :=
  ((List.perm_ext_iff_of_nodup hx.nodup hy.nodup).mpr h).eq_of_pairwise
    (fun _ _ _ _ hab hba => absurd hba (not_lt_of_gt hab)) hx hy

end SortedInsert
