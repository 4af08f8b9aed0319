import Mathlib.Logic.Function.Basic

/-!
# Chains of singly linked cells

A slot is a place where a pointer to a cell is kept: the root of a chain, or a cell, whose slot
points at the cell behind it. A chain is what the pointers lead over from a slot to the end; a
chain that ends does not come back to where it began (`Chain.ne_link`).

What walks over the slots of a chain stands at `last` of the cells it has passed, and can put a cell
in there with two writes, before the first cell as well as behind the last.
-/

namespace LinkedChain

open Function (update update_self update_of_ne)

inductive Slot (α : Type*)
  | root
  | link (a : α)
  deriving DecidableEq

variable {α : Type*} {links links' : Slot α → Option α} {s s' : Slot α} {a : α} {xs ys : List α}

/-- The root is a place of its own: writing it changes no link. -/
theorem root_ne_link (a : α) : Slot.root ≠ Slot.link a := by
  intro h
  cases h

/-- The pointers lead from the slot over `xs`, and there they end. -/
def Chain (links : Slot α → Option α) : Slot α → List α → Prop
  | s, [] => links s = none
  | s, x :: xs => links s = some x ∧ Chain links (.link x) xs

/-- The slot behind the last cell of `xs`. -/
def last : Slot α → List α → Slot α
  | s, [] => s
  | _, x :: xs => last (.link x) xs

/-- The last place after two stretches is the last after the second, begun where the first ends. -/
theorem last_append : last s (xs ++ ys) = last (last s xs) ys := by
  induction xs generalizing s with
  | nil => rfl
  | cons x xs ih => exact ih

/-- Behind a cell the slot is that of a cell. -/
theorem exists_last (x : α) (xs : List α) : ∃ y ∈ x :: xs, last (.link x) xs = .link y := by
  induction xs generalizing x with
  | nil => exact ⟨x, List.mem_cons_self, rfl⟩
  | cons x' xs ih =>
    obtain ⟨y, hy, hlast⟩ := ih x'
    exact ⟨y, List.mem_cons_of_mem x hy, hlast⟩

/-- The rest of a chain, from the slot where a walk stands. -/
theorem Chain.rest (h : Chain links s (xs ++ ys)) : Chain links (last s xs) ys := by
  induction xs generalizing s with
  | nil => exact h
  | cons x xs ih => exact ih h.2

/-- Where a walk stands there is the next cell, or the end. -/
theorem Chain.slot (h : Chain links s xs) : links s = xs.head? := by
  cases xs with
  | nil => exact h
  | cons x xs => exact h.1

/-- The links determine the chain from a place. -/
theorem Chain.unique (hx : Chain links s xs) (hy : Chain links s ys) : xs = ys := by
  induction xs generalizing s ys with
  | nil =>
    cases ys with
    | nil => rfl
    | cons y ys => cases hx.symm.trans hy.1
  | cons x xs ih =>
    cases ys with
    | nil => cases hx.1.symm.trans hy
    | cons y ys =>
      obtain rfl := Option.some.inj (hx.1.symm.trans hy.1)
      rw [ih hx.2 hy.2]

/-- A chain does not come back to where it began. -/
theorem Chain.ne_link (h : Chain links s xs) : ∀ x ∈ xs, s ≠ .link x := by
  rintro x hx rfl
  obtain ⟨before, after, rfl⟩ := List.append_of_mem hx
  have hafter : Chain links (last (.link x) before) (x :: after) := h.rest
  have hlen := congrArg List.length (h.unique hafter.2)
  rw [List.length_append, List.length_cons] at hlen
  omega

/-- A chain whose first pointer is at another slot, with the others as they were. -/
theorem Chain.moved (h : Chain links s xs) (hs : links' s' = links s)
    (hother : ∀ x ∈ xs, links' (.link x) = links (.link x)) : Chain links' s' xs := by
  induction xs generalizing s s' with
  | nil => exact hs.trans h
  | cons x xs ih =>
    obtain ⟨hfirst, hrest⟩ := h
    obtain ⟨hx, hxs⟩ := List.forall_mem_cons.mp hother
    exact ⟨hs.trans hfirst, ih hrest hx hxs⟩

variable [DecidableEq α]

/-- A cell put in where a walk stands: the slot points at it, and it at what the slot pointed at. -/
theorem Chain.insert (h : Chain links s (xs ++ ys)) (hs : s ≠ .link a) (ha : a ∉ xs ++ ys) :
    Chain (update (update links (last s xs) (some a)) (.link a) (links (last s xs))) s
      (xs ++ a :: ys) := by
  induction xs generalizing s with
  | nil =>
    refine ⟨?_, Chain.moved h (update_self ..) ?_⟩
    · exact (update_of_ne hs _ _).trans (update_self ..)
    · intro y hy
      have hya : Slot.link y ≠ .link a := fun heq => ha (Slot.link.inj heq ▸ hy)
      rw [update_of_ne hya]
      exact update_of_ne (Chain.ne_link h y hy).symm _ _
  | cons x xs ih =>
    obtain ⟨y, hy, hlast⟩ := exists_last x xs
    have hx : Slot.link x ≠ .link a := fun heq => ha (Slot.link.inj heq ▸ List.mem_cons_self)
    have hne : s ≠ last (.link x) xs := by
      rw [hlast]
      exact Chain.ne_link h y (List.mem_append_left ys hy)
    refine ⟨?_, ih h.2 hx fun hmem => ha (List.mem_cons_of_mem x hmem)⟩
    rw [update_of_ne hs]
    exact (update_of_ne hne _ _).trans h.1

/-- The first cell taken out: its slot points at what the cell pointed at. -/
theorem Chain.tail {x : α} (h : Chain links s (x :: xs)) :
    Chain (update links s (links (.link x))) s xs := by
  refine h.2.moved (update_self ..) ?_
  intro y hy
  exact update_of_ne (h.ne_link y (List.mem_cons_of_mem x hy)).symm _ _

end LinkedChain
