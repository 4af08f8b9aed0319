import Mathlib.Data.List.Nodup
import Mathlib.Logic.Function.Basic

/-!
# Rings of doubly linked cells

A ring is a cell, its head, and the cells behind it in `next` order; the last cell is followed by
the head, and every link is repeated by `prev` the other way round. The head stands for both ends,
so an empty ring is a head linked to itself. The links are two partial functions on addresses, so
the rules do not depend on how a cell is laid out.

`Segment` is a stretch of a ring between two cells. What puts a cell in between two neighbours is
`Inserted`, and what takes one out is `Unlinked`: four links and two links, whether the neighbours
are cells, the head, or one and the same.
-/

namespace LinkedRing

open Function (update update_self update_of_ne)

variable {α : Type*} {next prev next' prev' : α → Option α}

/-- `b` follows `a`, read in both directions. -/
def Link (next prev : α → Option α) (a b : α) : Prop := next a = some b ∧ prev b = some a

/-- The links lead from `a` over `xs` to `b`. -/
def Segment (next prev : α → Option α) : α → List α → α → Prop
  | a, [], b => Link next prev a b
  | a, x :: xs, b => Link next prev a x ∧ Segment next prev x xs b

/-- One link followed alone leads from `a` over `xs` to `b`. -/
def Path (next : α → Option α) : α → List α → α → Prop
  | a, [], b => next a = some b
  | a, x :: xs, b => next a = some x ∧ Path next x xs b

/-- The cells `xs` form a ring with their head, none of them twice. -/
structure IsRing (next prev : α → Option α) (head : α) (xs : List α) : Prop where
  segment : Segment next prev head xs head
  nodup : (head :: xs).Nodup

/-- A path through a node is one up to it and one from it on. -/
theorem path_append_cons {a b x : α} {xs ys : List α} :
    Path next a (xs ++ x :: ys) b ↔ Path next a xs x ∧ Path next x ys b := by
  induction xs generalizing a with
  | nil => exact Iff.rfl
  | cons y xs ih =>
    rw [List.cons_append]
    exact (and_congr_right fun _ => ih).trans and_assoc.symm

/-- A segment is its path forth and its path back. -/
theorem segment_iff_paths {a b : α} {xs : List α} :
    Segment next prev a xs b ↔ Path next a xs b ∧ Path prev b xs.reverse a := by
  induction xs generalizing a with
  | nil => exact Iff.rfl
  | cons x xs ih =>
    rw [List.reverse_cons, path_append_cons]
    refine (and_congr_right fun _ => ih).trans ?_
    exact ⟨fun ⟨⟨hn, hp⟩, hns, hps⟩ => ⟨⟨hn, hns⟩, hps, hp⟩,
      fun ⟨⟨hn, hns⟩, hps, hp⟩ => ⟨⟨hn, hp⟩, hns, hps⟩⟩

/-- A segment through a node is one up to it and one from it on, so that a ring can be cut and put
together at a node. -/
theorem segment_append_cons {a b x : α} {xs ys : List α} :
    Segment next prev a (xs ++ x :: ys) b ↔
      Segment next prev a xs x ∧ Segment next prev x ys b := by
  have hrev : (xs ++ x :: ys).reverse = ys.reverse ++ x :: xs.reverse := by simp
  rw [segment_iff_paths, segment_iff_paths, segment_iff_paths, hrev, path_append_cons,
    path_append_cons]
  exact ⟨fun ⟨⟨hxs, hys⟩, hysr, hxsr⟩ => ⟨⟨hxs, hxsr⟩, hys, hysr⟩,
    fun ⟨⟨hxs, hxsr⟩, hys, hysr⟩ => ⟨⟨hxs, hys⟩, hysr, hxsr⟩⟩

/-- A path depends on the links of the cells it leaves. -/
theorem Path.congr {a b : α} {xs : List α} (h : Path next a xs b)
    (hnext : ∀ c ∈ a :: xs, next' c = next c) : Path next' a xs b := by
  induction xs generalizing a with
  | nil => exact (hnext a List.mem_cons_self).trans h
  | cons x xs ih =>
    obtain ⟨hax, hpath⟩ := h
    obtain ⟨ha, hxs⟩ := List.forall_mem_cons.mp hnext
    exact ⟨ha.trans hax, ih hpath hxs⟩

/-- A path that meets its end at the end only is the only one. -/
theorem Path.unique {a b : α} {xs ys : List α} (hx : Path next a xs b) (hy : Path next a ys b)
    (hbx : b ∉ xs) (hby : b ∉ ys) : xs = ys := by
  induction xs generalizing a ys with
  | nil =>
    cases ys with
    | nil => rfl
    | cons y ys =>
      obtain rfl := Option.some.inj (hx.symm.trans hy.1)
      exact absurd List.mem_cons_self hby
  | cons x xs ih =>
    cases ys with
    | nil =>
      obtain rfl := Option.some.inj (hx.1.symm.trans hy)
      exact absurd List.mem_cons_self hbx
    | cons y ys =>
      obtain rfl := Option.some.inj (hx.1.symm.trans hy.1)
      rw [ih hx.2 hy.2 (not_or.mp (List.mem_cons.not.mp hbx)).2
        (not_or.mp (List.mem_cons.not.mp hby)).2]

/-- The cell behind the start of a path. -/
theorem Path.next_start {a b : α} {xs : List α} (h : Path next a xs b) :
    next a = some (xs.headD b) := by
  cases xs with
  | nil => exact h
  | cons x xs => exact h.1

/-- A segment depends on the links of its cells alone. -/
theorem Segment.congr {a b : α} {xs : List α} (h : Segment next prev a xs b)
    (hnext : ∀ c ∈ a :: xs, next' c = next c) (hprev : ∀ c ∈ xs ++ [b], prev' c = prev c) :
    Segment next' prev' a xs b := by
  induction xs generalizing a with
  | nil =>
    obtain ⟨hn, hp⟩ := h
    exact ⟨(hnext a List.mem_cons_self).trans hn, (hprev b List.mem_cons_self).trans hp⟩
  | cons x xs ih =>
    obtain ⟨⟨hn, hp⟩, hrest⟩ := h
    obtain ⟨hna, hns⟩ := List.forall_mem_cons.mp hnext
    rw [List.cons_append] at hprev
    obtain ⟨hpx, hps⟩ := List.forall_mem_cons.mp hprev
    exact ⟨⟨hna.trans hn, hpx.trans hp⟩, ih hrest hns hps⟩

/-- The cell before the end of a segment. -/
theorem Segment.prev_end {a b : α} {xs : List α} (h : Segment next prev a xs b) :
    prev b = some (xs.getLastD a) := by
  induction xs generalizing a with
  | nil => exact h.2
  | cons x xs ih =>
    rw [List.getLastD_cons]
    exact ih h.2

/-- The cell behind the start of a segment. -/
theorem Segment.next_start {a b : α} {xs : List α} (h : Segment next prev a xs b) :
    next a = some (xs.headD b) := by
  cases xs with
  | nil => exact h.1
  | cons x xs => exact h.1.1

/-- The successor at the start of a stretch, also when the stretch is empty. -/
theorem headD_mem (b : α) (xs : List α) : xs.headD b ∈ xs ++ [b] := by
  cases xs with
  | nil => exact List.mem_singleton_self b
  | cons x xs => exact List.mem_cons_self

/-! ## One cell more -/

/-- `x` was put between `p` and `b`. -/
structure Inserted (next prev next' prev' : α → Option α) (p x b : α) : Prop where
  next_new : next' x = some b
  prev_new : prev' x = some p
  next_before : next' p = some x
  prev_behind : prev' b = some x
  next_other : ∀ c, c ≠ x → c ≠ p → next' c = next c
  prev_other : ∀ c, c ≠ x → c ≠ b → prev' c = prev c

/-- The four writes that put a cell in. -/
theorem Inserted.of_update [DecidableEq α] {p x b : α} (hp : x ≠ p) (hb : x ≠ b) :
    Inserted next prev (update (update next x (some b)) p (some x))
      (update (update prev x (some p)) b (some x)) p x b where
  next_new := by rw [update_of_ne hp, update_self]
  prev_new := by rw [update_of_ne hb, update_self]
  next_before := update_self ..
  prev_behind := update_self ..
  next_other := by
    intro c hcx hcp
    rw [update_of_ne hcp, update_of_ne hcx]
  prev_other := by
    intro c hcx hcb
    rw [update_of_ne hcb, update_of_ne hcx]

/-- A cell put before the end of a segment. -/
theorem Segment.insert_end {a b x : α} {xs : List α} (h : Segment next prev a xs b)
    (hnodup : (a :: xs).Nodup) (hx : x ∉ a :: xs) (hb : b ∉ xs)
    (ins : Inserted next prev next' prev' (xs.getLastD a) x b) :
    Segment next' prev' a (xs ++ [x]) b := by
  induction xs generalizing a with
  | nil => exact ⟨⟨ins.next_before, ins.prev_new⟩, ins.next_new, ins.prev_behind⟩
  | cons y ys ih =>
    obtain ⟨⟨hn, hp⟩, hrest⟩ := h
    rw [List.getLastD_cons] at ins
    obtain ⟨hay, hnodup'⟩ := List.nodup_cons.mp hnodup
    obtain ⟨hxa, hxy⟩ := not_or.mp (List.mem_cons.not.mp hx)
    obtain ⟨hby, hbys⟩ := not_or.mp (List.mem_cons.not.mp hb)
    have hlast : a ≠ ys.getLastD y := fun heq => hay (heq ▸ List.getLastD_mem_cons)
    have hyx : y ≠ x := fun heq => hxy (heq ▸ List.mem_cons_self)
    refine ⟨⟨?_, ?_⟩, ih hrest hnodup' hxy hbys ins⟩
    · exact (ins.next_other a (Ne.symm hxa) hlast).trans hn
    · exact (ins.prev_other y hyx (Ne.symm hby)).trans hp

/-- A cell put into a ring, behind `pre` and before `post`. -/
theorem IsRing.insert {head x : α} {pre post : List α}
    (h : IsRing next prev head (pre ++ post)) (hx : x ∉ head :: (pre ++ post))
    (ins : Inserted next prev next' prev' (pre.getLastD head) x (post.headD head)) :
    IsRing next' prev' head (pre ++ x :: post) := by
  have hnodup := h.nodup
  refine ⟨?_, ?_⟩
  · cases post with
    | nil =>
      have hseg := h.segment
      rw [List.append_nil] at hseg hnodup hx
      exact hseg.insert_end hnodup hx (List.nodup_cons.mp hnodup).1 ins
    | cons b post =>
      obtain ⟨hpre, hpost⟩ := segment_append_cons.mp h.segment
      rw [← List.cons_append] at hnodup hx
      obtain ⟨hnodup₁, hnodup₂, hdisjoint⟩ := List.nodup_append'.mp hnodup
      have hx₁ : x ∉ head :: pre := fun hmem => hx (List.mem_append_left _ hmem)
      have hx₂ : x ∉ b :: post := fun hmem => hx (List.mem_append_right _ hmem)
      have hb : b ∉ head :: pre := fun hmem => hdisjoint hmem List.mem_cons_self
      rw [← List.singleton_append, ← List.append_assoc]
      refine segment_append_cons.mpr ⟨?_, ?_⟩
      · exact hpre.insert_end hnodup₁ hx₁ (fun hmem => hb (List.mem_cons_of_mem _ hmem)) ins
      · -- the cells from `b` on keep their links, but for what `b` has before it
        refine hpost.congr ?_ ?_
        · intro c hc
          refine ins.next_other c (fun heq => hx₂ (heq ▸ hc)) ?_
          exact fun heq => hdisjoint List.getLastD_mem_cons (heq ▸ hc)
        · intro c hc
          obtain ⟨hbpost, _⟩ := List.nodup_cons.mp hnodup₂
          rcases List.mem_append.mp hc with hc | hc
          · exact ins.prev_other c (fun heq => hx₂ (heq ▸ List.mem_cons_of_mem _ hc))
              (fun (heq : c = b) => hbpost (heq ▸ hc))
          · rw [List.mem_singleton.mp hc]
            exact ins.prev_other head (fun heq => hx₁ (heq ▸ List.mem_cons_self))
              (fun heq => hb (heq ▸ List.mem_cons_self))
  · have hperm : (head :: (pre ++ x :: post)).Perm (x :: head :: (pre ++ post)) :=
      (List.perm_middle.cons head).trans (List.Perm.swap x head _)
    exact hperm.nodup_iff.mpr (List.nodup_cons.mpr ⟨hx, hnodup⟩)

/-! ## One cell less -/

/-- `x` was taken out from between `p` and `b`. -/
structure Unlinked (next prev next' prev' : α → Option α) (p x b : α) : Prop where
  next_before : next' p = some b
  prev_behind : prev' b = some p
  next_other : ∀ c, c ≠ x → c ≠ p → next' c = next c
  prev_other : ∀ c, c ≠ x → c ≠ b → prev' c = prev c

/-- The two writes that take a cell out; its own links may be written as well. -/
theorem Unlinked.of_update [DecidableEq α] {p x b : α} (v w : Option α) (hp : x ≠ p) (hb : x ≠ b) :
    Unlinked next prev (update (update next p (some b)) x v)
      (update (update prev b (some p)) x w) p x b where
  next_before := by rw [update_of_ne hp.symm, update_self]
  prev_behind := by rw [update_of_ne hb.symm, update_self]
  next_other := by
    intro c hcx hcp
    rw [update_of_ne hcx, update_of_ne hcp]
  prev_other := by
    intro c hcx hcb
    rw [update_of_ne hcx, update_of_ne hcb]

/-- Two segments joined where the cell between them was. -/
theorem Segment.unlink {a b x : α} {xs ys : List α} (h₁ : Segment next prev a xs x)
    (h₂ : Segment next prev x ys b) (hnodup : (a :: (xs ++ x :: ys)).Nodup)
    (hb : b ∉ xs ++ x :: ys)
    (unl : Unlinked next prev next' prev' (xs.getLastD a) x (ys.headD b)) :
    Segment next' prev' a (xs ++ ys) b := by
  induction xs generalizing a with
  | nil =>
    rw [List.nil_append] at hnodup hb ⊢
    obtain ⟨hax, hnodup'⟩ := List.nodup_cons.mp hnodup
    obtain ⟨hxys, hnodup''⟩ := List.nodup_cons.mp hnodup'
    cases ys with
    | nil => exact ⟨unl.next_before, unl.prev_behind⟩
    | cons y ys =>
      refine ⟨⟨unl.next_before, unl.prev_behind⟩, h₂.2.congr ?_ ?_⟩
      · intro c hc
        exact unl.next_other c (fun heq => hxys (heq ▸ hc))
          (fun (heq : c = a) => hax (List.mem_cons_of_mem _ (heq ▸ hc)))
      · intro c hc
        rcases List.mem_append.mp hc with hc | hc
        · exact unl.prev_other c (fun heq => hxys (heq ▸ List.mem_cons_of_mem _ hc))
            (fun (heq : c = y) => (List.nodup_cons.mp hnodup'').1 (heq ▸ hc))
        · rw [List.mem_singleton.mp hc]
          exact unl.prev_other b (fun heq => hb (heq ▸ List.mem_cons_self))
            (fun heq => hb (heq ▸ List.mem_cons_of_mem _ List.mem_cons_self))
  | cons w ws ih =>
    obtain ⟨⟨hn, hp⟩, hrest⟩ := h₁
    rw [List.cons_append] at hnodup hb ⊢
    rw [List.getLastD_cons] at unl
    obtain ⟨haw, hnodup'⟩ := List.nodup_cons.mp hnodup
    obtain ⟨hbw, hbrest⟩ := not_or.mp (List.mem_cons.not.mp hb)
    obtain ⟨hw, _⟩ := List.nodup_cons.mp hnodup'
    refine ⟨⟨?_, ?_⟩, ih hrest hnodup' hbrest unl⟩
    · refine (unl.next_other a (fun heq => haw ?_) (fun heq => haw ?_)).trans hn
      · rw [heq]
        exact List.mem_cons_of_mem _ (List.mem_append_right _ List.mem_cons_self)
      · rw [heq, ← List.cons_append]
        exact List.mem_append_left _ List.getLastD_mem_cons
    · refine (unl.prev_other w (fun heq => hw ?_) (fun heq => ?_)).trans hp
      · rw [heq]
        exact List.mem_append_right _ List.mem_cons_self
      · rcases List.mem_append.mp (heq ▸ headD_mem b ys) with hmem | hmem
        · exact hw (List.mem_append_right _ (List.mem_cons_of_mem _ hmem))
        · exact hbw (List.mem_singleton.mp hmem).symm

/-- A cell taken out of a ring. -/
theorem IsRing.unlink {head x : α} {pre post : List α}
    (h : IsRing next prev head (pre ++ x :: post))
    (unl : Unlinked next prev next' prev' (pre.getLastD head) x (post.headD head)) :
    IsRing next' prev' head (pre ++ post) := by
  obtain ⟨hpre, hpost⟩ := segment_append_cons.mp h.segment
  refine ⟨?_, ?_⟩
  · exact hpre.unlink hpost h.nodup (List.nodup_cons.mp h.nodup).1 unl
  · have hsub : (head :: (pre ++ post)).Sublist (head :: (pre ++ x :: post)) :=
      (List.Sublist.append_left (List.sublist_cons_self x post) pre).cons_cons head
    exact h.nodup.sublist hsub

/-- The neighbours of a cell of a ring. -/
theorem IsRing.neighbours {head x : α} {pre post : List α}
    (h : IsRing next prev head (pre ++ x :: post)) :
    prev x = some (pre.getLastD head) ∧ next x = some (post.headD head) := by
  obtain ⟨hpre, hpost⟩ := segment_append_cons.mp h.segment
  exact ⟨hpre.prev_end, hpost.next_start⟩

/-- What stands before the cells from `post` on. -/
theorem IsRing.prev_headD {head : α} {pre post : List α}
    (h : IsRing next prev head (pre ++ post)) :
    prev (post.headD head) = some (pre.getLastD head) := by
  cases post with
  | nil =>
    have hseg := h.segment
    rw [List.append_nil] at hseg
    exact hseg.prev_end
  | cons b post => exact (segment_append_cons.mp h.segment).1.prev_end

/-- A ring depends on the links of its cells alone. -/
theorem IsRing.congr {head : α} {xs : List α} (h : IsRing next prev head xs)
    (hsame : ∀ c ∈ head :: xs, next' c = next c ∧ prev' c = prev c) :
    IsRing next' prev' head xs := by
  refine ⟨h.segment.congr (fun c hc => (hsame c hc).1) ?_, h.nodup⟩
  intro c hc
  rcases List.mem_append.mp hc with hc | hc
  · exact (hsame c (List.mem_cons_of_mem _ hc)).2
  · exact (hsame c (List.mem_singleton.mp hc ▸ List.mem_cons_self)).2

end LinkedRing
