import Mathlib.Data.Vector.Basic

/-!
# Copying between arrays

An array is a vector: its length is its type, and every access to it is checked. `memcpy` copies
cell by cell and has no result once an access is outside one of the arrays, so that it has one is
the statement that all accesses are inside.
-/

namespace Memory

variable {α : Type*} {m n : Nat}

/-- Write one cell. -/
def store (dst : Vector α m) (i : Nat) (x : α) : Option (Vector α m) :=
  if h : i < m then some (dst.set i x h) else none

/-- Copy the first `size` cells of `src` to the beginning of `dst`. -/
def memcpy (dst : Vector α m) (src : Vector α n) : Nat → Option (Vector α m)
  | 0 => some dst
  | size + 1 => (memcpy dst src size).bind fun dst => src[size]?.bind (store dst size)

/-- A byte is stored exactly when its index is in the buffer. -/
theorem store_eq_some_iff {dst d : Vector α m} {i : Nat} {x : α} :
    store dst i x = some d ↔ ∃ h : i < m, dst.set i x h = d := by
  unfold store
  split
  next h => exact ⟨fun heq => ⟨h, Option.some.inj heq⟩, fun ⟨_, heq⟩ => congrArg some heq⟩
  next h => exact ⟨nofun, fun ⟨h', _⟩ => absurd h' h⟩

/-- One cell more is copied when there was room for the others and there is for it. -/
theorem memcpy_succ_eq_some_iff {dst d : Vector α m} {src : Vector α n} {size : Nat} :
    memcpy dst src (size + 1) = some d ↔
      ∃ e, memcpy dst src size = some e ∧ ∃ (hn : size < n) (hm : size < m),
        e.set size src[size] hm = d := by
  rw [memcpy, Option.bind_eq_some_iff]
  refine exists_congr fun e => and_congr_right fun _ => ?_
  by_cases hn : size < n
  · rw [Vector.getElem?_eq_getElem hn, Option.bind_some, store_eq_some_iff]
    exact ⟨fun h => ⟨hn, h⟩, fun ⟨_, h⟩ => h⟩
  · rw [Vector.getElem?_eq_none (Nat.le_of_not_lt hn), Option.bind_none]
    exact ⟨nofun, fun ⟨h, _⟩ => absurd h hn⟩

/-- Every access of a copy is inside its arrays exactly when its size is at most theirs. -/
theorem memcpy_isSome_iff (dst : Vector α m) (src : Vector α n) (size : Nat) :
    (memcpy dst src size).isSome ↔ size ≤ n ∧ size ≤ m := by
  induction size with
  | zero => exact ⟨fun _ => ⟨Nat.zero_le n, Nat.zero_le m⟩, fun _ => rfl⟩
  | succ size ih =>
    constructor
    · intro h
      obtain ⟨d, hd⟩ := Option.isSome_iff_exists.mp h
      obtain ⟨_, _, hn, hm, _⟩ := memcpy_succ_eq_some_iff.mp hd
      exact ⟨hn, hm⟩
    · intro h
      obtain ⟨e, he⟩ := Option.isSome_iff_exists.mp (ih.mpr ⟨by omega, by omega⟩)
      exact Option.isSome_iff_exists.mpr
        ⟨_, memcpy_succ_eq_some_iff.mpr ⟨e, he, by omega, by omega, rfl⟩⟩

/-- A copy changes the cells it writes and no others. -/
theorem memcpy_getElem? {dst d : Vector α m} {src : Vector α n} {size : Nat}
    (h : memcpy dst src size = some d) (i : Nat) :
    d[i]? = if i < size then src[i]? else dst[i]? := by
  induction size generalizing d with
  | zero => cases h; rfl
  | succ size ih =>
    obtain ⟨e, he, hn, hm, rfl⟩ := memcpy_succ_eq_some_iff.mp h
    rw [Vector.getElem?_set, ih he]
    by_cases hi : size = i
    · subst hi
      rw [if_pos rfl, if_pos (Nat.lt_succ_self _), Vector.getElem?_eq_getElem hn]
    · rw [if_neg hi]
      by_cases hlt : i < size
      · rw [if_pos hlt, if_pos (by omega)]
      · rw [if_neg hlt, if_neg (by omega)]

/-- What a copy wrote is what it read. -/
theorem take_of_memcpy {dst d : Vector α m} {src : Vector α n} {size : Nat}
    (h : memcpy dst src size = some d) : d.toList.take size = src.toList.take size := by
  apply List.ext_getElem?
  intro i
  by_cases hi : i < size
  · have hcell := memcpy_getElem? h i
    rw [if_pos hi] at hcell
    rw [List.getElem?_take_of_lt hi, List.getElem?_take_of_lt hi, Vector.getElem?_toList,
      Vector.getElem?_toList, hcell]
  · rw [List.getElem?_take_eq_none (Nat.le_of_not_lt hi),
      List.getElem?_take_eq_none (Nat.le_of_not_lt hi)]

end Memory
