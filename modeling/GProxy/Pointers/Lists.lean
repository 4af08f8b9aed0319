import GProxy.Lib.LinkedRing
import GProxy.Pointers.Program

/-!
# What the functions do to a list in memory

A head is well formed for a sequence of addresses when `next` visits the sequence and comes back to
the head, `prev` visits it the other way round, every node's `head` is that head, and the head's
`length` is the length of the sequence.

A node goes into a list by one rewriting (`Mem.linked`), whether it is appended or put before a
larger number, and leaves it by another (`Mem.unlinked`). The functions are computed to these two,
and the two are shown once to keep a list well formed and every other node as it was.
-/

namespace GProxy.Pointers

open Function (update update_self update_of_ne)
open LinkedRing SortedInsert

variable {m m' : Mem} {head new a : Addr} {s pre post : List Addr}

/-- The list of `head` is the sequence `s`. -/
structure WellFormed (m : Mem) (head : Addr) (s : List Addr) : Prop where
  live : ∀ a ∈ head :: s, m.live a = true
  forward : Path m.next head s head
  backward : Path m.prev head s.reverse head
  nodup : (head :: s).Nodup
  head_eq : ∀ a ∈ s, m.head a = some head
  length_eq : m.length head = s.length

/-- The fields of the node at `a` are the same in both memories. -/
structure SameAt (m m' : Mem) (a : Addr) : Prop where
  live : m'.live a = m.live a
  packet : m'.packet a = m.packet a
  next : m'.next a = m.next a
  prev : m'.prev a = m.prev a
  head : m'.head a = m.head a
  length : m'.length a = m.length a
  pktSize : m'.pktSize a = m.pktSize a

/-- Following `next` from the head comes through the nodes in order and back to the head, and `prev`
is the same backwards. -/
theorem WellFormed.ring (h : WellFormed m head s) : IsRing m.next m.prev head s :=
  ⟨segment_iff_paths.mpr ⟨h.forward, h.backward⟩, h.nodup⟩

/-- What a list needs besides its ring: its cells are allocated, its nodes know their head, and the
length is counted. -/
theorem WellFormed.of_ring (h : IsRing m.next m.prev head s)
    (hlive : ∀ a ∈ head :: s, m.live a = true) (hhead : ∀ a ∈ s, m.head a = some head)
    (hlength : m.length head = s.length) : WellFormed m head s :=
  ⟨hlive, (segment_iff_paths.mp h.segment).1, (segment_iff_paths.mp h.segment).2, h.nodup, hhead,
    hlength⟩

/-- A list depends on its head and its nodes alone. -/
theorem WellFormed.congr (h : WellFormed m head s) (hsame : ∀ a ∈ head :: s, SameAt m m' a) :
    WellFormed m' head s := by
  refine .of_ring (h.ring.congr ?_) ?_ ?_ ?_
  · intro a ha
    exact ⟨(hsame a ha).next, (hsame a ha).prev⟩
  · intro a ha
    exact (hsame a ha).live.trans (h.live a ha)
  · intro a ha
    exact (hsame a (List.mem_cons_of_mem _ ha)).head.trans (h.head_eq a ha)
  · exact (hsame head List.mem_cons_self).length.trans h.length_eq

/-- The head of a list can be read and written. -/
theorem WellFormed.live_head (h : WellFormed m head s) : m.live head = true :=
  h.live head List.mem_cons_self

/-- The head is no node of its list, which is what ends a loop over it. -/
theorem WellFormed.not_mem (h : WellFormed m head s) : head ∉ s := (List.nodup_cons.mp h.nodup).1

/-- A head has one sequence. -/
theorem WellFormed.unique {s' : List Addr} (h : WellFormed m head s) (h' : WellFormed m head s') :
    s = s' := h.forward.unique h'.forward h.not_mem h'.not_mem

/-- The node before the nodes from `post` on, the head when they are all. -/
theorem mem_before (pre : List Addr) : pre.getLastD head ∈ head :: (pre ++ post) := by
  rw [← List.cons_append]
  exact List.mem_append_left _ List.getLastD_mem_cons

/-- The first of the nodes from `post` on, the head when there is none. -/
theorem mem_behind (post : List Addr) : post.headD head ∈ head :: (pre ++ post) := by
  rcases List.mem_append.mp (headD_mem head post) with h | h
  · exact List.mem_cons_of_mem _ (List.mem_append_right _ h)
  · rw [List.mem_singleton.mp h]
    exact List.mem_cons_self

/-! ## A node linked -/

/-- `new` stands between `p` and `b` in the list of `head`. -/
def Mem.linked (m : Mem) (head p new b : Addr) : Mem :=
  { m with
    next := update (update m.next new (some b)) p (some new)
    prev := update (update m.prev new (some p)) b (some new)
    head := update m.head new (some head)
    length := update m.length head (m.length head + 1) }

/-- Only the node, its neighbours and the head are written. -/
theorem Mem.sameAt_linked {p b : Addr} (hn : a ≠ new) (hp : a ≠ p) (hb : a ≠ b) (hh : a ≠ head) :
    SameAt m (m.linked head p new b) a where
  live := rfl
  packet := rfl
  next := (update_of_ne hp ..).trans (update_of_ne hn ..)
  prev := (update_of_ne hb ..).trans (update_of_ne hn ..)
  head := update_of_ne hn ..
  length := update_of_ne hh ..
  pktSize := rfl

/-- The list of `head` with `new` behind `pre` and before `post`. -/
theorem WellFormed.linked (h : WellFormed m head (pre ++ post)) (hlive : m.live new = true)
    (hnew : new ∉ head :: (pre ++ post)) :
    WellFormed (m.linked head (pre.getLastD head) new (post.headD head)) head
      (pre ++ new :: post) := by
  have hp : new ≠ pre.getLastD head := fun heq => hnew (heq ▸ mem_before pre)
  have hb : new ≠ post.headD head := fun heq => hnew (heq ▸ mem_behind post)
  have hmem : ∀ {a}, a ∈ pre ++ new :: post → a = new ∨ a ∈ pre ++ post := fun ha =>
    List.mem_cons.mp (List.perm_middle.mem_iff.mp ha)
  refine .of_ring (h.ring.insert hnew (.of_update hp hb)) ?_ ?_ ?_
  · intro a ha
    rcases List.mem_cons.mp ha with rfl | ha
    · exact h.live_head
    · rcases hmem ha with rfl | ha
      · exact hlive
      · exact h.live a (List.mem_cons_of_mem _ ha)
  · intro a ha
    rcases hmem ha with rfl | ha
    · exact update_self ..
    · have hne : a ≠ new := fun heq => hnew (heq ▸ List.mem_cons_of_mem _ ha)
      exact (update_of_ne hne ..).trans (h.head_eq a ha)
  · refine (update_self ..).trans ?_
    rw [h.length_eq, List.perm_middle.length_eq, List.length_cons, Int.natCast_succ]

/-! ## A node unlinked -/

/-- `x` is taken out from between `p` and `b`. -/
def Mem.unlinked (m : Mem) (head p x b : Addr) : Mem :=
  { m with
    next := update (update m.next p (some b)) x none
    prev := update (update m.prev b (some p)) x none
    head := update m.head x none
    length := update m.length head (m.length head - 1) }

/-- Unlinking a node writes the node, its two neighbours and the head, and no other cell. -/
theorem Mem.sameAt_unlinked {p x b : Addr} (hx : a ≠ x) (hp : a ≠ p) (hb : a ≠ b)
    (hh : a ≠ head) : SameAt m (m.unlinked head p x b) a where
  live := rfl
  packet := rfl
  next := (update_of_ne hx ..).trans (update_of_ne hp ..)
  prev := (update_of_ne hx ..).trans (update_of_ne hb ..)
  head := update_of_ne hx ..
  length := update_of_ne hh ..
  pktSize := rfl

/-- The node at a place and the others, with the head. -/
theorem perm_split (head x : Addr) (pre post : List Addr) :
    (head :: (pre ++ x :: post)).Perm (x :: head :: (pre ++ post)) :=
  (List.perm_middle.cons head).trans (.swap x head _)

/-- The other nodes of a list, and its head, are not `x`. -/
theorem WellFormed.ne_of_mem {x : Addr} (h : WellFormed m head (pre ++ x :: post))
    (ha : a ∈ head :: (pre ++ post)) : x ≠ a := by
  have hx := (List.nodup_cons.mp ((perm_split head x pre post).nodup_iff.mp h.nodup)).1
  exact fun heq => hx (heq ▸ ha)

/-- What stays in a list when a node is taken out can be read and written. -/
theorem WellFormed.live_of_mem {x : Addr} (h : WellFormed m head (pre ++ x :: post))
    (ha : a ∈ head :: (pre ++ post)) : m.live a = true :=
  h.live a ((perm_split head x pre post).mem_iff.mpr (List.mem_cons_of_mem _ ha))

/-- The list of `head` without `x`. -/
theorem WellFormed.unlinked {x : Addr} (h : WellFormed m head (pre ++ x :: post)) :
    WellFormed (m.unlinked head (pre.getLastD head) x (post.headD head)) head (pre ++ post) := by
  have hp := h.ne_of_mem (mem_before pre)
  have hb := h.ne_of_mem (mem_behind post)
  have hmem : ∀ {a}, a ∈ pre ++ post → a ∈ pre ++ x :: post := fun ha =>
    List.perm_middle.mem_iff.mpr (List.mem_cons_of_mem _ ha)
  refine .of_ring (h.ring.unlink (.of_update none none hp hb)) ?_ ?_ ?_
  · intro a ha
    exact h.live_of_mem ha
  · intro a ha
    have hne : a ≠ x := (h.ne_of_mem (List.mem_cons_of_mem _ ha)).symm
    exact (update_of_ne hne ..).trans (h.head_eq a (hmem ha))
  · refine (update_self ..).trans ?_
    rw [h.length_eq, List.perm_middle.length_eq, List.length_cons, Int.natCast_succ,
      Int.add_sub_cancel]

/-! ## The functions -/

/-- The statements of `appendNode` link the node between the last one and the head. -/
theorem appendNode_eq (h : WellFormed m head s) (hlive : m.live new = true)
    (hnew : new ∉ head :: s) :
    appendNode m (some head) (some new) = some (m.linked head (s.getLastD head) new head) := by
  have hring := h.ring
  rw [← List.append_nil s] at hring
  have hprev : m.prev head = some (s.getLastD head) := hring.prev_headD
  have hp : m.live (s.getLastD head) = true := h.live _ List.getLastD_mem_cons
  have hne : head ≠ new := fun heq => hnew (heq ▸ List.mem_cons_self)
  have hlength : 0 ≤ m.length head := h.length_eq ▸ Int.natCast_nonneg _
  generalize s.getLastD head = p at hprev hp
  simp [appendNode, Mem.linked, h.live_head, hlive, hp, hprev, hne, hlength]

/-- The statements of `removeNode` link the neighbours of the node to each other. At either end of
the list a neighbour is the head. -/
theorem removeNode_eq {x : Addr} (h : WellFormed m head (pre ++ x :: post)) :
    removeNode m (some x) =
      some (m.unlinked head (pre.getLastD head) x (post.headD head), some x) := by
  obtain ⟨hprev, hnext⟩ := h.ring.neighbours
  have hx : x ∈ pre ++ x :: post := List.mem_append_right _ List.mem_cons_self
  have hhead := h.head_eq x hx
  have hlive := h.live x (List.mem_cons_of_mem _ hx)
  have hp := h.ne_of_mem (mem_before pre)
  have hlp := h.live_of_mem (mem_before pre)
  have hlb := h.live_of_mem (mem_behind post)
  generalize pre.getLastD head = p at hprev hp hlp
  generalize post.headD head = b at hnext hlb
  simp [removeNode, Mem.unlinked, h.live_head, hlive, hlp, hlb, hprev, hnext, hp, hhead]

/-- The node is allocated at its address and holds its packet. -/
structure NodeAt (m : Mem) (n : Node) : Prop where
  live : m.live n.addr = true
  packet : m.packet n.addr = some n.packet
  pktSize : m.pktSize n.addr = n.pktSize

/-- The number of a node in memory can be read. -/
theorem NodeAt.getId {n : Node} (h : NodeAt m n) : m.getId (some n.addr) = some n.packet.id :=
  Mem.getId_some h.live h.packet

/-- A node stays in memory as long as its own cell is not written. -/
theorem NodeAt.congr {n : Node} (h : NodeAt m n) (hsame : SameAt m m' n.addr) : NodeAt m' n :=
  ⟨hsame.live.trans h.live, hsame.packet.trans h.packet, hsame.pktSize.trans h.pktSize⟩

section

variable {nodes : List Node} {fuel : Nat}

/-- The loop of `searchNodeById` stops at the first node with the number, or at the head. -/
theorem searchFrom_eq {id : UInt32} (hpath : Path m.next a (nodes.map Node.addr) head)
    (hnodes : ∀ n ∈ nodes, NodeAt m n) (hhead : ∀ n ∈ nodes, n.addr ≠ head)
    (hfuel : nodes.length < fuel) :
    searchFrom m (some head) id fuel (m.next a) =
      some (some (((nodes.find? (·.packet.id = id)).map Node.addr).getD head)) := by
  obtain ⟨fuel, rfl⟩ := Nat.exists_eq_add_one.mpr (Nat.zero_lt_of_lt hfuel)
  induction nodes generalizing a fuel with
  | nil =>
    rw [searchFrom, show m.next a = some head from hpath, if_pos rfl]
    rfl
  | cons n rest ih =>
    obtain ⟨hnext, hpath⟩ := hpath
    obtain ⟨hn, hrest⟩ := List.forall_mem_cons.mp hnodes
    obtain ⟨hne, hhead⟩ := List.forall_mem_cons.mp hhead
    rw [List.length_cons, Nat.add_lt_add_iff_right] at hfuel
    obtain ⟨fuel, rfl⟩ := Nat.exists_eq_add_one.mpr (Nat.zero_lt_of_lt hfuel)
    rw [searchFrom, hnext, if_neg (fun heq => hne (Option.some.inj heq)), hn.getId]
    by_cases hid : n.packet.id = id
    · simp [hid]
    · simp [hid, hn.live, ih hpath hrest hhead fuel hfuel]

/-- The search answers the first node with the number, and it ends: its loop tests its condition
once for each node and once at the head. -/
theorem searchNodeById_eq (h : WellFormed m head (nodes.map Node.addr))
    (hnodes : ∀ n ∈ nodes, NodeAt m n) (hfuel : nodes.length < fuel) (id : UInt32) :
    searchNodeById fuel m (some head) id =
      some ((nodes.find? (·.packet.id = id)).map Node.addr) := by
  have hhead : ∀ n ∈ nodes, n.addr ≠ head := fun n hn heq =>
    h.not_mem (heq ▸ List.mem_map_of_mem hn)
  rw [searchNodeById, Mem.get_some h.live_head, Option.bind_eq_bind, Option.bind_some,
    searchFrom_eq h.forward hnodes hhead hfuel, Option.bind_some]
  cases hfind : nodes.find? (·.packet.id = id) with
  | none => exact if_pos rfl
  | some n =>
    exact if_neg fun heq => hhead n (List.mem_of_find?_eq_some hfind) (Option.some.inj heq)

/-- One turn of the loop of `insertNodeById`. -/
theorem placeFrom_turn {n x : Node} (hx : NodeAt m x) (hn : NodeAt m n) (hne : x.addr ≠ head)
    (fuel : Nat) :
    placeFrom m (some head) (some n.addr) (fuel + 1) (some x.addr) =
      if x.packet.id = n.packet.id then some (true, some x.addr)
      else if x.packet.id > n.packet.id then some (false, some x.addr)
      else placeFrom m (some head) (some n.addr) fuel (m.next x.addr) := by
  rw [placeFrom, if_neg (fun heq => hne (Option.some.inj heq)), hx.getId, hn.getId,
    Mem.get_some hx.live]
  rfl

/-- The loop of `insertNodeById` stops at the number of the node, which is refused then, or where
the node goes. -/
theorem placeFrom_cases {n : Node} (hpath : Path m.next a (nodes.map Node.addr) head)
    (hnodes : ∀ x ∈ nodes, NodeAt m x) (hhead : ∀ x ∈ nodes, x.addr ≠ head) (hn : NodeAt m n) :
    (insertBy Node.id n nodes = none ∧ ∀ fuel, nodes.length < fuel →
      ∃ iter, placeFrom m (some head) (some n.addr) fuel (m.next a) = some (true, iter)) ∨
    ∃ pre post, nodes = pre ++ post ∧ insertBy Node.id n nodes = some (pre ++ n :: post) ∧
      ∀ fuel, nodes.length < fuel → placeFrom m (some head) (some n.addr) fuel (m.next a) =
        some (false, some ((post.map Node.addr).headD head)) := by
  induction nodes generalizing a with
  | nil =>
    refine .inr ⟨[], [], rfl, rfl, fun fuel hfuel => ?_⟩
    obtain ⟨fuel, rfl⟩ := Nat.exists_eq_add_one.mpr hfuel
    rw [placeFrom, show m.next a = some head from hpath, if_pos rfl]
    rfl
  | cons x rest ih =>
    obtain ⟨hnext, hpath⟩ := hpath
    obtain ⟨hx, hrest⟩ := List.forall_mem_cons.mp hnodes
    obtain ⟨hne, hhead⟩ := List.forall_mem_cons.mp hhead
    have hturn := placeFrom_turn hx hn hne
    rw [hnext]
    have hbound : ∀ {fuel}, (x :: rest).length < fuel → ∃ k, fuel = k + 1 ∧ rest.length < k := by
      intro fuel hfuel
      obtain ⟨k, rfl⟩ := Nat.exists_eq_add_one.mpr (Nat.zero_lt_of_lt hfuel)
      exact ⟨k, rfl, Nat.lt_of_succ_lt_succ hfuel⟩
    rcases Nat.lt_trichotomy x.id n.id with hid | hid | hid
    · -- the loop goes on
      have hne : ¬x.packet.id = n.packet.id := fun heq => hid.ne (congrArg UInt32.toNat heq)
      have hle : ¬x.packet.id > n.packet.id := fun hlt =>
        absurd (UInt32.lt_iff_toNat_lt.mp hlt) (Nat.lt_asymm hid)
      have hskip : insertBy Node.id n (x :: rest) = (insertBy Node.id n rest).map (x :: ·) := by
        rw [insertBy, if_neg hid.ne, if_neg (Nat.lt_asymm hid)]
      rcases ih hpath hrest hhead with ⟨hins, hloop⟩ | ⟨pre, post, rfl, hins, hloop⟩
      · refine .inl ⟨by rw [hskip, hins]; rfl, fun fuel hfuel => ?_⟩
        obtain ⟨fuel, rfl, hlt⟩ := hbound hfuel
        rw [hturn, if_neg hne, if_neg hle]
        exact hloop fuel hlt
      · refine .inr ⟨x :: pre, post, rfl, by rw [hskip, hins]; rfl, fun fuel hfuel => ?_⟩
        obtain ⟨fuel, rfl, hlt⟩ := hbound hfuel
        rw [hturn, if_neg hne, if_neg hle]
        exact hloop fuel hlt
    · refine .inl ⟨by rw [insertBy, if_pos hid], fun fuel hfuel => ⟨some x.addr, ?_⟩⟩
      obtain ⟨fuel, rfl, _⟩ := hbound hfuel
      rw [hturn, if_pos (UInt32.toNat_inj.mp hid)]
    · have hne : ¬x.packet.id = n.packet.id := fun heq => hid.ne' (congrArg UInt32.toNat heq)
      refine .inr ⟨[], x :: rest, rfl, ?_, fun fuel hfuel => ?_⟩
      · rw [insertBy, if_neg hid.ne', if_pos hid]
        rfl
      · obtain ⟨fuel, rfl, _⟩ := hbound hfuel
        rw [hturn, if_neg hne, if_pos (UInt32.lt_iff_toNat_lt.mpr hid)]
        rfl

/-- A node whose number is met is refused, and nothing is written; any other is linked before the
first larger number. -/
theorem insertNodeById_spec {n : Node} (h : WellFormed m head (nodes.map Node.addr))
    (hnodes : ∀ x ∈ nodes, NodeAt m x) (hn : NodeAt m n)
    (hnew : n.addr ∉ head :: nodes.map Node.addr) :
    (insertBy Node.id n nodes = none ∧ ∀ fuel, nodes.length < fuel →
      insertNodeById fuel m (some head) (some n.addr) = some (m, false)) ∨
    ∃ pre post, nodes = pre ++ post ∧ insertBy Node.id n nodes = some (pre ++ n :: post) ∧
      ∀ fuel, nodes.length < fuel → insertNodeById fuel m (some head) (some n.addr) =
        some (m.linked head ((pre.map Node.addr).getLastD head) n.addr
          ((post.map Node.addr).headD head), true) := by
  have hhead : ∀ x ∈ nodes, x.addr ≠ head := fun x hx heq =>
    h.not_mem (heq ▸ List.mem_map_of_mem hx)
  have hnext : m.get m.next (some head) = some (m.next head) := Mem.get_some h.live_head
  rcases placeFrom_cases h.forward hnodes hhead hn with
    ⟨hins, hloop⟩ | ⟨pre, post, rfl, hins, hloop⟩
  · refine .inl ⟨hins, fun fuel hfuel => ?_⟩
    obtain ⟨iter, hloop⟩ := hloop fuel hfuel
    simp [insertNodeById, hnext, hloop]
  · refine .inr ⟨pre, post, rfl, hins, fun fuel hfuel => ?_⟩
    have hloop := hloop fuel hfuel
    rw [List.map_append] at h hnew
    have hprev := h.ring.prev_headD
    have hp := h.live _ (mem_before (pre.map Node.addr))
    have hb := h.live _ (mem_behind (post.map Node.addr))
    have hne : (post.map Node.addr).headD head ≠ n.addr := fun heq =>
      hnew (heq ▸ mem_behind (post.map Node.addr))
    generalize (pre.map Node.addr).getLastD head = p at hprev hp
    generalize (post.map Node.addr).headD head = b at hloop hprev hb hne
    simp [insertNodeById, hnext, hloop, Mem.linked, h.live_head, hn.live, hp, hb, hprev, hne]

end

/-- A new head is an empty list, and no other cell is written. -/
theorem allocHead_spec (h : m.live a = false) :
    ∃ m', allocHead m a = some (m', some a) ∧ WellFormed m' a [] ∧ ∀ c, c ≠ a → SameAt m m' c := by
  refine ⟨{ m with
    live := update m.live a true
    packet := update m.packet a none
    next := update m.next a (some a)
    prev := update m.prev a (some a)
    length := update m.length a 0
    pktSize := update m.pktSize a (-1) }, ?_, ?_, ?_⟩
  · simp [allocHead, Mem.malloc, h]
  · refine .of_ring ⟨⟨update_self .., update_self ..⟩, List.nodup_singleton a⟩ ?_ ?_ ?_
    · intro c hc
      rw [List.mem_singleton.mp hc]
      exact update_self ..
    · intro c hc
      cases hc
    · exact update_self ..
  · intro c hc
    exact ⟨update_of_ne hc .., update_of_ne hc .., update_of_ne hc .., update_of_ne hc .., rfl,
      update_of_ne hc .., update_of_ne hc ..⟩

/-- A new node holds what the node built on sequences holds, and no other cell is written. -/
theorem allocNode_spec (h : m.live a = false) (id : UInt32) (type : UInt8)
    (body : Option (List UInt8)) (size : Nat) :
    ∃ m', allocNode m a id type body size = some (m', some a) ∧
      NodeAt m' (GProxy.allocNode ⟨a, []⟩ id type body size).1 ∧ ∀ c, c ≠ a → SameAt m m' c := by
  have haddr : (GProxy.allocNode ⟨a, []⟩ id type body size).1.addr = a := by
    cases body <;> rfl
  refine ⟨{ m with
    live := update m.live a true
    packet := update m.packet a (some (GProxy.allocNode ⟨a, []⟩ id type body size).1.packet)
    next := update m.next a (some a)
    prev := update m.prev a (some a)
    length := update m.length a (-1)
    pktSize := update m.pktSize a (GProxy.allocNode ⟨a, []⟩ id type body size).1.pktSize },
    ?_, ?_, ?_⟩
  · cases body with
    | none => simp [allocNode, GProxy.allocNode, Mem.malloc, h]
    | some memory => simp [allocNode, GProxy.allocNode, Mem.malloc, h]
  · refine ⟨?_, ?_, ?_⟩ <;> rw [haddr] <;> exact update_self ..
  · intro c hc
    exact ⟨update_of_ne hc .., update_of_ne hc .., update_of_ne hc .., update_of_ne hc .., rfl,
      update_of_ne hc .., update_of_ne hc ..⟩

/-- To free a node that is allocated has a result. -/
theorem clearNode_eq {n : Node} (h : NodeAt m n) :
    clearNode m (some n.addr) = some { m with live := update m.live n.addr false } := by
  simp [clearNode, h.live, h.packet]

end GProxy.Pointers
