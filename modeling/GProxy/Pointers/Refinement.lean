import GProxy.Pointers.Lists

/-!
# The lists in memory refine sequences

`Lists` is a state without pointers: which addresses are heads and of what sequence, which are
nodes that no list holds, and which are not allocated. A command is one call of a function of
`listUtils.c`. On `Lists` it is done by the functions on sequences; where what the function needs
does not hold (the node to put in stands in a list already, the node to take out does not) it has
no result.

`Represents` says that the memory holds those lists and that no two of them share a node. A command
that has a result on the lists has the same result in memory, under every bound on its loops from
some number on, and the memory afterwards holds the lists afterwards.
-/

namespace GProxy.Pointers

open Function (update update_self update_of_ne update_eq_self)
open SortedInsert

/-- The heads with their sequences, the nodes of no list, and the addresses not in use. -/
structure Lists where
  heads : Addr → Option Head
  loose : Addr → Option Node
  free : Addr → Bool

inductive Command where
  | allocHead (a : Addr)
  | allocNode (a : Addr) (id : UInt32) (type : UInt8) (body : Option (List UInt8)) (size : Nat)
  | clearNode (toClear : Addr)
  | appendNode (head new : Addr)
  | insertNodeById (head new : Addr)
  /-- `head` is the list of the node, which the function itself finds in the node. -/
  | removeNode (head toRemove : Addr)
  | searchNodeById (head : Addr) (id : UInt32)
  | removeNodeById (head : Addr) (id : UInt32)

inductive Answer where
  | done
  | bool (b : Bool)
  | node (p : Ptr)
  deriving DecidableEq

/-- The call in memory. -/
def exec (fuel : Nat) (m : Mem) : Command → Option (Answer × Mem)
  | .allocHead a => (allocHead m a).map fun r => (.node r.2, r.1)
  | .allocNode a id type body size =>
    (allocNode m a id type body size).map fun r => (.node r.2, r.1)
  | .clearNode toClear => (clearNode m (some toClear)).map fun m => (.done, m)
  | .appendNode head new => (appendNode m (some head) (some new)).map fun m => (.done, m)
  | .insertNodeById head new =>
    (insertNodeById fuel m (some head) (some new)).map fun r => (.bool r.2, r.1)
  | .removeNode _ toRemove => (removeNode m (some toRemove)).map fun r => (.node r.2, r.1)
  | .searchNodeById head id =>
    (searchNodeById fuel m (some head) id).map fun p => (.node p, m)
  | .removeNodeById head id =>
    (removeNodeById fuel m (some head) id).map fun r => (.node r.2, r.1)

def execAll (fuel : Nat) (m : Mem) : List Command → Option (List Answer × Mem)
  | [] => some ([], m)
  | c :: cs => do
    let (answer, m) ← exec fuel m c
    let (answers, m) ← execAll fuel m cs
    some (answer :: answers, m)

/-- The list of `head` is `l` now, and `n` what is known of `a` outside the lists. -/
def Lists.put (L : Lists) (head : Addr) (l : Head) (a : Addr) (n : Option Node) : Lists :=
  { L with heads := update L.heads head (some l), loose := update L.loose a n }

/-- The call on the sequences. -/
def Lists.step (L : Lists) : Command → Option (Answer × Lists)
  | .allocHead a =>
    if L.free a then
      some (.node (some a), { L with
        heads := update L.heads a (some GProxy.allocHead)
        free := update L.free a false })
    else none
  | .allocNode a id type body size =>
    if L.free a then
      some (.node (some a), { L with
        loose := update L.loose a (some (GProxy.allocNode ⟨a, []⟩ id type body size).1)
        free := update L.free a false })
    else none
  | .clearNode toClear => do
    let _ ← L.loose toClear
    some (.done, { L with
      loose := update L.loose toClear none
      free := update L.free toClear true })
  | .appendNode head new => do
    let l ← L.heads head
    let n ← L.loose new
    some (.done, L.put head (GProxy.appendNode l n) new none)
  | .insertNodeById head new => do
    let l ← L.heads head
    let n ← L.loose new
    let r := GProxy.insertNodeById l n
    some (.bool r.2, L.put head r.1 new (if r.2 then none else some n))
  | .removeNode head toRemove => do
    let l ← L.heads head
    let n ← l.nodes.find? (·.addr = toRemove)
    some (.node (some toRemove), L.put head (GProxy.removeNode l n) toRemove (some n))
  | .searchNodeById head id => do
    let l ← L.heads head
    some (.node ((GProxy.searchNodeById l id).map Node.addr), L)
  | .removeNodeById head id => do
    let l ← L.heads head
    match GProxy.removeNodeById l id with
    | (l, some temp) => some (.node (some temp.addr), L.put head l temp.addr (some temp))
    | (_, none) => some (.node none, L)

def Lists.run (L : Lists) : List Command → Option (List Answer × Lists)
  | [] => some ([], L)
  | c :: cs => do
    let (answer, L) ← L.step c
    let (answers, L) ← L.run cs
    some (answer :: answers, L)

/-! ## What the memory holds -/

/-- The list of `head` is `l`, packets and all. -/
structure ListAt (m : Mem) (head : Addr) (l : Head) : Prop where
  wellFormed : WellFormed m head (l.nodes.map Node.addr)
  counted : l.Counted
  nodes : ∀ n ∈ l.nodes, NodeAt m n

/-- `a` is the head `h` or stands in its list. -/
def Lists.Owns (L : Lists) (h a : Addr) : Prop :=
  ∃ l, L.heads h = some l ∧ a ∈ h :: l.nodes.map Node.addr

/-- No two lists share a node, and what is outside the lists is in none. -/
structure Lists.Disjoint (L : Lists) : Prop where
  owner : ∀ {h₁ h₂ a}, L.Owns h₁ a → L.Owns h₂ a → h₁ = h₂
  loose : ∀ {h a n}, L.loose a = some n → ¬L.Owns h a

structure Represents (m : Mem) (L : Lists) : Prop where
  lists : ∀ {h l}, L.heads h = some l → ListAt m h l
  loose : ∀ {a n}, L.loose a = some n → n.addr = a ∧ NodeAt m n
  free : ∀ {a}, L.free a = true → m.live a = false
  disjoint : L.Disjoint

section

variable {m m' : Mem} {L L' : Lists} {head a : Addr} {l l' : Head} {n : Node}

/-- After an operation on a list it is the new one. -/
theorem Lists.put_heads_self (L : Lists) (head a : Addr) (l : Head) (found : Option Node) :
    (L.put head l a found).heads head = some l := update_self ..

/-- An operation on a list leaves the other lists as they are. -/
theorem Lists.put_heads_of_ne {h : Addr} (hne : h ≠ head) (a : Addr) (l : Head)
    (found : Option Node) : (L.put head l a found).heads h = L.heads h := update_of_ne hne ..

/-- After an operation the node it moved is what the operation made of it. -/
theorem Lists.put_loose_self (L : Lists) (head a : Addr) (l : Head) (found : Option Node) :
    (L.put head l a found).loose a = found := update_self ..

/-- An operation leaves the other nodes outside the lists as they are. -/
theorem Lists.put_loose_of_ne {c : Addr} (hne : c ≠ a) (head : Addr) (l : Head)
    (found : Option Node) : (L.put head l a found).loose c = L.loose c := update_of_ne hne ..

/-- A list stays in memory as long as its head and its nodes are not written. -/
theorem ListAt.congr (h : ListAt m head l)
    (hsame : ∀ c ∈ head :: l.nodes.map Node.addr, SameAt m m' c) : ListAt m' head l := by
  refine ⟨h.wellFormed.congr hsame, h.counted, fun n hn => (h.nodes n hn).congr ?_⟩
  exact hsame n.addr (List.mem_cons_of_mem _ (List.mem_map_of_mem hn))

/-- What a list owns is allocated. -/
theorem Represents.live_of_owns (hR : Represents m L) (h : L.Owns head a) : m.live a = true := by
  obtain ⟨l, hl, ha⟩ := h
  exact (hR.lists hl).wellFormed.live a ha

/-- A node outside the lists is allocated until it is freed. -/
theorem Represents.live_of_loose (hR : Represents m L) (h : L.loose a = some n) :
    m.live a = true := by
  obtain ⟨rfl, hn⟩ := hR.loose h
  exact hn.live

/-- Only what stands at the addresses `S` has to be looked at after a change that leaves every
other address as it was. -/
theorem Represents.of_frame {S : Addr → Prop} (hR : Represents m L)
    (hsame : ∀ c, ¬S c → SameAt m m' c) (hdisjoint : L'.Disjoint)
    (hlists : ∀ {h l}, L'.heads h = some l →
      ListAt m' h l ∨ L.heads h = some l ∧ ∀ c, L.Owns h c → ¬S c)
    (hloose : ∀ {a n}, L'.loose a = some n →
      (n.addr = a ∧ NodeAt m' n) ∨ L.loose a = some n ∧ ¬S a)
    (hfree : ∀ {a}, L'.free a = true → m'.live a = false) : Represents m' L' where
  lists := by
    intro h l hl
    rcases hlists hl with hat | ⟨hl, hS⟩
    · exact hat
    · exact (hR.lists hl).congr fun c hc => hsame c (hS c ⟨l, hl, hc⟩)
  loose := by
    intro a n hn
    rcases hloose hn with hat | ⟨hn, hS⟩
    · exact hat
    · obtain ⟨rfl, hat⟩ := hR.loose hn
      exact ⟨rfl, hat.congr (hsame n.addr hS)⟩
  free := hfree
  disjoint := hdisjoint

/-- A list that takes up one address at most leaves every address one owner. -/
theorem Lists.Disjoint.owner_of_owns (hL : L.Disjoint)
    (howns : ∀ {h c}, L'.Owns h c → (c = a ∧ h = head) ∨ c ≠ a ∧ L.Owns h c) {h₁ h₂ c : Addr}
    (h₁c : L'.Owns h₁ c) (h₂c : L'.Owns h₂ c) : h₁ = h₂ := by
  rcases howns h₁c with ⟨hca, rfl⟩ | ⟨hca, h₁c⟩
  · rcases howns h₂c with ⟨_, rfl⟩ | ⟨hca', _⟩
    · rfl
    · exact absurd hca hca'
  · rcases howns h₂c with ⟨hca', _⟩ | ⟨_, h₂c⟩
    · exact absurd hca' hca
    · exact hL.owner h₁c h₂c

/-- The node is outside the lists, or in the list `l`. -/
def Lists.Movable (L : Lists) (l : Head) (a : Addr) : Prop :=
  (∃ n, L.loose a = some n) ∨ a ∈ l.nodes.map Node.addr

/-- Who owns such a node is its list. -/
theorem Represents.owner_of_movable (hR : Represents m L) (hl : L.heads head = some l)
    (ha : L.Movable l a) {h : Addr} (ho : L.Owns h a) : h = head := by
  rcases ha with ⟨n, ha⟩ | ha
  · exact absurd ho (hR.disjoint.loose ha)
  · exact hR.disjoint.owner ho ⟨l, hl, List.mem_cons_of_mem _ ha⟩

/-- A node that may be moved is not the head of the list. -/
theorem Represents.ne_of_movable (hR : Represents m L) (hl : L.heads head = some l)
    (ha : L.Movable l a) : head ≠ a := by
  rintro rfl
  rcases ha with ⟨n, ha⟩ | ha
  · exact hR.disjoint.loose ha ⟨l, hl, List.mem_cons_self⟩
  · exact (hR.lists hl).wellFormed.not_mem ha

/-- Who owns what after one node went into a list or came out of it. -/
theorem Represents.owns_put {found : Option Node} (hR : Represents m L)
    (hl : L.heads head = some l) (ha : L.Movable l a)
    (hmem : ∀ c ∈ l'.nodes.map Node.addr,
      (c = a ∧ found = none) ∨ c ≠ a ∧ c ∈ l.nodes.map Node.addr) {h c : Addr}
    (ho : (L.put head l' a found).Owns h c) :
    (c = a ∧ h = head ∧ found = none) ∨ c ≠ a ∧ L.Owns h c := by
  obtain ⟨l₁, hl₁, hc⟩ := ho
  by_cases hh : h = head
  · subst hh
    rw [Lists.put_heads_self] at hl₁
    obtain rfl := Option.some.inj hl₁
    rcases List.mem_cons.mp hc with rfl | hc
    · exact .inr ⟨hR.ne_of_movable hl ha, l, hl, List.mem_cons_self⟩
    · rcases hmem c hc with ⟨rfl, hf⟩ | ⟨hca, hc⟩
      · exact .inl ⟨rfl, rfl, hf⟩
      · exact .inr ⟨hca, l, hl, List.mem_cons_of_mem _ hc⟩
  · rw [Lists.put_heads_of_ne hh] at hl₁
    have ho : L.Owns h c := ⟨l₁, hl₁, hc⟩
    exact .inr ⟨fun hca => hh (hR.owner_of_movable hl ha (hca ▸ ho)), ho⟩

/-- One list and one node change, which goes into the list or comes out of it. -/
theorem Represents.put {found : Option Node} (hR : Represents m L) (hl : L.heads head = some l)
    (ha : L.Movable l a) (hsame : ∀ c, ¬(c = a ∨ L.Owns head c) → SameAt m m' c)
    (hlive : m'.live = m.live) (hat : ListAt m' head l')
    (hfound : ∀ n, found = some n → n.addr = a ∧ NodeAt m' n)
    (hmem : ∀ c ∈ l'.nodes.map Node.addr,
      (c = a ∧ found = none) ∨ c ≠ a ∧ c ∈ l.nodes.map Node.addr) :
    Represents m' (L.put head l' a found) := by
  have howns : ∀ {h c}, (L.put head l' a found).Owns h c →
      (c = a ∧ h = head ∧ found = none) ∨ c ≠ a ∧ L.Owns h c := hR.owns_put hl ha hmem
  have howns' : ∀ {h c}, (L.put head l' a found).Owns h c →
      (c = a ∧ h = head) ∨ c ≠ a ∧ L.Owns h c := fun ho =>
    (howns ho).imp_left fun hca => ⟨hca.1, hca.2.1⟩
  refine hR.of_frame hsame ⟨hR.disjoint.owner_of_owns howns', ?_⟩ ?_ ?_ ?_
  · intro h c n hn ho
    rcases howns ho with ⟨rfl, _, rfl⟩ | ⟨hca, ho⟩
    · rw [Lists.put_loose_self] at hn
      cases hn
    · rw [Lists.put_loose_of_ne hca] at hn
      exact hR.disjoint.loose hn ho
  · intro h l₁ hl₁
    by_cases hh : h = head
    · subst hh
      rw [Lists.put_heads_self] at hl₁
      obtain rfl := Option.some.inj hl₁
      exact .inl hat
    · rw [Lists.put_heads_of_ne hh] at hl₁
      refine .inr ⟨hl₁, fun c hc hS => hh ?_⟩
      rcases hS with rfl | hS
      · exact hR.owner_of_movable hl ha hc
      · exact hR.disjoint.owner hc hS
  · intro c n hn
    by_cases hca : c = a
    · subst hca
      rw [Lists.put_loose_self] at hn
      exact .inl (hfound n hn)
    · rw [Lists.put_loose_of_ne hca] at hn
      exact .inr ⟨hn, fun hS => hS.elim hca (hR.disjoint.loose hn)⟩
  · intro c hc
    rw [hlive]
    exact hR.free hc

/-- A list owns its head and its nodes, and nothing else. -/
theorem not_owns_iff (hl : L.heads head = some l) {c : Addr} :
    ¬L.Owns head c ↔ c ∉ head :: l.nodes.map Node.addr := by
  refine not_congr ⟨?_, fun hc => ⟨l, hl, hc⟩⟩
  rintro ⟨l₁, hl₁, hc⟩
  obtain rfl := Option.some.inj (hl.symm.trans hl₁)
  exact hc

/-- A node outside the lists linked into a list, behind `pre` and before `post`. -/
theorem Represents.linked {pre post : List Node} (hR : Represents m L)
    (hl : L.heads head = some l) (hn : L.loose n.addr = some n) (hnodes : l.nodes = pre ++ post)
    (hnodes' : l'.nodes = pre ++ n :: post) (hlength : l'.length = l.length + 1) :
    Represents (m.linked head ((pre.map Node.addr).getLastD head) n.addr
      ((post.map Node.addr).headD head)) (L.put head l' n.addr none) := by
  have hat := hR.lists hl
  have hnode := (hR.loose hn).2
  have hnew := (not_owns_iff hl).mp (hR.disjoint.loose hn)
  have hwf := hat.wellFormed
  rw [hnodes, List.map_append] at hnew hwf
  have hmem : ∀ {x}, x ∈ l'.nodes → x = n ∨ x ∈ l.nodes := by
    intro x hx
    rw [hnodes'] at hx
    rw [hnodes]
    exact List.mem_cons.mp (List.perm_middle.mem_iff.mp hx)
  refine hR.put hl (.inl ⟨n, hn⟩) ?_ rfl ⟨?_, ?_, ?_⟩ ?_ ?_
  · intro c hc
    obtain ⟨hcn, hc⟩ := not_or.mp hc
    rw [not_owns_iff hl, hnodes, List.map_append] at hc
    exact Mem.sameAt_linked hcn (ne_of_mem_of_not_mem (mem_before _) hc).symm
      (ne_of_mem_of_not_mem (mem_behind _) hc).symm
      (ne_of_mem_of_not_mem List.mem_cons_self hc).symm
  · rw [hnodes', List.map_append, List.map_cons]
    exact hwf.linked hnode.live hnew
  · rw [Head.Counted, hlength, hat.counted, hnodes', hnodes, List.perm_middle.length_eq,
      List.length_cons, Int.natCast_succ]
  · intro x hx
    have hx : NodeAt m x := by
      rcases hmem hx with rfl | hx
      · exact hnode
      · exact hat.nodes x hx
    exact ⟨hx.live, hx.packet, hx.pktSize⟩
  · intro x hx
    cases hx
  · intro c hc
    obtain ⟨x, hx, rfl⟩ := List.mem_map.mp hc
    rcases hmem hx with rfl | hx
    · exact .inl ⟨rfl, rfl⟩
    · have hx := List.mem_map_of_mem (f := Node.addr) hx
      refine .inr ⟨fun heq => ?_, hx⟩
      exact hR.disjoint.loose hn ⟨l, hl, List.mem_cons_of_mem _ (heq ▸ hx)⟩

/-- A node taken out of its list. -/
theorem Represents.unlinked {pre post : List Node} (hR : Represents m L)
    (hl : L.heads head = some l) (hnodes : l.nodes = pre ++ n :: post) :
    Represents (m.unlinked head ((pre.map Node.addr).getLastD head) n.addr
      ((post.map Node.addr).headD head))
      (L.put head ⟨pre ++ post, l.length - 1⟩ n.addr (some n)) := by
  have hat := hR.lists hl
  have hn : n ∈ l.nodes := hnodes ▸ List.mem_append_right _ List.mem_cons_self
  have hwf := hat.wellFormed
  rw [hnodes, List.map_append, List.map_cons] at hwf
  have hmem : ∀ {x}, x ∈ pre ++ post → x ∈ l.nodes := fun hx =>
    hnodes ▸ List.perm_middle.mem_iff.mpr (List.mem_cons_of_mem _ hx)
  refine hR.put hl (.inr (List.mem_map_of_mem hn)) ?_ rfl ⟨?_, ?_, ?_⟩ ?_ ?_
  · intro c hc
    obtain ⟨hcn, hc⟩ := not_or.mp hc
    rw [not_owns_iff hl, hnodes, List.map_append, List.map_cons,
      (perm_split _ _ _ _).mem_iff] at hc
    have hc := (not_or.mp (List.mem_cons.not.mp hc)).2
    exact Mem.sameAt_unlinked hcn (ne_of_mem_of_not_mem (mem_before _) hc).symm
      (ne_of_mem_of_not_mem (mem_behind _) hc).symm
      (ne_of_mem_of_not_mem List.mem_cons_self hc).symm
  · rw [List.map_append]
    exact hwf.unlinked
  · rw [Head.Counted, hat.counted, hnodes, List.perm_middle.length_eq, List.length_cons,
      Int.natCast_succ, Int.add_sub_cancel]
  · intro x hx
    have hx := hat.nodes x (hmem hx)
    exact ⟨hx.live, hx.packet, hx.pktSize⟩
  · rintro _ ⟨⟩
    have hx := hat.nodes n hn
    exact ⟨rfl, hx.live, hx.packet, hx.pktSize⟩
  · intro c hc
    rw [List.map_append] at hc
    refine .inr ⟨(hwf.ne_of_mem (List.mem_cons_of_mem _ hc)).symm, ?_⟩
    rw [← List.map_append] at hc
    exact List.map_subset _ (fun _ => hmem) hc

/-- An address not in use is in no list and is no node. -/
theorem Represents.not_owns_of_free (hR : Represents m L) (h : L.free a = true) {h' : Addr} :
    ¬L.Owns h' a := fun ho => Bool.false_ne_true ((hR.free h).symm.trans (hR.live_of_owns ho))

/-- An address that is free is that of no node. -/
theorem Represents.loose_of_free (hR : Represents m L) (h : L.free a = true) :
    L.loose a = none := by
  cases hn : L.loose a with
  | none => rfl
  | some n => exact absurd ((hR.free h).symm.trans (hR.live_of_loose hn)) Bool.false_ne_true

/-- An address is not in use any more, or is again: the others are in use as before. -/
theorem Represents.free_of_ne (hR : Represents m L) (hsame : ∀ c, c ≠ a → SameAt m m' c)
    {b : Bool} (ha : b = true → m'.live a = false) {c : Addr}
    (hc : update L.free a b c = true) : m'.live c = false := by
  by_cases hca : c = a
  · subst hca
    rw [update_self] at hc
    exact ha hc
  · rw [update_of_ne hca] at hc
    exact (hsame c hca).live.trans (hR.free hc)

/-- A new empty list joins the others, if no other cell was written. -/
theorem Represents.allocHead (hR : Represents m L) (h : L.free a = true)
    (hsame : ∀ c, c ≠ a → SameAt m m' c) (hat : WellFormed m' a []) :
    Represents m' { L with
      heads := update L.heads a (some GProxy.allocHead)
      free := update L.free a false } := by
  have howns : ∀ {h₁ c}, Lists.Owns { L with
      heads := update L.heads a (some GProxy.allocHead)
      free := update L.free a false } h₁ c → (c = a ∧ h₁ = a) ∨ c ≠ a ∧ L.Owns h₁ c := by
    rintro h₁ c ⟨l, hl, hc⟩
    by_cases hh : h₁ = a
    · subst hh
      obtain rfl := Option.some.inj ((update_self h₁ _ L.heads).symm.trans hl)
      exact .inl ⟨List.mem_singleton.mp hc, rfl⟩
    · have ho : L.Owns h₁ c := ⟨l, (update_of_ne hh ..).symm.trans hl, hc⟩
      exact .inr ⟨fun hca => hR.not_owns_of_free h (hca ▸ ho), ho⟩
  refine hR.of_frame hsame ⟨hR.disjoint.owner_of_owns howns, ?_⟩ ?_ ?_
    (hR.free_of_ne hsame (fun hb => Bool.noConfusion hb))
  · intro h₁ c n hn ho
    rcases howns ho with ⟨rfl, _⟩ | ⟨_, ho⟩
    · exact Option.some_ne_none n (hn.symm.trans (hR.loose_of_free h))
    · exact hR.disjoint.loose hn ho
  · intro h₁ l hl
    by_cases hh : h₁ = a
    · subst hh
      obtain rfl := Option.some.inj ((update_self h₁ _ L.heads).symm.trans hl)
      exact .inl ⟨hat, allocHead_counted, fun n hn => absurd hn List.not_mem_nil⟩
    · have hl := (update_of_ne hh ..).symm.trans hl
      exact .inr ⟨hl, fun c hc hca => hR.not_owns_of_free h (hca ▸ hc)⟩
  · intro c n hn
    refine .inr ⟨hn, ?_⟩
    rintro rfl
    exact Option.some_ne_none n (hn.symm.trans (hR.loose_of_free h))

/-- What is known of one address outside the lists changes. -/
theorem Represents.setLoose {found : Option Node} {b : Bool} (hR : Represents m L)
    (ha : ∀ {h}, ¬L.Owns h a) (hsame : ∀ c, c ≠ a → SameAt m m' c)
    (hfound : ∀ n, found = some n → n.addr = a ∧ NodeAt m' n)
    (hlive : b = true → m'.live a = false) :
    Represents m' { L with loose := update L.loose a found, free := update L.free a b } := by
  refine hR.of_frame hsame ⟨?_, ?_⟩ ?_ ?_ (hR.free_of_ne hsame hlive)
  · intro h₁ h₂ c h₁c h₂c
    exact hR.disjoint.owner h₁c h₂c
  · intro h₁ c n hn ho
    by_cases hca : c = a
    · exact ha (hca ▸ ho)
    · exact hR.disjoint.loose ((update_of_ne hca ..).symm.trans hn) ho
  · intro h₁ l hl
    exact .inr ⟨hl, fun c hc hca => ha (hca ▸ hc)⟩
  · intro c n hn
    by_cases hca : c = a
    · subst hca
      exact .inl (hfound n ((update_self c found L.loose).symm.trans hn))
    · exact .inr ⟨(update_of_ne hca ..).symm.trans hn, hca⟩

/-! ## The lists of a memory -/

/-- The node at an address, as its fields have it. -/
def Mem.node (m : Mem) (a : Addr) : Node := ⟨a, (m.packet a).getD ⟨0, 0, []⟩, m.pktSize a⟩

open Classical in
/-- What stands in a memory, given the heads and where the nodes of each are. Every other node that
is allocated and has its packet is of no list. -/
noncomputable def Lists.ofMem (m : Mem) (addrs : Addr → Option (List Addr)) : Lists where
  heads h := (addrs h).map fun s => ⟨s.map m.node, s.length⟩
  loose a :=
    if m.live a = true ∧ (m.packet a).isSome ∧ ∀ h s, addrs h = some s → a ∉ h :: s then
      some (m.node a)
    else none
  free a := !m.live a

/-- The nodes read at addresses have these addresses. -/
theorem map_addr_node (m : Mem) (s : List Addr) : (s.map m.node).map Node.addr = s := by
  rw [List.map_map]
  exact List.map_id s

/-- What is read at an allocated cell with a packet is a node in memory. -/
theorem Mem.nodeAt_node {packet : Pkt} (hlive : m.live a = true) (hp : m.packet a = some packet) :
    NodeAt m (m.node a) := ⟨hlive, by rw [node, hp]; rfl, rfl⟩

/-- Whatever well-formed lists a memory has, it represents them, if no two share a node. -/
theorem represents_ofMem {addrs : Addr → Option (List Addr)}
    (hwf : ∀ h s, addrs h = some s → WellFormed m h s)
    (hpacket : ∀ h s, addrs h = some s → ∀ a ∈ s, ∃ packet, m.packet a = some packet)
    (hdisjoint : ∀ h₁ h₂ s₁ s₂ a, addrs h₁ = some s₁ → addrs h₂ = some s₂ →
      a ∈ h₁ :: s₁ → a ∈ h₂ :: s₂ → h₁ = h₂) : Represents m (Lists.ofMem m addrs) := by
  have howns : ∀ {h a}, (Lists.ofMem m addrs).Owns h a → ∃ s, addrs h = some s ∧ a ∈ h :: s := by
    rintro h a ⟨l, hl, ha⟩
    obtain ⟨s, hs, rfl⟩ := Option.map_eq_some_iff.mp hl
    rw [map_addr_node] at ha
    exact ⟨s, hs, ha⟩
  refine ⟨?_, ?_, ?_, ?_, ?_⟩
  · intro h l hl
    obtain ⟨s, hs, rfl⟩ := Option.map_eq_some_iff.mp hl
    refine ⟨?_, ?_, ?_⟩
    · rw [map_addr_node]
      exact hwf h s hs
    · simp [Head.Counted]
    · intro n hn
      obtain ⟨a, ha, rfl⟩ := List.mem_map.mp hn
      obtain ⟨packet, hp⟩ := hpacket h s hs a ha
      exact Mem.nodeAt_node ((hwf h s hs).live a (List.mem_cons_of_mem _ ha)) hp
  · intro a n hn
    obtain ⟨⟨hlive, hsome, _⟩, hn⟩ := Option.ite_none_right_eq_some.mp hn
    obtain rfl := Option.some.inj hn
    obtain ⟨packet, hp⟩ := Option.isSome_iff_exists.mp hsome
    exact ⟨rfl, Mem.nodeAt_node hlive hp⟩
  · intro a ha
    exact (Bool.not_eq_true' _).mp ha
  · intro h₁ h₂ a h₁a h₂a
    obtain ⟨s₁, hs₁, h₁a⟩ := howns h₁a
    obtain ⟨s₂, hs₂, h₂a⟩ := howns h₂a
    exact hdisjoint h₁ h₂ s₁ s₂ a hs₁ hs₂ h₁a h₂a
  · intro h a n hn ho
    obtain ⟨⟨_, _, hapart⟩, _⟩ := Option.ite_none_right_eq_some.mp hn
    obtain ⟨s, hs, ha⟩ := howns ho
    exact hapart h s hs ha

/-! ## The calls, one by one -/

/-- The command only looks at the lists: a search, or a call that was refused or found nothing. -/
def Command.Quiet : Command → Answer → Prop
  | .insertNodeById _ _, .bool false => True
  | .searchNodeById _ _, _ => True
  | .removeNodeById _ _, .node none => True
  | _, _ => False

/-- The call in memory answers what the call on the sequences answers, whatever bound from some
number on its loops are given, and leaves the lists in memory that the other leaves. -/
def Refined (m : Mem) (c : Command) (answer : Answer) (L' : Lists) : Prop :=
  ∃ fuel₀ m', (∀ fuel, fuel₀ ≤ fuel → exec fuel m c = some (answer, m')) ∧ Represents m' L' ∧
    (c.Quiet answer → m' = m)

/-- On sequences too a node is taken out between the nodes before it and those after it: a list in
memory holds no node twice. -/
theorem ListAt.removeNode_split {pre post : List Node} (h : ListAt m head l)
    (hnodes : l.nodes = pre ++ n :: post) :
    GProxy.removeNode l n = ⟨pre ++ post, l.length - 1⟩ := by
  have hnodup := (List.nodup_cons.mp h.wellFormed.nodup).2.of_map
  rw [hnodes, List.perm_middle.nodup_iff] at hnodup
  have hpre : n ∉ pre := fun hn => (List.nodup_cons.mp hnodup).1 (List.mem_append_left _ hn)
  rw [GProxy.removeNode, hnodes, List.erase_append_right _ hpre, List.erase_cons_head]

/-- What follows a node in its list follows it when the node was taken out. -/
theorem ListAt.suffix_removeNode {next : List Node} (h : ListAt m head l)
    (hnext : n :: next <:+ l.nodes) : next <:+ (GProxy.removeNode l n).nodes := by
  obtain ⟨pre, hpre⟩ := hnext
  rw [h.removeNode_split hpre.symm]
  exact List.suffix_append pre next

/-- `allocHead` in memory refines the new empty list. -/
theorem allocHead_refined (hR : Represents m L) (hfree : L.free a = true) :
    Refined m (.allocHead a) (.node (some a)) { L with
      heads := update L.heads a (some GProxy.allocHead)
      free := update L.free a false } := by
  obtain ⟨m', hcall, hwf, hsame⟩ := allocHead_spec (hR.free hfree)
  refine ⟨0, m', fun fuel _ => ?_, hR.allocHead hfree hsame hwf, False.elim⟩
  rw [exec, hcall]
  rfl

/-- `allocNode` in memory refines the new node outside the lists. -/
theorem allocNode_refined (hR : Represents m L) (hfree : L.free a = true) (id : UInt32)
    (type : UInt8) (body : Option (List UInt8)) (size : Nat) :
    Refined m (.allocNode a id type body size) (.node (some a)) { L with
      loose := update L.loose a (some (GProxy.allocNode ⟨a, []⟩ id type body size).1)
      free := update L.free a false } := by
  obtain ⟨m', hcall, hat, hsame⟩ := allocNode_spec (hR.free hfree) id type body size
  refine ⟨0, m', fun fuel _ => ?_, hR.setLoose (hR.not_owns_of_free hfree) hsame ?_ ?_, False.elim⟩
  · rw [exec, hcall]
    rfl
  · intro n hn
    obtain rfl := Option.some.inj hn
    exact ⟨by cases body <;> rfl, hat⟩
  · intro hb
    cases hb

/-- A node outside the lists can be freed, and no list is touched. -/
theorem Represents.clearNode (hR : Represents m L) (hn : L.loose a = some n) :
    ∃ m', clearNode m (some a) = some m' ∧ Represents m' { L with
      loose := update L.loose a none
      free := update L.free a true } := by
  obtain ⟨rfl, hat⟩ := hR.loose hn
  refine ⟨_, clearNode_eq hat, hR.setLoose (hR.disjoint.loose hn) ?_ ?_ ?_⟩
  · intro c hc
    exact ⟨update_of_ne hc .., rfl, rfl, rfl, rfl, rfl, rfl⟩
  · intro x hx
    cases hx
  · intro _
    exact update_self ..

/-- `clearNode` in memory refines forgetting the node. -/
theorem clearNode_refined (hR : Represents m L) (hn : L.loose a = some n) :
    Refined m (.clearNode a) .done { L with
      loose := update L.loose a none
      free := update L.free a true } := by
  obtain ⟨m', hcall, hR'⟩ := hR.clearNode hn
  refine ⟨0, m', fun fuel _ => ?_, hR', False.elim⟩
  rw [exec, hcall]
  rfl

/-- `appendNode` in memory refines the one on sequences. -/
theorem appendNode_refined (hR : Represents m L) (hl : L.heads head = some l)
    (hn : L.loose a = some n) :
    Refined m (.appendNode head a) .done (L.put head (GProxy.appendNode l n) a none) := by
  obtain ⟨rfl, hat⟩ := hR.loose hn
  have hlist := hR.lists hl
  have hlength : 0 ≤ l.length := hlist.counted ▸ Int.natCast_nonneg _
  have hnew := (not_owns_iff hl).mp (hR.disjoint.loose hn)
  refine ⟨0, _, fun fuel _ => ?_, hR.linked hl hn (List.append_nil _).symm rfl ?_, False.elim⟩
  · rw [exec, appendNode_eq hlist.wellFormed hat.live hnew]
    rfl
  · exact if_pos hlength

/-- An insertion in memory answers as the one on sequences does, and puts the node where it does.
When it refuses it writes nothing, and the node stays outside the lists. -/
theorem Represents.insertNodeById (hR : Represents m L) (hl : L.heads head = some l)
    (hn : L.loose a = some n) :
    ∃ m', (∀ fuel, l.nodes.length < fuel → insertNodeById fuel m (some head) (some a) =
        some (m', (GProxy.insertNodeById l n).2)) ∧
      Represents m' (L.put head (GProxy.insertNodeById l n).1 a
        (if (GProxy.insertNodeById l n).2 then none else some n)) ∧
      ((GProxy.insertNodeById l n).2 = false → m' = m) := by
  obtain ⟨rfl, hat⟩ := hR.loose hn
  have hlist := hR.lists hl
  have hnew := (not_owns_iff hl).mp (hR.disjoint.loose hn)
  rcases insertNodeById_spec hlist.wellFormed hlist.nodes hat hnew with
    ⟨hins, hcall⟩ | ⟨pre, post, hnodes, hins, hcall⟩
  · have heq : GProxy.insertNodeById l n = (l, false) := by rw [GProxy.insertNodeById, hins]
    have hput : L.put head l n.addr (some n) = L := by
      rw [Lists.put, ← hl, ← hn, update_eq_self, update_eq_self]
    rw [heq]
    refine ⟨m, hcall, ?_, fun _ => rfl⟩
    rw [if_neg Bool.false_ne_true, hput]
    exact hR
  · have heq : GProxy.insertNodeById l n = (⟨pre ++ n :: post, l.length + 1⟩, true) := by
      rw [GProxy.insertNodeById, hins]
    rw [heq]
    exact ⟨_, hcall, hR.linked hl hn hnodes rfl rfl, fun h => Bool.noConfusion h⟩

/-- `insertNodeById` in memory refines the one on sequences. -/
theorem insertNodeById_refined (hR : Represents m L) (hl : L.heads head = some l)
    (hn : L.loose a = some n) :
    Refined m (.insertNodeById head a) (.bool (GProxy.insertNodeById l n).2)
      (L.put head (GProxy.insertNodeById l n).1 a
        (if (GProxy.insertNodeById l n).2 then none else some n)) := by
  obtain ⟨m', hcall, hR', hrefused⟩ := hR.insertNodeById hl hn
  refine ⟨l.nodes.length + 1, m', fun fuel hfuel => ?_, hR', fun hquiet => hrefused ?_⟩
  · rw [exec, hcall fuel hfuel]
    rfl
  · cases hins : (GProxy.insertNodeById l n).2 with
    | false => rfl
    | true =>
      rw [hins] at hquiet
      exact hquiet.elim

/-- A node of a list can be taken out, and is then outside the lists. -/
theorem Represents.removeNode (hR : Represents m L) (hl : L.heads head = some l)
    (hn : n ∈ l.nodes) :
    ∃ m', removeNode m (some n.addr) = some (m', some n.addr) ∧
      Represents m' (L.put head (GProxy.removeNode l n) n.addr (some n)) := by
  obtain ⟨pre, post, hnodes⟩ := List.append_of_mem hn
  have hwf := (hR.lists hl).wellFormed
  rw [hnodes, List.map_append, List.map_cons] at hwf
  rw [(hR.lists hl).removeNode_split hnodes]
  exact ⟨_, removeNode_eq hwf, hR.unlinked hl hnodes⟩

/-- `removeNode` in memory refines the one on sequences. -/
theorem removeNode_refined (hR : Represents m L) (hl : L.heads head = some l) (hn : n ∈ l.nodes) :
    Refined m (.removeNode head n.addr) (.node (some n.addr))
      (L.put head (GProxy.removeNode l n) n.addr (some n)) := by
  obtain ⟨m', hcall, hR'⟩ := hR.removeNode hl hn
  refine ⟨0, m', fun fuel _ => ?_, hR', False.elim⟩
  rw [exec, hcall]
  rfl

/-- `searchNodeById` in memory refines the one on sequences, and changes nothing. -/
theorem searchNodeById_refined (hR : Represents m L) (hl : L.heads head = some l) (id : UInt32) :
    Refined m (.searchNodeById head id)
      (.node ((GProxy.searchNodeById l id).map Node.addr)) L := by
  have hlist := hR.lists hl
  refine ⟨l.nodes.length + 1, m, fun fuel hfuel => ?_, hR, fun _ => rfl⟩
  rw [exec, searchNodeById_eq hlist.wellFormed hlist.nodes hfuel]
  rfl

/-- `removeNodeById` in memory, when a node has the number. -/
theorem removeNodeById_refined_some {id : UInt32} (hR : Represents m L)
    (hl : L.heads head = some l) (hsearch : GProxy.searchNodeById l id = some n) :
    Refined m (.removeNodeById head id) (.node (some n.addr))
      (L.put head (GProxy.removeNode l n) n.addr (some n)) := by
  have hlist := hR.lists hl
  obtain ⟨m', hcall, hR'⟩ := hR.removeNode hl (List.mem_of_find?_eq_some hsearch)
  refine ⟨l.nodes.length + 1, m', fun fuel hfuel => ?_, hR', False.elim⟩
  have hfound := searchNodeById_eq hlist.wellFormed hlist.nodes hfuel id
  rw [show l.nodes.find? _ = some n from hsearch] at hfound
  simp [exec, removeNodeById, hfound, hcall]

/-- `removeNodeById` in memory, when no node has the number: `NULL` is answered and nothing is
written. -/
theorem removeNodeById_refined_none {id : UInt32} (hR : Represents m L)
    (hl : L.heads head = some l) (hsearch : GProxy.searchNodeById l id = none) :
    Refined m (.removeNodeById head id) (.node none) L := by
  have hlist := hR.lists hl
  refine ⟨l.nodes.length + 1, m, fun fuel hfuel => ?_, hR, fun _ => rfl⟩
  have hfound := searchNodeById_eq hlist.wellFormed hlist.nodes hfuel id
  rw [show l.nodes.find? _ = none from hsearch] at hfound
  simp [exec, removeNodeById, hfound, removeNode]

/-- One call. -/
theorem step_refined {c : Command} {answer : Answer} (hR : Represents m L)
    (h : L.step c = some (answer, L')) : Refined m c answer L' := by
  cases c with
  | allocHead a =>
    obtain ⟨hfree, h⟩ := Option.ite_none_right_eq_some.mp h
    cases h
    exact allocHead_refined hR hfree
  | allocNode a id type body size =>
    obtain ⟨hfree, h⟩ := Option.ite_none_right_eq_some.mp h
    cases h
    exact allocNode_refined hR hfree id type body size
  | clearNode toClear =>
    obtain ⟨n, hn, h⟩ := Option.bind_eq_some_iff.mp h
    cases h
    exact clearNode_refined hR hn
  | appendNode head new =>
    obtain ⟨l, hl, h⟩ := Option.bind_eq_some_iff.mp h
    obtain ⟨n, hn, h⟩ := Option.bind_eq_some_iff.mp h
    cases h
    exact appendNode_refined hR hl hn
  | insertNodeById head new =>
    obtain ⟨l, hl, h⟩ := Option.bind_eq_some_iff.mp h
    obtain ⟨n, hn, h⟩ := Option.bind_eq_some_iff.mp h
    cases h
    exact insertNodeById_refined hR hl hn
  | removeNode head toRemove =>
    obtain ⟨l, hl, h⟩ := Option.bind_eq_some_iff.mp h
    obtain ⟨n, hn, h⟩ := Option.bind_eq_some_iff.mp h
    cases h
    obtain rfl : n.addr = toRemove := by simpa using List.find?_some hn
    exact removeNode_refined hR hl (List.mem_of_find?_eq_some hn)
  | searchNodeById head id =>
    obtain ⟨l, hl, h⟩ := Option.bind_eq_some_iff.mp h
    cases h
    exact searchNodeById_refined hR hl id
  | removeNodeById head id =>
    obtain ⟨l, hl, h⟩ := Option.bind_eq_some_iff.mp h
    unfold GProxy.removeNodeById at h
    cases hsearch : GProxy.searchNodeById l id with
    | some n =>
      rw [hsearch] at h
      cases h
      exact removeNodeById_refined_some hR hl hsearch
    | none =>
      rw [hsearch] at h
      cases h
      exact removeNodeById_refined_none hR hl hsearch

end

/-! ## Runs -/

/-- Every run of calls that the sequences allow has a result in memory: the loops end, the answers
are those the sequences give, and the memory holds the sequences afterwards, well formed and apart
from one another. What only looks at a list leaves the memory as it was. -/
theorem pointer_lists_refine {m : Mem} {L : Lists} (hR : Represents m L) :
    (∀ cs answers L', L.run cs = some (answers, L') → ∃ fuel₀ m',
      (∀ fuel, fuel₀ ≤ fuel → execAll fuel m cs = some (answers, m')) ∧ Represents m' L') ∧
    ∀ c answer L', L.step c = some (answer, L') → c.Quiet answer → ∃ fuel₀,
      ∀ fuel, fuel₀ ≤ fuel → exec fuel m c = some (answer, m) := by
  refine ⟨fun cs => ?_, ?_⟩
  · induction cs generalizing m L with
    | nil =>
      intro answers L' h
      cases h
      exact ⟨0, m, fun fuel _ => rfl, hR⟩
    | cons c cs ih =>
      intro answers L' h
      obtain ⟨⟨answer, L₁⟩, hstep, h⟩ := Option.bind_eq_some_iff.mp h
      obtain ⟨⟨rest, L₂⟩, hrun, h⟩ := Option.bind_eq_some_iff.mp h
      cases h
      obtain ⟨fuel₁, m₁, hexec, hR₁, _⟩ := step_refined hR hstep
      obtain ⟨fuel₂, m₂, hexecAll, hR₂⟩ := ih hR₁ rest L' hrun
      refine ⟨max fuel₁ fuel₂, m₂, fun fuel hfuel => ?_, hR₂⟩
      obtain ⟨h₁, h₂⟩ := Nat.max_le.mp hfuel
      rw [execAll, hexec fuel h₁]
      show (execAll fuel m₁ cs).bind _ = _
      rw [hexecAll fuel h₂]
      rfl
  · intro c answer L' hstep hquiet
    obtain ⟨fuel₀, m', hexec, _, hsame⟩ := step_refined hR hstep
    obtain rfl := hsame hquiet
    exact ⟨fuel₀, hexec⟩

/-- Before anything is allocated. -/
def Lists.initial : Lists := ⟨fun _ => none, fun _ => none, fun _ => true⟩

def Mem.initial : Mem :=
  ⟨fun _ => false, fun _ => none, fun _ => none, fun _ => none, fun _ => none, fun _ => 0,
    fun _ => 0⟩

/-- The memory where nothing is allocated holds no list. -/
theorem represents_initial : Represents Mem.initial Lists.initial where
  lists := by
    intro h l hl
    cases hl
  loose := by
    intro a n hn
    cases hn
  free := fun _ => rfl
  disjoint := by
    refine ⟨?_, ?_⟩
    · rintro h₁ h₂ a ⟨l, hl, _⟩
      cases hl
    · intro h a n hn
      cases hn

/-- Two lists, and two nodes that go from one to the other; the number 7 is refused the second
time. -/
theorem pointer_lists_refine_initial : ∃ L' fuel₀ m',
    (∀ fuel, fuel₀ ≤ fuel → execAll fuel Mem.initial
      [.allocHead 0, .allocHead 1, .allocNode 2 5 65 none 0, .allocNode 3 7 65 none 0,
        .allocNode 4 7 65 none 0, .appendNode 0 3, .appendNode 0 2, .searchNodeById 0 5,
        .removeNodeById 0 7, .insertNodeById 1 3, .removeNode 0 2, .insertNodeById 1 2,
        .insertNodeById 1 4, .removeNodeById 0 7] =
      some ([.node (some 0), .node (some 1), .node (some 2), .node (some 3), .node (some 4), .done,
        .done, .node (some 2), .node (some 3), .bool true, .node (some 2), .bool true,
        .bool false, .node none], m')) ∧ Represents m' L' := by
  exact ⟨_, (pointer_lists_refine represents_initial).1 _ _ _ rfl⟩

end GProxy.Pointers
