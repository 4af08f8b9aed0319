import GProxy.Pointers.ForEach
import GProxy.Wire

/-!
# Lists apart from where their nodes stand

The functions on sequences take the addresses of new nodes in turn; `malloc` takes what it likes.
What the functions do to a list does not depend on it: lists with the same contents, given nodes
with the same contents, have the same contents afterwards (`Like`).

So a walk over a list in memory is compared with a walk over a sequence by what is left of the two
(`Walks`): the pointer stands at the first of the nodes left in memory, and these have the contents
of the nodes left in the sequence.
-/

namespace GProxy

open SortedInsert

/-- A node, apart from where it stands. -/
def Node.value (n : Node) : Pkt × Int := (n.packet, n.pktSize)

/-- A list, apart from where its nodes stand. -/
structure Head.Like (l l' : Head) : Prop where
  nodes : l.nodes.map Node.value = l'.nodes.map Node.value
  length : l.length = l'.length

section

variable {l l' : Head} {n n' : Node}

/-- Nodes of one value have one packet. -/
theorem value_packet (h : n.value = n'.value) : n.packet = n'.packet :=
  congrArg Prod.fst h

/-- Nodes of one value have one size, so `sendto` is given as many bytes for either. -/
theorem value_pktSize (h : n.value = n'.value) : n.pktSize = n'.pktSize :=
  congrArg Prod.snd h

/-- Nodes of one value send the same bytes. -/
theorem value_payload (h : n.value = n'.value) : n.payload = n'.payload := by
  rw [Node.payload, Node.payload, value_packet h, value_pktSize h]

/-- Lists of the same contents have the same numbers in the same order. -/
theorem Head.Like.ids (h : l.Like l') : l.nodes.map Node.id = l'.nodes.map Node.id := by
  have hids := congrArg (List.map fun c : Pkt × Int => c.1.id.toNat) h.nodes
  rwa [List.map_map, List.map_map] at hids

/-- Appending nodes of one value to lists of the same contents keeps them so. -/
theorem Head.Like.append (h : l.Like l') (hn : n.value = n'.value) :
    (appendNode l n).Like (appendNode l' n') := by
  constructor
  · simp only [appendNode, List.map_append, List.map_cons, List.map_nil, h.nodes, hn]
  · simp only [appendNode, h.length]

/-- An insertion into one is refused when it is into the other. -/
theorem Head.Like.insert (h : l.Like l') (hn : n.value = n'.value) :
    (insertNodeById l n).1.Like (insertNodeById l' n').1 ∧
      (insertNodeById l n).2 = (insertNodeById l' n').2 := by
  have hins : (insertBy Node.id n l.nodes).map (List.map Node.value) =
      (insertBy Node.id n' l'.nodes).map (List.map Node.value) := by
    have hmap := insertBy_map (fun c : Pkt × Int => c.1.id.toNat) Node.value
    exact (hmap n l.nodes).symm.trans (by rw [h.nodes, hn, hmap n' l'.nodes]; rfl)
  unfold insertNodeById
  cases hl : insertBy Node.id n l.nodes with
  | none =>
    rw [hl, Option.map_none, eq_comm, Option.map_eq_none_iff] at hins
    rw [hins]
    exact ⟨h, rfl⟩
  | some nodes =>
    rw [hl, Option.map_some, eq_comm, Option.map_eq_some_iff] at hins
    obtain ⟨nodes', hl', hnodes⟩ := hins
    rw [hl']
    exact ⟨⟨hnodes.symm, congrArg (· + 1) h.length⟩, rfl⟩

/-- A number is found in one when it is found in the other. -/
theorem Head.Like.search (h : l.Like l') (id : UInt32) :
    (searchNodeById l id).map Node.value = (searchNodeById l' id).map Node.value := by
  have hfind : ∀ nodes : List Node, (nodes.find? (·.packet.id = id)).map Node.value =
      (nodes.map Node.value).find? (·.1.id = id) := by
    intro nodes
    rw [List.find?_map]
    rfl
  rw [searchNodeById, searchNodeById, hfind, hfind, h.nodes]

/-- A node found by its number is the first with it, so taking it out takes out the first. -/
theorem removeNode_found {id : UInt32} (hsearch : searchNodeById l id = some n) :
    (removeNode l n).nodes = l.nodes.eraseP (·.packet.id = id) := by
  obtain ⟨hid, pre, post, hnodes, hpre⟩ := List.find?_eq_some_iff_append.mp hsearch
  have hmem : n ∉ pre := by
    intro hn
    have hne := hpre n hn
    rw [hid] at hne
    cases hne
  have hne : ∀ x ∈ pre, ¬decide (x.packet.id = id) = true := by
    intro x hx
    simpa using hpre x hx
  have hcons : (n :: post).eraseP (·.packet.id = id) = post := List.eraseP_cons_of_pos hid
  rw [removeNode, hnodes, List.erase_append_right _ hmem, List.erase_cons_head,
    List.eraseP_append_right _ hne, hcons]

/-- A node found by its number is taken out. -/
theorem Head.Like.removeById (h : l.Like l') {id : UInt32}
    (hsearch : searchNodeById l id = some n) (hsearch' : searchNodeById l' id = some n') :
    (removeNode l n).Like (removeNode l' n') := by
  have herase : ∀ nodes : List Node, (nodes.eraseP (·.packet.id = id)).map Node.value =
      (nodes.map Node.value).eraseP (·.1.id = id) := by
    intro nodes
    rw [List.eraseP_map]
    rfl
  constructor
  · rw [removeNode_found hsearch, removeNode_found hsearch', herase, herase, h.nodes]
  · exact congrArg (· - 1) h.length

/-- Where no number occurs twice, a node is taken out by its number. -/
theorem Head.Like.remove (h : l.Like l') (hnodup : (l'.nodes.map Node.id).Nodup)
    (hmem : n ∈ l.nodes) (hmem' : n' ∈ l'.nodes) (hn : n.value = n'.value) :
    (removeNode l n).Like (removeNode l' n') := by
  have hfilter : ∀ nodes : List Node,
      (nodes.filter (·.packet.id ≠ n'.packet.id)).map Node.value =
        (nodes.map Node.value).filter (·.1.id ≠ n'.packet.id) := by
    intro nodes
    rw [List.filter_map]
    rfl
  constructor
  · rw [removeNode_eq_filter (h.ids ▸ hnodup) hmem, removeNode_eq_filter hnodup hmem',
      value_packet hn, hfilter, hfilter, h.nodes]
  · exact congrArg (· - 1) h.length

end

namespace InMemory

open Pointers (Addr Ptr Mem Lists Represents ListAt NodeAt SameAt)
open Function (update update_self update_of_ne)

/-- `*p->packet` -/
def getPacket (m : Mem) (p : Ptr) : Option Pkt := do
  let packet ← m.get m.packet p
  packet

/-! ## A node outside the lists -/

section

variable {m m' : Mem} {L : Lists} {a : Addr} {n n' : Node}

/-- Reading the packet of an allocated node has a result. -/
theorem getPacket_some {packet : Pkt} (hlive : m.live a = true)
    (hpacket : m.packet a = some packet) : getPacket m (some a) = some packet := by
  simp [getPacket, hlive, hpacket]

/-- What `malloc` may return is what is not in use. -/
theorem represents_free (hR : Represents m L) :
    Represents m { L with free := fun a => !m.live a } where
  lists := hR.lists
  loose := hR.loose
  free := fun ha => (Bool.not_eq_true' _).mp ha
  disjoint := ⟨hR.disjoint.owner, hR.disjoint.loose⟩

/-- Any memory holds no list at first. -/
theorem represents_nothing (m : Mem) :
    Represents m ⟨fun _ => none, fun _ => none, fun a => !m.live a⟩ where
  lists := by
    intro h l hl
    cases hl
  loose := by
    intro a n hn
    cases hn
  free := fun ha => (Bool.not_eq_true' _).mp ha
  disjoint := by
    refine ⟨?_, ?_⟩
    · rintro h₁ h₂ a ⟨l, hl, _⟩
      cases hl
    · intro h a n hn
      cases hn

/-- `allocHead` adds an empty list. -/
theorem allocHead_apart (hR : Represents m L) (ha : m.live a = false) :
    ∃ m' L', Pointers.allocHead m a = some (m', some a) ∧ Represents m' L' ∧
      L'.heads = update L.heads a (some allocHead) ∧ ∀ c, c ≠ a → m'.live c = m.live c := by
  have hfree : (!m.live a) = true := by rw [ha]; rfl
  obtain ⟨m', hcall, hat, hsame⟩ := Pointers.allocHead_spec ha
  exact ⟨m', _, hcall, (represents_free hR).allocHead hfree hsame hat, rfl,
    fun c hc => (hsame c hc).live⟩

/-- `allocNode` adds a node outside the lists. -/
theorem allocNode_apart (hR : Represents m L) (ha : m.live a = false) (id : UInt32) (type : UInt8)
    (body : Option (List UInt8)) (size : Nat) :
    ∃ m' L', Pointers.allocNode m a id type body size = some (m', some a) ∧ Represents m' L' ∧
      L'.heads = L.heads ∧ L'.loose a = some (allocNode ⟨a, []⟩ id type body size).1 := by
  have hfree : (!m.live a) = true := by rw [ha]; rfl
  obtain ⟨m', hcall, hat, hsame⟩ := Pointers.allocNode_spec ha id type body size
  have haddr : (allocNode ⟨a, []⟩ id type body size).1.addr = a := by cases body <;> rfl
  refine ⟨m', _, hcall, (represents_free hR).setLoose (b := false)
    ((represents_free hR).not_owns_of_free hfree) hsame ?_ ?_, rfl, update_self ..⟩
  · intro x hx
    cases hx
    exact ⟨haddr, hat⟩
  · intro hb
    cases hb

/-- A node outside the lists is written. -/
theorem rewrite_apart (hR : Represents m L) (hn : L.loose n.addr = some n)
    (hat : NodeAt m' n') (haddr : n'.addr = n.addr) (hsame : ∀ c, c ≠ n.addr → SameAt m m' c) :
    ∃ L', Represents m' L' ∧ L'.heads = L.heads ∧ L'.loose n'.addr = some n' := by
  have hR' : Represents m' { L with
      loose := update L.loose n.addr (some n')
      free := update L.free n.addr false } := by
    refine hR.setLoose (hR.disjoint.loose hn) hsame ?_ ?_
    · intro x hx
      cases hx
      exact ⟨haddr, hat⟩
    · intro hb
      cases hb
  refine ⟨_, hR', rfl, ?_⟩
  rw [haddr]
  exact update_self ..

/-- `appendNode` of a node outside the lists. -/
theorem appendNode_apart {head : Addr} {l : Head} (hR : Represents m L)
    (hl : L.heads head = some l) (hn : L.loose a = some n) :
    ∃ m', Pointers.appendNode m (some head) (some a) = some m' ∧
      Represents m' (L.put head (appendNode l n) a none) := by
  obtain ⟨rfl, hat⟩ := hR.loose hn
  have hlist := hR.lists hl
  have hlength : 0 ≤ l.length := hlist.counted ▸ Int.natCast_nonneg _
  have hnew := (Pointers.not_owns_iff hl).mp (hR.disjoint.loose hn)
  have happend : appendNode l n = ⟨l.nodes ++ [n], l.length + 1⟩ := by
    rw [appendNode, if_pos hlength]
  rw [happend]
  exact ⟨_, Pointers.appendNode_eq hlist.wellFormed hat.live hnew,
    hR.linked hl hn (List.append_nil _).symm rfl rfl⟩

/-- `removeNodeById` where a node has the number. -/
theorem removeNodeById_found {head : Addr} {l : Head} {id : UInt32} {fuel : Nat}
    (hR : Represents m L) (hl : L.heads head = some l) (hfuel : l.nodes.length < fuel)
    (hsearch : searchNodeById l id = some n) :
    ∃ m', Pointers.removeNodeById fuel m (some head) id = some (m', some n.addr) ∧
      Represents m' (L.put head (removeNode l n) n.addr (some n)) := by
  have hlist := hR.lists hl
  obtain ⟨m', hcall, hR'⟩ := hR.removeNode hl (List.mem_of_find?_eq_some hsearch)
  have hfound := Pointers.searchNodeById_eq hlist.wellFormed hlist.nodes hfuel id
  rw [show l.nodes.find? _ = some n from hsearch] at hfound
  refine ⟨m', ?_, hR'⟩
  simp [Pointers.removeNodeById, hfound, hcall]

/-- `removeNodeById` where no node has the number. -/
theorem removeNodeById_absent {head : Addr} {l : Head} {id : UInt32} {fuel : Nat}
    (hR : Represents m L) (hl : L.heads head = some l) (hfuel : l.nodes.length < fuel)
    (hsearch : searchNodeById l id = none) :
    Pointers.removeNodeById fuel m (some head) id = some (m, none) := by
  have hlist := hR.lists hl
  have hfound := Pointers.searchNodeById_eq hlist.wellFormed hlist.nodes hfuel id
  rw [show l.nodes.find? _ = none from hsearch] at hfound
  simp [Pointers.removeNodeById, hfound, Pointers.removeNode]

/-- What is changed in a packet in place and changed back leaves the memory as it was. -/
theorem setPacket_restored {packet : Pkt} (hlive : m.live a = true)
    (hpacket : m.packet a = some packet) (packet' : Pkt) :
    ∃ m', m.setPacket (some a) packet' = some m' ∧ m'.setPacket (some a) packet = some m ∧
      m'.pktSize = m.pktSize ∧ m'.live a = true ∧ getPacket m' (some a) = some packet' := by
  have hback : update (update m.packet a (some packet')) a (some packet) = m.packet := by
    rw [Function.update_idem, ← hpacket, Function.update_eq_self]
  refine ⟨_, Mem.setPacket_some hlive packet', ?_, rfl, hlive,
    getPacket_some hlive (update_self ..)⟩
  refine (Mem.setPacket_some
    (m := { m with packet := update m.packet a (some packet') }) hlive packet).trans ?_
  simp only [hback]

/-- Writing the packet of a node that is in no list changes no list. -/
theorem setPacket_apart (hR : Represents m L) (hn : L.loose n.addr = some n) (packet : Pkt) :
    ∃ m' L', m.setPacket (some n.addr) packet = some m' ∧ Represents m' L' ∧ L'.heads = L.heads ∧
      L'.loose n.addr = some { n with packet } := by
  have hat := (hR.loose hn).2
  have hat' : NodeAt { m with packet := update m.packet n.addr (some packet) }
      { n with packet } := ⟨hat.live, update_self .., hat.pktSize⟩
  obtain ⟨L', hR', hheads, hn'⟩ := rewrite_apart hR hn hat' rfl
    fun c hc => ⟨rfl, update_of_ne hc .., rfl, rfl, rfl, rfl, rfl⟩
  exact ⟨_, L', Mem.setPacket_some hat.live packet, hR', hheads, hn'⟩

/-- Writing the size of a node that is in no list changes no list. -/
theorem setPktSize_apart (hR : Represents m L) (hn : L.loose n.addr = some n) (pktSize : Int) :
    ∃ m' L', m.setPktSize (some n.addr) pktSize = some m' ∧ Represents m' L' ∧
      L'.heads = L.heads ∧ L'.loose n.addr = some { n with pktSize } := by
  have hat := (hR.loose hn).2
  have hat' : NodeAt { m with pktSize := update m.pktSize n.addr pktSize }
      { n with pktSize } := ⟨hat.live, hat.packet, update_self ..⟩
  obtain ⟨L', hR', hheads, hn'⟩ := rewrite_apart hR hn hat' rfl
    fun c hc => ⟨rfl, rfl, rfl, rfl, rfl, rfl, update_of_ne hc ..⟩
  exact ⟨_, L', Mem.setPktSize_some hat.live pktSize, hR', hheads, hn'⟩

end

/-! ## The pointer of a walk -/

/-- The pointer of a walk stands at the first of the nodes left, at the head if none is. -/
def Walks (head : Addr) (l : Head) (iter : Ptr) (left : List Node) : Prop :=
  ∃ nodes, nodes <:+ l.nodes ∧ nodes.map Node.value = left.map Node.value ∧
    iter = some ((nodes.map Node.addr).headD head)

/-- The loop of `forEach` ends. -/
def scanOver (maxPackets : Nat) (head iter : Ptr) (scans : Nat) : Bool :=
  iter = head || (maxPackets ≠ 0 && scans ≥ maxPackets)

section

variable {m : Mem} {L : Lists} {head : Addr} {l l' : Head} {iter : Ptr} {left : List Node}
  {n : Node} {maxPackets scans : Nat}

/-- `iter = head->next` -/
theorem walks_start (h : ListAt m head l) (hlike : l.Like l') :
    ∃ iter, m.get m.next (some head) = some iter ∧ Walks head l iter l'.nodes := by
  refine ⟨_, ?_, l.nodes, List.suffix_rfl, hlike.nodes, rfl⟩
  rw [Mem.get_some h.wellFormed.live_head, h.wellFormed.forward.next_start]

/-- Both loops end at once. -/
theorem Walks.over (hwalk : Walks head l iter left) (h : ListAt m head l) :
    scanOver maxPackets (some head) iter scans = scanDone maxPackets scans left := by
  obtain ⟨nodes, hnodes, hvalue, rfl⟩ := hwalk
  cases nodes with
  | nil =>
    obtain rfl : left = [] := List.map_eq_nil_iff.mp hvalue.symm
    simp [scanOver, scanDone]
  | cons x rest =>
    obtain ⟨n, left, rfl, _, _⟩ := List.map_eq_cons_iff.mp hvalue.symm
    have hne : x.addr ≠ head := by
      rintro rfl
      exact h.wellFormed.not_mem (List.mem_map_of_mem (hnodes.subset List.mem_cons_self))
    simp [scanOver, scanDone, hne]

/-- One turn: the node at the pointer has the contents of the next node of the sequence, and
`next = iter->next` is where the walk goes on. -/
theorem Walks.turn (hwalk : Walks head l iter (n :: left)) (h : ListAt m head l) :
    ∃ x rest, iter = some x.addr ∧ x :: rest <:+ l.nodes ∧ x.value = n.value ∧
      rest.map Node.value = left.map Node.value ∧
      m.get m.next iter = some (some ((rest.map Node.addr).headD head)) := by
  obtain ⟨nodes, hnodes, hvalue, rfl⟩ := hwalk
  obtain ⟨x, rest, rfl, hx, hrest⟩ := List.map_eq_cons_iff.mp hvalue
  refine ⟨x, rest, rfl, hnodes, hx, hrest, ?_⟩
  obtain ⟨pre, hpre⟩ := hnodes
  have hwf := h.wellFormed
  rw [← hpre, List.map_append] at hwf
  exact (hwf.linked_rest _).next_eq

end

end InMemory

end GProxy
