import GProxy.Preceiver.Lists
import Mathlib.Data.List.Perm.Subperm

/-!
# Who owns a node

Every node `allocNode` gave out and `clearNode` has not taken back should be linked in one of the
two lists. `receiveFromPsender` drops the answer of `insertNodeById`, so a node that is refused
because its number is in the list already is linked nowhere and stays allocated. `refuses` names
those steps; without one every live node is linked exactly once (`live_linked`), and one of them
is enough to lose a node (`Kept.lost`).
-/

namespace GProxy.Preceiver

open SortedInsert

/-- The addresses of the linked nodes. -/
def Globals.linked (g : Globals) : List Nat := (g.toSend.nodes ++ g.toAck.nodes).map Node.addr

/-- The live nodes are the linked ones, each linked once. -/
structure Owned (g : Globals) : Prop where
  linked_perm : g.linked.Perm g.heap.live
  live_nodup : g.heap.live.Nodup
  live_lt : ∀ a ∈ g.heap.live, a < g.heap.next

/-- The step inserts a node into a list that has its number already: a body packet is read whose
number is still in `toSend`, or in `toAck` with room there, or a packet is delivered whose number
is in `toAck`. -/
def Config.refuses (maxPackets : Nat) (c : Config) (e : Event) : Bool :=
  match e, c.pc with
  | .send sendCounter, .delivering (iter :: _) _ =>
    iter.packet.id = c.globals.lastSentId && sendCounter ≠ 0 && sendCounter ≠ -1 &&
      c.globals.toAck.hasId iter.id
  | .recv outcomes, .receiving _ =>
    match doWhileUpTo recvAgain (maxOps - 1) outcomes with
    | some (.data (b :: bs), _) =>
      let bytes := received (b :: bs)
      let id := (c.globals.incoming bytes).id
      (Pkt.ofImage bytes).type = typeB &&
        if c.globals.lastSentId.toNat ≤ id then c.globals.toSend.hasId id
        else c.globals.toAck.length < (maxPackets : Int) && c.globals.toAck.hasId id
    | _ => false
  | _, _ => false

/-- The invariant of a run: ownership, and the order that makes a refusal exact. -/
structure Config.Kept (c : Config) : Prop where
  owned : Owned c.globals
  inOrder : InOrder c.globals
  walks : c.Walks

/-- At the start no node is allocated and none is linked. -/
theorem Config.Kept.initial : Config.initial.Kept :=
  ⟨⟨.refl _, List.nodup_nil, fun _ h => by cases h⟩, .initial, trivial⟩

/-- Taking the next address and linking it. -/
theorem Owned.grow {g g' : Globals} (h : Owned g) (hheap : g'.heap = g.heap.taken)
    (hlinked : g'.linked.Perm (g.heap.next :: g.linked)) : Owned g' := by
  refine ⟨?_, ?_, ?_⟩
  · rw [hheap]
    exact hlinked.trans (h.linked_perm.cons _)
  · rw [hheap]
    exact List.nodup_cons.mpr ⟨fun hn => lt_irrefl _ (h.live_lt _ hn), h.live_nodup⟩
  · rw [hheap]
    intro a ha
    rcases List.mem_cons.mp ha with rfl | ha
    · exact Nat.lt_succ_self _
    · exact Nat.lt_succ_of_lt (h.live_lt a ha)

/-- Taking an address and giving it back. -/
theorem Owned.skip {g g' : Globals} (h : Owned g) (hheap : g'.heap = g.heap.skipped)
    (hlinked : g'.linked = g.linked) : Owned g' := by
  refine ⟨?_, ?_, ?_⟩
  · rw [hheap, hlinked]
    exact h.linked_perm
  · rw [hheap]
    exact h.live_nodup
  · rw [hheap]
    exact fun a ha => Nat.lt_succ_of_lt (h.live_lt a ha)

/-- A node goes from one list to the other. -/
theorem linked_moved {g : Globals} {n : Node} (hn : n ∈ g.toSend.nodes) {toAck : List Node}
    (hins : toAck.Perm (n :: g.toAck.nodes)) :
    ((g.toSend.nodes.erase n ++ toAck).map Node.addr).Perm g.linked := by
  apply List.Perm.map
  calc g.toSend.nodes.erase n ++ toAck
      _ |>.Perm (g.toSend.nodes.erase n ++ n :: g.toAck.nodes) := hins.append_left _
      _ |>.Perm (n :: (g.toSend.nodes.erase n ++ g.toAck.nodes)) := List.perm_middle
      _ |>.Perm (g.toSend.nodes ++ g.toAck.nodes) := (List.perm_cons_erase hn).symm.append_right _

/-- An acknowledged node is unlinked and freed. -/
theorem Owned.acknowledged {g : Globals} (h : Owned g) {n : Node} (hn : n ∈ g.toAck.nodes)
    (stack : List UInt8) : Owned (ackPacket stack g n) := by
  have hperm : g.heap.live.Perm (n.addr :: (ackPacket stack g n).linked) := by
    refine h.linked_perm.symm.trans ?_
    rw [Globals.linked, Globals.linked, ackPacket_toSend, ackPacket_toAck, ← List.map_cons]
    apply List.Perm.map
    exact ((List.perm_cons_erase hn).append_left _).trans List.perm_middle
  have herase : (ackPacket stack g n).heap.live.Perm (ackPacket stack g n).linked := by
    rw [ackPacket_heap]
    have := hperm.erase n.addr
    rwa [List.erase_cons_head] at this
  refine ⟨herase.symm, ?_, ?_⟩
  · rw [ackPacket_heap]
    exact h.live_nodup.erase _
  · rw [ackPacket_heap]
    exact fun a ha => h.live_lt a (List.mem_of_mem_erase ha)

/-- A step that refuses no node keeps the ownership. -/
theorem Owned.stepped {maxPackets : Nat} {c c' : Config} {e : Event} (h : Owned c.globals)
    (hwalk : c.Walks) (hrefuse : c.refuses maxPackets e = false)
    (st : Stepped maxPackets c e c') : Owned c'.globals := by
  cases st with
  | timeout => exact { h with }
  | ack hd => exact h.acknowledged hwalk.mem_toAck _
  | @send g g' iter next scans sendCounter hd hsend =>
    rcases sendToReceiver_ok hsend with ⟨rfl, _⟩ | ⟨hid, h0, h1, rfl⟩
    · exact h
    · simp only [Config.refuses, hid, decide_true, h0, h1, ne_eq, not_false_eq_true,
        Bool.and_self, Bool.true_and] at hrefuse
      have hins := (insertNodeById_of_absent (Head.hasId_eq_false_iff.mp hrefuse)).2
      exact { h with linked_perm := (linked_moved hwalk.mem_toSend hins).trans h.linked_perm }
  | @recv g g' counter outcomes r hc hr hg =>
    cases receives_of_ok hg with
    | nothing hnone => exact h.skip rfl rfl
    | icmp hb htype => exact h.skip rfl rfl
    | dropped hb htype hid hfull => exact h.skip rfl rfl
    | @ahead b bs bytes hb htype hid =>
      subst hb
      simp only [Config.refuses, hr, htype, decide_true, if_pos hid, Bool.true_and] at hrefuse
      have hins := (insertNodeById_of_absent (Head.hasId_eq_false_iff.mp hrefuse)).2
      refine h.grow rfl ?_
      exact (hins.append_right _).map Node.addr
    | @behind b bs bytes hb htype hid hroom =>
      subst hb
      simp only [Config.refuses, hr, htype, decide_true, if_neg (Nat.not_le.mpr hid), hroom,
        Bool.true_and] at hrefuse
      have hins := (insertNodeById_of_absent (Head.hasId_eq_false_iff.mp hrefuse)).2
      refine h.grow rfl ?_
      exact ((hins.append_left _).trans List.perm_middle).map Node.addr
  | finished | deliver | delivered | acked | received | interrupted | readable
  | error => exact h

/-- Each step that refuses no node keeps what is allocated and what is linked the same. -/
theorem Config.Kept.stepped {maxPackets : Nat} {c c' : Config} {e : Event} (h : c.Kept)
    (hrefuse : c.refuses maxPackets e = false) (st : Stepped maxPackets c e c') : c'.Kept :=
  ⟨h.owned.stepped h.walks hrefuse st, h.inOrder.stepped h.walks st, h.walks.stepped st⟩

/-- The linked nodes are those of the two lists. -/
theorem Globals.linked_length (g : Globals) :
    g.linked.length = g.toSend.nodes.length + g.toAck.nodes.length := by
  rw [Globals.linked, List.length_map, List.length_append]

/-- A step that refuses a node leaves one more node live than are linked. -/
theorem Config.Kept.lost {maxPackets : Nat} {c c' : Config} {e : Event} (h : c.Kept)
    (hrefuse : c.refuses maxPackets e = true) (st : Stepped maxPackets c e c')
    (hrun : ∀ why, c'.pc ≠ .exited why) :
    c'.globals.heap.live.length = c'.globals.linked.length + 1 := by
  have hlen := h.owned.linked_perm.length_eq
  rw [Globals.linked_length] at hlen ⊢
  cases st with
  | @send g g' iter next scans sendCounter hd hsend =>
    simp only [Config.refuses, Bool.and_eq_true, decide_eq_true_eq] at hrefuse
    obtain ⟨⟨⟨hid, h0⟩, h1⟩, hhas⟩ := hrefuse
    rcases sendToReceiver_ok hsend with ⟨_, hzero⟩ | ⟨_, _, _, rfl⟩
    · exact absurd (hzero hid) h0
    · have hpos := List.length_pos_of_mem h.walks.mem_toSend
      simp only [insertNodeById_of_present h.inOrder.toAck_increasing hhas, removeNode,
        List.length_erase_of_mem h.walks.mem_toSend] at hlen ⊢
      omega
  | @recv g g' counter outcomes r hc hr hg =>
    cases receives_of_ok hg with
    | nothing hnone =>
      cases r with
      | failed errno => simp [Config.refuses, hr] at hrefuse
      | data bytes =>
        cases bytes with
        | nil => simp [Config.refuses, hr] at hrefuse
        | cons b bs => exact absurd rfl (hnone b bs)
    | icmp hb htype =>
      subst hb
      simp [Config.refuses, hr, htype] at hrefuse
    | @ahead b bs bytes hb htype hid =>
      subst hb
      simp only [Config.refuses, hr, htype, decide_true, if_pos hid, Bool.true_and] at hrefuse
      simp only [insertNodeById_of_present h.inOrder.toSend_increasing hrefuse, Heap.taken,
        List.length_cons] at hlen ⊢
      omega
    | @behind b bs bytes hb htype hid hroom =>
      subst hb
      simp only [Config.refuses, hr, htype, decide_true, if_neg (Nat.not_le.mpr hid), hroom,
        Bool.true_and] at hrefuse
      simp only [insertNodeById_of_present h.inOrder.toAck_increasing hrefuse, Heap.taken,
        List.length_cons] at hlen ⊢
      omega
    | dropped hb htype hid hfull =>
      subst hb
      have hroom : ¬ g.toAck.length < (maxPackets : Int) := Int.not_lt.mpr hfull
      simp [Config.refuses, hr, if_neg (Nat.not_le.mpr hid), hroom] at hrefuse
  | error => exact absurd rfl (hrun _)
  | finished | deliver | delivered | acked | received | ack | interrupted | readable
  | timeout => cases hrefuse

/-- The environment of a run that refuses no node. -/
def NoRefusal (maxPackets : Nat) (c : Config) (e : Event) : Prop :=
  c.refuses maxPackets e = false

instance (maxPackets : Nat) (c : Config) (e : Event) : Decidable (NoRefusal maxPackets c e) :=
  inferInstanceAs (Decidable (c.refuses maxPackets e = false))

/-- The node at an address is linked in `toSend` or in `toAck`, and not in both. -/
def Globals.LinkedOnce (g : Globals) (a : Nat) : Prop :=
  (a ∈ g.toSend.nodes.map Node.addr ∧ a ∉ g.toAck.nodes.map Node.addr) ∨
    (a ∉ g.toSend.nodes.map Node.addr ∧ a ∈ g.toAck.nodes.map Node.addr)

/-- What is linked without repetition is linked once. -/
theorem Globals.linkedOnce_of_mem {g : Globals} (hnodup : g.linked.Nodup) {a : Nat}
    (ha : a ∈ g.linked) : g.LinkedOnce a := by
  rw [Globals.linked, List.map_append] at hnodup ha
  have hdisj := List.disjoint_of_nodup_append hnodup
  rcases List.mem_append.mp ha with hs | hs
  · exact .inl ⟨hs, fun hk => hdisj hs hk⟩
  · exact .inr ⟨fun hk => hdisj hk hs, hs⟩

/-- In a run that refuses no node every live node is linked in exactly one of the lists, so their
lengths add up to the number of live nodes. -/
theorem live_linked {maxPackets : Nat} {c : Config}
    (run : Machine.Run (step maxPackets) (NoRefusal maxPackets) .initial c) :
    (∀ a ∈ c.globals.heap.live, c.globals.LinkedOnce a) ∧
      c.globals.linked.Nodup ∧ c.globals.linked.Perm c.globals.heap.live ∧
      (c.globals.heap.live.length : Int) = c.globals.toSend.length + c.globals.toAck.length := by
  have hkept : c.Kept := Machine.Run.invariant
    (fun _ _ _ h hrefuse hstep => h.stepped hrefuse (stepped_of_step hstep)) run .initial
  have hperm := hkept.owned.linked_perm
  have hnodup : c.globals.linked.Nodup := hperm.nodup_iff.mpr hkept.owned.live_nodup
  refine ⟨?_, hnodup, hperm, ?_⟩
  · intro a ha
    exact Globals.linkedOnce_of_mem hnodup (hperm.mem_iff.mpr ha)
  · have hlen := hperm.length_eq
    rw [Globals.linked_length] at hlen
    rw [hkept.inOrder.toSend_counted, hkept.inOrder.toAck_counted]
    omega

/-- In the run of the overtaken packet no node is refused. -/
theorem overtaken_refuses_none :
    (Machine.exec (step 2) (NoRefusal 2) .initial overtaken).isSome := by decide

/-- At its end two nodes are allocated, and two are linked. -/
theorem live_linked_overtaken :
    (((Machine.exec (step 2) (NoRefusal 2) .initial overtaken).get
      overtaken_refuses_none).globals.heap.live.length : Int) = 1 + 1 :=
  (live_linked (Machine.run_exec overtaken_refuses_none)).2.2.2

/-- A run in which packet 2 arrives twice while packet 1 is missing. -/
def retransmitted : List Event :=
  [.go, .go, .go, .select (.ready true), .recv [.data (dataDatagram 2 [8])],
    .recv [.data (dataDatagram 2 [8])], .go]

/-- The run can be made. -/
theorem retransmitted_possible :
    (Machine.exec (step 2) Machine.Free .initial retransmitted).isSome := by decide

/-- Not every run keeps its nodes: the second copy of a buffered packet stays allocated and is
linked nowhere. -/
theorem retransmission_leaks :
    ¬ ∀ (maxPackets : Nat) (c : Config), 1 ≤ maxPackets →
      Machine.Run (step maxPackets) Machine.Free .initial c → c.pc = .top →
      (c.globals.heap.live.length : Int) = c.globals.toSend.length + c.globals.toAck.length := by
  intro h
  have := h 2 _ (by decide) (Machine.run_exec retransmitted_possible) (by decide)
  exact absurd this (by decide)

end GProxy.Preceiver
