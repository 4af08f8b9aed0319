import GProxy.Preceiver.Program

/-!
# The two lists of the receiving proxy

`toSend` holds what is still to be delivered and `toAck` what is delivered and not yet
acknowledged; `lastSentId`, the number waited for, parts them. Two invariants say so. `InOrder`
(both lists increase and the lengths count the nodes) holds in every state of every run.
`Ordered` adds that `lastSentId` parts the lists, whatever datagrams arrive and whatever `send`
answers, as long as the counter has not wrapped.

The invariant of a run also says what a walk has still to scan: a sublist of the list it
walks. That is what lets a callback unlink the node it is given while the walk goes on.
-/

namespace GProxy.Preceiver

open SortedInsert

/-- What a walk has still to scan is linked to the list it walks, in list order. -/
def Config.Walks (c : Config) : Prop :=
  match c.pc with
  | .delivering iter _ => iter.Sublist c.globals.toSend.nodes
  | .acking iter _ => iter.Sublist c.globals.toAck.nodes
  | _ => True

/-- Unlinking the node under the callback leaves the rest of the walk linked. -/
theorem sublist_removeNode {head : Head} {n : Node} {next : List Node}
    (hw : (n :: next).Sublist head.nodes) : next.Sublist (removeNode head n).nodes := by
  have h := hw.erase n
  rwa [List.erase_cons_head] at h

/-- The callback takes its node out of `toAck`. -/
@[simp] theorem ackPacket_toAck (stack : List UInt8) (g : Globals) (n : Node) :
    (ackPacket stack g n).toAck = removeNode g.toAck n := by
  unfold ackPacket
  split <;> rfl

/-- The callback leaves `toSend` as it is. -/
@[simp] theorem ackPacket_toSend (stack : List UInt8) (g : Globals) (n : Node) :
    (ackPacket stack g n).toSend = g.toSend := by
  unfold ackPacket
  split <;> rfl

/-- The callback leaves the number waited for as it is. -/
@[simp] theorem ackPacket_lastSentId (stack : List UInt8) (g : Globals) (n : Node) :
    (ackPacket stack g n).lastSentId = g.lastSentId := by
  unfold ackPacket
  split <;> rfl

/-- The callback reads nothing. -/
@[simp] theorem ackPacket_arrived (stack : List UInt8) (g : Globals) (n : Node) :
    (ackPacket stack g n).arrived = g.arrived := by
  unfold ackPacket
  split <;> rfl

/-- The callback passes nothing on. -/
@[simp] theorem ackPacket_passed (stack : List UInt8) (g : Globals) (n : Node) :
    (ackPacket stack g n).passed = g.passed := by
  unfold ackPacket
  split <;> rfl

/-- The callback sends one datagram, the acknowledgement of its node, to the port preceiver sends
to. -/
theorem ackPacket_sent (stack : List UInt8) (g : Globals) (n : Node) :
    (ackPacket stack g n).sent = g.sent ++ [⟨g.toRitPort, ackImage stack n.packet.id⟩] := by
  unfold ackPacket
  split <;> rfl

/-- The callback frees its node. -/
theorem ackPacket_heap (stack : List UInt8) (g : Globals) (n : Node) :
    (ackPacket stack g n).heap = clearNode g.heap n := by
  unfold ackPacket
  split <;> rfl

/-- One step keeps the rest of a walk linked. -/
theorem Config.Walks.stepped {maxPackets : Nat} {c c' : Config} {e : Event} (h : c.Walks)
    (st : Stepped maxPackets c e c') : c'.Walks := by
  cases st with
  | deliver hf => exact List.Sublist.refl _
  | delivered hd => exact List.Sublist.refl _
  | @ack g iter next scans stack hd =>
    show next.Sublist (ackPacket stack g iter).toAck.nodes
    rw [ackPacket_toAck]
    exact sublist_removeNode h
  | @send g g' iter next scans sendCounter hd hsend =>
    rcases sendToReceiver_ok hsend with ⟨rfl, _⟩ | ⟨_, _, _, rfl⟩
    · exact (List.sublist_cons_self _ _).trans h
    · exact sublist_removeNode h
  | finished | acked | received | interrupted | readable | timeout | recv | error =>
    trivial

/-- The node a walk gives to its callback is linked. -/
theorem Config.Walks.mem_toSend {g : Globals} {iter : Node} {next : List Node} {scans : Nat}
    (h : Config.Walks ⟨.delivering (iter :: next) scans, g⟩) : iter ∈ g.toSend.nodes :=
  List.Sublist.subset h List.mem_cons_self

/-- The node the walk stands at is in `toAck`, so the callback takes out a node that is there. -/
theorem Config.Walks.mem_toAck {g : Globals} {iter : Node} {next : List Node} {scans : Nat}
    (h : Config.Walks ⟨.acking (iter :: next) scans, g⟩) : iter ∈ g.toAck.nodes :=
  List.Sublist.subset h List.mem_cons_self

/-! ## What holds with or without a wrap -/

/-- The lists increase, and their `length` fields count their nodes. -/
structure InOrder (g : Globals) : Prop where
  toSend_increasing : Increasing Node.id g.toSend.nodes
  toSend_counted : g.toSend.Counted
  toAck_increasing : Increasing Node.id g.toAck.nodes
  toAck_counted : g.toAck.Counted

/-- At the start both lists are empty. -/
theorem InOrder.initial : InOrder Globals.initial :=
  ⟨increasing_nil, allocHead_counted, increasing_nil, allocHead_counted⟩

/-- Each step keeps the lists in order, whatever is read: an insertion puts a node at its place or
refuses it. -/
theorem InOrder.stepped {maxPackets : Nat} {c c' : Config} {e : Event} (h : InOrder c.globals)
    (hwalk : c.Walks) (st : Stepped maxPackets c e c') : InOrder c'.globals := by
  cases st with
  | timeout => exact { h with }
  | ack hd =>
    exact {
      toSend_increasing := by simpa using h.toSend_increasing
      toSend_counted := by simpa using h.toSend_counted
      toAck_increasing := by simpa using removeNode_increasing h.toAck_increasing
      toAck_counted := by simpa using removeNode_counted h.toAck_counted hwalk.mem_toAck }
  | send hd hsend =>
    rcases sendToReceiver_ok hsend with ⟨rfl, _⟩ | ⟨_, _, _, rfl⟩
    · exact h
    · exact {
        toSend_increasing := removeNode_increasing h.toSend_increasing
        toSend_counted := removeNode_counted h.toSend_counted hwalk.mem_toSend
        toAck_increasing := insertNodeById_increasing h.toAck_increasing
        toAck_counted := insertNodeById_counted h.toAck_counted }
  | recv hc hr hg =>
    cases receives_of_ok hg with
    | ahead hb htype hid =>
      exact { h with
        toSend_increasing := insertNodeById_increasing h.toSend_increasing
        toSend_counted := insertNodeById_counted h.toSend_counted }
    | behind hb htype hid hroom =>
      exact { h with
        toAck_increasing := insertNodeById_increasing h.toAck_increasing
        toAck_counted := insertNodeById_counted h.toAck_counted }
    | nothing | icmp | dropped => exact { h with }
  | finished | deliver | delivered | acked | received | interrupted | readable
  | error => exact h

/-! ## What holds until the counter wraps -/

/-- The lists are in order and the number waited for parts them. -/
structure Ordered (g : Globals) : Prop extends InOrder g where
  toSend_ahead : ∀ n ∈ g.toSend.nodes, g.lastSentId.toNat ≤ n.id
  toAck_behind : ∀ n ∈ g.toAck.nodes, n.id < g.lastSentId.toNat

/-- At the start number 1 is waited for and both lists are empty. -/
theorem Ordered.initial : Ordered Globals.initial :=
  ⟨.initial, (fun _ h => nomatch h), (fun _ h => nomatch h)⟩

/-- The invariant of a run. -/
structure Config.Sorted (c : Config) : Prop where
  ordered : Ordered c.globals
  walks : c.Walks

/-- The start has the whole invariant. -/
theorem Config.Sorted.initial : Config.initial.Sorted := ⟨.initial, trivial⟩

/-- The next number, when it does not wrap. -/
theorem toNat_succ {x : UInt32} (h : x.toNat + 1 < 2 ^ 32) : (x + 1).toNat = x.toNat + 1 := by
  rw [UInt32.toNat_add]
  exact Nat.mod_eq_of_lt h

/-- The packet waited for is above everything in `toAck`, so it goes to its end. -/
theorem Ordered.insert_delivered {g : Globals} (h : Ordered g) {n : Node}
    (hid : n.packet.id = g.lastSentId) :
    insertNodeById g.toAck n = (⟨g.toAck.nodes ++ [n], g.toAck.length + 1⟩, true) := by
  apply insertNodeById_last
  intro x hx
  rw [Node.id_eq_iff.mp hid]
  exact h.toAck_behind x hx

/-- What is left in `toSend` after a delivery is above the packet delivered, hence at least its
successor, which is 0 behind the last number. -/
theorem ahead_delivered {g : Globals} (hinc : Increasing Node.id g.toSend.nodes)
    (hahead : ∀ n ∈ g.toSend.nodes, g.lastSentId.toNat ≤ n.id) {n : Node}
    (hn : n ∈ g.toSend.nodes) (hid : n.packet.id = g.lastSentId) :
    ∀ x ∈ (removeNode g.toSend n).nodes, (g.lastSentId + 1).toNat ≤ x.id := by
  intro x hx
  obtain ⟨hx, hne⟩ := (mem_removeNode hinc).mp hx
  have hne_id : x.id ≠ n.id := fun he => hne (hinc.eq_of_key hx hn he)
  have hn_id : n.id = g.lastSentId.toNat := Node.id_eq_iff.mp hid
  have hle := hahead x hx
  have hsucc : (g.lastSentId + 1).toNat ≤ g.lastSentId.toNat + 1 := by
    rw [UInt32.toNat_add]
    exact Nat.mod_le _ _
  omega

/-- The packet with the number waited for may be put into `toAck`: once it is delivered the number
waited for is the next. This fails where the counter wraps to 0. -/
theorem Ordered.behind_delivered {g : Globals} (h : Ordered g) {n : Node}
    (hid : n.packet.id = g.lastSentId) (hwrap : g.lastSentId.toNat + 1 < 2 ^ 32) :
    ∀ x ∈ (insertNodeById g.toAck n).1.nodes, x.id < (g.lastSentId + 1).toNat := by
  have hn_id : n.id = g.lastSentId.toNat := Node.id_eq_iff.mp hid
  rw [toNat_succ hwrap]
  apply forall_insertNodeById
  · intro x hx
    exact Nat.lt_succ_of_lt (h.toAck_behind x hx)
  · omega

/-- One step keeps the lists parted, unless it wraps the counter. -/
theorem Ordered.stepped {maxPackets : Nat} {c c' : Config} {e : Event} (h : Ordered c.globals)
    (hwalk : c.Walks)
    (hwrap : ∀ n ∈ c.globals.toSend.nodes, n.packet.id = c.globals.lastSentId →
      c.globals.lastSentId.toNat + 1 < 2 ^ 32)
    (st : Stepped maxPackets c e c') : Ordered c'.globals := by
  have hinOrder := h.toInOrder.stepped hwalk st
  have hahead := h.toSend_ahead
  have hbehind := h.toAck_behind
  cases st with
  | ack hd =>
    refine ⟨hinOrder, by simpa using hahead, ?_⟩
    intro x hx
    rw [ackPacket_toAck] at hx
    rw [ackPacket_lastSentId]
    exact hbehind x ((mem_removeNode h.toAck_increasing).mp hx).1
  | send hd hsend =>
    rcases sendToReceiver_ok hsend with ⟨rfl, _⟩ | ⟨hid, _, _, rfl⟩
    · exact h
    · have hmem := hwalk.mem_toSend
      have hlast := hwrap _ hmem hid
      exact ⟨hinOrder, ahead_delivered h.toSend_increasing hahead hmem hid,
        h.behind_delivered hid hlast⟩
  | recv hc hr hg =>
    cases receives_of_ok hg with
    | ahead hb htype hid => exact ⟨hinOrder, forall_insertNodeById hahead hid, hbehind⟩
    | behind hb htype hid hroom => exact ⟨hinOrder, hahead, forall_insertNodeById hbehind hid⟩
    | nothing | icmp | dropped => exact ⟨hinOrder, hahead, hbehind⟩
  | finished | deliver | delivered | acked | received | interrupted | readable
  | timeout | error => exact ⟨hinOrder, hahead, hbehind⟩

/-- Each step keeps the invariant unless it delivers the packet with the last number, after which
the counter wraps. -/
theorem Config.Sorted.stepped {maxPackets : Nat} {c c' : Config} {e : Event} (h : c.Sorted)
    (hwrap : ∀ n ∈ c.globals.toSend.nodes, n.packet.id = c.globals.lastSentId →
      c.globals.lastSentId.toNat + 1 < 2 ^ 32)
    (st : Stepped maxPackets c e c') : c'.Sorted :=
  ⟨h.ordered.stepped h.walks hwrap st, h.walks.stepped st⟩

/-- The number waited for has not reached the last one. -/
def Unwrapped (c : Config) (_ : Event) : Prop := c.globals.lastSentId < 4294967295

instance (c : Config) (e : Event) : Decidable (Unwrapped c e) :=
  inferInstanceAs (Decidable (c.globals.lastSentId < 4294967295))

/-- The invariant holds over every run before the counter wraps, forged datagrams included. -/
theorem Config.Sorted.run {maxPackets : Nat} {c : Config}
    (run : Machine.Run (step maxPackets) Unwrapped .initial c) : c.Sorted := by
  refine Machine.Run.invariant (I := Config.Sorted) ?_ run .initial
  intro s e t hs hun hstep
  have hlt : s.globals.lastSentId.toNat < 4294967295 := UInt32.lt_iff_toNat_lt.mp hun
  exact hs.stepped (fun _ _ _ => by omega) (stepped_of_step hstep)

/-- Whatever datagrams arrive and whatever `send` answers, until the counter wraps: both lists
increase, `lastSentId` parts them, the lengths count the nodes, and a delivered node is never
refused by `toAck`. -/
theorem lists_stay_ordered {maxPackets : Nat} {c : Config}
    (run : Machine.Run (step maxPackets) Unwrapped .initial c) :
    Ordered c.globals ∧
      (∀ n ∈ c.globals.toSend.nodes, ∀ m ∈ c.globals.toAck.nodes, n.id ≠ m.id) ∧
      ∀ iter next scans, c.pc = .delivering (iter :: next) scans →
        iter.packet.id = c.globals.lastSentId →
        (insertNodeById c.globals.toAck iter).2 = true := by
  have hord := (Config.Sorted.run run).ordered
  refine ⟨hord, ?_, ?_⟩
  · intro n hn m hm heq
    have := hord.toSend_ahead n hn
    have := hord.toAck_behind m hm
    omega
  · intro iter next scans _ hid
    rw [hord.insert_delivered hid]

/-- A run in which packet 2 arrives before packet 1, stopped where packet 1 is delivered. -/
def overtaken : List Event :=
  [.go, .go, .go, .select (.ready true), .recv [.data (dataDatagram 2 [8])],
    .recv [.data (dataDatagram 1 [7])], .go, .go]

/-- The run can be made. -/
theorem overtaken_possible :
    (Machine.exec (step 2) Unwrapped .initial overtaken).isSome := by decide

/-- A run in which a packet overtakes the one before it. -/
theorem lists_stay_ordered_overtaken :
    Ordered ((Machine.exec (step 2) Unwrapped .initial overtaken).get
      overtaken_possible).globals :=
  (lists_stay_ordered (Machine.run_exec overtaken_possible)).1

end GProxy.Preceiver
