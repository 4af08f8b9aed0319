import GProxy.Preceiver.Lists

/-!
# No acknowledgement that was not asked for

Each body datagram read pays for one acknowledgement of its number at most. A number is paid for
when its datagram is read, and stays so while a node with it goes through `toSend` and `toAck`,
until the acknowledgement is sent. What is refused or dropped on the way is paid for nothing. That
holds in every run, whatever arrives, whatever `send` answers, and whether or not the counter
wraps.
-/

namespace GProxy.Preceiver

open SortedInsert

/-- How many body datagrams with the number were read. -/
def readFor (id : UInt32) (arrived : List (List UInt8)) : Nat :=
  arrived.countP fun bytes =>
    (Pkt.ofImage bytes).type = typeB ∧ ntohl (Pkt.ofImage bytes).id = id

/-- How many acknowledgements of the number were sent. -/
def acksFor (id : UInt32) (sent : List Datagram) : Nat :=
  sent.countP fun d => ackedId (overlay d.bytes []) = id

/-- How many nodes of a list have the number. -/
def nodesFor (id : UInt32) (head : Head) : Nat := head.nodes.countP (·.packet.id = id)

/-- What is acknowledged or waits in a list is paid for. -/
def Paid (id : UInt32) (g : Globals) : Prop :=
  acksFor id g.sent + nodesFor id g.toAck + nodesFor id g.toSend ≤ readFor id g.arrived

variable {id : UInt32} {g : Globals}

/-- An acknowledgement sent counts for the number of its node, and for no other. -/
theorem acksFor_append (sent : List Datagram) (port : UInt16) (stack : List UInt8) (n : Node) :
    acksFor id (sent ++ [⟨port, ackImage stack n.packet.id⟩]) =
      acksFor id sent + if n.packet.id = id then 1 else 0 := by
  simp [acksFor, List.countP_append, List.countP_singleton, ackedId_ackImage]

/-- A body read counts for its number, and for no other. -/
theorem readFor_append_body {arrived : List (List UInt8)} {bytes : List UInt8}
    (htype : (Pkt.ofImage bytes).type = typeB) :
    readFor id (arrived ++ [bytes]) =
      readFor id arrived + if (g.incoming bytes).packet.id = id then 1 else 0 := by
  have hincoming : (g.incoming bytes).packet.id = ntohl (Pkt.ofImage bytes).id := rfl
  simp [readFor, List.countP_append, List.countP_singleton, htype, hincoming]

/-- Whatever is read, nothing that was paid becomes unpaid. -/
theorem readFor_le_append (arrived : List (List UInt8)) (bytes : List UInt8) :
    readFor id arrived ≤ readFor id (arrived ++ [bytes]) := by
  rw [readFor, readFor, List.countP_append]
  exact Nat.le_add_right _ _

/-- A node taken out of a list counts there no more. -/
theorem nodesFor_removeNode (id : UInt32) {head : Head} {n : Node} (hn : n ∈ head.nodes) :
    nodesFor id (removeNode head n) + (if n.packet.id = id then 1 else 0) = nodesFor id head := by
  have hperm := List.perm_cons_erase hn
  rw [nodesFor, nodesFor, hperm.countP_eq, List.countP_cons]
  simp [removeNode]

/-- A node inserted counts once, or not at all when it is refused. A refused one is paid and never
acknowledged. -/
theorem nodesFor_insertNodeById_le (id : UInt32) (head : Head) (n : Node) :
    nodesFor id (insertNodeById head n).1 ≤
      nodesFor id head + if n.packet.id = id then 1 else 0 := by
  rcases insertNodeById_cases head n with ⟨nodes, hins, heq⟩ | ⟨_, heq⟩
  · rw [heq, nodesFor, (insertBy_perm hins).countP_eq, List.countP_cons]
    simp [nodesFor]
  · rw [heq]
    exact Nat.le_add_right _ _

/-- One step keeps what is paid for. -/
theorem Paid.stepped {maxPackets : Nat} {c c' : Config} {e : Event} (h : Paid id c.globals)
    (hwalk : c.Walks) (st : Stepped maxPackets c e c') : Paid id c'.globals := by
  unfold Paid at h ⊢
  cases st with
  | @ack g iter next scans stack hd =>
    have hgone := nodesFor_removeNode id hwalk.mem_toAck
    simp only [ackPacket_toAck, ackPacket_toSend, ackPacket_arrived, ackPacket_sent, acksFor_append]
      at h ⊢
    omega
  | @send g g' iter next scans sendCounter hd hsend =>
    rcases sendToReceiver_ok hsend with ⟨rfl, _⟩ | ⟨_, _, _, rfl⟩
    · exact h
    · have hgone := nodesFor_removeNode id hwalk.mem_toSend
      have hcome := nodesFor_insertNodeById_le id g.toAck iter
      simp only at h ⊢
      omega
  | @recv g g' counter outcomes r hc hr hg =>
    cases receives_of_ok hg with
    | nothing => exact h
    | @icmp b bs bytes hb htype => exact h.trans (readFor_le_append g.arrived bytes)
    | @dropped b bs bytes hb htype hid hfull => exact h.trans (readFor_le_append g.arrived bytes)
    | @ahead b bs bytes hb htype hid =>
      have hcome := nodesFor_insertNodeById_le id g.toSend (g.incoming bytes)
      simp only [readFor_append_body (g := g) htype] at h ⊢
      omega
    | @behind b bs bytes hb htype hid hroom =>
      have hcome := nodesFor_insertNodeById_le id g.toAck (g.incoming bytes)
      simp only [readFor_append_body (g := g) htype] at h ⊢
      omega
  | finished | deliver | delivered | acked | received | interrupted | readable
  | timeout | error => exact h

/-- In every run the acknowledgements of a number, with those still owed or to come from the two
lists, are no more than the body datagrams read with it. So nothing is acknowledged that was not
read, and no datagram is acknowledged twice. -/
theorem acks_paid {maxPackets : Nat} {c : Config}
    (run : Machine.Run (step maxPackets) Machine.Free .initial c) (id : UInt32) :
    acksFor id c.globals.sent + nodesFor id c.globals.toAck + nodesFor id c.globals.toSend ≤
      readFor id c.globals.arrived := by
  have h : c.Walks ∧ Paid id c.globals :=
    Machine.Run.invariant (I := fun c : Config => c.Walks ∧ Paid id c.globals)
      (fun _ _ _ h _ hstep =>
        have st := stepped_of_step hstep
        ⟨h.1.stepped st, h.2.stepped h.1 st⟩)
      run ⟨trivial, Nat.le_refl 0⟩
  exact h.2

/-- Packet 1 is read twice before it is delivered, and a third time after it was acknowledged. -/
def readThrice : List Event :=
  [.go, .go, .go, .select (.ready true), .recv [.data (dataDatagram 1 [7])],
    .recv [.data (dataDatagram 1 [7])], .go, .go, .send 1, .go, .ack [], .go,
    .select (.ready true), .recv [.data (dataDatagram 1 [7])]]

/-- The run can be made. -/
theorem readThrice_possible :
    (Machine.exec (step 2) Machine.Free .initial readThrice).isSome := by decide

/-- Three bodies were read with the number 1 and one acknowledgement was sent. -/
theorem acks_paid_readThrice :
    let g := ((Machine.exec (step 2) Machine.Free .initial readThrice).get
      readThrice_possible).globals
    acksFor 1 g.sent + nodesFor 1 g.toAck + nodesFor 1 g.toSend ≤ readFor 1 g.arrived ∧
      readFor 1 g.arrived = 3 ∧ acksFor 1 g.sent = 1 :=
  ⟨acks_paid (Machine.run_exec readThrice_possible) 1, by decide, by decide⟩

end GProxy.Preceiver
