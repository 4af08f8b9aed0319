import GProxy.System.Model
import GProxy.Lib.Window

/-!
# The two proxies as a transfer over a lossy wire

`Sys.view` reads the abstract exchange off the two proxies: the lists as sets of numbers, the
datagrams sent as what is on the wire, the history of the reader's socket as what was seen. Each
step of a proxy is a step of the exchange or changes nothing of it (`Linked.refines_psender`,
`Linked.refines_preceiver`), so every run of the two proxies is a run of the exchange
(`Linked.run`).
-/

namespace GProxy

open SortedInsert WordBytes

/-! ## The lists as sets -/

/-- The numbers in a list. -/
def Head.ids (head : Head) : Set ℕ := {n | ∃ x ∈ head.nodes, x.id = n}

/-- The numbers in a list, each with what its node carries. -/
def Head.contents (head : Head) : Set (ℕ × List UInt8) :=
  {p | ∃ x ∈ head.nodes, x.id = p.1 ∧ x.payload = p.2}

/-- A node appended brings its number into the view. -/
theorem ids_appendNode (head : Head) (new : Node) :
    (appendNode head new).ids = insert new.id head.ids := by
  ext n
  simp only [Head.ids, appendNode, List.mem_append, List.mem_singleton, Set.mem_ofPred_eq,
    Set.mem_insert_iff]
  constructor
  · rintro ⟨x, hx | rfl, rfl⟩
    · exact .inr ⟨x, hx, rfl⟩
    · exact .inl rfl
  · rintro (rfl | ⟨x, hx, rfl⟩)
    · exact ⟨new, .inr rfl, rfl⟩
    · exact ⟨x, .inl hx, rfl⟩

/-- Where no number occurs twice, unlinking a node is taking its number away. -/
theorem mem_removeNode_of_nodup {head : Head} {n x : Node} (h : (head.nodes.map Node.id).Nodup)
    (hn : n ∈ head.nodes) : x ∈ (removeNode head n).nodes ↔ x ∈ head.nodes ∧ x.id ≠ n.id := by
  rw [removeNode, h.of_map.mem_erase_iff, and_comm]
  refine and_congr_right fun hx => not_congr ⟨fun hxn => hxn ▸ rfl, fun hid => ?_⟩
  exact List.inj_on_of_nodup_map h hx hn hid

/-- A node taken out takes its number out of the view. The numbers of the list have to differ, as a
set would not show a second node. -/
theorem ids_removeNode {head : Head} {n : Node} (h : (head.nodes.map Node.id).Nodup)
    (hn : n ∈ head.nodes) : (removeNode head n).ids = head.ids \ {n.id} := by
  ext i
  simp only [Head.ids, mem_removeNode_of_nodup h hn, Set.mem_ofPred_eq, Set.mem_sdiff,
    Set.mem_singleton_iff]
  constructor
  · rintro ⟨x, ⟨hx, hne⟩, rfl⟩
    exact ⟨⟨x, hx, rfl⟩, hne⟩
  · rintro ⟨⟨x, hx, rfl⟩, hne⟩
    exact ⟨x, ⟨hx, hne⟩, rfl⟩

/-- A node taken out takes its chunk out of the view. -/
theorem contents_removeNode {head : Head} {n : Node} (h : (head.nodes.map Node.id).Nodup)
    (hn : n ∈ head.nodes) : (removeNode head n).contents = {p ∈ head.contents | p.1 ≠ n.id} := by
  ext p
  simp only [Head.contents, mem_removeNode_of_nodup h hn, Set.mem_ofPred_eq]
  constructor
  · rintro ⟨x, ⟨hx, hne⟩, hid, hp⟩
    exact ⟨⟨x, hx, hid, hp⟩, hid ▸ hne⟩
  · rintro ⟨⟨x, hx, hid, hp⟩, hne⟩
    exact ⟨x, ⟨hx, hid ▸ hne⟩, hid, hp⟩

/-- Refused or not, after an insertion the number is in the list. -/
theorem ids_insertNodeById (head : Head) (new : Node) :
    (insertNodeById head new).1.ids = insert new.id head.ids := by
  ext n
  simp only [Head.ids, Set.mem_ofPred_eq, Set.mem_insert_iff]
  constructor
  · rintro ⟨x, hx, rfl⟩
    rcases mem_of_mem_insertNodeById hx with rfl | hx
    · exact .inl rfl
    · exact .inr ⟨x, hx, rfl⟩
  · rintro (rfl | ⟨x, hx, rfl⟩)
    · exact exists_id_insertNodeById head new
    · exact ⟨x, mem_insertNodeById_of_mem hx, rfl⟩

/-- A node inserted brings its chunk into the view, when its number is new. -/
theorem contents_insertNodeById {head : Head} {new : Node} (h : ∀ x ∈ head.nodes, x.id ≠ new.id) :
    (insertNodeById head new).1.contents = insert (new.id, new.payload) head.contents := by
  have hperm := (insertNodeById_of_absent h).2
  ext p
  simp only [Head.contents, hperm.mem_iff, List.mem_cons, Set.mem_ofPred_eq, Set.mem_insert_iff]
  constructor
  · rintro ⟨x, rfl | hx, hid, hp⟩
    · exact .inl (Prod.ext hid.symm hp.symm)
    · exact .inr ⟨x, hx, hid, hp⟩
  · rintro (rfl | ⟨x, hx, hid, hp⟩)
    · exact ⟨new, .inl rfl, rfl, rfl⟩
    · exact ⟨x, .inr hx, hid, hp⟩

/-! ## The datagrams as sets -/

/-- The data packets among the datagrams sent. -/
def packetsOf (sent : List Datagram) : Set (ℕ × List UInt8) :=
  {p | ∃ d ∈ sent, ∃ id : UInt32, id.toNat = p.1 ∧ d.bytes = dataDatagram id p.2}

/-- The numbers acknowledged by the datagrams sent. -/
def acksOf (sent : List Datagram) : Set ℕ :=
  {n | ∃ d ∈ sent, ∃ stack, ∃ id : UInt32, id.toNat = n ∧ d.bytes = ackImage stack id}

/-- The numbers of the body packets read. -/
def seenOf (arrived : List (List UInt8)) : Set ℕ :=
  {n | ∃ bytes ∈ arrived, (Pkt.ofImage bytes).type = typeB ∧
    (ntohl (Pkt.ofImage bytes).id).toNat = n}

/-- A body datagram determines its number and its body, so the view of what was sent loses
nothing. -/
theorem dataDatagram_inj {id id' : UInt32} {b b' : List UInt8}
    (h : dataDatagram id b = dataDatagram id' b') : id = id' ∧ b = b' := by
  have himage := congrArg Pkt.ofImage h
  rw [ofImage_dataDatagram, ofImage_dataDatagram] at himage
  obtain ⟨hid, _, hb⟩ := Pkt.mk.inj himage
  refine ⟨?_, hb⟩
  rw [← ntohl_htonl id, hid, ntohl_htonl]

/-- A body datagram sent adds its chunk to the wire. -/
theorem packetsOf_append (sent : List Datagram) (port : UInt16) (id : UInt32) (b : List UInt8) :
    packetsOf (sent ++ [⟨port, dataDatagram id b⟩]) = insert (id.toNat, b) (packetsOf sent) := by
  ext p
  simp only [packetsOf, List.mem_append, List.mem_singleton, Set.mem_ofPred_eq, Set.mem_insert_iff]
  constructor
  · rintro ⟨d, hd | rfl, id', hid, heq⟩
    · exact .inr ⟨d, hd, id', hid, heq⟩
    · obtain ⟨rfl, rfl⟩ := dataDatagram_inj heq
      exact .inl (Prod.ext hid.symm rfl)
  · rintro (rfl | ⟨d, hd, id', hid, heq⟩)
    · exact ⟨_, .inr rfl, id, rfl, rfl⟩
    · exact ⟨d, .inl hd, id', hid, heq⟩

/-- An acknowledgement determines its number, whatever the rest of its bytes. -/
theorem ackImage_inj {stack stack' : List UInt8} {id id' : UInt32}
    (h : ackImage stack id = ackImage stack' id') : id = id' := by
  rw [← ackedId_ackImage stack id [], h, ackedId_ackImage]

/-- An acknowledgement sent adds its number to the wire. -/
theorem acksOf_append (sent : List Datagram) (port : UInt16) (stack : List UInt8) (id : UInt32) :
    acksOf (sent ++ [⟨port, ackImage stack id⟩]) = insert id.toNat (acksOf sent) := by
  ext n
  simp only [acksOf, List.mem_append, List.mem_singleton, Set.mem_ofPred_eq, Set.mem_insert_iff]
  constructor
  · rintro ⟨d, hd | rfl, stack', id', hid, heq⟩
    · exact .inr ⟨d, hd, stack', id', hid, heq⟩
    · exact .inl (ackImage_inj heq ▸ hid.symm)
  · rintro (rfl | ⟨d, hd, stack', id', hid, heq⟩)
    · exact ⟨_, .inr rfl, stack, id, rfl, rfl⟩
    · exact ⟨d, .inl hd, stack', id', hid, heq⟩

/-- A body datagram read adds its number to those seen. -/
theorem seenOf_append_data (arrived : List (List UInt8)) (id : UInt32) (b : List UInt8) :
    seenOf (arrived ++ [dataDatagram id b]) = insert id.toNat (seenOf arrived) := by
  ext n
  simp only [seenOf, List.mem_append, List.mem_singleton, Set.mem_ofPred_eq, Set.mem_insert_iff]
  constructor
  · rintro ⟨bytes, hb | rfl, htype, hid⟩
    · exact .inr ⟨bytes, hb, htype, hid⟩
    · rw [ofImage_dataDatagram, ntohl_htonl] at hid
      exact .inl hid.symm
  · rintro (rfl | ⟨bytes, hb, htype, hid⟩)
    · refine ⟨_, .inr rfl, ?_, ?_⟩
      · rw [ofImage_dataDatagram]
      · rw [ofImage_dataDatagram, ntohl_htonl]
    · exact ⟨bytes, .inl hb, htype, hid⟩

/-- A notice read adds none. -/
theorem seenOf_append_other {arrived : List (List UInt8)} {bytes : List UInt8}
    (h : (Pkt.ofImage bytes).type ≠ typeB) : seenOf (arrived ++ [bytes]) = seenOf arrived := by
  ext n
  simp only [seenOf, List.mem_append, List.mem_singleton, Set.mem_ofPred_eq]
  constructor
  · rintro ⟨x, hx | rfl, htype, hid⟩
    · exact ⟨x, hx, htype, hid⟩
    · exact absurd htype h
  · rintro ⟨x, hx, htype, hid⟩
    exact ⟨x, .inl hx, htype, hid⟩

namespace Sys

/-- The exchange the two proxies carry out. -/
def view (s : Sys) : Window.State (List UInt8) where
  made := s.psender.globals.created.map Prod.snd
  closed := s.psender.globals.endingRead = true
  held := s.psender.globals.toSend.ids
  wire := packetsOf s.psender.globals.sent
  next := s.preceiver.globals.lastSentId.toNat
  out := s.preceiver.globals.passed
  buffer := s.preceiver.globals.toSend.contents
  owed := s.preceiver.globals.toAck.ids
  acks := acksOf s.preceiver.globals.sent
  seen := seenOf s.preceiver.globals.arrived

/-- The invariant of a run. -/
structure Linked (stream : List UInt8) (senderMax : Nat) (s : Sys) : Prop where
  psender : s.psender.Packed stream senderMax
  preceiver : s.preceiver.Sorted
  sent_acks : ∀ d ∈ s.preceiver.globals.sent, ∃ stack id, d.bytes = ackImage stack id
  reached : Relation.ReflTransGen Window.Step .initial s.view

variable {stream : List UInt8} {senderMax receiverMax : Nat}

/-- The start of the two proxies is the start of the window. -/
theorem Linked.initial : Linked stream senderMax Sys.initial where
  psender := .initial
  preceiver := .initial
  sent_acks := fun _ h => nomatch h
  reached := by
    have hview : Sys.initial.view = Window.State.initial := by
      ext <;> simp [view, Sys.initial, Window.State.initial, Psender.Config.initial,
        Psender.Globals.initial, Preceiver.Config.initial, Preceiver.Globals.initial, allocHead,
        Head.ids, Head.contents, packetsOf, acksOf, seenOf]
    rw [hview]

/-- The invariant of the window holds of the view. -/
theorem Linked.sound {s : Sys} (h : Linked stream senderMax s) : Window.Sound s.view :=
  Window.Sound.reachable h.reached

/-- A packet built is a packet made. -/
theorem Linked.made {s : Sys} (h : Linked stream senderMax s) {id : UInt32} {bytes : List UInt8}
    (hp : (id, bytes) ∈ s.psender.globals.created) : s.view.Made id.toNat bytes :=
  ⟨(h.psender.packets.created_id hp).1, h.psender.packets.created_get hp⟩

/-- What is read as an acknowledgement is the acknowledgement of some number. -/
theorem Linked.ack_arrives {s : Sys} (h : Linked stream senderMax s) {bytes memory : List UInt8}
    (harr : Arrives s.preceiver.globals.sent bytes)
    (htype : (overlay bytes memory).getD 4 0 = typeB) :
    (ackedId (overlay bytes memory)).toNat ∈ s.view.acks := by
  rcases harr with ⟨d, hd, rfl⟩ | hI
  · obtain ⟨stack, id, hbytes⟩ := h.sent_acks d hd
    refine ⟨d, hd, stack, id, ?_, hbytes⟩
    rw [hbytes, ackedId_ackImage]
  · rw [overlay_type hI] at htype
    cases htype

/-- A packet that is sent goes on the wire. -/
theorem Linked.refines_transmit {pc : Psender.Pc} {g g' : Psender.Globals}
    {r : Preceiver.Config} {iter : Node} {next : List Node} {scans : Nat}
    (h : Linked stream senderMax ⟨⟨.sending (iter :: next) scans, g⟩, r⟩)
    (hsend : Psender.sendPacket g iter .sent = .ok g') :
    Relation.ReflTransGen Window.Step (view ⟨⟨.sending (iter :: next) scans, g⟩, r⟩)
      (view ⟨⟨pc, g'⟩, r⟩) := by
  cases hsend
  have hp := h.psender.packets
  have hmem : iter ∈ g.toSend.nodes := h.psender.stands List.mem_cons_self
  have hview : view ⟨⟨pc, { g with
        sent := g.sent ++ [⟨g.toRitPort, iter.wire⟩]
        finalize := g.finalize || htonl iter.packet.id = 0 }⟩, r⟩ =
      (view ⟨⟨.sending (iter :: next) scans, g⟩, r⟩).transmit iter.id iter.payload := by
    simp only [view, Window.State.transmit, (hp.wire_eq hmem).1, packetsOf_append]
    rfl
  refine .single ?_
  rw [hview]
  exact .transmit ⟨iter, hmem, rfl⟩ ((hp.toSend_made iter hmem).imp And.left h.made)

/-- What is read from the sender makes a packet, and its end closes the sequence. -/
theorem Linked.refines_read {pc pc' : Psender.Pc} {g g' : Psender.Globals}
    {r : Preceiver.Config} {past : List UInt8} {recv : Recv}
    (h : Linked stream senderMax ⟨⟨pc, g⟩, r⟩) (hreads : g.reads senderMax = true)
    (hg : Psender.Reads past g recv g') :
    Relation.ReflTransGen Window.Step (view ⟨⟨pc, g⟩, r⟩) (view ⟨⟨pc', g'⟩, r⟩) := by
  have hclosed : ¬ g.endingRead = true := by
    rw [(Psender.reads_iff.mp hreads).2]
    exact Bool.false_ne_true
  cases hg with
  | ended =>
    have hview : view ⟨⟨pc', { g with
          toSend := appendNode g.toSend (Psender.endingNode g.heap past).1
          heap := g.heap.taken
          endingRead := true }⟩, r⟩ = (view ⟨⟨pc, g⟩, r⟩).close := by
      simp only [view, Window.State.close, ids_appendNode]
      rfl
    refine .single ?_
    rw [hview]
    exact .close hclosed
  | @body bytes hne =>
    have hid : (Psender.bodyNode g bytes past).1.id = (g.created.map Prod.snd).length + 1 := by
      rw [List.length_map]
      exact h.psender.packets.currentId_eq
    have hview : view ⟨⟨pc', { g with
          toSend := appendNode g.toSend (Psender.bodyNode g bytes past).1
          heap := g.heap.taken
          currentId := g.currentId + 1
          created := g.created ++ [(g.currentId, bytes)] }⟩, r⟩ =
        (view ⟨⟨pc, g⟩, r⟩).make bytes := by
      simp only [view, Window.State.make, ids_appendNode, hid, List.map_append, List.map_cons,
        List.map_nil]
    refine .single ?_
    rw [hview]
    exact .make bytes hclosed
  | interrupted => exact .refl

/-- An acknowledgement that is read lets a packet go, if it is still held. -/
theorem Linked.refines_check {pc pc' : Psender.Pc} {g g' : Psender.Globals}
    {r : Preceiver.Config} {outcome : Recv} (h : Linked stream senderMax ⟨⟨pc, g⟩, r⟩)
    (harr : outcome.OnData (Arrives r.globals.sent)) (hg : Psender.Checks g outcome g') :
    Relation.ReflTransGen Window.Step (view ⟨⟨pc, g⟩, r⟩) (view ⟨⟨pc', g'⟩, r⟩) := by
  cases hg with
  | @acked bytes memory current hm htype hs =>
    subst hm
    have hmem : current ∈ g.toSend.nodes := List.mem_of_find?_eq_some hs
    have hid : current.packet.id = ackedId (overlay bytes g.currentAck) := by
      simpa using List.find?_some hs
    have hview : view ⟨⟨pc', { g with
          currentAck := overlay bytes g.currentAck
          toSend := removeNode g.toSend current
          heap := clearNode g.heap current }⟩, r⟩ =
        (view ⟨⟨pc, g⟩, r⟩).letGo current.id := by
      simp only [view, Window.State.letGo,
        ids_removeNode h.psender.packets.toSend_nodup hmem]
    refine .single ?_
    rw [hview]
    refine .letGo ?_
    rw [Node.id, hid]
    exact h.ack_arrives harr htype
  | nothing | stale | icmp => exact .refl

/-- Each step of the sending proxy is a step of the exchange, or none. -/
theorem Linked.refines_psender {s : Sys} (h : Linked stream senderMax s)
    {e : Psender.Event} {c' : Psender.Config} (hnet : Network stream s (.psender e))
    (st : Psender.Stepped senderMax s.psender e c') :
    Relation.ReflTransGen Window.Step s.view { s with psender := c' }.view := by
  obtain ⟨c, r⟩ := s
  cases st with
  | send hsend => exact h.refines_transmit hsend
  | read hreads hwhile hg => exact h.refines_read hreads (Psender.reads_of_ok hg)
  | check hc hg => exact h.refines_check hnet (Psender.checks_of_ok hg)
  | scan | scanned | select | timeout | filled | checked | allSent | again | error => exact .refl

/-- What is read as a body packet is one of the packets on the wire, and becomes its node. -/
theorem Linked.data_arrives {s : Sys} (h : Linked stream senderMax s) {raw bytes : List UInt8}
    (harr : Arrives s.psender.globals.sent raw) (hb : bytes = received raw)
    (htype : (Pkt.ofImage bytes).type = typeB) (g : Preceiver.Globals) :
    ∃ id body, bytes = dataDatagram id body ∧ (id.toNat, body) ∈ s.view.wire ∧
      (g.incoming bytes).id = id.toNat ∧ (g.incoming bytes).payload = body := by
  subst hb
  rcases harr with ⟨d, hd, rfl⟩ | hI
  · obtain ⟨id, body, hbytes, hlen⟩ := h.psender.packets.sent_data d hd
    have hread : received d.bytes = dataDatagram id body := by rw [hbytes, received_of_le hlen]
    obtain ⟨hpacket, _, hpayload⟩ := Preceiver.incoming_dataDatagram g id body
    refine ⟨id, body, hread, ⟨d, hd, id, rfl, hbytes⟩, ?_, ?_⟩
    · rw [hread, Node.id, hpacket]
    · rw [hread, hpayload]
  · rw [ofImage_type hI] at htype
    cases htype

/-- The number of a packet that is waited for does not wrap. -/
theorem Linked.no_wrap {s : Sys} (h : Linked stream senderMax s) (hfew : s.Few) {n : Node}
    (hn : n ∈ s.preceiver.globals.toSend.nodes) : n.id + 1 < 2 ^ 32 := by
  obtain ⟨_, hmade⟩ := h.sound.buffer_made (n.id, n.payload) ⟨n, hn, rfl, rfl⟩
  have hle := hmade.le
  simp only [view, List.length_map] at hle
  unfold Few at hfew
  omega

/-- A delivery releases a packet, or is none. -/
theorem Linked.refines_send {p : Psender.Config} {pc : Preceiver.Pc} {g g' : Preceiver.Globals}
    {iter : Node} {next : List Node} {scans : Nat}
    (h : Linked stream senderMax ⟨p, ⟨.delivering (iter :: next) scans, g⟩⟩)
    (hfew : Few ⟨p, ⟨.delivering (iter :: next) scans, g⟩⟩)
    (hsend : Preceiver.sendToReceiver (iter.pktSize - headerSize) g iter = .ok g') :
    Relation.ReflTransGen Window.Step (view ⟨p, ⟨.delivering (iter :: next) scans, g⟩⟩)
      (view ⟨p, ⟨pc, g'⟩⟩) := by
  rcases Preceiver.sendToReceiver_ok hsend with ⟨rfl, _⟩ | ⟨hid, _, _, rfl⟩
  · exact .refl
  · have hmem : iter ∈ g.toSend.nodes := h.preceiver.walks.mem_toSend
    have hiter : iter.id = g.lastSentId.toNat := Node.id_eq_iff.mp hid
    have hlast : (g.lastSentId + 1).toNat = g.lastSentId.toNat + 1 :=
      Preceiver.toNat_succ (hiter ▸ h.no_wrap hfew hmem)
    have hbody : iter.payload.take (iter.pktSize - headerSize).toNat = iter.payload := by
      rw [Node.payload, List.take_take, Nat.min_self]
    have hnodup := h.preceiver.ordered.toSend_increasing.nodup_keys
    have hview : view ⟨p, ⟨pc, { g with
          passed := g.passed ++ [iter.payload.take (iter.pktSize - headerSize).toNat]
          lastSentId := g.lastSentId + 1
          toSend := removeNode g.toSend iter
          toAck := (insertNodeById g.toAck iter).1 }⟩⟩ =
        (view ⟨p, ⟨.delivering (iter :: next) scans, g⟩⟩).release iter.payload := by
      simp only [view, Window.State.release, hlast, hbody, ids_insertNodeById,
        contents_removeNode hnodup hmem, hiter]
    refine .single ?_
    rw [hview]
    exact .release ⟨iter, hmem, hiter, rfl⟩

/-- An acknowledgement goes on the wire. -/
theorem Linked.refines_ack {p : Psender.Config} {pc : Preceiver.Pc} {g : Preceiver.Globals}
    {iter : Node} {next : List Node} {scans : Nat} (stack : List UInt8)
    (h : Linked stream senderMax ⟨p, ⟨.acking (iter :: next) scans, g⟩⟩) :
    Relation.ReflTransGen Window.Step (view ⟨p, ⟨.acking (iter :: next) scans, g⟩⟩)
      (view ⟨p, ⟨pc, Preceiver.ackPacket stack g iter⟩⟩) := by
  have hmem : iter ∈ g.toAck.nodes := h.preceiver.walks.mem_toAck
  have hnodup := h.preceiver.ordered.toAck_increasing.nodup_keys
  have hview : view ⟨p, ⟨pc, Preceiver.ackPacket stack g iter⟩⟩ =
      (view ⟨p, ⟨.acking (iter :: next) scans, g⟩⟩).ack iter.id := by
    simp only [view, Window.State.ack, Preceiver.ackPacket_toAck, Preceiver.ackPacket_toSend,
      Preceiver.ackPacket_lastSentId, Preceiver.ackPacket_passed, Preceiver.ackPacket_arrived,
      Preceiver.ackPacket_sent, acksOf_append, ids_removeNode hnodup hmem]
    rfl
  refine .single ?_
  rw [hview]
  exact .ack ⟨iter, hmem, rfl⟩

/-- A body packet that is read is kept, owed an acknowledgement or ignored; nothing else that is
read is seen. -/
theorem Linked.refines_recv {p : Psender.Config} {pc pc' : Preceiver.Pc}
    {g g' : Preceiver.Globals} {r : Recv} (h : Linked stream senderMax ⟨p, ⟨pc, g⟩⟩)
    (harr : r.OnData (Arrives p.globals.sent)) (hg : Preceiver.Receives receiverMax g r g') :
    Relation.ReflTransGen Window.Step (view ⟨p, ⟨pc, g⟩⟩) (view ⟨p, ⟨pc', g'⟩⟩) := by
  cases hg with
  | nothing hnone => exact .refl
  | @icmp b bs bytes hb htype =>
    have hview : view ⟨p, ⟨pc', { Preceiver.switchPort g with
          arrived := g.arrived ++ [bytes]
          heap := g.heap.skipped }⟩⟩ = view ⟨p, ⟨pc, g⟩⟩ := by
      simp only [view, seenOf_append_other htype]
      rfl
    rw [hview]
  | @ahead b bs bytes hb htype hid =>
    obtain ⟨id, body, rfl, hwire, hid_eq, hpayload⟩ := h.data_arrives harr hb htype g
    refine .single ?_
    by_cases hdup : g.toSend.hasId (g.incoming (dataDatagram id body)).id = true
    · have hview : view ⟨p, ⟨pc', { g with
            arrived := g.arrived ++ [dataDatagram id body]
            heap := g.heap.taken
            toSend := (insertNodeById g.toSend (g.incoming (dataDatagram id body))).1 }⟩⟩ =
          (view ⟨p, ⟨pc, g⟩⟩).see id.toNat := by
        simp only [view, Window.State.see, seenOf_append_data,
          insertNodeById_of_present h.preceiver.ordered.toSend_increasing hdup]
      rw [hview]
      obtain ⟨x, hx, hxid⟩ := Head.hasId_iff.mp hdup
      exact .ignore hwire (.inr ⟨x.payload, x, hx, hxid.trans hid_eq, rfl⟩)
    · have habsent := Head.hasId_eq_false_iff.mp (Bool.not_eq_true _ ▸ hdup)
      have hview : view ⟨p, ⟨pc', { g with
            arrived := g.arrived ++ [dataDatagram id body]
            heap := g.heap.taken
            toSend := (insertNodeById g.toSend (g.incoming (dataDatagram id body))).1 }⟩⟩ =
          ((view ⟨p, ⟨pc, g⟩⟩).keep id.toNat body).see id.toNat := by
        simp only [view, Window.State.see, Window.State.keep, seenOf_append_data,
          contents_insertNodeById habsent, hid_eq, hpayload]
      rw [hview]
      exact .keep hwire (hid_eq ▸ hid)
  | @behind b bs bytes hb htype hid hroom =>
    obtain ⟨id, body, rfl, hwire, hid_eq, _⟩ := h.data_arrives harr hb htype g
    have hview : view ⟨p, ⟨pc', { g with
          arrived := g.arrived ++ [dataDatagram id body]
          heap := g.heap.taken
          toAck := (insertNodeById g.toAck (g.incoming (dataDatagram id body))).1 }⟩⟩ =
        ((view ⟨p, ⟨pc, g⟩⟩).owe id.toNat).see id.toNat := by
      simp only [view, Window.State.see, Window.State.owe, seenOf_append_data,
        ids_insertNodeById, hid_eq]
    refine .single ?_
    rw [hview]
    exact .owe hwire (hid_eq ▸ hid)
  | @dropped b bs bytes hb htype hid hfull =>
    obtain ⟨id, body, rfl, hwire, hid_eq, _⟩ := h.data_arrives harr hb htype g
    have hview : view ⟨p, ⟨pc', { g with
          arrived := g.arrived ++ [dataDatagram id body]
          heap := g.heap.skipped }⟩⟩ = (view ⟨p, ⟨pc, g⟩⟩).see id.toNat := by
      simp only [view, Window.State.see, seenOf_append_data]
    refine .single ?_
    rw [hview]
    exact .ignore hwire (.inl (hid_eq ▸ hid))

/-- Each step of the receiving proxy is a step of the exchange, or none. -/
theorem Linked.refines_preceiver {s : Sys} (h : Linked stream senderMax s) (hfew : s.Few)
    {e : Preceiver.Event} {c' : Preceiver.Config} (hnet : Network stream s (.preceiver e))
    (st : Preceiver.Stepped receiverMax s.preceiver e c') :
    Relation.ReflTransGen Window.Step s.view { s with preceiver := c' }.view := by
  obtain ⟨p, c⟩ := s
  cases st with
  | @send g g' iter next scans sendCounter hd hsend =>
    have hwhole : sendCounter = iter.pktSize - headerSize := by
      simpa [Network, Preceiver.acceptsWhole] using hnet
    exact h.refines_send hfew (hwhole ▸ hsend)
  | @ack g iter next scans stack hd => exact h.refines_ack stack
  | @recv g g' counter outcomes r hc hrecv hg =>
    exact h.refines_recv (hnet r (mem_of_doWhileUpTo hrecv)) (Preceiver.receives_of_ok hg)
  | finished | deliver | delivered | acked | received | interrupted | readable
  | timeout | error => exact .refl

/-- All the receiving proxy sends are acknowledgements. -/
theorem sent_acks_stepped {c c' : Preceiver.Config} {e : Preceiver.Event}
    (h : ∀ d ∈ c.globals.sent, ∃ stack id, d.bytes = ackImage stack id)
    (st : Preceiver.Stepped receiverMax c e c') :
    ∀ d ∈ c'.globals.sent, ∃ stack id, d.bytes = ackImage stack id := by
  cases st with
  | @ack g iter next scans stack hd =>
    rw [Preceiver.ackPacket_sent]
    intro d hd
    rcases List.mem_append.mp hd with hd | hd
    · exact h d hd
    · rw [List.mem_singleton.mp hd]
      exact ⟨stack, _, rfl⟩
  | send hd hsend =>
    rcases Preceiver.sendToReceiver_ok hsend with ⟨rfl, _⟩ | ⟨_, _, _, rfl⟩ <;> exact h
  | recv hc hr hg => cases Preceiver.receives_of_ok hg <;> exact h
  | finished | deliver | delivered | acked | received | interrupted | readable
  | timeout | error => exact h

/-- Each step of the two proxies keeps the invariant, and in the view it comes down to steps of the
window. -/
theorem Linked.stepped {s : Sys} (e : Event) (t : Sys) (h : Linked stream senderMax s)
    (hfew : t.Few) (hnet : Network stream s e) (hstep : step senderMax receiverMax s e = some t) :
    Linked stream senderMax t := by
  have hfew' : s.Few := few_back s e t hstep hfew
  cases e with
  | psender e =>
    obtain ⟨c, hc, rfl⟩ := Option.map_eq_some_iff.mp hstep
    have st := Psender.stepped_of_step hc
    have hstream : Psender.Streams stream s.psender e := by
      cases e with
      | check outcome => trivial
      | go | send | select | read => exact hnet
    exact ⟨h.psender.stepped hstream hfew st, h.preceiver, h.sent_acks,
      h.reached.trans (h.refines_psender hnet st)⟩
  | preceiver e =>
    obtain ⟨c, hc, rfl⟩ := Option.map_eq_some_iff.mp hstep
    have st := Preceiver.stepped_of_step hc
    have hwrap : ∀ n ∈ s.preceiver.globals.toSend.nodes,
        n.packet.id = s.preceiver.globals.lastSentId →
        s.preceiver.globals.lastSentId.toNat + 1 < 2 ^ 32 :=
      fun n hn hid => hid ▸ h.no_wrap hfew' hn
    exact ⟨h.psender, h.preceiver.stepped hwrap st, sent_acks_stepped h.sent_acks st,
      h.reached.trans (h.refines_preceiver hfew' hnet st)⟩

/-- Every run of the two proxies is a run of the exchange, until the numbers wrap. -/
theorem Linked.run {s : Sys} (run : Reached stream senderMax receiverMax s) (hfew : s.Few) :
    Linked stream senderMax s :=
  Machine.Run.guarded few_back (fun _ e t h hfew hnet hstep => h.stepped e t hfew hnet hstep) run
    .initial hfew

end Sys

end GProxy
