import GProxy.Psender.Packets

/-!
# The window of the sending proxy

Whatever the emulator sends, `toSend` is the packets that were made and not acknowledged since, in
the order they were made: the data packets with increasing numbers, and behind them the end marker.
The reading loop keeps the list within `maxPackets`, so a pass of the same bound gets to its end
(`window_pass`). `sendPacket` swaps the bytes of the number in the packet itself and swaps them
back, so the pass leaves the list as it was.
-/

namespace GProxy

/-- What a node stands for: its number and what it carries. -/
def Node.content (n : Node) : UInt32 × List UInt8 := (n.packet.id, n.payload)

/-- A node with another number. -/
def Node.withId (n : Node) (id : UInt32) : Node := { n with packet := { n.packet with id } }

/-- The list after the memory of one of its nodes was written. -/
def putNode (head : Head) (node : Node) : Head :=
  ⟨head.nodes.map fun x => if x.addr = node.addr then node else x, head.length⟩

/-- Writing a node and then writing it back leaves the list as it was. -/
theorem putNode_putNode {head : Head} {node written : Node}
    (hnodup : (head.nodes.map Node.addr).Nodup) (hmem : node ∈ head.nodes)
    (haddr : written.addr = node.addr) : putNode (putNode head written) node = head := by
  have hback : ∀ x ∈ head.nodes, ((fun x => if x.addr = node.addr then node else x) ∘
      fun x => if x.addr = written.addr then written else x) x = id x := by
    intro x hx
    rw [haddr]
    by_cases hxn : x.addr = node.addr
    · simp only [Function.comp, hxn, haddr, ↓reduceIte]
      exact (List.inj_on_of_nodup_map hnodup hx hmem hxn).symm
    · simp only [Function.comp, hxn, ↓reduceIte, id]
  simp only [putNode, List.map_map]
  rw [List.map_congr_left hback, List.map_id]

namespace Psender

open SortedInsert

variable {maxPackets : Nat}

/-! ## The list -/

/-- Data packets in the order they were created, and behind them the end marker, if there is
one. -/
structure Parts (g : Globals) (data tail : List Node) : Prop where
  nodes_eq : g.toSend.nodes = data ++ tail
  data_created : (data.map Node.content).Sublist g.created
  tail_marker : tail = [] ∨ g.endingRead = true ∧ ∃ e, tail = [e] ∧ e.id = 0

/-- The invariant of the list, until the counter wraps. -/
structure Windowed (maxPackets : Nat) (g : Globals) : Prop where
  created_ids : g.created.map (fun p => p.1.toNat) = List.range' 1 g.created.length
  currentId_eq : g.currentId.toNat = g.created.length + 1
  parts : ∃ data tail, Parts g data tail
  toSend_body : ∀ n ∈ g.toSend.nodes, n.packet.type = typeB ∧ (headerSize : Int) ≤ n.pktSize
  toSend_addr : (g.toSend.nodes.map Node.addr).Nodup
  toSend_lt : ∀ n ∈ g.toSend.nodes, n.addr < g.heap.next
  toSend_counted : g.toSend.Counted
  toSend_room : g.toSend.nodes.length ≤ maxPackets

/-- At the start the list is empty. -/
theorem Windowed.initial : Windowed maxPackets Globals.initial where
  created_ids := rfl
  currentId_eq := rfl
  parts := ⟨[], [], rfl, .slnil, .inl rfl⟩
  toSend_body := fun _ h => nomatch h
  toSend_addr := List.nodup_nil
  toSend_lt := fun _ h => nomatch h
  toSend_counted := allocHead_counted
  toSend_room := Nat.zero_le _

/-- The data packets of the list have increasing numbers, all of packets created. -/
theorem Windowed.data_ids {g : Globals} (h : Windowed maxPackets g) {data tail : List Node}
    (hparts : Parts g data tail) :
    Increasing Node.id data ∧ ∀ n ∈ data, 1 ≤ n.id ∧ n.id < g.currentId.toNat := by
  have hsub : (data.map Node.id).Sublist (List.range' 1 g.created.length) := by
    have hmap := hparts.data_created.map fun p => p.1.toNat
    rw [h.created_ids, List.map_map] at hmap
    exact hmap
  refine ⟨?_, ?_⟩
  · have hpair : (data.map Node.id).Pairwise (· < ·) :=
      .sublist hsub List.pairwise_lt_range'
    exact List.pairwise_map.mp hpair
  · intro n hn
    have hmem := List.mem_range'_1.mp (hsub.subset (List.mem_map_of_mem hn))
    have hcur := h.currentId_eq
    omega

/-- No number occurs twice in the list. -/
theorem Windowed.ids_nodup {g : Globals} (h : Windowed maxPackets g) :
    (g.toSend.nodes.map Node.id).Nodup := by
  obtain ⟨data, tail, hparts⟩ := h.parts
  obtain ⟨hinc, hrange⟩ := h.data_ids hparts
  rw [hparts.nodes_eq, List.map_append]
  rcases hparts.tail_marker with rfl | ⟨_, e, rfl, hzero⟩
  · rw [List.map_nil, List.append_nil]
    exact hinc.nodup_keys
  · rw [List.map_singleton, hzero]
    refine List.nodup_append.mpr ⟨hinc.nodup_keys, List.nodup_singleton _, ?_⟩
    intro a ha b hb hab
    obtain ⟨n, hn, rfl⟩ := List.mem_map.mp ha
    have hpos := (hrange n hn).1
    rw [hab, List.mem_singleton.mp hb] at hpos
    exact absurd hpos (by decide)

/-- A node with a new address is appended. -/
theorem Windowed.addr_append {g : Globals} (h : Windowed maxPackets g) {new : Node}
    (hnew : new.addr = g.heap.next) : ((appendNode g.toSend new).nodes.map Node.addr).Nodup := by
  apply nodup_appendNode h.toSend_addr
  intro x hx
  have hlt := h.toSend_lt x hx
  omega

/-- The addresses of a list that a new node joins are below the next one. -/
theorem Windowed.lt_append {g : Globals} (h : Windowed maxPackets g) {new : Node}
    (hnew : new.addr = g.heap.next) :
    ∀ n ∈ (appendNode g.toSend new).nodes, n.addr < g.heap.taken.next := by
  apply forall_appendNode
  · intro n hn
    exact Nat.lt_succ_of_lt (h.toSend_lt n hn)
  · rw [hnew]
    exact Nat.lt_succ_self _

/-- While the stream goes on there is no end marker. -/
theorem Parts.tail_eq_nil {g : Globals} {data tail : List Node} (h : Parts g data tail)
    (hreads : g.reads maxPackets = true) : tail = [] := by
  rcases h.tail_marker with htail | ⟨hended, _⟩
  · exact htail
  · rw [(reads_iff.mp hreads).2] at hended
    cases hended

/-- The end marker goes behind the packets, and its number is 0. -/
theorem Windowed.ended {g : Globals} (h : Windowed maxPackets g) (past : List UInt8)
    (hreads : g.reads maxPackets = true) :
    Windowed maxPackets { g with
      toSend := appendNode g.toSend (endingNode g.heap past).1
      heap := g.heap.taken
      endingRead := true } := by
  obtain ⟨data, tail, hparts⟩ := h.parts
  have htail := hparts.tail_eq_nil hreads
  subst htail
  have hnodes : g.toSend.nodes = data := hparts.nodes_eq.trans (List.append_nil _)
  refine { h with
    parts := ⟨data, [(endingNode g.heap past).1], ?_, hparts.data_created, .inr ⟨rfl, _, rfl, rfl⟩⟩
    toSend_body := forall_appendNode h.toSend_body ⟨rfl, ?_⟩
    toSend_addr := h.addr_append rfl
    toSend_lt := h.lt_append rfl
    toSend_counted := appendNode_counted h.toSend_counted
    toSend_room := room_of_reads h.toSend_counted hreads }
  · rw [← hnodes]
    rfl
  · show (headerSize : Int) ≤ 18
    decide

/-- A packet goes behind those made before it, with the next number, as long as that is not the last
one. -/
theorem Windowed.body {g : Globals} (h : Windowed maxPackets g) (bytes past : List UInt8)
    (hreads : g.reads maxPackets = true) (hfew : g.created.length + 1 < 2 ^ 32 - 1) :
    Windowed maxPackets { g with
      toSend := appendNode g.toSend (bodyNode g bytes past).1
      heap := g.heap.taken
      currentId := g.currentId + 1
      created := g.created ++ [(g.currentId, bytes)] } := by
  obtain ⟨data, tail, hparts⟩ := h.parts
  have htail := hparts.tail_eq_nil hreads
  subst htail
  have hnodes : g.toSend.nodes = data := hparts.nodes_eq.trans (List.append_nil _)
  have hcontent : (bodyNode g bytes past).1.content = (g.currentId, bytes) :=
    Prod.ext rfl (bodyNode_payload g bytes past)
  obtain ⟨hids, hnext_id⟩ := created_ids_append bytes h.created_ids h.currentId_eq hfew
  refine { h with
    created_ids := hids
    currentId_eq := hnext_id
    parts := ⟨data ++ [(bodyNode g bytes past).1], [], ?_, ?_, .inl rfl⟩
    toSend_body := forall_appendNode h.toSend_body ⟨rfl, ?_⟩
    toSend_addr := h.addr_append rfl
    toSend_lt := h.lt_append rfl
    toSend_counted := appendNode_counted h.toSend_counted
    toSend_room := room_of_reads h.toSend_counted hreads }
  · rw [List.append_nil, ← hnodes]
    rfl
  · rw [List.map_append, List.map_singleton, hcontent]
    exact hparts.data_created.append (.refl _)
  · show (headerSize : Int) ≤ ((bytes.length + headerSize : Nat) : Int)
    omega

/-- Taking out a node keeps what is before and behind it. -/
theorem Parts.erase {g g' : Globals} {data tail : List Node} (h : Parts g data tail) (n : Node)
    (htoSend : g'.toSend = removeNode g.toSend n) (hcreated : g'.created = g.created)
    (hended : g'.endingRead = g.endingRead) : ∃ data tail, Parts g' data tail := by
  by_cases hn : n ∈ data
  · refine ⟨data.erase n, tail, ?_, ?_, ?_⟩
    · rw [htoSend, removeNode, h.nodes_eq, List.erase_append_left _ hn]
    · rw [hcreated]
      exact (List.erase_sublist.map _).trans h.data_created
    · rw [hended]
      exact h.tail_marker
  · refine ⟨data, tail.erase n, ?_, ?_, ?_⟩
    · rw [htoSend, removeNode, h.nodes_eq, List.erase_append_right _ hn]
    · rw [hcreated]
      exact h.data_created
    · rw [hended]
      rcases h.tail_marker with rfl | ⟨hend, e, rfl, hzero⟩
      · exact .inl rfl
      · by_cases hne : e = n
        · subst hne
          exact .inl (List.erase_cons_head _ _)
        · have hnmem : n ∉ [e] := fun hmem => hne (List.mem_singleton.mp hmem).symm
          rw [List.erase_of_not_mem hnmem]
          exact .inr ⟨hend, e, rfl, hzero⟩

/-- Taking out a node leaves the window as it was without it. -/
theorem Windowed.remove {g g' : Globals} (h : Windowed maxPackets g) {n : Node}
    (hn : n ∈ g.toSend.nodes) (htoSend : g'.toSend = removeNode g.toSend n)
    (hcreated : g'.created = g.created) (hcurrent : g'.currentId = g.currentId)
    (hended : g'.endingRead = g.endingRead) (hheap : g'.heap.next = g.heap.next) :
    Windowed maxPackets g' := by
  obtain ⟨data, tail, hparts⟩ := h.parts
  have hsub : g'.toSend.nodes.Sublist g.toSend.nodes := by
    rw [htoSend]
    exact List.erase_sublist
  exact {
    created_ids := by rw [hcreated]; exact h.created_ids
    currentId_eq := by rw [hcreated, hcurrent]; exact h.currentId_eq
    parts := hparts.erase n htoSend hcreated hended
    toSend_body := fun x hx => h.toSend_body x (hsub.subset hx)
    toSend_addr := h.toSend_addr.sublist (hsub.map _)
    toSend_lt := fun x hx => by rw [hheap]; exact h.toSend_lt x (hsub.subset hx)
    toSend_counted := htoSend ▸ removeNode_counted h.toSend_counted hn
    toSend_room := hsub.length_le.trans h.toSend_room }

/-- One step keeps the window, unless it is the last number that is used up. -/
theorem Windowed.stepped {c c' : Config} {e : Event} (h : Windowed maxPackets c.globals)
    (hfew : c'.globals.created.length < 2 ^ 32 - 1) (st : Stepped maxPackets c e c') :
    Windowed maxPackets c'.globals := by
  cases st with
  | send hsend =>
    cases hsend
    exact { h with parts := h.parts.imp fun _ => Exists.imp fun _ hp => { hp with } }
  | read hreads hwhile hg =>
    cases reads_of_ok hg with
    | ended => exact h.ended _ hreads
    | body hne =>
      rw [List.length_append, List.length_singleton] at hfew
      exact h.body _ _ hreads hfew
    | interrupted => exact h
  | check hc hg =>
    cases checks_of_ok hg with
    | acked hm htype hs => exact h.remove (List.mem_of_find?_eq_some hs) rfl rfl rfl rfl rfl
    | nothing => exact h
    | stale | icmp =>
      exact { h with parts := h.parts.imp fun _ => Exists.imp fun _ hp => { hp with } }
  | scan | scanned | select | timeout | filled | checked | allSent | again | error => exact h

/-! ## What was made and not acknowledged -/

/-- What happens to the window. -/
inductive Note
  | made (id : UInt32) (payload : List UInt8)
  | acked (id : UInt32)
  deriving DecidableEq, Repr

/-- A read makes a packet or the end marker. -/
def readNotes (g : Globals) (past : List UInt8) : Recv → List Note
  | .data [] => [.made 0 (endingNode g.heap past).1.payload]
  | .data (b :: bs) => [.made g.currentId (b :: bs)]
  | .failed _ => []

/-- A body packet of the emulator acknowledges a number, whether it is in use or not. -/
def checkNotes (g : Globals) : Recv → List Note
  | .data (b :: bs) =>
    let memory := overlay (b :: bs) g.currentAck
    if memory.getD 4 0 = typeB then [.acked (ackedId memory)] else []
  | .data [] | .failed _ => []

/-- What is observed of a step. -/
def observed (c : Config) (e : Event) (c' : Config) : List Note :=
  match c'.pc, e with
  | .reading _, .read outcomes past =>
    match doWhile readAgain outcomes with
    | some (recv, _) => readNotes c.globals past recv
    | none => []
  | .checking _, .check outcome => checkNotes c.globals outcome
  | _, _ => []

/-- The packets made and not acknowledged since. -/
def outstanding (notes : List Note) : List (UInt32 × List UInt8) :=
  notes.foldl (fun window note => match note with
    | .made id payload => window ++ [(id, payload)]
    | .acked id => window.filter (·.1 ≠ id)) []

/-- Where nothing is noted, the same is outstanding. -/
theorem outstanding_nil (notes : List Note) : outstanding (notes ++ []) = outstanding notes := by
  rw [List.append_nil]

/-- What was made is outstanding, behind what was before. -/
theorem outstanding_made (notes : List Note) (id : UInt32) (payload : List UInt8) :
    outstanding (notes ++ [.made id payload]) = outstanding notes ++ [(id, payload)] := by
  rw [outstanding, List.foldl_append]
  rfl

/-- What was acknowledged is no longer outstanding. -/
theorem outstanding_acked (notes : List Note) (id : UInt32) :
    outstanding (notes ++ [.acked id]) = (outstanding notes).filter (·.1 ≠ id) := by
  rw [outstanding, List.foldl_append]
  rfl

/-- The list holds what is outstanding, in the order it was made. -/
def Holds (g : Globals) (notes : List Note) : Prop :=
  g.toSend.nodes.map Node.content = outstanding notes

/-- Reading from the sender keeps the list what is outstanding. -/
theorem Holds.read {g g' : Globals} {notes : List Note} (h : Holds g notes) {past : List UInt8}
    {recv : Recv} (hg : receiveFromSender past g recv = .ok g') :
    Holds g' (notes ++ readNotes g past recv) := by
  cases reads_of_ok hg with
  | ended =>
    rw [Holds, readNotes, outstanding_made, ← h]
    exact List.map_append
  | @body bytes hne =>
    obtain ⟨b, bs, rfl⟩ := List.exists_cons_of_ne_nil hne
    have hcontent : (bodyNode g (b :: bs) past).1.content = (g.currentId, b :: bs) :=
      Prod.ext rfl (bodyNode_payload g (b :: bs) past)
    rw [Holds, readNotes, outstanding_made, ← h, ← hcontent]
    exact List.map_append
  | interrupted => exact h.trans (outstanding_nil notes).symm

/-- Reading from the emulator keeps the list what is outstanding. The numbers of the list have to
differ, since an acknowledgement takes out one node. -/
theorem Holds.check {g g' : Globals} {notes : List Note} (h : Holds g notes)
    (hnodup : (g.toSend.nodes.map Node.id).Nodup) {outcome : Recv}
    (hg : checkRitardatore g outcome = .ok g') :
    Holds g' (notes ++ checkNotes g outcome) := by
  have hsame : Holds g (notes ++ []) := h.trans (outstanding_nil notes).symm
  cases outcome with
  | failed errno =>
    simp only [checkRitardatore] at hg
    split at hg
    next => cases hg
    next => cases hg; exact hsame
  | data bytes =>
    cases bytes with
    | nil => cases hg; exact hsame
    | cons b bs =>
      simp only [checkRitardatore] at hg
      split at hg
      next htype =>
        -- an acknowledgement, of a number in use or not
        have hnotes : checkNotes g (.data (b :: bs)) =
            [.acked (ackedId (overlay (b :: bs) g.currentAck))] := if_pos htype
        have hnodes := removeNodeById_nodes hnodup (ackedId (overlay (b :: bs) g.currentAck))
        have hleft : g'.toSend =
            (removeNodeById g.toSend (ackedId (overlay (b :: bs) g.currentAck))).1 := by
          cases hg
          unfold acknowledge
          split
          next heq => exact (congrArg Prod.fst heq).symm
          next heq => exact (congrArg Prod.fst heq).symm
        rw [Holds, hnotes, outstanding_acked, ← h, hleft, hnodes, List.filter_map]
        rfl
      next htype =>
        have hnotes : checkNotes g (.data (b :: bs)) = [] := if_neg htype
        cases hg
        rw [hnotes]
        exact hsame

/-- Each step keeps the list what is outstanding. -/
theorem Holds.stepped {c c' : Config} {e : Event} {notes : List Note}
    (h : Holds c.globals notes) (hwindow : Windowed maxPackets c.globals)
    (st : Stepped maxPackets c e c') : Holds c'.globals (notes ++ observed c e c') := by
  have hsame : Holds c.globals (notes ++ []) := h.trans (outstanding_nil notes).symm
  cases st with
  | read hreads hwhile hg =>
    simp only [observed, hwhile]
    exact h.read hg
  | check hc hg => exact h.check hwindow.ids_nodup hg
  | send hsend => cases hsend; exact hsame
  | @select g outcome pc hpc =>
    obtain ⟨ritardatore, rfl | rfl⟩ := hpc
    · exact hsame
    · cases ritardatore <;> exact hsame
  | @filled g ritardatore hr => cases ritardatore <;> exact hsame
  | scan | scanned | timeout | checked | allSent | again | error => exact hsame

/-! ## The pass -/

/-- `sendPacket` as it is written: the number is swapped in the packet, which is linked to the list,
and swapped back once it is sent. -/
def sendPacketInPlace (g : Globals) (node : Node) (sendto : SendTo) : Except String Globals :=
  let swapped := node.withId (htonl node.packet.id)
  let g := { g with toSend := putNode g.toSend swapped }
  match sendto with
  | .failed _ => .error "There was an error with sendto()"
  | .sent =>
    let g : Globals := { g with
      sent := g.sent ++ [⟨g.toRitPort, swapped.packet.image.take swapped.pktSize.toNat⟩]
      finalize := g.finalize || swapped.packet.id = 0 }
    .ok { g with toSend := putNode g.toSend (swapped.withId (ntohl swapped.packet.id)) }

/-- On a node of the list it does what `sendPacket` does. -/
theorem sendPacketInPlace_eq {g : Globals} {node : Node}
    (hnodup : (g.toSend.nodes.map Node.addr).Nodup) (hmem : node ∈ g.toSend.nodes)
    (sendto : SendTo) : sendPacketInPlace g node sendto = sendPacket g node sendto := by
  cases sendto with
  | failed errno => rfl
  | sent =>
    have hback : (node.withId (htonl node.packet.id)).withId
        (ntohl (node.withId (htonl node.packet.id)).packet.id) = node :=
      congrArg node.withId (ntohl_htonl node.packet.id)
    have hput : putNode (putNode g.toSend (node.withId (htonl node.packet.id))) node = g.toSend :=
      putNode_putNode hnodup hmem rfl
    simp only [sendPacketInPlace, hback, hput]
    rfl

/-- The globals after the nodes of a walk were sent. -/
def Globals.afterPass (g : Globals) (iter : List Node) : Globals :=
  { g with
    sent := g.sent ++ iter.map fun n => ⟨g.toRitPort, n.wire⟩
    finalize := g.finalize || iter.any fun n => htonl n.packet.id = 0 }

/-- A walk over nothing changes nothing. -/
theorem Globals.afterPass_nil (g : Globals) : g.afterPass [] = g := by
  simp [Globals.afterPass]

/-- A packet that `sendto` takes is a walk over one node. -/
theorem sendPacket_sent (g : Globals) (n : Node) :
    sendPacket g n .sent = .ok (g.afterPass [n]) := by
  simp [sendPacket, Globals.afterPass]

/-- A walk over a list is a walk over its first node and one over the rest. -/
theorem Globals.afterPass_cons (g : Globals) (n : Node) (next : List Node) :
    (g.afterPass [n]).afterPass next = g.afterPass (n :: next) := by
  simp [Globals.afterPass, Bool.or_assoc]

/-- A walk that the bound lets get to its end sends every node once. -/
theorem walk_sends {scans : Nat} {iter : List Node} {g : Globals}
    (hnodup : (g.toSend.nodes.map Node.addr).Nodup) (hsub : iter ⊆ g.toSend.nodes)
    (hroom : scans + iter.length ≤ maxPackets) :
    forEachFrom (fun g n => sendPacketInPlace g n .sent) maxPackets scans iter g =
      .ok (g.afterPass iter) := by
  induction iter generalizing scans g with
  | nil =>
    rw [g.afterPass_nil]
    rfl
  | cons n next ih =>
    rw [List.length_cons] at hroom
    have hdone : scanDone maxPackets scans (n :: next) = false :=
      (scanDone_cons_eq_false_iff (by omega)).mpr (by omega)
    have hnext : next ⊆ (g.afterPass [n]).toSend.nodes :=
      List.Subset.trans (List.subset_cons_self _ _) hsub
    rw [forEachFrom, hdone, if_neg Bool.false_ne_true,
      sendPacketInPlace_eq hnodup (hsub List.mem_cons_self), sendPacket_sent]
    show forEachFrom (fun g n => sendPacketInPlace g n .sent) maxPackets (scans + 1) next
      (g.afterPass [n]) = _
    rw [ih (g := g.afterPass [n]) hnodup hnext (by omega), g.afterPass_cons]

/-- The main loop's calls of `sendPacket` are that walk, wherever `sendto` may succeed. -/
theorem sending_runs {allow : Config → Event → Prop} (hgo : ∀ c, allow c .go)
    (hsends : ∀ c, allow c (.send [.sent])) {scans : Nat} {iter : List Node} {g : Globals}
    (hroom : scans + iter.length ≤ maxPackets) :
    Machine.Run (step maxPackets) allow ⟨.sending iter scans, g⟩
      ⟨.selecting, g.afterPass iter⟩ := by
  induction iter generalizing scans g with
  | nil =>
    rw [g.afterPass_nil]
    exact .single ⟨.go, hgo _, rfl⟩
  | cons n next ih =>
    rw [List.length_cons] at hroom
    have hdone : scanDone maxPackets scans (n :: next) = false :=
      (scanDone_cons_eq_false_iff (by omega)).mpr (by omega)
    rw [← g.afterPass_cons]
    exact .head ⟨_, hsends _, step_send hdone (sendPacket_sent g n)⟩ (ih (by omega))

/-- The loop's pass over a list that is within the bound. -/
theorem pass_runs {allow : Config → Event → Prop} (hgo : ∀ c, allow c .go)
    (hsends : ∀ c, allow c (.send [.sent])) {g : Globals}
    (hroom : g.toSend.nodes.length ≤ maxPackets) :
    Machine.Run (step maxPackets) allow ⟨.top, g⟩ ⟨.selecting, g.afterPass g.toSend.nodes⟩ :=
  .head ⟨.go, hgo _, rfl⟩ (sending_runs hgo hsends ((Nat.zero_add _).trans_le hroom))

/-- The invariant of a run and of what was observed of it. -/
theorem window_run {c : Config} {notes : List Note}
    (run : Machine.Run (Machine.recording (step maxPackets) observed)
      (Machine.Recorded Machine.Free) (.initial, []) (c, notes))
    (hfew : c.globals.created.length < 2 ^ 32 - 1) :
    Windowed maxPackets c.globals ∧ Holds c.globals notes := by
  have init : Windowed maxPackets Config.initial.globals ∧ Holds Config.initial.globals [] :=
    ⟨.initial, rfl⟩
  refine Machine.Run.guarded
    (I := fun s => Windowed maxPackets s.1.globals ∧ Holds s.1.globals s.2)
    (G := fun s => s.1.globals.created.length < 2 ^ 32 - 1) ?_ ?_ run init hfew
  · intro s e t hstep ht
    have st := stepped_of_step (Machine.recording_eq_some_iff.mp hstep).1
    exact (created_length_le st).trans_lt ht
  · intro s e t hs ht _ hstep
    obtain ⟨hmove, hnotes⟩ := Machine.recording_eq_some_iff.mp hstep
    have st := stepped_of_step hmove
    rw [hnotes]
    exact ⟨hs.1.stepped ht st, hs.2.stepped hs.1 st⟩

/-- What a pass sends is what is outstanding. -/
theorem Windowed.sent_afterPass {g : Globals} {notes : List Note} (h : Windowed maxPackets g)
    (hholds : Holds g notes) : (g.afterPass g.toSend.nodes).sent =
      g.sent ++ (outstanding notes).map fun p => ⟨g.toRitPort, dataDatagram p.1 p.2⟩ := by
  rw [← hholds, List.map_map]
  apply congrArg (g.sent ++ ·)
  apply List.map_congr_left
  intro n hn
  obtain ⟨htype, hsize⟩ := h.toSend_body n hn
  rw [n.wire_eq htype hsize]
  rfl

/-- In every state of every run with fewer than 2³² - 1 data packets `toSend` counts its nodes and
is within `maxPackets`; it is data packets with increasing numbers below `currentId` and behind
them, after the end of the stream, at most the end marker. A pass of `sendPacket` over it sends
every packet made and not acknowledged once, in the order they were made and with the number in
network order, and leaves the list as it was; the main loop makes this pass. -/
theorem window_pass {c : Config} {notes : List Note}
    (run : Machine.Run (Machine.recording (step maxPackets) observed)
      (Machine.Recorded Machine.Free) (.initial, []) (c, notes))
    (hfew : c.globals.created.length < 2 ^ 32 - 1) :
    c.globals.toSend.length = c.globals.toSend.nodes.length ∧
      c.globals.toSend.nodes.length ≤ maxPackets ∧
      (∃ data tail, c.globals.toSend.nodes = data ++ tail ∧ Increasing Node.id data ∧
        (∀ n ∈ data, 1 ≤ n.id ∧ n.id < c.globals.currentId.toNat) ∧
        (tail = [] ∨ c.globals.endingRead = true ∧ ∃ e, tail = [e] ∧ e.id = 0)) ∧
      ((outstanding notes).map Prod.fst).Nodup ∧
      ∃ g', forEach c.globals.toSend (fun g n => sendPacketInPlace g n .sent) maxPackets
          c.globals = .ok g' ∧
        g'.sent = c.globals.sent ++
          (outstanding notes).map (fun p => ⟨c.globals.toRitPort, dataDatagram p.1 p.2⟩) ∧
        g' = { c.globals with sent := g'.sent, finalize := g'.finalize } ∧
        (c.pc = .top → Machine.Run (step maxPackets) Machine.Free c ⟨.selecting, g'⟩) := by
  obtain ⟨h, hholds⟩ := window_run run hfew
  obtain ⟨data, tail, hparts⟩ := h.parts
  obtain ⟨hinc, hrange⟩ := h.data_ids hparts
  refine ⟨h.toSend_counted, h.toSend_room,
    ⟨data, tail, hparts.nodes_eq, hinc, hrange, hparts.tail_marker⟩, ?_,
    c.globals.afterPass c.globals.toSend.nodes, ?_, h.sent_afterPass hholds, rfl, ?_⟩
  · have hids := h.ids_nodup
    rw [← hholds, List.map_map]
    apply List.Nodup.of_map UInt32.toNat
    rw [List.map_map]
    exact hids
  · exact walk_sends h.toSend_addr (List.Subset.refl _) ((Nat.zero_add _).trans_le h.toSend_room)
  · intro htop
    obtain ⟨pc, g⟩ := c
    subst htop
    exact pass_runs (fun _ => trivial) (fun _ => trivial) h.toSend_room

/-- Two reads and the acknowledgement of the first; packet 2 is left for the next pass. -/
def ackedFirst : List Event :=
  [.go, .go, .select (.ready true true), .read [.data [7]] [], .read [.data [8, 9]] [], .go,
    .check (.data (ackImage [] 1)), .check (.failed .EAGAIN), .go, .go]

/-- The run can be made, with its notes. -/
theorem ackedFirst_possible : (Machine.exec (Machine.recording (step 2) observed)
    (Machine.Recorded Machine.Free) (.initial, []) ackedFirst).isSome := by
  decide

/-- Where it leads, and what was observed. -/
def afterAckedFirst : Config × List Note :=
  (Machine.exec (Machine.recording (step 2) observed) (Machine.Recorded Machine.Free)
    (.initial, []) ackedFirst).get ackedFirst_possible

/-- Packet 1 was acknowledged and packet 2 was not, so one pass sends packet 2 alone. -/
theorem window_pass_ackedFirst :
    outstanding afterAckedFirst.2 = [(2, [8, 9])] ∧
      ∃ g', forEach afterAckedFirst.1.globals.toSend (fun g n => sendPacketInPlace g n .sent) 2
          afterAckedFirst.1.globals = .ok g' ∧
        g'.sent = [⟨61000, [0, 0, 0, 2, typeB, 8, 9]⟩] := by
  have run : Machine.Run (Machine.recording (step 2) observed) (Machine.Recorded Machine.Free)
      (.initial, []) (afterAckedFirst.1, afterAckedFirst.2) :=
    Machine.run_exec ackedFirst_possible
  obtain ⟨_, _, _, _, g', hpass, hsent, _⟩ := window_pass run (by decide)
  exact ⟨by decide, g', hpass, hsent.trans (by decide)⟩

end Psender

end GProxy
