import GProxy.Preceiver.Lists

/-!
# The acknowledgement backlog

The delivery pass and the acknowledging pass share one bound, and the first may fill `toAck` with
as many nodes again before the second scans it. `Config.Bounded` says how long `toAck` can be at
each place of the loop: at most the bound at its top, at most twice the bound in between. What was
in `toAck` at the top stands in front of what is delivered in the iteration, so the acknowledging
pass gets to the end of it (`Config.Within`).
-/

namespace GProxy.Preceiver

open SortedInsert

variable {maxPackets : Nat}

/-! ## The bound -/

/-- How long `toAck` can be where the loop stands. The acknowledging pass takes out each node it
scans, so what it has still to scan is the whole list. -/
def Config.Bounded (maxPackets : Nat) : Config → Prop
  | ⟨.delivering _ scans, g⟩ => scans ≤ maxPackets ∧ g.toAck.nodes.length ≤ maxPackets + scans
  | ⟨.acking iter scans, g⟩ => iter = g.toAck.nodes ∧ iter.length + scans ≤ 2 * maxPackets
  | ⟨.exited _, g⟩ => g.toAck.nodes.length ≤ 2 * maxPackets
  | ⟨.top, g⟩ | ⟨.selecting, g⟩ | ⟨.receiving _, g⟩ => g.toAck.nodes.length ≤ maxPackets

/-- At the start `toAck` is empty. -/
theorem Config.Bounded.initial : Config.Bounded maxPackets .initial := Nat.zero_le _

/-- Wherever the loop stands, `toAck` is at most twice as long as the bound. -/
theorem Config.Bounded.le {c : Config} (h : c.Bounded maxPackets) :
    c.globals.toAck.nodes.length ≤ 2 * maxPackets := by
  obtain ⟨pc, g⟩ := c
  cases pc with
  | delivering iter scans =>
    obtain ⟨hscans, hlen⟩ := h
    show g.toAck.nodes.length ≤ 2 * maxPackets
    omega
  | acking iter scans =>
    obtain ⟨rfl, hlen⟩ := h
    exact Nat.le_of_add_right_le hlen
  | exited why => exact h
  | top | selecting | receiving counter =>
    have hlen : g.toAck.nodes.length ≤ maxPackets := h
    show g.toAck.nodes.length ≤ 2 * maxPackets
    omega

/-- One step keeps the bound. -/
theorem Config.Bounded.stepped {c c' : Config} {e : Event} (hm : 1 ≤ maxPackets)
    (h : c.Bounded maxPackets) (hcounted : c.globals.toAck.Counted)
    (st : Stepped maxPackets c e c') : c'.Bounded maxPackets := by
  cases st with
  | deliver hf => exact ⟨Nat.zero_le _, h⟩
  | @delivered g iter scans hd =>
    obtain ⟨hscans, hlen⟩ := h
    exact ⟨rfl, by omega⟩
  | @acked g iter scans hd =>
    obtain ⟨rfl, hlen⟩ := h
    show g.toAck.nodes.length ≤ maxPackets
    rcases nil_or_le_of_scanDone hd with hnil | hscans
    · rw [hnil]
      exact Nat.zero_le _
    · omega
  | @send g g' iter next scans sendCounter hd hsend =>
    obtain ⟨_, hlen⟩ := h
    have hscans := (scanDone_cons_eq_false_iff hm).mp hd
    refine ⟨hscans, ?_⟩
    rcases sendToReceiver_ok hsend with ⟨rfl, _⟩ | ⟨_, _, _, rfl⟩
    · show g'.toAck.nodes.length ≤ maxPackets + (scans + 1)
      omega
    · have := insertNodeById_length_le g.toAck iter
      show (insertNodeById g.toAck iter).1.nodes.length ≤ maxPackets + (scans + 1)
      omega
  | @ack g iter next scans stack hd =>
    obtain ⟨hiter, hlen⟩ := h
    refine ⟨?_, ?_⟩
    · show next = (ackPacket stack g iter).toAck.nodes
      rw [ackPacket_toAck, removeNode_first hiter]
    · rw [List.length_cons] at hlen
      omega
  | @recv g g' counter outcomes r hc hr hg =>
    cases receives_of_ok hg with
    | @behind b bs bytes hb htype hid hroom =>
      have := insertNodeById_length_le g.toAck (g.incoming bytes)
      have hlen : g.toAck.length = g.toAck.nodes.length := hcounted
      show (insertNodeById g.toAck (g.incoming bytes)).1.nodes.length ≤ maxPackets
      omega
    | nothing | icmp | ahead | dropped => exact h
  | @finished g hf =>
    exact Config.Bounded.le (c := ⟨.top, g⟩) h
  | @error pc g e message => exact Config.Bounded.le (c := ⟨pc, g⟩) h
  | received | interrupted | readable | timeout => exact h

/-! ## Addresses -/

/-- No step takes back an address. -/
theorem heap_next_le {c c' : Config} {e : Event} (st : Stepped maxPackets c e c') :
    c.globals.heap.next ≤ c'.globals.heap.next := by
  cases st with
  | @ack g iter next scans stack hd =>
    show g.heap.next ≤ (ackPacket stack g iter).heap.next
    rw [ackPacket_heap]
    exact le_rfl
  | send hd hsend =>
    rcases sendToReceiver_ok hsend with ⟨rfl, _⟩ | ⟨_, _, _, rfl⟩ <;> exact le_rfl
  | recv hc hr hg => cases receives_of_ok hg <;> exact Nat.le_succ _
  | finished | deliver | delivered | acked | received | interrupted | readable
  | timeout | error => exact le_rfl

/-- The linked nodes have addresses that were handed out. -/
structure HandedOut (g : Globals) : Prop where
  toSend_lt : ∀ n ∈ g.toSend.nodes, n.addr < g.heap.next
  toAck_lt : ∀ n ∈ g.toAck.nodes, n.addr < g.heap.next

/-- At the start no node is linked. -/
theorem HandedOut.initial : HandedOut Globals.initial :=
  ⟨(fun _ h => nomatch h), (fun _ h => nomatch h)⟩

/-- A new node gets an address behind all that were handed out, and the others keep theirs. -/
theorem HandedOut.stepped {c c' : Config} {e : Event} (h : HandedOut c.globals) (hwalk : c.Walks)
    (st : Stepped maxPackets c e c') : HandedOut c'.globals := by
  have hsend_lt := h.toSend_lt
  have hack_lt := h.toAck_lt
  have hle := heap_next_le st
  cases st with
  | ack hd =>
    refine ⟨?_, ?_⟩
    · intro n hn
      rw [ackPacket_toSend] at hn
      exact (hsend_lt n hn).trans_le hle
    · intro n hn
      rw [ackPacket_toAck] at hn
      exact (hack_lt n (List.mem_of_mem_erase hn)).trans_le hle
  | send hd hsend =>
    rcases sendToReceiver_ok hsend with ⟨rfl, _⟩ | ⟨_, _, _, rfl⟩
    · exact h
    · refine ⟨?_, forall_insertNodeById hack_lt (hsend_lt _ hwalk.mem_toSend)⟩
      intro n hn
      exact hsend_lt n (List.mem_of_mem_erase hn)
  | recv hc hr hg =>
    have hsend_lt' := fun n hn => (hsend_lt n hn).trans_le hle
    have hack_lt' := fun n hn => (hack_lt n hn).trans_le hle
    cases receives_of_ok hg with
    | ahead hb htype hid =>
      exact ⟨forall_insertNodeById hsend_lt' (Nat.lt_succ_self _), hack_lt'⟩
    | behind hb htype hid hroom =>
      exact ⟨hsend_lt', forall_insertNodeById hack_lt' (Nat.lt_succ_self _)⟩
    | nothing | icmp | dropped => exact ⟨hsend_lt', hack_lt'⟩
  | finished | deliver | delivered | acked | received | interrupted | readable
  | timeout | error => exact ⟨hsend_lt, hack_lt⟩

/-! ## One iteration -/

/-- The numbers read from acknowledgements, when `currentAck` held `memory` before each. -/
def ackedIds (memory : List UInt8) (acks : List Datagram) : List UInt32 :=
  acks.map fun d => ackedId (overlay d.bytes memory)

/-- Since `before` the nodes of `done` were acknowledged, in this order, and nothing else was
sent. -/
def Acknowledged (before sent : List Datagram) (done : List Node) : Prop :=
  ∃ acks, sent = before ++ acks ∧ ∀ memory, ackedIds memory acks = done.map (·.packet.id)

/-- Nothing was acknowledged since now. -/
theorem Acknowledged.nil (before : List Datagram) : Acknowledged before before [] :=
  ⟨[], (List.append_nil _).symm, fun _ => rfl⟩

/-- One more acknowledgement. Its number is that of the node whatever the buffer of `ackPkt` held
before. -/
theorem Acknowledged.snoc {before sent : List Datagram} {done : List Node}
    (h : Acknowledged before sent done) (port : UInt16) (stack : List UInt8) (n : Node) :
    Acknowledged before (sent ++ [⟨port, ackImage stack n.packet.id⟩]) (done ++ [n]) := by
  obtain ⟨acks, rfl, hacks⟩ := h
  refine ⟨acks ++ [⟨port, ackImage stack n.packet.id⟩], List.append_assoc _ _ _, ?_⟩
  intro memory
  rw [ackedIds, List.map_append, List.map_append, ← hacks memory]
  simp only [ackedIds, List.map_cons, List.map_nil, ackedId_ackImage]

/-- What was in `toAck` at the start of the iteration was acknowledged, each node once, and is no
longer linked. -/
structure Cleared (start g : Globals) (done : List Node) : Prop where
  start_done : start.toAck.nodes <+: done
  increasing : Increasing Node.id done
  acknowledged : Acknowledged start.sent g.sent done
  removed : ∀ n ∈ start.toAck.nodes, n ∉ g.toAck.nodes

/-- What has become of the backlog where the loop stands in the iteration begun with `start`. -/
def Config.Within (start : Globals) : Config → Prop
  | ⟨.delivering _ _, g⟩ => start.toAck.nodes <+: g.toAck.nodes ∧ g.sent = start.sent
  | ⟨.acking iter scans, g⟩ => ∃ done, done.length = scans ∧
      start.toAck.nodes <+: done ++ iter ∧ Increasing Node.id (done ++ iter) ∧
      Acknowledged start.sent g.sent done
  | ⟨.selecting, g⟩ | ⟨.receiving _, g⟩ | ⟨.top, g⟩ => ∃ done, Cleared start g done
  | ⟨.exited _, _⟩ => True

/-- The acknowledging pass stops behind what was in `toAck` at the start. -/
theorem Cleared.of_acked {start g : Globals} {iter done : List Node}
    (hfew : start.toAck.nodes.length ≤ maxPackets)
    (hd : scanDone maxPackets done.length iter = true) (hiter : iter = g.toAck.nodes)
    (hstart : start.toAck.nodes <+: done ++ iter) (hinc : Increasing Node.id (done ++ iter))
    (hacks : Acknowledged start.sent g.sent done) : Cleared start g done := by
  have hdone : start.toAck.nodes <+: done := by
    rcases nil_or_le_of_scanDone hd with rfl | hscans
    · rwa [List.append_nil] at hstart
    · exact List.prefix_of_prefix_length_le hstart (List.prefix_append _ _) (hfew.trans hscans)
  refine ⟨hdone, hinc.sublist (List.sublist_append_left _ _), hacks, ?_⟩
  intro n hn hmem
  rw [← hiter] at hmem
  exact List.disjoint_of_nodup_append hinc.nodup (hdone.subset hn) hmem

/-- A step that sends nothing and links no node of the start again. -/
theorem Cleared.keep {start g g' : Globals} {done : List Node} (h : Cleared start g done)
    (hsent : g'.sent = g.sent)
    (hremoved : ∀ n ∈ start.toAck.nodes, n ∈ g'.toAck.nodes → n ∈ g.toAck.nodes) :
    Cleared start g' done :=
  { h with
    acknowledged := hsent ▸ h.acknowledged
    removed := fun n hn hmem => h.removed n hn (hremoved n hn hmem) }

/-- One step within the iteration. -/
theorem Config.Within.stepped {start : Globals} {c c' : Config} {e : Event}
    (hfew : start.toAck.nodes.length ≤ maxPackets)
    (hout : ∀ n ∈ start.toAck.nodes, n.addr < c.globals.heap.next) (hord : Ordered c.globals)
    (hb : c.Bounded maxPackets) (h : c.Within start) (htop : c.pc ≠ .top)
    (st : Stepped maxPackets c e c') : c'.Within start := by
  cases st with
  | finished | deliver => exact absurd rfl htop
  | error => trivial
  | @delivered g iter scans hd =>
    obtain ⟨hstart, hsent⟩ := h
    exact ⟨[], rfl, hstart, hord.toAck_increasing, hsent ▸ .nil _⟩
  | @send g g' iter next scans sendCounter hd hsend =>
    obtain ⟨hstart, hsent⟩ := h
    rcases sendToReceiver_ok hsend with ⟨rfl, _⟩ | ⟨hid, _, _, rfl⟩
    · exact ⟨hstart, hsent⟩
    · refine ⟨?_, hsent⟩
      show start.toAck.nodes <+: (insertNodeById g.toAck iter).1.nodes
      rw [hord.insert_delivered hid]
      exact hstart.trans (List.prefix_append _ _)
  | @ack g iter next scans stack hd =>
    obtain ⟨done, rfl, hstart, hinc, hacks⟩ := h
    have hsplit : done ++ iter :: next = (done ++ [iter]) ++ next := List.append_cons _ _ _
    rw [hsplit] at hstart hinc
    refine ⟨done ++ [iter], List.length_append, hstart, hinc, ?_⟩
    rw [ackPacket_sent]
    exact hacks.snoc _ _ _
  | @acked g iter scans hd =>
    obtain ⟨done, rfl, hstart, hinc, hacks⟩ := h
    exact ⟨done, .of_acked hfew hd hb.1 hstart hinc hacks⟩
  | @recv g g' counter outcomes r hc hr hg =>
    obtain ⟨done, hdone⟩ := h
    refine ⟨done, ?_⟩
    cases receives_of_ok hg with
    | @behind b bs bytes _ htype hid hroom =>
      refine hdone.keep rfl ?_
      intro n hn hmem
      rcases mem_of_mem_insertNodeById hmem with rfl | hmem
      · exact absurd (hout _ hn) (lt_irrefl _)
      · exact hmem
    | nothing | icmp | ahead | dropped => exact hdone.keep rfl fun _ _ hmem => hmem
  | timeout =>
    obtain ⟨done, hdone⟩ := h
    exact ⟨done, hdone.keep rfl fun _ _ hmem => hmem⟩
  | received | interrupted | readable => exact h

/-- Steps within one iteration, before the counter wraps. -/
def Iterating (c : Config) (e : Event) : Prop := Unwrapped c e ∧ c.pc ≠ .top

instance (c : Config) (e : Event) : Decidable (Iterating c e) :=
  inferInstanceAs (Decidable (Unwrapped c e ∧ c.pc ≠ .top))

/-- The loop stands behind the acknowledging pass, or at the top again. -/
def Config.afterAcks (c : Config) : Bool :=
  match c.pc with
  | .selecting | .receiving _ | .top => true
  | .delivering _ _ | .acking _ _ | .exited _ => false

/-- The invariant of a run, for the backlog. -/
structure Config.Backlogged (maxPackets : Nat) (c : Config) : Prop where
  sorted : c.Sorted
  bounded : c.Bounded maxPackets
  handedOut : HandedOut c.globals

/-- The start has the whole invariant. -/
theorem Config.Backlogged.initial : Config.initial.Backlogged maxPackets :=
  ⟨.initial, .initial, .initial⟩

/-- Each step keeps the whole invariant. The bound needs the order of the lists, which a wrapped
counter would break. -/
theorem Config.Backlogged.stepped {c c' : Config} {e : Event} (hm : 1 ≤ maxPackets)
    (h : c.Backlogged maxPackets) (hwrap : Unwrapped c e) (st : Stepped maxPackets c e c') :
    c'.Backlogged maxPackets := by
  have hlt : c.globals.lastSentId.toNat < 4294967295 := UInt32.lt_iff_toNat_lt.mp hwrap
  exact ⟨h.sorted.stepped (fun _ _ _ => by omega) st,
    h.bounded.stepped hm h.sorted.ordered.toAck_counted st,
    h.handedOut.stepped h.sorted.walks st⟩

/-- What is in `toAck` at the top is cleared once the acknowledging pass is done. -/
theorem Config.Backlogged.iteration {start : Globals} {c : Config} (hm : 1 ≤ maxPackets)
    (h : Config.Backlogged maxPackets ⟨.top, start⟩)
    (run : Machine.Run (step maxPackets) Iterating ⟨.delivering start.toSend.nodes 0, start⟩ c) :
    c.Within start := by
  have hfew : start.toAck.nodes.length ≤ maxPackets := h.bounded
  have hinit : Config.Backlogged maxPackets ⟨.delivering start.toSend.nodes 0, start⟩ :=
    ⟨⟨h.sorted.ordered, .refl _⟩, ⟨Nat.zero_le _, hfew⟩, h.handedOut⟩
  refine (Machine.Run.invariant (I := fun c => c.Backlogged maxPackets ∧
    start.heap.next ≤ c.globals.heap.next ∧ c.Within start) ?_ run
    ⟨hinit, le_rfl, List.prefix_rfl, rfl⟩).2.2
  rintro c e c' ⟨hback, hnext, hwithin⟩ ⟨hwrap, htop⟩ hstep
  have st := stepped_of_step hstep
  have hout : ∀ n ∈ start.toAck.nodes, n.addr < c.globals.heap.next :=
    fun n hn => (h.handedOut.toAck_lt n hn).trans_le hnext
  exact ⟨hback.stepped hm hwrap st, hnext.trans (heap_next_le st),
    hwithin.stepped hfew hout hback.sorted.ordered hback.bounded htop st⟩

/-- A cleared node was acknowledged once. -/
theorem Cleared.count {start g : Globals} {done : List Node} (h : Cleared start g done) {n : Node}
    (hn : n ∈ start.toAck.nodes) (memory : List UInt8) :
    (ackedIds memory (g.sent.drop start.sent.length)).count n.packet.id = 1 := by
  obtain ⟨acks, hsent, hacks⟩ := h.acknowledged
  rw [hsent, List.drop_left, hacks memory]
  apply List.count_eq_one_of_mem
  · have hnodup : (done.map Node.id).Nodup := h.increasing.nodup_keys
    have hmap : done.map Node.id = (done.map (·.packet.id)).map UInt32.toNat := by
      rw [List.map_map]
      rfl
    exact (hmap ▸ hnodup).of_map
  · exact List.mem_map_of_mem (h.start_done.subset hn)

/-! ## The iteration gets there -/

/-- `send` does not fail. -/
def NoSendError (_ : Config) (e : Event) : Prop := e ≠ .send (-1)

/-- The loop stands in the first half of an iteration. -/
def Config.passing (c : Config) : Bool :=
  match c.pc with
  | .top => !c.globals.finished
  | .delivering _ _ | .acking _ _ | .selecting => true
  | .receiving _ | .exited _ => false

/-- How much the two passes have still to do at most: a delivery adds one to `toAck`. -/
def Config.toScan : Config → Nat
  | ⟨.top, g⟩ => 2 * g.toSend.nodes.length + g.toAck.nodes.length + 3
  | ⟨.delivering iter _, g⟩ => 2 * iter.length + g.toAck.nodes.length + 2
  | ⟨.acking iter _, _⟩ => iter.length + 1
  | ⟨.selecting, _⟩ | ⟨.receiving _, _⟩ | ⟨.exited _, _⟩ => 0

/-- A `send` that accepts nothing leaves the packet where it is. -/
theorem sendToReceiver_zero (g : Globals) (current : Node) :
    sendToReceiver 0 g current = .ok g := by
  unfold sendToReceiver
  split <;> rfl

/-- Neither pass gets stuck. -/
theorem Config.passing_live {c : Config} (h : c.passing = true) (hpc : c.pc ≠ .selecting) :
    ∃ d, Machine.Move (step maxPackets) NoSendError c d := by
  obtain ⟨pc, g⟩ := c
  cases pc with
  | top =>
    have hf : g.finished = false := by simpa [Config.passing] using h
    exact ⟨_, .go, Event.noConfusion, step_deliver hf⟩
  | delivering iter scans =>
    cases hd : scanDone maxPackets scans iter with
    | true => exact ⟨_, .go, Event.noConfusion, step_delivered hd⟩
    | false =>
      cases iter with
      | nil => cases hd
      | cons n next =>
        have hok : NoSendError ⟨.delivering (n :: next) scans, g⟩ (.send 0) := by
          simp [NoSendError]
        exact ⟨_, .send 0, hok, step_send hd (sendToReceiver_zero g n)⟩
  | acking iter scans =>
    cases hd : scanDone maxPackets scans iter with
    | true => exact ⟨_, .go, Event.noConfusion, step_acked hd⟩
    | false =>
      cases iter with
      | nil => cases hd
      | cons n next => exact ⟨_, .ack [], Event.noConfusion, step_ack hd []⟩
  | selecting => exact absurd rfl hpc
  | receiving counter => cases h
  | exited why => cases h

/-- One step of the two passes. -/
theorem Config.passing_stepped {c c' : Config} {e : Event} (h : c.passing = true)
    (hpc : c.pc ≠ .selecting) (hsend : NoSendError c e) (hstep : step maxPackets c e = some c') :
    c'.passing = true ∧ c'.toScan < c.toScan := by
  have st := stepped_of_step hstep
  cases st with
  | finished hf => simp [Config.passing, hf] at h
  | @deliver g hf =>
    refine ⟨rfl, ?_⟩
    simp only [Config.toScan]
    omega
  | @delivered g iter scans hd =>
    refine ⟨rfl, ?_⟩
    simp only [Config.toScan]
    omega
  | @send g g' iter next scans sendCounter hd hs =>
    refine ⟨rfl, ?_⟩
    have hlen : g'.toAck.nodes.length ≤ g.toAck.nodes.length + 1 := by
      rcases sendToReceiver_ok hs with ⟨rfl, _⟩ | ⟨_, _, _, rfl⟩
      · exact Nat.le_succ _
      · exact insertNodeById_length_le g.toAck iter
    simp only [Config.toScan, List.length_cons]
    omega
  | @ack g iter next scans stack hd =>
    refine ⟨rfl, ?_⟩
    simp only [Config.toScan, List.length_cons]
    omega
  | acked hd => exact ⟨rfl, Nat.succ_pos _⟩
  | received hc => cases h
  | recv hc hr hg => cases h
  | interrupted | readable | timeout => exact absurd rfl hpc
  | @error pc g e message =>
    have hrun : ∀ why, pc ≠ .exited why := by
      rintro why rfl
      cases h
    rcases event_of_printError hstep rfl hrun with rfl | ⟨errno, rfl⟩ | ⟨outcomes, rfl⟩
    · exact absurd rfl hsend
    · cases pc with
      | selecting => exact absurd rfl hpc
      | _ => cases hstep
    · cases pc with
      | receiving counter => cases h
      | _ => cases hstep

/-- Every iteration comes to its `select`, unless `send` fails. -/
theorem eventually_selecting {c : Config} (h : c.passing = true) :
    Machine.Eventually (step maxPackets) NoSendError (fun d => d.pc = .selecting) c := by
  apply Machine.Eventually.of_measure (I := fun c => c.passing = true) Config.toScan
  · intro s hs hpc
    exact Config.passing_live hs hpc
  · rintro s t hs hpc ⟨e, hsend, hstep⟩
    exact Config.passing_stepped hs hpc hsend hstep
  · exact h

/-- `toAck` holds at most `maxPackets` nodes at the top of an iteration and never more than twice
as many; every node that is in it at the top is acknowledged exactly once in that iteration and
taken out, and the iteration gets that far. -/
theorem acks_not_starved (hm : 1 ≤ maxPackets) {c : Config}
    (run : Machine.Run (step maxPackets) Unwrapped .initial c) :
    c.globals.toAck.nodes.length ≤ 2 * maxPackets ∧
      (c.pc = .top → c.globals.toAck.nodes.length ≤ maxPackets) ∧
      ∀ n ∈ c.globals.toAck.nodes, c.pc = .top →
        Machine.Eventually (step maxPackets) NoSendError (fun d => d.pc = .selecting) c ∧
        ∀ d c', step maxPackets c .go = some d →
          Machine.Run (step maxPackets) Iterating d c' → c'.afterAcks = true →
          n ∉ c'.globals.toAck.nodes ∧ ∀ memory,
            (ackedIds memory (c'.globals.sent.drop c.globals.sent.length)).count
              n.packet.id = 1 := by
  have hback : c.Backlogged maxPackets := Machine.Run.invariant
    (fun _ _ _ h hwrap hstep => h.stepped hm hwrap (stepped_of_step hstep)) run .initial
  refine ⟨hback.bounded.le, ?_, ?_⟩
  · intro hpc
    obtain ⟨pc, g⟩ := c
    cases hpc
    exact hback.bounded
  · intro n hn hpc
    obtain ⟨pc, g⟩ := c
    cases hpc
    have hf : g.finished = false := by
      have hcounted : g.toAck.length = g.toAck.nodes.length := hback.sorted.ordered.toAck_counted
      have hpos : 0 < g.toAck.nodes.length := List.length_pos_of_mem hn
      have hlen : g.toAck.length ≠ 0 := by omega
      simp [Globals.finished, hlen]
    refine ⟨eventually_selecting (by simp [Config.passing, hf]), ?_⟩
    intro d c' hgo run' hafter
    cases (step_deliver hf).symm.trans hgo
    have hwithin := hback.iteration hm run'
    obtain ⟨done, hdone⟩ : ∃ done, Cleared g c'.globals done := by
      obtain ⟨pc', g'⟩ := c'
      cases pc' with
      | selecting | receiving | top => exact hwithin
      | delivering | acking | exited => cases hafter
    exact ⟨hdone.removed n hn, hdone.count hn⟩

/-- A run in which packet 1 is delivered, acknowledged, and arrives once more, so that it waits in
`toAck` at the top of the third iteration. -/
def repeated : List Event :=
  [.go, .go, .go, .select (.ready true), .recv [.data (dataDatagram 1 [7])], .go, .go, .send 1, .go,
    .ack [], .go, .select (.ready true), .recv [.data (dataDatagram 1 [7])], .go]

/-- The run can be made. -/
theorem repeated_possible :
    (Machine.exec (step 1) Unwrapped .initial repeated).isSome := by decide

/-- The state at the end of it. -/
def pending : Config := (Machine.exec (step 1) Unwrapped .initial repeated).get repeated_possible

/-- The next iteration can be made up to the end of its acknowledging pass. -/
theorem pending_iterates :
    (Machine.exec (step 1) Iterating ⟨.delivering pending.globals.toSend.nodes 0, pending.globals⟩
      [.go, .ack [], .go]).isSome := by decide

/-- In that iteration the one node in `toAck` is acknowledged once. -/
theorem acks_not_starved_repeated :
    pending.globals.toAck.nodes.length ≤ 1 ∧ ∀ n ∈ pending.globals.toAck.nodes, ∀ memory,
      (ackedIds memory (((Machine.exec (step 1) Iterating
        ⟨.delivering pending.globals.toSend.nodes 0, pending.globals⟩ [.go, .ack [], .go]).get
          pending_iterates).globals.sent.drop pending.globals.sent.length)).count
        n.packet.id = 1 := by
  obtain ⟨_, hfew, hacked⟩ :=
    acks_not_starved (Nat.le_refl 1) (Machine.run_exec repeated_possible)
  refine ⟨hfew (by decide), ?_⟩
  intro n hn
  exact ((hacked n hn (by decide)).2 _ _ rfl (Machine.run_exec pending_iterates) (by decide)).2

end GProxy.Preceiver
