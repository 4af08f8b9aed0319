import GProxy.Preceiver.Backlog
import GProxy.Preceiver.Delivery

/-!
# Stopping when nothing more arrives

When psender is gone every `select` times out. The branch for it only sets `timedOut`: the main
loop is left at its top alone, where both lists must be empty and `finalize` set. So the loop is
left exactly when what `toSend` holds can be delivered to the last node and the end marker was
acknowledged or is linked (`Globals.Stops`); else it goes round for ever.
-/

namespace GProxy.Preceiver

open SortedInsert

variable {maxPackets : Nat}

/-! ## What holds in every run -/

/-- The lists are in order, `toSend` holds nothing behind the number waited for, also when the
counter wraps, and its packets have whole headers. -/
structure Awaiting (g : Globals) : Prop extends InOrder g where
  toSend_ahead : ∀ n ∈ g.toSend.nodes, g.lastSentId.toNat ≤ n.id
  toSend_size : ∀ n ∈ g.toSend.nodes, (headerSize : Int) ≤ n.pktSize

/-- At the start nothing is in the lists. -/
theorem Awaiting.initial : Awaiting Globals.initial :=
  ⟨.initial, (fun _ h => nomatch h), (fun _ h => nomatch h)⟩

/-- Each step keeps it. -/
theorem Awaiting.stepped {c c' : Config} {e : Event} (h : Awaiting c.globals) (hwalk : c.Walks)
    (st : Stepped maxPackets c e c') : Awaiting c'.globals := by
  have hinOrder := h.toInOrder.stepped hwalk st
  have hahead := h.toSend_ahead
  have hsize := h.toSend_size
  cases st with
  | ack hd => exact ⟨hinOrder, by simpa using hahead, by simpa using hsize⟩
  | send hd hsend =>
    rcases sendToReceiver_ok hsend with ⟨rfl, _⟩ | ⟨hid, _, _, rfl⟩
    · exact h
    · refine ⟨hinOrder, ahead_delivered h.toSend_increasing hahead hwalk.mem_toSend hid, ?_⟩
      intro n hn
      exact hsize n (List.mem_of_mem_erase hn)
  | recv hc hr hg =>
    cases receives_of_ok hg with
    | ahead hb htype hid =>
      refine ⟨hinOrder, forall_insertNodeById hahead hid, forall_insertNodeById hsize ?_⟩
      exact Int.ofNat_le.mpr (headerSize_le_length htype)
    | nothing | icmp | behind | dropped => exact ⟨hinOrder, hahead, hsize⟩
  | finished | deliver | delivered | acked | received | interrupted | readable
  | timeout | error => exact ⟨hinOrder, hahead, hsize⟩

/-- The packet waited for is the first of `toSend`. -/
theorem Awaiting.front {g : Globals} (h : Awaiting g) {n : Node} (hn : n ∈ g.toSend.nodes)
    (hid : n.packet.id = g.lastSentId) : ∃ rest, g.toSend.nodes = n :: rest := by
  have hinc := h.toSend_increasing
  have hahead := h.toSend_ahead
  have hn_id : n.id = g.lastSentId.toNat := Node.id_eq_iff.mp hid
  generalize g.toSend.nodes = nodes at *
  cases nodes with
  | nil => cases hn
  | cons m rest =>
    rcases List.mem_cons.mp hn with rfl | hmem
    · exact ⟨rest, rfl⟩
    · have hlt := (increasing_cons.mp hinc).1 n hmem
      have hle := hahead m List.mem_cons_self
      omega

/-! ## What makes the loop stop -/

/-- The end marker was acknowledged, or is linked. -/
def Globals.EndMarked (g : Globals) : Prop :=
  g.finalize = true ∨ ∃ n, (n ∈ g.toSend.nodes ∨ n ∈ g.toAck.nodes) ∧ n.id = 0

/-- The nodes carry the numbers from `next` on without a gap, and each has a body. -/
def Deliverable : UInt32 → List Node → Prop
  | _, [] => True
  | next, n :: rest =>
    n.packet.id = next ∧ (headerSize : Int) < n.pktSize ∧ Deliverable (next + 1) rest

/-- The end marker got through and nothing is missing of what is buffered. -/
def Globals.Stops (g : Globals) : Prop :=
  g.EndMarked ∧ Deliverable g.lastSentId g.toSend.nodes

/-- The callback sets `finalize` for the end marker, whose number is 0, and for nothing else. -/
theorem ackPacket_finalize (stack : List UInt8) (g : Globals) (n : Node) :
    (ackPacket stack g n).finalize = true ↔ g.finalize = true ∨ n.id = 0 := by
  have hid : n.packet.id = 0 ↔ n.id = 0 := Node.id_eq_iff
  unfold ackPacket
  split
  next h0 => exact ⟨fun _ => .inr (hid.mp h0), fun _ => rfl⟩
  next h0 => exact ⟨.inl, fun h => h.resolve_right fun hn => h0 (hid.mpr hn)⟩

/-- Acknowledging the end marker sets `finalize`. -/
theorem endMarked_ackPacket {g : Globals} {n : Node} (hinc : Increasing Node.id g.toAck.nodes)
    (hn : n ∈ g.toAck.nodes) (stack : List UInt8) :
    (ackPacket stack g n).EndMarked ↔ g.EndMarked := by
  unfold Globals.EndMarked
  rw [ackPacket_finalize, ackPacket_toSend, ackPacket_toAck]
  constructor
  · rintro ((hfin | hzero) | ⟨x, hx | hx, hid⟩)
    · exact .inl hfin
    · exact .inr ⟨n, .inr hn, hzero⟩
    · exact .inr ⟨x, .inl hx, hid⟩
    · exact .inr ⟨x, .inr ((mem_removeNode hinc).mp hx).1, hid⟩
  · rintro (hfin | ⟨x, hx | hx, hid⟩)
    · exact .inl (.inl hfin)
    · exact .inr ⟨x, .inl hx, hid⟩
    · by_cases hxn : x = n
      · exact .inl (.inr (hxn ▸ hid))
      · exact .inr ⟨x, .inr ((mem_removeNode hinc).mpr ⟨hx, hxn⟩), hid⟩

/-- A delivered node goes from one list to the other, or its number is there already. -/
theorem endMarked_moved {g g' : Globals} {n : Node} (hinc : Increasing Node.id g.toSend.nodes)
    (hn : n ∈ g.toSend.nodes) (hfin : g'.finalize = g.finalize)
    (htoSend : g'.toSend = removeNode g.toSend n)
    (htoAck : g'.toAck = (insertNodeById g.toAck n).1) : g'.EndMarked ↔ g.EndMarked := by
  unfold Globals.EndMarked
  rw [hfin, htoSend, htoAck]
  constructor
  · rintro (hfin | ⟨x, hx | hx, hid⟩)
    · exact .inl hfin
    · exact .inr ⟨x, .inl ((mem_removeNode hinc).mp hx).1, hid⟩
    · rcases mem_of_mem_insertNodeById hx with rfl | hx
      · exact .inr ⟨x, .inl hn, hid⟩
      · exact .inr ⟨x, .inr hx, hid⟩
  · rintro (hfin | ⟨x, hx | hx, hid⟩)
    · exact .inl hfin
    · by_cases hxn : x = n
      · subst hxn
        obtain ⟨y, hy, hyid⟩ := exists_id_insertNodeById g.toAck x
        exact .inr ⟨y, .inr hy, hyid.trans hid⟩
      · exact .inr ⟨x, .inl ((mem_removeNode hinc).mpr ⟨hx, hxn⟩), hid⟩
    · exact .inr ⟨x, .inr (mem_insertNodeById_of_mem hx), hid⟩

/-- While psender is gone, no step changes whether the loop will stop. -/
theorem stops_stepped {c c' : Config} {e : Event} (h : Awaiting c.globals) (hwalk : c.Walks)
    (hidle : Idle c e) (st : Stepped maxPackets c e c') :
    c'.globals.Stops ↔ c.globals.Stops := by
  cases st with
  | @ack g iter next scans stack hd =>
    have hmem : iter ∈ g.toAck.nodes := hwalk.mem_toAck
    unfold Globals.Stops
    rw [endMarked_ackPacket h.toAck_increasing hmem, ackPacket_lastSentId, ackPacket_toSend]
  | @send g g' iter next scans sendCounter hd hsend =>
    rcases sendToReceiver_ok hsend with ⟨rfl, _⟩ | ⟨hid, h0, _, rfl⟩
    · exact Iff.rfl
    · have hmem : iter ∈ g.toSend.nodes := hwalk.mem_toSend
      have hwhole : sendCounter = iter.pktSize - headerSize := of_decide_eq_true hidle.1
      have hsize : (headerSize : Int) ≤ iter.pktSize := h.toSend_size iter hmem
      have hbody : (headerSize : Int) < iter.pktSize := by omega
      obtain ⟨rest, hrest⟩ := h.front hmem hid
      refine and_congr (endMarked_moved h.toSend_increasing hmem rfl rfl rfl) ?_
      show Deliverable (g.lastSentId + 1) (g.toSend.nodes.erase iter) ↔
        Deliverable g.lastSentId g.toSend.nodes
      rw [hrest, List.erase_cons_head]
      exact ⟨fun hdel => ⟨hid, hbody, hdel⟩, fun hdel => hdel.2.2⟩
  | recv => exact absurd rfl (hidle.2.2 _)
  | timeout | finished | deliver | delivered | acked | received | interrupted | readable
  | error => exact Iff.rfl

/-! ## The loop on its own -/

/-- Where the loop can stand while psender is gone. -/
def Pc.idling : Pc → Bool
  | .receiving _ | .exited (.printError _) => false
  | .top | .delivering _ _ | .acking _ _ | .selecting | .exited .terminate => true

/-- The invariant of a run while psender is gone. -/
structure Config.Idling (c : Config) : Prop where
  awaiting : Awaiting c.globals
  walks : c.Walks
  idling : c.pc.idling = true

/-- A whole body is never a failed `send`. -/
theorem sendWhole_ok {g : Globals} {n : Node} (hsize : (headerSize : Int) ≤ n.pktSize) :
    ∃ g', sendToReceiver (n.pktSize - headerSize) g n = .ok g' := by
  cases hsend : sendToReceiver (n.pktSize - headerSize) g n with
  | ok g' => exact ⟨g', rfl⟩
  | error message =>
    have := sendToReceiver_error hsend
    omega

/-- The loop never gets stuck while psender is gone. -/
theorem Config.Idling.live {c : Config} (h : c.Idling) (hpc : c.pc ≠ .exited .terminate) :
    ∃ d, Machine.Move (step maxPackets) Idle c d := by
  obtain ⟨pc, g⟩ := c
  cases pc with
  | top =>
    cases hf : g.finished with
    | true =>
      exact ⟨⟨.exited .terminate, g⟩, .go, .go _, by simp only [step, Config.go, hf, ↓reduceIte]⟩
    | false => exact ⟨_, .go, .go _, step_deliver hf⟩
  | delivering iter scans =>
    cases hd : scanDone maxPackets scans iter with
    | true => exact ⟨_, .go, .go _, step_delivered hd⟩
    | false =>
      cases iter with
      | nil => cases hd
      | cons n next =>
        obtain ⟨g', hsend⟩ := sendWhole_ok (g := g) (h.awaiting.toSend_size n h.walks.mem_toSend)
        exact ⟨_, _, .send n next scans g, step_send hd hsend⟩
  | acking iter scans =>
    cases hd : scanDone maxPackets scans iter with
    | true => exact ⟨_, .go, .go _, step_acked hd⟩
    | false =>
      cases iter with
      | nil => cases hd
      | cons n next =>
        exact ⟨_, _, .ack _ [], step_ack hd []⟩
  | selecting => exact ⟨⟨.top, { g with timedOut := true }⟩, _, .timeout _, rfl⟩
  | receiving counter => cases h.idling
  | exited why =>
    cases why with
    | terminate => exact absurd rfl hpc
    | printError message => cases h.idling

/-- A program that ended makes no step. -/
theorem step_exited (why : Exit) (g : Globals) (e : Event) :
    step maxPackets ⟨.exited why, g⟩ e = none := by
  cases e <;> rfl

/-- While psender is gone the process does not end in `printError`. -/
theorem Config.Idling.no_printError {c c' : Config} {e : Event} (h : c.Idling) (hidle : Idle c e)
    (hstep : step maxPackets c e = some c') (message : String) :
    c'.pc ≠ .exited (.printError message) := by
  obtain ⟨pc, g⟩ := c
  intro hpc
  have hrun : ∀ why, pc ≠ .exited why := by
    rintro why rfl
    rw [step_exited] at hstep
    cases hstep
  rcases event_of_printError hstep hpc hrun with rfl | ⟨errno, rfl⟩ | ⟨outcomes, rfl⟩
  · cases pc with
    | delivering iter scans =>
      cases iter with
      | nil => cases hstep
      | cons n next =>
        have hsize : (headerSize : Int) ≤ n.pktSize := h.awaiting.toSend_size n h.walks.mem_toSend
        have hwhole : -1 = n.pktSize - (headerSize : Int) := of_decide_eq_true hidle.1
        omega
    | _ => cases hstep
  · cases hidle.2.1 _ rfl
  · exact absurd rfl (hidle.2.2 _)

/-- While psender is gone each step keeps the loop out of its reading part. -/
theorem Config.Idling.stepped {c c' : Config} {e : Event} (h : c.Idling) (hidle : Idle c e)
    (hstep : step maxPackets c e = some c') : c'.Idling := by
  have st := stepped_of_step hstep
  refine ⟨h.awaiting.stepped h.walks st, h.walks.stepped st, ?_⟩
  have hprint := h.no_printError hidle hstep
  cases st with
  | readable => cases hidle.2.1 _ rfl
  | recv => exact absurd rfl (hidle.2.2 _)
  | error => exact absurd rfl (hprint _)
  | finished | deliver | delivered | acked | received | send | ack | interrupted
  | timeout => rfl

/-! ## The loop stops -/

/-- The loop has called `terminate`, with all acknowledgements sent and nothing left that could be
delivered. -/
def Config.Stopped (c : Config) : Prop :=
  c.pc = .exited .terminate ∧ c.globals.toAck.nodes = [] ∧
    ∀ n ∈ c.globals.toSend.nodes, n.packet.id ≠ c.globals.lastSentId

/-- How the walks stand when the loop will stop: each node a pass meets leaves its list, and an
iteration that begins with a node linked has something to do. -/
def Config.Draining : Config → Prop
  | ⟨.delivering iter 0, g⟩ =>
    iter = g.toSend.nodes ∧ (g.toSend.nodes = [] → g.toAck.nodes ≠ [])
  | ⟨.delivering iter (_ + 1), g⟩ => iter = g.toSend.nodes ∧ g.toAck.nodes ≠ []
  | ⟨.acking iter 0, g⟩ => iter = g.toAck.nodes ∧ g.toAck.nodes ≠ []
  | ⟨.acking iter (_ + 1), g⟩ => iter = g.toAck.nodes
  | ⟨.exited _, g⟩ => g.toSend.nodes = [] ∧ g.toAck.nodes = []
  | ⟨.top, _⟩ | ⟨.selecting, _⟩ | ⟨.receiving _, _⟩ => True

/-- Where the loop stands between two nodes that leave their lists. -/
def Pc.phase : Pc → Nat
  | .delivering _ (_ + 1) => 7
  | .acking _ (_ + 1) => 6
  | .selecting => 5
  | .top => 4
  | .delivering _ 0 => 3
  | .acking _ 0 => 2
  | .receiving _ | .exited _ => 0

/-- What is still to be done: a node of `toSend` is delivered and acknowledged, one of `toAck`
acknowledged. -/
def Globals.pending (g : Globals) : Nat := 2 * g.toSend.nodes.length + g.toAck.nodes.length

/-- Every step lowers it: a node that leaves a list counts for more than the loop around it. -/
def Config.toDrain (c : Config) : Nat := 8 * c.globals.pending + c.pc.phase

/-- The loop is left when both lists are empty. -/
theorem Awaiting.empty_of_finished {g : Globals} (h : Awaiting g) (hf : g.finished = true) :
    g.toSend.nodes = [] ∧ g.toAck.nodes = [] := by
  simp only [Globals.finished, Bool.and_eq_true, decide_eq_true_eq] at hf
  exact ⟨h.toSend_counted.length_eq_zero_iff.mp hf.1.2,
    h.toAck_counted.length_eq_zero_iff.mp hf.2⟩

/-- With the end marker through and both lists empty the loop is left. -/
theorem Awaiting.finished_of_empty {g : Globals} (h : Awaiting g) (hmark : g.EndMarked)
    (hsend : g.toSend.nodes = []) (hack : g.toAck.nodes = []) : g.finished = true := by
  have hfin : g.finalize = true := by
    rcases hmark with hfin | ⟨x, hx | hx, _⟩
    · exact hfin
    · rw [hsend] at hx
      cases hx
    · rw [hack] at hx
      cases hx
  simp only [Globals.finished, hfin, h.toSend_counted.length_eq_zero_iff.mpr hsend,
    h.toAck_counted.length_eq_zero_iff.mpr hack, decide_true, Bool.and_self]

/-- The node a delivery pass meets is delivered. -/
theorem send_drains {g g' : Globals} {n : Node} {next : List Node}
    (hnodes : n :: next = g.toSend.nodes) (hdel : Deliverable g.lastSentId g.toSend.nodes)
    (hsend : sendToReceiver (n.pktSize - headerSize) g n = .ok g') :
    next = g'.toSend.nodes ∧ g'.toAck.nodes ≠ [] ∧ g'.pending < g.pending := by
  rw [← hnodes] at hdel
  obtain ⟨hid, hbody, _⟩ := hdel
  rcases sendToReceiver_ok hsend with ⟨_, hzero⟩ | ⟨_, _, _, rfl⟩
  · have := hzero hid
    omega
  · obtain ⟨y, hy, _⟩ := exists_id_insertNodeById g.toAck n
    have hlen := insertNodeById_length_le g.toAck n
    have hrest := removeNode_first hnodes
    refine ⟨hrest.symm, List.ne_nil_of_mem hy, ?_⟩
    simp only [Globals.pending, hrest, ← hnodes, List.length_cons]
    omega

/-- The node an acknowledging pass meets is acknowledged. -/
theorem ack_drains {g : Globals} {n : Node} {next : List Node} (stack : List UInt8)
    (hnodes : n :: next = g.toAck.nodes) :
    next = (ackPacket stack g n).toAck.nodes ∧ (ackPacket stack g n).pending < g.pending := by
  rw [Globals.pending, Globals.pending, ackPacket_toAck, ackPacket_toSend,
    removeNode_first hnodes, ← hnodes, List.length_cons]
  exact ⟨rfl, Nat.lt_succ_self _⟩

/-- One step of a loop that will stop. -/
theorem Config.Draining.stepped {c c' : Config} {e : Event} (hm : 1 ≤ maxPackets)
    (h : c.Draining) (hidling : c.Idling) (hstops : c.globals.Stops) (hidle : Idle c e)
    (hstep : step maxPackets c e = some c') : c'.Draining ∧ c'.toDrain < c.toDrain := by
  have st := stepped_of_step hstep
  have hprint := hidling.no_printError hidle hstep
  have hfirst : ∀ {iter}, scanDone maxPackets 0 iter = true → iter = [] :=
    fun hd => (nil_or_le_of_scanDone hd).resolve_right (Nat.not_le_of_lt hm)
  cases st with
  | finished hf =>
    exact ⟨hidling.awaiting.empty_of_finished hf, Nat.lt_add_of_pos_right (Nat.succ_pos 3)⟩
  | @deliver g hf =>
    refine ⟨⟨rfl, ?_⟩, Nat.lt_succ_self _⟩
    intro hsend hack
    have hfinished := hidling.awaiting.finished_of_empty hstops.1 hsend hack
    rw [hf] at hfinished
    cases hfinished
  | @delivered g iter scans hd =>
    cases scans with
    | zero =>
      obtain ⟨rfl, hack⟩ := h
      exact ⟨⟨rfl, hack (hfirst hd)⟩, Nat.lt_succ_self _⟩
    | succ scans =>
      refine ⟨⟨rfl, h.2⟩, ?_⟩
      show 8 * g.pending + 2 < 8 * g.pending + 7
      omega
  | @send g g' iter next scans sendCounter hd hsend =>
    have hnodes : iter :: next = g.toSend.nodes := by
      cases scans with
      | zero => exact h.1
      | succ scans => exact h.1
    have hwhole : sendCounter = iter.pktSize - headerSize := of_decide_eq_true hidle.1
    subst hwhole
    obtain ⟨hrest, hack, hlt⟩ := send_drains hnodes hstops.2 hsend
    refine ⟨⟨hrest, hack⟩, ?_⟩
    show 8 * g'.pending + 7 < 8 * g.pending + Pc.phase (.delivering (iter :: next) scans)
    omega
  | @ack g iter next scans stack hd =>
    have hnodes : iter :: next = g.toAck.nodes := by
      cases scans with
      | zero => exact h.1
      | succ scans => exact h
    obtain ⟨hrest, hlt⟩ := ack_drains stack hnodes
    refine ⟨hrest, ?_⟩
    show 8 * (ackPacket stack g iter).pending + 6 <
      8 * g.pending + Pc.phase (.acking (iter :: next) scans)
    omega
  | @acked g iter scans hd =>
    refine ⟨trivial, ?_⟩
    cases scans with
    | zero =>
      obtain ⟨rfl, hne⟩ := h
      exact absurd (hfirst hd) hne
    | succ scans => exact Nat.lt_succ_self _
  | timeout => exact ⟨trivial, Nat.lt_succ_self _⟩
  | readable | interrupted => cases hidle.2.1 _ rfl
  | recv => exact absurd rfl (hidle.2.2 _)
  | received => cases hidling.idling
  | error => exact absurd rfl (hprint _)

/-- A loop that has stopped has nothing left to do. -/
theorem Config.Draining.stopped {c : Config} (h : c.Draining) (hpc : c.pc = .exited .terminate) :
    c.Stopped := by
  obtain ⟨pc, g⟩ := c
  cases hpc
  obtain ⟨hsend, hack⟩ := h
  refine ⟨rfl, hack, ?_⟩
  intro n hn
  rw [hsend] at hn
  cases hn

/-- With the end marker through and nothing missing the loop stops. -/
theorem eventually_stopped {c : Config} (hm : 1 ≤ maxPackets) (hidling : c.Idling)
    (hdrain : c.Draining) (hstops : c.globals.Stops) :
    Machine.Eventually (step maxPackets) Idle Config.Stopped c := by
  apply Machine.Eventually.of_measure
    (I := fun c => c.Idling ∧ c.Draining ∧ c.globals.Stops) Config.toDrain
  · rintro s ⟨hidling, hdrain, _⟩ hnot
    exact hidling.live fun hpc => hnot (hdrain.stopped hpc)
  · rintro s t ⟨hidling, hdrain, hstops⟩ _ ⟨e, hidle, hstep⟩
    obtain ⟨hdrain', hlt⟩ := hdrain.stepped hm hidling hstops hidle hstep
    have hstops' := (stops_stepped hidling.awaiting hidling.walks hidle
      (stepped_of_step hstep)).mpr hstops
    exact ⟨⟨hidling.stepped hidle hstep, hdrain', hstops'⟩, hlt⟩
  · exact ⟨hidling, hdrain, hstops⟩

/-- Without the end marker, or with a packet missing, the loop goes round for ever. -/
theorem not_eventually_stopped {c : Config} (hidling : c.Idling)
    (hpc : c.pc ≠ .exited .terminate) (hstops : ¬ c.globals.Stops) :
    ¬ Machine.Eventually (step maxPackets) Idle Config.Stopped c := by
  apply Machine.Eventually.not_of_keeps
    (I := fun c => c.Idling ∧ c.pc ≠ .exited .terminate ∧ ¬ c.globals.Stops)
  · rintro s ⟨_, hpc, _⟩ hstopped
    exact hpc hstopped.1
  · rintro s ⟨hidling, hpc, hstops⟩
    obtain ⟨t, e, hidle, hstep⟩ : ∃ t, Machine.Move (step maxPackets) Idle s t := hidling.live hpc
    have st := stepped_of_step hstep
    refine ⟨t, ⟨e, hidle, hstep⟩, hidling.stepped hidle hstep, ?_, ?_⟩
    · -- `terminate` is called with both lists empty and `finalize` set, which is to stop
      intro hexit
      cases st with
      | @finished g hf =>
        have hsend := (hidling.awaiting.empty_of_finished hf).1
        have hfin : g.finalize = true := by
          simp only [Globals.finished, Bool.and_eq_true] at hf
          exact hf.1.1
        refine hstops ⟨.inl hfin, ?_⟩
        show Deliverable g.lastSentId g.toSend.nodes
        rw [hsend]
        trivial
      | _ => cases hexit
    · exact fun h => hstops ((stops_stepped hidling.awaiting hidling.walks hidle st).mp h)
  · exact ⟨hidling, hpc, hstops⟩

/-- The invariant of every run, whatever arrives. -/
theorem awaiting_run {c : Config} (run : Machine.Run (step maxPackets) Machine.Free .initial c) :
    Awaiting c.globals ∧ c.Walks := by
  refine Machine.Run.invariant (I := fun c => Awaiting c.globals ∧ c.Walks) ?_ run
    ⟨.initial, trivial⟩
  rintro s e t ⟨hawait, hwalk⟩ _ hstep
  have st := stepped_of_step hstep
  exact ⟨hawait.stepped hwalk st, hwalk.stepped st⟩

/-- From any `select` on, with psender gone: the loop calls `terminate` after finitely many
iterations, all that can be delivered delivered and all acknowledgements sent, if and only if the
end marker was acknowledged or is linked and `toSend` holds, without a gap, packets with a body
from the number waited for on. -/
theorem stops_iff (hm : 1 ≤ maxPackets) {c : Config}
    (run : Machine.Run (step maxPackets) Machine.Free .initial c) (hpc : c.pc = .selecting) :
    Machine.Eventually (step maxPackets) Idle Config.Stopped c ↔ c.globals.Stops := by
  obtain ⟨hawait, hwalk⟩ := awaiting_run run
  have hidling : c.Idling := ⟨hawait, hwalk, by rw [hpc]; rfl⟩
  have hdrain : c.Draining := by
    obtain ⟨pc, g⟩ := c
    cases hpc
    trivial
  have hrun : c.pc ≠ .exited .terminate := by rw [hpc]; exact Pc.noConfusion
  refine ⟨?_, eventually_stopped hm hidling hdrain⟩
  intro hstop
  by_contra hnot
  exact not_eventually_stopped hidling hrun hnot hstop

/-- A run in which the end marker and packet 1 arrive and the first waits to be acknowledged. -/
def markedRun : List Event :=
  [.go, .go, .go, .select (.ready true), .recv [.data (dataDatagram 0 [0])],
    .recv [.data (dataDatagram 1 [7])], .go, .go, .send 1, .go, .ack [], .ack [], .go]

/-- The run can be made. -/
theorem markedRun_possible : (Machine.exec (step 2) Machine.Free .initial markedRun).isSome := by
  decide

/-- In that run the end marker was acknowledged and nothing is missing of what is buffered, which is
the right side. -/
theorem stops_iff_markedRun :
    Machine.Eventually (step 2) Idle Config.Stopped
        ((Machine.exec (step 2) Machine.Free .initial markedRun).get markedRun_possible) ↔
      ((Machine.exec (step 2) Machine.Free .initial markedRun).get
        markedRun_possible).globals.Stops :=
  stops_iff (by decide) (Machine.run_exec markedRun_possible) (by decide)

/-- A preceiver to which nothing ever arrives does not stop. -/
theorem never_stops :
    ¬ ∀ (maxPackets : Nat) (c : Config), 1 ≤ maxPackets →
      Machine.Run (step maxPackets) Machine.Free .initial c → c.pc = .selecting →
      Machine.Eventually (step maxPackets) Idle Config.Stopped c := by
  intro h
  have hexec : Machine.exec (step 1) Machine.Free .initial [.go, .go, .go] =
      some ⟨.selecting, .initial⟩ := by decide
  have run := Machine.run_of_exec hexec
  have hidling : Config.Idling ⟨.selecting, .initial⟩ := ⟨.initial, trivial, rfl⟩
  refine not_eventually_stopped hidling Pc.noConfusion ?_ (h 1 _ (by decide) run rfl)
  rintro ⟨hfin | ⟨x, hx | hx, _⟩, _⟩
  · cases hfin
  · cases hx
  · cases hx

end GProxy.Preceiver
