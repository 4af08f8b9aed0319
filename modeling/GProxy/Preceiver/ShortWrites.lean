import GProxy.Preceiver.Lists
import Mathlib.Data.List.TakeDrop

/-!
# Short writes

`send` may accept fewer bytes than it is asked to send. `sendToReceiver` takes any positive count
for the whole body: the node leaves `toSend` and the next number is waited for. The history of a
run holds the nodes that left `toSend`, each with the count `send` returned for it; the bytes the
receiver's socket accepted are the stream in the order of the numbers exactly when each count was
the whole length (`conserves_iff`).
-/

namespace GProxy.Preceiver

open SortedInsert

variable {maxPackets : Nat}

/-- What left `toSend` in a step, with the count `send` returned. -/
def departures (c : Config) (e : Event) (c' : Config) : List (Node × Int) :=
  match e with
  | .send sendCounter =>
    (c.globals.toSend.nodes.filter (· ∉ c'.globals.toSend.nodes)).map (·, sendCounter)
  | _ => []

/-- `send`, when it is called, accepts at least one byte of the body, and at most all. -/
def positiveCount (c : Config) : Event → Bool
  | .send sendCounter =>
    match c.pc with
    | .delivering (iter :: _) _ => iter.packet.id ≠ c.globals.lastSentId ||
      1 ≤ sendCounter && sendCounter ≤ iter.pktSize - headerSize
    | _ => true
  | _ => true

/-- The environment in which every `send` accepts something. -/
def PositiveCounts (c : Config) (e : Event) : Prop := positiveCount c e = true

instance (c : Config) (e : Event) : Decidable (PositiveCounts c e) :=
  inferInstanceAs (Decidable (positiveCount c e = true))

/-- The bytes accepted are the bodies of the packets that left `toSend`, these are numbered from 1
on, and what is waited for is the next number, with no byte of it accepted. -/
structure Conserves (g : Globals) (left : List Node) : Prop where
  accepted : g.passed.flatten = (left.map Node.payload).flatten
  ids : left.map (·.packet.id) = (List.range left.length).map fun i => UInt32.ofNat (i + 1)
  lastSentId_eq : g.lastSentId = UInt32.ofNat (left.length + 1)
  continues : ∀ n ∈ g.toSend.nodes, n.packet.id = g.lastSentId →
    g.passed.flatten ++ n.payload = ((left ++ [n]).map Node.payload).flatten

/-- Prefixes of the parts put together are no longer than the parts put together. So equality of the
whole is equality of each part. -/
theorem length_flatten_map_le {α β : Type*} {xs : List α} {f g : α → List β}
    (h : ∀ x ∈ xs, f x <+: g x) : (xs.map f).flatten.length ≤ (xs.map g).flatten.length := by
  induction xs with
  | nil => exact le_rfl
  | cons a xs ih =>
    rw [List.forall_mem_cons] at h
    rw [List.map_cons, List.map_cons, List.flatten_cons, List.flatten_cons, List.length_append,
      List.length_append]
    exact Nat.add_le_add h.1.length_le (ih h.2)

/-- Pieces that each begin what they stand for are joined to the whole only if each is all of
it. -/
theorem flatten_map_eq_iff {α β : Type*} {xs : List α} {f g : α → List β}
    (h : ∀ x ∈ xs, f x <+: g x) :
    (xs.map f).flatten = (xs.map g).flatten ↔ ∀ x ∈ xs, f x = g x := by
  induction xs with
  | nil => exact ⟨(fun _ _ hx => nomatch hx), fun _ => rfl⟩
  | cons a xs ih =>
    rw [List.forall_mem_cons] at h ⊢
    rw [List.map_cons, List.map_cons, List.flatten_cons, List.flatten_cons, ← ih h.2]
    constructor
    · intro heq
      have hlength := congrArg List.length heq
      rw [List.length_append, List.length_append] at hlength
      have hhead := h.1.length_le
      have htail := length_flatten_map_le h.2
      exact List.append_inj heq (by omega)
    · rintro ⟨hhead, htail⟩
      rw [hhead, htail]

/-- The body of a packet that was read is what its size says. -/
theorem incoming_payload_length (g : Globals) {bytes : List UInt8}
    (htype : (Pkt.ofImage bytes).type = typeB) :
    ((g.incoming bytes).payload.length : Int) = (g.incoming bytes).pktSize - headerSize := by
  have hlen := headerSize_le_length htype
  show (((bytes.drop headerSize).take ((bytes.length : Int) - headerSize).toNat).length : Int) =
    (bytes.length : Int) - headerSize
  rw [List.length_take, List.length_drop]
  omega

/-- What stays linked has not departed. -/
theorem departures_eq_nil {c c' : Config} {e : Event}
    (h : c.globals.toSend.nodes ⊆ c'.globals.toSend.nodes) : departures c e c' = [] := by
  unfold departures
  split
  · rw [List.map_eq_nil_iff, List.filter_eq_nil_iff]
    intro n hn
    simpa using h hn
  · rfl

/-- The node delivered departs, and no other. -/
theorem filter_notMem_removeNode {head : Head} {n : Node} (hinc : Increasing Node.id head.nodes)
    (hn : n ∈ head.nodes) : head.nodes.filter (· ∉ (removeNode head n).nodes) = [n] := by
  have hiff : ∀ x ∈ head.nodes,
      decide (x ∉ (removeNode head n).nodes) = decide (x = n) := by
    intro x hx
    simp [mem_removeNode hinc, hx]
  rw [List.filter_congr hiff, List.filter_eq, hinc.nodup.count, if_pos hn]
  rfl

/-- The invariant of a run with its departures: each count is at most the body of its node, and the
nodes left in the order of their numbers. -/
structure Departed (c : Config) (left : List (Node × Int)) : Prop where
  inOrder : InOrder c.globals
  walks : c.Walks
  sized : ∀ n ∈ c.globals.toSend.nodes, (n.payload.length : Int) = n.pktSize - headerSize
  passed_eq : c.globals.passed = left.map fun p => p.1.payload.take p.2.toNat
  counts : ∀ p ∈ left, 1 ≤ p.2 ∧ p.2 ≤ p.1.payload.length ∧
    (p.1.payload.length : Int) = p.1.pktSize - headerSize
  ids : left.map (·.1.packet.id) = (List.range left.length).map fun i => UInt32.ofNat (i + 1)
  lastSentId_eq : c.globals.lastSentId = UInt32.ofNat (left.length + 1)

/-- At the start nothing has left. -/
theorem Departed.initial : Departed .initial [] where
  inOrder := .initial
  walks := trivial
  sized := fun _ h => nomatch h
  passed_eq := rfl
  counts := fun _ h => nomatch h
  ids := rfl
  lastSentId_eq := rfl

/-- A step that delivers nothing. -/
theorem Departed.keep {c c' : Config} {e : Event} {left : List (Node × Int)} (h : Departed c left)
    (hinOrder : InOrder c'.globals) (hwalk : c'.Walks)
    (hsub : c.globals.toSend.nodes ⊆ c'.globals.toSend.nodes)
    (hsized : ∀ n ∈ c'.globals.toSend.nodes, (n.payload.length : Int) = n.pktSize - headerSize)
    (hpassed : c'.globals.passed = c.globals.passed)
    (hlast : c'.globals.lastSentId = c.globals.lastSentId) :
    Departed c' (left ++ departures c e c') := by
  rw [departures_eq_nil hsub, List.append_nil]
  exact { h with
    inOrder := hinOrder
    walks := hwalk
    sized := hsized
    passed_eq := hpassed.trans h.passed_eq
    lastSentId_eq := hlast.trans h.lastSentId_eq }

/-- The packet waited for leaves `toSend`. -/
theorem Departed.deliver {c c' : Config} {left : List (Node × Int)} (h : Departed c left)
    {iter : Node} {sendCounter : Int} (hmem : iter ∈ c.globals.toSend.nodes)
    (hid : iter.packet.id = c.globals.lastSentId)
    (hcount : 1 ≤ sendCounter ∧ sendCounter ≤ iter.pktSize - headerSize)
    (hinOrder : InOrder c'.globals) (hwalk : c'.Walks)
    (hsub : c'.globals.toSend.nodes ⊆ c.globals.toSend.nodes)
    (hpassed : c'.globals.passed = c.globals.passed ++ [iter.payload.take sendCounter.toNat])
    (hlast : c'.globals.lastSentId = c.globals.lastSentId + 1) :
    Departed c' (left ++ [(iter, sendCounter)]) where
  inOrder := hinOrder
  walks := hwalk
  sized := fun n hn => h.sized n (hsub hn)
  passed_eq := by rw [hpassed, h.passed_eq, List.map_append, List.map_singleton]
  counts := by
    intro p hp
    rcases List.mem_append.mp hp with hp | hp
    · exact h.counts p hp
    · rw [List.mem_singleton.mp hp]
      have hsize := h.sized iter hmem
      exact ⟨hcount.1, hsize ▸ hcount.2, hsize⟩
  ids := by
    rw [List.map_append, h.ids, List.map_singleton, hid, h.lastSentId_eq, List.length_append,
      List.length_singleton, List.range_succ, List.map_append, List.map_singleton]
  lastSentId_eq := by
    rw [hlast, h.lastSentId_eq, List.length_append, List.length_singleton,
      UInt32.ofNat_add (left.length + 1)]
    rfl

/-- Each step keeps the account of what left `toSend`, as long as `send` accepts at least a byte or
fails. -/
theorem Departed.stepped {c c' : Config} {e : Event} {left : List (Node × Int)}
    (h : Departed c left) (hpos : PositiveCounts c e) (st : Stepped maxPackets c e c') :
    Departed c' (left ++ departures c e c') := by
  have hinOrder := h.inOrder.stepped h.walks st
  have hwalk := h.walks.stepped st
  have hsized := h.sized
  have hall := List.Subset.refl c.globals.toSend.nodes
  cases st with
  | @send g g' iter next scans sendCounter hd hsend =>
    rcases sendToReceiver_ok hsend with ⟨rfl, _⟩ | ⟨hid, _, _, rfl⟩
    · exact h.keep hinOrder hwalk hall hsized rfl rfl
    · have hmem : iter ∈ g.toSend.nodes := h.walks.mem_toSend
      have hcount : 1 ≤ sendCounter ∧ sendCounter ≤ iter.pktSize - headerSize := by
        simpa [PositiveCounts, positiveCount, hid] using hpos
      rw [departures, filter_notMem_removeNode h.inOrder.toSend_increasing hmem]
      exact h.deliver hmem hid hcount hinOrder hwalk List.erase_subset rfl rfl
  | @ack g iter next scans stack hd =>
    exact h.keep hinOrder hwalk (by simp) (by simpa using hsized) (by simp) (by simp)
  | recv hc hr hg =>
    cases receives_of_ok hg with
    | ahead hb htype hid =>
      exact h.keep hinOrder hwalk (fun _ => mem_insertNodeById_of_mem)
        (forall_insertNodeById hsized (incoming_payload_length _ htype)) rfl rfl
    | nothing | icmp | behind | dropped => exact h.keep hinOrder hwalk hall hsized rfl rfl
  | finished | deliver | delivered | acked | received | interrupted | readable
  | timeout | error => exact h.keep hinOrder hwalk hall hsized rfl rfl

/-- The bytes accepted are the bodies of what left, if each count was the whole length. -/
theorem Departed.accepted_iff {c : Config} {left : List (Node × Int)} (h : Departed c left) :
    c.globals.passed.flatten = ((left.map Prod.fst).map Node.payload).flatten ↔
      ∀ p ∈ left, p.2 = p.1.pktSize - headerSize := by
  have hwhole : ∀ p ∈ left, p.1.payload.take p.2.toNat = p.1.payload ↔
      p.2 = p.1.pktSize - headerSize := by
    intro p hp
    obtain ⟨hpos, hle, hlen⟩ := h.counts p hp
    rw [List.take_eq_self_iff]
    omega
  rw [h.passed_eq, List.map_map]
  exact (flatten_map_eq_iff fun p _ => List.take_prefix _ _).trans (forall₂_congr hwhole)

/-- In every state of every run in which `send` accepts at least one byte: the bytes accepted are
the stream in the order of the numbers, a node leaves `toSend` and the number waited for advances
with its whole body accepted, and nothing of a later packet is accepted before that, if and only
if each `send` so far accepted all it was asked to send. -/
theorem conserves_iff {c : Config} {left : List (Node × Int)}
    (run : Machine.Run (Machine.recording (step maxPackets) departures)
      (Machine.Recorded PositiveCounts) (.initial, []) (c, left)) :
    Conserves c.globals (left.map Prod.fst) ↔ ∀ p ∈ left, p.2 = p.1.pktSize - headerSize := by
  have h : Departed c left := Machine.Run.recorded_invariant
    (fun _ _ _ _ h hpos hstep => h.stepped hpos (stepped_of_step hstep)) run .initial
  rw [← h.accepted_iff]
  refine ⟨Conserves.accepted, ?_⟩
  intro haccepted
  refine ⟨haccepted, ?_, ?_, ?_⟩
  · rw [List.map_map, List.length_map]
    exact h.ids
  · rw [List.length_map]
    exact h.lastSentId_eq
  · intro n _ _
    rw [List.map_append, List.flatten_append, haccepted, List.map_singleton,
      List.flatten_singleton]

/-- A run in which the body of packet 1 is two bytes long and `send` accepts one of them. -/
def shortWrite : List Event :=
  [.go, .go, .go, .select (.ready true), .recv [.data (dataDatagram 1 [7, 8])], .go, .go, .send 1]

/-- The run can be made, with what left `toSend` recorded. -/
theorem shortWrite_possible :
    (Machine.exec (Machine.recording (step 1) departures) (Machine.Recorded PositiveCounts)
      (.initial, []) shortWrite).isSome := by decide

/-- The state and the departures at the end of it. -/
def holed : Config × List (Node × Int) :=
  (Machine.exec (Machine.recording (step 1) departures) (Machine.Recorded PositiveCounts)
    (.initial, []) shortWrite).get shortWrite_possible

/-- In that run a `send` accepts less than the body, and both sides of the equivalence are false. -/
theorem conserves_iff_shortWrite :
    Conserves holed.1.globals (holed.2.map Prod.fst) ↔
      ∀ p ∈ holed.2, p.2 = p.1.pktSize - headerSize :=
  conserves_iff (Machine.run_exec shortWrite_possible)

/-- A short write is taken for a whole one: the rest of the body is never passed on. -/
theorem short_write_loses :
    ¬ ∀ (maxPackets : Nat) (c : Config) (left : List (Node × Int)), 1 ≤ maxPackets →
      Machine.Run (Machine.recording (step maxPackets) departures)
        (Machine.Recorded PositiveCounts) (.initial, []) (c, left) →
      Conserves c.globals (left.map Prod.fst) := by
  intro h
  have hconserves := h 1 holed.1 holed.2 (Nat.le_refl 1) (Machine.run_exec shortWrite_possible)
  exact absurd hconserves.accepted (by decide)

end GProxy.Preceiver
