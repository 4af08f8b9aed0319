import GProxy.Preceiver.Lists

/-!
# The delivery pass

`forEach(toSend, &sendToReceiver, maxPackets)` when `send` accepts every body whole. The walk
meets the numbers from `lastSentId` on as long as they follow each other; each is delivered, and
as each leaves the front of `toSend` and goes to the end of `toAck`, the next number waited for is
the next one met. From the first gap on nothing it meets is the number waited for.
-/

namespace GProxy.Preceiver

open SortedInsert

/-- `sendToReceiver` when `send` accepts all it is asked to send. -/
def sendWhole (g : Globals) (current : Node) : Except String Globals :=
  sendToReceiver (current.pktSize - headerSize) g current

/-- How many nodes at the front carry the numbers `id`, `id + 1`, … -/
def runLength : Nat → List Node → Nat
  | _, [] => 0
  | id, n :: ns => if n.id = id then runLength (id + 1) ns + 1 else 0

/-- The globals after the first `k` nodes of `toSend` were delivered. -/
def Globals.afterDelivery (g : Globals) (k : Nat) : Globals :=
  { g with
    passed := g.passed ++ (g.toSend.nodes.take k).map Node.payload
    lastSentId := g.lastSentId + UInt32.ofNat k
    toSend := ⟨g.toSend.nodes.drop k, g.toSend.length - k⟩
    toAck := ⟨g.toAck.nodes ++ g.toSend.nodes.take k, g.toAck.length + k⟩ }

/-- When nothing is delivered the globals are as they were. -/
theorem Globals.afterDelivery_zero (g : Globals) : g.afterDelivery 0 = g := by
  simp [Globals.afterDelivery]

/-- Delivering one node and then `k` more. -/
theorem Globals.afterDelivery_succ (g : Globals) {n : Node} {ns : List Node} (k : Nat)
    (hnodes : g.toSend.nodes = n :: ns) :
    (g.afterDelivery 1).afterDelivery k = g.afterDelivery (k + 1) := by
  have hid : g.lastSentId + 1 + UInt32.ofNat k = g.lastSentId + (UInt32.ofNat k + 1) := by
    rw [UInt32.add_assoc, UInt32.add_comm 1]
  simp only [Globals.afterDelivery, hnodes, List.take_succ_cons, List.take_zero, List.map_cons,
    List.map_nil, List.drop_succ_cons, List.drop_zero, List.append_assoc, List.cons_append,
    List.nil_append, UInt32.ofNat_add, UInt32.ofNat_one, hid]
  congr 2
  all_goals omega

/-- The number waited for after `k` deliveries, when it does not wrap. -/
theorem Globals.afterDelivery_lastSentId {g : Globals} {k : Nat}
    (hwrap : g.lastSentId.toNat + k < 2 ^ 32) :
    (g.afterDelivery k).lastSentId.toNat = g.lastSentId.toNat + k := by
  show (g.lastSentId + UInt32.ofNat k).toNat = _
  rw [UInt32.toNat_add, UInt32.toNat_ofNat']
  omega

/-- The node delivered joins the others behind the next number. -/
theorem Globals.afterDelivery_behind {g : Globals} {n : Node} {ns : List Node}
    (hnodes : g.toSend.nodes = n :: ns) (hid : n.id = g.lastSentId.toNat)
    (hbehind : ∀ x ∈ g.toAck.nodes, x.id < g.lastSentId.toNat)
    (hwrap : g.lastSentId.toNat + 1 < 2 ^ 32) :
    ∀ x ∈ (g.afterDelivery 1).toAck.nodes, x.id < (g.afterDelivery 1).lastSentId.toNat := by
  intro x hx
  rw [Globals.afterDelivery_lastSentId hwrap]
  rcases List.mem_append.mp hx with hx | hx
  · exact Nat.lt_succ_of_lt (hbehind x hx)
  · rw [hnodes] at hx
    have hxn : x = n := by simpa using hx
    rw [hxn, hid]
    exact Nat.lt_succ_self _

/-- The node waited for leaves the front of `toSend` for the end of `toAck`. -/
theorem sendWhole_next {g : Globals} {n : Node} {ns : List Node}
    (hnodes : g.toSend.nodes = n :: ns) (hid : n.id = g.lastSentId.toNat)
    (hsize : (headerSize : Int) < n.pktSize)
    (hbehind : ∀ x ∈ g.toAck.nodes, x.id < g.lastSentId.toNat) :
    sendWhole g n = .ok (g.afterDelivery 1) := by
  have hins : insertNodeById g.toAck n = (⟨g.toAck.nodes ++ [n], g.toAck.length + 1⟩, true) :=
    insertNodeById_last fun x hx => hid ▸ hbehind x hx
  rw [sendWhole, sendToReceiver_whole (Node.id_eq_iff.mpr hid) hsize, hins]
  simp only [Globals.afterDelivery, hnodes, removeNode, List.erase_cons_head, List.take_succ_cons,
    List.take_zero, List.map_cons, List.map_nil, List.drop_succ_cons, List.drop_zero]
  rfl

/-- A node that is not waited for is passed over. -/
theorem sendWhole_other {g : Globals} {n : Node} (hid : n.id ≠ g.lastSentId.toNat) :
    sendWhole g n = .ok g := by
  have hpkt : n.packet.id ≠ g.lastSentId := fun h => hid (Node.id_eq_iff.mp h)
  simp only [sendWhole, sendToReceiver, if_neg hpkt]

/-- A walk over nodes none of which is waited for changes nothing. -/
theorem walk_others {g : Globals} {maxPackets : Nat} {iter : List Node}
    (hother : ∀ n ∈ iter, n.id ≠ g.lastSentId.toNat) (scans : Nat) :
    forEachFrom sendWhole maxPackets scans iter g = .ok g := by
  induction iter generalizing scans with
  | nil => rfl
  | cons n ns ih =>
    unfold forEachFrom
    split
    · rfl
    · rw [sendWhole_other (hother n List.mem_cons_self)]
      exact ih (fun x hx => hother x (List.mem_cons_of_mem _ hx)) (scans + 1)

/-- A run of consecutive numbers at the front of a list is no longer than the list. -/
theorem runLength_le_length (id : Nat) (ns : List Node) : runLength id ns ≤ ns.length := by
  induction ns generalizing id with
  | nil => exact Nat.le_refl 0
  | cons n ns ih =>
    unfold runLength
    split
    · exact Nat.succ_le_succ (ih (id + 1))
    · exact Nat.zero_le _

/-- The nodes of the run carry the numbers `id`, `id + 1`, … -/
theorem runLength_ids {id k : Nat} {ns : List Node} (hk : k ≤ runLength id ns) :
    (ns.take k).map Node.id = List.range' id k := by
  induction ns generalizing id k with
  | nil =>
    have hzero : k = 0 := Nat.le_zero.mp hk
    rw [hzero]
    rfl
  | cons n ns ih =>
    cases k with
    | zero => rfl
    | succ k =>
      unfold runLength at hk
      split at hk
      next hid =>
        rw [List.take_succ_cons, List.map_cons, ih (Nat.le_of_succ_le_succ hk), hid,
          List.range'_succ]
      next => exact absurd hk (Nat.not_succ_le_zero k)

/-- Behind the run the number it stops at does not occur. -/
theorem not_mem_drop_runLength {id : Nat} {ns : List Node} (hinc : Increasing Node.id ns)
    (hahead : ∀ n ∈ ns, id ≤ n.id) :
    ∀ n ∈ ns.drop (runLength id ns), n.id ≠ id + runLength id ns := by
  induction ns generalizing id with
  | nil => intro n hn; cases hn
  | cons m ns ih =>
    obtain ⟨hlt, hinc'⟩ := increasing_cons.mp hinc
    unfold runLength
    split
    next hid =>
      intro n hn
      have hahead' : ∀ x ∈ ns, id + 1 ≤ x.id := fun x hx => hid ▸ hlt x hx
      have := ih hinc' hahead' n hn
      omega
    next hid =>
      intro n hn
      rw [List.drop_zero] at hn
      have hm := hahead m List.mem_cons_self
      rcases List.mem_cons.mp hn with rfl | hn
      · omega
      · have := hlt n hn
        omega

/-- The walk from the front of `toSend`: it delivers the run, as far as the bound lets it. -/
theorem walk_delivers {maxPackets : Nat} (scans : Nat) {g : Globals}
    (hm : maxPackets ≠ 0) (hinc : Increasing Node.id g.toSend.nodes)
    (hahead : ∀ n ∈ g.toSend.nodes, g.lastSentId.toNat ≤ n.id)
    (hbehind : ∀ n ∈ g.toAck.nodes, n.id < g.lastSentId.toNat)
    (hsize : ∀ n ∈ g.toSend.nodes, (headerSize : Int) < n.pktSize)
    (hwrap : g.lastSentId.toNat +
      min (maxPackets - scans) (runLength g.lastSentId.toNat g.toSend.nodes) < 2 ^ 32) :
    forEachFrom sendWhole maxPackets scans g.toSend.nodes g =
      .ok (g.afterDelivery
        (min (maxPackets - scans) (runLength g.lastSentId.toNat g.toSend.nodes))) := by
  generalize hnodes : g.toSend.nodes = nodes at *
  induction nodes generalizing g scans with
  | nil =>
    rw [runLength, Nat.min_zero, g.afterDelivery_zero]
    rfl
  | cons n ns ih =>
    obtain ⟨hlt, hinc'⟩ := increasing_cons.mp hinc
    unfold forEachFrom
    cases hscan : scanDone maxPackets scans (n :: ns) with
    | true =>
      have hdone : scans ≥ maxPackets :=
        (nil_or_le_of_scanDone hscan).resolve_left (List.cons_ne_nil _ _)
      rw [if_pos rfl, Nat.sub_eq_zero_of_le hdone, Nat.zero_min, g.afterDelivery_zero]
    | false =>
      have hdone : scans < maxPackets :=
        (scanDone_cons_eq_false_iff (Nat.pos_of_ne_zero hm)).mp hscan
      rw [if_neg Bool.false_ne_true]
      by_cases hid : n.id = g.lastSentId.toNat
      · -- the run goes on: after this delivery the rest of the list is `toSend` again
        have hrun : runLength g.lastSentId.toNat (n :: ns) =
            runLength (g.lastSentId.toNat + 1) ns + 1 := by rw [runLength, if_pos hid]
        have hmin : min (maxPackets - scans) (runLength (g.lastSentId.toNat + 1) ns + 1) =
            min (maxPackets - (scans + 1)) (runLength (g.lastSentId.toNat + 1) ns) + 1 := by
          omega
        rw [hrun, hmin] at hwrap ⊢
        rw [sendWhole_next hnodes hid (hsize n List.mem_cons_self) hbehind]
        have hnext : (g.afterDelivery 1).lastSentId.toNat = g.lastSentId.toNat + 1 :=
          Globals.afterDelivery_lastSentId (by omega)
        have hnodes' : (g.afterDelivery 1).toSend.nodes = ns := by
          simp [Globals.afterDelivery, hnodes]
        have hbehind' := Globals.afterDelivery_behind hnodes hid hbehind (by omega)
        have hstep := ih (scans + 1) (g := g.afterDelivery 1) hbehind' hnodes' hinc'
          (fun x hx => by
            rw [hnext, ← hid]
            exact hlt x hx)
          (fun x hx => hsize x (List.mem_cons_of_mem _ hx))
          (by rw [hnext]; omega)
        rw [hnext, g.afterDelivery_succ _ hnodes] at hstep
        exact hstep
      · -- a gap: nothing from here on is waited for
        have hrun : runLength g.lastSentId.toNat (n :: ns) = 0 := by rw [runLength, if_neg hid]
        rw [sendWhole_other hid, hrun, Nat.min_zero, g.afterDelivery_zero]
        refine walk_others ?_ (scans + 1)
        intro x hx
        have := hahead n List.mem_cons_self
        have := hlt x hx
        omega

/-- The delivery pass delivers, in order, the numbers from `lastSentId` on until the first gap or
the bound, moves their nodes from the front of `toSend` to the end of `toAck`, and stops short of
the bound only at a gap. -/
theorem delivery_pass {maxPackets k : Nat} {g : Globals} (hm : 1 ≤ maxPackets)
    (hinc : Increasing Node.id g.toSend.nodes)
    (hahead : ∀ n ∈ g.toSend.nodes, g.lastSentId.toNat ≤ n.id)
    (hbehind : ∀ n ∈ g.toAck.nodes, n.id < g.lastSentId.toNat)
    (hsize : ∀ n ∈ g.toSend.nodes, (headerSize : Int) < n.pktSize)
    (hk : k = min maxPackets (runLength g.lastSentId.toNat g.toSend.nodes))
    (hwrap : g.lastSentId.toNat + k < 2 ^ 32) :
    forEach g.toSend sendWhole maxPackets g = .ok { g with
        passed := g.passed ++ (g.toSend.nodes.take k).map Node.payload
        lastSentId := g.lastSentId + UInt32.ofNat k
        toSend := ⟨g.toSend.nodes.drop k, g.toSend.length - k⟩
        toAck := ⟨g.toAck.nodes ++ g.toSend.nodes.take k, g.toAck.length + k⟩ } ∧
      (g.toSend.nodes.take k).map Node.id = List.range' g.lastSentId.toNat k ∧
      (g.lastSentId + UInt32.ofNat k).toNat = g.lastSentId.toNat + k ∧
      (k < maxPackets → ∀ n ∈ g.toSend.nodes.drop k,
        n.packet.id ≠ g.lastSentId + UInt32.ofNat k) := by
  have hlast := Globals.afterDelivery_lastSentId hwrap
  refine ⟨?_, ?_, hlast, ?_⟩
  · subst hk
    exact walk_delivers 0 (by omega) hinc hahead hbehind hsize hwrap
  · exact runLength_ids (hk ▸ Nat.min_le_right _ _)
  · intro hlt n hn heq
    have hrun : k = runLength g.lastSentId.toNat g.toSend.nodes := by omega
    rw [hrun] at hn
    refine not_mem_drop_runLength hinc hahead n hn ?_
    rw [← hrun, ← hlast]
    exact Node.id_eq_iff.mp heq

/-- Packets 1, 2 and 4 wait to be delivered, and the end marker to be acknowledged. -/
def gapped : Globals :=
  { Globals.initial with
    toSend := ⟨[⟨0, ⟨1, typeB, [7]⟩, 6⟩, ⟨1, ⟨2, typeB, [8, 9]⟩, 7⟩, ⟨2, ⟨4, typeB, [5]⟩, 6⟩], 3⟩
    toAck := ⟨[⟨3, ⟨0, typeB, []⟩, 5⟩], 1⟩ }

/-- The pass delivers the first two packets and stops at the gap behind them. -/
theorem delivery_pass_gapped :
    forEach gapped.toSend sendWhole 3 gapped = .ok { gapped with
        passed := [[7], [8, 9]]
        lastSentId := 3
        toSend := ⟨[⟨2, ⟨4, typeB, [5]⟩, 6⟩], 1⟩
        toAck := ⟨[⟨3, ⟨0, typeB, []⟩, 5⟩, ⟨0, ⟨1, typeB, [7]⟩, 6⟩,
          ⟨1, ⟨2, typeB, [8, 9]⟩, 7⟩], 3⟩ } :=
  (delivery_pass (k := 2) (by decide) (by decide) (by decide) (by decide) (by decide)
    (by decide) (by decide)).1

/-! ## The pass in the main loop -/

/-- The environment in which `send` accepts every body whole. -/
def acceptsWhole (c : Config) : Event → Bool
  | .send sendCounter =>
    match c.pc with
    | .delivering (iter :: _) _ => sendCounter = iter.pktSize - headerSize
    | _ => true
  | _ => true

/-- The environment in which psender is gone: nothing arrives, every `select` times out and every
`send` accepts the whole body. -/
def Idle (c : Config) (e : Event) : Prop :=
  acceptsWhole c e = true ∧ (∀ outcome, e = .select outcome → outcome = .timeout) ∧
    ∀ outcomes, e ≠ .recv outcomes

/-- A step without a system call is one of the idle environment. -/
theorem Idle.go (c : Config) : Idle c .go :=
  ⟨rfl, fun _ => Event.noConfusion, fun _ => Event.noConfusion⟩

/-- An acknowledgement is a step of the idle environment. -/
theorem Idle.ack (c : Config) (stack : List UInt8) : Idle c (.ack stack) :=
  ⟨rfl, fun _ => Event.noConfusion, fun _ => Event.noConfusion⟩

/-- A `send` that accepts the whole body is a step of the idle environment. -/
theorem Idle.send (n : Node) (next : List Node) (scans : Nat) (g : Globals) :
    Idle ⟨.delivering (n :: next) scans, g⟩ (.send (n.pktSize - headerSize)) :=
  ⟨decide_eq_true rfl, fun _ => Event.noConfusion, fun _ => Event.noConfusion⟩

/-- A `select` that times out is a step of the idle environment. -/
theorem Idle.timeout (c : Config) : Idle c (.select .timeout) :=
  ⟨rfl, fun _ h => (Event.select.inj h).symm, fun _ => Event.noConfusion⟩

/-- Where `send` accepts every body whole, the main loop's calls of `sendToReceiver` are the walk
`forEach` makes. -/
theorem delivering_runs {maxPackets scans : Nat} {iter : List Node} {g g' : Globals}
    (hwalk : forEachFrom sendWhole maxPackets scans iter g = .ok g') :
    Machine.Run (step maxPackets) Idle
      ⟨.delivering iter scans, g⟩ ⟨.acking g'.toAck.nodes 0, g'⟩ := by
  induction iter generalizing scans g with
  | nil =>
    cases hwalk
    exact .single ⟨.go, .go _, rfl⟩
  | cons n next ih =>
    unfold forEachFrom at hwalk
    split at hwalk
    next hdone =>
      cases hwalk
      exact .single ⟨.go, .go _, step_delivered hdone⟩
    next hdone =>
      obtain ⟨m, hm, hrest⟩ : ∃ m, sendWhole g n = .ok m ∧
          forEachFrom sendWhole maxPackets (scans + 1) next m = .ok g' := by
        cases hm : sendWhole g n with
        | error message => rw [hm] at hwalk; cases hwalk
        | ok m => rw [hm] at hwalk; exact ⟨m, rfl, hwalk⟩
      exact .head ⟨_, .send n next scans g, step_send (Bool.not_eq_true _ ▸ hdone) hm⟩ (ih hrest)

/-- The acknowledging pass takes the nodes it walks out of `toAck`, as far as the bound lets it. -/
theorem acking_runs {maxPackets : Nat} (scans : Nat) {iter : List Node} {g : Globals}
    (hm : maxPackets ≠ 0) (hwalk : iter.Sublist g.toAck.nodes) :
    ∃ g', Machine.Run (step maxPackets) Idle ⟨.acking iter scans, g⟩ ⟨.selecting, g'⟩ ∧
      g'.toSend = g.toSend ∧ g'.lastSentId = g.lastSentId ∧ g'.arrived = g.arrived ∧
      g'.toAck.nodes.length + min (maxPackets - scans) iter.length = g.toAck.nodes.length := by
  induction iter generalizing scans g with
  | nil =>
    refine ⟨g, .single ⟨.go, .go _, rfl⟩, rfl, rfl, rfl, ?_⟩
    rw [List.length_nil, Nat.min_zero, Nat.add_zero]
  | cons n next ih =>
    cases hdone : scanDone maxPackets scans (n :: next) with
    | true =>
      refine ⟨g, .single ⟨.go, .go _, step_acked hdone⟩, rfl, rfl, rfl, ?_⟩
      have hbound : scans ≥ maxPackets :=
        (nil_or_le_of_scanDone hdone).resolve_left (List.cons_ne_nil _ _)
      rw [Nat.sub_eq_zero_of_le hbound, Nat.zero_min, Nat.add_zero]
    | false =>
      have hbound : scans < maxPackets :=
        (scanDone_cons_eq_false_iff (Nat.pos_of_ne_zero hm)).mp hdone
      have hmem : n ∈ g.toAck.nodes := hwalk.subset List.mem_cons_self
      have hpos := List.length_pos_of_mem hmem
      obtain ⟨g', run, htoSend, hlast, harrived, hlen⟩ :=
        ih (scans + 1) (g := ackPacket [] g n)
          (by rw [ackPacket_toAck]; exact sublist_removeNode hwalk)
      have hstep := step_ack (g := g) hdone []
      refine ⟨g', .head ⟨.ack [], .ack _ [], hstep⟩ run, ?_, ?_, ?_, ?_⟩
      · rw [htoSend, ackPacket_toSend]
      · rw [hlast, ackPacket_lastSentId]
      · rw [harrived, ackPacket_arrived]
      · rw [ackPacket_toAck, removeNode, List.length_erase_of_mem hmem] at hlen
        rw [List.length_cons]
        omega

end GProxy.Preceiver
