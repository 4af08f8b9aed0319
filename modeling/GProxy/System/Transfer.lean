import GProxy.System.View
import Mathlib.Data.List.Infix
import Mathlib.Data.List.Perm.Subperm

/-!
# What the two proxies achieve

What was passed to the receiver is at all times the data packets below `lastSentId`, a prefix of
what was read from the sender (`delivered_in_order`). The sending proxy holds every packet that is
still to be delivered, so its room bounds the buffer of the receiving one (`window_bounded`), and
when it leaves its loop as all sent everything was delivered (`all_sent_delivered`). The receiving
proxy's own end is weaker: it may leave its loop while data packets are missing. It has delivered
everything exactly when all of them had arrived (`terminate_delivered_iff`).
-/

namespace GProxy

namespace Sys

open SortedInsert

variable {stream : List UInt8} {senderMax receiverMax : Nat} {s : Sys}

/-- The bytes of the data packets with the numbers from 1 up to `id`, that one left out. -/
def createdBelow (g : Psender.Globals) (id : UInt32) : List UInt8 :=
  ((g.created.filter fun p => 1 ≤ p.1 ∧ p.1 < id).map Prod.snd).flatten

/-- Of numbers that follow each other those below a bound are a prefix. -/
theorem filter_eq_take {α : Type*} {f : α → Nat} {xs : List α} {start bound : Nat}
    (h : xs.map f = List.range' start xs.length) :
    xs.filter (fun x => f x < bound) = xs.take (bound - start) := by
  induction xs generalizing start with
  | nil => rw [List.take_nil, List.filter_nil]
  | cons x xs ih =>
    rw [List.map_cons, List.length_cons, List.range'_succ, List.cons.injEq] at h
    obtain ⟨hx, hxs⟩ := h
    have hrest := ih hxs
    by_cases hlt : start < bound
    · have hsucc : bound - start = (bound - (start + 1)) + 1 := by omega
      rw [List.filter_cons_of_pos (by simpa [hx] using hlt), hrest, hsucc, List.take_succ_cons]
    · have hzero : bound - start = 0 := by omega
      have hzero' : bound - (start + 1) = 0 := by omega
      rw [List.filter_cons_of_neg (by simpa [hx] using hlt), hrest, hzero, hzero']
      rfl

/-- The packets below a number are the first ones built. -/
theorem createdBelow_eq {g : Psender.Globals} (h : Psender.Packets stream senderMax g)
    (id : UInt32) : createdBelow g id = ((g.created.map Prod.snd).take (id.toNat - 1)).flatten := by
  have hbelow : (g.created.filter fun p => 1 ≤ p.1 ∧ p.1 < id) =
      g.created.filter fun p => p.1.toNat < id.toNat := by
    apply List.filter_congr
    intro p hp
    have hpos : 1 ≤ p.1 := UInt32.le_iff_toNat_le.mpr (h.created_id hp).1
    simp only [hpos, true_and, UInt32.lt_iff_toNat_lt]
  rw [createdBelow, hbelow, filter_eq_take h.created_ids, List.map_take]

/-- At all times the bytes passed to the receiver are those of the data packets below
`lastSentId`, all of which were built, and a prefix of what was read from the sender. -/
theorem delivered_in_order (run : Reached stream senderMax receiverMax s) (hfew : s.Few) :
    s.preceiver.globals.passed.flatten =
        createdBelow s.psender.globals s.preceiver.globals.lastSentId ∧
      s.psender.globals.created.map (fun p => p.1.toNat) =
        List.range' 1 s.psender.globals.created.length ∧
      s.preceiver.globals.lastSentId.toNat ≤ s.psender.globals.created.length + 1 ∧
      s.preceiver.globals.passed.flatten <+: s.psender.globals.readBytes ∧
      s.psender.globals.readBytes <+: stream := by
  have h := Linked.run run hfew
  have hp := h.psender.packets
  have hout : s.preceiver.globals.passed = (s.psender.globals.created.map Prod.snd).take
      (s.preceiver.globals.lastSentId.toNat - 1) := h.sound.out_eq
  have hnext := h.sound.next_le
  simp only [view, List.length_map] at hnext
  refine ⟨?_, hp.created_ids, hnext, ?_, hp.read_within⟩
  · rw [hout, createdBelow_eq hp]
  · rw [hout, Psender.Globals.readBytes]
    exact List.IsPrefix.flatten (List.take_prefix _ _)

/-- Two data packets and the end marker, read in the order 2, marker, 1, up to both ends. -/
def transferred : List Event :=
  [.psender .go, .psender .go, .psender (.select (.ready true false)),
    .psender (.read [.data [7, 8]] []), .psender (.read [.data [9]] []),
    .psender (.read [.data []] []), .psender .go, .psender .go, .psender .go,
    .psender (.send [.sent]), .psender (.send [.sent]), .psender (.send [.sent]), .psender .go,
    .preceiver .go, .preceiver .go, .preceiver .go, .preceiver (.select (.ready true)),
    .preceiver (.recv [.data (dataDatagram 2 [9])]),
    .preceiver (.recv [.data (dataDatagram 0 endingBody)]),
    .preceiver (.recv [.data (dataDatagram 1 [7, 8])]),
    .preceiver .go, .preceiver .go, .preceiver (.send 2), .preceiver (.send 1), .preceiver .go,
    .preceiver (.ack []), .preceiver (.ack []), .preceiver (.ack []), .preceiver .go,
    .preceiver (.select .timeout), .preceiver .go,
    .psender (.select (.ready false true)), .psender (.check (.data (ackImage [] 1))),
    .psender (.check (.data (ackImage [] 0))), .psender (.check (.data (ackImage [] 2))),
    .psender .go, .psender .go]

/-- The run can be made. -/
theorem transferred_possible :
    (Machine.exec (step 3 3) (Network [7, 8, 9]) initial transferred).isSome := by decide

/-- Where the run ends: both proxies have left their loops. -/
def transferredEnd : Sys :=
  (Machine.exec (step 3 3) (Network [7, 8, 9]) initial transferred).get transferred_possible

/-- It is a run of the two proxies over the network. -/
theorem transferred_run : Reached [7, 8, 9] 3 3 transferredEnd :=
  Machine.run_exec transferred_possible

/-- At its end the two packets were passed on in order. -/
theorem delivered_in_order_transferred :
    transferredEnd.preceiver.globals.passed.flatten =
        createdBelow transferredEnd.psender.globals 3 ∧
      transferredEnd.preceiver.globals.passed.flatten <+:
        transferredEnd.psender.globals.readBytes :=
  have h := delivered_in_order transferred_run (by decide)
  ⟨h.1, h.2.2.2.1⟩

/-! ## The window -/

/-- The numbers not yet delivered fit the room of the sending proxy. -/
theorem Linked.window {s : Sys} (h : Linked stream senderMax s) :
    s.psender.globals.currentId.toNat ≤ s.preceiver.globals.lastSentId.toNat + senderMax := by
  have hp := h.psender.packets
  have hcurrent := hp.currentId_eq
  -- the numbers from `lastSentId` on are numbers of nodes in the list
  have hsub : List.range' s.preceiver.globals.lastSentId.toNat
      (s.psender.globals.currentId.toNat - s.preceiver.globals.lastSentId.toNat) ⊆
      s.psender.globals.toSend.nodes.map Node.id := by
    intro n hn
    rw [List.mem_range'_1] at hn
    obtain ⟨x, hx, hid⟩ := h.sound.pending_held n hn.1
      (by simp only [view, List.length_map]; omega)
    exact List.mem_map.mpr ⟨x, hx, hid⟩
  have hlen := ((List.nodup_range' 1).subperm hsub).length_le
  rw [List.length_range', List.length_map] at hlen
  have hroom := hp.toSend_room
  omega

/-- Every packet still to be delivered is held by the sending proxy, so the numbers in the
receiving proxy's buffer, and the buffer itself, fit the sending proxy's room. -/
theorem window_bounded (run : Reached stream senderMax receiverMax s) (hfew : s.Few) :
    (∀ id, s.preceiver.globals.lastSentId ≤ id → id < s.psender.globals.currentId →
        ∃ n ∈ s.psender.globals.toSend.nodes, n.packet.id = id) ∧
      s.preceiver.globals.lastSentId ≤ s.psender.globals.currentId ∧
      s.psender.globals.currentId.toNat - s.preceiver.globals.lastSentId.toNat ≤ senderMax ∧
      (∀ n ∈ s.preceiver.globals.toSend.nodes, s.preceiver.globals.lastSentId ≤ n.packet.id ∧
        n.packet.id < s.psender.globals.currentId) ∧
      s.preceiver.globals.toSend.nodes.length ≤ senderMax ∧
      s.preceiver.globals.toSend.length ≤ senderMax := by
  have h := Linked.run run hfew
  have hord := h.preceiver.ordered
  have hcurrent := h.psender.packets.currentId_eq
  have hwindow := h.window
  have hbuffer : ∀ n ∈ s.preceiver.globals.toSend.nodes,
      s.preceiver.globals.lastSentId.toNat ≤ n.id ∧ n.id < s.psender.globals.currentId.toNat := by
    intro n hn
    obtain ⟨hle, hmade⟩ := h.sound.buffer_made (n.id, n.payload) ⟨n, hn, rfl, rfl⟩
    have hlen := hmade.le
    simp only [view, List.length_map] at hle hlen
    omega
  have hlength : s.preceiver.globals.toSend.nodes.length ≤ senderMax := by
    have hsub : s.preceiver.globals.toSend.nodes.map Node.id ⊆
        List.range' s.preceiver.globals.lastSentId.toNat
          (s.psender.globals.currentId.toNat - s.preceiver.globals.lastSentId.toNat) := by
      intro i hi
      obtain ⟨n, hn, rfl⟩ := List.mem_map.mp hi
      have := hbuffer n hn
      rw [List.mem_range'_1]
      omega
    have hlen := (hord.toSend_increasing.nodup_keys.subperm hsub).length_le
    rw [List.length_range', List.length_map] at hlen
    omega
  refine ⟨?_, ?_, by omega, ?_, hlength, ?_⟩
  · intro id hlow hhigh
    have hlow' := UInt32.le_iff_toNat_le.mp hlow
    have hhigh' := UInt32.lt_iff_toNat_lt.mp hhigh
    obtain ⟨n, hn, hid⟩ := h.sound.pending_held id.toNat hlow'
      (by simp only [view, List.length_map]; omega)
    exact ⟨n, hn, Node.id_eq_iff.mpr hid⟩
  · have hnext := h.sound.next_le
    simp only [view, List.length_map] at hnext
    exact UInt32.le_iff_toNat_le.mpr (by omega)
  · intro n hn
    obtain ⟨hle, hlt⟩ := hbuffer n hn
    exact ⟨UInt32.le_iff_toNat_le.mpr hle, UInt32.lt_iff_toNat_lt.mpr hlt⟩
  · rw [hord.toSend_counted]
    exact_mod_cast hlength

/-- The run, stopped where packet 2 and the marker have arrived and packet 1 has not. -/
theorem buffered_possible : (Machine.exec (step 3 3) (Network [7, 8, 9]) initial
    (transferred.take 19)).isSome := by decide

/-- In the middle of it the buffer is within the window. -/
theorem window_bounded_buffered :
    ((Machine.exec (step 3 3) (Network [7, 8, 9]) initial (transferred.take 19)).get
      buffered_possible).preceiver.globals.toSend.length ≤ 3 :=
  (window_bounded (Machine.run_exec buffered_possible) (by decide)).2.2.2.2.2

/-! ## The end of the sending proxy -/

/-- A body packet with the number was read by the receiving proxy. -/
def Read (g : Preceiver.Globals) (id : UInt32) : Prop :=
  ∃ bytes ∈ g.arrived, (Pkt.ofImage bytes).type = typeB ∧ ntohl (Pkt.ofImage bytes).id = id

/-- Which numbers were read can be seen in what arrived. -/
theorem read_iff {g : Preceiver.Globals} {id : UInt32} :
    Read g id ↔ id.toNat ∈ seenOf g.arrived := by
  simp only [Read, seenOf, Set.mem_ofPred_eq, UInt32.toNat_inj]

/-- The same for the end marker, whose number is 0. -/
theorem read_marker_iff {g : Preceiver.Globals} : Read g 0 ↔ 0 ∈ seenOf g.arrived := read_iff

/-- When the sending proxy leaves its loop as all sent, the stream was read to its end, every
packet was delivered, and the end marker was read by the receiving proxy. It rests on this: at
all times an acknowledgement that is owed or was ever sent is for a delivered packet or the
marker, and so is a packet that is no longer held. -/
theorem all_sent_delivered (run : Reached stream senderMax receiverMax s) (hfew : s.Few) :
    (∀ n ∈ s.preceiver.globals.toAck.nodes, n.packet.id < s.preceiver.globals.lastSentId) ∧
      (∀ d ∈ s.preceiver.globals.sent, ∀ memory,
        ackedId (overlay d.bytes memory) < s.preceiver.globals.lastSentId) ∧
      (∀ p ∈ s.psender.globals.created,
        (∀ n ∈ s.psender.globals.toSend.nodes, n.packet.id ≠ p.1) →
        p.1 < s.preceiver.globals.lastSentId) ∧
      s.preceiver.globals.passed = (s.psender.globals.created.map Prod.snd).take
        (s.preceiver.globals.lastSentId.toNat - 1) ∧
      (s.psender.pc = .exited .allSent →
        s.psender.globals.endingRead = true ∧ s.psender.globals.readBytes = stream ∧
        s.preceiver.globals.passed = s.psender.globals.created.map Prod.snd ∧
        Read s.preceiver.globals 0) := by
  have h := Linked.run run hfew
  have hp := h.psender.packets
  refine ⟨?_, ?_, ?_, h.sound.out_eq, ?_⟩
  · intro n hn
    exact UInt32.lt_iff_toNat_lt.mpr (h.preceiver.ordered.toAck_behind n hn)
  · intro d hd memory
    obtain ⟨stack, id, hbytes⟩ := h.sent_acks d hd
    have hack := (h.sound.acks_behind id.toNat ⟨d, hd, stack, id, rfl, hbytes⟩).1
    rw [hbytes, ackedId_ackImage]
    exact UInt32.lt_iff_toNat_lt.mpr hack
  · intro p hpc hnone
    by_contra hle
    have hle' := UInt32.le_iff_toNat_le.mp (UInt32.not_lt.mp hle)
    obtain ⟨n, hn, hid⟩ := h.sound.pending_held p.1.toNat hle'
      (by simp only [view, List.length_map]; exact (hp.created_id hpc).2)
    exact hnone n hn (Node.id_eq_iff.mpr hid)
  · intro hpc
    have hall : s.psender.globals.allSent = true := by
      have hstands := h.psender.stands
      rw [Psender.Config.Stands, hpc] at hstands
      exact hstands
    simp only [Psender.Globals.allSent, Bool.and_eq_true, decide_eq_true_eq] at hall
    have hempty : s.psender.globals.toSend.nodes = [] :=
      hp.toSend_counted.length_eq_zero_iff.mp hall.1
    have hended := hp.finalize_ended hall.2
    have hnone : ∀ n, n ∉ s.view.held := by
      rintro n ⟨x, hx, _⟩
      rw [hempty] at hx
      cases hx
    exact ⟨hended, hp.read_all hended,
      h.sound.out_of_none_held fun n hn => absurd hn (hnone n),
      read_marker_iff.mpr (h.sound.marker_seen hended (hnone 0))⟩

/-- At its end psender is done, all bodies were passed on and the marker was read. -/
theorem all_sent_delivered_transferred :
    transferredEnd.preceiver.globals.passed = transferredEnd.psender.globals.created.map Prod.snd ∧
      Read transferredEnd.preceiver.globals 0 :=
  have h := (all_sent_delivered transferred_run (by decide)).2.2.2.2 (by decide)
  ⟨h.2.2.1, h.2.2.2⟩

/-! ## The end of the receiving proxy -/

/-- What the end of the receiving proxy rests on: `finalize` is set once the marker was read, and
the loop is only left by `terminate` when its test holds. -/
structure Ended (s : Sys) : Prop where
  finalize_read : s.preceiver.globals.finalize = true → Read s.preceiver.globals 0
  terminated : s.preceiver.pc = .exited .terminate → s.preceiver.globals.finished = true

/-- What was read stays read. -/
theorem Read.grow {g g' : Preceiver.Globals} {id : UInt32} (h : Read g id)
    (hsub : g.arrived ⊆ g'.arrived) : Read g' id := by
  obtain ⟨bytes, hb, htype, hid⟩ := h
  exact ⟨bytes, hsub hb, htype, hid⟩

/-- A step of preceiver keeps it: what it acknowledges with the number 0 is the marker, which was
read, and the loop is left where its test was made. -/
theorem Ended.stepped {s : Sys} (h : Ended s) (hlinked : Linked stream senderMax s)
    {e : Preceiver.Event} {c' : Preceiver.Config}
    (st : Preceiver.Stepped receiverMax s.preceiver e c') : Ended { s with preceiver := c' } := by
  obtain ⟨p, c⟩ := s
  obtain ⟨hfin, hterm⟩ := h
  cases st with
  | finished hdone => exact ⟨hfin, fun _ => hdone⟩
  | @ack g iter next scans stack hd =>
    refine ⟨fun hf => ?_, fun hpc => nomatch hpc⟩
    have hread : Read g 0 := by
      by_cases hid : iter.packet.id = 0
      · -- the marker is acknowledged, so it was owed, so it was read
        have howed : iter.id ∈ (Sys.view ⟨p, ⟨.acking (iter :: next) scans, g⟩⟩).owed :=
          ⟨iter, hlinked.preceiver.walks.mem_toAck, rfl⟩
        have hzero : iter.id = 0 := Node.id_eq_iff.mp hid
        exact read_marker_iff.mpr ((hlinked.sound.owed_behind _ howed).2 hzero)
      · have hsame : (Preceiver.ackPacket stack g iter).finalize = g.finalize := by
          simp only [Preceiver.ackPacket, if_neg hid, Preceiver.ackPkt]
        exact hfin (hsame ▸ hf)
    exact hread.grow (by rw [Preceiver.ackPacket_arrived]; exact List.Subset.refl _)
  | send hd hsend =>
    rcases Preceiver.sendToReceiver_ok hsend with ⟨rfl, _⟩ | ⟨_, _, _, rfl⟩
    · exact ⟨hfin, fun hpc => nomatch hpc⟩
    · exact ⟨hfin, fun hpc => nomatch hpc⟩
  | recv hc hr hg =>
    refine ⟨fun hf => ?_, fun hpc => nomatch hpc⟩
    cases Preceiver.receives_of_ok hg with
    | nothing => exact hfin hf
    | icmp | ahead | behind | dropped => exact (hfin hf).grow (List.subset_append_left _ _)
  | deliver | delivered | acked | received | interrupted | readable | timeout
  | error => exact ⟨hfin, fun hpc => nomatch hpc⟩

/-- It holds in every run before the numbers are used up. -/
theorem Ended.run (run : Reached stream senderMax receiverMax s) (hfew : s.Few) :
    Linked stream senderMax s ∧ Ended s := by
  refine Machine.Run.guarded (I := fun s => Linked stream senderMax s ∧ Ended s) few_back
    (fun s e t h hfew hnet hstep => ⟨h.1.stepped e t hfew hnet hstep, ?_⟩) run
    ⟨.initial, ⟨(fun h => nomatch h), (fun h => nomatch h)⟩⟩ hfew
  cases e with
  | psender e =>
    obtain ⟨c, hc, rfl⟩ := Option.map_eq_some_iff.mp hstep
    exact ⟨h.2.finalize_read, h.2.terminated⟩
  | preceiver e =>
    obtain ⟨c, hc, rfl⟩ := Option.map_eq_some_iff.mp hstep
    exact h.2.stepped h.1 (Preceiver.stepped_of_step hc)

/-- Every data packet the sending proxy has built was read by the receiving one. -/
def AllRead (s : Sys) : Prop := ∀ p ∈ s.psender.globals.created, Read s.preceiver.globals p.1

/-- The first pieces of a list of pieces that are not empty make up the whole only when they are
all of them. -/
theorem length_le_of_flatten_take {α : Type*} {xs : List (List α)} (hne : ∀ x ∈ xs, x ≠ [])
    {k : Nat} (h : (xs.take k).flatten = xs.flatten) : xs.length ≤ k := by
  by_contra hlt
  have hsplit : (xs.take k).flatten ++ (xs.drop k).flatten = xs.flatten := by
    rw [← List.flatten_append, List.take_append_drop]
  rw [h, List.append_right_eq_self, List.flatten_eq_nil_iff] at hsplit
  have hmem : xs[k] ∈ xs.drop k := List.mem_drop_iff_getElem.mpr ⟨0, by omega, by simp⟩
  exact hne _ (List.getElem_mem _) (hsplit _ hmem)

/-- When the receiving proxy leaves its loop by `terminate`, it has passed on the whole stream if
and only if every data packet had arrived: nothing that arrived is left behind, but nothing keeps
the end marker from being read, acknowledged and done with while data packets are missing. -/
theorem terminate_delivered_iff (run : Reached stream senderMax receiverMax s) (hfew : s.Few)
    (hpc : s.preceiver.pc = .exited .terminate) :
    s.preceiver.globals.passed.flatten = stream ↔ s.AllRead := by
  obtain ⟨h, hended⟩ := Ended.run run hfew
  have hp := h.psender.packets
  have hfinished := hended.terminated hpc
  simp only [Preceiver.Globals.finished, Bool.and_eq_true, decide_eq_true_eq] at hfinished
  obtain ⟨⟨hfin, hsend⟩, _⟩ := hfinished
  have hempty : s.view.buffer = ∅ := by
    have hnodes := h.preceiver.ordered.toSend_counted.length_eq_zero_iff.mp hsend
    ext x
    simp [view, Head.contents, hnodes]
  -- the marker was read, so the sender's stream was read to its end
  have hclosed : s.psender.globals.endingRead = true := by
    have hmarker := read_marker_iff.mp (hended.finalize_read hfin)
    rcases h.sound.seen_made 0 hmarker with ⟨_, hclosed⟩ | ⟨h1, _⟩
    · exact hclosed
    · exact absurd h1 (Nat.not_succ_le_zero 0)
  have hstream : (s.psender.globals.created.map Prod.snd).flatten = stream := hp.read_all hclosed
  constructor
  · intro hwhole x hx
    have hout : s.preceiver.globals.passed = (s.psender.globals.created.map Prod.snd).take
      (s.preceiver.globals.lastSentId.toNat - 1) := h.sound.out_eq
    have hlen := length_le_of_flatten_take (k := s.preceiver.globals.lastSentId.toNat - 1)
      (fun b hb => by
        obtain ⟨y, hy, rfl⟩ := List.mem_map.mp hb
        exact (hp.created_fits y hy).1)
      (by rw [← hout, hwhole, hstream])
    rw [List.length_map] at hlen
    obtain ⟨hpos, hle⟩ := hp.created_id hx
    have hbehind : x.1.toNat < s.view.next := by
      show _ < s.preceiver.globals.lastSentId.toNat
      omega
    exact read_iff.mpr ((Window.Seen.reachable h.reached).behind_seen _ hpos hbehind)
  · intro hall
    have hout := h.sound.out_of_all_seen ?_ hempty
    · rw [← hstream]
      exact congrArg List.flatten hout
    · -- number `n` is that of the packet built as number `n`
      intro n h₁ h₂
      simp only [view, List.length_map] at h₂
      have hmem : n ∈ s.psender.globals.created.map (fun p => p.1.toNat) := by
        rw [hp.created_ids, List.mem_range'_1]
        omega
      obtain ⟨x, hx, rfl⟩ := List.mem_map.mp hmem
      exact read_iff.mp (hall x hx)

/-- At its end preceiver terminated after all was read. -/
theorem terminate_delivered_iff_transferred : transferredEnd.AllRead :=
  (terminate_delivered_iff transferred_run (by decide) (by decide)).mp (by decide)

/-- The end marker arrives, the data packet does not. -/
def markerOvertakes : List Event :=
  [.psender .go, .psender .go, .psender (.select (.ready true false)),
    .psender (.read [.data [7]] []), .psender (.read [.data []] []), .psender .go, .psender .go,
    .psender .go, .psender (.send [.sent]), .psender (.send [.sent]),
    .preceiver .go, .preceiver .go, .preceiver .go, .preceiver (.select (.ready true)),
    .preceiver (.recv [.data (dataDatagram 0 endingBody)]), .preceiver .go, .preceiver .go,
    .preceiver .go, .preceiver (.ack []), .preceiver .go, .preceiver (.select .timeout),
    .preceiver .go]

/-- The run can be made. -/
theorem markerOvertakes_possible :
    (Machine.exec (step 2 1) (Network [7]) initial markerOvertakes).isSome := by decide

/-- The receiving proxy can terminate with nothing delivered of a stream that is not empty. -/
theorem terminates_early :
    ¬ ∀ (stream : List UInt8) (senderMax receiverMax : Nat) (s : Sys), 1 ≤ senderMax →
      1 ≤ receiverMax → Reached stream senderMax receiverMax s → s.Few →
      s.preceiver.pc = .exited .terminate → s.preceiver.globals.passed.flatten = stream := by
  intro h
  have hall := h [7] 2 1 _ (by decide) (by decide) (Machine.run_exec markerOvertakes_possible)
    (by decide) (by decide)
  exact absurd hall (by decide)

end Sys

end GProxy
