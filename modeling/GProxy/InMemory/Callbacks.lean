import GProxy.InMemory.Preceiver

/-!
# The callbacks of preceiver take out no other node

`ackPacket` and `sendToReceiver` of the main loop in memory are callbacks as `forEach` needs them:
each leaves the list it walks well formed, as it was or without the node it was given
(`ackPacket_selfRemoving`, `sendToReceiver_selfRemoving`). So a pass of either ends, visits the
first nodes of its list once and in their order, and leaves the others in place
(`forEach_ackPacket`, `forEach_sendToReceiver`).

What `send` answers may depend on the node; a `send` that fails ends the process and is not a call
`forEach` comes back from.
-/

namespace GProxy.InMemory.Preceiver

open Pointers (Addr Ptr Mem Lists Represents SelfRemoving WellFormed scanCount visits)

variable {g : Globals} {m : Mem} {L : Lists} {toSend toAck : Addr} {l lsend lack : Head}

/-- Where a node stands in the memory and in the sequence. -/
theorem represents_split {head x : Addr} {kept post : List Addr} (hR : Represents m L)
    (hl : L.heads head = some l) (hwf : WellFormed m head (kept ++ x :: post)) :
    ∃ n ∈ l.nodes, n.addr = x ∧ (removeNode l n).nodes.map Node.addr = kept ++ post := by
  obtain ⟨pre, rest, hnodes, rfl, hrest⟩ :=
    List.map_eq_append_iff.mp ((hR.lists hl).wellFormed.unique hwf)
  obtain ⟨n, next, rfl, rfl, rfl⟩ := List.map_eq_cons_iff.mp hrest
  refine ⟨n, hnodes ▸ List.mem_append_right _ List.mem_cons_self, rfl, ?_⟩
  rw [(hR.lists hl).removeNode_split hnodes, List.map_append]

/-- `ackPacket` takes out and frees the node it is given. -/
theorem ackPacket_selfRemoving (stack : List UInt8) :
    SelfRemoving Globals.mem (ackPacket stack) toAck fun g _ =>
      ∃ L l, Represents g.mem L ∧ L.heads toAck = some l := by
  rintro g kept x post ⟨L, l, hR, hl⟩ hwf
  obtain ⟨n, hn, rfl, hnodes⟩ := represents_split hR hl hwf
  obtain ⟨m', L', hcall, hR', hl', _⟩ := ackPacket_spec hR hl hn stack
  refine ⟨_, hcall, ⟨L', _, hR', hl'⟩, .inr ?_⟩
  rw [← hnodes]
  exact (hR'.lists hl').wellFormed

/-- `sendToReceiver` where no `send` fails. -/
def sendUnfailing (sendCounter : Ptr → Int) (g : Globals) (current : Ptr) : Option Globals :=
  (sendToReceiver (sendCounter current) g current).bind Except.toOption

/-- What `sendToReceiver` needs while there are nodes to visit: the two lists, and fewer nodes in
`toAck` and still to come than `malloc` was called for. -/
def Passing (toSend toAck : Addr) (g : Globals) (next : List Addr) : Prop :=
  ∃ L lsend lack, Represents g.mem L ∧ L.heads toSend = some lsend ∧ L.heads toAck = some lack ∧
    g.toAck = some toAck ∧ lack.nodes.length + next.length < g.mallocs

/-- `sendToReceiver` moves the node it is given to `toAck` or leaves it where it is. -/
theorem sendToReceiver_selfRemoving (hne : toSend ≠ toAck) {sendCounter : Ptr → Int}
    (hsent : ∀ p, sendCounter p ≠ -1) :
    SelfRemoving Globals.mem (sendUnfailing sendCounter) toSend (Passing toSend toAck) := by
  rintro g kept x post ⟨L, l, lack, hR, hl, hlack, htoAck, hroom⟩ hwf
  obtain ⟨n, hn, rfl, hnodes⟩ := represents_split hR hl hwf
  rw [List.length_cons] at hroom
  by_cases hpass : n.packet.id = g.lastSentId ∧ sendCounter (some n.addr) ≠ 0
  · obtain ⟨m', L', hcall, hR', hl', hlack'⟩ := sendToReceiver_spec hne htoAck hR hl hlack hn
      hpass.1 hpass.2 (hsent _) (by omega)
    have hlen := insertNodeById_length_le lack n
    refine ⟨_, congrArg (Option.bind · Except.toOption) hcall,
      ⟨L', _, _, hR', hl', hlack', htoAck, ?_⟩, .inr ?_⟩
    · show (insertNodeById lack n).1.nodes.length + post.length < g.mallocs
      omega
    · rw [← hnodes]
      exact (hR'.lists hl').wellFormed
  · have hzero : n.packet.id = g.lastSentId → sendCounter (some n.addr) = 0 := fun hid =>
      of_not_not fun hzero => hpass ⟨hid, hzero⟩
    refine ⟨g, ?_, ⟨L, l, lack, hR, hl, hlack, htoAck, by omega⟩, .inl hwf⟩
    rw [sendUnfailing, sendToReceiver_keep ((hR.lists hl).nodes n hn) hzero]
    rfl

/-! ## The passes of the main loop -/

/-- `forEach(toAck, &ackPacket, maxPackets)`. -/
theorem forEach_ackPacket (hR : Represents g.mem L) (hack : L.heads toAck = some lack)
    (stack : List UInt8) (maxPackets : Nat) :
    let l := lack.nodes.map Node.addr
    ∃ g' kept, (∀ fuel, l.length < fuel →
        Pointers.forEach Globals.mem (ackPacket stack) fuel (some toAck) maxPackets g =
          some (g', .read (some toAck) :: visits (l.take (scanCount maxPackets l.length)))) ∧
      kept.Sublist (l.take (scanCount maxPackets l.length)) ∧
      WellFormed g'.mem toAck (kept ++ l.drop (scanCount maxPackets l.length)) := by
  obtain ⟨g', kept, hrun, _, hkept, hwf⟩ :=
    Pointers.forEach_selfRemoving (ackPacket_selfRemoving stack) (hR.lists hack).wellFormed
      ⟨L, lack, hR, hack⟩ maxPackets
  exact ⟨g', kept, hrun, hkept, hwf⟩

/-- `forEach(toSend, &sendToReceiver, maxPackets)`, when no `send` fails. -/
theorem forEach_sendToReceiver (hne : toSend ≠ toAck) (hR : Represents g.mem L)
    (hsend : L.heads toSend = some lsend) (hack : L.heads toAck = some lack)
    (htoAck : g.toAck = some toAck) (hroom : lsend.nodes.length + lack.nodes.length < g.mallocs)
    {sendCounter : Ptr → Int} (hsent : ∀ p, sendCounter p ≠ -1) (maxPackets : Nat) :
    let l := lsend.nodes.map Node.addr
    ∃ g' kept, (∀ fuel, l.length < fuel →
        Pointers.forEach Globals.mem (sendUnfailing sendCounter) fuel (some toSend) maxPackets g =
          some (g', .read (some toSend) :: visits (l.take (scanCount maxPackets l.length)))) ∧
      kept.Sublist (l.take (scanCount maxPackets l.length)) ∧
      WellFormed g'.mem toSend (kept ++ l.drop (scanCount maxPackets l.length)) := by
  have hpassing : Passing toSend toAck g (lsend.nodes.map Node.addr) := by
    refine ⟨L, lsend, lack, hR, hsend, hack, htoAck, ?_⟩
    rw [List.length_map]
    omega
  obtain ⟨g', kept, hrun, _, hkept, hwf⟩ :=
    Pointers.forEach_selfRemoving (sendToReceiver_selfRemoving hne hsent)
      (hR.lists hsend).wellFormed hpassing maxPackets
  exact ⟨g', kept, hrun, hkept, hwf⟩

end GProxy.InMemory.Preceiver
