import GProxy.Psender.Program

/-!
# The packets of the sending proxy

Under a stream that `recv` hands out piece by piece, the packets built are numbered `1, 2, …`,
their bytes one after the other are what was read of the stream, and every node of `toSend` is
one of them or the end marker, no number twice. This holds until the counter wraps, whatever
arrives from the emulator.
-/

namespace GProxy.Psender

/-- The bytes read of the stream so far. -/
def Globals.readBytes (g : Globals) : List UInt8 := (g.created.map Prod.snd).flatten

/-- What `recv` may answer on the sender's socket: a buffer at most of what comes next in the
stream, and nothing only at its end. -/
def Continues (stream : List UInt8) (g : Globals) (bytes : List UInt8) : Prop :=
  g.readBytes ++ bytes <+: stream ∧ bytes.length ≤ payloadSize ∧
    (bytes = [] → g.readBytes = stream)

instance (stream : List UInt8) (g : Globals) : DecidablePred (Continues stream g) :=
  fun _ => inferInstanceAs (Decidable (_ ∧ _ ∧ (_ → _)))

/-- The sender writes `stream` and closes. -/
def Streams (stream : List UInt8) (c : Config) : Event → Prop
  | .read outcomes _ => ∀ r ∈ outcomes, r.OnData (Continues stream c.globals)
  | _ => True

instance (stream : List UInt8) (c : Config) : ∀ e, Decidable (Streams stream c e)
  | .read outcomes _ =>
    inferInstanceAs (Decidable (∀ r ∈ outcomes, r.OnData (Continues stream c.globals)))
  | .go | .send _ | .select _ | .check _ => .isTrue trivial

/-- The invariant of the packets. -/
structure Packets (stream : List UInt8) (maxPackets : Nat) (g : Globals) : Prop where
  created_ids : g.created.map (fun p => p.1.toNat) = List.range' 1 g.created.length
  created_fits : ∀ p ∈ g.created, p.2 ≠ [] ∧ p.2.length ≤ payloadSize
  currentId_eq : g.currentId.toNat = g.created.length + 1
  read_within : g.readBytes <+: stream
  read_all : g.endingRead = true → g.readBytes = stream
  toSend_made : ∀ n ∈ g.toSend.nodes,
    n.id = 0 ∧ g.endingRead = true ∨ (n.packet.id, n.payload) ∈ g.created
  toSend_type : ∀ n ∈ g.toSend.nodes, n.packet.type = typeB
  toSend_size : ∀ n ∈ g.toSend.nodes, headerSize ≤ n.pktSize ∧ n.pktSize ≤ sizeofPkt
  toSend_nodup : (g.toSend.nodes.map Node.id).Nodup
  toSend_counted : g.toSend.Counted
  toSend_room : g.toSend.nodes.length ≤ maxPackets
  finalize_ended : g.finalize = true → g.endingRead = true
  sent_data : ∀ d ∈ g.sent, ∃ id bytes, d.bytes = dataDatagram id bytes ∧
    (dataDatagram id bytes).length ≤ sizeofPkt

variable {stream : List UInt8} {maxPackets : Nat}

/-- At the start nothing was read and nothing was made. -/
theorem Packets.initial : Packets stream maxPackets Globals.initial where
  created_ids := rfl
  created_fits := fun _ h => nomatch h
  currentId_eq := rfl
  read_within := List.nil_prefix
  read_all := fun h => nomatch h
  toSend_made := fun _ h => nomatch h
  toSend_type := fun _ h => nomatch h
  toSend_size := fun _ h => nomatch h
  toSend_nodup := List.nodup_nil
  toSend_counted := allocHead_counted
  toSend_room := Nat.zero_le _
  finalize_ended := fun h => nomatch h
  sent_data := fun _ h => nomatch h

/-- The packets built have the numbers from 1 to their count. -/
theorem Packets.created_id {g : Globals} (h : Packets stream maxPackets g) {p : UInt32 × List UInt8}
    (hp : p ∈ g.created) : 1 ≤ p.1.toNat ∧ p.1.toNat ≤ g.created.length := by
  have hmem : p.1.toNat ∈ g.created.map (fun p => p.1.toNat) := List.mem_map_of_mem hp
  rw [h.created_ids, List.mem_range'_1] at hmem
  omega

/-- The packet with number `n` is the one built as number `n`. -/
theorem Packets.created_get {g : Globals} (h : Packets stream maxPackets g) {id : UInt32}
    {bytes : List UInt8} (hp : (id, bytes) ∈ g.created) :
    (g.created.map Prod.snd)[id.toNat - 1]? = some bytes := by
  obtain ⟨i, hi, hget⟩ := List.getElem_of_mem hp
  have hid : (g.created.map (fun p => p.1.toNat))[i]? = some id.toNat := by
    simp [hi, hget]
  rw [h.created_ids, List.getElem?_range' hi] at hid
  have hi_eq : id.toNat - 1 = i := by
    have := Option.some.inj hid
    omega
  simp [hi_eq, hi, hget]

/-- What a node of the list carries is at most the size of a packet on the wire. -/
theorem Packets.wire_eq {g : Globals} (h : Packets stream maxPackets g) {n : Node}
    (hn : n ∈ g.toSend.nodes) :
    n.wire = dataDatagram n.packet.id n.payload ∧
      (dataDatagram n.packet.id n.payload).length ≤ sizeofPkt := by
  obtain ⟨hlow, hhigh⟩ := h.toSend_size n hn
  refine ⟨n.wire_eq (h.toSend_type n hn) hlow, ?_⟩
  rw [dataDatagram_length, Node.payload, List.length_take]
  simp only [headerSize] at hlow ⊢
  omega

/-- A node is appended whose key, the number or the address, is not in the list. -/
theorem nodup_appendNode {κ : Type*} {key : Node → κ} {head : Head} {n : Node}
    (h : (head.nodes.map key).Nodup) (hn : ∀ x ∈ head.nodes, key x ≠ key n) :
    ((appendNode head n).nodes.map key).Nodup := by
  simp only [appendNode, List.map_append, List.map_cons, List.map_nil]
  refine List.nodup_append.mpr ⟨h, List.nodup_singleton _, ?_⟩
  intro a ha b hb hab
  obtain ⟨x, hx, rfl⟩ := List.mem_map.mp ha
  exact hn x hx (hab.trans (List.mem_singleton.mp hb))

/-- psender reads from the sender while its list has room and the stream has not ended. -/
theorem reads_iff {g : Globals} : g.reads maxPackets = true ↔
    g.toSend.length < (maxPackets : Int) ∧ g.endingRead = false := by
  simp [Globals.reads]

/-- There is room for what is read. -/
theorem room_of_reads {g : Globals} (hcounted : g.toSend.Counted)
    (hreads : g.reads maxPackets = true) {n : Node} :
    (appendNode g.toSend n).nodes.length ≤ maxPackets := by
  have hlt := (reads_iff.mp hreads).1
  rw [hcounted] at hlt
  simp only [appendNode, List.length_append, List.length_singleton]
  omega

/-- The packet built next has the next number, and the counter moves on. -/
theorem created_ids_append {g : Globals} (bytes : List UInt8)
    (hids : g.created.map (fun p => p.1.toNat) = List.range' 1 g.created.length)
    (hcur : g.currentId.toNat = g.created.length + 1)
    (hfew : g.created.length + 1 < 2 ^ 32 - 1) :
    (g.created ++ [(g.currentId, bytes)]).map (fun p => p.1.toNat) =
        List.range' 1 (g.created ++ [(g.currentId, bytes)]).length ∧
      (g.currentId + 1).toNat = (g.created ++ [(g.currentId, bytes)]).length + 1 := by
  have hid : (g.currentId + 1).toNat = g.currentId.toNat + 1 := by
    rw [UInt32.toNat_add, UInt32.toNat_one]
    exact Nat.mod_eq_of_lt (by omega)
  constructor
  · rw [List.map_append, hids, List.length_append, List.length_singleton,
      List.range'_1_concat, List.map_singleton, hcur, Nat.add_comm 1]
  · rw [List.length_append, List.length_singleton]
    exact hid.trans (congrArg (· + 1) hcur)

/-- The end marker goes in when the stream is at its end. -/
theorem Packets.ended {g : Globals} (h : Packets stream maxPackets g) {past : List UInt8}
    (hreads : g.reads maxPackets = true) (hall : g.readBytes = stream) :
    Packets stream maxPackets { g with
      toSend := appendNode g.toSend (endingNode g.heap past).1
      heap := g.heap.taken
      endingRead := true } := by
  have hopen := (reads_iff.mp hreads).2
  refine { h with
    read_all := fun _ => hall
    toSend_made := forall_appendNode ?_ (.inl ⟨rfl, rfl⟩)
    toSend_type := forall_appendNode h.toSend_type rfl
    toSend_size := forall_appendNode h.toSend_size ?_
    toSend_nodup := nodup_appendNode h.toSend_nodup ?_
    toSend_counted := appendNode_counted h.toSend_counted
    toSend_room := room_of_reads h.toSend_counted hreads
    finalize_ended := fun _ => rfl }
  · intro n hn
    exact (h.toSend_made n hn).imp_left fun h0 => ⟨h0.1, rfl⟩
  · show (headerSize : Int) ≤ 18 ∧ (18 : Int) ≤ sizeofPkt
    decide
  · -- a node with the number of the marker would be a marker, and there is none before the end
    intro x hx hid
    rcases h.toSend_made x hx with ⟨_, hended⟩ | hmade
    · rw [hopen] at hended
      cases hended
    · have hpos : 1 ≤ x.packet.id.toNat := (h.created_id hmade).1
      have hzero : x.packet.id.toNat = 0 := hid
      omega

/-- What the node of a data packet carries is what was read. -/
theorem bodyNode_payload (g : Globals) (bytes past : List UInt8) :
    (bodyNode g bytes past).1.payload = bytes := by
  have hsize : (((bytes.length + headerSize : Nat) : Int) - headerSize).toNat = bytes.length := by
    omega
  show ((bytes ++ past).take (bytes.length + headerSize)).take
    (((bytes.length + headerSize : Nat) : Int) - headerSize).toNat = bytes
  rw [hsize, List.take_take, Nat.min_eq_left (Nat.le_add_right _ _), List.take_left']
  rfl

/-- A data packet is built from what comes next in the stream. -/
theorem Packets.body {g : Globals} (h : Packets stream maxPackets g) {bytes past : List UInt8}
    (hreads : g.reads maxPackets = true) (hne : bytes ≠ []) (hnext : Continues stream g bytes)
    (hfew : g.created.length + 1 < 2 ^ 32 - 1) :
    Packets stream maxPackets { g with
      toSend := appendNode g.toSend (bodyNode g bytes past).1
      heap := g.heap.taken
      currentId := g.currentId + 1
      created := g.created ++ [(g.currentId, bytes)] } := by
  have hopen := (reads_iff.mp hreads).2
  obtain ⟨hids, hnext_id⟩ := created_ids_append bytes h.created_ids h.currentId_eq hfew
  have hread : (g.created ++ [(g.currentId, bytes)]).map Prod.snd =
      g.created.map Prod.snd ++ [bytes] := by
    rw [List.map_append, List.map_singleton]
  obtain ⟨hcont, hlen, _⟩ := hnext
  refine { h with
    created_ids := hids
    created_fits := ?_
    currentId_eq := hnext_id
    read_within := ?_
    read_all := ?_
    toSend_made := forall_appendNode ?_ (.inr ?_)
    toSend_type := forall_appendNode h.toSend_type rfl
    toSend_size := forall_appendNode h.toSend_size ?_
    toSend_nodup := nodup_appendNode h.toSend_nodup ?_
    toSend_counted := appendNode_counted h.toSend_counted
    toSend_room := room_of_reads h.toSend_counted hreads }
  · intro p hp
    rcases List.mem_append.mp hp with hp | hp
    · exact h.created_fits p hp
    · rw [List.mem_singleton.mp hp]
      exact ⟨hne, hlen⟩
  · rw [Globals.readBytes, hread, List.flatten_append, List.flatten_singleton]
    exact hcont
  · intro hended
    rw [hopen] at hended
    cases hended
  · intro n hn
    exact (h.toSend_made n hn).imp_right fun hm => List.mem_append_left _ hm
  · rw [bodyNode_payload]
    exact List.mem_append_right _ (List.mem_singleton_self _)
  · show (headerSize : Int) ≤ ((bytes.length + headerSize : Nat) : Int) ∧
      ((bytes.length + headerSize : Nat) : Int) ≤ sizeofPkt
    simp only [payloadSize, sizeofPkt, headerSize] at hlen ⊢
    omega
  · -- the number is larger than those in use
    intro x hx hxid
    have hnew : x.packet.id.toNat = g.currentId.toNat := hxid
    have hcur := h.currentId_eq
    rcases h.toSend_made x hx with ⟨h0, _⟩ | hmade
    · have hzero : x.packet.id.toNat = 0 := h0
      omega
    · have hle : x.packet.id.toNat ≤ g.created.length := (h.created_id hmade).2
      omega

/-- A node is taken out. -/
theorem Packets.remove {g g' : Globals} (h : Packets stream maxPackets g) {n : Node}
    (hn : n ∈ g.toSend.nodes) (htoSend : g'.toSend = removeNode g.toSend n)
    (hcreated : g'.created = g.created) (hcurrent : g'.currentId = g.currentId)
    (hended : g'.endingRead = g.endingRead) (hfinalize : g'.finalize = g.finalize)
    (hsent : g'.sent = g.sent) :
    Packets stream maxPackets g' := by
  have hsub : g'.toSend.nodes.Sublist g.toSend.nodes := by
    rw [htoSend]
    exact List.erase_sublist
  have hread : g'.readBytes = g.readBytes := by rw [Globals.readBytes, hcreated]; rfl
  exact {
    created_ids := by rw [hcreated]; exact h.created_ids
    created_fits := by rw [hcreated]; exact h.created_fits
    currentId_eq := by rw [hcreated, hcurrent]; exact h.currentId_eq
    read_within := by rw [hread]; exact h.read_within
    read_all := by rw [hread, hended]; exact h.read_all
    toSend_made := fun x hx => by rw [hcreated, hended]; exact h.toSend_made x (hsub.subset hx)
    toSend_type := fun x hx => h.toSend_type x (hsub.subset hx)
    toSend_size := fun x hx => h.toSend_size x (hsub.subset hx)
    toSend_nodup := h.toSend_nodup.sublist (hsub.map _)
    toSend_counted := htoSend ▸ removeNode_counted h.toSend_counted hn
    toSend_room := hsub.length_le.trans h.toSend_room
    finalize_ended := by rw [hended, hfinalize]; exact h.finalize_ended
    sent_data := by rw [hsent]; exact h.sent_data }

/-- Where the loop stands fits the list: a walk is over its nodes, and the loop is only left as
all sent when the list is empty and `finalize` set. -/
def Config.Stands (c : Config) : Prop :=
  match c.pc with
  | .sending iter _ => iter ⊆ c.globals.toSend.nodes
  | .exited .allSent => c.globals.allSent = true
  | _ => True

/-- The invariant of a run. -/
structure Config.Packed (stream : List UInt8) (maxPackets : Nat) (c : Config) : Prop where
  packets : Packets stream maxPackets c.globals
  stands : c.Stands

/-- The start has the whole invariant. -/
theorem Config.Packed.initial : Config.Packed stream maxPackets Config.initial :=
  ⟨.initial, trivial⟩

/-- Each step keeps it: a walk begins with the nodes of the list, and nothing is taken out of the
list while it lasts. -/
theorem Config.Stands.stepped {c c' : Config} {e : Event} (h : c.Stands)
    (st : Stepped maxPackets c e c') : c'.Stands := by
  cases st with
  | scan => exact List.Subset.refl _
  | send hsend =>
    cases hsend
    exact List.Subset.trans (List.subset_cons_self _ _) h
  | allSent hall => exact hall
  | select hpc =>
    obtain ⟨ritardatore, rfl | rfl⟩ := hpc
    · trivial
    · cases ritardatore <;> trivial
  | @filled g ritardatore hr => cases ritardatore <;> trivial
  | scanned | timeout | read | check | checked | again | error => trivial

/-- One step keeps the packets, unless it is the last number that is used up. -/
theorem Config.Packed.stepped {c c' : Config} {e : Event} (h : c.Packed stream maxPackets)
    (hstream : Streams stream c e) (hfew : c'.globals.created.length < 2 ^ 32 - 1)
    (st : Stepped maxPackets c e c') : c'.Packed stream maxPackets := by
  refine ⟨?_, h.stands.stepped st⟩
  obtain ⟨hp, hstands⟩ := h
  cases st with
  | @send g g' iter next scans outcomes hsend =>
    cases hsend
    have hmem : iter ∈ g.toSend.nodes := hstands List.mem_cons_self
    refine { hp with finalize_ended := ?_, sent_data := ?_ }
    · intro hfin
      rcases Bool.or_eq_true_iff.mp hfin with hfin | hid
      · exact hp.finalize_ended hfin
      · have hzero : iter.packet.id.toNat = 0 :=
          Node.id_eq_iff.mp (htonl_eq_zero_iff.mp (of_decide_eq_true hid))
        rcases hp.toSend_made iter hmem with ⟨_, hended⟩ | hmade
        · exact hended
        · have hpos : 1 ≤ iter.packet.id.toNat := (hp.created_id hmade).1
          omega
    · intro d hd
      rcases List.mem_append.mp hd with hd | hd
      · exact hp.sent_data d hd
      · rw [List.mem_singleton.mp hd]
        exact ⟨_, _, hp.wire_eq hmem⟩
  | @read g g' ritardatore outcomes past recv hreads hwhile hg =>
    have hdata := hstream recv (mem_of_doWhile hwhile)
    cases reads_of_ok hg with
    | ended => exact hp.ended hreads (hdata.2.2 rfl)
    | body hne =>
      rw [List.length_append, List.length_singleton] at hfew
      exact hp.body hreads hne hdata hfew
    | interrupted => exact hp
  | check hc hg =>
    cases checks_of_ok hg with
    | acked hm htype hs => exact hp.remove (List.mem_of_find?_eq_some hs) rfl rfl rfl rfl rfl rfl
    | nothing => exact hp
    | stale | icmp => exact { hp with }
  | scan | scanned | select | timeout | filled | checked | allSent | again | error => exact hp

/-- No step takes back a packet built. -/
theorem created_length_le {c c' : Config} {e : Event} (st : Stepped maxPackets c e c') :
    c.globals.created.length ≤ c'.globals.created.length := by
  cases st with
  | send hsend => cases hsend; exact le_rfl
  | read hreads hwhile hg =>
    cases reads_of_ok hg with
    | ended | interrupted => exact le_rfl
    | body hne =>
      rw [List.length_append]
      exact Nat.le_add_right _ _
  | check hc hg => cases checks_of_ok hg <;> exact le_rfl
  | scan | scanned | select | timeout | filled | checked | allSent | again | error => exact le_rfl

end GProxy.Psender
