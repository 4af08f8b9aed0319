import GProxy.ListUtils
import GProxy.Lib.Decimal

/-!
# Packets on the wire

A datagram is the memory image of a `Pkt`: the identifier in network order, the type, the body.
`sendPacket` sends the first `pktSize` bytes of it; a reader writes the bytes it gets over the
memory of a `Pkt`. An acknowledgement has the identifier 0 and carries the acknowledged number
in its body, as the decimal text of the swapped word read as a signed integer.

Two round trips connect the two ends: `ofImage_dataDatagram` for data and `ackedId_ackImage`
for acknowledgements.
-/

namespace GProxy

open WordBytes

/-- `sizeof(Pkt)`, the three bytes of padding included. -/
def sizeofPkt : Nat := 65008

/-- The memory of a packet. -/
def Pkt.image (p : Pkt) : List UInt8 := store p.id ++ p.type :: p.body

/-- The packet at a memory whose unwritten bytes are zero. -/
def Pkt.ofImage (memory : List UInt8) : Pkt :=
  ⟨load memory, memory.getD 4 0, memory.drop headerSize⟩

/-- What `sizeof(Pkt)` bytes of room take of a datagram. -/
def received (bytes : List UInt8) : List UInt8 := bytes.take sizeofPkt

/-- A memory after a datagram was read into its beginning. -/
def overlay (bytes memory : List UInt8) : List UInt8 :=
  received bytes ++ memory.drop (received bytes).length

/-- The bytes `send(receiver, body, pktSize - HEADER_SIZE, 0)` is asked to send. -/
def Node.payload (n : Node) : List UInt8 := n.packet.body.take (n.pktSize - headerSize).toNat

/-- The bytes `sendPacket` hands to `sendto`. -/
def Node.wire (n : Node) : List UInt8 :=
  (Pkt.image { n.packet with id := htonl n.packet.id }).take n.pktSize.toNat

/-- The datagram of a data packet. -/
def dataDatagram (id : UInt32) (body : List UInt8) : List UInt8 :=
  store (htonl id) ++ typeB :: body

/-- The acknowledgement for a number; `stack` is what the uninitialised rest of the packet
holds. -/
def ackImage (stack : List UInt8) (id : UInt32) : List UInt8 :=
  (store 0 ++ typeB :: (Decimal.print (signed (htonl id)) ++ 0 :: 0 :: stack)).take sizeofPkt

/-- `ntohl(atoi(currentAck.body))` -/
def ackedId (currentAck : List UInt8) : UInt32 :=
  ntohl (UInt32.ofInt (Decimal.atoi (currentAck.drop headerSize)))

/-! ## Data -/

/-- A body datagram is a header longer than its body. -/
@[simp] theorem dataDatagram_length (id : UInt32) (body : List UInt8) :
    (dataDatagram id body).length = body.length + headerSize := by
  simp [dataDatagram, headerSize, Nat.add_comm 4]

/-- A data packet goes on the wire with its number and its payload, whatever its body array
holds behind the payload. -/
theorem Node.wire_eq {n : Node} (hB : n.packet.type = typeB) (hsize : headerSize ≤ n.pktSize) :
    n.wire = dataDatagram n.packet.id n.payload := by
  obtain ⟨k, hk⟩ : ∃ k : Nat, n.pktSize = k + headerSize :=
    ⟨(n.pktSize - headerSize).toNat, by omega⟩
  have hwire : n.pktSize.toNat = k + 5 := by rw [hk]; rfl
  have hpay : (n.pktSize - headerSize).toNat = k := by omega
  rw [Node.wire, Pkt.image, hwire, Node.payload, hpay, dataDatagram, hB]
  rfl

/-- Reading a data packet gives back its number, type and body. -/
theorem ofImage_dataDatagram (id : UInt32) (body : List UInt8) :
    Pkt.ofImage (dataDatagram id body) = ⟨htonl id, typeB, body⟩ := by
  rw [Pkt.ofImage, dataDatagram, load_store]
  rfl

/-- A packet whose type was read has a whole header. -/
theorem headerSize_le_length {bytes : List UInt8} (htype : (Pkt.ofImage bytes).type = typeB) :
    headerSize ≤ bytes.length := by
  by_contra hlt
  have hdefault : bytes.getD 4 0 = 0 := by
    rw [List.getD_eq_getElem?_getD, List.getElem?_eq_none (by rw [headerSize] at hlt; omega)]
    rfl
  have hzero : (0 : UInt8) = typeB := hdefault.symm.trans htype
  exact absurd hzero (by decide)

/-- A datagram that fits is read whole. -/
theorem received_of_le {bytes : List UInt8} (h : bytes.length ≤ sizeofPkt) :
    received bytes = bytes :=
  List.take_of_length_le h

/-- The type of a datagram that is read over a memory. -/
theorem overlay_type {bytes memory : List UInt8} {type : UInt8} (h : bytes[4]? = some type) :
    (overlay bytes memory).getD 4 0 = type := by
  have hrec : (received bytes)[4]? = some type := by
    rw [received, List.getElem?_take_of_lt (by decide), h]
  obtain ⟨hlt, _⟩ := List.getElem?_eq_some_iff.mp hrec
  rw [overlay, List.getD_eq_getElem?_getD, List.getElem?_append_left hlt, hrec]
  rfl

/-- The type of a datagram that is read into zeros. -/
theorem ofImage_type {bytes : List UInt8} {type : UInt8} (h : bytes[4]? = some type) :
    (Pkt.ofImage (received bytes)).type = type := by
  rw [Pkt.ofImage, received, List.getD_eq_getElem?_getD,
    List.getElem?_take_of_lt (by decide : 4 < sizeofPkt), h]
  rfl

/-! ## Acknowledgements -/

/-- A number below 10¹⁰ has at most ten digits. -/
theorem digits_length {n : Nat} (h : n < 10 ^ 10) : (Decimal.digits n).length ≤ 10 := by
  rw [Decimal.digits, List.length_map]
  exact (Nat.length_toDigits_le_iff (by decide) (by decide)).mpr h

/-- A number read as an `int` is in its range, so `atoi` reads back what was printed. -/
theorem signed_bounds (x : UInt32) :
    Decimal.intMin ≤ signed x ∧ signed x ≤ Decimal.intMax := by
  have hx := x.toNat_lt
  unfold signed Decimal.intMin Decimal.intMax
  split <;> omega

/-- An `int` takes eleven characters at most, so the text of an acknowledgement fits its packet. -/
theorem print_length (x : UInt32) : (Decimal.print (signed x)).length ≤ 11 := by
  have hx := x.toNat_lt
  unfold signed
  split
  · show (Decimal.digits x.toNat).length ≤ 11
    have := digits_length (n := x.toNat) (by omega)
    omega
  · obtain ⟨k, hk⟩ : ∃ k : Nat, (x.toNat : Int) - 2 ^ 32 = .negSucc k :=
      ⟨2 ^ 32 - x.toNat - 1, by omega⟩
    rw [hk]
    show (Decimal.digits (k + 1)).length + 1 ≤ 11
    have := digits_length (n := k + 1) (by omega)
    omega

/-- The text of an acknowledgement fits, so cutting the packet at its size cuts behind the
terminator. -/
theorem ackImage_eq (stack : List UInt8) (id : UInt32) :
    ∃ rest, ackImage stack id =
      store 0 ++ typeB :: (Decimal.print (signed (htonl id)) ++ 0 :: rest) := by
  have hlen := print_length (htonl id)
  generalize hp : Decimal.print (signed (htonl id)) = text at hlen
  refine ⟨(0 :: stack).take (sizeofPkt - (text.length + 6)), ?_⟩
  rw [ackImage, hp]
  have hsplit : store 0 ++ typeB :: (text ++ 0 :: 0 :: stack) =
      (store 0 ++ typeB :: (text ++ [0])) ++ 0 :: stack := by simp
  have hpre : (store 0 ++ typeB :: (text ++ [0])).length = text.length + 6 := by
    simp [Nat.add_comm 4]
  rw [hsplit, List.take_append, hpre, List.take_of_length_le (by rw [hpre, sizeofPkt]; omega)]
  simp

/-- An acknowledgement is a body packet. -/
theorem ackImage_type (stack : List UInt8) (id : UInt32) :
    (ackImage stack id)[4]? = some typeB := by
  obtain ⟨rest, h⟩ := ackImage_eq stack id
  rw [h, List.getElem?_append_right (by simp)]
  simp

/-- Reading an acknowledgement gives back the number it was built for, whatever was in
`currentAck` before. -/
theorem ackedId_ackImage (stack : List UInt8) (id : UInt32) (memory : List UInt8) :
    ackedId (overlay (ackImage stack id) memory) = id := by
  obtain ⟨rest, h⟩ := ackImage_eq stack id
  have hrec : received (ackImage stack id) = ackImage stack id := by
    rw [received, ackImage, List.take_take, Nat.min_self]
  have hdrop : ∀ tail, (store 0 ++ typeB :: (Decimal.print (signed (htonl id)) ++ 0 :: rest) ++
      tail).drop headerSize = Decimal.print (signed (htonl id)) ++ 0 :: (rest ++ tail) := by
    intro tail
    simp [store, headerSize]
  obtain ⟨hmin, hmax⟩ := signed_bounds (htonl id)
  rw [ackedId, overlay, hrec, h, hdrop, Decimal.atoi_print hmin hmax rfl, ofInt_signed,
    ntohl_htonl]

end GProxy
