import GProxy.Psender.Program
import GProxy.Lib.Memory

/-!
# The copies that build a packet

`allocNode` takes one size for two things: the length of the datagram, header included, and the
number of bytes it copies into the body. So the copy goes on for a header's length behind the bytes
of the body. Behind a short read that is still inside both arrays; behind a read of almost the
whole buffer it is outside of both, and behind `endingBody` always (`copies_in_bounds_iff`).

The copies are on arrays, where an access outside is one; the nodes of the model carry lists, with
what is behind a source as a parameter. `nodes_of_copies` is what the one says about the other.
-/

namespace GProxy.Psender

open Memory

/-- The copy of `allocNode(currentId, 'B', recvBuffer, readCounter+HEADER_SIZE)`. -/
def bodyCopy (body recvBuffer : Vector UInt8 payloadSize) (readCounter : Nat) :
    Option (Vector UInt8 payloadSize) :=
  memcpy body recvBuffer (bodySize readCounter)

/-- `endingBody` as the array it is. -/
def endingArray : Vector UInt8 13 := ⟨endingBody.toArray, rfl⟩

/-- The copy of `allocNode(0, 'B', endingBody, strlen(endingBody)+HEADER_SIZE+1)`, with the array
that it reads. -/
def endingCopyFrom {n : Nat} (body : Vector UInt8 payloadSize) (source : Vector UInt8 n) :
    Option (Vector UInt8 payloadSize) :=
  memcpy body source endingSize

/-- That copy as it is called. -/
def endingCopy (body : Vector UInt8 payloadSize) : Option (Vector UInt8 payloadSize) :=
  endingCopyFrom body endingArray

/-- Where all accesses of the two copies are inside the arrays, they put into the body what the
nodes of the model carry: `past` is what stands in the buffer behind the bytes read. For the end
marker it would take an array that goes on behind `endingBody`. -/
theorem nodes_of_copies (g : Globals) (past : List UInt8) (body body' : Vector UInt8 payloadSize) :
    (∀ (bytes : List UInt8) (recvBuffer : Vector UInt8 payloadSize),
      recvBuffer.toList = bytes ++ past → bodyCopy body recvBuffer bytes.length = some body' →
        (bodyNode g bytes past).1.packet.body = body'.toList.take (bodySize bytes.length)) ∧
      ∀ {n : Nat} (source : Vector UInt8 n), source.toList = endingBody ++ past →
        endingCopyFrom body source = some body' →
          (endingNode g.heap past).1.packet.body = body'.toList.take endingSize := by
  constructor
  · intro bytes recvBuffer hread hcopy
    rw [take_of_memcpy hcopy, hread]
    rfl
  · intro n source hsource hcopy
    rw [take_of_memcpy hcopy, hsource]
    rfl

/-- The copy of a data packet is inside the buffer it reads and the body it writes if and only if
the read leaves room for a header in the buffer; the copy of the end marker never is inside
`endingBody`. -/
theorem copies_in_bounds_iff (body recvBuffer : Vector UInt8 payloadSize) (readCounter : Nat) :
    ((bodyCopy body recvBuffer readCounter).isSome ↔ readCounter ≤ payloadSize - headerSize) ∧
      ¬ (endingCopy body).isSome := by
  constructor
  · rw [bodyCopy, memcpy_isSome_iff, and_self, bodySize, payloadSize, headerSize]
    omega
  · rw [endingCopy, endingCopyFrom, memcpy_isSome_iff]
    exact fun h => absurd h.1 (by decide)

/-- A read that fills the buffer, and the end of every stream, are copied out of bounds. -/
theorem copy_out_of_bounds :
    ¬ ∀ (body recvBuffer : Vector UInt8 payloadSize) (readCounter : Nat),
      1 ≤ readCounter → readCounter ≤ payloadSize →
      (bodyCopy body recvBuffer readCounter).isSome ∧ (endingCopy body).isSome := by
  intro h
  have hcopy := (h (Vector.replicate _ 0) (Vector.replicate _ 0) payloadSize (by decide) le_rfl).1
  rw [bodyCopy, memcpy_isSome_iff] at hcopy
  exact absurd hcopy.1 (by decide)

end GProxy.Psender
