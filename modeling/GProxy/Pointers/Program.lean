import GProxy.ListUtils
import Mathlib.Logic.Function.Basic

/-!
# The packet lists in memory (`listUtils.c`)

The functions of `listUtils.c` on the `next`, `prev` and `head` pointers they rewrite, each
statement of the source one step on the memory. The memory is a function for each field of
`struct Node`, and says which addresses are allocated; to read or to write through a pointer that
is `NULL` or was freed has no result. A packet is held by the node that alone points at it.

A loop gets `fuel`, a bound on the tests of its condition, and has no result when it takes more.
So that a loop has a result under every bound from some number on says that it ends.

The body of a packet is a list here, without the bound of its array: `allocNode` copies what the
memory at the pointer holds, and whether `size` stays in the two arrays is not asked
(`GProxy.Psender.Copies` asks it). A pointer that was freed may be used again only as a new one.
-/

namespace GProxy.Pointers

abbrev Addr := Nat

/-- `Node *`; `none` is `NULL`. -/
abbrev Ptr := Option Addr

/-- The fields of the nodes, and which nodes are allocated. `packet` is `none` while the pointer
is not initialised. -/
structure Mem where
  live : Addr → Bool
  packet : Addr → Option Pkt
  next : Addr → Ptr
  prev : Addr → Ptr
  head : Addr → Ptr
  length : Addr → Int
  pktSize : Addr → Int

/-- Read a field through a pointer. -/
def Mem.get {β : Type*} (m : Mem) (field : Addr → β) : Ptr → Option β
  | none => none
  | some a => if m.live a then some (field a) else none

def Mem.setNext (m : Mem) (p v : Ptr) : Option Mem :=
  (m.get id p).map fun a => { m with next := Function.update m.next a v }

def Mem.setPrev (m : Mem) (p v : Ptr) : Option Mem :=
  (m.get id p).map fun a => { m with prev := Function.update m.prev a v }

def Mem.setHead (m : Mem) (p v : Ptr) : Option Mem :=
  (m.get id p).map fun a => { m with head := Function.update m.head a v }

def Mem.setLength (m : Mem) (p : Ptr) (v : Int) : Option Mem :=
  (m.get id p).map fun a => { m with length := Function.update m.length a v }

def Mem.setPktSize (m : Mem) (p : Ptr) (v : Int) : Option Mem :=
  (m.get id p).map fun a => { m with pktSize := Function.update m.pktSize a v }

def Mem.setPacket (m : Mem) (p : Ptr) (v : Pkt) : Option Mem :=
  (m.get id p).map fun a => { m with packet := Function.update m.packet a (some v) }

/-- `p->packet->id` -/
def Mem.getId (m : Mem) (p : Ptr) : Option UInt32 := do
  let packet ← m.get m.packet p
  packet.map Pkt.id

/-- `malloc` hands out an address that is not in use; what the fields hold is left as it is. -/
def Mem.malloc (m : Mem) (a : Addr) : Option Mem :=
  if m.live a then none
  else some { m with
    live := Function.update m.live a true
    packet := Function.update m.packet a none }

/-! ## The functions -/

/-- `a` is what `malloc` returns, `body` the memory at the pointer given. -/
def allocNode (m : Mem) (a : Addr) (id : UInt32) (type : UInt8) (body : Option (List UInt8))
    (size : Nat) : Option (Mem × Ptr) := do
  let toAlloc : Ptr := some a
  let m ← m.malloc a
  let m ← m.setNext toAlloc toAlloc
  let m ← m.setPrev toAlloc toAlloc
  let m ← m.setLength toAlloc (-1)
  let m ← m.setPktSize toAlloc 0
  match body with
  | some memory =>
    let m ← m.setPacket toAlloc ⟨id, type, memory.take size⟩
    let m ← m.setPktSize toAlloc size
    some (m, toAlloc)
  | none =>
    let m ← m.setPacket toAlloc ⟨id, type, []⟩
    some (m, toAlloc)

def allocHead (m : Mem) (a : Addr) : Option (Mem × Ptr) := do
  let toAlloc : Ptr := some a
  let m ← m.malloc a
  let m ← m.setNext toAlloc toAlloc
  let m ← m.setPrev toAlloc toAlloc
  let m ← m.setLength toAlloc 0
  let m ← m.setPktSize toAlloc (-1)
  some (m, toAlloc)

def appendNode (m : Mem) (head new : Ptr) : Option Mem := do
  let m ← m.setPrev new (← m.get m.prev head)
  let m ← m.setNext new head
  let m ← m.setNext (← m.get m.prev head) new
  let m ← m.setPrev head new
  let m ← m.setHead new head
  let length ← m.get m.length head
  if length ≥ 0 then m.setLength head (length + 1) else some m

def removeNode (m : Mem) (toRemove : Ptr) : Option (Mem × Ptr) :=
  if toRemove = none then some (m, none)
  else do
    let head ← m.get m.head toRemove
    let prev ← m.get m.prev toRemove
    let m ← if prev ≠ none then (do m.setNext prev (← m.get m.next toRemove)) else some m
    let next ← m.get m.next toRemove
    let m ← if next ≠ none then (do m.setPrev next (← m.get m.prev toRemove)) else some m
    let m ← m.setPrev toRemove none
    let m ← m.setNext toRemove none
    let m ← m.setHead toRemove none
    let m ← m.setLength head ((← m.get m.length head) - 1)
    some (m, toRemove)

/-- Frees the packet and the node. -/
def clearNode (m : Mem) (toClear : Ptr) : Option Mem :=
  match toClear with
  | none => some m
  | some a => do
    let _ ← (← m.get m.packet toClear)
    some { m with live := Function.update m.live a false }

/-- The loop of `searchNodeById`: where it stops. -/
def searchFrom (m : Mem) (head : Ptr) (id : UInt32) : Nat → Ptr → Option Ptr
  | 0, _ => none
  | fuel + 1, iter =>
    if iter = head then some iter
    else do
      if (← m.getId iter) ≠ id then searchFrom m head id fuel (← m.get m.next iter)
      else some iter

def searchNodeById (fuel : Nat) (m : Mem) (head : Ptr) (id : UInt32) : Option Ptr := do
  let iter ← searchFrom m head id fuel (← m.get m.next head)
  if iter = head then some none else some iter

/-- The loop of `insertNodeById`: whether the number is present, and where it stops. -/
def placeFrom (m : Mem) (head new : Ptr) : Nat → Ptr → Option (Bool × Ptr)
  | 0, _ => none
  | fuel + 1, iter =>
    if iter = head then some (false, iter)
    else do
      let id ← m.getId iter
      let newId ← m.getId new
      if id = newId then some (true, iter)
      else if id > newId then some (false, iter)
      else placeFrom m head new fuel (← m.get m.next iter)

def insertNodeById (fuel : Nat) (m : Mem) (head new : Ptr) : Option (Mem × Bool) := do
  let (present, iter) ← placeFrom m head new fuel (← m.get m.next head)
  if present then some (m, false)
  else
    let m ← m.setNext new iter
    let m ← m.setPrev new (← m.get m.prev iter)
    let m ← m.setNext (← m.get m.prev iter) new
    let m ← m.setPrev iter new
    let m ← m.setHead new head
    let m ← m.setLength head ((← m.get m.length head) + 1)
    some (m, true)

def removeNodeById (fuel : Nat) (m : Mem) (head : Ptr) (id : UInt32) : Option (Mem × Ptr) := do
  let temp ← searchNodeById fuel m head id
  let (m, _) ← removeNode m temp
  some (m, temp)

/-! ## Reading and writing through a pointer to a node -/

section

variable {m : Mem} {a : Addr}

/-- To read through a pointer to an allocated cell has a result. -/
@[simp] theorem Mem.get_some {β : Type*} {field : Addr → β} (h : m.live a = true) :
    m.get field (some a) = some (field a) := if_pos h

/-- To write `next` through a pointer to an allocated cell has a result. -/
@[simp] theorem Mem.setNext_some (h : m.live a = true) (v : Ptr) :
    m.setNext (some a) v = some { m with next := Function.update m.next a v } := by
  rw [setNext, get_some h]
  rfl

/-- To write `prev` through a pointer to an allocated cell has a result. -/
@[simp] theorem Mem.setPrev_some (h : m.live a = true) (v : Ptr) :
    m.setPrev (some a) v = some { m with prev := Function.update m.prev a v } := by
  rw [setPrev, get_some h]
  rfl

/-- To write `head` through a pointer to an allocated cell has a result. -/
@[simp] theorem Mem.setHead_some (h : m.live a = true) (v : Ptr) :
    m.setHead (some a) v = some { m with head := Function.update m.head a v } := by
  rw [setHead, get_some h]
  rfl

/-- To write `length` through a pointer to an allocated cell has a result. -/
@[simp] theorem Mem.setLength_some (h : m.live a = true) (v : Int) :
    m.setLength (some a) v = some { m with length := Function.update m.length a v } := by
  rw [setLength, get_some h]
  rfl

/-- To write `pktSize` through a pointer to an allocated cell has a result. -/
@[simp] theorem Mem.setPktSize_some (h : m.live a = true) (v : Int) :
    m.setPktSize (some a) v = some { m with pktSize := Function.update m.pktSize a v } := by
  rw [setPktSize, get_some h]
  rfl

/-- To write the packet through a pointer to an allocated cell has a result. -/
@[simp] theorem Mem.setPacket_some (h : m.live a = true) (v : Pkt) :
    m.setPacket (some a) v = some { m with packet := Function.update m.packet a (some v) } := by
  rw [setPacket, get_some h]
  rfl

/-- The number of a packet is read through two pointers, to the node and to its packet. -/
theorem Mem.getId_some {packet : Pkt} (h : m.live a = true) (hp : m.packet a = some packet) :
    m.getId (some a) = some packet.id := by
  simp [getId, h, hp]

end

end GProxy.Pointers
