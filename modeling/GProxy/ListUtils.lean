import GProxy.GlobalUtils
import GProxy.Lib.SortedInsert
import Mathlib.Data.Nat.Basic

/-!
# The packet lists (`listUtils.c`)

A head is the sequence of the nodes linked to it, in `next` order, and its `length` field. A
node carries the address `malloc` gave it, so the set of live nodes can be followed: the heap
holds the addresses handed out and not yet freed.

The body of a packet is the list of its written bytes; what lies behind them in the array is
not represented. Nor is the range of `length`, an `int`: a node takes more than 65000 bytes, so
memory ends long before 2³¹ of them.
-/

namespace GProxy

open SortedInsert

/-- `PAYLOAD_SIZE` -/
def payloadSize : Nat := 65000

/-- `struct Pkt` -/
structure Pkt where
  id : UInt32
  type : UInt8
  body : List UInt8
  deriving DecidableEq, Repr

/-- `struct Node`, less the links. -/
structure Node where
  addr : Nat
  packet : Pkt
  pktSize : Int
  deriving DecidableEq, Repr

/-- A list head: the nodes linked to it and its `length`. -/
structure Head where
  nodes : List Node
  length : Int
  deriving DecidableEq, Repr

/-- The addresses handed out and not yet freed, and the next one. -/
structure Heap where
  next : Nat
  live : List Nat
  deriving DecidableEq, Repr

def Heap.initial : Heap := ⟨0, []⟩

/-- The heap after the next address was handed out. -/
def Heap.taken (heap : Heap) : Heap := ⟨heap.next + 1, heap.next :: heap.live⟩

/-- The heap after an address was handed out and given back. -/
def Heap.skipped (heap : Heap) : Heap := ⟨heap.next + 1, heap.live⟩

/-- A node's number in the order its list is kept in. -/
def Node.id (n : Node) : Nat := n.packet.id.toNat

/-- The number of a node, which the order of a list is about, is the one in its packet. -/
theorem Node.id_eq_iff {n : Node} {x : UInt32} : n.packet.id = x ↔ n.id = x.toNat :=
  UInt32.toNat_inj.symm

/-- `body` is the memory at the pointer given, `none` for `NULL`: `size` bytes of it are copied. -/
def allocNode (heap : Heap) (id : UInt32) (type : UInt8) (body : Option (List UInt8))
    (size : Nat) : Node × Heap :=
  let node : Node := match body with
    | some memory => ⟨heap.next, ⟨id, type, memory.take size⟩, size⟩
    | none => ⟨heap.next, ⟨id, type, []⟩, 0⟩
  (node, heap.taken)

def allocHead : Head := ⟨[], 0⟩

def appendNode (head : Head) (new : Node) : Head :=
  ⟨head.nodes ++ [new], if head.length ≥ 0 then head.length + 1 else head.length⟩

/-- `removeNode` of a node linked to `head`. -/
def removeNode (head : Head) (toRemove : Node) : Head :=
  ⟨head.nodes.erase toRemove, head.length - 1⟩

def clearNode (heap : Heap) (toClear : Node) : Heap :=
  { heap with live := heap.live.erase toClear.addr }

def searchNodeById (head : Head) (id : UInt32) : Option Node :=
  head.nodes.find? (·.packet.id = id)

/-- The list afterwards, and whether the node went in. -/
def insertNodeById (head : Head) (new : Node) : Head × Bool :=
  match insertBy Node.id new head.nodes with
  | some nodes => (⟨nodes, head.length + 1⟩, true)
  | none => (head, false)

/-- The list afterwards, and the node taken out of it. -/
def removeNodeById (head : Head) (id : UInt32) : Head × Option Node :=
  match searchNodeById head id with
  | some temp => (removeNode head temp, some temp)
  | none => (head, none)

/-- The loop test of `forEach` fails: nothing left to scan, or enough scanned. -/
def scanDone (maxScans scans : Nat) : List Node → Bool
  | [] => true
  | _ :: _ => maxScans ≠ 0 && scans ≥ maxScans

/-- `forEach` once `scans` nodes are done and `iter` is what follows. Its callbacks unlink no
node but the one they are given, so what follows is fixed when the walk starts. -/
def forEachFrom {σ ε : Type*} (callback : σ → Node → Except ε σ) (maxScans : Nat) :
    Nat → List Node → σ → Except ε σ
  | _, [], s => .ok s
  | scans, iter :: next, s =>
    if scanDone maxScans scans (iter :: next) then .ok s
    else (callback s iter).bind (forEachFrom callback maxScans (scans + 1) next)

def forEach {σ ε : Type*} (head : Head) (callback : σ → Node → Except ε σ) (maxScans : Nat)
    (s : σ) : Except ε σ :=
  forEachFrom callback maxScans 0 head.nodes s

/-- A walk under a positive bound goes on exactly while it is below the bound. -/
theorem scanDone_cons_eq_false_iff {maxScans scans : Nat} (hm : 1 ≤ maxScans) {iter : Node}
    {next : List Node} : scanDone maxScans scans (iter :: next) = false ↔ scans < maxScans := by
  have hne : maxScans ≠ 0 := by omega
  simp [scanDone, hne]

/-- A walk that is done has nothing left to scan or has reached the bound. -/
theorem nil_or_le_of_scanDone {maxScans scans : Nat} {iter : List Node}
    (h : scanDone maxScans scans iter = true) : iter = [] ∨ maxScans ≤ scans := by
  cases iter with
  | nil => exact .inl rfl
  | cons n next =>
    simp only [scanDone, Bool.and_eq_true, decide_eq_true_eq] at h
    exact .inr h.2

/-- Clearing the node just allocated. -/
theorem clearNode_taken {heap : Heap} {current : Node} (h : current.addr = heap.next) :
    clearNode heap.taken current = heap.skipped := by
  simp [clearNode, Heap.taken, Heap.skipped, h]

/-! ## What the operations do to the sequence -/

/-- The `length` field counts the nodes. -/
def Head.Counted (head : Head) : Prop := head.length = head.nodes.length

/-- An empty list has length 0. -/
theorem allocHead_counted : allocHead.Counted := rfl

/-- `length` can be tested in place of the list itself, which is how both main loops ask whether
anything is left. -/
theorem Head.Counted.length_eq_zero_iff {head : Head} (h : head.Counted) :
    head.length = 0 ↔ head.nodes = [] := by
  rw [h, Int.natCast_eq_zero, List.length_eq_zero_iff]

/-- Appending keeps `length` the number of nodes. -/
theorem appendNode_counted {head : Head} {new : Node} (h : head.Counted) :
    (appendNode head new).Counted := by
  have hlen : 0 ≤ head.length := h ▸ Int.natCast_nonneg _
  simp only [Head.Counted, appendNode, ge_iff_le, if_pos hlen, List.length_append,
    List.length_singleton]
  rw [h]
  omega

/-- What holds of the nodes and of the new one holds of the nodes after appending it. -/
theorem forall_appendNode {P : Node → Prop} {head : Head} {new : Node}
    (h : ∀ x ∈ head.nodes, P x) (hnew : P new) : ∀ x ∈ (appendNode head new).nodes, P x := by
  intro x hx
  rcases List.mem_append.mp hx with hx | hx
  · exact h x hx
  · rw [List.mem_singleton.mp hx]
    exact hnew

/-- Taking out a node of the list keeps `length` the number of nodes. Without the hypothesis
`removeNode` would count down for a node that is not there. -/
theorem removeNode_counted {head : Head} {n : Node} (h : head.Counted) (hn : n ∈ head.nodes) :
    (removeNode head n).Counted := by
  have hpos := List.length_pos_of_mem hn
  simp only [Head.Counted, removeNode, List.length_erase_of_mem hn]
  rw [h]
  omega

/-- In an increasing list a node occurs once, so it is gone after it was taken out, and it alone. -/
theorem mem_removeNode {head : Head} {n x : Node} (h : Increasing Node.id head.nodes) :
    x ∈ (removeNode head n).nodes ↔ x ∈ head.nodes ∧ x ≠ n := by
  rw [removeNode, h.nodup.mem_erase_iff, and_comm]

/-- Taking a node out leaves the others in their order. -/
theorem removeNode_increasing {head : Head} {n : Node} (h : Increasing Node.id head.nodes) :
    Increasing Node.id (removeNode head n).nodes :=
  h.sublist List.erase_sublist

/-- Unlinking the first node. -/
theorem removeNode_first {head : Head} {n : Node} {next : List Node}
    (hnodes : n :: next = head.nodes) : (removeNode head n).nodes = next := by
  rw [removeNode, ← hnodes, List.erase_cons_head]

/-- Where no number occurs twice, unlinking a node leaves the nodes with other numbers. -/
theorem removeNode_eq_filter {head : Head} {n : Node} (hnodup : (head.nodes.map Node.id).Nodup)
    (hn : n ∈ head.nodes) :
    (removeNode head n).nodes = head.nodes.filter (·.packet.id ≠ n.packet.id) := by
  rw [removeNode, hnodup.of_map.erase_eq_filter]
  apply List.filter_congr
  intro x hx
  have hiff : x = n ↔ x.packet.id = n.packet.id := by
    refine ⟨fun h => h ▸ rfl, fun hid => ?_⟩
    exact List.inj_on_of_nodup_map hnodup hx hn (congrArg UInt32.toNat hid)
  rw [Bool.eq_iff_iff, bne_iff_ne, decide_eq_true_iff, ne_eq, ne_eq, hiff]

/-- A removal by number takes out a node with the number, or finds none. -/
theorem removeNodeById_cases (head : Head) (id : UInt32) :
    (∃ temp ∈ head.nodes, temp.packet.id = id ∧
      removeNodeById head id = (removeNode head temp, some temp)) ∨
    (∀ n ∈ head.nodes, n.packet.id ≠ id) ∧ removeNodeById head id = (head, none) := by
  unfold removeNodeById
  cases hsearch : searchNodeById head id with
  | some temp =>
    have hid : temp.packet.id = id := by simpa using List.find?_some hsearch
    exact .inl ⟨temp, List.mem_of_find?_eq_some hsearch, hid, rfl⟩
  | none =>
    have habsent := List.find?_eq_none.mp hsearch
    exact .inr ⟨fun n hn hid => habsent n hn (decide_eq_true hid), rfl⟩

/-- Where no number occurs twice, a removal by number leaves the nodes with other numbers. -/
theorem removeNodeById_nodes {head : Head} (hnodup : (head.nodes.map Node.id).Nodup) (id : UInt32) :
    (removeNodeById head id).1.nodes = head.nodes.filter (·.packet.id ≠ id) := by
  rcases removeNodeById_cases head id with ⟨temp, hmem, rfl, heq⟩ | ⟨habsent, heq⟩
  · rw [heq]
    exact removeNode_eq_filter hnodup hmem
  · rw [heq]
    exact (List.filter_eq_self.mpr fun n hn => decide_eq_true (habsent n hn)).symm

/-- What an insertion can do: add the node to the sequence, or leave it as it was because the
number is there. -/
theorem insertNodeById_cases (head : Head) (new : Node) :
    (∃ nodes, insertBy Node.id new head.nodes = some nodes ∧
      insertNodeById head new = (⟨nodes, head.length + 1⟩, true)) ∨
    ((∃ x ∈ head.nodes, x.id = new.id) ∧ insertNodeById head new = (head, false)) := by
  cases h : insertBy Node.id new head.nodes with
  | some nodes => exact .inl ⟨nodes, rfl, by simp only [insertNodeById, h]⟩
  | none => exact .inr ⟨mem_of_insertBy_eq_none h, by simp only [insertNodeById, h]⟩

/-- An insertion adds one node, or none when the number is there. -/
theorem insertNodeById_length_le (head : Head) (new : Node) :
    (insertNodeById head new).1.nodes.length ≤ head.nodes.length + 1 := by
  rcases insertNodeById_cases head new with ⟨nodes, hins, heq⟩ | ⟨_, heq⟩
  · rw [heq, (insertBy_perm hins).length_eq, List.length_cons]
  · rw [heq]
    exact Nat.le_succ _

/-- Inserting keeps `length` the number of nodes, also when the node is refused. -/
theorem insertNodeById_counted {head : Head} {new : Node} (h : head.Counted) :
    (insertNodeById head new).1.Counted := by
  rcases insertNodeById_cases head new with ⟨nodes, hins, heq⟩ | ⟨_, heq⟩
  · simp only [heq, Head.Counted, (insertBy_perm hins).length_eq, List.length_cons]
    rw [h]
    omega
  · rw [heq]
    exact h

/-- Inserting keeps the numbers strictly increasing: a number that is there is refused, so none
comes twice. -/
theorem insertNodeById_increasing {head : Head} {new : Node}
    (h : Increasing Node.id head.nodes) : Increasing Node.id (insertNodeById head new).1.nodes := by
  rcases insertNodeById_cases head new with ⟨nodes, hins, heq⟩ | ⟨_, heq⟩
  · rw [heq]
    exact insertBy_increasing h hins
  · rw [heq]
    exact h

/-- Nothing but the new node can come in. -/
theorem mem_of_mem_insertNodeById {head : Head} {new x : Node}
    (h : x ∈ (insertNodeById head new).1.nodes) : x = new ∨ x ∈ head.nodes := by
  rcases insertNodeById_cases head new with ⟨nodes, hins, heq⟩ | ⟨_, heq⟩
  · rw [heq] at h
    exact List.mem_cons.mp ((insertBy_perm hins).mem_iff.mp h)
  · rw [heq] at h
    exact .inr h

/-- What holds of the nodes and of the new one holds of the nodes after an insertion. -/
theorem forall_insertNodeById {P : Node → Prop} {head : Head} {new : Node}
    (h : ∀ x ∈ head.nodes, P x) (hnew : P new) : ∀ x ∈ (insertNodeById head new).1.nodes, P x := by
  intro x hx
  rcases mem_of_mem_insertNodeById hx with rfl | hx
  · exact hnew
  · exact h x hx

/-- No node is pushed out. -/
theorem mem_insertNodeById_of_mem {head : Head} {new x : Node} (h : x ∈ head.nodes) :
    x ∈ (insertNodeById head new).1.nodes := by
  rcases insertNodeById_cases head new with ⟨nodes, hins, heq⟩ | ⟨_, heq⟩
  · rw [heq]
    exact (insertBy_perm hins).mem_iff.mpr (List.mem_cons_of_mem _ h)
  · rw [heq]
    exact h

/-- A number that is absent goes in. -/
theorem insertNodeById_of_absent {head : Head} {new : Node}
    (h : ∀ x ∈ head.nodes, x.id ≠ new.id) :
    (insertNodeById head new).2 = true ∧
      (insertNodeById head new).1.nodes.Perm (new :: head.nodes) := by
  rcases insertNodeById_cases head new with ⟨nodes, hins, heq⟩ | ⟨⟨x, hx, hid⟩, _⟩
  · rw [heq]
    exact ⟨rfl, insertBy_perm hins⟩
  · exact absurd hid (h x hx)

/-- A node of the list has the number. -/
def Head.hasId (head : Head) (id : Nat) : Bool := head.nodes.any (·.id = id)

/-- A number that is absent differs from the numbers of all nodes. -/
theorem Head.hasId_eq_false_iff {head : Head} {id : Nat} :
    head.hasId id = false ↔ ∀ n ∈ head.nodes, n.id ≠ id := by
  simp [Head.hasId]

/-- A number that is present is the number of some node. -/
theorem Head.hasId_iff {head : Head} {id : Nat} :
    head.hasId id = true ↔ ∃ n ∈ head.nodes, n.id = id := by
  simp [Head.hasId]

/-- A number that is present is refused, when the list is in order. -/
theorem insertNodeById_of_present {head : Head} {new : Node}
    (h : Increasing Node.id head.nodes) (hid : head.hasId new.id = true) :
    insertNodeById head new = (head, false) := by
  have hnone := (insertBy_eq_none_iff h).mpr (Head.hasId_iff.mp hid)
  simp only [insertNodeById, hnone]

/-- A number above all others goes to the end. -/
theorem insertNodeById_last {head : Head} {new : Node} (h : ∀ x ∈ head.nodes, x.id < new.id) :
    insertNodeById head new = (⟨head.nodes ++ [new], head.length + 1⟩, true) := by
  simp only [insertNodeById, insertBy_last h]

/-- After an insertion, refused or not, the number is in the list. -/
theorem exists_id_insertNodeById (head : Head) (new : Node) :
    ∃ x ∈ (insertNodeById head new).1.nodes, x.id = new.id := by
  rcases insertNodeById_cases head new with ⟨nodes, hins, heq⟩ | ⟨⟨x, hx, hid⟩, heq⟩
  · rw [heq]
    exact ⟨new, (insertBy_perm hins).mem_iff.mpr List.mem_cons_self, rfl⟩
  · rw [heq]
    exact ⟨x, hx, hid⟩

end GProxy
