import GProxy.InMemory.Contents
import GProxy.Preceiver.Lists

/-!
# The receiving proxy in memory

The main loop of preceiver with its two lists as `listUtils.c` keeps them: what the callbacks and
`receiveFromPsender` get are pointers, and what they do goes through the links of the nodes.
`malloc` returns any address that is not in use. A step through a pointer that is `NULL` or was
freed leads to `fault`; so does a loop over a list that takes more turns than `malloc` was called,
so that none does says that these loops end.

Every run is a run of the main loop on sequences (`Models`), and no run comes to `fault`
(`preceiver_pointer_safe`). It does not say that accesses stay inside the array of a packet: that
`recv` writes no more than the buffer it is given is taken from the system.
-/

namespace GProxy.InMemory.Preceiver

open Pointers (Addr Ptr Mem Lists Represents)
open GProxy.Preceiver (Select Exit maxOps recvAgain ritPorts bodyNode)

structure Globals where
  mem : Mem
  /-- How often `malloc` was called. -/
  mallocs : Nat
  toSend : Ptr
  toAck : Ptr
  lastSentId : UInt32
  finalize : Bool
  timedOut : Bool
  channel : Nat
  toRitPort : UInt16
  arrived : List (List UInt8)
  passed : List (List UInt8)
  sent : List Datagram

/-- `init`; `a` and `b` are what `malloc` returns. -/
def init (m : Mem) (a b : Addr) : Option Globals := do
  let (m, toSend) ← Pointers.allocHead m a
  let (m, toAck) ← Pointers.allocHead m b
  some {
    mem := m
    mallocs := 2
    toSend
    toAck
    lastSentId := 1
    finalize := false
    timedOut := false
    channel := 0
    toRitPort := ritPorts.getD 0 0
    arrived := []
    passed := []
    sent := [] }

def ackPkt (stack : List UInt8) (g : Globals) (current : Ptr) : Option Globals := do
  let id ← g.mem.getId current
  some { g with sent := g.sent ++ [⟨g.toRitPort, ackImage stack id⟩] }

def ackPacket (stack : List UInt8) (g : Globals) (current : Ptr) : Option Globals := do
  let g ← ackPkt stack g current
  let id ← g.mem.getId current
  let g := if id = 0 then { g with finalize := true } else g
  let (m, _) ← Pointers.removeNode g.mem current
  let m ← Pointers.clearNode m current
  some { g with mem := m }

def sendToReceiver (sendCounter : Int) (g : Globals) (current : Ptr) :
    Option (Except String Globals) :=
  if current = none then some (.ok g)
  else do
    let id ← g.mem.getId current
    if id = g.lastSentId then
      let packet ← getPacket g.mem current
      let pktSize ← g.mem.get g.mem.pktSize current
      let payload := packet.body.take (pktSize - headerSize).toNat
      if sendCounter = 0 then some (.ok g)
      else if sendCounter = -1 then
        some (.error "There was an error while sending a packet to the receiver")
      else
        let (m, current) ← Pointers.removeNode g.mem current
        let (m, _) ← Pointers.insertNodeById g.mallocs m g.toAck current
        some (.ok { g with
          mem := m
          passed := g.passed ++ [payload.take sendCounter.toNat]
          lastSentId := g.lastSentId + 1 })
    else some (.ok g)

def switchPort (g : Globals) : Globals :=
  let channel := (g.channel + 1) % 3
  { g with channel, toRitPort := ritPorts.getD channel 0 }

/-- `clearNode(current)` at the end of a branch. -/
def cleared (g : Globals) (m : Mem) (current : Ptr) : Option (Except String Globals) :=
  (Pointers.clearNode m current).map fun m => .ok { g with mem := m }

/-- `insertNodeById(head, current)` at the end of a branch. -/
def inserted (g : Globals) (m : Mem) (head current : Ptr) : Option (Except String Globals) :=
  (Pointers.insertNodeById g.mallocs m head current).map fun r => .ok { g with mem := r.1 }

/-- The branch for a body packet: its bytes are at `current`. -/
def receivedBody (maxPackets : Nat) (g : Globals) (m : Mem) (current : Ptr) (recvCounter : Nat) :
    Option (Except String Globals) := do
  let packet ← getPacket m current
  let m ← m.setPacket current { packet with id := ntohl packet.id }
  let m ← m.setPktSize current recvCounter
  let id ← m.getId current
  if id ≥ g.lastSentId then inserted g m g.toSend current
  else
    let length ← m.get m.length g.toAck
    if length < (maxPackets : Int) then inserted g m g.toAck current else cleared g m current

/-- `receiveFromPsender` once its `recv` loop has ended with an outcome; `a` is what `malloc`
returns. -/
def receiveFromPsender (maxPackets : Nat) (a : Addr) (g : Globals) (recv : Recv) :
    Option (Except String Globals) := do
  let (m, current) ← Pointers.allocNode g.mem a 0 typeB none 0
  let m ← m.setPacket current ⟨0, 0, []⟩
  let g := { g with mallocs := g.mallocs + 1 }
  match recv with
  | .data [] => cleared g m current
  | .data (b :: bs) =>
    let bytes := received (b :: bs)
    let m ← m.setPacket current (Pkt.ofImage bytes)
    let g := { g with arrived := g.arrived ++ [bytes] }
    let packet ← getPacket m current
    if packet.type = typeB then receivedBody maxPackets g m current bytes.length
    else cleared (switchPort g) m current
  | .failed errno =>
    if errno ≠ .EAGAIN ∨ errno ≠ .EWOULDBLOCK then
      (Pointers.clearNode m current).map fun _ => .error "There was an error with recv"
    else cleared g m current

/-! ## The main loop -/

/-- Where the main loop stands. A walk carries the pointer of `forEach` and the count so far. -/
inductive Pc
  | top
  | delivering (iter : Ptr) (scans : Nat)
  | acking (iter : Ptr) (scans : Nat)
  | selecting
  | receiving (counter : Nat)
  | exited (why : Exit)
  | fault
  deriving DecidableEq

structure Config where
  pc : Pc
  globals : Globals

/-- The events of the main loop on sequences, with what `malloc` returns in a read. -/
inductive Event
  | go
  | send (sendCounter : Int)
  | ack (stack : List UInt8)
  | select (outcome : Select)
  | recv (outcomes : List Recv) (a : Addr)
  deriving DecidableEq

/-- The event without the address. -/
def Event.plain : Event → GProxy.Preceiver.Event
  | .go => .go
  | .send sendCounter => .send sendCounter
  | .ack stack => .ack stack
  | .select outcome => .select outcome
  | .recv outcomes _ => .recv outcomes

/-- `malloc` returns an address that is not in use. -/
def Allocates (c : Config) : Event → Prop
  | .recv _ a => c.globals.mem.live a = false
  | _ => True

instance (c : Config) (e : Event) : Decidable (Allocates c e) := by
  cases e <;> (unfold Allocates; infer_instance)

/-- What the loop does with a result. -/
def after (pc : Pc) (g : Globals) : Option (Except String Globals) → Config
  | none => ⟨.fault, g⟩
  | some (.error message) => ⟨.exited (.printError message), g⟩
  | some (.ok g') => ⟨pc, g'⟩

/-- `iter = head->next` and on to the loop. -/
def forEach (pc : Ptr → Pc) (g : Globals) (head : Ptr) : Config :=
  match g.mem.get g.mem.next head with
  | some iter => ⟨pc iter, g⟩
  | none => ⟨.fault, g⟩

/-- `next = iter->next` and the callback. -/
def visit (pc : Ptr → Pc) (g : Globals) (iter : Ptr) (call : Option (Except String Globals)) :
    Config :=
  match g.mem.get g.mem.next iter with
  | some next => after (pc next) g call
  | none => ⟨.fault, g⟩

/-- The test at the top of the loop. -/
def Globals.finished (g : Globals) : Option Bool :=
  if g.finalize then do
    let length ← g.mem.get g.mem.length g.toSend
    if length = 0 then do
      let length ← g.mem.get g.mem.length g.toAck
      some (length = 0)
    else some false
  else some false

def step (maxPackets : Nat) (c : Config) : Event → Option Config
  | .go => match c.pc with
    | .top => match c.globals.finished with
      | none => some ⟨.fault, c.globals⟩
      | some true => some ⟨.exited .terminate, c.globals⟩
      | some false => some (forEach (.delivering · 0) c.globals c.globals.toSend)
    | .delivering iter scans =>
      if scanOver maxPackets c.globals.toSend iter scans then
        some (forEach (.acking · 0) c.globals c.globals.toAck)
      else none
    | .acking iter scans =>
      if scanOver maxPackets c.globals.toAck iter scans then some ⟨.selecting, c.globals⟩ else none
    | .receiving counter => if counter < maxPackets then none else some ⟨.top, c.globals⟩
    | .selecting | .exited _ | .fault => none
  | .send sendCounter => match c.pc with
    | .delivering iter scans =>
      if scanOver maxPackets c.globals.toSend iter scans then none
      else some (visit (.delivering · (scans + 1)) c.globals iter
        (sendToReceiver sendCounter c.globals iter))
    | _ => none
  | .ack stack => match c.pc with
    | .acking iter scans =>
      if scanOver maxPackets c.globals.toAck iter scans then none
      else some (visit (.acking · (scans + 1)) c.globals iter
        ((ackPacket stack c.globals iter).map .ok))
    | _ => none
  | .select outcome => match c.pc with
    | .selecting => match outcome with
      | .failed errno =>
        if errno ≠ .EINTR then
          some ⟨.exited (.printError "There was an error with the select function!"), c.globals⟩
        else some ⟨.top, c.globals⟩
      | .ready ritardatore => if ritardatore then some ⟨.receiving 0, c.globals⟩ else none
      | .timeout => some ⟨.top, { c.globals with timedOut := true }⟩
    | _ => none
  | .recv outcomes a => match c.pc with
    | .receiving counter =>
      if counter < maxPackets then
        match doWhileUpTo recvAgain (maxOps - 1) outcomes with
        | some (recv, []) => some (after (.receiving (counter + 1)) c.globals
            (receiveFromPsender maxPackets a c.globals recv))
        | _ => none
      else none
    | _ => none

/-! ## What the memory holds -/

/-- The scalars and the histories are those of the main loop on sequences. -/
structure Agrees (g : Globals) (d : GProxy.Preceiver.Globals) : Prop where
  lastSentId : g.lastSentId = d.lastSentId
  finalize : g.finalize = d.finalize
  timedOut : g.timedOut = d.timedOut
  channel : g.channel = d.channel
  toRitPort : g.toRitPort = d.toRitPort
  arrived : g.arrived = d.arrived
  passed : g.passed = d.passed
  sent : g.sent = d.sent

/-- The memory holds the two lists, at two heads, and they are those of the sequences apart from
where their nodes stand. There are no more nodes in them than `malloc` was called for. -/
structure Holds (g : Globals) (d : GProxy.Preceiver.Globals) (toSend toAck : Addr)
    (lsend lack : Head) : Prop where
  agrees : Agrees g d
  toSend_eq : g.toSend = some toSend
  toAck_eq : g.toAck = some toAck
  ne : toSend ≠ toAck
  represents : ∃ L, Represents g.mem L ∧ L.heads toSend = some lsend ∧ L.heads toAck = some lack
  toSend_like : lsend.Like d.toSend
  toAck_like : lack.Like d.toAck
  room : lsend.nodes.length + lack.nodes.length < g.mallocs

/-- Both main loops stand at the same place. -/
inductive Stands (toSend toAck : Addr) (lsend lack : Head) : Pc → GProxy.Preceiver.Pc → Prop
  | top : Stands toSend toAck lsend lack .top .top
  | delivering {iter : Ptr} {left : List Node} {scans : Nat} : Walks toSend lsend iter left →
      Stands toSend toAck lsend lack (.delivering iter scans) (.delivering left scans)
  | acking {iter : Ptr} {left : List Node} {scans : Nat} : Walks toAck lack iter left →
      Stands toSend toAck lsend lack (.acking iter scans) (.acking left scans)
  | selecting : Stands toSend toAck lsend lack .selecting .selecting
  | receiving {counter : Nat} :
      Stands toSend toAck lsend lack (.receiving counter) (.receiving counter)
  | exited {why : Exit} : Stands toSend toAck lsend lack (.exited why) (.exited why)

/-- Both loops stand at the same place, with the same lists. -/
def Tracks (c : Config) (d : GProxy.Preceiver.Config) : Prop :=
  ∃ toSend toAck lsend lack, Holds c.globals d.globals toSend toAck lsend lack ∧
    Stands toSend toAck lsend lack c.pc d.pc

/-- The main loop in memory is where the main loop on sequences is, in a state of a run. -/
structure Models (c : Config) (d : GProxy.Preceiver.Config) : Prop where
  inOrder : GProxy.Preceiver.InOrder d.globals
  walks : d.Walks
  tracks : Tracks c d

/-- A call in memory has the result of the call on sequences; `P` is what is said of the lists
afterwards. -/
inductive Matches (toSend toAck : Addr) (P : Head → Head → Prop) :
    Option (Except String Globals) → Except String GProxy.Preceiver.Globals → Prop
  | error {message : String} :
      Matches toSend toAck P (some (.error message)) (.error message)
  | ok {g : Globals} {d : GProxy.Preceiver.Globals} {lsend lack : Head} :
      Holds g d toSend toAck lsend lack → P lsend lack →
      Matches toSend toAck P (some (.ok g)) (.ok d)

section

variable {g : Globals} {d : GProxy.Preceiver.Globals} {toSend toAck : Addr} {lsend lack : Head}
  {x n : Node} {rest : List Node}

/-- Each of the two lists alone is one the memory holds, as the lemmas about the functions of
`listUtils.c` ask for. -/
theorem Holds.listAt (h : Holds g d toSend toAck lsend lack) :
    Pointers.ListAt g.mem toSend lsend ∧ Pointers.ListAt g.mem toAck lack := by
  obtain ⟨L, hR, hsend, hack⟩ := h.represents
  exact ⟨hR.lists hsend, hR.lists hack⟩

/-- `ackPacket` of a node of `toAck` takes it out, frees it and sends its acknowledgement. -/
theorem ackPacket_spec {L : Lists} (hR : Represents g.mem L) (hack : L.heads toAck = some lack)
    (hx : x ∈ lack.nodes) (stack : List UInt8) :
    ∃ m' L', ackPacket stack g (some x.addr) = some { g with
        mem := m'
        sent := g.sent ++ [⟨g.toRitPort, ackImage stack x.packet.id⟩]
        finalize := if x.packet.id = 0 then true else g.finalize } ∧
      Represents m' L' ∧ L'.heads toAck = some (removeNode lack x) ∧
      ∀ h, h ≠ toAck → L'.heads h = L.heads h := by
  have hid := ((hR.lists hack).nodes x hx).getId
  obtain ⟨m₁, hremove, hR₁⟩ := hR.removeNode hack hx
  obtain ⟨m₂, hclear, hR₂⟩ := hR₁.clearNode (Lists.put_loose_self ..)
  refine ⟨m₂, _, ?_, hR₂, Lists.put_heads_self L toAck x.addr _ (some x), ?_⟩
  · by_cases hzero : x.packet.id = 0 <;>
      simp [ackPacket, ackPkt, hid, hzero, hremove, hclear]
  · intro h hh
    exact Lists.put_heads_of_ne hh x.addr (removeNode lack x) (some x)

/-- `ackPacket` in memory does what it does on sequences. -/
theorem ackPacket_matches (h : Holds g d toSend toAck lsend lack)
    (hnodup : (d.toAck.nodes.map Node.id).Nodup) (hx : x :: rest <:+ lack.nodes)
    (hn : n ∈ d.toAck.nodes) (hvalue : x.value = n.value) (stack : List UInt8) :
    Matches toSend toAck (fun _ lack => rest <:+ lack.nodes)
      ((ackPacket stack g (some x.addr)).map .ok)
      (.ok (GProxy.Preceiver.ackPacket stack d n)) := by
  obtain ⟨L, hR, hsend, hack⟩ := h.represents
  have hmem : x ∈ lack.nodes := hx.subset List.mem_cons_self
  have hsame : x.packet.id = n.packet.id := congrArg Pkt.id (value_packet hvalue)
  obtain ⟨m', L', hcall, hR', hack', hother⟩ := ackPacket_spec hR hack hmem stack
  have hsent : g.sent ++ [⟨g.toRitPort, ackImage stack n.packet.id⟩] =
      d.sent ++ [⟨d.toRitPort, ackImage stack n.packet.id⟩] := by
    rw [h.agrees.sent, h.agrees.toRitPort]
  have hholds : Holds { g with
      mem := m'
      sent := g.sent ++ [⟨g.toRitPort, ackImage stack x.packet.id⟩]
      finalize := if x.packet.id = 0 then true else g.finalize }
      (GProxy.Preceiver.ackPacket stack d n) toSend toAck lsend (removeNode lack x) := by
    refine { h with
      agrees := ?_
      represents := ⟨L', hR', (hother toSend h.ne).trans hsend, hack'⟩
      toSend_like := ?_
      toAck_like := ?_
      room := ?_ }
    · rw [hsame]
      unfold GProxy.Preceiver.ackPacket GProxy.Preceiver.ackPkt
      split
      next => exact { h.agrees with finalize := rfl, sent := hsent }
      next => exact { h.agrees with sent := hsent }
    · rw [GProxy.Preceiver.ackPacket_toSend]
      exact h.toSend_like
    · rw [GProxy.Preceiver.ackPacket_toAck]
      exact h.toAck_like.remove hnodup hmem hn hvalue
    · have hlen : (removeNode lack x).nodes.length ≤ lack.nodes.length := List.length_erase_le
      have hroom := h.room
      show lsend.nodes.length + (removeNode lack x).nodes.length < g.mallocs
      omega
  rw [hcall]
  exact .ok hholds ((hR.lists hack).suffix_removeNode hx)

/-- `sendToReceiver` of the node it waits for, when `send` took something: the node goes from
`toSend` to `toAck`. -/
theorem sendToReceiver_spec {L : Lists} (hne : toSend ≠ toAck) (htoAck : g.toAck = some toAck)
    (hR : Represents g.mem L) (hsend : L.heads toSend = some lsend)
    (hack : L.heads toAck = some lack) (hx : x ∈ lsend.nodes) (hid : x.packet.id = g.lastSentId)
    {sendCounter : Int} (hzero : sendCounter ≠ 0) (hone : sendCounter ≠ -1)
    (hroom : lack.nodes.length < g.mallocs) :
    ∃ m' L', sendToReceiver sendCounter g (some x.addr) = some (.ok { g with
        mem := m'
        passed := g.passed ++ [x.payload.take sendCounter.toNat]
        lastSentId := g.lastSentId + 1 }) ∧
      Represents m' L' ∧ L'.heads toSend = some (removeNode lsend x) ∧
      L'.heads toAck = some (insertNodeById lack x).1 := by
  have hat := (hR.lists hsend).nodes x hx
  have hpacket := getPacket_some hat.live hat.packet
  obtain ⟨m₁, hremove, hR₁⟩ := hR.removeNode hsend hx
  have hack₁ : (L.put toSend (removeNode lsend x) x.addr (some x)).heads toAck = some lack :=
    (Lists.put_heads_of_ne hne.symm ..).trans hack
  obtain ⟨m₂, hinsert, hR₂, _⟩ := hR₁.insertNodeById hack₁ (Lists.put_loose_self ..)
  refine ⟨m₂, _, ?_, hR₂, ?_, Lists.put_heads_self ..⟩
  · simp only [sendToReceiver, hat.getId, hpacket, hat.live, Mem.get_some, hat.pktSize,
      reduceCtorEq, ↓reduceIte, Option.bind_eq_bind, Option.bind_some, hid, if_neg hzero,
      if_neg hone, hremove, htoAck, hinsert g.mallocs hroom]
    rfl
  · exact (Lists.put_heads_of_ne hne ..).trans (Lists.put_heads_self ..)

/-- Any other call of `sendToReceiver` does nothing, unless `send` fails. -/
theorem sendToReceiver_keep (hat : Pointers.NodeAt g.mem x) {sendCounter : Int}
    (h : x.packet.id = g.lastSentId → sendCounter = 0) :
    sendToReceiver sendCounter g (some x.addr) = some (.ok g) := by
  have hpacket := getPacket_some hat.live hat.packet
  by_cases hid : x.packet.id = g.lastSentId
  · simp [sendToReceiver, hat.getId, hat.live, hat.pktSize, hpacket, hid, h hid]
  · simp [sendToReceiver, hat.getId, hid]

/-- `sendToReceiver` in memory does what it does on sequences. -/
theorem sendToReceiver_matches (h : Holds g d toSend toAck lsend lack)
    (hnodup : (d.toSend.nodes.map Node.id).Nodup) (hx : x :: rest <:+ lsend.nodes)
    (hn : n ∈ d.toSend.nodes) (hvalue : x.value = n.value) (sendCounter : Int) :
    Matches toSend toAck (fun lsend _ => rest <:+ lsend.nodes)
      (sendToReceiver sendCounter g (some x.addr))
      (GProxy.Preceiver.sendToReceiver sendCounter d n) := by
  obtain ⟨L, hR, hsend, hack⟩ := h.represents
  have hmem : x ∈ lsend.nodes := hx.subset List.mem_cons_self
  have hat := (hR.lists hsend).nodes x hmem
  have hsame : x.packet.id = n.packet.id := congrArg Pkt.id (value_packet hvalue)
  have hkept : Matches toSend toAck (fun lsend _ => rest <:+ lsend.nodes) (some (.ok g)) (.ok d) :=
    .ok h ((List.suffix_cons x rest).trans hx)
  have hlast : x.packet.id = g.lastSentId ↔ n.packet.id = d.lastSentId := by
    rw [hsame, h.agrees.lastSentId]
  by_cases hid : n.packet.id = d.lastSentId
  swap
  · have hkeep : sendToReceiver sendCounter g (some x.addr) = some (.ok g) :=
      sendToReceiver_keep hat fun hid' => absurd (hlast.mp hid') hid
    rw [hkeep, GProxy.Preceiver.sendToReceiver, if_neg hid]
    exact hkept
  rw [GProxy.Preceiver.sendToReceiver, if_pos hid]
  split
  next hzero =>
    rw [sendToReceiver_keep hat fun _ => hzero]
    exact hkept
  next hzero =>
    split
    next hone =>
      have hpacket := getPacket_some hat.live hat.packet
      have hfails : sendToReceiver sendCounter g (some x.addr) =
          some (.error "There was an error while sending a packet to the receiver") := by
        simp [sendToReceiver, hat.getId, hat.live, hat.pktSize, hpacket, hlast.mpr hid, hone]
      rw [hfails]
      exact .error
    next hone =>
      have hroom := h.room
      obtain ⟨m', L', hcall, hR', hsend', hack'⟩ := sendToReceiver_spec h.ne h.toAck_eq hR hsend
        hack hmem (hlast.mpr hid) hzero hone (by omega)
      rw [hcall]
      refine .ok (?_ : Holds _ _ toSend toAck (removeNode lsend x) (insertNodeById lack x).1)
        ((hR.lists hsend).suffix_removeNode hx)
      have hpassed : g.passed ++ [x.payload.take sendCounter.toNat] =
          d.passed ++ [n.payload.take sendCounter.toNat] := by
        rw [h.agrees.passed, value_payload hvalue]
      have hlastSent : g.lastSentId + 1 = d.lastSentId + 1 :=
        congrArg (· + 1) h.agrees.lastSentId
      refine { h with
        agrees := { h.agrees with lastSentId := hlastSent, passed := hpassed }
        represents := ⟨L', hR', hsend', hack'⟩
        toSend_like := h.toSend_like.remove hnodup hmem hn hvalue
        toAck_like := (h.toAck_like.insert hvalue).1
        room := ?_ }
      have hlen := insertNodeById_length_le lack x
      have hlen' : (removeNode lsend x).nodes.length = lsend.nodes.length - 1 :=
        List.length_erase_of_mem hmem
      have hpos := List.length_pos_of_mem hmem
      show (removeNode lsend x).nodes.length + (insertNodeById lack x).1.nodes.length < g.mallocs
      omega

/-! ## Reading -/

/-- The memory holds the lists, and outside them a node. -/
def Apart (m : Mem) (toSend toAck : Addr) (lsend lack : Head) (x : Node) : Prop :=
  ∃ L, Represents m L ∧ L.heads toSend = some lsend ∧ L.heads toAck = some lack ∧
    L.loose x.addr = some x

section

variable {m : Mem} {P : Head → Head → Prop}

/-- A node that is in neither list can be read and written. -/
theorem Apart.nodeAt (h : Apart m toSend toAck lsend lack x) : Pointers.NodeAt m x := by
  obtain ⟨L, hR, _, _, hx⟩ := h
  exact (hR.loose hx).2

/-- The packet of a node that is in neither list can be written, and the lists are as they were. -/
theorem Apart.setPacket (h : Apart m toSend toAck lsend lack x) (packet : Pkt) :
    ∃ m', m.setPacket (some x.addr) packet = some m' ∧
      Apart m' toSend toAck lsend lack { x with packet } := by
  obtain ⟨L, hR, hsend, hack, hx⟩ := h
  obtain ⟨m', L', hcall, hR', hheads, hx'⟩ := setPacket_apart hR hx packet
  exact ⟨m', hcall, L', hR', hheads ▸ hsend, hheads ▸ hack, hx'⟩

/-- The size of a node that is in neither list can be written, and the lists are as they were. -/
theorem Apart.setPktSize (h : Apart m toSend toAck lsend lack x) (pktSize : Int) :
    ∃ m', m.setPktSize (some x.addr) pktSize = some m' ∧
      Apart m' toSend toAck lsend lack { x with pktSize } := by
  obtain ⟨L, hR, hsend, hack, hx⟩ := h
  obtain ⟨m', L', hcall, hR', hheads, hx'⟩ := setPktSize_apart hR hx pktSize
  exact ⟨m', hcall, L', hR', hheads ▸ hsend, hheads ▸ hack, hx'⟩

/-- The node is freed. -/
theorem cleared_matches (h : Holds g d toSend toAck lsend lack) (hP : P lsend lack)
    (hx : Apart m toSend toAck lsend lack x) :
    Matches toSend toAck P (cleared g m (some x.addr)) (.ok d) := by
  obtain ⟨L, hR, hsend, hack, hx⟩ := hx
  obtain ⟨m', hclear, hR'⟩ := hR.clearNode hx
  have hholds : Holds { g with mem := m' } d toSend toAck lsend lack :=
    { h with agrees := { h.agrees with }, represents := ⟨_, hR', hsend, hack⟩ }
  rw [cleared, hclear]
  exact .ok hholds hP

/-- The node goes into `toSend`, or is refused. -/
theorem inserted_toSend_matches (h : Holds g d toSend toAck lsend lack)
    (hx : Apart m toSend toAck lsend lack x) (hvalue : x.value = n.value)
    (hroom : lsend.nodes.length + lack.nodes.length + 1 < g.mallocs) :
    Matches toSend toAck (fun _ _ => True) (inserted g m g.toSend (some x.addr))
      (.ok { d with toSend := (insertNodeById d.toSend n).1 }) := by
  obtain ⟨L, hR, hsend, hack, hx⟩ := hx
  obtain ⟨m', hinsert, hR', _⟩ := hR.insertNodeById hsend hx
  have hlen := insertNodeById_length_le lsend x
  have hholds : Holds { g with mem := m' }
      { d with toSend := (insertNodeById d.toSend n).1 } toSend toAck
      (insertNodeById lsend x).1 lack := by
    refine { h with
      agrees := { h.agrees with }
      represents := ⟨_, hR', Lists.put_heads_self .., ?_⟩
      toSend_like := (h.toSend_like.insert hvalue).1
      room := ?_ }
    · exact (Lists.put_heads_of_ne h.ne.symm ..).trans hack
    · show (insertNodeById lsend x).1.nodes.length + lack.nodes.length < g.mallocs
      omega
  have hcall := hinsert g.mallocs (by omega)
  rw [← h.toSend_eq] at hcall
  rw [inserted, hcall]
  exact .ok hholds trivial

/-- The node goes into `toAck`, or is refused. -/
theorem inserted_toAck_matches (h : Holds g d toSend toAck lsend lack)
    (hx : Apart m toSend toAck lsend lack x) (hvalue : x.value = n.value)
    (hroom : lsend.nodes.length + lack.nodes.length + 1 < g.mallocs) :
    Matches toSend toAck (fun _ _ => True) (inserted g m g.toAck (some x.addr))
      (.ok { d with toAck := (insertNodeById d.toAck n).1 }) := by
  obtain ⟨L, hR, hsend, hack, hx⟩ := hx
  obtain ⟨m', hinsert, hR', _⟩ := hR.insertNodeById hack hx
  have hlen := insertNodeById_length_le lack x
  have hholds : Holds { g with mem := m' }
      { d with toAck := (insertNodeById d.toAck n).1 } toSend toAck
      lsend (insertNodeById lack x).1 := by
    refine { h with
      agrees := { h.agrees with }
      represents := ⟨_, hR', ?_, Lists.put_heads_self ..⟩
      toAck_like := (h.toAck_like.insert hvalue).1
      room := ?_ }
    · exact (Lists.put_heads_of_ne h.ne ..).trans hsend
    · show lsend.nodes.length + (insertNodeById lack x).1.nodes.length < g.mallocs
      omega
  have hcall := hinsert g.mallocs (by omega)
  rw [← h.toAck_eq] at hcall
  rw [inserted, hcall]
  exact .ok hholds trivial

end

/-- `toAck->length` -/
theorem Apart.toAck_length {m : Mem} (h : Apart m toSend toAck lsend lack x) :
    m.get m.length (some toAck) = some lack.length := by
  obtain ⟨L, hR, _, hack, _⟩ := h
  have hat := hR.lists hack
  rw [Mem.get_some hat.wellFormed.live_head, hat.wellFormed.length_eq, List.length_map,
    hat.counted]

/-- The branch for a body packet; `n` is its node on sequences. -/
theorem receivedBody_matches {m : Mem} {bytes : List UInt8}
    (h : Holds g d toSend toAck lsend lack) (hx : Apart m toSend toAck lsend lack x)
    (hpacket : x.packet = Pkt.ofImage bytes) (hvalue : n.value = (bodyNode x bytes).value)
    (hroom : lsend.nodes.length + lack.nodes.length + 1 < g.mallocs) (maxPackets : Nat) :
    Matches toSend toAck (fun _ _ => True) (receivedBody maxPackets g m (some x.addr) bytes.length)
      (if n.packet.id ≥ d.lastSentId then
        .ok { d with toSend := (insertNodeById d.toSend n).1 }
      else if d.toAck.length < (maxPackets : Int) then
        .ok { d with toAck := (insertNodeById d.toAck n).1 }
      else .ok { d with heap := clearNode d.heap n }) := by
  obtain ⟨m₁, hset, hx₁⟩ := hx.setPacket { x.packet with id := ntohl x.packet.id }
  obtain ⟨m₂, hsize, hx₂⟩ := hx₁.setPktSize bytes.length
  have hread := getPacket_some hx.nodeAt.live hx.nodeAt.packet
  have hid : m₂.getId (some x.addr) = some n.packet.id := by
    have hsame : n.packet.id = (bodyNode x bytes).packet.id :=
      congrArg Pkt.id (value_packet hvalue)
    rw [hsame]
    refine hx₂.nodeAt.getId.trans (congrArg some ?_)
    show ntohl x.packet.id = ntohl (Pkt.ofImage bytes).id
    rw [hpacket]
  have hnode : Node.value { x with
      packet := { x.packet with id := ntohl x.packet.id }
      pktSize := bytes.length } = n.value := by
    rw [hvalue, hpacket]
    rfl
  simp only [receivedBody, hread, hset, hsize, hid, Option.bind_eq_bind, Option.bind_some,
    h.agrees.lastSentId]
  split
  next =>
    have hsend := inserted_toSend_matches h hx₂ hnode hroom
    exact hsend
  next =>
    have hlength := hx₂.toAck_length
    rw [← h.toAck_eq] at hlength
    simp only [hlength, Option.bind_some, h.toAck_like.length]
    split
    next =>
      have hack := inserted_toAck_matches h hx₂ hnode hroom
      exact hack
    next =>
      have hfreed : Holds g { d with heap := clearNode d.heap n } toSend toAck lsend lack :=
        { h with agrees := { h.agrees with } }
      have hclear := cleared_matches (P := fun _ _ => True) hfreed trivial hx₂
      exact hclear

/-- `receiveFromPsender`, whatever address `malloc` returns. -/
theorem receiveFromPsender_matches (h : Holds g d toSend toAck lsend lack) {a : Addr}
    (ha : g.mem.live a = false) (maxPackets : Nat) (recv : Recv) :
    Matches toSend toAck (fun _ _ => True) (receiveFromPsender maxPackets a g recv)
      (GProxy.Preceiver.receiveFromPsender maxPackets d recv) := by
  obtain ⟨L, hR, hsend, hack⟩ := h.represents
  obtain ⟨m₁, L₁, halloc, hR₁, hheads₁, hx₁⟩ := allocNode_apart hR ha 0 typeB none 0
  have hapart : Apart m₁ toSend toAck lsend lack ⟨a, ⟨0, typeB, []⟩, 0⟩ :=
    ⟨L₁, hR₁, hheads₁ ▸ hsend, hheads₁ ▸ hack, hx₁⟩
  obtain ⟨m₂, hmemset, hx₂⟩ := hapart.setPacket ⟨0, 0, []⟩
  have hroom : lsend.nodes.length + lack.nodes.length + 1 < g.mallocs + 1 :=
    Nat.succ_lt_succ h.room
  have hkept : ∀ heap, Holds { g with mallocs := g.mallocs + 1 } { d with heap } toSend toAck
      lsend lack := fun heap =>
    { h with agrees := { h.agrees with }, room := Nat.lt_succ_of_lt h.room }
  simp only [receiveFromPsender, GProxy.Preceiver.receiveFromPsender, halloc, hmemset,
    Option.bind_eq_bind, Option.bind_some]
  cases recv with
  | data bytes =>
    cases bytes with
    | nil => exact cleared_matches (hkept _) trivial hx₂
    | cons b bs =>
      obtain ⟨m₃, hrecv, hx₃⟩ := hx₂.setPacket (Pkt.ofImage (received (b :: bs)))
      have hread := getPacket_some hx₃.nodeAt.live hx₃.nodeAt.packet
      have harrived : g.arrived ++ [received (b :: bs)] = d.arrived ++ [received (b :: bs)] := by
        rw [h.agrees.arrived]
      have hbytes : ∀ heap, Holds
          { g with
            mallocs := g.mallocs + 1
            arrived := g.arrived ++ [received (b :: bs)] }
          { d with heap, arrived := d.arrived ++ [received (b :: bs)] } toSend toAck lsend lack :=
        fun heap => { hkept heap with agrees := { (hkept heap).agrees with arrived := harrived } }
      simp only [hrecv, hread, Option.bind_some]
      split
      next htype =>
        exact receivedBody_matches
          (n := bodyNode (allocNode d.heap 0 typeB none 0).1 (received (b :: bs)))
          (hbytes (allocNode d.heap 0 typeB none 0).2) hx₃ rfl rfl hroom maxPackets
      next htype =>
        refine cleared_matches ?_ trivial hx₃
        have hchannel : (g.channel + 1) % 3 = (d.channel + 1) % 3 := by rw [h.agrees.channel]
        have hport : ritPorts.getD ((g.channel + 1) % 3) 0 =
            ritPorts.getD ((d.channel + 1) % 3) 0 := by rw [hchannel]
        exact { hbytes d.heap with
          agrees := { (hbytes d.heap).agrees with channel := hchannel, toRitPort := hport } }
  | failed errno =>
    simp only
    split
    next =>
      obtain ⟨L₂, hR₂, _, _, hx₂⟩ := hx₂
      obtain ⟨m₃, hclear, _⟩ := hR₂.clearNode hx₂
      rw [hclear]
      exact .error
    next => exact cleared_matches (hkept _) trivial hx₂

/-! ## One step -/

/-- What the memory holds, together with places in the main loop that correspond, is all of
`Tracks`. -/
theorem Holds.tracks (h : Holds g d toSend toAck lsend lack) {pc : Pc}
    {pc' : GProxy.Preceiver.Pc} (hstands : Stands toSend toAck lsend lack pc pc') :
    Tracks ⟨pc, g⟩ ⟨pc', d⟩ :=
  ⟨toSend, toAck, lsend, lack, h, hstands⟩

/-- What the loop on sequences does with a result. -/
def afterwards (pc : GProxy.Preceiver.Pc) (d : GProxy.Preceiver.Globals) :
    Except String GProxy.Preceiver.Globals → GProxy.Preceiver.Config
  | .error message => ⟨.exited (.printError message), d⟩
  | .ok d' => ⟨pc, d'⟩

/-- A call that matches the one on sequences leads to states that track each other, whether it
returned or left through `printError`. -/
theorem Matches.tracks {P : Head → Head → Prop} {call : Option (Except String Globals)}
    {result : Except String GProxy.Preceiver.Globals}
    (hcall : Matches toSend toAck P call result) (h : Holds g d toSend toAck lsend lack)
    (pc : Pc) (pc' : GProxy.Preceiver.Pc)
    (hstands : ∀ lsend lack, P lsend lack → Stands toSend toAck lsend lack pc pc') :
    Tracks (after pc g call) (afterwards pc' d result) := by
  cases hcall with
  | error => exact h.tracks .exited
  | ok hholds hP => exact hholds.tracks (hstands _ _ hP)

/-- The test at the top of the loop. -/
theorem Holds.finished (h : Holds g d toSend toAck lsend lack) : g.finished = some d.finished := by
  obtain ⟨hsend, hack⟩ := h.listAt
  have hlsend : g.mem.get g.mem.length (some toSend) = some d.toSend.length := by
    rw [Mem.get_some hsend.wellFormed.live_head, hsend.wellFormed.length_eq, List.length_map,
      ← h.toSend_like.length, hsend.counted]
  have hlack : g.mem.get g.mem.length (some toAck) = some d.toAck.length := by
    rw [Mem.get_some hack.wellFormed.live_head, hack.wellFormed.length_eq, List.length_map,
      ← h.toAck_like.length, hack.counted]
  cases hfinalize : d.finalize <;>
    simp [Globals.finished, GProxy.Preceiver.Globals.finished, h.agrees.finalize, hfinalize,
      h.toSend_eq, hlsend, h.toAck_eq, hlack]
  by_cases hempty : d.toSend.length = 0 <;> simp [hempty]

/-- `forEach(toSend, …)` begins. -/
theorem Holds.forEach_toSend (h : Holds g d toSend toAck lsend lack) :
    Tracks (forEach (.delivering · 0) g g.toSend) ⟨.delivering d.toSend.nodes 0, d⟩ := by
  obtain ⟨iter, hnext, hwalk⟩ := walks_start h.listAt.1 h.toSend_like
  rw [forEach, h.toSend_eq, hnext]
  exact h.tracks (.delivering hwalk)

/-- `forEach(toAck, …)` begins. -/
theorem Holds.forEach_toAck (h : Holds g d toSend toAck lsend lack) :
    Tracks (forEach (.acking · 0) g g.toAck) ⟨.acking d.toAck.nodes 0, d⟩ := by
  obtain ⟨iter, hnext, hwalk⟩ := walks_start h.listAt.2 h.toAck_like
  rw [forEach, h.toAck_eq, hnext]
  exact h.tracks (.acking hwalk)

variable {c : Config} {e : GProxy.Preceiver.Config} {maxPackets : Nat}

/-- The control alone moves. -/
theorem Tracks.go (h : Tracks c e) :
    Option.Rel Tracks (step maxPackets c .go) (e.go maxPackets) := by
  obtain ⟨pc, g⟩ := c
  obtain ⟨pc', d⟩ := e
  obtain ⟨toSend, toAck, lsend, lack, (hholds : Holds g d toSend toAck lsend lack), hstands⟩ := h
  obtain ⟨hsend, hack⟩ := hholds.listAt
  cases hstands with
  | top =>
    simp only [step, GProxy.Preceiver.Config.go, hholds.finished]
    cases d.finished with
    | true => exact .some (hholds.tracks .exited)
    | false => exact .some hholds.forEach_toSend
  | @delivering iter left scans hwalk =>
    simp only [step, GProxy.Preceiver.Config.go, hholds.toSend_eq, hwalk.over hsend]
    split
    next => exact .some hholds.forEach_toAck
    next => exact .none
  | @acking iter left scans hwalk =>
    simp only [step, GProxy.Preceiver.Config.go, hholds.toAck_eq, hwalk.over hack]
    split
    next => exact .some (hholds.tracks .selecting)
    next => exact .none
  | @receiving counter =>
    simp only [step, GProxy.Preceiver.Config.go]
    split
    next => exact .none
    next => exact .some (hholds.tracks .top)
  | selecting => exact .none
  | exited => exact .none

/-- One call of `sendToReceiver`. -/
theorem Tracks.send (h : Tracks c e) (hnodup : (e.globals.toSend.nodes.map Node.id).Nodup)
    (hwalks : e.Walks) (sendCounter : Int) :
    Option.Rel Tracks (step maxPackets c (.send sendCounter))
      (e.send maxPackets sendCounter) := by
  obtain ⟨pc, g⟩ := c
  obtain ⟨pc', d⟩ := e
  obtain ⟨toSend, toAck, lsend, lack, (hholds : Holds g d toSend toAck lsend lack), hstands⟩ := h
  obtain ⟨hsend, _⟩ := hholds.listAt
  cases hstands with
  | @delivering iter left scans hwalk =>
    simp only [step, hholds.toSend_eq, hwalk.over hsend]
    cases left with
    | nil => exact .none
    | cons n left =>
      obtain ⟨x, rest, rfl, hx, hvalue, hrest, hnext⟩ := hwalk.turn hsend
      have hcall := sendToReceiver_matches hholds hnodup hx hwalks.mem_toSend hvalue sendCounter
      have htracks := hcall.tracks hholds
        (.delivering (some ((rest.map Node.addr).headD toSend)) (scans + 1))
        (.delivering left (scans + 1))
        fun lsend _ hsuffix => .delivering ⟨rest, hsuffix, hrest, rfl⟩
      simp only [GProxy.Preceiver.Config.send]
      split
      next => exact .none
      next =>
        rw [visit, hnext]
        cases hresult : GProxy.Preceiver.sendToReceiver sendCounter d n <;>
          rw [hresult] at htracks <;> exact .some htracks
  | top | acking | selecting | receiving | exited => exact .none

/-- One call of `ackPacket`. -/
theorem Tracks.ack (h : Tracks c e) (hnodup : (e.globals.toAck.nodes.map Node.id).Nodup)
    (hwalks : e.Walks) (stack : List UInt8) :
    Option.Rel Tracks (step maxPackets c (.ack stack)) (e.ack maxPackets stack) := by
  obtain ⟨pc, g⟩ := c
  obtain ⟨pc', d⟩ := e
  obtain ⟨toSend, toAck, lsend, lack, (hholds : Holds g d toSend toAck lsend lack), hstands⟩ := h
  obtain ⟨_, hack⟩ := hholds.listAt
  cases hstands with
  | @acking iter left scans hwalk =>
    simp only [step, hholds.toAck_eq, hwalk.over hack]
    cases left with
    | nil => exact .none
    | cons n left =>
      obtain ⟨x, rest, rfl, hx, hvalue, hrest, hnext⟩ := hwalk.turn hack
      have hcall := ackPacket_matches hholds hnodup hx hwalks.mem_toAck hvalue stack
      have htracks := hcall.tracks hholds
        (.acking (some ((rest.map Node.addr).headD toAck)) (scans + 1))
        (.acking left (scans + 1))
        fun _ lack hsuffix => .acking ⟨rest, hsuffix, hrest, rfl⟩
      simp only [GProxy.Preceiver.Config.ack]
      split
      next => exact .none
      next =>
        rw [visit, hnext]
        exact .some htracks
  | top | delivering | selecting | receiving | exited => exact .none

/-- `select` and the branches on its answer. -/
theorem Tracks.select (h : Tracks c e) (outcome : Select) :
    Option.Rel Tracks (step maxPackets c (.select outcome)) (e.select outcome) := by
  obtain ⟨pc, g⟩ := c
  obtain ⟨pc', d⟩ := e
  obtain ⟨toSend, toAck, lsend, lack, (hholds : Holds g d toSend toAck lsend lack), hstands⟩ := h
  cases hstands with
  | selecting =>
    cases outcome with
    | failed errno =>
      simp only [step, GProxy.Preceiver.Config.select]
      split
      next => exact .some (hholds.tracks .exited)
      next => exact .some (hholds.tracks .top)
    | ready ritardatore =>
      cases ritardatore with
      | true => exact .some (hholds.tracks .receiving)
      | false => exact .none
    | timeout =>
      have htimed : Holds { g with timedOut := true } { d with timedOut := true } toSend toAck
          lsend lack := { hholds with agrees := { hholds.agrees with timedOut := rfl } }
      exact .some (htimed.tracks .top)
  | top | delivering | acking | receiving | exited => exact .none

/-- One call of `receiveFromPsender`. -/
theorem Tracks.recv (h : Tracks c e) (outcomes : List Recv) {a : Addr}
    (ha : c.globals.mem.live a = false) :
    Option.Rel Tracks (step maxPackets c (.recv outcomes a)) (e.recv maxPackets outcomes) := by
  obtain ⟨pc, g⟩ := c
  obtain ⟨pc', d⟩ := e
  obtain ⟨toSend, toAck, lsend, lack, (hholds : Holds g d toSend toAck lsend lack), hstands⟩ := h
  cases hstands with
  | @receiving counter =>
    simp only [step, GProxy.Preceiver.Config.recv]
    split
    next => cases hloop : doWhileUpTo recvAgain (maxOps - 1) outcomes with
      | none => exact .none
      | some ended =>
        obtain ⟨recv, rest⟩ := ended
        cases rest with
        | cons => exact .none
        | nil =>
          have hcall := receiveFromPsender_matches hholds ha maxPackets recv
          have htracks := hcall.tracks hholds (.receiving (counter + 1)) (.receiving (counter + 1))
            fun _ _ _ => .receiving
          simp only
          cases hresult : GProxy.Preceiver.receiveFromPsender maxPackets d recv <;>
            rw [hresult] at htracks <;> exact .some htracks
    next => exact .none
  | top | delivering | acking | selecting | exited => exact .none

/-- The two main loops answer alike. -/
theorem Models.step (h : Models c e) {event : Event} (ha : Allocates c event) :
    Option.Rel Models (step maxPackets c event)
      (GProxy.Preceiver.step maxPackets e event.plain) := by
  have hrel : Option.Rel Tracks (Preceiver.step maxPackets c event)
      (GProxy.Preceiver.step maxPackets e event.plain) := by
    cases event with
    | go => exact h.tracks.go
    | send sendCounter =>
      exact h.tracks.send h.inOrder.toSend_increasing.nodup_keys h.walks sendCounter
    | ack stack => exact h.tracks.ack h.inOrder.toAck_increasing.nodup_keys h.walks stack
    | select outcome => exact h.tracks.select outcome
    | recv outcomes a => exact h.tracks.recv outcomes ha
  generalize GProxy.InMemory.Preceiver.step maxPackets c event = c' at hrel ⊢
  generalize hstep : GProxy.Preceiver.step maxPackets e event.plain = e' at hrel ⊢
  cases hrel with
  | none => exact .none
  | some htracks =>
    have st := GProxy.Preceiver.stepped_of_step hstep
    exact .some ⟨h.inOrder.stepped h.walks st, h.walks.stepped st, htracks⟩

/-- `fault` is the place of no configuration on sequences, so a run that models one never comes
there. -/
theorem Models.no_fault (h : Models c e) : c.pc ≠ .fault := by
  obtain ⟨_, _, _, _, _, hstands⟩ := h.tracks
  intro hfault
  rw [hfault] at hstands
  cases hstands

/-- `init` makes two empty lists. -/
theorem init_models {m : Mem} {a b : Addr} (ha : m.live a = false) (hb : m.live b = false)
    (hne : a ≠ b) : ∃ g, init m a b = some g ∧ Models ⟨.top, g⟩ .initial := by
  obtain ⟨m₁, L₁, hsend, hR₁, hheads₁, hlive⟩ := allocHead_apart (represents_nothing m) ha
  obtain ⟨m₂, L₂, hack, hR₂, hheads₂, _⟩ := allocHead_apart hR₁ ((hlive b hne.symm).trans hb)
  have hheadSend : L₂.heads a = some allocHead := by
    rw [hheads₂, Function.update_of_ne hne, hheads₁, Function.update_self]
  have hheadAck : L₂.heads b = some allocHead := by
    rw [hheads₂, Function.update_self]
  have hcall : init m a b = some ⟨m₂, 2, some a, some b, 1, false, false, 0, ritPorts.getD 0 0, [],
      [], []⟩ := by
    simp [init, hsend, hack]
  refine ⟨_, hcall, .initial, trivial, a, b, allocHead, allocHead, ?_, .top⟩
  exact {
    agrees := ⟨rfl, rfl, rfl, rfl, rfl, rfl, rfl, rfl⟩
    toSend_eq := rfl
    toAck_eq := rfl
    ne := hne
    represents := ⟨L₂, hR₂, hheadSend, hheadAck⟩
    toSend_like := ⟨rfl, rfl⟩
    toAck_like := ⟨rfl, rfl⟩
    room := Nat.zero_lt_two }

/-- In every run in memory, whatever addresses `malloc` returns, no step goes through a pointer
that is `NULL` or was freed, and every loop over a list ends. The run is one of the main loop on
sequences: the same datagrams were read and sent, the lists have the same contents, and what can
happen next in the one can happen in the other. -/
theorem preceiver_pointer_safe {m : Mem} {a b : Addr} (ha : m.live a = false)
    (hb : m.live b = false) (hne : a ≠ b) : ∃ g, init m a b = some g ∧
      ∀ c, Machine.Run (Preceiver.step maxPackets) Allocates ⟨.top, g⟩ c → c.pc ≠ .fault ∧
        ∃ d, Machine.Run (GProxy.Preceiver.step maxPackets) Machine.Free .initial d ∧ Models c d ∧
          ∀ event, Allocates c event → ((Preceiver.step maxPackets c event).isSome ↔
            (GProxy.Preceiver.step maxPackets d event.plain).isSome) := by
  obtain ⟨g, hinit, hmodels⟩ := init_models ha hb hne
  refine ⟨g, hinit, ?_⟩
  intro c run
  obtain ⟨d, run', hd⟩ :
      ∃ d, Machine.Run (GProxy.Preceiver.step maxPackets) Machine.Free .initial d ∧ Models c d :=
    run.lockstep (fun _ _ _ h => h.step) (fun _ _ _ _ _ => trivial) hmodels
  refine ⟨hd.no_fault, d, run', hd, ?_⟩
  intro event hevent
  have hrel : Option.Rel Models (Preceiver.step maxPackets c event)
      (GProxy.Preceiver.step maxPackets d event.plain) := hd.step hevent
  generalize Preceiver.step maxPackets c event = c' at hrel ⊢
  generalize GProxy.Preceiver.step maxPackets d event.plain = d' at hrel ⊢
  cases hrel <;> rfl

end

/-- Packet 1 is read twice, the second time into a node that no list takes and nothing frees.
What the first node had is in use again for the third, behind the number waited for. -/
def readThrice : List Event :=
  [.go, .go, .go, .select (.ready true), .recv [.data (dataDatagram 1 [7])] 2,
    .recv [.data (dataDatagram 1 [7])] 3, .go, .go, .send 1, .go, .ack [], .go,
    .select (.ready true), .recv [.data (dataDatagram 1 [7])] 2]

/-- `init` has a result in the memory where nothing is allocated. -/
theorem started_possible : (init Pointers.Mem.initial 0 1).isSome := by decide

/-- The run can be made, with addresses that were not in use. -/
theorem readThrice_possible : (Machine.exec (step 2) Allocates
    ⟨.top, (init Pointers.Mem.initial 0 1).get started_possible⟩ readThrice).isSome := by decide

/-- A run that reads three datagrams and sends one acknowledgement. -/
theorem preceiver_pointer_safe_readThrice : ∃ g c, init Pointers.Mem.initial 0 1 = some g ∧
    Machine.Run (step 2) Allocates ⟨.top, g⟩ c ∧ c.globals.arrived.length = 3 ∧
    c.globals.sent.length = 1 ∧ c.pc ≠ .fault ∧
    ∃ d, Machine.Run (GProxy.Preceiver.step 2) Machine.Free .initial d ∧ Models c d := by
  obtain ⟨g, hinit, hsafe⟩ := preceiver_pointer_safe (m := Pointers.Mem.initial) (a := 0)
    (b := 1) rfl rfl Nat.zero_ne_one
  obtain rfl := Option.some.inj (hinit.symm.trans (Option.some_get started_possible).symm)
  have run := Machine.run_exec readThrice_possible
  obtain ⟨hpc, d, run', hd, _⟩ := hsafe _ run
  exact ⟨_, _, hinit, run, by decide, by decide, hpc, d, run', hd⟩

end GProxy.InMemory.Preceiver
