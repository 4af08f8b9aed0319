import GProxy.InMemory.Contents
import GProxy.Psender.Program

/-!
# The sending proxy in memory

The main loop of psender with `toSend` as `listUtils.c` keeps it, in the manner of the receiving
proxy. `sendPacket` converts the number in the packet of the node itself, hands the packet to
`sendto` and converts it back; no other function may find it converted.

Every run is a run of the main loop on sequences (`Tracks`), and no run comes to `fault`
(`psender_pointer_safe`). The numbers in the list may repeat once `currentId` has wrapped: an
acknowledgement takes out the first node with its number in both.

A copy that leaves `recvBuffer` or `endingBody` is no fault here (`GProxy.Psender.Copies` is about
these).
-/

namespace GProxy.InMemory.Psender

open Pointers (Addr Ptr Mem Lists Represents)
open GProxy.Psender (Select Exit ritPorts readAgain sendAgain selectable)

structure Globals where
  mem : Mem
  /-- How often `malloc` was called. -/
  mallocs : Nat
  toSend : Ptr
  currentId : UInt32
  currentAck : List UInt8
  finalize : Bool
  endingRead : Bool
  channel : Nat
  toRitPort : UInt16
  created : List (UInt32 × List UInt8)
  sent : List Datagram

/-- `init`; `a` is what `malloc` returns. -/
def init (m : Mem) (a : Addr) : Option Globals := do
  let (m, toSend) ← Pointers.allocHead m a
  some {
    mem := m
    mallocs := 1
    toSend
    currentId := 1
    currentAck := []
    finalize := false
    endingRead := false
    channel := 0
    toRitPort := ritPorts.getD 0 0
    created := []
    sent := [] }

/-- `receiveFromSender` once its `recv` loop has ended with an outcome; `a` is what `malloc`
returns, `past` what follows the bytes copied in memory. -/
def receiveFromSender (past : List UInt8) (a : Addr) (g : Globals) (recv : Recv) :
    Option (Except String Globals) :=
  match recv with
  | .data [] => do
    let (m, endingNode) ← Pointers.allocNode g.mem a 0 typeB (some (endingBody ++ past))
      (endingBody.length - 1 + headerSize + 1)
    let m ← Pointers.appendNode m g.toSend endingNode
    some (.ok { g with mem := m, mallocs := g.mallocs + 1, endingRead := true })
  | .data (b :: bs) => do
    let (m, current) ← Pointers.allocNode g.mem a g.currentId typeB (some (b :: bs ++ past))
      ((b :: bs).length + headerSize)
    let m ← Pointers.appendNode m g.toSend current
    some (.ok { g with
      mem := m
      mallocs := g.mallocs + 1
      currentId := g.currentId + 1
      created := g.created ++ [(g.currentId, b :: bs)] })
  | .failed errno =>
    if errno ≠ .EINTR then some (.error "There was an error while reading data from the sender")
    else some (.ok g)

def switchPort (g : Globals) : Globals :=
  let channel := (g.channel + 1) % 3
  { g with channel, toRitPort := ritPorts.getD channel 0 }

/-- The branch of `checkRitardatore` for an acknowledgement. -/
def acknowledge (g : Globals) : Option Globals := do
  let (m, current) ←
    Pointers.removeNodeById g.mallocs g.mem g.toSend (ackedId g.currentAck)
  let m ← Pointers.clearNode m current
  some { g with mem := m }

/-- `checkRitardatore` after its `recv`. -/
def checkRitardatore (g : Globals) (recv : Recv) : Option (Except String Globals) :=
  match recv with
  | .data [] => some (.ok g)
  | .data (b :: bs) =>
    let g := { g with currentAck := overlay (b :: bs) g.currentAck }
    if g.currentAck.getD 4 0 = typeB then (acknowledge g).map .ok else some (.ok (switchPort g))
  | .failed errno =>
    if errno ≠ .EAGAIN ∧ errno ≠ .EWOULDBLOCK then
      some (.error "There was an error while receiving packets from the ritardatore\n")
    else some (.ok g)

/-- `sendPacket` once its `sendto` loop has ended with an outcome. -/
def sendPacket (g : Globals) (node : Ptr) (sendto : SendTo) : Option (Except String Globals) := do
  let pkt ← getPacket g.mem node
  let m ← g.mem.setPacket node { pkt with id := htonl pkt.id }
  let pkt ← getPacket m node
  let pktSize ← m.get m.pktSize node
  match sendto with
  | .failed _ => some (.error "There was an error with sendto()")
  | .sent =>
    let m ← m.setPacket node { pkt with id := ntohl pkt.id }
    some (.ok { g with
      mem := m
      sent := g.sent ++ [⟨g.toRitPort, pkt.image.take pktSize.toNat⟩]
      finalize := g.finalize || pkt.id = 0 })

/-! ## The main loop -/

/-- Where the main loop stands. A walk carries the pointer of `forEach` and the count so far. -/
inductive Pc
  | top
  | sending (iter : Ptr) (scans : Nat)
  | selecting
  | reading (ritardatore : Bool)
  | checking (counter : Nat)
  | testing
  | exited (why : Exit)
  | fault
  deriving DecidableEq

structure Config where
  pc : Pc
  globals : Globals

/-- The events of the main loop on sequences, with what `malloc` returns in a read. -/
inductive Event
  | go
  | send (outcomes : List SendTo)
  | select (outcome : Select)
  | read (outcomes : List Recv) (past : List UInt8) (a : Addr)
  | check (outcome : Recv)
  deriving DecidableEq

/-- The event without the address. -/
def Event.plain : Event → GProxy.Psender.Event
  | .go => .go
  | .send outcomes => .send outcomes
  | .select outcome => .select outcome
  | .read outcomes past _ => .read outcomes past
  | .check outcome => .check outcome

/-- `malloc` returns an address that is not in use. -/
def Allocates (c : Config) : Event → Prop
  | .read _ _ a => c.globals.mem.live a = false
  | _ => True

instance (c : Config) (e : Event) : Decidable (Allocates c e) := by
  cases e <;> (unfold Allocates; infer_instance)

/-- What the loop does with a result. -/
def after (pc : Pc) (g : Globals) : Option (Except String Globals) → Config
  | none => ⟨.fault, g⟩
  | some (.error message) => ⟨.exited (.printError message), g⟩
  | some (.ok g') => ⟨pc, g'⟩

/-- `iter = head->next` and on to the loop. -/
def forEach (pc : Ptr → Pc) (g : Globals) (head : Ptr) : Config :=
  match g.mem.get g.mem.next head with
  | some iter => ⟨pc iter, g⟩
  | none => ⟨.fault, g⟩

/-- `next = iter->next` and the callback. -/
def visit (pc : Ptr → Pc) (g : Globals) (iter : Ptr) (call : Option (Except String Globals)) :
    Config :=
  match g.mem.get g.mem.next iter with
  | some next => after (pc next) g call
  | none => ⟨.fault, g⟩

/-- The condition of the reading loop. -/
def Globals.reads (maxPackets : Nat) (g : Globals) : Option Bool := do
  let length ← g.mem.get g.mem.length g.toSend
  some (length < (maxPackets : Int) && !g.endingRead)

/-- The test behind the loops. -/
def Globals.allSent (g : Globals) : Option Bool := do
  let length ← g.mem.get g.mem.length g.toSend
  some (length = 0 && g.finalize)

/-- Where the loop goes behind the branch on the sender's socket. -/
def checkingPc (ritardatore : Bool) : Pc := if ritardatore then .checking 0 else .testing

def step (maxPackets : Nat) (c : Config) : Event → Option Config
  | .go => match c.pc with
    | .top => some (forEach (.sending · 0) c.globals c.globals.toSend)
    | .sending iter scans =>
      if scanOver maxPackets c.globals.toSend iter scans then some ⟨.selecting, c.globals⟩
      else none
    | .reading ritardatore => match c.globals.reads maxPackets with
      | none => some ⟨.fault, c.globals⟩
      | some true => none
      | some false => some ⟨checkingPc ritardatore, c.globals⟩
    | .checking counter => if counter < maxPackets then none else some ⟨.testing, c.globals⟩
    | .testing => match c.globals.allSent with
      | none => some ⟨.fault, c.globals⟩
      | some true => some ⟨.exited .allSent, c.globals⟩
      | some false => some ⟨.top, c.globals⟩
    | .selecting | .exited _ | .fault => none
  | .send outcomes => match c.pc with
    | .sending iter scans =>
      if scanOver maxPackets c.globals.toSend iter scans then none
      else match doWhile sendAgain outcomes with
        | some (sendto, []) => some (visit (.sending · (scans + 1)) c.globals iter
            (sendPacket c.globals iter sendto))
        | _ => none
    | _ => none
  | .select outcome => match c.pc with
    | .selecting => match outcome with
      | .failed _ =>
        some ⟨.exited (.printError "There was an error with the select function!"), c.globals⟩
      | .ready connectedSender ritardatore =>
        if selectable c.globals.endingRead connectedSender ritardatore then
          some ⟨if connectedSender then .reading ritardatore else checkingPc ritardatore, c.globals⟩
        else none
      | .timeout => some ⟨.exited .timedOut, c.globals⟩
    | _ => none
  | .read outcomes past a => match c.pc with
    | .reading ritardatore => match c.globals.reads maxPackets with
      | none => some ⟨.fault, c.globals⟩
      | some false => none
      | some true => match doWhile readAgain outcomes with
        | some (recv, []) => some (after (.reading ritardatore) c.globals
            (receiveFromSender past a c.globals recv))
        | _ => none
    | _ => none
  | .check outcome => match c.pc with
    | .checking counter =>
      if counter < maxPackets then
        some (after (.checking (counter + 1)) c.globals (checkRitardatore c.globals outcome))
      else none
    | _ => none

/-! ## What the memory holds -/

/-- The scalars and the histories are those of the main loop on sequences. -/
structure Agrees (g : Globals) (d : GProxy.Psender.Globals) : Prop where
  currentId : g.currentId = d.currentId
  currentAck : g.currentAck = d.currentAck
  finalize : g.finalize = d.finalize
  endingRead : g.endingRead = d.endingRead
  channel : g.channel = d.channel
  toRitPort : g.toRitPort = d.toRitPort
  created : g.created = d.created
  sent : g.sent = d.sent

/-- The memory holds the list, and it is the sequence apart from where its nodes stand. There are
no more nodes in it than `malloc` was called for. -/
structure Holds (g : Globals) (d : GProxy.Psender.Globals) (toSend : Addr) (l : Head) :
    Prop where
  agrees : Agrees g d
  toSend_eq : g.toSend = some toSend
  represents : ∃ L, Represents g.mem L ∧ L.heads toSend = some l
  like : l.Like d.toSend
  room : l.nodes.length < g.mallocs

/-- Both main loops stand at the same place. -/
inductive Stands (toSend : Addr) (l : Head) : Pc → GProxy.Psender.Pc → Prop
  | top : Stands toSend l .top .top
  | sending {iter : Ptr} {left : List Node} {scans : Nat} : Walks toSend l iter left →
      Stands toSend l (.sending iter scans) (.sending left scans)
  | selecting : Stands toSend l .selecting .selecting
  | reading {ritardatore : Bool} : Stands toSend l (.reading ritardatore) (.reading ritardatore)
  | checking {counter : Nat} : Stands toSend l (.checking counter) (.checking counter)
  | testing : Stands toSend l .testing .testing
  | exited {why : Exit} : Stands toSend l (.exited why) (.exited why)

/-- Both loops stand at the same place, with the same list. -/
def Tracks (c : Config) (d : GProxy.Psender.Config) : Prop :=
  ∃ toSend l, Holds c.globals d.globals toSend l ∧ Stands toSend l c.pc d.pc

/-- A call in memory has the result of the call on sequences; `P` is what is said of the list
afterwards. -/
inductive Matches (toSend : Addr) (P : Head → Prop) :
    Option (Except String Globals) → Except String GProxy.Psender.Globals → Prop
  | error {message : String} : Matches toSend P (some (.error message)) (.error message)
  | ok {g : Globals} {d : GProxy.Psender.Globals} {l : Head} :
      Holds g d toSend l → P l → Matches toSend P (some (.ok g)) (.ok d)

section

variable {g : Globals} {d : GProxy.Psender.Globals} {toSend : Addr} {l : Head} {x n : Node}
  {rest : List Node} {P : Head → Prop}

/-- The list alone is one the memory holds, as the lemmas about the functions of `listUtils.c` ask
for. -/
theorem Holds.listAt (h : Holds g d toSend l) : Pointers.ListAt g.mem toSend l := by
  obtain ⟨L, hR, hl⟩ := h.represents
  exact hR.lists hl

/-- `toSend->length` -/
theorem Holds.length_eq (h : Holds g d toSend l) :
    g.mem.get g.mem.length g.toSend = some d.toSend.length := by
  have hat := h.listAt
  rw [h.toSend_eq, Mem.get_some hat.wellFormed.live_head, hat.wellFormed.length_eq,
    List.length_map, ← h.like.length, hat.counted]

/-! ## The functions -/

/-- A node new in memory is appended. -/
theorem appended_matches {L : Lists} {m : Mem} {a : Addr} (h : Holds g d toSend l)
    (hR : Represents m L) (hl : L.heads toSend = some l) (hx : L.loose a = some x)
    (g' : Globals) (d' : GProxy.Psender.Globals) (hagrees : Agrees g' d')
    (hvalue : x.value = n.value) (htoSend : g'.toSend = g.toSend)
    (hmallocs : g'.mallocs = g.mallocs + 1) (hd : d'.toSend = appendNode d.toSend n) :
    Matches toSend (fun _ => True)
      ((Pointers.appendNode m g.toSend (some a)).bind fun m => some (.ok { g' with mem := m }))
      (.ok d') := by
  obtain ⟨m', hcall, hR'⟩ := appendNode_apart hR hl hx
  rw [h.toSend_eq, hcall]
  have hholds : Holds { g' with mem := m' } d' toSend (appendNode l x) := {
    agrees := { hagrees with }
    toSend_eq := htoSend.trans h.toSend_eq
    represents := ⟨_, hR', Lists.put_heads_self ..⟩
    like := hd ▸ h.like.append hvalue
    room := by
      have hroom := h.room
      simp only [appendNode, List.length_append, List.length_singleton, hmallocs]
      omega }
  exact .ok hholds trivial

/-- `receiveFromSender`, whatever address `malloc` returns. -/
theorem receiveFromSender_matches (h : Holds g d toSend l) {a : Addr}
    (ha : g.mem.live a = false) (past : List UInt8) (recv : Recv) :
    Matches toSend (fun _ => True) (receiveFromSender past a g recv)
      (GProxy.Psender.receiveFromSender past d recv) := by
  obtain ⟨L, hR, hl⟩ := h.represents
  cases recv with
  | data bytes =>
    cases bytes with
    | nil =>
      obtain ⟨m₁, L₁, halloc, hR₁, hheads, hx⟩ := allocNode_apart hR ha 0 typeB
        (some (endingBody ++ past)) (endingBody.length - 1 + headerSize + 1)
      have hended := appended_matches (n := (GProxy.Psender.endingNode d.heap past).1)
        h hR₁ (hheads ▸ hl) hx { g with mallocs := g.mallocs + 1, endingRead := true }
        { d with
          toSend := appendNode d.toSend (GProxy.Psender.endingNode d.heap past).1
          heap := (GProxy.Psender.endingNode d.heap past).2
          endingRead := true }
        { h.agrees with endingRead := rfl } rfl rfl rfl rfl
      simp only [receiveFromSender, halloc, Option.bind_eq_bind, Option.bind_some]
      exact hended
    | cons b bs =>
      obtain ⟨m₁, L₁, halloc, hR₁, hheads, hx⟩ := allocNode_apart hR ha g.currentId typeB
        (some (b :: bs ++ past)) ((b :: bs).length + headerSize)
      have hid := h.agrees.currentId
      have hread := appended_matches (n := (GProxy.Psender.bodyNode d (b :: bs) past).1)
        h hR₁ (hheads ▸ hl) hx
        { g with
          mallocs := g.mallocs + 1
          currentId := g.currentId + 1
          created := g.created ++ [(g.currentId, b :: bs)] }
        { d with
          toSend := appendNode d.toSend (GProxy.Psender.bodyNode d (b :: bs) past).1
          heap := (GProxy.Psender.bodyNode d (b :: bs) past).2
          currentId := d.currentId + 1
          created := d.created ++ [(d.currentId, b :: bs)] }
        { h.agrees with
          currentId := by rw [hid]
          created := by rw [hid, h.agrees.created] }
        (by rw [hid]; rfl) rfl rfl rfl
      simp only [receiveFromSender, halloc, Option.bind_eq_bind, Option.bind_some]
      exact hread
  | failed errno =>
    simp only [receiveFromSender, GProxy.Psender.receiveFromSender]
    split
    next => exact .error
    next => exact .ok h trivial

/-- An acknowledgement takes the same node out of both lists, or none out of either. -/
theorem acknowledge_matches (h : Holds g d toSend l) :
    Matches toSend (fun _ => True) ((acknowledge g).map .ok)
      (.ok (GProxy.Psender.acknowledge d)) := by
  obtain ⟨L, hR, hl⟩ := h.represents
  have hsearch := h.like.search (ackedId d.currentAck)
  have hacked : ackedId g.currentAck = ackedId d.currentAck := congrArg ackedId h.agrees.currentAck
  rw [acknowledge, GProxy.Psender.acknowledge, GProxy.removeNodeById]
  cases hfound : searchNodeById d.toSend (ackedId d.currentAck) with
  | none =>
    rw [hfound, Option.map_none, Option.map_eq_none_iff] at hsearch
    have habsent := removeNodeById_absent hR hl h.room hsearch
    rw [← h.toSend_eq, ← hacked] at habsent
    rw [habsent]
    exact .ok h trivial
  | some n =>
    rw [hfound, Option.map_some, Option.map_eq_some_iff] at hsearch
    obtain ⟨x, hx, hvalue⟩ := hsearch
    obtain ⟨m₁, hremove, hR₁⟩ := removeNodeById_found hR hl h.room hx
    obtain ⟨m₂, hclear, hR₂⟩ := hR₁.clearNode (Lists.put_loose_self ..)
    have hholds : Holds { g with mem := m₂ }
        { d with toSend := removeNode d.toSend n, heap := clearNode d.heap n } toSend
        (removeNode l x) := {
      agrees := { h.agrees with }
      toSend_eq := h.toSend_eq
      represents := ⟨_, hR₂, Lists.put_heads_self L toSend x.addr _ (some x)⟩
      like := h.like.removeById hx hfound
      room := lt_of_le_of_lt List.length_erase_le h.room }
    rw [← h.toSend_eq, ← hacked] at hremove
    simp only [hremove, hclear, Option.bind_eq_bind, Option.bind_some]
    exact .ok hholds trivial

/-- `checkRitardatore` -/
theorem checkRitardatore_matches (h : Holds g d toSend l) (recv : Recv) :
    Matches toSend (fun _ => True) (checkRitardatore g recv)
      (GProxy.Psender.checkRitardatore d recv) := by
  cases recv with
  | data bytes =>
    cases bytes with
    | nil => exact .ok h trivial
    | cons b bs =>
      have hread : Holds { g with currentAck := overlay (b :: bs) g.currentAck }
          { d with currentAck := overlay (b :: bs) d.currentAck } toSend l :=
        { h with agrees := { h.agrees with currentAck := by rw [h.agrees.currentAck] } }
      have htype := congrArg (fun ack => (overlay (b :: bs) ack).getD 4 0) h.agrees.currentAck
      simp only [checkRitardatore, GProxy.Psender.checkRitardatore, htype]
      split
      next => exact acknowledge_matches hread
      next =>
        have hchannel : (g.channel + 1) % 3 = (d.channel + 1) % 3 := by rw [h.agrees.channel]
        have hport : ritPorts.getD ((g.channel + 1) % 3) 0 =
            ritPorts.getD ((d.channel + 1) % 3) 0 := by rw [hchannel]
        have hswitched : Holds (switchPort { g with currentAck := overlay (b :: bs) g.currentAck })
            (GProxy.Psender.switchPort { d with currentAck := overlay (b :: bs) d.currentAck })
            toSend l := { hread with
          agrees := { hread.agrees with channel := hchannel, toRitPort := hport } }
        exact .ok hswitched trivial
  | failed errno =>
    simp only [checkRitardatore, GProxy.Psender.checkRitardatore]
    split
    next => exact .error
    next => exact .ok h trivial

/-- `sendPacket` of a node of the list, which leaves the memory as it was. -/
theorem sendPacket_matches (h : Holds g d toSend l) (hx : x ∈ l.nodes)
    (hvalue : x.value = n.value) (hP : P l) (sendto : SendTo) :
    Matches toSend P (sendPacket g (some x.addr) sendto)
      (GProxy.Psender.sendPacket d n sendto) := by
  have hat := h.listAt.nodes x hx
  obtain ⟨m', hset, hback, hsize, hlive, hread⟩ :=
    setPacket_restored hat.live hat.packet { x.packet with id := htonl x.packet.id }
  have hpacket := getPacket_some hat.live hat.packet
  simp only [sendPacket, GProxy.Psender.sendPacket, hpacket, hset, hread, Mem.get_some hlive,
    Option.bind_eq_bind, Option.bind_some, ntohl_htonl, hback]
  cases sendto with
  | failed errno => exact .error
  | sent =>
    have hid : x.packet.id = n.packet.id := congrArg Pkt.id (value_packet hvalue)
    have hwire : (Pkt.image { x.packet with id := htonl x.packet.id }).take
        (m'.pktSize x.addr).toNat = n.wire := by
      rw [hsize, hat.pktSize, Node.wire, value_packet hvalue, value_pktSize hvalue]
    have hholds : Holds { g with
        sent := g.sent ++ [⟨g.toRitPort, (Pkt.image { x.packet with id := htonl x.packet.id }).take
          (m'.pktSize x.addr).toNat⟩]
        finalize := g.finalize || htonl x.packet.id = 0 }
        { d with
          sent := d.sent ++ [⟨d.toRitPort, n.wire⟩]
          finalize := d.finalize || htonl n.packet.id = 0 } toSend l := { h with
      agrees := { h.agrees with
        sent := by rw [h.agrees.sent, h.agrees.toRitPort, hwire]
        finalize := by rw [h.agrees.finalize, hid] } }
    exact .ok hholds hP

/-! ## One step -/

/-- What the memory holds, together with places in the main loop that correspond, is all of
`Tracks`. -/
theorem Holds.tracks (h : Holds g d toSend l) {pc : Pc} {pc' : GProxy.Psender.Pc}
    (hstands : Stands toSend l pc pc') : Tracks ⟨pc, g⟩ ⟨pc', d⟩ :=
  ⟨toSend, l, h, hstands⟩

/-- What the loop on sequences does with a result. -/
def afterwards (pc : GProxy.Psender.Pc) (d : GProxy.Psender.Globals) :
    Except String GProxy.Psender.Globals → GProxy.Psender.Config
  | .error message => ⟨.exited (.printError message), d⟩
  | .ok d' => ⟨pc, d'⟩

/-- A call that matches the one on sequences leads to states that track each other, whether it
returned or left through `printError`. -/
theorem Matches.tracks {call : Option (Except String Globals)}
    {result : Except String GProxy.Psender.Globals} (hcall : Matches toSend P call result)
    (h : Holds g d toSend l) (pc : Pc) (pc' : GProxy.Psender.Pc)
    (hstands : ∀ l, P l → Stands toSend l pc pc') :
    Tracks (after pc g call) (afterwards pc' d result) := by
  cases hcall with
  | error => exact h.tracks .exited
  | ok hholds hP => exact hholds.tracks (hstands _ hP)

/-- `forEach(toSend, …)` begins. -/
theorem Holds.forEach_toSend (h : Holds g d toSend l) :
    Tracks (forEach (.sending · 0) g g.toSend) ⟨.sending d.toSend.nodes 0, d⟩ := by
  obtain ⟨iter, hnext, hwalk⟩ := walks_start h.listAt h.like
  rw [forEach, h.toSend_eq, hnext]
  exact h.tracks (.sending hwalk)

/-- Whether psender would read from the sender is the same in memory: the test looks at `length`
through the pointer to the list. -/
theorem Holds.reads (h : Holds g d toSend l) (maxPackets : Nat) :
    g.reads maxPackets = some (d.reads maxPackets) := by
  rw [Globals.reads, h.length_eq, h.agrees.endingRead]
  rfl

/-- Whether the loop ends is the same in memory, for the same reason. -/
theorem Holds.allSent (h : Holds g d toSend l) : g.allSent = some d.allSent := by
  rw [Globals.allSent, h.length_eq, h.agrees.finalize]
  rfl

/-- After the sender was read the loop goes on to the emulator, or to its top, in both. -/
theorem Holds.checking (h : Holds g d toSend l) (ritardatore : Bool) :
    Tracks ⟨checkingPc ritardatore, g⟩ ⟨GProxy.Psender.checkingPc ritardatore, d⟩ := by
  cases ritardatore with
  | true => exact h.tracks .checking
  | false => exact h.tracks .testing

variable {c : Config} {e : GProxy.Psender.Config} {maxPackets : Nat}

/-- The control alone moves. -/
theorem Tracks.go (h : Tracks c e) :
    Option.Rel Tracks (step maxPackets c .go) (e.go maxPackets) := by
  obtain ⟨pc, g⟩ := c
  obtain ⟨pc', d⟩ := e
  obtain ⟨toSend, l, (hholds : Holds g d toSend l), hstands⟩ := h
  cases hstands with
  | top => exact .some hholds.forEach_toSend
  | @sending iter left scans hwalk =>
    simp only [step, GProxy.Psender.Config.go, hholds.toSend_eq, hwalk.over hholds.listAt]
    split
    next => exact .some (hholds.tracks .selecting)
    next => exact .none
  | @reading ritardatore =>
    simp only [step, GProxy.Psender.Config.go, hholds.reads]
    cases d.reads maxPackets with
    | true => exact .none
    | false => exact .some (hholds.checking ritardatore)
  | @checking counter =>
    simp only [step, GProxy.Psender.Config.go]
    split
    next => exact .none
    next => exact .some (hholds.tracks .testing)
  | testing =>
    simp only [step, GProxy.Psender.Config.go, hholds.allSent]
    cases d.allSent with
    | true => exact .some (hholds.tracks .exited)
    | false => exact .some (hholds.tracks .top)
  | selecting => exact .none
  | exited => exact .none

/-- One call of `sendPacket`. -/
theorem Tracks.send (h : Tracks c e) (outcomes : List SendTo) :
    Option.Rel Tracks (step maxPackets c (.send outcomes)) (e.send maxPackets outcomes) := by
  obtain ⟨pc, g⟩ := c
  obtain ⟨pc', d⟩ := e
  obtain ⟨toSend, l, (hholds : Holds g d toSend l), hstands⟩ := h
  cases hstands with
  | @sending iter left scans hwalk =>
    simp only [step, hholds.toSend_eq, hwalk.over hholds.listAt]
    cases left with
    | nil => exact .none
    | cons n left =>
      obtain ⟨x, rest, rfl, hx, hvalue, hrest, hnext⟩ := hwalk.turn hholds.listAt
      simp only [GProxy.Psender.Config.send]
      split
      next => exact .none
      next => cases doWhile sendAgain outcomes with
        | none => exact .none
        | some ended =>
          obtain ⟨sendto, more⟩ := ended
          cases more with
          | cons => exact .none
          | nil =>
            have hcall := sendPacket_matches (P := fun l => rest <:+ l.nodes) hholds
              (hx.subset List.mem_cons_self) hvalue ((List.suffix_cons x rest).trans hx) sendto
            have htracks := hcall.tracks hholds
              (.sending (some ((rest.map Node.addr).headD toSend)) (scans + 1))
              (.sending left (scans + 1)) fun l hsuffix => .sending ⟨rest, hsuffix, hrest, rfl⟩
            simp only [visit, hnext]
            cases hresult : GProxy.Psender.sendPacket d n sendto <;>
              rw [hresult] at htracks <;> exact .some htracks
  | top | selecting | reading | checking | testing | exited => exact .none

/-- `select` and the branches on its answer. -/
theorem Tracks.select (h : Tracks c e) (outcome : Select) :
    Option.Rel Tracks (step maxPackets c (.select outcome)) (e.select outcome) := by
  obtain ⟨pc, g⟩ := c
  obtain ⟨pc', d⟩ := e
  obtain ⟨toSend, l, (hholds : Holds g d toSend l), hstands⟩ := h
  cases hstands with
  | selecting =>
    cases outcome with
    | failed errno => exact .some (hholds.tracks .exited)
    | ready connectedSender ritardatore =>
      simp only [step, GProxy.Psender.Config.select, hholds.agrees.endingRead]
      cases selectable d.endingRead connectedSender ritardatore with
      | true =>
        cases connectedSender with
        | true => exact .some (hholds.tracks .reading)
        | false => exact .some (hholds.checking ritardatore)
      | false => exact .none
    | timeout => exact .some (hholds.tracks .exited)
  | top | sending | reading | checking | testing | exited => exact .none

/-- One call of `receiveFromSender`. -/
theorem Tracks.read (h : Tracks c e) (outcomes : List Recv) (past : List UInt8) {a : Addr}
    (ha : c.globals.mem.live a = false) :
    Option.Rel Tracks (step maxPackets c (.read outcomes past a))
      (e.read maxPackets outcomes past) := by
  obtain ⟨pc, g⟩ := c
  obtain ⟨pc', d⟩ := e
  obtain ⟨toSend, l, (hholds : Holds g d toSend l), hstands⟩ := h
  cases hstands with
  | @reading ritardatore =>
    simp only [step, GProxy.Psender.Config.read, hholds.reads]
    cases d.reads maxPackets with
    | false => exact .none
    | true => cases doWhile readAgain outcomes with
      | none => exact .none
      | some ended =>
        obtain ⟨recv, more⟩ := ended
        cases more with
        | cons => exact .none
        | nil =>
          have hcall := receiveFromSender_matches hholds ha past recv
          have htracks := hcall.tracks hholds (.reading ritardatore) (.reading ritardatore)
            fun _ _ => .reading
          simp only [↓reduceIte]
          cases hresult : GProxy.Psender.receiveFromSender past d recv <;>
            rw [hresult] at htracks <;> exact .some htracks
  | top | sending | selecting | checking | testing | exited => exact .none

/-- One call of `checkRitardatore`. -/
theorem Tracks.check (h : Tracks c e) (outcome : Recv) :
    Option.Rel Tracks (step maxPackets c (.check outcome)) (e.check maxPackets outcome) := by
  obtain ⟨pc, g⟩ := c
  obtain ⟨pc', d⟩ := e
  obtain ⟨toSend, l, (hholds : Holds g d toSend l), hstands⟩ := h
  cases hstands with
  | @checking counter =>
    simp only [step, GProxy.Psender.Config.check]
    split
    next =>
      have hcall := checkRitardatore_matches hholds outcome
      have htracks := hcall.tracks hholds (.checking (counter + 1)) (.checking (counter + 1))
        fun _ _ => .checking
      cases hresult : GProxy.Psender.checkRitardatore d outcome <;>
        rw [hresult] at htracks <;> exact .some htracks
    next => exact .none
  | top | sending | selecting | reading | testing | exited => exact .none

/-- The two main loops answer alike. -/
theorem Tracks.step (h : Tracks c e) {event : Event} (ha : Allocates c event) :
    Option.Rel Tracks (step maxPackets c event)
      (GProxy.Psender.step maxPackets e event.plain) := by
  cases event with
  | go => exact h.go
  | send outcomes => exact h.send outcomes
  | select outcome => exact h.select outcome
  | read outcomes past a => exact h.read outcomes past ha
  | check outcome => exact h.check outcome

/-- `fault` is the place of no configuration on sequences, so a run that tracks one never comes
there. -/
theorem Tracks.no_fault (h : Tracks c e) : c.pc ≠ .fault := by
  obtain ⟨_, _, _, hstands⟩ := h
  intro hfault
  rw [hfault] at hstands
  cases hstands

/-- `init` makes an empty list. -/
theorem init_tracks {m : Mem} {a : Addr} (ha : m.live a = false) :
    ∃ g, init m a = some g ∧ Tracks ⟨.top, g⟩ .initial := by
  obtain ⟨m₁, L₁, hsend, hR₁, hheads, _⟩ := allocHead_apart (represents_nothing m) ha
  have hcall : init m a = some ⟨m₁, 1, some a, 1, [], false, false, 0, ritPorts.getD 0 0, [],
      []⟩ := by
    simp [init, hsend]
  refine ⟨_, hcall, a, allocHead, ?_, .top⟩
  exact {
    agrees := ⟨rfl, rfl, rfl, rfl, rfl, rfl, rfl, rfl⟩
    toSend_eq := rfl
    represents := ⟨L₁, hR₁, by rw [hheads, Function.update_self]⟩
    like := ⟨rfl, rfl⟩
    room := Nat.zero_lt_one }

/-- In every run in memory, whatever addresses `malloc` returns, no step goes through a pointer
that is `NULL` or was freed, and every loop over the list ends. The run is one of the main loop on
sequences: the same datagrams were sent, the list has the same contents, and what can happen next
in the one can happen in the other. -/
theorem psender_pointer_safe {m : Mem} {a : Addr} (ha : m.live a = false) :
    ∃ g, init m a = some g ∧
      ∀ c, Machine.Run (Psender.step maxPackets) Allocates ⟨.top, g⟩ c → c.pc ≠ .fault ∧
        ∃ d, Machine.Run (GProxy.Psender.step maxPackets) Machine.Free .initial d ∧ Tracks c d ∧
          ∀ event, Allocates c event → ((Psender.step maxPackets c event).isSome ↔
            (GProxy.Psender.step maxPackets d event.plain).isSome) := by
  obtain ⟨g, hinit, htracks⟩ := init_tracks ha
  refine ⟨g, hinit, ?_⟩
  intro c run
  obtain ⟨d, run', hd⟩ : ∃ d, Machine.Run (GProxy.Psender.step maxPackets) Machine.Free .initial d ∧
      Tracks c d :=
    run.lockstep (fun _ _ _ h => h.step) (fun _ _ _ _ _ => trivial) htracks
  refine ⟨hd.no_fault, d, run', hd, ?_⟩
  intro event hevent
  have hrel : Option.Rel Tracks (Psender.step maxPackets c event)
      (GProxy.Psender.step maxPackets d event.plain) := hd.step hevent
  generalize Psender.step maxPackets c event = c' at hrel ⊢
  generalize GProxy.Psender.step maxPackets d event.plain = d' at hrel ⊢
  cases hrel <;> rfl

end

/-- One packet and the end marker, which gets the address that the acknowledged packet had. -/
def oneByte : List Event :=
  [.go, .go, .select (.ready true false), .read [.data [7]] [] 1, .go, .go, .go, .send [.sent],
    .go, .select (.ready true true), .go, .check (.data (ackImage [] 1)), .go, .go, .go, .go,
    .select (.ready true false), .read [.data []] [] 1, .go, .go, .go, .send [.sent]]

/-- `init` has a result in the memory where nothing is allocated. -/
theorem started_possible : (init Pointers.Mem.initial 0).isSome := by decide

/-- The run can be made, with addresses that were not in use. -/
theorem oneByte_possible : (Machine.exec (step 1) Allocates
    ⟨.top, (init Pointers.Mem.initial 0).get started_possible⟩ oneByte).isSome := by decide

/-- A run that sends two datagrams, the second of them the end marker. -/
theorem psender_pointer_safe_oneByte : ∃ g c, init Pointers.Mem.initial 0 = some g ∧
    Machine.Run (step 1) Allocates ⟨.top, g⟩ c ∧ c.globals.sent.length = 2 ∧
    c.globals.finalize = true ∧ c.pc ≠ .fault ∧
    ∃ d, Machine.Run (GProxy.Psender.step 1) Machine.Free .initial d ∧ Tracks c d := by
  obtain ⟨g, hinit, hsafe⟩ := psender_pointer_safe (m := Pointers.Mem.initial) (a := 0) rfl
  obtain rfl := Option.some.inj (hinit.symm.trans (Option.some_get started_possible).symm)
  have run := Machine.run_exec oneByte_possible
  obtain ⟨hpc, d, run', hd, _⟩ := hsafe _ run
  exact ⟨_, _, hinit, run, by decide, by decide, hpc, d, run', hd⟩

end GProxy.InMemory.Psender
