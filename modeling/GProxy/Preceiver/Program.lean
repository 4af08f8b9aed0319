import GProxy.Wire
import GProxy.Lib.Machine

/-!
# The receiving proxy (`preceiver.c`, `preceiverUtils.c`)

The functions of `preceiverUtils.c` on an explicit record of the globals, and the main loop as a
machine. One event is one call of a callback, of `select` or of `receiveFromPsender`, with what
the system calls in it returned; `go` is a move of the control alone. `printError` ends the
process, so a function that may call it answers `Except`.

Three fields are histories of the sockets: `arrived` of the datagrams read, `passed` of what
each `send` to the receiver accepted, `sent` of the datagrams handed to `sendto`.

How much `send` accepts is open here; the theorems that need whole bodies ask for them
(`acceptsWhole`). `malloc` does not fail, and there is no time: a `select` may time out whenever it
is called.
-/

namespace GProxy.Preceiver

/-- `ritPorts` -/
def ritPorts : List UInt16 := [62000, 62001, 62002]

structure Globals where
  lastSentId : UInt32
  toSend : Head
  toAck : Head
  finalize : Bool
  timedOut : Bool
  channel : Nat
  toRitPort : UInt16
  heap : Heap
  arrived : List (List UInt8)
  passed : List (List UInt8)
  sent : List Datagram
  deriving DecidableEq, Repr

/-- The globals after `init`. -/
def Globals.initial : Globals where
  lastSentId := 1
  toSend := allocHead
  toAck := allocHead
  finalize := false
  timedOut := false
  channel := 0
  toRitPort := ritPorts.getD 0 0
  heap := Heap.initial
  arrived := []
  passed := []
  sent := []

/-- `stack` is what the uninitialised `ack` on the stack holds. -/
def ackPkt (stack : List UInt8) (g : Globals) (current : Node) : Globals :=
  { g with sent := g.sent ++ [⟨g.toRitPort, ackImage stack current.packet.id⟩] }

def ackPacket (stack : List UInt8) (g : Globals) (current : Node) : Globals :=
  let g := ackPkt stack g current
  let g := if current.packet.id = 0 then { g with finalize := true } else g
  { g with toAck := removeNode g.toAck current, heap := clearNode g.heap current }

/-- `sendCounter` is what `send` returned. -/
def sendToReceiver (sendCounter : Int) (g : Globals) (current : Node) : Except String Globals :=
  if current.packet.id = g.lastSentId then
    if sendCounter = 0 then .ok g
    else if sendCounter = -1 then
      .error "There was an error while sending a packet to the receiver"
    else
      .ok { g with
        passed := g.passed ++ [current.payload.take sendCounter.toNat]
        lastSentId := g.lastSentId + 1
        toSend := removeNode g.toSend current
        toAck := (insertNodeById g.toAck current).1 }
  else .ok g

/-- The next port of the emulator. `getSocketAddress` leaves `sharedError` false. -/
def switchPort (g : Globals) : Globals :=
  let channel := (g.channel + 1) % 3
  { g with channel, toRitPort := ritPorts.getD channel 0 }

/-- The node a body packet becomes: its number in host order, its size that of the datagram. -/
def bodyNode (current : Node) (bytes : List UInt8) : Node :=
  let packet := Pkt.ofImage bytes
  { current with packet := { packet with id := ntohl packet.id }, pktSize := bytes.length }

/-- `receiveFromPsender` once its `recv` loop has ended with an outcome. -/
def receiveFromPsender (maxPackets : Nat) (g : Globals) (recv : Recv) : Except String Globals :=
  let current := (allocNode g.heap 0 typeB none 0).1
  let heap := (allocNode g.heap 0 typeB none 0).2
  match recv with
  | .data [] => .ok { g with heap := clearNode heap current }
  | .data (b :: bs) =>
    let bytes := received (b :: bs)
    let g := { g with heap, arrived := g.arrived ++ [bytes] }
    if (Pkt.ofImage bytes).type = typeB then
      let current := bodyNode current bytes
      if current.packet.id ≥ g.lastSentId then
        -- the answer of `insertNodeById` is dropped, and so is a node it refuses
        .ok { g with toSend := (insertNodeById g.toSend current).1 }
      else if g.toAck.length < (maxPackets : Int) then
        .ok { g with toAck := (insertNodeById g.toAck current).1 }
      else .ok { g with heap := clearNode g.heap current }
    else .ok { switchPort g with heap := clearNode g.heap current }
  | .failed errno =>
    if errno ≠ .EAGAIN ∨ errno ≠ .EWOULDBLOCK then .error "There was an error with recv"
    else .ok { g with heap := clearNode heap current }

/-- The condition of the `recv` loop, the count of its rounds aside. -/
def recvAgain : Recv → Bool
  | .data _ => false
  | .failed errno => errno ≠ .EINTR

/-- `maxOps` -/
def maxOps : Nat := 100

/-! ## The main loop -/

inductive Exit
  | terminate
  | printError (message : String)
  deriving DecidableEq, Repr

/-- Where the main loop stands. A walk carries the nodes still to scan and the count so far. -/
inductive Pc
  | top
  | delivering (iter : List Node) (scans : Nat)
  | acking (iter : List Node) (scans : Nat)
  | selecting
  | receiving (counter : Nat)
  | exited (why : Exit)
  deriving DecidableEq, Repr

structure Config where
  pc : Pc
  globals : Globals
  deriving DecidableEq, Repr

def Config.initial : Config := ⟨.top, .initial⟩

/-- What `select` answers. -/
inductive Select
  | failed (errno : Errno)
  | ready (ritardatore : Bool)
  | timeout
  deriving DecidableEq, Repr

inductive Event
  | go
  | send (sendCounter : Int)
  | ack (stack : List UInt8)
  | select (outcome : Select)
  | recv (outcomes : List Recv)
  deriving DecidableEq, Repr

/-- The test at the top of the loop: both lists are empty and `finalize` is true. -/
def Globals.finished (g : Globals) : Bool :=
  g.finalize && g.toSend.length = 0 && g.toAck.length = 0

/-- A move of the control alone. -/
def Config.go (maxPackets : Nat) (c : Config) : Option Config :=
  match c.pc with
  | .top =>
    if c.globals.finished then some ⟨.exited .terminate, c.globals⟩
    else some ⟨.delivering c.globals.toSend.nodes 0, c.globals⟩
  | .delivering iter scans =>
    if scanDone maxPackets scans iter then some ⟨.acking c.globals.toAck.nodes 0, c.globals⟩
    else none
  | .acking iter scans =>
    if scanDone maxPackets scans iter then some ⟨.selecting, c.globals⟩ else none
  | .receiving counter => if counter < maxPackets then none else some ⟨.top, c.globals⟩
  | .selecting | .exited _ => none

/-- One call of `sendToReceiver`. -/
def Config.send (maxPackets : Nat) (c : Config) (sendCounter : Int) : Option Config :=
  match c.pc with
  | .delivering (iter :: next) scans =>
    if scanDone maxPackets scans (iter :: next) then none
    else match sendToReceiver sendCounter c.globals iter with
      | .ok g => some ⟨.delivering next (scans + 1), g⟩
      | .error message => some ⟨.exited (.printError message), c.globals⟩
  | _ => none

/-- One call of `ackPacket`. -/
def Config.ack (maxPackets : Nat) (c : Config) (stack : List UInt8) : Option Config :=
  match c.pc with
  | .acking (iter :: next) scans =>
    if scanDone maxPackets scans (iter :: next) then none
    else some ⟨.acking next (scans + 1), ackPacket stack c.globals iter⟩
  | _ => none

/-- The `select` of the loop and the branches on its answer. The socket of the emulator is the only
one in `canRead`, so `select` does not answer that none is readable. -/
def Config.select (c : Config) (outcome : Select) : Option Config :=
  match c.pc with
  | .selecting =>
    match outcome with
    | .failed errno =>
      if errno ≠ .EINTR then
        some ⟨.exited (.printError "There was an error with the select function!"), c.globals⟩
      else some ⟨.top, c.globals⟩
    | .ready ritardatore => if ritardatore then some ⟨.receiving 0, c.globals⟩ else none
    | .timeout => some ⟨.top, { c.globals with timedOut := true }⟩
  | _ => none

/-- One call of `receiveFromPsender`. -/
def Config.recv (maxPackets : Nat) (c : Config) (outcomes : List Recv) : Option Config :=
  match c.pc with
  | .receiving counter =>
    if counter < maxPackets then
      match doWhileUpTo recvAgain (maxOps - 1) outcomes with
      | some (recv, []) =>
        match receiveFromPsender maxPackets c.globals recv with
        | .ok g => some ⟨.receiving (counter + 1), g⟩
        | .error message => some ⟨.exited (.printError message), c.globals⟩
      | _ => none
    else none
  | _ => none

def step (maxPackets : Nat) (c : Config) : Event → Option Config
  | .go => c.go maxPackets
  | .send sendCounter => c.send maxPackets sendCounter
  | .ack stack => c.ack maxPackets stack
  | .select outcome => c.select outcome
  | .recv outcomes => c.recv maxPackets outcomes

/-! ## What each function can do -/

/-- `sendToReceiver` returns without effect, or passes on the packet it waits for. -/
theorem sendToReceiver_ok {sendCounter : Int} {g g' : Globals} {current : Node}
    (h : sendToReceiver sendCounter g current = .ok g') :
    (g' = g ∧ (current.packet.id = g.lastSentId → sendCounter = 0)) ∨
    (current.packet.id = g.lastSentId ∧ sendCounter ≠ 0 ∧ sendCounter ≠ -1 ∧
      g' = { g with
        passed := g.passed ++ [current.payload.take sendCounter.toNat]
        lastSentId := g.lastSentId + 1
        toSend := removeNode g.toSend current
        toAck := (insertNodeById g.toAck current).1 }) := by
  unfold sendToReceiver at h
  split at h
  next hid =>
    split at h
    next h0 => cases h; exact .inl ⟨rfl, fun _ => h0⟩
    next h0 =>
      split at h
      next => cases h
      next h1 => cases h; exact .inr ⟨hid, h0, h1, rfl⟩
  next hid => cases h; exact .inl ⟨rfl, fun h => absurd h hid⟩

/-- The node `receiveFromPsender` builds from a body packet. -/
def Globals.incoming (g : Globals) (bytes : List UInt8) : Node :=
  bodyNode (allocNode g.heap 0 typeB none 0).1 bytes

/-- The node a data datagram becomes. -/
theorem incoming_dataDatagram (g : Globals) (id : UInt32) (body : List UInt8) :
    (g.incoming (dataDatagram id body)).packet = ⟨id, typeB, body⟩ ∧
      (g.incoming (dataDatagram id body)).pktSize = body.length + headerSize ∧
      (g.incoming (dataDatagram id body)).payload = body := by
  have hpacket : (g.incoming (dataDatagram id body)).packet = ⟨id, typeB, body⟩ := by
    simp only [Globals.incoming, bodyNode, ofImage_dataDatagram, ntohl_htonl]
  have hsize : (g.incoming (dataDatagram id body)).pktSize = body.length + headerSize := by
    simp only [Globals.incoming, bodyNode, dataDatagram_length, Int.natCast_add]
  refine ⟨hpacket, hsize, ?_⟩
  rw [Node.payload, hpacket, hsize]
  apply List.take_of_length_le
  show body.length ≤ _
  omega

/-- What `receiveFromPsender` does when it returns. -/
inductive Receives (maxPackets : Nat) (g : Globals) : Recv → Globals → Prop
  | nothing {recv : Recv} (hnone : ∀ b bs, recv ≠ .data (b :: bs)) :
      Receives maxPackets g recv { g with heap := g.heap.skipped }
  | icmp {b : UInt8} {bs bytes : List UInt8} (hb : bytes = received (b :: bs))
      (htype : (Pkt.ofImage bytes).type ≠ typeB) :
      Receives maxPackets g (.data (b :: bs)) { switchPort g with
        arrived := g.arrived ++ [bytes]
        heap := g.heap.skipped }
  | ahead {b : UInt8} {bs bytes : List UInt8} (hb : bytes = received (b :: bs))
      (htype : (Pkt.ofImage bytes).type = typeB)
      (hid : g.lastSentId.toNat ≤ (g.incoming bytes).id) :
      Receives maxPackets g (.data (b :: bs)) { g with
        arrived := g.arrived ++ [bytes]
        heap := g.heap.taken
        toSend := (insertNodeById g.toSend (g.incoming bytes)).1 }
  | behind {b : UInt8} {bs bytes : List UInt8} (hb : bytes = received (b :: bs))
      (htype : (Pkt.ofImage bytes).type = typeB)
      (hid : (g.incoming bytes).id < g.lastSentId.toNat)
      (hroom : g.toAck.length < (maxPackets : Int)) :
      Receives maxPackets g (.data (b :: bs)) { g with
        arrived := g.arrived ++ [bytes]
        heap := g.heap.taken
        toAck := (insertNodeById g.toAck (g.incoming bytes)).1 }
  | dropped {b : UInt8} {bs bytes : List UInt8} (hb : bytes = received (b :: bs))
      (htype : (Pkt.ofImage bytes).type = typeB)
      (hid : (g.incoming bytes).id < g.lastSentId.toNat)
      (hfull : (maxPackets : Int) ≤ g.toAck.length) :
      Receives maxPackets g (.data (b :: bs)) { g with
        arrived := g.arrived ++ [bytes]
        heap := g.heap.skipped }

/-- What `receiveFromPsender` did when it returned: one of the cases of `Receives`, each with what
it was read from. Proofs about it look at these and never at its body. -/
theorem receives_of_ok {maxPackets : Nat} {g g' : Globals} {recv : Recv}
    (h : receiveFromPsender maxPackets g recv = .ok g') : Receives maxPackets g recv g' := by
  have hclear : ∀ current : Node, current.addr = g.heap.next →
      clearNode (allocNode g.heap 0 typeB none 0).2 current = g.heap.skipped :=
    fun _ => clearNode_taken
  cases recv with
  | data bytes =>
    cases bytes with
    | nil =>
      cases h
      rw [hclear _ rfl]
      exact .nothing fun _ _ hr => by cases hr
    | cons b bs =>
      simp only [receiveFromPsender] at h
      split at h
      next htype =>
        split at h
        next hid => cases h; exact .ahead rfl htype (UInt32.le_iff_toNat_le.mp hid)
        next hid =>
          have hlt : (g.incoming (received (b :: bs))).id < g.lastSentId.toNat :=
            UInt32.lt_iff_toNat_lt.mp (UInt32.not_le.mp hid)
          split at h
          next hroom => cases h; exact .behind rfl htype hlt hroom
          next hroom =>
            cases h
            rw [hclear _ rfl]
            exact .dropped rfl htype hlt (Int.not_lt.mp hroom)
      next htype =>
        cases h
        rw [hclear _ rfl]
        exact .icmp rfl htype
  | failed errno =>
    simp only [receiveFromPsender] at h
    split at h
    next => cases h
    next =>
      cases h
      rw [hclear _ rfl]
      exact .nothing fun _ _ hr => by cases hr

/-- What one step of the main loop can do. -/
inductive Stepped (maxPackets : Nat) : Config → Event → Config → Prop
  | finished {g : Globals} : g.finished = true →
      Stepped maxPackets ⟨.top, g⟩ .go ⟨.exited .terminate, g⟩
  | deliver {g : Globals} : g.finished = false →
      Stepped maxPackets ⟨.top, g⟩ .go ⟨.delivering g.toSend.nodes 0, g⟩
  | delivered {g : Globals} {iter : List Node} {scans : Nat} :
      scanDone maxPackets scans iter = true →
      Stepped maxPackets ⟨.delivering iter scans, g⟩ .go ⟨.acking g.toAck.nodes 0, g⟩
  | acked {g : Globals} {iter : List Node} {scans : Nat} :
      scanDone maxPackets scans iter = true →
      Stepped maxPackets ⟨.acking iter scans, g⟩ .go ⟨.selecting, g⟩
  | received {g : Globals} {counter : Nat} : maxPackets ≤ counter →
      Stepped maxPackets ⟨.receiving counter, g⟩ .go ⟨.top, g⟩
  | send {g g' : Globals} {iter : Node} {next : List Node} {scans : Nat} {sendCounter : Int} :
      scanDone maxPackets scans (iter :: next) = false →
      sendToReceiver sendCounter g iter = .ok g' →
      Stepped maxPackets ⟨.delivering (iter :: next) scans, g⟩ (.send sendCounter)
        ⟨.delivering next (scans + 1), g'⟩
  | ack {g : Globals} {iter : Node} {next : List Node} {scans : Nat} {stack : List UInt8} :
      scanDone maxPackets scans (iter :: next) = false →
      Stepped maxPackets ⟨.acking (iter :: next) scans, g⟩ (.ack stack)
        ⟨.acking next (scans + 1), ackPacket stack g iter⟩
  | interrupted {g : Globals} :
      Stepped maxPackets ⟨.selecting, g⟩ (.select (.failed .EINTR)) ⟨.top, g⟩
  | readable {g : Globals} :
      Stepped maxPackets ⟨.selecting, g⟩ (.select (.ready true)) ⟨.receiving 0, g⟩
  | timeout {g : Globals} :
      Stepped maxPackets ⟨.selecting, g⟩ (.select .timeout) ⟨.top, { g with timedOut := true }⟩
  | recv {g g' : Globals} {counter : Nat} {outcomes : List Recv} {r : Recv} :
      counter < maxPackets → doWhileUpTo recvAgain (maxOps - 1) outcomes = some (r, []) →
      receiveFromPsender maxPackets g r = .ok g' →
      Stepped maxPackets ⟨.receiving counter, g⟩ (.recv outcomes) ⟨.receiving (counter + 1), g'⟩
  | error {pc : Pc} {g : Globals} {e : Event} {message : String} :
      Stepped maxPackets ⟨pc, g⟩ e ⟨.exited (.printError message), g⟩

/-- What a step without a system call did. -/
theorem Config.go_stepped {maxPackets : Nat} {c c' : Config} (h : c.go maxPackets = some c') :
    Stepped maxPackets c .go c' := by
  obtain ⟨pc, g⟩ := c
  cases pc with
  | top =>
    simp only [Config.go] at h
    split at h
    next hf => cases h; exact .finished hf
    next hf => cases h; exact .deliver (Bool.not_eq_true _ ▸ hf)
  | delivering iter scans =>
    simp only [Config.go] at h
    split at h
    next hd => cases h; exact .delivered hd
    next => cases h
  | acking iter scans =>
    simp only [Config.go] at h
    split at h
    next hd => cases h; exact .acked hd
    next => cases h
  | receiving counter =>
    simp only [Config.go] at h
    split at h
    next => cases h
    next hc => cases h; exact .received (Nat.le_of_not_lt hc)
  | selecting => cases h
  | exited why => cases h

/-- What a step with `send` did. -/
theorem Config.send_stepped {maxPackets : Nat} {c c' : Config} {sendCounter : Int}
    (h : c.send maxPackets sendCounter = some c') :
    Stepped maxPackets c (.send sendCounter) c' := by
  obtain ⟨pc, g⟩ := c
  cases pc with
  | delivering iter scans =>
    cases iter with
    | nil => cases h
    | cons iter next =>
      simp only [Config.send] at h
      split at h
      next => cases h
      next hd =>
        split at h
        next g' hg => cases h; exact .send (Bool.not_eq_true _ ▸ hd) hg
        next => cases h; exact .error
  | _ => cases h

/-- What a step with the `sendto` of an acknowledgement did. -/
theorem Config.ack_stepped {maxPackets : Nat} {c c' : Config} {stack : List UInt8}
    (h : c.ack maxPackets stack = some c') : Stepped maxPackets c (.ack stack) c' := by
  obtain ⟨pc, g⟩ := c
  cases pc with
  | acking iter scans =>
    cases iter with
    | nil => cases h
    | cons iter next =>
      simp only [Config.ack] at h
      split at h
      next => cases h
      next hd => cases h; exact .ack (Bool.not_eq_true _ ▸ hd)
  | _ => cases h

/-- What a step with `select` did. -/
theorem Config.select_stepped {maxPackets : Nat} {c c' : Config} {outcome : Select}
    (h : c.select outcome = some c') : Stepped maxPackets c (.select outcome) c' := by
  obtain ⟨pc, g⟩ := c
  cases pc with
  | selecting =>
    cases outcome with
    | failed errno =>
      simp only [Config.select] at h
      split at h
      next => cases h; exact .error
      next he =>
        cases h
        rw [Decidable.not_not.mp he]
        exact .interrupted
    | ready ritardatore =>
      cases ritardatore with
      | true => cases h; exact .readable
      | false => cases h
    | timeout => cases h; exact .timeout
  | _ => cases h

/-- What a step with `recv` did. -/
theorem Config.recv_stepped {maxPackets : Nat} {c c' : Config} {outcomes : List Recv}
    (h : c.recv maxPackets outcomes = some c') : Stepped maxPackets c (.recv outcomes) c' := by
  obtain ⟨pc, g⟩ := c
  cases pc with
  | receiving counter =>
    simp only [Config.recv] at h
    split at h
    next hc =>
      split at h
      next r hr =>
        split at h
        next g' hg => cases h; exact .recv hc hr hg
        next => cases h; exact .error
      next => cases h
    next => cases h
  | _ => cases h

/-- Every step of the main loop is one of the cases of `Stepped`, which is what every invariant is
proved from. -/
theorem stepped_of_step {maxPackets : Nat} {c c' : Config} {e : Event}
    (h : step maxPackets c e = some c') : Stepped maxPackets c e c' := by
  cases e with
  | go => exact Config.go_stepped h
  | send sendCounter => exact Config.send_stepped h
  | ack stack => exact Config.ack_stepped h
  | select outcome => exact Config.select_stepped h
  | recv outcomes => exact Config.recv_stepped h

/-- The packet waited for when `send` accepts its whole body. -/
theorem sendToReceiver_whole {g : Globals} {current : Node} (hid : current.packet.id = g.lastSentId)
    (hbody : (headerSize : Int) < current.pktSize) :
    sendToReceiver (current.pktSize - headerSize) g current = .ok { g with
      passed := g.passed ++ [current.payload]
      lastSentId := g.lastSentId + 1
      toSend := removeNode g.toSend current
      toAck := (insertNodeById g.toAck current).1 } := by
  have h0 : current.pktSize - (headerSize : Int) ≠ 0 := by omega
  have h1 : current.pktSize - (headerSize : Int) ≠ -1 := by omega
  have hwhole : current.payload.take (current.pktSize - headerSize).toNat = current.payload := by
    rw [Node.payload, List.take_take, Nat.min_self]
  unfold sendToReceiver
  rw [if_pos hid, if_neg h0, if_neg h1, hwhole]

/-- Only a failed `send` ends the process in `sendToReceiver`. -/
theorem sendToReceiver_error {sendCounter : Int} {g : Globals} {current : Node} {message : String}
    (h : sendToReceiver sendCounter g current = .error message) : sendCounter = -1 := by
  unfold sendToReceiver at h
  split at h
  next =>
    split at h
    next => cases h
    next =>
      split at h
      next h1 => exact h1
      next => cases h
  next => cases h

/-- `printError` is called for a failed `send`, a failed `select` or in a read. -/
theorem event_of_printError {maxPackets : Nat} {c c' : Config} {e : Event} {message : String}
    (h : step maxPackets c e = some c') (hpc : c'.pc = .exited (.printError message))
    (hrun : ∀ why, c.pc ≠ .exited why) :
    e = .send (-1) ∨ (∃ errno, e = .select (.failed errno)) ∨ ∃ outcomes, e = .recv outcomes := by
  obtain ⟨pc, g⟩ := c
  cases e with
  | go =>
    cases pc with
    | top | delivering | acking | receiving =>
      simp only [step, Config.go] at h
      split at h <;> cases h <;> cases hpc
    | selecting => cases h
    | exited why => exact absurd rfl (hrun why)
  | send sendCounter =>
    cases pc with
    | delivering iter scans =>
      cases iter with
      | nil => cases h
      | cons iter next =>
        simp only [step, Config.send] at h
        split at h
        next => cases h
        next =>
          split at h
          next => cases h; cases hpc
          next _ herror => exact .inl (congrArg Event.send (sendToReceiver_error herror))
    | _ => cases h
  | ack stack =>
    cases pc with
    | acking iter scans =>
      cases iter with
      | nil => cases h
      | cons iter next =>
        simp only [step, Config.ack] at h
        split at h <;> cases h
        cases hpc
    | _ => cases h
  | select outcome =>
    cases pc with
    | selecting =>
      cases outcome with
      | failed errno => exact .inr (.inl ⟨errno, rfl⟩)
      | ready ritardatore =>
        cases ritardatore <;> cases h
        cases hpc
      | timeout => cases h; cases hpc
    | _ => cases h
  | recv outcomes => exact .inr (.inr ⟨outcomes, rfl⟩)

/-! ## The steps of the two passes -/

/-- At the top, with something left to do, the delivering pass begins at the front of `toSend`. -/
theorem step_deliver {maxPackets : Nat} {g : Globals} (hf : g.finished = false) :
    step maxPackets ⟨.top, g⟩ .go = some ⟨.delivering g.toSend.nodes 0, g⟩ := by
  simp only [step, Config.go, hf, Bool.false_eq_true, ↓reduceIte]

/-- A delivering pass that is done is followed by the acknowledging one. -/
theorem step_delivered {maxPackets scans : Nat} {iter : List Node} {g : Globals}
    (hd : scanDone maxPackets scans iter = true) :
    step maxPackets ⟨.delivering iter scans, g⟩ .go = some ⟨.acking g.toAck.nodes 0, g⟩ := by
  simp only [step, Config.go, hd, ↓reduceIte]

/-- An acknowledging pass that is done is followed by `select`. -/
theorem step_acked {maxPackets scans : Nat} {iter : List Node} {g : Globals}
    (hd : scanDone maxPackets scans iter = true) :
    step maxPackets ⟨.acking iter scans, g⟩ .go = some ⟨.selecting, g⟩ := by
  simp only [step, Config.go, hd, ↓reduceIte]

/-- One turn of the delivering pass. -/
theorem step_send {maxPackets scans : Nat} {iter : Node} {next : List Node} {g g' : Globals}
    {sendCounter : Int} (hd : scanDone maxPackets scans (iter :: next) = false)
    (hsend : sendToReceiver sendCounter g iter = .ok g') :
    step maxPackets ⟨.delivering (iter :: next) scans, g⟩ (.send sendCounter) =
      some ⟨.delivering next (scans + 1), g'⟩ := by
  simp only [step, Config.send, hd, hsend, Bool.false_eq_true, ↓reduceIte]

/-- One turn of the acknowledging pass. -/
theorem step_ack {maxPackets scans : Nat} {iter : Node} {next : List Node} {g : Globals}
    (hd : scanDone maxPackets scans (iter :: next) = false) (stack : List UInt8) :
    step maxPackets ⟨.acking (iter :: next) scans, g⟩ (.ack stack) =
      some ⟨.acking next (scans + 1), ackPacket stack g iter⟩ := by
  simp only [step, Config.ack, hd, Bool.false_eq_true, ↓reduceIte]

end GProxy.Preceiver
