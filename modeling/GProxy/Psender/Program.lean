import GProxy.Wire
import GProxy.Lib.Machine

/-!
# The sending proxy (`psender.c`, `psenderUtils.c`)

The functions of `psenderUtils.c` on an explicit record of the globals, and the main loop as a
machine, in the manner of the receiving proxy: one event is one call of a callback, of `select`,
of `receiveFromSender` or of `checkRitardatore`, with what the system calls in it returned.

Two fields are histories: `sent` of the datagrams handed to `sendto`, `created` of the data
packets built, each with its number and the bytes that were read for it.

`select` reports sockets it was given, at least one of them, or times out. Whether something is
there to read is for the network of a theorem to say, and so is how long anything takes. `malloc`
does not fail, and the copies of `allocNode` have no bounds here (`GProxy.Psender.Copies`).
-/

namespace GProxy.Psender

/-- `ritPorts` -/
def ritPorts : List UInt16 := [61000, 61001, 61002]

structure Globals where
  currentId : UInt32
  toSend : Head
  currentAck : List UInt8
  finalize : Bool
  endingRead : Bool
  channel : Nat
  toRitPort : UInt16
  heap : Heap
  created : List (UInt32 × List UInt8)
  sent : List Datagram
  deriving DecidableEq, Repr

/-- The globals after `init`. -/
def Globals.initial : Globals where
  currentId := 1
  toSend := allocHead
  currentAck := []
  finalize := false
  endingRead := false
  channel := 0
  toRitPort := ritPorts.getD 0 0
  heap := Heap.initial
  created := []
  sent := []

/-- The condition of the `recv` loop on the sender's socket. -/
def readAgain : Recv → Bool
  | .data _ => false
  | .failed errno => errno ≠ .EINTR

/-- `strlen(endingBody)+HEADER_SIZE+1`; the array ends in a zero that `strlen` does not count. -/
abbrev endingSize : Nat := endingBody.length - 1 + headerSize + 1

/-- The end marker; `past` is what follows `endingBody` in memory. -/
def endingNode (heap : Heap) (past : List UInt8) : Node × Heap :=
  allocNode heap 0 typeB (some (endingBody ++ past)) endingSize

/-- `readCounter+HEADER_SIZE` -/
abbrev bodySize (readCounter : Nat) : Nat := readCounter + headerSize

/-- The node of a data packet; `past` is what follows the bytes read in `recvBuffer`. The copy
takes the size of the datagram, so it takes bytes from there. -/
def bodyNode (g : Globals) (bytes past : List UInt8) : Node × Heap :=
  allocNode g.heap g.currentId typeB (some (bytes ++ past)) (bodySize bytes.length)

/-- `receiveFromSender` once its `recv` loop has ended with an outcome. -/
def receiveFromSender (past : List UInt8) (g : Globals) (recv : Recv) : Except String Globals :=
  match recv with
  | .data [] =>
    .ok { g with
      toSend := appendNode g.toSend (endingNode g.heap past).1
      heap := (endingNode g.heap past).2
      endingRead := true }
  | .data (b :: bs) =>
    .ok { g with
      toSend := appendNode g.toSend (bodyNode g (b :: bs) past).1
      heap := (bodyNode g (b :: bs) past).2
      currentId := g.currentId + 1
      created := g.created ++ [(g.currentId, b :: bs)] }
  | .failed errno =>
    if errno ≠ .EINTR then .error "There was an error while reading data from the sender"
    else .ok g

/-- The next port of the emulator. `getSocketAddress` leaves `sharedError` false. -/
def switchPort (g : Globals) : Globals :=
  let channel := (g.channel + 1) % 3
  { g with channel, toRitPort := ritPorts.getD channel 0 }

/-- An acknowledgement in `currentAck` takes its packet out of the list; `clearNode(NULL)` does
nothing. -/
def acknowledge (g : Globals) : Globals :=
  match removeNodeById g.toSend (ackedId g.currentAck) with
  | (toSend, some current) => { g with toSend, heap := clearNode g.heap current }
  | (toSend, none) => { g with toSend }

/-- `checkRitardatore` after its `recv`. -/
def checkRitardatore (g : Globals) (recv : Recv) : Except String Globals :=
  match recv with
  | .data [] => .ok g
  | .data (b :: bs) =>
    let g := { g with currentAck := overlay (b :: bs) g.currentAck }
    if g.currentAck.getD 4 0 = typeB then .ok (acknowledge g) else .ok (switchPort g)
  | .failed errno =>
    if errno ≠ .EAGAIN ∧ errno ≠ .EWOULDBLOCK then
      .error "There was an error while receiving packets from the ritardatore\n"
    else .ok g

/-- The condition of the `sendto` loop. -/
def sendAgain : SendTo → Bool
  | .sent => false
  | .failed errno => errno = .EINTR || errno = .EAGAIN

/-- `sendPacket` once its `sendto` loop has ended with an outcome. The number is converted in
place before and back after, so the list is as it was. -/
def sendPacket (g : Globals) (node : Node) (sendto : SendTo) : Except String Globals :=
  match sendto with
  | .failed _ => .error "There was an error with sendto()"
  | .sent => .ok { g with
      sent := g.sent ++ [⟨g.toRitPort, node.wire⟩]
      finalize := g.finalize || htonl node.packet.id = 0 }

/-! ## The main loop -/

inductive Exit
  | allSent
  | timedOut
  | printError (message : String)
  deriving DecidableEq, Repr

/-- Where the main loop stands. `reading` carries whether the emulator's socket is readable. -/
inductive Pc
  | top
  | sending (iter : List Node) (scans : Nat)
  | selecting
  | reading (ritardatore : Bool)
  | checking (counter : Nat)
  | testing
  | exited (why : Exit)
  deriving DecidableEq, Repr

structure Config where
  pc : Pc
  globals : Globals
  deriving DecidableEq, Repr

def Config.initial : Config := ⟨.top, .initial⟩

/-- What `select` answers. -/
inductive Select
  | failed (errno : Errno)
  | ready (connectedSender ritardatore : Bool)
  | timeout
  deriving DecidableEq, Repr

inductive Event
  | go
  | send (outcomes : List SendTo)
  | select (outcome : Select)
  | read (outcomes : List Recv) (past : List UInt8)
  | check (outcome : Recv)
  deriving DecidableEq, Repr

/-- The condition of the reading loop: there is room in the list and the stream goes on. -/
def Globals.reads (maxPackets : Nat) (g : Globals) : Bool :=
  g.toSend.length < (maxPackets : Int) && !g.endingRead

/-- The test behind the loops: the list is empty and `finalize` is true. -/
def Globals.allSent (g : Globals) : Bool := g.toSend.length = 0 && g.finalize

/-- Where the loop goes behind the branch on the sender's socket. -/
def checkingPc (ritardatore : Bool) : Pc := if ritardatore then .checking 0 else .testing

/-- A move of the control alone. -/
def Config.go (maxPackets : Nat) (c : Config) : Option Config :=
  match c.pc with
  | .top => some ⟨.sending c.globals.toSend.nodes 0, c.globals⟩
  | .sending iter scans =>
    if scanDone maxPackets scans iter then some ⟨.selecting, c.globals⟩ else none
  | .reading ritardatore =>
    if c.globals.reads maxPackets then none else some ⟨checkingPc ritardatore, c.globals⟩
  | .checking counter => if counter < maxPackets then none else some ⟨.testing, c.globals⟩
  | .testing =>
    if c.globals.allSent then some ⟨.exited .allSent, c.globals⟩ else some ⟨.top, c.globals⟩
  | .selecting | .exited _ => none

/-- One call of `sendPacket`. -/
def Config.send (maxPackets : Nat) (c : Config) (outcomes : List SendTo) : Option Config :=
  match c.pc with
  | .sending (iter :: next) scans =>
    if scanDone maxPackets scans (iter :: next) then none
    else match doWhile sendAgain outcomes with
      | some (sendto, []) =>
        match sendPacket c.globals iter sendto with
        | .ok g => some ⟨.sending next (scans + 1), g⟩
        | .error message => some ⟨.exited (.printError message), c.globals⟩
      | _ => none
  | _ => none

/-- What `select` can find readable: one of the two sockets at least, and the sender's only while
it is in `canRead`, from where `closeSenderConnection` takes it at the end of the stream. -/
def selectable (endingRead connectedSender ritardatore : Bool) : Bool :=
  (connectedSender || ritardatore) && !(connectedSender && endingRead)

/-- The `select` of the loop and the branches on its answer. -/
def Config.select (c : Config) (outcome : Select) : Option Config :=
  match c.pc with
  | .selecting =>
    match outcome with
    | .failed _ =>
      some ⟨.exited (.printError "There was an error with the select function!"), c.globals⟩
    | .ready connectedSender ritardatore =>
      if selectable c.globals.endingRead connectedSender ritardatore then
        some ⟨if connectedSender then .reading ritardatore else checkingPc ritardatore, c.globals⟩
      else none
    | .timeout => some ⟨.exited .timedOut, c.globals⟩
  | _ => none

/-- One call of `receiveFromSender`. -/
def Config.read (maxPackets : Nat) (c : Config) (outcomes : List Recv) (past : List UInt8) :
    Option Config :=
  match c.pc with
  | .reading ritardatore =>
    if c.globals.reads maxPackets then
      match doWhile readAgain outcomes with
      | some (recv, []) =>
        match receiveFromSender past c.globals recv with
        | .ok g => some ⟨.reading ritardatore, g⟩
        | .error message => some ⟨.exited (.printError message), c.globals⟩
      | _ => none
    else none
  | _ => none

/-- One call of `checkRitardatore`. -/
def Config.check (maxPackets : Nat) (c : Config) (outcome : Recv) : Option Config :=
  match c.pc with
  | .checking counter =>
    if counter < maxPackets then
      match checkRitardatore c.globals outcome with
      | .ok g => some ⟨.checking (counter + 1), g⟩
      | .error message => some ⟨.exited (.printError message), c.globals⟩
    else none
  | _ => none

def step (maxPackets : Nat) (c : Config) : Event → Option Config
  | .go => c.go maxPackets
  | .send outcomes => c.send maxPackets outcomes
  | .select outcome => c.select outcome
  | .read outcomes past => c.read maxPackets outcomes past
  | .check outcome => c.check maxPackets outcome

/-! ## What each function can do -/

/-- What `receiveFromSender` does when it returns. -/
inductive Reads (past : List UInt8) (g : Globals) : Recv → Globals → Prop
  | ended : Reads past g (.data []) { g with
      toSend := appendNode g.toSend (endingNode g.heap past).1
      heap := g.heap.taken
      endingRead := true }
  | body {bytes : List UInt8} : bytes ≠ [] → Reads past g (.data bytes) { g with
      toSend := appendNode g.toSend (bodyNode g bytes past).1
      heap := g.heap.taken
      currentId := g.currentId + 1
      created := g.created ++ [(g.currentId, bytes)] }
  | interrupted : Reads past g (.failed .EINTR) g

/-- What `receiveFromSender` did when it returned, one of the cases of `Reads`. -/
theorem reads_of_ok {past : List UInt8} {g g' : Globals} {recv : Recv}
    (h : receiveFromSender past g recv = .ok g') : Reads past g recv g' := by
  cases recv with
  | data bytes =>
    cases bytes with
    | nil => cases h; exact .ended
    | cons b bs => cases h; exact .body (List.cons_ne_nil b bs)
  | failed errno =>
    simp only [receiveFromSender] at h
    split at h
    next => cases h
    next he =>
      cases h
      rw [Decidable.not_not.mp he]
      exact .interrupted

/-- What `checkRitardatore` does when it returns: an acknowledgement takes one node out of the
list, or none when its number is not there. -/
inductive Checks (g : Globals) : Recv → Globals → Prop
  | nothing {recv : Recv} : Checks g recv g
  | acked {bytes memory : List UInt8} {current : Node} :
      memory = overlay bytes g.currentAck → memory.getD 4 0 = typeB →
      searchNodeById g.toSend (ackedId memory) = some current →
      Checks g (.data bytes) { g with
        currentAck := memory
        toSend := removeNode g.toSend current
        heap := clearNode g.heap current }
  | stale {bytes memory : List UInt8} :
      memory = overlay bytes g.currentAck → memory.getD 4 0 = typeB →
      searchNodeById g.toSend (ackedId memory) = none →
      Checks g (.data bytes) { g with currentAck := memory }
  | icmp {bytes memory : List UInt8} :
      memory = overlay bytes g.currentAck → memory.getD 4 0 ≠ typeB →
      Checks g (.data bytes) (switchPort { g with currentAck := memory })

/-- What `checkRitardatore` did when it returned, one of the cases of `Checks`. Proofs about the two
look at these and never at their bodies. -/
theorem checks_of_ok {g g' : Globals} {recv : Recv} (h : checkRitardatore g recv = .ok g') :
    Checks g recv g' := by
  cases recv with
  | data bytes =>
    cases bytes with
    | nil => cases h; exact .nothing
    | cons b bs =>
      simp only [checkRitardatore] at h
      split at h
      next htype =>
        cases h
        simp only [acknowledge, removeNodeById]
        cases hs : searchNodeById g.toSend (ackedId (overlay (b :: bs) g.currentAck)) with
        | some current => exact .acked rfl htype hs
        | none => exact .stale rfl htype hs
      next htype => cases h; exact .icmp rfl htype
  | failed errno =>
    simp only [checkRitardatore] at h
    split at h
    next => cases h
    next => cases h; exact .nothing

/-- Reading the acknowledgement of a number takes the node with that number out of the list, if
there is one. -/
theorem checkRitardatore_ackImage (s : Globals) (stack : List UInt8) (id : UInt32) :
    checkRitardatore s (.data (ackImage stack id)) = .ok
      (acknowledge { s with currentAck := overlay (ackImage stack id) s.currentAck }) := by
  have htype : (overlay (ackImage stack id) s.currentAck).getD 4 0 = typeB :=
    overlay_type (ackImage_type stack id)
  cases hack : ackImage stack id with
  | nil =>
    have hnone := ackImage_type stack id
    rw [hack] at hnone
    cases hnone
  | cons b bs =>
    rw [hack] at htype
    simp only [checkRitardatore, htype, ↓reduceIte]

/-- What one step of the main loop can do. -/
inductive Stepped (maxPackets : Nat) : Config → Event → Config → Prop
  | scan {g : Globals} : Stepped maxPackets ⟨.top, g⟩ .go ⟨.sending g.toSend.nodes 0, g⟩
  | scanned {g : Globals} {iter : List Node} {scans : Nat} :
      scanDone maxPackets scans iter = true →
      Stepped maxPackets ⟨.sending iter scans, g⟩ .go ⟨.selecting, g⟩
  | send {g g' : Globals} {iter : Node} {next : List Node} {scans : Nat}
      {outcomes : List SendTo} : sendPacket g iter .sent = .ok g' →
      Stepped maxPackets ⟨.sending (iter :: next) scans, g⟩ (.send outcomes)
        ⟨.sending next (scans + 1), g'⟩
  | select {g : Globals} {outcome : Select} {pc : Pc} :
      (∃ ritardatore, pc = .reading ritardatore ∨ pc = checkingPc ritardatore) →
      Stepped maxPackets ⟨.selecting, g⟩ (.select outcome) ⟨pc, g⟩
  | timeout {g : Globals} :
      Stepped maxPackets ⟨.selecting, g⟩ (.select .timeout) ⟨.exited .timedOut, g⟩
  | filled {g : Globals} {ritardatore : Bool} : g.reads maxPackets = false →
      Stepped maxPackets ⟨.reading ritardatore, g⟩ .go ⟨checkingPc ritardatore, g⟩
  | read {g g' : Globals} {ritardatore : Bool} {outcomes : List Recv} {past : List UInt8}
      {recv : Recv} : g.reads maxPackets = true → doWhile readAgain outcomes = some (recv, []) →
      receiveFromSender past g recv = .ok g' →
      Stepped maxPackets ⟨.reading ritardatore, g⟩ (.read outcomes past)
        ⟨.reading ritardatore, g'⟩
  | check {g g' : Globals} {counter : Nat} {outcome : Recv} : counter < maxPackets →
      checkRitardatore g outcome = .ok g' →
      Stepped maxPackets ⟨.checking counter, g⟩ (.check outcome) ⟨.checking (counter + 1), g'⟩
  | checked {g : Globals} {counter : Nat} : maxPackets ≤ counter →
      Stepped maxPackets ⟨.checking counter, g⟩ .go ⟨.testing, g⟩
  | allSent {g : Globals} : g.allSent = true →
      Stepped maxPackets ⟨.testing, g⟩ .go ⟨.exited .allSent, g⟩
  | again {g : Globals} : g.allSent = false → Stepped maxPackets ⟨.testing, g⟩ .go ⟨.top, g⟩
  | error {pc : Pc} {g : Globals} {e : Event} {message : String} :
      Stepped maxPackets ⟨pc, g⟩ e ⟨.exited (.printError message), g⟩

/-- What a step without a system call did. -/
theorem Config.go_stepped {maxPackets : Nat} {c c' : Config} (h : c.go maxPackets = some c') :
    Stepped maxPackets c .go c' := by
  obtain ⟨pc, g⟩ := c
  cases pc with
  | top => cases h; exact .scan
  | sending iter scans =>
    simp only [Config.go] at h
    split at h
    next hd => cases h; exact .scanned hd
    next => cases h
  | reading ritardatore =>
    simp only [Config.go] at h
    split at h
    next => cases h
    next hr => cases h; exact .filled (Bool.not_eq_true _ ▸ hr)
  | checking counter =>
    simp only [Config.go] at h
    split at h
    next => cases h
    next hc => cases h; exact .checked (Nat.le_of_not_lt hc)
  | testing =>
    simp only [Config.go] at h
    split at h
    next ha => cases h; exact .allSent ha
    next ha => cases h; exact .again (Bool.not_eq_true _ ▸ ha)
  | selecting => cases h
  | exited why => cases h

/-- What a step with `sendto` did. -/
theorem Config.send_stepped {maxPackets : Nat} {c c' : Config} {outcomes : List SendTo}
    (h : c.send maxPackets outcomes = some c') : Stepped maxPackets c (.send outcomes) c' := by
  obtain ⟨pc, g⟩ := c
  cases pc with
  | sending iter scans =>
    cases iter with
    | nil => cases h
    | cons iter next =>
      simp only [Config.send] at h
      split at h
      next => cases h
      next =>
        split at h
        next sendto _ =>
          cases sendto with
          | sent => cases h; exact .send rfl
          | failed errno => cases h; exact .error
        next => cases h
  | _ => cases h

/-- What a step with `select` did. -/
theorem Config.select_stepped {maxPackets : Nat} {c c' : Config} {outcome : Select}
    (h : c.select outcome = some c') : Stepped maxPackets c (.select outcome) c' := by
  obtain ⟨pc, g⟩ := c
  cases pc with
  | selecting =>
    cases outcome with
    | failed errno => cases h; exact .error
    | ready connectedSender ritardatore =>
      simp only [Config.select] at h
      split at h
      next =>
        cases h
        cases connectedSender with
        | true => exact .select ⟨ritardatore, .inl rfl⟩
        | false => exact .select ⟨ritardatore, .inr rfl⟩
      next => cases h
    | timeout => cases h; exact .timeout
  | _ => cases h

/-- What a step with `recv` from the sender did. -/
theorem Config.read_stepped {maxPackets : Nat} {c c' : Config} {outcomes : List Recv}
    {past : List UInt8} (h : c.read maxPackets outcomes past = some c') :
    Stepped maxPackets c (.read outcomes past) c' := by
  obtain ⟨pc, g⟩ := c
  cases pc with
  | reading ritardatore =>
    simp only [Config.read] at h
    split at h
    next hr =>
      split at h
      next recv hw =>
        split at h
        next g' hg => cases h; exact .read hr hw hg
        next => cases h; exact .error
      next => cases h
    next => cases h
  | _ => cases h

/-- What a step with `recv` from the emulator did. -/
theorem Config.check_stepped {maxPackets : Nat} {c c' : Config} {outcome : Recv}
    (h : c.check maxPackets outcome = some c') : Stepped maxPackets c (.check outcome) c' := by
  obtain ⟨pc, g⟩ := c
  cases pc with
  | checking counter =>
    simp only [Config.check] at h
    split at h
    next hc =>
      split at h
      next g' hg => cases h; exact .check hc hg
      next => cases h; exact .error
    next => cases h
  | _ => cases h

/-- Every step of the main loop is one of the cases of `Stepped`, which is what every invariant is
proved from. -/
theorem stepped_of_step {maxPackets : Nat} {c c' : Config} {e : Event}
    (h : step maxPackets c e = some c') : Stepped maxPackets c e c' := by
  cases e with
  | go => exact Config.go_stepped h
  | send outcomes => exact Config.send_stepped h
  | select outcome => exact Config.select_stepped h
  | read outcomes past => exact Config.read_stepped h
  | check outcome => exact Config.check_stepped h

/-! ## Steps that can be made -/

section

variable {maxPackets : Nat} {g g' : Globals}

/-- One turn of the walk over the list. -/
theorem step_send {n : Node} {next : List Node} {scans : Nat}
    (hd : scanDone maxPackets scans (n :: next) = false) (hg : sendPacket g n .sent = .ok g') :
    step maxPackets ⟨.sending (n :: next) scans, g⟩ (.send [.sent]) =
      some ⟨.sending next (scans + 1), g'⟩ := by
  simp only [step, Config.send, hd, Bool.false_eq_true, ↓reduceIte, doWhile, sendAgain, hg]

/-- `select` reports sockets it was given. The reading comes first when the sender is among them. -/
theorem step_select {connectedSender ritardatore : Bool}
    (h : selectable g.endingRead connectedSender ritardatore = true) :
    step maxPackets ⟨.selecting, g⟩ (.select (.ready connectedSender ritardatore)) =
      some ⟨if connectedSender then .reading ritardatore else checkingPc ritardatore, g⟩ := by
  simp only [step, Config.select, h, ↓reduceIte]

/-- The reading loop ends when the list is full or the stream has ended. -/
theorem step_filled (ritardatore : Bool) (hreads : g.reads maxPackets = false) :
    step maxPackets ⟨.reading ritardatore, g⟩ .go = some ⟨checkingPc ritardatore, g⟩ := by
  simp only [step, Config.go, hreads, Bool.false_eq_true, ↓reduceIte]

/-- One turn of the reading loop. -/
theorem step_read (ritardatore : Bool) {bytes past : List UInt8}
    (hreads : g.reads maxPackets = true)
    (hg : receiveFromSender past g (.data bytes) = .ok g') :
    step maxPackets ⟨.reading ritardatore, g⟩ (.read [.data bytes] past) =
      some ⟨.reading ritardatore, g'⟩ := by
  simp only [step, Config.read, hreads, Bool.false_eq_true, ↓reduceIte, doWhile, readAgain, hg]

/-- One turn of the loop that reads from the emulator. -/
theorem step_check {counter : Nat} {outcome : Recv} (hc : counter < maxPackets)
    (hg : checkRitardatore g outcome = .ok g') :
    step maxPackets ⟨.checking counter, g⟩ (.check outcome) =
      some ⟨.checking (counter + 1), g'⟩ := by
  simp only [step, Config.check, hc, hg, ↓reduceIte]

/-- That loop ends after `maxPackets` turns. -/
theorem step_checked : step maxPackets ⟨.checking maxPackets, g⟩ .go = some ⟨.testing, g⟩ := by
  simp only [step, Config.go, lt_irrefl, ↓reduceIte]

/-- The main loop is left when the list is empty and `finalize` set. -/
theorem step_allSent (hall : g.allSent = true) :
    step maxPackets ⟨.testing, g⟩ .go = some ⟨.exited .allSent, g⟩ := by
  simp only [step, Config.go, hall, ↓reduceIte]

/-- Otherwise it begins again. -/
theorem step_again (hall : g.allSent = false) :
    step maxPackets ⟨.testing, g⟩ .go = some ⟨.top, g⟩ := by
  simp only [step, Config.go, hall, Bool.false_eq_true, ↓reduceIte]

end

end GProxy.Psender
