import GProxy.Psender.Pass

/-!
# The way on

From wherever its main loop stands the sending proxy can go on when nothing more arrives: out of a
walk over its list, or out of a `select` it is in, to `select` (`comes_to_select`), and out of the
branches behind `select` to the test (`comes_to_test`). From the test it makes a pass over its list
(`passes`). In `select` it needs something readable: it takes an acknowledgement (`takes_ack`) or
reads on in the stream (`reads_on`), and when the stream is at its end only the first is left. So
what it waits for there is the answer to the datagrams of the pass it has made, and those are the
last ones it sent (`Config.Walking`).

The stream is read in full buffers, so the numbers that are left suffice when they suffice for full
buffers (`Fits`). Time is not modelled: that `select` gives up after a while is a step that can be
made, not one that has to be.
-/

namespace GProxy.Psender

variable {stream : List UInt8} {P : List UInt8 → Prop} {maxPackets : Nat}

/-- The environment in which the sender writes `stream` and what arrives from the emulator is of a
kind. `select` finds the emulator's socket readable only when something of the kind is there. -/
def Hears (stream : List UInt8) (P : List UInt8 → Prop) (c : Config) : Event → Prop
  | .check outcome => outcome.OnData P
  | .select (.ready _ true) => ∃ bytes, P bytes
  | e => Streams stream c e

/-- The environment in which nothing arrives from the emulator. -/
abbrev Deaf (stream : List UInt8) : Config → Event → Prop := Hears stream fun _ => False

/-- An environment that lets less arrive is one that lets more arrive. -/
theorem Hears.mono {Q : List UInt8 → Prop} (hsub : ∀ bytes, P bytes → Q bytes) {c : Config}
    {e : Event} (h : Hears stream P c e) : Hears stream Q c e := by
  cases e with
  | check outcome =>
    cases outcome with
    | data bytes => exact hsub bytes h
    | failed errno => trivial
  | select outcome =>
    cases outcome with
    | ready connectedSender ritardatore =>
      cases ritardatore with
      | true => exact Exists.imp hsub h
      | false => trivial
    | failed | timeout => trivial
  | go | send | read => exact h

/-- Nothing arriving is a kind of anything arriving. -/
theorem Deaf.hears {c : Config} {e : Event} (h : Deaf stream c e) : Hears stream P c e :=
  h.mono fun _ => False.elim

/-! ## The walks -/

/-- From anywhere in the walk over the list, the rest of it is sent and `select` is reached. -/
theorem sending_walk {scans : Nat} {iter : List Node} {g : Globals}
    (hroom : scans + iter.length ≤ maxPackets) :
    Machine.Run (step maxPackets) (Deaf stream) ⟨.sending iter scans, g⟩
      ⟨.selecting, g.afterPass iter⟩ :=
  sending_runs (fun _ => trivial) (fun _ => trivial) hroom

/-- With nothing there the checking loop only counts up. -/
theorem checking_runs (counter : Nat) (g : Globals) :
    Machine.Run (step maxPackets) (Deaf stream) ⟨.checking counter, g⟩ ⟨.testing, g⟩ := by
  induction hleft : maxPackets - counter generalizing counter with
  | zero =>
    have hdone : ¬ counter < maxPackets := by omega
    exact .single ⟨.go, trivial, by simp only [step, Config.go, if_neg hdone]⟩
  | succ left ih =>
    have hc : counter < maxPackets := by omega
    exact .head ⟨.check (.failed .EAGAIN), trivial, step_check hc rfl⟩ (ih (counter + 1) (by omega))

/-- From the loop that reads from the emulator the test of the main loop is reached with nothing
read. -/
theorem checkingPc_runs (ritardatore : Bool) (g : Globals) :
    Machine.Run (step maxPackets) (Deaf stream) ⟨checkingPc ritardatore, g⟩ ⟨.testing, g⟩ := by
  cases ritardatore with
  | true => exact checking_runs 0 g
  | false => exact .refl

/-! ## The reading loop -/

/-- The bytes of the stream that are still to be read. -/
def Globals.unread (stream : List UInt8) (g : Globals) : Nat :=
  stream.length - g.readBytes.length

/-- The reads that are still to be made at most: a byte each, and one at the end. -/
def Globals.toRead (stream : List UInt8) (g : Globals) : Nat :=
  g.unread stream + if g.endingRead then 0 else 1

/-- Numbers are left for the rest of the stream, in full buffers. -/
def Globals.Fits (stream : List UInt8) (g : Globals) : Prop :=
  g.created.length + (g.unread stream + (payloadSize - 1)) / payloadSize < 2 ^ 32 - 1

instance (g : Globals) : Decidable (g.Fits stream) := Nat.decLt _ _

/-- What is read when the sender has written all it will: a buffer full, or what is left. -/
theorem read_next {g : Globals} (h : Packets stream maxPackets g)
    (hreads : g.reads maxPackets = true) (hfits : g.Fits stream) :
    ∃ bytes g', Continues stream g bytes ∧ receiveFromSender [] g (.data bytes) = .ok g' ∧
      Packets stream maxPackets g' ∧ g'.Fits stream ∧ g'.toRead stream < g.toRead stream := by
  obtain ⟨rest, hrest⟩ := h.read_within
  have hopen := (reads_iff.mp hreads).2
  have hlen : stream.length = g.readBytes.length + rest.length := by
    rw [← hrest, List.length_append]
  have hcont : Continues stream g (rest.take payloadSize) := by
    refine ⟨?_, List.length_take_le _ _, ?_⟩
    · rw [← hrest]
      exact (List.prefix_append_right_inj _).mpr (List.take_prefix _ _)
    · intro hnil
      rcases List.take_eq_nil_iff.mp hnil with hzero | hnone
      · exact absurd hzero (by decide)
      · rw [← hrest, hnone, List.append_nil]
  have htake : (rest.take payloadSize).length = min payloadSize rest.length := List.length_take
  refine ⟨rest.take payloadSize, ?_⟩
  generalize rest.take payloadSize = bytes at hcont htake
  cases bytes with
  | nil =>
    have hall := hcont.2.2 rfl
    refine ⟨_, hcont, rfl, h.ended hreads hall, hfits, ?_⟩
    simp only [Globals.toRead, hopen, Bool.false_eq_true, ↓reduceIte]
    exact Nat.lt_succ_self _
  | cons b bs =>
    have hread : (g.created ++ [(g.currentId, b :: bs)]).map Prod.snd =
        g.created.map Prod.snd ++ [b :: bs] := by
      rw [List.map_append, List.map_singleton]
    have hlen' : (((g.created ++ [(g.currentId, b :: bs)]).map Prod.snd).flatten).length =
        g.readBytes.length + (b :: bs).length := by
      rw [hread, List.flatten_append, List.flatten_singleton, List.length_append]
      rfl
    have hsome : 1 ≤ (b :: bs).length := Nat.succ_pos _
    have hcount : (g.created ++ [(g.currentId, b :: bs)]).length = g.created.length + 1 :=
      List.length_append
    unfold Globals.Fits Globals.unread payloadSize at hfits
    unfold payloadSize at htake
    refine ⟨_, hcont, rfl, h.body hreads (List.cons_ne_nil _ _) hcont (by omega), ?_, ?_⟩
    · simp only [Globals.Fits, Globals.unread, Globals.readBytes, payloadSize, hlen', hcount]
      simp only [Globals.readBytes] at hlen hfits
      omega
    · simp only [Globals.toRead, Globals.unread, Globals.readBytes, hlen', hopen,
        Bool.false_eq_true, ↓reduceIte]
      simp only [Globals.readBytes] at hlen
      omega

/-- The reading loop ends with the list full or the stream at its end. -/
theorem reading_runs {g : Globals} (h : Packets stream maxPackets g) (hfits : g.Fits stream)
    (ritardatore : Bool) :
    ∃ g', Machine.Run (step maxPackets) (Deaf stream) ⟨.reading ritardatore, g⟩
        ⟨checkingPc ritardatore, g'⟩ ∧ g'.Fits stream ∧ g'.toRead stream ≤ g.toRead stream ∧
      (g.reads maxPackets = true → g'.toRead stream < g.toRead stream) := by
  induction hleft : g.toRead stream using Nat.strongRecOn generalizing g with
  | _ left ih =>
    cases hreads : g.reads maxPackets with
    | false => exact ⟨g, .single ⟨.go, trivial, step_filled _ hreads⟩, hfits, hleft.le, nofun⟩
    | true =>
      obtain ⟨bytes, g₁, hcont, hread, h₁, hfits₁, hlt⟩ := read_next h hreads hfits
      obtain ⟨g', run, hfits', hle, _⟩ := ih _ (hleft ▸ hlt) h₁ hfits₁ rfl
      have hstream : Deaf stream ⟨.reading ritardatore, g⟩ (.read [.data bytes] []) := by
        intro r hr
        rw [List.mem_singleton.mp hr]
        exact hcont
      have hlower : g'.toRead stream < left := lt_of_le_of_lt hle (hleft ▸ hlt)
      exact ⟨g', .head ⟨_, hstream, step_read _ hreads hread⟩ run, hfits', hlower.le,
        fun _ => hlower⟩

/-! ## The datagrams of a walk -/

/-- How many datagrams were sent before the walk over the list that the loop is in, or that it has
made when it waits in `select`. -/
def Config.before (c : Config) : Nat :=
  match c.pc with
  | .sending _ scans => c.globals.sent.length - scans
  | .selecting => c.globals.sent.length - c.globals.toSend.nodes.length
  | _ => c.globals.sent.length

/-- What was sent before the walk is part of what was sent. -/
theorem Config.before_le (c : Config) : c.before ≤ c.globals.sent.length := by
  unfold before
  split
  next => exact Nat.sub_le _ _
  next => exact Nat.sub_le _ _
  next => exact le_rfl

/-- The last datagrams are those of these nodes, and an end marker among them set `finalize`. -/
structure Globals.Walked (g : Globals) (done : List Node) : Prop where
  sent_last : done.map Node.wire <:+ g.sent.map Datagram.bytes
  finalize : ∀ n ∈ done, n.id = 0 → g.finalize = true

/-- A walk that has passed nothing. -/
theorem Globals.Walked.nil (g : Globals) : g.Walked [] :=
  ⟨List.nil_suffix, fun _ hn => absurd hn List.not_mem_nil⟩

/-- The walk goes on. -/
theorem Globals.Walked.afterPass {g : Globals} {done : List Node} (h : g.Walked done)
    (iter : List Node) : (g.afterPass iter).Walked (done ++ iter) := by
  obtain ⟨earlier, hearlier⟩ := h.sent_last
  refine ⟨⟨earlier, ?_⟩, ?_⟩
  · simp only [Globals.afterPass, List.map_append, List.map_map, ← List.append_assoc, hearlier]
    rfl
  · intro n hn h0
    rcases List.mem_append.mp hn with hn | hn
    · exact Bool.or_eq_true_iff.mpr (.inl (h.finalize n hn h0))
    · have hid : htonl n.packet.id = 0 := htonl_eq_zero_iff.mpr (Node.id_eq_iff.mpr h0)
      exact Bool.or_eq_true_iff.mpr (.inr (List.any_eq_true.mpr ⟨n, hn, decide_eq_true hid⟩))

/-- A node of the walk was sent in it. -/
theorem Globals.Walked.sent_since {g : Globals} {done : List Node} (h : g.Walked done) {n : Node}
    (hn : n ∈ done) : ∃ d ∈ g.sent.drop (g.sent.length - done.length), d.bytes = n.wire := by
  have hlast := List.suffix_iff_eq_drop.mp h.sent_last
  rw [List.length_map, List.length_map, ← List.map_drop] at hlast
  exact List.mem_map.mp (hlast ▸ List.mem_map_of_mem hn)

/-- What was sent last is what the walk over the list has passed. -/
def Config.Walking (c : Config) : Prop :=
  match c.pc with
  | .sending iter scans => ∃ done, c.globals.toSend.nodes = done ++ iter ∧ done.length = scans ∧
      c.globals.Walked done
  | .selecting => c.globals.Walked c.globals.toSend.nodes
  | _ => True

/-- At the start there is no walk. -/
theorem Config.Walking.initial : Config.Walking .initial := trivial

/-- In the loop that reads from the emulator there is no walk. -/
theorem walking_checkingPc (ritardatore : Bool) (g : Globals) :
    Config.Walking ⟨checkingPc ritardatore, g⟩ := by
  cases ritardatore <;> exact trivial

/-- The bound does not cut a walk over the list short. -/
theorem Config.Walking.stepped {c c' : Config} {e : Event} (h : c.Walking)
    (hroom : c.globals.toSend.nodes.length ≤ maxPackets) (st : Stepped maxPackets c e c') :
    c'.Walking := by
  cases st with
  | scan => exact ⟨[], rfl, rfl, .nil _⟩
  | @scanned g iter scans hdone =>
    obtain ⟨done, hnodes, hlen, hwalked⟩ := h
    have hle : g.toSend.nodes.length ≤ maxPackets := hroom
    rw [hnodes, List.length_append] at hle
    have hempty : iter = [] := by
      rcases nil_or_le_of_scanDone hdone with hnil | hle
      · exact hnil
      · exact List.eq_nil_of_length_eq_zero (by omega)
    have hall : g.toSend.nodes = done := by rw [hnodes, hempty, List.append_nil]
    show g.Walked g.toSend.nodes
    rw [hall]
    exact hwalked
  | @send g g' iter next scans outcomes hsend =>
    cases hsend
    obtain ⟨done, hnodes, hlen, hwalked⟩ := h
    refine ⟨done ++ [iter], ?_, ?_, ?_⟩
    · rw [List.append_assoc]
      exact hnodes
    · rw [List.length_append, hlen]
      rfl
    · have hsent := hwalked.afterPass [iter]
      simp only [Globals.afterPass, List.map_cons, List.map_nil, List.any_cons, List.any_nil,
        Bool.or_false] at hsent
      exact hsent
  | select hpc =>
    obtain ⟨ritardatore, rfl | rfl⟩ := hpc
    · trivial
    · exact walking_checkingPc ritardatore _
  | filled => exact walking_checkingPc _ _
  | timeout | read | check | checked | allSent | again | error => trivial

/-! ## To `select` and to the test -/

/-- The places from which a loop goes on to `select`. -/
def Pc.passing : Pc → Bool
  | .top | .sending _ _ | .selecting => true
  | .reading _ | .checking _ | .testing | .exited _ => false

/-- A loop that is in a walk makes it to its end. -/
theorem comes_to_select {c : Config} (hroom : c.globals.toSend.nodes.length ≤ maxPackets)
    (hfits : c.globals.Fits stream) (hwalking : c.Walking) (hpassing : c.pc.passing = true) :
    ∃ g', Machine.Run (step maxPackets) (Deaf stream) c ⟨.selecting, g'⟩ ∧ g'.Fits stream ∧
      g'.Walked g'.toSend.nodes ∧ Config.before ⟨.selecting, g'⟩ = c.before := by
  obtain ⟨pc, g⟩ := c
  have hsent : ∀ iter : List Node,
      (g.afterPass iter).sent.length = g.sent.length + iter.length := by
    intro iter
    simp only [Globals.afterPass, List.length_append, List.length_map]
  cases pc with
  | top =>
    have hwalk : Machine.Run (step maxPackets) (Deaf stream) ⟨.sending g.toSend.nodes 0, g⟩
        ⟨.selecting, g.afterPass g.toSend.nodes⟩ := sending_walk ((Nat.zero_add _).trans_le hroom)
    refine ⟨_, .head ⟨.go, trivial, rfl⟩ hwalk, hfits, (Globals.Walked.nil g).afterPass _, ?_⟩
    show (g.afterPass g.toSend.nodes).sent.length - g.toSend.nodes.length = g.sent.length
    rw [hsent]
    omega
  | sending iter scans =>
    obtain ⟨done, (hnodes : g.toSend.nodes = done ++ iter), rfl, hwalked⟩ := hwalking
    have hlength : g.toSend.nodes.length = done.length + iter.length := by
      rw [hnodes, List.length_append]
    refine ⟨_, sending_walk (hlength ▸ hroom), hfits, ?_, ?_⟩
    · show (g.afterPass iter).Walked g.toSend.nodes
      rw [hnodes]
      exact hwalked.afterPass iter
    · show (g.afterPass iter).sent.length - g.toSend.nodes.length = g.sent.length - done.length
      rw [hsent, hlength]
      omega
  | selecting => exact ⟨g, .refl, hfits, hwalking, rfl⟩
  | reading | checking | testing | exited => cases hpassing

/-- A loop that is in the branches behind `select` comes to the test. -/
theorem comes_to_test {c : Config} (h : Packets stream maxPackets c.globals)
    (hfits : c.globals.Fits stream) (hpassing : c.pc.passing = false)
    (hrun : ∀ why, c.pc ≠ .exited why) :
    ∃ g', Machine.Run (step maxPackets) (Deaf stream) c ⟨.testing, g'⟩ ∧ g'.Fits stream := by
  obtain ⟨pc, g⟩ := c
  cases pc with
  | reading ritardatore =>
    obtain ⟨g', run, hfits', _⟩ := reading_runs h hfits ritardatore
    exact ⟨g', run.trans (checkingPc_runs ritardatore g'), hfits'⟩
  | checking counter => exact ⟨g, checking_runs counter g, hfits⟩
  | testing => exact ⟨g, .refl, hfits⟩
  | exited why => exact absurd rfl (hrun why)
  | top | sending | selecting => cases hpassing

/-! ## One iteration -/

/-- From the test a loop that goes on sends its whole list. -/
theorem passes {g : Globals} (h : Packets stream maxPackets g) (hall : g.allSent = false) :
    Machine.Run (step maxPackets) (Deaf stream) ⟨.testing, g⟩
      ⟨.selecting, g.afterPass g.toSend.nodes⟩ :=
  .head ⟨.go, trivial, step_again hall⟩
    (pass_runs (fun _ => trivial) (fun _ => trivial) h.toSend_room)

/-- An acknowledgement takes its packet out of the list. -/
theorem checkRitardatore_acked {g : Globals} (hnodup : (g.toSend.nodes.map Node.id).Nodup)
    (stack : List UInt8) (id : UInt32) :
    ∃ currentAck toSend heap,
      checkRitardatore g (.data (ackImage stack id)) = .ok { g with currentAck, toSend, heap } ∧
        toSend.nodes = g.toSend.nodes.filter (·.packet.id ≠ id) := by
  have hnodes := removeNodeById_nodes hnodup id
  rw [checkRitardatore_ackImage, acknowledge, ackedId_ackImage]
  split
  next toSend current hremove =>
    rw [hremove] at hnodes
    exact ⟨_, _, _, rfl, hnodes⟩
  next toSend hremove =>
    rw [hremove] at hnodes
    exact ⟨_, _, _, rfl, hnodes⟩

/-- An acknowledgement that arrives in `select` takes its packet out of the list. -/
theorem takes_ack {g : Globals} (hm : 1 ≤ maxPackets) (h : Packets stream maxPackets g)
    (stack : List UInt8) (id : UInt32) :
    ∃ currentAck toSend heap,
      Machine.Run (step maxPackets) (Hears stream (· = ackImage stack id)) ⟨.selecting, g⟩
        ⟨.testing, { g with currentAck, toSend, heap }⟩ ∧
      toSend.nodes = g.toSend.nodes.filter (·.packet.id ≠ id) := by
  obtain ⟨currentAck, toSend, heap, hcheck, hnodes⟩ :=
    checkRitardatore_acked h.toSend_nodup stack id
  refine ⟨currentAck, toSend, heap, ?_, hnodes⟩
  refine .head ⟨.select (.ready false true), ⟨_, rfl⟩, step_select rfl⟩ ?_
  refine .head ⟨.check (.data (ackImage stack id)), rfl, step_check hm hcheck⟩ ?_
  exact (checking_runs 1 _).mono fun _ _ => Deaf.hears

/-- A loop in `select` with room in its list and a stream that goes on reads on. -/
theorem reads_on {g : Globals} (h : Packets stream maxPackets g) (hfits : g.Fits stream)
    (hreads : g.reads maxPackets = true) :
    ∃ g', Machine.Run (step maxPackets) (Deaf stream) ⟨.selecting, g⟩ ⟨.testing, g'⟩ ∧
      g'.Fits stream ∧ g'.toRead stream < g.toRead stream := by
  have hopen : selectable g.endingRead true false = true := by
    rw [(reads_iff.mp hreads).2]
    rfl
  obtain ⟨g', run, hfits', _, hlt⟩ := reading_runs h hfits false
  exact ⟨g', .head ⟨.select (.ready true false), trivial, step_select hopen⟩ run, hfits',
    hlt hreads⟩

end GProxy.Psender
