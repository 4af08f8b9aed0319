import GProxy.Preceiver.Rounds
import GProxy.Psender.Rounds
import GProxy.System.Host
import Mathlib.Order.WellFounded

/-!
# A transfer can always be completed

Whatever the network did to it so far, a transfer can be completed as long as both proxies are in
their loops and the end marker was not read by the receiving one (`transfer_completable`). What is
needed for it is sent again: nothing that was sent before has to arrive any more, but for the
datagrams of the walk over its list that psender is in, or waits in `select` after. At the end of
the stream that `select` has nothing else to wait for.

psender stands in `select` with its list sent (`Ready`). The packet with the least number in it is
read and acknowledged (`Ready.exchange`), whether preceiver waits for it or delivered it long ago
and lost its acknowledgement. When no packet is left psender reads on in the stream
(`Ready.advance`), and at its end the marker is exchanged as the last one.

Time is not modelled: a `select` of preceiver times out at any step, and psender's need not. What is
shown is that a good continuation exists, not that the network and the clock will grant it.
-/

namespace GProxy.Sys

variable {stream : List UInt8} {senderMax receiverMax : Nat} {lost s : Sys}

/-- What can arrive when the first `before` datagrams are lost. -/
def Since (before : Nat) (sent : List Datagram) (bytes : List UInt8) : Prop :=
  ∃ d ∈ sent.drop before, d.bytes = bytes

/-- The network that injects nothing and has lost all that was sent up to a state, but for what
psender sent in the walk over its list that it is in. -/
def Afresh (stream : List UInt8) (lost s : Sys) : Event → Prop
  | .psender e => Psender.Hears stream
      (Since lost.preceiver.globals.sent.length s.preceiver.globals.sent) s.psender e
  | .preceiver e => Preceiver.Hears
      (Since lost.psender.before s.psender.globals.sent) s.preceiver e

/-- What was sent since then was sent, so it may arrive. -/
theorem Since.arrives {before : Nat} {sent : List Datagram} {bytes : List UInt8}
    (h : Since before sent bytes) : Arrives sent bytes := by
  obtain ⟨d, hd, hbytes⟩ := h
  exact .inl ⟨d, List.mem_of_mem_drop hd, hbytes⟩

/-- It is one of the networks that may do anything but alter a datagram. -/
theorem Afresh.network {e : Event} (h : Afresh stream lost s e) : Network stream s e := by
  cases e with
  | psender e =>
    cases e with
    | check outcome =>
      cases outcome with
      | data bytes => exact Since.arrives h
      | failed errno => trivial
    | select outcome => trivial
    | go | send | read => exact h
  | preceiver e =>
    cases e with
    | recv outcomes =>
      intro r hr
      have hdata := h r hr
      cases r with
      | data bytes => exact hdata.arrives
      | failed errno => trivial
    | select outcome => rfl
    | go | send | ack => exact h

/-! ## Going on -/

/-- A state that a network which lost all that was sent up to `lost` leads to, with numbers left
for the rest of the stream. -/
structure Onward (stream : List UInt8) (senderMax receiverMax : Nat) (lost s : Sys) : Prop where
  reached : Reached stream senderMax receiverMax s
  run : Machine.Run (step senderMax receiverMax) (Afresh stream lost) lost s
  fits : s.psender.globals.Fits stream

/-- Numbers left for the rest of the stream are numbers left. -/
theorem Onward.few (h : Onward stream senderMax receiverMax lost s) : s.Few :=
  Nat.lt_of_le_of_lt (Nat.le_add_right _ _) h.fits

/-- Going on keeps the invariant of the two proxies. -/
theorem Onward.linked (h : Onward stream senderMax receiverMax lost s) :
    Linked stream senderMax s := .run h.reached h.few

/-- Going on keeps the invariant of psender's packets. -/
theorem Onward.packets (h : Onward stream senderMax receiverMax lost s) :
    Psender.Packets stream senderMax s.psender.globals := h.linked.psender.packets

/-- Everywhere in a run what psender sent last is what its walk has passed. -/
theorem walking_run (run : Reached stream senderMax receiverMax s) (hfew : s.Few) :
    s.psender.Walking := by
  refine (run.guarded (I := fun s => Linked stream senderMax s ∧ s.psender.Walking) few_back ?_
    ⟨.initial, .initial⟩ hfew).2
  rintro t e u ⟨hlinked, hwalking⟩ hfew hnet hstep
  refine ⟨hlinked.stepped e u hfew hnet hstep, ?_⟩
  cases e with
  | psender e =>
    obtain ⟨c, hc, rfl⟩ := Option.map_eq_some_iff.mp hstep
    exact hwalking.stepped hlinked.psender.packets.toSend_room (Psender.stepped_of_step hc)
  | preceiver e =>
    obtain ⟨c, hc, rfl⟩ := Option.map_eq_some_iff.mp hstep
    exact hwalking

/-- More and more is sent. -/
theorem Onward.sent_le (h : Onward stream senderMax receiverMax lost s) :
    lost.psender.globals.sent.length ≤ s.psender.globals.sent.length ∧
      lost.preceiver.globals.sent.length ≤ s.preceiver.globals.sent.length := by
  refine h.run.invariant (I := fun t =>
    lost.psender.globals.sent.length ≤ t.psender.globals.sent.length ∧
      lost.preceiver.globals.sent.length ≤ t.preceiver.globals.sent.length) ?_ ⟨le_rfl, le_rfl⟩
  rintro t e u ⟨hpsender, hpreceiver⟩ _ hstep
  have hgrown : ∀ {sent sent' : List Datagram} {port : UInt16},
      (sent' = sent ∨ ∃ bytes, sent' = sent ++ [⟨port, bytes⟩]) → sent.length ≤ sent'.length := by
    rintro sent _ port (rfl | ⟨bytes, rfl⟩)
    · exact le_rfl
    · rw [List.length_append]
      exact Nat.le_add_right _ _
  cases e with
  | psender e =>
    obtain ⟨c, hc, rfl⟩ := Option.map_eq_some_iff.mp hstep
    have hsent := (Psender.ports_of_step (Psender.stepped_of_step hc)).2
    exact ⟨hpsender.trans (hgrown hsent), hpreceiver⟩
  | preceiver e =>
    obtain ⟨c, hc, rfl⟩ := Option.map_eq_some_iff.mp hstep
    have hsent := (Preceiver.ports_of_step (Preceiver.stepped_of_step hc)).2
    exact ⟨hpsender, hpreceiver.trans (hgrown hsent)⟩

/-- A state that can be gone on from leads, over the same network, to others that can. -/
theorem Onward.trans {t : Sys} (h : Onward stream senderMax receiverMax lost s)
    (run : Machine.Run (step senderMax receiverMax) (Afresh stream lost) s t)
    (hfits : t.psender.globals.Fits stream) : Onward stream senderMax receiverMax lost t :=
  ⟨h.reached.trans (run.mono fun _ _ => Afresh.network), h.run.trans run, hfits⟩

/-- A run of psender on its own. -/
theorem Onward.psender {P : List UInt8 → Prop} {c c' : Psender.Config} {r : Preceiver.Config}
    (h : Onward stream senderMax receiverMax lost ⟨c, r⟩)
    (hP : ∀ bytes, P bytes → Since lost.preceiver.globals.sent.length r.globals.sent bytes)
    (run : Machine.Run (Psender.step senderMax) (Psender.Hears stream P) c c')
    (hfits : c'.globals.Fits stream) : Onward stream senderMax receiverMax lost ⟨c', r⟩ := by
  refine h.trans (run.lift (fun c => (⟨c, r⟩ : Sys)) ?_) hfits
  rintro a b ⟨e, hears, hstep⟩
  refine ⟨.psender e, hears.mono hP, ?_⟩
  simp only [step, hstep, Option.map_some]

/-- A run of preceiver on its own. -/
theorem Onward.preceiver {P : List UInt8 → Prop} {p : Psender.Config} {c c' : Preceiver.Config}
    (h : Onward stream senderMax receiverMax lost ⟨p, c⟩)
    (hP : ∀ bytes, P bytes → Since lost.psender.before p.globals.sent bytes)
    (run : Machine.Run (Preceiver.step receiverMax) (Preceiver.Hears P) c c') :
    Onward stream senderMax receiverMax lost ⟨p, c'⟩ := by
  refine h.trans (run.lift (fun c => (⟨p, c⟩ : Sys)) ?_) h.fits
  rintro a b ⟨e, hears, hstep⟩
  refine ⟨.preceiver e, hears.mono hP, ?_⟩
  simp only [step, hstep, Option.map_some]

/-! ## Before the end marker was read -/

/-- What preceiver buffers can be delivered. -/
theorem Linked.deliverables (h : Linked stream senderMax s) (hfew : s.Few) :
    Preceiver.Deliverables s.preceiver.globals := by
  refine ⟨h.preceiver.ordered, ?_, fun n hn => h.no_wrap hfew hn⟩
  intro n hn
  obtain ⟨_, hmade⟩ := h.sound.buffer_made (n.id, n.payload) ⟨n, hn, rfl, rfl⟩
  obtain ⟨p, hp, hbody⟩ := List.mem_map.mp (List.mem_of_getElem? hmade.2)
  have hne : n.payload ≠ [] := fun hnil =>
    (h.psender.packets.created_fits p hp).1 (hbody.trans hnil)
  by_contra hsmall
  apply hne
  rw [Node.payload, Int.toNat_of_nonpos (by omega), List.take_zero]

/-- An end marker that was not read is still in psender's list. -/
theorem Linked.marker_held (h : Linked stream senderMax s) (hmark : ¬ Read s.preceiver.globals 0)
    (hended : s.psender.globals.endingRead = true) :
    ∃ n ∈ s.psender.globals.toSend.nodes, n.id = 0 := by
  by_contra hnone
  exact hmark (read_marker_iff.mpr (h.sound.marker_seen hended hnone))

/-- psender is not done before the end marker was read: it takes the marker out of its list only
when that was acknowledged. -/
theorem Linked.not_allSent (h : Linked stream senderMax s)
    (hmark : ¬ Read s.preceiver.globals 0) : s.psender.globals.allSent = false := by
  by_contra hall
  simp only [Psender.Globals.allSent, Bool.not_eq_false, Bool.and_eq_true,
    decide_eq_true_eq] at hall
  obtain ⟨n, hn, _⟩ := h.marker_held hmark (h.psender.packets.finalize_ended hall.2)
  rw [h.psender.packets.toSend_counted.length_eq_zero_iff.mp hall.1] at hn
  cases hn

/-- preceiver is not done before the end marker was read, for nothing but the marker sets its
`finalize`. -/
theorem Onward.not_finished (h : Onward stream senderMax receiverMax lost s)
    (hmark : ¬ Read s.preceiver.globals 0) : s.preceiver.globals.finished = false := by
  by_contra hfin
  simp only [Preceiver.Globals.finished, Bool.not_eq_false, Bool.and_eq_true] at hfin
  exact hmark ((Ended.run h.reached h.few).2.finalize_read hfin.1.1)

/-- A packet of psender's list none is before: the end marker, or the data packet with the least
number. -/
def Front (nodes : List Node) (n : Node) : Prop :=
  n ∈ nodes ∧ (n.id = 0 ∨ ∀ m ∈ nodes, m.id ≠ 0 → n.id ≤ m.id)

/-- With nothing to deliver and nothing to acknowledge the number of a front packet is not
buffered: preceiver waits for it or is past it. -/
theorem Linked.front_not_buffered (h : Linked stream senderMax s)
    (hsettled : Preceiver.Settled s.preceiver.globals) {n : Node}
    (hfront : Front s.psender.globals.toSend.nodes n) :
    ∀ x ∈ s.preceiver.globals.toSend.nodes, x.packet.id ≠ n.packet.id := by
  intro x hx hid
  have hid' : x.id = n.id := congrArg UInt32.toNat hid
  obtain ⟨hahead, hmade⟩ := h.sound.buffer_made (x.id, x.payload) ⟨x, hx, rfl, rfl⟩
  have hpos := h.sound.next_pos
  have hlast : s.preceiver.globals.lastSentId.toNat ≠ x.id :=
    fun heq => hsettled.1 x hx (Node.id_eq_iff.mpr heq.symm)
  obtain ⟨m, hm, hm_id⟩ := h.sound.pending_held _ le_rfl (hahead.trans hmade.le)
  simp only [view] at hahead hpos hm_id
  rcases hfront.2 with h0 | hleast
  · omega
  · have := hleast m hm (by omega)
    omega

/-- There is a front packet in a list that holds data. -/
theorem exists_front {nodes : List Node} (hdata : ∃ n ∈ nodes, n.id ≠ 0) :
    ∃ n, Front nodes n ∧ n.id ≠ 0 := by
  obtain ⟨n, ⟨hn, h0⟩, hleast⟩ := WellFounded.has_min (measure Node.id).wf
    {n | n ∈ nodes ∧ n.id ≠ 0} hdata
  exact ⟨n, ⟨hn, .inr fun m hm hm0 => Nat.not_lt.mp (hleast m ⟨hm, hm0⟩)⟩, h0⟩

/-- With only the end marker left to send everything was delivered, and nothing is buffered. -/
theorem Linked.all_delivered (h : Linked stream senderMax s)
    (hnone : ∀ n ∈ s.psender.globals.toSend.nodes, n.id = 0)
    (hended : s.psender.globals.endingRead = true) :
    s.preceiver.globals.passed.flatten = stream ∧ s.preceiver.globals.toSend.nodes = [] := by
  have hheld : ∀ k ∈ s.view.held, k = 0 := by
    rintro _ ⟨n, hn, rfl⟩
    exact hnone n hn
  constructor
  · have hout : s.preceiver.globals.passed = s.psender.globals.created.map Prod.snd :=
      h.sound.out_of_none_held hheld
    rw [hout]
    exact h.psender.packets.read_all hended
  · apply List.eq_nil_iff_forall_not_mem.mpr
    intro x hx
    obtain ⟨hahead, hmade⟩ := h.sound.buffer_made (x.id, x.payload) ⟨x, hx, rfl, rfl⟩
    have hpos := h.sound.next_pos
    have := hheld _ (h.sound.pending_held _ le_rfl (hahead.trans hmade.le))
    omega

/-! ## One packet -/

/-- A state to go on from: psender is in `select` and its list was sent, preceiver at its top with
nothing to deliver and nothing to acknowledge. -/
structure Ready (stream : List UInt8) (senderMax receiverMax : Nat) (lost : Sys)
    (g : Psender.Globals) (r : Preceiver.Globals) : Prop where
  onward : Onward stream senderMax receiverMax lost ⟨⟨.selecting, g⟩, ⟨.top, r⟩⟩
  settled : Preceiver.Settled r
  walked : g.Walked g.toSend.nodes
  before_le : lost.psender.before ≤ Psender.Config.before ⟨.selecting, g⟩

variable {g : Psender.Globals} {r : Preceiver.Globals}

/-- A state to go on from keeps the invariant of psender's packets. -/
theorem Ready.packets (h : Ready stream senderMax receiverMax lost g r) :
    Psender.Packets stream senderMax g := h.onward.packets

/-- From the test psender comes to `select` again, with its list sent once more. -/
theorem Onward.again (h : Onward stream senderMax receiverMax lost ⟨⟨.testing, g⟩, ⟨.top, r⟩⟩)
    (hsettled : Preceiver.Settled r) (hmark : ¬ Read r 0) :
    Ready stream senderMax receiverMax lost (g.afterPass g.toSend.nodes) r where
  onward := h.psender (fun _ => False.elim)
    (Psender.passes h.packets (h.linked.not_allSent hmark)) h.fits
  settled := hsettled
  walked := (Psender.Globals.Walked.nil g).afterPass g.toSend.nodes
  before_le := by
    refine (lost.psender.before_le.trans h.sent_le.1).trans ?_
    show g.sent.length ≤ (g.afterPass g.toSend.nodes).sent.length - g.toSend.nodes.length
    simp only [Psender.Globals.afterPass, List.length_append, List.length_map]
    omega

/-- What psender waits for in `select` can still arrive. -/
theorem Ready.since (h : Ready stream senderMax receiverMax lost g r) {n : Node}
    (hn : n ∈ g.toSend.nodes) :
    Since lost.psender.before g.sent (dataDatagram n.packet.id n.payload) := by
  obtain ⟨d, hd, hbytes⟩ := h.walked.sent_since hn
  refine ⟨d, ?_, hbytes.trans (h.packets.wire_eq hn).1⟩
  exact (List.drop_sublist_drop_left g.sent h.before_le).subset hd

/-- preceiver reads a packet that was sent again and acknowledges it. -/
theorem Ready.acknowledges (h : Ready stream senderMax receiverMax lost g r)
    (hr : 1 ≤ receiverMax) (hmark : ¬ Read r 0) {n : Node} (hfront : Front g.toSend.nodes n) :
    ∃ r', Ready stream senderMax receiverMax lost g r' ∧
      r'.arrived = r.arrived ++ [dataDatagram n.packet.id n.payload] ∧
      r'.Acked n.packet.id (r'.sent.drop lost.preceiver.globals.sent.length) := by
  have hlinked := h.onward.linked
  obtain ⟨r₁, hreads, harrived, hsent, hkeeps⟩ := Preceiver.receives_one hr h.settled
    hlinked.preceiver.ordered.toAck_counted (h.onward.not_finished hmark)
    (hlinked.psender.packets.wire_eq hfront.1).2
  have h₁ := h.onward.preceiver (P := (· = dataDatagram n.packet.id n.payload))
    (fun _ heq => heq.symm ▸ h.since hfront.1) hreads
  have howing : Preceiver.Owing lost.preceiver.globals.sent.length n.packet.id r₁ :=
    ⟨h₁.sent_le.2, .inl hkeeps⟩
  obtain ⟨r', hsettles, hsettled, howing'⟩ :=
    Preceiver.settles_owing (h₁.linked.deliverables h₁.few) hr howing
  have h' := h₁.preceiver (fun _ => False.elim) hsettles
  refine ⟨r', ⟨h', hsettled, h.walked, h.before_le⟩, ?_, ?_⟩
  · exact (Preceiver.Deaf.arrived_run hsettles).trans harrived
  · exact howing'.acked hsettled (h'.linked.front_not_buffered hsettled hfront)

/-- A front packet is read and acknowledged, and leaves psender's list. -/
theorem Ready.exchange (h : Ready stream senderMax receiverMax lost g r) (hs : 1 ≤ senderMax)
    (hr : 1 ≤ receiverMax) (hmark : ¬ Read r 0) {n : Node} (hfront : Front g.toSend.nodes n) :
    ∃ g' r', Onward stream senderMax receiverMax lost ⟨⟨.testing, g'⟩, ⟨.top, r'⟩⟩ ∧
      Preceiver.Settled r' ∧
      g'.toSend.nodes = g.toSend.nodes.filter (·.packet.id ≠ n.packet.id) ∧
      g'.created = g.created ∧ g'.endingRead = g.endingRead ∧
      r'.arrived = r.arrived ++ [dataDatagram n.packet.id n.payload] ∧
      (n.id = 0 → g'.finalize = true ∧ r'.finalize = true) := by
  obtain ⟨r', h₁, harrived, ⟨d, hd, stack, hbytes⟩, hfin⟩ := h.acknowledges hr hmark hfront
  obtain ⟨currentAck, toSend, heap, htakes, hnodes⟩ :=
    Psender.takes_ack hs h₁.packets stack n.packet.id
  have h₂ := h₁.onward.psender (fun _ heq => ⟨d, hd, hbytes.trans heq.symm⟩) htakes h₁.onward.fits
  exact ⟨_, r', h₂, h₁.settled, hnodes, rfl, rfl, harrived, fun h0 =>
    ⟨h.walked.finalize n hfront.1 h0, hfin (Node.id_eq_iff.mpr h0)⟩⟩

/-- Reading a data packet is not reading the end marker. -/
theorem not_read_marker {r' : Preceiver.Globals} {id : UInt32} {body : List UInt8}
    (hmark : ¬ Read r 0) (hid : id ≠ 0)
    (harrived : r'.arrived = r.arrived ++ [dataDatagram id body]) : ¬ Read r' 0 := by
  rw [read_marker_iff] at hmark ⊢
  rw [harrived, seenOf_append_data]
  rintro (h0 | hseen)
  · exact hid (UInt32.toNat_inj.mp h0.symm)
  · exact hmark hseen

/-! ## The whole transfer -/

/-- What is still to be done: each read may fill the list, each packet of the list is exchanged. -/
def toDo (stream : List UInt8) (senderMax : Nat) (g : Psender.Globals) : Nat :=
  g.toRead stream * (senderMax + 1) + g.toSend.nodes.length

/-- As long as there is a packet to exchange or something to read, there is less to do later. -/
theorem Ready.advance (h : Ready stream senderMax receiverMax lost g r) (hs : 1 ≤ senderMax)
    (hr : 1 ≤ receiverMax) (hmark : ¬ Read r 0)
    (hopen : ¬ (g.endingRead = true ∧ ∀ n ∈ g.toSend.nodes, n.id = 0)) :
    ∃ g' r', Ready stream senderMax receiverMax lost g' r' ∧ ¬ Read r' 0 ∧
      toDo stream senderMax g' < toDo stream senderMax g := by
  have hpackets := h.packets
  by_cases hdata : ∃ n ∈ g.toSend.nodes, n.id ≠ 0
  · obtain ⟨n, hfront, h0⟩ := exists_front hdata
    obtain ⟨g', r', h', hsettled, hnodes, hcreated, hended, harrived, _⟩ :=
      h.exchange hs hr hmark hfront
    have hid : n.packet.id ≠ 0 := fun hid => h0 (Node.id_eq_iff.mp hid)
    have hmark' : ¬ Read r' 0 := not_read_marker hmark hid harrived
    refine ⟨_, r', h'.again hsettled hmark', hmark', ?_⟩
    show toDo stream senderMax g' < toDo stream senderMax g
    have htoRead : g'.toRead stream = g.toRead stream := by
      simp only [Psender.Globals.toRead, Psender.Globals.unread, Psender.Globals.readBytes,
        hcreated, hended]
    have hlen : g'.toSend.nodes.length < g.toSend.nodes.length := by
      rw [hnodes]
      exact List.length_filter_lt_length_iff_exists.mpr ⟨n, hfront.1, by simp⟩
    simp only [toDo, htoRead]
    omega
  · have hnone : ∀ n ∈ g.toSend.nodes, n.id = 0 := fun n hn => by_contra fun h0 => hdata ⟨n, hn, h0⟩
    have hgoes : g.endingRead = false := by
      by_contra hended
      exact hopen ⟨Bool.not_eq_false _ ▸ hended, hnone⟩
    have hempty : g.toSend.nodes = [] := by
      apply List.eq_nil_iff_forall_not_mem.mpr
      intro n hn
      rcases hpackets.toSend_made n hn with ⟨_, hended⟩ | hmade
      · exact Bool.noConfusion (hgoes.symm.trans hended)
      · have hpos : 1 ≤ n.id := (hpackets.created_id hmade).1
        exact absurd (hnone n hn) (Nat.ne_of_gt hpos)
    have hreads : g.reads senderMax = true := by
      refine Psender.reads_iff.mpr ⟨?_, hgoes⟩
      rw [hpackets.toSend_counted, hempty]
      exact Int.ofNat_lt.mpr hs
    obtain ⟨g', run, hfits, hlt⟩ := Psender.reads_on hpackets h.onward.fits hreads
    have h' := h.onward.psender (fun _ => False.elim) run hfits
    refine ⟨_, r, h'.again h.settled hmark, hmark, ?_⟩
    calc toDo stream senderMax g'
        < g'.toRead stream * (senderMax + 1) + (senderMax + 1) :=
          Nat.add_lt_add_left (Nat.lt_succ_of_le h'.packets.toSend_room) _
      _ = (g'.toRead stream + 1) * (senderMax + 1) := (Nat.succ_mul _ _).symm
      _ ≤ g.toRead stream * (senderMax + 1) := Nat.mul_le_mul_right _ hlt
      _ ≤ toDo stream senderMax g := Nat.le_add_right _ _

/-- Only the end marker is left to exchange. -/
theorem Ready.drains (h : Ready stream senderMax receiverMax lost g r) (hs : 1 ≤ senderMax)
    (hr : 1 ≤ receiverMax) (hmark : ¬ Read r 0) :
    ∃ g' r', Ready stream senderMax receiverMax lost g' r' ∧ ¬ Read r' 0 ∧
      g'.endingRead = true ∧ ∀ n ∈ g'.toSend.nodes, n.id = 0 := by
  induction hn : toDo stream senderMax g using Nat.strongRecOn generalizing g r with
  | _ n ih =>
    by_cases hopen : g.endingRead = true ∧ ∀ n ∈ g.toSend.nodes, n.id = 0
    · exact ⟨g, r, h, hmark, hopen⟩
    · obtain ⟨g₁, r₁, h₁, hmark₁, hlt⟩ := h.advance hs hr hmark hopen
      exact ih _ (hn ▸ hlt) h₁ hmark₁ rfl

/-- With the end marker exchanged as the last one, both loops are left. -/
theorem Ready.finishes (h : Ready stream senderMax receiverMax lost g r) (hs : 1 ≤ senderMax)
    (hr : 1 ≤ receiverMax) (hmark : ¬ Read r 0) (hended : g.endingRead = true)
    (hnone : ∀ n ∈ g.toSend.nodes, n.id = 0) :
    ∃ g' r', Onward stream senderMax receiverMax lost
        ⟨⟨.exited .allSent, g'⟩, ⟨.exited .terminate, r'⟩⟩ ∧ r'.passed.flatten = stream := by
  obtain ⟨e, he, h0⟩ := h.onward.linked.marker_held hmark hended
  obtain ⟨g', r', h', hsettled, hnodes, _, hended', _, hfin⟩ :=
    h.exchange hs hr hmark ⟨he, .inl h0⟩
  obtain ⟨hfin_sender, hfin_receiver⟩ := hfin h0
  have hempty : g'.toSend.nodes = [] := by
    rw [hnodes, List.filter_eq_nil_iff]
    intro n hn
    have hid : n.packet.id = e.packet.id :=
      Node.id_eq_iff.mpr ((hnone n hn).trans h0.symm)
    simp [hid]
  have hnone' : ∀ n ∈ g'.toSend.nodes, n.id = 0 := by
    intro n hn
    rw [hempty] at hn
    cases hn
  obtain ⟨hpassed, hbuffer⟩ := h'.linked.all_delivered hnone' (hended'.trans hended)
  have hord := h'.linked.preceiver.ordered
  have htoSend : r'.toSend.length = 0 := hord.toSend_counted.length_eq_zero_iff.mpr hbuffer
  have htoAck : r'.toAck.length = 0 := hord.toAck_counted.length_eq_zero_iff.mpr hsettled.2
  have hlength : g'.toSend.length = 0 := h'.packets.toSend_counted.length_eq_zero_iff.mpr hempty
  have hall : g'.allSent = true := by
    simp only [Psender.Globals.allSent, hlength, hfin_sender, decide_true, Bool.and_self]
  have hfinished : r'.finished = true := by
    simp only [Preceiver.Globals.finished, hfin_receiver, htoSend, htoAck, decide_true,
      Bool.and_self]
  have hterminate : Preceiver.step receiverMax ⟨.top, r'⟩ .go = some ⟨.exited .terminate, r'⟩ := by
    simp only [Preceiver.step, Preceiver.Config.go, hfinished, ↓reduceIte]
  have hleft := h'.psender (P := fun _ => False) (fun _ => False.elim)
    (.single ⟨.go, trivial, Psender.step_allSent hall⟩) h'.fits
  exact ⟨g', r', hleft.preceiver (P := fun _ => False) (fun _ => False.elim)
    (.single ⟨.go, rfl, hterminate⟩), hpassed⟩

/-- Both proxies are in their loops. -/
def Running (s : Sys) : Prop :=
  (∀ why, s.psender.pc ≠ .exited why) ∧ ∀ why, s.preceiver.pc ≠ .exited why

/-- From wherever its loop stands psender can come to `select` with its list sent. -/
theorem Onward.psender_ready (h : Onward stream senderMax receiverMax s s)
    (hrun : ∀ why, s.psender.pc ≠ .exited why) (hsettled : Preceiver.Settled r)
    (hpreceiver : Onward stream senderMax receiverMax s ⟨s.psender, ⟨.top, r⟩⟩)
    (hmark : ¬ Read r 0) : ∃ g, Ready stream senderMax receiverMax s g r := by
  cases hpassing : s.psender.pc.passing with
  | true =>
    obtain ⟨g, run, hfits, hwalked, hbefore⟩ := Psender.comes_to_select h.packets.toSend_room
      h.fits (walking_run h.reached h.few) hpassing
    exact ⟨g, hpreceiver.psender (fun _ => False.elim) run hfits, hsettled, hwalked, hbefore.ge⟩
  | false =>
    obtain ⟨g, run, hfits⟩ := Psender.comes_to_test h.packets h.fits hpassing hrun
    have h' := hpreceiver.psender (fun _ => False.elim) run hfits
    exact ⟨_, h'.again hsettled hmark⟩

/-- From wherever their loops stand the two proxies can come to a state to go on from. -/
theorem Onward.ready (h : Onward stream senderMax receiverMax s s) (hr : 1 ≤ receiverMax)
    (hrun : s.Running) (hmark : ¬ Read s.preceiver.globals 0) :
    ∃ g r, Ready stream senderMax receiverMax s g r ∧ ¬ Read r 0 := by
  obtain ⟨r₁, hpreceiver⟩ := Preceiver.comes_to_top hr h.linked.preceiver.walks
    (fun n hn => ((h.linked.deliverables h.few).toSend_body n hn).le) hrun.2
  have h₁ := h.preceiver (p := s.psender) (fun _ => False.elim) hpreceiver
  obtain ⟨r, hsettles, _, hsettled⟩ := (h₁.linked.deliverables h₁.few).settles hr
  have hsettles' := hsettles.mono fun _ _ => Preceiver.Idle.deaf
  have h₂ := h₁.preceiver (fun _ => False.elim) hsettles'
  have hmark' : ¬ Read r 0 := by
    rw [read_marker_iff] at hmark ⊢
    rwa [Preceiver.Deaf.arrived_run hsettles', Preceiver.Deaf.arrived_run hpreceiver]
  obtain ⟨g, hready⟩ := h.psender_ready hrun.1 hsettled h₂ hmark'
  exact ⟨g, r, hready, hmark'⟩

/-- As long as both proxies are in their loops and the end marker was not read, the transfer can be
completed, even if everything sent so far is lost but for the walk psender is in: the whole stream
is passed on and both loops are left, psender's as all sent. It is enough that numbers are left for
the rest of the stream. -/
theorem transfer_completable (hs : 1 ≤ senderMax) (hr : 1 ≤ receiverMax)
    (run : Reached stream senderMax receiverMax s) (hfits : s.psender.globals.Fits stream)
    (hrun : s.Running) (hmark : ¬ Read s.preceiver.globals 0) :
    ∃ t, Machine.Run (step senderMax receiverMax) (Afresh stream s) s t ∧
      t.psender.pc = .exited .allSent ∧ t.preceiver.pc = .exited .terminate ∧
      t.preceiver.globals.passed.flatten = stream := by
  have h : Onward stream senderMax receiverMax s s := ⟨run, .refl, hfits⟩
  obtain ⟨g, r, h₁, hmark₁⟩ := h.ready hr hrun hmark
  obtain ⟨g₂, r₂, h₂, hmark₂, hended, hnone⟩ := h₁.drains hs hr hmark₁
  obtain ⟨g', r', h', hpassed⟩ := h₂.finishes hs hr hmark₂ hended hnone
  exact ⟨_, h'.run, rfl, rfl, hpassed⟩

/-- Packets 1 and 2 are sent, 2 arrives and 1 does not, so far. -/
def oneLost : List Event :=
  [.psender .go, .psender .go, .psender (.select (.ready true false)),
    .psender (.read [.data [7]] []), .psender (.read [.data [8]] []), .psender .go, .psender .go,
    .psender .go, .psender (.send [.sent]), .psender (.send [.sent]),
    .preceiver .go, .preceiver .go, .preceiver .go, .preceiver (.select (.ready true)),
    .preceiver (.recv [.data (dataDatagram 2 [8])])]

/-- The run can be made. -/
theorem oneLost_possible :
    (Machine.exec (step 2 2) (Network [7, 8, 9]) initial oneLost).isSome := by decide

/-- Where it leads. -/
def afterOneLost : Sys :=
  (Machine.exec (step 2 2) (Network [7, 8, 9]) initial oneLost).get oneLost_possible

/-- From where packet 1 has not arrived the transfer of three bytes is completed. -/
theorem transfer_completable_oneLost :
    ∃ t, Machine.Run (step 2 2) (Afresh [7, 8, 9] afterOneLost) afterOneLost t ∧
      t.psender.pc = .exited .allSent ∧ t.preceiver.pc = .exited .terminate ∧
      t.preceiver.globals.passed.flatten = [7, 8, 9] := by
  have hsender : afterOneLost.psender.pc = .sending [] 2 := by decide
  have hreceiver : afterOneLost.preceiver.pc = .receiving 1 := by decide
  refine transfer_completable (by decide) (by decide) (Machine.run_exec oneLost_possible)
    (by decide) ⟨?_, ?_⟩ (by unfold Read; decide)
  · intro why
    rw [hsender]
    exact Psender.Pc.noConfusion
  · intro why
    rw [hreceiver]
    exact Preceiver.Pc.noConfusion

end GProxy.Sys
