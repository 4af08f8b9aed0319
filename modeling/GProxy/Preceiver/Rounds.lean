import GProxy.Preceiver.Confluence
import GProxy.Preceiver.Stopping

/-!
# The way back to the top

From wherever its main loop stands the receiving proxy can come back to the top with nothing left
to deliver and nothing left to acknowledge, when nothing more is read (`comes_to_top` and
`settles_owing`). From there it can read one datagram (`receives_one`): the packet is in one of its
lists then, and iterations without another one acknowledge it.
-/

namespace GProxy.Preceiver

variable {P : List UInt8 → Prop} {maxPackets : Nat}

/-- The environment in which what is read is of a kind, `select` finds the socket readable only
when something of the kind is there, and `send` accepts every body whole. -/
def Hears (P : List UInt8 → Prop) (c : Config) : Event → Prop
  | .recv outcomes => ∀ r ∈ outcomes, r.OnData P
  | .select (.ready _) => ∃ bytes, P bytes
  | e => acceptsWhole c e

/-- The environment in which, besides, nothing is read. `recv` may still be called. -/
abbrev Deaf : Config → Event → Prop := Hears fun _ => False

/-- An environment that lets less arrive is one that lets more arrive. -/
theorem Hears.mono {Q : List UInt8 → Prop} (hsub : ∀ bytes, P bytes → Q bytes) {c : Config}
    {e : Event} (h : Hears P c e) : Hears Q c e := by
  cases e with
  | recv outcomes =>
    intro r hr
    have hdata := h r hr
    cases r with
    | data bytes => exact hsub bytes hdata
    | failed errno => trivial
  | select outcome =>
    cases outcome with
    | ready ritardatore => exact Exists.imp hsub h
    | failed | timeout => exact h
  | go | send | ack => exact h

/-- When psender is gone nothing is read. -/
theorem Idle.deaf {c : Config} {e : Event} (h : Idle c e) : Deaf c e := by
  cases e with
  | recv outcomes => exact absurd rfl (h.2.2 outcomes)
  | select outcome =>
    obtain rfl : outcome = .timeout := h.2.1 outcome rfl
    exact h.1
  | go | send | ack => exact h.1

/-- Nothing is read, so nothing is added to what was. -/
theorem Deaf.arrived {c c' : Config} {e : Event} (h : Deaf c e) (st : Stepped maxPackets c e c') :
    c'.globals.arrived = c.globals.arrived := by
  cases st with
  | ack hd => exact ackPacket_arrived ..
  | send hd hsend => rcases sendToReceiver_ok hsend with ⟨rfl, _⟩ | ⟨_, _, _, rfl⟩ <;> rfl
  | @recv g g' counter outcomes r hc hr hg =>
    have hdata := h r (mem_of_doWhileUpTo hr)
    cases receives_of_ok hg with
    | nothing => rfl
    | icmp | ahead | behind | dropped => exact hdata.elim
  | finished | deliver | delivered | acked | received | interrupted | readable
  | timeout | error => rfl

/-- Over a run in which nothing is read the histories of what was read are the same. -/
theorem Deaf.arrived_run {c c' : Config} (run : Machine.Run (step maxPackets) Deaf c c') :
    c'.globals.arrived = c.globals.arrived :=
  Machine.Run.invariant (I := fun d => d.globals.arrived = c.globals.arrived)
    (fun _ _ _ hs hdeaf hstep => (Deaf.arrived hdeaf (stepped_of_step hstep)).trans hs) run rfl

/-! ## The reading loop -/

/-- One turn of the reading loop, after `recv` was repeated as often as it asked for. -/
theorem step_recv {counter : Nat} {outcomes : List Recv} {r : Recv} {g g' : Globals}
    (hc : counter < maxPackets)
    (hr : doWhileUpTo recvAgain (maxOps - 1) outcomes = some (r, []))
    (hg : receiveFromPsender maxPackets g r = .ok g') :
    step maxPackets ⟨.receiving counter, g⟩ (.recv outcomes) =
      some ⟨.receiving (counter + 1), g'⟩ := by
  simp only [step, Config.recv, if_pos hc, hr, hg]

/-- What the `recv` loop gets while nothing is there. -/
def noDatagram : List Recv := .replicate maxOps (.failed .EAGAIN)

/-- A `recv` that has nothing to read is repeated to the bound of the loop, and ends in `EAGAIN`. -/
theorem doWhileUpTo_noDatagram :
    doWhileUpTo recvAgain (maxOps - 1) noDatagram = some (.failed .EAGAIN, []) := by decide

/-- A `recv` that has nothing to read makes nothing arrive. -/
theorem noDatagram_hears (c : Config) : Hears P c (.recv noDatagram) := by
  intro r hr
  rw [List.eq_of_mem_replicate hr]
  trivial

/-- With nothing there the reading loop only counts up. -/
theorem receiving_runs (counter : Nat) (g : Globals) :
    ∃ heap, Machine.Run (step maxPackets) Deaf ⟨.receiving counter, g⟩ ⟨.top, { g with heap }⟩ := by
  induction hleft : maxPackets - counter generalizing counter g with
  | zero =>
    have hdone : ¬ counter < maxPackets := by omega
    exact ⟨g.heap, .single ⟨.go, rfl, by simp only [step, Config.go, if_neg hdone]⟩⟩
  | succ left ih =>
    have hc : counter < maxPackets := by omega
    obtain ⟨heap, run⟩ := ih (counter + 1)
      { g with heap := clearNode g.heap.taken (allocNode g.heap 0 typeB none 0).1 } (by omega)
    exact ⟨heap, .head ⟨_, noDatagram_hears _, step_recv hc doWhileUpTo_noDatagram rfl⟩ run⟩

/-! ## Back to the top -/

/-- With whole bodies accepted a delivery walk never ends the process. -/
theorem walk_ok {iter : List Node} (hsize : ∀ n ∈ iter, (headerSize : Int) ≤ n.pktSize)
    (scans : Nat) (g : Globals) :
    ∃ g', forEachFrom sendWhole maxPackets scans iter g = .ok g' := by
  induction iter generalizing scans g with
  | nil => exact ⟨g, rfl⟩
  | cons n next ih =>
    unfold forEachFrom
    split
    next => exact ⟨g, rfl⟩
    next =>
      obtain ⟨g₁, hsend⟩ := sendWhole_ok (g := g) (hsize n List.mem_cons_self)
      have hwhole : sendWhole g n = .ok g₁ := hsend
      rw [hwhole]
      exact ih (fun x hx => hsize x (List.mem_cons_of_mem _ hx)) (scans + 1) g₁

/-- From `select` a timeout leads back to the top. It needs nothing from the network. -/
theorem selecting_runs (g : Globals) :
    Machine.Run (step maxPackets) Deaf ⟨.selecting, g⟩ ⟨.top, { g with timedOut := true }⟩ :=
  .single ⟨.select .timeout, rfl, rfl⟩

/-- From anywhere in the acknowledging pass the loop comes back to its top with nothing read. -/
theorem acks_to_top {iter : List Node} {scans : Nat} {g : Globals} (hm : 1 ≤ maxPackets)
    (hwalk : iter.Sublist g.toAck.nodes) :
    ∃ g', Machine.Run (step maxPackets) Deaf ⟨.acking iter scans, g⟩ ⟨.top, g'⟩ := by
  obtain ⟨g', run, _⟩ := acking_runs scans (Nat.ne_of_gt hm) hwalk
  exact ⟨_, (run.mono fun _ _ => Idle.deaf).trans (selecting_runs g')⟩

/-- A loop that was not left comes to its top. -/
theorem comes_to_top {c : Config} (hm : 1 ≤ maxPackets) (hwalk : c.Walks)
    (hsize : ∀ n ∈ c.globals.toSend.nodes, (headerSize : Int) ≤ n.pktSize)
    (hrun : ∀ why, c.pc ≠ .exited why) :
    ∃ g', Machine.Run (step maxPackets) Deaf c ⟨.top, g'⟩ := by
  obtain ⟨pc, g⟩ := c
  cases pc with
  | top => exact ⟨g, .refl⟩
  | delivering iter scans =>
    obtain ⟨g₁, hdelivers⟩ : ∃ g₁, forEachFrom sendWhole maxPackets scans iter g = .ok g₁ :=
      walk_ok (fun n hn => hsize n (List.Sublist.subset hwalk hn)) scans g
    obtain ⟨g', run⟩ := acks_to_top hm (.refl g₁.toAck.nodes)
    exact ⟨g', ((delivering_runs hdelivers).mono fun _ _ => Idle.deaf).trans run⟩
  | acking iter scans => exact acks_to_top hm hwalk
  | selecting => exact ⟨_, selecting_runs g⟩
  | receiving counter =>
    obtain ⟨heap, run⟩ := receiving_runs counter g
    exact ⟨_, run⟩
  | exited why => exact absurd rfl (hrun why)

/-- With nothing to deliver and nothing to acknowledge the loop goes from its top to `select`
without effect, unless it is left. -/
theorem Settled.passes {g : Globals} (h : Settled g) (hf : g.finished = false) :
    Machine.Run (step maxPackets) Idle ⟨.top, g⟩ ⟨.selecting, g⟩ := by
  have hwalk : forEachFrom sendWhole maxPackets 0 g.toSend.nodes g = .ok g := by
    refine walk_others ?_ 0
    intro n hn hid
    exact h.1 n hn (Node.id_eq_iff.mpr hid)
  have hacks : step maxPackets ⟨.acking g.toAck.nodes 0, g⟩ .go = some ⟨.selecting, g⟩ := by
    rw [h.2]
    rfl
  exact .head ⟨.go, .go _, step_deliver hf⟩
    ((delivering_runs hwalk).trans (.single ⟨.go, .go _, hacks⟩))

/-! ## One datagram -/

/-- A number is in one of the lists. -/
def Globals.Keeps (g : Globals) (id : UInt32) : Prop :=
  ∃ n, (n ∈ g.toSend.nodes ∨ n ∈ g.toAck.nodes) ∧ n.packet.id = id

/-- A packet that is read goes into one of the lists, or was there, when there is room in
`toAck`. -/
theorem receiveFromPsender_keeps {g : Globals} {id : UInt32} {body : List UInt8}
    (hfits : (dataDatagram id body).length ≤ sizeofPkt)
    (hroom : g.toAck.length < (maxPackets : Int)) :
    ∃ g', receiveFromPsender maxPackets g (.data (dataDatagram id body)) = .ok g' ∧
      g'.arrived = g.arrived ++ [dataDatagram id body] ∧ g'.sent = g.sent ∧ g'.Keeps id := by
  have hbytes : received (dataDatagram id body) = dataDatagram id body := received_of_le hfits
  obtain ⟨b, bs, hcons⟩ : ∃ b bs, dataDatagram id body = b :: bs := ⟨_, _, rfl⟩
  have htype : (Pkt.ofImage (dataDatagram id body)).type = typeB := by rw [ofImage_dataDatagram]
  have hpacket := (incoming_dataDatagram g id body).1
  rw [hcons] at hbytes htype hpacket ⊢
  have hinsert : ∀ head : Head, ∃ n ∈ (insertNodeById head (g.incoming (b :: bs))).1.nodes,
      n.packet.id = id := by
    intro head
    obtain ⟨n, hn, hid⟩ := exists_id_insertNodeById head (g.incoming (b :: bs))
    refine ⟨n, hn, Node.id_eq_iff.mpr (hid.trans ?_)⟩
    rw [Node.id, hpacket]
  simp only [receiveFromPsender, hbytes, htype, ↓reduceIte]
  split
  next =>
    obtain ⟨n, hn, hid⟩ := hinsert g.toSend
    exact ⟨_, rfl, rfl, rfl, n, .inl hn, hid⟩
  next =>
    obtain ⟨n, hn, hid⟩ := hinsert g.toAck
    exact ⟨_, rfl, rfl, rfl, n, .inr hn, hid⟩

/-- From the top, with nothing to deliver and nothing to acknowledge, one datagram is read. -/
theorem receives_one {g : Globals} {id : UInt32} {body : List UInt8} (hm : 1 ≤ maxPackets)
    (hsettled : Settled g) (hcounted : g.toAck.Counted) (hf : g.finished = false)
    (hfits : (dataDatagram id body).length ≤ sizeofPkt) :
    ∃ g', Machine.Run (step maxPackets) (Hears (· = dataDatagram id body)) ⟨.top, g⟩ ⟨.top, g'⟩ ∧
      g'.arrived = g.arrived ++ [dataDatagram id body] ∧ g'.sent = g.sent ∧ g'.Keeps id := by
  have hroom : g.toAck.length < (maxPackets : Int) := by
    rw [hcounted, hsettled.2]
    exact Int.ofNat_lt.mpr hm
  obtain ⟨g₁, hg, harrived, hsent, hkeeps⟩ := receiveFromPsender_keeps hfits hroom
  obtain ⟨heap, run⟩ := receiving_runs 1 g₁
  refine ⟨{ g₁ with heap }, ?_, harrived, hsent, hkeeps⟩
  have hears : ∀ c e, Idle c e → Hears (· = dataDatagram id body) c e :=
    fun _ _ h => (Idle.deaf h).mono fun _ => False.elim
  have hread : Hears (· = dataDatagram id body) ⟨.receiving 0, g⟩
      (.recv [.data (dataDatagram id body)]) := by
    intro r hr
    rw [List.mem_singleton.mp hr]
    exact rfl
  refine .trans (Machine.Run.mono hears (hsettled.passes hf)) ?_
  refine .head ⟨.select (.ready true), ⟨_, rfl⟩, rfl⟩ (.head ⟨_, hread, step_recv hm rfl hg⟩ ?_)
  exact run.mono fun _ _ h => Hears.mono (fun _ => False.elim) h

/-! ## What is kept is acknowledged -/

/-- A number was acknowledged by one of the datagrams, and the end marker with it. -/
def Globals.Acked (g : Globals) (id : UInt32) (sent : List Datagram) : Prop :=
  (∃ d ∈ sent, ∃ stack, d.bytes = ackImage stack id) ∧ (id = 0 → g.finalize = true)

/-- A number is in one of the lists, or was acknowledged since the first `before` datagrams were
sent. -/
structure Owing (before : Nat) (id : UInt32) (g : Globals) : Prop where
  before_le : before ≤ g.sent.length
  kept_or_acked : g.Keeps id ∨ g.Acked id (g.sent.drop before)

/-- A node leaves `toAck` with its acknowledgement. -/
theorem Owing.ack {before : Nat} {id : UInt32} {g : Globals} (h : Owing before id g)
    (hord : InOrder g) (stack : List UInt8) (iter : Node) :
    Owing before id (ackPacket stack g iter) := by
  obtain ⟨hle, howed⟩ := h
  have hsent := ackPacket_sent stack g iter
  have hdrop : (ackPacket stack g iter).sent.drop before =
      g.sent.drop before ++ [⟨g.toRitPort, ackImage stack iter.packet.id⟩] := by
    rw [hsent, List.drop_append_of_le_length hle]
  have hgrow : before ≤ (ackPacket stack g iter).sent.length := by
    rw [hsent, List.length_append]
    exact Nat.le_add_right_of_le hle
  refine ⟨hgrow, ?_⟩
  rw [hdrop]
  rcases howed with ⟨n, hn, hid⟩ | ⟨⟨d, hd, hbytes⟩, hfin⟩
  · by_cases hni : n = iter
    · subst hni
      refine .inr ⟨⟨_, List.mem_append_right _ List.mem_cons_self, stack, by rw [← hid]⟩, ?_⟩
      intro h0
      exact (ackPacket_finalize stack g n).mpr (.inr (Node.id_eq_iff.mp (hid.trans h0)))
    · refine .inl ⟨n, hn.imp ?_ ?_, hid⟩
      · rw [ackPacket_toSend]
        exact fun hmem => hmem
      · rw [ackPacket_toAck]
        exact fun hmem => (mem_removeNode hord.toAck_increasing).mpr ⟨hmem, hni⟩
  · exact .inr ⟨⟨d, List.mem_append_left _ hd, hbytes⟩,
      fun h0 => (ackPacket_finalize stack g iter).mpr (.inl (hfin h0))⟩

/-- No step loses a number without acknowledging it. -/
theorem Owing.stepped {before : Nat} {id : UInt32} {c c' : Config} {e : Event}
    (h : Owing before id c.globals) (hord : InOrder c.globals) (st : Stepped maxPackets c e c') :
    Owing before id c'.globals := by
  obtain ⟨hle, howed⟩ := h
  cases st with
  | @ack g iter next scans stack hd => exact Owing.ack ⟨hle, howed⟩ hord stack iter
  | @send g g' iter next scans sendCounter hd hsend =>
    rcases sendToReceiver_ok hsend with ⟨rfl, _⟩ | ⟨_, _, _, rfl⟩
    · exact ⟨hle, howed⟩
    · refine ⟨hle, howed.imp_left ?_⟩
      rintro ⟨n, hn | hn, hid⟩
      · by_cases hni : n = iter
        · obtain ⟨x, hx, hxid⟩ := exists_id_insertNodeById g.toAck iter
          exact ⟨x, .inr hx, (Node.id_eq_iff.mpr (hxid.trans (hni ▸ rfl))).trans hid⟩
        · exact ⟨n, .inl ((mem_removeNode hord.toSend_increasing).mpr ⟨hn, hni⟩), hid⟩
      · exact ⟨n, .inr (mem_insertNodeById_of_mem hn), hid⟩
  | recv hc hr hg =>
    cases receives_of_ok hg with
    | ahead =>
      refine ⟨hle, howed.imp_left ?_⟩
      rintro ⟨n, hn, hid⟩
      exact ⟨n, hn.imp_left mem_insertNodeById_of_mem, hid⟩
    | behind =>
      refine ⟨hle, howed.imp_left ?_⟩
      rintro ⟨n, hn, hid⟩
      exact ⟨n, hn.imp_right mem_insertNodeById_of_mem, hid⟩
    | nothing | icmp | dropped => exact ⟨hle, howed⟩
  | finished | deliver | delivered | acked | received | interrupted | readable
  | timeout | error => exact ⟨hle, howed⟩

/-- With nothing left to acknowledge, what `toSend` does not hold was acknowledged. -/
theorem Owing.acked {before : Nat} {id : UInt32} {g : Globals} (h : Owing before id g)
    (hsettled : Settled g) (hnone : ∀ n ∈ g.toSend.nodes, n.packet.id ≠ id) :
    g.Acked id (g.sent.drop before) := by
  rcases h.kept_or_acked with ⟨n, hn | hn, hid⟩ | hacked
  · exact absurd hid (hnone n hn)
  · rw [hsettled.2] at hn
    cases hn
  · exact hacked

/-- Idle iterations from the top lead to a settled state, and what was kept at the start is kept
or acknowledged there. -/
theorem settles_owing {before : Nat} {id : UInt32} {g : Globals} (h : Deliverables g)
    (hm : 1 ≤ maxPackets) (howing : Owing before id g) :
    ∃ g', Machine.Run (step maxPackets) Deaf ⟨.top, g⟩ ⟨.top, g'⟩ ∧ Settled g' ∧
      Owing before id g' := by
  obtain ⟨g', run, _, hsettled⟩ := h.settles hm
  refine ⟨g', run.mono fun _ _ => Idle.deaf, hsettled, ?_⟩
  refine (run.invariant (I := fun c => Owing before id c.globals ∧ InOrder c.globals ∧ c.Walks)
    ?_ ⟨howing, h.toInOrder, trivial⟩).1
  rintro c e d ⟨hc, hord, hwalk⟩ _ hstep
  have st := stepped_of_step hstep
  exact ⟨hc.stepped hord st, hord.stepped hwalk st, hwalk.stepped st⟩

end GProxy.Preceiver
