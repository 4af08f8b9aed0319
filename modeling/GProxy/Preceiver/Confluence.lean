import GProxy.Preceiver.Delivery
import Mathlib.Order.Bounds.Basic

/-!
# The order of arrival does not matter

The receiving proxy under data datagrams alone, one body for each number, in any order and with
any repetitions. `Collected` says what its globals know of what arrived: everything behind
`lastSentId` arrived and was passed on in number order, and what arrived is behind it or in
`toSend`. Once the packet waited for is not in `toSend`, that determines the globals from the set
of the numbers that arrived, so neither the order, nor the repetitions, nor how the arrivals fall
on the iterations of the loop is left in them (`order_independent`). `settles` says that idle
iterations lead there.
-/

namespace GProxy.Preceiver

open SortedInsert WordBytes

variable {bodyOf : UInt32 → List UInt8} {maxPackets : Nat}

/-- What the room of a packet takes of a body. -/
def cut (body : List UInt8) : List UInt8 := body.take (sizeofPkt - headerSize)

/-- The datagram of a number as `recv` writes it. -/
def arrival (bodyOf : UInt32 → List UInt8) (id : UInt32) : List UInt8 :=
  received (dataDatagram id (bodyOf id))

/-- A number of a data packet with its body: not the end marker's, not the last one, and a body
that is not empty. -/
def IsData (bodyOf : UInt32 → List UInt8) (id : UInt32) : Prop :=
  1 ≤ id ∧ id ≤ 4294967294 ∧ bodyOf id ≠ []

instance (bodyOf : UInt32 → List UInt8) (id : UInt32) : Decidable (IsData bodyOf id) :=
  inferInstanceAs (Decidable (1 ≤ id ∧ id ≤ 4294967294 ∧ bodyOf id ≠ []))

/-- The datagram is that of the number it carries. -/
def IsDatagram (bodyOf : UInt32 → List UInt8) (bytes : List UInt8) : Prop :=
  IsData bodyOf (ntohl (load bytes)) ∧
    bytes = dataDatagram (ntohl (load bytes)) (bodyOf (ntohl (load bytes)))

instance (bodyOf : UInt32 → List UInt8) : DecidablePred (IsDatagram bodyOf) :=
  fun _ => inferInstanceAs (Decidable (_ ∧ _))

/-- Only data datagrams arrive, and `send` accepts every body whole. -/
def Feeds (bodyOf : UInt32 → List UInt8) (c : Config) (e : Event) : Prop :=
  acceptsWhole c e ∧ match e with
    | .recv outcomes => ∀ r ∈ outcomes, r.OnData (IsDatagram bodyOf)
    | _ => True

instance (bodyOf : UInt32 → List UInt8) : ∀ c e, Decidable (Feeds bodyOf c e)
  | _, .recv outcomes =>
    inferInstanceAs (Decidable (_ ∧ ∀ r ∈ outcomes, r.OnData (IsDatagram bodyOf)))
  | _, .go | _, .send _ | _, .ack _ | _, .select _ => inferInstanceAs (Decidable (_ ∧ True))

/-- A run in which exactly the datagrams of the numbers `ids` were read, in that order. -/
structure Collects (bodyOf : UInt32 → List UInt8) (maxPackets : Nat) (ids : List UInt32)
    (c : Config) : Prop where
  run : Machine.Run (step maxPackets) (Feeds bodyOf) .initial c
  arrived_eq : c.globals.arrived = ids.map (arrival bodyOf)

/-- Nothing can be delivered and nothing is to be acknowledged. -/
def Settled (g : Globals) : Prop :=
  (∀ n ∈ g.toSend.nodes, n.packet.id ≠ g.lastSentId) ∧ g.toAck.nodes = []

/-! ## What is read -/

/-- A body datagram fits the buffer of `recv` once its body is cut to the size of a packet. -/
theorem received_dataDatagram (id : UInt32) (body : List UInt8) :
    received (dataDatagram id body) = dataDatagram id (cut body) := rfl

/-- The number of a datagram can be read off it. -/
theorem load_arrival (id : UInt32) : ntohl (load (arrival bodyOf id)) = id := by
  rw [arrival, received_dataDatagram, dataDatagram, load_store, ntohl_htonl]

/-- Datagrams of different numbers differ, so which numbers arrived can be read off what arrived. -/
theorem arrival_injective : Function.Injective (arrival bodyOf) :=
  Function.LeftInverse.injective (g := fun bytes => ntohl (load bytes)) load_arrival

/-- The node a datagram becomes. -/
theorem incoming_arrival (bodyOf : UInt32 → List UInt8) (g : Globals) (id : UInt32) :
    (g.incoming (arrival bodyOf id)).packet = ⟨id, typeB, cut (bodyOf id)⟩ ∧
      (g.incoming (arrival bodyOf id)).pktSize = (cut (bodyOf id)).length + headerSize := by
  rw [arrival, received_dataDatagram]
  obtain ⟨hpacket, hsize, _⟩ := incoming_dataDatagram g id (cut (bodyOf id))
  exact ⟨hpacket, hsize⟩

/-- What `recv` is fed is the datagram of a number. -/
theorem Feeds.datagram {c : Config} {outcomes rest : List Recv} {fuel : Nat} {b : UInt8}
    {bs : List UInt8} (h : Feeds bodyOf c (.recv outcomes))
    (hr : doWhileUpTo recvAgain fuel outcomes = some (.data (b :: bs), rest)) :
    ∃ id, IsData bodyOf id ∧ received (b :: bs) = arrival bodyOf id := by
  obtain ⟨hdata, heq⟩ : IsDatagram bodyOf (b :: bs) := h.2 _ (mem_of_doWhileUpTo hr)
  exact ⟨_, hdata, congrArg received heq⟩

/-! ## What the globals know of what arrived -/

/-- The number was read. -/
def Globals.Arrived (bodyOf : UInt32 → List UInt8) (g : Globals) (id : UInt32) : Prop :=
  arrival bodyOf id ∈ g.arrived

/-- The invariant of a run under data datagrams. -/
structure Collected (bodyOf : UInt32 → List UInt8) (g : Globals) : Prop where
  arrived_data : ∀ bytes ∈ g.arrived, ∃ id, IsData bodyOf id ∧ bytes = arrival bodyOf id
  toSend_packet : ∀ n ∈ g.toSend.nodes, n.packet = ⟨n.packet.id, typeB, cut (bodyOf n.packet.id)⟩
  toSend_size : ∀ n ∈ g.toSend.nodes,
    n.pktSize = (cut (bodyOf n.packet.id)).length + headerSize
  toSend_arrived : ∀ n ∈ g.toSend.nodes, g.Arrived bodyOf n.packet.id
  behind_arrived : ∀ id, 1 ≤ id → id < g.lastSentId → g.Arrived bodyOf id
  arrived_kept : ∀ id, g.Arrived bodyOf id →
    id < g.lastSentId ∨ ∃ n ∈ g.toSend.nodes, n.packet.id = id
  passed_eq : g.passed = (List.range' 1 (g.lastSentId.toNat - 1)).map fun k =>
    cut (bodyOf (UInt32.ofNat k))
  lastSentId_pos : 1 ≤ g.lastSentId

/-- At the start nothing arrived and nothing is kept. -/
theorem Collected.initial : Collected bodyOf Globals.initial where
  arrived_data := fun _ h => nomatch h
  toSend_packet := fun _ h => nomatch h
  toSend_size := fun _ h => nomatch h
  toSend_arrived := fun _ h => nomatch h
  behind_arrived := fun _ h₁ h₂ => absurd h₁ (UInt32.not_le.mpr h₂)
  arrived_kept := fun _ h => nomatch h
  passed_eq := rfl
  lastSentId_pos := UInt32.le_refl 1

/-- The invariant is about four of the globals. -/
theorem Collected.congr {g g' : Globals} (h : Collected bodyOf g)
    (harrived : g'.arrived = g.arrived) (htoSend : g'.toSend = g.toSend)
    (hlast : g'.lastSentId = g.lastSentId)
    (hpassed : g'.passed = g.passed) : Collected bodyOf g' := by
  obtain ⟨h₁, h₂, h₃, h₄, h₅, h₆, h₇, h₈⟩ := h
  simp only [Globals.Arrived, ← harrived, ← htoSend, ← hlast, ← hpassed] at h₁ h₂ h₃ h₄ h₅ h₆ h₇ h₈
  exact ⟨h₁, h₂, h₃, h₄, h₅, h₆, h₇, h₈⟩

/-- The numbers of data packets are below the last one. -/
theorem Collected.data_of_arrived {g : Globals} (h : Collected bodyOf g) {id : UInt32}
    (ha : g.Arrived bodyOf id) : IsData bodyOf id := by
  obtain ⟨id', hdata, heq⟩ := h.arrived_data _ ha
  rw [arrival_injective heq]
  exact hdata

/-- One more datagram: its number has arrived, and those that had. -/
theorem Globals.arrived_append {g g' : Globals} {id : UInt32}
    (heq : g'.arrived = g.arrived ++ [arrival bodyOf id]) (x : UInt32) :
    g'.Arrived bodyOf x ↔ g.Arrived bodyOf x ∨ x = id := by
  rw [Globals.Arrived, heq, List.mem_append, List.mem_singleton, arrival_injective.eq_iff]
  rfl

/-- One more datagram is read and its number is behind, or is in `toSend` afterwards. -/
theorem Collected.arrive {g g' : Globals} (h : Collected bodyOf g) {id : UInt32}
    (hdata : IsData bodyOf id) (harrived : g'.arrived = g.arrived ++ [arrival bodyOf id])
    (hnodes : ∀ n ∈ g'.toSend.nodes, n ∈ g.toSend.nodes ∨
      n.packet = ⟨id, typeB, cut (bodyOf id)⟩ ∧ n.pktSize = (cut (bodyOf id)).length + headerSize)
    (hkept : ∀ n ∈ g.toSend.nodes, n ∈ g'.toSend.nodes)
    (hid : id < g.lastSentId ∨ ∃ n ∈ g'.toSend.nodes, n.packet.id = id)
    (hlast : g'.lastSentId = g.lastSentId) (hpassed : g'.passed = g.passed) :
    Collected bodyOf g' := by
  have hmem := Globals.arrived_append harrived
  refine {
    arrived_data := ?_
    toSend_packet := ?_
    toSend_size := ?_
    toSend_arrived := fun n hn => (hmem _).mpr ?_
    behind_arrived := fun x h₁ h₂ => (hmem x).mpr (.inl (h.behind_arrived x h₁ (hlast ▸ h₂)))
    arrived_kept := fun x hx => ?_
    passed_eq := by rw [hpassed, hlast]; exact h.passed_eq
    lastSentId_pos := hlast ▸ h.lastSentId_pos }
  · rw [harrived]
    intro bytes hb
    rcases List.mem_append.mp hb with hb | hb
    · exact h.arrived_data bytes hb
    · exact ⟨id, hdata, List.mem_singleton.mp hb⟩
  · intro n hn
    rcases hnodes n hn with hn | ⟨hpkt, _⟩
    · exact h.toSend_packet n hn
    · rw [hpkt]
  · intro n hn
    rcases hnodes n hn with hn | ⟨hpkt, hsize⟩
    · exact h.toSend_size n hn
    · rw [hpkt, hsize]
  · rcases hnodes n hn with hn | ⟨hpkt, _⟩
    · exact .inl (h.toSend_arrived n hn)
    · exact .inr (by rw [hpkt])
  · rw [hlast]
    rcases (hmem x).mp hx with hx | rfl
    · rcases h.arrived_kept x hx with hlt | ⟨n, hn, hnx⟩
      · exact .inl hlt
      · exact .inr ⟨n, hkept n hn, hnx⟩
    · exact hid

/-- The numbers behind the next one. -/
theorem lt_succ_iff {x last : UInt32} (h : last ≤ 4294967294) :
    x < last + 1 ↔ x < last ∨ x = last := by
  have hlt : last.toNat ≤ 4294967294 := UInt32.le_iff_toNat_le.mp h
  rw [UInt32.lt_iff_toNat_lt, toNat_succ (by omega), UInt32.lt_iff_toNat_lt, ← UInt32.toNat_inj]
  omega

/-- The packet waited for is passed on whole. -/
theorem Collected.deliver {g g' : Globals} (h : Collected bodyOf g) {n : Node}
    (hn : n ∈ g.toSend.nodes) (hid : n.packet.id = g.lastSentId)
    (harrived : g'.arrived = g.arrived)
    (htoSend : ∀ x, x ∈ g'.toSend.nodes ↔ x ∈ g.toSend.nodes ∧ x ≠ n)
    (hlast : g'.lastSentId = g.lastSentId + 1) (hpassed : g'.passed = g.passed ++ [n.payload]) :
    Collected bodyOf g' := by
  have hseen := h.toSend_arrived n hn
  have hdata := h.data_of_arrived hseen
  rw [hid] at hseen hdata
  have hmax : g.lastSentId.toNat ≤ 4294967294 := UInt32.le_iff_toNat_le.mp hdata.2.1
  have hpos : 1 ≤ g.lastSentId.toNat := UInt32.le_iff_toNat_le.mp h.lastSentId_pos
  have hnext : (g.lastSentId + 1).toNat = g.lastSentId.toNat + 1 := toNat_succ (by omega)
  have hmem (x : UInt32) : g'.Arrived bodyOf x ↔ g.Arrived bodyOf x := by
    rw [Globals.Arrived, harrived]
    rfl
  refine {
    arrived_data := harrived ▸ h.arrived_data
    toSend_packet := fun x hx => h.toSend_packet x ((htoSend x).mp hx).1
    toSend_size := fun x hx => h.toSend_size x ((htoSend x).mp hx).1
    toSend_arrived := fun x hx => (hmem _).mpr (h.toSend_arrived x ((htoSend x).mp hx).1)
    behind_arrived := fun x h₁ h₂ => (hmem x).mpr ?_
    arrived_kept := fun x hx => ?_
    passed_eq := ?_
    lastSentId_pos := ?_ }
  · rw [hlast, lt_succ_iff hdata.2.1] at h₂
    rcases h₂ with hlt | rfl
    · exact h.behind_arrived x h₁ hlt
    · exact hseen
  · rw [hlast, lt_succ_iff hdata.2.1]
    rcases h.arrived_kept x ((hmem x).mp hx) with hlt | ⟨m, hm, rfl⟩
    · exact .inl (.inl hlt)
    · by_cases hmn : m = n
      · exact .inl (.inr (hmn ▸ hid))
      · exact .inr ⟨m, (htoSend m).mpr ⟨hm, hmn⟩, rfl⟩
  · -- the range of the numbers passed on grows by the one waited for
    have hpayload : n.payload = cut (bodyOf g.lastSentId) := by
      rw [Node.payload, h.toSend_packet n hn, h.toSend_size n hn, hid]
      apply List.take_of_length_le
      show (cut (bodyOf g.lastSentId)).length ≤ _
      omega
    have hrange : (g.lastSentId + 1).toNat - 1 = (g.lastSentId.toNat - 1) + 1 := by omega
    have hlen : 1 + (g.lastSentId.toNat - 1) = g.lastSentId.toNat := by omega
    rw [hpassed, h.passed_eq, hlast, hrange, List.range'_1_concat, List.map_append, hpayload]
    simp only [List.map_cons, List.map_nil, hlen, UInt32.ofNat_toNat]
  · rw [hlast, UInt32.le_iff_toNat_le, hnext]
    exact Nat.le_succ_of_le hpos

/-- One step keeps what the globals know. -/
theorem Collected.stepped {c c' : Config} {e : Event} (h : Collected bodyOf c.globals)
    (hs : c.Sorted) (hfeed : Feeds bodyOf c e) (st : Stepped maxPackets c e c') :
    Collected bodyOf c'.globals := by
  cases st with
  | timeout => exact h.congr rfl rfl rfl rfl
  | @ack g iter next scans stack hd =>
    exact h.congr (ackPacket_arrived ..) (ackPacket_toSend ..) (ackPacket_lastSentId ..)
      (ackPacket_passed ..)
  | @send g g' iter next scans sendCounter hd hsend =>
    rcases sendToReceiver_ok hsend with ⟨rfl, _⟩ | ⟨hid, _, _, rfl⟩
    · exact h
    · have hwhole : sendCounter = iter.pktSize - headerSize := by simpa [acceptsWhole] using hfeed.1
      refine h.deliver hs.walks.mem_toSend hid rfl
        (fun x => mem_removeNode hs.ordered.toSend_increasing) rfl ?_
      rw [hwhole, Node.payload, List.take_take, Nat.min_self]
  | @recv g g' counter outcomes r hc hr hg =>
    cases receives_of_ok hg with
    | nothing hnone => exact h.congr rfl rfl rfl rfl
    | icmp hb htype =>
      obtain ⟨id, hdata, heq⟩ := hfeed.datagram hr
      rw [hb, heq, arrival, received_dataDatagram, ofImage_dataDatagram] at htype
      exact absurd rfl htype
    | @ahead b bs bytes hb htype hid =>
      obtain ⟨id, hdata, heq⟩ := hfeed.datagram hr
      rw [heq] at hb
      subst hb
      obtain ⟨hpkt, hsize⟩ := incoming_arrival bodyOf g id
      refine h.arrive hdata rfl ?_ (fun n hn => mem_insertNodeById_of_mem hn) ?_ rfl rfl
      · intro n hn
        rcases mem_of_mem_insertNodeById hn with rfl | hn
        · exact .inr ⟨hpkt, hsize⟩
        · exact .inl hn
      · obtain ⟨n, hn, hnid⟩ := exists_id_insertNodeById g.toSend (g.incoming (arrival bodyOf id))
        refine .inr ⟨n, hn, Node.id_eq_iff.mpr ?_⟩
        rw [hnid, Node.id, hpkt]
    | @behind b bs bytes hb htype hid hroom =>
      obtain ⟨id, hdata, heq⟩ := hfeed.datagram hr
      rw [heq] at hb
      subst hb
      refine h.arrive hdata rfl (fun n hn => .inl hn) (fun n hn => hn) (.inl ?_) rfl rfl
      rw [Node.id, (incoming_arrival bodyOf g id).1] at hid
      exact UInt32.lt_iff_toNat_lt.mpr hid
    | @dropped b bs bytes hb htype hid hfull =>
      obtain ⟨id, hdata, heq⟩ := hfeed.datagram hr
      rw [heq] at hb
      subst hb
      refine h.arrive hdata rfl (fun n hn => .inl hn) (fun n hn => hn) (.inl ?_) rfl rfl
      rw [Node.id, (incoming_arrival bodyOf g id).1] at hid
      exact UInt32.lt_iff_toNat_lt.mpr hid
  | finished | deliver | delivered | acked | received | interrupted | readable
  | error => exact h

/-- The invariant of a run. -/
structure Config.Fed (bodyOf : UInt32 → List UInt8) (c : Config) : Prop where
  collected : Collected bodyOf c.globals
  sorted : c.Sorted

/-- Each step under data datagrams keeps the invariant. Their numbers are below the last one, so the
counter does not wrap. -/
theorem Config.Fed.stepped {c c' : Config} {e : Event} (h : c.Fed bodyOf)
    (hfeed : Feeds bodyOf c e) (st : Stepped maxPackets c e c') : c'.Fed bodyOf := by
  refine ⟨h.collected.stepped h.sorted hfeed st, h.sorted.stepped ?_ st⟩
  intro n hn hid
  have hdata := h.collected.data_of_arrived (h.collected.toSend_arrived n hn)
  have hmax : n.packet.id.toNat ≤ 4294967294 := UInt32.le_iff_toNat_le.mp hdata.2.1
  rw [hid] at hmax
  omega

/-- Whatever data datagrams are read, in any order and any batches, the invariant holds. -/
theorem Config.Fed.run {c : Config}
    (run : Machine.Run (step maxPackets) (Feeds bodyOf) .initial c) : c.Fed bodyOf :=
  Machine.Run.invariant (fun _ _ _ h hfeed hstep => h.stepped hfeed (stepped_of_step hstep)) run
    ⟨.initial, .initial⟩

/-! ## The settled globals -/

/-- The numbers that arrived, from the history of the socket. -/
theorem Collects.arrived_iff {ids : List UInt32} {c : Config} (h : Collects bodyOf maxPackets ids c)
    (id : UInt32) : c.globals.Arrived bodyOf id ↔ id ∈ ids := by
  rw [Globals.Arrived, h.arrived_eq, List.mem_map_of_injective arrival_injective]

/-- The number waited for in a settled state is the first that did not arrive. -/
theorem Collected.not_arrived {g : Globals} (h : Collected bodyOf g) (hsettled : Settled g) :
    ¬ g.Arrived bodyOf g.lastSentId := by
  intro ha
  rcases h.arrived_kept _ ha with hlt | ⟨n, hn, hid⟩
  · exact absurd hlt (UInt32.lt_irrefl _)
  · exact hsettled.1 n hn hid

/-- `toSend` holds what arrived and is not behind. -/
theorem Config.Fed.toSend_iff {c : Config} (h : c.Fed bodyOf) (id : UInt32) :
    (∃ n ∈ c.globals.toSend.nodes, n.packet.id = id) ↔
      c.globals.Arrived bodyOf id ∧ c.globals.lastSentId ≤ id := by
  constructor
  · rintro ⟨n, hn, rfl⟩
    exact ⟨h.collected.toSend_arrived n hn,
      UInt32.le_iff_toNat_le.mpr (h.sorted.ordered.toSend_ahead n hn)⟩
  · rintro ⟨ha, hle⟩
    exact (h.collected.arrived_kept id ha).resolve_left (UInt32.not_lt.mpr hle)

/-- The numbers `1`, …, `k` all arrived. -/
def FullUpTo (ids : List UInt32) (k : Nat) : Prop :=
  ∀ i, 1 ≤ i → i ≤ k → i ∈ ids.map UInt32.toNat

/-- Behind the number waited for is the longest full run of numbers. -/
theorem Collected.isGreatest {g : Globals} {ids : List UInt32} (h : Collected bodyOf g)
    (harrived : ∀ id, g.Arrived bodyOf id ↔ id ∈ ids) (hsettled : Settled g) :
    IsGreatest {k | FullUpTo ids k} (g.lastSentId.toNat - 1) := by
  have hpos : 1 ≤ g.lastSentId.toNat := UInt32.le_iff_toNat_le.mp h.lastSentId_pos
  have hmax := g.lastSentId.toNat_lt
  constructor
  · intro i h₁ h₂
    have hi : (UInt32.ofNat i).toNat = i := by
      rw [UInt32.toNat_ofNat']
      omega
    refine List.mem_map.mpr ⟨UInt32.ofNat i, (harrived _).mp (h.behind_arrived _ ?_ ?_), hi⟩
    · rw [UInt32.le_iff_toNat_le, hi]
      exact h₁
    · rw [UInt32.lt_iff_toNat_lt, hi]
      omega
  · intro k hk
    by_contra hlt
    obtain ⟨id, hid, heq⟩ := List.mem_map.mp (hk g.lastSentId.toNat hpos (by omega))
    have hlast : id = g.lastSentId := UInt32.toNat_inj.mp heq
    exact h.not_arrived hsettled ((harrived _).mpr (hlast ▸ hid))

/-- The packets in `toSend` are determined by their numbers. -/
theorem Collected.packets_eq {g : Globals} (h : Collected bodyOf g) :
    g.toSend.nodes.map (fun n => (n.packet, n.pktSize)) =
      (g.toSend.nodes.map Node.id).map fun i =>
        (⟨UInt32.ofNat i, typeB, cut (bodyOf (UInt32.ofNat i))⟩,
          ((cut (bodyOf (UInt32.ofNat i))).length + headerSize : Int)) := by
  rw [List.map_map]
  apply List.map_congr_left
  intro n hn
  simp only [Function.comp_apply, Node.id, UInt32.ofNat_toNat]
  rw [← h.toSend_packet n hn, ← h.toSend_size n hn]

/-- The numbers in `toSend` are determined by what arrived and the number waited for. -/
theorem Config.Fed.ids_eq {c d : Config} (h : c.Fed bodyOf) (h' : d.Fed bodyOf)
    (harrived : ∀ id, c.globals.Arrived bodyOf id ↔ d.globals.Arrived bodyOf id)
    (hlast : c.globals.lastSentId = d.globals.lastSentId) :
    c.globals.toSend.nodes.map Node.id = d.globals.toSend.nodes.map Node.id := by
  have hinc {g : Globals} (ho : Ordered g) :
      Increasing (fun i : Nat => i) (g.toSend.nodes.map Node.id) :=
    List.pairwise_map.mpr ho.toSend_increasing
  apply Increasing.ext (hinc h.sorted.ordered) (hinc h'.sorted.ordered)
  intro i
  have hmem {e : Config} (he : e.Fed bodyOf) : i ∈ e.globals.toSend.nodes.map Node.id ↔
      ∃ id : UInt32, (e.globals.Arrived bodyOf id ∧ e.globals.lastSentId ≤ id) ∧ id.toNat = i := by
    simp only [List.mem_map, ← he.toSend_iff]
    constructor
    · rintro ⟨n, hn, hi⟩
      exact ⟨n.packet.id, ⟨n, hn, rfl⟩, hi⟩
    · rintro ⟨_, ⟨n, hn, rfl⟩, hi⟩
      exact ⟨n, hn, hi⟩
  rw [hmem h, hmem h']
  simp only [harrived, hlast]

/-- Two runs in which the same numbers arrived, in whatever order and however often, settle in
the same state. -/
theorem order_independent {maxPackets₁ maxPackets₂ : Nat} {xs ys : List UInt32} {c d : Config}
    (hc : Collects bodyOf maxPackets₁ xs c) (hd : Collects bodyOf maxPackets₂ ys d)
    (hsame : ∀ id, id ∈ xs ↔ id ∈ ys) (hsc : Settled c.globals) (hsd : Settled d.globals) :
    c.globals.lastSentId = d.globals.lastSentId ∧
      c.globals.passed.flatten = d.globals.passed.flatten ∧
      c.globals.toSend.nodes.map (fun n => (n.packet, n.pktSize)) =
        d.globals.toSend.nodes.map (fun n => (n.packet, n.pktSize)) ∧
      IsGreatest {k | FullUpTo xs k} (c.globals.lastSentId.toNat - 1) ∧
      ∀ id, (∃ n ∈ c.globals.toSend.nodes, n.packet.id = id) ↔
        id ∈ xs ∧ c.globals.lastSentId ≤ id := by
  have hfc := Config.Fed.run hc.run
  have hfd := Config.Fed.run hd.run
  have hgreat := hfc.collected.isGreatest hc.arrived_iff hsc
  have hgreat' : IsGreatest {k | FullUpTo xs k} (d.globals.lastSentId.toNat - 1) :=
    hfd.collected.isGreatest (fun id => (hd.arrived_iff id).trans (hsame id).symm) hsd
  have hlast : c.globals.lastSentId = d.globals.lastSentId := by
    have hc₁ : 1 ≤ c.globals.lastSentId.toNat :=
      UInt32.le_iff_toNat_le.mp hfc.collected.lastSentId_pos
    have hd₁ : 1 ≤ d.globals.lastSentId.toNat :=
      UInt32.le_iff_toNat_le.mp hfd.collected.lastSentId_pos
    have heq := hgreat.unique hgreat'
    apply UInt32.toNat_inj.mp
    omega
  have hids := hfc.ids_eq hfd
    (fun id => (hc.arrived_iff id).trans ((hsame id).trans (hd.arrived_iff id).symm)) hlast
  refine ⟨hlast, ?_, ?_, hgreat, ?_⟩
  · rw [hfc.collected.passed_eq, hfd.collected.passed_eq, hlast]
  · rw [hfc.collected.packets_eq, hfd.collected.packets_eq, hids]
  · intro id
    rw [hfc.toSend_iff, hc.arrived_iff]

/-- Packets 2, 4 and 1 arrive in one iteration. -/
def inOneBatch : List Event :=
  [.go, .go, .go, .select (.ready true), .recv [.data (dataDatagram 2 [2])],
    .recv [.data (dataDatagram 4 [4])], .recv [.data (dataDatagram 1 [1])], .go,
    .go, .send 1, .send 1, .send 1, .go, .ack [], .ack [], .go]

/-- They arrive one by one, and packet 1 once more. -/
def oneByOne : List Event :=
  [.go, .go, .go, .select (.ready true), .recv [.data (dataDatagram 1 [1])], .go,
    .go, .send 1, .go, .ack [], .go, .select (.ready true), .recv [.data (dataDatagram 4 [4])], .go,
    .go, .send 1, .go, .go, .select (.ready true), .recv [.data (dataDatagram 2 [2])], .go,
    .go, .send 1, .go, .ack [], .go, .select (.ready true), .recv [.data (dataDatagram 1 [1])], .go,
    .go, .send 1, .go, .ack [], .go]

/-- The body of a number is the number. -/
def echo (id : UInt32) : List UInt8 := [UInt8.ofNat id.toNat]

/-- The run that reads all three in one batch can be made. -/
theorem inOneBatch_possible :
    (Machine.exec (step 3) (Feeds echo) .initial inOneBatch).isSome := by decide

/-- The run that reads one datagram an iteration can be made. -/
theorem oneByOne_possible :
    (Machine.exec (step 1) (Feeds echo) .initial oneByOne).isSome := by decide

/-- The first run reads the numbers 2, 4 and 1. -/
theorem inOneBatch_collects : Collects echo 3 [2, 4, 1]
    ((Machine.exec (step 3) (Feeds echo) .initial inOneBatch).get inOneBatch_possible) :=
  ⟨Machine.run_exec inOneBatch_possible, by decide⟩

/-- The second run reads the same numbers in another order, and 1 twice. -/
theorem oneByOne_collects : Collects echo 1 [1, 4, 2, 1]
    ((Machine.exec (step 1) (Feeds echo) .initial oneByOne).get oneByOne_possible) :=
  ⟨Machine.run_exec oneByOne_possible, by decide⟩

/-- Both runs pass on the first two bodies. The fourth waits for the third in both. -/
theorem order_independent_batches :
    IsGreatest {k | FullUpTo [2, 4, 1] k} 2 ∧
      ((Machine.exec (step 3) (Feeds echo) .initial inOneBatch).get
        inOneBatch_possible).globals.passed.flatten =
      ((Machine.exec (step 1) (Feeds echo) .initial oneByOne).get
        oneByOne_possible).globals.passed.flatten :=
  have h := order_independent inOneBatch_collects oneByOne_collects
    (by intro id; simp only [List.mem_cons, List.not_mem_nil, or_false]; tauto)
    (by unfold Settled; decide) (by unfold Settled; decide)
  ⟨h.2.2.2.1, h.2.1⟩

/-! ## Reaching a settled state -/

/-- While nothing arrives, nothing but data datagrams arrives. -/
theorem Idle.feeds {c : Config} {e : Event} (h : Idle c e) : Feeds bodyOf c e := by
  refine ⟨h.1, ?_⟩
  cases e with
  | recv outcomes => exact absurd rfl (h.2.2 outcomes)
  | go | send | ack | select => trivial

/-- A packet that can be delivered is at the front of `toSend`. -/
theorem runLength_pos {g : Globals} (h : Ordered g) {n : Node} (hn : n ∈ g.toSend.nodes)
    (hid : n.packet.id = g.lastSentId) : 1 ≤ runLength g.lastSentId.toNat g.toSend.nodes := by
  have hahead := h.toSend_ahead
  have hinc := h.toSend_increasing
  have hn_id := Node.id_eq_iff.mp hid
  cases hnodes : g.toSend.nodes with
  | nil =>
    rw [hnodes] at hn
    cases hn
  | cons m ns =>
    rw [hnodes] at hn hahead hinc
    have hm := hahead m List.mem_cons_self
    have hfront : m.id = g.lastSentId.toNat := by
      rcases List.mem_cons.mp hn with rfl | hn
      · exact hn_id
      · have := (increasing_cons.mp hinc).1 n hn
        omega
    rw [runLength, if_pos hfront]
    exact Nat.succ_pos _

/-- The lists are in order and what `toSend` holds can be delivered: no packet without a body, and
none whose number is the last one. -/
structure Deliverables (g : Globals) : Prop extends Ordered g where
  toSend_body : ∀ n ∈ g.toSend.nodes, (headerSize : Int) < n.pktSize
  toSend_few : ∀ n ∈ g.toSend.nodes, n.id + 1 < 2 ^ 32

/-- While nothing arrives, what can be delivered stays so: nodes only leave `toSend`. -/
theorem Deliverables.stepped {c c' : Config} {e : Event} (h : Deliverables c.globals)
    (hwalk : c.Walks) (hidle : Idle c e) (st : Stepped maxPackets c e c') :
    Deliverables c'.globals := by
  have hord : Ordered c'.globals := by
    refine h.toOrdered.stepped hwalk ?_ st
    intro n hn hid
    have hlt := h.toSend_few n hn
    rwa [Node.id_eq_iff.mp hid] at hlt
  have hsub : c'.globals.toSend.nodes ⊆ c.globals.toSend.nodes := by
    cases st with
    | ack hd =>
      rw [ackPacket_toSend]
      exact List.Subset.refl _
    | send hd hsend =>
      rcases sendToReceiver_ok hsend with ⟨rfl, _⟩ | ⟨_, _, _, rfl⟩
      · exact List.Subset.refl _
      · exact List.erase_subset
    | recv => exact absurd rfl (hidle.2.2 _)
    | finished | deliver | delivered | acked | received | interrupted | readable
    | timeout | error => exact List.Subset.refl _
  exact ⟨hord, fun n hn => h.toSend_body n (hsub hn), fun n hn => h.toSend_few n (hsub hn)⟩

/-- The number waited for does not wrap while packets of `toSend` are delivered. -/
theorem Deliverables.no_wrap {g : Globals} (h : Deliverables g) {k : Nat}
    (hk : k ≤ runLength g.lastSentId.toNat g.toSend.nodes) :
    g.lastSentId.toNat + k < 2 ^ 32 := by
  have hlast := g.lastSentId.toNat_lt
  cases k with
  | zero => exact hlast
  | succ k =>
    have hmem : g.lastSentId.toNat + k ∈ (g.toSend.nodes.take (k + 1)).map Node.id := by
      rw [runLength_ids hk, List.mem_range'_1]
      omega
    obtain ⟨n, hn, hid⟩ := List.mem_map.mp hmem
    have := h.toSend_few n (List.mem_of_mem_take hn)
    omega

/-- What idle iterations still have to do: each packet is delivered and then acknowledged. -/
def Globals.work (g : Globals) : Nat := 2 * g.toSend.nodes.length + g.toAck.nodes.length

/-- An idle iteration from a state that is not settled leaves less to do. -/
theorem Deliverables.iteration {g : Globals} (h : Deliverables g) (hm : 1 ≤ maxPackets)
    (hopen : ¬ Settled g) :
    ∃ g', Machine.Run (step maxPackets) Idle ⟨.top, g⟩ ⟨.top, g'⟩ ∧ g'.arrived = g.arrived ∧
      g'.work < g.work := by
  have hgo : g.finished = false := by
    by_contra hfin
    simp only [Globals.finished, Bool.not_eq_false, Bool.and_eq_true, decide_eq_true_eq,
      h.toSend_counted.length_eq_zero_iff, h.toAck_counted.length_eq_zero_iff] at hfin
    exact hopen ⟨(by rw [hfin.1.2]; intro _ hn; cases hn), hfin.2⟩
  obtain ⟨k, hk⟩ : ∃ k, k = min maxPackets (runLength g.lastSentId.toNat g.toSend.nodes) :=
    ⟨_, rfl⟩
  have hrun : k ≤ runLength g.lastSentId.toNat g.toSend.nodes := hk ▸ Nat.min_le_right _ _
  have hdelivers := walk_delivers 0 (by omega : maxPackets ≠ 0) h.toSend_increasing
    h.toSend_ahead h.toAck_behind h.toSend_body (h.no_wrap (Nat.min_le_right _ _))
  rw [Nat.sub_zero, ← hk] at hdelivers
  obtain ⟨g', hacks, htoSend, _, harrived, hlen⟩ :=
    acking_runs 0 (g := g.afterDelivery k) (by omega : maxPackets ≠ 0)
      (List.Sublist.refl _)
  refine ⟨{ g' with timedOut := true }, ?_, harrived, ?_⟩
  · exact .head ⟨.go, .go _, step_deliver hgo⟩ (.trans (delivering_runs hdelivers)
      (.trans hacks (.single ⟨.select .timeout, .timeout _, rfl⟩)))
  · -- something is delivered, or something was to be acknowledged already
    have hprogress : 1 ≤ k ∨ g.toAck.nodes ≠ [] := by
      by_contra hnone
      obtain ⟨hk0, hack⟩ := not_or.mp hnone
      refine hopen ⟨?_, Decidable.not_not.mp hack⟩
      intro n hn hid
      have := runLength_pos h.toOrdered hn hid
      omega
    have hle := runLength_le_length g.lastSentId.toNat g.toSend.nodes
    have htoAck : (g.afterDelivery k).toAck.nodes.length = g.toAck.nodes.length + k := by
      simp only [Globals.afterDelivery, List.length_append, List.length_take]
      omega
    have hleft : (g.afterDelivery k).toSend.nodes.length = g.toSend.nodes.length - k := by
      simp only [Globals.afterDelivery, List.length_drop]
    have hsome : 1 ≤ g.toAck.nodes.length + k := by
      rcases hprogress with hk1 | hack
      · omega
      · have := List.length_pos_iff.mpr hack
        omega
    simp only [Globals.work, htoSend, hleft]
    rw [htoAck, Nat.sub_zero] at hlen
    omega

/-- Idle iterations lead to a settled state, and read nothing. -/
theorem Deliverables.settles {g : Globals} (h : Deliverables g) (hm : 1 ≤ maxPackets) :
    ∃ g', Machine.Run (step maxPackets) Idle ⟨.top, g⟩ ⟨.top, g'⟩ ∧ g'.arrived = g.arrived ∧
      Settled g' := by
  have keep : ∀ c e d, Deliverables c.globals ∧ c.Walks → Idle c e →
      step maxPackets c e = some d → Deliverables d.globals ∧ d.Walks := by
    rintro c e d ⟨hc, hwalk⟩ hidle hstep
    have st := stepped_of_step hstep
    exact ⟨hc.stepped hwalk hidle st, hwalk.stepped st⟩
  have lower : ∀ c : Config,
      (c.pc = .top ∧ Deliverables c.globals ∧ c.globals.arrived = g.arrived) →
      ¬ Settled c.globals → ∃ d : Config, Machine.Run (step maxPackets) Idle c d ∧
        (d.pc = .top ∧ Deliverables d.globals ∧ d.globals.arrived = g.arrived) ∧
        d.globals.work < c.globals.work := by
    rintro ⟨_, g₁⟩ ⟨rfl, h₁, harrived₁⟩ hopen
    obtain ⟨g₂, run, harrived₂, hlt⟩ := h₁.iteration hm hopen
    exact ⟨⟨.top, g₂⟩, run, ⟨rfl, (run.invariant keep ⟨h₁, trivial⟩).1,
      harrived₂.trans harrived₁⟩, hlt⟩
  obtain ⟨⟨_, g'⟩, run, ⟨rfl, _, harrived⟩, hsettled⟩ :=
    Machine.Run.descend (fun c : Config => c.globals.work) lower (s := ⟨.top, g⟩) ⟨rfl, h, rfl⟩
  exact ⟨g', run, harrived, hsettled⟩

/-- What was collected can be delivered. -/
theorem Collected.deliverables {g : Globals} (h : Collected bodyOf g) (hord : Ordered g) :
    Deliverables g := by
  have hdata : ∀ n ∈ g.toSend.nodes, IsData bodyOf n.packet.id :=
    fun n hn => h.data_of_arrived (h.toSend_arrived n hn)
  refine ⟨hord, ?_, ?_⟩
  · intro n hn
    have hne : 0 < (cut (bodyOf n.packet.id)).length :=
      List.length_pos_iff.mpr (by simpa [cut, sizeofPkt, headerSize] using (hdata n hn).2.2)
    rw [h.toSend_size n hn]
    omega
  · intro n hn
    have hmax : n.packet.id.toNat ≤ 4294967294 := UInt32.le_iff_toNat_le.mp (hdata n hn).2.1
    unfold Node.id
    omega

/-- Every run at the top of the loop goes on to a settled state that collected the same. -/
theorem Collects.settles {ids : List UInt32} {c : Config} (h : Collects bodyOf maxPackets ids c)
    (hm : 1 ≤ maxPackets) (htop : c.pc = .top) :
    ∃ d, Collects bodyOf maxPackets ids d ∧ d.pc = .top ∧ Settled d.globals := by
  obtain ⟨pc, g⟩ := c
  obtain rfl : pc = .top := htop
  have hfed := Config.Fed.run h.run
  obtain ⟨g', run, harrived, hsettled⟩ :=
    (hfed.collected.deliverables hfed.sorted.ordered).settles hm
  refine ⟨⟨.top, g'⟩, ⟨?_, ?_⟩, rfl, hsettled⟩
  · exact h.run.trans (run.mono fun _ _ => Idle.feeds)
  · exact harrived.trans h.arrived_eq

end GProxy.Preceiver
