import GProxy.System.Transfer
import GProxy.System.Ports
import GProxy.Ritardatore.Channels

/-!
# The three programs on one host

psender, the emulator and preceiver side by side, each taking its steps at any time, with nothing
between them but UDP: what a socket bound to a port reads was handed to `sendto` for that port, by
any of the three, at some time before. So UDP too may lose, delay, repeat and overtake.

With the ports of `PARAMETRIDEFAULT` this network is the one of `Sys.Network`: every run of the
three is a run of the two proxies (`host_refines`). What the emulator sends to a proxy on a pair is
a copy of what the other proxy sent on that pair, or a notice that the emulator lost something the
proxy itself sent on it (`Routed.origin`).

What is not established: the receiver's socket is taken to accept whole bodies (one that does not
loses bytes, `GProxy.Preceiver.conserves_iff`); a `select` may come back at any time, also with a
socket that has nothing to read, so nothing here says that a run goes on; and there is no time but
what the emulator reads off its clock.
-/

namespace GProxy

/-! ## What the proxies send -/

/-- `fromRitPort` of both proxies, the port each reads the emulator on. -/
def Psender.fromRitPort : UInt16 := 60000
def Preceiver.fromRitPort : UInt16 := 63000

/-- Whatever the channel, its port is one of the list. -/
theorem getD_mod_three_mem {ports : List UInt16} (h : ports.length = 3) (n : Nat) :
    ports.getD (n % 3) 0 ∈ ports := by
  have hlt : n % 3 < ports.length := by
    rw [h]
    exact Nat.mod_lt n (by decide)
  rw [List.getD_eq_getElem _ _ hlt]
  exact List.getElem_mem hlt

/-- What a program sends goes to a port of some kind, and so would what it sends next. -/
structure Ported (P : UInt16 → Prop) (toRitPort : UInt16) (sent : List Datagram) : Prop where
  toRitPort : P toRitPort
  sent : ∀ d ∈ sent, P d.port

/-- One program's step: at most one more datagram, to the port in use, and maybe another port. -/
theorem Ported.stepped {P : UInt16 → Prop} {port port' : UInt16} {sent sent' : List Datagram}
    (h : Ported P port sent) (hport : port' = port ∨ P port')
    (hsent : sent' = sent ∨ ∃ bytes, sent' = sent ++ [⟨port, bytes⟩]) : Ported P port' sent' := by
  constructor
  · rcases hport with rfl | hport
    · exact h.toRitPort
    · exact hport
  · rcases hsent with rfl | ⟨bytes, rfl⟩
    · exact h.sent
    · intro d hd
      rcases List.mem_append.mp hd with hd | hd
      · exact h.sent d hd
      · rw [List.mem_singleton.mp hd]
        exact h.toRitPort

/-- psender changes its port for what is no acknowledgement, and for nothing else. -/
theorem Psender.ports_of_step {maxPackets : Nat} {c c' : Psender.Config} {e : Psender.Event}
    (st : Psender.Stepped maxPackets c e c') :
    (c'.globals.toRitPort = c.globals.toRitPort ∨ c'.globals.toRitPort ∈ Psender.ritPorts ∧
        ∃ bytes, e = .check (.data bytes) ∧ bytes[4]? ≠ some typeB) ∧
      (c'.globals.sent = c.globals.sent ∨
        ∃ bytes, c'.globals.sent = c.globals.sent ++ [⟨c.globals.toRitPort, bytes⟩]) := by
  cases st with
  | send hsend => cases hsend; exact ⟨.inl rfl, .inr ⟨_, rfl⟩⟩
  | read hreads hwhile hg => cases Psender.reads_of_ok hg <;> exact ⟨.inl rfl, .inl rfl⟩
  | check hc hg =>
    cases Psender.checks_of_ok hg with
    | icmp hm htype =>
      refine ⟨.inr ⟨getD_mod_three_mem rfl _, _, rfl, ?_⟩, .inl rfl⟩
      intro hB
      exact htype (hm ▸ overlay_type hB)
    | nothing | acked | stale => exact ⟨.inl rfl, .inl rfl⟩
  | scan | scanned | select | timeout | filled | checked | allSent | again | error =>
    exact ⟨.inl rfl, .inl rfl⟩

/-- preceiver changes its port for what is no body, and for nothing else. -/
theorem Preceiver.ports_of_step {maxPackets : Nat} {c c' : Preceiver.Config} {e : Preceiver.Event}
    (st : Preceiver.Stepped maxPackets c e c') :
    (c'.globals.toRitPort = c.globals.toRitPort ∨ c'.globals.toRitPort ∈ Preceiver.ritPorts ∧
        ∃ outcomes bytes, e = .recv outcomes ∧ .data bytes ∈ outcomes ∧ bytes[4]? ≠ some typeB) ∧
      (c'.globals.sent = c.globals.sent ∨
        ∃ bytes, c'.globals.sent = c.globals.sent ++ [⟨c.globals.toRitPort, bytes⟩]) := by
  cases st with
  | @ack g iter next scans stack hd =>
    have hport : (Preceiver.ackPacket stack g iter).toRitPort = g.toRitPort := by
      simp only [Preceiver.ackPacket, Preceiver.ackPkt]
      split <;> rfl
    exact ⟨.inl hport, .inr ⟨_, Preceiver.ackPacket_sent stack g iter⟩⟩
  | send hd hsend =>
    rcases Preceiver.sendToReceiver_ok hsend with ⟨rfl, _⟩ | ⟨_, _, _, rfl⟩ <;>
      exact ⟨.inl rfl, .inl rfl⟩
  | recv hc hr hg =>
    cases Preceiver.receives_of_ok hg with
    | icmp hb htype =>
      refine ⟨.inr ⟨getD_mod_three_mem rfl _, _, _, rfl, mem_of_doWhileUpTo hr, ?_⟩, .inl rfl⟩
      intro hB
      exact htype (hb ▸ ofImage_type hB)
    | nothing | ahead | behind | dropped => exact ⟨.inl rfl, .inl rfl⟩
  | timeout => exact ⟨.inl rfl, .inl rfl⟩
  | finished | deliver | delivered | acked | received | interrupted | readable
  | error => exact ⟨.inl rfl, .inl rfl⟩

/-! ## The three side by side -/

structure Host where
  psender : Psender.Config
  ritardatore : Ritardatore.Config
  preceiver : Preceiver.Config

namespace Host

open Ritardatore (Parametri Avvio Lato Tallied)

def initial (avvio : Avvio) : Host := ⟨.initial, .avviato avvio, .initial⟩

inductive Event
  | psender (e : Psender.Event)
  | ritardatore (e : Ritardatore.Event)
  | preceiver (e : Preceiver.Event)
  deriving DecidableEq, Repr

def step (par : Parametri) (senderMax receiverMax : Nat) (s : Host) : Event → Option Host
  | .psender e => (Psender.step senderMax s.psender e).map fun c => { s with psender := c }
  | .ritardatore e =>
    (Ritardatore.step par s.ritardatore e).map fun c => { s with ritardatore := c }
  | .preceiver e =>
    (Preceiver.step receiverMax s.preceiver e).map fun c => { s with preceiver := c }

/-- One of the three programs handed the bytes to `sendto` for a port. -/
def Handed (s : Host) (port : UInt16) (bytes : List UInt8) : Prop :=
  (∃ d ∈ s.psender.globals.sent ++ s.preceiver.globals.sent, d.port = port ∧ d.bytes = bytes) ∨
    ∃ x ∈ s.ritardatore.globals.inviati,
      x.elemento.portNumberDest = port ∧ x.elemento.buf = bytes

instance (s : Host) (port : UInt16) : DecidablePred (s.Handed port) :=
  fun _ => inferInstanceAs (Decidable (_ ∨ _))

/-- `ricevo_inserisco` can read the bytes next: they were handed over for the port of its socket. -/
def Arrives (s : Host) (bytes : List UInt8) : Prop :=
  match s.ritardatore.readPort with
  | some port => s.Handed port bytes
  | none => False

instance (s : Host) : DecidablePred s.Arrives := by
  intro bytes
  unfold Arrives
  split <;> infer_instance

/-- The environment of the three programs: UDP, a sender with one stream, a receiver that accepts
whole bodies. -/
def Network (stream : List UInt8) (s : Host) : Event → Prop
  | .psender (.check outcome) => outcome.OnData (s.Handed Psender.fromRitPort)
  | .psender e => Psender.Streams stream s.psender e
  | .ritardatore (.leggi outcomes _) => ∀ r ∈ outcomes, r.OnData s.Arrives
  | .ritardatore _ => True
  | .preceiver (.recv outcomes) => ∀ r ∈ outcomes, r.OnData (s.Handed Preceiver.fromRitPort)
  | .preceiver e => Preceiver.acceptsWhole s.preceiver e

instance (stream : List UInt8) (s : Host) : ∀ e, Decidable (Network stream s e)
  | .psender (.check outcome) =>
    inferInstanceAs (Decidable (outcome.OnData (s.Handed Psender.fromRitPort)))
  | .psender (.read outcomes past) =>
    inferInstanceAs (Decidable (Psender.Streams stream s.psender (.read outcomes past)))
  | .psender .go | .psender (.send _) | .psender (.select _) => .isTrue trivial
  | .ritardatore (.leggi outcomes _) =>
    inferInstanceAs (Decidable (∀ r ∈ outcomes, r.OnData s.Arrives))
  | .ritardatore .go | .ritardatore (.select _) | .ritardatore (.dispatch _)
  | .ritardatore (.cambia _ _) => .isTrue trivial
  | .preceiver (.recv outcomes) =>
    inferInstanceAs (Decidable (∀ r ∈ outcomes, r.OnData (s.Handed Preceiver.fromRitPort)))
  | .preceiver .go | .preceiver (.send _) | .preceiver (.ack _) | .preceiver (.select _) =>
    inferInstanceAs (Decidable (Preceiver.acceptsWhole _ _ = true))

/-- A run of the three programs from the start of the emulator. -/
abbrev Reached (par : Parametri) (avvio : Avvio) (stream : List UInt8)
    (senderMax receiverMax : Nat) (s : Host) : Prop :=
  Machine.Run (step par senderMax receiverMax) (Network stream) (initial avvio) s

/-- The emulator is given the ports of `PARAMETRIDEFAULT`, for which the proxies are built. -/
structure Wired (par : Parametri) (avvio : Avvio) : Prop where
  remote_sender : par.remotePortNumberSender = Psender.fromRitPort
  remote_receiver : par.remotePortNumberReceiver = Preceiver.fromRitPort
  first_sender : avvio.firstLocalPortNumberSenderSide = 61000
  first_receiver : avvio.firstLocalPortNumberReceiverSide = 62000

/-- The ports of a side of the emulator, as the proxy on that side knows them. -/
def ritPorts : Lato → List UInt16
  | .sender => Psender.ritPorts
  | .receiver => Preceiver.ritPorts

/-- The port of the proxy on a side. -/
def fromRitPort : Lato → UInt16
  | .sender => Psender.fromRitPort
  | .receiver => Preceiver.fromRitPort

/-- The port of the emulator a proxy sends to. -/
def toRitPort (s : Host) : Lato → UInt16
  | .sender => s.psender.globals.toRitPort
  | .receiver => s.preceiver.globals.toRitPort

/-- What the proxy on a side sent. -/
def sentBy (s : Host) : Lato → List Datagram
  | .sender => s.psender.globals.sent
  | .receiver => s.preceiver.globals.sent

section

variable {par : Parametri} {avvio : Avvio} {stream : List UInt8} {senderMax receiverMax : Nat}
  {s t : Host}

/-- The local ports of the emulator on a side are those the proxy of that side sends to. -/
theorem Wired.port_mem (h : Wired par avvio) (i : Fin Ritardatore.maxNumConnections) (lato : Lato) :
    (avvio.coppia i).port lato ∈ ritPorts lato := by
  cases lato with
  | sender =>
    show avvio.firstLocalPortNumberSenderSide + UInt16.ofNat i ∈ Psender.ritPorts
    rw [h.first_sender]
    revert i
    decide
  | receiver =>
    show avvio.firstLocalPortNumberReceiverSide + UInt16.ofNat i ∈ Preceiver.ritPorts
    rw [h.first_receiver]
    revert i
    decide

/-- The emulator sends to a side on the port where its proxy reads. -/
theorem Wired.remotePort_eq (h : Wired par avvio) (lato : Lato) :
    par.remotePort lato = fromRitPort lato := by
  cases lato
  · exact h.remote_sender
  · exact h.remote_receiver

/-- No port of the emulator is one of the other side, or that of a proxy. -/
theorem lato_of_mem {lato lato' : Lato} {port : UInt16} (h : port ∈ ritPorts lato)
    (h' : port ∈ ritPorts lato') : lato = lato' := by
  cases lato <;> cases lato' <;>
    simp only [ritPorts, Psender.ritPorts, Preceiver.ritPorts, List.mem_cons, List.not_mem_nil,
      or_false] at h h'
  · rfl
  · rcases h with rfl | rfl | rfl <;> exact absurd h' (by decide)
  · rcases h with rfl | rfl | rfl <;> exact absurd h' (by decide)
  · rfl

/-- The port a proxy reads on is none that a proxy sends to, so no proxy hears another one without
the emulator. -/
theorem fromRitPort_not_mem (lato lato' : Lato) : fromRitPort lato ∉ ritPorts lato' := by
  cases lato <;> cases lato' <;> decide

/-- The two proxies read on different ports. -/
theorem fromRitPort_inj {lato lato' : Lato} (h : fromRitPort lato = fromRitPort lato') :
    lato = lato' := by
  revert h
  cases lato <;> cases lato' <;> decide

/-! ## The invariant -/

/-- The emulator read the datagram on one side of a pair, where it answered `ris`, and the proxy on
that side had sent it there. -/
def Judged (avvio : Avvio) (s : Host) (i : Fin Ritardatore.maxNumConnections) (lato : Lato)
    (ris : Nat) (buf : List UInt8) : Prop :=
  ⟨i, lato, buf, ris⟩ ∈ s.ritardatore.globals.ricevuti ∧
    ⟨(avvio.coppia i).port lato, buf⟩ ∈ s.sentBy lato

/-- The invariant of a run: every datagram read was sent on the side it was read on. -/
structure Routed (par : Parametri) (avvio : Avvio) (s : Host) : Prop where
  tallied : Tallied par avvio s.ritardatore.globals
  ported : ∀ lato, Ported (· ∈ ritPorts lato) (s.toRitPort lato) (s.sentBy lato)
  judged : ∀ r ∈ s.ritardatore.globals.ricevuti, Judged avvio s r.coppia r.lato r.ris r.buf

/-- At the start nothing was sent and nothing read. -/
theorem Routed.initial : Routed par avvio (initial avvio) where
  tallied := .avviato
  ported := by
    intro lato
    cases lato <;> exact ⟨List.mem_cons_self, fun _ h => nomatch h⟩
  judged := fun _ h => nomatch h

/-- Lists related place by place have, for each element of the second, one of the first. -/
theorem exists_of_mem_right {α β : Type*} {R : α → β → Prop} {as : List α} {bs : List β}
    (h : List.Forall₂ R as bs) {b : β} (hb : b ∈ bs) : ∃ a ∈ as, R a b := by
  induction h with
  | nil => cases hb
  | cons hR _ ih =>
    rcases List.mem_cons.mp hb with rfl | hb
    · exact ⟨_, List.mem_cons_self, hR⟩
    · obtain ⟨a, ha, hR⟩ := ih hb
      exact ⟨a, List.mem_cons_of_mem _ ha, hR⟩

/-- An element that was sent was queued for a datagram. -/
theorem Routed.answers (h : Routed par avvio s) {x : Ritardatore.Invio}
    (hx : x ∈ s.ritardatore.globals.inviati) :
    ∃ r ∈ s.ritardatore.globals.ricevuti, ∃ p, Ritardatore.Answers par avvio r p ∧
      p.buf = x.elemento.buf ∧ p.portNumberLocal = x.elemento.portNumberLocal ∧
      p.portNumberDest = x.elemento.portNumberDest := by
  have hleft : x.elemento ∈ s.ritardatore.globals.tolti :=
    h.tallied.sent_removed.subset (List.mem_map_of_mem hx)
  have hperm := Ritardatore.Queue.perm_of_run h.tallied.queued
  have hnormal : x.elemento.normal ∈
      s.ritardatore.globals.accodati.map Ritardatore.Elemento.normal :=
    hperm.mem_iff.mpr (List.mem_map_of_mem (List.mem_append_left _ hleft))
  obtain ⟨p, hp, hpn⟩ := List.mem_map.mp hnormal
  obtain ⟨r, hr, hans⟩ := exists_of_mem_right h.tallied.answered hp
  have hbuf : p.normal.buf = x.elemento.normal.buf := by rw [hpn]
  have hlocal : p.normal.portNumberLocal = x.elemento.normal.portNumberLocal := by rw [hpn]
  have hdest : p.normal.portNumberDest = x.elemento.normal.portNumberDest := by rw [hpn]
  exact ⟨r, (List.mem_filter.mp hr).1, p, hans, hbuf, hlocal, hdest⟩

/-- What the emulator sends to the proxy on a side goes out of a pair on that side. It is a copy of
what the other proxy sent on the pair, or a notice that something the proxy itself sent on the pair
was lost. -/
theorem Routed.origin (h : Routed par avvio s) (hwired : Wired par avvio) {lato : Lato}
    {x : Ritardatore.Invio} (hx : x ∈ s.ritardatore.globals.inviati)
    (hdest : x.elemento.portNumberDest = fromRitPort lato) :
    ∃ i, x.elemento.portNumberLocal = (avvio.coppia i).port lato ∧
      (Judged avvio s i lato.opposto 3 x.elemento.buf ∨
        ∃ lost, Judged avvio s i lato 2 lost ∧ Ritardatore.Notice x.elemento.buf lost) := by
  obtain ⟨r, hr, p, hans, hbuf, hlocal, hsame⟩ := h.answers hx
  have hport : p.portNumberDest = fromRitPort lato := hsame.trans hdest
  refine ⟨r.coppia, ?_⟩
  rcases hans with ⟨hris, hcopy, hto⟩ | ⟨hris, hnotice, hto⟩
  · have hside : lato = r.lato.opposto :=
      fromRitPort_inj (hport.symm.trans (hto.dest_eq.trans (hwired.remotePort_eq _)))
    subst hside
    refine ⟨hlocal.symm.trans hto.local_eq, .inl ?_⟩
    rw [← hbuf, hcopy, ← hris, Ritardatore.Lato.opposto_opposto]
    exact h.judged r hr
  · have hside : lato = r.lato :=
      fromRitPort_inj (hport.symm.trans (hto.dest_eq.trans (hwired.remotePort_eq _)))
    subst hside
    refine ⟨hlocal.symm.trans hto.local_eq, .inr ⟨r.buf, ?_, hbuf ▸ hnotice⟩⟩
    rw [← hris]
    exact h.judged r hr

/-- What a proxy can read it can read only from the emulator. -/
theorem Routed.handed (h : Routed par avvio s) (hwired : Wired par avvio) {lato : Lato}
    {bytes : List UInt8} (hb : s.Handed (fromRitPort lato) bytes) :
    ∃ i, Judged avvio s i lato.opposto 3 bytes ∨
      ∃ lost, Judged avvio s i lato 2 lost ∧ Ritardatore.Notice bytes lost := by
  rcases hb with ⟨d, hd, hport, rfl⟩ | ⟨x, hx, hdest, rfl⟩
  · obtain ⟨lato', hd⟩ : ∃ lato', d ∈ s.sentBy lato' :=
      (List.mem_append.mp hd).elim (fun hd => ⟨.sender, hd⟩) fun hd => ⟨.receiver, hd⟩
    exact absurd (hport ▸ (h.ported lato').sent d hd) (fromRitPort_not_mem lato lato')
  · obtain ⟨i, _, horigin⟩ := h.origin hwired hx hdest
    exact ⟨i, horigin⟩

/-- What can arrive at a proxy on this host can arrive at it on the network of the two. -/
theorem Routed.arrives (h : Routed par avvio s) (hwired : Wired par avvio) (lato : Lato)
    {bytes : List UInt8} (hb : s.Handed (fromRitPort lato) bytes) :
    Sys.Arrives (s.sentBy lato.opposto) bytes := by
  obtain ⟨i, hcopy | ⟨lost, _, hlen, htype, _⟩⟩ := h.handed hwired hb
  · exact .inl ⟨_, hcopy.2, rfl⟩
  · refine .inr ?_
    rw [List.getD_eq_getElem _ _ (by omega)] at htype
    rw [List.getElem?_eq_getElem (by omega), htype]

/-- What the emulator reads on a side was sent by the proxy on that side. -/
theorem Routed.read_sent (h : Routed par avvio s) (hwired : Wired par avvio)
    {i : Fin Ritardatore.maxNumConnections} {lato : Lato} {buf : List UInt8}
    (hb : s.Handed ((avvio.coppia i).port lato) buf) :
    ⟨(avvio.coppia i).port lato, buf⟩ ∈ s.sentBy lato := by
  have hin := hwired.port_mem i lato
  rcases hb with ⟨d, hd, hport, rfl⟩ | ⟨x, hx, hdest, _⟩
  · rw [← hport] at hin ⊢
    rcases List.mem_append.mp hd with hd | hd
    · obtain rfl := lato_of_mem hin ((h.ported .sender).sent d hd)
      exact hd
    · obtain rfl := lato_of_mem hin ((h.ported .receiver).sent d hd)
      exact hd
  · obtain ⟨r, _, p, hans, _, _, hsame⟩ := h.answers hx
    have hto : ∃ lato', p.portNumberDest = fromRitPort lato' :=
      hans.elim (fun h => ⟨_, h.2.2.dest_eq.trans (hwired.remotePort_eq _)⟩) fun h =>
        ⟨_, h.2.2.dest_eq.trans (hwired.remotePort_eq _)⟩
    obtain ⟨lato', hlato'⟩ := hto
    rw [← hdest, ← hsame, hlato'] at hin
    exact absurd hin (fromRitPort_not_mem lato' lato)

/-- What a step adds to what a program sent. -/
theorem subset_of_grown {sent sent' : List Datagram} {port : UInt16}
    (h : sent' = sent ∨ ∃ bytes, sent' = sent ++ [⟨port, bytes⟩]) : sent ⊆ sent' := by
  rcases h with rfl | ⟨bytes, rfl⟩
  · exact List.Subset.refl _
  · exact List.subset_append_left _ _

/-- A step of a proxy: more was sent on a side, so more can be said of what was read. -/
theorem Routed.grow (h : Routed par avvio s) (hsame : t.ritardatore = s.ritardatore)
    (hports : ∀ lato, (t.toRitPort lato = s.toRitPort lato ∨ t.toRitPort lato ∈ ritPorts lato) ∧
      (t.sentBy lato = s.sentBy lato ∨
        ∃ bytes, t.sentBy lato = s.sentBy lato ++ [⟨s.toRitPort lato, bytes⟩])) :
    Routed par avvio t := by
  refine ⟨hsame ▸ h.tallied, fun lato => ?_, fun r hr => ?_⟩
  · exact (h.ported lato).stepped (hports lato).1 (hports lato).2
  · rw [hsame] at hr
    exact ⟨hsame ▸ hr, subset_of_grown (hports r.lato).2 (h.judged r hr).2⟩

/-- What a step of a proxy does about ports and datagrams, side by side. -/
theorem ports_of_step (stream : List UInt8) {e : Event}
    (hstep : step par senderMax receiverMax s e = some t)
    (lato : Lato) :
    (t.toRitPort lato = s.toRitPort lato ∨ t.toRitPort lato ∈ ritPorts lato ∧
        ∃ bytes, (Network stream s e → s.Handed (fromRitPort lato) bytes) ∧
          bytes[4]? ≠ some typeB) ∧
      (t.sentBy lato = s.sentBy lato ∨
        ∃ bytes, t.sentBy lato = s.sentBy lato ++ [⟨s.toRitPort lato, bytes⟩]) := by
  cases e with
  | psender e =>
    obtain ⟨c, hc, rfl⟩ := Option.map_eq_some_iff.mp hstep
    obtain ⟨hport, hsent⟩ := Psender.ports_of_step (Psender.stepped_of_step hc)
    cases lato with
    | receiver => exact ⟨.inl rfl, .inl rfl⟩
    | sender =>
      refine ⟨hport.imp_right ?_, hsent⟩
      rintro ⟨hmem, bytes, rfl, htype⟩
      exact ⟨hmem, bytes, id, htype⟩
  | preceiver e =>
    obtain ⟨c, hc, rfl⟩ := Option.map_eq_some_iff.mp hstep
    obtain ⟨hport, hsent⟩ := Preceiver.ports_of_step (Preceiver.stepped_of_step hc)
    cases lato with
    | sender => exact ⟨.inl rfl, .inl rfl⟩
    | receiver =>
      refine ⟨hport.imp_right ?_, hsent⟩
      rintro ⟨hmem, outcomes, bytes, rfl, hb, htype⟩
      exact ⟨hmem, bytes, fun hnet => hnet _ hb, htype⟩
  | ritardatore e =>
    obtain ⟨c, hc, rfl⟩ := Option.map_eq_some_iff.mp hstep
    cases lato <;> exact ⟨.inl rfl, .inl rfl⟩

/-- Each step of each program keeps it. The emulator reads what was handed over for the local port
of a pair, and only a proxy sends there. -/
theorem Routed.stepped (hwired : Wired par avvio) {s t : Host} {e : Event}
    (h : Routed par avvio s) (hnet : Network stream s e)
    (hstep : step par senderMax receiverMax s e = some t) : Routed par avvio t := by
  have hports := fun lato => (ports_of_step stream hstep lato).imp_left
    (Or.imp_right And.left)
  cases e with
  | psender e =>
    obtain ⟨c, hc, rfl⟩ := Option.map_eq_some_iff.mp hstep
    exact h.grow rfl hports
  | preceiver e =>
    obtain ⟨c, hc, rfl⟩ := Option.map_eq_some_iff.mp hstep
    exact h.grow rfl hports
  | ritardatore e =>
    obtain ⟨c, hc, rfl⟩ := Option.map_eq_some_iff.mp hstep
    refine ⟨h.tallied.stepped (Ritardatore.stepped_of_step hc), h.ported, ?_⟩
    intro r hr
    rcases Ritardatore.ricevuti_of_step hc with hsame | hread
    · exact ⟨hr, (h.judged r (hsame ▸ hr)).2⟩
    · obtain ⟨i, lato, buf, ris, outcomes, caso, rfl, hport, hbuf, hgrow⟩ := hread
      rw [h.tallied.port_eq] at hport
      refine ⟨hr, ?_⟩
      rcases List.mem_append.mp (hgrow ▸ hr) with hr | hr
      · exact (h.judged r hr).2
      · rw [List.mem_singleton.mp hr]
        have harrives : s.Arrives buf := hnet _ hbuf
        rw [Arrives, hport] at harrives
        exact h.read_sent hwired harrives

/-- In every run what the emulator read on a side was sent by the proxy of that side, to that
pair. -/
theorem Routed.run (hwired : Wired par avvio)
    (run : Reached par avvio stream senderMax receiverMax s) : Routed par avvio s :=
  Machine.Run.invariant (I := Routed par avvio)
    (fun _ _ _ h hnet hstep => h.stepped hwired hnet hstep) run .initial

/-! ## The three are the two over a network -/

/-- The two proxies among the three programs. -/
def proxies (s : Host) : Sys := ⟨s.psender, s.preceiver⟩

/-- A step of a proxy is one of the two proxies over the network. -/
theorem Routed.refines_step (h : Routed par avvio s) (hwired : Wired par avvio) {e : Event}
    (hnet : Network stream s e) (hstep : step par senderMax receiverMax s e = some t) :
    Machine.Run (Sys.step senderMax receiverMax) (Sys.Network stream) s.proxies t.proxies := by
  cases e with
  | psender e =>
    obtain ⟨c, hc, rfl⟩ := Option.map_eq_some_iff.mp hstep
    refine .single ⟨.psender e, ?_, Option.map_eq_some_iff.mpr ⟨c, hc, rfl⟩⟩
    cases e with
    | check outcome =>
      cases outcome with
      | data bytes => exact h.arrives hwired .sender hnet
      | failed errno => trivial
    | go | send | select | read => exact hnet
  | ritardatore e =>
    obtain ⟨c, hc, rfl⟩ := Option.map_eq_some_iff.mp hstep
    exact .refl
  | preceiver e =>
    obtain ⟨c, hc, rfl⟩ := Option.map_eq_some_iff.mp hstep
    refine .single ⟨.preceiver e, ?_, Option.map_eq_some_iff.mpr ⟨c, hc, rfl⟩⟩
    cases e with
    | recv outcomes =>
      intro r hr
      cases r with
      | data bytes => exact h.arrives hwired .receiver (hnet _ hr)
      | failed errno => trivial
    | go | send | ack | select => exact hnet

/-- A step of a proxy is a step of the two proxies over `Sys.Network`, and a step of the emulator is
none. What the proxy reads is a datagram of the other one or a notice, since `Routed` says where it
came from. -/
theorem Routed.simulates (hwired : Wired par avvio) (s : Host) (e : Event) (t : Host) (p : Sys)
    (h : Routed par avvio s ∧ p = s.proxies) (hnet : Network stream s e)
    (hstep : step par senderMax receiverMax s e = some t) :
    ∃ q, Machine.Run (Sys.step senderMax receiverMax) (Sys.Network stream) p q ∧
      Routed par avvio t ∧ q = t.proxies := by
  obtain ⟨h, rfl⟩ := h
  exact ⟨_, h.refines_step hwired hnet hstep, h.stepped hwired hnet hstep, rfl⟩

/-- Every run of the three programs is a run of the two proxies over the network that loses,
delays, repeats, overtakes and injects notices. The ports have to be wired, or else the emulator
and a proxy do not hear each other, and nothing is injected but what the emulator sends. -/
theorem host_refines (hwired : Wired par avvio)
    (run : Reached par avvio stream senderMax receiverMax s) :
    Sys.Reached stream senderMax receiverMax s.proxies := by
  obtain ⟨q, hrun, _, rfl⟩ :=
    Machine.Run.simulated (Routed.simulates hwired) run ⟨.initial, rfl⟩
  exact hrun

/-- What links the two proxies over the network links them here. -/
theorem linked_run (hwired : Wired par avvio)
    (run : Reached par avvio stream senderMax receiverMax s) (hfew : s.proxies.Few) :
    Sys.Linked stream senderMax s.proxies := by
  obtain ⟨q, hrun, _, rfl⟩ :=
    Machine.Run.simulated (Routed.simulates hwired) run ⟨.initial, rfl⟩
  exact Sys.Linked.run hrun hfew

end

/-! ## A whole transfer -/

/-- What the emulator does at second 100 with pair 0 ready on some side, after it served the
queue. -/
def relay (clock : List Ritardatore.Timeval) (lato : Lato) (buf : List UInt8) :
    List Ritardatore.Event :=
  let leggi : Ritardatore.Event := .leggi [.data buf] ⟨⟨100, 0⟩, ⟨100, 0⟩, 50, 0, 0⟩
  [.select (.ready [(0, lato)]), .dispatch clock, .cambia ⟨100, 0⟩ 0, .cambia ⟨100, 0⟩ 0,
    .cambia ⟨100, 0⟩ 0, .go, if lato = .sender then leggi else .go,
    if lato = .sender then .go else leggi, .go, .go, .go, .go, .go]

/-- What it does when nothing can be read. -/
def serve (clock : List Ritardatore.Timeval) : List Ritardatore.Event :=
  [.select (.ready []), .dispatch clock, .cambia ⟨100, 0⟩ 0, .cambia ⟨100, 0⟩ 0,
    .cambia ⟨100, 0⟩ 0, .go, .go, .go, .go, .go, .go, .go, .go]

/-- psender reads a stream of one byte to its end and sends the data packet and the end marker. -/
def sendsTwo : List Psender.Event :=
  [.go, .go, .select (.ready true false), .read [.data [7]] [], .read [.data []] [], .go, .go, .go,
    .send [.sent], .send [.sent], .go]

/-- preceiver reads, delivers and acknowledges them. -/
def deliversTwo : List Preceiver.Event :=
  [.go, .go, .go, .select (.ready true), .recv [.data (dataDatagram 1 [7])],
    .recv [.data (dataDatagram 0 endingBody)], .go, .go, .send 1, .go, .ack [], .ack [], .go]

/-- psender reads the two acknowledgements. -/
def endsTwo : List Psender.Event :=
  [.select (.ready false true), .check (.data (ackImage [] 0)), .check (.data (ackImage [] 1)), .go,
    .go]

/-- A whole transfer, each datagram through the emulator. -/
def exchanged : List Event :=
  [sendsTwo.map .psender,
    (relay [] .sender (dataDatagram 1 [7])).map .ritardatore,
    (relay [⟨100, 0⟩] .sender (dataDatagram 0 endingBody)).map .ritardatore,
    (serve [⟨101, 0⟩, ⟨101, 0⟩]).map .ritardatore,
    deliversTwo.map .preceiver,
    (relay [] .receiver (ackImage [] 0)).map .ritardatore,
    (relay [⟨100, 0⟩] .receiver (ackImage [] 1)).map .ritardatore,
    (serve [⟨102, 0⟩, ⟨102, 0⟩]).map .ritardatore,
    endsTwo.map .psender].flatten

/-- The whole transfer can be run. -/
theorem exchanged_possible :
    (Machine.exec (step Ritardatore.parametriDefault 2 2) (Network [7])
      (initial Ritardatore.avvioDefault) exchanged).isSome := by decide +kernel

/-- Where the run ends: psender has left its loop as all sent. -/
def exchangedEnd : Host :=
  (Machine.exec (step Ritardatore.parametriDefault 2 2) (Network [7])
    (initial Ritardatore.avvioDefault) exchanged).get exchanged_possible

/-- It is a run of the three programs under their environment. -/
theorem exchanged_run :
    Reached Ritardatore.parametriDefault Ritardatore.avvioDefault [7] 2 2 exchangedEnd :=
  Machine.run_exec exchanged_possible

/-- The ports of `PARAMETRIDEFAULT` are wired. -/
theorem wired_default : Wired Ritardatore.parametriDefault Ritardatore.avvioDefault :=
  ⟨rfl, rfl, rfl, rfl⟩

/-- The whole transfer of one byte, as a run of the two proxies. -/
theorem host_refines_exchanged :
    Sys.Reached [7] 2 2 exchangedEnd.proxies ∧ exchangedEnd.psender.pc = .exited .allSent :=
  ⟨host_refines wired_default exchanged_run, by decide +kernel⟩

/-! ## End to end -/

section

variable {par : Parametri} {avvio : Avvio} {stream : List UInt8} {senderMax receiverMax : Nat}
  {s : Host}

/-- What the receiving proxy passed on is part of the stream. -/
theorem passed_within {p : Sys} (h : Sys.Linked stream senderMax p) :
    p.preceiver.globals.passed.flatten <+: stream := by
  have hout : p.preceiver.globals.passed = (p.psender.globals.created.map Prod.snd).take
      (p.preceiver.globals.lastSentId.toNat - 1) := h.sound.out_eq
  rw [hout]
  exact (List.IsPrefix.flatten (List.take_prefix _ _)).trans h.psender.packets.read_within

/-- When the sending proxy leaves its loop as all sent, the receiving one passed on everything. -/
theorem passed_all {p : Sys} (h : Sys.Linked stream senderMax p)
    (hpc : p.psender.pc = .exited .allSent) : p.preceiver.globals.passed.flatten = stream := by
  have hp : Psender.Packets stream senderMax p.psender.globals := h.psender.packets
  have hall : p.psender.globals.allSent = true := by
    have hstands := h.psender.stands
    rw [Psender.Config.Stands, hpc] at hstands
    exact hstands
  simp only [Psender.Globals.allSent, Bool.and_eq_true, decide_eq_true_eq] at hall
  have hempty : p.psender.globals.toSend.nodes = [] :=
    hp.toSend_counted.length_eq_zero_iff.mp hall.1
  have hnone : ∀ n ∈ p.view.held, n = 0 := by
    rintro n ⟨x, hx, _⟩
    rw [hempty] at hx
    cases hx
  have hdone : p.preceiver.globals.passed = p.psender.globals.created.map Prod.snd :=
    h.sound.out_of_none_held hnone
  rw [hdone]
  exact hp.read_all (hp.finalize_ended hall.2)

/-- With the emulator in between, and a receiver that accepts whole bodies, what is passed to it is
at all times the first bodies read from the sender, in their order and each once, so a prefix of
the stream. psender is never further ahead than it has room, and when it leaves its loop as all
sent the whole stream was passed. -/
theorem host_delivers (hwired : Wired par avvio)
    (run : Reached par avvio stream senderMax receiverMax s) (hfew : s.proxies.Few) :
    s.preceiver.globals.passed = (s.psender.globals.created.map Prod.snd).take
        (s.preceiver.globals.lastSentId.toNat - 1) ∧
      s.preceiver.globals.passed.flatten <+: stream ∧
      s.psender.globals.currentId.toNat ≤ s.preceiver.globals.lastSentId.toNat + senderMax ∧
      (s.psender.pc = .exited .allSent → s.preceiver.globals.passed.flatten = stream) := by
  have h : Sys.Linked stream senderMax s.proxies := linked_run hwired run hfew
  exact ⟨h.sound.out_eq, passed_within h, h.window, passed_all h⟩

/-- At its end the byte was passed on. -/
theorem host_delivers_exchanged : exchangedEnd.preceiver.globals.passed.flatten = [7] :=
  (host_delivers wired_default exchanged_run (by decide +kernel)).2.2.2 (by decide +kernel)

/-- All that can reach a proxy comes over one pair of the emulator: a copy of what the other proxy
sent on the pair and the emulator forwarded, or the notice that the emulator lost something the
proxy itself sent on it. -/
theorem host_routes (hwired : Wired par avvio)
    (run : Reached par avvio stream senderMax receiverMax s) {lato : Lato} {bytes : List UInt8}
    (hb : s.Handed (fromRitPort lato) bytes) :
    ∃ i, Judged avvio s i lato.opposto 3 bytes ∨
      ∃ lost, Judged avvio s i lato 2 lost ∧ Ritardatore.Notice bytes lost :=
  (Routed.run hwired run).handed hwired hb

/-- The acknowledgement that reaches psender came over a pair of the emulator. -/
theorem host_routes_exchanged : ∃ i,
    Judged Ritardatore.avvioDefault exchangedEnd i .receiver 3 (ackImage [] 1) ∨
      ∃ lost, Judged Ritardatore.avvioDefault exchangedEnd i .sender 2 lost ∧
        Ritardatore.Notice (ackImage [] 1) lost :=
  have hb : exchangedEnd.Handed (fromRitPort .sender) (ackImage [] 1) := by decide +kernel
  host_routes wired_default exchanged_run hb

/-! ## Without errors -/

/-- The emulator loses nothing, and the proxies stay on the ports of its pair 0. -/
structure Steady (par : Parametri) (avvio : Avvio) (s : Host) : Prop where
  routed : Routed par avvio s
  intact : Ritardatore.Intact s.ritardatore.globals
  ported : ∀ lato, Ported (· = (avvio.coppia 0).port lato) (s.toRitPort lato) (s.sentBy lato)

/-- At the start both proxies send to their first port. -/
theorem Steady.initial (hwired : Wired par avvio) : Steady par avvio (initial avvio) where
  routed := .initial
  intact := ⟨fun _ => rfl, fun _ h => nomatch h⟩
  ported := by
    intro lato
    cases lato with
    | sender =>
      refine ⟨?_, fun _ h => nomatch h⟩
      show Psender.Globals.initial.toRitPort = avvio.firstLocalPortNumberSenderSide + UInt16.ofNat 0
      rw [hwired.first_sender]
      rfl
    | receiver =>
      refine ⟨?_, fun _ h => nomatch h⟩
      show Preceiver.Globals.initial.toRitPort =
        avvio.firstLocalPortNumberReceiverSide + UInt16.ofNat 0
      rw [hwired.first_receiver]
      rfl

/-- Only copies of bodies arrive at a proxy. -/
theorem Steady.body (h : Steady par avvio s) (hwired : Wired par avvio) {lato : Lato}
    {bytes : List UInt8} (hb : s.Handed (fromRitPort lato) bytes) :
    bytes[4]? = some typeB ∧
      ⟨(avvio.coppia 0).port lato.opposto, bytes⟩ ∈ s.sentBy lato.opposto := by
  obtain ⟨i, ⟨hread, hsent⟩ | ⟨lost, ⟨hread, _⟩, _⟩⟩ := h.routed.handed hwired hb
  · have hris : 3 = if Ritardatore.Body bytes then 3 else 0 := h.intact.verdicts _ hread
    split at hris
    next hbody =>
      have hlen : 4 < bytes.length := Nat.lt_trans (by decide) hbody.1
      refine ⟨?_, ?_⟩
      · rw [List.getElem?_eq_getElem hlen, ← List.getD_eq_getElem bytes 0 hlen, hbody.2]
      · rw [← (h.ported _).sent _ hsent]
        exact hsent
    next => omega
  · have hris : 2 = if Ritardatore.Body lost then 3 else 0 := h.intact.verdicts _ hread
    split at hris <;> omega

/-- A loss report would be no body, so there is none, and the ports stay. -/
theorem Steady.stepped (hwired : Wired par avvio) (hperc : par.percentualeErrore ≤ 0)
    {e : Event} (h : Steady par avvio s) (hnet : Network stream s e)
    (hstep : step par senderMax receiverMax s e = some t) : Steady par avvio t := by
  have hintact : Ritardatore.Intact t.ritardatore.globals := by
    cases e with
    | psender | preceiver =>
      obtain ⟨c, hc, rfl⟩ := Option.map_eq_some_iff.mp hstep
      exact h.intact
    | ritardatore e =>
      obtain ⟨c, hc, rfl⟩ := Option.map_eq_some_iff.mp hstep
      exact h.intact.stepped hperc hc
  refine ⟨h.routed.stepped hwired hnet hstep, hintact, fun lato => ?_⟩
  obtain ⟨hport, hsent⟩ := ports_of_step stream hstep lato
  refine (h.ported lato).stepped (.inl ?_) hsent
  rcases hport with hsame | ⟨_, bytes, hread, htype⟩
  · exact hsame
  · exact absurd (h.body hwired (hread hnet)).1 htype

/-- With `PERCENTUALE_ERRORE` not above zero the three programs use pair 0 of the emulator and no
other: neither proxy ever changes its port, and all that can reach a proxy is a copy of what the
other one sent. -/
theorem host_lossless (hwired : Wired par avvio) (hperc : par.percentualeErrore ≤ 0)
    (run : Reached par avvio stream senderMax receiverMax s) (lato : Lato) :
    s.toRitPort lato = (avvio.coppia 0).port lato ∧
      (∀ d ∈ s.sentBy lato, d.port = (avvio.coppia 0).port lato) ∧
      ∀ bytes, s.Handed (fromRitPort lato) bytes →
        bytes[4]? = some typeB ∧
          ⟨(avvio.coppia 0).port lato.opposto, bytes⟩ ∈ s.sentBy lato.opposto := by
  have h : Steady par avvio s := Machine.Run.invariant (I := Steady par avvio)
    (fun _ _ _ h hnet hstep => h.stepped hwired hperc hnet hstep) run (.initial hwired)
  exact ⟨(h.ported lato).toRitPort, (h.ported lato).sent, fun bytes hb => h.body hwired hb⟩

/-- The whole transfer is one without losses too. -/
theorem exchanged_lossless_possible :
    (Machine.exec (step { Ritardatore.parametriDefault with percentualeErrore := 0 } 2 2)
      (Network [7]) (initial Ritardatore.avvioDefault) exchanged).isSome := by decide +kernel

/-- The same transfer where the emulator loses nothing. -/
theorem host_lossless_exchanged :
    ((Machine.exec (step { Ritardatore.parametriDefault with percentualeErrore := 0 } 2 2)
      (Network [7]) (initial Ritardatore.avvioDefault) exchanged).get
        exchanged_lossless_possible).toRitPort .receiver = 62000 :=
  (host_lossless ⟨rfl, rfl, rfl, rfl⟩ (by decide)
    (Machine.run_exec exchanged_lossless_possible) .receiver).1

end

end Host

end GProxy
