import GProxy.InMemory.Preceiver
import GProxy.InMemory.Psender
import GProxy.InMemory.Ritardatore
import GProxy.System.Host

/-!
# The three programs in memory

psender, the emulator and preceiver side by side as in `GProxy.System.Host`, each with its lists in
a memory of its own. The environment is the same, said of what the memories hold.

Every run is a run of the three on sequences, in lockstep (`Models`). So no run comes to a fault in
any of the three, and what is passed to the receiver is what the sender sent
(`memory_host_delivers`).

A fault is a step through a pointer that is `NULL` or was freed, and in the emulator also one
outside a `malloc`ed buffer. The arrays of fixed size of the two proxies have no bounds here, so a
copy that leaves one is no fault: at the end of every stream psender makes one
(`GProxy.Psender.copies_in_bounds_iff`). The limits of `GProxy.System.Host` apply too.
-/

namespace GProxy.InMemory

structure Host where
  psender : Psender.Config
  ritardatore : Ritardatore.Config
  preceiver : Preceiver.Config

namespace Host

open GProxy.Ritardatore (Parametri Avvio maxNumConnections)

inductive Event
  | psender (e : Psender.Event)
  | ritardatore (e : Ritardatore.Event)
  | preceiver (e : Preceiver.Event)
  deriving DecidableEq

/-- The event without the addresses. -/
def Event.plain : Event → GProxy.Host.Event
  | .psender e => .psender e.plain
  | .ritardatore e => .ritardatore e.plain
  | .preceiver e => .preceiver e.plain

def step (par : Parametri) (senderMax receiverMax : Nat) (s : Host) : Event → Option Host
  | .psender e => (Psender.step senderMax s.psender e).map fun c => { s with psender := c }
  | .ritardatore e =>
    (Ritardatore.step par s.ritardatore e).map fun c => { s with ritardatore := c }
  | .preceiver e =>
    (Preceiver.step receiverMax s.preceiver e).map fun c => { s with preceiver := c }

/-! ## The environment -/

/-- What `recv` may answer on the sender's socket. -/
def Continues (stream : List UInt8) (g : Psender.Globals) (bytes : List UInt8) : Prop :=
  (g.created.map Prod.snd).flatten ++ bytes <+: stream ∧ bytes.length ≤ payloadSize ∧
    (bytes = [] → (g.created.map Prod.snd).flatten = stream)

instance (stream : List UInt8) (g : Psender.Globals) : DecidablePred (Continues stream g) :=
  fun _ => inferInstanceAs (Decidable (_ ∧ _ ∧ (_ → _)))

/-- `send` accepts the body of the node at the pointer whole. -/
def acceptsWhole (c : Preceiver.Config) (sendCounter : Int) : Bool :=
  match c.pc with
  | .delivering iter _ =>
    iter = c.globals.toSend ||
      c.globals.mem.get c.globals.mem.pktSize iter = some (sendCounter + headerSize)
  | _ => true

/-- One of the three programs handed the bytes to `sendto` for a port. -/
def Handed (s : Host) (port : UInt16) (bytes : List UInt8) : Prop :=
  (∃ d ∈ s.psender.globals.sent ++ s.preceiver.globals.sent, d.port = port ∧ d.bytes = bytes) ∨
    ∃ x ∈ s.ritardatore.globals.inviati,
      x.elemento.portNumberDest = port ∧ x.elemento.buf = bytes

instance (s : Host) (port : UInt16) : DecidablePred (s.Handed port) :=
  fun _ => inferInstanceAs (Decidable (_ ∨ _))

/-- The local port of the socket that `ricevo_inserisco` would read next. -/
def readPort (s : Host) : Option UInt16 :=
  match s.ritardatore.pc with
  | some (.leggendo i lato _) =>
    if h : i < maxNumConnections then some ((s.ritardatore.globals.coppiafd ⟨i, h⟩).port lato)
    else none
  | _ => none

/-- `ricevo_inserisco` can read the bytes next. -/
def Arrives (s : Host) (bytes : List UInt8) : Prop :=
  match s.readPort with
  | some port => s.Handed port bytes
  | none => False

instance (s : Host) : DecidablePred s.Arrives := by
  intro bytes
  unfold Arrives
  split <;> infer_instance

/-- UDP, a sender with one stream, a receiver that accepts whole bodies, and three `malloc`s. -/
def Network (stream : List UInt8) (s : Host) : Event → Prop
  | .psender (.check outcome) => outcome.OnData (s.Handed GProxy.Psender.fromRitPort)
  | .psender (.read outcomes past a) =>
    Psender.Allocates s.psender (.read outcomes past a) ∧
      ∀ r ∈ outcomes, r.OnData (Continues stream s.psender.globals)
  | .psender _ => True
  | .ritardatore (.leggi outcomes caso a b) =>
    Ritardatore.Allocates s.ritardatore (.leggi outcomes caso a b) ∧
      ∀ r ∈ outcomes, r.OnData s.Arrives
  | .ritardatore _ => True
  | .preceiver (.recv outcomes a) =>
    Preceiver.Allocates s.preceiver (.recv outcomes a) ∧
      ∀ r ∈ outcomes, r.OnData (s.Handed GProxy.Preceiver.fromRitPort)
  | .preceiver (.send sendCounter) => acceptsWhole s.preceiver sendCounter = true
  | .preceiver _ => True

instance (stream : List UInt8) (s : Host) : ∀ e, Decidable (Network stream s e)
  | .psender (.check outcome) =>
    inferInstanceAs (Decidable (outcome.OnData (s.Handed GProxy.Psender.fromRitPort)))
  | .psender (.read outcomes past a) =>
    inferInstanceAs (Decidable (Psender.Allocates s.psender (.read outcomes past a) ∧
      ∀ r ∈ outcomes, r.OnData (Continues stream s.psender.globals)))
  | .psender .go | .psender (.send _) | .psender (.select _) => .isTrue trivial
  | .ritardatore (.leggi outcomes caso a b) =>
    inferInstanceAs (Decidable (Ritardatore.Allocates s.ritardatore (.leggi outcomes caso a b) ∧
      ∀ r ∈ outcomes, r.OnData s.Arrives))
  | .ritardatore .go | .ritardatore (.select _) | .ritardatore (.dispatch _)
  | .ritardatore (.cambia _ _) => .isTrue trivial
  | .preceiver (.recv outcomes a) =>
    inferInstanceAs (Decidable (Preceiver.Allocates s.preceiver (.recv outcomes a) ∧
      ∀ r ∈ outcomes, r.OnData (s.Handed GProxy.Preceiver.fromRitPort)))
  | .preceiver (.send sendCounter) =>
    inferInstanceAs (Decidable (acceptsWhole s.preceiver sendCounter = true))
  | .preceiver .go | .preceiver (.ack _) | .preceiver (.select _) => .isTrue trivial

/-- The three programs are where those on sequences are. -/
structure Models (s : Host) (t : GProxy.Host) : Prop where
  psender : Psender.Tracks s.psender t.psender
  ritardatore : Ritardatore.Models s.ritardatore t.ritardatore
  preceiver : Preceiver.Models s.preceiver t.preceiver

section

variable {par : Parametri} {stream : List UInt8} {senderMax receiverMax : Nat} {s : Host}
  {t : GProxy.Host}

/-- What the three handed to `sendto` is what the others did. -/
theorem Models.handed_iff (h : Models s t) (port : UInt16) (bytes : List UInt8) :
    s.Handed port bytes ↔ t.Handed port bytes := by
  obtain ⟨_, _, hpsender, _⟩ := h.psender
  obtain ⟨_, _, _, _, hpreceiver, _⟩ := h.preceiver.tracks
  obtain ⟨q, _, hritardatore, _⟩ := h.ritardatore.holds
  rw [Handed, GProxy.Host.Handed, hpsender.agrees.sent, hpreceiver.agrees.sent, hritardatore]
  rfl

/-- What the emulator can read next is the same in memory and on sequences: the ports are those of
the pairs, and what was handed over is the same. -/
theorem Models.arrives_iff (h : Models s t) (bytes : List UInt8) :
    s.Arrives bytes ↔ t.Arrives bytes := by
  have hport : s.readPort = t.ritardatore.readPort := by
    obtain ⟨q, _, hglobals, _⟩ := h.ritardatore.holds
    rw [readPort, h.ritardatore.pc_eq, GProxy.Ritardatore.Config.readPort, hglobals]
    cases t.ritardatore.pc <;> rfl
  rw [Arrives, GProxy.Host.Arrives, hport]
  cases t.ritardatore.readPort with
  | none => rfl
  | some port => exact h.handed_iff port bytes

/-- The node at the pointer has the size of the next node of the sequence. -/
theorem accepts_of_models {c : Preceiver.Config} {d : GProxy.Preceiver.Config}
    (h : Preceiver.Models c d) {sendCounter : Int} (hwhole : acceptsWhole c sendCounter = true) :
    GProxy.Preceiver.acceptsWhole d (.send sendCounter) = true := by
  obtain ⟨pc, g⟩ := c
  obtain ⟨pc', d⟩ := d
  obtain ⟨toSend, toAck, lsend, lack, (hholds : Preceiver.Holds g d toSend toAck lsend lack),
    hstands⟩ := h.tracks
  obtain ⟨hsend, _⟩ := hholds.listAt
  cases hstands with
  | @delivering iter left scans hwalk =>
    cases left with
    | nil => rfl
    | cons n left =>
      obtain ⟨x, rest, rfl, hx, hvalue, _, _⟩ := hwalk.turn hsend
      have hat := hsend.nodes x (hx.subset List.mem_cons_self)
      have hne : x.addr ≠ toSend := by
        intro heq
        apply hsend.wellFormed.not_mem
        exact heq ▸ List.mem_map_of_mem (hx.subset List.mem_cons_self)
      have hsize : n.pktSize = sendCounter + headerSize := by
        rw [← value_pktSize hvalue]
        simpa [acceptsWhole, hholds.toSend_eq, hne, hat.live, hat.pktSize] using hwhole
      apply decide_eq_true
      rw [hsize, Int.add_sub_cancel]
  | top | acking | selecting | receiving | exited => rfl

/-- An event the environment in memory allows is one that the environment on sequences allows,
without its addresses. -/
theorem Models.network (h : Models s t) {e : Event} (hnet : Network stream s e) :
    GProxy.Host.Network stream t e.plain := by
  cases e with
  | psender e =>
    cases e with
    | check outcome =>
      cases outcome with
      | data bytes => exact (h.handed_iff _ bytes).mp hnet
      | failed errno => trivial
    | read outcomes past a =>
      obtain ⟨_, _, hpsender, _⟩ := h.psender
      intro r hr
      have hr := hnet.2 r hr
      cases r with
      | data bytes =>
        rw [Recv.OnData, Continues, hpsender.agrees.created] at hr
        exact hr
      | failed errno => trivial
    | go | send | select => trivial
  | ritardatore e =>
    cases e with
    | leggi outcomes caso a b =>
      intro r hr
      have hr := hnet.2 r hr
      cases r with
      | data bytes => exact (h.arrives_iff bytes).mp hr
      | failed errno => trivial
    | select | dispatch | cambia | go => trivial
  | preceiver e =>
    cases e with
    | recv outcomes a =>
      intro r hr
      have hr := hnet.2 r hr
      cases r with
      | data bytes => exact (h.handed_iff _ bytes).mp hr
      | failed errno => trivial
    | send sendCounter => exact accepts_of_models h.preceiver hnet
    | go | ack | select => rfl

/-- Results that are related stay related under functions that keep them so. A step of one of the
three becomes a step of the host in this way. -/
theorem rel_map {α β γ δ : Type*} {R : α → β → Prop} {Q : γ → δ → Prop} {f : α → γ} {g : β → δ}
    {x : Option α} {y : Option β} (h : Option.Rel R x y) (hfg : ∀ a b, R a b → Q (f a) (g b)) :
    Option.Rel Q (x.map f) (y.map g) := by
  cases h with
  | none => exact .none
  | some hR => exact .some (hfg _ _ hR)

/-- The three answer alike. -/
theorem Models.step (h : Models s t) {e : Event} (hnet : Network stream s e) :
    Option.Rel Models (step par senderMax receiverMax s e)
      (GProxy.Host.step par senderMax receiverMax t e.plain) := by
  cases e with
  | psender e =>
    have ha : Psender.Allocates s.psender e := by
      cases e with
      | read => exact hnet.1
      | go | send | select | check => trivial
    exact rel_map (h.psender.step ha) fun _ _ hc => ⟨hc, h.ritardatore, h.preceiver⟩
  | ritardatore e =>
    have ha : Ritardatore.Allocates s.ritardatore e := by
      cases e with
      | leggi => exact hnet.1
      | select | dispatch | cambia | go => trivial
    exact rel_map (h.ritardatore.step ha) fun _ _ hc => ⟨h.psender, hc, h.preceiver⟩
  | preceiver e =>
    have ha : Preceiver.Allocates s.preceiver e := by
      cases e with
      | recv => exact hnet.1
      | go | send | ack | select => trivial
    exact rel_map (h.preceiver.step ha) fun _ _ hc => ⟨h.psender, h.ritardatore, hc⟩

/-! ## End to end -/

/-- The three programs in memory, whatever addresses `malloc` returns: no step of any of them goes
through a pointer that is `NULL` or was freed, and none of the emulator outside a buffer. The run
is one of the three on sequences, and what can happen next in the one can happen in the other. So
what is passed to the receiver is at all times part of the stream, and all of it when psender
leaves its loop as all sent. -/
theorem memory_host_delivers (stream : List UInt8) (senderMax receiverMax : Nat) {avvio : Avvio}
    (hwired : GProxy.Host.Wired par avvio) {m₁ m₂ : Pointers.Mem} {m₃ : Ritardatore.Mem}
    {a b c : Pointers.Addr} (ha : m₁.live a = false) (hb : m₂.live b = false)
    (hc : m₂.live c = false) (hne : b ≠ c) (hm : m₃.Empty) :
    ∃ g h, Psender.init m₁ a = some g ∧ Preceiver.init m₂ b c = some h ∧
      ∀ s, Machine.Run (step par senderMax receiverMax) (Network stream)
          ⟨⟨.top, g⟩, .avviato m₃ avvio, ⟨.top, h⟩⟩ s →
        (s.psender.pc ≠ .fault ∧ s.ritardatore.pc ≠ none ∧ s.preceiver.pc ≠ .fault) ∧
        (∃ t, GProxy.Host.Reached par avvio stream senderMax receiverMax t ∧ Models s t ∧
          ∀ e, Network stream s e → ((step par senderMax receiverMax s e).isSome ↔
            (GProxy.Host.step par senderMax receiverMax t e.plain).isSome)) ∧
        (s.psender.globals.created.length < 2 ^ 32 - 1 →
          s.preceiver.globals.passed.flatten <+: stream ∧
          (s.psender.pc = .exited .allSent → s.preceiver.globals.passed.flatten = stream)) := by
  obtain ⟨g, hg, htracks⟩ := Psender.init_tracks ha
  obtain ⟨h, hh, hmodels⟩ := Preceiver.init_models hb hc hne
  refine ⟨g, h, hg, hh, ?_⟩
  intro s run
  have hstart : Models ⟨⟨.top, g⟩, .avviato m₃ avvio, ⟨.top, h⟩⟩ (.initial avvio) :=
    ⟨htracks, Ritardatore.avviato_models hm avvio, hmodels⟩
  obtain ⟨t, run', ht⟩ : ∃ t, GProxy.Host.Reached par avvio stream senderMax receiverMax t ∧
      Models s t :=
    run.lockstep (fun _ _ _ h => h.step) (fun _ _ _ h => h.network) hstart
  obtain ⟨_, _, hpsender, hstands⟩ := ht.psender
  obtain ⟨_, _, _, _, hpreceiver, _⟩ := ht.preceiver.tracks
  refine ⟨⟨ht.psender.no_fault, ht.ritardatore.no_fault, ht.preceiver.no_fault⟩,
    ⟨t, run', ht, ?_⟩, ?_⟩
  · intro e he
    have hrel : Option.Rel Models (step par senderMax receiverMax s e)
        (GProxy.Host.step par senderMax receiverMax t e.plain) := ht.step he
    generalize step par senderMax receiverMax s e = s' at hrel ⊢
    generalize GProxy.Host.step par senderMax receiverMax t e.plain = t' at hrel ⊢
    cases hrel <;> rfl
  · intro hfew
    rw [hpsender.agrees.created] at hfew
    have hlinked := GProxy.Host.linked_run hwired run' hfew
    rw [hpreceiver.agrees.passed]
    refine ⟨GProxy.Host.passed_within hlinked, ?_⟩
    intro hpc
    apply GProxy.Host.passed_all hlinked
    rw [hpc] at hstands
    generalize hsame : t.psender.pc = pc at hstands
    cases hstands
    exact hsame

end

/-- The event where `malloc` returns the address. -/
def Event.addressed (a : Pointers.Addr) : GProxy.Host.Event → Event
  | .psender .go => .psender .go
  | .psender (.send outcomes) => .psender (.send outcomes)
  | .psender (.select outcome) => .psender (.select outcome)
  | .psender (.read outcomes past) => .psender (.read outcomes past a)
  | .psender (.check outcome) => .psender (.check outcome)
  | .ritardatore (.select outcome) => .ritardatore (.select outcome)
  | .ritardatore (.dispatch clock) => .ritardatore (.dispatch clock)
  | .ritardatore (.cambia now casuale) => .ritardatore (.cambia now casuale)
  | .ritardatore (.leggi outcomes caso) => .ritardatore (.leggi outcomes caso a a)
  | .ritardatore .go => .ritardatore .go
  | .preceiver .go => .preceiver .go
  | .preceiver (.send sendCounter) => .preceiver (.send sendCounter)
  | .preceiver (.ack stack) => .preceiver (.ack stack)
  | .preceiver (.select outcome) => .preceiver (.select outcome)
  | .preceiver (.recv outcomes) => .preceiver (.recv outcomes a)

/-- The whole transfer, each address that `malloc` returns a new one. -/
def exchanged : List Event :=
  GProxy.Host.exchanged.zipIdx.map fun e => .addressed (e.2 + 2) e.1

/-- The programs at their start. -/
def started : Host where
  psender := ⟨.top, (Psender.init .initial 0).get Psender.started_possible⟩
  ritardatore := .avviato .initial GProxy.Ritardatore.avvioDefault
  preceiver := ⟨.top, (Preceiver.init .initial 0 1).get Preceiver.started_possible⟩

/-- The whole transfer can be run in memory. -/
theorem exchanged_possible :
    (Machine.exec (step GProxy.Ritardatore.parametriDefault 2 2) (Network [7]) started
      exchanged).isSome := by decide +kernel

/-- Where the run ends. -/
def exchangedEnd : Host :=
  (Machine.exec (step GProxy.Ritardatore.parametriDefault 2 2) (Network [7]) started
    exchanged).get exchanged_possible

/-- A run in which the byte 7 is passed on and psender leaves its loop as all sent. -/
theorem memory_host_delivers_exchanged :
    Machine.Run (step GProxy.Ritardatore.parametriDefault 2 2) (Network [7]) started
        exchangedEnd ∧
      exchangedEnd.psender.pc = .exited .allSent ∧
      exchangedEnd.preceiver.globals.passed.flatten = [7] := by
  have hnew : ∀ a, Pointers.Mem.initial.live a = false := fun _ => rfl
  obtain ⟨g, h, hg, hh, hsafe⟩ := memory_host_delivers [7] 2 2 GProxy.Host.wired_default (hnew 0)
    (hnew 0) (hnew 1) Nat.zero_ne_one Ritardatore.Mem.empty_initial
  obtain rfl := Option.some.inj (hg.symm.trans (Option.some_get Psender.started_possible).symm)
  obtain rfl := Option.some.inj (hh.symm.trans (Option.some_get Preceiver.started_possible).symm)
  have run : Machine.Run _ _ started exchangedEnd := Machine.run_exec exchanged_possible
  obtain ⟨_, _, hdelivers⟩ := hsafe _ run
  have hpc : exchangedEnd.psender.pc = .exited .allSent := by decide +kernel
  exact ⟨run, hpc, (hdelivers (by decide +kernel)).2 hpc⟩

end Host

end GProxy.InMemory
