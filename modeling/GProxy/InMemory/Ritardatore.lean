import GProxy.InMemory.Queue
import GProxy.Ritardatore.Conservation

/-!
# The emulator in memory

The main loop of the emulator with the queue at `root` in memory: each element that
`ricevo_inserisco` makes and its buffer come from `malloc`, which returns any address that is not in
use, and `free_pkt` frees both. A step through a pointer that is `NULL` or was freed leads to
`fault`, as does an access outside a buffer or the reading of a byte that was never written, and a
walk over the queue that takes more turns than `malloc` was called.

Every run is a run of the main loop on sequences (`Models`), no run comes to `fault`, and what is
allocated is what the queue holds (`ritardatore_pointer_safe`).
-/

namespace GProxy.InMemory.Ritardatore

open Function (update update_self update_of_ne)
open GProxy.Ritardatore (AddressString Elemento Timeval minoreouguale normalizza Coppia Lato
  Parametri Ricevuto Invio Contatori Caso Queue Select Pc Avvio maxNumConnections
  sizeofCommonHeader econnreset recvfromAgain checkPort)

structure Globals where
  mem : Mem
  /-- How often `malloc` was called for an element. -/
  mallocs : Nat
  coppiafd : Fin maxNumConnections → Coppia
  localCounter : UInt32
  contatori : Contatori
  ricevuti : List Ricevuto
  inviati : List Invio

def closeCoppia (g : Globals) (i : Fin maxNumConnections) : Globals :=
  { g with coppiafd := update g.coppiafd i (g.coppiafd i).chiusa }

def cambiaStatoCanaleSeScadutoBurst (percentualeErrore : Int) (i : Fin maxNumConnections)
    (now : Timeval) (casuale : Nat) (g : Globals) : Globals :=
  if percentualeErrore ≤ 0 then g
  else { g with coppiafd := update g.coppiafd i ((g.coppiafd i).cambiata now casuale) }

/-- `ricevo_inserisco` once its `recvfrom` loop has ended with an outcome; `a` and `b` are what
`malloc` returns. -/
def ricevoInserisco (par : Parametri) (caso : Caso) (a b : Addr) (recv : Recv) (g : Globals)
    (i : Fin maxNumConnections) (fdLatoricevere fdLatospedire : Int)
    (localPortNumberLatospedire localPortNumberLatoricevere : UInt16)
    (remotePortNumberLatospedire remotePortNumberLatoricevere : UInt16)
    (remoteIpLatoricevere remoteIpLatospedire : AddressString) : Option (Globals × Nat) :=
  match recv with
  | .failed errno => if errno = econnreset then some (g, 0) else some (closeCoppia g i, 0)
  | .data buf =>
    if buf.length ≤ sizeofCommonHeader then some (g, 0)
    else if buf.getD 4 0 ≠ typeB then some (g, 0)
    else
      let istante := caso.now.tvSec - (g.coppiafd i).secIstcreazione
      let casuale : Int := (caso.casuale % 100 : Nat) - 3 * (par.oscillazione istante : Int)
      let scartatoSenzaIcmp : Globals × Nat :=
        ({ g with contatori := { g.contatori with
            numscartatiSenzaIcmp := g.contatori.numscartatiSenzaIcmp + 1
            bytescartati := g.contatori.bytescartati + .ofNat buf.length } }, 1)
      if par.percentualeErrore > 0 ∧ casuale ≤ 2 then some scartatoSenzaIcmp
      else if (g.coppiafd i).statoTrasmissione = false then
        if caso.casualeIcmp % 100 < 20 then some scartatoSenzaIcmp
        else do
          let delay : Timeval :=
            ⟨0, .ofNat (50000 + caso.variazione % 20000 + par.andamento istante)⟩
          let m ← accodaIcmp (g.mallocs + 1) g.mem a b g.localCounter buf fdLatoricevere
            localPortNumberLatoricevere remotePortNumberLatoricevere remoteIpLatoricevere
            caso.ora delay
          some ({ g with
            mem := m
            mallocs := g.mallocs + 1
            localCounter := g.localCounter + 1
            contatori := { g.contatori with
              numscartati := g.contatori.numscartati + 1
              bytescartati := g.contatori.bytescartati + .ofNat buf.length } }, 2)
      else do
        let delay : Timeval :=
          ⟨0, .ofNat (30000 + caso.variazione % 20000 + par.andamento istante)⟩
        let m ← accodaCopia (g.mallocs + 1) g.mem a b buf fdLatospedire localPortNumberLatospedire
          remotePortNumberLatospedire remoteIpLatospedire caso.ora delay
        some ({ g with
          mem := m
          mallocs := g.mallocs + 1
          contatori := { g.contatori with
            numspediti := g.contatori.numspediti + 1
            bytespediti := g.contatori.bytespediti + .ofNat buf.length } }, 3)

/-- The call of `ricevo_inserisco` of `main` for one side of a pair. -/
def leggi (par : Parametri) (caso : Caso) (a b : Addr) (recv : Recv) (g : Globals)
    (i : Fin maxNumConnections) : Lato → Option (Globals × Nat)
  | .sender =>
    ricevoInserisco par caso a b recv g i (g.coppiafd i).fdLatosender (g.coppiafd i).fdLatoreceiver
      (g.coppiafd i).portNumberLatoreceiver (g.coppiafd i).portNumberLatosender
      par.remotePortNumberReceiver par.remotePortNumberSender
      par.remoteSenderIp par.remoteReceiverIp
  | .receiver =>
    ricevoInserisco par caso a b recv g i (g.coppiafd i).fdLatoreceiver (g.coppiafd i).fdLatosender
      (g.coppiafd i).portNumberLatosender (g.coppiafd i).portNumberLatoreceiver
      par.remotePortNumberSender par.remotePortNumberReceiver
      par.remoteReceiverIp par.remoteSenderIp

/-! ## The main loop -/

def scadutoTimeout (m : Mem) (ptimeout : Ptr) (now : Timeval) : Option (Mem × Bool) := do
  let m ← m.set ptimeout fun c => { c with timeout := normalizza c.timeout }
  let c ← m.get ptimeout
  some (m, minoreouguale c.timeout now)

/-- The body of the dispatch loop. The report of what was sent reads the header in the buffer. -/
def spedisci (g : Globals) : Option Globals := do
  let root ← g.mem.load .root
  let c ← g.mem.get root
  match c.cmd with
  | .addPort => some g
  | .send =>
    let inviati ← if checkPort g.coppiafd c.portNumberLocal then do
        let e ← g.mem.elemento c
        let _ ← g.mem.read c.buf sizeofCommonHeader
        some (g.inviati ++ [⟨e, fun i => (g.coppiafd i).attivo⟩])
      else some g.inviati
    let m ← freePkt g.mem .root
    some { g with mem := m, inviati }

/-- The dispatch loop, with a reading of the clock for each test that makes one. It has no result
when these are not the readings of the loop; the result is `none` when it comes to a fault. -/
def spedisciScaduti : List Timeval → Globals → Option (Option Globals)
  | [], g => if g.mem.links .root = none then some (some g) else none
  | now :: clock, g =>
    if g.mem.links .root = none then none
    else match scadutoTimeout g.mem (g.mem.links .root) now with
      | none => some none
      | some (m, scaduto) =>
        if scaduto then
          match spedisci { g with mem := m } with
          | none => some none
          | some g => spedisciScaduti clock g
        else if clock = [] then some (some { g with mem := m }) else none

/-- What `compute_timeout_first_pkt` reads, when there is a first packet. -/
def Mem.firstTimeout (m : Mem) : Option (Option Timeval) :=
  match m.links .root with
  | none => some none
  | some a => (m.get (some a)).map fun c => some c.timeout

/-- `FD_ISSET` -/
def fdIsset (fd : Fin maxNumConnections × Lato) (rdset : List (Fin maxNumConnections × Lato)) :
    Bool :=
  rdset.contains fd

/-- The history of the datagrams read, after an outcome and an answer. -/
def Globals.registra (g : Globals) (i : Fin maxNumConnections) (lato : Lato) (recv : Recv)
    (ris : Nat) : Globals :=
  match recv with
  | .data buf => { g with ricevuti := g.ricevuti ++ [⟨i, lato, buf, ris⟩] }
  | .failed _ => g

/-- Where the main loop stands; `none` after a fault. -/
structure Config where
  pc : Option Pc
  globals : Globals

/-- The events of the main loop on sequences, with what `malloc` returns in a read. -/
inductive Event
  | select (outcome : Select)
  | dispatch (clock : List Timeval)
  | cambia (now : Timeval) (casuale : Nat)
  | leggi (outcomes : List Recv) (caso : Caso) (a b : Addr)
  | go
  deriving DecidableEq

/-- The event without the addresses. -/
def Event.plain : Event → GProxy.Ritardatore.Event
  | .select outcome => .select outcome
  | .dispatch clock => .dispatch clock
  | .cambia now casuale => .cambia now casuale
  | .leggi outcomes caso _ _ => .leggi outcomes caso
  | .go => .go

/-- `malloc` returns addresses that are not in use. -/
def Allocates (c : Config) : Event → Prop
  | .leggi _ _ a b => c.globals.mem.live a = false ∧ c.globals.mem.buffer b = none
  | _ => True

instance (c : Config) : ∀ e, Decidable (Allocates c e)
  | .leggi _ _ _ _ => inferInstanceAs (Decidable (_ ∧ _))
  | .select _ | .dispatch _ | .cambia _ _ | .go => .isTrue trivial

def step (par : Parametri) (c : Config) : Event → Option Config
  | .select outcome => match c.pc with
    | some .selecting => match c.globals.mem.firstTimeout with
      | none => some ⟨none, c.globals⟩
      | some _ => match outcome with
        | .failed errno =>
          some ⟨some (if errno = .EINTR then .selecting else .exited), c.globals⟩
        | .ready rdset => some ⟨some (.dispatching rdset), c.globals⟩
    | _ => none
  | .dispatch clock => match c.pc with
    | some (.dispatching rdset) => match spedisciScaduti clock c.globals with
      | none => none
      | some none => some ⟨none, c.globals⟩
      | some (some g) => some ⟨some (.cambiando 0 rdset), g⟩
    | _ => none
  | .cambia now casuale => match c.pc with
    | some (.cambiando i rdset) =>
      if h : i < maxNumConnections then
        if (c.globals.coppiafd ⟨i, h⟩).attivo then
          some ⟨some (.cambiando (i + 1) rdset), cambiaStatoCanaleSeScadutoBurst
            par.percentualeErrore ⟨i, h⟩ now casuale c.globals⟩
        else none
      else none
    | _ => none
  | .leggi outcomes caso a b => match c.pc with
    | some (.leggendo i lato rdset) =>
      if h : i < maxNumConnections then
        if (c.globals.coppiafd ⟨i, h⟩).attivo ∧ fdIsset (⟨i, h⟩, lato) rdset then
          match doWhile recvfromAgain outcomes with
          | some (recv, []) => match leggi par caso a b recv c.globals ⟨i, h⟩ lato with
            | none => some ⟨none, c.globals⟩
            | some (g, ris) => some ⟨some (.dopo i rdset lato), g.registra ⟨i, h⟩ lato recv ris⟩
          | _ => none
        else none
      else none
    | _ => none
  | .go => match c.pc with
    | some (.cambiando i rdset) =>
      if h : i < maxNumConnections then
        if (c.globals.coppiafd ⟨i, h⟩).attivo then none
        else some ⟨some (.cambiando (i + 1) rdset), c.globals⟩
      else some ⟨some (.leggendo 0 .sender rdset), c.globals⟩
    | some (.leggendo i lato rdset) =>
      if h : i < maxNumConnections then
        if (c.globals.coppiafd ⟨i, h⟩).attivo ∧ fdIsset (⟨i, h⟩, lato) rdset then none
        else some ⟨some (.dopo i rdset lato), c.globals⟩
      else some ⟨some .selecting, c.globals⟩
    | _ => none

def Config.avviato (m : Mem) (avvio : Avvio) : Config where
  pc := some .selecting
  globals := {
    mem := m
    mallocs := 0
    coppiafd := avvio.coppia
    localCounter := 0
    contatori := ⟨0, 0, 0, 0, 0⟩
    ricevuti := []
    inviati := [] }

/-! ## What the memory holds -/

/-- The globals with the queue that the memory holds, and its histories. -/
def Globals.con (g : Globals) (q : Queue) : GProxy.Ritardatore.Globals where
  coppiafd := g.coppiafd
  root := q.root
  localCounter := g.localCounter
  contatori := g.contatori
  ricevuti := g.ricevuti
  accodati := q.entered
  tolti := q.left
  inviati := g.inviati

/-- The memory holds the queue, with no more elements than `malloc` was called for, each with a
header at least. -/
structure Holds (g : Globals) (q : Queue) (xs : List Cella) : Prop where
  represents : Represents g.mem [] xs
  elementi : xs.map Cella.elemento = q.root
  room : xs.length ≤ g.mallocs
  header : ∀ e ∈ q.root, sizeofCommonHeader ≤ e.buf.length

/-- The main loop in memory is where the main loop on sequences is. -/
structure Models (c : Config) (d : GProxy.Ritardatore.Config) : Prop where
  pc_eq : c.pc = some d.pc
  holds : ∃ q xs, d.globals = c.globals.con q ∧ Holds c.globals q xs

section

variable {g : Globals} {q : Queue} {xs : List Cella} {a b : Addr}

/-- An element that goes into the queue. -/
theorem Holds.enter (h : Holds g q xs) {xs' : List Cella} {p : Elemento} {g' : Globals}
    (h' : Represents g'.mem [] xs')
    (helementi : xs'.map Cella.elemento =
      GProxy.Ritardatore.aggiungiInOrdine p (xs.map Cella.elemento))
    (hp : sizeofCommonHeader ≤ p.buf.length) (hmallocs : g'.mallocs = g.mallocs + 1) :
    Holds g' ⟨GProxy.Ritardatore.aggiungiInOrdine p q.root, q.entered ++ [p], q.left⟩ xs' where
  represents := h'
  elementi := h.elementi ▸ helementi
  room := by
    have hlen := congrArg List.length helementi
    rw [List.length_map, GProxy.Ritardatore.length_aggiungiInOrdine, List.length_map] at hlen
    rw [hlen, hmallocs]
    exact Nat.succ_le_succ h.room
  header := by
    intro e he
    rcases GProxy.Ritardatore.mem_aggiungiInOrdine he with hnew | ⟨x, hx, hsame⟩
    · have hbuf : p.normal.buf = e.normal.buf := by rw [hnew]
      exact hp.trans_eq (congrArg List.length hbuf)
    · have hbuf : x.normal.buf = e.normal.buf := by rw [hsame]
      exact (h.header x hx).trans_eq (congrArg List.length hbuf)

/-- `ricevo_inserisco` in memory. -/
theorem Holds.receive (h : Holds g q xs) (ha : g.mem.live a = false)
    (hb : g.mem.buffer b = none) (par : Parametri) (caso : Caso) (recv : Recv)
    (i : Fin maxNumConnections) (fdLatoricevere fdLatospedire : Int)
    (localPortNumberLatospedire localPortNumberLatoricevere : UInt16)
    (remotePortNumberLatospedire remotePortNumberLatoricevere : UInt16)
    (remoteIpLatoricevere remoteIpLatospedire : AddressString) : ∃ g' ris q' xs',
      ricevoInserisco par caso a b recv g i fdLatoricevere fdLatospedire
        localPortNumberLatospedire localPortNumberLatoricevere remotePortNumberLatospedire
        remotePortNumberLatoricevere remoteIpLatoricevere remoteIpLatospedire = some (g', ris) ∧
      GProxy.Ritardatore.ricevoInserisco par caso recv (g.con q) i fdLatoricevere fdLatospedire
        localPortNumberLatospedire localPortNumberLatoricevere remotePortNumberLatospedire
        remotePortNumberLatoricevere remoteIpLatoricevere remoteIpLatospedire =
          (g'.con q', ris) ∧
      Holds g' q' xs' := by
  have hkept : ∀ g' : Globals, g'.mem = g.mem → g'.mallocs = g.mallocs → Holds g' q xs :=
    fun g' hmem hmallocs => ⟨hmem ▸ h.represents, h.elementi, hmallocs ▸ h.room, h.header⟩
  unfold ricevoInserisco GProxy.Ritardatore.ricevoInserisco
  cases recv with
  | failed errno =>
    by_cases hreset : errno = econnreset
    · simp only [if_pos hreset]
      exact ⟨_, _, q, xs, rfl, rfl, hkept _ rfl rfl⟩
    · simp only [if_neg hreset]
      exact ⟨_, _, q, xs, rfl, rfl, hkept _ rfl rfl⟩
  | data buf =>
    by_cases hlen : buf.length ≤ sizeofCommonHeader
    · simp only [if_pos hlen]
      exact ⟨_, _, q, xs, rfl, rfl, h⟩
    by_cases htype : buf.getD 4 0 ≠ typeB
    · simp only [if_neg hlen, if_pos htype]
      exact ⟨_, _, q, xs, rfl, rfl, h⟩
    simp only [if_neg hlen, if_neg htype]
    have hroom : xs.length < g.mallocs + 1 := Nat.lt_succ_of_le h.room
    have hlong : sizeofCommonHeader < buf.length := not_le.mp hlen
    have hfour : 4 ≤ buf.length := le_trans (by decide) hlong.le
    have hicmp : sizeofCommonHeader ≤ (GProxy.Ritardatore.icmp g.localCounter buf).length := by
      simp [GProxy.Ritardatore.icmp, sizeofCommonHeader]
      omega
    have hstato : (g.con q).coppiafd i = g.coppiafd i := rfl
    simp only [hstato]
    split
    next => exact ⟨_, _, q, xs, rfl, rfl, hkept _ rfl rfl⟩
    next =>
      split
      next =>
        split
        next => exact ⟨_, _, q, xs, rfl, rfl, hkept _ rfl rfl⟩
        next =>
          obtain ⟨m', xs', hcall, h', helementi⟩ := h.represents.accodaIcmp ha hb hroom
            g.localCounter hfour fdLatoricevere localPortNumberLatoricevere
            remotePortNumberLatoricevere remoteIpLatoricevere caso.ora _
          rw [hcall]
          exact ⟨_, _, _, xs', rfl, rfl, h.enter h' helementi hicmp rfl⟩
      next =>
        obtain ⟨m', xs', hcall, h', helementi⟩ := h.represents.accodaCopia ha hb hroom buf
          fdLatospedire localPortNumberLatospedire remotePortNumberLatospedire
          remoteIpLatospedire caso.ora _
        rw [hcall]
        exact ⟨_, _, _, xs', rfl, rfl, h.enter h' helementi hlong.le rfl⟩

/-- The calls of `ricevo_inserisco` of `main` answer alike. -/
theorem Holds.read (h : Holds g q xs) (ha : g.mem.live a = false) (hb : g.mem.buffer b = none)
    (par : Parametri) (caso : Caso) (recv : Recv) (i : Fin maxNumConnections) (lato : Lato) :
    ∃ g' ris q' xs', leggi par caso a b recv g i lato = some (g', ris) ∧
      GProxy.Ritardatore.leggi par caso recv (g.con q) i lato = (g'.con q', ris) ∧
      Holds g' q' xs' := by
  cases lato with
  | sender => exact h.receive ha hb par caso recv i ..
  | receiver => exact h.receive ha hb par caso recv i ..

/-! ## The dispatch loop -/

variable {x : Cella} {m : Mem}

/-- One test of the dispatch loop. -/
theorem Represents.scaduto (h : Represents m [] (x :: xs)) (now : Timeval) : ∃ m',
    scadutoTimeout m (some x.addr) now = some (m', minoreouguale x.elemento.timeout now) ∧
      Represents m' [] (x.normal :: xs) := by
  have hx := h.cells.at_mem x List.mem_cons_self
  have h' : Represents { m with campi := update m.campi x.addr x.normal.campi } []
      (x.normal :: xs) := ⟨h.chain, h.cells.set x.normal rfl rfl rfl⟩
  refine ⟨_, ?_, h'⟩
  simp [scadutoTimeout, hx.live, hx.campi, Cella.campi, Cella.normal, Elemento.normal,
    minoreouguale, GProxy.Ritardatore.normalizza_normalizza]

/-- One turn of the dispatch loop for an element that is to be sent. -/
theorem Holds.send (h : Holds g q (x :: xs)) (hcmd : x.elemento.cmd = .send) :
    ∃ g', spedisci g = some g' ∧
      ∃ q', g'.con q' = { GProxy.Ritardatore.spedisci (g.con q) x.elemento with
        root := xs.map Cella.elemento } ∧ Holds g' q' xs := by
  have hx := h.represents.cells.at_mem x List.mem_cons_self
  have hroot : g.mem.load .root = some (some x.addr) := congrArg some h.represents.chain.slot
  obtain ⟨m', hfree, h'⟩ := h.represents.free
  have hheader : sizeofCommonHeader ≤ x.elemento.buf.length :=
    h.header _ (h.elementi ▸ List.mem_cons_self)
  have hroom : xs.length ≤ g.mallocs := le_trans (Nat.le_succ _) h.room
  have hleft : ∀ e ∈ xs.map Cella.elemento, sizeofCommonHeader ≤ e.buf.length := fun e he =>
    h.header e (h.elementi ▸ List.mem_cons_of_mem _ he)
  have hcmd' : x.campi.cmd = .send := hcmd
  have hread := hx.read hheader
  have hbuf : x.campi.buf = some x.buf := rfl
  by_cases hport : checkPort g.coppiafd x.elemento.portNumberLocal = true
  · have hport' : checkPort g.coppiafd x.campi.portNumberLocal = true := hport
    have hcall : spedisci g = some { g with
        mem := m'
        inviati := g.inviati ++ [⟨x.elemento, fun i => (g.coppiafd i).attivo⟩] } := by
      simp [spedisci, hroot, hx.live, hx.campi, hcmd', hport', hx.elemento, hbuf, hread,
        hfree]
    refine ⟨_, hcall, ⟨xs.map Cella.elemento, q.entered, q.left ++ [x.elemento]⟩, ?_,
      ⟨h', rfl, hroom, hleft⟩⟩
    simp [GProxy.Ritardatore.spedisci, hport, Globals.con]
  · have hport' : ¬ checkPort g.coppiafd x.campi.portNumberLocal = true := hport
    have hcall : spedisci g = some { g with mem := m' } := by
      simp [spedisci, hroot, hx.live, hx.campi, hcmd', hport', hfree]
    refine ⟨_, hcall, ⟨xs.map Cella.elemento, q.entered, q.left ++ [x.elemento]⟩, ?_,
      ⟨h', rfl, hroom, hleft⟩⟩
    simp [GProxy.Ritardatore.spedisci, hport, Globals.con]

/-- An element that is not to be sent stays where it is. -/
theorem Holds.keep (h : Holds g q (x :: xs)) (hcmd : x.elemento.cmd = .addPort) :
    spedisci g = some g := by
  have hx := h.represents.cells.at_mem x List.mem_cons_self
  have hroot : g.mem.load .root = some (some x.addr) := congrArg some h.represents.chain.slot
  have hcmd' : x.campi.cmd = .addPort := hcmd
  simp [spedisci, hroot, hx.live, hx.campi, hcmd']

/-- What the two dispatch loops come to. -/
inductive Dispatched : Option Globals → List Elemento × GProxy.Ritardatore.Globals → Prop
  | mk {g : Globals} {q : Queue} {xs : List Cella} {root : List Elemento}
      {d : GProxy.Ritardatore.Globals} : { d with root } = g.con q → Holds g q xs →
      Dispatched (some g) (root, d)

/-- The body of the dispatch loop leaves the queue to the loop. -/
theorem spedisci_root (d : GProxy.Ritardatore.Globals) (root : List Elemento) (e : Elemento) :
    GProxy.Ritardatore.spedisci { d with root } e =
      { GProxy.Ritardatore.spedisci d e with root } := by
  unfold GProxy.Ritardatore.spedisci
  dsimp only
  split <;> rfl

/-- One test of the dispatch loop, with the globals. -/
theorem Holds.due (h : Holds g q (x :: xs)) (now : Timeval) : ∃ m',
    scadutoTimeout g.mem (some x.addr) now = some (m', minoreouguale x.elemento.timeout now) ∧
      Holds { g with mem := m' }
        ⟨x.elemento.normal :: xs.map Cella.elemento, q.entered, q.left⟩ (x.normal :: xs) := by
  obtain ⟨m', hcall, h'⟩ := h.represents.scaduto now
  refine ⟨m', hcall, h', rfl, h.room, ?_⟩
  intro e he
  rcases List.mem_cons.mp he with rfl | he
  · exact h.header x.elemento (h.elementi ▸ List.mem_cons_self)
  · exact h.header e (h.elementi ▸ List.mem_cons_of_mem _ he)

/-- The dispatch loops answer alike. -/
theorem Holds.dispatch (h : Holds g q xs) {d : GProxy.Ritardatore.Globals}
    (hd : { d with root := q.root } = g.con q) (clock : List Timeval) :
    Option.Rel Dispatched (spedisciScaduti clock g)
      (GProxy.Ritardatore.spedisciScaduti GProxy.Ritardatore.spedisci clock q.root d) := by
  induction clock generalizing g q xs d with
  | nil =>
    cases xs with
    | nil =>
      have hempty : g.mem.links .root = none := h.represents.chain.slot
      rw [spedisciScaduti, if_pos hempty, ← h.elementi]
      rw [← h.elementi] at hd
      exact .some (.mk hd h)
    | cons x xs =>
      have hroot : g.mem.links .root = some x.addr := h.represents.chain.slot
      rw [spedisciScaduti, if_neg (hroot ▸ Option.some_ne_none _), ← h.elementi]
      exact .none
  | cons now clock ih =>
    cases xs with
    | nil =>
      have hempty : g.mem.links .root = none := h.represents.chain.slot
      rw [spedisciScaduti, if_pos hempty, ← h.elementi]
      exact .none
    | cons x xs =>
      have hroot : g.mem.links .root = some x.addr := h.represents.chain.slot
      obtain ⟨m', hcall, h'⟩ := h.due now
      have hd' : { d with root := x.elemento.normal :: xs.map Cella.elemento } =
          Globals.con { g with mem := m' }
            ⟨x.elemento.normal :: xs.map Cella.elemento, q.entered, q.left⟩ :=
        congrArg (fun s : GProxy.Ritardatore.Globals =>
          { s with root := x.elemento.normal :: xs.map Cella.elemento }) hd
      rw [spedisciScaduti, if_neg (hroot ▸ Option.some_ne_none _), hroot, hcall, ← h.elementi,
        List.map_cons, GProxy.Ritardatore.spedisciScaduti]
      dsimp only
      by_cases hdue : minoreouguale x.elemento.timeout now = true
      · rw [if_pos hdue, if_pos hdue]
        cases hcmd : x.elemento.cmd with
        | send =>
          obtain ⟨g₂, hsend, q₂, hcon, h₂⟩ := h'.send hcmd
          rw [← hd', spedisci_root] at hcon
          have hd₂ : { GProxy.Ritardatore.spedisci d x.elemento.normal with
              root := q₂.root } = g₂.con q₂ := by
            rw [hcon, ← h₂.elementi]
            rfl
          have hturn := ih h₂ hd₂
          rw [← h₂.elementi] at hturn
          rw [hsend]
          exact hturn
        | addPort =>
          rw [h'.keep hcmd]
          exact ih h' hd'
      · rw [if_neg hdue, if_neg hdue]
        split
        next => exact .some (.mk hd' h')
        next => exact .none

/-! ## One step -/

/-- `compute_timeout_first_pkt` reads an element that is allocated. -/
theorem Holds.firstTimeout (h : Holds g q xs) : ∃ timeout, g.mem.firstTimeout = some timeout := by
  have hslot : g.mem.links .root = (xs.map Cella.addr).head? := h.represents.chain.slot
  cases xs with
  | nil => exact ⟨none, by simp [Mem.firstTimeout, hslot]⟩
  | cons x xs =>
    have hx := h.represents.cells.at_mem x List.mem_cons_self
    exact ⟨some (g.mem.campi x.addr).timeout, by simp [Mem.firstTimeout, hslot, hx.live]⟩

/-- A queue that is held, at the same place of the loop, is all of `Models`. -/
theorem Holds.models (h : Holds g q xs) (pc : Pc) : Models ⟨some pc, g⟩ ⟨pc, g.con q⟩ :=
  ⟨rfl, q, xs, rfl, h⟩

/-- A look at the state of a channel does not touch the queue. -/
theorem Holds.cambia (h : Holds g q xs) (percentualeErrore : Int) (i : Fin maxNumConnections)
    (now : Timeval) (casuale : Nat) (pc : Pc) :
    Models ⟨some pc, cambiaStatoCanaleSeScadutoBurst percentualeErrore i now casuale g⟩
      ⟨pc, GProxy.Ritardatore.cambiaStatoCanaleSeScadutoBurst percentualeErrore i now casuale
        (g.con q)⟩ := by
  unfold cambiaStatoCanaleSeScadutoBurst GProxy.Ritardatore.cambiaStatoCanaleSeScadutoBurst
  split
  next => exact h.models pc
  next => exact ⟨rfl, q, xs, rfl, h.represents, h.elementi, h.room, h.header⟩

/-- Recording what was read does not touch the queue. -/
theorem Holds.registra (h : Holds g q xs) (i : Fin maxNumConnections) (lato : Lato) (recv : Recv)
    (ris : Nat) (pc : Pc) :
    Models ⟨some pc, g.registra i lato recv ris⟩ ⟨pc, (g.con q).registra i lato recv ris⟩ := by
  cases recv with
  | data buf => exact ⟨rfl, q, xs, rfl, h.represents, h.elementi, h.room, h.header⟩
  | failed errno => exact h.models pc

/-- The test for a readable socket of an open pair, with the set as a Boolean test and as a
membership. -/
theorem ready_iff {attivo : Prop} {fd : Fin maxNumConnections × Lato}
    {rdset : List (Fin maxNumConnections × Lato)} :
    attivo ∧ fdIsset fd rdset = true ↔ attivo ∧ fd ∈ rdset :=
  and_congr_right fun _ => List.contains_iff_mem

variable {c : Config} {d : GProxy.Ritardatore.Config} {par : Parametri}

/-- The two main loops answer alike. -/
theorem Models.step (h : Models c d) {e : Event} (ha : Allocates c e) :
    Option.Rel Models (step par c e) (GProxy.Ritardatore.step par d e.plain) := by
  obtain ⟨pc?, g⟩ := c
  obtain ⟨pc, d⟩ := d
  obtain ⟨(rfl : pc? = some pc), q, xs, (rfl : d = g.con q), (hholds : Holds g q xs)⟩ := h
  cases e with
  | select outcome =>
    cases pc with
    | selecting =>
      obtain ⟨timeout, htimeout⟩ := hholds.firstTimeout
      simp only [Ritardatore.step, htimeout]
      cases outcome with
      | failed errno => exact .some (hholds.models _)
      | ready rdset => exact .some (hholds.models _)
    | dispatching | cambiando | leggendo | exited => exact .none
  | dispatch clock =>
    cases pc with
    | dispatching rdset =>
      have hrel : Option.Rel Dispatched (spedisciScaduti clock g)
          (GProxy.Ritardatore.spedisciScaduti GProxy.Ritardatore.spedisci clock (g.con q).root
            (g.con q)) := hholds.dispatch rfl clock
      simp only [Ritardatore.step, Event.plain, GProxy.Ritardatore.step]
      generalize spedisciScaduti clock g = ended at hrel ⊢
      generalize GProxy.Ritardatore.spedisciScaduti GProxy.Ritardatore.spedisci clock (g.con q).root
        (g.con q) = ended' at hrel ⊢
      cases hrel with
      | none => exact .none
      | some hdispatched =>
        obtain ⟨hcon, h'⟩ := hdispatched
        exact .some ⟨rfl, _, _, hcon, h'⟩
    | selecting | cambiando | leggendo | exited => exact .none
  | cambia now casuale =>
    cases pc with
    | cambiando i rdset =>
      simp only [Ritardatore.step, Event.plain, GProxy.Ritardatore.step]
      split
      next hi =>
        have hsame : (g.con q).coppiafd ⟨i, hi⟩ = g.coppiafd ⟨i, hi⟩ := rfl
        rw [hsame]
        split
        next => exact .some (hholds.cambia ..)
        next => exact .none
      next => exact .none
    | selecting | dispatching | leggendo | exited => exact .none
  | leggi outcomes caso a b =>
    cases pc with
    | leggendo i lato rdset =>
      simp only [Ritardatore.step, Event.plain, GProxy.Ritardatore.step]
      split
      next hi =>
        have hsame : (g.con q).coppiafd ⟨i, hi⟩ = g.coppiafd ⟨i, hi⟩ := rfl
        rw [hsame]
        by_cases hready : (g.coppiafd ⟨i, hi⟩).attivo = true ∧ (⟨i, hi⟩, lato) ∈ rdset
        · rw [if_pos (ready_iff.mpr hready), if_pos hready]
          cases hloop : doWhile recvfromAgain outcomes with
          | none => exact .none
          | some ended =>
            obtain ⟨recv, rest⟩ := ended
            cases rest with
            | cons => exact .none
            | nil =>
              obtain ⟨g', ris, q', xs', hcall, hseq, h'⟩ :=
                hholds.read ha.1 ha.2 par caso recv ⟨i, hi⟩ lato
              simp only [hcall, hseq]
              exact .some (h'.registra ..)
        · rw [if_neg (ready_iff.not.mpr hready), if_neg hready]
          exact .none
      next => exact .none
    | selecting | dispatching | cambiando | exited => exact .none
  | go =>
    cases pc with
    | cambiando i rdset =>
      simp only [Ritardatore.step, Event.plain, GProxy.Ritardatore.step]
      split
      next hi =>
        have hsame : (g.con q).coppiafd ⟨i, hi⟩ = g.coppiafd ⟨i, hi⟩ := rfl
        rw [hsame]
        split
        next => exact .none
        next => exact .some (hholds.models _)
      next => exact .some (hholds.models _)
    | leggendo i lato rdset =>
      simp only [Ritardatore.step, Event.plain, GProxy.Ritardatore.step]
      split
      next hi =>
        have hsame : (g.con q).coppiafd ⟨i, hi⟩ = g.coppiafd ⟨i, hi⟩ := rfl
        rw [hsame]
        by_cases hready : (g.coppiafd ⟨i, hi⟩).attivo = true ∧ (⟨i, hi⟩, lato) ∈ rdset
        · rw [if_pos (ready_iff.mpr hready), if_pos hready]
          exact .none
        · rw [if_neg (ready_iff.not.mpr hready), if_neg hready]
          exact .some (hholds.models _)
      next => exact .some (hholds.models _)
    | selecting | dispatching | exited => exact .none

/-- A run that models one on sequences never comes to a fault, for which there is no place there. -/
theorem Models.no_fault (h : Models c d) : c.pc ≠ none := by
  rw [h.pc_eq]
  exact Option.some_ne_none _

/-- What is allocated is the queue: as many elements and buffers as it has places. -/
theorem Models.noLeak (h : Models c d) : c.globals.mem.NoLeak d.globals.root.length := by
  obtain ⟨q, xs, hq, hholds⟩ := h.holds
  have hroot : d.globals.root = q.root := congrArg GProxy.Ritardatore.Globals.root hq
  rw [hroot, ← hholds.elementi, List.length_map]
  exact hholds.represents.noLeak

/-- The start in a memory where nothing is allocated models the start on sequences. -/
theorem avviato_models {m : Mem} (hm : m.Empty) (avvio : Avvio) :
    Models (.avviato m avvio) (.avviato avvio) :=
  ⟨rfl, .initial, [], rfl, hm.represents, rfl, le_rfl, fun _ he => absurd he List.not_mem_nil⟩

/-- In every run in memory, whatever addresses `malloc` returns, no step goes through a pointer
that is `NULL` or was freed or outside a buffer, and no byte is read that was never written. What
is allocated are the elements of the queue with a buffer each: nothing is lost and nothing is freed
twice. The run is one of the main loop on sequences, and what can happen next in the one can happen
in the other. -/
theorem ritardatore_pointer_safe {m : Mem} (hm : m.Empty) {avvio : Avvio}
    (run : Machine.Run (Ritardatore.step par) Allocates (.avviato m avvio) c) : c.pc ≠ none ∧
      ∃ d, Machine.Run (GProxy.Ritardatore.step par) Machine.Free (.avviato avvio) d ∧
        Models c d ∧ c.globals.mem.NoLeak d.globals.root.length ∧
        ∀ event, Allocates c event → ((Ritardatore.step par c event).isSome ↔
          (GProxy.Ritardatore.step par d event.plain).isSome) := by
  obtain ⟨d, run', hd⟩ :
      ∃ d, Machine.Run (GProxy.Ritardatore.step par) Machine.Free (.avviato avvio) d ∧ Models c d :=
    run.lockstep (fun _ _ _ h => h.step) (fun _ _ _ _ _ => trivial) (avviato_models hm avvio)
  refine ⟨hd.no_fault, d, run', hd, hd.noLeak, ?_⟩
  intro event hevent
  have hrel : Option.Rel Models (Ritardatore.step par c event)
      (GProxy.Ritardatore.step par d event.plain) := hd.step hevent
  generalize Ritardatore.step par c event = c' at hrel ⊢
  generalize GProxy.Ritardatore.step par d event.plain = d' at hrel ⊢
  cases hrel <;> rfl

end

/-- A notice and a copy are queued and sent; the third element is where the first was. -/
def reused : List Event :=
  [.select (.ready [(0, .sender), (1, .receiver), (2, .sender)]), .dispatch [],
    .cambia ⟨105, 0⟩ 0, .cambia ⟨105, 0⟩ 0, .cambia ⟨105, 0⟩ 0, .go,
    .leggi [.data [0, 0, 0, 9, 66, 1]] ⟨⟨105, 0⟩, ⟨105, 1⟩, 50, 50, 0⟩ 0 0, .go,
    .go, .leggi [.data [0, 0, 0, 4, 66, 1, 2]] ⟨⟨105, 0⟩, ⟨105, 2⟩, 50, 0, 0⟩ 1 1,
    .leggi [.data [0, 0, 0, 5, 66, 1]] ⟨⟨105, 0⟩, ⟨105, 3⟩, 1, 0, 0⟩ 2 2, .go,
    .go, .select (.ready [(1, .receiver)]), .dispatch [⟨106, 0⟩, ⟨106, 0⟩],
    .cambia ⟨106, 0⟩ 0, .cambia ⟨106, 0⟩ 0, .cambia ⟨106, 0⟩ 0, .go, .go, .go, .go,
    .leggi [.data [0, 0, 0, 6, 66, 3]] ⟨⟨106, 0⟩, ⟨106, 1⟩, 50, 0, 0⟩ 0 0]

/-- The run can be made, with an address that was freed before and is used again. -/
theorem reused_possible : (Machine.exec (step GProxy.Ritardatore.parametriDefault) Allocates
    (.avviato .initial GProxy.Ritardatore.avvioDefault) reused).isSome := by decide

/-- A run that reads four datagrams and sends two elements, in memory that was freed before. -/
theorem ritardatore_pointer_safe_reused : ∃ c,
    Machine.Run (step GProxy.Ritardatore.parametriDefault) Allocates
      (.avviato .initial GProxy.Ritardatore.avvioDefault) c ∧
    c.globals.ricevuti.length = 4 ∧ c.globals.inviati.length = 2 ∧ c.pc ≠ none ∧
    ∃ d, Models c d ∧ c.globals.mem.NoLeak d.globals.root.length := by
  have run := Machine.run_exec reused_possible
  obtain ⟨hpc, d, _, hd, hleak, _⟩ := ritardatore_pointer_safe Mem.empty_initial run
  exact ⟨_, run, by decide, by decide, hpc, d, hd, hleak⟩

end GProxy.InMemory.Ritardatore
