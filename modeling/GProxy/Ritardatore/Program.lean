import GProxy.Ritardatore.Queue
import GProxy.GlobalUtils

/-!
# The emulator (`Ritardatore.c`)

The functions that receive, discard, delay and send datagrams, on an explicit record of the
globals, and the main loop as a machine: one event is one `select`, one run of the dispatch loop,
one change of state of a channel or one call of `ricevo_inserisco`, with what the system calls, the
clock and `random` returned. What `sin` contributes to a loss and to a delay is a parameter.

The timeout `select` is given is left out: `select` may return at any time and with any set of
sockets, so what holds of all runs holds of those with the timeouts of the source. The counters and
the times have the 32 bits they have in the objects of the repository, and wrap; what a compiler
makes of an overflow is not established. Nor is what becomes of a datagram after `sendto`.

Four fields are histories: `ricevuti` of the datagrams read, `accodati` of the elements that went
into the queue, `tolti` of those that came out of it, `inviati` of those handed to `send_udp`, each
with the pairs as they were then.
-/

namespace GProxy.Ritardatore

open WordBytes

/-- `MAXNUMCONNECTIONS` -/
abbrev maxNumConnections : Nat := 3

instance : NeZero maxNumConnections := ⟨by decide⟩

/-- `sizeof(COMMON_HEADER)` -/
def sizeofCommonHeader : Nat := 5

/-- `errno` when a peer's socket was reset. -/
def econnreset : Errno := .other 104

/-- `unsigned long int` -/
abbrev ULong := UInt32

/-- `COPPIAFD` -/
structure Coppia where
  fdLatosender : Int
  portNumberLatosender : UInt16
  fdLatoreceiver : Int
  portNumberLatoreceiver : UInt16
  attivo : Bool
  secIstcreazione : Long
  statoTrasmissione : Bool
  istProssimoCambioStato : Timeval
  deriving DecidableEq, Repr

/-- The two sides of a pair. -/
inductive Lato
  | sender
  | receiver
  deriving DecidableEq, Repr

def Lato.opposto : Lato → Lato
  | .sender => .receiver
  | .receiver => .sender

/-- The command line, and what `abs(sin(s/8.0))` and `abs(50000*sin(s/8.0))` are as integers.
`PERCENTUALE_ERRORE` is a `double` that is set by `atoi`, so an integer. -/
structure Parametri where
  remotePortNumberSender : UInt16
  remotePortNumberReceiver : UInt16
  remoteSenderIp : AddressString
  remoteReceiverIp : AddressString
  percentualeErrore : Int
  oscillazione : Long → Nat
  andamento : Long → Nat

/-- A datagram that was read, with the pair and the side it was read on, and what
`ricevo_inserisco` answered. -/
structure Ricevuto where
  coppia : Fin maxNumConnections
  lato : Lato
  buf : List UInt8
  ris : Nat
  deriving DecidableEq, Repr

/-- An element handed to `send_udp`, with which pairs were open. -/
structure Invio where
  elemento : Elemento
  aperte : Fin maxNumConnections → Bool

/-- The counters of `sig_print`. They wrap. -/
structure Contatori where
  numspediti : Long
  numscartati : Long
  numscartatiSenzaIcmp : Long
  bytespediti : ULong
  bytescartati : ULong
  deriving DecidableEq, Repr

structure Globals where
  coppiafd : Fin maxNumConnections → Coppia
  root : List Elemento
  localCounter : UInt32
  contatori : Contatori
  ricevuti : List Ricevuto
  accodati : List Elemento
  tolti : List Elemento
  inviati : List Invio

/-- A pair of this table is open and has this local port. -/
def checkPort (coppiafd : Fin maxNumConnections → Coppia) (portNumberLocal : UInt16) : Bool :=
  (List.finRange maxNumConnections).any fun i =>
    (coppiafd i).attivo &&
      (((coppiafd i).portNumberLatosender = portNumberLocal &&
          (coppiafd i).fdLatosender > 0 && (coppiafd i).fdLatoreceiver > 0) ||
        ((coppiafd i).portNumberLatoreceiver = portNumberLocal &&
          (coppiafd i).fdLatoreceiver > 0 && (coppiafd i).fdLatosender > 0))

/-- A pair once it is closed. -/
def Coppia.chiusa (c : Coppia) : Coppia :=
  if c.attivo then { c with
    attivo := false
    fdLatosender := if c.fdLatosender ≥ 0 then -1 else c.fdLatosender
    fdLatoreceiver := if c.fdLatoreceiver ≥ 0 then -1 else c.fdLatoreceiver }
  else c

def closeCoppia (g : Globals) (i : Fin maxNumConnections) : Globals :=
  { g with coppiafd := Function.update g.coppiafd i (g.coppiafd i).chiusa }

/-- A channel whose state may change, at the time and with the random number given. -/
def Coppia.cambiata (c : Coppia) (now : Timeval) (casuale : Nat) : Coppia :=
  let ist := normalizza c.istProssimoCambioStato
  if minoreouguale c.istProssimoCambioStato now then
    let now := normalizza now
    let msecNuovoStato : Nat :=
      if c.statoTrasmissione then max (casuale % 3000) 2000 else max (casuale % 10000) 3000
    { c with
      statoTrasmissione := !c.statoTrasmissione
      istProssimoCambioStato := normalizza ⟨now.tvSec + .ofNat (msecNuovoStato / 1000),
        now.tvUsec + .ofNat (msecNuovoStato * 1000 % 1000000)⟩ }
  else { c with istProssimoCambioStato := ist }

def cambiaStatoCanaleSeScadutoBurst (percentualeErrore : Int) (i : Fin maxNumConnections)
    (now : Timeval) (casuale : Nat) (g : Globals) : Globals :=
  if percentualeErrore ≤ 0 then g
  else { g with coppiafd := Function.update g.coppiafd i ((g.coppiafd i).cambiata now casuale) }

/-- What the clock and `random` answer during one call of `ricevo_inserisco`: the reading `now`,
the one for the timeout, and the random numbers for the loss, for the notice of it and for the
delay. -/
structure Caso where
  now : Timeval
  ora : Timeval
  casuale : Nat
  casualeIcmp : Nat
  variazione : Nat
  deriving DecidableEq, Repr

/-- The datagram `ICMP`: a number of its own, the type, the number of the lost packet. -/
def icmp (localCounter : UInt32) (buf : List UInt8) : List UInt8 :=
  store (htonl localCounter) ++ typeI :: buf.take 4

/-- `ricevo_inserisco` once its `recvfrom` loop has ended with an outcome, with the arguments of
the source in their order. -/
def ricevoInserisco (par : Parametri) (caso : Caso) (recv : Recv) (g : Globals)
    (i : Fin maxNumConnections) (fdLatoricevere fdLatospedire : Int)
    (localPortNumberLatospedire localPortNumberLatoricevere : UInt16)
    (remotePortNumberLatospedire remotePortNumberLatoricevere : UInt16)
    (remoteIpLatoricevere remoteIpLatospedire : AddressString) : Globals × Nat :=
  match recv with
  | .failed errno => if errno = econnreset then (g, 0) else (closeCoppia g i, 0)
  | .data buf =>
    if buf.length ≤ sizeofCommonHeader then (g, 0)
    else if buf.getD 4 0 ≠ typeB then (g, 0)
    else
      let istante := caso.now.tvSec - (g.coppiafd i).secIstcreazione
      let casuale : Int := (caso.casuale % 100 : Nat) - 3 * (par.oscillazione istante : Int)
      let scartatoSenzaIcmp : Globals × Nat :=
        ({ g with contatori := { g.contatori with
            numscartatiSenzaIcmp := g.contatori.numscartatiSenzaIcmp + 1
            bytescartati := g.contatori.bytescartati + .ofNat buf.length } }, 1)
      if par.percentualeErrore > 0 ∧ casuale ≤ 2 then scartatoSenzaIcmp
      else if (g.coppiafd i).statoTrasmissione = false then
        if caso.casualeIcmp % 100 < 20 then scartatoSenzaIcmp
        else
          let delay : Timeval :=
            ⟨0, .ofNat (50000 + caso.variazione % 20000 + par.andamento istante)⟩
          let p : Elemento := {
            cmd := .send
            fd := fdLatoricevere
            portNumberLocal := localPortNumberLatoricevere
            portNumberDest := remotePortNumberLatoricevere
            ipDest := remoteIpLatoricevere
            buf := icmp g.localCounter buf
            timeout := somma caso.ora delay }
          ({ g with
            localCounter := g.localCounter + 1
            root := aggiungiInOrdine p g.root
            accodati := g.accodati ++ [p]
            contatori := { g.contatori with
              numscartati := g.contatori.numscartati + 1
              bytescartati := g.contatori.bytescartati + .ofNat buf.length } }, 2)
      else
        let delay : Timeval :=
          ⟨0, .ofNat (30000 + caso.variazione % 20000 + par.andamento istante)⟩
        let p : Elemento := {
          cmd := .send
          fd := fdLatospedire
          portNumberLocal := localPortNumberLatospedire
          portNumberDest := remotePortNumberLatospedire
          ipDest := remoteIpLatospedire
          buf := buf
          timeout := somma caso.ora delay }
        ({ g with
          root := aggiungiInOrdine p g.root
          accodati := g.accodati ++ [p]
          contatori := { g.contatori with
            numspediti := g.contatori.numspediti + 1
            bytespediti := g.contatori.bytespediti + .ofNat buf.length } }, 3)

/-- The call of `ricevo_inserisco` of `main` for one side of a pair. -/
def leggi (par : Parametri) (caso : Caso) (recv : Recv) (g : Globals)
    (i : Fin maxNumConnections) : Lato → Globals × Nat
  | .sender =>
    ricevoInserisco par caso recv g i (g.coppiafd i).fdLatosender (g.coppiafd i).fdLatoreceiver
      (g.coppiafd i).portNumberLatoreceiver (g.coppiafd i).portNumberLatosender
      par.remotePortNumberReceiver par.remotePortNumberSender
      par.remoteSenderIp par.remoteReceiverIp
  | .receiver =>
    ricevoInserisco par caso recv g i (g.coppiafd i).fdLatoreceiver (g.coppiafd i).fdLatosender
      (g.coppiafd i).portNumberLatosender (g.coppiafd i).portNumberLatoreceiver
      par.remotePortNumberSender par.remotePortNumberReceiver
      par.remoteReceiverIp par.remoteSenderIp

/-- The body of the dispatch loop for an element that is to be sent: it comes out of the queue in
any case, and is handed to `send_udp` when its port is still that of an open pair. -/
def spedisci (g : Globals) (e : Elemento) : Globals :=
  let g := if checkPort g.coppiafd e.portNumberLocal then
      { g with inviati := g.inviati ++ [⟨e, fun i => (g.coppiafd i).attivo⟩] }
    else g
  { g with tolti := g.tolti ++ [e] }

/-! ## The main loop -/

/-- Where the main loop stands. `rdset` is what `select` left in the set of readable sockets. -/
inductive Pc
  | selecting
  | dispatching (rdset : List (Fin maxNumConnections × Lato))
  | cambiando (i : Nat) (rdset : List (Fin maxNumConnections × Lato))
  | leggendo (i : Nat) (lato : Lato) (rdset : List (Fin maxNumConnections × Lato))
  | exited
  deriving DecidableEq, Repr

structure Config where
  pc : Pc
  globals : Globals

/-- What `select` answers. -/
inductive Select
  | failed (errno : Errno)
  | ready (rdset : List (Fin maxNumConnections × Lato))
  deriving DecidableEq, Repr

inductive Event
  | select (outcome : Select)
  | dispatch (clock : List Timeval)
  | cambia (now : Timeval) (casuale : Nat)
  | leggi (outcomes : List Recv) (caso : Caso)
  | go
  deriving DecidableEq, Repr

/-- The condition of the `recvfrom` loop. -/
def recvfromAgain : Recv → Bool
  | .data _ => false
  | .failed errno => errno = .EINTR

/-- The next call of the reading loop after this one. -/
def Pc.dopo (i : Nat) (rdset : List (Fin maxNumConnections × Lato)) : Lato → Pc
  | .sender => .leggendo i .receiver rdset
  | .receiver => .leggendo (i + 1) .sender rdset

/-- The history of the datagrams read, after an outcome and an answer. -/
def Globals.registra (g : Globals) (i : Fin maxNumConnections) (lato : Lato) (recv : Recv)
    (ris : Nat) : Globals :=
  match recv with
  | .data buf => { g with ricevuti := g.ricevuti ++ [⟨i, lato, buf, ris⟩] }
  | .failed _ => g

def step (par : Parametri) (c : Config) : Event → Option Config
  | .select outcome => match c.pc with
    | .selecting => match outcome with
      | .failed errno => some ⟨if errno = .EINTR then .selecting else .exited, c.globals⟩
      | .ready rdset => some ⟨.dispatching rdset, c.globals⟩
    | _ => none
  | .dispatch clock => match c.pc with
    | .dispatching rdset =>
      (spedisciScaduti spedisci clock c.globals.root c.globals).map fun (root, g) =>
        ⟨.cambiando 0 rdset, { g with root }⟩
    | _ => none
  | .cambia now casuale => match c.pc with
    | .cambiando i rdset =>
      if h : i < maxNumConnections then
        if (c.globals.coppiafd ⟨i, h⟩).attivo then
          some ⟨.cambiando (i + 1) rdset, cambiaStatoCanaleSeScadutoBurst par.percentualeErrore
            ⟨i, h⟩ now casuale c.globals⟩
        else none
      else none
    | _ => none
  | .leggi outcomes caso => match c.pc with
    | .leggendo i lato rdset =>
      if h : i < maxNumConnections then
        if (c.globals.coppiafd ⟨i, h⟩).attivo ∧ (⟨i, h⟩, lato) ∈ rdset then
          match doWhile recvfromAgain outcomes with
          | some (recv, []) =>
            let (g, ris) := leggi par caso recv c.globals ⟨i, h⟩ lato
            some ⟨.dopo i rdset lato, g.registra ⟨i, h⟩ lato recv ris⟩
          | _ => none
        else none
      else none
    | _ => none
  | .go => match c.pc with
    | .cambiando i rdset =>
      if h : i < maxNumConnections then
        if (c.globals.coppiafd ⟨i, h⟩).attivo then none
        else some ⟨.cambiando (i + 1) rdset, c.globals⟩
      else some ⟨.leggendo 0 .sender rdset, c.globals⟩
    | .leggendo i lato rdset =>
      if h : i < maxNumConnections then
        if (c.globals.coppiafd ⟨i, h⟩).attivo ∧ (⟨i, h⟩, lato) ∈ rdset then none
        else some ⟨.dopo i rdset lato, c.globals⟩
      else some ⟨.selecting, c.globals⟩
    | _ => none

/-! ## The start -/

/-- The first ports of the command line, the descriptors the sockets get, and the clock when each
pair is made. -/
structure Avvio where
  firstLocalPortNumberSenderSide : UInt16
  firstLocalPortNumberReceiverSide : UInt16
  fd : Fin maxNumConnections → Lato → Int
  now : Fin maxNumConnections → Timeval

/-- The pair `creazione_nuova_coppia_porte` makes at its call number `i`, with what `main` changes
of the first one. -/
def Avvio.coppia (avvio : Avvio) (i : Fin maxNumConnections) : Coppia where
  fdLatosender := avvio.fd i .sender
  portNumberLatosender := avvio.firstLocalPortNumberSenderSide + UInt16.ofNat i
  fdLatoreceiver := avvio.fd i .receiver
  portNumberLatoreceiver := avvio.firstLocalPortNumberReceiverSide + UInt16.ofNat i
  attivo := true
  secIstcreazione := (avvio.now i).tvSec - (if i = 0 then 10 else 0)
  statoTrasmissione := true
  istProssimoCambioStato :=
    ⟨(avvio.now i).tvSec + .ofNat (5 + i * 10), (avvio.now i).tvUsec⟩

def Globals.avviato (avvio : Avvio) : Globals where
  coppiafd := avvio.coppia
  root := []
  localCounter := 0
  contatori := ⟨0, 0, 0, 0, 0⟩
  ricevuti := []
  accodati := []
  tolti := []
  inviati := []

def Config.avviato (avvio : Avvio) : Config := ⟨.selecting, .avviato avvio⟩

/-- The queue with its histories. -/
def Globals.queue (g : Globals) : Queue := ⟨g.root, g.accodati, g.tolti⟩

/-! ## What a call of `ricevo_inserisco` does -/

def Coppia.fd (c : Coppia) : Lato → Int
  | .sender => c.fdLatosender
  | .receiver => c.fdLatoreceiver

def Coppia.port (c : Coppia) : Lato → UInt16
  | .sender => c.portNumberLatosender
  | .receiver => c.portNumberLatoreceiver

def Parametri.remotePort (par : Parametri) : Lato → UInt16
  | .sender => par.remotePortNumberSender
  | .receiver => par.remotePortNumberReceiver

def Parametri.remoteIp (par : Parametri) : Lato → AddressString
  | .sender => par.remoteSenderIp
  | .receiver => par.remoteReceiverIp

/-- A datagram longer than a header whose fifth byte is `'B'`. -/
def Body (buf : List UInt8) : Prop := sizeofCommonHeader < buf.length ∧ buf.getD 4 0 = typeB

instance : DecidablePred Body := fun _ => inferInstanceAs (Decidable (_ ∧ _))

/-- The element goes out of one side of a pair, to the peer on that side. -/
structure Addressed (par : Parametri) (coppia : Coppia) (lato : Lato) (p : Elemento) : Prop where
  fd_eq : p.fd = coppia.fd lato
  local_eq : p.portNumberLocal = coppia.port lato
  dest_eq : p.portNumberDest = par.remotePort lato
  ip_eq : p.ipDest = par.remoteIp lato

/-- The globals with one more element in the queue. -/
def Globals.accoda (g : Globals) (p : Elemento) : Globals :=
  { g with root := aggiungiInOrdine p g.root, accodati := g.accodati ++ [p] }

/-- What a datagram read on one side of a pair leads to, with what is answered: nothing, a loss
without notice, a loss with a notice back to the side it came from, or a copy to the other side. -/
inductive Accounts (par : Parametri) (i : Fin maxNumConnections) (lato : Lato) (buf : List UInt8)
    (g : Globals) : Globals → Nat → Prop
  | ignored : ¬ Body buf → Accounts par i lato buf g g 0
  | silent : Body buf → Accounts par i lato buf g { g with contatori := { g.contatori with
      numscartatiSenzaIcmp := g.contatori.numscartatiSenzaIcmp + 1
      bytescartati := g.contatori.bytescartati + .ofNat buf.length } } 1
  | noticed {p : Elemento} : Body buf → Addressed par (g.coppiafd i) lato p →
      p.buf = icmp g.localCounter buf →
      Accounts par i lato buf g { g.accoda p with
        localCounter := g.localCounter + 1
        contatori := { g.contatori with
          numscartati := g.contatori.numscartati + 1
          bytescartati := g.contatori.bytescartati + .ofNat buf.length } } 2
  | forwarded {p : Elemento} : Body buf → Addressed par (g.coppiafd i) lato.opposto p →
      p.buf = buf →
      Accounts par i lato buf g { g.accoda p with
        contatori := { g.contatori with
          numspediti := g.contatori.numspediti + 1
          bytespediti := g.contatori.bytespediti + .ofNat buf.length } } 3

/-- What a datagram leads to is one of the cases of `Accounts`, whatever `random`, `sin` and the
clock give. -/
theorem leggi_accounts (par : Parametri) (caso : Caso) (buf : List UInt8) (g : Globals)
    (i : Fin maxNumConnections) (lato : Lato) :
    Accounts par i lato buf g (leggi par caso (.data buf) g i lato).1
      (leggi par caso (.data buf) g i lato).2 := by
  by_cases hlen : buf.length ≤ sizeofCommonHeader
  · have hbody : ¬ Body buf := fun hb => absurd hb.1 (not_lt.mpr hlen)
    cases lato <;> simp only [leggi, ricevoInserisco, if_pos hlen] <;> exact .ignored hbody
  by_cases htype : buf.getD 4 0 = typeB
  swap
  · have hbody : ¬ Body buf := fun hb => htype hb.2
    cases lato <;> simp only [leggi, ricevoInserisco, if_neg hlen, ne_eq, htype, not_false_eq_true,
      ↓reduceIte] <;> exact .ignored hbody
  have hbody : Body buf := ⟨not_le.mp hlen, htype⟩
  cases lato <;>
  · simp only [leggi, ricevoInserisco, if_neg hlen, ne_eq, htype, not_true_eq_false, ↓reduceIte]
    split
    next => exact .silent hbody
    next =>
      split
      next =>
        split
        next => exact .silent hbody
        next => exact .noticed hbody ⟨rfl, rfl, rfl, rfl⟩ rfl
      next => exact .forwarded hbody ⟨rfl, rfl, rfl, rfl⟩ rfl

/-- What one step of the main loop can do to the globals. -/
inductive Stepped (par : Parametri) : Config → Event → Config → Prop
  | control {pc pc' : Pc} {g : Globals} {e : Event} : Stepped par ⟨pc, g⟩ e ⟨pc', g⟩
  | dispatch {pc pc' : Pc} {g g' : Globals} {clock : List Timeval} {root : List Elemento} :
      spedisciScaduti spedisci clock g.root g = some (root, g') →
      Stepped par ⟨pc, g⟩ (.dispatch clock) ⟨pc', { g' with root }⟩
  | cambia {pc pc' : Pc} {g : Globals} {i : Fin maxNumConnections} {now : Timeval}
      {casuale : Nat} : (g.coppiafd i).attivo = true →
      Stepped par ⟨pc, g⟩ (.cambia now casuale)
        ⟨pc', cambiaStatoCanaleSeScadutoBurst par.percentualeErrore i now casuale g⟩
  | leggi {pc pc' : Pc} {g : Globals} {i : Fin maxNumConnections} {lato : Lato} {recv : Recv}
      {outcomes : List Recv} {caso : Caso} : (g.coppiafd i).attivo = true →
      doWhile recvfromAgain outcomes = some (recv, []) →
      Stepped par ⟨pc, g⟩ (.leggi outcomes caso)
        ⟨pc', (leggi par caso recv g i lato).1.registra i lato recv
          (leggi par caso recv g i lato).2⟩

/-- Every step of the main loop is one of the cases of `Stepped`, which is what every invariant is
proved from. -/
theorem stepped_of_step {par : Parametri} {c c' : Config} {e : Event}
    (h : step par c e = some c') : Stepped par c e c' := by
  obtain ⟨pc, g⟩ := c
  cases e with
  | select outcome =>
    cases pc with
    | selecting => cases outcome <;> (cases h; exact .control)
    | _ => cases h
  | dispatch clock =>
    cases pc with
    | dispatching rdset =>
      obtain ⟨⟨root, g'⟩, hloop, rfl⟩ := Option.map_eq_some_iff.mp h
      exact .dispatch hloop
    | _ => cases h
  | cambia now casuale =>
    cases pc with
    | cambiando i rdset =>
      simp only [step] at h
      split at h
      next hi =>
        split at h
        next hattivo => cases h; exact .cambia hattivo
        next => cases h
      next => cases h
    | _ => cases h
  | leggi outcomes caso =>
    cases pc with
    | leggendo i lato rdset =>
      simp only [step] at h
      split at h
      next hi =>
        split at h
        next hready =>
          split at h
          next recv hrecv => cases h; exact .leggi hready.1 hrecv
          next => cases h
        next => cases h
      next => cases h
    | _ => cases h
  | go =>
    cases pc with
    | cambiando i rdset =>
      simp only [step] at h
      split at h
      next =>
        split at h
        next => cases h
        next => cases h; exact .control
      next => cases h; exact .control
    | leggendo i lato rdset =>
      simp only [step] at h
      split at h
      next =>
        split at h
        next => cases h
        next => cases h; exact .control
      next => cases h; exact .control
    | _ => cases h

end GProxy.Ritardatore
