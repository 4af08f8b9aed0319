import GProxy.Ritardatore.Program
import Mathlib.Data.List.Forall2

/-!
# Nothing is lost in the emulator but what is counted as lost

Every datagram read has exactly one verdict, and the counters are the tally of the verdicts. Every
verdict that queues an element queues one, addressed by the pair and the side the datagram came
from, and every element queued is still in the queue or was taken out of it once. What is sent was
taken out, and goes out of a pair that is still open.

The counters of `sig_print` wrap, so they are the tally modulo their width, and the tally itself as
long as it is in their range. In a run that is long enough it is not (`counters_wrap`).
-/

namespace GProxy.Ritardatore

variable {par : Parametri} {avvio : Avvio}

/-- How many datagrams got a verdict. -/
def conta (ris : Nat) (ricevuti : List Ricevuto) : Nat := ricevuti.countP (·.ris = ris)

/-- How many bytes the datagrams of some verdicts have. -/
def lunghezza (p : Nat → Bool) (ricevuti : List Ricevuto) : Nat :=
  ((ricevuti.filter (p ·.ris)).map (·.buf.length)).sum

/-- How many bytes the bodies read have. -/
def lunghezzaBody (ricevuti : List Ricevuto) : Nat :=
  ((ricevuti.filter fun r => Body r.buf).map (·.buf.length)).sum

/-- The counters as the verdicts on the datagrams read make them, each to its width. -/
def tally (ricevuti : List Ricevuto) : Contatori where
  numspediti := .ofNat (conta 3 ricevuti)
  numscartati := .ofNat (conta 2 ricevuti)
  numscartatiSenzaIcmp := .ofNat (conta 1 ricevuti)
  bytespediti := .ofNat (lunghezza (· = 3) ricevuti)
  bytescartati := .ofNat (lunghezza (fun ris => ris = 1 ∨ ris = 2) ricevuti)

/-- One more datagram counts for its verdict. -/
theorem conta_concat (ris : Nat) (ricevuti : List Ricevuto) (r : Ricevuto) :
    conta ris (ricevuti ++ [r]) = conta ris ricevuti + if r.ris = ris then 1 else 0 := by
  simp [conta, List.countP_append, List.countP_cons]

/-- One more datagram adds its length to the bytes of its verdict. -/
theorem lunghezza_concat (p : Nat → Bool) (ricevuti : List Ricevuto) (r : Ricevuto) :
    lunghezza p (ricevuti ++ [r]) = lunghezza p ricevuti + if p r.ris then r.buf.length else 0 := by
  by_cases hp : p r.ris = true <;> simp [lunghezza, hp]

/-- A notice: nine bytes of type `'I'` that end with the number of the lost packet. -/
def Notice (buf lost : List UInt8) : Prop :=
  buf.length = 9 ∧ buf.getD 4 0 = typeI ∧ buf.drop 5 = lost.take 4

/-- The element queued for a datagram: a copy to the other side, or a notice back. -/
def Answers (par : Parametri) (avvio : Avvio) (r : Ricevuto) (p : Elemento) : Prop :=
  (r.ris = 3 ∧ p.buf = r.buf ∧ Addressed par (avvio.coppia r.coppia) r.lato.opposto p) ∨
    (r.ris = 2 ∧ Notice p.buf r.buf ∧ Addressed par (avvio.coppia r.coppia) r.lato p)

/-- The invariant of a run. -/
structure Tallied (par : Parametri) (avvio : Avvio) (g : Globals) : Prop where
  port_eq : ∀ i lato, (g.coppiafd i).port lato = (avvio.coppia i).port lato
  fd_eq : ∀ i, (g.coppiafd i).attivo = true → ∀ lato,
    (g.coppiafd i).fd lato = (avvio.coppia i).fd lato
  verdicts : ∀ r ∈ g.ricevuti, r.ris ≤ 3 ∧ (r.ris = 0 ↔ ¬ Body r.buf)
  contatori_eq : g.contatori = tally g.ricevuti
  answered : List.Forall₂ (Answers par avvio) (g.ricevuti.filter (2 ≤ ·.ris)) g.accodati
  queued : Machine.Run Queue.step Machine.Free .initial g.queue
  sent_removed : (g.inviati.map Invio.elemento).Sublist g.tolti
  sent_open : ∀ x ∈ g.inviati, ∃ i lato,
    (avvio.coppia i).port lato = x.elemento.portNumberLocal ∧ x.aperte i = true

/-- At the start nothing was read. -/
theorem Tallied.avviato : Tallied par avvio (Globals.avviato avvio) where
  port_eq := fun _ _ => rfl
  fd_eq := fun _ _ _ => rfl
  verdicts := fun _ h => nomatch h
  contatori_eq := rfl
  answered := .nil
  queued := .refl
  sent_removed := .refl _
  sent_open := fun _ h => nomatch h

/-! ## The pairs -/

/-- Another table that keeps the ports, and the descriptors of the open pairs. -/
theorem Tallied.update {g : Globals} (h : Tallied par avvio g) {i : Fin maxNumConnections}
    {c : Coppia} (hport : ∀ lato, c.port lato = (g.coppiafd i).port lato)
    (hattivo : c.attivo = true → (g.coppiafd i).attivo = true)
    (hfd : c.attivo = true → ∀ lato, c.fd lato = (g.coppiafd i).fd lato) :
    Tallied par avvio { g with coppiafd := Function.update g.coppiafd i c } := by
  refine { h with port_eq := ?_, fd_eq := ?_ }
  · intro j lato
    by_cases hji : j = i
    · subst hji
      simp only [Function.update_self, hport, h.port_eq]
    · simp only [Function.update_of_ne hji, h.port_eq]
  · intro j hj lato
    by_cases hji : j = i
    · subst hji
      simp only [Function.update_self] at hj ⊢
      rw [hfd hj, h.fd_eq j (hattivo hj)]
    · simp only [Function.update_of_ne hji] at hj ⊢
      exact h.fd_eq j hj lato

/-- Closing a pair changes no account. Its ports stay those of the pair. -/
theorem Tallied.close {g : Globals} (h : Tallied par avvio g) (i : Fin maxNumConnections) :
    Tallied par avvio (closeCoppia g i) := by
  have hclosed : (g.coppiafd i).chiusa.attivo = false := by
    unfold Coppia.chiusa
    split
    next => rfl
    next hoff => exact Bool.not_eq_true _ ▸ hoff
  apply h.update
  · intro lato
    unfold Coppia.chiusa
    split <;> cases lato <;> rfl
  · intro ha
    rw [hclosed] at ha
    cases ha
  · intro ha
    rw [hclosed] at ha
    cases ha

/-- A look at the state of a channel changes no account. -/
theorem Tallied.cambia {g : Globals} (h : Tallied par avvio g) (i : Fin maxNumConnections)
    (now : Timeval) (casuale : Nat) :
    Tallied par avvio (cambiaStatoCanaleSeScadutoBurst par.percentualeErrore i now casuale g) := by
  unfold cambiaStatoCanaleSeScadutoBurst
  split
  next => exact h
  next =>
    have hsame : ((g.coppiafd i).cambiata now casuale).attivo = (g.coppiafd i).attivo := by
      unfold Coppia.cambiata
      simp only
      split <;> rfl
    apply h.update
    · intro lato
      unfold Coppia.cambiata
      simp only
      split <;> cases lato <;> rfl
    · intro ha
      exact hsame ▸ ha
    · intro _ lato
      unfold Coppia.cambiata
      simp only
      split <;> cases lato <;> rfl

/-- A port of an open pair is what `check_port` looks for. -/
theorem exists_of_checkPort {coppiafd : Fin maxNumConnections → Coppia} {port : UInt16}
    (h : checkPort coppiafd port = true) :
    ∃ i lato, (coppiafd i).port lato = port ∧ (coppiafd i).attivo = true := by
  obtain ⟨i, _, hi⟩ := List.any_eq_true.mp h
  simp only [Bool.and_eq_true, Bool.or_eq_true, decide_eq_true_eq] at hi
  obtain ⟨hattivo, hside | hside⟩ := hi
  · exact ⟨i, .sender, hside.1.1, hattivo⟩
  · exact ⟨i, .receiver, hside.1.1, hattivo⟩

/-! ## Reading -/

/-- The notice built for a body names its number. -/
theorem icmp_notice (n : UInt32) {buf : List UInt8} (hbody : Body buf) :
    Notice (icmp n buf) buf := by
  have hlen : (buf.take 4).length = 4 := by
    have := hbody.1
    rw [List.length_take]
    simp only [sizeofCommonHeader] at this
    omega
  refine ⟨?_, rfl, rfl⟩
  simp only [icmp, List.length_append, WordBytes.store_length, List.length_cons, hlen]

/-- The globals after a verdict that queues nothing. -/
theorem Tallied.count {g : Globals} (h : Tallied par avvio g) {r : Ricevuto}
    {contatori : Contatori} (hverdict : r.ris ≤ 1 ∧ (r.ris = 0 ↔ ¬ Body r.buf))
    (htally : contatori = tally (g.ricevuti ++ [r])) :
    Tallied par avvio { g with contatori, ricevuti := g.ricevuti ++ [r] } := by
  refine { h with verdicts := ?_, contatori_eq := htally, answered := ?_ }
  · intro x hx
    rcases List.mem_append.mp hx with hx | hx
    · exact h.verdicts x hx
    · rw [List.mem_singleton.mp hx]
      exact ⟨by omega, hverdict.2⟩
  · have hnone : ¬ 2 ≤ r.ris := by omega
    simpa [hnone] using h.answered

/-- The globals after a verdict that queues an element. -/
theorem Tallied.queue {g : Globals} (h : Tallied par avvio g) {r : Ricevuto} {p : Elemento}
    {contatori : Contatori} {localCounter : UInt32} (hbody : Body r.buf)
    (hp : Answers par avvio r p) (htally : contatori = tally (g.ricevuti ++ [r])) :
    Tallied par avvio { g.accoda p with
      localCounter
      contatori
      ricevuti := g.ricevuti ++ [r] } := by
  have hris : r.ris = 2 ∨ r.ris = 3 := hp.elim (fun h => .inr h.1) fun h => .inl h.1
  refine { h with
    verdicts := ?_
    contatori_eq := htally
    answered := ?_
    queued := ?_ }
  · intro x hx
    rcases List.mem_append.mp hx with hx | hx
    · exact h.verdicts x hx
    · rw [List.mem_singleton.mp hx]
      exact ⟨by omega, iff_of_false (by omega) (not_not.mpr hbody)⟩
  · have hsome : 2 ≤ r.ris := by omega
    show List.Forall₂ _ ((g.ricevuti ++ [r]).filter (2 ≤ ·.ris)) (g.accodati ++ [p])
    rw [List.filter_append, List.filter_cons_of_pos (by simpa using hsome), List.filter_nil]
    exact List.rel_append h.answered (.cons hp .nil)
  · exact h.queued.tail ⟨.aggiungi p, trivial, rfl⟩

/-- Addressed by the table of an open pair is addressed by the table of the start. -/
theorem Tallied.addressed {g : Globals} (h : Tallied par avvio g) {i : Fin maxNumConnections}
    (hattivo : (g.coppiafd i).attivo = true) {lato : Lato} {p : Elemento}
    (hp : Addressed par (g.coppiafd i) lato p) : Addressed par (avvio.coppia i) lato p :=
  { hp with
    fd_eq := hp.fd_eq.trans (h.fd_eq i hattivo lato)
    local_eq := hp.local_eq.trans (h.port_eq i lato) }

/-- A datagram that was read is accounted for by what `ricevo_inserisco` answered. -/
theorem Tallied.read {g g' : Globals} (h : Tallied par avvio g) {i : Fin maxNumConnections}
    (hattivo : (g.coppiafd i).attivo = true) {lato : Lato} {buf : List UInt8} {ris : Nat}
    (hacc : Accounts par i lato buf g g' ris) :
    Tallied par avvio (g'.registra i lato (.data buf) ris) := by
  have hcontatori := h.contatori_eq
  cases hacc with
  | ignored hbody =>
    refine h.count (r := ⟨i, lato, buf, 0⟩) ⟨Nat.zero_le 1, iff_of_true rfl hbody⟩ ?_
    rw [hcontatori]
    simp [tally, conta_concat, lunghezza_concat]
  | silent hbody =>
    refine h.count (r := ⟨i, lato, buf, 1⟩)
      ⟨Nat.le_refl 1, iff_of_false Nat.one_ne_zero (not_not.mpr hbody)⟩ ?_
    rw [hcontatori]
    simp [tally, conta_concat, lunghezza_concat]
  | noticed hbody hp hbuf =>
    refine h.queue (r := ⟨i, lato, buf, 2⟩) hbody
      (.inr ⟨rfl, hbuf ▸ icmp_notice _ hbody, h.addressed hattivo hp⟩) ?_
    rw [hcontatori]
    simp [tally, conta_concat, lunghezza_concat]
  | forwarded hbody hp hbuf =>
    refine h.queue (r := ⟨i, lato, buf, 3⟩) hbody
      (.inl ⟨rfl, hbuf, h.addressed hattivo hp⟩) ?_
    rw [hcontatori]
    simp [tally, conta_concat, lunghezza_concat]

/-! ## The dispatch loop -/

/-- The elements of a dispatch loop that are handed to `send_udp`. -/
def invii (coppiafd : Fin maxNumConnections → Coppia) (removed : List Elemento) : List Invio :=
  (removed.filter fun e => checkPort coppiafd e.portNumberLocal).map fun e =>
    ⟨e, fun i => (coppiafd i).attivo⟩

/-- Elements that come out one after the other are recorded as removed, and as sent when their port
is that of an open pair. -/
theorem foldl_spedisci (g : Globals) (removed : List Elemento) :
    removed.foldl spedisci g = { g with
      tolti := g.tolti ++ removed
      inviati := g.inviati ++ invii g.coppiafd removed } := by
  induction removed generalizing g with
  | nil => simp [invii]
  | cons e removed ih =>
    rw [List.foldl_cons, ih]
    by_cases hport : checkPort g.coppiafd e.portNumberLocal = true
    · simp [spedisci, invii, hport]
    · simp [spedisci, invii, hport]

/-- The queue sees the loop as its own. -/
theorem queue_dispatch {g g' : Globals} {clock : List Timeval} {root : List Elemento}
    (hloop : spedisciScaduti spedisci clock g.root g = some (root, g')) :
    g.queue.step (.spedisci clock) = some { g.queue with root, left := g'.tolti } := by
  have htolti : ∀ (g : Globals) e, (spedisci g e).tolti = g.tolti ++ [e] := by
    intro g e
    unfold spedisci
    simp only
    split <;> rfl
  have hview : spedisciScaduti (fun left e => left ++ [e]) clock g.root g.tolti =
      (spedisciScaduti spedisci clock g.root g).map (Prod.map id Globals.tolti) :=
    spedisciScaduti_map htolti clock g.root g
  rw [Queue.step, Globals.queue, hview, hloop]
  rfl

/-- The dispatch loop removes elements off the front of the queue and sends each at most once. -/
theorem Tallied.dispatch {g g' : Globals} (h : Tallied par avvio g) {clock : List Timeval}
    {root : List Elemento} (hloop : spedisciScaduti spedisci clock g.root g = some (root, g')) :
    Tallied par avvio { g' with root } := by
  have hqueue := queue_dispatch hloop
  obtain ⟨removed, _, hfold, _, _⟩ := spedisciScaduti_spec hloop
  rw [foldl_spedisci] at hfold
  subst hfold
  refine { h with queued := ?_, sent_removed := ?_, sent_open := ?_ }
  · exact h.queued.tail ⟨.spedisci clock, trivial, hqueue⟩
  · show ((g.inviati ++ invii g.coppiafd removed).map Invio.elemento).Sublist (g.tolti ++ removed)
    have hnew : ((invii g.coppiafd removed).map Invio.elemento).Sublist removed := by
      rw [invii, List.map_map]
      exact (List.map_id _).symm ▸ List.filter_sublist
    rw [List.map_append]
    exact h.sent_removed.append hnew
  · intro x hx
    rcases List.mem_append.mp hx with hx | hx
    · exact h.sent_open x hx
    · obtain ⟨e, he, rfl⟩ := List.mem_map.mp hx
      obtain ⟨i, lato, hport, hattivo⟩ := exists_of_checkPort (List.mem_filter.mp he).2
      exact ⟨i, lato, (h.port_eq i lato).symm.trans hport, hattivo⟩

/-- One step keeps the tally. -/
theorem Tallied.stepped {c c' : Config} {e : Event} (h : Tallied par avvio c.globals)
    (st : Stepped par c e c') : Tallied par avvio c'.globals := by
  cases st with
  | control => exact h
  | dispatch hloop => exact h.dispatch hloop
  | cambia hattivo => exact h.cambia _ _ _
  | @leggi pc pc' g i lato recv outcomes caso hattivo hrecv =>
    cases recv with
    | data buf => exact h.read hattivo (leggi_accounts par caso buf g i lato)
    | failed errno =>
      have hcall : leggi par caso (.failed errno) g i lato =
          if errno = econnreset then (g, 0) else (closeCoppia g i, 0) := by
        cases lato <;> rfl
      show Tallied par avvio (leggi par caso (.failed errno) g i lato).1
      rw [hcall]
      split
      · exact h
      · exact h.close i

/-- The accounts hold over every run, whatever is read and whatever the clock and `random` give. -/
theorem Tallied.run {c : Config}
    (run : Machine.Run (step par) Machine.Free (.avviato avvio) c) : Tallied par avvio c.globals :=
  Machine.Run.invariant (I := fun c => Tallied par avvio c.globals)
    (fun _ _ _ h _ hstep => h.stepped (stepped_of_step hstep)) run .avviato

/-! ## What holds of every run -/

/-- The local ports of the two sides do not overlap. -/
def Avvio.DisjointPorts (avvio : Avvio) : Prop :=
  ∀ i j, (avvio.coppia i).portNumberLatosender ≠ (avvio.coppia j).portNumberLatoreceiver

instance (avvio : Avvio) : Decidable avvio.DisjointPorts :=
  inferInstanceAs (Decidable (∀ i j : Fin maxNumConnections,
    (avvio.coppia i).portNumberLatosender ≠ (avvio.coppia j).portNumberLatoreceiver))

/-- The pair has the local port on one of its sides. -/
def Avvio.Owns (avvio : Avvio) (i : Fin maxNumConnections) (port : UInt16) : Prop :=
  ∃ lato, (avvio.coppia i).port lato = port

/-- Ports counted from one first port belong to one pair. -/
theorem pair_of_port {first : UInt16} {i j : Fin maxNumConnections}
    (h : first + UInt16.ofNat i = first + UInt16.ofNat j) : i = j := by
  have hoffset := congrArg UInt16.toNat ((UInt16.add_right_inj first).mp h)
  have hi : (i : Nat) < 3 := i.isLt
  have hj : (j : Nat) < 3 := j.isLt
  rw [UInt16.toNat_ofNat', UInt16.toNat_ofNat'] at hoffset
  exact Fin.ext (by omega)

/-- With disjoint ranges a local port belongs to one pair. -/
theorem Avvio.DisjointPorts.unique (h : avvio.DisjointPorts) {i j : Fin maxNumConnections}
    {port : UInt16} (hi : avvio.Owns i port) (hj : avvio.Owns j port) : j = i := by
  obtain ⟨latoi, rfl⟩ := hi
  obtain ⟨latoj, heq⟩ := hj
  cases latoi with
  | sender =>
    cases latoj with
    | sender => exact pair_of_port heq
    | receiver => exact absurd heq.symm (h i j)
  | receiver =>
    cases latoj with
    | sender => exact absurd heq (h j i)
    | receiver => exact pair_of_port heq

/-- The three verdicts on body datagrams exclude each other, so their counts add up. -/
theorem conta_total {ricevuti : List Ricevuto}
    (h : ∀ r ∈ ricevuti, r.ris ≤ 3 ∧ (r.ris = 0 ↔ ¬ Body r.buf)) :
    conta 3 ricevuti + conta 2 ricevuti + conta 1 ricevuti =
        (ricevuti.filter fun r => Body r.buf).length ∧
      lunghezza (· = 3) ricevuti + lunghezza (fun ris => ris = 1 ∨ ris = 2) ricevuti =
        lunghezzaBody ricevuti ∧
      conta 3 ricevuti + conta 2 ricevuti = (ricevuti.filter (2 ≤ ·.ris)).length := by
  induction ricevuti with
  | nil => exact ⟨rfl, rfl, rfl⟩
  | cons r rs ih =>
    obtain ⟨hcount, hbytes, hqueued⟩ := ih fun x hx => h x (List.mem_cons_of_mem _ hx)
    obtain ⟨hle, hzero⟩ := h r List.mem_cons_self
    simp only [conta, lunghezza, lunghezzaBody, Bool.decide_or] at hcount hbytes hqueued ⊢
    have hcases : r.ris = 0 ∨ r.ris = 1 ∨ r.ris = 2 ∨ r.ris = 3 := by omega
    rcases hcases with hris | hris | hris | hris
    · have hbody : ¬ Body r.buf := hzero.mp hris
      simp [hris, hbody]
      omega
    all_goals
      have hbody : Body r.buf := not_not.mp fun hn => absurd (hzero.mpr hn) (by omega)
      simp [hris, hbody]
      omega

/-- A lossy channel that makes nothing up and repeats nothing. -/
structure Conserves (par : Parametri) (avvio : Avvio) (g : Globals) : Prop where
  /-- What the next datagram read on any side of any pair leads to. -/
  accounts : ∀ i lato caso buf, Accounts par i lato buf g
    (leggi par caso (.data buf) g i lato).1 (leggi par caso (.data buf) g i lato).2
  /-- The datagrams that got no verdict are those that are not of type body. -/
  verdicts : ∀ r ∈ g.ricevuti, r.ris ≤ 3 ∧ (r.ris = 0 ↔ ¬ Body r.buf)
  contatori_eq : g.contatori = tally g.ricevuti
  /-- The counters of datagrams add up to the number of the bodies read, modulo their width, and
  without a modulus whenever that number is in their range. -/
  count_eq : g.contatori.numspediti + g.contatori.numscartati + g.contatori.numscartatiSenzaIcmp =
    .ofNat (g.ricevuti.filter fun r => Body r.buf).length
  count_exact : (g.ricevuti.filter fun r => Body r.buf).length < 2 ^ 31 →
    g.contatori.numspediti.toInt + g.contatori.numscartati.toInt +
      g.contatori.numscartatiSenzaIcmp.toInt = (g.ricevuti.filter fun r => Body r.buf).length
  /-- The counters of bytes add up to the length of the bodies read, in the same way. -/
  bytes_eq : g.contatori.bytespediti + g.contatori.bytescartati = .ofNat (lunghezzaBody g.ricevuti)
  bytes_exact : lunghezzaBody g.ricevuti < 2 ^ 32 →
    g.contatori.bytespediti.toNat + g.contatori.bytescartati.toNat = lunghezzaBody g.ricevuti
  /-- One element went into the queue for each datagram forwarded or answered, in their order. -/
  answered : List.Forall₂ (Answers par avvio) (g.ricevuti.filter (2 ≤ ·.ris)) g.accodati
  /-- What went in came out or is still there. The queue normalises times, hence `normal`. -/
  queued : (g.accodati.map Elemento.normal).Perm ((g.tolti ++ g.root).map Elemento.normal)
  queue_eq : g.contatori.numspediti + g.contatori.numscartati =
    .ofNat (g.root.length + g.tolti.length)
  queue_exact : g.root.length + g.tolti.length < 2 ^ 31 →
    g.contatori.numspediti.toInt + g.contatori.numscartati.toInt = g.root.length + g.tolti.length
  /-- What is sent is what came out, each at most once and in that order. -/
  sent_removed : (g.inviati.map Invio.elemento).Sublist g.tolti
  /-- The one pair that has the element's local port was open when it was sent. -/
  sent_open : ∀ x ∈ g.inviati, ∃ i, avvio.Owns i x.elemento.portNumberLocal ∧ x.aperte i = true ∧
    ∀ j, avvio.Owns j x.elemento.portNumberLocal → j = i

/-- A sum of counters is the counter of the sum, and the sum itself in the range. -/
theorem long_count (m n : Nat) : Int32.ofNat m + .ofNat n = .ofNat (m + n) ∧
    (m + n < 2 ^ 31 → (Int32.ofNat m).toInt + (Int32.ofNat n).toInt = (m + n : Nat)) := by
  refine ⟨(Int32.ofNat_add m n).symm, fun hlt => ?_⟩
  rw [Int32.toInt_ofNat_of_lt (by omega), Int32.toInt_ofNat_of_lt (by omega)]
  rfl

/-- All of `Conserves` follows from the accounts. The ports have to differ so that one pair alone
owns the local port of an element. -/
theorem Tallied.conserves {g : Globals} (h : Tallied par avvio g) (hports : avvio.DisjointPorts) :
    Conserves par avvio g := by
  obtain ⟨hcount, hbytes, hanswered⟩ := conta_total h.verdicts
  have hqueued : (g.accodati.map Elemento.normal).Perm ((g.tolti ++ g.root).map Elemento.normal) :=
    Queue.perm_of_run h.queued
  have hqueue : conta 3 g.ricevuti + conta 2 g.ricevuti = g.root.length + g.tolti.length := by
    have hlen := hqueued.length_eq
    simp only [List.length_map, List.length_append] at hlen
    rw [hanswered, h.answered.length_eq, hlen, Nat.add_comm]
  obtain ⟨htwo, htwo_exact⟩ := long_count (conta 3 g.ricevuti) (conta 2 g.ricevuti)
  obtain ⟨hthree, _⟩ :=
    long_count (conta 3 g.ricevuti + conta 2 g.ricevuti) (conta 1 g.ricevuti)
  refine {
    accounts := fun i lato caso buf => leggi_accounts par caso buf g i lato
    verdicts := h.verdicts
    contatori_eq := h.contatori_eq
    count_eq := ?_
    count_exact := ?_
    bytes_eq := ?_
    bytes_exact := ?_
    answered := h.answered
    queued := hqueued
    queue_eq := ?_
    queue_exact := ?_
    sent_removed := h.sent_removed
    sent_open := ?_ }
  · rw [h.contatori_eq, ← hcount, ← hthree, ← htwo]
    rfl
  · intro hlt
    rw [h.contatori_eq, ← hcount]
    simp only [tally]
    rw [htwo_exact (by omega), Int32.toInt_ofNat_of_lt (by omega)]
    rfl
  · rw [h.contatori_eq, ← hbytes, UInt32.ofNat_add]
    rfl
  · intro hlt
    rw [h.contatori_eq, ← hbytes]
    simp only [tally]
    rw [UInt32.toNat_ofNat_of_lt' (by show _ < 2 ^ 32; omega),
      UInt32.toNat_ofNat_of_lt' (by show _ < 2 ^ 32; omega)]
  · rw [h.contatori_eq, ← hqueue, ← htwo]
    rfl
  · intro hlt
    rw [h.contatori_eq]
    have hexact := htwo_exact (hqueue ▸ hlt)
    rw [hqueue] at hexact
    exact hexact
  · intro x hx
    obtain ⟨i, lato, hport, hopen⟩ := h.sent_open x hx
    have howns : avvio.Owns i x.elemento.portNumberLocal := ⟨lato, hport⟩
    exact ⟨i, howns, hopen, fun j hj => hports.unique howns hj⟩

/-- In every run each body read is in one counter and led to one element or to none, and the
counters are exact modulo their width. -/
theorem emulator_conserves (hports : avvio.DisjointPorts) {c : Config}
    (run : Machine.Run (step par) Machine.Free (.avviato avvio) c) :
    Conserves par avvio c.globals :=
  (Tallied.run run).conserves hports

/-- The parameters of a run without arguments, with `sin` taken for zero. -/
def parametriDefault : Parametri :=
  ⟨60000, 63000, .localhost, .localhost, 15, fun _ => 0, fun _ => 0⟩

def avvioDefault : Avvio :=
  ⟨61000, 62000, fun i lato => 3 + 2 * i + (if lato = .sender then 0 else 1), fun _ => ⟨100, 0⟩⟩

/-- Pair 0 goes into a burst; a body on it is answered by a notice, one on pair 1 is forwarded,
one on pair 2 is lost, and the loop then sends the two elements. -/
def burst : List Event :=
  [.select (.ready [(0, .sender), (1, .receiver), (2, .sender)]), .dispatch [],
    .cambia ⟨105, 0⟩ 0, .cambia ⟨105, 0⟩ 0, .cambia ⟨105, 0⟩ 0, .go,
    .leggi [.data [0, 0, 0, 9, 66, 1]] ⟨⟨105, 0⟩, ⟨105, 1⟩, 50, 50, 0⟩, .go,
    .go, .leggi [.failed .EINTR, .data [0, 0, 0, 4, 66, 1, 2]] ⟨⟨105, 0⟩, ⟨105, 2⟩, 50, 0, 0⟩,
    .leggi [.data [0, 0, 0, 5, 66, 1]] ⟨⟨105, 0⟩, ⟨105, 3⟩, 1, 0, 0⟩, .go,
    .go, .select (.ready []), .dispatch [⟨106, 0⟩, ⟨106, 0⟩]]

/-- The run can be made. -/
theorem burst_possible :
    (Machine.exec (step parametriDefault) Machine.Free (.avviato avvioDefault) burst).isSome := by
  decide

/-- The configuration the run leads to. -/
def bursted : Config :=
  (Machine.exec (step parametriDefault) Machine.Free (.avviato avvioDefault) burst).get
    burst_possible

/-- A run in which one body is forwarded, one lost with a notice and one without. -/
theorem emulator_conserves_bursted :
    bursted.globals.contatori = ⟨1, 1, 1, 7, 12⟩ ∧
      bursted.globals.inviati.map (·.elemento.buf) = [[0, 0, 0, 4, 66, 1, 2],
        [0, 0, 0, 0, 73, 0, 0, 0, 9]] ∧
      Conserves parametriDefault avvioDefault bursted.globals :=
  ⟨by decide, by decide, emulator_conserves (by decide) (Machine.run_exec burst_possible)⟩

/-! ### A run that is long enough -/

/-- The emulator after some losses without notice on pair 0, with what it counted and read. -/
def perdite (contatori : Contatori) (ricevuti : List Ricevuto) : Globals :=
  { Globals.avviato avvioDefault with contatori, ricevuti }

/-- A body packet that was lost. -/
def perso : Ricevuto := ⟨0, .sender, [0, 0, 0, 9, 66, 1], 1⟩

/-- In one turn of the main loop a body is read and lost, and no channel changes its state. -/
theorem perdite_turn (contatori : Contatori) (ricevuti : List Ricevuto) :
    ∃ contatori', Machine.Run (step parametriDefault) Machine.Free
      ⟨.selecting, perdite contatori ricevuti⟩
      ⟨.selecting, perdite contatori' (ricevuti ++ [perso])⟩ := by
  have hcambia : ∀ i < maxNumConnections, step parametriDefault
      ⟨.cambiando i [(0, .sender)], perdite contatori ricevuti⟩ (.cambia ⟨100, 0⟩ 0) =
        some ⟨.cambiando (i + 1) [(0, .sender)], perdite contatori ricevuti⟩ := by
    intro i hi
    have hsame : ∀ j, (avvioDefault.coppia j).cambiata ⟨100, 0⟩ 0 = avvioDefault.coppia j := by
      decide
    have hupdate : Function.update avvioDefault.coppia ⟨i, hi⟩
        ((avvioDefault.coppia ⟨i, hi⟩).cambiata ⟨100, 0⟩ 0) = avvioDefault.coppia := by
      rw [hsame, Function.update_eq_self]
    have hstays : cambiaStatoCanaleSeScadutoBurst parametriDefault.percentualeErrore ⟨i, hi⟩
        ⟨100, 0⟩ 0 (perdite contatori ricevuti) = perdite contatori ricevuti :=
      congrArg (fun coppiafd => { perdite contatori ricevuti with coppiafd }) hupdate
    have hattivo : ((perdite contatori ricevuti).coppiafd ⟨i, hi⟩).attivo = true := rfl
    simp only [step, dif_pos hi, hattivo, ↓reduceIte, hstays]
  refine ⟨{ contatori with
    numscartatiSenzaIcmp := contatori.numscartatiSenzaIcmp + 1
    bytescartati := contatori.bytescartati + .ofNat perso.buf.length }, ?_⟩
  refine .head ⟨.select (.ready [(0, .sender)]), trivial, rfl⟩ ?_
  refine .head ⟨.dispatch [], trivial, rfl⟩ ?_
  refine .head ⟨_, trivial, hcambia 0 (by decide)⟩ ?_
  refine .head ⟨_, trivial, hcambia 1 (by decide)⟩ ?_
  refine .head ⟨_, trivial, hcambia 2 (by decide)⟩ ?_
  refine .head ⟨.go, trivial, rfl⟩ ?_
  refine .head ⟨.leggi [.data perso.buf] ⟨⟨100, 0⟩, ⟨100, 0⟩, 0, 0, 0⟩, trivial, rfl⟩ ?_
  refine .head ⟨.go, trivial, rfl⟩ (.head ⟨.go, trivial, rfl⟩ (.head ⟨.go, trivial, rfl⟩ ?_))
  exact .head ⟨.go, trivial, rfl⟩ (.head ⟨.go, trivial, rfl⟩ (.single ⟨.go, trivial, rfl⟩))

/-- Any number of bodies can be lost. -/
theorem perdite_run (n : Nat) : ∃ contatori, Machine.Run (step parametriDefault) Machine.Free
    (.avviato avvioDefault) ⟨.selecting, perdite contatori (.replicate n perso)⟩ := by
  induction n with
  | zero => exact ⟨_, .refl⟩
  | succ n ih =>
    obtain ⟨contatori, run⟩ := ih
    obtain ⟨contatori', turn⟩ := perdite_turn contatori (.replicate n perso)
    rw [← List.replicate_succ'] at turn
    exact ⟨contatori', run.trans turn⟩

/-- Not in every run the counters of bytes add up to the length of the bodies read: they wrap. -/
theorem counters_wrap :
    ¬ ∀ c, Machine.Run (step parametriDefault) Machine.Free (.avviato avvioDefault) c →
      c.globals.contatori.bytespediti.toNat + c.globals.contatori.bytescartati.toNat =
        lunghezzaBody c.globals.ricevuti := by
  intro h
  obtain ⟨n, hn⟩ : ∃ n : Nat, 2 ^ 32 ≤ n := ⟨_, le_rfl⟩
  obtain ⟨contatori, run⟩ := perdite_run n
  have hsum : contatori.bytespediti.toNat + contatori.bytescartati.toNat =
      lunghezzaBody (.replicate n perso) := h _ run
  have hlength : lunghezzaBody (.replicate n perso) = n * 6 := by
    have hbody : Body perso.buf := by decide
    have hbytes : perso.buf.length = 6 := rfl
    simp [lunghezzaBody, hbody, hbytes]
  have hforwarded : contatori.bytespediti = 0 := by
    have htally : contatori = tally (.replicate n perso) := (Tallied.run run).contatori_eq
    rw [htally]
    simp [tally, lunghezza, perso]
  have hlt := contatori.bytescartati.toNat_lt
  rw [hlength, hforwarded, UInt32.toNat_zero] at hsum
  omega

end GProxy.Ritardatore
