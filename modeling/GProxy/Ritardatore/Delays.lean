import GProxy.Ritardatore.Channels

/-!
# How long the emulator keeps what it forwards

Each element goes into the queue with a reading of the clock and a delay of its own, and comes out
at a reading of the dispatch loop. With the history of these readings (`Lettura`) a run of the
emulator says when each element went in and when it came out.

No element comes out before its delay is over, in whatever order the queue is; and when nothing was
read for as long as the longest delay, the dispatch loop leaves the queue empty (`delays_bounded`).
An element that `minore` judges wrongly may wait for ever meanwhile: as long as something is read
every 20 ms it can stay in the queue, due, and nothing behind it is sent (`overdue_for_ever`).
-/

namespace GProxy.Ritardatore

variable {par : Parametri} {avvio : Avvio}

/-! ## The history of the queue -/

/-- A reading of the clock, with the element that went into the queue with it or came out at it. -/
structure Lettura where
  ora : Timeval
  entrato : Option Elemento
  uscito : Option Elemento
  deriving DecidableEq, Repr

/-- The readings of the dispatch loop. -/
def usciti : List Timeval → List Elemento → List Lettura
  | now :: clock, e :: next =>
    if minoreouguale e.timeout now then
      match e.cmd with
      | .send => ⟨now, none, some e.normal⟩ :: usciti clock next
      | .addPort => ⟨now, none, none⟩ :: usciti clock (e.normal :: next)
    else [⟨now, none, none⟩]
  | _, _ => []

section

variable {now : Timeval} {e : Elemento}

/-- The reading at which an element that is to be sent comes out. -/
theorem usciti_send (hdue : minoreouguale e.timeout now = true) (hcmd : e.cmd = .send)
    (clock : List Timeval) (next : List Elemento) :
    usciti (now :: clock) (e :: next) = ⟨now, none, some e.normal⟩ :: usciti clock next := by
  simp only [usciti, hdue, hcmd, ↓reduceIte]

/-- The reading at which an element with the other command is found due. The loop does not take it
out. -/
theorem usciti_addPort (hdue : minoreouguale e.timeout now = true) (hcmd : e.cmd = .addPort)
    (clock : List Timeval) (next : List Elemento) :
    usciti (now :: clock) (e :: next) = ⟨now, none, none⟩ :: usciti clock (e.normal :: next) := by
  simp only [usciti, hdue, hcmd, ↓reduceIte]

/-- The reading at which the loop stops. -/
theorem usciti_late (hlate : ¬ minoreouguale e.timeout now = true) (clock : List Timeval)
    (next : List Elemento) : usciti (now :: clock) (e :: next) = [⟨now, none, none⟩] := by
  simp only [usciti, hlate, ↓reduceIte, Bool.false_eq_true]

end

/-- The readings that a step makes for the queue. -/
def letture (c : Config) (e : Event) (c' : Config) : List Lettura :=
  match e with
  | .dispatch clock => usciti clock c.globals.root
  | .leggi _ caso =>
    (c'.globals.accodati.drop c.globals.accodati.length).map fun p => ⟨caso.ora, some p, none⟩
  | _ => []

/-- The clock is not in the last second that its seconds can count when a delay is added to it. -/
def Orologio (_ : Config) : Event → Prop
  | .dispatch clock => ∀ now ∈ clock, now.Within 0
  | .leggi _ caso => caso.ora.Within 1
  | _ => True

instance (c : Config) : ∀ e, Decidable (Orologio c e)
  | .dispatch clock => List.decidableBAll (fun now : Timeval => now.Within 0) clock
  | .leggi _ caso => instDecidableAnd (p := 0 ≤ caso.ora.tvUsec)
  | .select _ | .cambia _ _ | .go => .isTrue trivial

/-- What the emulator adds at least, in microseconds: `BASE`, for a notice and for a copy. -/
def base (buf : List UInt8) : Int := if buf.getD 4 0 = typeI then 50000 else 30000

/-- The element is due after a delay between the bounds for what it carries. -/
def Elemento.Delayed (p : Elemento) (ora : Timeval) : Prop :=
  p.Timed ∧ ora.us + base p.buf ≤ p.due ∧ p.due < ora.us + base p.buf + 70000

/-- A delay of less than a second added to a reading of the clock. -/
theorem somma_delay {ora : Timeval} (hora : ora.Within 1) {d : Nat} (hd : d < 1000000) :
    (somma ora ⟨0, .ofNat d⟩).Normal ∧ (somma ora ⟨0, .ofNat d⟩).us = ora.us + d := by
  have htoInt : (Int32.ofNat d).toInt = d :=
    Int32.toInt_ofNat_of_lt (Nat.lt_trans hd (by decide))
  have hus : (⟨0, .ofNat d⟩ : Timeval).us = d := by
    simp only [Timeval.us, Int32.toInt_zero, htoInt]
    omega
  have hnonneg : 0 ≤ (⟨0, .ofNat d⟩ : Timeval).tvUsec := by
    rw [long_nonneg_iff, htoInt]
    exact Int.natCast_nonneg d
  generalize (⟨0, .ofNat d⟩ : Timeval) = delay at hus hnonneg ⊢
  obtain ⟨hora_usec, hora_fits⟩ := hora
  refine ⟨somma_normal hora_usec hnonneg, ?_⟩
  rw [← hus, somma_us_iff hora_usec hnonneg, hus]
  obtain ⟨hlow, _⟩ := long_bounds ora.tvSec
  have husec := long_nonneg_iff.mp hora_usec
  unfold Timeval.us longMin longMax at *
  omega

/-- An element that is due a delay after a reading of the clock. -/
theorem due_somma {p : Elemento} {ora : Timeval} (hora : ora.Within 1) {d : Nat} (hd : d < 1000000)
    (hcmd : p.cmd = .send) (htimeout : p.timeout = somma ora ⟨0, .ofNat d⟩) :
    p.Timed ∧ p.due = ora.us + d := by
  obtain ⟨hnormal, hus⟩ := somma_delay hora hd
  rw [← htimeout] at hnormal hus
  exact ⟨⟨hcmd, hnormal.1⟩, hnormal.istante_eq.trans hus⟩

/-- An element whose delay was computed from a random number and from the clock. -/
theorem delayed_somma {p : Elemento} {ora : Timeval} (hora : ora.Within 1) {b v a : Nat}
    (hcmd : p.cmd = .send) (hbase : base p.buf = b) (hb : b ≤ 50000) (ha : a ≤ 50000)
    (htimeout : p.timeout = somma ora ⟨0, .ofNat (b + v % 20000 + a)⟩) : p.Delayed ora := by
  obtain ⟨htimed, hdue⟩ := due_somma hora (by omega) hcmd htimeout
  refine ⟨htimed, ?_, ?_⟩
  · rw [hdue, hbase]
    omega
  · rw [hdue, hbase]
    omega

/-- A call of `ricevo_inserisco` queues one element, with its delay, or leaves the queue as it
is. -/
theorem leggi_delayed (hsin : ∀ s, par.andamento s ≤ 50000) {caso : Caso}
    (hora : caso.ora.Within 1) (recv : Recv) (g : Globals) (i : Fin maxNumConnections)
    (lato : Lato) :
    (leggi par caso recv g i lato).1.queue = g.queue ∨
      ∃ p : Elemento, p.Delayed caso.ora ∧ (leggi par caso recv g i lato).1.queue =
        ⟨aggiungiInOrdine p g.root, g.accodati ++ [p], g.tolti⟩ := by
  cases recv with
  | failed errno =>
    left
    cases lato <;>
    · simp only [leggi, ricevoInserisco]
      split <;> rfl
  | data buf =>
    by_cases hlen : buf.length ≤ sizeofCommonHeader
    · left
      cases lato <;> simp [leggi, ricevoInserisco, hlen]
    by_cases htype : buf.getD 4 0 = typeB
    swap
    · left
      cases lato <;> simp only [leggi, ricevoInserisco, if_neg hlen, ne_eq, htype,
        not_false_eq_true, ↓reduceIte]
    have hcopy : base buf = 30000 := if_neg (by rw [htype]; decide)
    have hnotice : base (icmp g.localCounter buf) = 50000 := if_pos rfl
    cases lato <;>
    · simp only [leggi, ricevoInserisco, if_neg hlen, ne_eq, htype, not_true_eq_false, ↓reduceIte]
      split
      next => exact .inl rfl
      next =>
        split
        next =>
          split
          next => exact .inl rfl
          next =>
            exact .inr ⟨_, delayed_somma (b := 50000) hora rfl hnotice le_rfl (hsin _) rfl, rfl⟩
        next =>
          exact .inr ⟨_, delayed_somma (b := 30000) hora rfl hcopy (by decide) (hsin _) rfl, rfl⟩

/-- What the dispatch loop takes off at its readings. -/
theorem usciti_spec {clock : List Timeval} {root root' : List Elemento} {s s' : Globals}
    (h : spedisciScaduti spedisci clock root s = some (root', s')) :
    root.map Elemento.normal =
        (usciti clock root).filterMap Lettura.uscito ++ root'.map Elemento.normal ∧
      ((usciti clock root).filterMap Lettura.uscito).foldl spedisci s = s' ∧
      (usciti clock root).map Lettura.ora = clock ∧
      ∀ l ∈ usciti clock root, l.entrato = none ∧
        ∀ e ∈ l.uscito, minoreouguale e.timeout l.ora = true := by
  induction clock generalizing root s with
  | nil =>
    cases root with
    | nil =>
      cases h
      exact ⟨rfl, rfl, rfl, fun _ hl => absurd hl List.not_mem_nil⟩
    | cons e next => cases h
  | cons now clock ih =>
    cases root with
    | nil => cases h
    | cons e next =>
      unfold spedisciScaduti at h
      by_cases hdue : minoreouguale e.timeout now = true
      · rw [if_pos hdue] at h
        cases hcmd : e.cmd with
        | send =>
          rw [hcmd] at h
          obtain ⟨hsplit, hfold, hclock, hout⟩ := ih h
          rw [usciti_send hdue hcmd]
          refine ⟨?_, hfold, congrArg (now :: ·) hclock, ?_⟩
          · rw [List.map_cons, hsplit]
            rfl
          · intro l hl
            rcases List.mem_cons.mp hl with rfl | hl
            · refine ⟨rfl, ?_⟩
              rintro _ ⟨⟩
              exact (minoreouguale_normalizza e.timeout now).trans hdue
            · exact hout l hl
        | addPort =>
          rw [hcmd] at h
          obtain ⟨hsplit, hfold, hclock, hout⟩ := ih h
          rw [List.map_cons, normal_normal] at hsplit
          rw [usciti_addPort hdue hcmd]
          refine ⟨?_, hfold, congrArg (now :: ·) hclock, ?_⟩
          · rw [List.map_cons, hsplit]
            rfl
          · intro l hl
            rcases List.mem_cons.mp hl with rfl | hl
            · exact ⟨rfl, fun _ he => absurd he (Option.not_mem_none _)⟩
            · exact hout l hl
      · rw [if_neg hdue] at h
        rw [usciti_late hdue]
        split at h
        next hend =>
          cases h
          rw [hend]
          refine ⟨?_, rfl, rfl, ?_⟩
          · simp
          · intro l hl
            rw [List.mem_singleton.mp hl]
            exact ⟨rfl, fun _ he => absurd he (Option.not_mem_none _)⟩
        next => cases h

/-! ## What a run keeps -/

/-- An element went into the queue at a reading of the history. -/
def Entered (storia : List Lettura) (e : Elemento) : Prop :=
  ∃ l ∈ storia, ∃ p ∈ l.entrato, p.normal = e.normal

/-- The queue and its history: what went in, each with its delay, and what came out, each due. -/
structure Timely (q : Queue) (storia : List Lettura) : Prop where
  entered_eq : storia.filterMap Lettura.entrato = q.entered
  left_eq : storia.filterMap Lettura.uscito = q.left
  delayed : ∀ l ∈ storia, ∀ p ∈ l.entrato, p.Delayed l.ora
  due : ∀ l ∈ storia, ∀ e ∈ l.uscito, e.due ≤ l.ora.us
  root_entered : ∀ e ∈ q.root, Entered storia e
  left_entered : ∀ e ∈ q.left, Entered storia e

/-- What went in stays in the history. -/
theorem Entered.append {storia : List Lettura} {e : Elemento} (h : Entered storia e)
    (more : List Lettura) : Entered (storia ++ more) e := by
  obtain ⟨l, hl, p, hp, hnormal⟩ := h
  exact ⟨l, List.mem_append_left _ hl, p, hp, hnormal⟩

/-- What an element is when it waits in the queue is known from when it went in. -/
theorem Timely.of_entered {q : Queue} {storia : List Lettura} (h : Timely q storia) {e : Elemento}
    (he : Entered storia e) :
    e.Timed ∧ ∃ l ∈ storia, ∃ p ∈ l.entrato, p.normal = e.normal ∧
      l.ora.us + base e.buf ≤ e.due ∧ e.due < l.ora.us + base e.buf + 70000 := by
  obtain ⟨l, hl, p, hp, hnormal⟩ := he
  obtain ⟨htimed, hmin, hmax⟩ := h.delayed l hl p hp
  have hdue : p.due = e.due := by rw [← due_normal p, hnormal, due_normal]
  have hbuf : p.normal.buf = e.normal.buf := congrArg Elemento.buf hnormal
  change p.buf = e.buf at hbuf
  refine ⟨?_, l, hl, p, hp, hnormal, ?_, ?_⟩
  · rw [← timed_normal, ← hnormal, timed_normal]
    exact htimed
  · rw [← hdue, ← hbuf]
    exact hmin
  · rw [← hdue, ← hbuf]
    exact hmax

/-- An element that goes in with its delay keeps the history of the queue. -/
theorem Timely.enter {q : Queue} {storia : List Lettura} (h : Timely q storia) {p : Elemento}
    {ora : Timeval} (hp : p.Delayed ora) :
    Timely ⟨aggiungiInOrdine p q.root, q.entered ++ [p], q.left⟩
      (storia ++ [⟨ora, some p, none⟩]) where
  entered_eq := by rw [List.filterMap_append, h.entered_eq]; rfl
  left_eq := by rw [List.filterMap_append, h.left_eq]; exact List.append_nil _
  delayed := by
    intro l hl x hx
    rcases List.mem_append.mp hl with hl | hl
    · exact h.delayed l hl x hx
    · obtain rfl := List.mem_singleton.mp hl
      cases hx
      exact hp
  due := by
    intro l hl e he
    rcases List.mem_append.mp hl with hl | hl
    · exact h.due l hl e he
    · obtain rfl := List.mem_singleton.mp hl
      cases he
  root_entered := by
    intro e he
    rcases mem_aggiungiInOrdine he with hnew | ⟨x, hx, hnormal⟩
    · exact ⟨_, List.mem_append_right _ (List.mem_singleton_self _), p, rfl, hnew⟩
    · obtain ⟨l, hl, y, hy, hsame⟩ := h.root_entered x hx
      exact ⟨l, List.mem_append_left _ hl, y, hy, hsame.trans hnormal⟩
  left_entered := fun e he => (h.left_entered e he).append _

/-- What the dispatch loop takes out was due at the reading before it. -/
theorem Timely.leave {g g' : Globals} {storia : List Lettura} (h : Timely g.queue storia)
    {clock : List Timeval} (hclock : ∀ now ∈ clock, now.Within 0) {root : List Elemento}
    (hloop : spedisciScaduti spedisci clock g.root g = some (root, g')) :
    Timely ⟨root, g'.accodati, g'.tolti⟩ (storia ++ usciti clock g.root) := by
  obtain ⟨hsplit, hfold, hora, hout⟩ := usciti_spec hloop
  rw [foldl_spedisci] at hfold
  subst hfold
  have hleaves : ∀ e ∈ (usciti clock g.root).filterMap Lettura.uscito, Entered storia e := by
    intro e he
    obtain ⟨x, hx, rfl⟩ := List.mem_map.mp (hsplit ▸ List.mem_append_left _ he)
    obtain ⟨l, hl, p, hp, hsame⟩ := h.root_entered x hx
    exact ⟨l, hl, p, hp, hsame.trans (normal_normal x).symm⟩
  refine ⟨?_, ?_, ?_, ?_, ?_, ?_⟩
  · have hnone : (usciti clock g.root).filterMap Lettura.entrato = [] :=
      List.filterMap_eq_nil_iff.mpr fun l hl => (hout l hl).1
    rw [List.filterMap_append, hnone, List.append_nil]
    exact h.entered_eq
  · rw [List.filterMap_append, h.left_eq]
    rfl
  · intro l hl p hp
    rcases List.mem_append.mp hl with hl | hl
    · exact h.delayed l hl p hp
    · rw [(hout l hl).1] at hp
      cases hp
  · intro l hl e he
    rcases List.mem_append.mp hl with hl | hl
    · exact h.due l hl e he
    · have hmem : e ∈ (usciti clock g.root).filterMap Lettura.uscito :=
        List.mem_filterMap.mpr ⟨l, hl, he⟩
      have htimed := (h.of_entered (hleaves e hmem)).1
      have hnow : l.ora.Within 0 := hclock _ (hora ▸ List.mem_map_of_mem hl)
      rw [← hnow.istante_eq le_rfl]
      exact (minoreouguale_iff htimed.2 hnow.1).mp ((hout l hl).2 e he)
  · intro e he
    have hmem : e.normal ∈ g.root.map Elemento.normal :=
      hsplit ▸ List.mem_append_right _ (List.mem_map_of_mem he)
    obtain ⟨x, hx, hsame⟩ := List.mem_map.mp hmem
    obtain ⟨l, hl, p, hp, hnormal⟩ := h.root_entered x hx
    exact ⟨l, List.mem_append_left _ hl, p, hp, hnormal.trans hsame⟩
  · intro e he
    rcases List.mem_append.mp he with he | he
    · exact (h.left_entered e he).append _
    · exact (hleaves e he).append _

/-- One step, with what is read of the clock in it. -/
theorem Timely.stepped (hsin : ∀ s, par.andamento s ≤ 50000) {c c' : Config} {e : Event}
    {storia : List Lettura} (h : Timely c.globals.queue storia) (hclock : Orologio c e)
    (hstep : step par c e = some c') :
    Timely c'.globals.queue (storia ++ letture c e c') := by
  cases e with
  | dispatch clock =>
    obtain ⟨pc, g⟩ := c
    cases pc with
    | dispatching rdset =>
      obtain ⟨⟨root, g'⟩, hloop, rfl⟩ := Option.map_eq_some_iff.mp hstep
      have hleave := h.leave hclock hloop
      exact hleave
    | _ => cases hstep
  | leggi outcomes caso =>
    cases stepped_of_step hstep with
    | control =>
      simp only [letture, List.drop_length, List.map_nil, List.append_nil]
      exact h
    | @leggi pc pc' g i lato recv _ _ hattivo hrecv =>
      have hqueue : ((leggi par caso recv g i lato).1.registra i lato recv
          (leggi par caso recv g i lato).2).queue = (leggi par caso recv g i lato).1.queue := by
        cases recv <;> rfl
      have hentered := congrArg Queue.entered hqueue
      change ((leggi par caso recv g i lato).1.registra i lato recv
        (leggi par caso recv g i lato).2).accodati = _ at hentered
      rw [letture, hqueue, hentered]
      rcases leggi_delayed hsin hclock recv g i lato with hsame | ⟨p, hp, hnew⟩
      · rw [hsame]
        show Timely g.queue (storia ++ (g.accodati.drop g.accodati.length).map _)
        rw [List.drop_length, List.map_nil, List.append_nil]
        exact h
      · rw [hnew]
        show Timely _ (storia ++ ((g.accodati ++ [p]).drop g.accodati.length).map _)
        rw [List.drop_left, List.map_singleton]
        exact h.enter hp
  | cambia now casuale =>
    cases stepped_of_step hstep with
    | control =>
      simpa only [letture, List.append_nil] using h
    | @cambia pc pc' g i _ _ hattivo =>
      have hqueue : (cambiaStatoCanaleSeScadutoBurst par.percentualeErrore i now casuale g).queue =
          g.queue := by
        unfold cambiaStatoCanaleSeScadutoBurst
        split <;> rfl
      simp only [letture, List.append_nil, hqueue]
      exact h
  | select | go =>
    cases stepped_of_step hstep
    simpa only [letture, List.append_nil] using h

/-- Over every recorded run what went in had its delay and what came out was due. What `sin` adds to
a delay is at most 50 ms. -/
theorem Timely.run (hsin : ∀ s, par.andamento s ≤ 50000) {c : Config} {storia : List Lettura}
    (run : Machine.Run (Machine.recording (step par) letture) (Machine.Recorded Orologio)
      (.avviato avvio, []) (c, storia)) : Timely c.globals.queue storia := by
  refine run.recorded_invariant (I := fun c storia => Timely c.globals.queue storia) ?_ ?_
  · intro c e c' storia h hclock hstep
    exact h.stepped hsin hclock hstep
  · exact ⟨rfl, rfl, fun _ h => absurd h List.not_mem_nil, fun _ h => absurd h List.not_mem_nil,
      fun _ h => absurd h List.not_mem_nil, fun _ h => absurd h List.not_mem_nil⟩

/-- When the clock is past the longest delay of all that went in, the dispatch loop empties the
queue. -/
theorem Timely.flush {c c' : Config} {storia : List Lettura} (h : Timely c.globals.queue storia)
    {clock : List Timeval} {last : Int} (hlast : ∀ l ∈ storia, l.entrato ≠ none → l.ora.us ≤ last)
    (hclock : ∀ now ∈ clock, now.Within 0 ∧ last + 120000 ≤ now.us)
    (hstep : step par c (.dispatch clock) = some c') : c'.globals.root = [] := by
  obtain ⟨pc, g⟩ := c
  cases pc with
  | dispatching rdset =>
    obtain ⟨⟨root, g'⟩, hloop, rfl⟩ := Option.map_eq_some_iff.mp hstep
    obtain ⟨removed, hsplit, _, _, hstop⟩ := spedisciScaduti_spec hloop
    show root = []
    cases root with
    | nil => rfl
    | cons e next =>
      obtain ⟨now, hnow, hlate⟩ := hstop e rfl
      obtain ⟨husec, hpast⟩ := hclock now (List.mem_of_getLast? hnow)
      have hmem : e.normal ∈ g.root.map Elemento.normal :=
        hsplit ▸ List.mem_append_right _ List.mem_cons_self
      obtain ⟨x, hx, hsame⟩ := List.mem_map.mp hmem
      obtain ⟨l, hl, p, hp, hnormal⟩ := h.root_entered x hx
      obtain ⟨htimed, l, hl, p, hp, _, _, hmax⟩ :=
        h.of_entered ⟨l, hl, p, hp, hnormal.trans hsame⟩
      have hora : l.ora.us ≤ last := hlast l hl (by rw [hp]; exact Option.some_ne_none p)
      have hbase : base e.buf ≤ 50000 := by
        unfold base
        split <;> decide
      have hdue : e.timeout.istante ≤ now.istante := by
        rw [husec.istante_eq le_rfl]
        change e.timeout.istante < _ at hmax
        omega
      rw [(minoreouguale_iff htimed.2 husec.1).mpr hdue] at hlate
      cases hlate
  | _ => cases hstep

/-- The delays of a run. What comes out of the queue was due by the clock of the dispatch loop, so
it was kept at least 30 ms if it is a copy and at least 50 ms if it is a notice, whatever `minore`
made of the order of the queue. And when the clock is 120 ms past the last time that anything was
queued, the dispatch loop sends all there is. -/
theorem delays_bounded (hsin : ∀ s, par.andamento s ≤ 50000) {c : Config} {storia : List Lettura}
    (run : Machine.Run (Machine.recording (step par) letture) (Machine.Recorded Orologio)
      (.avviato avvio, []) (c, storia)) :
    storia.filterMap Lettura.entrato = c.globals.accodati ∧
      storia.filterMap Lettura.uscito = c.globals.tolti ∧
      (∀ l ∈ storia, ∀ p ∈ l.entrato, p.Delayed l.ora) ∧
      (∀ l ∈ storia, ∀ e ∈ l.uscito, e.due ≤ l.ora.us ∧
        ∃ l' ∈ storia, ∃ p ∈ l'.entrato, p.normal = e.normal ∧
          l'.ora.us + base e.buf ≤ l.ora.us) ∧
      ∀ last clock c', (∀ l ∈ storia, l.entrato ≠ none → l.ora.us ≤ last) →
        (∀ now ∈ clock, now.Within 0 ∧ last + 120000 ≤ now.us) →
        step par c (.dispatch clock) = some c' → c'.globals.root = [] := by
  have h := Timely.run hsin run
  refine ⟨h.entered_eq, h.left_eq, h.delayed, ?_, fun last clock c' => h.flush⟩
  intro l hl e he
  have hdue := h.due l hl e he
  have hleft : e ∈ c.globals.queue.left := h.left_eq ▸ List.mem_filterMap.mpr ⟨l, hl, he⟩
  obtain ⟨_, l', hl', p, hp, hnormal, hmin, _⟩ := h.of_entered (h.left_entered e hleft)
  exact ⟨hdue, l', hl', p, hp, hnormal, hmin.trans hdue⟩

/-- A run that dispatches a copy and a notice. -/
theorem burst_timed_possible :
    (Machine.exec (Machine.recording (step parametriDefault) letture) (Machine.Recorded Orologio)
      (.avviato avvioDefault, []) burst).isSome := by decide

/-- A run that takes two elements out of the queue, each when it was due. -/
theorem delays_bounded_burst :
    let r := (Machine.exec (Machine.recording (step parametriDefault) letture)
      (Machine.Recorded Orologio) (.avviato avvioDefault, []) burst).get burst_timed_possible
    r.1.globals.tolti.length = 2 ∧ ∀ l ∈ r.2, ∀ e ∈ l.uscito, e.due ≤ l.ora.us := by
  have hsin : ∀ s, parametriDefault.andamento s ≤ 50000 := fun _ => Nat.zero_le _
  obtain ⟨_, _, _, hout, _⟩ := delays_bounded hsin (Machine.run_exec burst_timed_possible)
  exact ⟨by decide, fun l hl e he => (hout l hl e he).1⟩

/-! ## How long an element can wait -/

/-- The instant at which the seconds of the clock overflow. -/
def capo : Nat := 2147483648000000

/-- The reading of a clock that shows the instant. -/
def orario (us : Nat) : Timeval := ⟨.ofNat (us / 1000000), .ofNat (us % 1000000)⟩

/-- The seconds and microseconds of the reading, as long as they fit. -/
theorem orario_spec {us : Nat} (hus : us < capo) :
    (orario us).tvSec.toInt = us / 1000000 ∧ (orario us).tvUsec.toInt = us % 1000000 := by
  unfold capo at hus
  constructor
  · exact Int32.toInt_ofNat_of_lt (by omega)
  · exact Int32.toInt_ofNat_of_lt (by omega)

/-- The reading shows its instant. -/
theorem orario_us {us : Nat} (hus : us < capo) : (orario us).us = us := by
  obtain ⟨hsec, husec⟩ := orario_spec hus
  rw [Timeval.us, hsec, husec]
  omega

/-- Up to a second before the overflow there is a second left. -/
theorem orario_within {us : Nat} (hus : us + 1000000 < capo) : (orario us).Within 1 := by
  have hin : us < capo := Nat.lt_of_le_of_lt (Nat.le_add_right _ _) hus
  constructor
  · rw [long_nonneg_iff, (orario_spec hin).2]
    omega
  · rw [orario_us hin]
    unfold capo at hus
    unfold longMax
    omega

/-- A body packet. -/
def corpo : List UInt8 := [0, 0, 0, 1, typeB, 7]

/-- What the clock and `random` answer when the body is read at an instant. -/
def caso (us variazione : Nat) : Caso := ⟨orario us, orario us, 0, 0, variazione⟩

/-- The delay of the copy, less the random part. -/
def attesa (par : Parametri) (avvio : Avvio) (us : Nat) : Nat :=
  30000 + par.andamento ((orario us).tvSec - (avvio.coppia 0).secIstcreazione)

/-- Without errors a body read on pair 0 is queued, due after its delay. -/
theorem leggi_corpo (hperc : par.percentualeErrore ≤ 0) (hsin : ∀ s, par.andamento s ≤ 50000)
    {g : Globals} (hcoppia : g.coppiafd = avvio.coppia) {us : Nat} (hus : us + 1000000 < capo)
    {variazione : Nat} (hv : variazione < 20000) :
    ∃ p : Elemento, p.Timed ∧ p.due = (us + attesa par avvio us + variazione : Nat) ∧
      (leggi par (caso us variazione) (.data corpo) g 0 .sender).1.coppiafd = avvio.coppia ∧
      (leggi par (caso us variazione) (.data corpo) g 0 .sender).2 = 3 ∧
      (leggi par (caso us variazione) (.data corpo) g 0 .sender).1.queue =
        ⟨aggiungiInOrdine p g.root, g.accodati ++ [p], g.tolti⟩ := by
  have hlen : ¬ corpo.length ≤ sizeofCommonHeader := by decide
  have htype : corpo.getD 4 0 = typeB := rfl
  have hstato : (g.coppiafd 0).statoTrasmissione = true := by rw [hcoppia]; rfl
  have hpos : ¬ (par.percentualeErrore > 0 ∧
      ((((caso us variazione).casuale % 100 : Nat) : Int) - 3 * (par.oscillazione
        ((caso us variazione).now.tvSec - (g.coppiafd 0).secIstcreazione) : Int)) ≤ 2) :=
    fun h => absurd h.1 (not_lt.mpr hperc)
  simp only [leggi, ricevoInserisco, if_neg hlen, ne_eq, htype, not_true_eq_false, ↓reduceIte,
    if_neg hpos, hstato, Bool.true_eq_false]
  have hwait := hsin ((orario us).tvSec - (avvio.coppia 0).secIstcreazione)
  have hin : us < capo := Nat.lt_of_le_of_lt (Nat.le_add_right _ _) hus
  have htimeout : 30000 + variazione % 20000 + par.andamento ((orario us).tvSec -
      (g.coppiafd 0).secIstcreazione) = attesa par avvio us + variazione := by
    rw [hcoppia, Nat.mod_eq_of_lt hv]
    unfold attesa
    omega
  have hdelay : attesa par avvio us + variazione < 1000000 := by
    unfold attesa
    omega
  simp only [caso, htimeout]
  refine ⟨_, ?_, ?_, hcoppia, trivial, rfl⟩
  · exact (due_somma (orario_within hus) hdelay rfl rfl).1
  · rw [(due_somma (orario_within hus) hdelay rfl rfl).2, orario_us hin]
    omega

/-! ### One turn of the main loop -/

/-- A run of the emulator with the history of its queue. -/
abbrev Storico (par : Parametri) : Config × List Lettura → Config × List Lettura → Prop :=
  Machine.Run (Machine.recording (step par) letture) (Machine.Recorded Orologio)

/-- A step that reads no clock for the queue. -/
theorem Storico.quiet {c c' : Config} {e : Event} (hstep : step par c e = some c')
    (hclock : Orologio c e) (hnone : letture c e c' = []) (storia : List Lettura) :
    Storico par (c, storia) (c', storia) := by
  have hrecord : Storico par (c, storia) (c', storia ++ letture c e c') :=
    Machine.Run.record hclock hstep storia
  rwa [hnone, List.append_nil] at hrecord

section

variable {g : Globals} {rdset : List (Fin maxNumConnections × Lato)} {storia : List Lettura}

/-- The states of the channels stay as they are. Without losses asked for the function returns
before it reads the clock, so the reading that is given here is never looked at. -/
theorem giro_cambia (hperc : par.percentualeErrore ≤ 0)
    (hattivo : ∀ i, (g.coppiafd i).attivo = true) :
    Storico par (⟨.cambiando 0 rdset, g⟩, storia) (⟨.leggendo 0 .sender rdset, g⟩, storia) := by
  have hcambia : ∀ (i : Nat), i < maxNumConnections →
      Storico par (⟨.cambiando i rdset, g⟩, storia) (⟨.cambiando (i + 1) rdset, g⟩, storia) := by
    intro i hi
    have hstep : step par ⟨.cambiando i rdset, g⟩ (.cambia (orario 0) 0) =
        some ⟨.cambiando (i + 1) rdset, g⟩ := by
      have hsame : cambiaStatoCanaleSeScadutoBurst par.percentualeErrore ⟨i, hi⟩ (orario 0) 0 g =
          g := if_pos hperc
      simp only [step, dif_pos hi, hattivo, ↓reduceIte, hsame]
    exact .quiet hstep trivial rfl storia
  have hgo : step par ⟨.cambiando 3 rdset, g⟩ .go = some ⟨.leggendo 0 .sender rdset, g⟩ := rfl
  exact (((hcambia 0 (by decide)).trans (hcambia 1 (by decide))).trans
    (hcambia 2 (by decide))).trans (Storico.quiet hgo trivial rfl storia)

/-- No other socket is readable. -/
theorem giro_fine :
    Storico par (⟨.leggendo 0 .receiver [(0, .sender)], g⟩, storia) (⟨.selecting, g⟩, storia) := by
  have hgo : ∀ (i : Nat) (lato : Lato), (∀ hi : i < maxNumConnections,
      (⟨i, hi⟩, lato) ∉ [((0 : Fin maxNumConnections), Lato.sender)]) → i < maxNumConnections →
      Storico par (⟨.leggendo i lato [(0, .sender)], g⟩, storia)
        (⟨.dopo i [(0, .sender)] lato, g⟩, storia) := by
    intro i lato hother hi
    have hstep : step par ⟨.leggendo i lato [(0, .sender)], g⟩ .go =
        some ⟨.dopo i [(0, .sender)] lato, g⟩ := by
      simp only [step, dif_pos hi, hother hi, and_false, ↓reduceIte]
    exact .quiet hstep trivial rfl storia
  have hend : step par ⟨.leggendo 3 .sender [(0, .sender)], g⟩ .go = some ⟨.selecting, g⟩ := rfl
  exact (((((hgo 0 .receiver (by decide) (by decide)).trans
    (hgo 1 .sender (by decide) (by decide))).trans
    (hgo 1 .receiver (by decide) (by decide))).trans
    (hgo 2 .sender (by decide) (by decide))).trans
    (hgo 2 .receiver (by decide) (by decide))).trans (Storico.quiet hend trivial rfl storia)

/-- Reading the body on the first side of pair 0. -/
theorem step_corpo (par : Parametri) (hattivo : (g.coppiafd 0).attivo = true) (caso : Caso) :
    step par ⟨.leggendo 0 .sender [(0, .sender)], g⟩ (.leggi [.data corpo] caso) =
      some ⟨.leggendo 0 .receiver [(0, .sender)],
        (leggi par caso (.data corpo) g 0 .sender).1.registra 0 .sender (.data corpo)
          (leggi par caso (.data corpo) g 0 .sender).2⟩ := by
  have hready : (g.coppiafd 0).attivo = true ∧
      ((0 : Fin maxNumConnections), Lato.sender) ∈ [((0 : Fin maxNumConnections), Lato.sender)] :=
    ⟨hattivo, List.mem_singleton_self _⟩
  have hi : 0 < maxNumConnections := by decide
  simp only [step, dif_pos hi]
  exact if_pos hready

/-- The body that is read, with the verdict on it. -/
def inoltrato : Ricevuto := ⟨0, .sender, corpo, 3⟩

/-- One turn of the main loop: the dispatch loop, and a body read on pair 0. -/
theorem giro (hperc : par.percentualeErrore ≤ 0) (hsin : ∀ s, par.andamento s ≤ 50000)
    (hcoppia : g.coppiafd = avvio.coppia) {clock : List Timeval}
    (hclock : ∀ now ∈ clock, now.Within 0) {root : List Elemento} {g₁ : Globals}
    (hloop : spedisciScaduti spedisci clock g.root g = some (root, g₁)) {us : Nat}
    (hus : us + 1000000 < capo) {variazione : Nat} (hv : variazione < 20000)
    (storia : List Lettura) :
    ∃ p : Elemento, ∃ g' : Globals, p.Timed ∧
      p.due = (us + attesa par avvio us + variazione : Nat) ∧ g'.coppiafd = avvio.coppia ∧
      g'.root = aggiungiInOrdine p root ∧ g'.ricevuti = g.ricevuti ++ [inoltrato] ∧
      Storico par (⟨.selecting, g⟩, storia)
        (⟨.selecting, g'⟩, storia ++ usciti clock g.root ++ [⟨orario us, some p, none⟩]) := by
  obtain ⟨hcoppia₁, hricevuti₁⟩ : g₁.coppiafd = avvio.coppia ∧ g₁.ricevuti = g.ricevuti := by
    obtain ⟨removed, _, hfold, _, _⟩ := spedisciScaduti_spec hloop
    rw [foldl_spedisci] at hfold
    subst hfold
    exact ⟨hcoppia, rfl⟩
  obtain ⟨p, htimed, hdue, hcoppia', hris, hqueue⟩ :=
    leggi_corpo (g := { g₁ with root }) hperc hsin hcoppia₁ hus hv
  have hricevuti' : (leggi par (caso us variazione) (.data corpo) { g₁ with root } 0 .sender
      ).1.ricevuti = g.ricevuti := (leggi_ricevuti ..).trans hricevuti₁
  have hattivo : ∀ i, (g₁.coppiafd i).attivo = true := fun i => by rw [hcoppia₁]; rfl
  have hselect : step par ⟨.selecting, g⟩ (.select (.ready [(0, .sender)])) =
      some ⟨.dispatching [(0, .sender)], g⟩ := rfl
  have hdispatch : step par ⟨.dispatching [(0, .sender)], g⟩ (.dispatch clock) =
      some ⟨.cambiando 0 [(0, .sender)], { g₁ with root }⟩ := by
    simp only [step, hloop, Option.map_some]
  have hleggi := step_corpo (g := { g₁ with root }) par (hattivo 0) (caso us variazione)
  generalize leggi par (caso us variazione) (.data corpo) { g₁ with root } 0 .sender = answer
    at hcoppia' hris hqueue hricevuti' hleggi
  have haccodati : answer.1.accodati = g₁.accodati ++ [p] := congrArg Queue.entered hqueue
  have hdispatched : Storico par (⟨.dispatching [(0, .sender)], g⟩, storia)
      (⟨.cambiando 0 [(0, .sender)], { g₁ with root }⟩, storia ++ usciti clock g.root) :=
    Machine.Run.record hclock hdispatch storia
  have hnow : Orologio ⟨.leggendo 0 .sender [(0, .sender)], { g₁ with root }⟩
      (.leggi [.data corpo] (caso us variazione)) := orario_within hus
  have hread : Storico par (_, storia ++ usciti clock g.root) (_, _ ++ letture _ _ _) :=
    Machine.Run.record hnow hleggi (storia ++ usciti clock g.root)
  have hlettura : letture ⟨.leggendo 0 .sender [(0, .sender)], { g₁ with root }⟩
      (.leggi [.data corpo] (caso us variazione)) ⟨.leggendo 0 .receiver [(0, .sender)],
        answer.1.registra 0 .sender (.data corpo) answer.2⟩ = [⟨orario us, some p, none⟩] := by
    show (answer.1.accodati.drop g₁.accodati.length).map _ = _
    rw [haccodati, List.drop_left]
    rfl
  rw [hlettura] at hread
  refine ⟨p, answer.1.registra 0 .sender (.data corpo) answer.2, htimed, hdue, hcoppia',
    congrArg Queue.root hqueue, ?_, ?_⟩
  · show answer.1.ricevuti ++ [⟨0, .sender, corpo, answer.2⟩] = _
    rw [hricevuti', hris]
    rfl
  · exact ((((Storico.quiet hselect trivial rfl storia).trans hdispatched).trans
      (giro_cambia hperc hattivo)).trans hread).trans giro_fine

end

/-! ### An element that stays -/

/-- A list of elements with a certain one in it, up to normalisation, behind others. -/
def Behind (pre : List Elemento) (x : Elemento) (root : List Elemento) : Prop :=
  ∃ y post, root = pre ++ y :: post ∧ y.normal = x.normal

/-- An element that `minore` puts before `x` is put somewhere before it. -/
theorem Behind.aggiungi {pre root : List Elemento} {x p : Elemento} (h : Behind pre x root)
    (hbefore : minore p.timeout x.timeout = true) :
    ∃ pre', Behind pre' x (aggiungiInOrdine p root) ∧ ∃ q ∈ pre', q.due = p.due := by
  obtain ⟨y, post, rfl, hy⟩ := h
  have hcmp : minore p.timeout y.timeout = true := by
    have hsame : normalizza y.timeout = normalizza x.timeout := congrArg Elemento.timeout hy
    simpa only [minore, hsame] using hbefore
  clear hbefore
  induction pre generalizing p with
  | nil =>
    rw [List.nil_append, aggiungiInOrdine, if_pos hcmp]
    exact ⟨[p.normal], ⟨y.normal, post, rfl, (normal_normal y).trans hy⟩, p.normal,
      List.mem_singleton_self _, due_normal p⟩
  | cons e pre ih =>
    rw [List.cons_append, aggiungiInOrdine]
    by_cases hlt : minore p.timeout e.timeout = true
    · rw [if_pos hlt]
      exact ⟨p.normal :: e.normal :: pre, ⟨y, post, rfl, hy⟩, p.normal, List.mem_cons_self,
        due_normal p⟩
    · rw [if_neg hlt]
      obtain ⟨pre', ⟨y', post', hroot, hy'⟩, q, hq, hdue⟩ :=
        ih (p := p.normal) ((minore_normalizza _ _).trans hcmp)
      exact ⟨e.normal :: pre', ⟨y', post', by rw [hroot]; rfl, hy'⟩, q,
        List.mem_cons_of_mem _ hq, hdue.trans (due_normal p)⟩

/-- At an instant an element that is not due keeps all that is behind it in the queue. -/
theorem Behind.dispatch {pre root root' : List Elemento} {x : Elemento} (h : Behind pre x root)
    (htimed : ∀ e ∈ root, e.Timed) {us : Nat} (hus : us + 1000000 < capo)
    (hlate : (us : Int) < x.due ∨ ∃ q ∈ pre, (us : Int) < q.due) {clock : List Timeval}
    (hclock : ∀ now ∈ clock, now = orario us) {g g' : Globals}
    (hloop : spedisciScaduti spedisci clock root g = some (root', g')) :
    ∃ pre', Behind pre' x root' := by
  obtain ⟨y, post, rfl, hy⟩ := h
  obtain ⟨hsplit, _, hora, hout⟩ := usciti_spec hloop
  generalize hremoved : (usciti clock (pre ++ y :: post)).filterMap Lettura.uscito = removed
    at hsplit
  have hdue : ∀ e ∈ removed, e.due ≤ us := by
    intro e he
    obtain ⟨z, hz, rfl⟩ := List.mem_map.mp (hsplit ▸ List.mem_append_left _ he)
    obtain ⟨l, hl, hsome⟩ := List.mem_filterMap.mp (hremoved ▸ he)
    have hnow : l.ora = orario us := hclock _ (hora ▸ List.mem_map_of_mem hl)
    have hreached := (hout l hl).2 z.normal hsome
    have hwithin := orario_within hus
    rw [hnow, minoreouguale_iff (timed_normal.mpr (htimed z hz)).2 hwithin.1,
      hwithin.istante_eq (by decide), orario_us (by omega)] at hreached
    exact hreached
  have hkept : ∃ kept, root'.map Elemento.normal =
      kept ++ y.normal :: post.map Elemento.normal := by
    rw [List.map_append, List.map_cons] at hsplit
    rcases List.append_eq_append_iff.mp hsplit with ⟨taken, htaken, hrest⟩ | ⟨kept, _, hrest⟩
    · cases taken with
      | nil => exact ⟨[], hrest.symm⟩
      | cons z taken =>
        -- the loop would have taken off all of `pre` and `y`
        obtain ⟨rfl, _⟩ := List.cons.inj hrest
        rcases hlate with hx | ⟨q, hq, hlt⟩
        · have hy_due := hdue y.normal (htaken ▸ List.mem_append_right _ List.mem_cons_self)
          rw [hy, due_normal] at hy_due
          omega
        · have hq_due := hdue q.normal
            (htaken ▸ List.mem_append_left _ (List.mem_map_of_mem hq))
          rw [due_normal] at hq_due
          omega
    · exact ⟨kept, hrest⟩
  obtain ⟨kept, hkept⟩ := hkept
  obtain ⟨pre', rest, rfl, _, hrest⟩ := List.map_eq_append_iff.mp hkept
  obtain ⟨y', post', rfl, hy', _⟩ := List.map_eq_cons_iff.mp hrest
  exact ⟨pre', y', post', rfl, hy'.trans hy⟩

/-- A later second with fewer microseconds is what `minore` judges wrongly. -/
theorem minore_of_later {p x : Elemento} (hp : p.Timed) (hx : x.Timed)
    (hsec : x.due / 1000000 < p.due / 1000000) (husec : p.due % 1000000 < x.due % 1000000) :
    minore p.timeout x.timeout = true := by
  rw [minore_iff hp.2 hx.2]
  right
  obtain ⟨hp₀, hp₁⟩ := Timeval.normal_iff.mp (normalizza_usec hp.2)
  obtain ⟨hx₀, hx₁⟩ := Timeval.normal_iff.mp (normalizza_usec hx.2)
  simp only [Elemento.due, Timeval.istante, Timeval.us] at hsec husec
  simp only [straddles, Bool.and_eq_true, decide_eq_true_eq, Int32.lt_iff_toInt_lt]
  omega

/-- The instants at which something went into the queue. -/
def entrate (storia : List Lettura) : List Int :=
  (storia.filter (·.entrato.isSome)).map (·.ora.us)

/-- The emulator between two turns of its main loop, with an element that stays: a body was read
every 20 ms, and something up to the element is not due at the instant of the next turn. -/
structure Stays (par : Parametri) (avvio : Avvio) (x : Elemento) (inizio k : Nat) (g : Globals)
    (storia : List Lettura) : Prop where
  run : Storico par (.avviato avvio, []) (⟨.selecting, g⟩, storia)
  coppia : g.coppiafd = avvio.coppia
  ricevuti_eq : g.ricevuti = .replicate k inoltrato
  entrate_eq : entrate storia = (List.range k).map fun i => ((inizio + 20000 * i : Nat) : Int)
  timed : ∀ e ∈ g.root, e.Timed
  behind : ∃ pre, Behind pre x g.root ∧
    (((inizio + 20000 * k : Nat) : Int) < x.due ∨
      ∃ q ∈ pre, ((inizio + 20000 * k : Nat) : Int) < q.due)
  forward : (storia.map fun l => l.ora.us).Pairwise (· ≤ ·)
  past : ∀ l ∈ storia, l.ora.us ≤ (inizio + 20000 * k : Nat)

section

variable {x : Elemento} {inizio k sec : Nat} {g : Globals} {storia : List Lettura}

/-- The dispatch loop of the next turn, by a clock that shows its instant. -/
theorem Stays.dispatch (h : Stays par avvio x inizio k g storia)
    (hus : inizio + 20000 * k + 1000000 < capo) :
    ∃ clock root g₁, (∀ now ∈ clock, now = orario (inizio + 20000 * k)) ∧ clock ≠ [] ∧
      spedisciScaduti spedisci clock g.root g = some (root, g₁) ∧
      (∃ pre, Behind pre x root) ∧ ∀ e ∈ root, e.Timed := by
  obtain ⟨n, hn⟩ := spedisciScaduti_total spedisci (fun e he => (h.timed e he).1)
    (fun _ => orario (inizio + 20000 * k)) g
  have hclock : ∀ now ∈ (List.range n).map (fun _ => orario (inizio + 20000 * k)),
      now = orario (inizio + 20000 * k) := by
    intro now hnow
    obtain ⟨_, _, rfl⟩ := List.mem_map.mp hnow
    rfl
  obtain ⟨⟨root, g₁⟩, hloop⟩ := Option.isSome_iff_exists.mp hn
  obtain ⟨pre, hpre, hlate⟩ := h.behind
  refine ⟨_, root, g₁, hclock, ?_, hloop, hpre.dispatch h.timed hus hlate hclock hloop, ?_⟩
  · -- a queue that is not empty is tested
    intro hnil
    obtain ⟨y, post, hroot, _⟩ := hpre
    rw [hnil, hroot] at hloop
    cases pre <;> cases hloop
  · obtain ⟨removed, hsplit, _⟩ := spedisciScaduti_spec hloop
    refine timed_of_map ?_ h.timed
    intro e he
    obtain ⟨z, hz, hsame⟩ := List.mem_map.mp (hsplit ▸ List.mem_append_right removed he)
    exact ⟨z, hz, hsame.symm⟩

/-- The history of a turn at one instant goes on from the one before it. -/
theorem Stays.forward_append (h : Stays par avvio x inizio k g storia)
    (hus : inizio + 20000 * k < capo) {more : List Lettura}
    (hmore : ∀ l ∈ more, l.ora = orario (inizio + 20000 * k)) :
    ((storia ++ more).map fun l => l.ora.us).Pairwise (· ≤ ·) ∧
      ∀ l ∈ storia ++ more, l.ora.us ≤ (inizio + 20000 * k : Nat) := by
  have hnow : ∀ l ∈ more, l.ora.us = (inizio + 20000 * k : Nat) :=
    fun l hl => by rw [hmore l hl, orario_us hus]
  constructor
  · rw [List.map_append, List.pairwise_append]
    refine ⟨h.forward, ?_, ?_⟩
    · rw [List.pairwise_map]
      exact List.pairwise_of_forall_mem_list fun a ha b hb => by rw [hnow a ha, hnow b hb]
    · intro a ha b hb
      obtain ⟨l, hl, rfl⟩ := List.mem_map.mp ha
      obtain ⟨l', hl', rfl⟩ := List.mem_map.mp hb
      rw [hnow l' hl']
      exact h.past l hl
  · intro l hl
    rcases List.mem_append.mp hl with hl | hl
    · exact h.past l hl
    · exact (hnow l hl).le

/-- What the dispatch loop reads is no instant at which something went in. -/
theorem entrate_usciti {clock : List Timeval} {root root' : List Elemento} {g' : Globals}
    (hloop : spedisciScaduti spedisci clock root g = some (root', g')) :
    entrate (usciti clock root) = [] := by
  obtain ⟨_, _, _, hout⟩ := usciti_spec hloop
  have hnone : (usciti clock root).filter (·.entrato.isSome) = [] := by
    apply List.filter_eq_nil_iff.mpr
    intro l hl
    simp [(hout l hl).1]
  rw [entrate, hnone, List.map_nil]

/-- In the next turn, 20 ms later, a body is read whose copy goes before the element. -/
theorem Stays.turn (hperc : par.percentualeErrore ≤ 0) (hsin : ∀ s, par.andamento s ≤ 50000)
    (h : Stays par avvio x inizio k g storia) (hx : x.Timed)
    (hdue : x.due = (sec * 1000000 + 999999 : Nat))
    (hlater : sec * 1000000 + 999999 < inizio + 20000 * k + attesa par avvio (inizio + 20000 * k))
    (hus : inizio + 20000 * k + 1000000 < capo) :
    ∃ g' storia', Stays par avvio x inizio (k + 1) g' storia' := by
  obtain ⟨clock, root, g₁, hclock, -, hloop, ⟨pre, hpre⟩, htimed⟩ := h.dispatch hus
  have hin : inizio + 20000 * k < capo := by omega
  generalize hnow : inizio + 20000 * k = us at *
  have hattesa : 30000 ≤ attesa par avvio us := Nat.le_add_right _ _
  -- the last microsecond of a second is left out
  obtain ⟨v, hv, hlast⟩ : ∃ v < 20000, (us + attesa par avvio us + v) % 1000000 < 999999 := by
    by_cases h0 : (us + attesa par avvio us) % 1000000 < 999999
    · exact ⟨0, by decide, h0⟩
    · exact ⟨1, by decide, by omega⟩
  have hwithin : ∀ now ∈ clock, now.Within 0 := by
    intro now hmem
    rw [hclock now hmem]
    exact ⟨(orario_within hus).1, by have := (orario_within hus).2; omega⟩
  obtain ⟨p, g', hp, hp_due, hcoppia, hroot, hricevuti, hrun⟩ :=
    giro hperc hsin h.coppia hwithin hloop hus hv storia
  have hbefore : minore p.timeout x.timeout = true := by
    apply minore_of_later hp hx
    · rw [hp_due, hdue]
      omega
    · rw [hp_due, hdue]
      omega
  obtain ⟨pre', hpre', q, hq, hq_due⟩ := hpre.aggiungi hbefore
  have hmore : ∀ l ∈ usciti clock g.root ++ [⟨orario us, some p, none⟩], l.ora = orario us := by
    intro l hl
    rcases List.mem_append.mp hl with hl | hl
    · obtain ⟨_, _, hora, _⟩ := usciti_spec hloop
      exact hclock _ (hora ▸ List.mem_map_of_mem hl)
    · rw [List.mem_singleton.mp hl]
  rw [List.append_assoc] at hrun
  subst hnow
  obtain ⟨hforward, hpast⟩ := h.forward_append hin hmore
  refine ⟨g', _, h.run.trans hrun, hcoppia, ?_, ?_, ?_, ⟨pre', hroot ▸ hpre', .inr ⟨q, hq, ?_⟩⟩,
    hforward, ?_⟩
  · rw [hricevuti, h.ricevuti_eq, List.replicate_succ']
  · have hentered : entrate [(⟨orario (inizio + 20000 * k), some p, none⟩ : Lettura)] =
        [((inizio + 20000 * k : Nat) : Int)] := by
      simp [entrate, orario_us hin]
    have hsplit : ∀ a b, entrate (a ++ b) = entrate a ++ entrate b := by
      intro a b
      rw [entrate, List.filter_append, List.map_append, entrate, entrate]
    rw [hsplit, hsplit, entrate_usciti hloop, List.nil_append, hentered, h.entrate_eq,
      List.range_succ, List.map_append, List.map_singleton]
  · intro e he
    rw [hroot] at he
    rcases mem_aggiungiInOrdine he with hnew | ⟨z, hz, hsame⟩
    · rw [← timed_normal, ← hnew, timed_normal]
      exact hp
    · rw [← timed_normal, ← hsame, timed_normal]
      exact htimed z hz
  · rw [hq_due, hp_due]
    omega
  · intro l hl
    have hle := hpast l hl
    omega

/-- The first body is read so that its copy is due in the last microsecond of a second. -/
theorem Stays.start (hperc : par.percentualeErrore ≤ 0) (hsin : ∀ s, par.andamento s ≤ 50000)
    (avvio : Avvio) (hsec : sec + 2 < 2147483648) : ∃ (x : Elemento) (inizio : Nat) (g : Globals)
      (storia : List Lettura), x.Timed ∧ x.due = (sec * 1000000 + 999999 : Nat) ∧
        inizio + attesa par avvio inizio = sec * 1000000 + 999999 ∧
        inizio / 1000000 = sec ∧ Stays par avvio x inizio 1 g storia := by
  have hwait := hsin (.ofNat sec - (avvio.coppia 0).secIstcreazione)
  obtain ⟨inizio, hinizio⟩ : ∃ inizio, inizio = sec * 1000000 + 999999 - (30000 +
      par.andamento (.ofNat sec - (avvio.coppia 0).secIstcreazione)) := ⟨_, rfl⟩
  have hinizio_sec : inizio / 1000000 = sec := by omega
  have hattesa : inizio + attesa par avvio inizio = sec * 1000000 + 999999 := by
    simp only [attesa, orario, hinizio_sec]
    omega
  have hloop : spedisciScaduti spedisci [] (Globals.avviato avvio).root (.avviato avvio) =
      some ([], .avviato avvio) := rfl
  have hus : inizio + 1000000 < capo := by
    unfold capo
    omega
  have hv : 0 < 20000 := by decide
  obtain ⟨p, g, hp, hp_due, hcoppia, hroot, hricevuti, hrun⟩ :=
    giro hperc hsin rfl (fun _ h => absurd h List.not_mem_nil) hloop hus hv []
  rw [Nat.add_zero, hattesa] at hp_due
  have hnow : (orario inizio).us = inizio := orario_us (by omega)
  refine ⟨p, inizio, g, _, hp, hp_due, hattesa, hinizio_sec, hrun, hcoppia, hricevuti, ?_, ?_,
    ⟨[], ⟨p, [], hroot, rfl⟩, .inl ?_⟩, ?_, ?_⟩
  · show [(orario inizio).us] = _
    simp [hnow]
  · intro e he
    rw [hroot] at he
    rw [List.mem_singleton.mp he]
    exact hp
  · rw [hp_due]
    omega
  · exact List.pairwise_singleton ..
  · intro l hl
    rw [List.mem_singleton.mp hl, hnow]
    omega

end

end GProxy.Ritardatore
