import GProxy.Ritardatore.Conservation
import Mathlib.Data.List.Chain

/-!
# The states of the channels

`cambia_stato_canale_se_scaduto_burst` makes a channel lose for a while (a burst) and transmit for
a while. Over a run the states of each channel alternate, and each phase lasts as long as was set
at its start, within the bounds of its state (`phases_alternate`). That is so whatever the clock
shows, back or forth, until ten seconds before its seconds overflow; after that it is not
established here.

With `PERCENTUALE_ERRORE` not above zero no channel ever leaves the state it starts in, and
nothing is lost (`lossless`).
-/

namespace GProxy.Ritardatore

variable {par : Parametri} {avvio : Avvio}

/-! ## What the emulator reads -/

/-- The local port of the socket that `ricevo_inserisco` would read next. -/
def Config.readPort (c : Config) : Option UInt16 :=
  match c.pc with
  | .leggendo i lato _ =>
    if h : i < maxNumConnections then some ((c.globals.coppiafd ⟨i, h⟩).port lato) else none
  | _ => none

/-- The other side of the other side is the side. -/
theorem Lato.opposto_opposto (lato : Lato) : lato.opposto.opposto = lato := by cases lato <;> rfl

/-- What is read is recorded by the main loop, not by `ricevo_inserisco`. -/
theorem leggi_ricevuti (par : Parametri) (caso : Caso) (recv : Recv) (g : Globals)
    (i : Fin maxNumConnections) (lato : Lato) :
    (leggi par caso recv g i lato).1.ricevuti = g.ricevuti := by
  cases recv with
  | data buf =>
    have hacc := leggi_accounts par caso buf g i lato
    generalize (leggi par caso (.data buf) g i lato).1 = g' at hacc
    generalize (leggi par caso (.data buf) g i lato).2 = ris at hacc
    cases hacc <;> rfl
  | failed errno =>
    cases lato <;>
    · simp only [leggi, ricevoInserisco]
      split <;> rfl

/-- The history of what was read grows by what is read on the port of the call, and by nothing
else. -/
theorem ricevuti_of_step {c c' : Config} {e : Event}
    (h : step par c e = some c') :
    c'.globals.ricevuti = c.globals.ricevuti ∨
      ∃ i lato buf ris outcomes caso, e = .leggi outcomes caso ∧
        c.readPort = some ((c.globals.coppiafd i).port lato) ∧ .data buf ∈ outcomes ∧
        c'.globals.ricevuti = c.globals.ricevuti ++ [⟨i, lato, buf, ris⟩] := by
  cases e with
  | leggi outcomes caso =>
    obtain ⟨pc, g⟩ := c
    cases pc with
    | leggendo i lato rdset =>
      simp only [step] at h
      split at h
      next hi =>
        split at h
        next =>
          split at h
          next recv hrecv =>
            cases h
            cases recv with
            | failed errno => exact .inl (leggi_ricevuti ..)
            | data buf =>
              refine .inr ⟨⟨i, hi⟩, lato, buf, (leggi par caso (.data buf) g ⟨i, hi⟩ lato).2,
                outcomes, caso, rfl, dif_pos hi, mem_of_doWhile hrecv, ?_⟩
              simp only [Globals.registra, leggi_ricevuti]
          next => cases h
        next => cases h
      next => cases h
    | _ => cases h
  | select | go => cases stepped_of_step h; exact .inl rfl
  | dispatch clock =>
    cases stepped_of_step h with
    | control => exact .inl rfl
    | dispatch hloop =>
      obtain ⟨removed, _, hfold, _, _⟩ := spedisciScaduti_spec hloop
      rw [← hfold, foldl_spedisci]
      exact .inl rfl
  | cambia now casuale =>
    cases stepped_of_step h with
    | control => exact .inl rfl
    | cambia =>
      unfold cambiaStatoCanaleSeScadutoBurst
      split <;> exact .inl rfl

/-! ## The state of a channel -/

/-- The state of a channel, and when it may change next. -/
def Coppia.canale (c : Coppia) : Bool × Timeval := (c.statoTrasmissione, c.istProssimoCambioStato)

/-- Closing a pair leaves the state of its channel as it is. -/
@[simp] theorem canale_chiusa (c : Coppia) : c.chiusa.canale = c.canale := by
  unfold Coppia.chiusa
  split <;> rfl

/-- `ricevo_inserisco` leaves the states of the channels as they are. -/
theorem leggi_canale (par : Parametri) (caso : Caso) (recv : Recv) (g : Globals)
    (i : Fin maxNumConnections) (lato : Lato) (j : Fin maxNumConnections) :
    ((leggi par caso recv g i lato).1.coppiafd j).canale = (g.coppiafd j).canale := by
  cases recv with
  | data buf =>
    have hacc := leggi_accounts par caso buf g i lato
    generalize (leggi par caso (.data buf) g i lato).1 = g' at hacc
    generalize (leggi par caso (.data buf) g i lato).2 = ris at hacc
    cases hacc <;> rfl
  | failed errno =>
    have hclose : ((closeCoppia g i).coppiafd j).canale = (g.coppiafd j).canale := by
      by_cases hji : j = i
      · subst hji
        simp [closeCoppia]
      · simp [closeCoppia, hji]
    cases lato <;>
    · simp only [leggi, ricevoInserisco]
      split
      next => rfl
      next => exact hclose

/-- Only a call of `cambia_stato_canale_se_scaduto_burst` touches the state of a channel. -/
theorem canale_of_step {c c' : Config} {e : Event} (h : step par c e = some c')
    (i : Fin maxNumConnections) :
    (c'.globals.coppiafd i).canale = (c.globals.coppiafd i).canale ∨
      ∃ now casuale, e = .cambia now casuale ∧ 0 < par.percentualeErrore ∧
        c'.globals.coppiafd i = (c.globals.coppiafd i).cambiata now casuale := by
  cases stepped_of_step h with
  | control => exact .inl rfl
  | dispatch hloop =>
    obtain ⟨removed, _, hfold, _, _⟩ := spedisciScaduti_spec hloop
    rw [foldl_spedisci] at hfold
    subst hfold
    exact .inl rfl
  | @leggi pc pc' g j lato recv outcomes caso hattivo hrecv =>
    refine .inl ?_
    cases recv with
    | data buf => exact leggi_canale par caso (.data buf) g j lato i
    | failed errno => exact leggi_canale par caso (.failed errno) g j lato i
  | @cambia pc pc' g j now casuale hattivo =>
    unfold cambiaStatoCanaleSeScadutoBurst
    split
    next => exact .inl rfl
    next hperc =>
      by_cases hij : i = j
      · subst hij
        exact .inr ⟨now, casuale, rfl, Int.not_le.mp hperc, Function.update_self ..⟩
      · exact .inl (congrArg Coppia.canale (Function.update_of_ne hij ..))

/-! ## How long a phase lasts -/

/-- The least a phase lasts, in microseconds, from the state the channel is in. -/
def minimo (statoTrasmissione : Bool) : Int := if statoTrasmissione then 3000000 else 2000000

/-- After so much a phase is over. -/
def massimo (statoTrasmissione : Bool) : Int := if statoTrasmissione then 9999000 else 2999000

/-- A channel whose time has come changes its state, for a time between the bounds of the new one;
before that nothing changes. -/
theorem cambiata_spec {c : Coppia} {now : Timeval} (hist : 0 ≤ c.istProssimoCambioStato.tvUsec)
    (hnow : now.Within 10) (casuale : Nat) :
    0 ≤ (c.cambiata now casuale).istProssimoCambioStato.tvUsec ∧
      ((now.us < c.istProssimoCambioStato.istante ∧
          (c.cambiata now casuale).statoTrasmissione = c.statoTrasmissione ∧
          (c.cambiata now casuale).istProssimoCambioStato.istante =
            c.istProssimoCambioStato.istante) ∨
        (c.istProssimoCambioStato.istante ≤ now.us ∧
          (c.cambiata now casuale).statoTrasmissione = (!c.statoTrasmissione) ∧
          (c.cambiata now casuale).istProssimoCambioStato.Normal ∧
          now.us + minimo (!c.statoTrasmissione) ≤
            (c.cambiata now casuale).istProssimoCambioStato.us ∧
          (c.cambiata now casuale).istProssimoCambioStato.us ≤
            now.us + massimo (!c.statoTrasmissione))) := by
  have hnow_us : now.istante = now.us := hnow.istante_eq (by decide)
  by_cases hdue : minoreouguale c.istProssimoCambioStato now = true
  · have hle := (minoreouguale_iff hist hnow.1).mp hdue
    have hfar : (normalizza now).us / 1000000 + 10 ≤ longMax := by
      have hus : (normalizza now).us = now.us := hnow_us
      rw [hus]
      exact hnow.2
    simp only [Coppia.cambiata, if_pos hdue]
    generalize hmsec : (if c.statoTrasmissione = true then max (casuale % 3000) 2000
      else max (casuale % 10000) 3000) = msec
    have hbounds : 1000 * msec ≤ massimo (!c.statoTrasmissione) ∧
        minimo (!c.statoTrasmissione) ≤ 1000 * msec ∧ msec < 10000 := by
      rw [← hmsec]
      cases c.statoTrasmissione <;>
      · simp only [minimo, massimo, Bool.not_true, Bool.not_false, Bool.false_eq_true, ↓reduceIte]
        omega
    have hmicro : msec * 1000 % 1000000 < 1000000 := Nat.mod_lt _ (by decide)
    have hseconds : msec / 1000 < 100 := by omega
    obtain ⟨hnormal, hus⟩ := normalizza_add (normalizza_usec hnow.1) hseconds hmicro (by omega)
    refine ⟨hnormal.1, .inr ⟨hnow_us ▸ hle, trivial, hnormal, ?_⟩⟩
    have hsum : (normalizza now).us = now.us := hnow_us
    rw [hus, hsum]
    omega
  · simp only [Coppia.cambiata, if_neg hdue]
    refine ⟨(normalizza_usec hist).1, .inl ⟨?_, trivial, istante_normalizza _⟩⟩
    rw [minoreouguale_iff hist hnow.1, not_le, hnow_us] at hdue
    exact hdue

/-! ## The history of a channel -/

/-- A change of state: the reading of the clock, the new state and when it may change again. -/
structure Cambio where
  ist : Timeval
  statoTrasmissione : Bool
  prossimo : Timeval
  deriving DecidableEq, Repr

/-- What is seen of the channel of one pair in a step. -/
def cambi (i : Fin maxNumConnections) (c : Config) (e : Event) (c' : Config) : List Cambio :=
  match e with
  | .cambia now _ =>
    if (c'.globals.coppiafd i).statoTrasmissione = (c.globals.coppiafd i).statoTrasmissione then []
    else [⟨now, (c'.globals.coppiafd i).statoTrasmissione,
      (c'.globals.coppiafd i).istProssimoCambioStato⟩]
  | _ => []

/-- When the state of a channel is looked at, the clock is not in the last ten seconds that its
seconds can count. -/
def Clocked (_ : Config) : Event → Prop
  | .cambia now _ => now.Within 10
  | _ => True

instance (c : Config) (e : Event) : Decidable (Clocked c e) := by
  cases e <;> (unfold Clocked; infer_instance)

/-- The start of a channel, as if it were a change. -/
def Avvio.inizio (avvio : Avvio) (i : Fin maxNumConnections) : Cambio :=
  ⟨avvio.now i, true, (avvio.coppia i).istProssimoCambioStato⟩

/-- The time of the first change is the one that was set. -/
theorem Avvio.inizio_istante {avvio : Avvio} {i : Fin maxNumConnections}
    (h : (avvio.now i).Within 26) :
    (avvio.coppia i).istProssimoCambioStato.istante =
      (avvio.coppia i).istProssimoCambioStato.us := by
  have hi : (i : Nat) < 3 := i.isLt
  have hsec : ((avvio.now i).tvSec + Int32.ofNat (5 + i * 10)).toInt =
      (avvio.now i).tvSec.toInt + (5 + i * 10 : Nat) := by
    have hfar := h.2
    have husec := long_nonneg_iff.mp h.1
    obtain ⟨hlow, _⟩ := long_bounds (avvio.now i).tvSec
    unfold Timeval.us longMin longMax at *
    rw [Int32.toInt_add, Int32.toInt_ofNat_of_lt (by omega), bmod_long]
    omega
  have hnonneg : 0 ≤ (avvio.coppia i).istProssimoCambioStato.tvUsec := h.1
  apply (istante_eq_us_iff hnonneg).mpr
  have hfar := h.2
  unfold Timeval.Fits Timeval.us at *
  simp only [Avvio.coppia, hsec]
  omega

/-- A change to the other state, when the time for it has come. -/
def Segue (prima dopo : Cambio) : Prop :=
  dopo.statoTrasmissione = !prima.statoTrasmissione ∧ prima.prossimo.us ≤ dopo.ist.us

/-- The next change is due after a time that is between the bounds of the new state. -/
def Cambio.Bounded (h : Cambio) : Prop :=
  h.ist.us + minimo h.statoTrasmissione ≤ h.prossimo.us ∧
    h.prossimo.us ≤ h.ist.us + massimo h.statoTrasmissione

/-- The history of a channel, and that the channel is where the last change left it. -/
structure Phased (inizio : Cambio) (c : Coppia) (history : List Cambio) : Prop where
  usec_nonneg : 0 ≤ c.istProssimoCambioStato.tvUsec
  last : ∀ h ∈ (inizio :: history).getLast?, c.statoTrasmissione = h.statoTrasmissione ∧
    c.istProssimoCambioStato.istante = h.prossimo.us
  chain : (inizio :: history).IsChain Segue
  bounded : ∀ h ∈ history, h.Bounded

/-- A step that leaves the channel as it is adds nothing to its history. -/
theorem Phased.of_canale {inizio : Cambio} {c c' : Coppia} {history : List Cambio}
    (h : Phased inizio c history) (hsame : c'.canale = c.canale) : Phased inizio c' history := by
  obtain ⟨hstato, hist⟩ := Prod.mk.inj hsame
  exact { h with usec_nonneg := hist ▸ h.usec_nonneg, last := hstato ▸ hist ▸ h.last }

/-- One look at the state of the channel. -/
theorem Phased.cambiata {inizio : Cambio} {c : Coppia} {history : List Cambio}
    (h : Phased inizio c history) {now : Timeval} (hnow : now.Within 10) (casuale : Nat) :
    Phased inizio (c.cambiata now casuale) (history ++
      if (c.cambiata now casuale).statoTrasmissione = c.statoTrasmissione then []
      else [⟨now, (c.cambiata now casuale).statoTrasmissione,
        (c.cambiata now casuale).istProssimoCambioStato⟩]) := by
  obtain ⟨husec, ⟨_, hstato, hist⟩ | ⟨hdue, hstato, hnormal, hmin, hmax⟩⟩ :=
    cambiata_spec h.usec_nonneg hnow casuale
  · rw [if_pos hstato, List.append_nil]
    exact { h with usec_nonneg := husec, last := hstato.symm ▸ hist.symm ▸ h.last }
  · have hchanged : (c.cambiata now casuale).statoTrasmissione ≠ c.statoTrasmissione := by
      simp [hstato]
    rw [if_neg hchanged]
    refine { usec_nonneg := husec, last := ?_, chain := ?_, bounded := ?_ }
    · rw [← List.cons_append, List.getLast?_concat]
      rintro _ ⟨⟩
      exact ⟨rfl, hnormal.istante_eq⟩
    · rw [← List.cons_append, List.isChain_append]
      refine ⟨h.chain, .singleton _, ?_⟩
      rintro x hx _ ⟨⟩
      obtain ⟨hlast, hprossimo⟩ := h.last x hx
      exact ⟨hlast ▸ hstato, hprossimo ▸ hdue⟩
    · intro x hx
      rcases List.mem_append.mp hx with hx | hx
      · exact h.bounded x hx
      · rw [List.mem_singleton.mp hx]
        simp only [Cambio.Bounded, hstato]
        exact ⟨hmin, hmax⟩

/-- Each step keeps the history: it is a look at the channel, which may change its state, or leaves
the channel as it is. -/
theorem Phased.stepped {i : Fin maxNumConnections} {inizio : Cambio} {c c' : Config} {e : Event}
    {history : List Cambio} (h : Phased inizio (c.globals.coppiafd i) history)
    (hclock : Clocked c e) (hstep : step par c e = some c') :
    Phased inizio (c'.globals.coppiafd i) (history ++ cambi i c e c') := by
  rcases canale_of_step hstep i with hsame | ⟨now, casuale, rfl, _, hcambiata⟩
  · have hnone : cambi i c e c' = [] := by
      cases e <;> simp only [cambi]
      rw [if_pos (Prod.mk.inj hsame).1]
    rw [hnone, List.append_nil]
    exact h.of_canale hsame
  · simp only [cambi, hcambiata]
    exact h.cambiata hclock casuale

/-- The main loop is about to look at the state of a channel. -/
def Config.Looks (c : Config) (i : Fin maxNumConnections) : Prop :=
  ∃ rdset, c.pc = .cambiando i rdset

/-- A look at a channel is one at the channel it is about. -/
theorem cambia_of_looks {c c' : Config} {i : Fin maxNumConnections} {now : Timeval} {casuale : Nat}
    (hlooks : c.Looks i) (hstep : step par c (.cambia now casuale) = some c') :
    c'.globals.coppiafd i = if par.percentualeErrore ≤ 0 then c.globals.coppiafd i
      else (c.globals.coppiafd i).cambiata now casuale := by
  obtain ⟨pc, g⟩ := c
  obtain ⟨rdset, rfl⟩ := hlooks
  simp only [step, dif_pos i.isLt] at hstep
  split at hstep
  next =>
    cases hstep
    unfold cambiaStatoCanaleSeScadutoBurst
    split
    next => rfl
    next => exact Function.update_self ..
  next => cases hstep

/-- The state of a channel changes back and forth. A change comes when its time has come and not
before, this time is between the bounds of the phase (3 s to 9.999 s of transmission, 2 s to
2.999 s of loss), and the channel is where the last change left it. The next look at it changes it
if and only if losses are asked for and its time has come. -/
theorem phases_alternate (i : Fin maxNumConnections) (hstart : (avvio.now i).Within 26)
    {c : Config} {history : List Cambio}
    (run : Machine.Run (Machine.recording (step par) (cambi i)) (Machine.Recorded Clocked)
      (.avviato avvio, []) (c, history)) :
    (avvio.inizio i :: history).IsChain Segue ∧ (∀ h ∈ history, h.Bounded) ∧
      ∀ h ∈ (avvio.inizio i :: history).getLast?,
        (c.globals.coppiafd i).statoTrasmissione = h.statoTrasmissione ∧
          ∀ now casuale c', now.Within 10 → c.Looks i →
            step par c (.cambia now casuale) = some c' →
            ((c'.globals.coppiafd i).statoTrasmissione = (!h.statoTrasmissione) ↔
              0 < par.percentualeErrore ∧ h.prossimo.us ≤ now.us) := by
  have hphased : Phased (avvio.inizio i) (c.globals.coppiafd i) history := by
    refine run.recorded_invariant
      (I := fun c history => Phased (avvio.inizio i) (c.globals.coppiafd i) history) ?_ ?_
    · intro c e c' history h hclock hstep
      exact h.stepped hclock hstep
    · refine { usec_nonneg := hstart.1, last := ?_, chain := .singleton _, bounded := ?_ }
      · rintro _ ⟨⟩
        exact ⟨rfl, avvio.inizio_istante hstart⟩
      · intro _ hx
        exact absurd hx List.not_mem_nil
  refine ⟨hphased.chain, hphased.bounded, ?_⟩
  intro h hh
  obtain ⟨hstato, hist⟩ := hphased.last h hh
  refine ⟨hstato, ?_⟩
  intro now casuale c' hnow hlooks hstep
  rw [cambia_of_looks hlooks hstep]
  split
  next hperc =>
    rw [hstato]
    exact iff_of_false (by simp) fun h => absurd h.1 (not_lt.mpr hperc)
  next hperc =>
    rw [← hstato, ← hist]
    obtain ⟨_, ⟨hlt, hsame, _⟩ | ⟨hle, hother, _⟩⟩ :=
      cambiata_spec hphased.usec_nonneg hnow casuale
    · rw [hsame]
      exact iff_of_false (by simp) fun h => absurd h.2 (not_le.mpr hlt)
    · exact iff_of_true hother ⟨not_le.mp hperc, hle⟩

/-- The start of `burst`: pair 0 goes into a burst and out of it again. -/
def burstOver : List Event :=
  [.select (.ready []), .dispatch [], .cambia ⟨105, 0⟩ 2500, .cambia ⟨105, 0⟩ 0,
    .cambia ⟨105, 0⟩ 0, .go, .go, .go, .go, .go, .go, .go, .go,
    .select (.ready []), .dispatch [], .cambia ⟨107, 600000⟩ 7]

/-- The run can be made, with the changes of the channel of pair 0. -/
theorem burstOver_possible :
    (Machine.exec (Machine.recording (step parametriDefault) (cambi 0)) (Machine.Recorded Clocked)
      (.avviato avvioDefault, []) burstOver).isSome := by decide

/-- The channel goes into a burst when its time has come and back out of it when the burst is
over. -/
theorem phases_alternate_burstOver :
    [avvioDefault.inizio 0, ⟨⟨105, 0⟩, false, ⟨107, 500000⟩⟩,
      ⟨⟨107, 600000⟩, true, ⟨110, 600000⟩⟩].IsChain Segue := by
  have h := phases_alternate 0 (by decide) (Machine.run_exec burstOver_possible)
  exact h.1

/-! ## Without errors -/

/-- The verdict of a channel that transmits, when nothing is to be lost. -/
theorem leggi_transmitting (hperc : par.percentualeErrore ≤ 0) (caso : Caso) (buf : List UInt8)
    {g : Globals} {i : Fin maxNumConnections} (hstato : (g.coppiafd i).statoTrasmissione = true)
    (lato : Lato) :
    (leggi par caso (.data buf) g i lato).2 = if Body buf then 3 else 0 := by
  have hnoerr : ¬ par.percentualeErrore > 0 := not_lt.mpr hperc
  by_cases hbody : Body buf
  · have hlen : ¬ buf.length ≤ sizeofCommonHeader := not_le.mpr hbody.1
    have htype : ¬ buf.getD 4 0 ≠ typeB := not_not.mpr hbody.2
    rw [if_pos hbody]
    cases lato <;>
    · simp only [leggi, ricevoInserisco, if_neg hlen, if_neg htype]
      simp only [hnoerr, hstato, false_and, Bool.true_eq_false, ↓reduceIte]
  · rw [if_neg hbody]
    have hacc := leggi_accounts par caso buf g i lato
    generalize (leggi par caso (.data buf) g i lato).1 = g' at hacc
    generalize (leggi par caso (.data buf) g i lato).2 = ris at hacc
    cases hacc with
    | ignored => rfl
    | silent hb | noticed hb | forwarded hb => exact absurd hb hbody

/-- Every channel transmits, and every body that was read was forwarded. -/
structure Intact (g : Globals) : Prop where
  transmits : ∀ i, (g.coppiafd i).statoTrasmissione = true
  verdicts : ∀ r ∈ g.ricevuti, r.ris = if Body r.buf then 3 else 0

/-- Without losses asked for each step keeps it: the test for a burst is never passed. -/
theorem Intact.stepped (hperc : par.percentualeErrore ≤ 0) {c c' : Config} {e : Event}
    (h : Intact c.globals) (hstep : step par c e = some c') : Intact c'.globals := by
  constructor
  · intro i
    rcases canale_of_step hstep i with hsame | ⟨_, _, _, hpos, _⟩
    · exact (Prod.mk.inj hsame).1.trans (h.transmits i)
    · exact absurd hpos (not_lt.mpr hperc)
  · intro r hr
    cases stepped_of_step hstep with
    | control => exact h.verdicts r hr
    | dispatch hloop =>
      obtain ⟨removed, _, hfold, _, _⟩ := spedisciScaduti_spec hloop
      rw [foldl_spedisci] at hfold
      subst hfold
      exact h.verdicts r hr
    | cambia =>
      simp only [cambiaStatoCanaleSeScadutoBurst, if_pos hperc] at hr
      exact h.verdicts r hr
    | @leggi pc pc' g i lato recv outcomes caso =>
      cases recv with
      | failed errno =>
        simp only [Globals.registra, leggi_ricevuti] at hr
        exact h.verdicts r hr
      | data buf =>
        simp only [Globals.registra, leggi_ricevuti] at hr
        rcases List.mem_append.mp hr with hr | hr
        · exact h.verdicts r hr
        · rw [List.mem_singleton.mp hr]
          exact leggi_transmitting hperc caso buf (h.transmits i) lato

/-- Without losses asked for no channel ever stops transmitting. -/
theorem Intact.run (hperc : par.percentualeErrore ≤ 0) {c : Config}
    (run : Machine.Run (step par) Machine.Free (.avviato avvio) c) : Intact c.globals :=
  Machine.Run.invariant (I := fun c => Intact c.globals)
    (fun _ _ _ h _ hstep => h.stepped hperc hstep) run
    ⟨fun _ => rfl, fun _ h => absurd h List.not_mem_nil⟩

/-- With `PERCENTUALE_ERRORE` not above zero no channel ever stops transmitting, every body that
is read is forwarded and nothing else is, and what goes into the queue are these bodies, in their
order, each to the other side of its pair; the counters of losses stay at zero. -/
theorem lossless (hperc : par.percentualeErrore ≤ 0) {c : Config}
    (run : Machine.Run (step par) Machine.Free (.avviato avvio) c) :
    (∀ i, (c.globals.coppiafd i).statoTrasmissione = true) ∧
      (∀ r ∈ c.globals.ricevuti, r.ris = if Body r.buf then 3 else 0) ∧
      List.Forall₂
        (fun r p => p.buf = r.buf ∧ Addressed par (avvio.coppia r.coppia) r.lato.opposto p)
        (c.globals.ricevuti.filter fun r => Body r.buf) c.globals.accodati ∧
      c.globals.contatori.numscartati = 0 ∧ c.globals.contatori.numscartatiSenzaIcmp = 0 ∧
      c.globals.contatori.bytescartati = 0 := by
  have hintact := Intact.run hperc run
  have htallied := Tallied.run run
  have hris : ∀ r ∈ c.globals.ricevuti, r.ris = 3 ∧ Body r.buf ∨ r.ris = 0 ∧ ¬ Body r.buf := by
    intro r hr
    have h := hintact.verdicts r hr
    split at h
    next hbody => exact .inl ⟨h, hbody⟩
    next hbody => exact .inr ⟨h, hbody⟩
  have hcounted : ∀ n, n = 1 ∨ n = 2 → conta n c.globals.ricevuti = 0 := by
    intro n hn
    apply List.countP_eq_zero.mpr
    intro r hr
    rcases hris r hr with ⟨h, _⟩ | ⟨h, _⟩ <;> simp <;> omega
  have hlost : (c.globals.ricevuti.filter fun r => r.ris = 1 ∨ r.ris = 2) = [] := by
    apply List.filter_eq_nil_iff.mpr
    intro r hr
    rcases hris r hr with ⟨h, _⟩ | ⟨h, _⟩ <;> simp [h]
  refine ⟨hintact.transmits, hintact.verdicts, ?_, ?_⟩
  · have hsame : (c.globals.ricevuti.filter fun r => Body r.buf) =
        c.globals.ricevuti.filter (2 ≤ ·.ris) := by
      apply List.filter_congr
      intro r hr
      rcases hris r hr with ⟨h, hbody⟩ | ⟨h, hbody⟩ <;> simp [h, hbody]
    have hthree : ∀ r ∈ c.globals.ricevuti.filter (2 ≤ ·.ris), r.ris = 3 := by
      intro r hr
      obtain ⟨hr, htwo⟩ := List.mem_filter.mp hr
      rcases hris r hr with ⟨h, _⟩ | ⟨h, _⟩
      · exact h
      · simp [h] at htwo
    rw [hsame]
    refine ((List.forall₂_and_left _ _).mpr ⟨hthree, htallied.answered⟩).imp ?_
    rintro r p ⟨hr, ⟨_, hbuf, hto⟩ | ⟨htwo, _⟩⟩
    · exact ⟨hbuf, hto⟩
    · omega
  · rw [htallied.contatori_eq]
    have hbytes : lunghezza (fun ris => ris = 1 ∨ ris = 2) c.globals.ricevuti = 0 := by
      rw [lunghezza, hlost, List.map_nil, List.sum_nil]
    simp only [tally, hcounted 2 (.inr rfl), hcounted 1 (.inl rfl), hbytes]
    exact ⟨rfl, rfl, rfl⟩

/-- `burst` without errors, up to its last dispatch: pair 0 stays in transmission. -/
theorem burst_lossless_possible :
    (Machine.exec (step { parametriDefault with percentualeErrore := 0 }) Machine.Free
      (.avviato avvioDefault) burst.dropLast).isSome := by decide

/-- A run that would lose datagrams loses none when the percentage of losses is 0. -/
theorem lossless_burst :
    ((Machine.exec (step { parametriDefault with percentualeErrore := 0 }) Machine.Free
      (.avviato avvioDefault) burst.dropLast).get burst_lossless_possible).globals.contatori =
        ⟨3, 0, 0, 19, 0⟩ ∧
      ((Machine.exec (step { parametriDefault with percentualeErrore := 0 }) Machine.Free
        (.avviato avvioDefault) burst.dropLast).get
          burst_lossless_possible).globals.contatori.numscartati = 0 :=
  ⟨by decide, (lossless (by decide) (Machine.run_exec burst_lossless_possible)).2.2.2.1⟩

end GProxy.Ritardatore
