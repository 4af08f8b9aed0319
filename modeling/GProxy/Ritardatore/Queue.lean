import GProxy.Ritardatore.Timeval
import GProxy.Lib.StableInsert
import GProxy.Lib.Machine
import Mathlib.Data.List.Nodup

/-!
# The delay queue of the emulator

The list at `root`: `aggiungi_in_ordine` inserts before the first element `minore` calls later, and
the dispatch loop of `main` takes elements off the front while `minoreouguale` calls them due.

As long as no insertion meets an element that `minore` judges wrongly, the queue is ordered and
first in first out at each instant, so that the loop leaves nothing due behind (`queue_fifo`). One
such element is enough to break the order (`aggiungiInOrdine_not_ordered`).
-/

namespace GProxy.Ritardatore

open StableInsert

/-- `CMD_ADDPORT` and `CMD_SEND` -/
inductive Cmd
  | addPort
  | send
  deriving DecidableEq, Repr

/-- `ADDRESSSTRINGLEN` -/
abbrev addressStringLen : Nat := 32

/-- What a `char[ADDRESSSTRINGLEN]` holds: a string that fits it with the byte that ends it. So a
`strcpy` from one of these into another stays inside. -/
structure AddressString where
  string : String
  fits : string.utf8ByteSize < addressStringLen
  deriving DecidableEq, Repr

def AddressString.localhost : AddressString := ⟨"127.0.0.1", by decide⟩

/-- `ELEMENTOLISTA`, less the link. -/
structure Elemento where
  cmd : Cmd
  fd : Int
  portNumberLocal : UInt16
  portNumberDest : UInt16
  ipDest : AddressString
  buf : List UInt8
  timeout : Timeval
  deriving DecidableEq, Repr

/-- The element once a comparison has normalised its timeout. -/
def Elemento.normal (e : Elemento) : Elemento := { e with timeout := normalizza e.timeout }

/-- The instant an element is due, as the comparisons read it: that of its timeout once this is
normalised. -/
def Elemento.due (e : Elemento) : Int := e.timeout.istante

/-- An element that is to be sent, with microseconds that are not negative. -/
def Elemento.Timed (e : Elemento) : Prop := e.cmd = .send ∧ 0 ≤ e.timeout.tvUsec

instance (e : Elemento) : Decidable e.Timed :=
  inferInstanceAs (Decidable (e.cmd = .send ∧ 0 ≤ e.timeout.tvUsec))

/-- Each `minore` normalises both timeouts in place. -/
def aggiungiInOrdine (p : Elemento) : List Elemento → List Elemento
  | [] => [p]
  | e :: next =>
    if minore p.timeout e.timeout then p.normal :: e.normal :: next
    else e.normal :: aggiungiInOrdine p.normal next

/-- The dispatch loop of `main`. Each test of the loop reads the clock, so it gets one reading for
each; it answers `none` when the loop has not ended on them or ended before them. An element that
is not to be sent stays at the front, and is tested again. -/
def spedisciScaduti {σ : Type*} (spedisci : σ → Elemento → σ) :
    List Timeval → List Elemento → σ → Option (List Elemento × σ)
  | [], [], s => some ([], s)
  | now :: clock, e :: next, s =>
    if minoreouguale e.timeout now then
      match e.cmd with
      | .send => spedisciScaduti spedisci clock next (spedisci s e.normal)
      | .addPort => spedisciScaduti spedisci clock (e.normal :: next) s
    else if clock = [] then some (e.normal :: next, s) else none
  | [], _ :: _, _ => none
  | _ :: _, [], _ => none

/-! ## Comparisons change no instant -/

/-- Normalising a time in place does not change when the element is due. -/
@[simp] theorem due_normal (e : Elemento) : e.normal.due = e.due := istante_normalizza e.timeout

/-- Normalising twice is normalising once. -/
@[simp] theorem normal_normal (e : Elemento) : e.normal.normal = e.normal := by
  simp only [Elemento.normal, normalizza_normalizza]

/-- An element has a time that can be normalised before as after it was. -/
theorem timed_normal {e : Elemento} : e.normal.Timed ↔ e.Timed :=
  and_congr_right fun _ => normalizza_usec_nonneg

/-- `minore` normalises what it compares, so it answers the same for a time that was normalised
before, as those in the queue may have been. -/
theorem minore_normalizza (a b : Timeval) : minore (normalizza a) b = minore a b := by
  simp only [minore, normalizza_normalizza]

/-- The same for `minoreouguale`: the loop may test an element again after it was normalised. -/
theorem minoreouguale_normalizza (a b : Timeval) :
    minoreouguale (normalizza a) b = minoreouguale a b := by
  simp only [minoreouguale, normalizza_normalizza]

/-- Whether the new element was normalised by an earlier comparison makes no difference. -/
theorem map_aggiungiInOrdine_normal (p : Elemento) (root : List Elemento) :
    (aggiungiInOrdine p.normal root).map Elemento.normal =
      (aggiungiInOrdine p root).map Elemento.normal := by
  cases root with
  | nil => simp only [aggiungiInOrdine, List.map_cons, normal_normal]
  | cons e next =>
    have hcmp : minore p.normal.timeout e.timeout = minore p.timeout e.timeout :=
      minore_normalizza _ _
    simp only [aggiungiInOrdine, hcmp, normal_normal]

/-- Up to normalisation the insertion is the one before the first element `minore` calls later. -/
theorem map_aggiungiInOrdine (p : Elemento) (root : List Elemento) :
    (aggiungiInOrdine p root).map Elemento.normal =
      (root.orderedInsert (fun a b => minore a.timeout b.timeout = true) p).map
        Elemento.normal := by
  induction root with
  | nil => rfl
  | cons e next ih =>
    rw [aggiungiInOrdine, List.orderedInsert_cons]
    by_cases hlt : minore p.timeout e.timeout = true
    · simp only [if_pos hlt, List.map_cons, normal_normal]
    · rw [if_neg hlt, if_neg hlt, List.map_cons, List.map_cons, map_aggiungiInOrdine_normal, ih,
        normal_normal]

/-- Up to normalisation nothing but the new element comes in. -/
theorem mem_aggiungiInOrdine {p e : Elemento} {root : List Elemento}
    (he : e ∈ aggiungiInOrdine p root) : p.normal = e.normal ∨ ∃ x ∈ root, x.normal = e.normal := by
  have hmem := List.mem_map_of_mem (f := Elemento.normal) he
  rw [map_aggiungiInOrdine] at hmem
  obtain ⟨x, hx, hnormal⟩ := List.mem_map.mp hmem
  rcases (List.mem_orderedInsert _).mp hx with rfl | hx
  · exact .inl hnormal
  · exact .inr ⟨x, hx, hnormal⟩

/-- An insertion makes the queue longer by one. -/
theorem length_aggiungiInOrdine (p : Elemento) (root : List Elemento) :
    (aggiungiInOrdine p root).length = root.length + 1 := by
  have hlen := congrArg List.length (map_aggiungiInOrdine p root)
  rwa [List.length_map, List.length_map, List.orderedInsert_length] at hlen

/-- Where `minore` judges rightly the insertion is the one by instants. -/
theorem map_aggiungiInOrdine_eq {p : Elemento} {root : List Elemento} (hp : 0 ≤ p.timeout.tvUsec)
    (hroot : ∀ e ∈ root, 0 ≤ e.timeout.tvUsec)
    (hright : ∀ e ∈ root, straddles p.timeout e.timeout = false) :
    (aggiungiInOrdine p root).map Elemento.normal =
      insert Elemento.due p.normal (root.map Elemento.normal) := by
  rw [map_aggiungiInOrdine]
  apply map_orderedInsert_eq
  intro e he
  rw [minore_iff hp (hroot e he), hright e he, due_normal, due_normal]
  simp only [Bool.false_eq_true, or_false]
  rfl

/-- Whether the queue is in order does not depend on which of its times were normalised. -/
theorem ordered_map_normal {root : List Elemento} :
    Ordered Elemento.due (root.map Elemento.normal) ↔ Ordered Elemento.due root := by
  simp only [Ordered, List.pairwise_map, due_normal]

/-- One element that `minore` judges wrongly is enough: the new one goes before it, or before an
earlier one, though it is due later. -/
theorem aggiungiInOrdine_not_ordered {p e : Elemento} {root : List Elemento}
    (hp : 0 ≤ p.timeout.tvUsec) (he : e ∈ root) (heu : 0 ≤ e.timeout.tvUsec)
    (hwrong : straddles p.timeout e.timeout = true) :
    ¬ Ordered Elemento.due (aggiungiInOrdine p root) := by
  rw [← ordered_map_normal, map_aggiungiInOrdine, ordered_map_normal]
  exact not_ordered_orderedInsert he ((minore_iff hp heu).mpr (.inr hwrong))
    (istante_lt_of_straddles hp heu hwrong)

/-! ## The dispatch loop -/

/-- What the loop does when it ends: it takes elements that are to be sent off the front, and
stops at an empty queue or at an element not due at the last reading of the clock. -/
theorem spedisciScaduti_spec {σ : Type*} {spedisci : σ → Elemento → σ} {clock : List Timeval}
    {root root' : List Elemento} {s s' : σ}
    (h : spedisciScaduti spedisci clock root s = some (root', s')) :
    ∃ removed, root.map Elemento.normal = removed ++ root'.map Elemento.normal ∧
      removed.foldl spedisci s = s' ∧ (∀ e ∈ removed, e.cmd = .send) ∧
      ∀ e ∈ root'.head?, ∃ now, clock.getLast? = some now ∧
        minoreouguale e.timeout now = false := by
  induction clock generalizing root s with
  | nil =>
    cases root with
    | nil =>
      cases h
      exact ⟨[], rfl, rfl, (fun _ he => nomatch he), (fun _ he => nomatch he)⟩
    | cons e next => cases h
  | cons now clock ih =>
    have hlater {x : Timeval} (hx : clock.getLast? = some x) :
        (now :: clock).getLast? = some x := by
      rw [List.getLast?_cons, hx]
      rfl
    cases root with
    | nil => cases h
    | cons e next =>
      unfold spedisciScaduti at h
      split at h
      next hdue =>
        split at h
        next hcmd =>
          obtain ⟨removed, hsplit, hfold, hsend, hstop⟩ := ih h
          refine ⟨e.normal :: removed, ?_, hfold, ?_, ?_⟩
          · rw [List.map_cons, hsplit, List.cons_append]
          · intro x hx
            rcases List.mem_cons.mp hx with rfl | hx
            · exact hcmd
            · exact hsend x hx
          · intro x hx
            obtain ⟨t, ht, hlate⟩ := hstop x hx
            exact ⟨t, hlater ht, hlate⟩
        next hcmd =>
          obtain ⟨removed, hsplit, hfold, hsend, hstop⟩ := ih h
          refine ⟨removed, ?_, hfold, hsend, ?_⟩
          · rw [List.map_cons, normal_normal] at hsplit
            rw [List.map_cons, hsplit]
          · intro x hx
            obtain ⟨t, ht, hlate⟩ := hstop x hx
            exact ⟨t, hlater ht, hlate⟩
      next hnot =>
        split at h
        next hend =>
          cases h
          refine ⟨[], ?_, rfl, (fun _ he => nomatch he), ?_⟩
          · rw [List.nil_append, List.map_cons, List.map_cons, normal_normal]
          · intro x hx
            cases hx
            refine ⟨now, by rw [hend]; rfl, ?_⟩
            exact (minoreouguale_normalizza e.timeout now).trans (Bool.eq_false_of_not_eq_true hnot)
        next => cases h

/-- What the loop takes off was normalised by its test. -/
theorem map_normal_removed {root removed rest : List Elemento}
    (hsplit : root.map Elemento.normal = removed ++ rest) :
    removed.map Elemento.normal = removed := by
  refine (List.map_congr_left fun e he => ?_).trans (List.map_id _)
  obtain ⟨x, _, rfl⟩ := List.mem_map.mp (hsplit ▸ List.mem_append_left rest he)
  exact normal_normal x

/-- Over elements that are to be sent the loop ends, whatever the clock does. -/
theorem spedisciScaduti_total {σ : Type*} (spedisci : σ → Elemento → σ) {root : List Elemento}
    (hsend : ∀ e ∈ root, e.cmd = .send) (clock : ℕ → Timeval) (s : σ) :
    ∃ n, (spedisciScaduti spedisci ((List.range n).map clock) root s).isSome := by
  induction root generalizing clock s with
  | nil => exact ⟨0, rfl⟩
  | cons e next ih =>
    by_cases hdue : minoreouguale e.timeout (clock 0) = true
    · obtain ⟨n, hn⟩ := ih (fun x hx => hsend x (List.mem_cons_of_mem _ hx))
        (fun i => clock (i + 1)) (spedisci s e.normal)
      refine ⟨n + 1, ?_⟩
      have hclock : (List.range (n + 1)).map clock =
          clock 0 :: (List.range n).map fun i => clock (i + 1) := by
        rw [List.range_succ_eq_map, List.map_cons, List.map_map]
        rfl
      have hcmd : e.cmd = .send := hsend e List.mem_cons_self
      rw [hclock, spedisciScaduti, if_pos hdue, hcmd]
      exact hn
    · refine ⟨1, ?_⟩
      have hclock : (List.range 1).map clock = [clock 0] := rfl
      rw [hclock, spedisciScaduti, if_neg hdue, if_pos rfl]
      rfl

/-- What the loop does to its state, seen through a map, is the loop on what is seen. -/
theorem spedisciScaduti_map {σ τ : Type*} {spedisci : σ → Elemento → σ}
    {spedisci' : τ → Elemento → τ} {view : σ → τ}
    (hview : ∀ s e, view (spedisci s e) = spedisci' (view s) e) (clock : List Timeval)
    (root : List Elemento) (s : σ) :
    spedisciScaduti spedisci' clock root (view s) =
      (spedisciScaduti spedisci clock root s).map (Prod.map id view) := by
  induction clock generalizing root s with
  | nil => cases root <;> rfl
  | cons now clock ih =>
    cases root with
    | nil => rfl
    | cons e next =>
      rw [spedisciScaduti, spedisciScaduti]
      split
      next =>
        split
        next => rw [← hview, ih]
        next => rw [ih]
      next => split <;> rfl

/-! ## The queue over a run -/

/-- The queue with the histories of what was inserted and of what was dispatched. -/
structure Queue where
  root : List Elemento
  entered : List Elemento
  left : List Elemento
  deriving DecidableEq, Repr

def Queue.initial : Queue := ⟨[], [], []⟩

inductive Queue.Event
  | aggiungi (p : Elemento)
  | spedisci (clock : List Timeval)
  deriving DecidableEq, Repr

def Queue.step (q : Queue) : Queue.Event → Option Queue
  | .aggiungi p => some { q with root := aggiungiInOrdine p q.root, entered := q.entered ++ [p] }
  | .spedisci clock =>
    (spedisciScaduti (fun left e => left ++ [e]) clock q.root q.left).map fun (root, left) =>
      { q with root, left }

/-- Only elements that are to be sent go in, and the clock has microseconds that are not
negative. -/
def Timed (_ : Queue) : Queue.Event → Prop
  | .aggiungi p => p.Timed
  | .spedisci clock => ∀ now ∈ clock, 0 ≤ now.tvUsec

instance (q : Queue) : ∀ e, Decidable (Timed q e)
  | .aggiungi p => inferInstanceAs (Decidable p.Timed)
  | .spedisci clock => inferInstanceAs (Decidable (∀ now ∈ clock, 0 ≤ now.tvUsec))

/-- Besides, no element of the queue is in an earlier second, with more microseconds, than one that
goes in: `minore` judges all it is asked rightly. -/
def Untangled (q : Queue) (e : Queue.Event) : Prop :=
  Timed q e ∧ match e with
    | .aggiungi p => ∀ x ∈ q.root, straddles p.timeout x.timeout = false
    | .spedisci _ => True

instance (q : Queue) : ∀ e, Decidable (Untangled q e)
  | .aggiungi p =>
    inferInstanceAs (Decidable (_ ∧ ∀ x ∈ q.root, straddles p.timeout x.timeout = false))
  | .spedisci _ => inferInstanceAs (Decidable (_ ∧ True))

/-- The invariant of a run: up to normalisation the queue is first in first out at each instant. -/
structure Queue.InTurn (q : Queue) : Prop where
  fifo : Fifo Elemento.due (q.entered.map Elemento.normal) (q.left.map Elemento.normal)
    (q.root.map Elemento.normal)
  root_timed : ∀ e ∈ q.root, e.Timed

/-- The empty queue is in turn. -/
theorem Queue.InTurn.initial : Queue.initial.InTurn := ⟨.initial, fun _ h => nomatch h⟩

/-- A queue whose elements are those of another up to normalisation is timed with it. -/
theorem timed_of_map {root root' : List Elemento}
    (h : ∀ e ∈ root'.map Elemento.normal, ∃ x ∈ root, e = x.normal)
    (hroot : ∀ e ∈ root, e.Timed) : ∀ e ∈ root', e.Timed := by
  intro e he
  obtain ⟨x, hx, heq⟩ := h _ (List.mem_map_of_mem he)
  rw [← timed_normal, heq, timed_normal]
  exact hroot x hx

/-- An insertion that `minore` judges rightly keeps the queue in turn. -/
theorem Queue.InTurn.aggiungi {q : Queue} (h : q.InTurn) {p : Elemento} (hp : p.Timed)
    (hright : ∀ x ∈ q.root, straddles p.timeout x.timeout = false) :
    Queue.InTurn { q with root := aggiungiInOrdine p q.root, entered := q.entered ++ [p] } := by
  have hmap := map_aggiungiInOrdine_eq hp.2 (fun e he => (h.root_timed e he).2) hright
  refine ⟨?_, ?_⟩
  · rw [hmap, List.map_append, List.map_singleton]
    exact h.fifo.enter p.normal
  · have htimed : ∀ e ∈ p :: q.root, e.Timed := by
      intro e he
      rcases List.mem_cons.mp he with rfl | he
      · exact hp
      · exact h.root_timed e he
    refine timed_of_map ?_ htimed
    intro e he
    rw [hmap] at he
    rcases (List.mem_orderedInsert _).mp he with rfl | he
    · exact ⟨p, List.mem_cons_self, rfl⟩
    · obtain ⟨x, hx, rfl⟩ := List.mem_map.mp he
      exact ⟨x, List.mem_cons_of_mem _ hx, rfl⟩

/-- Appending one by one is appending. -/
theorem foldl_concat {α : Type*} (xs left : List α) :
    xs.foldl (fun left e => left ++ [e]) left = left ++ xs := by
  induction xs generalizing left with
  | nil => rw [List.foldl_nil, List.append_nil]
  | cons x xs ih => rw [List.foldl_cons, ih, List.append_assoc, List.singleton_append]

/-- What the dispatch loop does to the queue and its history. -/
theorem Queue.step_spedisci {q q' : Queue} {clock : List Timeval}
    (h : q.step (.spedisci clock) = some q') :
    ∃ removed, q.root.map Elemento.normal = removed ++ q'.root.map Elemento.normal ∧
      q'.left = q.left ++ removed ∧ q'.entered = q.entered ∧
      ∀ e ∈ q'.root.head?, ∃ now, clock.getLast? = some now ∧
        minoreouguale e.timeout now = false := by
  obtain ⟨⟨root, left⟩, hloop, rfl⟩ := Option.map_eq_some_iff.mp h
  obtain ⟨removed, hsplit, hfold, _, hstop⟩ := spedisciScaduti_spec hloop
  exact ⟨removed, hsplit, by rw [← hfold, foldl_concat], rfl, hstop⟩

/-- What went in came out or is still there, whatever the order. -/
theorem Queue.perm_of_run {q : Queue} (run : Machine.Run Queue.step Machine.Free .initial q) :
    (q.entered.map Elemento.normal).Perm ((q.left ++ q.root).map Elemento.normal) := by
  refine Machine.Run.invariant
    (I := fun q : Queue => (q.entered.map Elemento.normal).Perm
      ((q.left ++ q.root).map Elemento.normal)) ?_ run (.refl _)
  intro q e q' h _ hstep
  cases e with
  | aggiungi p =>
    cases hstep
    have hinsert : ((aggiungiInOrdine p q.root).map Elemento.normal).Perm
        (p.normal :: q.root.map Elemento.normal) := by
      rw [map_aggiungiInOrdine]
      exact (List.perm_orderedInsert _ p q.root).map Elemento.normal
    rw [List.map_append] at h
    rw [List.map_append, List.map_append, List.map_singleton]
    calc q.entered.map Elemento.normal ++ [p.normal]
        _ |>.Perm (p.normal :: q.entered.map Elemento.normal) := List.perm_append_singleton _ _
        _ |>.Perm (p.normal :: (q.left.map Elemento.normal ++ q.root.map Elemento.normal)) :=
          h.cons _
        _ |>.Perm (q.left.map Elemento.normal ++ p.normal :: q.root.map Elemento.normal) :=
          List.perm_middle.symm
        _ |>.Perm (q.left.map Elemento.normal ++ (aggiungiInOrdine p q.root).map Elemento.normal) :=
          hinsert.symm.append_left _
  | spedisci clock =>
    obtain ⟨removed, hsplit, hleft, hentered, _⟩ := Queue.step_spedisci hstep
    rw [List.map_append, hsplit] at h
    rw [hentered, hleft, List.map_append, List.map_append, map_normal_removed hsplit,
      List.append_assoc]
    exact h

/-- The dispatch loop takes elements off the front and so keeps the queue in turn. -/
theorem Queue.InTurn.spedisci {q q' : Queue} (h : q.InTurn) {clock : List Timeval}
    (hstep : q.step (.spedisci clock) = some q') : q'.InTurn := by
  obtain ⟨removed, hsplit, hleft, hentered, _⟩ := Queue.step_spedisci hstep
  refine ⟨?_, timed_of_map ?_ h.root_timed⟩
  · rw [hentered, hleft, List.map_append, map_normal_removed hsplit]
    exact Fifo.leave (hsplit ▸ h.fifo)
  · intro e he
    obtain ⟨x, hx, rfl⟩ := List.mem_map.mp (hsplit ▸ List.mem_append_right removed he)
    exact ⟨x, hx, rfl⟩

/-- Over every run whose insertions are judged rightly the queue is in turn. -/
theorem Queue.InTurn.run {q : Queue}
    (run : Machine.Run Queue.step Untangled .initial q) : q.InTurn := by
  refine Machine.Run.invariant (I := Queue.InTurn) ?_ run .initial
  intro q e q' h hallow hstep
  cases e with
  | aggiungi p =>
    cases hstep
    exact h.aggiungi hallow.1 hallow.2
  | spedisci clock => exact h.spedisci hstep

/-- As long as `minore` judges rightly, the queue is ordered by instants, it is first in first out
at each instant, and it holds exactly what was inserted and not dispatched. The dispatch loop ends,
and leaves nothing that is due at its last reading of the clock. -/
theorem queue_fifo {q : Queue} (run : Machine.Run Queue.step Untangled .initial q) :
    Ordered Elemento.due q.root ∧
      (∀ k, (q.entered.map Elemento.normal).filter (·.due = k) =
        ((q.left ++ q.root).map Elemento.normal).filter (·.due = k)) ∧
      (q.entered.map Elemento.normal).Perm ((q.left ++ q.root).map Elemento.normal) ∧
      (∀ clock now q', Timed q (.spedisci (clock ++ [now])) →
        q.step (.spedisci (clock ++ [now])) = some q' → ∀ e ∈ q'.root, now.istante < e.due) ∧
      ∀ clock : ℕ → Timeval, ∃ n, (q.step (.spedisci ((List.range n).map clock))).isSome := by
  have h := Queue.InTurn.run run
  refine ⟨ordered_map_normal.mp h.fifo.ordered, ?_, ?_, ?_, ?_⟩
  · intro k
    rw [List.map_append]
    exact h.fifo.split k
  · exact Queue.perm_of_run (run.mono fun _ _ _ => trivial)
  · intro clock now q' hclock hstep e he
    have h' := h.spedisci hstep
    have hord := ordered_map_normal.mp h'.fifo.ordered
    obtain ⟨_, _, _, _, hstop⟩ := Queue.step_spedisci hstep
    cases hroot : q'.root with
    | nil =>
      rw [hroot] at he
      cases he
    | cons x xs =>
      obtain ⟨t, ht, hlate⟩ := hstop x (by rw [hroot]; rfl)
      obtain rfl : now = t := by simpa using ht
      have hx : x.Timed := h'.root_timed x (hroot ▸ List.mem_cons_self)
      have hnow : 0 ≤ now.tvUsec := hclock now (List.mem_append_right _ (List.mem_singleton_self _))
      have hlt : now.istante < x.due := by
        rw [← Bool.not_eq_true, minoreouguale_iff hx.2 hnow] at hlate
        exact not_le.mp hlate
      rw [hroot] at he hord
      rcases List.mem_cons.mp he with rfl | he
      · exact hlt
      · exact lt_of_lt_of_le hlt ((ordered_cons.mp hord).1 e he)
  · intro clock
    obtain ⟨n, hn⟩ := spedisciScaduti_total (fun left e => left ++ [e])
      (fun e he => (h.root_timed e he).1) clock q.left
    refine ⟨n, ?_⟩
    rw [Queue.step, Option.isSome_map]
    exact hn

/-- An element due at an instant. -/
def dueAt (tvSec tvUsec : Long) : Elemento :=
  ⟨.send, 4, 62000, 63000, .localhost, [0, 0, 0, 1, 66, 7], ⟨tvSec, tvUsec⟩⟩

/-- Three elements, two of them due at one instant, and the loop run when these are due. -/
def untangled : List Queue.Event :=
  [.aggiungi (dueAt 2 600000), .aggiungi (dueAt 1 500000), .aggiungi (dueAt 0 1500000),
    .spedisci [⟨1, 500000⟩, ⟨1, 500001⟩, ⟨1, 500002⟩]]

/-- The run can be made. -/
theorem untangled_possible :
    (Machine.exec Queue.step Untangled .initial untangled).isSome := by decide

/-- A run with elements due at different instants. -/
theorem queue_fifo_untangled :
    Ordered Elemento.due
      ((Machine.exec Queue.step Untangled .initial untangled).get untangled_possible).root :=
  (queue_fifo (Machine.run_exec untangled_possible)).1

/-- An element due half a second into second 1, and one due early in second 2. -/
def crossed : List Queue.Event := [.aggiungi (dueAt 1 500000), .aggiungi (dueAt 2 100000)]

/-- The run can be made. -/
theorem crossed_possible : (Machine.exec Queue.step Timed .initial crossed).isSome := by decide

/-- Not every run keeps the queue ordered: the element due in second 2 goes in front. -/
theorem queue_disordered :
    ¬ ∀ q, Machine.Run Queue.step Timed .initial q → Ordered Elemento.due q.root := by
  intro h
  exact absurd (h _ (Machine.run_exec crossed_possible)) (by decide)

end GProxy.Ritardatore
