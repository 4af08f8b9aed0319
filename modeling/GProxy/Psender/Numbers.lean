import GProxy.Psender.Pass

/-!
# The numbers of the data packets

`currentId` starts behind the reserved number 0 and is incremented with every chunk that is read,
without a test, so the packet read as number `n` gets `n` modulo 2³². Every packet appended has a
number that is neither reserved nor in use if and only if fewer than 2³² chunks are read
(`ids_fresh_iff`): the next one gets the number of the end marker.
-/

namespace GProxy.Psender

variable {maxPackets : Nat}

/-- A data packet appended by `receiveFromSender`: its number, and the numbers in the list then. -/
def appended (c : Config) (e : Event) (c' : Config) : List (UInt32 × List UInt32) :=
  match c'.pc, e with
  | .reading _, .read outcomes past =>
    match doWhile readAgain outcomes with
    | some (.data (b :: bs), _) =>
      [((bodyNode c.globals (b :: bs) past).1.packet.id,
        c.globals.toSend.nodes.map fun n => n.packet.id)]
    | _ => []
  | _, _ => []

/-- What a step does to the counter, and what is observed of it. -/
inductive Counts (maxPackets : Nat) (c : Config) (e : Event) (c' : Config) : Prop
  | none : appended c e c' = [] → c'.globals.created = c.globals.created →
      c'.globals.currentId = c.globals.currentId → Counts maxPackets c e c'
  | one {payload : List UInt8} : c.globals.reads maxPackets = true →
      appended c e c' = [(c.globals.currentId, c.globals.toSend.nodes.map fun n => n.packet.id)] →
      c'.globals.created = c.globals.created ++ [(c.globals.currentId, payload)] →
      c'.globals.currentId = c.globals.currentId + 1 → Counts maxPackets c e c'

/-- Every step appends a packet with the number of the counter and counts on, or appends no body at
all. -/
theorem Stepped.counts {c c' : Config} {e : Event} (st : Stepped maxPackets c e c') :
    Counts maxPackets c e c' := by
  cases st with
  | read hreads hwhile hg =>
    cases reads_of_ok hg with
    | ended =>
      refine .none ?_ rfl rfl
      simp only [appended, hwhile]
    | interrupted =>
      refine .none ?_ rfl rfl
      simp only [appended, hwhile]
    | @body bytes hne =>
      obtain ⟨b, bs, rfl⟩ := List.exists_cons_of_ne_nil hne
      refine .one hreads ?_ rfl rfl
      simp only [appended, hwhile]
      rfl
  | send hsend => cases hsend; exact .none rfl rfl rfl
  | check hc hg => cases checks_of_ok hg <;> exact .none rfl rfl rfl
  | @select g outcome pc hpc =>
    refine .none ?_ rfl rfl
    cases pc <;> rfl
  | @filled g ritardatore hr =>
    refine .none ?_ rfl rfl
    cases ritardatore <;> rfl
  | scan | scanned | timeout | checked | allSent | again => exact .none rfl rfl rfl
  | error => exact .none rfl rfl rfl

/-! ## The numbers wrap -/

/-- The packet appended at place `i` has number `i + 1` modulo 2³². -/
def Numbered (g : Globals) (history : List (UInt32 × List UInt32)) : Prop :=
  history.map Prod.fst = (List.range history.length).map (fun i => UInt32.ofNat (i + 1)) ∧
    g.currentId = UInt32.ofNat (history.length + 1) ∧ history.length = g.created.length

/-- Each step goes on numbering where the one before stopped, also where the counter wraps. -/
theorem Numbered.stepped {c c' : Config} {e : Event} {history : List (UInt32 × List UInt32)}
    (h : Numbered c.globals history) (st : Stepped maxPackets c e c') :
    Numbered c'.globals (history ++ appended c e c') := by
  obtain ⟨hids, hcur, hlen⟩ := h
  cases st.counts with
  | none happended hcreated hcurrent =>
    rw [happended, List.append_nil]
    exact ⟨hids, hcurrent.trans hcur, by rw [hcreated]; exact hlen⟩
  | one _ happended hcreated hcurrent =>
    refine ⟨?_, ?_, ?_⟩
    · rw [happended, List.map_append, hids, List.length_append, List.length_singleton,
        List.range_succ, List.map_append, List.map_singleton, List.map_singleton, hcur]
    · rw [happended, hcurrent, hcur, List.length_append, List.length_singleton,
        UInt32.ofNat_add (history.length + 1)]
      rfl
    · rw [happended, hcreated, List.length_append, List.length_append, hlen]
      rfl

/-- The history of a run numbers its packets in a row, whatever arrives. -/
theorem numbered_run {c : Config} {history : List (UInt32 × List UInt32)}
    (run : Machine.Run (Machine.recording (step maxPackets) appended)
      (Machine.Recorded Machine.Free) (.initial, []) (c, history)) :
    Numbered c.globals history := by
  have init : Numbered Config.initial.globals [] := ⟨rfl, rfl, rfl⟩
  refine Machine.Run.recorded_invariant (I := fun c history => Numbered c.globals history) ?_
    run init
  intro s e t history hs _ hstep
  exact hs.stepped (stepped_of_step hstep)

/-- After 2³² chunks one of the packets has the reserved number. -/
theorem Numbered.reserved {g : Globals} {history : List (UInt32 × List UInt32)}
    (h : Numbered g history) (hlen : 2 ^ 32 ≤ history.length) : ∃ p ∈ history, p.1 = 0 := by
  have hlt : 2 ^ 32 - 1 < history.length := by omega
  have hget : (history.map Prod.fst)[2 ^ 32 - 1]? = some (UInt32.ofNat (2 ^ 32 - 1 + 1)) := by
    rw [h.1, List.getElem?_map, List.getElem?_range hlt]
    rfl
  obtain ⟨p, hp, hzero⟩ := List.mem_map.mp (List.mem_of_getElem? hget)
  exact ⟨p, hp, hzero.trans (by rfl)⟩

/-! ## Before they do -/

/-- A number that is neither reserved nor in use. -/
def Fresh (p : UInt32 × List UInt32) : Prop := p.1 ≠ 0 ∧ p.1 ∉ p.2

/-- While the counter has not come round, what it holds is fresh. -/
theorem Windowed.fresh {g : Globals} (h : Windowed maxPackets g)
    (hreads : g.reads maxPackets = true) :
    Fresh (g.currentId, g.toSend.nodes.map fun n => n.packet.id) := by
  obtain ⟨data, tail, hparts⟩ := h.parts
  have hcur := h.currentId_eq
  refine ⟨?_, ?_⟩
  · intro hzero
    have hnat : g.currentId.toNat = 0 := congrArg UInt32.toNat hzero
    omega
  · intro hmem
    obtain ⟨n, hn, hid⟩ := List.mem_map.mp hmem
    rw [hparts.nodes_eq, hparts.tail_eq_nil hreads, List.append_nil] at hn
    have hlt := ((h.data_ids hparts).2 n hn).2
    exact absurd (congrArg UInt32.toNat hid) (Nat.ne_of_lt hlt)

/-- The invariant of the packets appended, for as long as there are fewer than 2³². -/
def AllFresh (maxPackets : Nat) (g : Globals) (history : List (UInt32 × List UInt32)) : Prop :=
  (g.created.length < 2 ^ 32 - 1 → Windowed maxPackets g) ∧
    (g.created.length < 2 ^ 32 → ∀ p ∈ history, Fresh p)

/-- Each step keeps it: as long as the counter has not come round, the number it gives is that of no
packet in the list. -/
theorem AllFresh.stepped {c c' : Config} {e : Event} {history : List (UInt32 × List UInt32)}
    (h : AllFresh maxPackets c.globals history) (st : Stepped maxPackets c e c') :
    AllFresh maxPackets c'.globals (history ++ appended c e c') := by
  obtain ⟨hwindow, hfresh⟩ := h
  have hle := created_length_le st
  refine ⟨fun hfew => (hwindow (hle.trans_lt hfew)).stepped hfew st, ?_⟩
  intro hfew p hp
  cases st.counts with
  | none happended _ _ =>
    rw [happended, List.append_nil] at hp
    exact hfresh (hle.trans_lt hfew) p hp
  | one hreads happended hcreated _ =>
    rw [happended] at hp
    rcases List.mem_append.mp hp with hp | hp
    · exact hfresh (hle.trans_lt hfew) p hp
    · -- the chunk with the last number is still read in a state where the window is known
      rw [hcreated, List.length_append, List.length_singleton] at hfew
      rw [List.mem_singleton.mp hp]
      exact (hwindow (by omega)).fresh hreads

/-- In a run of fewer than 2³² chunks every number given was fresh. -/
theorem allFresh_run {c : Config} {history : List (UInt32 × List UInt32)}
    (run : Machine.Run (Machine.recording (step maxPackets) appended)
      (Machine.Recorded Machine.Free) (.initial, []) (c, history)) :
    AllFresh maxPackets c.globals history := by
  have init : AllFresh maxPackets Config.initial.globals [] :=
    ⟨fun _ => .initial, fun _ _ h => nomatch h⟩
  refine Machine.Run.recorded_invariant
    (I := fun c history => AllFresh maxPackets c.globals history) ?_ run init
  intro s e t history hs _ hstep
  exact hs.stepped (stepped_of_step hstep)

/-- Every data packet appended in a run has a number that is not the reserved one and not that of
a node still in the list, exactly when fewer than 2³² are appended. -/
theorem ids_fresh_iff {c : Config} {history : List (UInt32 × List UInt32)}
    (run : Machine.Run (Machine.recording (step maxPackets) appended)
      (Machine.Recorded Machine.Free) (.initial, []) (c, history)) :
    (∀ p ∈ history, p.1 ≠ 0 ∧ p.1 ∉ p.2) ↔ history.length < 2 ^ 32 := by
  constructor
  · intro hall
    refine Nat.lt_of_not_le fun hlen => ?_
    obtain ⟨p, hp, hzero⟩ := (numbered_run run).reserved hlen
    exact (hall p hp).1 hzero
  · intro hfew
    rw [(numbered_run run).2.2] at hfew
    exact (allFresh_run run).2 hfew

/-! ## A run that comes round -/

/-- `n` chunks were read, and each was acknowledged before the next. -/
structure Drained (g : Globals) (n : Nat) : Prop where
  toSend_eq : g.toSend = allocHead
  currentId_eq : g.currentId = UInt32.ofNat (n + 1)
  endingRead_eq : g.endingRead = false
  finalize_eq : g.finalize = false
  created_eq : g.created.length = n

/-- The globals after a byte was read. -/
def readOne (g : Globals) : Globals :=
  { g with
    toSend := appendNode g.toSend (bodyNode g [7] []).1
    heap := (bodyNode g [7] []).2
    currentId := g.currentId + 1
    created := g.created ++ [(g.currentId, [7])] }

/-- With nothing in the list the next byte is read. -/
theorem Drained.read {g : Globals} {n : Nat} (h : Drained g n) :
    Machine.Run (step 1) Machine.Free ⟨.top, g⟩ ⟨.reading false, readOne g⟩ := by
  have hroom : g.toSend.nodes.length ≤ 1 := by
    rw [h.toSend_eq]
    exact Nat.zero_le 1
  have hpass : g.afterPass g.toSend.nodes = g := by
    rw [h.toSend_eq]
    exact g.afterPass_nil
  have hreads : g.reads 1 = true := by
    rw [reads_iff, h.toSend_eq]
    exact ⟨by decide, h.endingRead_eq⟩
  have run : Machine.Run (step 1) Machine.Free ⟨.top, g⟩
      ⟨.selecting, g.afterPass g.toSend.nodes⟩ :=
    pass_runs (fun _ => trivial) (fun _ => trivial) hroom
  rw [hpass] at run
  have hopen : selectable g.endingRead true false = true := by rw [h.endingRead_eq]; rfl
  exact (run.tail ⟨.select (.ready true false), trivial, step_select hopen⟩).tail
    ⟨.read [.data [7]] [], trivial, step_read false hreads rfl⟩

/-- A byte read into an empty list is its only packet. -/
theorem Drained.readOne_toSend {g : Globals} {n : Nat} (h : Drained g n) :
    (readOne g).toSend = ⟨[(bodyNode g [7] []).1], 1⟩ := by
  simp only [readOne, h.toSend_eq]
  rfl

/-- The acknowledgement of the only node of the list. -/
theorem acknowledge_only {g : Globals} {node : Node} (htoSend : g.toSend = ⟨[node], 1⟩)
    (hid : ackedId g.currentAck = node.packet.id) :
    acknowledge g = { g with toSend := allocHead, heap := clearNode g.heap node } := by
  have hsearch : searchNodeById g.toSend (ackedId g.currentAck) = some node := by
    rw [htoSend, hid]
    exact List.find?_cons_of_pos (decide_eq_true rfl)
  have hremove : removeNode g.toSend node = allocHead := by
    rw [htoSend, removeNode, List.erase_cons_head]
    rfl
  simp only [acknowledge, removeNodeById, hsearch, hremove]

/-- Where the byte was read and its acknowledgement came. -/
def ackedOne (g : Globals) : Globals :=
  let s := (readOne g).afterPass (readOne g).toSend.nodes
  { s with
    currentAck := overlay (ackImage [] g.currentId) s.currentAck
    toSend := allocHead
    heap := clearNode s.heap (bodyNode g [7] []).1 }

/-- Until the counter is at the reserved number, the next byte is read, sent and acknowledged. -/
theorem Drained.next {g : Globals} {n : Nat} (h : Drained g n) (hn : n + 1 < 2 ^ 32) :
    Drained (ackedOne g) (n + 1) where
  toSend_eq := rfl
  currentId_eq := by
    show g.currentId + 1 = UInt32.ofNat (n + 1 + 1)
    rw [h.currentId_eq, UInt32.ofNat_add (n + 1)]
    rfl
  endingRead_eq := h.endingRead_eq
  finalize_eq := by
    have hid : g.currentId ≠ 0 := by
      intro hzero
      have hnat : (UInt32.ofNat (n + 1)).toNat = 0 :=
        congrArg UInt32.toNat (h.currentId_eq.symm.trans hzero)
      rw [UInt32.toNat_ofNat_of_lt' hn] at hnat
      omega
    have hhton : htonl g.currentId ≠ 0 := fun hzero => hid (htonl_eq_zero_iff.mp hzero)
    show (g.finalize || (readOne g).toSend.nodes.any fun n => htonl n.packet.id = 0) = false
    rw [h.finalize_eq, h.readOne_toSend]
    simp only [bodyNode, allocNode, List.any_cons, List.any_nil, hhton, decide_false, Bool.or_false]
  created_eq := by
    show (g.created ++ [(g.currentId, [7])]).length = n + 1
    rw [List.length_append, h.created_eq]
    rfl

/-- The list is full: the loop leaves the reading of the sender's socket. -/
theorem Drained.full {g : Globals} {n : Nat} (h : Drained g n) :
    Machine.Run (step 1) Machine.Free ⟨.reading false, readOne g⟩ ⟨.top, readOne g⟩ := by
  have hreads : (readOne g).reads 1 = false := by
    rw [Globals.reads, h.readOne_toSend]
    rfl
  have hallSent : (readOne g).allSent = false := by
    rw [Globals.allSent, h.readOne_toSend]
    rfl
  exact .head ⟨.go, trivial, step_filled false hreads⟩
    (.single ⟨.go, trivial, step_again hallSent⟩)

/-- The packet is sent and its acknowledgement read. -/
theorem Drained.acked {g : Globals} {n : Nat} (h : Drained g n) :
    Machine.Run (step 1) Machine.Free ⟨.top, readOne g⟩ ⟨.checking 1, ackedOne g⟩ := by
  have hroom : (readOne g).toSend.nodes.length ≤ 1 := by
    rw [h.readOne_toSend]
    exact le_rfl
  have hchecked : checkRitardatore ((readOne g).afterPass (readOne g).toSend.nodes)
      (.data (ackImage [] g.currentId)) = .ok (ackedOne g) := by
    rw [checkRitardatore_ackImage]
    exact congrArg Except.ok (acknowledge_only h.readOne_toSend (ackedId_ackImage _ _ _))
  have run : Machine.Run (step 1) Machine.Free ⟨.top, readOne g⟩
      ⟨.selecting, (readOne g).afterPass (readOne g).toSend.nodes⟩ :=
    pass_runs (fun _ => trivial) (fun _ => trivial) hroom
  exact (run.tail ⟨.select (.ready false true), trivial, rfl⟩).tail
    ⟨_, trivial, step_check Nat.zero_lt_one hchecked⟩

/-- One byte more is read, sent and acknowledged, which is one turn of the main loop. -/
theorem Drained.cycle {g : Globals} {n : Nat} (h : Drained g n) (hn : n + 1 < 2 ^ 32) :
    Machine.Run (step 1) Machine.Free ⟨.top, g⟩ ⟨.top, ackedOne g⟩ := by
  have hallSent : (ackedOne g).allSent = false := by
    rw [Globals.allSent, (h.next hn).finalize_eq, Bool.and_false]
  exact (((h.read.trans h.full).trans h.acked).tail ⟨.go, trivial, step_checked⟩).tail
    ⟨.go, trivial, step_again hallSent⟩

/-- The counter can be brought to every value. -/
theorem drained_run {n : Nat} (hn : n < 2 ^ 32) :
    ∃ g, Drained g n ∧ Machine.Run (step 1) Machine.Free .initial ⟨.top, g⟩ := by
  induction n with
  | zero => exact ⟨.initial, ⟨rfl, rfl, rfl, rfl, rfl⟩, .refl⟩
  | succ n ih =>
    obtain ⟨g, hg, run⟩ := ih (by omega)
    exact ⟨ackedOne g, hg.next hn, run.trans (hg.cycle hn)⟩

/-- One byte at a time, each acknowledged before the next: the byte read as number 2³² goes out
with the number of the end marker, while the stream goes on. -/
theorem reserved_id_given : ∃ (c : Config) (history : List (UInt32 × List UInt32)),
    Machine.Run (Machine.recording (step 1) appended) (Machine.Recorded Machine.Free)
      (.initial, []) (c, history) ∧
    history.length = 2 ^ 32 ∧ ¬ (∀ p ∈ history, p.1 ≠ 0 ∧ p.1 ∉ p.2) ∧
    c.globals.endingRead = false ∧
    ∃ n ∈ c.globals.toSend.nodes, n.packet.id = 0 ∧ n.payload = [7] := by
  obtain ⟨g, hg, run⟩ := drained_run (show 2 ^ 32 - 1 < 2 ^ 32 by decide)
  obtain ⟨history, hrecorded⟩ := Machine.Run.recorded appended (run.trans hg.read) []
  have hnumbered := numbered_run hrecorded
  have hlen : history.length = 2 ^ 32 := by
    rw [hnumbered.2.2]
    show (g.created ++ [(g.currentId, [7])]).length = 2 ^ 32
    rw [List.length_append, List.length_singleton, hg.created_eq]
    omega
  refine ⟨_, history, hrecorded, hlen, ?_, hg.endingRead_eq, (bodyNode g [7] []).1, ?_, ?_,
    bodyNode_payload g [7] []⟩
  · intro hall
    obtain ⟨p, hp, hzero⟩ := hnumbered.reserved hlen.ge
    exact (hall p hp).1 hzero
  · rw [hg.readOne_toSend]
    exact List.mem_singleton_self _
  · exact hg.currentId_eq.trans (by rfl)

/-- The two reads of `ackedFirst` make packets with numbers of their own. -/
theorem ackedFirst_appended : (Machine.exec (Machine.recording (step 2) appended)
    (Machine.Recorded Machine.Free) (.initial, []) ackedFirst).isSome := by
  decide

/-- In a run of two packets both numbers were fresh. -/
theorem ids_fresh_iff_ackedFirst :
    (∀ p ∈ ((Machine.exec (Machine.recording (step 2) appended) (Machine.Recorded Machine.Free)
        (.initial, []) ackedFirst).get ackedFirst_appended).2, p.1 ≠ 0 ∧ p.1 ∉ p.2) ↔
      ((Machine.exec (Machine.recording (step 2) appended) (Machine.Recorded Machine.Free)
        (.initial, []) ackedFirst).get ackedFirst_appended).2.length < 2 ^ 32 :=
  ids_fresh_iff (Machine.run_exec ackedFirst_appended)

end GProxy.Psender
