import GProxy.Psender.Program
import GProxy.Ritardatore.Conservation

/-!
# Changing the port after a loss

Each loss report moves psender to the next of the three ports of the emulator, so a batch of
reports moves it on as many times. What follows is sent on another port unless the number of
reports is a multiple of three: then the channel is back where it was (`port_changes_iff`).
-/

namespace GProxy.Psender

variable {maxPackets : Nat}

/-- The channel is one of the three, and the port is that of the channel. -/
structure Tuned (g : Globals) : Prop where
  channel_lt : g.channel < 3
  toRitPort_eq : g.toRitPort = ritPorts.getD g.channel 0

/-- At the start the port is the first of the table. -/
theorem Tuned.initial : Tuned Globals.initial := ⟨by decide, rfl⟩

/-- Changing the channel sets the port to that of the new channel. -/
theorem Tuned.switchPort (g : Globals) : Tuned (switchPort g) := ⟨Nat.mod_lt _ (by decide), rfl⟩

/-- Each step keeps the port that of the channel: only a notice changes either. -/
theorem Tuned.stepped {c c' : Config} {e : Event} (h : Tuned c.globals)
    (st : Stepped maxPackets c e c') : Tuned c'.globals := by
  cases st with
  | send hsend => cases hsend; exact { h with }
  | read hreads hwhile hg => cases reads_of_ok hg <;> exact { h with }
  | check hc hg =>
    cases checks_of_ok hg with
    | icmp => exact .switchPort _
    | nothing | acked | stale => exact { h with }
  | scan | scanned | select | timeout | filled | checked | allSent | again | error => exact h

/-- The three ports differ. -/
theorem ritPorts_inj {i j : Nat} (hi : i < 3) (hj : j < 3)
    (h : ritPorts.getD i 0 = ritPorts.getD j 0) : i = j := by
  have hall : ∀ i : Fin 3, ∀ j : Fin 3,
      ritPorts.getD i.val 0 = ritPorts.getD j.val 0 → i = j := by decide
  exact congrArg Fin.val (hall ⟨i, hi⟩ ⟨j, hj⟩ h)

/-- The outcome of a `recv` that brings a loss report. -/
def lossReport : Recv → Bool
  | .data bytes => bytes[4]? = some typeI
  | .failed _ => false

/-- What comes from the emulator: loss reports, acknowledgements, or nothing. -/
def Incoming : Recv → Prop
  | .data bytes => bytes = [] ∨ bytes[4]? = some typeI ∨ bytes[4]? = some typeB
  | .failed errno => errno = .EAGAIN

instance : DecidablePred Incoming
  | .data _ => inferInstanceAs (Decidable (_ ∨ _))
  | .failed errno => inferInstanceAs (Decidable (errno = .EAGAIN))

/-- One call of `checkRitardatore`: a loss report moves the channel on, nothing else does. -/
theorem checkRitardatore_channel {g : Globals} {o : Recv} (h : Tuned g) (hin : Incoming o) :
    ∃ g', checkRitardatore g o = .ok g' ∧ Tuned g' ∧
      g'.channel = (g.channel + if lossReport o then 1 else 0) % 3 := by
  have hsame : (g.channel + 0) % 3 = g.channel := Nat.mod_eq_of_lt h.channel_lt
  cases o with
  | failed errno =>
    cases hin
    exact ⟨g, rfl, h, hsame.symm⟩
  | data bytes =>
    cases bytes with
    | nil => exact ⟨g, rfl, h, hsame.symm⟩
    | cons b bs =>
      rcases hin.resolve_left (List.cons_ne_nil b bs) with hI | hB
      · have htype : (overlay (b :: bs) g.currentAck).getD 4 0 ≠ typeB := by
          rw [overlay_type hI]
          decide
        have hreport : lossReport (.data (b :: bs)) = true := decide_eq_true hI
        refine ⟨switchPort { g with currentAck := overlay (b :: bs) g.currentAck }, ?_,
          .switchPort _, ?_⟩
        · simp only [checkRitardatore, htype, ↓reduceIte]
        · rw [hreport]
          rfl
      · have hreport : lossReport (.data (b :: bs)) = false := by
          apply decide_eq_false
          rw [hB]
          decide
        have hok : checkRitardatore g (.data (b :: bs)) =
            .ok (acknowledge { g with currentAck := overlay (b :: bs) g.currentAck }) := by
          simp only [checkRitardatore, overlay_type hB, ↓reduceIte]
        rw [hreport]
        refine ⟨_, hok, ?_, ?_⟩
        · unfold acknowledge
          split <;> exact { h with }
        · unfold acknowledge
          split <;> exact hsame.symm

/-- A batch moves the channel on once for each loss report in it. -/
theorem exec_batch (counter : Nat) {batch : List Recv} {g : Globals} (h : Tuned g)
    (hin : ∀ o ∈ batch, Incoming o) (hlen : counter + batch.length = maxPackets)
    (rest : List Event) :
    ∃ g', Tuned g' ∧ g'.channel = (g.channel + batch.countP lossReport) % 3 ∧
      Machine.exec (step maxPackets) Machine.Free ⟨.checking counter, g⟩
          (batch.map .check ++ rest) =
        Machine.exec (step maxPackets) Machine.Free ⟨.checking maxPackets, g'⟩ rest := by
  induction batch generalizing g counter with
  | nil =>
    refine ⟨g, h, (Nat.mod_eq_of_lt h.channel_lt).symm, ?_⟩
    rw [← hlen]
    rfl
  | cons o batch ih =>
    obtain ⟨ho, hbatch⟩ := List.forall_mem_cons.mp hin
    obtain ⟨g₁, hcheck, h₁, hchannel₁⟩ := checkRitardatore_channel h ho
    rw [List.length_cons] at hlen
    obtain ⟨g', h', hchannel', hexec⟩ := ih (counter + 1) h₁ hbatch (by omega)
    have hlt : counter < maxPackets := by omega
    refine ⟨g', h', ?_, ?_⟩
    · rw [hchannel', hchannel₁, List.countP_cons]
      omega
    · rw [List.map_cons, List.cons_append, Machine.exec_free_cons (step_check hlt hcheck)]
      exact hexec

/-- Behind the batch the loop goes to its top and to the next pass, unless all is sent. -/
theorem exec_to_pass {g : Globals} {d : Config}
    (h : Machine.exec (step maxPackets) Machine.Free ⟨.checking maxPackets, g⟩ [.go, .go, .go] =
      some d) : d = ⟨.sending g.toSend.nodes 0, g⟩ := by
  rw [Machine.exec_free_cons step_checked] at h
  cases hall : g.allSent with
  | true =>
    rw [Machine.exec_free_cons (step_allSent hall)] at h
    cases h
  | false =>
    rw [Machine.exec_free_cons (step_again hall)] at h
    cases h
    rfl

/-- Three steps round the ports lead back, one or two do not. -/
theorem add_mod_three_ne_iff {i k : Nat} (hi : i < 3) : (i + k) % 3 ≠ i ↔ ¬ 3 ∣ k := by
  omega

/-- From any reachable state in which the reading of the emulator's socket begins: after a batch of
loss reports, acknowledgements and nothing, the pass that follows is on another channel, and to
another port, if and only if the number of loss reports is no multiple of three. -/
theorem port_changes_iff {c d : Config}
    (run : Machine.Run (step maxPackets) Machine.Free .initial c) (hpc : c.pc = .checking 0)
    {batch : List Recv} (hlen : batch.length = maxPackets) (hin : ∀ o ∈ batch, Incoming o)
    (hexec : Machine.exec (step maxPackets) Machine.Free c (batch.map .check ++ [.go, .go, .go]) =
      some d) :
    d.pc = .sending d.globals.toSend.nodes 0 ∧
      (d.globals.channel ≠ c.globals.channel ↔ ¬ 3 ∣ batch.countP lossReport) ∧
      (d.globals.toRitPort ≠ c.globals.toRitPort ↔ ¬ 3 ∣ batch.countP lossReport) := by
  have htuned : Tuned c.globals := Machine.Run.invariant (I := fun c => Tuned c.globals)
    (fun _ _ _ h _ hstep => h.stepped (stepped_of_step hstep)) run .initial
  obtain ⟨pc, g⟩ := c
  cases hpc
  obtain ⟨g', htuned', hchannel, hbatch⟩ :=
    exec_batch 0 htuned hin ((Nat.zero_add _).trans hlen) [.go, .go, .go]
  rw [hbatch] at hexec
  rw [exec_to_pass hexec]
  have hiff : g'.channel ≠ g.channel ↔ ¬ 3 ∣ batch.countP lossReport := by
    rw [hchannel]
    exact add_mod_three_ne_iff htuned.channel_lt
  have hport : g'.toRitPort = g.toRitPort ↔ g'.channel = g.channel := by
    rw [htuned'.toRitPort_eq, htuned.toRitPort_eq]
    exact ⟨ritPorts_inj htuned'.channel_lt htuned.channel_lt, fun h => by rw [h]⟩
  exact ⟨rfl, hiff, (not_congr hport).trans hiff⟩

/-- A notice of the loss of a datagram sent to the port in use. -/
def Globals.Lost (g : Globals) (bytes : List UInt8) : Prop :=
  ∃ d ∈ g.sent, d.port = g.toRitPort ∧ Ritardatore.Notice bytes d.bytes

instance (g : Globals) : DecidablePred g.Lost :=
  fun _ => inferInstanceAs (Decidable (∃ d ∈ g.sent, _ ∧ (_ ∧ _ ∧ _)))

/-- A run in which three packets go out on the first channel and the emulator has something to
say. -/
def threeSent : List Event :=
  [.go, .go, .select (.ready true false), .read [.data [7]] [], .read [.data [8]] [],
    .read [.data [9]] [], .go, .go, .go, .send [.sent], .send [.sent], .send [.sent], .go,
    .select (.ready false true)]

/-- The run that sends three packets can be made. -/
theorem threeSent_possible :
    (Machine.exec (step 3) Machine.Free .initial threeSent).isSome := by decide

/-- The state at the end of it. -/
def lossy : Config := (Machine.exec (step 3) Machine.Free .initial threeSent).get threeSent_possible

/-- The notices of the loss of the three. -/
def threeLost : List Recv := lossy.globals.sent.map fun d => .data (Ritardatore.icmp 0 d.bytes)

/-- The batch of three notices can be read. -/
theorem threeLost_possible : (Machine.exec (step 3) Machine.Free lossy
    (threeLost.map .check ++ [.go, .go, .go])).isSome := by decide

/-- After three notices in one batch the port is the one before. -/
theorem port_changes_iff_threeLost :
    ((Machine.exec (step 3) Machine.Free lossy (threeLost.map .check ++ [.go, .go, .go])).get
      threeLost_possible).globals.channel ≠ lossy.globals.channel ↔
        ¬ 3 ∣ threeLost.countP lossReport :=
  (port_changes_iff (Machine.run_exec threeSent_possible) (by decide) (by decide) (by decide)
    (Option.some_get threeLost_possible).symm).2.1

/-- Three losses reported at once are resent on the port they were lost on. -/
theorem three_losses_same_port :
    ¬ ∀ (maxPackets : Nat) (c d : Config) (batch : List Recv), 1 ≤ maxPackets →
      Machine.Run (step maxPackets) Machine.Free .initial c → c.pc = .checking 0 →
      batch.length = maxPackets → (∀ o ∈ batch, Incoming o) →
      (∀ o ∈ batch, lossReport o = true → o.OnData c.globals.Lost) →
      1 ≤ batch.countP lossReport →
      Machine.exec (step maxPackets) Machine.Free c (batch.map .check ++ [.go, .go, .go]) = some d →
      d.globals.channel ≠ c.globals.channel := by
  intro h
  have hchanges := h 3 lossy _ threeLost (by decide) (Machine.run_exec threeSent_possible)
    (by decide) (by decide) (by decide) (by decide) (by decide)
    (Option.some_get threeLost_possible).symm
  exact absurd hchanges (by decide)

end GProxy.Psender
