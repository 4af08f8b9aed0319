import GProxy.Psender.Program
import GProxy.Preceiver.Program

/-!
# Interrupted and failing reads

Both proxies call `recv` in a `do … while` loop that should repeat an interrupted call, and both
loops ask `errno != EINTR`: they repeat every failure but that one. `HandlesReads` says what a
function that reads should do with a sequence of outcomes. `receiveFromSender` does it unless the
first outcome is a failure it cannot live with, which it then repeats for as long as it lasts;
`receiveFromPsender` does it only on outcomes that are `EAGAIN` up to the data (`tolerated`).
-/

namespace GProxy

/-- What a function that reads in a loop should do with a sequence of outcomes, where `call` is what
it answers on the outcomes given, with those nobody asked for, and `none` while its loop goes on:
the first hard failure it gets ends it in an error at once, and an interrupted call is repeated, or
ends it with nothing changed. -/
def HandlesReads {σ : Type*} (hard : Recv → Bool) (same : σ → Prop)
    (call : List Recv → Option (Except String σ × List Recv)) (outcomes : List Recv) : Prop :=
  ∀ before o, before ++ [o] <+: outcomes → call before = none →
    (hard o = true → ∃ message, call (before ++ [o]) = some (.error message, [])) ∧
    (o = .failed .EINTR → call (before ++ [o]) = none ∨
      ∃ g, call (before ++ [o]) = some (.ok g, []) ∧ same g)

section

variable {σ : Type*} {hard : Recv → Bool} {same : σ → Prop}
  {call : List Recv → Option (Except String σ × List Recv)}

/-- A loop that got no outcome has not ended, so there is nothing it could have handled wrongly. -/
theorem handlesReads_nil : HandlesReads hard same call [] := by
  intro before o hbefore
  have hlen := hbefore.length_le
  rw [List.length_append] at hlen
  exact absurd hlen (Nat.not_succ_le_zero _)

/-- The first outcome is handled, and the others are after it. -/
theorem handlesReads_cons {o : Recv} {rest : List Recv} (hnil : call [] = none) :
    HandlesReads hard same call (o :: rest) ↔
      ((hard o = true → ∃ message, call [o] = some (.error message, [])) ∧
        (o = .failed .EINTR → call [o] = none ∨ ∃ g, call [o] = some (.ok g, []) ∧ same g)) ∧
      HandlesReads hard same (fun outcomes => call (o :: outcomes)) rest := by
  constructor
  · intro h
    refine ⟨h [] o ⟨rest, rfl⟩ hnil, ?_⟩
    intro before x hbefore hcall
    exact h (o :: before) x (List.cons_prefix_cons.mpr ⟨rfl, hbefore⟩) hcall
  · intro h before x hbefore hcall
    obtain ⟨hfirst, hrest⟩ := h
    cases before with
    | nil =>
      obtain ⟨rfl, _⟩ := List.cons_prefix_cons.mp hbefore
      exact hfirst
    | cons b bs =>
      obtain ⟨rfl, hbs⟩ := List.cons_prefix_cons.mp hbefore
      exact hrest bs x hbs hcall

/-- A loop that has ended gets no further outcome. -/
theorem handlesReads_of_ended {outcomes : List Recv} (hended : ∀ os, call os ≠ none) :
    HandlesReads hard same call outcomes := by
  intro before o _ hcall
  exact absurd hcall (hended before)

end

/-! ## The sender's socket -/

/-- On a blocking socket every failure but an interruption is hard. -/
def hardBlocking : Recv → Bool
  | .data _ => false
  | .failed errno => errno ≠ .EINTR

/-- `receiveFromSender` with its `recv` loop. -/
def Psender.receiveFromSenderOn (past : List UInt8) (g : Psender.Globals) (outcomes : List Recv) :
    Option (Except String Psender.Globals × List Recv) :=
  (doWhile Psender.readAgain outcomes).map (Prod.map (Psender.receiveFromSender past g) id)

/-- The list, the numbers and the flags of psender. -/
def Psender.Globals.Same (g g' : Psender.Globals) : Prop :=
  g'.toSend = g.toSend ∧ g'.currentId = g.currentId ∧ g'.finalize = g.finalize ∧
    g'.endingRead = g.endingRead

/-- `receiveFromSender` reads as it should unless the first outcome is a hard failure. -/
theorem receiveFromSender_handles_iff (past : List UInt8) (g : Psender.Globals)
    (outcomes : List Recv) :
    HandlesReads hardBlocking g.Same (Psender.receiveFromSenderOn past g) outcomes ↔
      ∀ o, outcomes.head? = some o → hardBlocking o = false := by
  cases outcomes with
  | nil => exact ⟨(fun _ _ ho => nomatch ho), fun _ => handlesReads_nil⟩
  | cons o rest =>
    have hfirst : (∀ x, (o :: rest).head? = some x → hardBlocking x = false) ↔
        hardBlocking o = false := ⟨fun h => h o rfl, fun h x hx => by cases hx; exact h⟩
    rw [handlesReads_cons rfl, hfirst]
    cases o with
    | data bytes =>
      have hended : ∀ os, Psender.receiveFromSenderOn past g (.data bytes :: os) ≠ none :=
        fun _ => nofun
      exact ⟨fun _ => rfl, fun _ => ⟨⟨nofun, nofun⟩, handlesReads_of_ended hended⟩⟩
    | failed errno =>
      by_cases hint : errno = .EINTR
      · subst hint
        have hended : ∀ os, Psender.receiveFromSenderOn past g (.failed .EINTR :: os) ≠ none :=
          fun _ => nofun
        refine ⟨fun _ => rfl, fun _ => ⟨⟨nofun, fun _ => .inr ⟨g, rfl, ?_⟩⟩,
          handlesReads_of_ended hended⟩⟩
        exact ⟨rfl, rfl, rfl, rfl⟩
      · have hhard : hardBlocking (.failed errno) = true := decide_eq_true hint
        have hagain : Psender.readAgain (.failed errno) = true := decide_eq_true hint
        rw [hhard]
        refine ⟨?_, nofun⟩
        intro h
        obtain ⟨message, hcall⟩ := h.1.1 rfl
        rw [Psender.receiveFromSenderOn, doWhile, if_pos hagain] at hcall
        cases hcall

/-- On a failure that lasts `receiveFromSender` never ends. -/
theorem receiveFromSender_never_ends (past : List UInt8) (g : Psender.Globals) {o : Recv}
    (hhard : hardBlocking o = true) (n : Nat) :
    Psender.receiveFromSenderOn past g (List.replicate n o) = none := by
  rw [Psender.receiveFromSenderOn, Option.map_eq_none_iff, doWhile_eq_none_iff]
  intro x hx
  rw [List.eq_of_mem_replicate hx]
  cases o with
  | data bytes => cases hhard
  | failed errno => exact hhard

/-! ## The emulator's socket -/

/-- On a socket that does not block, having nothing to read is no hard failure either. -/
def hardNonBlocking : Recv → Bool
  | .data _ => false
  | .failed errno => errno ≠ .EINTR && errno ≠ .EAGAIN && errno ≠ .EWOULDBLOCK

/-- `receiveFromPsender` with its `recv` loop, with at most `fuel` calls after the first. -/
def Preceiver.receiveFromPsenderUpTo (fuel maxPackets : Nat) (g : Preceiver.Globals)
    (outcomes : List Recv) : Option (Except String Preceiver.Globals × List Recv) :=
  (doWhileUpTo Preceiver.recvAgain fuel outcomes).map
    (Prod.map (Preceiver.receiveFromPsender maxPackets g) id)

/-- The lists, the number waited for and the flags of preceiver. -/
def Preceiver.Globals.Same (g g' : Preceiver.Globals) : Prop :=
  g'.toSend = g.toSend ∧ g'.toAck = g.toAck ∧ g'.lastSentId = g.lastSentId ∧
    g'.finalize = g.finalize ∧ g'.timedOut = g.timedOut

/-- There is nothing to read until there is something, or until the last call, which alone may fail
in another way than by an interruption. -/
def tolerated : Nat → List Recv → Bool
  | _, [] | _, .data _ :: _ => true
  | 0, .failed errno :: _ => errno ≠ .EINTR
  | fuel + 1, .failed errno :: rest => errno = .EAGAIN && tolerated fuel rest

/-- An outcome the loop repeats on is dropped, and one turn is used up. -/
theorem receiveFromPsenderUpTo_again (fuel maxPackets : Nat) (g : Preceiver.Globals) {o : Recv}
    (hagain : Preceiver.recvAgain o = true) (rest : List Recv) :
    Preceiver.receiveFromPsenderUpTo (fuel + 1) maxPackets g (o :: rest) =
      Preceiver.receiveFromPsenderUpTo fuel maxPackets g rest := by
  rw [Preceiver.receiveFromPsenderUpTo, doWhileUpTo, if_pos hagain]
  rfl

/-- At the bound of the loop, or at an outcome it does not repeat on, the outcome is handled. -/
theorem receiveFromPsenderUpTo_ended {fuel : Nat} (maxPackets : Nat) (g : Preceiver.Globals)
    {o : Recv} (hend : fuel = 0 ∨ Preceiver.recvAgain o = false) (rest : List Recv) :
    Preceiver.receiveFromPsenderUpTo fuel maxPackets g (o :: rest) =
      some (Preceiver.receiveFromPsender maxPackets g o, rest) := by
  cases fuel with
  | zero => rfl
  | succ fuel =>
    have hagain := hend.resolve_left (Nat.succ_ne_zero fuel)
    rw [Preceiver.receiveFromPsenderUpTo, doWhileUpTo, if_neg (by rw [hagain]; decide)]
    rfl

/-- A failure other than `EAGAIN` ends in `printError`, an interruption too. -/
theorem receiveFromPsender_failed (maxPackets : Nat) (g : Preceiver.Globals) {errno : Errno}
    (h : errno ≠ .EAGAIN) :
    Preceiver.receiveFromPsender maxPackets g (.failed errno) =
      .error "There was an error with recv" :=
  if_pos (.inl h)

/-- Without an outcome the loop has no result. -/
theorem receiveFromPsenderUpTo_nil (fuel maxPackets : Nat) (g : Preceiver.Globals) :
    Preceiver.receiveFromPsenderUpTo fuel maxPackets g [] = none := by
  cases fuel <;> rfl

/-- An interruption ends the loop and the process. -/
theorem not_handlesReads_interrupted (fuel maxPackets : Nat) (g : Preceiver.Globals)
    (rest : List Recv) :
    ¬ HandlesReads hardNonBlocking g.Same (Preceiver.receiveFromPsenderUpTo fuel maxPackets g)
      (.failed .EINTR :: rest) := by
  have hcall : Preceiver.receiveFromPsenderUpTo fuel maxPackets g [.failed .EINTR] = _ :=
    receiveFromPsenderUpTo_ended maxPackets g (.inr rfl) []
  have hfailed : Preceiver.receiveFromPsender maxPackets g (.failed .EINTR) = .error _ :=
    receiveFromPsender_failed maxPackets g (by decide)
  rw [hfailed] at hcall
  intro h
  have hfirst := (handlesReads_cons (receiveFromPsenderUpTo_nil fuel maxPackets g)).mp h
  rcases hfirst.1.2 rfl with hnone | ⟨g', hok, _⟩
  · rw [hcall] at hnone
    cases hnone
  · rw [hcall] at hok
    cases hok

/-- A hard failure is repeated while there are calls left. -/
theorem not_handlesReads_hard (fuel maxPackets : Nat) (g : Preceiver.Globals) (code : Nat)
    (rest : List Recv) :
    ¬ HandlesReads hardNonBlocking g.Same
      (Preceiver.receiveFromPsenderUpTo (fuel + 1) maxPackets g)
      (.failed (.other code) :: rest) := by
  have hnil := receiveFromPsenderUpTo_nil fuel maxPackets g
  intro h
  have hfirst := (handlesReads_cons (receiveFromPsenderUpTo_nil _ maxPackets g)).mp h
  obtain ⟨message, herror⟩ := hfirst.1.1 rfl
  rw [receiveFromPsenderUpTo_again fuel maxPackets g rfl, hnil] at herror
  cases herror

/-- An outcome that ends the loop, in an error if it is a hard failure. -/
theorem handlesReads_last {fuel maxPackets : Nat} {g : Preceiver.Globals} {o : Recv}
    (hend : fuel = 0 ∨ Preceiver.recvAgain o = false) (hintr : o ≠ .failed .EINTR)
    (rest : List Recv) :
    HandlesReads hardNonBlocking g.Same (Preceiver.receiveFromPsenderUpTo fuel maxPackets g)
      (o :: rest) := by
  have hcall := receiveFromPsenderUpTo_ended maxPackets g hend
  rw [handlesReads_cons (receiveFromPsenderUpTo_nil fuel maxPackets g)]
  refine ⟨⟨?_, fun h => absurd h hintr⟩, handlesReads_of_ended ?_⟩
  · intro hhard
    cases o with
    | data bytes => cases hhard
    | failed errno =>
      have hne : errno ≠ .EAGAIN := by
        rintro rfl
        cases hhard
      exact ⟨_, (hcall []).trans (by rw [receiveFromPsender_failed maxPackets g hne])⟩
  · intro os
    rw [hcall os]
    exact Option.some_ne_none _

/-- `receiveFromPsender` reads as it should on the outcomes that are tolerated, and on no others. -/
theorem receiveFromPsender_handles_iff (maxPackets : Nat) (g : Preceiver.Globals) (fuel : Nat)
    (outcomes : List Recv) :
    HandlesReads hardNonBlocking g.Same (Preceiver.receiveFromPsenderUpTo fuel maxPackets g)
      outcomes ↔ tolerated fuel outcomes = true := by
  induction outcomes generalizing fuel with
  | nil => cases fuel <;> exact ⟨fun _ => rfl, fun _ => handlesReads_nil⟩
  | cons o rest ih =>
    cases o with
    | data bytes =>
      have htol : tolerated fuel (.data bytes :: rest) = true := by cases fuel <;> rfl
      exact ⟨fun _ => htol, fun _ => handlesReads_last (.inr rfl) Recv.noConfusion rest⟩
    | failed errno =>
      cases errno with
      | EINTR =>
        have htol : tolerated fuel (.failed .EINTR :: rest) = false := by cases fuel <;> rfl
        rw [htol]
        exact iff_of_false (not_handlesReads_interrupted fuel maxPackets g rest)
          Bool.false_ne_true
      | EAGAIN =>
        cases fuel with
        | zero => exact ⟨fun _ => rfl, fun _ => handlesReads_last (.inl rfl) (by decide) rest⟩
        | succ fuel =>
          have hcall : (fun os => Preceiver.receiveFromPsenderUpTo (fuel + 1) maxPackets g
              (.failed .EAGAIN :: os)) = Preceiver.receiveFromPsenderUpTo fuel maxPackets g :=
            funext (receiveFromPsenderUpTo_again fuel maxPackets g rfl)
          rw [handlesReads_cons (receiveFromPsenderUpTo_nil _ maxPackets g), hcall]
          exact ⟨fun h => (ih fuel).mp h.2, fun h => ⟨⟨nofun, nofun⟩, (ih fuel).mpr h⟩⟩
      | other code =>
        cases fuel with
        | zero =>
          have hintr : Recv.failed (.other code) ≠ .failed .EINTR := by
            intro h
            cases h
          exact ⟨fun _ => rfl, fun _ => handlesReads_last (.inl rfl) hintr rest⟩
        | succ fuel =>
          exact iff_of_false (not_handlesReads_hard fuel maxPackets g code rest)
            Bool.false_ne_true

/-- What the two functions do with a sequence of outcomes is what they should do if and only if, for
`receiveFromSender`, the first outcome is no hard failure, and for `receiveFromPsender`, what comes
before the data is `EAGAIN`, or a hard failure as the hundredth call, and no interruption. -/
theorem reads_handled_iff (past : List UInt8) (s : Psender.Globals) (maxPackets : Nat)
    (r : Preceiver.Globals) (outcomes : List Recv) :
    (HandlesReads hardBlocking s.Same (Psender.receiveFromSenderOn past s) outcomes ↔
      ∀ o, outcomes.head? = some o → hardBlocking o = false) ∧
    (HandlesReads hardNonBlocking r.Same
        (Preceiver.receiveFromPsenderUpTo (Preceiver.maxOps - 1) maxPackets r) outcomes ↔
      tolerated (Preceiver.maxOps - 1) outcomes = true) :=
  ⟨receiveFromSender_handles_iff past s outcomes,
    receiveFromPsender_handles_iff maxPackets r (Preceiver.maxOps - 1) outcomes⟩

/-- A connection reset is read for ever by `receiveFromSender`, and read again by
`receiveFromPsender`, which an interruption ends. -/
theorem reads_not_handled :
    (¬ ∀ (s : Psender.Globals) (outcomes : List Recv),
      HandlesReads hardBlocking s.Same (Psender.receiveFromSenderOn [] s) outcomes) ∧
    (∀ n, Psender.receiveFromSenderOn [] .initial
      (List.replicate n (.failed (.other 104))) = none) ∧
    (¬ ∀ (r : Preceiver.Globals) (outcomes : List Recv),
      HandlesReads hardNonBlocking r.Same
        (Preceiver.receiveFromPsenderUpTo (Preceiver.maxOps - 1) 1 r) outcomes) := by
  refine ⟨?_, receiveFromSender_never_ends [] .initial rfl, ?_⟩
  · intro h
    have hhead := (receiveFromSender_handles_iff [] .initial [.failed (.other 104)]).mp (h _ _)
    exact absurd (hhead _ rfl) (by decide)
  · intro h
    have htol := (receiveFromPsender_handles_iff 1 .initial _ [.failed .EINTR]).mp (h _ _)
    exact absurd htol (by decide)

end GProxy
