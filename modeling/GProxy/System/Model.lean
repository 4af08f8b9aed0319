import GProxy.Psender.Packets
import GProxy.Preceiver.Delivery

/-!
# The two proxies and the network

The two main loops side by side, each taking its steps at any time. The network is an
environment: what a proxy reads off the emulator's socket is a datagram the other one has handed
to `sendto` at some time, or an injected one of type `'I'`. So a datagram may be lost, delayed,
repeated and overtaken, and is never altered. The sender writes one stream, which `recv` hands
out in pieces, and the receiver's socket accepts whole bodies.

Fairness is not asked of anything: what is shown of all runs is shown of those that stop halfway.
Nor is it asked that `select` tells the truth about the emulator's socket, which only the theorems
about a run to come need (`GProxy.System.Completion`).
-/

namespace GProxy

structure Sys where
  psender : Psender.Config
  preceiver : Preceiver.Config
  deriving DecidableEq, Repr

namespace Sys

def initial : Sys := ⟨.initial, .initial⟩

inductive Event
  | psender (e : Psender.Event)
  | preceiver (e : Preceiver.Event)
  deriving DecidableEq, Repr

/-- One step of either proxy, each with its own `maxPackets`. -/
def step (senderMax receiverMax : Nat) (s : Sys) : Event → Option Sys
  | .psender e => (Psender.step senderMax s.psender e).map fun c => { s with psender := c }
  | .preceiver e =>
    (Preceiver.step receiverMax s.preceiver e).map fun c => { s with preceiver := c }

/-- What can arrive when `sent` was sent. -/
def Arrives (sent : List Datagram) (bytes : List UInt8) : Prop :=
  (∃ d ∈ sent, d.bytes = bytes) ∨ bytes[4]? = some typeI

instance (sent : List Datagram) : DecidablePred (Arrives sent) :=
  fun _ => inferInstanceAs (Decidable (_ ∨ _))

/-- The environment of the two proxies. -/
def Network (stream : List UInt8) (s : Sys) : Event → Prop
  | .psender (.check outcome) => outcome.OnData (Arrives s.preceiver.globals.sent)
  | .psender e => Psender.Streams stream s.psender e
  | .preceiver (.recv outcomes) => ∀ r ∈ outcomes, r.OnData (Arrives s.psender.globals.sent)
  | .preceiver e => Preceiver.acceptsWhole s.preceiver e

instance (stream : List UInt8) (s : Sys) : ∀ e, Decidable (Network stream s e)
  | .psender (.check outcome) =>
    inferInstanceAs (Decidable (outcome.OnData (Arrives s.preceiver.globals.sent)))
  | .psender (.read outcomes past) =>
    inferInstanceAs (Decidable (Psender.Streams stream s.psender (.read outcomes past)))
  | .psender .go | .psender (.send _) | .psender (.select _) => .isTrue trivial
  | .preceiver (.recv outcomes) =>
    inferInstanceAs (Decidable (∀ r ∈ outcomes, r.OnData (Arrives s.psender.globals.sent)))
  | .preceiver .go | .preceiver (.send _) | .preceiver (.ack _) | .preceiver (.select _) =>
    inferInstanceAs (Decidable (Preceiver.acceptsWhole _ _ = true))

/-- A run of the two proxies over the network, from the start. -/
abbrev Reached (stream : List UInt8) (senderMax receiverMax : Nat) (s : Sys) : Prop :=
  Machine.Run (step senderMax receiverMax) (Network stream) initial s

/-- The data packets the sending proxy has built are so few that their numbers do not wrap. -/
def Few (s : Sys) : Prop := s.psender.globals.created.length < 2 ^ 32 - 1

instance (s : Sys) : Decidable s.Few :=
  inferInstanceAs (Decidable (s.psender.globals.created.length < 2 ^ 32 - 1))

/-- No step takes back a packet built. -/
theorem few_back {senderMax receiverMax : Nat} (s : Sys) (e : Event) (t : Sys)
    (h : step senderMax receiverMax s e = some t) (hfew : t.Few) : s.Few := by
  cases e with
  | psender e =>
    obtain ⟨c, hc, rfl⟩ := Option.map_eq_some_iff.mp h
    exact lt_of_le_of_lt (Psender.created_length_le (Psender.stepped_of_step hc)) hfew
  | preceiver e =>
    obtain ⟨c, hc, rfl⟩ := Option.map_eq_some_iff.mp h
    exact hfew

end Sys

end GProxy
