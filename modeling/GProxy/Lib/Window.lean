import Mathlib.Data.Set.Insert
import Mathlib.Data.List.GetD
import Mathlib.Logic.Relation
import Mathlib.Tactic.ByContra
import Mathlib.Tactic.Simps.Basic

/-!
# A retransmitting transfer over a lossy wire

Two parties over a wire that loses, repeats and reorders. The sender makes packets `1, 2, …`
with bodies of a type `β`, may end the sequence with the marker `0`, and keeps every packet
until it is acknowledged. The receiver buffers what is ahead, releases bodies in number order,
and acknowledges a packet only once its number is behind `next`.

The wire is the set of what was ever put on it, so every loss, delay, repetition and
reordering is a choice of which member arrives next and whether any does. `Sound` is the
invariant of the whole exchange. What the receiver released is a prefix of what was made
(`Sound.out_eq`), every packet still to be released is still held (`Sound.pending_held`), and a
marker that is no longer held has arrived (`Sound.marker_seen`).
-/

namespace Window

variable {β : Type*}

/-- The two parties and the wire between them. `seen` is the history of numbers that arrived. -/
@[ext] structure State (β : Type*) where
  made : List β
  closed : Prop
  held : Set ℕ
  wire : Set (ℕ × β)
  next : ℕ
  out : List β
  buffer : Set (ℕ × β)
  owed : Set ℕ
  acks : Set ℕ
  seen : Set ℕ

/-- Nothing made, nothing sent, packet `1` expected. -/
def State.initial : State β where
  made := []
  closed := False
  held := ∅
  wire := ∅
  next := 1
  out := []
  buffer := ∅
  owed := ∅
  acks := ∅
  seen := ∅

/-- Packet `n` was made with body `b`. -/
def State.Made (s : State β) (n : ℕ) (b : β) : Prop := 1 ≤ n ∧ s.made[n - 1]? = some b

/-- The sender makes a packet. -/
@[simps] def State.make (s : State β) (b : β) : State β :=
  { s with made := s.made ++ [b], held := insert (s.made.length + 1) s.held }

/-- The sender ends the sequence with the marker. -/
@[simps] def State.close (s : State β) : State β :=
  { s with closed := True, held := insert 0 s.held }

/-- A packet goes on the wire. -/
@[simps] def State.transmit (s : State β) (n : ℕ) (b : β) : State β :=
  { s with wire := insert (n, b) s.wire }

/-- A number arrives. -/
@[simps] def State.see (s : State β) (n : ℕ) : State β := { s with seen := insert n s.seen }

/-- The receiver keeps a packet for later. -/
@[simps] def State.keep (s : State β) (n : ℕ) (b : β) : State β :=
  { s with buffer := insert (n, b) s.buffer }

/-- The receiver will acknowledge a packet. -/
@[simps] def State.owe (s : State β) (n : ℕ) : State β := { s with owed := insert n s.owed }

/-- The receiver passes on the packet it waits for. -/
@[simps] def State.release (s : State β) (b : β) : State β :=
  { s with
    next := s.next + 1
    out := s.out ++ [b]
    buffer := {p ∈ s.buffer | p.1 ≠ s.next}
    owed := insert s.next s.owed }

/-- An acknowledgement goes on the wire. -/
@[simps] def State.ack (s : State β) (n : ℕ) : State β :=
  { s with owed := s.owed \ {n}, acks := insert n s.acks }

/-- An acknowledged packet is let go. -/
@[simps] def State.letGo (s : State β) (n : ℕ) : State β := { s with held := s.held \ {n} }

/-- The steps of the two parties. The body of the marker is free: nobody releases it. -/
inductive Step : State β → State β → Prop
  | make {s : State β} (b : β) : ¬ s.closed → Step s (s.make b)
  | close {s : State β} : ¬ s.closed → Step s s.close
  | transmit {s : State β} {n : ℕ} {b : β} : n ∈ s.held → (n = 0 ∨ s.Made n b) →
      Step s (s.transmit n b)
  | keep {s : State β} {n : ℕ} {b : β} : (n, b) ∈ s.wire → s.next ≤ n →
      Step s ((s.keep n b).see n)
  | owe {s : State β} {n : ℕ} {b : β} : (n, b) ∈ s.wire → n < s.next →
      Step s ((s.owe n).see n)
  | ignore {s : State β} {n : ℕ} {b : β} : (n, b) ∈ s.wire →
      (n < s.next ∨ ∃ b', (n, b') ∈ s.buffer) → Step s (s.see n)
  | release {s : State β} {b : β} : (s.next, b) ∈ s.buffer → Step s (s.release b)
  | ack {s : State β} {n : ℕ} : n ∈ s.owed → Step s (s.ack n)
  | letGo {s : State β} {n : ℕ} : n ∈ s.acks → Step s (s.letGo n)

/-- The invariant of the exchange. -/
structure Sound (s : State β) : Prop where
  held_made : ∀ n ∈ s.held, n = 0 ∧ s.closed ∨ 1 ≤ n ∧ n ≤ s.made.length
  wire_made : ∀ p ∈ s.wire, p.1 = 0 ∧ s.closed ∨ s.Made p.1 p.2
  buffer_made : ∀ p ∈ s.buffer, s.next ≤ p.1 ∧ s.Made p.1 p.2
  next_pos : 1 ≤ s.next
  next_le : s.next ≤ s.made.length + 1
  out_eq : s.out = s.made.take (s.next - 1)
  owed_behind : ∀ n ∈ s.owed, n < s.next ∧ (n = 0 → 0 ∈ s.seen)
  acks_behind : ∀ n ∈ s.acks, n < s.next ∧ (n = 0 → 0 ∈ s.seen)
  pending_held : ∀ n, s.next ≤ n → n ≤ s.made.length → n ∈ s.held
  marker_seen : s.closed → 0 ∉ s.held → 0 ∈ s.seen
  seen_made : ∀ n ∈ s.seen, n = 0 ∧ s.closed ∨ 1 ≤ n ∧ n ≤ s.made.length
  seen_kept : ∀ n ∈ s.seen, n < s.next ∨ ∃ b, (n, b) ∈ s.buffer

/-- At the start nothing was made. -/
theorem Sound.initial : Sound (State.initial : State β) where
  held_made := fun _ h => h.elim
  wire_made := fun _ h => h.elim
  buffer_made := fun _ h => h.elim
  next_pos := le_rfl
  next_le := le_rfl
  out_eq := rfl
  owed_behind := fun _ h => h.elim
  acks_behind := fun _ h => h.elim
  pending_held := fun _ h₁ h₂ => absurd (Nat.le_trans h₁ h₂) (Nat.not_succ_le_zero 0)
  marker_seen := fun h => h.elim
  seen_made := fun _ h => h.elim
  seen_kept := fun _ h => h.elim

/-- Numbers are given out from 1 on, so none exceeds how many chunks were made. -/
theorem State.Made.le {s : State β} {n : ℕ} {b : β} (h : s.Made n b) : n ≤ s.made.length := by
  have := (List.getElem?_eq_some_iff.mp h.2).1
  have := h.1
  omega

/-- What was made keeps its number when more is made. -/
theorem State.Made.append {s t : State β} {n : ℕ} {b : β} (h : s.Made n b) {more : List β}
    (ht : t.made = s.made ++ more) : t.Made n b := by
  refine ⟨h.1, ?_⟩
  rw [ht, List.getElem?_append_left (List.getElem?_eq_some_iff.mp h.2).1, h.2]

/-- What arrives off a sound wire is the marker or a packet that was made. -/
theorem Sound.arrives {s : State β} (h : Sound s) {n : ℕ} {b : β} (hw : (n, b) ∈ s.wire) :
    n = 0 ∧ s.closed ∨ 1 ≤ n ∧ n ≤ s.made.length :=
  (h.wire_made _ hw).imp_right fun hm => ⟨hm.1, hm.le⟩

/-- A chunk gets the next number, which nothing in the state can carry yet. -/
theorem Sound.make {s : State β} (h : Sound s) (b : β) (hopen : ¬ s.closed) :
    Sound (s.make b) := by
  have hlen : (s.make b).made.length = s.made.length + 1 := by simp
  have hnext := h.next_le
  refine { h with
    held_made := ?_
    wire_made := fun p hp => (h.wire_made p hp).imp_right fun hm => hm.append rfl
    buffer_made := fun p hp => (h.buffer_made p hp).imp_right fun hm => hm.append rfl
    next_le := by rw [hlen]; exact Nat.le_succ_of_le hnext
    out_eq := ?_
    pending_held := ?_
    marker_seen := fun hc => absurd hc hopen
    seen_made := fun n hn => (h.seen_made n hn).imp_right fun hm => ⟨hm.1, by omega⟩ }
  · intro n hn
    rcases hn with rfl | hn
    · exact .inr ⟨Nat.succ_pos _, hlen.ge⟩
    · exact (h.held_made n hn).imp_right fun hm => ⟨hm.1, by omega⟩
  · rw [State.make_out, h.out_eq, State.make_made, State.make_next,
      List.take_append_of_le_length (by omega)]
  · intro n h₁ h₂
    rcases Nat.lt_or_ge s.made.length n with hn | hn
    · exact .inl (by omega)
    · exact .inr (h.pending_held n h₁ hn)

/-- The end marker has number 0, which is the number of no chunk. -/
theorem Sound.close {s : State β} (h : Sound s) : Sound s.close := by
  refine { h with
    held_made := ?_
    wire_made := fun p hp => (h.wire_made p hp).imp_left fun hm => ⟨hm.1, trivial⟩
    pending_held := fun n h₁ h₂ => .inr (h.pending_held n h₁ h₂)
    marker_seen := fun _ hn => absurd (.inl rfl) hn
    seen_made := fun n hn => (h.seen_made n hn).imp_left fun hm => ⟨hm.1, trivial⟩ }
  intro n hn
  rcases hn with rfl | hn
  · exact .inl ⟨rfl, trivial⟩
  · exact (h.held_made n hn).imp_left fun hm => ⟨hm.1, trivial⟩

/-- What is transmitted is held, so it is as it was made. -/
theorem Sound.transmit {s : State β} (h : Sound s) {n : ℕ} {b : β} (hn : n ∈ s.held)
    (hb : n = 0 ∨ s.Made n b) : Sound (s.transmit n b) := by
  refine { h with wire_made := ?_ }
  intro p hp
  rcases hp with rfl | hp
  · rcases hb with rfl | hb
    · exact .inl ⟨rfl, (h.held_made 0 hn).elim And.right fun h0 => absurd h0.1 (by decide)⟩
    · exact .inr hb
  · exact h.wire_made p hp

/-- What arrives is recorded as seen; it must be kept, or be behind. -/
theorem Sound.see {s : State β} (h : Sound s) {n : ℕ} {b : β} (hw : (n, b) ∈ s.wire)
    (hkept : n < s.next ∨ ∃ b', (n, b') ∈ s.buffer) : Sound (s.see n) :=
  { h with
    owed_behind := fun k hk => (h.owed_behind k hk).imp_right fun f h0 => .inr (f h0)
    acks_behind := fun k hk => (h.acks_behind k hk).imp_right fun f h0 => .inr (f h0)
    marker_seen := fun hc hn => .inr (h.marker_seen hc hn)
    seen_made := fun k hk => hk.elim (fun e => by cases e; exact h.arrives hw) (h.seen_made k)
    seen_kept := fun k hk => hk.elim (fun e => by cases e; exact hkept) (h.seen_kept k) }

/-- What is kept was on the wire, and so was made with that number. -/
theorem Sound.keep {s : State β} (h : Sound s) {n : ℕ} {b : β} (hw : (n, b) ∈ s.wire)
    (hle : s.next ≤ n) : Sound (s.keep n b) := by
  refine { h with
    buffer_made := ?_
    seen_kept := fun k hk =>
      (h.seen_kept k hk).imp_right fun ⟨b', hb'⟩ => ⟨b', .inr hb'⟩ }
  intro p hp
  rcases hp with rfl | hp
  · have hpos := h.next_pos
    have hmade := (h.wire_made _ hw).resolve_left fun h0 => by
      have := h0.1
      omega
    exact ⟨hle, hmade⟩
  · exact h.buffer_made p hp

/-- A number below the next one was delivered before, so acknowledging it once more says nothing
new. -/
theorem Sound.owe {s : State β} (h : Sound s) {n : ℕ} (hlt : n < s.next)
    (hseen : n = 0 → 0 ∈ s.seen) : Sound (s.owe n) :=
  { h with
    owed_behind := fun k hk =>
      hk.elim (fun e => by cases e; exact ⟨hlt, hseen⟩) (h.owed_behind k) }

/-- The chunk released has the next number, so the delivered ones stay the first of those made. -/
theorem Sound.release {s : State β} (h : Sound s) {b : β} (hb : (s.next, b) ∈ s.buffer) :
    Sound (s.release b) := by
  obtain ⟨_, hmade⟩ := h.buffer_made _ hb
  have hpos := h.next_pos
  have hle := hmade.le
  refine { h with
    buffer_made := fun p hp =>
      ⟨Nat.lt_of_le_of_ne (h.buffer_made p hp.1).1 (Ne.symm hp.2), (h.buffer_made p hp.1).2⟩
    next_pos := Nat.succ_pos _
    next_le := Nat.succ_le_succ hle
    out_eq := ?_
    owed_behind := ?_
    acks_behind := fun n hn =>
      (h.acks_behind n hn).imp_left fun hlt => Nat.lt_succ_of_lt hlt
    pending_held := fun n h₁ h₂ => h.pending_held n (Nat.le_of_succ_le h₁) h₂
    seen_kept := ?_ }
  · obtain ⟨k, hk⟩ : ∃ k, s.next = k + 1 := ⟨s.next - 1, by omega⟩
    have hget : s.made[k]? = some b := by simpa [hk] using hmade.2
    simp only [State.release_out, State.release_made, State.release_next, h.out_eq, hk,
      Nat.add_sub_cancel, List.take_add_one, hget, Option.toList_some]
  · intro n hn
    rcases hn with rfl | hn
    · exact ⟨Nat.lt_succ_self _, fun h0 => by omega⟩
    · exact (h.owed_behind n hn).imp_left fun hlt => Nat.lt_succ_of_lt hlt
  · intro n hn
    rcases h.seen_kept n hn with hlt | ⟨b', hb'⟩
    · exact .inl (Nat.lt_succ_of_lt hlt)
    · by_cases hnn : n = s.next
      · exact .inl (hnn ▸ Nat.lt_succ_self _)
      · exact .inr ⟨b', hb', hnn⟩

/-- Only what is owed is acknowledged, and that was delivered. -/
theorem Sound.ack {s : State β} (h : Sound s) {n : ℕ} (hn : n ∈ s.owed) : Sound (s.ack n) :=
  { h with
    owed_behind := fun k hk => h.owed_behind k hk.1
    acks_behind := fun k hk =>
      hk.elim (fun e => by cases e; exact h.owed_behind n hn) (h.acks_behind k) }

/-- What is let go was acknowledged, and so was delivered. -/
theorem Sound.letGo {s : State β} (h : Sound s) {n : ℕ} (hn : n ∈ s.acks) :
    Sound (s.letGo n) := by
  obtain ⟨hlt, hseen⟩ := h.acks_behind n hn
  refine { h with
    held_made := fun k hk => h.held_made k hk.1
    pending_held := ?_
    marker_seen := ?_ }
  · intro k h₁ h₂
    refine ⟨h.pending_held k h₁ h₂, ?_⟩
    rintro rfl
    exact absurd hlt (not_lt_of_ge h₁)
  · intro hc h0
    by_cases hn0 : n = 0
    · exact hseen hn0
    · exact h.marker_seen hc fun hm => h0 ⟨hm, Ne.symm hn0⟩

/-- Every step keeps the exchange sound. -/
theorem Sound.step {s t : State β} (h : Sound s) (st : Step s t) : Sound t := by
  cases st with
  | make b hopen => exact h.make b hopen
  | close hopen => exact h.close
  | transmit hn hb => exact h.transmit hn hb
  | keep hw hle => exact (h.keep hw hle).see hw (.inr ⟨_, .inl rfl⟩)
  | owe hw hlt =>
    -- the arrival is recorded first: an owed marker must have been seen
    exact (h.see hw (.inl hlt)).owe hlt fun h0 => .inl h0.symm
  | ignore hw hkept => exact h.see hw hkept
  | release hb => exact h.release hb
  | ack hn => exact h.ack hn
  | letGo hn => exact h.letGo hn

/-- Every reachable exchange is sound. -/
theorem Sound.reachable {s : State β}
    (run : Relation.ReflTransGen Step (State.initial : State β) s) : Sound s := by
  induction run with
  | refl => exact .initial
  | tail _ st ih => exact ih.step st

/-- What is buffered or was released has arrived. -/
structure Seen (s : State β) : Prop where
  buffer_seen : ∀ p ∈ s.buffer, p.1 ∈ s.seen
  behind_seen : ∀ n, 1 ≤ n → n < s.next → n ∈ s.seen

/-- At the start nothing was seen. -/
theorem Seen.initial : Seen (State.initial : State β) where
  buffer_seen := fun _ h => h.elim
  behind_seen := fun _ h₁ h₂ => absurd h₁ (Nat.not_le_of_lt h₂)

/-- Each step keeps what the buffer and the debts hold among the numbers seen. -/
theorem Seen.step {s t : State β} (h : Seen s) (st : Step s t) : Seen t := by
  cases st with
  | keep hw hle =>
    refine ⟨?_, fun n h₁ h₂ => .inr (h.behind_seen n h₁ h₂)⟩
    intro p hp
    rcases hp with rfl | hp
    · exact .inl rfl
    · exact .inr (h.buffer_seen p hp)
  | release hb =>
    refine ⟨fun p hp => h.buffer_seen p hp.1, ?_⟩
    intro n h₁ h₂
    rcases Nat.lt_succ_iff_lt_or_eq.mp h₂ with hlt | rfl
    · exact h.behind_seen n h₁ hlt
    · exact h.buffer_seen _ hb
  | owe | ignore =>
    exact ⟨fun p hp => .inr (h.buffer_seen p hp), fun n h₁ h₂ => .inr (h.behind_seen n h₁ h₂)⟩
  | make | close | transmit | ack | letGo => exact ⟨h.buffer_seen, h.behind_seen⟩

/-- In every reachable state what is buffered or owed was seen before. -/
theorem Seen.reachable {s : State β}
    (run : Relation.ReflTransGen Step (State.initial : State β) s) : Seen s := by
  induction run with
  | refl => exact .initial
  | tail _ st ih => exact ih.step st

/-- When every packet made has arrived and nothing is buffered, everything was released. -/
theorem Sound.out_of_all_seen {s : State β} (h : Sound s)
    (hall : ∀ n, 1 ≤ n → n ≤ s.made.length → n ∈ s.seen) (hempty : s.buffer = ∅) :
    s.out = s.made := by
  have hpos := h.next_pos
  have hnext : s.made.length < s.next := by
    by_contra hge
    rcases h.seen_kept s.next (hall s.next hpos (by omega)) with hlt | ⟨b, hb⟩
    · exact absurd hlt (lt_irrefl _)
    · rw [hempty] at hb
      exact hb
  rw [h.out_eq, List.take_of_length_le (by omega)]

/-- When nothing but the marker can still be held, everything was released. -/
theorem Sound.out_of_none_held {s : State β} (h : Sound s)
    (hnone : ∀ n ∈ s.held, n = 0) : s.out = s.made := by
  have hpos := h.next_pos
  have hnext : s.made.length < s.next := by
    by_contra hge
    have := hnone _ (h.pending_held s.next le_rfl (by omega))
    omega
  rw [h.out_eq, List.take_of_length_le (by omega)]

end Window
