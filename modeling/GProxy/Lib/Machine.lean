import Mathlib.Logic.Relation

/-!
# Machines that read one event a step

A machine is a partial function `step : σ → ε → Option σ`: `step s e = some t` when the event
`e` can happen in `s` and leads to `t`. What the outside may do is a second parameter,
`allow : σ → ε → Prop`, so one machine serves under several environments: `Move step allow` is
one step of it and `Run step allow` any number of them.

The rules say how a fact about one step becomes a fact about a run. `Run.invariant` is the
plain induction. `Run.guarded` is for a fact that needs a bound the whole run stays under,
where the bound is only known of the last state: it asks that the bound can be carried
backwards over a step. `Run.descend` is for what can be reached. `Run.simulated` carries a run
over to another machine, along a relation under which each step of the one is any number of steps
of the other.

`recording` is the machine with a history of what is observed of its steps; every run of the
machine has one (`Run.recorded`). `Eventually` says that every run comes to a state of a kind; a
kind of state that can be kept for ever refutes it (`Eventually.not_of_keeps`).
-/

namespace Machine

variable {σ ε τ : Type*} {step : σ → ε → Option σ} {allow allow' : σ → ε → Prop}

/-- One step of the machine under an event the environment allows. -/
def Move (step : σ → ε → Option σ) (allow : σ → ε → Prop) (s t : σ) : Prop :=
  ∃ e, allow s e ∧ step s e = some t

/-- Any number of steps. -/
abbrev Run (step : σ → ε → Option σ) (allow : σ → ε → Prop) : σ → σ → Prop :=
  Relation.ReflTransGen (Move step allow)

/-- The environment that may do anything. -/
def Free (_ : σ) (_ : ε) : Prop := True

instance (s : σ) (e : ε) : Decidable (Free s e) := .isTrue trivial

/-- The run along a list of events, when each is possible and allowed in turn. -/
def exec (step : σ → ε → Option σ) (allow : σ → ε → Prop) [∀ s e, Decidable (allow s e)] :
    σ → List ε → Option σ
  | s, [] => some s
  | s, e :: es => if allow s e then (step s e).bind fun t => exec step allow t es else none

/-- Where anything is allowed, a first event that is possible. -/
theorem exec_free_cons {s t : σ} {e : ε} {es : List ε} (h : step s e = some t) :
    exec step Free s (e :: es) = exec step Free t es := by
  rw [exec, if_pos (show Free s e from trivial), h, Option.bind_some]

/-- Executing a list of events is a run. -/
theorem run_of_exec [∀ s e, Decidable (allow s e)] {s t : σ} {es : List ε}
    (h : exec step allow s es = some t) : Run step allow s t := by
  induction es generalizing s with
  | nil => cases h; exact .refl
  | cons e es ih =>
    unfold exec at h
    split at h
    next ha =>
      obtain ⟨m, hm, hrest⟩ := Option.bind_eq_some_iff.mp h
      exact .head ⟨e, ha, hm⟩ (ih hrest)
    next => cases h

/-- The state a list of events leads to is reached by a run. -/
theorem run_exec [∀ s e, Decidable (allow s e)] {s : σ} {es : List ε}
    (h : (exec step allow s es).isSome) : Run step allow s ((exec step allow s es).get h) :=
  run_of_exec (Option.some_get h).symm

/-- A larger environment has every run of a smaller one. -/
theorem Run.mono (hsub : ∀ s e, allow s e → allow' s e) {s t : σ} (run : Run step allow s t) :
    Run step allow' s t :=
  Relation.ReflTransGen.mono (fun _ _ ⟨e, ha, he⟩ => ⟨e, hsub _ e ha, he⟩) _ _ run

/-- What holds at the start and is kept by each step holds at the end of a run. -/
theorem Run.invariant {I : σ → Prop}
    (keep : ∀ s e t, I s → allow s e → step s e = some t → I t) {s t : σ}
    (run : Run step allow s t) (init : I s) : I t := by
  induction run with
  | refl => exact init
  | tail _ move ih =>
    obtain ⟨e, ha, he⟩ := move
    exact keep _ e _ ih ha he

/-- The same under a bound `G`, known of the last state and carried back over each step. -/
theorem Run.guarded {I G : σ → Prop} (back : ∀ s e t, step s e = some t → G t → G s)
    (keep : ∀ s e t, I s → G t → allow s e → step s e = some t → I t) {s t : σ}
    (run : Run step allow s t) (init : I s) (bound : G t) : I t := by
  induction run with
  | refl => exact init
  | tail _ move ih =>
    obtain ⟨e, ha, he⟩ := move
    exact keep _ e _ (ih (back _ e _ he bound)) bound ha he

/-- Where a run leads down a measure for as long as `P` does not hold, a run leads to `P`. -/
theorem Run.descend {I P : σ → Prop} (measure : σ → Nat)
    (lower : ∀ s, I s → ¬ P s → ∃ t, Run step allow s t ∧ I t ∧ measure t < measure s) {s : σ}
    (init : I s) : ∃ t, Run step allow s t ∧ I t ∧ P t := by
  induction hn : measure s using Nat.strongRecOn generalizing s with
  | _ n ih =>
    by_cases hp : P s
    · exact ⟨s, .refl, init, hp⟩
    · obtain ⟨u, run, hu, hlt⟩ := lower s init hp
      obtain ⟨t, run', ht, hpt⟩ := ih _ (hn ▸ hlt) hu rfl
      exact ⟨t, run.trans run', ht, hpt⟩

/-! ## One machine seen as another -/

/-- Where a relation is kept by matching each step with a run of another machine, none being one
too, it is kept by matching each run with a run. -/
theorem Run.simulated {σ' ε' : Type*} {step' : σ' → ε' → Option σ'} {permit : σ' → ε' → Prop}
    {R : σ → σ' → Prop}
    (sim : ∀ s e t s', R s s' → allow s e → step s e = some t →
      ∃ t', Run step' permit s' t' ∧ R t t') {s t : σ} {s' : σ'}
    (run : Run step allow s t) (init : R s s') : ∃ t', Run step' permit s' t' ∧ R t t' := by
  induction run with
  | refl => exact ⟨s', .refl, init⟩
  | tail _ move ih =>
    obtain ⟨u', run', hu⟩ := ih
    obtain ⟨e, ha, he⟩ := move
    obtain ⟨t', run'', ht⟩ := sim _ e _ u' hu ha he
    exact ⟨t', run'.trans run'', ht⟩

/-- The same where the machines answer alike, event by event. -/
theorem Run.lockstep {σ' ε' : Type*} {step' : σ' → ε' → Option σ'} {permit : σ' → ε' → Prop}
    {R : σ → σ' → Prop} {event : ε → ε'}
    (lock : ∀ s e s', R s s' → allow s e → Option.Rel R (step s e) (step' s' (event e)))
    (permitted : ∀ s e s', R s s' → allow s e → permit s' (event e)) {s t : σ} {s' : σ'}
    (run : Run step allow s t) (init : R s s') : ∃ t', Run step' permit s' t' ∧ R t t' := by
  refine run.simulated ?_ init
  intro s e t s' hs ha he
  have hrel := lock s e s' hs ha
  rw [he] at hrel
  generalize hstep : step' s' (event e) = next at hrel
  cases hrel with
  | some ht => exact ⟨_, .single ⟨event e, permitted s e s' hs ha, hstep⟩, ht⟩

/-! ## Histories -/

variable {ω : Type*} {observe : σ → ε → σ → List ω}

/-- The machine with a history: every step adds what is observed of it. -/
def recording (step : σ → ε → Option σ) (observe : σ → ε → σ → List ω) (s : σ × List ω) (e : ε) :
    Option (σ × List ω) :=
  (step s.1 e).map fun t => (t, s.2 ++ observe s.1 e t)

/-- An environment that does not look at the history. -/
def Recorded (allow : σ → ε → Prop) (s : σ × List ω) (e : ε) : Prop := allow s.1 e

instance [∀ s e, Decidable (allow s e)] (s : σ × List ω) (e : ε) : Decidable (Recorded allow s e) :=
  inferInstanceAs (Decidable (allow s.1 e))

/-- Every run has a history. -/
theorem Run.recorded (observe : σ → ε → σ → List ω) {s t : σ} (run : Run step allow s t)
    (history : List ω) :
    ∃ history', Run (recording step observe) (Recorded allow) (s, history) (t, history') := by
  induction run with
  | refl => exact ⟨history, .refl⟩
  | @tail u v _ move ih =>
    obtain ⟨history', run'⟩ := ih
    obtain ⟨e, ha, he⟩ := move
    refine ⟨history' ++ observe u e v, run'.tail ⟨e, ha, ?_⟩⟩
    rw [recording, he]
    rfl

/-- One step, with what is observed of it. -/
theorem Run.record {s t : σ} {e : ε} (ha : allow s e) (he : step s e = some t)
    (history : List ω) : Run (recording step observe) (Recorded allow) (s, history)
      (t, history ++ observe s e t) :=
  .single ⟨e, ha, by rw [recording, he]; rfl⟩

/-- A step of the recording machine is a step of the machine that appends what is observed of it. -/
theorem recording_eq_some_iff {s t : σ × List ω} {e : ε} :
    recording step observe s e = some t ↔
      step s.1 e = some t.1 ∧ t.2 = s.2 ++ observe s.1 e t.1 := by
  rw [recording, Option.map_eq_some_iff]
  constructor
  · rintro ⟨u, hu, rfl⟩
    exact ⟨hu, rfl⟩
  · rintro ⟨hstep, hhistory⟩
    exact ⟨t.1, hstep, Prod.ext rfl hhistory.symm⟩

/-- What holds of a state and the history so far, and is kept by each step and what is observed of
it. -/
theorem Run.recorded_invariant {I : σ → List ω → Prop}
    (keep : ∀ s e t history, I s history → allow s e → step s e = some t →
      I t (history ++ observe s e t)) {s t : σ × List ω}
    (run : Run (recording step observe) (Recorded allow) s t) (init : I s.1 s.2) : I t.1 t.2 := by
  refine Run.invariant (I := fun s => I s.1 s.2) ?_ run init
  intro s e t hs ha he
  obtain ⟨hstep, hhistory⟩ := recording_eq_some_iff.mp he
  rw [hhistory]
  exact keep s.1 e t.1 s.2 hs ha hstep

/-! ## What every run comes to -/

/-- Every run comes to a state with `P`, and none is stuck before it. -/
inductive Eventually (step : σ → ε → Option σ) (allow : σ → ε → Prop) (P : σ → Prop) : σ → Prop
  | now {s : σ} : P s → Eventually step allow P s
  | later {s : σ} : (∃ t, Move step allow s t) →
      (∀ t, Move step allow s t → Eventually step allow P t) → Eventually step allow P s

variable {P : σ → Prop}

/-- A measure that every step lowers, under an invariant that lets no run get stuck, leads to
`P`. -/
theorem Eventually.of_measure {I : σ → Prop} (measure : σ → Nat)
    (live : ∀ s, I s → ¬ P s → ∃ t, Move step allow s t)
    (lower : ∀ s t, I s → ¬ P s → Move step allow s t → I t ∧ measure t < measure s) {s : σ}
    (init : I s) : Eventually step allow P s := by
  induction hn : measure s using Nat.strongRecOn generalizing s with
  | _ n ih =>
    by_cases hp : P s
    · exact .now hp
    · refine .later (live s init hp) ?_
      intro t move
      obtain ⟨ht, hlt⟩ := lower s t init hp move
      exact ih _ (hn ▸ hlt) ht rfl

/-- What a step can keep away from for ever is not what every run comes to. -/
theorem Eventually.not_of_keeps {I : σ → Prop} (away : ∀ s, I s → ¬ P s)
    (keep : ∀ s, I s → ∃ t, Move step allow s t ∧ I t) {s : σ} (init : I s) :
    ¬ Eventually step allow P s := by
  intro h
  induction h with
  | now hp => exact away _ init hp
  | later _ _ ih =>
    obtain ⟨t, move, ht⟩ := keep _ init
    exact ih t move ht

end Machine
