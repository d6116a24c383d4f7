import Mathlib.Logic.Relation

/-! States reached by the steps of a system, and the induction rule for invariants. -/

namespace Svr4

variable {State Event : Type}

/-- A state reached from a starting one by labelled steps that all meet `guard`.
The guard reads the state before the step and the label. -/
inductive Reaches (start : State → Prop) (step : State → Event → State → Prop)
    (guard : State → Event → Prop) : State → Prop where
  | start {s : State} : start s → Reaches start step guard s
  | next {s t : State} {event : Event} :
      Reaches start step guard s → step s event t → guard s event → Reaches start step guard t

section
variable {start : State → Prop} {step : State → Event → State → Prop}
  {guard : State → Event → Prop}

theorem Reaches.invariant {holds : State → Prop} (initial : ∀ s, start s → holds s)
    (preserved : ∀ s event t, holds s → step s event t → guard s event → holds t)
    {s : State} (reached : Reaches start step guard s) : holds s := by
  induction reached with
  | start first => exact initial _ first
  | next _ taken allowed ih => exact preserved _ _ _ ih taken allowed

theorem Reaches.weaken {other : State → Event → Prop}
    (sub : ∀ s event, guard s event → other s event) {s : State}
    (reached : Reaches start step guard s) : Reaches start step other s := by
  induction reached with
  | start first => exact .start first
  | next _ taken allowed ih => exact .next ih taken (sub _ _ allowed)

/-- The events of a list that are computed happen one after the other. -/
theorem Reaches.replay {run : State → Event → Option State}
    (taken : ∀ s event t, run s event = some t → step s event t ∧ guard s event) {events : List Event} {s t : State}
    (reached : Reaches start step guard s) (result : events.foldlM run s = some t) : Reaches start step guard t := by
  induction events generalizing s with
  | nil =>
    cases result
    exact reached
  | cons event events ih =>
    obtain ⟨u, first, rest⟩ := Option.bind_eq_some_iff.mp result
    have ⟨step, allowed⟩ := taken _ _ _ first
    exact ih (.next reached step allowed) rest

/-- The events of a list happen one after the other. -/
theorem Reaches.events {run : State → Event → Option State} (taken : ∀ s event t, run s event = some t → step s event t)
    (allowed : ∀ s event, guard s event) {events : List Event} {s t : State} (reached : Reaches start step guard s)
    (result : events.foldlM run s = some t) : Reaches start step guard t :=
  reached.replay (fun s event t first => ⟨taken s event t first, allowed s event⟩) result

end

/-- A run with its steps, each with the state before it, the last step first. -/
inductive Runs (start : State → Prop) (step : State → Event → State → Prop)
    (guard : State → Event → Prop) : List (State × Event) → State → Prop where
  | start {s : State} : start s → Runs start step guard [] s
  | next {history : List (State × Event)} {s t : State} {event : Event} :
      Runs start step guard history s → step s event t → guard s event →
      Runs start step guard ((s, event) :: history) t

section
variable {start : State → Prop} {step : State → Event → State → Prop}
  {guard : State → Event → Prop}

theorem Runs.reaches {history : List (State × Event)} {s : State} (runs : Runs start step guard history s) :
    Reaches start step guard s := by
  induction runs with
  | start first => exact .start first
  | next _ taken allowed ih => exact .next ih taken allowed

end

end Svr4
