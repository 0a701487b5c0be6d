import Mathlib.Data.List.Basic
import Mathlib.Data.Option.Basic

/-! # Runs that reach a goal

A system takes steps by events. If from every state that satisfies the invariant some
events lead closer to the goal, then some events lead to it. -/

namespace Cecs

namespace Foundation

variable {State Event Measure : Type} {step : State → Event → Option State}

/-- One run after the other. -/
theorem foldlM_trans {first second : List Event} {start middle last : State}
    (ran : first.foldlM step start = some middle) (ranOn : second.foldlM step middle = some last) :
    (first ++ second).foldlM step start = some last := by
  rw [List.foldlM_append, ran]
  exact ranOn

/-- What each step preserves holds after a run. -/
theorem foldlM_preserves {Event : Type u} {step : State → Event → Option State}
    (invariant : State → Prop)
    (preserves : ∀ {state next : State} {event : Event}, invariant state →
      step state event = some next → invariant next) {events : List Event} {start last : State}
    (holds : invariant start) (ran : events.foldlM step start = some last) : invariant last := by
  induction events generalizing start with
  | nil =>
      cases ran
      exact holds
  | cons event rest induction =>
      rw [List.foldlM_cons] at ran
      rcases Option.bind_eq_some_iff.mp ran with ⟨next, stepped, ranOn⟩
      exact induction (preserves holds stepped) ranOn

/-- The events lead to a state of the kind. -/
def Reaches (step : State → Event → Option State) (start : State) (goal : State → Prop) : Prop :=
  ∃ (events : List Event) (last : State), events.foldlM step start = some last ∧ goal last

variable {start : State} {goal other : State → Prop}

theorem Reaches.here (holds : goal start) : Reaches step start goal := ⟨[], start, rfl, holds⟩

theorem Reaches.next {event : Event} {next : State} (stepped : step start event = some next)
    (reaches : Reaches step next goal) : Reaches step start goal := by
  rcases reaches with ⟨events, last, ran, holds⟩
  refine ⟨event :: events, last, ?_, holds⟩
  rw [List.foldlM_cons, stepped]
  exact ran

theorem Reaches.trans (reaches : Reaches step start other)
    (onwards : ∀ state, other state → Reaches step state goal) : Reaches step start goal := by
  rcases reaches with ⟨events, middle, ran, holds⟩
  rcases onwards middle holds with ⟨more, last, ranOn, holdsThere⟩
  exact ⟨events ++ more, last, foldlM_trans ran ranOn, holdsThere⟩

theorem Reaches.mono (reaches : Reaches step start other)
    (weaker : ∀ state, other state → goal state) : Reaches step start goal :=
  reaches.trans fun state holds => .here (weaker state holds)

/-- Each state of the invariant leads to the goal, or to one with a smaller measure. -/
theorem reaches_of_decreasing {relation : Measure → Measure → Prop}
    (wellFounded : WellFounded relation) (measure : State → Measure)
    {invariant : State → Prop}
    (closer : ∀ state, invariant state → Reaches step state fun next =>
      goal next ∨ invariant next ∧ relation (measure next) (measure state))
    (start : State) (holds : invariant start) : Reaches step start goal := by
  induction value : measure start using wellFounded.induction generalizing start with
  | _ current induction =>
      apply (closer start holds).trans
      intro next reached
      rcases reached with done | ⟨holdsNext, smaller⟩
      · exact .here done
      · exact induction _ (value ▸ smaller) next holdsNext rfl

end Foundation

end Cecs
