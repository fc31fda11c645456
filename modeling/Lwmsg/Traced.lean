/-
This file is about runs that record what they did. A machine takes a step for an event or refuses
the event, and a run keeps every event it took with the state it took it in.

The rules here are the induction over a run, the part of a run before one of its steps, the run of
an abstraction, and running a list of events.
-/

import Mathlib.Data.List.Basic
import Mathlib.Data.List.Infix
import Mathlib.Tactic.Common

namespace Lwmsg

variable {State Event Model Action : Type}

/-- A run from a state, with the events it took and the states it took them in. -/
inductive Traced (step : State → Event → Option State) (start : State) :
    List (State × Event) → State → Prop
  | start : Traced step start [] start
  | step {history state next event} (run : Traced step start history state)
      (taken : step state event = some next) :
      Traced step start (history ++ [(state, event)]) next

namespace Traced

variable {step : State → Event → Option State} {start state : State}
  {history : List (State × Event)}

/-- What holds at the start and is kept by every step holds in every state of a run. -/
theorem invariant {Good : State → Prop} (run : Traced step start history state)
    (first : Good start)
    (kept : ∀ visited ∈ history, Good visited.1 → ∀ next, step visited.1 visited.2 = some next →
      Good next) : Good state := by
  induction run with
  | start => exact first
  | @step history state next event run taken inductionHypothesis =>
    have before : Good state := inductionHypothesis fun visited member =>
      kept visited (List.mem_append_left _ member)
    exact kept (state, event) (List.mem_append_right _ (List.mem_singleton_self _)) before next taken

/-- The steps up to one of them are a run to the state it was taken in. -/
theorem before {earlier later : List (State × Event)} {visited : State × Event}
    (run : Traced step start history state) (split : history = earlier ++ visited :: later) :
    Traced step start earlier visited.1 := by
  induction run generalizing later with
  | start => simp at split
  | @step history state next event run taken inductionHypothesis =>
    rcases List.eq_nil_or_concat later with rfl | ⟨rest, last, rfl⟩
    · obtain ⟨rfl, same⟩ := List.append_inj' split rfl
      cases same
      exact run
    · have shorter : history = earlier ++ visited :: rest := by
        rw [List.concat_eq_append, ← List.cons_append, ← List.append_assoc] at split
        exact (List.append_inj' split rfl).1
      exact inductionHypothesis shorter

/-- A run of a machine is a run of its abstraction, if every step it takes is a step of the
abstraction. -/
theorem map {abstractStep : Model → Action → Option Model} {view : State → Model}
    {act : State → Event → Action} (run : Traced step start history state)
    (simulates : ∀ visited ∈ history, ∀ next, step visited.1 visited.2 = some next →
      abstractStep (view visited.1) (act visited.1 visited.2) = some (view next)) :
    Traced abstractStep (view start)
      (history.map fun visited => (view visited.1, act visited.1 visited.2)) (view state) := by
  induction run with
  | start => exact .start
  | @step history state next event run taken inductionHypothesis =>
    have before := inductionHypothesis fun visited member =>
      simulates visited (List.mem_append_left _ member)
    rw [List.map_append]
    exact .step before
      (simulates (state, event) (List.mem_append_right _ (List.mem_singleton_self _)) next taken)

end Traced

/-! ### Running events -/

/-- All events in order, each with the state it is taken in. -/
def traceAll (step : State → Event → Option State) (state : State) :
    List Event → Option (List (State × Event) × State)
  | [] => some ([], state)
  | event :: events => do
    let next ← step state event
    let (history, last) ← traceAll step next events
    return ((state, event) :: history, last)

theorem Traced.traceAll {step : State → Event → Option State} {start state last : State}
    {earlier history : List (State × Event)} {events : List Event}
    (run : Traced step start earlier state)
    (executed : traceAll step state events = some (history, last)) :
    Traced step start (earlier ++ history) last := by
  induction events generalizing earlier state history with
  | nil =>
    cases executed
    rw [List.append_nil]
    exact run
  | cons event events inductionHypothesis =>
    rw [Lwmsg.traceAll] at executed
    obtain ⟨next, taken, executed⟩ := Option.bind_eq_some_iff.mp executed
    obtain ⟨⟨rest, stop⟩, executed, same⟩ := Option.bind_eq_some_iff.mp executed
    cases same
    have longer := inductionHypothesis (.step run taken) executed
    rw [List.append_assoc, List.singleton_append] at longer
    exact longer

theorem traceAll_events {step : State → Event → Option State} {state last : State}
    {history : List (State × Event)} {events : List Event}
    (executed : traceAll step state events = some (history, last)) :
    history.map Prod.snd = events := by
  induction events generalizing state history with
  | nil =>
    cases executed
    rfl
  | cons event events inductionHypothesis =>
    rw [traceAll] at executed
    obtain ⟨next, _, executed⟩ := Option.bind_eq_some_iff.mp executed
    obtain ⟨⟨rest, stop⟩, executed, same⟩ := Option.bind_eq_some_iff.mp executed
    cases same
    rw [List.map_cons, inductionHypothesis executed]

end Lwmsg
