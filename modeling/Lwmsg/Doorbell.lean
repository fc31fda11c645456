/-
This file is a library of values that are announced with a bell, as an `eventfd` is one. A publisher
writes the value and then rings. The subscriber that hears the bell silences it first and reads the
value then, so what is written behind its back rings again.

A program says of each of its states which value is written, whether the bell rings, who has written
and not rung yet, and what the subscriber is doing. Its steps are then steps of this library or leave
all that alone, and the subscriber has acted on the current value wherever nothing is on its way.
-/

import Mathlib.Data.Set.Insert

namespace Doorbell

/-- What the subscriber is doing. -/
inductive Task (Value : Type)
  | rests
  | hears
  | silenced
  | read (value : Value)

/-- A value with its bell. `announcing` are the publishers that have written and not rung yet, and
`seen` is the value the subscriber has acted on last. -/
structure State (Publisher Value : Type) where
  value : Value
  rings : Nat
  announcing : Set Publisher
  task : Task Value
  seen : Value

variable {Publisher Value : Type}

/-- What publishers and subscriber do, each in its own time. -/
inductive Step (state : State Publisher Value) : State Publisher Value → Prop
  | write (publisher : Publisher) (value : Value) :
      Step state { state with value, announcing := insert publisher state.announcing }
  | ring {publisher} (wrote : publisher ∈ state.announcing) :
      Step state { state with
        rings := state.rings + 1, announcing := state.announcing \ {publisher} }
  | hear (resting : state.task = .rests) (loud : 0 < state.rings) :
      Step state { state with task := .hears }
  | silence (hearing : state.task = .hears) : Step state { state with rings := 0, task := .silenced }
  | read (silent : state.task = .silenced) : Step state { state with task := .read state.value }
  | act {value} (has : state.task = .read value) :
      Step state { state with task := .rests, seen := value }

/-- The subscriber has acted on the value, or is about to do so. -/
def Task.Current (task : Task Value) (value seen : Value) : Prop :=
  match task with
  | .rests | .hears => seen = value
  | .silenced => True
  | .read has => has = value

/-- The subscriber is up to date, or it will be told. -/
def State.Heeded (state : State Publisher Value) : Prop :=
  0 < state.rings ∨ state.announcing.Nonempty ∨ state.task.Current state.value state.seen

section Steps

variable {state next : State Publisher Value}

/-- No announcement is lost. -/
theorem Step.heeded (step : Step state next) (heeded : state.Heeded) : next.Heeded := by
  cases step with
  | write publisher value => exact .inr (.inl (Set.insert_nonempty publisher state.announcing))
  | ring wrote => exact .inl (Nat.succ_pos _)
  | hear resting loud => exact .inl loud
  | silence hearing => exact .inr (.inr trivial)
  | read silent => exact heeded.imp_right fun rest => rest.imp_right fun _ => rfl
  | act has =>
    refine heeded.imp_right fun rest => rest.imp_right fun current => ?_
    rwa [has] at current

/-- Where the bell is silent and nobody is about to ring it, a subscriber at rest has acted on the
current value. -/
theorem State.Heeded.settled (heeded : state.Heeded) (silent : state.rings = 0)
    (nobody : state.announcing = ∅) (resting : state.task = .rests) : state.seen = state.value := by
  rcases heeded with loud | announcing | current
  · omega
  · rw [nobody] at announcing
    exact absurd announcing Set.not_nonempty_empty
  · rwa [resting] at current

end Steps

/-! ### How long an announcement takes -/

/-- What the subscriber does next. -/
def State.serve (state : State Publisher Value) : Option (State Publisher Value) :=
  match state.task with
  | .rests => if 0 < state.rings then some { state with task := .hears } else none
  | .hears => some { state with rings := 0, task := .silenced }
  | .silenced => some { state with task := .read state.value }
  | .read value => some { state with task := .rests, seen := value }

/-- How many steps are left before the subscriber rests with a silent bell. -/
def State.distance (state : State Publisher Value) : Nat :=
  match state.task with
  | .rests => if 0 < state.rings then 4 else 0
  | .hears => 3
  | .silenced => if 0 < state.rings then 6 else 2
  | .read _ => if 0 < state.rings then 5 else 1

theorem State.distance_le (state : State Publisher Value) : state.distance ≤ 6 := by
  unfold State.distance
  split <;> grind

/-- With no step left, the subscriber rests and the bell is silent. -/
theorem State.distance_eq_zero {state : State Publisher Value} (near : state.distance = 0) :
    state.task = .rests ∧ state.rings = 0 := by
  unfold State.distance at near
  split at near
  · rename_i resting
    split_ifs at near with loud
    exact ⟨resting, by omega⟩
  · cases near
  · split_ifs at near
  · split_ifs at near

theorem State.serve_step {state next : State Publisher Value} (serves : state.serve = some next) :
    Step state next ∧ next.value = state.value ∧ next.announcing = state.announcing ∧
      next.distance + 1 = state.distance := by
  obtain ⟨value, rings, announcing, task, seen⟩ := state
  cases task with
  | rests =>
    by_cases loud : 0 < rings
    · have served := (if_pos loud).symm.trans serves
      obtain rfl := Option.some.inj served
      exact ⟨.hear rfl loud, rfl, rfl, (if_pos loud).symm⟩
    · cases (if_neg loud).symm.trans serves
  | hears =>
    obtain rfl := Option.some.inj serves
    exact ⟨.silence rfl, rfl, rfl, rfl⟩
  | silenced =>
    obtain rfl := Option.some.inj serves
    refine ⟨.read rfl, rfl, rfl, ?_⟩
    show (if 0 < rings then 5 else 1) + 1 = if 0 < rings then 6 else 2
    split <;> rfl
  | read has =>
    obtain rfl := Option.some.inj serves
    refine ⟨.act rfl, rfl, rfl, ?_⟩
    show (if 0 < rings then 4 else 0) + 1 = if 0 < rings then 5 else 1
    split <;> rfl

end Doorbell
