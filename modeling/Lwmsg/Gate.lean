/-
This file is a library of gates. One party decides something once, under a mutex, and announces it
with a condition variable; the others wait at the gate until it is decided. Who sleeps there has
given the mutex back, is woken by the announcement, and now and then by nothing.

A program says of each of its states who holds the mutex, what is decided, and what each party does.
Its steps are then steps of this library or leave all that alone, and who is through the gate knows
what was decided, and nobody sleeps behind the announcement.
-/

import Mathlib.Logic.Function.Basic

namespace Gate

/-- What a party is doing that waits for the decision. Who comes and who was woken both want the
mutex. -/
inductive Task (Verdict : Type)
  | absent
  | outside
  | checking
  | sleeping
  | leaving (verdict : Verdict)
  | through (verdict : Verdict)

/-- What the party is doing that decides. -/
inductive Keeper
  | outside
  | inside
  | stored
  | signalled
  | gone

/-- Who can hold the mutex. -/
inductive Party (Waiter : Type)
  | keeper
  | waiter (waiter : Waiter)
  deriving DecidableEq

structure State (Waiter Verdict : Type) where
  mutex : Option (Party Waiter)
  verdict : Option Verdict
  keeper : Keeper
  task : Waiter → Task Verdict

variable {Waiter Verdict : Type}

/-- What the announcement does to a party. -/
def Task.roused : Task Verdict → Task Verdict
  | .sleeping => .outside
  | task => task

/-- The tasks of those that hold the mutex. -/
def Task.Inside : Task Verdict → Prop
  | .checking | .leaving _ => True
  | _ => False

def Keeper.Inside : Keeper → Prop
  | .inside | .stored | .signalled => True
  | _ => False

def Keeper.Undecided : Keeper → Prop
  | .outside | .inside => True
  | _ => False

/-- The decision is announced. -/
def Keeper.Announced : Keeper → Prop
  | .signalled | .gone => True
  | _ => False

theorem Keeper.not_announced {keeper : Keeper} (undecided : keeper.Undecided) :
    ¬ keeper.Announced := by
  cases keeper <;> first | exact id | exact undecided.elim

section Steps

variable [DecidableEq Waiter]

def State.setTask (state : State Waiter Verdict) (waiter : Waiter) (task : Task Verdict) :
    State Waiter Verdict :=
  { state with task := Function.update state.task waiter task }

/-- What the parties do, each in its own time. -/
inductive Step (state : State Waiter Verdict) : State Waiter Verdict → Prop
  | comes {waiter} (here : state.task waiter = .absent) : Step state (state.setTask waiter .outside)
  | enters {waiter} (here : state.task waiter = .outside) (free : state.mutex = none) :
      Step state { state.setTask waiter .checking with mutex := some (.waiter waiter) }
  | sleeps {waiter} (here : state.task waiter = .checking) (undecided : state.verdict = none) :
      Step state { state.setTask waiter .sleeping with mutex := none }
  | wakes {waiter} (here : state.task waiter = .sleeping) :
      Step state (state.setTask waiter .outside)
  | reads {waiter verdict} (here : state.task waiter = .checking)
      (decided : state.verdict = some verdict) :
      Step state (state.setTask waiter (.leaving verdict))
  | leaves {waiter verdict} (here : state.task waiter = .leaving verdict) :
      Step state { state.setTask waiter (.through verdict) with mutex := none }
  | keeperEnters (here : state.keeper = .outside) (free : state.mutex = none) :
      Step state { state with keeper := .inside, mutex := some .keeper }
  | stores (verdict : Verdict) (here : state.keeper = .inside) :
      Step state { state with keeper := .stored, verdict := some verdict }
  | signals (here : state.keeper = .stored) :
      Step state { state with
        keeper := .signalled, task := fun waiter => (state.task waiter).roused }
  | keeperLeaves (here : state.keeper = .signalled) :
      Step state { state with keeper := .gone, mutex := none }

end Steps

/-- The gate works: the mutex is held by who is inside, who knows a verdict knows the right one, and
behind the announcement nobody sleeps. -/
structure Invariant (state : State Waiter Verdict) : Prop where
  keeperHolds : state.keeper.Inside ↔ state.mutex = some .keeper
  waiterHolds : ∀ waiter, (state.task waiter).Inside ↔ state.mutex = some (.waiter waiter)
  decided : state.verdict = none ↔ state.keeper.Undecided
  told : ∀ waiter verdict, state.task waiter = .leaving verdict ∨
    state.task waiter = .through verdict → state.verdict = some verdict
  awake : state.keeper.Announced → ∀ waiter, state.task waiter ≠ .sleeping

/-- Nobody has come, and nothing is decided. -/
theorem invariant_start (task : Waiter → Task Verdict) (nobody : ∀ waiter, task waiter = .absent) :
    Invariant ⟨none, none, .outside, task⟩ where
  keeperHolds := by simp [Keeper.Inside]
  waiterHolds := fun waiter => by simp [nobody waiter, Task.Inside]
  decided := ⟨fun _ => trivial, fun _ => rfl⟩
  told := fun waiter verdict knows => by simp [nobody waiter] at knows
  awake := fun announced => announced.elim

theorem Task.roused_inside (task : Task Verdict) : task.roused.Inside ↔ task.Inside := by
  cases task <;> exact Iff.rfl

theorem Task.roused_awake (task : Task Verdict) : task.roused ≠ .sleeping := by
  cases task <;> exact fun same => by cases same

theorem Task.roused_knows {task : Task Verdict} {verdict : Verdict}
    (knows : task.roused = .leaving verdict ∨ task.roused = .through verdict) :
    task = .leaving verdict ∨ task = .through verdict := by
  cases task <;> first | exact knows | (rcases knows with knows | knows <;> cases knows)

namespace Invariant

variable {state next : State Waiter Verdict} {waiter : Waiter}

/-- Who is inside has the mutex for itself. -/
theorem others (invariant : Invariant state) (inside : (state.task waiter).Inside)
    (party : Party Waiter) (different : party ≠ .waiter waiter) :
    none = some party ↔ state.mutex = some party := by
  rw [(invariant.waiterHolds waiter).mp inside]
  refine ⟨fun held => (by cases held), fun held => ?_⟩
  cases held
  exact absurd rfl different

variable [DecidableEq Waiter]

/-- One of those that wait goes on. The mutex changes for nobody else. -/
theorem turn (invariant : Invariant state) {task : Task Verdict} {mutex : Option (Party Waiter)}
    (own : task.Inside ↔ mutex = some (.waiter waiter))
    (others : ∀ party, party ≠ .waiter waiter → (mutex = some party ↔ state.mutex = some party))
    (knows : ∀ verdict, task = .leaving verdict ∨ task = .through verdict →
      state.verdict = some verdict)
    (awake : state.keeper.Announced → task ≠ .sleeping) :
    Invariant { state.setTask waiter task with mutex } where
  keeperHolds := invariant.keeperHolds.trans (others .keeper fun same => by cases same).symm
  waiterHolds := fun other => by
    by_cases same : other = waiter
    · subst same
      simpa [State.setTask] using own
    · have kept := others (.waiter other) fun equal => same (Party.waiter.inj equal)
      simpa [State.setTask, Function.update_of_ne same] using
        (invariant.waiterHolds other).trans kept.symm
  decided := invariant.decided
  told := fun other verdict => by
    by_cases same : other = waiter
    · subst same
      simpa [State.setTask] using knows verdict
    · simpa [State.setTask, Function.update_of_ne same] using invariant.told other verdict
  awake := fun announced other => by
    by_cases same : other = waiter
    · subst same
      simpa [State.setTask] using awake announced
    · simpa [State.setTask, Function.update_of_ne same] using invariant.awake announced other

/-- Where the mutex stays, nobody comes in or goes out. -/
theorem stays (invariant : Invariant state) {task : Task Verdict}
    (same : task.Inside ↔ (state.task waiter).Inside)
    (knows : ∀ verdict, task = .leaving verdict ∨ task = .through verdict →
      state.verdict = some verdict)
    (awake : state.keeper.Announced → task ≠ .sleeping) :
    Invariant (state.setTask waiter task) :=
  invariant.turn (same.trans (invariant.waiterHolds waiter))
    (fun _ _ => Iff.rfl) knows awake

/-- Who does not hold the mutex can want it at any time. -/
theorem outside (invariant : Invariant state) (notInside : ¬ (state.task waiter).Inside) :
    Invariant (state.setTask waiter .outside) := by
  refine invariant.stays ⟨False.elim, fun inside => absurd inside notInside⟩
    (fun verdict knows => ?_) fun _ asleep => by cases asleep
  rcases knows with knows | knows <;> cases knows

theorem step (invariant : Invariant state) (step : Step state next) : Invariant next := by
  cases step with
  | comes here => exact invariant.outside (by rw [here]; exact id)
  | enters here free =>
    refine invariant.turn ⟨fun _ => rfl, fun _ => trivial⟩ (fun party different => ?_)
      (fun verdict knows => ?_) fun _ asleep => by cases asleep
    · rw [free]
      exact ⟨fun held => absurd (Option.some.inj held).symm different, fun held => by cases held⟩
    · rcases knows with knows | knows <;> cases knows
  | sleeps here undecided =>
    refine invariant.turn ⟨False.elim, fun held => by cases held⟩
      (invariant.others (by rw [here]; trivial)) (fun verdict knows => ?_) fun announced => ?_
    · rcases knows with knows | knows <;> cases knows
    · have before := invariant.decided.mp undecided
      exact absurd announced (Keeper.not_announced before)
  | wakes here => exact invariant.outside (by rw [here]; exact id)
  | reads here decided =>
    refine invariant.stays ?_ (fun verdict knows => ?_) fun _ asleep => by cases asleep
    · rw [here]
      exact Iff.rfl
    · rcases knows with knows | knows <;> cases knows
      exact decided
  | leaves here =>
    refine invariant.turn ⟨False.elim, fun held => by cases held⟩
      (invariant.others (by rw [here]; trivial)) (fun verdict knows => ?_)
      fun _ asleep => by cases asleep
    rcases knows with knows | knows <;> cases knows
    exact invariant.told _ _ (.inl here)
  | keeperEnters here free =>
    refine ⟨⟨fun _ => rfl, fun _ => trivial⟩, fun other => ?_, ?_, invariant.told, False.elim⟩
    · refine ⟨fun inside => ?_, fun held => by cases held⟩
      rw [(invariant.waiterHolds other).mp inside] at free
      cases free
    · exact ⟨fun _ => trivial, fun _ => invariant.decided.mpr (by rw [here]; trivial)⟩
  | stores verdict here =>
    have held := invariant.keeperHolds.mp (by rw [here]; trivial)
    refine ⟨⟨fun _ => held, fun _ => trivial⟩, invariant.waiterHolds, ?_,
      fun other known knows => ?_, False.elim⟩
    · exact ⟨fun undecided => Option.some_ne_none verdict undecided, False.elim⟩
    · have before := invariant.told other known knows
      rw [invariant.decided.mpr (by rw [here]; trivial)] at before
      cases before
  | signals here =>
    have held := invariant.keeperHolds.mp (by rw [here]; trivial)
    refine ⟨⟨fun _ => held, fun _ => trivial⟩, fun other => ?_, ?_, fun other verdict knows => ?_,
      fun _ other => (state.task other).roused_awake⟩
    · exact (state.task other).roused_inside.trans (invariant.waiterHolds other)
    · refine invariant.decided.trans ?_
      rw [here]
      exact Iff.rfl
    · exact invariant.told other verdict (Task.roused_knows knows)
  | keeperLeaves here =>
    have held := invariant.keeperHolds.mp (by rw [here]; trivial)
    refine ⟨⟨False.elim, fun held => by cases held⟩, fun other => ?_, ?_, invariant.told,
      fun _ => invariant.awake (by rw [here]; trivial)⟩
    · refine ⟨fun inside => ?_, fun held => by cases held⟩
      rw [(invariant.waiterHolds other).mp inside] at held
      cases held
    · refine invariant.decided.trans ?_
      rw [here]
      exact Iff.rfl

end Invariant

end Gate
