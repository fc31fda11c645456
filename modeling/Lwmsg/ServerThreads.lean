/-
This file models the threads of the server with `main`, which starts them and lets them through
`thrd_startup_sync` together or not at all, tells them to end, waits for them, and gives back what
they worked on. Everything that can fail fails at times, and the threads take their steps in any
order.

The threads are modelled as far as `main` has to do with them. A thread that is through the gate
prepares its loop, for which it may fail and end, and leaves the loop only for the event of the
shutdown.
-/

import Lwmsg.Gate
import Lwmsg.ServerMain
import Mathlib.Algebra.Order.BigOperators.Group.Finset

namespace Lwmsg

/-! ### The threads -/

/-- The threads that `main` creates. -/
inductive ServerThread
  | reg
  | worker (thrdId : Nat)
  deriving DecidableEq, Repr

/-- `thrd_st_state`. -/
inductive ThrdStState
  | none
  | ok
  | nok
  deriving DecidableEq, Repr

/-- What a thread is doing. In `thrd_startup_sync` it is in front of the lock, for the first time or
woken in `pthread_cond_wait`; or it looks at the state, sleeps, or is in front of the unlock. Behind
it the thread prepares its loop, is in its loop, or has ended. -/
inductive ThreadTask
  | notCreated
  | locking
  | checking
  | sleeping
  | unlocking (startupOk : Bool)
  | preparing
  | serving
  | ended (startupOk : Bool)
  deriving DecidableEq, Repr

/-- What `main` is doing: it creates its threads; it is in `coord_thrd_startup_sync` in front of the
lock, the store, the broadcast, or the unlock; it reads commands; it joins its threads; it gives
back what it holds. It has aborted where it never came to its threads. -/
inductive MainTask
  | creatingReg
  | creatingWorkers
  | locking
  | storing
  | signalling
  | unlocking
  | control
  | joiningReg
  | joiningWorkers (j : Nat)
  | freeing
  | aborted
  | returned
  deriving DecidableEq, Repr

/-- `main` and its threads, with what they share. `launched` is the variable `i` of `main`. -/
structure MainWorld where
  mainTask : MainTask
  holdings : Holdings
  frame : Option MainFrame
  numWorkerThreads : Nat
  regLaunched : Bool
  launched : Nat
  syncLock : Option (Gate.Party ServerThread)
  thrdStartupState : ThrdStState
  tasks : ServerThread → ThreadTask
  flgShutdown : Nat
  progRetval : Int

namespace MainWorld

def setTask (world : MainWorld) (thread : ServerThread) (task : ThreadTask) : MainWorld :=
  { world with tasks := Function.update world.tasks thread task }

/-- What `main` hands to `coord_thrd_startup_sync`: every thread could be created. -/
def okCond (world : MainWorld) : Bool :=
  world.regLaunched && decide (world.launched = world.numWorkerThreads)

/-- A step of `main`. Where it creates a thread, that succeeds or does not. In the loop of the
control interface it is represented for its last round only, in which it writes to the eventfd,
because it was told to or because it cannot read. It joins a thread when that has ended. -/
def mainStep (world : MainWorld) (succeeds : Bool) : Option MainWorld :=
  match world.mainTask with
  | .creatingReg => do
    let holdings ← world.holdings.create .workerThrds
    let created := if succeeds then world.setTask .reg .locking else world
    return { created with holdings, regLaunched := succeeds, mainTask := .creatingWorkers }
  | .creatingWorkers =>
    if world.launched < world.numWorkerThreads ∧ succeeds then
      some { world.setTask (.worker world.launched) .locking with launched := world.launched + 1 }
    else some { world with mainTask := .locking }
  | .locking =>
    if world.syncLock = none then
      some { world with syncLock := some .keeper, mainTask := .storing }
    else none
  | .storing =>
    some { world with
      thrdStartupState := if world.okCond then .ok else .nok, mainTask := .signalling }
  | .signalling =>
    some { world with
      tasks := fun thread =>
        if world.tasks thread = .sleeping then .locking else world.tasks thread
      mainTask := .unlocking }
  | .unlocking =>
    some { world with
      syncLock := none, mainTask := if world.okCond then .control else .joiningReg }
  | .control =>
    some { world with
      flgShutdown := world.flgShutdown + 1, progRetval := 0, mainTask := .joiningReg }
  | .joiningReg =>
    match world.regLaunched, world.tasks .reg with
    | false, _ | true, .ended _ => some { world with mainTask := .joiningWorkers 0 }
    | true, _ => none
  | .joiningWorkers j =>
    if j < world.launched then
      match world.tasks (.worker j) with
      | .ended _ => some { world with mainTask := .joiningWorkers (j + 1) }
      | _ => none
    else some { world with mainTask := .freeing }
  | .freeing => do
    let frame ← world.frame
    let holdings ← thrdStartupFailed world.holdings frame
    return { world with holdings, mainTask := .returned }
  | .aborted | .returned => none

/-- A step of another thread: first `thrd_startup_sync`, then its own routine, which succeeds in
what it does in front of its loop or ends. -/
def threadStep (world : MainWorld) (thread : ServerThread) (succeeds : Bool) : Option MainWorld :=
  match world.tasks thread with
  | .locking =>
    if world.syncLock = none then
      some { world.setTask thread .checking with syncLock := some (.waiter thread) }
    else none
  | .checking =>
    if world.thrdStartupState = .none then
      some { world.setTask thread .sleeping with syncLock := none }
    else some (world.setTask thread (.unlocking (decide (world.thrdStartupState = .ok))))
  | .sleeping => some (world.setTask thread .locking)
  | .unlocking startupOk =>
    some { world.setTask thread (if startupOk then .preparing else .ended false) with
      syncLock := none }
  | .preparing => some (world.setTask thread (if succeeds then .serving else .ended true))
  | .serving => if 0 < world.flgShutdown then some (world.setTask thread (.ended true)) else none
  | .notCreated | .ended _ => none

end MainWorld

/-- Where `main` is when it has set up. -/
def mainStart (cfg : ServCfg) (outcome : SetupOutcome) (holdings : Holdings)
    (frame : Option MainFrame) : MainWorld where
  mainTask := if frame.isSome then .creatingReg else .aborted
  holdings := holdings
  frame := frame
  numWorkerThreads := numWorkerThreads cfg outcome
  regLaunched := false
  launched := 0
  syncLock := none
  thrdStartupState := .none
  tasks := fun _ => .notCreated
  flgShutdown := 0
  progRetval := -1

/-- A step of somebody. -/
inductive MainStep (world : MainWorld) : MainWorld → Prop
  | main {next} (succeeds : Bool) (taken : world.mainStep succeeds = some next) :
      MainStep world next
  | thread {next} (thread : ServerThread) (succeeds : Bool)
      (taken : world.threadStep thread succeeds = some next) : MainStep world next

/-- A run of `main` with its threads. -/
inductive MainRun (cfg : ServCfg) (outcome : SetupOutcome) : MainWorld → Prop
  | start {holdings frame} (setup : mainSetup cfg outcome = some (holdings, frame)) :
      MainRun cfg outcome (mainStart cfg outcome holdings frame)
  | step {world next} (run : MainRun cfg outcome world) (step : MainStep world next) :
      MainRun cfg outcome next

/-- What a thread works on. -/
def ServerThread.uses : ServerThread → Finset ServerResource
  | .reg =>
    {.regCtx, .regDb, .regIpblockTbl, .regChangedEfd, .whitelist, .shutdownEfd, .zlog, .serverCfg}
  | .worker thrdId =>
    {.workerCtxs, .workerDb thrdId, .clientTbl, .stdIpblockTbl, .whitelist, .shutdownEfd, .zlog,
      .serverCfg}

/-- The thread was created and has not ended. -/
def ThreadTask.Alive : ThreadTask → Prop
  | .notCreated | .ended _ => False
  | _ => True

/-! ### How long it takes -/

/-- The most steps a thread can take when the state is stored. -/
def ThreadTask.stepsLeft : ThreadTask → Nat
  | .sleeping => 6
  | .locking => 5
  | .checking => 4
  | .unlocking _ => 3
  | .preparing => 2
  | .serving => 1
  | .notCreated | .ended _ => 0

/-- The steps `main` has left when the state is stored. -/
def MainTask.stepsLeft (launched : Nat) : MainTask → Nat
  | .signalling => launched + 6
  | .unlocking => launched + 5
  | .control => launched + 4
  | .joiningReg => launched + 3
  | .joiningWorkers j => launched - j + 2
  | .freeing => 1
  | _ => 0

/-- The threads that there can be. -/
def serverThreads (n : Nat) : Finset ServerThread :=
  insert .reg ((Finset.range n).image .worker)

/-- The most steps that can still be taken when the state is stored. -/
def MainWorld.stepsLeft (world : MainWorld) : Nat :=
  world.mainTask.stepsLeft world.launched +
    ∑ thread ∈ serverThreads world.numWorkerThreads, (world.tasks thread).stepsLeft

/-! ### The steps, one by one -/

section Steps

variable {cfg : ServCfg} {outcome : SetupOutcome} {world next : MainWorld} {thread : ServerThread}
  {succeeds : Bool}

/-- The steps of `main`. -/
inductive MainTaken (world : MainWorld) : MainWorld → Prop
  | startsReg {holdings} (here : world.mainTask = .creatingReg)
      (created : world.holdings.create .workerThrds = some holdings) :
      MainTaken world { world.setTask .reg .locking with
        holdings, regLaunched := true, mainTask := .creatingWorkers }
  | missesReg {holdings} (here : world.mainTask = .creatingReg)
      (created : world.holdings.create .workerThrds = some holdings) :
      MainTaken world { world with
        holdings, regLaunched := false, mainTask := .creatingWorkers }
  | startsWorker (here : world.mainTask = .creatingWorkers)
      (more : world.launched < world.numWorkerThreads) :
      MainTaken world { world.setTask (.worker world.launched) .locking with
        launched := world.launched + 1 }
  | goesOn (here : world.mainTask = .creatingWorkers) :
      MainTaken world { world with mainTask := .locking }
  | locks (here : world.mainTask = .locking) (free : world.syncLock = none) :
      MainTaken world { world with syncLock := some .keeper, mainTask := .storing }
  | stores (here : world.mainTask = .storing) :
      MainTaken world { world with
        thrdStartupState := if world.okCond then .ok else .nok, mainTask := .signalling }
  | signals (here : world.mainTask = .signalling) :
      MainTaken world { world with
        tasks := fun thread =>
          if world.tasks thread = .sleeping then .locking else world.tasks thread
        mainTask := .unlocking }
  | opens (here : world.mainTask = .unlocking) (all : world.okCond = true) :
      MainTaken world { world with syncLock := none, mainTask := .control }
  | closes (here : world.mainTask = .unlocking) (missing : world.okCond = false) :
      MainTaken world { world with syncLock := none, mainTask := .joiningReg }
  | commands (here : world.mainTask = .control) :
      MainTaken world { world with
        flgShutdown := world.flgShutdown + 1, progRetval := 0, mainTask := .joiningReg }
  | joinsReg (here : world.mainTask = .joiningReg)
      (done : world.regLaunched = true → ¬ (world.tasks .reg).Alive) :
      MainTaken world { world with mainTask := .joiningWorkers 0 }
  | joinsWorker {j} (here : world.mainTask = .joiningWorkers j) (more : j < world.launched)
      (done : ¬ (world.tasks (.worker j)).Alive) :
      MainTaken world { world with mainTask := .joiningWorkers (j + 1) }
  | joinsAll {j} (here : world.mainTask = .joiningWorkers j) (all : world.launched ≤ j) :
      MainTaken world { world with mainTask := .freeing }
  | frees {frame holdings} (here : world.mainTask = .freeing) (has : world.frame = some frame)
      (given : thrdStartupFailed world.holdings frame = some holdings) :
      MainTaken world { world with holdings, mainTask := .returned }

/-- The steps of another thread. -/
inductive ThreadTaken (world : MainWorld) (thread : ServerThread) : MainWorld → Prop
  | locks (here : world.tasks thread = .locking) (free : world.syncLock = none) :
      ThreadTaken world thread
        { world.setTask thread .checking with syncLock := some (.waiter thread) }
  | sleeps (here : world.tasks thread = .checking) (undecided : world.thrdStartupState = .none) :
      ThreadTaken world thread { world.setTask thread .sleeping with syncLock := none }
  | reads (here : world.tasks thread = .checking) (decided : world.thrdStartupState ≠ .none) :
      ThreadTaken world thread
        (world.setTask thread (.unlocking (decide (world.thrdStartupState = .ok))))
  | wakes (here : world.tasks thread = .sleeping) :
      ThreadTaken world thread (world.setTask thread .locking)
  | leaves {startupOk} (here : world.tasks thread = .unlocking startupOk) :
      ThreadTaken world thread
        { world.setTask thread (if startupOk then .preparing else .ended false) with
          syncLock := none }
  | prepares (succeeds : Bool) (here : world.tasks thread = .preparing) :
      ThreadTaken world thread (world.setTask thread (if succeeds then .serving else .ended true))
  | ends (here : world.tasks thread = .serving) (told : 0 < world.flgShutdown) :
      ThreadTaken world thread (world.setTask thread (.ended true))

theorem ThreadTask.ended_not_alive (startupOk : Bool) :
    ¬ (ThreadTask.ended startupOk).Alive := id

theorem MainWorld.mainStep_taken (taken : world.mainStep succeeds = some next) :
    MainTaken world next := by
  unfold MainWorld.mainStep at taken
  split at taken
  · rename_i here
    obtain ⟨holdings, created, rest⟩ := Option.bind_eq_some_iff.mp taken
    cases rest
    cases succeeds with
    | false => exact .missesReg here created
    | true => exact .startsReg here created
  · rename_i here
    split at taken <;> cases taken
    · rename_i guard
      exact .startsWorker here guard.1
    · exact .goesOn here
  · rename_i here
    split at taken <;> cases taken
    exact .locks here ‹_›
  · rename_i here
    cases taken
    exact .stores here
  · rename_i here
    cases taken
    exact .signals here
  · rename_i here
    cases all : world.okCond with
    | false =>
      rw [all] at taken
      cases taken
      exact .closes here all
    | true =>
      rw [all] at taken
      cases taken
      exact .opens here all
  · rename_i here
    cases taken
    exact .commands here
  · rename_i here
    split at taken <;> cases taken
    · rename_i notLaunched
      exact .joinsReg here fun launched => by rw [notLaunched] at launched; cases launched
    · rename_i ended
      exact .joinsReg here fun _ => by rw [ended]; exact ThreadTask.ended_not_alive _
  · rename_i j here
    split at taken
    · rename_i more
      split at taken <;> cases taken
      rename_i ended
      exact .joinsWorker here more (by rw [ended]; exact ThreadTask.ended_not_alive _)
    · cases taken
      exact .joinsAll here (not_lt.mp ‹_›)
  · rename_i here
    obtain ⟨frame, has, rest⟩ := Option.bind_eq_some_iff.mp taken
    obtain ⟨holdings, given, same⟩ := Option.bind_eq_some_iff.mp rest
    cases same
    exact .frees here has given
  · cases taken
  · cases taken

theorem MainWorld.threadStep_taken (taken : world.threadStep thread succeeds = some next) :
    ThreadTaken world thread next := by
  unfold MainWorld.threadStep at taken
  split at taken
  · rename_i here
    split at taken <;> cases taken
    exact .locks here ‹_›
  · rename_i here
    split at taken <;> cases taken
    · exact .sleeps here ‹_›
    · exact .reads here ‹_›
  · rename_i here
    cases taken
    exact .wakes here
  · rename_i here
    cases taken
    exact .leaves here
  · rename_i here
    cases taken
    exact .prepares succeeds here
  · rename_i here
    split at taken <;> cases taken
    exact .ends here ‹_›
  · cases taken
  · cases taken

end Steps

/-- The threads that are not created are those that `main` has not come to, or could not create. -/
structure MainWorld.Created (world : MainWorld) : Prop where
  reg : world.tasks .reg = .notCreated ↔ world.regLaunched = false
  worker : ∀ thrdId, world.tasks (.worker thrdId) = .notCreated ↔ world.launched ≤ thrdId
  fresh : world.mainTask = .creatingReg ∨ world.mainTask = .aborted →
    world.regLaunched = false ∧ world.launched = 0
  few : world.launched ≤ world.numWorkerThreads

/-! ### The gate -/

def ThrdStState.verdict : ThrdStState → Option Bool
  | .none => .none
  | .ok => .some true
  | .nok => .some false

/-- What a thread is doing at the gate. -/
def ThreadTask.atGate : ThreadTask → Gate.Task Bool
  | .notCreated => .absent
  | .locking => .outside
  | .checking => .checking
  | .sleeping => .sleeping
  | .unlocking startupOk => .leaving startupOk
  | .preparing | .serving => .through true
  | .ended startupOk => .through startupOk

/-- What `main` is doing there. -/
def MainTask.atGate : MainTask → Gate.Keeper
  | .creatingReg | .creatingWorkers | .locking | .aborted => .outside
  | .storing => .inside
  | .signalling => .stored
  | .unlocking => .signalled
  | .control | .joiningReg | .joiningWorkers _ | .freeing | .returned => .gone

/-- `sync_lock`, `sync_cond` and `thrd_startup_state` are a gate. -/
def MainWorld.gate (world : MainWorld) : Gate.State ServerThread Bool where
  mutex := world.syncLock
  verdict := world.thrdStartupState.verdict
  keeper := world.mainTask.atGate
  task := fun thread => (world.tasks thread).atGate

section Gate

variable {world next : MainWorld} {thread : ServerThread}

theorem MainWorld.gate_congr (keeper : next.mainTask.atGate = world.mainTask.atGate)
    (lock : next.syncLock = world.syncLock)
    (state : next.thrdStartupState = world.thrdStartupState) (tasks : next.tasks = world.tasks) :
    next.gate = world.gate := by
  rw [gate, gate, keeper, lock, state, tasks]

theorem MainWorld.gate_setTask (world : MainWorld) (thread : ServerThread) (task : ThreadTask) :
    (world.setTask thread task).gate = world.gate.setTask thread task.atGate := by
  refine congrArg (Gate.State.mk _ _ _) (funext fun other => ?_)
  by_cases same : other = thread
  · subst same
    simp [setTask, gate]
  · simp [setTask, gate, Function.update_of_ne same]

theorem MainWorld.gate_turn (world : MainWorld) (thread : ServerThread) (task : ThreadTask)
    (syncLock : Option (Gate.Party ServerThread)) :
    { world.setTask thread task with syncLock }.gate =
      { world.gate.setTask thread task.atGate with mutex := syncLock } :=
  congrArg (fun gate : Gate.State ServerThread Bool => { gate with mutex := syncLock })
    (world.gate_setTask thread task)

theorem MainWorld.gate_task (world : MainWorld) {task : ThreadTask}
    (here : world.tasks thread = task) : world.gate.task thread = task.atGate :=
  congrArg ThreadTask.atGate here

/-- A thread whose task looks the same from the gate has not moved there. -/
theorem MainWorld.gate_still {task before : ThreadTask} (here : world.tasks thread = before)
    (same : task.atGate = before.atGate) : (world.setTask thread task).gate = world.gate := by
  rw [gate_setTask, same, ← world.gate_task here]
  exact congrArg (Gate.State.mk _ _ _) (Function.update_eq_self thread world.gate.task)

/-- A step of a thread is one at the gate, unless the thread is through. -/
theorem ThreadTaken.atGate (taken : ThreadTaken world thread next) :
    Gate.Step world.gate next.gate ∨ next.gate = world.gate := by
  cases taken with
  | locks here free =>
    rw [MainWorld.gate_turn]
    exact .inl (.enters (world.gate_task here) free)
  | sleeps here undecided =>
    rw [MainWorld.gate_turn]
    exact .inl (.sleeps (world.gate_task here) (congrArg ThrdStState.verdict undecided))
  | reads here decided =>
    have verdict : world.gate.verdict = some (decide (world.thrdStartupState = .ok)) := by
      show world.thrdStartupState.verdict = _
      cases state : world.thrdStartupState with
      | none => exact absurd state decided
      | ok => rfl
      | nok => rfl
    rw [MainWorld.gate_setTask]
    exact .inl (.reads (world.gate_task here) verdict)
  | wakes here =>
    rw [MainWorld.gate_setTask]
    exact .inl (.wakes (world.gate_task here))
  | @leaves startupOk here =>
    have task : (if startupOk then ThreadTask.preparing else .ended false).atGate =
        .through startupOk := by
      cases startupOk <;> rfl
    rw [MainWorld.gate_turn, task]
    exact .inl (.leaves (world.gate_task here))
  | prepares succeeds here =>
    refine .inr (MainWorld.gate_still here ?_)
    cases succeeds <;> rfl
  | ends here told => exact .inr (MainWorld.gate_still here rfl)

/-- The keeper of the gate is `main`. -/
theorem MainTaken.atGate (created : world.Created) (taken : MainTaken world next) :
    Gate.Step world.gate next.gate ∨ next.gate = world.gate := by
  have comes {thread : ServerThread} {next : MainWorld} (absent : world.tasks thread = .notCreated)
      (keeper : next.mainTask.atGate = world.mainTask.atGate)
      (lock : next.syncLock = world.syncLock)
      (state : next.thrdStartupState = world.thrdStartupState)
      (tasks : next.tasks = Function.update world.tasks thread .locking) :
      Gate.Step world.gate next.gate := by
    have same : next.gate = (world.setTask thread .locking).gate :=
      MainWorld.gate_congr keeper lock state tasks
    rw [same, MainWorld.gate_setTask]
    exact .comes (world.gate_task absent)
  have keeper {task : MainTask} (here : world.mainTask = task) : world.gate.keeper = task.atGate :=
    congrArg MainTask.atGate here
  cases taken with
  | startsReg here _ =>
    have absent := created.reg.mpr (created.fresh (.inl here)).1
    exact .inl (comes absent (keeper here).symm rfl rfl rfl)
  | missesReg here _ => exact .inr (MainWorld.gate_congr (keeper here).symm rfl rfl rfl)
  | startsWorker here more => exact .inl (comes ((created.worker _).mpr le_rfl) rfl rfl rfl rfl)
  | goesOn here => exact .inr (MainWorld.gate_congr (keeper here).symm rfl rfl rfl)
  | locks here free => exact .inl (.keeperEnters (keeper here) free)
  | stores here =>
    have verdict : (if world.okCond then ThrdStState.ok else .nok).verdict = some world.okCond := by
      cases world.okCond <;> rfl
    have stored := Gate.Step.stores world.okCond (keeper here)
    rw [← verdict] at stored
    exact .inl stored
  | signals here =>
    refine .inl ?_
    have signalled := Gate.Step.signals (keeper here)
    have roused : (fun thread => (if world.tasks thread = .sleeping then ThreadTask.locking
        else world.tasks thread).atGate) = fun thread => (world.gate.task thread).roused := by
      funext thread
      show _ = (world.tasks thread).atGate.roused
      cases world.tasks thread <;> rfl
    rw [← roused] at signalled
    exact signalled
  | opens here all => exact .inl (.keeperLeaves (keeper here))
  | closes here missing => exact .inl (.keeperLeaves (keeper here))
  | commands here => exact .inr (MainWorld.gate_congr (keeper here).symm rfl rfl rfl)
  | joinsReg here done => exact .inr (MainWorld.gate_congr (keeper here).symm rfl rfl rfl)
  | joinsWorker here more done => exact .inr (MainWorld.gate_congr (keeper here).symm rfl rfl rfl)
  | joinsAll here all => exact .inr (MainWorld.gate_congr (keeper here).symm rfl rfl rfl)
  | frees here has given => exact .inr (MainWorld.gate_congr (keeper here).symm rfl rfl rfl)

end Gate

/-! ### What holds in every run -/

/-- `main` has joined the thread. -/
def MainTask.Joined : MainTask → ServerThread → Prop
  | .joiningWorkers _, .reg => True
  | .joiningWorkers j, .worker thrdId => thrdId < j
  | .freeing, _ | .returned, _ => True
  | _, _ => False

/-- `main` is behind the loop of the control interface. -/
def MainTask.Closing : MainTask → Prop
  | .joiningReg | .joiningWorkers _ | .freeing | .returned => True
  | _ => False

/-- `main` has its variables, and so much is held. -/
def MainWorld.Ready (world : MainWorld) (sslCtx : Bool) (live : Finset ServerResource) : Prop :=
  world.frame = some (mainFrame sslCtx world.numWorkerThreads) ∧
    world.holdings = ⟨live, sslHeld sslCtx (world.numWorkerThreads + 2)⟩

/-- What is held, by what `main` is doing. -/
def MainWorld.Holds (world : MainWorld) (cfg : ServCfg) (outcome : SetupOutcome) : Prop :=
  match world.mainTask with
  | .creatingReg => world.Ready (setupTls cfg outcome) (setupLive world.numWorkerThreads)
  | .aborted => SetUp cfg outcome world.holdings none
  | .returned => world.holdings = ⟨∅, 0⟩
  | _ =>
    world.Ready (setupTls cfg outcome) (insert .workerThrds (setupLive world.numWorkerThreads))

structure MainInvariant (cfg : ServCfg) (outcome : SetupOutcome) (world : MainWorld) : Prop where
  created : world.Created
  gate : Gate.Invariant world.gate
  holds : world.Holds cfg outcome
  decided : ∀ verdict, world.thrdStartupState.verdict = some verdict → world.okCond = verdict
  joined : ∀ thread, world.mainTask.Joined thread → ¬ (world.tasks thread).Alive
  told : world.mainTask.Closing → world.okCond = true →
    0 < world.flgShutdown ∧ world.progRetval = 0
  succeeded : world.progRetval = 0 ∨ world.mainTask = .control → world.okCond = true

section Invariant

variable {cfg : ServCfg} {outcome : SetupOutcome} {world next : MainWorld} {thread : ServerThread}

/-- What a step of a thread leaves alone: all but its own task and the lock. -/
structure ThreadTurn (world : MainWorld) (thread : ServerThread) (next : MainWorld) : Prop where
  alive : (world.tasks thread).Alive
  tasks : ∃ task, task ≠ .notCreated ∧ next.tasks = Function.update world.tasks thread task
  mainTask : next.mainTask = world.mainTask
  holdings : next.holdings = world.holdings
  frame : next.frame = world.frame
  number : next.numWorkerThreads = world.numWorkerThreads
  regLaunched : next.regLaunched = world.regLaunched
  launched : next.launched = world.launched
  state : next.thrdStartupState = world.thrdStartupState
  flag : next.flgShutdown = world.flgShutdown
  retval : next.progRetval = world.progRetval

/-- A thread sets its own task, and takes the lock or gives it back. -/
theorem MainWorld.setTask_turn {task : ThreadTask} (alive : (world.tasks thread).Alive)
    (created : task ≠ .notCreated) (syncLock : Option (Gate.Party ServerThread)) :
    ThreadTurn world thread { world.setTask thread task with syncLock } :=
  ⟨alive, ⟨task, created, rfl⟩, rfl, rfl, rfl, rfl, rfl, rfl, rfl, rfl, rfl⟩

theorem ThreadTaken.turn (taken : ThreadTaken world thread next) :
    ThreadTurn world thread next := by
  cases taken with
  | locks here free => exact MainWorld.setTask_turn (by rw [here]; trivial) (by decide) _
  | sleeps here undecided => exact MainWorld.setTask_turn (by rw [here]; trivial) (by decide) _
  | reads here decided =>
    exact MainWorld.setTask_turn (by rw [here]; trivial) (fun same => by cases same) world.syncLock
  | wakes here =>
    exact MainWorld.setTask_turn (by rw [here]; trivial) (by decide) world.syncLock
  | @leaves startupOk here =>
    refine MainWorld.setTask_turn (by rw [here]; trivial) ?_ _
    cases startupOk <;> decide
  | prepares succeeds here =>
    refine MainWorld.setTask_turn (by rw [here]; trivial) ?_ world.syncLock
    cases succeeds <;> decide
  | ends here told =>
    exact MainWorld.setTask_turn (by rw [here]; trivial) (by decide) world.syncLock

theorem ThreadTask.Alive.created {task : ThreadTask} (alive : task.Alive) : task ≠ .notCreated := by
  rintro rfl
  exact alive

/-- A thread that takes a step has been created before and after it. -/
theorem ThreadTurn.created_iff (turn : ThreadTurn world thread next) (other : ServerThread) :
    next.tasks other = .notCreated ↔ world.tasks other = .notCreated := by
  obtain ⟨task, created, tasks⟩ := turn.tasks
  rw [tasks]
  by_cases same : other = thread
  · subst same
    rw [Function.update_self]
    exact ⟨fun absent => absurd absent created, fun absent => absurd absent turn.alive.created⟩
  · rw [Function.update_of_ne same]

theorem ThreadTurn.okCond (turn : ThreadTurn world thread next) : next.okCond = world.okCond := by
  rw [MainWorld.okCond, MainWorld.okCond, turn.regLaunched, turn.launched, turn.number]

theorem MainInvariant.threadStep (invariant : MainInvariant cfg outcome world)
    (taken : ThreadTaken world thread next) : MainInvariant cfg outcome next := by
  have turn := taken.turn
  refine ⟨⟨?_, fun thrdId => ?_, ?_, ?_⟩, ?_, ?_, ?_, fun other joined => ?_, ?_, ?_⟩
  · rw [turn.created_iff, turn.regLaunched]
    exact invariant.created.reg
  · rw [turn.created_iff, turn.launched]
    exact invariant.created.worker thrdId
  · rw [turn.mainTask, turn.regLaunched, turn.launched]
    exact invariant.created.fresh
  · rw [turn.launched, turn.number]
    exact invariant.created.few
  · rcases taken.atGate with moved | still
    · exact invariant.gate.step moved
    · rw [still]
      exact invariant.gate
  · rw [MainWorld.Holds, turn.mainTask, MainWorld.Ready, MainWorld.Ready, turn.frame, turn.holdings,
      turn.number]
    exact invariant.holds
  · rw [turn.state, turn.okCond]
    exact invariant.decided
  · rw [turn.mainTask] at joined
    obtain ⟨task, _, tasks⟩ := turn.tasks
    have different : other ≠ thread := by
      rintro rfl
      exact invariant.joined other joined turn.alive
    rw [tasks, Function.update_of_ne different]
    exact invariant.joined other joined
  · rw [turn.mainTask, turn.okCond, turn.flag, turn.retval]
    exact invariant.told
  · rw [turn.mainTask, turn.okCond, turn.retval]
    exact invariant.succeeded

theorem MainInvariant.keeps (invariant : MainInvariant cfg outcome world)
    (taken : MainTaken world next) : Gate.Invariant next.gate := by
  rcases taken.atGate invariant.created with moved | still
  · exact invariant.gate.step moved
  · rw [still]
    exact invariant.gate

/-- Where `main` has not decided, nothing is stored. -/
theorem MainInvariant.undecided (invariant : MainInvariant cfg outcome world)
    (before : world.mainTask.atGate.Undecided) (verdict : Bool) :
    world.thrdStartupState.verdict ≠ some verdict := fun known => by
  have none : world.thrdStartupState.verdict = none := invariant.gate.decided.mpr before
  rw [none] at known
  cases known

/-- Away from the loop of the control interface the result still says whether all were created. -/
theorem MainInvariant.succeededAt (invariant : MainInvariant cfg outcome world) {task : MainTask}
    (elsewhere : task ≠ .control) (success : world.progRetval = 0 ∨ task = .control) :
    world.okCond = true :=
  invariant.succeeded (success.imp_right fun control => absurd control elsewhere)

/-- A step of `main` that creates no thread and stores nothing. -/
theorem MainInvariant.goes (invariant : MainInvariant cfg outcome world)
    (taken : MainTaken world next) (tasks : next.tasks = world.tasks)
    (regLaunched : next.regLaunched = world.regLaunched)
    (launched : next.launched = world.launched)
    (number : next.numWorkerThreads = world.numWorkerThreads)
    (state : next.thrdStartupState = world.thrdStartupState)
    (begun : ¬ (next.mainTask = .creatingReg ∨ next.mainTask = .aborted))
    (holds : next.Holds cfg outcome)
    (joined : ∀ thread, next.mainTask.Joined thread → ¬ (world.tasks thread).Alive)
    (told : next.mainTask.Closing → world.okCond = true →
      0 < next.flgShutdown ∧ next.progRetval = 0)
    (succeeded : next.progRetval = 0 ∨ next.mainTask = .control → world.okCond = true) :
    MainInvariant cfg outcome next := by
  have okCond : next.okCond = world.okCond := by
    rw [MainWorld.okCond, MainWorld.okCond, regLaunched, launched, number]
  refine ⟨⟨?_, fun thrdId => ?_, fun fresh => ?_, ?_⟩, invariant.keeps taken, holds, ?_, ?_, ?_, ?_⟩
  · rw [tasks, regLaunched]
    exact invariant.created.reg
  · rw [tasks, launched]
    exact invariant.created.worker thrdId
  · exact absurd fresh begun
  · rw [launched, number]
    exact invariant.created.few
  · rw [state, okCond]
    exact invariant.decided
  · rw [tasks]
    exact joined
  · rw [okCond]
    exact told
  · rw [okCond]
    exact succeeded

/-- A step of `main` in which it creates a thread or fails to. -/
theorem MainInvariant.creates (invariant : MainInvariant cfg outcome world)
    (taken : MainTaken world next) (before : world.mainTask.atGate = .outside)
    (notAll : world.okCond = false) (here : next.mainTask = .creatingWorkers)
    (reg : next.tasks .reg = .notCreated ↔ next.regLaunched = false)
    (worker : ∀ thrdId, next.tasks (.worker thrdId) = .notCreated ↔ next.launched ≤ thrdId)
    (few : next.launched ≤ next.numWorkerThreads)
    (state : next.thrdStartupState = world.thrdStartupState)
    (retval : next.progRetval = world.progRetval)
    (ready : next.Ready (setupTls cfg outcome)
      (insert .workerThrds (setupLive next.numWorkerThreads))) :
    MainInvariant cfg outcome next where
  created := by
    refine ⟨reg, worker, fun begun => ?_, few⟩
    rw [here] at begun
    rcases begun with same | same <;> cases same
  gate := invariant.keeps taken
  holds := by
    rw [MainWorld.Holds, here]
    exact ready
  decided := fun verdict known => by
    rw [state] at known
    exact absurd known (invariant.undecided (by rw [before]; trivial) verdict)
  joined := fun thread joined => by
    rw [here] at joined
    exact joined.elim
  told := fun closing => by
    rw [here] at closing
    exact closing.elim
  succeeded := fun success => by
    have zero : world.progRetval = 0 := by
      rcases success with zero | control
      · rwa [retval] at zero
      · rw [here] at control
        cases control
    rw [invariant.succeeded (.inl zero)] at notAll
    cases notAll

/-- The broadcast creates no thread. -/
theorem ThreadTask.roused_created (task : ThreadTask) :
    (if task = .sleeping then ThreadTask.locking else task) = .notCreated ↔ task = .notCreated := by
  cases task <;> simp

theorem Holdings.create_some {holdings after : Holdings} {resource : ServerResource}
    (created : holdings.create resource = some after) :
    after = ⟨insert resource holdings.live, holdings.sslRefs⟩ := by
  rw [create] at created
  split at created <;> cases created
  rfl

theorem MainInvariant.mainStep (invariant : MainInvariant cfg outcome world)
    (taken : MainTaken world next) : MainInvariant cfg outcome next := by
  have holds := invariant.holds
  have joinedBefore := invariant.joined
  have toldBefore := invariant.told
  rw [MainWorld.Holds] at holds
  cases taken with
  | startsReg here created =>
    rw [here] at holds
    have fresh := invariant.created.fresh (.inl here)
    have notAll : world.okCond = false := by rw [MainWorld.okCond, fresh.1]; rfl
    refine invariant.creates (.startsReg here created) (by rw [here]; rfl) notAll rfl ?_
      (fun thrdId => ?_) invariant.created.few rfl rfl ⟨holds.1, ?_⟩
    · simp [MainWorld.setTask]
    · simpa [MainWorld.setTask] using invariant.created.worker thrdId
    · rw [Holdings.create_some created, holds.2]
      rfl
  | missesReg here created =>
    rw [here] at holds
    have fresh := invariant.created.fresh (.inl here)
    have notAll : world.okCond = false := by rw [MainWorld.okCond, fresh.1]; rfl
    refine invariant.creates (.missesReg here created) (by rw [here]; rfl) notAll rfl ?_
      invariant.created.worker invariant.created.few rfl rfl ⟨holds.1, ?_⟩
    · exact ⟨fun _ => rfl, fun _ => invariant.created.reg.mpr fresh.1⟩
    · rw [Holdings.create_some created, holds.2]
  | startsWorker here more =>
    rw [here] at holds
    have notAll : world.okCond = false := by
      rw [MainWorld.okCond, decide_eq_false (by omega), Bool.and_false]
    refine invariant.creates (.startsWorker here more) (by rw [here]; rfl) notAll here ?_
      (fun thrdId => ?_) more rfl rfl holds
    · simpa [MainWorld.setTask] using invariant.created.reg
    · have before := invariant.created.worker thrdId
      by_cases same : thrdId = world.launched
      · subst same
        simp [MainWorld.setTask]
      · simp only [MainWorld.setTask, ServerThread.worker.injEq, ne_eq, same, not_false_eq_true,
          Function.update_of_ne, before]
        omega
  | goesOn here =>
    rw [here] at holds
    exact invariant.goes (.goesOn here) rfl rfl rfl rfl rfl (by simp) holds (fun _ => False.elim)
      False.elim (invariant.succeededAt (by simp))
  | locks here free =>
    rw [here] at holds
    exact invariant.goes (.locks here free) rfl rfl rfl rfl rfl (by simp) holds
      (fun _ => False.elim) False.elim
      (invariant.succeededAt (by simp))
  | stores here =>
    rw [here] at holds
    refine ⟨⟨invariant.created.reg, invariant.created.worker, fun fresh => ?_,
      invariant.created.few⟩, invariant.keeps (.stores here), holds, fun verdict known => ?_,
      fun _ => False.elim, False.elim, fun success => ?_⟩
    · rcases fresh with same | same <;> cases same
    · have stored : (if world.okCond then ThrdStState.ok else .nok).verdict = some verdict := known
      show world.okCond = verdict
      cases all : world.okCond with
      | false =>
        rw [all] at stored
        exact Option.some.inj stored
      | true =>
        rw [all] at stored
        exact Option.some.inj stored
    · exact invariant.succeededAt (by simp) success
  | signals here =>
    rw [here] at holds
    refine ⟨⟨(ThreadTask.roused_created _).trans invariant.created.reg, fun thrdId =>
      (ThreadTask.roused_created _).trans (invariant.created.worker thrdId), fun fresh => ?_,
      invariant.created.few⟩, invariant.keeps (.signals here), holds, invariant.decided,
      fun _ => False.elim, False.elim, fun success => ?_⟩
    · rcases fresh with same | same <;> cases same
    · exact invariant.succeededAt (by simp) success
  | opens here all =>
    rw [here] at holds
    exact invariant.goes (.opens here all) rfl rfl rfl rfl rfl (by simp) holds
      (fun _ => False.elim) False.elim fun _ => all
  | closes here missing =>
    rw [here] at holds
    refine invariant.goes (.closes here missing) rfl rfl rfl rfl rfl (by simp) holds
      (fun _ => False.elim) (fun _ all => ?_)
      (invariant.succeededAt (by simp))
    rw [missing] at all
    cases all
  | commands here =>
    rw [here] at holds
    exact invariant.goes (.commands here) rfl rfl rfl rfl rfl (by simp) holds
      (fun _ => False.elim) (fun _ _ => ⟨Nat.succ_pos _, rfl⟩)
      fun _ => invariant.succeeded (.inr here)
  | joinsReg here done =>
    rw [here] at holds
    refine invariant.goes (.joinsReg here done) rfl rfl rfl rfl rfl (by simp) holds
      (fun thread joined => ?_) (fun _ => toldBefore (by rw [here]; trivial))
      (invariant.succeededAt (by simp))
    cases thread with
    | reg =>
      cases launched : world.regLaunched with
      | true => exact done launched
      | false => exact fun alive => alive.created (invariant.created.reg.mpr launched)
    | worker thrdId => exact absurd joined (Nat.not_lt_zero thrdId)
  | @joinsWorker j here more done =>
    rw [here] at holds joinedBefore
    refine invariant.goes (.joinsWorker here more done) rfl rfl rfl rfl rfl (by simp) holds
      (fun thread joined => ?_) (fun _ => toldBefore (by rw [here]; trivial))
      (invariant.succeededAt (by simp))
    cases thread with
    | reg => exact joinedBefore .reg trivial
    | worker thrdId =>
      rcases Nat.lt_succ_iff_lt_or_eq.mp joined with before | same
      · exact joinedBefore (.worker thrdId) before
      · rwa [same]
  | @joinsAll j here all =>
    rw [here] at holds joinedBefore
    refine invariant.goes (.joinsAll here all) rfl rfl rfl rfl rfl (by simp) holds
      (fun thread _ => ?_) (fun _ => toldBefore (by rw [here]; trivial))
      (invariant.succeededAt (by simp))
    cases thread with
    | reg => exact joinedBefore .reg trivial
    | worker thrdId =>
      by_cases before : thrdId < j
      · exact joinedBefore (.worker thrdId) before
      · have absent := (invariant.created.worker thrdId).mpr (all.trans (not_lt.mp before))
        exact fun alive => alive.created absent
  | @frees frame holdings here has given =>
    rw [here] at holds joinedBefore
    refine invariant.goes (.frees here has given) rfl rfl rfl rfl rfl (by simp) ?_
      (fun thread _ => joinedBefore thread trivial) (fun _ => toldBefore (by rw [here]; trivial))
      (invariant.succeededAt (by simp))
    obtain rfl := Option.some.inj (has.symm.trans holds.1)
    rw [holds.2, (givesBack_thrdStartupFailed world.numWorkerThreads).all] at given
    exact (Option.some.inj given).symm

/-- What the setup leaves is where the threads begin, or the end. -/
theorem mainStart_invariant {holdings : Holdings} {frame : Option MainFrame}
    (setUp : SetUp cfg outcome holdings frame) :
    MainInvariant cfg outcome (mainStart cfg outcome holdings frame) := by
  have created : (mainStart cfg outcome holdings frame).Created :=
    ⟨by simp [mainStart], by simp [mainStart], fun _ => ⟨rfl, rfl⟩, Nat.zero_le _⟩
  have gate :=
    Gate.invariant_start (fun _ : ServerThread => (.absent : Gate.Task Bool)) fun _ => rfl
  have decided : ∀ verdict, ThrdStState.none.verdict = some verdict →
      (mainStart cfg outcome holdings frame).okCond = verdict := fun verdict known => by cases known
  have succeeded : (mainStart cfg outcome holdings frame).progRetval = 0 ∨
      (mainStart cfg outcome holdings frame).mainTask = .control →
        (mainStart cfg outcome holdings frame).okCond = true := fun success => by
    rcases success with zero | control
    · cases zero
    · cases frame <;> cases control
  cases setUp with
  | ready =>
    exact ⟨created, gate, ⟨rfl, rfl⟩, decided, fun _ => False.elim, False.elim, succeeded⟩
  | leaked fails =>
    exact ⟨created, gate, .leaked fails, decided, fun _ => False.elim, False.elim, succeeded⟩
  | aborted succeeds =>
    exact ⟨created, gate, .aborted succeeds, decided, fun _ => False.elim, False.elim, succeeded⟩

theorem MainInvariant.step (invariant : MainInvariant cfg outcome world)
    (step : MainStep world next) : MainInvariant cfg outcome next := by
  cases step with
  | main succeeds taken => exact invariant.mainStep (MainWorld.mainStep_taken taken)
  | thread thread succeeds taken => exact invariant.threadStep (MainWorld.threadStep_taken taken)

theorem MainRun.invariant (run : MainRun cfg outcome world) : MainInvariant cfg outcome world := by
  induction run with
  | start setup =>
    obtain ⟨holdings, frame, made, setUp⟩ := mainSetup_spec cfg outcome
    cases made.symm.trans setup
    exact mainStart_invariant setUp
  | step run step ih => exact ih.step step

end Invariant

/-! ### Nobody waits for ever -/

/-- `main` or a thread can take a step, and be it not the step of a thread that is woken by
nothing. -/
def MainWorld.GoesOn (world : MainWorld) : Prop :=
  (∃ succeeds next, world.mainStep succeeds = some next) ∨
    ∃ thread succeeds next, world.tasks thread ≠ .sleeping ∧
      world.threadStep thread succeeds = some next

section Progress

variable {cfg : ServCfg} {outcome : SetupOutcome} {world next : MainWorld} {thread : ServerThread}

theorem MainWorld.goesOn_main (succeeds : Bool) (steps : (world.mainStep succeeds).isSome) :
    world.GoesOn :=
  .inl ⟨succeeds, Option.isSome_iff_exists.mp steps⟩

theorem MainWorld.goesOn_thread (awake : world.tasks thread ≠ .sleeping)
    (steps : (world.threadStep thread true).isSome) : world.GoesOn := by
  obtain ⟨next, taken⟩ := Option.isSome_iff_exists.mp steps
  exact .inr ⟨thread, true, next, awake, taken⟩

/-- Who holds the lock can go on. -/
theorem MainInvariant.lockHolder (invariant : MainInvariant cfg outcome world)
    (held : world.syncLock ≠ none) : world.GoesOn := by
  obtain ⟨party, has⟩ := Option.ne_none_iff_exists'.mp held
  cases party with
  | keeper =>
    have inside : world.mainTask.atGate.Inside := invariant.gate.keeperHolds.mpr has
    refine MainWorld.goesOn_main true ?_
    rw [MainWorld.mainStep]
    cases here : world.mainTask <;> rw [here] at inside <;> first | rfl | exact inside.elim
  | waiter thread =>
    have inside : (world.tasks thread).atGate.Inside := (invariant.gate.waiterHolds thread).mpr has
    cases here : world.tasks thread with
    | checking =>
      refine MainWorld.goesOn_thread (by rw [here]; decide) ?_
      simp only [MainWorld.threadStep, here]
      split <;> rfl
    | unlocking startupOk =>
      refine MainWorld.goesOn_thread (by rw [here]; exact fun same => by cases same) ?_
      simp only [MainWorld.threadStep, here]
      rfl
    | _ =>
      rw [here] at inside
      exact inside.elim

/-- A thread that the gate has let through was told that all were created. -/
theorem MainInvariant.admitted (invariant : MainInvariant cfg outcome world)
    (through : (world.tasks thread).atGate = .through true) : world.okCond = true :=
  invariant.decided true (invariant.gate.told thread true (.inr through))

/-- Behind the gate a thread that has not ended can go on, or somebody that it waits for. -/
theorem MainInvariant.aliveGoesOn (invariant : MainInvariant cfg outcome world)
    (closing : world.mainTask.Closing) (alive : (world.tasks thread).Alive) : world.GoesOn := by
  have gone : world.mainTask.atGate = .gone := by
    cases here : world.mainTask <;> rw [here] at closing <;> first | rfl | exact closing.elim
  have notAsleep : (world.tasks thread).atGate ≠ .sleeping :=
    invariant.gate.awake (by show world.mainTask.atGate.Announced; rw [gone]; trivial) thread
  have awake : world.tasks thread ≠ .sleeping := fun asleep => by
    rw [asleep] at notAsleep
    exact notAsleep rfl
  cases here : world.tasks thread with
  | locking =>
    by_cases free : world.syncLock = none
    · refine MainWorld.goesOn_thread awake ?_
      simp only [MainWorld.threadStep, here, if_pos free]
      rfl
    · exact invariant.lockHolder free
  | checking =>
    refine MainWorld.goesOn_thread awake ?_
    simp only [MainWorld.threadStep, here]
    split <;> rfl
  | sleeping => exact absurd here awake
  | unlocking startupOk =>
    refine MainWorld.goesOn_thread awake ?_
    simp only [MainWorld.threadStep, here]
    rfl
  | preparing =>
    refine MainWorld.goesOn_thread awake ?_
    simp only [MainWorld.threadStep, here]
    rfl
  | serving =>
    have all := invariant.admitted (show (world.tasks thread).atGate = _ by rw [here]; rfl)
    have told := invariant.told closing all
    refine MainWorld.goesOn_thread awake ?_
    simp only [MainWorld.threadStep, here, if_pos told.1]
    rfl
  | notCreated =>
    rw [here] at alive
    exact alive.elim
  | ended startupOk =>
    rw [here] at alive
    exact alive.elim

theorem workerThrds_not_mem (workers : Nat) : .workerThrds ∉ setupLive workers := by
  simp [setupLive, tablesLive, regOwned, baseLive, mem_workerDbs]

/-- A thread that was created and is not alive has ended. -/
theorem ThreadTask.ended_of_not_alive {task : ThreadTask} (created : task ≠ .notCreated)
    (gone : ¬ task.Alive) : ∃ startupOk, task = .ended startupOk := by
  cases task with
  | ended startupOk => exact ⟨startupOk, rfl⟩
  | notCreated => exact absurd rfl created
  | _ => exact absurd trivial gone

/-- `main` has returned, or somebody can go on. -/
theorem MainInvariant.goesOn (invariant : MainInvariant cfg outcome world)
    (aborts : world.mainTask ≠ .aborted) (returns : world.mainTask ≠ .returned) :
    world.GoesOn := by
  have holds := invariant.holds
  rw [MainWorld.Holds] at holds
  cases here : world.mainTask with
  | creatingReg =>
    rw [here] at holds
    refine MainWorld.goesOn_main true ?_
    simp only [MainWorld.mainStep, here, holds.2, Holdings.create_eq (workerThrds_not_mem _)]
    rfl
  | creatingWorkers =>
    refine MainWorld.goesOn_main true ?_
    simp only [MainWorld.mainStep, here]
    split <;> rfl
  | locking =>
    by_cases free : world.syncLock = none
    · refine MainWorld.goesOn_main true ?_
      simp only [MainWorld.mainStep, here, if_pos free]
      rfl
    · exact invariant.lockHolder free
  | joiningReg =>
    have closing : world.mainTask.Closing := by rw [here]; trivial
    by_cases alive : (world.tasks .reg).Alive
    · exact invariant.aliveGoesOn closing alive
    · refine MainWorld.goesOn_main true ?_
      cases launched : world.regLaunched with
      | false =>
        simp only [MainWorld.mainStep, here, launched]
        rfl
      | true =>
        have created : world.tasks .reg ≠ .notCreated := fun absent => by
          rw [invariant.created.reg.mp absent] at launched
          cases launched
        obtain ⟨startupOk, ended⟩ := ThreadTask.ended_of_not_alive created alive
        simp only [MainWorld.mainStep, here, launched, ended]
        rfl
  | joiningWorkers j =>
    have closing : world.mainTask.Closing := by rw [here]; trivial
    by_cases more : j < world.launched
    · by_cases alive : (world.tasks (.worker j)).Alive
      · exact invariant.aliveGoesOn closing alive
      · have created : world.tasks (.worker j) ≠ .notCreated := fun absent =>
          absurd more (not_lt.mpr ((invariant.created.worker j).mp absent))
        obtain ⟨startupOk, ended⟩ := ThreadTask.ended_of_not_alive created alive
        refine MainWorld.goesOn_main true ?_
        simp only [MainWorld.mainStep, here, if_pos more, ended]
        rfl
    · refine MainWorld.goesOn_main true ?_
      simp only [MainWorld.mainStep, here, if_neg more]
      rfl
  | freeing =>
    rw [here] at holds
    refine MainWorld.goesOn_main true ?_
    simp only [MainWorld.mainStep, here, holds.1, holds.2, Option.bind_eq_bind, Option.bind_some,
      (givesBack_thrdStartupFailed world.numWorkerThreads).all]
    rfl
  | aborted => exact absurd here aborts
  | returned => exact absurd here returns
  | _ =>
    refine MainWorld.goesOn_main true ?_
    simp only [MainWorld.mainStep, here]
    rfl

/-! ### It does not take long -/

theorem mem_serverThreads (invariant : MainInvariant cfg outcome world)
    (created : world.tasks thread ≠ .notCreated) :
    thread ∈ serverThreads world.numWorkerThreads := by
  cases thread with
  | reg => exact Finset.mem_insert_self _ _
  | worker thrdId =>
    have launched := not_le.mp (mt (invariant.created.worker thrdId).mpr created)
    have few := invariant.created.few
    exact Finset.mem_insert_of_mem (Finset.mem_image_of_mem _ (Finset.mem_range.mpr (by omega)))

/-- When the state is stored, a thread comes nearer to its end with each step. -/
theorem ThreadTaken.nearer (decided : world.thrdStartupState ≠ .none)
    (taken : ThreadTaken world thread next) : ∃ task,
      next.tasks = Function.update world.tasks thread task ∧
        task.stepsLeft < (world.tasks thread).stepsLeft := by
  cases taken with
  | locks here free => exact ⟨_, rfl, by rw [here]; decide⟩
  | sleeps here undecided => exact absurd undecided decided
  | reads here decided =>
    refine ⟨_, rfl, ?_⟩
    rw [here]
    exact Nat.lt_succ_self 3
  | wakes here => exact ⟨_, rfl, by rw [here]; decide⟩
  | @leaves startupOk here =>
    refine ⟨_, rfl, ?_⟩
    rw [here]
    cases startupOk <;> decide
  | prepares succeeds here =>
    refine ⟨_, rfl, ?_⟩
    rw [here]
    cases succeeds <;> decide
  | ends here told => exact ⟨_, rfl, by rw [here]; decide⟩

theorem ThreadTask.roused_stepsLeft (task : ThreadTask) :
    (if task = .sleeping then ThreadTask.locking else task).stepsLeft ≤ task.stepsLeft := by
  cases task <;> simp [stepsLeft]

/-- When the state is stored, everybody comes nearer to the end with each step. -/
theorem MainInvariant.nearer (invariant : MainInvariant cfg outcome world)
    (decided : world.thrdStartupState ≠ .none) (step : MainStep world next) :
    next.thrdStartupState ≠ .none ∧ next.stepsLeft < world.stepsLeft := by
  have notBefore : ¬ world.mainTask.atGate.Undecided := fun before => by
    have unknown : world.thrdStartupState.verdict = none := invariant.gate.decided.mpr before
    cases state : world.thrdStartupState with
    | none => exact decided state
    | ok => rw [state] at unknown; cases unknown
    | nok => rw [state] at unknown; cases unknown
  cases step with
  | thread thread succeeds taken =>
    have taken := MainWorld.threadStep_taken taken
    have turn := taken.turn
    obtain ⟨task, tasks, less⟩ := taken.nearer decided
    have listed := mem_serverThreads invariant turn.alive.created
    refine ⟨by rw [turn.state]; exact decided, ?_⟩
    rw [MainWorld.stepsLeft, MainWorld.stepsLeft, turn.mainTask, turn.launched, turn.number, tasks]
    refine Nat.add_lt_add_left (Finset.sum_lt_sum (fun other _ => ?_) ⟨thread, listed, ?_⟩) _
    · by_cases same : other = thread
      · subst same
        rw [Function.update_self]
        exact less.le
      · rw [Function.update_of_ne same]
    · rwa [Function.update_self]
  | main succeeds taken =>
    have here {task : MainTask} (same : world.mainTask = task) (before : task.atGate.Undecided) :
        False := notBefore (by rwa [same])
    have lowers {later : MainTask} (less : later.stepsLeft world.launched <
        world.mainTask.stepsLeft world.launched) :
        later.stepsLeft world.launched +
            ∑ thread ∈ serverThreads world.numWorkerThreads, (world.tasks thread).stepsLeft <
          world.stepsLeft := Nat.add_lt_add_right less _
    cases MainWorld.mainStep_taken taken with
    | startsReg place created => exact (here place trivial).elim
    | missesReg place created => exact (here place trivial).elim
    | startsWorker place more => exact (here place trivial).elim
    | goesOn place => exact (here place trivial).elim
    | locks place free => exact (here place trivial).elim
    | stores place => exact (here place trivial).elim
    | signals place =>
      refine ⟨decided, ?_⟩
      rw [MainWorld.stepsLeft, MainWorld.stepsLeft, place]
      exact Nat.add_lt_add_of_lt_of_le (Nat.lt_succ_self _)
        (Finset.sum_le_sum fun thread _ => ThreadTask.roused_stepsLeft _)
    | opens place all => exact ⟨decided, lowers (by rw [place]; exact Nat.lt_succ_self _)⟩
    | closes place missing =>
      exact ⟨decided, lowers (by rw [place]; simp only [MainTask.stepsLeft]; omega)⟩
    | commands place => exact ⟨decided, lowers (by rw [place]; exact Nat.lt_succ_self _)⟩
    | joinsReg place done => exact ⟨decided, lowers (by rw [place]; exact Nat.lt_succ_self _)⟩
    | joinsWorker place more done =>
      exact ⟨decided, lowers (by rw [place]; simp only [MainTask.stepsLeft]; omega)⟩
    | joinsAll place all =>
      exact ⟨decided, lowers (by rw [place]; simp only [MainTask.stepsLeft]; omega)⟩
    | frees place has given => exact ⟨decided, lowers (by rw [place]; exact Nat.zero_lt_one)⟩

theorem MainInvariant.stepsLeft_le (invariant : MainInvariant cfg outcome world) :
    world.stepsLeft ≤ 7 * world.numWorkerThreads + 12 := by
  have few := invariant.created.few
  have main : world.mainTask.stepsLeft world.launched ≤ world.launched + 6 := by
    cases world.mainTask <;> simp only [MainTask.stepsLeft] <;> omega
  have each : ∀ thread ∈ serverThreads world.numWorkerThreads,
      (world.tasks thread).stepsLeft ≤ 6 := fun thread _ => by
    cases world.tasks thread <;> simp [ThreadTask.stepsLeft]
  have all := (Finset.sum_le_sum each).trans_eq (Finset.sum_const_nat fun _ _ => rfl)
  have count : (serverThreads world.numWorkerThreads).card ≤ world.numWorkerThreads + 1 := by
    refine (Finset.card_insert_le _ _).trans (Nat.add_le_add_right ?_ 1)
    exact Finset.card_image_le.trans (Finset.card_range _).le
  rw [MainWorld.stepsLeft]
  omega

/-! ### The threads of the server -/

/-- What a thread works on is held while there are threads. -/
theorem uses_subset {workers : Nat}
    (launched : ∀ thrdId, thread = .worker thrdId → thrdId < workers) :
    thread.uses ⊆ insert .workerThrds (setupLive workers) := by
  intro resource used
  refine Finset.mem_insert_of_mem ?_
  cases thread with
  | reg =>
    refine Finset.mem_union_left _ (Finset.mem_insert_of_mem ?_)
    revert resource
    decide
  | worker thrdId =>
    simp only [ServerThread.uses, Finset.mem_insert, Finset.mem_singleton] at used
    rcases used with rfl | rfl | rfl | rfl | rfl | rfl | rfl | rfl
    case inr.inl =>
      exact Finset.mem_union_right _ (mem_workerDbs.mpr
        ⟨thrdId, List.mem_range.mpr (launched thrdId rfl), rfl⟩)
    all_goals exact Finset.mem_union_left _ (by decide)

/-- Where no thread was launched, none was created. -/
theorem MainWorld.Created.nobody (created : world.Created)
    (begun : world.mainTask = .creatingReg ∨ world.mainTask = .aborted) (thread : ServerThread) :
    world.tasks thread = .notCreated := by
  obtain ⟨noReg, noWorker⟩ := created.fresh begun
  cases thread with
  | reg => exact created.reg.mpr noReg
  | worker thrdId => exact (created.worker thrdId).mpr (noWorker ▸ Nat.zero_le _)

theorem MainInvariant.aliveHolds (invariant : MainInvariant cfg outcome world)
    (alive : (world.tasks thread).Alive) : world.Ready (setupTls cfg outcome)
      (insert .workerThrds (setupLive world.numWorkerThreads)) := by
  have notFresh : ¬ (world.mainTask = .creatingReg ∨ world.mainTask = .aborted) := fun begun =>
    alive.created (invariant.created.nobody begun thread)
  have notReturned : world.mainTask ≠ .returned := fun returned =>
    invariant.joined thread (by rw [returned]; trivial) alive
  have holds := invariant.holds
  rw [MainWorld.Holds] at holds
  cases here : world.mainTask with
  | creatingReg => exact absurd (.inl here) notFresh
  | aborted => exact absurd (.inr here) notFresh
  | returned => exact absurd here notReturned
  | _ => rwa [here] at holds

theorem MainInvariant.usesHeld (invariant : MainInvariant cfg outcome world)
    (alive : (world.tasks thread).Alive) : thread.uses ⊆ world.holdings.live ∧
      (setupTls cfg outcome = true → 0 < world.holdings.sslRefs) := by
  rw [(invariant.aliveHolds alive).2]
  refine ⟨uses_subset fun thrdId same => ?_, fun tls => ?_⟩
  · subst same
    have launched := not_le.mp (mt (invariant.created.worker thrdId).mpr alive.created)
    have few := invariant.created.few
    omega
  · rw [tls]
    exact Nat.succ_pos _

theorem MainInvariant.allCreated (invariant : MainInvariant cfg outcome world)
    (all : world.okCond = true) : world.tasks .reg ≠ .notCreated ∧
      ∀ thrdId < world.numWorkerThreads, world.tasks (.worker thrdId) ≠ .notCreated := by
  obtain ⟨reg, workers⟩ := (Bool.and_eq_true _ _).mp all
  refine ⟨fun absent => ?_, fun thrdId below absent => ?_⟩
  · rw [invariant.created.reg.mp absent] at reg
    cases reg
  · have launched := (invariant.created.worker thrdId).mp absent
    have launchedAll := of_decide_eq_true workers
    omega

/-- What the setup leaves where `main` does not come to its threads. -/
theorem SetUp.holdings {holdings : Holdings} (setUp : SetUp cfg outcome holdings none) :
    (outcome.regCtxFails cfg → holdings = ⟨{.clientTbl, .stdIpblockTbl}, 0⟩) ∧
      (¬ outcome.regCtxFails cfg → holdings = ⟨∅, 0⟩) := by
  cases setUp with
  | leaked fails => exact ⟨fun _ => rfl, fun succeeds => absurd fails succeeds⟩
  | aborted succeeds => exact ⟨fun fails => absurd fails succeeds, fun _ => rfl⟩

/-- **The server starts all its threads or none, and gives back what they used behind them.** In
every run of `main` with its threads, whatever fails: what a thread works on is held as long as the
thread is there. No thread begins its work before all were created. Until `main` ends, it or a
thread can go on. Once the state is stored, every step brings all nearer to the end. When `main`
returns, all threads have ended, nothing is held any more, and its result says whether all could be
created. Where it never comes to the threads, nothing is held either, but for the two tables that it
forgets where `reg_ctx_init` fails. -/
theorem server_threads_start_and_end (run : MainRun cfg outcome world) :
    (∀ thread, (world.tasks thread).Alive → thread.uses ⊆ world.holdings.live ∧
      (setupTls cfg outcome = true → 0 < world.holdings.sslRefs)) ∧
    (∀ thread, world.tasks thread = .preparing ∨ world.tasks thread = .serving →
      world.tasks .reg ≠ .notCreated ∧
        ∀ thrdId < world.numWorkerThreads, world.tasks (.worker thrdId) ≠ .notCreated) ∧
    (world.mainTask = .aborted ∨ world.mainTask = .returned ∨ world.GoesOn) ∧
    (world.thrdStartupState ≠ .none → world.stepsLeft ≤ 7 * world.numWorkerThreads + 12 ∧
      ∀ next, MainStep world next →
        next.thrdStartupState ≠ .none ∧ next.stepsLeft < world.stepsLeft) ∧
    (world.mainTask = .returned → (∀ thread, ¬ (world.tasks thread).Alive) ∧
      world.holdings = ⟨∅, 0⟩ ∧ (world.progRetval = 0 ↔ world.okCond = true)) ∧
    (world.mainTask = .aborted → (∀ thread, world.tasks thread = .notCreated) ∧
      (outcome.regCtxFails cfg → world.holdings = ⟨{.clientTbl, .stdIpblockTbl}, 0⟩) ∧
      (¬ outcome.regCtxFails cfg → world.holdings = ⟨∅, 0⟩)) := by
  have invariant := run.invariant
  have holds := invariant.holds
  rw [MainWorld.Holds] at holds
  refine ⟨fun thread alive => invariant.usesHeld alive, fun thread begun => ?_, ?_,
    fun decided => ?_, fun returned => ?_, fun aborted => ?_⟩
  · have through : (world.tasks thread).atGate = .through true := by
      rcases begun with here | here <;> rw [here] <;> rfl
    exact invariant.allCreated (invariant.admitted through)
  · by_cases aborted : world.mainTask = .aborted
    · exact .inl aborted
    · by_cases returned : world.mainTask = .returned
      · exact .inr (.inl returned)
      · exact .inr (.inr (invariant.goesOn aborted returned))
  · exact ⟨invariant.stepsLeft_le, fun next step => invariant.nearer decided step⟩
  · rw [returned] at holds
    refine ⟨fun thread => invariant.joined thread (by rw [returned]; trivial), holds,
      fun success => invariant.succeeded (.inl success), fun all => ?_⟩
    exact (invariant.told (by rw [returned]; trivial) all).2
  · rw [aborted] at holds
    exact ⟨invariant.created.nobody (.inr aborted), holds.holdings⟩

/-- Everything can be opened. -/
def allOpens : SetupOutcome where
  zlogStarts := true
  tlsStarts := true
  interfaceValid := true
  shutdownEfdOpens := true
  regDbOpens := true
  regEfdOpens := true
  workerDbOpens := fun _ => true
  nrProcs := 4

/-- No worker can be created while the registration thread sleeps at the gate. -/
theorem server_threads_start_and_end_no_worker : ∃ world, MainRun getDefaultCfg allOpens world ∧
    world.tasks .reg = .ended false ∧ world.holdings = ⟨∅, 0⟩ ∧ world.progRetval = -1 := by
  have begun : MainRun getDefaultCfg allOpens _ := .start rfl
  have created := begun.step (.main true rfl)
  have checking := created.step (.thread .reg true rfl)
  have sleeping := checking.step (.thread .reg true rfl)
  have failed := sleeping.step (.main false rfl)
  have locked := failed.step (.main true rfl)
  have stored := locked.step (.main true rfl)
  have signalled := stored.step (.main true rfl)
  have unlocked := signalled.step (.main true rfl)
  have checkingAgain := unlocked.step (.thread .reg true rfl)
  have unlocking := checkingAgain.step (.thread .reg true rfl)
  have ended := unlocking.step (.thread .reg true rfl)
  have joinedReg := ended.step (.main true rfl)
  have joinedAll := joinedReg.step (.main true rfl)
  have returned := joinedAll.step (.main true rfl)
  obtain ⟨-, -, -, -, noneStarted, -⟩ := server_threads_start_and_end returned
  exact ⟨_, returned, rfl, (noneStarted rfl).2.1, rfl⟩

end Progress

end Lwmsg
