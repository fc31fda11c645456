/-
This file models `handle_clth_timeout`, with which the workers and the registration thread
disconnect the clients that took too long to log in, and proves when it is exact to the second.

The loop looks at the first client of the heap only. It stops at one that has time left, and so
misses every client that is due but lies below it. In a heap that is in order there is none, and the
heap is in order after every run in which the clients that leave it are taken out safely. The pops of
the loop itself have to be safe as well.
-/

import Lwmsg.Worker

namespace Lwmsg

open BinaryHeap

/-! ### The loop -/

/-- `CLTH_EMPTY`. -/
def clthEmpty : Int := -1

/-- `CLTH_TIMEOUT`. -/
def clthTimeout : Int := -2

/-- `CLTH_NOT_APPLICABLE`. -/
def clthNotApplicable : Int := -3

/-- `cl_timerheap_compute_root_timediff` at the time `now`. -/
def clTimerheapComputeRootTimediff (heap : TimerWorld) (clState : ClientAddr → ClientState)
    (targetState : ClientState) (now : Timespec) : Int :=
  match clTimerheapPeek heap with
  | none => clthEmpty
  | some cl =>
    let timediffSec := (heap.client cl).authDeadline.tvSec - now.tvSec
    if clState cl ≠ targetState then clthNotApplicable
    else if timediffSec ≤ 0 then clthTimeout
    else timediffSec * 1000

/-- The heap of a thread, the states of its clients, and which of them it disconnected. -/
structure TimeoutState where
  clth : TimerWorld
  clState : ClientAddr → ClientState
  disconnected : List ClientAddr

/-- What `cleanup_std_client` and `cleanup_reg_client` do here for a client that is `ACCEPTED`. -/
def TimeoutState.cleanup (state : TimeoutState) (cl : ClientAddr) : Option TimeoutState := do
  let clth ← clTimerheapRemove state.clth cl
  return { state with clth, disconnected := state.disconnected ++ [cl] }

/-- What `handle_clth_timeout` works on in a thread: its heap, the states of its clients, and the
function that answers a client that it is late and cleans it up. -/
structure TimeoutCaller (State : Type) where
  clth : State → TimerWorld
  clState : State → ClientAddr → ClientState
  setClth : State → TimerWorld → State
  cleanup : State → ClientAddr → Option State

section Loop

variable {State : Type}

/-- One turn of the loop of `handle_clth_timeout`, with what it returns where the loop ends. -/
def clthTimeoutTurn (caller : TimeoutCaller State) (now : Timespec) (state : State) :
    Option (Option Int × State) :=
  let timediff :=
    clTimerheapComputeRootTimediff (caller.clth state) (caller.clState state) .accepted now
  if timediff = clthNotApplicable then do
    let (_, clth) ← clTimerheapPop (caller.clth state)
    return (none, caller.setClth state clth)
  else if timediff = clthTimeout then do
    let (popped, clth) ← clTimerheapPop (caller.clth state)
    let cl ← popped
    let state ← caller.cleanup (caller.setClth state clth) cl
    return (none, state)
  else if timediff = clthEmpty then
    some (some (-1), state)
  else
    some (some timediff, state)

theorem clthTimeoutTurn_eq {caller : TimeoutCaller State} {now : Timespec} {state : State}
    {timediff : Int}
    (isTimediff : clTimerheapComputeRootTimediff (caller.clth state) (caller.clState state) .accepted
      now = timediff) :
    clthTimeoutTurn caller now state =
      if timediff = clthNotApplicable then
        (clTimerheapPop (caller.clth state)).map fun result =>
          (none, caller.setClth state result.2)
      else if timediff = clthTimeout then
        (clTimerheapPop (caller.clth state)).bind fun result => result.1.bind fun cl =>
          (caller.cleanup (caller.setClth state result.2) cl).map fun state => (none, state)
      else some (some (if timediff = clthEmpty then -1 else timediff), state) := by
  subst isTimediff
  unfold clthTimeoutTurn
  simp only [Option.map_eq_bind, apply_ite some, apply_ite (Prod.mk · state)]
  split_ifs <;> rfl

/-- The loop of `handle_clth_timeout`, with fuel for its turns. -/
def clthTimeoutLoop (caller : TimeoutCaller State) (now : Timespec) :
    Nat → State → Option (Int × State)
  | 0, _ => none
  | fuel + 1, state => do
    match ← clthTimeoutTurn caller now state with
    | (some answer, state) => return (answer, state)
    | (none, state) => clthTimeoutLoop caller now fuel state

end Loop

/-- What both threads do to the heap. -/
def heapCaller : TimeoutCaller TimeoutState where
  clth := TimeoutState.clth
  clState := TimeoutState.clState
  setClth state clth := { state with clth }
  cleanup := TimeoutState.cleanup

/-- `handle_clth_timeout` at the time `now`. -/
def handleClthTimeout (now : Timespec) : Nat → TimeoutState → Option (Int × TimeoutState) :=
  clthTimeoutLoop heapCaller now

/-! ### What a pop leaves -/

section Pop

variable {world next : TimerWorld}

theorem timerSwap_same {a b : Nat} (swap : timerSwap world a b = some next) :
    SameClients world next := by
  unfold timerSwap at swap
  simp only [Option.bind_eq_bind, Option.bind_eq_some_iff] at swap
  obtain ⟨first, _, second, _, swap⟩ := swap
  obtain rfl := Option.some.inj swap
  refine ⟨fun addr => ?_, rfl, rfl⟩
  rw [setIndex_authDeadline, setIndex_authDeadline]

theorem clTimerheapHeapifyDown_same {maxIndex fuel index : Nat}
    (sift : clTimerheapHeapifyDown maxIndex fuel world index = some next) :
    SameClients world next := by
  induction fuel generalizing world index with
  | zero => cases sift
  | succ fuel inductionHypothesis =>
    rw [clTimerheapHeapifyDown, Option.bind_eq_bind, Option.bind_eq_some_iff] at sift
    obtain ⟨newIndex, _, sift⟩ := sift
    cases newIndex with
    | none =>
      obtain rfl := Option.some.inj sift
      exact .refl _
    | some newIndex =>
      obtain ⟨smaller, _, sift⟩ := Option.bind_eq_some_iff.mp sift
      cases smaller with
      | false =>
        obtain rfl := Option.some.inj sift
        exact .refl _
      | true =>
        obtain ⟨middle, swap, sift⟩ := Option.bind_eq_some_iff.mp sift
        exact (timerSwap_same swap).trans (inductionHypothesis sift)

/-- `cl_timerheap_pop` changes no deadline, and the heap has a client less. -/
theorem clTimerheapPop_same {cl : ClientAddr} (pop : clTimerheapPop world = some (some cl, next)) :
    next.heap.numClients + 1 = world.heap.numClients ∧
      SameClients (world.setNumClients next.heap.numClients) next := by
  unfold clTimerheapPop at pop
  split_ifs at pop with empty
  · cases pop
  obtain ⟨first, _, pop⟩ := Option.bind_eq_some_iff.mp pop
  simp only at pop
  split_ifs at pop with last
  · obtain ⟨_, rfl⟩ := Prod.mk.inj (Option.some.inj pop)
    refine ⟨Nat.succ_pred_eq_of_ne_zero empty, fun addr => ?_, rfl, rfl⟩
    exact setIndex_authDeadline addr
  · obtain ⟨middle, swap, pop⟩ := Option.bind_eq_some_iff.mp pop
    obtain ⟨sifted, sift, pop⟩ := Option.bind_eq_some_iff.mp pop
    obtain ⟨_, rfl⟩ := Prod.mk.inj (Option.some.inj pop)
    have swapped := timerSwap_same swap
    have same := clTimerheapHeapifyDown_same sift
    have numClients : sifted.heap.numClients = world.heap.numClients - 1 :=
      same.numClients.trans swapped.numClients
    refine ⟨by omega, fun addr => ?_, rfl, same.numSlots.trans swapped.numSlots⟩
    rw [same.deadline, setIndex_authDeadline, swapped.deadline]
    rfl

end Pop

/-! ### Threads -/

section Threads

variable {State : Type} {caller : TimeoutCaller State} {state next : State} {timers : TimeoutState}
  {now : Timespec}

/-- The functions of a thread change the heap as they do here, and no state of another client. -/
structure TimeoutCaller.Lawful (caller : TimeoutCaller State) : Prop where
  setClth_clth : ∀ state clth, caller.clth (caller.setClth state clth) = clth
  setClth_clState : ∀ state clth, caller.clState (caller.setClth state clth) = caller.clState state
  cleanup_clth : ∀ {state next cl}, caller.clState state cl = .accepted →
    caller.cleanup state cl = some next →
      clTimerheapRemove (caller.clth state) cl = some (caller.clth next)
  cleanup_clState : ∀ {state next cl}, caller.clState state cl = .accepted →
    caller.cleanup state cl = some next →
      ∀ other, other ≠ cl → caller.clState next other = caller.clState state other

/-- The heap of a thread and the states of the clients in it. -/
structure Mirrors (caller : TimeoutCaller State) (state : State) (timers : TimeoutState) : Prop where
  clth : caller.clth state = timers.clth
  clState : ∀ cl, timers.clth.Holds cl → caller.clState state cl = timers.clState cl
  slots : TimerSlots timers.clth

/-- There is nothing to pop only where the heap is empty, and a client that is answered about its
timeout awaits its request. -/
theorem rootTimediff_root {heap : TimerWorld} {clState : ClientAddr → ClientState}
    (isNotEmpty : clTimerheapComputeRootTimediff heap clState .accepted now ≠ clthEmpty) :
    ∃ cl, clTimerheapPeek heap = some cl ∧
      (clTimerheapComputeRootTimediff heap clState .accepted now = clthTimeout →
        clState cl = .accepted) := by
  unfold clTimerheapComputeRootTimediff at isNotEmpty ⊢
  cases root : clTimerheapPeek heap with
  | none => simp [root] at isNotEmpty
  | some cl =>
    refine ⟨cl, rfl, fun isTimeout => ?_⟩
    by_contra other
    simp only [if_pos other] at isTimeout
    exact absurd isTimeout (by decide)

theorem Mirrors.timediff (mirrors : Mirrors caller state timers) :
    clTimerheapComputeRootTimediff timers.clth (caller.clState state) .accepted now =
      clTimerheapComputeRootTimediff timers.clth timers.clState .accepted now := by
  unfold clTimerheapComputeRootTimediff
  cases root : clTimerheapPeek timers.clth with
  | none => rfl
  | some cl =>
    obtain ⟨held, _⟩ := clTimerheapPop_takenOut mirrors.slots root
    simp only [mirrors.clState cl held]

/-- What is left in the heap of a thread after a pop. -/
theorem Mirrors.pop (mirrors : Mirrors caller state timers) {cl : ClientAddr} {clth : TimerWorld}
    (taken : TakenOut timers.clth clth cl) {disconnected : List ClientAddr}
    (sameHeap : caller.clth next = clth)
    (sameStates : ∀ other, other ≠ cl → caller.clState next other = caller.clState state other) :
    Mirrors caller next ⟨clth, timers.clState, disconnected⟩ := by
  refine ⟨sameHeap, fun other holds => ?_, taken.slots⟩
  have different : other ≠ cl := by
    rintro rfl
    exact taken.absent holds
  rw [sameStates other different]
  exact mirrors.clState other ((taken.others other different).mp holds)

/-- A turn in a thread is a turn on its heap. -/
theorem clthTimeoutTurn_mirrors (lawful : caller.Lawful) (mirrors : Mirrors caller state timers)
    {answer : Option Int} (turn : clthTimeoutTurn caller now state = some (answer, next)) :
    ∃ after, clthTimeoutTurn heapCaller now timers = some (answer, after) ∧
      Mirrors caller next after := by
  have timediff := @mirrors.timediff _ _ _ _ now
  have root := @rootTimediff_root now timers.clth timers.clState
  generalize isTimediff :
    clTimerheapComputeRootTimediff timers.clth timers.clState .accepted now = value at timediff root
  rw [← mirrors.clth] at timediff
  rw [clthTimeoutTurn_eq timediff, mirrors.clth] at turn
  rw [@clthTimeoutTurn_eq _ heapCaller now timers value isTimediff]
  show ∃ after, (if value = clthNotApplicable then
        (clTimerheapPop timers.clth).map fun result => (none, { timers with clth := result.2 })
      else if value = clthTimeout then
        (clTimerheapPop timers.clth).bind fun result => result.1.bind fun cl =>
          (({ timers with clth := result.2 } : TimeoutState).cleanup cl).map fun state => (none, state)
      else some (some (if value = clthEmpty then -1 else value), timers)) = some (answer, after) ∧ _
  by_cases notApplicable : value = clthNotApplicable
  · obtain ⟨cl, isRoot, _⟩ := root (by rw [notApplicable]; decide)
    obtain ⟨_, clth, pop, taken⟩ := clTimerheapPop_takenOut mirrors.slots isRoot
    rw [if_pos notApplicable, pop] at turn ⊢
    obtain ⟨rfl, rfl⟩ := Prod.mk.inj (Option.some.inj turn)
    refine ⟨_, rfl, mirrors.pop taken (lawful.setClth_clth state clth) fun other _ => ?_⟩
    rw [lawful.setClth_clState]
  rw [if_neg notApplicable] at turn ⊢
  by_cases isTimeout : value = clthTimeout
  · obtain ⟨cl, isRoot, accepted⟩ := root (by rw [isTimeout]; decide)
    obtain ⟨held, clth, pop, taken⟩ := clTimerheapPop_takenOut mirrors.slots isRoot
    rw [if_pos isTimeout, pop] at turn ⊢
    obtain ⟨cleaned, cleanup, turned⟩ := Option.map_eq_some_iff.mp turn
    obtain ⟨rfl, rfl⟩ := Prod.mk.inj turned
    have states := lawful.setClth_clState state clth
    have awaits : caller.clState (caller.setClth state clth) cl = .accepted := by
      rw [states, mirrors.clState cl held, accepted isTimeout]
    have remove := lawful.cleanup_clth awaits cleanup
    rw [lawful.setClth_clth] at remove
    obtain ⟨_, again, _, unchanged⟩ := clTimerheapRemove_takenOut taken.slots cl
    obtain rfl := unchanged taken.absent
    have sameHeap := Option.some.inj (again.symm.trans remove)
    simp only [Option.bind_some, TimeoutState.cleanup, again, Option.bind_eq_bind]
    refine ⟨_, rfl, mirrors.pop taken sameHeap.symm fun other different => ?_⟩
    rw [lawful.cleanup_clState awaits cleanup other different, states]
  · rw [if_neg isTimeout] at turn ⊢
    obtain ⟨rfl, rfl⟩ := Prod.mk.inj (Option.some.inj turn)
    exact ⟨timers, rfl, mirrors⟩

/-- A call in a thread is a call on its heap. -/
theorem clthTimeoutLoop_mirrors (lawful : caller.Lawful) {fuel : Nat} {answer : Int}
    (mirrors : Mirrors caller state timers)
    (call : clthTimeoutLoop caller now fuel state = some (answer, next)) :
    ∃ after, handleClthTimeout now fuel timers = some (answer, after) ∧
      Mirrors caller next after := by
  induction fuel generalizing state timers with
  | zero => cases call
  | succ fuel inductionHypothesis =>
    obtain ⟨⟨turned, middle⟩, turn, rest⟩ := Option.bind_eq_some_iff.mp call
    obtain ⟨after, turnHere, mirrorsThen⟩ := clthTimeoutTurn_mirrors lawful mirrors turn
    rw [handleClthTimeout, clthTimeoutLoop, turnHere]
    cases turned with
    | some _ =>
      obtain ⟨rfl, rfl⟩ := Prod.mk.inj (Option.some.inj rest)
      exact ⟨after, rfl, mirrorsThen⟩
    | none => exact inductionHypothesis mirrorsThen rest

end Threads

/-! ### The workers -/

/-- A worker. -/
def workerCaller (thrd : Nat) : TimeoutCaller Server where
  clth server := (server.workers thrd).clth
  clState server cl := ((server.clients cl).map fun client => client.stdcl.clState).getD .init
  setClth server clth := server.setClth thrd clth
  cleanup server cl := do
    let client ← server.clients cl
    (server.answer cl client.stdcl .timeout).cleanup thrd cl

section Workers

variable {server next : Server} {thrd : Nat} {cl : ClientAddr} {client : OwnedClient}

/-- Cleaning up a client that is `ACCEPTED` takes it out of the heap and frees it. -/
theorem Server.cleanup_accepted (live : server.clients cl = some client)
    (accepted : client.stdcl.clState = .accepted) (call : server.cleanup thrd cl = some next) :
    clTimerheapRemove (server.workers thrd).clth cl = some (next.workers thrd).clth ∧
      next.clients = Function.update server.clients cl none := by
  unfold Server.cleanup Server.timerheapRemove Server.preauthRemove at call
  rw [live, Option.bind_eq_bind, Option.bind_some, accepted] at call
  obtain ⟨removed, remove, call⟩ := Option.bind_eq_some_iff.mp call
  obtain ⟨clth, taken, remove⟩ := Option.bind_eq_some_iff.mp remove
  obtain rfl := Option.some.inj remove
  obtain ⟨unlisted, leave, call⟩ := Option.bind_eq_some_iff.mp call
  obtain ⟨⟨preauthList, links⟩, _, leave⟩ := Option.bind_eq_some_iff.mp leave
  obtain rfl := Option.some.inj leave
  obtain rfl := Option.some.inj call
  rw [taken]
  simp [Server.free, Server.setClth, Server.setWorker]

/-- The same for a client that is told about its timeout. -/
theorem workerCaller_cleanup (accepted : (workerCaller thrd).clState server cl = .accepted)
    (call : (workerCaller thrd).cleanup server cl = some next) :
    clTimerheapRemove (server.workers thrd).clth cl = some (next.workers thrd).clth ∧
      ∀ other, other ≠ cl → next.clients other = server.clients other := by
  obtain ⟨client, live, call⟩ := Option.bind_eq_some_iff.mp call
  have answered : (server.answer cl client.stdcl .timeout).clients =
      Function.update server.clients cl
        (some { client with stdcl := authSendResp client.stdcl .timeout }) := by
    simp [Server.answer, Server.setStdcl, live]
  have isAccepted : client.stdcl.clState = .accepted := by
    simpa [workerCaller, live] using accepted
  have answeredLive := (congrFun answered cl).trans (Function.update_self ..)
  obtain ⟨remove, clients⟩ := Server.cleanup_accepted answeredLive isAccepted call
  refine ⟨remove, fun other different => ?_⟩
  rw [clients, Function.update_of_ne different, answered, Function.update_of_ne different]

theorem workerCaller_lawful : (workerCaller thrd).Lawful where
  setClth_clth _ _ := by simp [workerCaller, Server.setClth, Server.setWorker]
  setClth_clState _ _ := rfl
  cleanup_clth accepted call := (workerCaller_cleanup accepted call).1
  cleanup_clState accepted call other different := by
    simp only [workerCaller, (workerCaller_cleanup accepted call).2 other different]

/-- The turns of a worker are those of the loop, as the clients of its heap are not freed. -/
theorem Server.handleClthTimeout_eq {now : Timespec}
    (live : ∀ cl, clTimerheapPeek (server.workers thrd).clth = some cl →
      (server.clients cl).isSome) :
    server.handleClthTimeout thrd now =
      (clthTimeoutTurn (workerCaller thrd) now server).map Prod.snd := by
  unfold Server.handleClthTimeout
  cases root : clTimerheapPeek (server.workers thrd).clth with
  | none =>
    have timediff : clTimerheapComputeRootTimediff ((workerCaller thrd).clth server)
        ((workerCaller thrd).clState server) .accepted now = clthEmpty := by
      simp only [clTimerheapComputeRootTimediff, workerCaller, root]
    rw [clthTimeoutTurn_eq timediff]
    rfl
  | some cl =>
    obtain ⟨client, found⟩ := Option.isSome_iff_exists.mp (live cl root)
    have timediff : clTimerheapComputeRootTimediff ((workerCaller thrd).clth server)
        ((workerCaller thrd).clState server) .accepted now =
          if client.stdcl.clState ≠ .accepted then clthNotApplicable
          else if ((server.workers thrd).clth.client cl).authDeadline.tvSec - now.tvSec ≤ 0 then
            clthTimeout
          else (((server.workers thrd).clth.client cl).authDeadline.tvSec - now.tvSec) * 1000 := by
      simp only [clTimerheapComputeRootTimediff, workerCaller, root, found, Option.map_some,
        Option.getD_some]
      rfl
    rw [clthTimeoutTurn_eq timediff]
    simp only [found, Option.bind_eq_bind, Option.bind_some]
    by_cases other : client.stdcl.clState ≠ .accepted
    · rw [if_pos other, if_pos other, if_pos rfl, Option.map_map, Option.map_eq_bind]
      rfl
    rw [if_neg other, if_neg other]
    by_cases due : ((server.workers thrd).clth.client cl).authDeadline.tvSec - now.tvSec ≤ 0
    · rw [if_pos due, if_pos due, if_neg (by decide), if_pos rfl]
      show _ = Option.map Prod.snd ((clTimerheapPop (server.workers thrd).clth).bind _)
      cases pop : clTimerheapPop (server.workers thrd).clth with
      | none => rfl
      | some result =>
        have isRoot := clTimerheapPop_fst pop
        rw [root] at isRoot
        simp only [Option.bind_some, isRoot, Option.map_map]
        rw [show (workerCaller thrd).setClth server result.2 = server.setClth thrd result.2 from rfl]
        simp only [workerCaller, Server.setClth, Server.setWorker, found, Option.bind_eq_bind,
          Option.bind_some]
        exact Option.map_id'.symm
    · have notApplicable : (((server.workers thrd).clth.client cl).authDeadline.tvSec - now.tvSec) *
          1000 ≠ clthNotApplicable := by
        rw [clthNotApplicable]
        omega
      have notTimeout : (((server.workers thrd).clth.client cl).authDeadline.tvSec - now.tvSec) *
          1000 ≠ clthTimeout := by
        rw [clthTimeout]
        omega
      rw [if_neg due, if_neg due, if_neg notApplicable, if_neg notTimeout]
      rfl

/-- So a turn of a worker is a turn on its heap. -/
theorem Server.handleClthTimeout_mirrors {now : Timespec} {timers : TimeoutState}
    (live : ∀ cl, clTimerheapPeek (server.workers thrd).clth = some cl →
      (server.clients cl).isSome)
    (mirrors : Mirrors (workerCaller thrd) server timers)
    (call : server.handleClthTimeout thrd now = some next) :
    ∃ answer after, clthTimeoutTurn heapCaller now timers = some (answer, after) ∧
      Mirrors (workerCaller thrd) next after := by
  rw [Server.handleClthTimeout_eq live, Option.map_eq_some_iff] at call
  obtain ⟨⟨answer, _⟩, turn, rfl⟩ := call
  exact ⟨answer, clthTimeoutTurn_mirrors workerCaller_lawful mirrors turn⟩

end Workers

/-! ### One call -/

/-- A client of the heap is still to log in. -/
def Awaited (state : TimeoutState) : Prop :=
  ∀ cl, state.clth.Holds cl → state.clState cl = .accepted

/-- A client is still to log in and had its time. -/
def Overdue (now : Timespec) (state : TimeoutState) (cl : ClientAddr) : Prop :=
  state.clth.Holds cl ∧ state.clState cl = .accepted ∧
    (state.clth.client cl).authDeadline.tvSec ≤ now.tvSec

/-- What is promised of a call: it disconnects the clients that are due, once each, it leaves the
others where they are, and it answers the time until the next of them is due. -/
structure TimedOut (now : Timespec) (state : TimeoutState) (answer : Int) (next : TimeoutState) :
    Prop where
  disconnected : ∃ gone, next.disconnected = state.disconnected ++ gone ∧ gone.Nodup ∧
    ∀ cl, cl ∈ gone ↔ Overdue now state cl
  tracked : ∀ cl, next.clth.Holds cl ↔ state.clth.Holds cl ∧ ¬ Overdue now state cl
  deadlines : ∀ cl, (next.clth.client cl).authDeadline = (state.clth.client cl).authDeadline
  states : next.clState = state.clState
  answer : (∀ cl, ¬ next.clth.Holds cl) ∧ answer = -1 ∨
    ∃ first, next.clth.Holds first ∧
      (∀ cl, next.clth.Holds cl → (next.clth.client first).authDeadline.tvSec ≤
        (next.clth.client cl).authDeadline.tvSec) ∧
      answer = 1000 * ((next.clth.client first).authDeadline.tvSec - now.tvSec)

/-- Enough fuel gives such a result. -/
def TimeoutsExact (now : Timespec) (state : TimeoutState) : Prop :=
  ∃ answer next, TimedOut now state answer next ∧
    ∀ fuel, state.clth.heap.numClients < fuel →
      handleClthTimeout now fuel state = some (answer, next)

/-- Every pop of a call is safe. -/
inductive PopsSafely (now : Timespec) : TimerWorld → Prop
  | stop {world : TimerWorld}
      (early : ∀ cl, clTimerheapPeek world = some cl →
        now.tvSec < (world.client cl).authDeadline.tvSec) :
      PopsSafely now world
  | pop {world next : TimerWorld} {cl : ClientAddr} (root : clTimerheapPeek world = some cl)
      (due : (world.client cl).authDeadline.tvSec ≤ now.tvSec) (safe : PopSafe world)
      (popped : clTimerheapPop world = some (some cl, next)) (rest : PopsSafely now next) :
      PopsSafely now world

section Call

variable {now : Timespec} {state : TimeoutState} {cl : ClientAddr}

/-- An empty heap has no root. -/
theorem TimerSlots.peek_eq_none {world : TimerWorld} (slots : TimerSlots world)
    (root : clTimerheapPeek world = none) (addr : ClientAddr) : ¬ world.Holds addr := by
  intro held
  obtain ⟨slot, inside, _⟩ := (slots.indexed.holds_iff addr).mp held
  obtain ⟨first, found, _⟩ := slots.indexed.occupied 0 (Nat.zero_lt_of_lt inside)
  rw [clTimerheapPeek, if_pos (Nat.ne_zero_of_lt inside), found] at root
  cases root

/-- The turn that finds the first client due disconnects it. -/
theorem clthTimeoutTurn_due (slots : TimerSlots state.clth)
    (root : clTimerheapPeek state.clth = some cl) (accepted : state.clState cl = .accepted)
    (due : (state.clth.client cl).authDeadline.tvSec ≤ now.tvSec) :
    ∃ clth, clTimerheapPop state.clth = some (some cl, clth) ∧ TakenOut state.clth clth cl ∧
      clthTimeoutTurn heapCaller now state =
        some (none, { state with clth, disconnected := state.disconnected ++ [cl] }) := by
  obtain ⟨_, clth, pop, taken⟩ := clTimerheapPop_takenOut slots root
  obtain ⟨_, remove, _, unchanged⟩ := clTimerheapRemove_takenOut taken.slots cl
  obtain rfl := unchanged taken.absent
  refine ⟨_, pop, taken, ?_⟩
  have timediff : clTimerheapComputeRootTimediff state.clth state.clState .accepted now =
      clthTimeout := by
    simp only [clTimerheapComputeRootTimediff, root]
    rw [if_neg (not_not_intro accepted), if_pos (by omega)]
  rw [@clthTimeoutTurn_eq _ heapCaller now state _ timediff, if_neg (by decide), if_pos rfl]
  show (clTimerheapPop state.clth).bind _ = _
  rw [pop]
  simp only [heapCaller, Option.bind_some, TimeoutState.cleanup, remove, Option.bind_eq_bind]
  rfl

/-- The turn that finds time left for the first client ends the loop. -/
theorem clthTimeoutTurn_early (root : clTimerheapPeek state.clth = some cl)
    (accepted : state.clState cl = .accepted)
    (early : now.tvSec < (state.clth.client cl).authDeadline.tvSec) :
    clthTimeoutTurn heapCaller now state =
      some (some (1000 * ((state.clth.client cl).authDeadline.tvSec - now.tvSec)), state) := by
  have timediff : clTimerheapComputeRootTimediff state.clth state.clState .accepted now =
      1000 * ((state.clth.client cl).authDeadline.tvSec - now.tvSec) := by
    simp only [clTimerheapComputeRootTimediff, root]
    rw [if_neg (not_not_intro accepted), if_neg (by omega), Int.mul_comm]
  rw [@clthTimeoutTurn_eq _ heapCaller now state _ timediff]
  unfold clthNotApplicable clthTimeout clthEmpty
  rw [if_neg (by omega), if_neg (by omega), if_neg (by omega)]

theorem clthTimeoutTurn_empty (root : clTimerheapPeek state.clth = none) :
    clthTimeoutTurn heapCaller now state = some (some (-1), state) := by
  have timediff : clTimerheapComputeRootTimediff state.clth state.clState .accepted now =
      clthEmpty := by
    simp only [clTimerheapComputeRootTimediff, root]
  rw [@clthTimeoutTurn_eq _ heapCaller now state _ timediff]
  rfl

/-- A loop whose turn ends it. -/
theorem handleClthTimeout_stop {answer : Int} {fuel : Nat} (enough : 0 < fuel)
    (turn : clthTimeoutTurn heapCaller now state = some (some answer, state)) :
    handleClthTimeout now fuel state = some (answer, state) := by
  obtain ⟨fuel, rfl⟩ := Nat.exists_eq_add_of_lt enough
  rw [handleClthTimeout, Nat.zero_add, clthTimeoutLoop, turn]
  rfl

/-- A call that finds no client due leaves everything as it is. -/
theorem timedOut_of_none (none : ∀ cl, ¬ Overdue now state cl) {answer : Int}
    (isAnswer : (∀ cl, ¬ state.clth.Holds cl) ∧ answer = -1 ∨
      ∃ first, state.clth.Holds first ∧
        (∀ cl, state.clth.Holds cl → (state.clth.client first).authDeadline.tvSec ≤
          (state.clth.client cl).authDeadline.tvSec) ∧
        answer = 1000 * ((state.clth.client first).authDeadline.tvSec - now.tvSec)) :
    TimedOut now state answer state where
  disconnected := ⟨[], by simp, List.nodup_nil, fun cl => by simp [none cl]⟩
  tracked cl := by simp [none cl]
  deadlines _ := rfl
  states := rfl
  answer := isAnswer

/-- A call that disconnects a client and does what is promised afterwards. -/
theorem TimedOut.cons {clth : TimerWorld} {answer : Int} {next : TimeoutState}
    (overdue : Overdue now state cl) (taken : TakenOut state.clth clth cl)
    (same : ∀ addr, (clth.client addr).authDeadline = (state.clth.client addr).authDeadline)
    (rest : TimedOut now { state with clth, disconnected := state.disconnected ++ [cl] } answer next) :
    TimedOut now state answer next := by
  obtain ⟨⟨gone, disconnected, distinct, isGone⟩, tracked, deadlines, states, isAnswer⟩ := rest
  have overdueThen (addr : ClientAddr) :
      Overdue now { state with clth, disconnected := state.disconnected ++ [cl] } addr ↔
        addr ≠ cl ∧ Overdue now state addr := by
    by_cases isClient : addr = cl
    · subst isClient
      exact iff_of_false (fun late => taken.absent late.1) fun late => late.1 rfl
    · simp only [Overdue, taken.others addr isClient, same, ne_eq, isClient, not_false_eq_true,
        true_and]
  refine ⟨⟨cl :: gone, ?_, List.nodup_cons.mpr ⟨fun member => ?_, distinct⟩, fun addr => ?_⟩,
    fun addr => ?_, fun addr => (deadlines addr).trans (same addr), states, isAnswer⟩
  · rw [disconnected, List.append_assoc, List.singleton_append]
  · exact ((overdueThen cl).mp ((isGone cl).mp member)).1 rfl
  · rw [List.mem_cons, isGone, overdueThen]
    by_cases isClient : addr = cl
    · subst isClient
      exact iff_of_true (.inl rfl) overdue
    · simp [isClient]
  · rw [tracked, overdueThen]
    by_cases isClient : addr = cl
    · subst isClient
      exact iff_of_false (fun held => taken.absent held.1) fun held => held.2 overdue
    · simp [isClient, taken.others addr isClient]

/-- A call does what is promised where the heap is in order and its pops are safe, and it keeps that
order. -/
theorem TimerInvariant.timeouts (invariant : TimerInvariant state.clth) (awaited : Awaited state)
    (safe : PopsSafely now state.clth) :
    ∃ answer next, TimedOut now state answer next ∧ TimerInvariant next.clth ∧
      ∀ fuel, state.clth.heap.numClients < fuel →
        handleClthTimeout now fuel state = some (answer, next) := by
  generalize isWorld : state.clth = world at safe
  induction safe generalizing state with
  | stop early =>
    subst isWorld
    cases root : clTimerheapPeek state.clth with
    | none =>
      have empty := invariant.slots.peek_eq_none root
      exact ⟨-1, state, timedOut_of_none (fun cl late => empty cl late.1) (.inl ⟨empty, rfl⟩),
        invariant, fun fuel enough => handleClthTimeout_stop (Nat.zero_lt_of_lt enough)
          (clthTimeoutTurn_empty root)⟩
    | some first =>
      obtain ⟨held, _⟩ := clTimerheapPop_takenOut invariant.slots root
      have least (cl : ClientAddr) (holds : state.clth.Holds cl) :
          (state.clth.client first).authDeadline.tvSec ≤
            (state.clth.client cl).authDeadline.tvSec := by
        obtain ⟨earliest, isRoot, before⟩ := invariant.peek_earliest holds
        obtain rfl := Option.some.inj (root.symm.trans isRoot)
        rw [← not_lt, Timespec.lt_iff] at before
        omega
      have time := early first root
      refine ⟨_, state, timedOut_of_none (fun cl late => ?_) (.inr ⟨first, held, least, rfl⟩),
        invariant, fun fuel enough => handleClthTimeout_stop (Nat.zero_lt_of_lt enough)
          (clthTimeoutTurn_early root (awaited first held) time)⟩
      have notBefore := least cl late.1
      have due := late.2.2
      omega
  | @pop _ _ cl root due popSafe popped rest inductionHypothesis =>
    subst isWorld
    obtain ⟨held, _⟩ := clTimerheapPop_takenOut invariant.slots root
    have accepted := awaited _ held
    obtain ⟨clth, pop, taken, turn⟩ := clthTimeoutTurn_due invariant.slots root accepted due
    obtain rfl := (Prod.mk.inj (Option.some.inj (pop.symm.trans popped))).2
    obtain ⟨_, kept, popInvariant⟩ := clTimerheapPop_invariant invariant popSafe
    obtain rfl := (Prod.mk.inj (Option.some.inj (pop.symm.trans kept))).2
    obtain ⟨fewer, same⟩ := clTimerheapPop_same pop
    have awaitedThen : Awaited ⟨clth, state.clState, state.disconnected ++ [cl]⟩ := by
      intro addr holds
      refine awaited addr ((taken.others addr ?_).mp holds)
      rintro rfl
      exact taken.absent holds
    obtain ⟨answer, next, timedOut, nextInvariant, call⟩ :=
      inductionHypothesis popInvariant awaitedThen rfl
    refine ⟨answer, next, timedOut.cons ⟨held, accepted, due⟩ taken same.deadline,
      nextInvariant, fun fuel enough => ?_⟩
    obtain ⟨fuel, rfl⟩ := Nat.exists_eq_add_of_lt (Nat.zero_lt_of_lt enough)
    rw [handleClthTimeout, Nat.zero_add, clthTimeoutLoop, turn]
    exact call fuel (show clth.heap.numClients < fuel by omega)

end Call

/-! ### Runs -/

/-- What happens to a thread's heap: a client ends its handshake, it logs in, it is cleaned up, and
`handle_clth_timeout` is called. -/
inductive LoginEvent
  | clock (now : Timespec)
  | accept (cl : ClientAddr)
  | authenticate (cl : ClientAddr)
  | cleanup (cl : ClientAddr)
  | timeouts
  deriving DecidableEq, Repr

/-- A thread and the monotonic clock. -/
structure LoginState where
  now : Timespec
  timers : TimeoutState

/-- One event. A client is added to the heap once, with the state that awaits its request, and it is
taken out before it has another one. -/
def LoginEvent.perform (deadlineTimeLen : Int) (state : LoginState) : LoginEvent → Option LoginState
  | .clock later => if state.now ≤ later then some { state with now := later } else none
  | .accept cl =>
    if (state.timers.clth.client cl).timerheapIndex = invalThInd then
      (clTimerheapAdd state.timers.clth cl state.now deadlineTimeLen).map fun result =>
        { state with timers := { state.timers with
          clth := result.2
          clState := Function.update state.timers.clState cl .accepted } }
    else none
  | .authenticate cl =>
    (clTimerheapRemove state.timers.clth cl).map fun clth =>
      { state with timers := { state.timers with
        clth
        clState := Function.update state.timers.clState cl .authenticated } }
  | .cleanup cl => (state.timers.cleanup cl).map fun timers => { state with timers }
  | .timeouts =>
    (handleClthTimeout state.now (state.timers.clth.heap.numClients + 1) state.timers).map
      fun result => { state with timers := result.2 }

/-- Whether what leaves the heap is taken out safely. -/
def LoginEvent.Safe (state : LoginState) : LoginEvent → Prop
  | .clock _ | .accept _ => True
  | .authenticate cl | .cleanup cl => RemoveSafe state.timers.clth cl
  | .timeouts => PopsSafely state.now state.timers.clth

/-- A thread with a fresh heap. -/
def freshLogin (now : Timespec) (client : ClientAddr → TimedClient)
    (clState : ClientAddr → ClientState) : LoginState :=
  ⟨now, ⟨client, emptyTimerheap defClthSize⟩, clState, []⟩

/-- A sequence of events from a fresh heap, with a condition on each of them. -/
inductive LoginRun (deadlineTimeLen : Int) (allowed : LoginState → LoginEvent → Prop) :
    List LoginEvent → LoginState → Prop
  | start (now : Timespec) (client : ClientAddr → TimedClient) (clState : ClientAddr → ClientState)
      (outside : ∀ cl, (client cl).timerheapIndex = invalThInd) :
      LoginRun deadlineTimeLen allowed [] (freshLogin now client clState)
  | snoc {events : List LoginEvent} {event : LoginEvent} {state next : LoginState}
      (run : LoginRun deadlineTimeLen allowed events state) (allow : allowed state event)
      (performed : event.perform deadlineTimeLen state = some next) :
      LoginRun deadlineTimeLen allowed (events ++ [event]) next

/-- What holds between two events: the heap is in order, and its clients are still to log in. -/
structure LoginInvariant (state : LoginState) : Prop where
  timers : TimerInvariant state.timers.clth
  awaited : Awaited state.timers

/-- Taking a client out of the heap. -/
theorem LoginInvariant.takeOut {state : LoginState} (invariant : LoginInvariant state)
    {cl : ClientAddr} {clth : TimerWorld} (safe : RemoveSafe state.timers.clth cl)
    (removed : clTimerheapRemove state.timers.clth cl = some clth) :
    TimerInvariant clth ∧ ∀ addr, clth.Holds addr →
      addr ≠ cl ∧ state.timers.clState addr = .accepted := by
  obtain ⟨_, call, kept⟩ := clTimerheapRemove_invariant invariant.timers safe
  obtain rfl := Option.some.inj (removed.symm.trans call)
  obtain ⟨_, sameCall, taken, _⟩ := clTimerheapRemove_takenOut invariant.timers.slots cl
  obtain rfl := Option.some.inj (removed.symm.trans sameCall)
  refine ⟨kept, fun addr holds => ?_⟩
  have other : addr ≠ cl := by
    rintro rfl
    exact taken.absent holds
  exact ⟨other, invariant.awaited addr ((taken.others addr other).mp holds)⟩

/-- A safe event keeps the invariant. -/
theorem LoginInvariant.step {deadlineTimeLen : Int} {state next : LoginState} {event : LoginEvent}
    (invariant : LoginInvariant state) (safe : event.Safe state)
    (performed : event.perform deadlineTimeLen state = some next) : LoginInvariant next := by
  cases event with
  | clock later =>
    simp only [LoginEvent.perform, Option.ite_none_right_eq_some, Option.some.injEq] at performed
    exact performed.2 ▸ ⟨invariant.timers, invariant.awaited⟩
  | accept cl =>
    simp only [LoginEvent.perform, Option.ite_none_right_eq_some, Option.map_eq_some_iff]
      at performed
    obtain ⟨outside, result, call, rfl⟩ := performed
    obtain ⟨_, _, added, kept⟩ :=
      clTimerheapAdd_invariant state.now deadlineTimeLen invariant.timers outside
    obtain rfl := Option.some.inj (call.symm.trans added)
    refine ⟨kept, fun addr holds => ?_⟩
    by_cases new : addr = cl
    · exact new ▸ Function.update_self ..
    · refine (Function.update_of_ne new ..).trans (invariant.awaited addr ?_)
      rcases Nat.lt_or_ge state.timers.clth.heap.numClients (2 ^ 31) with few | full
      · obtain ⟨_, slotsCall, _, _, others⟩ :=
          clTimerheapAdd_slots state.now deadlineTimeLen invariant.timers.slots few
            (not_not_intro outside)
        obtain ⟨_, rfl⟩ := Prod.mk.inj (Option.some.inj (call.symm.trans slotsCall))
        exact (others addr new).mp holds
      · have refused := clTimerheapAdd_full cl state.now deadlineTimeLen invariant.timers.slots full
        obtain ⟨_, rfl⟩ := Prod.mk.inj (Option.some.inj (call.symm.trans refused))
        exact holds
  | authenticate cl =>
    obtain ⟨_, removed, rfl⟩ := Option.map_eq_some_iff.mp performed
    obtain ⟨kept, others⟩ := invariant.takeOut safe removed
    refine ⟨kept, fun addr holds => ?_⟩
    obtain ⟨other, accepted⟩ := others addr holds
    exact (Function.update_of_ne other ..).trans accepted
  | cleanup cl =>
    obtain ⟨timers, cleaned, rfl⟩ := Option.map_eq_some_iff.mp performed
    obtain ⟨_, removed, cleaned⟩ := Option.bind_eq_some_iff.mp cleaned
    obtain rfl := Option.some.inj cleaned
    obtain ⟨kept, others⟩ := invariant.takeOut safe removed
    exact ⟨kept, fun addr holds => (others addr holds).2⟩
  | timeouts =>
    obtain ⟨_, called, rfl⟩ := Option.map_eq_some_iff.mp performed
    obtain ⟨_, _, timedOut, kept, call⟩ := invariant.timers.timeouts invariant.awaited safe
    obtain rfl := Option.some.inj (called.symm.trans (call _ (Nat.lt_succ_self _)))
    refine ⟨kept, fun addr holds => ?_⟩
    rw [timedOut.states]
    exact invariant.awaited addr ((timedOut.tracked addr).mp holds).1

theorem LoginInvariant.run {deadlineTimeLen : Int} {events : List LoginEvent} {state : LoginState}
    (run : LoginRun deadlineTimeLen (fun state event => event.Safe state) events state) :
    LoginInvariant state := by
  induction run with
  | start now client clState outside =>
    refine ⟨freshTimerheap_invariant now client outside, fun cl holds => absurd (outside cl) holds⟩
  | snoc _ safe performed inductionHypothesis => exact inductionHypothesis.step safe performed

/-- **Timeouts are exact to the second in every run in which the clients that leave the heap are
taken out safely**, at every time at which the pops of the call are safe too. -/
theorem login_timeouts_exact_of_safe {deadlineTimeLen : Int} {events : List LoginEvent}
    {state : LoginState}
    (run : LoginRun deadlineTimeLen (fun state event => event.Safe state) events state)
    (now : Timespec) (safe : PopsSafely now state.timers.clth) : TimeoutsExact now state.timers := by
  have invariant := LoginInvariant.run run
  obtain ⟨answer, next, timedOut, _, call⟩ := invariant.timers.timeouts invariant.awaited safe
  exact ⟨answer, next, timedOut, call⟩

/-- Several events. -/
def loginAll (deadlineTimeLen : Int) (state : LoginState) (events : List LoginEvent) :
    Option LoginState :=
  events.foldlM (fun state event => event.perform deadlineTimeLen state) state

theorem LoginRun.all {deadlineTimeLen : Int} {allowed : LoginState → LoginEvent → Prop}
    {before events : List LoginEvent} {state next : LoginState}
    (run : LoginRun deadlineTimeLen allowed before state)
    (allow : ∀ event ∈ events, ∀ state, allowed state event)
    (performed : loginAll deadlineTimeLen state events = some next) :
    LoginRun deadlineTimeLen allowed (before ++ events) next := by
  induction events generalizing before state with
  | nil =>
    obtain rfl := Option.some.inj performed
    rwa [List.append_nil]
  | cons event events inductionHypothesis =>
    rw [loginAll, List.foldlM_cons, Option.bind_eq_bind, Option.bind_eq_some_iff] at performed
    obtain ⟨middle, first, rest⟩ := performed
    rw [← List.singleton_append, ← List.append_assoc]
    exact inductionHypothesis (run.snoc (allow event List.mem_cons_self _) first)
      (fun other inside => allow other (List.mem_cons_of_mem _ inside)) rest

/-- Some clients that end their handshakes one second after the other. -/
def acceptedClients (count : Nat) : List LoginEvent :=
  (List.range count).flatMap fun (place : Nat) =>
    [.clock ⟨((place + 1 : Nat) : Int), 0⟩, .accept (place + 1)]

theorem acceptedClients_safe {count : Nat} :
    ∀ event ∈ acceptedClients count, ∀ state, event.Safe state := by
  intro event member state
  obtain ⟨place, _, isEvent⟩ := List.mem_flatMap.mp member
  rw [List.mem_pair] at isEvent
  rcases isEvent with rfl | rfl <;> trivial

/-- A thread without clients. -/
def idleLogin : LoginState := freshLogin ⟨0, 0⟩ outsideClients fun _ => .init

theorem idleLogin_run {allowed : LoginState → LoginEvent → Prop} :
    LoginRun 4 allowed [] idleLogin :=
  .start ⟨0, 0⟩ outsideClients (fun _ => .init) fun _ => rfl

/-- The first of three clients is due. -/
theorem login_timeouts_exact_of_safe_three_clients :
    ∃ state, LoginRun 4 (fun state event => event.Safe state) (acceptedClients 3) state ∧
      TimeoutsExact ⟨5, 0⟩ state.timers := by
  obtain ⟨state, performed⟩ : ∃ state, loginAll 4 idleLogin (acceptedClients 3) = some state :=
    Option.isSome_iff_exists.mp (by decide +kernel)
  have look : (loginAll 4 idleLogin (acceptedClients 3)).map (fun state =>
      (state.timers.clth.heap.numClients, clTimerheapPeek state.timers.clth,
        state.timers.clth.times 1, state.timers.clth.times 2,
        (state.timers.clth.client 1).authDeadline)) =
        some (3, some 1, ⟨6, 0⟩, ⟨7, 0⟩, ⟨5, 0⟩) := by decide +kernel
  have popped : (loginAll 4 idleLogin (acceptedClients 3)).bind (fun state =>
      (clTimerheapPop state.timers.clth).map fun result =>
        (clTimerheapPeek result.2, (result.2.client 2).authDeadline)) =
        some (some 2, ⟨6, 0⟩) := by decide +kernel
  rw [performed, Option.map_some, Option.some.injEq] at look
  rw [performed, Option.bind_some, Option.map_eq_some_iff] at popped
  simp only [Prod.mk.injEq] at look
  obtain ⟨numClients, root, second, third, deadline⟩ := look
  obtain ⟨⟨first, rest⟩, pop, popped⟩ := popped
  obtain ⟨nextRoot, nextDeadline⟩ := Prod.mk.inj popped
  have run := (@idleLogin_run fun state event => event.Safe state).all acceptedClients_safe performed
  have isFirst := clTimerheapPop_fst pop
  rw [root] at isFirst
  subst isFirst
  have safe : PopSafe state.timers.clth := by
    have child : smallerChild state.timers.clth.times 2 0 = 1 := if_pos (Or.inl (by decide))
    rw [PopSafe, numClients]
    refine .move (by decide) ?_ (.leaf ?_)
    · rw [child, second, third]
      decide
    · rw [child]
      decide
  refine ⟨state, run, login_timeouts_exact_of_safe run ⟨5, 0⟩ (.pop root ?_ safe pop (.stop ?_))⟩
  · rw [deadline]
  · intro cl isRoot
    obtain rfl := Option.some.inj (nextRoot.symm.trans isRoot)
    rw [nextDeadline]
    decide

/-- Timeouts are not exact in every run: at eleven seconds, when the first seven of ten clients are
due, the seventh lies below the eighth. -/
theorem overdue_client_hidden :
    ¬ ∀ (deadlineTimeLen : Int) (events : List LoginEvent) (state : LoginState),
      LoginRun deadlineTimeLen (fun _ _ => True) events state →
        ∀ now, TimeoutsExact now state.timers := by
  intro claim
  obtain ⟨state, performed⟩ : ∃ state, loginAll 4 idleLogin (acceptedClients 10) = some state :=
    Option.isSome_iff_exists.mp (by decide +kernel)
  have look : (loginAll 4 idleLogin (acceptedClients 10)).map (fun state =>
      (state.timers.clth.client 7, state.timers.clState 7,
        state.timers.clth.heap.numClients)) =
        some (⟨6, ⟨11, 0⟩⟩, .accepted, 10) := by decide +kernel
  have called : (loginAll 4 idleLogin (acceptedClients 10)).bind (fun state =>
      (handleClthTimeout ⟨11, 0⟩ 11 state.timers).map fun result =>
        (result.1, result.2.disconnected)) = some (1000, [1, 2, 3, 4, 5, 6]) := by decide +kernel
  rw [performed, Option.map_some, Option.some.injEq, Prod.mk.injEq, Prod.mk.injEq] at look
  rw [performed, Option.bind_some, Option.map_eq_some_iff] at called
  obtain ⟨client, accepted, numClients⟩ := look
  obtain ⟨result, call, results⟩ := called
  have run := (@idleLogin_run fun _ _ => True).all (fun _ _ _ => trivial) performed
  obtain ⟨answer, next, timedOut, exactCall⟩ := claim 4 _ state run ⟨11, 0⟩
  obtain rfl := Option.some.inj (call.symm.trans (exactCall 11 (by rw [numClients]; decide)))
  obtain ⟨gone, disconnected, _, isGone⟩ := timedOut.disconnected
  have overdue : Overdue ⟨11, 0⟩ state.timers 7 := by
    refine ⟨?_, accepted, ?_⟩
    · rw [TimerWorld.Holds, client]
      decide
    · rw [client]
  have member : 7 ∈ next.disconnected := by
    rw [disconnected]
    exact List.mem_append_right _ ((isGone 7).mpr overdue)
  rw [(Prod.mk.inj results).2] at member
  exact absurd member (by decide)

end Lwmsg
