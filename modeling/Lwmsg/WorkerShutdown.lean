/-
This file models how the server ends. A worker that sees the shutdown event cleans up the clients
that did not authenticate, sweeps those that disconnected, and ends. The other workers go on
meanwhile, and a session of one that ended stays in the table. When all workers have ended, `main`
deletes the table, which frees these sessions.

A worker does the first part of `wt_handle_shutdown` in one step, because it is about its own
containers only. It shares the sweep with the others, so each removal from the table is a step.
-/

import Lwmsg.HtableDelete
import Lwmsg.WorkerContainers

namespace Lwmsg

open Bytes Pointers SinglyLinked

/-! ### The end of a worker -/

namespace Server

/-- The loop of `wt_handle_shutdown`. The link of a client is read before the client is freed, and
there is none to read where the client was freed before. -/
def shutdownLoop (thrd : Nat) : Nat → Option Addr → Server → Option Server
  | _, none, server => some server
  | 0, some _, _ => none
  | fuel + 1, some temp, server => do
    let _ ← server.clients temp
    let list := server.next temp
    let server ← server.cleanup thrd temp
    shutdownLoop thrd fuel list server

/-- `wt_handle_shutdown` up to `node_arr_sweep`. -/
def handleShutdown (server : Server) (thrd : Nat) : Option Server := do
  let server ← shutdownLoop thrd (server.allocated + 1) (server.workers thrd).preauthList server
  return server.setTask thrd (.sweeping (server.workers thrd).dconnClients)

/-- `htable_delete`, for the nodes it frees, each of which is a client. -/
def deleteTable (server : Server) : List Addr → Option Server
  | [] => some { server with table := fun _ => none }
  | cl :: rest => do
    let _ ← server.clients cl
    deleteTable (server.free cl) rest

end Server

/-- A table in memory holds the clients that the workers see in it. -/
def HoldsTable (state : HtableState) (table : Bytes → Option Addr) : Prop :=
  ∃ key members power lists,
    TableInvariant stdClientCmp ValidUsername key members power state lists ∧
    ∀ name cl, table name = some cl ↔ cl ∈ members ∧ key cl = name

/-- The server with its threads: which workers have seen the shutdown event, which have ended, and
whether `main` has deleted the table. -/
structure ServerLife where
  server : Server
  leaving : Nat → Bool
  exited : Nat → Bool
  deleted : Bool

/-- The server when its workers start. A thread from their number on is none, as if it had ended. -/
def lifeStart (numWorkerThreads : Nat) : ServerLife where
  server := { serverStart with
    workers := fun thrd =>
      if thrd < numWorkerThreads then serverStart.workers thrd
      else { serverStart.workers thrd with task := .sweeping [] } }
  leaving := fun thrd => decide (numWorkerThreads ≤ thrd)
  exited := fun thrd => decide (numWorkerThreads ≤ thrd)
  deleted := false

/-- A step of the server. A worker that saw the event takes none of the events behind it, and comes
back from its last sweep to nothing. -/
inductive LifeStep (life : ServerLife) : ServerLife → Prop
  | works {next} (step : ServerStep life.server next)
      (leaves : ∀ thrd, life.leaving thrd = true → (next.workers thrd).task ≠ .idle) :
      LifeStep life { life with server := next }
  | shutdown {thrd next} (stays : life.leaving thrd = false)
      (idle : (life.server.workers thrd).task = .idle)
      (call : life.server.handleShutdown thrd = some next) :
      LifeStep life
        { life with server := next, leaving := Function.update life.leaving thrd true }
  | exits {thrd} (leaves : life.leaving thrd = true) (stays : life.exited thrd = false)
      (task : (life.server.workers thrd).task = .sweeping []) :
      LifeStep life { life with
        server := life.server.setWorker thrd fun worker => { worker with dconnClients := [] }
        exited := Function.update life.exited thrd true }
  | deletes {state memory freed next} (kept : life.deleted = false)
      (joined : ∀ thrd, life.exited thrd = true) (holds : HoldsTable state life.server.table)
      (walk : htableDelete state = some (memory, freed))
      (call : life.server.deleteTable freed = some next) :
      LifeStep life { life with server := next, deleted := true }

/-- A run of the server from its start. -/
inductive LifeRun (numWorkerThreads : Nat) : ServerLife → Prop
  | start : LifeRun numWorkerThreads (lifeStart numWorkerThreads)
  | step {life next} (run : LifeRun numWorkerThreads life) (step : LifeStep life next) :
      LifeRun numWorkerThreads next

/-! ### Which worker a step is of -/

/-- Only one worker has changed its containers or its task. -/
def Aside (thrd : Nat) (server next : Server) : Prop :=
  ∀ other, other ≠ thrd → next.workers other = server.workers other

/-- What a step does to the workers: one that does not sweep does something, one that sweeps goes on,
or it is done and comes back to its events. -/
inductive WorkersMoved (server next : Server) : Prop
  | still (same : next.workers = server.workers)
  | handles {thrd} (awake : (server.workers thrd).task.Awake) (aside : Aside thrd server next)
  | sweeps {thrd cl rest} (task : (server.workers thrd).task = .sweeping (cl :: rest))
      (moved : next.workers = (server.setTask thrd (.sweeping rest)).workers)
  | rests {thrd} (task : (server.workers thrd).task = .sweeping [])
      (idle : (next.workers thrd).task = .idle) (aside : Aside thrd server next)

section Steps

variable {bounded : Prop} {server middle next : Server} {thrd : Nat} {cl : Addr}
  {client : OwnedClient}

theorem Aside.refl (thrd : Nat) (server : Server) : Aside thrd server server := fun _ _ => rfl

theorem Aside.trans (first : Aside thrd server middle) (second : Aside thrd middle next) :
    Aside thrd server next := fun other different =>
  (second other different).trans (first other different)

theorem Aside.setWorker (aside : Aside thrd server next) (change : Worker → Worker) :
    Aside thrd server (next.setWorker thrd change) := fun other different =>
  (next.setWorker_of_ne change different).trans (aside other different)

/-- What else is written outside the workers does not matter. -/
theorem aside_setWorker (same : middle.workers = server.workers) (change : Worker → Worker) :
    Aside thrd server (middle.setWorker thrd change) := fun other different => by
  rw [middle.setWorker_of_ne change different, same]

theorem Aside.after (aside : Aside thrd middle next) (same : middle.workers = server.workers) :
    Aside thrd server next := fun other different => by
  rw [aside other different, same]

theorem Aside.of_workers (aside : Aside thrd server next) {later : Server}
    (same : later.workers = next.workers) : Aside thrd server later := fun other different => by
  rw [same]
  exact aside other different

theorem Server.timerheapRemove_aside (call : server.timerheapRemove thrd cl = some next) :
    Aside thrd server next := by
  obtain ⟨clth, _, made⟩ := Option.bind_eq_some_iff.mp call
  obtain rfl := Option.some.inj made
  exact (Aside.refl thrd server).setWorker _

theorem Server.timerheapAdd_aside {now : Timespec}
    (call : server.timerheapAdd thrd cl now = some next) : Aside thrd server next := by
  obtain ⟨clth, _, made⟩ := Option.bind_eq_some_iff.mp call
  obtain rfl := Option.some.inj made
  exact (Aside.refl thrd server).setWorker _

theorem Server.preauthAdd_aside (server : Server) (thrd : Nat) (cl : Addr) :
    Aside thrd server (server.preauthAdd thrd cl) := by
  rw [Server.preauthAdd]
  exact aside_setWorker rfl _

theorem Server.preauthRemove_aside (call : server.preauthRemove thrd cl = some next) :
    Aside thrd server next := by
  obtain ⟨removed, _, made⟩ := Option.bind_eq_some_iff.mp call
  obtain rfl := Option.some.inj made
  exact aside_setWorker rfl _

theorem Server.cleanup_aside (call : server.cleanup thrd cl = some next) :
    Aside thrd server next := by
  obtain ⟨client, -, cleaned⟩ := Option.bind_eq_some_iff.mp call
  have removed {middle : Server} (before : Aside thrd server middle)
      (made : (do
        let server ← middle.preauthRemove thrd cl
        return server.free cl) = some next) : Aside thrd server next := by
    obtain ⟨unlisted, leave, made⟩ := Option.bind_eq_some_iff.mp made
    obtain rfl := Option.some.inj made
    exact (before.trans (preauthRemove_aside leave)).of_workers rfl
  cases state : client.stdcl.clState with
  | authenticated =>
    rw [state] at cleaned
    obtain rfl := Option.some.inj cleaned
    exact aside_setWorker rfl _
  | accepted =>
    rw [state] at cleaned
    obtain ⟨untimed, remove, made⟩ := Option.bind_eq_some_iff.mp cleaned
    exact removed (timerheapRemove_aside remove) made
  | accepting =>
    rw [state] at cleaned
    exact removed (.refl thrd server) cleaned
  | init =>
    rw [state] at cleaned
    obtain rfl := Option.some.inj cleaned
    exact (Aside.refl thrd server).of_workers rfl
  | registered | disconnected =>
    rw [state] at cleaned
    obtain rfl := Option.some.inj cleaned
    exact .refl thrd server

theorem Server.afterHandler_aside (server : Server) (cl : Addr) (client : OwnedClient)
    (stdcl : StdClient) : Aside client.ownerThrdId server (server.afterHandler cl client stdcl) := by
  rw [Server.afterHandler]
  split
  · exact aside_setWorker rfl _
  · exact (Aside.refl _ server).of_workers rfl

theorem Server.handleNewConnection_aside {peerName : Bytes} {connection : Conn}
    {outcome : AcceptOutcome} {now : Timespec}
    (call : server.handleNewConnection thrd peerName connection outcome now = some next) :
    Aside thrd server next := by
  have registered (stdcl : StdClient) : Aside thrd server (server.register thrd stdcl) := by
    rw [Server.register]
    exact aside_setWorker rfl _
  cases outcome with
  | done =>
    obtain ⟨timed, add, made⟩ := Option.bind_eq_some_iff.mp call
    obtain rfl := Option.some.inj made
    exact ((registered _).of_workers rfl).trans
      ((timerheapAdd_aside add).trans (preauthAdd_aside timed thrd _))
  | error => exact (registered _).trans (cleanup_aside call)
  | pending =>
    obtain rfl := Option.some.inj call
    exact ((registered _).of_workers rfl).trans (preauthAdd_aside _ thrd _)

theorem Server.handleAccepting_aside {outcome : AcceptOutcome} {now : Timespec}
    (call : server.handleAccepting thrd cl outcome now = some next) : Aside thrd server next := by
  obtain ⟨client, -, handled⟩ := Option.bind_eq_some_iff.mp call
  cases outcome with
  | done =>
    obtain ⟨timed, add, made⟩ := Option.bind_eq_some_iff.mp handled
    obtain rfl := Option.some.inj made
    exact (timerheapAdd_aside add).of_workers rfl
  | error => exact cleanup_aside handled
  | pending =>
    obtain rfl := Option.some.inj handled
    exact .refl thrd server

theorem Server.handleAuthentication_aside {fns : AuthFns}
    (call : server.handleAuthentication thrd cl fns = some next) : Aside thrd server next := by
  obtain ⟨client, -, handled⟩ := Option.bind_eq_some_iff.mp call
  have received (stdcl : StdClient) : Aside thrd server (server.setStdcl cl stdcl) :=
    (Aside.refl thrd server).of_workers rfl
  dsimp only at handled
  split at handled
  · exact (cleanup_aside handled).after rfl
  · obtain rfl := Option.some.inj handled
    exact received _
  · split at handled
    · cases handled
    · split at handled
      · exact (cleanup_aside handled).after rfl
      · obtain ⟨untimed, remove, handled⟩ := Option.bind_eq_some_iff.mp handled
        obtain ⟨unlisted, leave, made⟩ := Option.bind_eq_some_iff.mp handled
        obtain rfl := Option.some.inj made
        exact (((received _).trans (timerheapRemove_aside remove)).trans
          (preauthRemove_aside leave)).trans (aside_setWorker rfl _)

theorem Server.handleAdd_aside {links : Links}
    (call : server.handleAdd thrd cl links = some next) : Aside thrd server next := by
  obtain ⟨client, -, handled⟩ := Option.bind_eq_some_iff.mp call
  dsimp only at handled
  split at handled
  · cases handled
  · split at handled
    · obtain rfl := Option.some.inj handled
      exact aside_setWorker rfl _
    · obtain ⟨cleaned, clean, made⟩ := Option.bind_eq_some_iff.mp handled
      obtain rfl := Option.some.inj made
      exact ((cleanup_aside clean).after rfl).setWorker _

theorem Server.handleActivate_aside (call : server.handleActivate thrd cl = some next) :
    Aside thrd server next := by
  obtain ⟨client, -, handled⟩ := Option.bind_eq_some_iff.mp call
  obtain ⟨answered, -, made⟩ := Option.bind_eq_some_iff.mp handled
  obtain rfl := Option.some.inj made
  exact aside_setWorker rfl _

theorem Server.handleClthTimeout_aside {now : Timespec}
    (call : server.handleClthTimeout thrd now = some next) : Aside thrd server next := by
  rw [Server.handleClthTimeout] at call
  split at call
  · obtain rfl := Option.some.inj call
    exact .refl thrd server
  · obtain ⟨client, -, handled⟩ := Option.bind_eq_some_iff.mp call
    dsimp only at handled
    split at handled
    · obtain ⟨popped, -, made⟩ := Option.bind_eq_some_iff.mp handled
      obtain rfl := Option.some.inj made
      exact aside_setWorker rfl _
    · split at handled
      · obtain ⟨popped, -, cleaned⟩ := Option.bind_eq_some_iff.mp handled
        have timed : Aside thrd server (server.setClth thrd popped.2) := aside_setWorker rfl _
        exact timed.trans ((cleanup_aside cleaned).after rfl)
      · obtain rfl := Option.some.inj handled
        exact .refl thrd server

theorem Server.handleInbound_aside {env : InboundEnv} (live : server.clients cl = some client)
    (call : server.handleInbound client.ownerThrdId cl env = some next) :
    Aside client.ownerThrdId server next := by
  rw [Server.handleInbound, live] at call
  simp only [Option.bind_eq_bind, Option.bind_some] at call
  have handled := server.afterHandler_aside cl client (wtHandleInboundData env client.stdcl).stdcl
  split at call <;>
  · obtain rfl := Option.some.inj call
    exact handled.setWorker _

theorem Server.handleEnqueue_aside (server : Server) (thrd : Nat) (cl rcpt : Addr)
    (msg : MpscMsgNode) : Aside thrd server (server.handleEnqueue thrd cl rcpt msg) := by
  rw [Server.handleEnqueue]
  split
  · exact aside_setWorker rfl _
  · exact aside_setWorker rfl _

theorem Server.handleOutbound_aside (live : server.clients cl = some client)
    (call : server.handleOutbound cl = some next) : Aside client.ownerThrdId server next := by
  rw [Server.handleOutbound, live] at call
  obtain rfl := Option.some.inj call
  exact server.afterHandler_aside cl client _

theorem Server.handleDequeue_aside {resumeTable : ClientTable}
    (call : server.handleDequeue thrd cl resumeTable = some next) : Aside thrd server next := by
  obtain ⟨client, -, made⟩ := Option.bind_eq_some_iff.mp call
  obtain rfl := Option.some.inj made
  exact aside_setWorker rfl _

theorem Server.handleQueuedMessages_aside {resumeTable dequeueTable : ClientTable}
    {waiting : List MpscMsgNode} (live : server.clients cl = some client)
    (call : server.handleQueuedMessages client.ownerThrdId cl resumeTable dequeueTable waiting =
      some next) : Aside client.ownerThrdId server next := by
  rw [Server.handleQueuedMessages, live, Option.bind_eq_bind, Option.bind_some] at call
  obtain ⟨result, -, made⟩ := Option.bind_eq_some_iff.mp call
  obtain rfl := Option.some.inj made
  exact (server.afterHandler_aside cl client result.stdcl).setWorker _

/-- The client a handler is called for belongs to the worker that calls it. -/
theorem Consistent.servedOwner {task : WorkerTask} (consistent : Consistent bounded server)
    (busy : (server.workers thrd).task = task) (serves : task.Serves cl) :
    ∃ client, server.clients cl = some client ∧ client.ownerThrdId = thrd := by
  obtain ⟨client, live, inSession⟩ := consistent.served busy serves
  exact ⟨client, live, inSession.working.owner rfl⟩

theorem ServerStep.moved (consistent : Consistent bounded server)
    (step : ServerStep server next) : WorkersMoved server next := by
  have awake {thrd : Nat} {task : WorkerTask} (here : (server.workers thrd).task = task)
      (other : ∀ rest, task ≠ .sweeping rest) : (server.workers thrd).task.Awake := here ▸ other
  cases step with
  | arrives => exact .still rfl
  | newConnection _ _ _ _ _ idle call =>
    exact .handles (awake idle (by simp)) (Server.handleNewConnection_aside call)
  | accepting _ _ ready _ call =>
    exact .handles (awake ready.idle (by simp)) (Server.handleAccepting_aside call)
  | authentication _ ready _ call =>
    exact .handles (awake ready.idle (by simp)) (Server.handleAuthentication_aside call)
  | add task _ call => exact .handles (awake task (by simp)) (Server.handleAdd_aside call)
  | activate task call => exact .handles (awake task (by simp)) (Server.handleActivate_aside call)
  | timeout _ _ idle call => exact .handles (awake idle (by simp)) (Server.handleClthTimeout_aside call)
  | hangup ready call => exact .handles (awake ready.idle (by simp)) (Server.cleanup_aside call)
  | validate ready => exact .handles (awake ready.idle (by simp)) (aside_setWorker rfl _)
  | forward task => exact .handles (awake task (by simp)) (aside_setWorker rfl _)
  | inbound _ task call =>
    obtain ⟨client, live, rfl⟩ := consistent.servedOwner task ⟨rfl, by simp, by simp⟩
    exact .handles (awake task (by simp)) (Server.handleInbound_aside live call)
  | @enqueue thrd cl rcpt msg task =>
    exact .handles (awake task (by simp)) (server.handleEnqueue_aside thrd cl rcpt msg)
  | outbound ready _ call =>
    obtain ⟨idle, live, rfl⟩ := ready
    exact .handles (awake idle (by simp)) (Server.handleOutbound_aside live call)
  | resume ready => exact .handles (awake ready.idle (by simp)) (aside_setWorker rfl _)
  | dequeue task call => exact .handles (awake task (by simp)) (Server.handleDequeue_aside call)
  | flush task call =>
    obtain ⟨client, live, rfl⟩ := consistent.servedOwner task ⟨rfl, by simp, by simp⟩
    exact .handles (awake task (by simp)) (Server.handleQueuedMessages_aside live call)
  | sweep thrd idle => exact .handles (awake idle (by simp)) (aside_setWorker rfl _)
  | sweepNext task _ call =>
    refine .sweeps task ?_
    obtain ⟨client, -, handled⟩ := Option.bind_eq_some_iff.mp call
    dsimp only at handled
    split at handled
    · cases handled
    · split at handled <;>
      · obtain rfl := Option.some.inj handled
        rfl
  | @sweepEnd thrd task =>
    exact .rests task (by rw [server.setWorker_self]) (aside_setWorker rfl _)

end Steps

/-! ### The clients that did not authenticate -/

section Shutdown

variable {bounded : Prop} {server next : Server} {lists : Nat → List Addr} {thrd : Nat} {cl : Addr}
  {client : OwnedClient} {addrs : List Addr}

/-- The first node of a list is taken out without a search. -/
theorem Server.preauthRemove_head (first : (server.workers thrd).preauthList = some cl) :
    server.preauthRemove thrd cl =
      some (({ server with next := Function.update server.next cl none }).setWorker thrd
        fun worker => { worker with preauthList := server.next cl }) := by
  rw [Server.preauthRemove, first, intrusiveListRemove, intrusiveListSeek, if_pos rfl]
  rfl

/-- Cleaning up the first client of the list leaves the list behind it. -/
theorem Server.cleanup_head (first : (server.workers thrd).preauthList = some cl)
    (live : server.clients cl = some client)
    (state : client.stdcl.clState = .accepting ∨ client.stdcl.clState = .accepted)
    (call : server.cleanup thrd cl = some next) :
    next.next = Function.update server.next cl none ∧
      (next.workers thrd).preauthList = server.next cl ∧
      (next.workers thrd).dconnClients = (server.workers thrd).dconnClients ∧
      (next.workers thrd).task = (server.workers thrd).task := by
  rw [Server.cleanup, live, Option.bind_eq_bind, Option.bind_some] at call
  rcases state with state | state
  · rw [state] at call
    simp only [Server.preauthRemove_head first, Option.bind_eq_bind, Option.bind_some,
      Option.pure_def, Option.some.injEq] at call
    subst call
    simp [Server.free, Server.setWorker]
  · rw [state] at call
    obtain ⟨untimed, remove, call⟩ := Option.bind_eq_some_iff.mp call
    obtain ⟨clth, -, made⟩ := Option.bind_eq_some_iff.mp remove
    obtain rfl := Option.some.inj made
    have stillFirst : ((server.setClth thrd clth).workers thrd).preauthList = some cl := by
      rw [Server.setClth, Server.setWorker_self]
      exact first
    simp only [Server.preauthRemove_head stillFirst, Option.bind_eq_bind, Option.bind_some,
      Option.pure_def, Option.some.injEq] at call
    subst call
    simp [Server.free, Server.setWorker, Server.setClth]

/-- Who is on the list of a worker is live, belongs to it, and is not in the table. -/
theorem Consistent.listed (consistent : Consistent bounded server)
    (path : Path server.next (server.workers thrd).preauthList addrs none) (member : cl ∈ addrs) :
    ∃ client timed, (client.stdcl.clState = .accepted ∨
        client.stdcl.clState = .accepting ∧ timed = false) ∧
      ¬ (server.workers thrd).task.Concerns cl ∧
      Working bounded server server thrd cl ⟨some client, true, timed, none, 0⟩ := by
  obtain ⟨lists, order, situated⟩ := consistent
  obtain ⟨owner, place, found, legal⟩ := situated cl
  have isList : addrs = lists thrd := path.unique (order.paths thrd)
  obtain ⟨rfl, isListed⟩ := (found.listed thrd).mp (isList ▸ member)
  have working : Working bounded server server thrd cl place :=
    ⟨lists, order, found, fun other _ => ⟨rfl, situated other⟩, fun _ => rfl, rfl⟩
  cases legal with
  | gone | adding | activating | session => cases isListed
  | accepting state _ free => exact ⟨_, _, .inr ⟨state, rfl⟩, free, working⟩
  | accepted state _ _ free => exact ⟨_, _, .inl state, free, working⟩

/-- The loop frees all clients of the list, and only the containers of the worker change. -/
theorem Consistent.shutdownLoop (consistent : Consistent bounded server) {fuel : Nat}
    (path : Path server.next (server.workers thrd).preauthList addrs none)
    (distinct : addrs.Nodup) (enough : addrs.length < fuel) :
    ∃ next, Server.shutdownLoop thrd fuel (server.workers thrd).preauthList server = some next ∧
      Kept bounded server next ∧ Plain server next ∧ Aside thrd server next ∧
      (next.workers thrd).preauthList = none ∧
      (next.workers thrd).dconnClients = (server.workers thrd).dconnClients ∧
      (next.workers thrd).task = (server.workers thrd).task := by
  induction addrs generalizing server fuel with
  | nil =>
    have empty : (server.workers thrd).preauthList = none := path
    refine ⟨server, ?_, ⟨consistent, .refl server⟩, .refl server, .refl thrd server, empty, rfl, rfl⟩
    rw [empty, Server.shutdownLoop]
  | cons temp rest inductionHypothesis =>
    obtain ⟨fuel, rfl⟩ : ∃ more, fuel = more + 1 := ⟨fuel - 1, by simp at enough; omega⟩
    obtain ⟨notRest, distinctRest⟩ := List.nodup_cons.mp distinct
    obtain ⟨client, timed, state, free, working⟩ := consistent.listed path List.mem_cons_self
    obtain ⟨cleaned, clean, same, _, left⟩ := working.cleanup state
    obtain ⟨first, tail⟩ := path
    have live : server.clients temp = some client := working.client
    obtain ⟨links, list, dconnClients, task⟩ := Server.cleanup_head first live
      (state.elim .inr fun both => .inl both.1) clean
    have kept : Kept bounded server cleaned := left.closeGone free
    have tailPath : Path cleaned.next (cleaned.workers thrd).preauthList rest none := by
      rw [links, list]
      refine tail.congr fun addr member => Function.update_of_ne ?_ _ _
      rintro rfl
      exact notRest member
    obtain ⟨next, loop, keptRest, plain, aside, empty, sameDconn, sameTask⟩ :=
      inductionHypothesis kept.consistent tailPath distinctRest (Nat.lt_of_succ_lt_succ enough)
    refine ⟨next, ?_, keptRest.after consistent kept.forward,
      (left.plainGone ⟨same.table, same.enqueued⟩).trans plain,
      (Server.cleanup_aside clean).trans aside, empty, sameDconn.trans dconnClients,
      sameTask.trans task⟩
    rw [first, Server.shutdownLoop, live, Option.bind_eq_bind, Option.bind_some, clean,
      Option.bind_eq_bind, Option.bind_some, ← list]
    exact loop

theorem InOrder.length_lt (order : InOrder server lists) (thrd : Nat) :
    (lists thrd).length < server.allocated + 1 := by
  have fewer := (List.subperm_of_subset (order.distinct thrd) fun addr member =>
    List.mem_range.mpr (order.below thrd addr member)).length_le
  rw [List.length_range] at fewer
  exact Nat.lt_succ_of_le fewer

/-- A worker that sees the event frees its clients that did not authenticate, and begins to sweep
those that disconnected. -/
theorem Consistent.handleShutdown (consistent : Consistent bounded server)
    (idle : (server.workers thrd).task = .idle) :
    ∃ next, server.handleShutdown thrd = some next ∧ Kept bounded server next ∧
      next.table = server.table ∧ Aside thrd server next ∧
      (next.workers thrd).preauthList = none ∧
      (next.workers thrd).task = .sweeping (server.workers thrd).dconnClients := by
  obtain ⟨lists, order, -⟩ := id consistent
  obtain ⟨left, loop, kept, plain, aside, empty, dconnClients, task⟩ :=
    consistent.shutdownLoop (order.paths thrd) (order.distinct thrd) (order.length_lt thrd)
  refine ⟨left.setTask thrd (.sweeping (left.workers thrd).dconnClients), ?_,
    kept.trans (kept.consistent.sweep (task.trans idle)) consistent, plain.table,
    aside.setWorker _, ?_, ?_⟩
  · rw [Server.handleShutdown, loop]
    rfl
  · rw [Server.setTask, left.setWorker_self]
    exact empty
  · rw [Server.setTask, left.setWorker_self, dconnClients]

/-- The next client that is swept disconnected, and is in the table under its name. -/
theorem Consistent.toSweep (consistent : Consistent bounded server) {rest : List Addr}
    (task : (server.workers thrd).task = .sweeping (cl :: rest)) :
    ∃ client, server.clients cl = some client ∧ client.ownerThrdId = thrd ∧
      client.stdcl.key.length ≠ 0 ∧ server.table client.stdcl.key = some cl := by
  obtain ⟨owner, place, working, legal⟩ := consistent.begin cl
  have member : cl ∈ (server.workers thrd).toSweep := by
    rw [Worker.toSweep, task]
    exact List.mem_cons_self
  obtain ⟨rfl, departed⟩ := working.swept member
  cases legal with
  | gone | accepting | accepted | adding | activating => exact absurd rfl departed
  | @session client _ named =>
    exact ⟨client, working.client, working.owner rfl, named.nonempty, (working.tabled _).mpr rfl⟩

/-- A client that is in the table goes from there, and is freed. -/
theorem Server.handleSweep_tabled {rest : List Addr} {links : Links}
    (live : server.clients cl = some client) (nonempty : client.stdcl.key.length ≠ 0)
    (tabled : server.table client.stdcl.key = some cl) :
    server.handleSweep thrd cl rest links =
      some (({ server with
        next := links
        table := Function.update server.table client.stdcl.key none }.free cl).setTask thrd
          (.sweeping rest)) := by
  rw [Server.handleSweep, live, Option.bind_eq_bind, Option.bind_some]
  dsimp only
  rw [if_neg nonempty, tabled]
  rfl

theorem Consistent.inTable (consistent : Consistent bounded server) {name : Bytes}
    (tabled : server.table name = some cl) : server.clients cl ≠ none := by
  obtain ⟨owner, place, working, legal⟩ := consistent.begin cl
  have inPlace := (working.tabled name).mp tabled
  rw [working.client]
  cases legal with
  | gone | accepting | accepted | adding => cases inPlace
  | activating | session => exact Option.some_ne_none _

/-- A client whose worker has no list and nothing to sweep is a session in the table. -/
theorem Consistent.leftBehind (consistent : Consistent bounded server)
    (live : server.clients cl = some client)
    (empty : (server.workers client.ownerThrdId).preauthList = none)
    (swept : (server.workers client.ownerThrdId).task = .sweeping []) :
    client.stdcl.clState = .authenticated ∧ server.table client.stdcl.key = some cl := by
  obtain ⟨lists, order, situated⟩ := consistent
  obtain ⟨owner, place, found, legal⟩ := situated cl
  have here : place.client = some client := found.client.symm.trans live
  obtain rfl : client.ownerThrdId = owner := found.owner client here
  have noList : lists client.ownerThrdId = [] :=
    (order.paths client.ownerThrdId).unique (empty ▸ rfl)
  have unlisted : place.listed = false := by
    by_contra isListed
    have member := (found.listed client.ownerThrdId).mpr ⟨rfl, by simpa using isListed⟩
    rw [noList] at member
    cases member
  have nobody := found.departed client.ownerThrdId
  rw [Worker.toSweep, swept, if_pos rfl, List.count_nil] at nobody
  cases legal with
  | gone => cases here
  | accepting => cases unlisted
  | accepted => cases unlisted
  | adding _ _ busy => rw [swept] at busy; cases busy
  | activating _ _ busy => rw [swept] at busy; cases busy
  | session state =>
    obtain rfl := Option.some.inj here
    refine ⟨state.resolve_right fun gone => ?_, (found.tabled _).mpr rfl⟩
    rw [Place.ofSession, if_pos gone] at nobody
    cases nobody

/-- The clients in the table are freed, each where it is live. -/
theorem Server.deleteTable_spec (server : Server) {freed : List Addr} (distinct : freed.Nodup)
    (live : ∀ cl ∈ freed, server.clients cl ≠ none) :
    ∃ next, server.deleteTable freed = some next ∧ next.workers = server.workers ∧
      ∀ cl, next.clients cl = if cl ∈ freed then none else server.clients cl := by
  induction freed generalizing server with
  | nil => exact ⟨_, rfl, rfl, fun cl => by simp⟩
  | cons cl rest inductionHypothesis =>
    obtain ⟨notRest, distinctRest⟩ := List.nodup_cons.mp distinct
    obtain ⟨client, found⟩ := Option.ne_none_iff_exists'.mp (live cl List.mem_cons_self)
    have others : ∀ other, other ≠ cl → (server.free cl).clients other = server.clients other :=
      fun other different => Function.update_of_ne different _ _
    obtain ⟨next, deleted, workers, clients⟩ := inductionHypothesis (server.free cl) distinctRest
      fun other member => by
        rw [others other fun same => notRest (same ▸ member)]
        exact live other (List.mem_cons_of_mem _ member)
    refine ⟨next, ?_, workers, fun other => ?_⟩
    · rw [Server.deleteTable, found]
      exact deleted
    · rw [clients other]
      by_cases same : other = cl
      · subst same
        simp [Server.free]
      · simp [same, others other same]

end Shutdown

/-! ### The life of the server -/

/-- Until `main` has deleted the table, every client is at a legal place, and a worker that saw the
event has nobody left who did not authenticate. -/
structure LifeInvariant (life : ServerLife) : Prop where
  consistent : life.deleted = false → Consistent False life.server
  leaving : ∀ thrd, life.leaving thrd = true → (life.server.workers thrd).preauthList = none ∧
    ∃ rest, (life.server.workers thrd).task = .sweeping rest
  exited : ∀ thrd, life.exited thrd = true → life.leaving thrd = true ∧
    (life.server.workers thrd).task = .sweeping []
  deleted : life.deleted = true → (∀ thrd, life.exited thrd = true) ∧
    ∀ cl, life.server.clients cl = none

section Life

variable {numWorkerThreads : Nat} {life next : ServerLife} {server later : Server}

theorem lifeStart_invariant (numWorkerThreads : Nat) :
    LifeInvariant (lifeStart numWorkerThreads) := by
  have task (thrd : Nat) : ((lifeStart numWorkerThreads).server.workers thrd).task =
      if thrd < numWorkerThreads then .idle else .sweeping [] := by
    rw [lifeStart]
    dsimp only
    split <;> rfl
  have containers (thrd : Nat) :
      ((lifeStart numWorkerThreads).server.workers thrd).preauthList = none ∧
      ((lifeStart numWorkerThreads).server.workers thrd).clth =
        (serverStart.workers thrd).clth ∧
      ((lifeStart numWorkerThreads).server.workers thrd).toSweep = [] := by
    rw [lifeStart]
    dsimp only
    split
    · exact ⟨rfl, rfl, rfl⟩
    · exact ⟨rfl, rfl, rfl⟩
  have ended (thrd : Nat) (none : decide (numWorkerThreads ≤ thrd) = true) :
      ((lifeStart numWorkerThreads).server.workers thrd).task = .sweeping [] := by
    rw [task, if_neg (not_lt.mpr (of_decide_eq_true none))]
  refine ⟨fun _ => ?_, fun thrd leaves => ⟨(containers thrd).1, [], ended thrd leaves⟩,
    fun thrd exited => ⟨exited, ended thrd exited⟩, fun none => (by cases none)⟩
  obtain ⟨lists, order, situated⟩ := serverStart_consistent False
  have noList (thrd : Nat) : lists thrd = [] := (order.paths thrd).unique rfl
  refine ⟨lists, ⟨fun thrd => ?_, order.distinct, order.below, fun thrd => ?_, order.fresh⟩,
    fun cl => ⟨0, ⟨none, false, false, none, 0⟩, ⟨rfl, fun _ none => (by cases none),
      fun other => ?_, fun other => ?_, fun _ => by simp [lifeStart, serverStart], fun other => ?_,
      fun other busy => ?_⟩, .gone ?_⟩⟩
  · rw [(containers thrd).1]
    exact order.paths thrd
  · rw [(containers thrd).2.1]
    exact order.slots thrd
  · rw [noList]
    simp
  · rw [(containers other).2.1]
    exact iff_of_false (fun held => held rfl) (by simp)
  · rw [(containers other).2.2]
    simp
  · rw [task] at busy
    split at busy <;> exact busy.elim
  · rw [task]
    split <;> exact id

/-- Where all workers are at the end of a sweep and no client is left, a worker can only come back to
its events. -/
theorem ServerStep.comesBack (ended : ∀ thrd, (server.workers thrd).task = .sweeping [])
    (gone : ∀ cl, server.clients cl = none) (step : ServerStep server later) :
    ∃ thrd, (later.workers thrd).task = .idle := by
  have noTask {thrd : Nat} {task : WorkerTask} (busy : (server.workers thrd).task = task)
      (other : task ≠ .sweeping []) : ∃ thrd, (later.workers thrd).task = .idle :=
    absurd (busy.symm.trans (ended thrd)) other
  have noClient {thrd : Nat} {cl : Addr} {client : OwnedClient}
      (ready : server.Ready thrd cl client) : ∃ thrd, (later.workers thrd).task = .idle :=
    noTask ready.idle (by simp)
  cases step with
  | arrives _ live =>
    rw [gone] at live
    cases live
  | newConnection _ _ _ _ _ idle | timeout _ _ idle | sweep _ idle => exact noTask idle (by simp)
  | accepting _ _ ready | authentication _ ready | hangup ready | validate ready | outbound ready
  | resume ready => exact noClient ready
  | add task | activate task | forward task | inbound _ task | enqueue task | dequeue task
  | flush task | sweepNext task => exact noTask task (by simp)
  | @sweepEnd thrd => exact ⟨thrd, by rw [server.setWorker_self]⟩

/-- Once the table is deleted, nobody moves. -/
theorem LifeInvariant.over (invariant : LifeInvariant life) (deleted : life.deleted = true) :
    ¬ LifeStep life next := by
  obtain ⟨joined, gone⟩ := invariant.deleted deleted
  intro step
  cases step with
  | works step leaves =>
    obtain ⟨thrd, idle⟩ := step.comesBack (fun thrd => (invariant.exited thrd (joined thrd)).2) gone
    exact leaves thrd (invariant.exited thrd (joined thrd)).1 idle
  | @shutdown thrd _ stays =>
    rw [(invariant.exited thrd (joined thrd)).1] at stays
    cases stays
  | @exits thrd _ stays =>
    rw [joined thrd] at stays
    cases stays
  | deletes kept =>
    rw [deleted] at kept
    cases kept

/-- A worker that has ended, or sweeps for the last time, is not disturbed. -/
theorem LifeInvariant.works (invariant : LifeInvariant life) (kept : life.deleted = false)
    (step : ServerStep life.server later)
    (leaves : ∀ thrd, life.leaving thrd = true → (later.workers thrd).task ≠ .idle) :
    LifeInvariant { life with server := later } := by
  have consistent := invariant.consistent kept
  have undisturbed (thrd : Nat) (leaving : life.leaving thrd = true) :
      later.workers thrd = life.server.workers thrd ∨ ∃ cl rest,
        (life.server.workers thrd).task = .sweeping (cl :: rest) ∧
        later.workers thrd = { life.server.workers thrd with task := .sweeping rest } := by
    obtain ⟨_, sweeps, task⟩ := invariant.leaving thrd leaving
    cases step.moved consistent with
    | still same => exact .inl (by rw [same])
    | @handles other awake aside =>
      refine .inl (aside thrd ?_)
      rintro rfl
      exact awake sweeps task
    | @sweeps other cl rest isTask moved =>
      rw [moved]
      by_cases same : thrd = other
      · subst same
        exact .inr ⟨cl, rest, isTask, by rw [Server.setTask, Server.setWorker_self]⟩
      · exact .inl (Server.setWorker_of_ne _ _ same)
    | @rests other isTask idle aside =>
      refine .inl (aside thrd ?_)
      rintro rfl
      exact leaves thrd leaving idle
  refine ⟨fun _ => (step.kept consistent (fun none => none.elim)).1.consistent, fun thrd leaving => ?_,
    fun thrd exited => ?_, fun deleted => ?_⟩
  · obtain ⟨empty, sweeps, task⟩ := invariant.leaving thrd leaving
    rcases undisturbed thrd leaving with same | ⟨cl, rest, _, moved⟩
    · exact ⟨same ▸ empty, sweeps, same ▸ task⟩
    · exact ⟨by rw [moved]; exact empty, rest, by rw [moved]⟩
  · obtain ⟨leaving, task⟩ := invariant.exited thrd exited
    rcases undisturbed thrd leaving with same | ⟨cl, rest, isTask, _⟩
    · exact ⟨leaving, same ▸ task⟩
    · rw [task] at isTask
      cases isTask
  · rw [kept] at deleted
    cases deleted

/-- A worker that sees the event begins its last sweep. -/
theorem LifeInvariant.shutdown {thrd : Nat} (invariant : LifeInvariant life)
    (kept : life.deleted = false) (stays : life.leaving thrd = false)
    (idle : (life.server.workers thrd).task = .idle)
    (call : life.server.handleShutdown thrd = some later) :
    LifeInvariant
      { life with server := later, leaving := Function.update life.leaving thrd true } := by
  obtain ⟨left, called, keeps, -, aside, empty, task⟩ :=
    (invariant.consistent kept).handleShutdown idle
  obtain rfl := Option.some.inj (called.symm.trans call)
  have before {other : Nat} (leaving : life.leaving other = true) :
      left.workers other = life.server.workers other := by
    refine aside other ?_
    rintro rfl
    rw [stays] at leaving
    cases leaving
  refine ⟨fun _ => keeps.consistent, fun other leaving => ?_, fun other exited => ?_,
    fun deleted => ?_⟩
  · by_cases same : other = thrd
    · subst same
      exact ⟨empty, _, task⟩
    · have already : Function.update life.leaving thrd true other = true := leaving
      rw [Function.update_of_ne same] at already
      rw [before already]
      exact invariant.leaving other already
  · obtain ⟨leaving, isTask⟩ := invariant.exited other exited
    refine ⟨?_, by rw [before leaving]; exact isTask⟩
    dsimp only
    rw [Function.update_apply]
    split
    · rfl
    · exact leaving
  · rw [kept] at deleted
    cases deleted

/-- A worker ends when it has swept all. -/
theorem LifeInvariant.exits {thrd : Nat} (invariant : LifeInvariant life)
    (kept : life.deleted = false) (leaves : life.leaving thrd = true)
    (task : (life.server.workers thrd).task = .sweeping []) :
    LifeInvariant { life with
      server := life.server.setWorker thrd fun worker => { worker with dconnClients := [] }
      exited := Function.update life.exited thrd true } := by
  have same (other : Nat) : ((life.server.setWorker thrd fun worker =>
      { worker with dconnClients := [] }).workers other).task =
        (life.server.workers other).task ∧
      ((life.server.setWorker thrd fun worker =>
        { worker with dconnClients := [] }).workers other).preauthList =
        (life.server.workers other).preauthList :=
    forall_setWorker life.server (fun other worker =>
      worker.task = (life.server.workers other).task ∧
      worker.preauthList = (life.server.workers other).preauthList)
      (fun _ _ => ⟨rfl, rfl⟩) ⟨rfl, rfl⟩ other
  refine ⟨fun _ => ?_, fun other leaving => ?_, fun other exited => ?_, fun deleted => ?_⟩
  · show Consistent False (life.server.setWorker thrd fun worker => { worker with dconnClients := [] })
    refine (invariant.consistent kept).setWorker rfl rfl (fun cl => ?_) (fun cl => ?_) ?_
    · rw [task]
      exact id
    · rw [task]
      exact id
    · rw [Worker.toSweep, Worker.toSweep, task]
  · rw [(same other).1, (same other).2]
    exact invariant.leaving other leaving
  · rw [(same other).1]
    by_cases here : other = thrd
    · subst here
      exact ⟨leaves, task⟩
    · have already : Function.update life.exited thrd true other = true := exited
      rw [Function.update_of_ne here] at already
      exact invariant.exited other already
  · rw [kept] at deleted
    cases deleted

/-- `main` frees what the workers left, and that is all there is. -/
theorem LifeInvariant.delete {state : HtableState} (invariant : LifeInvariant life)
    (kept : life.deleted = false) (joined : ∀ thrd, life.exited thrd = true)
    (holds : HoldsTable state life.server.table) :
    ∃ memory freed after, htableDelete state = some (memory, freed) ∧
      life.server.deleteTable freed = some after ∧ after.workers = life.server.workers ∧
      ∀ cl, after.clients cl = none := by
  obtain ⟨key, members, power, lists, table, tabled⟩ := holds
  obtain ⟨freed, walk, distinct, isMember⟩ := table.delete
  have consistent := invariant.consistent kept
  have inTable (cl : Addr) : cl ∈ freed ↔ ∃ name, life.server.table name = some cl := by
    rw [isMember]
    exact ⟨fun member => ⟨key cl, (tabled _ _).mpr ⟨member, rfl⟩⟩,
      fun ⟨name, found⟩ => ((tabled name cl).mp found).1⟩
  have live : ∀ cl ∈ freed, life.server.clients cl ≠ none := by
    intro cl member
    obtain ⟨name, found⟩ := (inTable cl).mp member
    exact consistent.inTable found
  obtain ⟨after, deletes, workers, clients⟩ := life.server.deleteTable_spec distinct live
  refine ⟨_, freed, after, walk, deletes, workers, fun cl => ?_⟩
  rw [clients]
  split
  · rfl
  · rename_i absent
    by_contra left
    obtain ⟨client, here⟩ := Option.ne_none_iff_exists'.mp left
    obtain ⟨leaving, ended⟩ := invariant.exited _ (joined client.ownerThrdId)
    exact absent ((inTable cl).mpr ⟨_, (consistent.leftBehind here
      (invariant.leaving _ leaving).1 ended).2⟩)

theorem LifeInvariant.step (invariant : LifeInvariant life) (step : LifeStep life next) :
    LifeInvariant next := by
  have kept : life.deleted = false := by
    by_contra deleted
    exact invariant.over (by simpa using deleted) step
  cases step with
  | works step leaves => exact invariant.works kept step leaves
  | shutdown stays idle call => exact invariant.shutdown kept stays idle call
  | exits leaves stays task => exact invariant.exits kept leaves task
  | deletes _ joined holds walk call =>
    obtain ⟨_, freed, after, walked, deletes, workers, gone⟩ := invariant.delete kept joined holds
    obtain rfl : freed = _ := (Prod.mk.inj (Option.some.inj (walked.symm.trans walk))).2
    obtain rfl := Option.some.inj (deletes.symm.trans call)
    refine ⟨fun none => (by cases none), fun thrd leaving => ?_, fun thrd exited => ?_,
      fun _ => ⟨joined, gone⟩⟩
    · rw [workers]
      exact invariant.leaving thrd leaving
    · rw [workers]
      exact invariant.exited thrd exited

theorem LifeRun.invariant (run : LifeRun numWorkerThreads life) : LifeInvariant life := by
  induction run with
  | start => exact lifeStart_invariant numWorkerThreads
  | step _ step inductionHypothesis => exact inductionHypothesis.step step

/-- **The server ends without a leak or a double free.** However its workers end while the others go
on: one that sees the event can handle it, each client it then sweeps is still in the table and
leaves it there, and it leaves no client but its sessions, which are in the table. When all have
ended, `main` can delete the table, whatever the order of its nodes. Then no client is left, and
nobody takes another step.

Here nobody else holds a reference to a client that is swept, so it is freed there. Where another
worker holds one, the client is freed when that worker gives it back. -/
theorem server_shutdown_frees_clients (run : LifeRun numWorkerThreads life) :
    (∀ thrd, (life.server.workers thrd).task = .idle →
      ∃ after, life.server.handleShutdown thrd = some after) ∧
    (∀ thrd cl rest links, (life.server.workers thrd).task = .sweeping (cl :: rest) →
      life.server.clients cl ≠ none ∧ ∃ after,
        life.server.handleSweep thrd cl rest links = some after ∧ after.clients cl = none ∧
        (after.workers thrd).task = .sweeping rest) ∧
    (∀ thrd cl client, life.exited thrd = true → life.server.clients cl = some client →
      client.ownerThrdId = thrd → client.stdcl.clState = .authenticated ∧
        life.server.table client.stdcl.key = some cl) ∧
    ((∀ thrd, life.exited thrd = true) → life.deleted = false →
      ∀ state, HoldsTable state life.server.table → ∃ memory freed after,
        htableDelete state = some (memory, freed) ∧
        life.server.deleteTable freed = some after ∧ ∀ cl, after.clients cl = none) ∧
    (life.deleted = true → (∀ cl, life.server.clients cl = none) ∧ ∀ next, ¬ LifeStep life next) := by
  have invariant := run.invariant
  have consistent {thrd : Nat} {task : WorkerTask} (busy : (life.server.workers thrd).task = task)
      (other : task ≠ .sweeping []) : Consistent False life.server := by
    refine invariant.consistent ?_
    by_contra deleted
    obtain ⟨joined, -⟩ := invariant.deleted (by simpa using deleted)
    exact other (busy.symm.trans (invariant.exited thrd (joined thrd)).2)
  refine ⟨fun thrd idle => ?_, fun thrd cl rest links task => ?_,
    fun thrd cl client exited live owner => ?_, fun joined kept state holds => ?_,
    fun deleted => ⟨(invariant.deleted deleted).2, fun next => invariant.over deleted⟩⟩
  · obtain ⟨after, called, -⟩ := (consistent idle (by simp)).handleShutdown idle
    exact ⟨after, called⟩
  · obtain ⟨client, live, -, nonempty, tabled⟩ := (consistent task (by simp)).toSweep task
    rw [live]
    exact ⟨Option.some_ne_none _, _, Server.handleSweep_tabled live nonempty tabled,
      Function.update_self .., by rw [Server.setTask, Server.setWorker_self]⟩
  · subst owner
    obtain ⟨leaving, ended⟩ := invariant.exited _ exited
    by_cases deleted : life.deleted = true
    · rw [(invariant.deleted deleted).2 cl] at live
      cases live
    · exact (invariant.consistent (by simpa using deleted)).leftBehind live
        (invariant.leaving _ leaving).1 ended
  · obtain ⟨memory, freed, after, walk, call, -, gone⟩ := invariant.delete kept joined holds
    exact ⟨memory, freed, after, walk, call, gone⟩

end Life

/-- One worker sees the event while a client has not authenticated. -/
theorem server_shutdown_frees_clients_pending : ∃ before after, LifeRun 1 before ∧
    (before.server.clients 0).isSome ∧ LifeRun 1 after ∧ after.deleted = true ∧
    ∀ cl, after.server.clients cl = none := by
  obtain ⟨connected, left, connects, pending, idle, sees, swept, table⟩ : ∃ connected left,
      (lifeStart 1).server.handleNewConnection 0 [127, 0, 0, 1] (requestingClient []).connection
        .pending ⟨0, 0⟩ = some connected ∧ (connected.clients 0).isSome ∧
      (connected.workers 0).task = .idle ∧ connected.handleShutdown 0 = some left ∧
      (left.workers 0).task = .sweeping [] ∧ left.table = fun _ => none :=
    ⟨_, _, rfl, rfl, rfl, rfl, rfl, rfl⟩
  have leaves : ∀ thrd, (lifeStart 1).leaving thrd = true →
      (connected.workers thrd).task ≠ .idle := by
    intro thrd leaving
    have beyond : ¬ thrd < 1 := not_lt.mpr (of_decide_eq_true leaving)
    rw [Server.handleNewConnection_aside connects thrd (by omega), lifeStart]
    dsimp only
    rw [if_neg beyond]
    simp
  have first := LifeRun.start.step (.works (.newConnection 0 _ _ _ _ rfl connects) leaves)
  have second := first.step (.shutdown rfl idle sees)
  have third := second.step (.exits (Function.update_self ..) rfl swept)
  have joined : ∀ thrd, Function.update (lifeStart 1).exited 0 true thrd = true := by
    intro thrd
    by_cases isWorker : thrd = 0
    · rw [isWorker, Function.update_self]
    · rw [Function.update_of_ne isWorker]
      exact decide_eq_true (Nat.one_le_iff_ne_zero.mpr isWorker)
  have holds : HoldsTable ⟨fun _ => none, smallTable⟩ left.table :=
    ⟨_, _, _, _, (@htableCreate_invariant .usernames 1 1 100 0 smallTable (by decide) (by decide)
      (by decide) (by decide) rfl fun _ => none).table, fun name cl => by simp [table]⟩
  obtain ⟨-, -, -, deletes, -⟩ := server_shutdown_frees_clients third
  obtain ⟨memory, freed, after, walk, call, gone⟩ := deletes joined rfl _ holds
  have last := third.step (.deletes rfl joined holds walk call)
  exact ⟨_, _, first, pending, last, rfl, gone⟩

end Lwmsg
