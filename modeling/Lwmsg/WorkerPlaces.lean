/-
This file says where the clients of the workers are. A place is what the containers of
a worker and the table know of one client, and only a few places are legal ones. A
handler moves one client, piece by piece, through places that are not legal, and
leaves all others where they are.

So each piece of a handler has one rule: it changes one entry of the place of the
client that the handler is called for.
-/

import Lwmsg.Worker
import Mathlib.Data.List.Perm.Subperm

namespace Lwmsg

open Bytes Pointers SinglyLinked

/-! ### Places -/

/-- The name of a session is the key of its node, is not empty, and in lower case. -/
structure Named (stdcl : StdClient) : Prop where
  size : stdcl.username.length = unamesize
  key : stdcl.key = cString stdcl.username
  nonempty : stdcl.key.length ≠ 0
  lower : (cString stdcl.username).map toLower = cString stdcl.username

/-- A client, whether it is in the list and in the heap of its worker, its key in the table, and how
often its worker has noted that it disconnected. -/
structure Place where
  client : Option OwnedClient
  listed : Bool
  timed : Bool
  tabled : Option Bytes
  departed : Nat

/-- The place of a client that has or had a session. -/
def Place.ofSession (client : OwnedClient) : Place where
  client := some client
  listed := false
  timed := false
  tabled := some client.stdcl.key
  departed := if client.stdcl.clState = .disconnected then 1 else 0

/-- The part of `dconn_clients` that was not swept yet. -/
def Worker.toSweep (worker : Worker) : List Addr :=
  match worker.task with
  | .sweeping rest => rest
  | _ => worker.dconnClients

/-- A task in which a worker sweeps nothing. -/
def WorkerTask.Awake (task : WorkerTask) : Prop := ∀ rest, task ≠ .sweeping rest

theorem Worker.toSweep_of_awake {worker : Worker} (awake : worker.task.Awake) :
    worker.toSweep = worker.dconnClients := by
  rw [Worker.toSweep]
  split
  · rename_i rest busy
    exact absurd busy (awake rest)
  · rfl

/-- A handler that is called for one client. -/
def WorkerTask.About (task : WorkerTask) (cl : Addr) : Prop :=
  ∀ other, task.Concerns other → other = cl

/-- The places of a client while its worker does `task`. Where the workers are not `bounded`, a heap
may be full, and then a client waits without a deadline. -/
inductive Legal (bounded : Prop) (task : WorkerTask) (cl : Addr) : Place → Prop
  | gone (free : ¬ task.Concerns cl) : Legal bounded task cl ⟨none, false, false, none, 0⟩
  | accepting {client} (state : client.stdcl.clState = .accepting)
      (holds : HoldsPart client.stdcl []) (free : ¬ task.Concerns cl) :
      Legal bounded task cl ⟨some client, true, false, none, 0⟩
  | accepted {client part timed} (state : client.stdcl.clState = .accepted)
      (holds : HoldsPart client.stdcl part) (due : bounded → timed = true)
      (free : ¬ task.Concerns cl) : Legal bounded task cl ⟨some client, true, timed, none, 0⟩
  | adding {client} (state : client.stdcl.clState = .accepted) (named : Named client.stdcl)
      (busy : task = .adding cl) : Legal bounded task cl ⟨some client, false, false, none, 0⟩
  | activating {client} (state : client.stdcl.clState = .accepted) (named : Named client.stdcl)
      (busy : task = .activating cl) :
      Legal bounded task cl ⟨some client, false, false, some client.stdcl.key, 0⟩
  | session {client} (state : client.stdcl.HasSession) (named : Named client.stdcl)
      (notAdding : task ≠ .adding cl) (notActivating : task ≠ .activating cl) :
      Legal bounded task cl (.ofSession client)

/-- A client is at a place. `lists` are the clients in the lists of all workers. -/
structure At (server : Server) (lists : Nat → List Addr) (thrd : Nat) (cl : Addr) (place : Place) :
    Prop where
  client : server.clients cl = place.client
  owner : ∀ client, place.client = some client → client.ownerThrdId = thrd
  listed : ∀ other, cl ∈ lists other ↔ other = thrd ∧ place.listed = true
  timed : ∀ other, (server.workers other).clth.Holds cl ↔ other = thrd ∧ place.timed = true
  tabled : ∀ key, server.table key = some cl ↔ place.tabled = some key
  departed : ∀ other, (server.workers other).toSweep.count cl =
    if other = thrd then place.departed else 0
  tasks : ∀ other, (server.workers other).task.Concerns cl → other = thrd

/-- A client is at a legal place. -/
def Situated (bounded : Prop) (server : Server) (lists : Nat → List Addr) (cl : Addr) : Prop :=
  ∃ thrd place, At server lists thrd cl place ∧
    Legal bounded (server.workers thrd).task cl place

/-- The lists and the heaps are well formed, and new addresses are unused. -/
structure InOrder (server : Server) (lists : Nat → List Addr) : Prop where
  paths : ∀ thrd, Path server.next (server.workers thrd).preauthList (lists thrd) none
  distinct : ∀ thrd, (lists thrd).Nodup
  below : ∀ thrd, ∀ cl ∈ lists thrd, cl < server.allocated
  slots : ∀ thrd, TimerSlots (server.workers thrd).clth
  fresh : ∀ cl, server.allocated ≤ cl → server.clients cl = none

/-- Every client is at a legal place. -/
def Consistent (bounded : Prop) (server : Server) : Prop :=
  ∃ lists, InOrder server lists ∧ ∀ cl, Situated bounded server lists cl

/-- What is known in the middle of a handler, which began with the server `origin`: where its client
is, and that all others are where they were. -/
def Working (bounded : Prop) (origin server : Server) (thrd : Nat) (cl : Addr) (place : Place) :
    Prop :=
  ∃ lists, InOrder server lists ∧ At server lists thrd cl place ∧
    (∀ other, other ≠ cl → server.clients other = origin.clients other ∧
      Situated bounded server lists other) ∧
    (∀ thrd, (server.workers thrd).task = (origin.workers thrd).task) ∧
    server.allocated = origin.allocated

/-- Nothing a place is about has changed for a client. -/
structure Untouched (server next : Server) (lists nextLists : Nat → List Addr) (cl : Addr) :
    Prop where
  client : next.clients cl = server.clients cl
  listed : ∀ thrd, cl ∈ nextLists thrd ↔ cl ∈ lists thrd
  timed : ∀ thrd, (next.workers thrd).clth.Holds cl ↔ (server.workers thrd).clth.Holds cl
  tabled : ∀ key, next.table key = some cl ↔ server.table key = some cl
  departed : ∀ thrd, (next.workers thrd).toSweep.count cl = (server.workers thrd).toSweep.count cl

section Places

variable {bounded : Prop} {origin server next : Server} {lists nextLists : Nat → List Addr}
  {thrd : Nat} {cl : Addr} {place : Place} {owned : OwnedClient} {busyWith : WorkerTask}

theorem Untouched.at (untouched : Untouched server next lists nextLists cl)
    (sameTasks : ∀ thrd, (next.workers thrd).task = (server.workers thrd).task)
    (found : At server lists thrd cl place) : At next nextLists thrd cl place where
  client := untouched.client.trans found.client
  owner := found.owner
  listed := fun other => (untouched.listed other).trans (found.listed other)
  timed := fun other => (untouched.timed other).trans (found.timed other)
  tabled := fun key => (untouched.tabled key).trans (found.tabled key)
  departed := fun other => (untouched.departed other).trans (found.departed other)
  tasks := fun other concerned => found.tasks other (sameTasks other ▸ concerned)

theorem Untouched.situated (untouched : Untouched server next lists nextLists cl)
    (sameTasks : ∀ thrd, (next.workers thrd).task = (server.workers thrd).task)
    (situated : Situated bounded server lists cl) : Situated bounded next nextLists cl := by
  obtain ⟨thrd, place, found, legal⟩ := situated
  exact ⟨thrd, place, untouched.at sameTasks found, (sameTasks thrd).symm ▸ legal⟩

/-- A client that waits for its authentication is not in the table. -/
theorem Legal.not_tabled (legal : Legal bounded busyWith cl place) (listed : place.listed = true) :
    place.tabled = none := by
  cases legal with
  | gone | accepting | accepted | adding => rfl
  | activating | session => cases listed

/-- In a list there are only clients that were not freed. -/
theorem Legal.live (legal : Legal bounded busyWith cl place) (listed : place.listed = true) :
    ∃ client, place.client = some client := by
  cases legal with
  | gone => cases listed
  | accepting | accepted | adding | activating | session => exact ⟨_, rfl⟩

/-- A handler begins with its client at a legal place. -/
theorem Consistent.begin (consistent : Consistent bounded server) (cl : Addr) :
    ∃ thrd place, Working bounded server server thrd cl place ∧
      Legal bounded (server.workers thrd).task cl place := by
  obtain ⟨lists, order, situated⟩ := consistent
  obtain ⟨thrd, place, found, legal⟩ := situated cl
  exact ⟨thrd, place, ⟨lists, order, found, fun other _ => ⟨rfl, situated other⟩, fun _ => rfl, rfl⟩,
    legal⟩

theorem Working.client (working : Working bounded origin server thrd cl place) :
    server.clients cl = place.client := by
  obtain ⟨_, _, found, _⟩ := working
  exact found.client

theorem Working.owner (working : Working bounded origin server thrd cl place)
    (live : place.client = some owned) : owned.ownerThrdId = thrd := by
  obtain ⟨_, _, found, _⟩ := working
  exact found.owner owned live

theorem Working.task (working : Working bounded origin server thrd cl place) (other : Nat) :
    (server.workers other).task = (origin.workers other).task := by
  obtain ⟨_, _, _, _, tasks, _⟩ := working
  exact tasks other

theorem Working.allocated (working : Working bounded origin server thrd cl place) :
    server.allocated = origin.allocated := by
  obtain ⟨_, _, _, _, _, allocated⟩ := working
  exact allocated

theorem Working.others (working : Working bounded origin server thrd cl place) {other : Addr}
    (different : other ≠ cl) : server.clients other = origin.clients other := by
  obtain ⟨_, _, _, others, _⟩ := working
  exact (others other different).1

theorem Working.tabled (working : Working bounded origin server thrd cl place) (key : Bytes) :
    server.table key = some cl ↔ place.tabled = some key := by
  obtain ⟨_, _, found, _⟩ := working
  exact found.tabled key

theorem Working.concerns (working : Working bounded origin server thrd cl place) {other : Nat}
    (concerned : (server.workers other).task.Concerns cl) : other = thrd := by
  obtain ⟨_, _, found, _⟩ := working
  exact found.tasks other concerned

theorem Working.below (working : Working bounded origin server thrd cl place)
    (live : place.client ≠ none) : cl < server.allocated := by
  obtain ⟨_, order, found, _⟩ := working
  by_contra beyond
  exact live (found.client.symm.trans (order.fresh cl (not_lt.mp beyond)))

/-- One piece of a handler. -/
theorem Working.piece {later : Place} {lists : Nat → List Addr} (nextLists : Nat → List Addr)
    (others : ∀ other, other ≠ cl → server.clients other = origin.clients other ∧
      Situated bounded server lists other)
    (tasks : ∀ thrd, (server.workers thrd).task = (origin.workers thrd).task)
    (allocated : server.allocated = origin.allocated) (order : InOrder next nextLists)
    (untouched : ∀ other, other ≠ cl → Untouched server next lists nextLists other)
    (sameTasks : ∀ thrd, (next.workers thrd).task = (server.workers thrd).task)
    (sameAllocated : next.allocated = server.allocated)
    (found : At next nextLists thrd cl later) : Working bounded origin next thrd cl later := by
  refine ⟨nextLists, order, found, fun other different => ?_,
    fun thrd => (sameTasks thrd).trans (tasks thrd), sameAllocated.trans allocated⟩
  obtain ⟨same, situated⟩ := others other different
  exact ⟨(untouched other different).client.trans same,
    (untouched other different).situated sameTasks situated⟩

end Places

/-! ### The pieces of the handlers -/

section Pieces

variable {bounded : Prop} {origin server : Server} {lists : Nat → List Addr} {thrd : Nat}
  {cl : Addr} {place : Place} {owned : OwnedClient}

/-- What other workers see of the server but for its clients. -/
structure SameRecords (server next : Server) : Prop where
  table : next.table = server.table
  answers : next.answers = server.answers
  enqueued : next.enqueued = server.enqueued

theorem SameRecords.trans {middle next : Server} (first : SameRecords server middle)
    (second : SameRecords middle next) : SameRecords server next :=
  ⟨second.table.trans first.table, second.answers.trans first.answers,
    second.enqueued.trans first.enqueued⟩

/-- A worker changes, and the others do not. -/
theorem forall_setWorker (server : Server) (Good : Nat → Worker → Prop) {change : Worker → Worker}
    (others : ∀ other, other ≠ thrd → Good other (server.workers other))
    (here : Good thrd (change (server.workers thrd))) (other : Nat) :
    Good other ((server.setWorker thrd change).workers other) := by
  by_cases same : other = thrd
  · subst same
    simpa [Server.setWorker] using here
  · simpa [Server.setWorker, same] using others other same

/-- Whatever becomes of a client but for its place. -/
theorem Working.setStdcl (working : Working bounded origin server thrd cl place)
    (live : place.client = some owned) (stdcl : StdClient) :
    Working bounded origin (server.setStdcl cl stdcl) thrd cl
      { place with client := some { owned with stdcl } } := by
  have inside := working.below (by simp [live])
  obtain ⟨lists, order, found, others, tasks, allocated⟩ := working
  have same (other : Addr) (different : other ≠ cl) :
      (server.setStdcl cl stdcl).clients other = server.clients other :=
    Function.update_of_ne different _ _
  refine .piece lists others tasks allocated ⟨order.paths, order.distinct, order.below, order.slots, ?_⟩
    (fun other different => ⟨same other different, fun _ => Iff.rfl, fun _ => Iff.rfl,
      fun _ => Iff.rfl, fun _ => rfl⟩) (fun _ => rfl) rfl
    ⟨?_, ?_, found.listed, found.timed, found.tabled, found.departed, found.tasks⟩
  · intro other beyond
    have different : other ≠ cl := fun equal => absurd (equal ▸ beyond) (not_le.mpr inside)
    exact (same other different).trans (order.fresh other beyond)
  · show Function.update server.clients cl _ cl = _
    rw [Function.update_self, found.client, live]
    rfl
  · intro other equal
    cases equal
    exact found.owner owned live

/-- What is only recorded makes no difference. -/
theorem Working.record (working : Working bounded origin server thrd cl place)
    (answers : List (Addr × AuthReqRespCode)) (enqueued : List (Addr × Addr × MpscMsgNode)) :
    Working bounded origin { server with answers, enqueued } thrd cl place := by
  obtain ⟨lists, order, found, others, tasks, allocated⟩ := working
  exact .piece lists others tasks allocated
    ⟨order.paths, order.distinct, order.below, order.slots, order.fresh⟩
    (fun _ _ => ⟨rfl, fun _ => Iff.rfl, fun _ => Iff.rfl, fun _ => Iff.rfl, fun _ => rfl⟩)
    (fun _ => rfl) rfl ⟨found.client, found.owner, found.listed, found.timed, found.tabled,
      found.departed, found.tasks⟩

theorem Working.answer (working : Working bounded origin server thrd cl place)
    (live : place.client = some owned) (stdcl : StdClient) (respCode : AuthReqRespCode) :
    Working bounded origin (server.answer cl stdcl respCode) thrd cl
      { place with client := some { owned with stdcl := authSendResp stdcl respCode } } :=
  (working.setStdcl live (authSendResp stdcl respCode)).record
    (server.answers ++ [(cl, respCode)]) server.enqueued

theorem Working.free (working : Working bounded origin server thrd cl place) :
    Working bounded origin (server.free cl) thrd cl { place with client := none } := by
  obtain ⟨lists, order, found, others, tasks, allocated⟩ := working
  have same (other : Addr) (different : other ≠ cl) :
      (server.free cl).clients other = server.clients other :=
    Function.update_of_ne different _ _
  refine .piece lists others tasks allocated ⟨order.paths, order.distinct, order.below, order.slots, ?_⟩
    (fun other different => ⟨same other different, fun _ => Iff.rfl, fun _ => Iff.rfl,
      fun _ => Iff.rfl, fun _ => rfl⟩) (fun _ => rfl) rfl
    ⟨Function.update_self _ _ _, fun _ none => (by cases none), found.listed, found.timed,
      found.tabled, found.departed, found.tasks⟩
  intro other beyond
  by_cases freed : other = cl
  · exact freed ▸ Function.update_self _ _ _
  · exact (same other freed).trans (order.fresh other beyond)

/-- The heap of the worker changes in what it holds of the client. -/
theorem Working.setClth {clth : TimerWorld} {timed : Bool}
    (working : Working bounded origin server thrd cl place) (slots : TimerSlots clth)
    (held : clth.Holds cl ↔ timed = true)
    (others : OthersHeld (server.workers thrd).clth clth cl) :
    Working bounded origin (server.setClth thrd clth) thrd cl { place with timed } := by
  obtain ⟨lists, order, found, rest, tasks, allocated⟩ := working
  have same (other : Nat) : ((server.setClth thrd clth).workers other).task =
      (server.workers other).task :=
    forall_setWorker server (fun other worker => worker.task = (server.workers other).task)
      (fun _ _ => rfl) rfl other
  have sweep (other : Nat) : ((server.setClth thrd clth).workers other).toSweep =
      (server.workers other).toSweep :=
    forall_setWorker server (fun other worker => worker.toSweep = (server.workers other).toSweep)
      (fun _ _ => rfl) rfl other
  refine .piece lists rest tasks allocated
    ⟨forall_setWorker server (fun other worker =>
        Path server.next worker.preauthList (lists other) none)
        (fun other _ => order.paths other) (order.paths thrd), order.distinct, order.below,
      forall_setWorker server (fun _ worker => TimerSlots worker.clth)
        (fun other _ => order.slots other) slots, order.fresh⟩
    (fun other different => ⟨rfl, fun _ => Iff.rfl,
      forall_setWorker server (fun any worker =>
        worker.clth.Holds other ↔ (server.workers any).clth.Holds other)
        (fun _ _ => Iff.rfl) (others other different), fun _ => Iff.rfl, fun any => by rw [sweep]⟩)
    same rfl ⟨found.client, found.owner, found.listed, ?_, found.tabled, fun other => by
      rw [sweep]
      exact found.departed other, fun other => by
      rw [same]
      exact found.tasks other⟩
  refine forall_setWorker server (fun other worker =>
    worker.clth.Holds cl ↔ other = thrd ∧ timed = true) (fun other different => ?_) ?_
  · refine (found.timed other).trans ?_
    simp [different]
  · rw [held]
    simp

theorem Working.slots (working : Working bounded origin server thrd cl place) (other : Nat) :
    TimerSlots (server.workers other).clth := by
  obtain ⟨lists, order, _⟩ := working
  exact order.slots other

theorem Working.timed (working : Working bounded origin server thrd cl place) :
    (server.workers thrd).clth.Holds cl ↔ place.timed = true := by
  obtain ⟨lists, _, found, _⟩ := working
  simpa using found.timed thrd

theorem Working.timerheapRemove (working : Working bounded origin server thrd cl place) :
    ∃ next, server.timerheapRemove thrd cl = some next ∧ SameRecords server next ∧
      next.clients = server.clients ∧
      Working bounded origin next thrd cl { place with timed := false } := by
  obtain ⟨clth, remove, taken, _⟩ := clTimerheapRemove_takenOut (working.slots thrd) cl
  refine ⟨server.setClth thrd clth, by rw [Server.timerheapRemove, remove]; rfl, ⟨rfl, rfl, rfl⟩, rfl,
    working.setClth taken.slots ?_ taken.others⟩
  simpa using taken.absent

theorem Working.timerheapAdd (working : Working bounded origin server thrd cl place)
    (untimed : place.timed = false) (now : Timespec) :
    ∃ next timed, server.timerheapAdd thrd cl now = some next ∧ SameRecords server next ∧
      next.clients = server.clients ∧
      ((server.workers thrd).clth.heap.numClients < 2 ^ 31 → timed = true) ∧
      Working bounded origin next thrd cl { place with timed } := by
  have slots := working.slots thrd
  have absent : ¬ (server.workers thrd).clth.Holds cl := fun held => by
    rw [working.timed.mp held] at untimed
    cases untimed
  by_cases few : (server.workers thrd).clth.heap.numClients < 2 ^ 31
  · obtain ⟨clth, add, kept, held, others⟩ :=
      clTimerheapAdd_slots now clthAuthMaxpermTime slots few absent
    refine ⟨server.setClth thrd clth, true, by rw [Server.timerheapAdd, add]; rfl, ⟨rfl, rfl, rfl⟩,
      rfl, fun _ => rfl, working.setClth kept ?_ others⟩
    simpa using held
  · have full := clTimerheapAdd_full cl now clthAuthMaxpermTime slots (not_lt.mp few)
    refine ⟨server.setClth thrd (server.workers thrd).clth, false,
      by rw [Server.timerheapAdd, full]; rfl, ⟨rfl, rfl, rfl⟩, rfl, fun less => absurd less few,
      working.setClth slots ?_ fun _ _ => Iff.rfl⟩
    simpa using absent

/-- The list of the worker changes in whether the client is on it. -/
theorem Working.setPreauthList {preauthList : Option Addr} {links : Links} {addrs : List Addr}
    {listed : Bool} {lists : Nat → List Addr}
    (order : InOrder server lists) (found : At server lists thrd cl place)
    (others : ∀ other, other ≠ cl → server.clients other = origin.clients other ∧
      Situated bounded server lists other)
    (tasks : ∀ thrd, (server.workers thrd).task = (origin.workers thrd).task)
    (allocated : server.allocated = origin.allocated)
    (path : Path links preauthList addrs none) (distinct : addrs.Nodup)
    (below : ∀ addr ∈ addrs, addr < server.allocated)
    (members : ∀ other, other ≠ cl → (other ∈ addrs ↔ other ∈ lists thrd))
    (member : cl ∈ addrs ↔ listed = true)
    (sameLinks : ∀ other, other ≠ thrd → ∀ addr ∈ lists other, links addr = server.next addr) :
    Working bounded origin (({ server with next := links }).setWorker thrd fun worker =>
      { worker with preauthList }) thrd cl { place with listed } := by
  have lists_eq (other : Nat) (different : other ≠ thrd) :
      Function.update lists thrd addrs other = lists other := Function.update_of_ne different _ _
  have same (other : Nat) : ((({ server with next := links }).setWorker thrd fun worker =>
      { worker with preauthList }).workers other).task = (server.workers other).task :=
    forall_setWorker { server with next := links }
      (fun other worker => worker.task = (server.workers other).task)
      (fun _ _ => rfl) rfl other
  have clth (other : Nat) : ((({ server with next := links }).setWorker thrd fun worker =>
      { worker with preauthList }).workers other).clth = (server.workers other).clth :=
    forall_setWorker { server with next := links }
      (fun other worker => worker.clth = (server.workers other).clth)
      (fun _ _ => rfl) rfl other
  have sweep (other : Nat) : ((({ server with next := links }).setWorker thrd fun worker =>
      { worker with preauthList }).workers other).toSweep = (server.workers other).toSweep :=
    forall_setWorker { server with next := links }
      (fun other worker => worker.toSweep = (server.workers other).toSweep)
      (fun _ _ => rfl) rfl other
  refine .piece (Function.update lists thrd addrs) others tasks allocated
    ⟨?_, ?_, ?_, fun other => clth other ▸ order.slots other, order.fresh⟩ ?_ same rfl
    ⟨found.client, found.owner, ?_, fun other => by
      rw [clth]
      exact found.timed other, found.tabled, fun other => by
      rw [sweep]
      exact found.departed other, fun other => by
      rw [same]
      exact found.tasks other⟩
  · refine forall_setWorker { server with next := links }
      (fun other worker =>
      Path links worker.preauthList (Function.update lists thrd addrs other) none)
      (fun other different => ?_) ?_
    · rw [lists_eq other different]
      exact (order.paths other).congr (sameLinks other different)
    · rw [Function.update_self]
      exact path
  · intro other
    by_cases here : other = thrd
    · subst here
      rwa [Function.update_self]
    · rw [lists_eq other here]
      exact order.distinct other
  · intro other
    by_cases here : other = thrd
    · subst here
      rwa [Function.update_self]
    · rw [lists_eq other here]
      exact order.below other
  · intro other different
    refine ⟨rfl, fun any => ?_, fun any => by rw [clth], fun _ => Iff.rfl, fun any => by rw [sweep]⟩
    by_cases here : any = thrd
    · subst here
      rw [Function.update_self]
      exact members other different
    · rw [lists_eq any here]
  · intro other
    by_cases here : other = thrd
    · subst here
      rw [Function.update_self, member]
      simp
    · rw [lists_eq other here, found.listed other]
      simp [here]

/-- In the list of another worker there is another client. -/
theorem At.unlisted (found : At server lists thrd cl place) {other : Nat} (different : other ≠ thrd) :
    cl ∉ lists other := fun member => different ((found.listed other).mp member).1

theorem Working.preauthAdd (working : Working bounded origin server thrd cl place)
    (unlisted : place.listed = false) (live : place.client ≠ none) :
    SameRecords server (server.preauthAdd thrd cl) ∧
      (server.preauthAdd thrd cl).clients = server.clients ∧
      Working bounded origin (server.preauthAdd thrd cl) thrd cl { place with listed := true } := by
  have inside := working.below live
  obtain ⟨lists, order, found, others, tasks, allocated⟩ := working
  have absent (other : Nat) : cl ∉ lists other := fun member => by
    rw [((found.listed other).mp member).2] at unlisted
    cases unlisted
  obtain ⟨path, sameLinks⟩ := intrusiveListAdd_path (order.paths thrd) (absent thrd)
  refine ⟨⟨rfl, rfl, rfl⟩, rfl, ?_⟩
  refine .setPreauthList order found others tasks allocated path
    (List.nodup_cons.mpr ⟨absent thrd, order.distinct thrd⟩) ?_ (fun other different => ?_) (by simp)
    fun other _ addr member => sameLinks addr ?_
  · rintro addr (_ | ⟨_, member⟩)
    · exact inside
    · exact order.below thrd addr member
  · simp [different]
  · rintro rfl
    exact absent other member

theorem Working.preauthRemove (working : Working bounded origin server thrd cl place) :
    ∃ next, server.preauthRemove thrd cl = some next ∧ SameRecords server next ∧
      next.clients = server.clients ∧
      Working bounded origin next thrd cl { place with listed := false } := by
  obtain ⟨lists, order, found, others, tasks, allocated⟩ := working
  have short : (lists thrd).length < server.allocated + 1 := by
    have sub := List.subperm_of_subset (order.distinct thrd) fun addr member =>
      List.mem_range.mpr (order.below thrd addr member)
    have fewer := sub.length_le
    rw [List.length_range] at fewer
    omega
  obtain ⟨preauthList, links, remove, path, sameLinks, _⟩ :=
    @intrusiveListRemove_path _ _ _ cl _ (order.paths thrd) (order.distinct thrd) short
  refine ⟨({ server with next := links }).setWorker thrd fun worker => { worker with preauthList },
    by rw [Server.preauthRemove, remove]; rfl, ⟨rfl, rfl, rfl⟩, rfl, ?_⟩
  refine .setPreauthList order found others tasks allocated path ((order.distinct thrd).erase cl)
    (fun addr member => order.below thrd addr (List.mem_of_mem_erase member))
    (fun other different => List.mem_erase_of_ne different) ?_ fun other different addr member =>
    sameLinks addr fun here => ?_
  · simpa using (order.distinct thrd).not_mem_erase
  · by_cases isClient : addr = cl
    · exact found.unlisted different (isClient ▸ member)
    · obtain ⟨_, otherThrd, otherPlace, otherFound, _⟩ := others addr isClient
      exact different (((otherFound.listed other).mp member).1.trans
        ((otherFound.listed thrd).mp here).1.symm)

theorem Working.dconnAdd (working : Working bounded origin server thrd cl place)
    (awake : (server.workers thrd).task.Awake) :
    Working bounded origin (server.dconnAdd thrd cl) thrd cl
      { place with departed := place.departed + 1 } := by
  obtain ⟨lists, order, found, others, tasks, allocated⟩ := working
  have same (other : Nat) : ((server.dconnAdd thrd cl).workers other).task =
      (server.workers other).task :=
    forall_setWorker server (fun other worker => worker.task = (server.workers other).task)
      (fun _ _ => rfl) rfl other
  have clth (other : Nat) : ((server.dconnAdd thrd cl).workers other).clth =
      (server.workers other).clth :=
    forall_setWorker server (fun other worker => worker.clth = (server.workers other).clth)
      (fun _ _ => rfl) rfl other
  have counts (addr : Addr) : ∀ other, ((server.dconnAdd thrd cl).workers other).toSweep.count addr =
      (server.workers other).toSweep.count addr + if other = thrd ∧ addr = cl then 1 else 0 := by
    refine forall_setWorker server (fun other worker => worker.toSweep.count addr =
      (server.workers other).toSweep.count addr + if other = thrd ∧ addr = cl then 1 else 0)
      (fun other different => by simp [different]) ?_
    rw [Worker.toSweep_of_awake awake, @Worker.toSweep_of_awake { server.workers thrd with
      dconnClients := (server.workers thrd).dconnClients ++ [cl] } awake, List.count_append]
    by_cases isClient : addr = cl
    · simp [isClient]
    · simp [isClient, Ne.symm isClient]
  refine .piece lists others tasks allocated
    ⟨forall_setWorker server (fun other worker =>
        Path server.next worker.preauthList (lists other) none)
        (fun other _ => order.paths other) (order.paths thrd), order.distinct, order.below,
      fun other => clth other ▸ order.slots other, order.fresh⟩
    (fun other different => ⟨rfl, fun _ => Iff.rfl, fun any => by rw [clth], fun _ => Iff.rfl,
      fun any => by simp [counts, different]⟩)
    same rfl ⟨found.client, found.owner, found.listed, fun other => by
      rw [clth]
      exact found.timed other, found.tabled, fun other => ?_, fun other => by
      rw [same]
      exact found.tasks other⟩
  rw [counts, found.departed other]
  by_cases here : other = thrd
  · simp [here]
  · simp [here]

/-- The table changes in the key it has the client under, and writes links of its nodes. -/
theorem Working.setTable {links : Links} (working : Working bounded origin server thrd cl place)
    (table : Bytes → Option Addr) (tabled : Option Bytes) (unlisted : place.listed = false)
    (writes : server.TableWrites cl links)
    (others : ∀ other key, other ≠ cl → (table key = some other ↔ server.table key = some other))
    (here : ∀ key, table key = some cl ↔ tabled = some key) :
    Working bounded origin { server with next := links, table } thrd cl { place with tabled } := by
  obtain ⟨lists, order, found, rest, tasks, allocated⟩ := working
  refine .piece lists rest tasks allocated
    ⟨fun other => (order.paths other).congr fun addr member => ?_, order.distinct, order.below,
      order.slots, order.fresh⟩
    (fun other different => ⟨rfl, fun _ => Iff.rfl, fun _ => Iff.rfl,
      fun key => others other key different, fun _ => rfl⟩) (fun _ => rfl) rfl
    ⟨found.client, found.owner, found.listed, found.timed, here, found.departed, found.tasks⟩
  have different : addr ≠ cl := by
    rintro rfl
    rw [((found.listed other).mp member).2] at unlisted
    cases unlisted
  refine writes addr different ?_
  rintro ⟨key, tabled⟩
  obtain ⟨_, _, _, otherFound, legal⟩ := rest addr different
  have nowhere := legal.not_tabled ((otherFound.listed other).mp member).2
  rw [(otherFound.tabled key).mp tabled] at nowhere
  cases nowhere

end Pieces

end Lwmsg
