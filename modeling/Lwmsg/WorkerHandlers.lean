/-
This file proves that each handler of the workers takes clients from legal places to
legal places, and that no client goes back to a state it was in before. A handler
begins with its client at a legal place, the rules for its pieces say where the client
is afterwards, and in the end that place has to be a legal one again.
-/

import Lwmsg.WorkerPlaces

namespace Lwmsg

open Bytes Pointers SinglyLinked

/-! ### What a client keeps -/

/-- The order in which a client goes through its states. -/
def ClientState.rank : ClientState → Nat
  | .init => 0
  | .accepting => 1
  | .accepted => 2
  | .registered => 3
  | .authenticated => 4
  | .disconnected => 5

/-- A client keeps its worker and, once it has a session, its name, and its state does not go
back. -/
structure OwnedClient.Moves (before after : OwnedClient) : Prop where
  owner : after.ownerThrdId = before.ownerThrdId
  forward : before.stdcl.clState.rank ≤ after.stdcl.clState.rank
  username : before.stdcl.HasSession → after.stdcl.username = before.stdcl.username

/-- Every client that is left has moved on, and no address is used again. -/
structure Forward (server next : Server) : Prop where
  moves : ∀ cl before after, server.clients cl = some before → next.clients cl = some after →
    before.Moves after
  gone : ∀ cl, cl < server.allocated → server.clients cl = none → next.clients cl = none
  allocated : server.allocated ≤ next.allocated

theorem OwnedClient.Moves.refl (client : OwnedClient) : client.Moves client :=
  ⟨rfl, le_rfl, fun _ => rfl⟩

theorem StdClient.HasSession.rank {stdcl : StdClient} (session : stdcl.HasSession) :
    4 ≤ stdcl.clState.rank := by
  rcases session with live | gone
  · rw [live]
    decide
  · rw [gone]
    decide

theorem hasSession_of_rank {stdcl : StdClient} (late : 4 ≤ stdcl.clState.rank) :
    stdcl.HasSession := by
  cases state : stdcl.clState with
  | authenticated => exact .inl state
  | disconnected => exact .inr state
  | init | accepting | accepted | registered =>
    rw [state] at late
    exact absurd late (by decide)

theorem OwnedClient.Moves.trans {before middle after : OwnedClient} (first : before.Moves middle)
    (second : middle.Moves after) : before.Moves after where
  owner := second.owner.trans first.owner
  forward := first.forward.trans second.forward
  username := fun session => (second.username (hasSession_of_rank
    (session.rank.trans first.forward))).trans (first.username session)

theorem Forward.refl (server : Server) : Forward server server := by
  refine ⟨fun cl before after found again => ?_, fun _ _ none => none, le_rfl⟩
  obtain rfl := Option.some.inj (found.symm.trans again)
  exact .refl before

section Keeping

variable {bounded : Prop} {origin server next : Server} {lists : Nat → List Addr} {thrd : Nat}
  {cl : Addr} {place : Place} {owned : OwnedClient} {busyWith : WorkerTask}

/-- Every client is at a legal place, and has moved on. -/
structure Kept (bounded : Prop) (server next : Server) : Prop where
  consistent : Consistent bounded next
  forward : Forward server next

theorem Consistent.below (consistent : Consistent bounded server)
    (live : server.clients cl = some owned) : cl < server.allocated := by
  obtain ⟨_, order, _⟩ := consistent
  by_contra beyond
  rw [order.fresh cl (not_lt.mp beyond)] at live
  cases live

theorem Forward.trans {middle : Server} (consistent : Consistent bounded server)
    (first : Forward server middle) (second : Forward middle next) : Forward server next := by
  refine ⟨fun cl before after found again => ?_, fun cl inside none => ?_,
    first.allocated.trans second.allocated⟩
  · have inside := consistent.below found
    cases middleFound : middle.clients cl with
    | none =>
      rw [second.gone cl (inside.trans_le first.allocated) middleFound] at again
      cases again
    | some between =>
      exact (first.moves cl before between found middleFound).trans
        (second.moves cl between after middleFound again)
  · exact second.gone cl (inside.trans_le first.allocated) (first.gone cl inside none)

/-- In the middle of a handler all other clients are where they were. -/
theorem Working.forward (working : Working bounded origin server thrd cl place)
    (moves : ∀ before after, origin.clients cl = some before → place.client = some after →
      before.Moves after)
    (gone : origin.clients cl = none → place.client = none) : Forward origin server := by
  have here := working.client
  have allocated : server.allocated = origin.allocated := working.allocated
  refine ⟨fun other before after found again => ?_, fun other _ none => ?_, allocated.ge⟩
  · by_cases same : other = cl
    · subst same
      exact moves before after found (here ▸ again)
    · rw [working.others same, found] at again
      obtain rfl := Option.some.inj again
      exact .refl before
  · by_cases same : other = cl
    · subst same
      rw [here]
      exact gone none
    · rw [working.others same]
      exact none

/-- What another handler is called for does not matter. -/
theorem Legal.free {later : WorkerTask} (legal : Legal bounded busyWith cl place)
    (old : ¬ busyWith.Concerns cl) (new : ¬ later.Concerns cl) : Legal bounded later cl place := by
  cases legal with
  | gone => exact .gone new
  | accepting state holds => exact .accepting state holds new
  | accepted state holds due => exact .accepted state holds due new
  | adding _ _ busy => exact absurd (by rw [busy]; rfl) old
  | activating _ _ busy => exact absurd (by rw [busy]; rfl) old
  | session state named =>
    refine .session state named ?_ ?_
    · rintro rfl
      exact new rfl
    · rintro rfl
      exact new rfl

section Task

variable {change : Worker → Worker}

theorem Server.setWorker_self (server : Server) (thrd : Nat) (change : Worker → Worker) :
    (server.setWorker thrd change).workers thrd = change (server.workers thrd) :=
  Function.update_self _ _ _

theorem Server.setWorker_of_ne (server : Server) (change : Worker → Worker) {other : Nat}
    (different : other ≠ thrd) : (server.setWorker thrd change).workers other = server.workers other :=
  Function.update_of_ne different _ _

theorem setWorker_clth (clth : (change (server.workers thrd)).clth = (server.workers thrd).clth)
    (other : Nat) : ((server.setWorker thrd change).workers other).clth =
      (server.workers other).clth :=
  forall_setWorker server (fun other worker => worker.clth = (server.workers other).clth)
    (fun _ _ => rfl) clth other

theorem InOrder.setWorker (order : InOrder server lists)
    (preauthList : (change (server.workers thrd)).preauthList = (server.workers thrd).preauthList)
    (clth : (change (server.workers thrd)).clth = (server.workers thrd).clth) :
    InOrder (server.setWorker thrd change) lists := by
  refine ⟨?_, order.distinct, order.below, fun other => setWorker_clth clth other ▸ order.slots other,
    order.fresh⟩
  refine forall_setWorker server (fun other worker =>
    Path server.next worker.preauthList (lists other) none) (fun other _ => order.paths other) ?_
  rw [preauthList]
  exact order.paths thrd

/-- A worker that turns from one client to another does not move the others. -/
theorem Situated.setWorker (situated : Situated bounded server lists cl)
    (clth : (change (server.workers thrd)).clth = (server.workers thrd).clth)
    (old : ¬ (server.workers thrd).task.Concerns cl)
    (new : ¬ (change (server.workers thrd)).task.Concerns cl)
    (sweeps : (change (server.workers thrd)).toSweep.count cl =
      (server.workers thrd).toSweep.count cl) :
    Situated bounded (server.setWorker thrd change) lists cl := by
  obtain ⟨owner, place, found, legal⟩ := situated
  refine ⟨owner, place, ⟨found.client, found.owner, found.listed,
    fun any => by rw [setWorker_clth clth]; exact found.timed any, found.tabled, fun any => ?_,
    fun any concerned => ?_⟩, ?_⟩
  · by_cases own : any = thrd
    · rw [own, server.setWorker_self, sweeps, ← own]
      exact found.departed any
    · rw [server.setWorker_of_ne change own]
      exact found.departed any
  · by_cases own : any = thrd
    · rw [own, server.setWorker_self] at concerned
      exact absurd concerned new
    · rw [server.setWorker_of_ne change own] at concerned
      exact found.tasks any concerned
  · by_cases own : owner = thrd
    · subst own
      rw [server.setWorker_self]
      exact legal.free old new
    · rw [server.setWorker_of_ne change own]
      exact legal

/-- A handler leaves its client at a legal place, with another task for its worker. -/
theorem Working.finish (working : Working bounded origin server thrd cl place) (departed : Nat)
    (preauthList : (change (server.workers thrd)).preauthList = (server.workers thrd).preauthList)
    (clth : (change (server.workers thrd)).clth = (server.workers thrd).clth)
    (old : (origin.workers thrd).task.About cl) (new : (change (server.workers thrd)).task.About cl)
    (others : ∀ other, other ≠ cl → (change (server.workers thrd)).toSweep.count other =
      (server.workers thrd).toSweep.count other)
    (here : (change (server.workers thrd)).toSweep.count cl = departed)
    (legal : Legal bounded (change (server.workers thrd)).task cl { place with departed }) :
    Consistent bounded (server.setWorker thrd change) := by
  obtain ⟨lists, order, found, rest, tasks, _⟩ := working
  refine ⟨lists, order.setWorker preauthList clth, fun other => ?_⟩
  by_cases same : other = cl
  · subst same
    refine ⟨thrd, { place with departed }, ⟨found.client, found.owner, found.listed,
      fun any => by rw [setWorker_clth clth]; exact found.timed any, found.tabled, fun any => ?_,
      fun any concerned => ?_⟩, server.setWorker_self thrd change ▸ legal⟩
    · by_cases own : any = thrd
      · rw [own, server.setWorker_self, here, if_pos rfl]
      · rw [server.setWorker_of_ne change own, found.departed any, if_neg own, if_neg own]
    · by_contra own
      rw [server.setWorker_of_ne change own] at concerned
      exact own (found.tasks any concerned)
  · refine (rest other same).2.setWorker clth (fun concerned => ?_)
      (fun concerned => same (new other concerned)) (others other same)
    rw [tasks thrd] at concerned
    exact same (old other concerned)

/-- A worker that is not called for any client sweeps on. -/
theorem Consistent.setWorker (consistent : Consistent bounded server)
    (preauthList : (change (server.workers thrd)).preauthList = (server.workers thrd).preauthList)
    (clth : (change (server.workers thrd)).clth = (server.workers thrd).clth)
    (old : ∀ cl, ¬ (server.workers thrd).task.Concerns cl)
    (new : ∀ cl, ¬ (change (server.workers thrd)).task.Concerns cl)
    (sweeps : (change (server.workers thrd)).toSweep = (server.workers thrd).toSweep) :
    Consistent bounded (server.setWorker thrd change) := by
  obtain ⟨lists, order, situated⟩ := consistent
  exact ⟨lists, order.setWorker preauthList clth, fun cl =>
    (situated cl).setWorker clth (old cl) (new cl) (by rw [sweeps])⟩

end Task

theorem Working.swept (working : Working bounded origin server thrd cl place) {other : Nat}
    (member : cl ∈ (server.workers other).toSweep) : other = thrd ∧ place.departed ≠ 0 := by
  obtain ⟨_, _, found, _⟩ := working
  have counted := found.departed other
  have some := List.count_pos_iff.mpr member
  by_cases own : other = thrd
  · rw [if_pos own] at counted
    exact ⟨own, by omega⟩
  · rw [if_neg own] at counted
    omega

theorem Working.departed (working : Working bounded origin server thrd cl place) :
    (server.workers thrd).toSweep.count cl = place.departed := by
  obtain ⟨_, _, found, _⟩ := working
  rw [found.departed thrd, if_pos rfl]

/-- The same, where nothing is swept. -/
theorem Working.finishTask {task : WorkerTask}
    (working : Working bounded origin server thrd cl place)
    (old : (origin.workers thrd).task.About cl) (awake : (origin.workers thrd).task.Awake)
    (new : task.About cl) (stillAwake : task.Awake) (legal : Legal bounded task cl place) :
    Consistent bounded (server.setTask thrd task) := by
  have same : ({ server.workers thrd with task } : Worker).toSweep =
      (server.workers thrd).toSweep := by
    rw [Worker.toSweep_of_awake stillAwake,
      @Worker.toSweep_of_awake (server.workers thrd) (working.task thrd ▸ awake)]
  have counted := working.departed
  refine working.finish place.departed rfl rfl old new (fun other _ => by rw [same])
    (by rw [same, counted]) ?_
  exact legal

/-- A handler leaves its client at a legal place. -/
theorem Working.close (working : Working bounded origin server thrd cl place)
    (legal : Legal bounded (origin.workers thrd).task cl place) : Consistent bounded server := by
  obtain ⟨lists, order, found, rest, tasks, _⟩ := working
  refine ⟨lists, order, fun other => ?_⟩
  by_cases same : other = cl
  · subst same
    exact ⟨thrd, place, found, (tasks thrd).symm ▸ legal⟩
  · exact (rest other same).2

end Keeping

/-! ### Cleaning up -/

section Cleanup

variable {bounded : Prop} {origin server : Server} {thrd : Nat} {cl : Addr} {place : Place}
  {owned : OwnedClient} {busyWith : WorkerTask}

/-- A client that did not authenticate leaves the containers of its worker and is freed. -/
theorem Working.cleanup {listed timed : Bool}
    (working : Working bounded origin server thrd cl ⟨some owned, listed, timed, none, 0⟩)
    (state : owned.stdcl.clState = .accepted ∨
      owned.stdcl.clState = .accepting ∧ timed = false) :
    ∃ next, server.cleanup thrd cl = some next ∧ SameRecords server next ∧
      next.clients = Function.update server.clients cl none ∧
      Working bounded origin next thrd cl ⟨none, false, false, none, 0⟩ := by
  have live : server.clients cl = some owned := working.client
  rw [Server.cleanup, live]
  rcases state with state | ⟨state, rfl⟩
  · obtain ⟨untimed, remove, sameUntimed, clients, working⟩ := working.timerheapRemove
    obtain ⟨unlisted, leave, sameUnlisted, sameClients, working⟩ := working.preauthRemove
    have same := sameUntimed.trans sameUnlisted
    refine ⟨unlisted.free cl, ?_, ⟨same.table, same.answers, same.enqueued⟩, ?_, working.free⟩
    · simp [state, remove, leave]
    · rw [Server.free, sameClients, clients]
  · obtain ⟨unlisted, leave, same, clients, working⟩ := working.preauthRemove
    refine ⟨unlisted.free cl, ?_, ⟨same.table, same.answers, same.enqueued⟩, ?_, working.free⟩
    · simp [state, leave]
    · rw [Server.free, clients]

/-- A client with a session stays in the table. -/
theorem Working.afterHandler {stdcl : StdClient}
    (working : Working bounded origin server thrd cl (.ofSession owned))
    (session : owned.stdcl.HasSession) (named : Named owned.stdcl)
    (keeps : KeepsName owned.stdcl stdcl) (awake : (server.workers thrd).task.Awake) :
    Working bounded origin (server.afterHandler cl owned stdcl) thrd cl
        (.ofSession { owned with stdcl }) ∧
      stdcl.HasSession ∧ Named stdcl ∧ owned.Moves { owned with stdcl } := by
  obtain rfl : owned.ownerThrdId = thrd := working.owner rfl
  have key : stdcl.key = owned.stdcl.key := by
    rw [StdClient.key, StdClient.key, keeps.username, keeps.keySize]
  have renamed : Named stdcl := by
    refine ⟨?_, ?_, ?_, ?_⟩
    · rw [keeps.username]
      exact named.size
    · rw [key, keeps.username]
      exact named.key
    · rw [key]
      exact named.nonempty
    · rw [keeps.username]
      exact named.lower
  have changed := working.setStdcl rfl stdcl
  rw [Server.afterHandler]
  rcases keeps.clState with same | ⟨live, gone⟩
  · have settled : ¬ (owned.stdcl.clState = .authenticated ∧ stdcl.clState = .disconnected) := by
      rintro ⟨live, gone⟩
      rw [same, live] at gone
      cases gone
    rw [if_neg settled]
    refine ⟨?_, ?_, renamed, rfl, by rw [same], fun _ => keeps.username⟩
    · simpa [Place.ofSession, key, same] using changed
    · rw [StdClient.HasSession, same]
      exact session
  · rw [if_pos ⟨live, gone⟩]
    refine ⟨?_, .inr gone, renamed, rfl, ?_, fun _ => keeps.username⟩
    · have departed := changed.dconnAdd (by exact awake)
      simpa [Place.ofSession, key, live, gone] using departed
    · rw [live, gone]
      decide

theorem Legal.eq_ofSession (legal : Legal bounded busyWith cl place)
    (live : place.client = some owned) (session : owned.stdcl.HasSession) :
    place = .ofSession owned ∧ Named owned.stdcl := by
  have waiting (state : owned.stdcl.clState = .accepting ∨ owned.stdcl.clState = .accepted) :
      False := by
    rcases session with here | here <;> rcases state with there | there <;>
      exact absurd (here.symm.trans there) (by decide)
  cases legal with
  | gone => cases live
  | accepting state =>
    obtain rfl := Option.some.inj live
    exact (waiting (.inl state)).elim
  | accepted state =>
    obtain rfl := Option.some.inj live
    exact (waiting (.inr state)).elim
  | adding state =>
    obtain rfl := Option.some.inj live
    exact (waiting (.inr state)).elim
  | activating state =>
    obtain rfl := Option.some.inj live
    exact (waiting (.inr state)).elim
  | session _ named =>
    obtain rfl := Option.some.inj live
    exact ⟨rfl, named⟩

/-- The other handlers than that of authentication are called for clients with a session. -/
theorem Legal.served (legal : Legal bounded busyWith cl place) (concerned : busyWith.Concerns cl)
    (notAdding : busyWith ≠ .adding cl) (notActivating : busyWith ≠ .activating cl) :
    ∃ owned, place = .ofSession owned ∧ owned.stdcl.HasSession ∧ Named owned.stdcl := by
  cases legal with
  | gone free => exact absurd concerned free
  | accepting _ _ free => exact absurd concerned free
  | accepted _ _ _ free => exact absurd concerned free
  | adding _ _ busy => exact absurd busy notAdding
  | activating _ _ busy => exact absurd busy notActivating
  | session session named => exact ⟨_, rfl, session, named⟩

end Cleanup

/-! ### Pending clients -/

section Pending

variable {bounded : Prop} {origin server next : Server} {thrd : Nat} {cl : Addr} {place : Place}
  {owned : OwnedClient} {busyWith : WorkerTask}

/-- What a client leaves that was refused. -/
structure Refused (server next : Server) (cl : Addr) (respCode : AuthReqRespCode) : Prop where
  answered : next.answers = server.answers ++ [(cl, respCode)]
  table : next.table = server.table
  enqueued : next.enqueued = server.enqueued
  others : ∀ other, other ≠ cl → next.clients other = server.clients other
  freed : next.clients cl = none

theorem Server.setStdcl_of_ne (server : Server) (stdcl : StdClient) {other : Addr}
    (different : other ≠ cl) : (server.setStdcl cl stdcl).clients other = server.clients other :=
  Function.update_of_ne different _ _

/-- A client that is not in the table changes without a change of the table. -/
theorem Server.clientTable_setStdcl {stdcl : StdClient}
    (untabled : ∀ key, server.table key ≠ some cl) :
    (server.setStdcl cl stdcl).clientTable = server.clientTable := by
  funext key
  show (do
    let found ← server.table key
    let client ← (server.setStdcl cl stdcl).clients found
    return (found, client.stdcl.clState)) = server.clientTable key
  rw [Server.clientTable]
  cases node : server.table key with
  | none => rfl
  | some found =>
    have other : found ≠ cl := by
      rintro rfl
      exact untabled key node
    simp only [Option.bind_eq_bind, Option.bind_some]
    rw [server.setStdcl_of_ne stdcl other]

/-- A refused client is answered, leaves the containers of its worker and is freed. -/
theorem Working.refuse {listed timed : Bool}
    (working : Working bounded origin server thrd cl ⟨some owned, listed, timed, none, 0⟩)
    (stdcl : StdClient) (state : stdcl.clState = .accepted) (respCode : AuthReqRespCode) :
    ∃ next, (server.answer cl stdcl respCode).cleanup thrd cl = some next ∧
      Refused server next cl respCode ∧
      Working bounded origin next thrd cl ⟨none, false, false, none, 0⟩ := by
  obtain ⟨next, call, same, clients, gone⟩ := (working.answer rfl stdcl respCode).cleanup
    (.inl state)
  refine ⟨next, call, ⟨same.answers, same.table, same.enqueued, fun other different => ?_, ?_⟩, gone⟩
  · rw [clients, Function.update_of_ne different]
    exact server.setStdcl_of_ne _ different
  · rw [clients, Function.update_self]

/-- A freed client is at a legal place. -/
theorem Working.closeGone (working : Working bounded origin server thrd cl
    ⟨none, false, false, none, 0⟩) (free : ¬ (origin.workers thrd).task.Concerns cl) :
    Kept bounded origin server :=
  ⟨working.close (.gone free), working.forward (fun _ _ _ none => by cases none) fun _ => rfl⟩

/-- A change of what no place is about. -/
theorem Legal.restate (legal : Legal bounded busyWith cl place) (live : place.client = some owned)
    {stdcl : StdClient} (clState : stdcl.clState = owned.stdcl.clState)
    (storage : stdcl.tempRecvStorage = owned.stdcl.tempRecvStorage)
    (username : stdcl.username = owned.stdcl.username)
    (keySize : stdcl.keySize = owned.stdcl.keySize) :
    Legal bounded busyWith cl { place with client := some { owned with stdcl } } := by
  have key : stdcl.key = owned.stdcl.key := by
    rw [StdClient.key, StdClient.key, username, keySize]
  have named (old : Named owned.stdcl) : Named stdcl := by
    refine ⟨?_, ?_, ?_, ?_⟩
    · rw [username]
      exact old.size
    · rw [key, username]
      exact old.key
    · rw [key]
      exact old.nonempty
    · rw [username]
      exact old.lower
  have holds {part : Bytes} (old : HoldsPart owned.stdcl part) : HoldsPart stdcl part :=
    ⟨storage.trans old.storage, old.short⟩
  cases legal with
  | gone => cases live
  | accepting state old free =>
    obtain rfl := Option.some.inj live
    exact .accepting (clState.trans state) (holds old) free
  | accepted state old due free =>
    obtain rfl := Option.some.inj live
    exact .accepted (clState.trans state) (holds old) due free
  | adding state old busy =>
    obtain rfl := Option.some.inj live
    exact .adding (clState.trans state) (named old) busy
  | activating state old busy =>
    obtain rfl := Option.some.inj live
    rw [← key]
    exact .activating (clState.trans state) (named old) busy
  | session session old notAdding notActivating =>
    obtain rfl := (Option.some.inj live).symm
    have same : Legal bounded busyWith cl (.ofSession { owned with stdcl }) := by
      refine .session ?_ (named old) notAdding notActivating
      show stdcl.HasSession
      rw [StdClient.HasSession, clState]
      exact session
    simpa [Place.ofSession, key, clState] using same

/-- Something happens to a connection. -/
theorem Consistent.arrives (consistent : Consistent bounded server)
    (live : server.clients cl = some owned) (connection : Conn) :
    Kept bounded server (server.setStdcl cl { owned.stdcl with connection }) := by
  obtain ⟨thrd, place, working, legal⟩ := consistent.begin cl
  have here : place.client = some owned := working.client.symm.trans live
  have changed := working.setStdcl here { owned.stdcl with connection }
  refine ⟨changed.close (legal.restate here rfl rfl rfl rfl), changed.forward ?_ ?_⟩
  · intro before after found again
    obtain rfl := Option.some.inj (found.symm.trans live)
    obtain rfl := Option.some.inj again
    exact ⟨rfl, le_rfl, fun _ => rfl⟩
  · intro none
    rw [none] at live
    cases live

/-- The pending clients of a worker. -/
def Server.Pending (server : Server) (thrd : Nat) (cl : Addr) : Prop :=
  ∃ client, server.clients cl = some client ∧ client.ownerThrdId = thrd ∧
    (client.stdcl.clState = .accepting ∨ client.stdcl.clState = .accepted)

/-- Of the clients of each worker fewer than `2 ^ 31` are pending. -/
def Server.FewPending (server : Server) : Prop :=
  ∀ thrd (addrs : List Addr), addrs.Nodup → (∀ cl ∈ addrs, server.Pending thrd cl) →
    addrs.length < 2 ^ 31

/-- So there is room for one more in each heap. -/
theorem Consistent.room (consistent : Consistent bounded server) (few : server.FewPending)
    (thrd : Nat) : (server.workers thrd).clth.heap.numClients < 2 ^ 31 := by
  obtain ⟨lists, order, situated⟩ := consistent
  obtain ⟨addrs, distinct, length, held⟩ := (order.slots thrd).members
  rw [← length]
  refine few thrd addrs distinct fun cl member => ?_
  obtain ⟨owner, place, found, legal⟩ := situated cl
  obtain ⟨rfl, timed⟩ := (found.timed thrd).mp (held cl member)
  cases legal with
  | gone | accepting | adding | activating | session => cases timed
  | accepted state => exact ⟨_, found.client, found.owner _ rfl, .inr state⟩

/-- A new client is in no container yet. -/
theorem Consistent.register (consistent : Consistent bounded server) (thrd : Nat)
    (stdcl : StdClient) :
    Working bounded (server.register thrd stdcl) (server.register thrd stdcl) thrd server.allocated
        ⟨some ⟨thrd, stdcl⟩, false, false, none, 0⟩ ∧
      Forward server (server.register thrd stdcl) ∧
      ∀ other, ¬ ((server.register thrd stdcl).workers other).task.Concerns server.allocated := by
  obtain ⟨lists, order, situated⟩ := consistent
  obtain ⟨owner, place, found, legal⟩ := situated server.allocated
  have missing : place.client = none := found.client.symm.trans (order.fresh _ le_rfl)
  obtain ⟨rfl, free⟩ : place = ⟨none, false, false, none, 0⟩ ∧
      ¬ (server.workers owner).task.Concerns server.allocated := by
    cases legal with
    | gone free => exact ⟨rfl, free⟩
    | accepting | accepted | adding | activating | session => cases missing
  have unlisted (other : Nat) : server.allocated ∉ lists other := fun member => by
    cases ((found.listed other).mp member).2
  have untimed (other : Nat) : ¬ (server.workers other).clth.Holds server.allocated := fun held => by
    cases ((found.timed other).mp held).2
  have clients (other : Addr) (different : other ≠ server.allocated) :
      (server.register thrd stdcl).clients other = server.clients other :=
    Function.update_of_ne different _ _
  have workers : (server.register thrd stdcl).workers = (server.setWorker thrd fun worker =>
      { worker with clth := worker.clth.register server.allocated }).workers := rfl
  -- only a heap changes in a worker
  have heapOnly (other : Nat) : (server.register thrd stdcl).workers other =
      { server.workers other with clth := ((server.register thrd stdcl).workers other).clth } := by
    rw [workers]
    exact forall_setWorker server (fun other worker =>
      worker = { server.workers other with clth := worker.clth }) (fun _ _ => rfl) rfl other
  have task (other : Nat) : ((server.register thrd stdcl).workers other).task =
      (server.workers other).task := by rw [heapOnly]
  have sweep (other : Nat) : ((server.register thrd stdcl).workers other).toSweep =
      (server.workers other).toSweep := by
    rw [heapOnly]
    rfl
  have preauthList (other : Nat) : ((server.register thrd stdcl).workers other).preauthList =
      (server.workers other).preauthList := by rw [heapOnly]
  have held (other : Nat) (addr : Addr) :
      ((server.register thrd stdcl).workers other).clth.Holds addr ↔
        (server.workers other).clth.Holds addr := by
    rw [workers]
    exact forall_setWorker server (fun other worker =>
      worker.clth.Holds addr ↔ (server.workers other).clth.Holds addr) (fun _ _ => Iff.rfl)
      (((order.slots thrd).register (untimed thrd)).2 addr) other
  have links (addr : Addr) (different : addr ≠ server.allocated) :
      (server.register thrd stdcl).next addr = server.next addr :=
    Function.update_of_ne different _ _
  have apart (other : Nat) : ∀ addr ∈ lists other, addr ≠ server.allocated := by
    rintro addr member rfl
    exact unlisted other member
  have nobody (other : Nat) :
      ¬ ((server.register thrd stdcl).workers other).task.Concerns server.allocated := by
    rw [task]
    intro concerned
    exact free (found.tasks other concerned ▸ concerned)
  refine ⟨⟨lists, ⟨?_, order.distinct, fun other addr member =>
    Nat.lt_succ_of_lt (order.below other addr member), ?_, ?_⟩,
    ⟨Function.update_self _ _ _, ?_, fun other => iff_of_false (unlisted other) (by simp), ?_,
      found.tabled, ?_, ?_⟩, ?_, fun _ => rfl, rfl⟩,
    ⟨?_, ?_, Nat.le_succ _⟩, nobody⟩
  · intro other
    rw [preauthList]
    exact (order.paths other).congr fun addr member => links addr (apart other addr member)
  · rw [workers]
    exact forall_setWorker server (fun _ worker => TimerSlots worker.clth)
      (fun other _ => order.slots other) ((order.slots thrd).register (untimed thrd)).1
  · intro addr beyond
    have later : server.allocated < addr := beyond
    rw [clients addr later.ne']
    exact order.fresh addr later.le
  · intro client same
    obtain rfl := Option.some.inj same
    rfl
  · intro other
    rw [held]
    exact iff_of_false (untimed other) (by simp)
  · intro other
    rw [sweep, found.departed other]
    simp
  · intro other concerned
    exact absurd concerned (nobody other)
  · intro other different
    refine ⟨rfl, ?_⟩
    exact (⟨clients other different, fun _ => Iff.rfl, fun any => held any other, fun _ => Iff.rfl,
      fun any => by rw [sweep]⟩ : Untouched server (server.register thrd stdcl) lists lists
        other).situated task (situated other)
  · intro other before after found again
    have inside : other ≠ server.allocated := by
      rintro rfl
      rw [order.fresh _ le_rfl] at found
      cases found
    rw [clients other inside, found] at again
    obtain rfl := Option.some.inj again
    exact .refl before
  · intro other inside none
    rw [clients other inside.ne]
    exact none

end Pending

/-! ### The handlers -/

section Handlers

variable {bounded : Prop} {origin server next : Server} {thrd : Nat} {cl : Addr} {place : Place}
  {owned : OwnedClient} {busyWith : WorkerTask}

/-- The table and the messages that were enqueued. -/
structure SameTable (server next : Server) : Prop where
  table : next.table = server.table
  enqueued : next.enqueued = server.enqueued

/-- A worker that holds no message. -/
def WorkerTask.Quiet (task : WorkerTask) : Prop :=
  match task with
  | .enqueuing _ _ _ | .flushing _ _ _ _ => False
  | _ => True

/-- What most handlers leave as it is: the messages that were enqueued, whoever holds them. -/
structure Calm (server next : Server) : Prop where
  enqueued : next.enqueued = server.enqueued
  tasks : ∀ thrd, (next.workers thrd).task = (server.workers thrd).task ∨
    (next.workers thrd).task.Quiet
  queues : ∀ cl after, next.clients cl = some after → ∀ msg ∈ after.stdcl.pendingUserdataQueue,
    ∃ before, server.clients cl = some before ∧ msg ∈ before.stdcl.pendingUserdataQueue

/-- The same, and the table. -/
structure Plain (server next : Server) : Prop extends Calm server next where
  table : next.table = server.table

theorem Calm.refl (server : Server) : Calm server server :=
  ⟨rfl, fun _ => .inl rfl, fun _ after found _ member => ⟨after, found, member⟩⟩

theorem Calm.trans {middle : Server} (first : Calm server middle) (second : Calm middle next) :
    Calm server next := by
  refine ⟨second.enqueued.trans first.enqueued, fun thrd => ?_, fun cl after found msg member => ?_⟩
  · rcases second.tasks thrd with same | quiet
    · rw [same]
      exact first.tasks thrd
    · exact .inr quiet
  · obtain ⟨between, middleFound, middleMember⟩ := second.queues cl after found msg member
    exact first.queues cl between middleFound msg middleMember

theorem Calm.setWorker {change : Worker → Worker} (calm : Calm server next)
    (quiet : (change (next.workers thrd)).task.Quiet) :
    Calm server (next.setWorker thrd change) := by
  refine ⟨calm.enqueued, fun other => ?_, calm.queues⟩
  by_cases own : other = thrd
  · rw [own, next.setWorker_self]
    exact .inr quiet
  · rw [next.setWorker_of_ne change own]
    exact calm.tasks other

theorem Plain.refl (server : Server) : Plain server server := ⟨.refl server, rfl⟩

theorem Plain.trans {middle : Server} (first : Plain server middle) (second : Plain middle next) :
    Plain server next := ⟨first.toCalm.trans second.toCalm, second.table.trans first.table⟩

theorem Plain.setWorker {change : Worker → Worker} (plain : Plain server next)
    (quiet : (change (next.workers thrd)).task.Quiet) :
    Plain server (next.setWorker thrd change) := ⟨plain.toCalm.setWorker quiet, plain.table⟩

/-- In the middle of a handler only the queue of its client can have changed. -/
theorem Working.calm (working : Working bounded origin server thrd cl place)
    (enqueued : server.enqueued = origin.enqueued)
    (queue : ∀ after, place.client = some after → ∀ msg ∈ after.stdcl.pendingUserdataQueue,
      ∃ before, origin.clients cl = some before ∧ msg ∈ before.stdcl.pendingUserdataQueue) :
    Calm origin server := by
  refine ⟨enqueued, fun other => .inl (working.task other), fun other after found => ?_⟩
  by_cases here : other = cl
  · subst here
    exact queue after (working.client.symm.trans found)
  · rw [working.others here] at found
    exact fun msg member => ⟨after, found, member⟩

theorem Working.plainGone (working : Working bounded origin server thrd cl
    ⟨none, false, false, none, 0⟩) (same : SameTable origin server) : Plain origin server :=
  ⟨working.calm same.enqueued fun _ none => (by cases none), same.table⟩

theorem Working.plainFor {later : OwnedClient} {listed timed : Bool} {tabled : Option Bytes}
    {departed : Nat} (working : Working bounded origin server thrd cl
      ⟨some later, listed, timed, tabled, departed⟩) (same : SameTable origin server)
    (live : origin.clients cl = some owned)
    (queue : later.stdcl.pendingUserdataQueue ⊆ owned.stdcl.pendingUserdataQueue) :
    Plain origin server := by
  refine ⟨working.calm same.enqueued fun after again msg member => ⟨owned, live, ?_⟩, same.table⟩
  obtain rfl := Option.some.inj again
  exact queue member

theorem Server.Ready.begin (ready : server.Ready thrd cl owned)
    (consistent : Consistent bounded server) :
    ∃ place, Working bounded server server thrd cl place ∧ place.client = some owned ∧
      Legal bounded .idle cl place := by
  obtain ⟨owner, place, working, legal⟩ := consistent.begin cl
  have here : place.client = some owned := working.client.symm.trans ready.live
  obtain rfl : owner = thrd := (working.owner here).symm.trans ready.owner
  rw [ready.idle] at legal
  exact ⟨place, working, here, legal⟩

theorem WorkerTask.about {task : WorkerTask} (concerned : task.Concerns cl) : task.About cl := by
  intro other also
  cases task with
  | idle | sweeping => exact also.elim
  | adding | activating | validating | forwarding | enqueuing | resuming | flushing =>
    exact also.symm.trans concerned

theorem WorkerTask.awake {task : WorkerTask} (concerned : task.Concerns cl) : task.Awake := by
  rintro rest rfl
  exact concerned

/-- A handler that stopped goes on with its client. -/
theorem Consistent.resume (consistent : Consistent bounded server)
    (task : (server.workers thrd).task = busyWith) (concerned : busyWith.Concerns cl) :
    ∃ place, Working bounded server server thrd cl place ∧ Legal bounded busyWith cl place ∧
      (server.workers thrd).task.About cl ∧ (server.workers thrd).task.Awake := by
  obtain ⟨owner, place, working, legal⟩ := consistent.begin cl
  subst task
  obtain rfl : thrd = owner := working.concerns concerned
  exact ⟨place, working, legal, WorkerTask.about concerned, WorkerTask.awake concerned⟩

theorem Legal.eq_accepting (legal : Legal bounded busyWith cl place)
    (live : place.client = some owned) (waits : owned.stdcl.clState = .accepting) :
    place = ⟨some owned, true, false, none, 0⟩ ∧ HoldsPart owned.stdcl [] := by
  have other {state : ClientState} (is : owned.stdcl.clState = state)
      (different : state ≠ .accepting) : False := different (is.symm.trans waits)
  cases legal with
  | gone => cases live
  | accepting state holds =>
    obtain rfl := Option.some.inj live
    exact ⟨rfl, holds⟩
  | accepted state | adding state | activating state =>
    obtain rfl := Option.some.inj live
    exact (other state (by decide)).elim
  | session session =>
    obtain rfl := Option.some.inj live
    exact (session.elim (other · (by decide)) (other · (by decide))).elim

theorem Legal.eq_accepted (legal : Legal bounded busyWith cl place)
    (live : place.client = some owned) (waits : owned.stdcl.clState = .accepted)
    (free : ¬ busyWith.Concerns cl) : ∃ part timed, place = ⟨some owned, true, timed, none, 0⟩ ∧
      HoldsPart owned.stdcl part ∧ (bounded → timed = true) := by
  have other {state : ClientState} (is : owned.stdcl.clState = state)
      (different : state ≠ .accepted) : False := different (is.symm.trans waits)
  cases legal with
  | gone => cases live
  | accepting state =>
    obtain rfl := Option.some.inj live
    exact (other state (by decide)).elim
  | @accepted _ part timed _ holds due =>
    obtain rfl := Option.some.inj live
    exact ⟨part, timed, rfl, holds, due⟩
  | adding _ _ busy => exact absurd (by rw [busy]; rfl) free
  | activating _ _ busy => exact absurd (by rw [busy]; rfl) free
  | session session =>
    obtain rfl := Option.some.inj live
    exact (session.elim (other · (by decide)) (other · (by decide))).elim

/-- A step behind what registered a new client. -/
theorem Kept.after {middle : Server} (kept : Kept bounded middle next)
    (consistent : Consistent bounded server) (first : Forward server middle) :
    Kept bounded server next :=
  ⟨kept.consistent, first.trans consistent kept.forward⟩

/-- A handler that ends with a client that is still pending. -/
theorem Working.closePending {timed : Bool} {stdcl : StdClient} {part : Bytes}
    (working : Working bounded origin server thrd cl
      ⟨some { owned with stdcl }, true, timed, none, 0⟩)
    (live : origin.clients cl = some owned) (free : ¬ (origin.workers thrd).task.Concerns cl)
    (pending : stdcl.clState = .accepting ∧ timed = false ∧ part = [] ∨
      stdcl.clState = .accepted ∧ (bounded → timed = true))
    (holds : HoldsPart stdcl part)
    (forward : owned.stdcl.clState.rank ≤ stdcl.clState.rank)
    (before : ¬ owned.stdcl.HasSession) : Kept bounded origin server := by
  refine ⟨working.close ?_, working.forward ?_ ?_⟩
  · rcases pending with ⟨state, rfl, rfl⟩ | ⟨state, due⟩
    · exact .accepting state holds free
    · exact .accepted state holds due free
  · intro first after found again
    obtain rfl := Option.some.inj (live.symm.trans found)
    obtain rfl := Option.some.inj again
    exact ⟨rfl, forward, fun session => absurd session before⟩
  · intro missing
    rw [missing] at live
    cases live

theorem not_hasSession {stdcl : StdClient} (early : stdcl.clState.rank < 4) :
    ¬ stdcl.HasSession := fun session => absurd session.rank (not_le.mpr early)

theorem Server.afterHandler_sameTable (server : Server) (cl : Addr) (client : OwnedClient)
    (stdcl : StdClient) : SameTable server (server.afterHandler cl client stdcl) := by
  rw [Server.afterHandler]
  split
  · exact ⟨rfl, rfl⟩
  · exact ⟨rfl, rfl⟩

theorem Server.register_plain (server : Server) (thrd : Nat) {stdcl : StdClient}
    (empty : stdcl.pendingUserdataQueue = []) : Plain server (server.register thrd stdcl) := by
  refine ⟨⟨rfl, fun other => .inl ?_, fun cl after found msg member => ?_⟩, rfl⟩
  · exact @forall_setWorker thrd server
      (fun other worker => worker.task = (server.workers other).task)
      (fun worker => { worker with clth := worker.clth.register server.allocated })
      (fun _ _ => rfl) rfl other
  · have clients : (server.register thrd stdcl).clients =
        Function.update server.clients server.allocated (some ⟨thrd, stdcl⟩) := rfl
    rw [clients] at found
    by_cases new : cl = server.allocated
    · rw [new, Function.update_self] at found
      obtain rfl := Option.some.inj found
      rw [empty] at member
      cases member
    · rw [Function.update_of_ne new] at found
      exact ⟨after, found, member⟩

theorem Consistent.handleNewConnection (consistent : Consistent bounded server)
    (few : bounded → server.FewPending) {peerName : Bytes} {connection : Conn}
    {outcome : AcceptOutcome} {now : Timespec}
    (call : server.handleNewConnection thrd peerName connection outcome now = some next) :
    Kept bounded server next ∧ Plain server next := by
  obtain ⟨working, forward, nobody⟩ :=
    consistent.register thrd (createStdClient peerName connection)
  have room : bounded → ((server.register thrd
      (createStdClient peerName connection)).workers thrd).clth.heap.numClients < 2 ^ 31 := by
    intro holds
    have heap : ((server.register thrd
        (createStdClient peerName connection)).workers thrd).clth.heap =
          (server.workers thrd).clth.heap := by
      simp [Server.register, Server.setWorker, TimerWorld.register]
    rw [heap]
    exact consistent.room (few holds) thrd
  have registers : Plain server (server.register thrd (createStdClient peerName connection)) :=
    server.register_plain thrd rfl
  have early : ¬ (createStdClient peerName connection).HasSession :=
    not_hasSession (Nat.zero_lt_succ 3)
  unfold Server.handleNewConnection at call
  simp only at call
  generalize server.register thrd (createStdClient peerName connection) = registered at *
  cases outcome with
  | done =>
    have changed := working.setStdcl rfl
      { createStdClient peerName connection with clState := .accepted, sockEvents := [.epollin] }
    obtain ⟨timedServer, timed, add, sameTimed, _, due, inHeap⟩ := changed.timerheapAdd rfl now
    obtain ⟨sameListed, _, inList⟩ := inHeap.preauthAdd rfl (by simp)
    simp only [add, Option.bind_eq_bind, Option.bind_some, Option.pure_def,
      Option.some.injEq] at call
    subst call
    refine ⟨Kept.after (inList.closePending working.client (nobody thrd)
      (.inr ⟨rfl, fun holds => due (room holds)⟩) ⟨rfl, by decide⟩ (Nat.zero_le _) early)
      consistent forward, registers.trans (inList.plainFor ⟨(sameTimed.trans sameListed).table,
        (sameTimed.trans sameListed).enqueued⟩ working.client (List.Subset.refl _))⟩
  | error =>
    have live : registered.clients server.allocated =
        some ⟨thrd, createStdClient peerName connection⟩ := working.client
    have cleaned : registered.cleanup thrd server.allocated =
        some (registered.free server.allocated) := by
      rw [Server.cleanup, live]
      rfl
    obtain rfl := Option.some.inj (cleaned.symm.trans call)
    exact ⟨(working.free.closeGone (nobody thrd)).after consistent forward,
      registers.trans (working.free.plainGone ⟨rfl, rfl⟩)⟩
  | pending =>
    have changed := working.setStdcl rfl
      { createStdClient peerName connection with clState := .accepting, sockEvents := [.epollin] }
    obtain ⟨sameListed, _, inList⟩ := changed.preauthAdd rfl (by simp)
    obtain rfl := Option.some.inj call
    refine ⟨Kept.after (inList.closePending working.client (nobody thrd)
      (.inl ⟨rfl, rfl, rfl⟩) ⟨rfl, by decide⟩ (Nat.zero_le _) early) consistent forward,
      registers.trans (inList.plainFor ⟨sameListed.table, sameListed.enqueued⟩ working.client
        (List.Subset.refl _))⟩

theorem Consistent.handleAccepting (consistent : Consistent bounded server)
    (few : bounded → server.FewPending) {outcome : AcceptOutcome} {now : Timespec}
    (ready : server.Ready thrd cl owned) (state : owned.stdcl.clState = .accepting)
    (call : server.handleAccepting thrd cl outcome now = some next) :
    Kept bounded server next ∧ Plain server next := by
  obtain ⟨place, working, live, legal⟩ := ready.begin consistent
  obtain ⟨rfl, holds⟩ := legal.eq_accepting live state
  have free : ¬ (server.workers thrd).task.Concerns cl := by
    rw [ready.idle]
    exact id
  rw [Server.handleAccepting, ready.live] at call
  cases outcome with
  | done =>
    obtain ⟨timedServer, timed, add, same, _, due, inHeap⟩ := working.timerheapAdd rfl now
    simp only [add, Option.bind_eq_bind, Option.bind_some, Option.pure_def,
      Option.some.injEq] at call
    subst call
    have changed := inHeap.setStdcl rfl { owned.stdcl with clState := .accepted }
    refine ⟨changed.closePending ready.live free
      (.inr ⟨rfl, fun holds => due (consistent.room (few holds) thrd)⟩)
      ⟨holds.storage, holds.short⟩ ?_ (not_hasSession ?_),
      changed.plainFor ⟨same.table, same.enqueued⟩ ready.live (List.Subset.refl _)⟩
    · rw [state]
      show (1 : Nat) ≤ 2
      decide
    · rw [state]
      decide
  | error =>
    obtain ⟨gone, cleaned, same, _, working⟩ := working.cleanup (.inr ⟨state, rfl⟩)
    obtain rfl := Option.some.inj (cleaned.symm.trans call)
    exact ⟨working.closeGone free, working.plainGone ⟨same.table, same.enqueued⟩⟩
  | pending =>
    obtain rfl := Option.some.inj call
    exact ⟨⟨consistent, .refl server⟩, .refl server⟩

/-- A session has the name of its request in lower case. -/
theorem named_promote {stdcl : StdClient} {req : AuthReqGroup}
    (size : req.username.length = unamesize) (nonempty : cString req.username ≠ []) :
    Named (promote stdcl req) := by
  refine ⟨?_, (key_promote size).trans (cString_promote size).symm, ?_, ?_⟩
  · show (normalizeString (strncpy unamesize req.username)).length = unamesize
    rw [length_normalizeString, length_strncpy]
  · rw [key_promote size, List.length_map]
    exact fun empty => nonempty (List.eq_nil_of_length_eq_zero empty)
  · rw [cString_promote size, List.map_map]
    exact List.map_congr_left fun byte _ => toLower_toLower byte

theorem Working.moved (working : Working bounded origin server thrd cl place)
    (live : origin.clients cl = some owned)
    (moves : ∀ after, place.client = some after → owned.Moves after) : Forward origin server := by
  refine working.forward (fun before after found again => ?_) fun missing => ?_
  · obtain rfl := Option.some.inj (live.symm.trans found)
    exact moves after again
  · rw [missing] at live
    cases live

theorem Forward.setWorker {change : Worker → Worker} (forward : Forward server next) :
    Forward server (next.setWorker thrd change) :=
  ⟨forward.moves, forward.gone, forward.allocated⟩

/-- A client that does not authenticate yet may change in all but its state. -/
theorem moves_of_accepted {stdcl : StdClient} (state : owned.stdcl.clState = .accepted)
    (kept : 2 ≤ stdcl.clState.rank) : owned.Moves { owned with stdcl } := by
  refine ⟨rfl, ?_, fun session => absurd session (not_hasSession ?_)⟩
  · rw [state]
    exact kept
  · rw [state]
    decide

/-- A client whose request is accepted leaves the list and the heap, and is to be added to the table
under the name of the request. -/
theorem Working.promotes {stdcl : StdClient} {listed timed : Bool} {req : AuthReqGroup}
    (working : Working bounded origin server thrd cl
      ⟨some { owned with stdcl }, listed, timed, none, 0⟩)
    (same : SameTable origin server) (ready : origin.Ready thrd cl owned)
    (state : owned.stdcl.clState = .accepted) (still : stdcl.clState = .accepted)
    (size : req.username.length = unamesize) (nonempty : cString req.username ≠ []) :
    ∃ untimed unlisted, server.timerheapRemove thrd cl = some untimed ∧
      untimed.preauthRemove thrd cl = some unlisted ∧
      Kept bounded origin ((unlisted.setStdcl cl (promote stdcl req)).setTask thrd (.adding cl)) ∧
      Plain origin ((unlisted.setStdcl cl (promote stdcl req)).setTask thrd (.adding cl)) := by
  obtain ⟨untimed, remove, sameTimed, _, inHeap⟩ := working.timerheapRemove
  obtain ⟨unlisted, leave, sameListed, _, inList⟩ := inHeap.preauthRemove
  have records := sameTimed.trans sameListed
  have promoted := inList.setStdcl rfl (promote stdcl req)
  refine ⟨untimed, unlisted, remove, leave, ⟨promoted.finishTask ?_ ?_ ?_ ?_ (.adding still
    (named_promote size nonempty) rfl), ?_⟩, (promoted.plainFor ⟨records.table.trans same.table,
      records.enqueued.trans same.enqueued⟩ ready.live (List.nil_subset _)).setWorker trivial⟩
  · rw [ready.idle]
    exact fun _ concerned => concerned.elim
  · rw [ready.idle]
    exact fun _ busy => by cases busy
  · exact fun _ concerned => concerned.symm
  · exact fun _ busy => by cases busy
  · refine (promoted.moved ready.live fun after again => ?_).setWorker
    obtain rfl := Option.some.inj again
    refine moves_of_accepted state ?_
    show 2 ≤ stdcl.clState.rank
    rw [still]
    decide

/-- `wt_handle_authentication` up to `htable_add` waits for more, refuses the client or promotes it,
unless an assertion fails. -/
theorem Consistent.handleAuthentication (consistent : Consistent bounded server) {fns : AuthFns}
    (ready : server.Ready thrd cl owned) (state : owned.stdcl.clState = .accepted) :
    (server.handleAuthentication thrd cl fns = none ∧ ∃ req assertion,
      authRequestRead owned.stdcl = some req ∧
      authDecide fns server.clientTable req = .error assertion) ∨
    ∃ next, server.handleAuthentication thrd cl fns = some next ∧
      Kept bounded server next ∧ Plain server next ∧
      ∀ req, authRequestRead owned.stdcl = some req → ∃ respCode later,
        authDecide fns server.clientTable req = .ok (respCode, later) ∧
        (respCode ≠ .ok → Refused server next cl respCode) := by
  obtain ⟨place, working, live, legal⟩ := ready.begin consistent
  obtain ⟨part, timed, rfl, holds, due⟩ := legal.eq_accepted live state id
  have free : ¬ (server.workers thrd).task.Concerns cl := by
    rw [ready.idle]
    exact id
  obtain ⟨outcome, bytes, loop, storage, left, fits, complete⟩ := recvDoWhile_auth holds
  generalize call : server.handleAuthentication thrd cl fns = result
  rw [Server.handleAuthentication, ready.live] at call
  simp only [Option.bind_eq_bind, Option.bind_some, loop, left] at call
  have changed := working.setStdcl rfl
    (owned.stdcl.withRecv outcome.connection (.idle (part ++ bytes)))
  have table : (server.setStdcl cl
      (owned.stdcl.withRecv outcome.connection (.idle (part ++ bytes)))).clientTable =
        server.clientTable :=
    server.clientTable_setStdcl fun key node => by cases (working.tabled key).mp node
  cases stopped : outcome.stopped with
  | some failure =>
    have unread (req : AuthReqGroup) : authRequestRead owned.stdcl ≠ some req := by
      intro read
      rw [authRequestRead] at read
      simp only [loop, stopped] at read
      cases read
    rw [stopped] at call
    cases failure with
    | error =>
      obtain ⟨gone, cleaned, same, _, working⟩ := changed.cleanup (.inl state)
      exact .inr ⟨gone, call.symm.trans cleaned, working.closeGone free,
        working.plainGone ⟨same.table, same.enqueued⟩, fun req read => absurd read (unread req)⟩
    | eblock =>
      have short : (part ++ bytes).length < authReqGroupSize := by
        refine lt_of_le_of_ne fits fun all => ?_
        rw [complete.mpr all] at stopped
        cases stopped
      refine .inr ⟨_, call.symm, changed.closePending ready.live free (.inr ⟨state, due⟩)
        ⟨rfl, short⟩ le_rfl (not_hasSession ?_),
        changed.plainFor ⟨rfl, rfl⟩ ready.live (List.Subset.refl _),
        fun req read => absurd read (unread req)⟩
      rw [state]
      decide
  | none =>
    have read : authRequestRead owned.stdcl = some (.ofBytes (part ++ bytes)) := by
      rw [authRequestRead]
      simp only [loop, stopped, storage]
      rfl
    have size : (AuthReqGroup.ofBytes (part ++ bytes)).username.length = unamesize := by
      refine length_slice ?_
      rw [complete.mp stopped]
      decide
    rw [stopped] at call
    simp only [table] at call
    have request : (owned.stdcl.withRecv outcome.connection
        (.idle (part ++ bytes))).tempRecvStorage.recvbuf = part ++ bytes := rfl
    rw [request] at call
    generalize AuthReqGroup.ofBytes (part ++ bytes) = req at read size call
    cases decided : authDecide fns server.clientTable req with
    | error assertion =>
      rw [decided] at call
      exact .inl ⟨call.symm, req, assertion, read, decided⟩
    | ok decision =>
      obtain ⟨respCode, later⟩ := decision
      rw [decided] at call
      simp only at call
      by_cases refuse : respCode = .ok
      · rw [if_neg (not_not.mpr refuse)] at call
        have name : later.username.length = unamesize ∧ cString later.username ≠ [] :=
          authDecide_name size (refuse ▸ decided)
        obtain ⟨untimed, unlisted, remove, leave, kept, plain⟩ :=
          changed.promotes ⟨rfl, rfl⟩ ready state state name.1 name.2
        simp only [remove, leave, Option.bind_some, Option.pure_def] at call
        refine .inr ⟨_, call.symm, kept, plain, ?_⟩
        intro other otherRead
        obtain rfl := Option.some.inj (read.symm.trans otherRead)
        exact ⟨respCode, later, decided, fun refused => absurd refuse refused⟩
      · rw [if_pos refuse] at call
        obtain ⟨gone, cleaned, refused, working⟩ := changed.refuse
          (owned.stdcl.withRecv outcome.connection (.idle (part ++ bytes))) state respCode
        refine .inr ⟨gone, call.symm.trans cleaned, working.closeGone free,
          working.plainGone ⟨refused.table, refused.enqueued⟩, ?_⟩
        intro other otherRead
        obtain rfl := Option.some.inj (read.symm.trans otherRead)
        refine ⟨respCode, later, decided, fun _ => ⟨refused.answered, refused.table, refused.enqueued,
          fun other different => (refused.others other different).trans
            (server.setStdcl_of_ne _ different), refused.freed⟩⟩

/-- A client whose name is in the table loses it, and one whose name is not is in the table. -/
theorem Consistent.handleAdd (consistent : Consistent bounded server) {links : Links}
    (task : (server.workers thrd).task = .adding cl) (writes : server.TableWrites cl links) :
    ∃ next owned, server.handleAdd thrd cl links = some next ∧ Kept bounded server next ∧
      server.clients cl = some owned ∧ Calm server next ∧
      ((server.table owned.stdcl.key = none ∧
          next.table = Function.update server.table owned.stdcl.key (some cl)) ∨
        (∃ other, server.table owned.stdcl.key = some other) ∧
          Refused server next cl .duplicate) := by
  obtain ⟨place, working, legal, about, awake⟩ := consistent.resume task rfl
  obtain ⟨owned, rfl, state, named⟩ : ∃ owned, place = ⟨some owned, false, false, none, 0⟩ ∧
      owned.stdcl.clState = .accepted ∧ Named owned.stdcl := by
    cases legal with
    | gone free => exact absurd rfl free
    | accepting _ _ free => exact absurd rfl free
    | accepted _ _ _ free => exact absurd rfl free
    | adding state named => exact ⟨_, rfl, state, named⟩
    | activating _ _ busy => cases busy
    | session _ _ notAdding => exact absurd rfl notAdding
  have live : server.clients cl = some owned := working.client
  generalize call : server.handleAdd thrd cl links = result
  rw [Server.handleAdd, live] at call
  simp only [Option.bind_eq_bind, Option.bind_some, if_neg named.nonempty] at call
  · cases found : server.table owned.stdcl.key with
    | none =>
      rw [found] at call
      have added := working.setTable (Function.update server.table owned.stdcl.key (some cl))
        (some owned.stdcl.key) rfl writes ?_ ?_
      · refine ⟨_, owned, call.symm, ⟨added.finishTask about awake (fun _ concerned => concerned.symm)
          (fun _ busy => by cases busy) (.activating state named rfl), ?_⟩, live,
          (added.calm rfl fun after again msg member => ?_).setWorker trivial, .inl ⟨found, rfl⟩⟩
        · exact (added.moved live fun after again =>
            Option.some.inj again ▸ .refl owned).setWorker
        · obtain rfl := Option.some.inj again
          exact ⟨owned, live, member⟩
      · intro other key different
        by_cases same : key = owned.stdcl.key
        · rw [same, Function.update_self, found]
          simp [Ne.symm different]
        · rw [Function.update_of_ne same]
      · intro key
        by_cases same : key = owned.stdcl.key
        · rw [same, Function.update_self]
          exact iff_of_true rfl rfl
        · rw [Function.update_of_ne same]
          refine iff_of_false (fun here => ?_) (by simpa using Ne.symm same)
          cases (working.tabled key).mp here
    | some other =>
      rw [found] at call
      have untouched := working.setTable server.table none rfl writes
        (fun _ _ _ => Iff.rfl) working.tabled
      obtain ⟨gone, cleaned, refused, left⟩ := untouched.refuse
        { owned.stdcl with pendingUserdataQueue := [], pendingCtrlQueue := [] } state .duplicate
      simp only [cleaned, Option.bind_some, Option.pure_def] at call
      refine ⟨_, owned, call.symm, ⟨left.finishTask about awake (fun _ none => none.elim)
        (fun _ busy => by cases busy) (.gone id), ?_⟩, live,
        (left.plainGone ⟨refused.table, refused.enqueued⟩).toCalm.setWorker trivial,
        .inr ⟨⟨other, found⟩, refused.answered, refused.table, refused.enqueued,
          refused.others, refused.freed⟩⟩
      exact (left.moved live fun after none => by cases none).setWorker

/-- A client in the table gets its session. -/
theorem Consistent.handleActivate (consistent : Consistent bounded server)
    (task : (server.workers thrd).task = .activating cl)
    (call : server.handleActivate thrd cl = some next) :
    Kept bounded server next ∧ Plain server next := by
  obtain ⟨place, working, legal, about, awake⟩ := consistent.resume task rfl
  obtain ⟨owned, rfl, state, named⟩ : ∃ owned,
      place = ⟨some owned, false, false, some owned.stdcl.key, 0⟩ ∧
      owned.stdcl.clState = .accepted ∧ Named owned.stdcl := by
    cases legal with
    | gone free => exact absurd rfl free
    | accepting _ _ free => exact absurd rfl free
    | accepted _ _ _ free => exact absurd rfl free
    | adding _ _ busy => cases busy
    | activating state named => exact ⟨_, rfl, state, named⟩
    | session _ _ _ notActivating => exact absurd rfl notActivating
  have live : server.clients cl = some owned := working.client
  have answered := working.answer rfl owned.stdcl .ok
  have client := answered.client
  rw [Server.handleActivate, live] at call
  simp only [Option.bind_eq_bind, Option.bind_some, client, Option.pure_def,
    Option.some.injEq] at call
  subst call
  have activated := answered.setStdcl rfl { authSendResp owned.stdcl .ok with
    clState := .authenticated
    tempRecvStorage := { (authSendResp owned.stdcl .ok).tempRecvStorage with recvbuf := [] } }
  refine ⟨⟨activated.finishTask about awake (fun _ none => none.elim) (fun _ busy => by cases busy)
    (.session (.inl rfl) ⟨named.size, named.key, named.nonempty, named.lower⟩ (by simp) (by simp)), ?_⟩,
    (activated.plainFor ⟨rfl, rfl⟩ live (List.Subset.refl _)).setWorker trivial⟩
  refine (activated.moved live fun after again => ?_).setWorker
  obtain rfl := Option.some.inj again
  exact moves_of_accepted state (by show (2 : Nat) ≤ 4; decide)

theorem Working.held (working : Working bounded origin server thrd cl place) {other : Nat}
    (held : (server.workers other).clth.Holds cl) : other = thrd ∧ place.timed = true := by
  obtain ⟨_, _, found, _⟩ := working
  exact (found.timed other).mp held

/-- A client whose time is over is taken out of the heap first, and then refused. -/
theorem Consistent.handleClthTimeout (consistent : Consistent bounded server) {now : Timespec}
    (idle : (server.workers thrd).task = .idle)
    (call : server.handleClthTimeout thrd now = some next) :
    Kept bounded server next ∧ Plain server next := by
  rw [Server.handleClthTimeout] at call
  cases peek : clTimerheapPeek (server.workers thrd).clth with
  | none =>
    rw [peek] at call
    obtain rfl := Option.some.inj call
    exact ⟨⟨consistent, .refl server⟩, .refl server⟩
  | some cl =>
    obtain ⟨owner, place, working, legal⟩ := consistent.begin cl
    obtain ⟨held, clth, pop, taken⟩ := clTimerheapPop_takenOut (working.slots thrd) peek
    obtain ⟨rfl, timed⟩ := working.held held
    rw [idle] at legal
    obtain ⟨owned, rfl, state⟩ : ∃ owned, place = ⟨some owned, true, true, none, 0⟩ ∧
        owned.stdcl.clState = .accepted := by
      cases legal with
      | gone | accepting | adding | activating | session => cases timed
      | accepted state =>
        obtain rfl : _ = true := timed
        exact ⟨_, rfl, state⟩
    have live : server.clients cl = some owned := working.client
    rw [peek] at call
    simp only [live, state, pop, ne_eq, not_true_eq_false, if_false, Option.bind_eq_bind,
      Option.bind_some] at call
    split at call
    · have untimed := @Working.setClth _ _ _ _ _ _ clth false working taken.slots
        (iff_of_false taken.absent (by simp)) taken.others
      obtain ⟨gone, cleaned, refused, left⟩ := untimed.refuse owned.stdcl state .timeout
      obtain rfl := Option.some.inj (cleaned.symm.trans call)
      refine ⟨left.closeGone ?_, left.plainGone ⟨refused.table, refused.enqueued⟩⟩
      rw [idle]
      exact id
    · obtain rfl := Option.some.inj call
      exact ⟨⟨consistent, .refl server⟩, .refl server⟩

/-- `cleanup_std_client` for a client that hung up, whatever state it is in. -/
theorem Consistent.cleanup (consistent : Consistent bounded server)
    (ready : server.Ready thrd cl owned) (call : server.cleanup thrd cl = some next) :
    Kept bounded server next ∧ Plain server next := by
  obtain ⟨place, working, live, legal⟩ := ready.begin consistent
  have free : ¬ (server.workers thrd).task.Concerns cl := by
    rw [ready.idle]
    exact id
  have awake : (server.workers thrd).task.Awake := by
    rw [ready.idle]
    exact fun _ busy => by cases busy
  cases legal with
  | gone => cases live
  | adding _ _ busy => cases busy
  | activating _ _ busy => cases busy
  | accepting state =>
    obtain ⟨gone, cleaned, same, _, left⟩ := working.cleanup (.inr ⟨state, rfl⟩)
    obtain rfl := Option.some.inj (cleaned.symm.trans call)
    exact ⟨left.closeGone free, left.plainGone ⟨same.table, same.enqueued⟩⟩
  | accepted state =>
    obtain ⟨gone, cleaned, same, _, left⟩ := working.cleanup (.inl state)
    obtain rfl := Option.some.inj (cleaned.symm.trans call)
    exact ⟨left.closeGone free, left.plainGone ⟨same.table, same.enqueued⟩⟩
  | @session client session named notAdding notActivating =>
    obtain rfl := (Option.some.inj live).symm
    rcases session with state | state
    · have cleaned : server.cleanup thrd cl =
          some (server.afterHandler cl owned (cleanupStdClient owned.stdcl)) := by
        have gone : (cleanupStdClient owned.stdcl).clState = .disconnected := by
          rw [cleanupStdClient, state]
        rw [Server.cleanup, ready.live, Server.afterHandler, if_pos ⟨state, gone⟩, ready.owner]
        simp [state]
      obtain rfl := Option.some.inj (cleaned.symm.trans call)
      obtain ⟨after, still, renamed, moves⟩ := working.afterHandler (.inl state) named
        (KeepsSession.refl owned.stdcl).cleanup.toKeepsName awake
      refine ⟨⟨after.close ?_, after.moved ready.live fun later again =>
        Option.some.inj again ▸ moves⟩, after.plainFor (server.afterHandler_sameTable cl owned _)
          ready.live (KeepsSession.refl owned.stdcl).cleanup.queue⟩
      rw [ready.idle]
      exact .session still renamed notAdding notActivating
    · rw [Server.cleanup, ready.live] at call
      simp only [Option.bind_eq_bind, Option.bind_some, state, Option.pure_def,
        Option.some.injEq] at call
      subst call
      exact ⟨⟨consistent, .refl server⟩, .refl server⟩

/-- A handler that is called for a client with a session. -/
def WorkerTask.Serves (task : WorkerTask) (cl : Addr) : Prop :=
  task.Concerns cl ∧ task ≠ .adding cl ∧ task ≠ .activating cl

/-- What is known where a worker serves a client, or may begin to. -/
structure InSession (bounded : Prop) (server : Server) (thrd : Nat) (cl : Addr)
    (client : OwnedClient) : Prop where
  working : Working bounded server server thrd cl (.ofSession client)
  session : client.stdcl.HasSession
  named : Named client.stdcl
  task : (server.workers thrd).task = .idle ∨ (server.workers thrd).task.Serves cl

theorem Consistent.served (consistent : Consistent bounded server)
    (task : (server.workers thrd).task = busyWith) (serves : busyWith.Serves cl) :
    ∃ client, server.clients cl = some client ∧ InSession bounded server thrd cl client := by
  obtain ⟨place, working, legal, _⟩ := consistent.resume task serves.1
  obtain ⟨client, rfl, session, named⟩ := legal.served serves.1 serves.2.1 serves.2.2
  exact ⟨client, working.client, working, session, named, .inr (task ▸ serves)⟩

theorem Server.Ready.inSession (ready : server.Ready thrd cl owned)
    (consistent : Consistent bounded server) (session : owned.stdcl.HasSession) :
    InSession bounded server thrd cl owned := by
  obtain ⟨place, working, live, legal⟩ := ready.begin consistent
  obtain ⟨rfl, named⟩ := legal.eq_ofSession live session
  exact ⟨working, session, named, .inl ready.idle⟩

theorem WorkerTask.session_task {task : WorkerTask} (only : task = .idle ∨ task.Serves cl) :
    task.About cl ∧ task.Awake ∧ task ≠ .adding cl ∧ task ≠ .activating cl := by
  rcases only with rfl | ⟨concerned, notAdding, notActivating⟩
  · exact ⟨fun _ none => none.elim, fun _ busy => (by cases busy), by simp, by simp⟩
  · exact ⟨WorkerTask.about concerned, WorkerTask.awake concerned, notAdding, notActivating⟩

/-- A worker begins to serve a client, goes on with it, or is done. -/
theorem InSession.setTask {task : WorkerTask} (inSession : InSession bounded server thrd cl owned)
    (only : task = .idle ∨ task.Serves cl) : Kept bounded server (server.setTask thrd task) := by
  obtain ⟨about, awake, _⟩ := WorkerTask.session_task inSession.task
  obtain ⟨newAbout, newAwake, notAdding, notActivating⟩ := WorkerTask.session_task only
  exact ⟨inSession.working.finishTask about awake newAbout newAwake
    (.session inSession.session inSession.named notAdding notActivating),
    (Forward.refl server).setWorker⟩

/-- A handler may begin again where another one ended. -/
theorem Working.restart (working : Working bounded origin server thrd cl place) :
    Working bounded server server thrd cl place := by
  obtain ⟨lists, order, found, others, _⟩ := working
  exact ⟨lists, order, found, fun other different => ⟨rfl, (others other different).2⟩,
    fun _ => rfl, rfl⟩

/-- What a handler of a session does to its client. -/
theorem InSession.afterHandler {stdcl : StdClient}
    (inSession : InSession bounded server thrd cl owned) (keeps : KeepsName owned.stdcl stdcl) :
    Kept bounded server (server.afterHandler cl owned stdcl) ∧
      (stdcl.pendingUserdataQueue ⊆ owned.stdcl.pendingUserdataQueue →
        Plain server (server.afterHandler cl owned stdcl)) ∧
      InSession bounded (server.afterHandler cl owned stdcl) thrd cl { owned with stdcl } := by
  obtain ⟨_, awake, notAdding, notActivating⟩ := WorkerTask.session_task inSession.task
  obtain ⟨after, still, renamed, moves⟩ := inSession.working.afterHandler inSession.session
    inSession.named keeps awake
  refine ⟨⟨after.close (.session still renamed notAdding notActivating), ?_⟩,
    after.plainFor (server.afterHandler_sameTable cl owned stdcl) inSession.working.client,
    after.restart, still, renamed, ?_⟩
  · exact after.moved inSession.working.client fun later again => Option.some.inj again ▸ moves
  · rw [after.task]
    exact inSession.task

theorem Kept.trans {middle : Server} (first : Kept bounded server middle)
    (second : Kept bounded middle next) (consistent : Consistent bounded server) :
    Kept bounded server next := second.after consistent first.forward

/-- A call leaves a message for a recipient, or nothing. -/
theorem Consistent.handleInbound (consistent : Consistent bounded server) {env : InboundEnv}
    (task : (server.workers thrd).task = .forwarding cl env.validationTable env.forwardTable)
    (call : server.handleInbound thrd cl env = some next) :
    Kept bounded server next ∧ (Plain server next ∨ ∃ client middle rcpt msg,
      server.clients cl = some client ∧ client.stdcl.HasSession ∧ Named client.stdcl ∧
      (wtHandleInboundData env client.stdcl).forwarded = some (rcpt, msg) ∧
      Plain server middle ∧ next = middle.setTask thrd (.enqueuing cl rcpt msg)) := by
  obtain ⟨client, live, inSession⟩ := consistent.served task ⟨rfl, by simp, by simp⟩
  have keeps := (wtHandleInboundData_acts env client.stdcl).keepsSession
  obtain ⟨kept, plain, after⟩ := inSession.afterHandler keeps.toKeepsName
  replace plain := plain keeps.queue
  rw [Server.handleInbound, live] at call
  simp only [Option.bind_eq_bind, Option.bind_some, Option.pure_def] at call
  split at call
  · obtain rfl := Option.some.inj call
    exact ⟨kept.trans (after.setTask (.inl rfl)) consistent, .inl (plain.setWorker trivial)⟩
  · rename_i rcpt msg forwarded
    obtain rfl := Option.some.inj call
    exact ⟨kept.trans (after.setTask (.inr ⟨rfl, by simp, by simp⟩)) consistent,
      .inr ⟨client, _, rcpt, msg, live, inSession.session, inSession.named, forwarded, plain, rfl⟩⟩

theorem Consistent.handleOutbound (consistent : Consistent bounded server)
    (ready : server.Ready thrd cl owned) (session : owned.stdcl.HasSession)
    (call : server.handleOutbound cl = some next) :
    Kept bounded server next ∧ Plain server next := by
  have inSession := ready.inSession consistent session
  rw [Server.handleOutbound, ready.live] at call
  obtain rfl := Option.some.inj call
  have keeps := KeepsSession.wtHandleOutboundData owned.stdcl server.clientTable
  obtain ⟨kept, plain, _⟩ := inSession.afterHandler keeps.toKeepsName
  exact ⟨kept, plain keeps.queue⟩

/-- The messages that wait go from the queue to the worker. -/
theorem Consistent.handleDequeue (consistent : Consistent bounded server)
    {resumeTable : ClientTable} (task : (server.workers thrd).task = .resuming cl resumeTable)
    (call : server.handleDequeue thrd cl resumeTable = some next) :
    Kept bounded server next ∧ ∃ client middle, server.clients cl = some client ∧
      Plain server middle ∧ next = middle.setTask thrd (.flushing cl resumeTable server.clientTable
        client.stdcl.pendingUserdataQueue) := by
  obtain ⟨client, live, inSession⟩ := consistent.served task ⟨rfl, by simp, by simp⟩
  have changed := inSession.working.setStdcl rfl { client.stdcl with pendingUserdataQueue := [] }
  have emptied : Kept bounded server
      (server.setStdcl cl { client.stdcl with pendingUserdataQueue := [] }) := by
    obtain ⟨_, _, notAdding, notActivating⟩ := WorkerTask.session_task inSession.task
    have legal : Legal bounded (server.workers thrd).task cl (.ofSession client) :=
      .session inSession.session inSession.named notAdding notActivating
    exact ⟨changed.close (legal.restate rfl rfl rfl rfl rfl),
      changed.moved live fun after again => Option.some.inj again ▸ ⟨rfl, le_rfl, fun _ => rfl⟩⟩
  rw [Server.handleDequeue, live] at call
  obtain rfl := Option.some.inj call
  obtain ⟨_, _, again⟩ := emptied.consistent.served ((changed.task thrd).trans task)
    ⟨rfl, by simp, by simp⟩
  exact ⟨emptied.trans (again.setTask (.inr ⟨rfl, by simp, by simp⟩)) consistent, client, _, live,
    changed.plainFor ⟨rfl, rfl⟩ live (List.nil_subset _), rfl⟩

/-- What a flush leaves was in the queue, or was held by the worker. -/
theorem Consistent.handleQueuedMessages (consistent : Consistent bounded server)
    {resumeTable dequeueTable : ClientTable} {waiting : List MpscMsgNode}
    (task : (server.workers thrd).task = .flushing cl resumeTable dequeueTable waiting)
    (call : server.handleQueuedMessages thrd cl resumeTable dequeueTable waiting = some next) :
    Kept bounded server next ∧ ∃ client result, server.clients cl = some client ∧
      wtHandleQueuedMessages { client.stdcl with pendingUserdataQueue := waiting } resumeTable
        dequeueTable client.stdcl.pendingUserdataQueue = some result ∧
      next = (server.afterHandler cl client result.stdcl).setTask thrd .idle := by
  obtain ⟨client, live, inSession⟩ := consistent.served task ⟨rfl, by simp, by simp⟩
  rw [Server.handleQueuedMessages, live] at call
  simp only [Option.bind_eq_bind, Option.bind_some] at call
  obtain ⟨result, handled, left⟩ := Option.bind_eq_some_iff.mp call
  have keeps := KeepsSession.wtHandleQueuedMessages handled
  obtain ⟨kept, _, after⟩ := @InSession.afterHandler bounded server thrd cl client result.stdcl
    inSession ⟨keeps.username, keeps.keySize, keeps.clState⟩
  obtain rfl := Option.some.inj left
  exact ⟨kept.trans (after.setTask (.inl rfl)) consistent, client, result, live, handled, rfl⟩

/-- The queue of a recipient gets a message. -/
theorem Consistent.handleEnqueue (consistent : Consistent bounded server) {rcpt : Addr}
    {msg : MpscMsgNode} (task : (server.workers thrd).task = .enqueuing cl rcpt msg) :
    Kept bounded server (server.handleEnqueue thrd cl rcpt msg) := by
  rw [Server.handleEnqueue]
  cases live : server.clients rcpt with
  | none =>
    obtain ⟨client, _, inSession⟩ := consistent.served task ⟨rfl, by simp, by simp⟩
    exact inSession.setTask (.inl rfl)
  | some recipient =>
    obtain ⟨owner, place, working, legal⟩ := consistent.begin rcpt
    have here : place.client = some recipient := working.client.symm.trans live
    have filled := (working.setStdcl here { recipient.stdcl with
      pendingUserdataQueue := recipient.stdcl.pendingUserdataQueue ++ [msg] }).record server.answers
        (server.enqueued ++ [(cl, rcpt, msg)])
    have first : Kept bounded server _ := ⟨filled.close (legal.restate here rfl rfl rfl rfl),
      filled.moved live fun after again => Option.some.inj again ▸
        ⟨rfl, le_rfl, fun _ => rfl⟩⟩
    obtain ⟨client, _, inSession⟩ := first.consistent.served ((filled.task thrd).trans task)
      ⟨rfl, by simp, by simp⟩
    exact first.trans (inSession.setTask (.inl rfl)) consistent

/-- A sweep begins with all clients that disconnected. -/
theorem Consistent.sweep (consistent : Consistent bounded server)
    (idle : (server.workers thrd).task = .idle) :
    Kept bounded server
      (server.setTask thrd (.sweeping (server.workers thrd).dconnClients)) := by
  refine ⟨consistent.setWorker rfl rfl (fun cl => ?_) (fun cl none => none) ?_,
    (Forward.refl server).setWorker⟩
  · rw [idle]
    exact id
  · refine (Worker.toSweep_of_awake ?_).symm
    rw [idle]
    exact fun _ busy => by cases busy

theorem Consistent.sweepEnd (consistent : Consistent bounded server)
    (task : (server.workers thrd).task = .sweeping []) :
    Kept bounded server (server.setWorker thrd fun worker =>
      { worker with dconnClients := [], task := .idle }) := by
  refine ⟨consistent.setWorker rfl rfl (fun cl => ?_) (fun cl none => none) ?_,
    (Forward.refl server).setWorker⟩
  · rw [task]
    exact id
  · rw [Worker.toSweep, Worker.toSweep, task]

/-- A client that is swept leaves the table and is freed. -/
theorem Consistent.handleSweep (consistent : Consistent bounded server) {rest : List Addr}
    {links : Links} (task : (server.workers thrd).task = .sweeping (cl :: rest))
    (writes : server.TableWrites cl links)
    (call : server.handleSweep thrd cl rest links = some next) :
    Kept bounded server next ∧ Calm server next ∧
      ∃ key, next.table = Function.update server.table key none := by
  obtain ⟨owner, place, working, legal⟩ := consistent.begin cl
  have toSweep : (server.workers thrd).toSweep = cl :: rest := by
    rw [Worker.toSweep, task]
  obtain ⟨rfl, some⟩ := working.swept (by rw [toSweep]; exact List.mem_cons_self)
  rw [task] at legal
  obtain ⟨client, rfl, gone⟩ : ∃ client, place = .ofSession client ∧
      client.stdcl.clState = .disconnected := by
    cases legal with
    | gone | accepting | accepted | adding | activating => exact absurd rfl some
    | @session client =>
      refine ⟨client, rfl, ?_⟩
      by_contra live
      exact some (if_neg live)
  have live : server.clients cl = .some client := working.client
  have tabled : server.table client.stdcl.key = .some cl := (working.tabled _).mpr rfl
  rw [Server.handleSweep, live] at call
  simp only [Option.bind_eq_bind, Option.bind_some, tabled, Option.pure_def] at call
  split at call
  · cases call
  · obtain rfl := Option.some.inj call
    have removed := working.setTable (Function.update server.table client.stdcl.key none) none rfl
      writes ?_ ?_
    · have freed := removed.free
      have once : (cl :: rest).count cl = 1 := by
        rw [← toSweep, working.departed]
        exact if_pos gone
      refine ⟨⟨freed.finish 0 rfl rfl ?_ (fun _ none => none.elim) (fun other different => ?_)
        ?_ (.gone id), ?_⟩, (freed.calm rfl fun after none => (by cases none)).setWorker trivial,
        _, rfl⟩
      · rw [task]
        exact fun _ none => none.elim
      · show rest.count other = (server.workers thrd).toSweep.count other
        rw [toSweep, List.count_cons_of_ne (Ne.symm different)]
      · show rest.count cl = 0
        rw [List.count_cons_self] at once
        omega
      · exact (freed.moved live fun after none => by cases none).setWorker
    · intro other key different
      by_cases same : key = client.stdcl.key
      · rw [same, Function.update_self, tabled]
        simp [Ne.symm different]
      · rw [Function.update_of_ne same]
    · intro key
      by_cases same : key = client.stdcl.key
      · rw [same, Function.update_self]
        simp
      · rw [Function.update_of_ne same]
        refine iff_of_false (fun here => ?_) (by simp)
        exact same (Option.some.inj ((working.tabled key).mp here)).symm

end Handlers

end Lwmsg
