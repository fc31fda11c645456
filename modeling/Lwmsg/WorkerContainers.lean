/-
This file proves what every run of the workers keeps. Between two handlers each client
of a worker is in the containers that belong to its state and in no other, none of the
containers holds a client that was freed, and the state of a client only moves forward.
And there is at most one session under each name: of two logins that race for it, the
one that comes second to the table is refused, and leaves no trace but its answer.
-/

import Lwmsg.WorkerHandlers
import Lwmsg.WorkerRuns

namespace Lwmsg

open Bytes Pointers SinglyLinked

/-! ### Steps -/

/-- What a step does to the table: a new session is added, or one that disconnected is removed. -/
inductive SessionsStep (server next : Server) : Prop
  | same (table : next.table = server.table)
  | added {thrd cl client} (task : (server.workers thrd).task = .adding cl)
      (live : server.clients cl = some client)
      (table : next.table = Function.update server.table client.stdcl.key (some cl))
  | removed (key : Bytes) (table : next.table = Function.update server.table key none)

/-- What a step does to the messages that workers enqueue, hold and record. -/
inductive MessageStep (server next : Server) : Prop
  | calm (same : Calm server next)
  | sends {thrd cl rcpt client env msg middle} (live : server.clients cl = some client)
      (session : client.stdcl.HasSession)
      (forwards : (wtHandleInboundData env client.stdcl).forwarded = some (rcpt, msg))
      (same : Calm server middle) (left : next = middle.setTask thrd (.enqueuing cl rcpt msg))
  | enqueues {thrd cl rcpt msg} (task : (server.workers thrd).task = .enqueuing cl rcpt msg)
      (left : next = server.handleEnqueue thrd cl rcpt msg)
  | dequeues {thrd cl resumeTable client middle} (live : server.clients cl = some client)
      (same : Calm server middle) (left : next = middle.setTask thrd
        (.flushing cl resumeTable server.clientTable client.stdcl.pendingUserdataQueue))
  | flushes {thrd cl resumeTable dequeueTable waiting client result}
      (task : (server.workers thrd).task = .flushing cl resumeTable dequeueTable waiting)
      (live : server.clients cl = some client)
      (handled : wtHandleQueuedMessages { client.stdcl with pendingUserdataQueue := waiting }
        resumeTable dequeueTable client.stdcl.pendingUserdataQueue = some result)
      (left : next = (server.afterHandler cl client result.stdcl).setTask thrd .idle)

section Steps

variable {bounded : Prop} {server next later : Server} {thrd : Nat} {cl : Addr}
  {client : OwnedClient}

theorem Server.handleEnqueue_table (server : Server) (thrd : Nat) (cl rcpt : Addr)
    (msg : MpscMsgNode) : (server.handleEnqueue thrd cl rcpt msg).table = server.table := by
  rw [Server.handleEnqueue]
  split
  · rfl
  · rfl

/-- Each step takes all clients from legal places to legal places. -/
theorem ServerStep.kept (consistent : Consistent bounded server)
    (few : bounded → server.FewPending) (step : ServerStep server next) :
    Kept bounded server next ∧ SessionsStep server next ∧ MessageStep server next := by
  have plain {next : Server} (result : Kept bounded server next ∧ Plain server next) :
      Kept bounded server next ∧ SessionsStep server next ∧ MessageStep server next :=
    ⟨result.1, .same result.2.table, .calm result.2.toCalm⟩
  have unchanged := Plain.refl server
  cases step with
  | arrives connection live =>
    refine plain ⟨consistent.arrives live connection, ?_⟩
    obtain ⟨_, _, working, _⟩ := consistent.begin _
    have here := working.client.symm.trans live
    refine ⟨(working.setStdcl here _).calm rfl fun after again msg member => ⟨_, live, ?_⟩, rfl⟩
    obtain rfl := Option.some.inj again
    exact member
  | newConnection _ _ _ _ _ _ call => exact plain (consistent.handleNewConnection few call)
  | accepting _ _ ready state call => exact plain (consistent.handleAccepting few ready state call)
  | authentication _ ready state call =>
    rcases consistent.handleAuthentication ready state with
      ⟨failed, _⟩ | ⟨left, called, kept, same, _⟩
    · cases failed.symm.trans call
    · obtain rfl := Option.some.inj (called.symm.trans call)
      exact plain ⟨kept, same⟩
  | add task writes call =>
    obtain ⟨left, client, called, kept, live, calm, decided⟩ := consistent.handleAdd task writes
    obtain rfl := Option.some.inj (called.symm.trans call)
    rcases decided with added | refused
    · exact ⟨kept, .added task live added.2, .calm calm⟩
    · exact ⟨kept, .same refused.2.table, .calm calm⟩
  | activate task call => exact plain (consistent.handleActivate task call)
  | timeout _ _ idle call => exact plain (consistent.handleClthTimeout idle call)
  | hangup ready call => exact plain (consistent.cleanup ready call)
  | validate ready session =>
    exact plain ⟨(ready.inSession consistent session).setTask (.inr ⟨rfl, by simp, by simp⟩),
      unchanged.setWorker trivial⟩
  | forward task =>
    obtain ⟨_, _, inSession⟩ := consistent.served task ⟨rfl, by simp, by simp⟩
    exact plain ⟨inSession.setTask (.inr ⟨rfl, by simp, by simp⟩), unchanged.setWorker trivial⟩
  | inbound _ task call =>
    obtain ⟨kept, same | ⟨client, middle, rcpt, msg, live, session, _, forwards, same, left⟩⟩ :=
      consistent.handleInbound task call
    · exact plain ⟨kept, same⟩
    · exact ⟨kept, .same (left ▸ same.table), .sends live session forwards same.toCalm left⟩
  | @enqueue thrd cl rcpt msg task =>
    exact ⟨consistent.handleEnqueue task, .same (server.handleEnqueue_table thrd cl rcpt msg),
      .enqueues task rfl⟩
  | outbound ready session call => exact plain (consistent.handleOutbound ready session call)
  | resume ready session =>
    exact plain ⟨(ready.inSession consistent session).setTask (.inr ⟨rfl, by simp, by simp⟩),
      unchanged.setWorker trivial⟩
  | dequeue task call =>
    obtain ⟨kept, client, middle, live, same, left⟩ := consistent.handleDequeue task call
    exact ⟨kept, .same (left ▸ same.table), .dequeues live same.toCalm left⟩
  | @flush _ cl _ _ _ _ task call =>
    obtain ⟨kept, client, result, live, handled, left⟩ := consistent.handleQueuedMessages task call
    have same := server.afterHandler_sameTable cl client result.stdcl
    exact ⟨kept, .same (left ▸ same.table), .flushes task live handled left⟩
  | sweep thrd idle => exact plain ⟨consistent.sweep idle, unchanged.setWorker trivial⟩
  | sweepNext task writes call =>
    obtain ⟨kept, calm, key, table⟩ := consistent.handleSweep task writes call
    exact ⟨kept, .removed key table, .calm calm⟩
  | sweepEnd task => exact plain ⟨consistent.sweepEnd task, unchanged.setWorker trivial⟩

theorem serverStart_consistent (bounded : Prop) : Consistent bounded serverStart := by
  refine ⟨fun _ => [], ⟨fun _ => rfl, fun _ => List.nodup_nil, fun _ _ none => (by cases none),
    fun _ => ?_, fun _ _ => rfl⟩, fun cl => ⟨0, ⟨none, false, false, none, 0⟩, ?_, .gone id⟩⟩
  · exact ⟨⟨fun slot inside => absurd inside (Nat.not_lt_zero _), fun _ => .inl rfl⟩,
      Nat.zero_le _, 8, by decide, rfl⟩
  · exact ⟨rfl, fun _ none => (by cases none), fun _ => by simp,
      fun _ => iff_of_false (fun held => held rfl) (by simp), fun _ => by simp [serverStart],
      fun _ => by simp [serverStart, Worker.toSweep], fun _ none => none.elim⟩

/-- So does a whole run. Where it has few pending clients at all times, each of them has a
deadline. -/
theorem WorkersRun.kept {Allowed : Server → Server → Prop} (consistent : Consistent bounded server)
    (few : ∀ server next, Allowed server next → bounded → server.FewPending)
    (run : WorkersRun Allowed server later) : Kept bounded server later := by
  induction run with
  | start => exact ⟨consistent, .refl server⟩
  | step _ step allowed inductionHypothesis =>
    exact inductionHypothesis.trans
      (step.kept inductionHypothesis.consistent (few _ _ allowed)).1 consistent

end Steps

/-! ### The containers of a worker -/

namespace Server

/-- A node is in `preauth_list`. -/
def InPreauthList (server : Server) (thrd : Nat) (cl : Addr) : Prop :=
  ∃ addrs, Path server.next (server.workers thrd).preauthList addrs none ∧ cl ∈ addrs

/-- A slot of the heap holds the client. -/
def InTimerheap (server : Server) (thrd : Nat) (cl : Addr) : Prop :=
  ∃ slot < (server.workers thrd).clth.heap.numClients,
    (server.workers thrd).clth.heap.clients slot = some cl

/-- The slot that `timerheap_index` names holds the client. -/
def AtTimerheapIndex (server : Server) (thrd : Nat) (cl : Addr) : Prop :=
  ∃ slot < (server.workers thrd).clth.heap.numClients,
    (server.workers thrd).clth.heap.clients slot = some cl ∧
    ((server.workers thrd).clth.client cl).timerheapIndex = slot

/-- The situations of a client between two handlers. -/
inductive Situation (server : Server) (thrd : Nat) (cl : Addr) (client : OwnedClient) : Prop
  | accepting (state : client.stdcl.clState = .accepting) (listed : server.InPreauthList thrd cl)
      (untimed : ¬ server.InTimerheap thrd cl) (untabled : ¬ server.InTable cl)
      (connected : cl ∉ (server.workers thrd).dconnClients)
  | accepted (state : client.stdcl.clState = .accepted) (listed : server.InPreauthList thrd cl)
      (timed : server.AtTimerheapIndex thrd cl) (untabled : ¬ server.InTable cl)
      (connected : cl ∉ (server.workers thrd).dconnClients)
  | authenticated (state : client.stdcl.clState = .authenticated)
      (unlisted : ¬ server.InPreauthList thrd cl) (untimed : ¬ server.InTimerheap thrd cl)
      (tabled : server.table client.stdcl.key = some cl)
      (connected : cl ∉ (server.workers thrd).dconnClients)
  | disconnected (state : client.stdcl.clState = .disconnected)
      (unlisted : ¬ server.InPreauthList thrd cl) (untimed : ¬ server.InTimerheap thrd cl)
      (tabled : server.table client.stdcl.key = some cl)
      (once : (server.workers thrd).dconnClients.count cl = 1)

/-- A client that was not freed and belongs to a worker. -/
def Owned (server : Server) (thrd : Nat) (cl : Addr) : Prop :=
  ∃ client, server.clients cl = some client ∧ client.ownerThrdId = thrd

/-- What is claimed of a worker between two handlers: each of its clients is in one of the
situations, its containers hold only its clients, and the table holds no client that was freed. -/
structure ContainersConsistent (server : Server) (thrd : Nat) : Prop where
  situated : ∀ cl client, server.clients cl = some client → client.ownerThrdId = thrd →
    server.Situation thrd cl client
  listed : ∀ cl, server.InPreauthList thrd cl → server.Owned thrd cl
  timed : ∀ cl, server.InTimerheap thrd cl → server.Owned thrd cl
  departed : ∀ cl ∈ (server.workers thrd).dconnClients, server.Owned thrd cl
  tabled : ∀ cl, server.InTable cl → server.clients cl ≠ none

/-- A client is in no container of any worker. Of `dconn_clients` the part counts that was not swept
yet. -/
def InNoContainer (server : Server) (cl : Addr) : Prop :=
  (∀ thrd, ¬ server.InPreauthList thrd cl ∧ ¬ server.InTimerheap thrd cl ∧
    cl ∉ (server.workers thrd).toSweep) ∧ ¬ server.InTable cl

/-- No client is in an earlier state later. -/
def MovesForward (server later : Server) : Prop :=
  ∀ cl before after, server.clients cl = some before → later.clients cl = some after →
    before.stdcl.clState.rank ≤ after.stdcl.clState.rank

end Server

section Containers

variable {bounded : Prop} {server : Server} {lists : Nat → List Addr} {thrd owner : Nat}
  {cl : Addr} {place : Place}

theorem InOrder.listed_iff (order : InOrder server lists) :
    server.InPreauthList thrd cl ↔ cl ∈ lists thrd := by
  constructor
  · rintro ⟨addrs, path, member⟩
    rwa [← path.unique (order.paths thrd)]
  · intro member
    exact ⟨lists thrd, order.paths thrd, member⟩

theorem TimerSlots.held_iff (slots : TimerSlots (server.workers thrd).clth) :
    (server.workers thrd).clth.Holds cl ↔ server.InTimerheap thrd cl := by
  constructor
  · intro held
    obtain ⟨slot, inside, found, _⟩ := (slots.indexed.holds_iff cl).mp held
    exact ⟨slot, inside, found⟩
  · rintro ⟨slot, inside, found⟩
    obtain ⟨other, same, index⟩ := slots.indexed.occupied slot inside
    obtain rfl := Option.some.inj (found.symm.trans same)
    exact (slots.indexed.holds_iff cl).mpr ⟨slot, inside, found, index⟩

theorem At.inTable_iff (found : At server lists owner cl place) :
    server.InTable cl ↔ place.tabled ≠ none := by
  constructor
  · rintro ⟨key, tabled⟩
    rw [(found.tabled key).mp tabled]
    simp
  · intro some
    obtain ⟨key, tabled⟩ := Option.ne_none_iff_exists'.mp some
    exact ⟨key, (found.tabled key).mpr tabled⟩

/-- A place says which containers a client is in. -/
theorem At.listed_iff (order : InOrder server lists) (found : At server lists owner cl place) :
    server.InPreauthList thrd cl ↔ thrd = owner ∧ place.listed = true :=
  order.listed_iff.trans (found.listed thrd)

theorem At.timed_iff (order : InOrder server lists) (found : At server lists owner cl place) :
    server.InTimerheap thrd cl ↔ thrd = owner ∧ place.timed = true :=
  (order.slots thrd).held_iff.symm.trans (found.timed thrd)

/-- A freed client is in no container. -/
theorem Consistent.inNoContainer (consistent : Consistent bounded server)
    (freed : server.clients cl = none) : server.InNoContainer cl := by
  obtain ⟨lists, order, situated⟩ := consistent
  obtain ⟨owner, place, found, legal⟩ := situated cl
  have gone : place.client = none := found.client.symm.trans freed
  cases legal with
  | accepting | accepted | adding | activating | session => cases gone
  | gone =>
    refine ⟨fun thrd => ⟨?_, ?_, ?_⟩, ?_⟩
    · rw [found.listed_iff order]
      simp
    · rw [found.timed_iff order]
      simp
    · rw [← List.count_eq_zero, found.departed thrd]
      simp
    · rw [found.inTable_iff]
      simp

/-- So the containers hold only clients that were not freed. -/
theorem Consistent.owned (consistent : Consistent bounded server)
    (held : server.InPreauthList thrd cl ∨ server.InTimerheap thrd cl ∨
      cl ∈ (server.workers thrd).toSweep) : server.Owned thrd cl := by
  cases live : server.clients cl with
  | none =>
    obtain ⟨unlisted, untimed, connected⟩ := (consistent.inNoContainer live).1 thrd
    rcases held with listed | timed | departed
    · exact absurd listed unlisted
    · exact absurd timed untimed
    · exact absurd departed connected
  | some client =>
    refine ⟨client, live, ?_⟩
    obtain ⟨lists, order, situated⟩ := consistent
    obtain ⟨owner, place, found, legal⟩ := situated cl
    have here := found.owner client (found.client.symm.trans live)
    rcases held with listed | timed | departed
    · exact here.trans ((found.listed_iff order).mp listed).1.symm
    · exact here.trans ((found.timed_iff order).mp timed).1.symm
    · by_contra other
      have none := found.departed thrd
      rw [if_neg fun same => other (here.trans same.symm), List.count_eq_zero] at none
      exact none departed

/-- Between two handlers every client of a worker is in one of the situations. -/
theorem Consistent.containersConsistent (consistent : Consistent True server)
    (idle : (server.workers thrd).task = .idle) : server.ContainersConsistent thrd := by
  have awake : (server.workers thrd).task.Awake := by
    rw [idle]
    exact fun _ busy => by cases busy
  have sweep := Worker.toSweep_of_awake awake
  refine ⟨fun cl client live own => ?_, fun cl listed => consistent.owned (.inl listed),
    fun cl timed => consistent.owned (.inr (.inl timed)),
    fun cl departed => consistent.owned (.inr (.inr (sweep.symm ▸ departed))),
    fun cl tabled freed => (consistent.inNoContainer freed).2 tabled⟩
  obtain ⟨lists, order, situated⟩ := consistent
  obtain ⟨owner, place, found, legal⟩ := situated cl
  have here : place.client = some client := found.client.symm.trans live
  obtain rfl : thrd = owner := own.symm.trans (found.owner client here)
  have listed := @At.listed_iff _ _ thrd _ _ _ order found
  have timed := @At.timed_iff _ _ thrd _ _ _ order found
  have tabled := found.inTable_iff
  have departed := found.departed thrd
  rw [sweep, if_pos rfl] at departed
  rw [idle] at legal
  cases legal with
  | gone => cases here
  | adding _ _ busy => cases busy
  | activating _ _ busy => cases busy
  | accepting state =>
    obtain rfl := Option.some.inj here
    exact .accepting state (listed.mpr ⟨rfl, rfl⟩) (by simp [timed]) (by simp [tabled])
      (List.count_eq_zero.mp departed)
  | accepted state _ due =>
    obtain rfl := Option.some.inj here
    obtain ⟨slot, inside, slotFound, index⟩ := ((order.slots thrd).indexed.holds_iff cl).mp
      ((found.timed thrd).mpr ⟨rfl, due trivial⟩)
    exact .accepted state (listed.mpr ⟨rfl, rfl⟩) ⟨slot, inside, slotFound, index⟩ (by simp [tabled])
      (List.count_eq_zero.mp departed)
  | @session client session =>
    obtain rfl := Option.some.inj here
    have unlisted : ¬ server.InPreauthList thrd cl := by simp [listed, Place.ofSession]
    have untimed : ¬ server.InTimerheap thrd cl := by simp [timed, Place.ofSession]
    have named := (found.tabled client.stdcl.key).mpr rfl
    rcases session with state | state
    · refine .authenticated state unlisted untimed named (List.count_eq_zero.mp ?_)
      rw [departed, Place.ofSession, state]
      rfl
    · refine .disconnected state unlisted untimed named ?_
      rw [departed, Place.ofSession, state]
      rfl

end Containers

/-- In every run with fewer than `2 ^ 31` pending clients at a time, each client of a worker that is
between two handlers is in exactly the containers of its state, no container holds a client that was
freed, and the states of clients only move forward. -/
theorem worker_containers_consistent {server : Server}
    (run : WorkersRun (fun server _ => server.FewPending) serverStart server) :
    (∀ thrd, (server.workers thrd).task = .idle → server.ContainersConsistent thrd) ∧
      ∀ later, WorkersRun (fun server _ => server.FewPending) server later →
        server.MovesForward later := by
  have kept := run.kept (serverStart_consistent True) fun _ _ few _ => few
  refine ⟨fun thrd idle => kept.consistent.containersConsistent idle, fun later more => ?_⟩
  have moved := more.kept kept.consistent fun _ _ few _ => few
  exact fun cl before after found again => (moved.forward.moves cl before after found again).forward

/-- There are never more clients than addresses. -/
theorem Consistent.fewPending {bounded : Prop} {server : Server}
    (consistent : Consistent bounded server) (few : server.allocated < 2 ^ 31) :
    server.FewPending := by
  intro thrd addrs distinct pending
  have below : addrs ⊆ List.range server.allocated := by
    intro cl member
    obtain ⟨client, live, _⟩ := pending cl member
    exact List.mem_range.mpr (consistent.below live)
  have length := (List.subperm_of_subset distinct below).length_le
  rw [List.length_range] at length
  exact length.trans_lt few

theorem WorkersRun.fewPending {server : Server}
    (run : WorkersRun (fun server _ => server.allocated < 2 ^ 31) serverStart server) :
    WorkersRun (fun server _ => server.FewPending) serverStart server := by
  induction run with
  | start => exact .start
  | step _ step few inductionHypothesis =>
    have kept := inductionHypothesis.kept (serverStart_consistent True) fun _ _ few _ => few
    exact inductionHypothesis.step step (kept.consistent.fewPending few)

/-- Two workers with a client each, of which one logged in and hung up. -/
theorem worker_containers_consistent_hangup : ∃ server,
    serverStart.execAll (fun server _ => server.allocated < 2 ^ 31)
      (loginOf 0 0 "ann" ++ loginOf 1 1 "bob" ++ [.hangup 0 0]) = some server ∧
    server.ContainersConsistent 0 := by
  have executed : (serverStart.execAll (fun server _ => server.allocated < 2 ^ 31)
      (loginOf 0 0 "ann" ++ loginOf 1 1 "bob" ++ [.hangup 0 0])).any (·.isIdle 0) = true := by
    decide +kernel
  obtain ⟨server, left, idle⟩ := (Option.any_eq_true _ _).mp executed
  have run : WorkersRun (fun server _ => server.allocated < 2 ^ 31) serverStart server :=
    WorkersRun.start.execAll (fun _ _ few => of_decide_eq_true few) left
  exact ⟨server, left, (worker_containers_consistent run.fewPending).1 0
    (Server.isIdle_iff.mp idle)⟩

/-! ### One session under a name -/

/-- At most one client has a session under a name, whatever the case of its letters. -/
def Server.OneSessionPerUser (server : Server) : Prop :=
  ∀ first second one other, server.clients first = some one → server.clients second = some other →
    one.stdcl.clState = .authenticated → other.stdcl.clState = .authenticated →
    cString (normalizeString one.stdcl.username) = cString (normalizeString other.stdcl.username) →
    first = second

/-- What a login leaves that lost. -/
structure LostLogin (server next : Server) (cl : Addr) : Prop where
  refused : Refused server next cl .duplicate
  nowhere : next.InNoContainer cl

section Sessions

variable {bounded : Prop} {server next : Server} {thrd : Nat} {cl : Addr} {client : OwnedClient}

theorem Named.normalized {stdcl : StdClient} (named : Named stdcl) :
    cString (normalizeString stdcl.username) = stdcl.key := by
  rw [cString_normalizeString, named.lower, named.key]

/-- A client with a session is in the table under its name. -/
theorem Consistent.tabled (consistent : Consistent bounded server)
    (live : server.clients cl = some client) (session : client.stdcl.HasSession) :
    server.table client.stdcl.key = some cl ∧ Named client.stdcl := by
  obtain ⟨lists, order, situated⟩ := consistent
  obtain ⟨owner, place, found, legal⟩ := situated cl
  obtain ⟨rfl, named⟩ := legal.eq_ofSession (found.client.symm.trans live) session
  exact ⟨(found.tabled _).mpr rfl, named⟩

theorem Consistent.oneSessionPerUser (consistent : Consistent bounded server) :
    server.OneSessionPerUser := by
  intro first second one other firstLive secondLive oneState otherState same
  obtain ⟨firstTabled, oneNamed⟩ := consistent.tabled firstLive (.inl oneState)
  obtain ⟨secondTabled, otherNamed⟩ := consistent.tabled secondLive (.inl otherState)
  rw [oneNamed.normalized, otherNamed.normalized] at same
  rw [same] at firstTabled
  exact Option.some.inj (firstTabled.symm.trans secondTabled)

theorem Refused.lostLogin (refused : Refused server next cl .duplicate)
    (consistent : Consistent bounded next) : LostLogin server next cl :=
  ⟨refused, consistent.inNoContainer refused.freed⟩

/-- A login that comes to the table when there is a client with its name has lost. -/
theorem Consistent.lostLogin_add (consistent : Consistent bounded server) {links : Links}
    {other : Addr} (task : (server.workers thrd).task = .adding cl)
    (writes : server.TableWrites cl links) (live : server.clients cl = some client)
    (found : server.table client.stdcl.key = some other) :
    ∃ next, server.handleAdd thrd cl links = some next ∧ LostLogin server next cl := by
  obtain ⟨next, owned, call, kept, same, _, ⟨free, _⟩ | ⟨_, refused⟩⟩ :=
    consistent.handleAdd task writes
  · obtain rfl := Option.some.inj (same.symm.trans live)
    rw [free] at found
    cases found
  · exact ⟨next, call, refused.lostLogin kept.consistent⟩

/-- No key of the table is empty. -/
theorem Consistent.key_nonempty (consistent : Consistent bounded server) {key : Bytes}
    (tabled : server.table key = some cl) : key.length ≠ 0 := by
  obtain ⟨lists, order, situated⟩ := consistent
  obtain ⟨owner, place, found, legal⟩ := situated cl
  have named := (found.tabled key).mp tabled
  cases legal with
  | gone | accepting | accepted | adding => cases named
  | activating _ name =>
    obtain rfl := Option.some.inj named
    exact name.nonempty
  | session _ name =>
    obtain rfl := Option.some.inj named
    exact name.nonempty

/-- So has one whose name is found by the first lookup already. -/
theorem Consistent.lostLogin_get (consistent : Consistent bounded server) {fns : AuthFns}
    {req : AuthReqGroup} {entry : Addr × ClientState} (ready : server.Ready thrd cl client)
    (state : client.stdcl.clState = .accepted) (read : authRequestRead client.stdcl = some req)
    (request : req.requestType = reqAuthentication)
    (found : server.clientTable (req.username.take (strnlen req.username unamesize)) = some entry) :
    ∃ next, server.handleAuthentication thrd cl fns = some next ∧ LostLogin server next cl := by
  have decided : authDecide fns server.clientTable req = .ok (.duplicate, req) := by
    obtain ⟨other, tabled, _⟩ := Option.bind_eq_some_iff.mp found
    rw [authDecide, if_neg (not_not.mpr request), ClientTable.get,
      if_neg (consistent.key_nonempty tabled), found]
  rcases consistent.handleAuthentication ready state with
    ⟨_, other, assertion, otherRead, failed⟩ | ⟨next, call, kept, _, decides⟩
  · obtain rfl := Option.some.inj (read.symm.trans otherRead)
    cases decided.symm.trans failed
  · obtain ⟨respCode, later, same, refused⟩ := decides req read
    obtain ⟨rfl, _⟩ := Prod.mk.inj (Except.ok.inj (decided.symm.trans same))
    exact ⟨next, call, (refused (by simp)).lostLogin kept.consistent⟩

end Sessions

/-- In every run of any number of workers there is at most one session under a name, in whatever case
it was written. A login that finds its name in the table, at its first lookup or when it is added, is
answered that it is a duplicate, is freed and in no container, and leaves the table and all other
clients as they were. -/
theorem one_session_per_user {server : Server}
    (run : WorkersRun (fun _ _ => True) serverStart server) :
    server.OneSessionPerUser ∧
    (∀ thrd cl client fns req entry, server.Ready thrd cl client →
      client.stdcl.clState = .accepted → authRequestRead client.stdcl = some req →
      req.requestType = reqAuthentication →
      server.clientTable (req.username.take (strnlen req.username unamesize)) = some entry →
      ∃ next, server.handleAuthentication thrd cl fns = some next ∧ LostLogin server next cl) ∧
    (∀ thrd cl client other links, (server.workers thrd).task = .adding cl →
      server.clients cl = some client → server.table client.stdcl.key = some other →
      server.TableWrites cl links →
      ∃ next, server.handleAdd thrd cl links = some next ∧ LostLogin server next cl) := by
  have consistent := (run.kept (serverStart_consistent False) fun _ _ _ none => none.elim).consistent
  refine ⟨consistent.oneSessionPerUser, ?_, ?_⟩
  · intro thrd cl client fns req entry ready state read request found
    exact consistent.lostLogin_get ready state read request found
  · intro thrd cl client other links task live found writes
    exact consistent.lostLogin_add task writes live found

/-- The task is to add the client to the table. -/
def WorkerTask.isAdding (task : WorkerTask) (cl : Addr) : Bool :=
  match task with
  | .adding addr => addr == cl
  | _ => false

theorem WorkerTask.isAdding_iff {task : WorkerTask} {cl : Addr} :
    task.isAdding cl = true ↔ task = .adding cl := by
  cases task <;> simp [WorkerTask.isAdding]

/-- Two workers that both have to add a client, the first of which was added. -/
def racingLogins : List WorkerEvent :=
  (loginOf 0 0 "ann").take 1 ++ (loginOf 1 1 "Ann").take 2 ++ ((loginOf 0 0 "ann").drop 1).take 2

/-- The second one loses. -/
theorem one_session_per_user_race : ∃ server next,
    serverStart.execAll (fun _ _ => true) racingLogins = some server ∧
    server.OneSessionPerUser ∧ server.handleAdd 1 1 server.next = some next ∧
    LostLogin server next 1 := by
  have executed : (serverStart.execAll (fun _ _ => true) racingLogins).any (fun server =>
      (server.clients 1).any (fun client => (server.table client.stdcl.key).isSome) &&
      (server.workers 1).task.isAdding 1) = true := by
    decide +kernel
  obtain ⟨server, left, raced⟩ := (Option.any_eq_true _ _).mp executed
  obtain ⟨taken, waits⟩ := Bool.and_eq_true_iff.mp raced
  obtain ⟨client, live, found⟩ := (Option.any_eq_true _ _).mp taken
  obtain ⟨other, tabled⟩ := Option.isSome_iff_exists.mp found
  have task : (server.workers 1).task = .adding 1 := WorkerTask.isAdding_iff.mp waits
  have run : WorkersRun (fun _ _ => True) serverStart server :=
    WorkersRun.start.execAll (fun _ _ _ => trivial) left
  obtain ⟨oneSession, _, lost⟩ := one_session_per_user run
  obtain ⟨next, call, lost⟩ := lost 1 1 client other server.next task live tabled
    (server.tableWrites_refl 1)
  exact ⟨server, next, left, oneSession, call, lost⟩

end Lwmsg
