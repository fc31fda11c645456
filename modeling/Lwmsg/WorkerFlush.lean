/-
This file proves what a flush of `wt_handle_queued_messages` discards. The worker looks
the sender of a message up by its name, and if nobody is found, it flushes all messages
under this name. In between another worker may let the sender in again, and enqueue a
message of the new session, which is then flushed with those of the old one. Where no
such message is enqueued in between, a flush discards only what sessions left that
disconnected.
-/

import Lwmsg.WorkerContainers

namespace Lwmsg

open Bytes Pointers

/-! ### Messages and their senders -/

namespace Server

/-- Somebody enqueued the message for the client. -/
def Logged (server : Server) (cl : Addr) (msg : MpscMsgNode) : Prop :=
  ∃ sender, (sender, cl, msg) ∈ server.enqueued

/-- A sender disconnected, or was freed already. -/
def Departed (server : Server) (sender : Addr) : Prop :=
  ∀ client, server.clients sender = some client → client.stdcl.clState = .disconnected

/-- The flush of a client discards a message, one of those that waited behind the dequeued one, or
that were enqueued since. -/
def Discarded (server next : Server) (cl : Addr) (waiting : List MpscMsgNode) (msg : MpscMsgNode) :
    Prop :=
  (msg ∈ waiting.tail ∨
    ∃ client, server.clients cl = some client ∧ msg ∈ client.stdcl.pendingUserdataQueue) ∧
  ∀ client, next.clients cl = some client → msg ∉ client.stdcl.pendingUserdataQueue

/-- What is claimed: whatever a flush discards was enqueued, and whoever enqueued it is gone. -/
def DiscardsDeparted (server : Server) : Prop :=
  ∀ thrd cl resumeTable dequeueTable waiting next,
    (server.workers thrd).task = .flushing cl resumeTable dequeueTable waiting →
    server.handleQueuedMessages thrd cl resumeTable dequeueTable waiting = some next →
    ∀ msg, server.Discarded next cl waiting msg →
      server.Logged cl msg ∧ ∀ sender, (sender, cl, msg) ∈ server.enqueued → server.Departed sender

end Server

/-- The worker of a client did not find the sender of the message it dequeued for it, and is going to
flush the messages under this name. -/
def WorkerTask.missed (task : WorkerTask) (cl : Addr) (name : Bytes) : Bool :=
  match task with
  | .flushing addr _ dequeueTable (first :: _) => addr == cl &&
    (htableGetCond dequeueTable (cString first.subjectName)).isNone &&
    strncmp unamesize name first.subjectName == 0
  | _ => false

namespace Server

def missed (server : Server) (cl : Addr) (name : Bytes) : Bool :=
  (server.clients cl).any fun client =>
    (server.workers client.ownerThrdId).task.missed cl name

/-- The session of a sender goes on. -/
def isConnected (server : Server) (sender : Addr) : Bool :=
  (server.clients sender).any fun client => client.stdcl.clState != .disconnected

/-- The condition fails in a step that enqueues a message of a session that goes on, for a recipient
whose worker is going to flush the messages under its name. -/
def enqueuesLate (server next : Server) : Bool :=
  (next.enqueued.drop server.enqueued.length).any fun (sender, cl, msg) =>
    server.missed cl msg.subjectName && server.isConnected sender

/-- A client had a session when it sent the message, which carries its name. -/
structure Sent (server : Server) (sender : Addr) (msg : MpscMsgNode) : Prop where
  old : sender < server.allocated
  size : msg.subjectName.length = unamesize
  session : ∀ client, server.clients sender = some client →
    client.stdcl.HasSession ∧ msg.subjectName = strncpy unamesize client.stdcl.username

/-- The messages that a worker holds. -/
def TaskAccounted (server : Server) (task : WorkerTask) : Prop :=
  match task with
  | .enqueuing sender _ msg => server.Sent sender msg
  | .flushing cl _ _ waiting => ∀ msg ∈ waiting, server.Logged cl msg
  | _ => True

/-- Every message, wherever it is, has a sender. -/
structure Accounted (server : Server) : Prop where
  log : ∀ sender cl msg, (sender, cl, msg) ∈ server.enqueued → server.Sent sender msg
  tasks : ∀ thrd, server.TaskAccounted (server.workers thrd).task
  queues : ∀ cl client, server.clients cl = some client →
    ∀ msg ∈ client.stdcl.pendingUserdataQueue, server.Logged cl msg

/-- Whoever enqueued a message that is going to be flushed is gone. -/
def MissedDeparted (server : Server) : Prop :=
  ∀ thrd cl sender msg, (server.workers thrd).task.missed cl msg.subjectName = true →
    (sender, cl, msg) ∈ server.enqueued → server.Departed sender

end Server

section Accounting

variable {bounded : Prop} {server next middle : Server} {thrd : Nat} {cl sender : Addr}
  {msg : MpscMsgNode} {client : OwnedClient}

theorem Forward.before (forward : Forward server next) (old : cl < server.allocated)
    (live : next.clients cl = some client) :
    ∃ before, server.clients cl = some before ∧ before.Moves client := by
  cases found : server.clients cl with
  | none =>
    rw [forward.gone cl old found] at live
    cases live
  | some before => exact ⟨before, rfl, forward.moves cl before client found live⟩

theorem Server.Sent.later (sent : server.Sent sender msg) (forward : Forward server next) :
    next.Sent sender msg := by
  refine ⟨sent.old.trans_le forward.allocated, sent.size, fun after live => ?_⟩
  obtain ⟨before, found, moves⟩ := forward.before sent.old live
  obtain ⟨session, name⟩ := sent.session before found
  refine ⟨hasSession_of_rank (session.rank.trans moves.forward), ?_⟩
  rw [name, moves.username session]

theorem Server.Departed.later (departed : server.Departed sender) (old : sender < server.allocated)
    (forward : Forward server next) : next.Departed sender := by
  intro after live
  obtain ⟨before, found, moves⟩ := forward.before old live
  have late := moves.forward
  rw [departed before found] at late
  cases state : after.stdcl.clState with
  | disconnected => rfl
  | init | accepting | accepted | registered | authenticated =>
    rw [state] at late
    exact absurd late (by decide)

theorem Server.Logged.later (logged : server.Logged cl msg)
    (grown : server.enqueued ⊆ next.enqueued) : next.Logged cl msg := by
  obtain ⟨sender, member⟩ := logged
  exact ⟨sender, grown member⟩

theorem Server.TaskAccounted.later {task : WorkerTask} (accounted : server.TaskAccounted task)
    (forward : Forward server next) (grown : server.enqueued ⊆ next.enqueued) :
    next.TaskAccounted task := by
  cases task with
  | enqueuing => exact Server.Sent.later accounted forward
  | flushing => exact fun msg member => (accounted msg member).later grown
  | idle | adding | activating | validating | forwarding | resuming | sweeping => trivial

theorem WorkerTask.Quiet.accounted {task : WorkerTask} (quiet : task.Quiet) :
    server.TaskAccounted task := by
  cases task with
  | enqueuing | flushing => exact quiet.elim
  | idle | adding | activating | validating | forwarding | resuming | sweeping => trivial

theorem WorkerTask.Quiet.not_missed {task : WorkerTask} (quiet : task.Quiet) (name : Bytes) :
    task.missed cl name = false := by
  cases task with
  | enqueuing | flushing => exact quiet.elim
  | idle | adding | activating | validating | forwarding | resuming | sweeping => rfl

/-- What a worker begins is accounted for, and the others do what they did. -/
theorem Server.tasks_setTask {task : WorkerTask} {Good : WorkerTask → Prop} (here : Good task)
    (others : ∀ other, Good (middle.workers other).task) (other : Nat) :
    Good ((middle.setTask thrd task).workers other).task :=
  forall_setWorker middle (fun _ worker => Good worker.task) (fun other _ => others other) here other

/-- What a step has to account for. -/
theorem Server.Accounted.later (accounted : server.Accounted) (forward : Forward server next)
    (grown : server.enqueued ⊆ next.enqueued)
    (log : ∀ entry ∈ next.enqueued, entry ∈ server.enqueued ∨ server.Sent entry.1 entry.2.2)
    (tasks : ∀ thrd, next.TaskAccounted (next.workers thrd).task)
    (queues : ∀ cl after, next.clients cl = some after →
      ∀ msg ∈ after.stdcl.pendingUserdataQueue, server.Logged cl msg ∨ next.Logged cl msg) :
    next.Accounted := by
  refine ⟨fun sender cl msg member => ?_, tasks, fun cl after live msg member => ?_⟩
  · rcases log _ member with old | sent
    · exact (accounted.log sender cl msg old).later forward
    · exact sent.later forward
  · rcases queues cl after live msg member with old | new
    · exact old.later grown
    · exact new

theorem Calm.queued (calm : Calm server next) (accounted : server.Accounted)
    (live : next.clients cl = some client) (member : msg ∈ client.stdcl.pendingUserdataQueue) :
    server.Logged cl msg := by
  obtain ⟨before, found, old⟩ := calm.queues cl client live msg member
  exact accounted.queues cl before found msg old

theorem Calm.accounted (calm : Calm server middle) (accounted : server.Accounted)
    (forward : Forward server next) (grown : server.enqueued ⊆ next.enqueued) (other : Nat) :
    next.TaskAccounted (middle.workers other).task := by
  rcases calm.tasks other with same | quiet
  · rw [same]
    exact (accounted.tasks other).later forward grown
  · exact quiet.accounted

theorem Calm.log (calm : Calm server next) : ∀ entry ∈ next.enqueued,
    entry ∈ server.enqueued ∨ server.Sent entry.1 entry.2.2 := by
  rw [calm.enqueued]
  exact fun _ member => .inl member

theorem Calm.grown (calm : Calm server next) : server.enqueued ⊆ next.enqueued := by
  rw [calm.enqueued]
  exact List.Subset.refl _

/-- A client forwards messages under its name. -/
theorem Consistent.sent (consistent : Consistent bounded server) {env : InboundEnv} {rcpt : Addr}
    (live : server.clients sender = some client) (session : client.stdcl.HasSession)
    (forwards : (wtHandleInboundData env client.stdcl).forwarded = some (rcpt, msg)) :
    server.Sent sender msg := by
  have name := wtHandleInboundData_names env client.stdcl rcpt msg forwards
  refine ⟨consistent.below live, ?_, fun same found => ?_⟩
  · rw [name]
    exact length_strncpy _ _
  · obtain rfl := Option.some.inj (live.symm.trans found)
    exact ⟨session, name⟩

/-- The queue of the recipient gets the message, and no other queue anything. -/
theorem Server.handleEnqueue_queues {rcpt cl : Addr} {after : OwnedClient}
    (live : (server.handleEnqueue thrd sender rcpt msg).clients cl = some after) :
    ∃ before, server.clients cl = some before ∧ ∀ other ∈ after.stdcl.pendingUserdataQueue,
      other ∈ before.stdcl.pendingUserdataQueue ∨ cl = rcpt ∧ other = msg ∧
        (server.handleEnqueue thrd sender rcpt msg).enqueued =
          server.enqueued ++ [(sender, rcpt, msg)] := by
  rw [Server.handleEnqueue] at live ⊢
  cases found : server.clients rcpt with
  | none =>
    rw [found] at live
    exact ⟨after, live, fun _ member => .inl member⟩
  | some recipient =>
    rw [found] at live
    by_cases here : cl = rcpt
    · subst here
      replace live : Function.update server.clients cl ((server.clients cl).map _) cl = _ := live
      rw [Function.update_self, found] at live
      obtain rfl := Option.some.inj live
      refine ⟨recipient, found, fun other member => ?_⟩
      rcases List.mem_append.mp member with old | new
      · exact .inl old
      · exact .inr ⟨rfl, List.mem_singleton.mp new, rfl⟩
    · replace live : Function.update server.clients rcpt _ cl = _ := live
      rw [Function.update_of_ne here] at live
      exact ⟨after, live, fun _ member => .inl member⟩

theorem Server.handleEnqueue_enqueued (server : Server) (thrd : Nat) (sender rcpt : Addr)
    (msg : MpscMsgNode) :
    (server.handleEnqueue thrd sender rcpt msg).enqueued = server.enqueued ∨
      (server.handleEnqueue thrd sender rcpt msg).enqueued =
        server.enqueued ++ [(sender, rcpt, msg)] := by
  rw [Server.handleEnqueue]
  split
  · exact .inl rfl
  · exact .inr rfl

theorem Server.handleEnqueue_tasks {rcpt : Addr} {Good : WorkerTask → Prop} (here : Good .idle)
    (others : ∀ other, Good (server.workers other).task) (other : Nat) :
    Good ((server.handleEnqueue thrd sender rcpt msg).workers other).task := by
  rw [Server.handleEnqueue]
  split
  · exact Server.tasks_setTask here others other
  · exact Server.tasks_setTask here others other

theorem Server.afterHandler_task (server : Server) (cl : Addr) (client : OwnedClient)
    (stdcl : StdClient) (other : Nat) :
    ((server.afterHandler cl client stdcl).workers other).task = (server.workers other).task := by
  rw [Server.afterHandler]
  split
  · exact forall_setWorker (server.setStdcl cl stdcl)
      (fun other worker => worker.task = (server.workers other).task) (fun _ _ => rfl) rfl other
  · rfl

theorem Server.afterHandler_client {stdcl : StdClient} {other : Addr} {after : OwnedClient}
    (live : (server.afterHandler cl client stdcl).clients other = some after) :
    other = cl ∧ after.stdcl = stdcl ∨ server.clients other = some after := by
  have clients : (server.afterHandler cl client stdcl).clients =
      Function.update server.clients cl ((server.clients cl).map fun client =>
        { client with stdcl }) := by
    rw [Server.afterHandler]
    split
    · rfl
    · rfl
  rw [clients] at live
  by_cases here : other = cl
  · subst here
    rw [Function.update_self] at live
    obtain ⟨_, _, rfl⟩ := Option.map_eq_some_iff.mp live
    exact .inl ⟨rfl, rfl⟩
  · rw [Function.update_of_ne here] at live
    exact .inr live

/-- Each step keeps account of the messages. -/
theorem MessageStep.accounted (step : MessageStep server next) (consistent : Consistent bounded server)
    (accounted : server.Accounted) (forward : Forward server next) : next.Accounted := by
  cases step with
  | calm same =>
    exact accounted.later forward same.grown same.log
      (same.accounted accounted forward same.grown) fun cl after live msg member =>
        .inl (same.queued accounted live member)
  | sends live session forwards same left =>
    subst left
    have sent := consistent.sent live session forwards
    exact accounted.later forward same.grown same.log
      (Server.tasks_setTask (sent.later forward) (same.accounted accounted forward same.grown))
      fun cl after live msg member => .inl (same.queued accounted live member)
  | @enqueues thrd sender rcpt msg task left =>
    subst left
    have sent := accounted.tasks thrd
    rw [task] at sent
    have enqueued := server.handleEnqueue_enqueued thrd sender rcpt msg
    have grown : server.enqueued ⊆ (server.handleEnqueue thrd sender rcpt msg).enqueued := by
      rcases enqueued with same | more
      · rw [same]
        exact List.Subset.refl _
      · rw [more]
        exact List.subset_append_left _ _
    refine accounted.later forward grown (fun entry member => ?_)
      (Server.handleEnqueue_tasks trivial fun other =>
        (accounted.tasks other).later forward grown) fun cl after live other member => ?_
    · rcases enqueued with same | more
      · rw [same] at member
        exact .inl member
      · rw [more] at member
        rcases List.mem_append.mp member with old | new
        · exact .inl old
        · rw [List.mem_singleton.mp new]
          exact .inr sent
    · obtain ⟨before, found, members⟩ := Server.handleEnqueue_queues live
      rcases members other member with old | ⟨rfl, rfl, more⟩
      · exact .inl (accounted.queues cl before found other old)
      · refine .inr ⟨sender, ?_⟩
        rw [more]
        exact List.mem_append_right _ (List.mem_singleton_self _)
  | dequeues live same left =>
    subst left
    refine accounted.later forward same.grown same.log
      (Server.tasks_setTask (fun msg member => ?_) (same.accounted accounted forward same.grown))
      fun cl after live msg member => .inl (same.queued accounted live member)
    exact (accounted.queues _ _ live msg member).later same.grown
  | @flushes thrd cl resumeTable dequeueTable waiting client result task live handled left =>
    subst left
    have enqueued := (server.afterHandler_sameTable cl client result.stdcl).enqueued
    have held := accounted.tasks thrd
    rw [task] at held
    refine accounted.later forward (by rw [Server.setTask]; exact enqueued ▸ List.Subset.refl _)
      (fun entry member => .inl (enqueued ▸ member))
      (Server.tasks_setTask trivial fun other => ?_) fun other after found msg member => ?_
    · rw [server.afterHandler_task]
      exact (accounted.tasks other).later forward (enqueued ▸ List.Subset.refl _)
    · left
      rcases Server.afterHandler_client found with ⟨rfl, same⟩ | same
      · rw [same] at member
        rcases List.mem_append.mp ((KeepsSession.wtHandleQueuedMessages handled).queue member) with
          waits | arrived
        · exact held msg waits
        · exact accounted.queues _ _ live msg arrived
      · exact accounted.queues _ _ same msg member

/-! ### What is going to be flushed -/

theorem WorkerTask.concerns_of_missed {task : WorkerTask} {name : Bytes}
    (missed : task.missed cl name = true) : task.Concerns cl := by
  unfold WorkerTask.missed at missed
  split at missed
  · simp only [Bool.and_eq_true, beq_iff_eq] at missed
    exact missed.1.1
  · cases missed

theorem Calm.missed {name : Bytes} (calm : Calm server next)
    (missed : (next.workers thrd).task.missed cl name = true) :
    (server.workers thrd).task.missed cl name = true := by
  rcases calm.tasks thrd with same | quiet
  · rwa [← same]
  · rw [quiet.not_missed] at missed
    cases missed

/-- Whoever was gone is gone. -/
theorem Server.MissedDeparted.later (missed : server.MissedDeparted) (accounted : server.Accounted)
    (forward : Forward server next) (before : (server.workers thrd).task.missed cl msg.subjectName)
    (member : (sender, cl, msg) ∈ server.enqueued) : next.Departed sender :=
  (missed thrd cl sender msg before member).later (accounted.log sender cl msg member).old forward

/-- A task of one worker that was begun, or was there before. -/
theorem Server.missed_setTask {task : WorkerTask} {name : Bytes} {other : Nat}
    (missed : ((middle.setTask thrd task).workers other).task.missed cl name = true) :
    task.missed cl name = true ∨ (middle.workers other).task.missed cl name = true := by
  by_cases here : other = thrd
  · left
    rwa [Server.setTask, here, Server.setWorker_self] at missed
  · right
    rwa [Server.setTask, Server.setWorker_of_ne _ _ here] at missed

/-- Where nobody is found under the name of a message, nobody with this name is connected. -/
theorem Consistent.departed_of_missed (consistent : Consistent bounded server)
    {first : MpscMsgNode} (sent : server.Sent sender msg)
    (size : first.subjectName.length = unamesize)
    (missing : htableGetCond server.clientTable (cString first.subjectName) = none)
    (same : strncmp unamesize msg.subjectName first.subjectName = 0) : server.Departed sender := by
  intro client live
  obtain ⟨session, name⟩ := sent.session client live
  obtain ⟨tabled, named⟩ := consistent.tabled live session
  have key : cString first.subjectName = client.stdcl.key := by
    rw [strncmp_eq_zero_iff, List.take_of_length_le sent.size.le, List.take_of_length_le size.le,
      name, cString_strncpy, List.take_of_length_le] at same
    · rw [named.key, same]
    · exact named.size ▸ (List.takeWhile_sublist _).length_le
  have found : server.clientTable client.stdcl.key = some (sender, client.stdcl.clState) := by
    simp only [Server.clientTable, tabled, live, Option.bind_eq_bind, Option.bind_some,
      Option.pure_def]
  have nonempty : client.stdcl.key.headD 0 ≠ 0 := by
    rw [named.key]
    cases chars : cString client.stdcl.username with
    | nil =>
      have empty := named.nonempty
      rw [named.key, chars] at empty
      exact absurd rfl empty
    | cons byte rest =>
      exact cString_clean client.stdcl.username byte (chars ▸ List.mem_cons_self)
  rw [key, htableGetCond, if_neg nonempty, found] at missing
  simp only [ite_eq_right_iff, reduceCtorEq, imp_false] at missing
  rcases session with connected | gone
  · rw [connected] at missing
    exact absurd rfl missing
  · exact gone

theorem Server.isConnected_of_not_departed (connected : ¬ server.isConnected sender = true) :
    server.Departed sender := by
  intro client live
  by_contra goesOn
  refine connected ?_
  rw [Server.isConnected, live]
  simpa using goesOn

/-- The worker of a client is the only one that flushes its messages. -/
theorem Consistent.missed (consistent : Consistent bounded server) {name : Bytes}
    (live : server.clients cl = some client)
    (missed : (server.workers thrd).task.missed cl name = true) : server.missed cl name = true := by
  obtain ⟨owner, place, working, _⟩ := consistent.begin cl
  obtain rfl := working.concerns (WorkerTask.concerns_of_missed missed)
  have owned := working.owner (working.client.symm.trans live)
  rw [Server.missed, live]
  simpa [owned] using missed

/-- No step that enqueues in time changes who is gone of those whose messages are flushed. -/
theorem MessageStep.missedDeparted (step : MessageStep server next)
    (consistent : Consistent bounded server) (accounted : server.Accounted)
    (forward : Forward server next) (inTime : ¬ server.enqueuesLate next = true)
    (departed : server.MissedDeparted) : next.MissedDeparted := by
  intro other cl sender msg missed member
  cases step with
  | calm same =>
    rw [same.enqueued] at member
    exact departed.later accounted forward (same.missed missed) member
  | sends live session forwards same left =>
    subst left
    rcases Server.missed_setTask missed with new | old
    · cases new
    · exact departed.later accounted forward (same.missed old) (same.enqueued ▸ member)
  | @enqueues thrd author rcpt text task left =>
    subst left
    have before : (server.workers other).task.missed cl msg.subjectName = true := by
      rw [Server.handleEnqueue] at missed
      split at missed
      · exact (Server.missed_setTask missed).resolve_left (by simp [WorkerTask.missed])
      · exact (Server.missed_setTask missed).resolve_left (by simp [WorkerTask.missed])
    by_cases old : (sender, cl, msg) ∈ server.enqueued
    · exact departed.later accounted forward before old
    · have sent := accounted.tasks thrd
      rw [task] at sent
      rw [Server.handleEnqueue] at member inTime
      cases live : server.clients rcpt with
      | none =>
        rw [live] at member
        exact absurd member old
      | some recipient =>
        rw [live] at member inTime
        obtain ⟨rfl, rfl, rfl⟩ : sender = author ∧ cl = rcpt ∧ msg = text := by
          simpa [old] using (List.mem_append.mp member).resolve_left old
        have late := consistent.missed live before
        refine Server.Departed.later (Server.isConnected_of_not_departed fun connected => ?_)
          (Server.Sent.old sent) forward
        refine inTime ?_
        show ((server.enqueued ++ [(sender, cl, msg)]).drop server.enqueued.length).any _ = true
        rw [List.drop_left]
        simp [late, connected]
  | @dequeues thrd rcpt resumeTable client middle live same left =>
    subst left
    replace member : (sender, cl, msg) ∈ server.enqueued := same.enqueued ▸ member
    rcases Server.missed_setTask missed with new | old
    · unfold WorkerTask.missed at new
      split at new
      · rename_i addr _ dequeueTable first rest flushing
        obtain ⟨rfl, _, rfl, waits⟩ := WorkerTask.flushing.inj flushing
        simp only [Bool.and_eq_true, beq_iff_eq, Option.isNone_iff_eq_none] at new
        obtain ⟨logger, logged⟩ := accounted.queues _ _ live first (waits ▸ List.mem_cons_self)
        exact (consistent.departed_of_missed (accounted.log sender cl msg member)
          (accounted.log _ _ _ logged).size new.1.2 new.2).later
          (accounted.log sender cl msg member).old forward
      · cases new
    · exact departed.later accounted forward (same.missed old) member
  | @flushes thrd rcpt resumeTable dequeueTable waiting client result task live handled left =>
    subst left
    have enqueued := (server.afterHandler_sameTable rcpt client result.stdcl).enqueued
    have before := (Server.missed_setTask missed).resolve_left (by simp [WorkerTask.missed])
    rw [server.afterHandler_task] at before
    exact departed.later accounted forward before (enqueued ▸ member)

/-! ### What a flush discards -/

/-- Only a message under the name of one whose sender was not found is discarded. -/
theorem wtHandleQueuedMessages_discards {stdcl : StdClient} {resumeTable dequeueTable : ClientTable}
    {arrived : List MpscMsgNode} {result : OutboundResult}
    (handled : wtHandleQueuedMessages stdcl resumeTable dequeueTable arrived = some result)
    (waited : msg ∈ stdcl.pendingUserdataQueue.tail ∨ msg ∈ arrived)
    (discarded : msg ∉ result.stdcl.pendingUserdataQueue) :
    ∃ first rest, stdcl.pendingUserdataQueue = first :: rest ∧
      htableGetCond dequeueTable (cString first.subjectName) = none ∧
      strncmp unamesize msg.subjectName first.subjectName = 0 := by
  have kept (res : Option NetFailure) (after : StdClient) :
      (awaitSocket res after).pendingUserdataQueue = after.pendingUserdataQueue := by
    obtain ⟨_, _, same⟩ := awaitSocket_eq res after
    rw [same]
  have all : msg ∈ stdcl.pendingUserdataQueue ++ arrived :=
    List.mem_append.mpr (waited.imp_left List.mem_of_mem_tail)
  rw [wtHandleQueuedMessages] at handled
  split at handled
  · obtain rfl := Option.some.inj handled
    exact absurd all discarded
  · have waiting := sendUnfinished_pendingUserdataQueue stdcl resumeTable
    rcases sendUnfinished stdcl resumeTable with ⟨res, after, notices⟩
    simp only at handled waiting
    split at handled
    · obtain rfl := Option.some.inj handled
      rw [kept] at discarded
      exact absurd (waiting.symm ▸ all) discarded
    · obtain rfl := Option.some.inj handled
      rw [kept] at discarded
      exact absurd (waiting.symm ▸ all) discarded
    · rename_i first rest _ queue
      rw [queue] at waiting
      rw [← waiting] at waited ⊢
      have behind : msg ∈ rest ++ arrived := List.mem_append.mpr waited
      split at handled
      · obtain rfl := Option.some.inj handled
        rw [kept, sendOneMsg_pendingUserdataQueue] at discarded
        exact absurd behind discarded
      · rename_i missing
        refine ⟨first, rest, rfl, missing, ?_⟩
        split at handled
        · cases handled
        · obtain rfl := Option.some.inj handled
          rw [kept, sendOneMsg_pendingUserdataQueue] at discarded
          by_contra different
          exact discarded (List.mem_filter.mpr ⟨behind, decide_eq_true different⟩)

/-- Where everybody whose messages are going to be flushed is gone, only they are. -/
theorem Consistent.discardsDeparted (consistent : Consistent bounded server)
    (accounted : server.Accounted) (departed : server.MissedDeparted) :
    server.DiscardsDeparted := by
  intro thrd cl resumeTable dequeueTable waiting next task call msg ⟨waited, discarded⟩
  obtain ⟨_, client, result, live, handled, rfl⟩ := consistent.handleQueuedMessages task call
  replace waited : msg ∈ waiting.tail ∨ msg ∈ client.stdcl.pendingUserdataQueue := by
    refine waited.imp_right ?_
    rintro ⟨same, found, member⟩
    obtain rfl := Option.some.inj (live.symm.trans found)
    exact member
  have held := accounted.tasks thrd
  rw [task] at held
  constructor
  · rcases waited with waits | arrived
    · exact held msg (List.mem_of_mem_tail waits)
    · exact accounted.queues cl client live msg arrived
  · have after : ((server.afterHandler cl client result.stdcl).setTask thrd .idle).clients cl =
        some { client with stdcl := result.stdcl } := by
      have clients : ((server.afterHandler cl client result.stdcl).setTask thrd .idle).clients =
          (server.setStdcl cl result.stdcl).clients := by
        show (server.afterHandler cl client result.stdcl).clients = _
        rw [Server.afterHandler]
        split
        · rfl
        · rfl
      rw [clients]
      show Function.update server.clients cl ((server.clients cl).map _) cl = _
      rw [Function.update_self, live]
      rfl
    obtain ⟨first, rest, rfl, missing, same⟩ :=
      wtHandleQueuedMessages_discards handled waited (discarded _ after)
    refine fun sender member => departed thrd cl sender msg ?_ member
    rw [task]
    simpa [WorkerTask.missed, missing] using same

end Accounting

/-- In every run, where nobody that is connected enqueues a message under a name for a recipient whose
worker has not found this name and is going to flush the messages under it, a flush discards only
messages of sessions that disconnected. -/
theorem flush_discards_departed {server : Server}
    (run : WorkersRun (fun server next => ¬ server.enqueuesLate next = true) serverStart server) :
    server.DiscardsDeparted := by
  have kept : Consistent False server ∧ server.Accounted ∧ server.MissedDeparted := by
    induction run with
    | start =>
      exact ⟨serverStart_consistent False, ⟨fun _ _ _ none => (by cases none), fun _ => trivial,
        fun _ _ none => by cases none⟩, fun _ _ _ _ _ none => by cases none⟩
    | step _ step inTime inductionHypothesis =>
      obtain ⟨consistent, accounted, departed⟩ := inductionHypothesis
      obtain ⟨kept, _, message⟩ := step.kept consistent fun none => none.elim
      exact ⟨kept.consistent, message.accounted consistent accounted kept.forward,
        message.missedDeparted consistent accounted kept.forward inTime departed⟩
  exact kept.1.discardsDeparted kept.2.1 kept.2.2

/-- Ann writes twice to Bob and hangs up, and the worker of Bob is going to flush. -/
theorem flush_discards_departed_hangup : ∃ server,
    serverStart.execAll (fun server next => !server.enqueuesLate next)
      (loginOf 0 0 "ann" ++ loginOf 1 1 "bob" ++ textOf 0 0 "bob" "A" ++ textOf 0 0 "bob" "B" ++
        [.hangup 0 0, .resume 1 1, .dequeue 1]) = some server ∧ server.DiscardsDeparted := by
  have executed : (serverStart.execAll (fun server next => !server.enqueuesLate next)
      (loginOf 0 0 "ann" ++ loginOf 1 1 "bob" ++ textOf 0 0 "bob" "A" ++ textOf 0 0 "bob" "B" ++
        [.hangup 0 0, .resume 1 1, .dequeue 1])).isSome = true := by
    decide +kernel
  obtain ⟨server, left⟩ := Option.isSome_iff_exists.mp executed
  have run : WorkersRun (fun server next => ¬ server.enqueuesLate next = true) serverStart server :=
    WorkersRun.start.execAll (fun _ _ inTime => by simpa using inTime) left
  exact ⟨server, left, flush_discards_departed run⟩

/-- A flush of the client, whose turn it is, discards a message of a sender that is connected. -/
def Server.flushesConnected (server : Server) (thrd : Nat) (cl sender : Addr) : Bool :=
  match (server.workers thrd).task with
  | .flushing addr resumeTable dequeueTable waiting => addr == cl && server.isConnected sender &&
    (server.handleQueuedMessages thrd cl resumeTable dequeueTable waiting).any fun next =>
      server.enqueued.any fun entry => entry.1 == sender && entry.2.1 == cl &&
        ((server.clients cl).any fun client =>
          client.stdcl.pendingUserdataQueue.contains entry.2.2) &&
        (next.clients cl).all fun client => !client.stdcl.pendingUserdataQueue.contains entry.2.2
  | _ => false

theorem Server.not_discardsDeparted {server : Server} {thrd : Nat} {cl sender : Addr}
    (flushes : server.flushesConnected thrd cl sender = true) : ¬ server.DiscardsDeparted := by
  intro discards
  rw [Server.flushesConnected] at flushes
  split at flushes
  case h_2 => cases flushes
  case h_1 addr resumeTable dequeueTable waiting task =>
    simp only [Bool.and_eq_true, beq_iff_eq] at flushes
    obtain ⟨⟨rfl, connected⟩, flushes⟩ := flushes
    obtain ⟨next, call, flushes⟩ := (Option.any_eq_true _ _).mp flushes
    obtain ⟨⟨author, rcpt, msg⟩, member, flushes⟩ := List.any_eq_true.mp flushes
    simp only [Bool.and_eq_true, beq_iff_eq] at flushes
    obtain ⟨⟨⟨rfl, rfl⟩, waited⟩, left⟩ := flushes
    obtain ⟨client, live, waited⟩ := (Option.any_eq_true _ _).mp waited
    have discarded : server.Discarded next rcpt waiting msg := by
      refine ⟨.inr ⟨client, live, List.contains_iff_mem.mp waited⟩, fun after found kept => ?_⟩
      rw [found] at left
      simp [kept] at left
    have departed := (discards thrd rcpt resumeTable dequeueTable waiting next task call msg
      discarded).2 author member
    obtain ⟨sender, found, state⟩ := (Option.any_eq_true _ _).mp connected
    simp [departed sender found] at state

/-- Ann writes to Bob and hangs up. The worker of Bob takes her message and does not find her any
more. Then she logs in again and writes once more, before the worker of Bob flushes. -/
def reloginSchedule : List WorkerEvent :=
  loginOf 0 0 "ann" ++ loginOf 1 1 "bob" ++ textOf 0 0 "bob" "A" ++
    [.hangup 0 0, .resume 1 1, .dequeue 1, .sweep 0, .sweepNext 0, .sweepEnd 0] ++
    loginOf 0 2 "ann" ++ textOf 0 2 "bob" "B"

/-- Her new message is discarded, and she is connected. -/
theorem newer_session_flushed : ∃ server, WorkersRun (fun _ _ => True) serverStart server ∧
    ¬ server.DiscardsDeparted := by
  have executed : (serverStart.execAll (fun _ _ => true) reloginSchedule).any
      (·.flushesConnected 1 1 2) = true := by
    decide +kernel
  obtain ⟨server, left, flushes⟩ := (Option.any_eq_true _ _).mp executed
  exact ⟨server, WorkersRun.start.execAll (fun _ _ _ => trivial) left,
    Server.not_discardsDeparted flushes⟩

end Lwmsg
