/-
This file models what epoll is asked to watch for a client, and the loop of
`worker_thrd_routine` that hands the reported events to the handlers. It proves that
no wake-up is lost: a message that waits is always one that a registered event will
bring back to the handlers.

One call of `epoll_wait` reports at most one event of the socket of a client and one
of the eventfd of its queue, in either order, and both were registered when it
returned. Between two events of a client the worker handles other clients, and the
other workers enqueue.
-/

import Lwmsg.InboundActs

namespace Lwmsg

open Bytes Pointers

/-! ### What a client registers for -/

/-- A message that waits is one that a registered event brings back to the handlers. -/
structure NoLostWakeup (stdcl : StdClient) : Prop where
  control : stdcl.pendingCtrlQueue ≠ [] → stdcl.tempSendStorage ≠ none
  socket : stdcl.tempSendStorage ≠ none → .epollout ∈ stdcl.sockEvents
  queue : .epollin ∉ stdcl.queueEvents →
    .epollout ∈ stdcl.sockEvents ∧ stdcl.tempSendStorage ≠ none

/-- The same of a client, of which nothing is asked once it is cleaned up. -/
def Wakes (stdcl : StdClient) : Prop := stdcl.clState = .authenticated → NoLostWakeup stdcl

/-- What happens to a client on the receiving side, and from other workers, takes no registered
event away. -/
structure KeepsWakeups (before after : StdClient) : Prop where
  authenticated : after.clState = .authenticated → before.clState = .authenticated
  sock : after.clState = .authenticated →
    .epollout ∈ before.sockEvents → .epollout ∈ after.sockEvents
  queue : after.clState = .authenticated →
    .epollin ∈ before.queueEvents → .epollin ∈ after.queueEvents
  wakes : Wakes before → Wakes after

namespace KeepsWakeups

theorem refl (stdcl : StdClient) : KeepsWakeups stdcl stdcl :=
  ⟨id, fun _ => id, fun _ => id, id⟩

theorem trans {first second third : StdClient} (left : KeepsWakeups first second)
    (right : KeepsWakeups second third) : KeepsWakeups first third where
  authenticated := fun live => left.authenticated (right.authenticated live)
  sock := fun live armed => right.sock live (left.sock (right.authenticated live) armed)
  queue := fun live armed => right.queue live (left.queue (right.authenticated live) armed)
  wakes := fun start => right.wakes (left.wakes start)

/-- Nothing is asked of a client that is not authenticated any more. -/
theorem of_gone {before after : StdClient} (gone : after.clState ≠ .authenticated) :
    KeepsWakeups before after :=
  ⟨fun live => absurd live gone, fun live => absurd live gone, fun live => absurd live gone,
    fun _ live => absurd live gone⟩

theorem cleanup (stdcl : StdClient) : KeepsWakeups stdcl (cleanupStdClient stdcl) :=
  of_gone (cleanupStdClient_not_authenticated stdcl)

theorem enqueue (stdcl : StdClient) (msgs : List MpscMsgNode) :
    KeepsWakeups stdcl { stdcl with pendingUserdataQueue := stdcl.pendingUserdataQueue ++ msgs } where
  authenticated := id
  sock := fun _ => id
  queue := fun _ => id
  wakes := fun start live => ⟨(start live).control, (start live).socket, (start live).queue⟩

theorem receive (stdcl : StdClient) (tempRecvStorage : CurrRecvMsg) (connection : Conn) :
    KeepsWakeups stdcl { stdcl with tempRecvStorage, connection } where
  authenticated := id
  sock := fun _ => id
  queue := fun _ => id
  wakes := fun start live => ⟨(start live).control, (start live).socket, (start live).queue⟩

/-- A response that has to wait for the socket leaves the socket registered. -/
theorem serve (stdcl : StdClient) (msg : MpscMsgNode) :
    KeepsWakeups stdcl (wtServeResponse stdcl msg) := by
  rw [wtServeResponse]
  split
  · rename_i tss unfinished
    refine ⟨id, fun _ => id, fun _ => id, fun start live => ?_⟩
    exact ⟨fun _ => by simp [unfinished], (start live).socket, (start live).queue⟩
  · rename_i idle
    simp only [afterSend]
    cases (sendDoWhile msg.buf stdcl.connection msg.bufOffset).stopped with
    | none =>
      rw [if_neg (by simp)]
      refine ⟨id, fun _ => id, fun _ => id, fun start live => ?_⟩
      exact ⟨fun waiting => absurd idle ((start live).control waiting),
        fun unfinished => absurd rfl unfinished, fun off => absurd idle ((start live).queue off).2⟩
    | some failure =>
      cases failure with
      | error =>
        rw [if_neg (by simp)]
        exact of_gone (cleanupStdClient_not_authenticated _)
      | eblock =>
        rw [if_pos rfl]
        refine ⟨id, fun _ _ => by simp, fun _ => id, fun start live => ?_⟩
        exact ⟨fun _ => by simp, fun _ => by simp, fun _ => by simp⟩

theorem acts {before after : StdClient} {responses : List MpscMsgNode}
    (acts : InboundActs before responses after) : KeepsWakeups before after := by
  induction acts with
  | start => exact refl before
  | receive tempRecvStorage incoming recvEvents _ inductionHypothesis =>
    exact inductionHypothesis.trans (receive _ tempRecvStorage _)
  | serve msg _ inductionHypothesis => exact inductionHypothesis.trans (serve _ msg.1)
  | cleanup _ inductionHypothesis => exact inductionHypothesis.trans (cleanup _)

end KeepsWakeups

/-! ### What sending leaves -/

/-- How a client is left by sends that ended with `res`. -/
structure SendsLeave (before : StdClient) (res : Option NetFailure) (after : StdClient) : Prop where
  finished : res = none → after.tempSendStorage = none
  blocked : res = some .eblock → after.tempSendStorage ≠ none
  registered : res ≠ some .error → after.clState = before.clState ∧
    after.sockEvents = before.sockEvents ∧ after.queueEvents = before.queueEvents
  broken : res = some .error → after.clState ≠ .authenticated

/-- What was done to a client before the sends makes no difference if its events stayed the same. -/
theorem SendsLeave.since {before first after : StdClient} {res : Option NetFailure}
    (sends : SendsLeave first res after) (same : first.clState = before.clState ∧
      first.sockEvents = before.sockEvents ∧ first.queueEvents = before.queueEvents) :
    SendsLeave before res after := by
  obtain ⟨sameState, sameSock, sameQueue⟩ := same
  refine ⟨sends.finished, sends.blocked, fun kept => ?_, sends.broken⟩
  obtain ⟨state, sock, queue⟩ := sends.registered kept
  exact ⟨state.trans sameState, sock.trans sameSock, queue.trans sameQueue⟩

theorem sendOneMsg_leaves (stdcl : StdClient) (tss : MpscMsgNode) :
    SendsLeave stdcl (sendOneMsg stdcl tss).1 (sendOneMsg stdcl tss).2 := by
  rw [sendOneMsg, afterSend]
  simp only
  cases (sendWhile tss.buf stdcl.connection tss.bufOffset).stopped with
  | none => exact ⟨fun _ => rfl, by simp, fun _ => ⟨rfl, rfl, rfl⟩, by simp⟩
  | some failure =>
    cases failure with
    | error =>
      exact ⟨by simp, by simp, by simp, fun _ => cleanupStdClient_not_authenticated _⟩
    | eblock => exact ⟨by simp, by simp, fun _ => ⟨rfl, rfl, rfl⟩, by simp⟩

theorem SendsLeave.withUserdata {before after : StdClient} {res : Option NetFailure}
    (sends : SendsLeave before res after) (pendingUserdataQueue : List MpscMsgNode) :
    SendsLeave before res { after with pendingUserdataQueue } :=
  ⟨sends.finished, sends.blocked, sends.registered, sends.broken⟩

/-- The loop over `pending_ctrl_queue` starts with nothing unfinished. -/
theorem sendCtrlQueue_leaves (pendingCtrlQueue : List MpscMsgNode) (stdcl : StdClient)
    (idle : stdcl.tempSendStorage = none) (queue : stdcl.pendingCtrlQueue = pendingCtrlQueue) :
    SendsLeave stdcl (sendCtrlQueue pendingCtrlQueue stdcl).1 (sendCtrlQueue pendingCtrlQueue stdcl).2 ∧
      ((sendCtrlQueue pendingCtrlQueue stdcl).1 = none →
        (sendCtrlQueue pendingCtrlQueue stdcl).2.pendingCtrlQueue = []) := by
  induction pendingCtrlQueue generalizing stdcl with
  | nil => exact ⟨⟨fun _ => idle, by simp [sendCtrlQueue], fun _ => ⟨rfl, rfl, rfl⟩,
      by simp [sendCtrlQueue]⟩, fun _ => queue⟩
  | cons msg pendingCtrlQueue inductionHypothesis =>
    have sends := sendOneMsg_leaves { stdcl with pendingCtrlQueue, tempSendStorage := some msg } msg
    have rest := sendOneMsg_pendingCtrlQueue
      { stdcl with pendingCtrlQueue, tempSendStorage := some msg } msg
    rw [sendCtrlQueue]
    rcases call : sendOneMsg { stdcl with pendingCtrlQueue, tempSendStorage := some msg } msg with
      ⟨res, after⟩
    rw [call] at sends rest
    cases res with
    | some failure =>
      exact ⟨sends.since ⟨rfl, rfl, rfl⟩, by simp⟩
    | none =>
      obtain ⟨later, empty⟩ := inductionHypothesis after (sends.finished rfl) rest
      exact ⟨later.since (sends.registered (by simp)), empty⟩

theorem sendUnfinished_leaves (stdcl : StdClient) (table : ClientTable) :
    SendsLeave stdcl (sendUnfinished stdcl table).1 (sendUnfinished stdcl table).2.stdcl ∧
      ((sendUnfinished stdcl table).1 = none →
        (sendUnfinished stdcl table).2.stdcl.pendingCtrlQueue = []) := by
  rw [sendUnfinished]
  split
  · rename_i idle
    exact sendCtrlQueue_leaves stdcl.pendingCtrlQueue stdcl idle rfl
  · rename_i tss unfinished
    simp only
    have sends := sendOneMsg_leaves
      { stdcl with pendingCtrlQueue := stdcl.pendingCtrlQueue ++ resumeNotices table tss } tss
    rcases call : sendOneMsg
      { stdcl with pendingCtrlQueue := stdcl.pendingCtrlQueue ++ resumeNotices table tss } tss with
      ⟨res, after⟩
    rw [call] at sends
    cases res with
    | some failure =>
      exact ⟨sends.since ⟨rfl, rfl, rfl⟩, by simp⟩
    | none =>
      obtain ⟨later, empty⟩ :=
        sendCtrlQueue_leaves after.pendingCtrlQueue after (sends.finished rfl) rfl
      exact ⟨later.since (sends.registered (by simp)), empty⟩

/-- A client whose socket is registered may be left in the middle of a message. -/
theorem SendsLeave.wakes_of_armed {before after : StdClient} {res : Option NetFailure}
    (sends : SendsLeave before res after) (failed : res ≠ none) (live : after.clState = .authenticated)
    (armed : .epollout ∈ after.sockEvents) : NoLostWakeup after := by
  have unfinished : after.tempSendStorage ≠ none := by
    rcases Option.ne_none_iff_exists'.mp failed with ⟨failure, rfl⟩
    cases failure with
    | error => exact absurd live (sends.broken rfl)
    | eblock => exact sends.blocked rfl
  exact ⟨fun _ => unfinished, fun _ => armed, fun _ => ⟨armed, unfinished⟩⟩

/-! ### The handlers of a reported event -/

/-- `wt_handle_outbound_data` is called for a socket that was registered for it. -/
theorem wtHandleOutboundData_keeps (stdcl : StdClient) (table : ClientTable)
    (armed : stdcl.clState = .authenticated → .epollout ∈ stdcl.sockEvents) :
    let after := (wtHandleOutboundData stdcl table).stdcl
    (after.clState = .authenticated → stdcl.clState = .authenticated) ∧
      (after.clState = .authenticated →
        .epollin ∈ stdcl.queueEvents → .epollin ∈ after.queueEvents) ∧ Wakes after := by
  rw [wtHandleOutboundData]
  split
  · rename_i gone
    exact ⟨id, fun _ => id, fun live => by simp [gone] at live⟩
  · obtain ⟨sends, empty⟩ := sendUnfinished_leaves stdcl table
    rcases call : sendUnfinished stdcl table with ⟨res, after, notices⟩
    rw [call] at sends empty
    cases res with
    | none =>
      obtain ⟨state, _, _⟩ := sends.registered (by simp)
      refine ⟨fun live => state ▸ live, fun _ _ => List.mem_singleton_self _, fun _ => ?_⟩
      exact ⟨fun waiting => absurd (empty rfl) waiting,
        fun unfinished => absurd (sends.finished rfl) unfinished,
        fun off => absurd (List.mem_singleton_self _) off⟩
    | some failure =>
      cases failure with
      | error =>
        exact ⟨fun live => absurd live (sends.broken rfl),
          fun live => absurd live (sends.broken rfl), fun live => absurd live (sends.broken rfl)⟩
      | eblock =>
        obtain ⟨state, sock, queue⟩ := sends.registered (by simp)
        refine ⟨fun live => state ▸ live, fun _ on => queue.symm ▸ on, fun live => ?_⟩
        exact sends.wakes_of_armed (by simp) live (sock.symm ▸ armed (state ▸ live))

theorem awaitSocket_wakes {before after : StdClient} {res : Option NetFailure}
    (sends : SendsLeave before res after)
    (empty : res = none → after.pendingCtrlQueue = [])
    (on : before.clState = .authenticated → .epollin ∈ before.queueEvents) :
    Wakes (awaitSocket res after) ∧
      ((awaitSocket res after).clState = .authenticated → before.clState = .authenticated) ∧
      ((awaitSocket res after).clState = .authenticated →
        .epollout ∈ before.sockEvents → .epollout ∈ (awaitSocket res after).sockEvents) := by
  cases res with
  | none =>
    obtain ⟨state, sock, queue⟩ := sends.registered (by simp)
    rw [awaitSocket, if_neg (by simp)]
    refine ⟨fun live => ?_, fun live => state ▸ live, fun _ armed => sock.symm ▸ armed⟩
    exact ⟨fun waiting => absurd (empty rfl) waiting,
      fun unfinished => absurd (sends.finished rfl) unfinished,
      fun off => absurd (queue.symm ▸ on (state ▸ live)) off⟩
  | some failure =>
    cases failure with
    | error =>
      rw [awaitSocket, if_neg (by simp)]
      exact ⟨fun live => absurd live (sends.broken rfl), fun live => absurd live (sends.broken rfl),
        fun live => absurd live (sends.broken rfl)⟩
    | eblock =>
      obtain ⟨state, _, _⟩ := sends.registered (by simp)
      rw [awaitSocket, if_pos rfl]
      refine ⟨fun _ => ?_, fun live => state ▸ live, fun _ _ => by simp⟩
      exact ⟨fun _ => sends.blocked rfl, fun _ => by simp, fun _ => ⟨by simp, sends.blocked rfl⟩⟩

/-- `wt_handle_queued_messages` is called for a queue that was registered. -/
theorem wtHandleQueuedMessages_keeps {stdcl : StdClient} {resumeTable dequeueTable : ClientTable}
    {arrived : List MpscMsgNode} {result : OutboundResult}
    (call : wtHandleQueuedMessages stdcl resumeTable dequeueTable arrived = some result)
    (on : stdcl.clState = .authenticated → .epollin ∈ stdcl.queueEvents) :
    Wakes result.stdcl ∧
      (result.stdcl.clState = .authenticated → stdcl.clState = .authenticated) ∧
      (result.stdcl.clState = .authenticated →
        .epollout ∈ stdcl.sockEvents → .epollout ∈ result.stdcl.sockEvents) := by
  rw [wtHandleQueuedMessages] at call
  split at call
  · rename_i gone
    obtain rfl := Option.some.inj call
    exact ⟨fun live => by simp [gone] at live, id, fun _ => id⟩
  · obtain ⟨sends, empty⟩ := sendUnfinished_leaves stdcl resumeTable
    rcases finish : sendUnfinished stdcl resumeTable with ⟨res, after, notices⟩
    rw [finish] at sends empty call
    simp only at call sends empty
    split at call
    · obtain rfl := Option.some.inj call
      exact awaitSocket_wakes (sends.withUserdata _) empty on
    · obtain rfl := Option.some.inj call
      exact awaitSocket_wakes (sends.withUserdata _) empty on
    · rename_i msg pendingUserdataQueue queued
      obtain ⟨state, sock, queue⟩ := sends.registered (by simp)
      rw [← state, ← queue] at on
      rw [← state, ← sock]
      split at call
      · obtain rfl := Option.some.inj call
        have sent := sendOneMsg_leaves { after with
          pendingUserdataQueue := pendingUserdataQueue ++ arrived, tempSendStorage := some msg } msg
        refine awaitSocket_wakes (sent.since ⟨rfl, rfl, rfl⟩) (fun _ => ?_) on
        rw [sendOneMsg_pendingCtrlQueue]
        exact empty rfl
      · rw [empty rfl, List.nil_append] at call
        obtain rfl := Option.some.inj call
        have sent := sendOneMsg_leaves { after with
          pendingUserdataQueue := (pendingUserdataQueue ++ arrived).filter fun other =>
            strncmp unamesize other.subjectName msg.subjectName ≠ 0
          pendingCtrlQueue := []
          tempSendStorage := some (disconnectNotice msg.subjectName) }
          (disconnectNotice msg.subjectName)
        refine awaitSocket_wakes (sent.since ⟨rfl, rfl, rfl⟩) (fun _ => ?_) on
        rw [sendOneMsg_pendingCtrlQueue]

/-- The events of a socket that one call of `epoll_wait` reports. -/
structure SockReport where
  epollin : Bool
  epollout : Bool
  hangup : Bool
  deriving DecidableEq, Repr

/-- The loop of `wt_handle_clientevent` around `wt_handle_inbound_data`, with what other workers
enqueue between two calls, and what the last call returned. -/
inductive InboundLoop : StdClient → WtInbDataStatus → StdClient → Prop
  | last {stdcl} (env : InboundEnv)
      (leaves : (wtHandleInboundData env stdcl).exit.status ≠ .stopBorder) :
      InboundLoop stdcl (wtHandleInboundData env stdcl).exit.status
        (wtHandleInboundData env stdcl).stdcl
  | turn {stdcl status after} (env : InboundEnv)
      (again : (wtHandleInboundData env stdcl).exit.status = .stopBorder)
      (arrived : List MpscMsgNode)
      (rest : InboundLoop { (wtHandleInboundData env stdcl).stdcl with
        pendingUserdataQueue := (wtHandleInboundData env stdcl).stdcl.pendingUserdataQueue ++ arrived }
        status after) :
      InboundLoop stdcl status after

theorem InboundLoop.keeps {stdcl after : StdClient} {status : WtInbDataStatus}
    (loop : InboundLoop stdcl status after) : KeepsWakeups stdcl after := by
  induction loop with
  | last env leaves => exact .acts (wtHandleInboundData_acts env _)
  | turn env again arrived rest inductionHypothesis =>
    exact ((KeepsWakeups.acts (wtHandleInboundData_acts env _)).trans
      (.enqueue _ arrived)).trans inductionHypothesis

/-- `wt_handle_clientevent`, for a client that is in the table. -/
inductive WtHandleClientevent (report : SockReport) (stdcl : StdClient) : StdClient → Prop
  | hangup (broken : report.hangup = true) :
      WtHandleClientevent report stdcl (cleanupStdClient stdcl)
  | outbound (table : ClientTable) (whole : report.hangup = false) (out : report.epollout = true)
      (silent : report.epollin = false ∨ stdcl.clState ≠ .authenticated) :
      WtHandleClientevent report stdcl (wtHandleOutboundData stdcl table).stdcl
  | nothing (whole : report.hangup = false) (noOut : report.epollout = false)
      (silent : report.epollin = false ∨ stdcl.clState ≠ .authenticated) :
      WtHandleClientevent report stdcl stdcl
  | inbound {status after} (whole : report.hangup = false) (input : report.epollin = true)
      (live : stdcl.clState = .authenticated) (loop : InboundLoop stdcl status after)
      (last : report.epollout = false ∨ status = .dconn) :
      WtHandleClientevent report stdcl after
  | both {status after} (table : ClientTable) (whole : report.hangup = false)
      (input : report.epollin = true) (out : report.epollout = true)
      (live : stdcl.clState = .authenticated) (loop : InboundLoop stdcl status after)
      (more : status ≠ .dconn) :
      WtHandleClientevent report stdcl (wtHandleOutboundData after table).stdcl

/-! ### The loop of a worker, as one client sees it -/

/-- A client and the events of it that the last call of `epoll_wait` reported and the worker did not
come to yet. -/
structure EpollWorld where
  stdcl : StdClient
  sockReported : Option SockReport
  queueReported : Bool

/-- What may be reported of a client: events it registered for. -/
structure Reportable (stdcl : StdClient) (sock : Option SockReport) (queue : Bool) : Prop where
  epollin : ∀ report ∈ sock, report.epollin = true → .epollin ∈ stdcl.sockEvents
  epollout : ∀ report ∈ sock, report.epollout = true → .epollout ∈ stdcl.sockEvents
  queue : queue = true → .epollin ∈ stdcl.queueEvents

inductive EpollStep : EpollWorld → EpollWorld → Prop
  | wait {stdcl sock queue} (reportable : Reportable stdcl sock queue) :
      EpollStep ⟨stdcl, none, false⟩ ⟨stdcl, sock, queue⟩
  | clientEvent {stdcl report queue after} (handled : WtHandleClientevent report stdcl after) :
      EpollStep ⟨stdcl, some report, queue⟩ ⟨after, none, queue⟩
  | queueEvent {stdcl sock result} (resumeTable dequeueTable : ClientTable)
      (arrived : List MpscMsgNode)
      (call : wtHandleQueuedMessages stdcl resumeTable dequeueTable arrived = some result) :
      EpollStep ⟨stdcl, sock, true⟩ ⟨result.stdcl, sock, false⟩
  | enqueue {stdcl sock queue} (msg : MpscMsgNode) :
      EpollStep ⟨stdcl, sock, queue⟩ ⟨{ stdcl with
        pendingUserdataQueue := stdcl.pendingUserdataQueue ++ [msg] }, sock, queue⟩

/-- What happens to a client from the end of its authentication on. -/
inductive EpollRun (start : StdClient) : EpollWorld → Prop
  | start : EpollRun start ⟨start, none, false⟩
  | step {world next} (run : EpollRun start world) (step : EpollStep world next) :
      EpollRun start next

/-- What a worker keeps: besides the client, the events it still has to handle were not taken away
by the ones it handled. -/
structure EpollInvariant (world : EpollWorld) : Prop where
  wakes : Wakes world.stdcl
  sock : world.stdcl.clState = .authenticated → ∀ report ∈ world.sockReported,
    report.epollout = true → .epollout ∈ world.stdcl.sockEvents
  queue : world.stdcl.clState = .authenticated → world.queueReported = true →
    .epollin ∈ world.stdcl.queueEvents

theorem KeepsWakeups.invariant {stdcl after : StdClient} {sock : Option SockReport} {queue : Bool}
    (keeps : KeepsWakeups stdcl after) (invariant : EpollInvariant ⟨stdcl, sock, queue⟩) :
    EpollInvariant ⟨after, sock, queue⟩ where
  wakes := keeps.wakes invariant.wakes
  sock := fun live report member out =>
    keeps.sock live (invariant.sock (keeps.authenticated live) report member out)
  queue := fun live reported => keeps.queue live (invariant.queue (keeps.authenticated live) reported)

theorem EpollInvariant.outboundData {stdcl : StdClient} {report : SockReport} {queue : Bool}
    (invariant : EpollInvariant ⟨stdcl, some report, queue⟩) (out : report.epollout = true)
    (table : ClientTable) : EpollInvariant ⟨(wtHandleOutboundData stdcl table).stdcl, none, queue⟩ := by
  obtain ⟨live, on, wakes⟩ := wtHandleOutboundData_keeps stdcl table
    fun live => invariant.sock live report rfl out
  exact ⟨wakes, fun _ _ member => absurd member (by simp),
    fun still reported => on still (invariant.queue (live still) reported)⟩

theorem EpollInvariant.handled {stdcl : StdClient} {sock : Option SockReport} {queue : Bool}
    (invariant : EpollInvariant ⟨stdcl, sock, queue⟩) : EpollInvariant ⟨stdcl, none, queue⟩ :=
  ⟨invariant.wakes, fun _ _ member => absurd member (by simp), invariant.queue⟩

theorem EpollInvariant.step {world next : EpollWorld} (invariant : EpollInvariant world)
    (step : EpollStep world next) : EpollInvariant next := by
  cases step with
  | wait reportable =>
    exact ⟨invariant.wakes, fun _ report member => reportable.epollout report member,
      fun _ => reportable.queue⟩
  | clientEvent handled =>
    cases handled with
    | hangup broken => exact ((KeepsWakeups.cleanup _).invariant invariant).handled
    | outbound table whole out silent => exact invariant.outboundData out table
    | nothing whole noOut silent => exact invariant.handled
    | inbound whole input live loop last => exact (loop.keeps.invariant invariant).handled
    | both table whole input out live loop more =>
      exact (loop.keeps.invariant invariant).outboundData out table
  | queueEvent resumeTable dequeueTable arrived call =>
    obtain ⟨wakes, live, armed⟩ :=
      wtHandleQueuedMessages_keeps call fun live => invariant.queue live rfl
    exact ⟨wakes, fun still report member out =>
      armed still (invariant.sock (live still) report member out), fun _ off => absurd off (by simp)⟩
  | enqueue msg => exact (KeepsWakeups.enqueue _ [msg]).invariant invariant

/-- A session that just began, with its socket and its queue registered. -/
structure RegisteredSession (stdcl : StdClient) : Prop extends NewSession stdcl where
  sock : stdcl.sockEvents = [.epollin]
  queue : stdcl.queueEvents = [.epollin]

theorem EpollRun.invariant {start : StdClient} {world : EpollWorld}
    (session : RegisteredSession start) (run : EpollRun start world) : EpollInvariant world := by
  induction run with
  | start =>
    refine ⟨fun _ => ⟨fun waiting => absurd session.noControl waiting,
      fun unfinished => absurd session.idle unfinished, fun off => ?_⟩,
      fun _ _ member => absurd member (by simp), fun _ off => absurd off (by simp)⟩
    rw [session.queue] at off
    exact absurd (List.mem_singleton_self _) off
  | step run step inductionHypothesis => exact inductionHypothesis.step step

/-- A message that waits has a registered event: the socket brings an unfinished message and the
control messages behind it back, and the eventfd of the queue or the socket brings back the
messages of other clients. -/
structure Resumes (stdcl : StdClient) : Prop where
  control : stdcl.pendingCtrlQueue ≠ [] ∨ stdcl.tempSendStorage ≠ none →
    .epollout ∈ stdcl.sockEvents
  userdata : stdcl.pendingUserdataQueue ≠ [] →
    .epollin ∈ stdcl.queueEvents ∨ .epollout ∈ stdcl.sockEvents ∧ stdcl.tempSendStorage ≠ none

theorem NoLostWakeup.resumes {stdcl : StdClient} (armed : NoLostWakeup stdcl) : Resumes stdcl where
  control := by
    rintro (waiting | unfinished)
    · exact armed.socket (armed.control waiting)
    · exact armed.socket unfinished
  userdata := fun _ => or_iff_not_imp_left.mpr armed.queue

/-- In every run of the handlers of a client, in whatever order its worker comes to the events of
one batch, no wake-up is lost. -/
theorem no_wakeup_lost {start : StdClient} {world : EpollWorld} (session : RegisteredSession start)
    (run : EpollRun start world) (live : world.stdcl.clState = .authenticated) :
    NoLostWakeup world.stdcl ∧ Resumes world.stdcl :=
  have armed := (run.invariant session).wakes live
  ⟨armed, armed.resumes⟩

/-- A message of another client that blocks when its queue is handled. -/
theorem no_wakeup_lost_blocked_message :
    ∃ world : EpollWorld, world.stdcl.queueEvents = [] ∧
      NoLostWakeup world.stdcl ∧ Resumes world.stdcl := by
  let table : ClientTable := fun _ => some (0, .authenticated)
  let msg : MpscMsgNode := ⟨[4, 5], 0, strncpy unamesize (ofLiteral "bob")⟩
  let start := { sessionThatBlocks with
    connection := { sessionThatBlocks.connection with sendEvents := [] } }
  have queued : EpollRun start _ := .step .start (.enqueue msg)
  have reported := queued.step
    (@EpollStep.wait _ none true ⟨by simp, by simp, fun _ => by decide⟩)
  have handled := reported.step (.queueEvent table table [] rfl)
  exact ⟨_, rfl, no_wakeup_lost ⟨⟨rfl, rfl, rfl, rfl⟩, rfl, rfl⟩ handled rfl⟩

end Lwmsg
