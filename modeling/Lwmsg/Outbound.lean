/-
This file models how a worker of `server/worker.c` sends to a client: the response
to what the client sent, and the two handlers that go on with an unfinished message
and empty the queues. It proves that the bytes on the connection are whole messages,
one behind the other.

A client belongs to one worker, so its handlers do not overlap. Other workers only
append to `pending_userdata_queue`. Where they do so while a handler runs makes a
difference at one place, between the removal of a message and the flush of its
sender's others, and the handler is given what arrives there. Which events epoll
reports is left open: any handler may run at any time.
-/

import Lwmsg.Clhandle

namespace Lwmsg

open Bytes Pointers

/-! ### Messages the server makes -/

/-- A response of the server: `msg_node_create` and `lwmp_prepare_response`. -/
def responseNode (msgType : MsgType) (respCode : Nat) (text : Option Bytes) : MpscMsgNode :=
  let bodySize := match text with
    | some text => text.length + 1
    | none => 0
  let msg := msgNodeCreate none (lwmpHdrSize + bodySize) none
  { msg with buf := lwmpPrepareResponse msg.buf msgType (some (beBytes 4 respCode)) text }

/-- The text of `notify_about_disconnect`, as `snprintf` cuts it to its buffer of 128 bytes. -/
def disconnectText (subjectName : Bytes) : Bytes :=
  (ofLiteral "Sender " ++ cString subjectName ++ ofLiteral
    " has disconnected, the latest message may have been partially delivered.").take 127

/-- The message of `notify_about_disconnect`. -/
def disconnectNotice (subjectName : Bytes) : MpscMsgNode :=
  responseNode .info (respCodes .invalSubj) (some (disconnectText subjectName))

/-! ### The handlers -/

/-- `cleanup_std_client`, for a client that is in the table: it changes the state once, and epoll
forgets the client. -/
def cleanupStdClient (stdcl : StdClient) : StdClient :=
  match stdcl.clState with
  | .authenticated =>
    { stdcl with clState := .disconnected, queueEvents := [], sockEvents := [] }
  | _ => stdcl

/-- What follows the loop that sends `tss`, in `wt_serve_response` and in `send_one_msg`: the message
keeps the offset it reached, and one that was sent is freed. -/
def afterSend (stdcl : StdClient) (tss : MpscMsgNode) (outcome : SendOutcome) : StdClient :=
  let sending := { stdcl with
    connection := outcome.connection
    tempSendStorage := some { tss with bufOffset := outcome.offset } }
  match outcome.stopped with
  | some .error => cleanupStdClient sending
  | some .eblock => sending
  | none => { sending with tempSendStorage := none }

/-- `wt_serve_response`. -/
def wtServeResponse (stdcl : StdClient) (msg : MpscMsgNode) : StdClient :=
  match stdcl.tempSendStorage with
  | some _ => { stdcl with pendingCtrlQueue := stdcl.pendingCtrlQueue ++ [msg] }
  | none =>
    let outcome := sendDoWhile msg.buf stdcl.connection msg.bufOffset
    let stdcl := afterSend stdcl msg outcome
    if outcome.stopped = some .eblock then { stdcl with sockEvents := [.epollin, .epollout] }
    else stdcl

/-- `send_one_msg`, for the message in `temp_send_storage`. It answers the failure it met. -/
def sendOneMsg (stdcl : StdClient) (tss : MpscMsgNode) : Option NetFailure × StdClient :=
  let outcome := sendWhile tss.buf stdcl.connection tss.bufOffset
  (outcome.stopped, afterSend stdcl tss outcome)

/-- The loop that empties `pending_ctrl_queue`, over the messages it holds. -/
def sendCtrlQueue : List MpscMsgNode → StdClient → Option NetFailure × StdClient
  | [], stdcl => (none, stdcl)
  | msg :: pendingCtrlQueue, stdcl =>
    match sendOneMsg { stdcl with pendingCtrlQueue, tempSendStorage := some msg } msg with
    | (some res, stdcl) => (some res, stdcl)
    | (none, stdcl) => sendCtrlQueue pendingCtrlQueue stdcl

/-- What a handler left, and the notices it appended to `pending_ctrl_queue`, in order. -/
structure OutboundResult where
  stdcl : StdClient
  notices : List MpscMsgNode

/-- The notice a handler makes before it goes on with an unfinished message. -/
def resumeNotices (table : ClientTable) (tss : MpscMsgNode) : List MpscMsgNode :=
  if tss.subjectName.headD 0 ≠ 0 ∧ htableGetCond table (cString tss.subjectName) = none then
    [disconnectNotice tss.subjectName]
  else []

/-- What both handlers do first: they go on with an unfinished message, and then they empty
`pending_ctrl_queue`. -/
def sendUnfinished (stdcl : StdClient) (table : ClientTable) : Option NetFailure × OutboundResult :=
  match stdcl.tempSendStorage with
  | none =>
    let (res, stdcl) := sendCtrlQueue stdcl.pendingCtrlQueue stdcl
    (res, ⟨stdcl, []⟩)
  | some tss =>
    let notices := resumeNotices table tss
    let stdcl := { stdcl with pendingCtrlQueue := stdcl.pendingCtrlQueue ++ notices }
    match sendOneMsg stdcl tss with
    | (some res, stdcl) => (some res, ⟨stdcl, notices⟩)
    | (none, stdcl) =>
      let (res, stdcl) := sendCtrlQueue stdcl.pendingCtrlQueue stdcl
      (res, ⟨stdcl, notices⟩)

/-- `wt_handle_outbound_data`. -/
def wtHandleOutboundData (stdcl : StdClient) (table : ClientTable) : OutboundResult :=
  if stdcl.clState = .disconnected then ⟨stdcl, []⟩
  else
    match sendUnfinished stdcl table with
    | (some _, result) => result
    | (none, ⟨stdcl, notices⟩) =>
      ⟨{ stdcl with sockEvents := [.epollin], queueEvents := [.epollin] }, notices⟩

/-- What `wt_handle_queued_messages` does where a send left with `res`: a client whose socket is
full has to wait for it, and its queue is not looked at until then. -/
def awaitSocket (res : Option NetFailure) (stdcl : StdClient) : StdClient :=
  if res = some .eblock then { stdcl with sockEvents := [.epollin, .epollout], queueEvents := [] }
  else stdcl

/-- `wt_handle_queued_messages`. The tables are what the two lookups find, and `arrived` is what
other workers enqueue between `mpscq_dequeue` and `mpscq_flush_msgs_with_subject`. It fails where it
would send a message that is not there. -/
def wtHandleQueuedMessages (stdcl : StdClient) (resumeTable dequeueTable : ClientTable)
    (arrived : List MpscMsgNode) : Option OutboundResult :=
  if stdcl.clState = .disconnected then
    some ⟨{ stdcl with pendingUserdataQueue := stdcl.pendingUserdataQueue ++ arrived }, []⟩
  else
    let (res, ⟨stdcl, notices⟩) := sendUnfinished stdcl resumeTable
    match res, stdcl.pendingUserdataQueue with
    | some _, _ | none, [] =>
      let pendingUserdataQueue := stdcl.pendingUserdataQueue ++ arrived
      some ⟨awaitSocket res { stdcl with pendingUserdataQueue }, notices⟩
    | none, msg :: pendingUserdataQueue =>
      let pendingUserdataQueue := pendingUserdataQueue ++ arrived
      match htableGetCond dequeueTable (cString msg.subjectName) with
      | some _ =>
        let stdcl := { stdcl with pendingUserdataQueue, tempSendStorage := some msg }
        let (res, stdcl) := sendOneMsg stdcl msg
        some ⟨awaitSocket res stdcl, notices⟩
      | none =>
        let notice := disconnectNotice msg.subjectName
        let pendingUserdataQueue := pendingUserdataQueue.filter fun other =>
          strncmp unamesize other.subjectName msg.subjectName ≠ 0
        match stdcl.pendingCtrlQueue ++ [notice] with
        | [] => none
        | msg :: pendingCtrlQueue =>
          let stdcl := { stdcl with
            pendingUserdataQueue, pendingCtrlQueue, tempSendStorage := some msg }
          let (res, stdcl) := sendOneMsg stdcl msg
          some ⟨awaitSocket res stdcl, notices ++ [notice]⟩

/-! ### Runs of the handlers -/

/-- A message as `msg_node_create` makes it: nothing of it was sent. -/
abbrev NewMsg := { msg : MpscMsgNode // msg.bufOffset = 0 }

/-- What happens to one client after its authentication, with the messages that were generated for
`pending_ctrl_queue` and those that were enqueued on `pending_userdata_queue`. -/
inductive OutboundRun (start : StdClient) :
    List MpscMsgNode → List MpscMsgNode → StdClient → Prop
  | start : OutboundRun start [] [] start
  | serveResponse {generated enqueued stdcl} (msg : NewMsg)
      (run : OutboundRun start generated enqueued stdcl) :
      OutboundRun start (generated ++ [msg.1]) enqueued (wtServeResponse stdcl msg.1)
  | outboundData {generated enqueued stdcl} (table : ClientTable)
      (run : OutboundRun start generated enqueued stdcl) :
      OutboundRun start (generated ++ (wtHandleOutboundData stdcl table).notices) enqueued
        (wtHandleOutboundData stdcl table).stdcl
  | queuedMessages {generated enqueued stdcl result} (resumeTable dequeueTable : ClientTable)
      (arrived : List NewMsg) (run : OutboundRun start generated enqueued stdcl)
      (call : wtHandleQueuedMessages stdcl resumeTable dequeueTable (arrived.map (·.1)) = some result) :
      OutboundRun start (generated ++ result.notices) (enqueued ++ arrived.map (·.1)) result.stdcl
  | enqueue {generated enqueued stdcl} (msg : NewMsg)
      (run : OutboundRun start generated enqueued stdcl) :
      OutboundRun start generated (enqueued ++ [msg.1])
        { stdcl with pendingUserdataQueue := stdcl.pendingUserdataQueue ++ [msg.1] }
  | receive {generated enqueued stdcl} (tempRecvStorage : CurrRecvMsg) (incoming : Bytes)
      (recvEvents : List NetEvent) (run : OutboundRun start generated enqueued stdcl) :
      OutboundRun start generated enqueued
        { stdcl with
          tempRecvStorage
          connection := { stdcl.connection with incoming, recvEvents } }
  | cleanup {generated enqueued stdcl} (run : OutboundRun start generated enqueued stdcl) :
      OutboundRun start generated enqueued (cleanupStdClient stdcl)

/-! ### Whole messages, one behind the other -/

/-- The queue a message came from, or would have gone to. -/
inductive Origin
  | control
  | userdata
  deriving DecidableEq, Repr

/-- The messages whose sending was started, in this order. -/
abbrev Started := List (Origin × MpscMsgNode)

/-- The bytes of whole messages. -/
def Started.wire (started : Started) : Bytes := started.flatMap (·.2.buf)

/-- The started messages of one queue. -/
def Started.ofOrigin (started : Started) (origin : Origin) : List MpscMsgNode :=
  (started.filter (·.1 = origin)).map (·.2)

@[simp] theorem Started.wire_append (first second : Started) :
    (first ++ second).wire = first.wire ++ second.wire := List.flatMap_append

@[simp] theorem Started.wire_singleton (origin : Origin) (msg : MpscMsgNode) :
    Started.wire [(origin, msg)] = msg.buf := by
  simp [Started.wire]

@[simp] theorem Started.ofOrigin_append (first second : Started) (origin : Origin) :
    (first ++ second).ofOrigin origin = first.ofOrigin origin ++ second.ofOrigin origin := by
  simp [Started.ofOrigin]

@[simp] theorem Started.ofOrigin_singleton (origin queue : Origin) (msg : MpscMsgNode) :
    Started.ofOrigin [(origin, msg)] queue = if origin = queue then [msg] else [] := by
  by_cases same : origin = queue <;> simp [Started.ofOrigin, same]

/-- The bytes a connection accepted behind `before` are the started messages, whole but for the
last one, which is the one in `temp_send_storage` if there is one. -/
def SentInWhole (before : Bytes) (stdcl : StdClient) (started : Started) : Prop :=
  match stdcl.tempSendStorage with
  | none => stdcl.connection.accepted = before ++ started.wire
  | some tss =>
    ∃ (earlier : Started) (origin : Origin),
      started = earlier ++ [(origin, { tss with bufOffset := 0 })] ∧
      tss.bufOffset ≤ tss.buf.length ∧
      stdcl.connection.accepted = before ++ earlier.wire ++ tss.buf.take tss.bufOffset

/-- What the handlers keep, also in the middle: every message that was generated is started or
waits, in this order, and so is every one that was enqueued and kept, which is not flushed. -/
structure Framed (before : Bytes) (generated kept : List MpscMsgNode) (stdcl : StdClient)
    (started : Started) : Prop where
  sent : SentInWhole before stdcl started
  control : started.ofOrigin .control ++ stdcl.pendingCtrlQueue = generated
  userdata : started.ofOrigin .userdata ++ stdcl.pendingUserdataQueue = kept
  newControl : ∀ msg ∈ stdcl.pendingCtrlQueue, msg.bufOffset = 0
  newUserdata : ∀ msg ∈ stdcl.pendingUserdataQueue, msg.bufOffset = 0

/-- A client without an unfinished message has no control message waiting. -/
def Settled (stdcl : StdClient) : Prop :=
  stdcl.tempSendStorage = none → stdcl.pendingCtrlQueue = []

section Handlers

variable {before : Bytes} {generated kept : List MpscMsgNode} {stdcl : StdClient}
  {started : Started}

@[simp] theorem cleanupStdClient_connection (stdcl : StdClient) :
    (cleanupStdClient stdcl).connection = stdcl.connection := by
  rw [cleanupStdClient]
  split <;> rfl

@[simp] theorem cleanupStdClient_tempSendStorage (stdcl : StdClient) :
    (cleanupStdClient stdcl).tempSendStorage = stdcl.tempSendStorage := by
  rw [cleanupStdClient]
  split <;> rfl

@[simp] theorem cleanupStdClient_pendingCtrlQueue (stdcl : StdClient) :
    (cleanupStdClient stdcl).pendingCtrlQueue = stdcl.pendingCtrlQueue := by
  rw [cleanupStdClient]
  split <;> rfl

@[simp] theorem cleanupStdClient_pendingUserdataQueue (stdcl : StdClient) :
    (cleanupStdClient stdcl).pendingUserdataQueue = stdcl.pendingUserdataQueue := by
  rw [cleanupStdClient]
  split <;> rfl

theorem Framed.cleanup (framed : Framed before generated kept stdcl started) :
    Framed before generated kept (cleanupStdClient stdcl) started where
  sent := by
    rw [SentInWhole, cleanupStdClient_tempSendStorage, cleanupStdClient_connection]
    exact framed.sent
  control := by simpa using framed.control
  userdata := by simpa using framed.userdata
  newControl := by simpa using framed.newControl
  newUserdata := by simpa using framed.newUserdata

/-- What a client registered for makes no difference. -/
theorem Framed.withEvents (framed : Framed before generated kept stdcl started)
    (sockEvents queueEvents : List EpollEvent) :
    Framed before generated kept { stdcl with sockEvents, queueEvents } started :=
  ⟨framed.sent, framed.control, framed.userdata, framed.newControl, framed.newUserdata⟩

theorem awaitSocket_eq (res : Option NetFailure) (stdcl : StdClient) :
    ∃ sockEvents queueEvents, awaitSocket res stdcl = { stdcl with sockEvents, queueEvents } := by
  rw [awaitSocket]
  split
  · exact ⟨_, _, rfl⟩
  · exact ⟨stdcl.sockEvents, stdcl.queueEvents, rfl⟩

theorem Framed.awaitSocket (framed : Framed before generated kept stdcl started)
    (res : Option NetFailure) :
    Framed before generated kept (awaitSocket res stdcl) started := by
  obtain ⟨sockEvents, queueEvents, equal⟩ := awaitSocket_eq res stdcl
  rw [equal]
  exact framed.withEvents sockEvents queueEvents

theorem Settled.awaitSocket (settled : Settled stdcl) (res : Option NetFailure) :
    Settled (awaitSocket res stdcl) := by
  obtain ⟨sockEvents, queueEvents, equal⟩ := awaitSocket_eq res stdcl
  rw [equal]
  exact settled

/-- A new control message waits behind the others. -/
theorem Framed.generate (framed : Framed before generated kept stdcl started)
    (msgs : List MpscMsgNode) (new : ∀ msg ∈ msgs, msg.bufOffset = 0) :
    Framed before (generated ++ msgs) kept
      { stdcl with pendingCtrlQueue := stdcl.pendingCtrlQueue ++ msgs } started where
  sent := framed.sent
  control := by rw [← framed.control, List.append_assoc]
  userdata := framed.userdata
  newControl := by
    intro msg member
    rcases List.mem_append.mp member with queued | made
    · exact framed.newControl msg queued
    · exact new msg made
  newUserdata := framed.newUserdata

/-- So does a message of another client. -/
theorem Framed.enqueue (framed : Framed before generated kept stdcl started)
    (msgs : List MpscMsgNode) (new : ∀ msg ∈ msgs, msg.bufOffset = 0) :
    Framed before generated (kept ++ msgs)
      { stdcl with pendingUserdataQueue := stdcl.pendingUserdataQueue ++ msgs } started where
  sent := framed.sent
  control := framed.control
  userdata := by rw [← List.append_assoc, framed.userdata]
  newControl := framed.newControl
  newUserdata := by
    intro msg member
    rcases List.mem_append.mp member with queued | made
    · exact framed.newUserdata msg queued
    · exact new msg made

/-- Where the queue of the others loses messages, it keeps what waits of them. -/
theorem Framed.discard {pendingUserdataQueue : List MpscMsgNode}
    (framed : Framed before generated kept stdcl started)
    (fewer : pendingUserdataQueue ⊆ stdcl.pendingUserdataQueue) :
    Framed before generated (started.ofOrigin .userdata ++ pendingUserdataQueue)
      { stdcl with pendingUserdataQueue } started where
  sent := framed.sent
  control := framed.control
  userdata := rfl
  newControl := framed.newControl
  newUserdata := fun msg member => framed.newUserdata msg (fewer member)

/-- Where nothing is unfinished, the bytes sent end with a whole message. -/
theorem Framed.sent_whole (framed : Framed before generated kept stdcl started)
    (idle : stdcl.tempSendStorage = none) :
    stdcl.connection.accepted = before ++ started.wire := by
  have sent := framed.sent
  rw [SentInWhole, idle] at sent
  exact sent

/-- The first control message that waits is started where nothing is unfinished. -/
theorem Framed.startControl {msg : MpscMsgNode} {pendingCtrlQueue : List MpscMsgNode}
    (framed : Framed before generated kept stdcl started)
    (idle : stdcl.tempSendStorage = none)
    (queue : stdcl.pendingCtrlQueue = msg :: pendingCtrlQueue) :
    Framed before generated kept
      { stdcl with pendingCtrlQueue, tempSendStorage := some msg }
      (started ++ [(.control, msg)]) := by
  have new : msg.bufOffset = 0 := framed.newControl msg (by rw [queue]; exact List.mem_cons_self)
  have same : { msg with bufOffset := 0 } = msg := by rw [← new]
  refine ⟨⟨started, .control, by rw [same], by omega, ?_⟩, ?_, ?_, ?_, framed.newUserdata⟩
  · rw [new, List.take_zero, List.append_nil]
    exact framed.sent_whole idle
  · rw [← framed.control, queue]
    simp
  · simpa using framed.userdata
  · exact fun other member => framed.newControl other (by
      rw [queue]
      exact List.mem_cons_of_mem msg member)

/-- The same of the first message of another client. -/
theorem Framed.startUserdata {msg : MpscMsgNode} {pendingUserdataQueue : List MpscMsgNode}
    (framed : Framed before generated kept stdcl started)
    (idle : stdcl.tempSendStorage = none)
    (queue : stdcl.pendingUserdataQueue = msg :: pendingUserdataQueue) :
    Framed before generated kept
      { stdcl with pendingUserdataQueue, tempSendStorage := some msg }
      (started ++ [(.userdata, msg)]) := by
  have new : msg.bufOffset = 0 := framed.newUserdata msg (by rw [queue]; exact List.mem_cons_self)
  have same : { msg with bufOffset := 0 } = msg := by rw [← new]
  refine ⟨⟨started, .userdata, by rw [same], by omega, ?_⟩, ?_, ?_, framed.newControl, ?_⟩
  · rw [new, List.take_zero, List.append_nil]
    exact framed.sent_whole idle
  · simpa using framed.control
  · rw [← framed.userdata, queue]
    simp
  · exact fun other member => framed.newUserdata other (by
      rw [queue]
      exact List.mem_cons_of_mem msg member)

/-- Sending goes on where the message in `temp_send_storage` stopped. -/
theorem Framed.afterSend {tss : MpscMsgNode} {outcome : SendOutcome}
    (framed : Framed before generated kept stdcl started)
    (unfinished : stdcl.tempSendStorage = some tss)
    (sent : Sent tss.buf stdcl.connection tss.bufOffset outcome) :
    Framed before generated kept (afterSend stdcl tss outcome) started := by
  obtain ⟨earlier, origin, last, within, accepted⟩ : ∃ earlier origin,
      started = earlier ++ [(origin, { tss with bufOffset := 0 })] ∧
      tss.bufOffset ≤ tss.buf.length ∧
      stdcl.connection.accepted = before ++ Started.wire earlier ++ tss.buf.take tss.bufOffset := by
    have sent := framed.sent
    rw [SentInWhole, unfinished] at sent
    exact sent
  have later := sent.later
  have reached : outcome.connection.accepted =
      before ++ Started.wire earlier ++ tss.buf.take outcome.offset := by
    rw [sent.accepts.accepted, accepted, List.append_assoc, ← List.take_add]
    congr 2
    omega
  have sending : Framed before generated kept
      { stdcl with
        connection := outcome.connection
        tempSendStorage := some { tss with bufOffset := outcome.offset } } started :=
    ⟨⟨earlier, origin, last, sent.within, reached⟩, framed.control, framed.userdata,
      framed.newControl, framed.newUserdata⟩
  rw [Lwmsg.afterSend]
  cases stopped : outcome.stopped with
  | some failure =>
    cases failure with
    | error => exact sending.cleanup
    | eblock => exact sending
  | none =>
    refine ⟨?_, framed.control, framed.userdata, framed.newControl, framed.newUserdata⟩
    change outcome.connection.accepted = before ++ Started.wire started
    rw [reached, sent.complete stopped, List.take_length, last, Started.wire_append,
      Started.wire_singleton, List.append_assoc]

theorem afterSend_tempSendStorage (stdcl : StdClient) (tss : MpscMsgNode) (outcome : SendOutcome) :
    (Lwmsg.afterSend stdcl tss outcome).tempSendStorage = none ↔ outcome.stopped = none := by
  rw [Lwmsg.afterSend]
  cases outcome.stopped with
  | none => simp
  | some failure => cases failure <;> simp

theorem responseNode_bufOffset (msgType : MsgType) (respCode : Nat) (text : Option Bytes) :
    (responseNode msgType respCode text).bufOffset = 0 := rfl

theorem resumeNotices_new (table : ClientTable) (tss : MpscMsgNode) :
    ∀ msg ∈ resumeNotices table tss, msg.bufOffset = 0 := by
  intro msg member
  rw [resumeNotices] at member
  split at member
  · rw [List.mem_singleton.mp member, disconnectNotice, responseNode_bufOffset]
  · cases member

/-- How a handler leaves a client whose sends ended with `res`: all control messages are sent, or
one message is unfinished. -/
structure AfterSends (before : Bytes) (generated kept : List MpscMsgNode)
    (res : Option NetFailure) (stdcl : StdClient) : Prop where
  framed : ∃ started, Framed before generated kept stdcl started
  finished : res = none → stdcl.tempSendStorage = none ∧ stdcl.pendingCtrlQueue = []
  unfinished : res ≠ none → stdcl.tempSendStorage ≠ none

theorem AfterSends.settled {res : Option NetFailure}
    (sends : AfterSends before generated kept res stdcl) : Settled stdcl := by
  intro idle
  cases res with
  | none => exact (sends.finished rfl).2
  | some failure => exact absurd idle (sends.unfinished (by simp))

theorem wtServeResponse_idle (idle : stdcl.tempSendStorage = none) (msg : MpscMsgNode) :
    ∃ sockEvents, wtServeResponse stdcl msg =
      { Lwmsg.afterSend stdcl msg (sendDoWhile msg.buf stdcl.connection msg.bufOffset) with
        sockEvents } := by
  rw [wtServeResponse, idle]
  simp only
  split
  · exact ⟨_, rfl⟩
  · exact ⟨(Lwmsg.afterSend stdcl msg _).sockEvents, rfl⟩

/-- A response is sent at once, or waits behind the unfinished message. -/
theorem Framed.serveResponse (framed : Framed before generated kept stdcl started)
    (settled : Settled stdcl) (msg : NewMsg) :
    (∃ started, Framed before (generated ++ [msg.1]) kept (wtServeResponse stdcl msg.1) started) ∧
      Settled (wtServeResponse stdcl msg.1) := by
  obtain ⟨msg, new⟩ := msg
  have generate := framed.generate [msg] (by simpa using new)
  cases idle : stdcl.tempSendStorage with
  | some tss =>
    have served : wtServeResponse stdcl msg =
        { stdcl with pendingCtrlQueue := stdcl.pendingCtrlQueue ++ [msg] } := by
      rw [wtServeResponse, idle]
    rw [served]
    exact ⟨⟨started, generate⟩, fun empty => by simp [idle] at empty⟩
  | none =>
    have empty : stdcl.pendingCtrlQueue = [] := settled idle
    have begin := @Framed.startControl _ _ _ _ _ msg [] generate idle (by rw [empty]; rfl)
    have sent := sendDoWhile_sent msg.buf stdcl.connection msg.bufOffset (by omega)
    obtain ⟨sockEvents, served⟩ := wtServeResponse_idle idle msg
    have after : Lwmsg.afterSend stdcl msg (sendDoWhile msg.buf stdcl.connection msg.bufOffset) =
        Lwmsg.afterSend { stdcl with pendingCtrlQueue := [], tempSendStorage := some msg } msg
          (sendDoWhile msg.buf stdcl.connection msg.bufOffset) := by
      rw [← empty]
      rfl
    have framed := begin.afterSend rfl sent
    rw [served, after]
    refine ⟨⟨_, framed.withEvents sockEvents _⟩, fun _ => ?_⟩
    show (Lwmsg.afterSend _ msg _).pendingCtrlQueue = []
    rw [Lwmsg.afterSend]
    cases (sendDoWhile msg.buf stdcl.connection msg.bufOffset).stopped with
    | none => rfl
    | some failure => cases failure <;> simp

/-- One message in `temp_send_storage` is sent. -/
theorem Framed.sendOneMsg {tss : MpscMsgNode}
    (framed : Framed before generated kept stdcl started)
    (unfinished : stdcl.tempSendStorage = some tss) :
    Framed before generated kept (sendOneMsg stdcl tss).2 started := by
  have within : tss.bufOffset ≤ tss.buf.length := by
    have sent := framed.sent
    rw [SentInWhole, unfinished] at sent
    obtain ⟨_, _, _, within, _⟩ := sent
    exact within
  exact framed.afterSend unfinished (sendWhile_sent _ _ _ within)

theorem sendOneMsg_tempSendStorage (stdcl : StdClient) (tss : MpscMsgNode) :
    (Lwmsg.sendOneMsg stdcl tss).2.tempSendStorage = none ↔ (Lwmsg.sendOneMsg stdcl tss).1 = none :=
  afterSend_tempSendStorage _ _ _

theorem sendOneMsg_pendingCtrlQueue (stdcl : StdClient) (tss : MpscMsgNode) :
    (Lwmsg.sendOneMsg stdcl tss).2.pendingCtrlQueue = stdcl.pendingCtrlQueue := by
  rw [Lwmsg.sendOneMsg, Lwmsg.afterSend]
  cases (sendWhile tss.buf stdcl.connection tss.bufOffset).stopped with
  | none => rfl
  | some failure => cases failure <;> simp

/-- The loop over `pending_ctrl_queue` sends its messages in order until one is left unfinished. -/
theorem Framed.sendCtrlQueue {pendingCtrlQueue : List MpscMsgNode}
    (framed : Framed before generated kept stdcl started)
    (idle : stdcl.tempSendStorage = none) (queue : stdcl.pendingCtrlQueue = pendingCtrlQueue) :
    AfterSends before generated kept (sendCtrlQueue pendingCtrlQueue stdcl).1
      (sendCtrlQueue pendingCtrlQueue stdcl).2 := by
  induction pendingCtrlQueue generalizing stdcl started with
  | nil => exact ⟨⟨started, framed⟩, fun _ => ⟨idle, queue⟩, fun failed => absurd rfl failed⟩
  | cons msg pendingCtrlQueue inductionHypothesis =>
    have sends := (framed.startControl idle queue).sendOneMsg rfl
    rw [Lwmsg.sendCtrlQueue]
    rcases call : Lwmsg.sendOneMsg
      { stdcl with pendingCtrlQueue, tempSendStorage := some msg } msg with ⟨res, after⟩
    have storage := sendOneMsg_tempSendStorage
      { stdcl with pendingCtrlQueue, tempSendStorage := some msg } msg
    have rest := sendOneMsg_pendingCtrlQueue
      { stdcl with pendingCtrlQueue, tempSendStorage := some msg } msg
    rw [call] at sends storage rest
    cases res with
    | some failure => exact ⟨⟨_, sends⟩, by simp, fun _ => by simp [storage]⟩
    | none => exact inductionHypothesis sends (storage.mpr rfl) rest

theorem sendOneMsg_pendingUserdataQueue (stdcl : StdClient) (tss : MpscMsgNode) :
    (Lwmsg.sendOneMsg stdcl tss).2.pendingUserdataQueue = stdcl.pendingUserdataQueue := by
  rw [Lwmsg.sendOneMsg, Lwmsg.afterSend]
  cases (sendWhile tss.buf stdcl.connection tss.bufOffset).stopped with
  | none => rfl
  | some failure => cases failure <;> simp

theorem sendCtrlQueue_pendingUserdataQueue (pendingCtrlQueue : List MpscMsgNode)
    (stdcl : StdClient) :
    (Lwmsg.sendCtrlQueue pendingCtrlQueue stdcl).2.pendingUserdataQueue =
      stdcl.pendingUserdataQueue := by
  induction pendingCtrlQueue generalizing stdcl with
  | nil => rfl
  | cons msg pendingCtrlQueue inductionHypothesis =>
    have same := sendOneMsg_pendingUserdataQueue
      { stdcl with pendingCtrlQueue, tempSendStorage := some msg } msg
    rw [Lwmsg.sendCtrlQueue]
    split
    · rename_i call
      rw [call] at same
      exact same
    · rename_i call
      rw [call] at same
      rw [inductionHypothesis]
      exact same

/-- Neither of them looks at the messages of the others before it is done with its own. -/
theorem sendUnfinished_pendingUserdataQueue (stdcl : StdClient) (table : ClientTable) :
    (Lwmsg.sendUnfinished stdcl table).2.stdcl.pendingUserdataQueue =
      stdcl.pendingUserdataQueue := by
  rw [Lwmsg.sendUnfinished]
  split
  · exact sendCtrlQueue_pendingUserdataQueue _ _
  · rename_i tss unfinished
    have same := sendOneMsg_pendingUserdataQueue
      { stdcl with pendingCtrlQueue := stdcl.pendingCtrlQueue ++ resumeNotices table tss } tss
    simp only
    split
    · rename_i call
      rw [call] at same
      exact same
    · rename_i call
      rw [call] at same
      rw [sendCtrlQueue_pendingUserdataQueue]
      exact same

/-- What both handlers do first. -/
theorem Framed.sendUnfinished (framed : Framed before generated kept stdcl started)
    (table : ClientTable) :
    AfterSends before (generated ++ (sendUnfinished stdcl table).2.notices) kept
      (sendUnfinished stdcl table).1 (sendUnfinished stdcl table).2.stdcl := by
  rw [Lwmsg.sendUnfinished]
  split
  · rename_i unfinished
    simp only [List.append_nil]
    exact framed.sendCtrlQueue unfinished rfl
  · rename_i tss unfinished
    have noticed := framed.generate (resumeNotices table tss) (resumeNotices_new table tss)
    have sends := noticed.sendOneMsg unfinished
    simp only
    rcases call : Lwmsg.sendOneMsg
      { stdcl with pendingCtrlQueue := stdcl.pendingCtrlQueue ++ resumeNotices table tss } tss with
      ⟨res, after⟩
    have storage := sendOneMsg_tempSendStorage
      { stdcl with pendingCtrlQueue := stdcl.pendingCtrlQueue ++ resumeNotices table tss } tss
    rw [call] at sends storage
    cases res with
    | some failure => exact ⟨⟨_, sends⟩, by simp, fun _ => by simp [storage]⟩
    | none => exact sends.sendCtrlQueue (storage.mpr rfl) rfl

theorem Framed.outboundData (framed : Framed before generated kept stdcl started)
    (settled : Settled stdcl) (table : ClientTable) :
    (∃ started, Framed before (generated ++ (wtHandleOutboundData stdcl table).notices) kept
      (wtHandleOutboundData stdcl table).stdcl started) ∧
      Settled (wtHandleOutboundData stdcl table).stdcl := by
  rw [wtHandleOutboundData]
  split
  · simp only [List.append_nil]
    exact ⟨⟨started, framed⟩, settled⟩
  · have sends := framed.sendUnfinished table
    rcases finish : Lwmsg.sendUnfinished stdcl table with ⟨res, after, notices⟩
    rw [finish] at sends
    obtain ⟨started, framed⟩ := sends.framed
    cases res with
    | some failure => exact ⟨⟨started, framed⟩, sends.settled⟩
    | none => exact ⟨⟨started, framed.withEvents _ _⟩, fun _ => (sends.finished rfl).2⟩

/-- What `wt_handle_queued_messages` keeps of the messages that wait or were started: all of them,
or all but those of a sender that the lookup did not find. -/
inductive Flushed (stdcl : StdClient) (dequeueTable : ClientTable) :
    List MpscMsgNode → List MpscMsgNode → Prop
  | nothing {queued} : Flushed stdcl dequeueTable queued queued
  | sender {earlier arrived pendingUserdataQueue msg}
      (queue : stdcl.pendingUserdataQueue = msg :: pendingUserdataQueue)
      (missing : htableGetCond dequeueTable (cString msg.subjectName) = none) :
      Flushed stdcl dequeueTable (earlier ++ msg :: (pendingUserdataQueue ++ arrived))
        (earlier ++ (pendingUserdataQueue ++ arrived).filter fun other =>
          strncmp unamesize other.subjectName msg.subjectName ≠ 0)

theorem Flushed.sublist {dequeueTable : ClientTable} {queued : List MpscMsgNode}
    (flushed : Flushed stdcl dequeueTable queued kept) : kept.Sublist queued := by
  cases flushed with
  | nothing => exact List.Sublist.refl _
  | sender queue missing =>
    exact (List.filter_sublist.trans (List.sublist_cons_self _ _)).append_left _

theorem Framed.queuedMessages {result : OutboundResult}
    (framed : Framed before generated kept stdcl started) (settled : Settled stdcl)
    (resumeTable dequeueTable : ClientTable) (arrived : List NewMsg)
    (call : wtHandleQueuedMessages stdcl resumeTable dequeueTable (arrived.map (·.1)) = some result) :
    (∃ started later, Flushed stdcl dequeueTable (kept ++ arrived.map (·.1)) later ∧
      Framed before (generated ++ result.notices) later result.stdcl started) ∧
      Settled result.stdcl := by
  have new : ∀ msg ∈ arrived.map (·.1), msg.bufOffset = 0 := by
    intro msg member
    obtain ⟨made, _, rfl⟩ := List.mem_map.mp member
    exact made.2
  rw [wtHandleQueuedMessages] at call
  split at call
  · obtain rfl := Option.some.inj call
    simp only [List.append_nil]
    exact ⟨⟨started, _, .nothing, framed.enqueue _ new⟩, settled⟩
  · have sends := framed.sendUnfinished resumeTable
    have waiting := sendUnfinished_pendingUserdataQueue stdcl resumeTable
    rcases finish : Lwmsg.sendUnfinished stdcl resumeTable with ⟨res, after, notices⟩
    rw [finish] at sends call waiting
    obtain ⟨started, framed⟩ := sends.framed
    have enqueue := framed.enqueue _ new
    have settled : Settled { after with
        pendingUserdataQueue := after.pendingUserdataQueue ++ arrived.map (·.1) } := sends.settled
    simp only at call enqueue settled waiting
    split at call
    · obtain rfl := Option.some.inj call
      exact ⟨⟨started, _, .nothing, enqueue.awaitSocket _⟩, Settled.awaitSocket settled _⟩
    · obtain rfl := Option.some.inj call
      exact ⟨⟨started, _, .nothing, enqueue.awaitSocket none⟩, Settled.awaitSocket settled none⟩
    · rename_i msg pendingUserdataQueue queue
      obtain ⟨idle, empty⟩ := sends.finished rfl
      simp only at idle empty queue
      have front : after.pendingUserdataQueue ++ arrived.map (·.1) =
          msg :: (pendingUserdataQueue ++ arrived.map (·.1)) := by
        rw [queue, List.cons_append]
      split at call
      · obtain rfl := Option.some.inj call
        have sent := (enqueue.startUserdata idle front).sendOneMsg rfl
        refine ⟨⟨_, _, .nothing, sent.awaitSocket _⟩, Settled.awaitSocket (fun _ => ?_) _⟩
        rw [sendOneMsg_pendingCtrlQueue]
        exact empty
      · rename_i missing
        have fewer : (pendingUserdataQueue ++ arrived.map (·.1)).filter (fun other =>
            strncmp unamesize other.subjectName msg.subjectName ≠ 0) ⊆
              after.pendingUserdataQueue ++ arrived.map (·.1) := by
          rw [front]
          exact (List.filter_sublist.trans (List.sublist_cons_self _ _)).subset
        have noticed := (enqueue.discard fewer).generate [disconnectNotice msg.subjectName]
          (by simp [disconnectNotice, responseNode_bufOffset])
        simp only [empty, List.nil_append] at call noticed
        obtain rfl := Option.some.inj call
        have sent := (noticed.startControl idle rfl).sendOneMsg rfl
        have flushed : Flushed stdcl dequeueTable (kept ++ arrived.map (·.1))
            (started.ofOrigin .userdata ++ (pendingUserdataQueue ++ arrived.map (·.1)).filter
              fun other => strncmp unamesize other.subjectName msg.subjectName ≠ 0) := by
          rw [← enqueue.userdata]
          simp only [front]
          exact .sender (waiting.symm.trans queue) missing
        refine ⟨⟨started ++ [(.control, disconnectNotice msg.subjectName)], _, flushed, ?_⟩,
          Settled.awaitSocket (fun _ => ?_) _⟩
        · rw [List.append_assoc] at sent
          exact sent.awaitSocket _
        · rw [sendOneMsg_pendingCtrlQueue]

end Handlers

/-- The handler of the queue always finds the message it sends. -/
theorem wtHandleQueuedMessages_isSome (stdcl : StdClient) (resumeTable dequeueTable : ClientTable)
    (arrived : List MpscMsgNode) :
    (wtHandleQueuedMessages stdcl resumeTable dequeueTable arrived).isSome := by
  rw [wtHandleQueuedMessages]
  split
  · rfl
  · rcases sendUnfinished stdcl resumeTable with ⟨res, after, notices⟩
    simp only
    split
    · rfl
    · rfl
    · split
      · rfl
      · split
        · rename_i queue
          simp at queue
        · rfl

/-- A client whose session just began: nothing is being sent and nothing waits. -/
structure NewSession (stdcl : StdClient) : Prop where
  authenticated : stdcl.clState = .authenticated
  idle : stdcl.tempSendStorage = none
  noControl : stdcl.pendingCtrlQueue = []
  noUserdata : stdcl.pendingUserdataQueue = []

/-- What every run keeps. -/
theorem OutboundRun.framed {start stdcl : StdClient} {generated enqueued : List MpscMsgNode}
    (session : NewSession start) (run : OutboundRun start generated enqueued stdcl) :
    (∃ started kept, kept.Sublist enqueued ∧
      Framed start.connection.accepted generated kept stdcl started) ∧ Settled stdcl := by
  induction run with
  | start =>
    refine ⟨⟨[], [], List.Sublist.refl _, ?_, ?_, ?_, ?_, ?_⟩, fun _ => session.noControl⟩
    · rw [SentInWhole, session.idle]
      simp [Started.wire]
    · simp [Started.ofOrigin, session.noControl]
    · simp [Started.ofOrigin, session.noUserdata]
    · simp [session.noControl]
    · simp [session.noUserdata]
  | serveResponse msg run inductionHypothesis =>
    obtain ⟨⟨started, kept, sublist, framed⟩, settled⟩ := inductionHypothesis
    obtain ⟨⟨started, framed⟩, settled⟩ := framed.serveResponse settled msg
    exact ⟨⟨started, kept, sublist, framed⟩, settled⟩
  | outboundData table run inductionHypothesis =>
    obtain ⟨⟨started, kept, sublist, framed⟩, settled⟩ := inductionHypothesis
    obtain ⟨⟨started, framed⟩, settled⟩ := framed.outboundData settled table
    exact ⟨⟨started, kept, sublist, framed⟩, settled⟩
  | queuedMessages resumeTable dequeueTable arrived run call inductionHypothesis =>
    obtain ⟨⟨started, kept, sublist, framed⟩, settled⟩ := inductionHypothesis
    obtain ⟨⟨started, later, flushed, framed⟩, settled⟩ :=
      framed.queuedMessages settled resumeTable dequeueTable arrived call
    exact ⟨⟨started, later, flushed.sublist.trans (sublist.append_right _), framed⟩, settled⟩
  | enqueue msg run inductionHypothesis =>
    obtain ⟨⟨started, kept, sublist, framed⟩, settled⟩ := inductionHypothesis
    exact ⟨⟨started, _, sublist.append_right _, framed.enqueue [msg.1] (by simpa using msg.2)⟩,
      settled⟩
  | receive tempRecvStorage incoming recvEvents run inductionHypothesis =>
    obtain ⟨⟨started, kept, sublist, framed⟩, settled⟩ := inductionHypothesis
    exact ⟨⟨started, kept, sublist, framed.sent, framed.control, framed.userdata,
      framed.newControl, framed.newUserdata⟩, settled⟩
  | cleanup run inductionHypothesis =>
    obtain ⟨⟨started, kept, sublist, framed⟩, settled⟩ := inductionHypothesis
    exact ⟨⟨started, kept, sublist, framed.cleanup⟩,
      fun idle => by simpa using settled (by simpa using idle)⟩

/-- What is claimed of the bytes a connection took since the session began. They are the started
messages, all of them whole but the last one, of which they may hold a part. A message of
`pending_ctrl_queue` is started once and in the order in which it was generated, and waits until
then; one of `pending_userdata_queue` is started at most once and in the order in which it was
enqueued. -/
structure OutboundFraming (start stdcl : StdClient) (generated enqueued : List MpscMsgNode)
    (started : Started) : Prop where
  whole : SentInWhole start.connection.accepted stdcl started
  isPrefix : stdcl.connection.accepted <+: start.connection.accepted ++ started.wire
  control : started.ofOrigin .control ++ stdcl.pendingCtrlQueue = generated
  userdata : (started.ofOrigin .userdata ++ stdcl.pendingUserdataQueue).Sublist enqueued

theorem SentInWhole.isPrefix {before : Bytes} {stdcl : StdClient} {started : Started}
    (sent : SentInWhole before stdcl started) :
    stdcl.connection.accepted <+: before ++ started.wire := by
  rw [SentInWhole] at sent
  split at sent
  · exact sent ▸ List.prefix_rfl
  · obtain ⟨earlier, origin, rfl, within, accepted⟩ := sent
    rw [accepted, Started.wire_append, Started.wire_singleton, ← List.append_assoc]
    exact (List.prefix_append_right_inj _).mpr (List.take_prefix _ _)

/-- The messages that were started account for what the connection took and for both queues. -/
theorem OutboundRun.framing {start stdcl : StdClient} {generated enqueued : List MpscMsgNode}
    (session : NewSession start) (run : OutboundRun start generated enqueued stdcl) :
    ∃ started, OutboundFraming start stdcl generated enqueued started := by
  obtain ⟨⟨started, kept, sublist, framed⟩, _⟩ := run.framed session
  refine ⟨started, framed.sent, framed.sent.isPrefix, framed.control, ?_⟩
  rw [framed.userdata]
  exact sublist

/-- In every run of the handlers of a client, with other workers enqueueing at any time and sends
that move any part of what they are given, block or fail, the bytes on the connection are whole
messages one behind the other. -/
theorem outbound_sends_whole_messages {start stdcl : StdClient}
    {generated enqueued : List MpscMsgNode} (session : NewSession start)
    (run : OutboundRun start generated enqueued stdcl) :
    ∃ started, OutboundFraming start stdcl generated enqueued started :=
  run.framing session

/-- A session whose connection takes two bytes, blocks once, and then takes what it is given. -/
def sessionThatBlocks : StdClient :=
  { createStdClient [127, 0, 0, 1] {
      incoming := []
      recvEvents := []
      recvAfter := .eblock
      accepted := []
      sendEvents := [.upTo 1, .failure .eblock, .upTo 0, .upTo 9]
      sendAfter := .eblock } with
    clState := .authenticated
    sockEvents := [.epollin]
    queueEvents := [.epollin] }

/-- A response that is sent in two parts, and a message of another client behind it. -/
theorem outbound_sends_whole_messages_response_then_message :
    ∃ stdcl started, stdcl.connection.accepted = [1, 2, 3, 4, 5] ∧
      OutboundFraming sessionThatBlocks stdcl [⟨[1, 2, 3], 0, List.replicate unamesize 0⟩]
        [⟨[4, 5], 0, strncpy unamesize (ofLiteral "bob")⟩] started := by
  let table : ClientTable := fun _ => some (0, .authenticated)
  have blocked := @OutboundRun.start sessionThatBlocks
    |>.serveResponse ⟨⟨[1, 2, 3], 0, List.replicate unamesize 0⟩, rfl⟩
    |>.enqueue ⟨⟨[4, 5], 0, strncpy unamesize (ofLiteral "bob")⟩, rfl⟩
  have sent := blocked.queuedMessages table table [] rfl
  obtain ⟨started, framing⟩ := outbound_sends_whole_messages ⟨rfl, rfl, rfl, rfl⟩ sent
  exact ⟨_, started, by decide, framing⟩

/-! ### What a session keeps -/

/-- A handler leaves the name of its client. It leaves the state too, or cleans the client up. -/
structure KeepsName (before after : StdClient) : Prop where
  username : after.username = before.username
  keySize : after.keySize = before.keySize
  clState : after.clState = before.clState ∨
    before.clState = .authenticated ∧ after.clState = .disconnected

/-- A client that is there behind a handler was there before. -/
theorem KeepsName.before {before after : StdClient} (keeps : KeepsName before after)
    (live : after.clState = .authenticated) : before.clState = .authenticated := by
  rcases keeps.clState with same | ⟨_, gone⟩
  · exact same.symm.trans live
  · exact absurd (live.symm.trans gone) (by decide)

/-- And it enqueues nothing for its client. -/
structure KeepsSession (before after : StdClient) : Prop extends KeepsName before after where
  queue : after.pendingUserdataQueue ⊆ before.pendingUserdataQueue

namespace KeepsSession

variable {before middle after stdcl : StdClient}

theorem refl (stdcl : StdClient) : KeepsSession stdcl stdcl :=
  ⟨⟨rfl, rfl, .inl rfl⟩, List.Subset.refl _⟩

theorem trans (first : KeepsSession before middle) (second : KeepsSession middle after) :
    KeepsSession before after := by
  refine ⟨⟨second.username.trans first.username, second.keySize.trans first.keySize, ?_⟩,
    List.Subset.trans second.queue first.queue⟩
  rcases second.clState with same | ⟨live, gone⟩
  · rw [same]
    exact first.clState
  · rcases first.clState with same | ⟨_, before⟩
    · exact .inr ⟨same ▸ live, gone⟩
    · rw [before] at live
      cases live

/-- What the other parts of a client are makes no difference. -/
theorem restate (keeps : KeepsSession before after) (username : stdcl.username = after.username)
    (keySize : stdcl.keySize = after.keySize) (clState : stdcl.clState = after.clState)
    (queue : stdcl.pendingUserdataQueue ⊆ before.pendingUserdataQueue) :
    KeepsSession before stdcl := by
  refine ⟨⟨username.trans keeps.username, keySize.trans keeps.keySize, ?_⟩, queue⟩
  rw [clState]
  exact keeps.clState

theorem cleanup (keeps : KeepsSession before after) : KeepsSession before (cleanupStdClient after) := by
  refine keeps.trans ?_
  rw [cleanupStdClient]
  split
  · rename_i live
    exact ⟨⟨rfl, rfl, .inr ⟨live, rfl⟩⟩, List.Subset.refl _⟩
  · exact refl after

theorem afterSend (keeps : KeepsSession before after) (tss : MpscMsgNode) (outcome : SendOutcome) :
    KeepsSession before (afterSend after tss outcome) := by
  rw [Lwmsg.afterSend]
  cases outcome.stopped with
  | none => exact keeps.restate rfl rfl rfl keeps.queue
  | some failure =>
    cases failure with
    | error => exact cleanup (keeps.restate rfl rfl rfl keeps.queue)
    | eblock => exact keeps.restate rfl rfl rfl keeps.queue

theorem wtServeResponse (stdcl : StdClient) (msg : MpscMsgNode) :
    KeepsSession stdcl (wtServeResponse stdcl msg) := by
  by_cases idle : stdcl.tempSendStorage = none
  · obtain ⟨sockEvents, served⟩ := wtServeResponse_idle idle msg
    have sent := (refl stdcl).afterSend msg (sendDoWhile msg.buf stdcl.connection msg.bufOffset)
    rw [served]
    exact sent.restate rfl rfl rfl sent.queue
  · obtain ⟨tss, unfinished⟩ := Option.ne_none_iff_exists'.mp idle
    rw [Lwmsg.wtServeResponse, unfinished]
    exact (refl stdcl).restate rfl rfl rfl (List.Subset.refl _)

theorem sendOneMsg (keeps : KeepsSession before after) (tss : MpscMsgNode) :
    KeepsSession before (sendOneMsg after tss).2 := keeps.afterSend tss _

theorem sendCtrlQueue (keeps : KeepsSession before after) (pendingCtrlQueue : List MpscMsgNode) :
    KeepsSession before (sendCtrlQueue pendingCtrlQueue after).2 := by
  induction pendingCtrlQueue generalizing after with
  | nil => exact keeps
  | cons msg pendingCtrlQueue inductionHypothesis =>
    have begun : KeepsSession before { after with pendingCtrlQueue, tempSendStorage := some msg } :=
      keeps.restate rfl rfl rfl keeps.queue
    have sent := begun.sendOneMsg msg
    rw [Lwmsg.sendCtrlQueue]
    split
    · rename_i call
      rw [call] at sent
      exact sent
    · rename_i call
      rw [call] at sent
      exact inductionHypothesis sent

theorem sendUnfinished (stdcl : StdClient) (table : ClientTable) :
    KeepsSession stdcl (sendUnfinished stdcl table).2.stdcl := by
  rw [Lwmsg.sendUnfinished]
  split
  · exact (refl stdcl).sendCtrlQueue _
  · rename_i tss unfinished
    have begun : KeepsSession stdcl { stdcl with
        pendingCtrlQueue := stdcl.pendingCtrlQueue ++ resumeNotices table tss } :=
      (refl stdcl).restate rfl rfl rfl (List.Subset.refl _)
    have sent := begun.sendOneMsg tss
    simp only
    split
    · rename_i call
      rw [call] at sent
      exact sent
    · rename_i call
      rw [call] at sent
      exact sent.sendCtrlQueue _

theorem wtHandleOutboundData (stdcl : StdClient) (table : ClientTable) :
    KeepsSession stdcl (wtHandleOutboundData stdcl table).stdcl := by
  have sent := sendUnfinished stdcl table
  rw [Lwmsg.wtHandleOutboundData]
  split
  · exact refl stdcl
  · split
    · rename_i call
      rw [call] at sent
      exact sent
    · rename_i call
      rw [call] at sent
      exact sent.restate rfl rfl rfl sent.queue

theorem awaitSocket (keeps : KeepsSession before after) (res : Option NetFailure) :
    KeepsSession before (awaitSocket res after) := by
  obtain ⟨sockEvents, queueEvents, equal⟩ := awaitSocket_eq res after
  rw [equal]
  exact keeps.restate rfl rfl rfl keeps.queue

/-- What was enqueued during the call counts as enqueued before. -/
theorem wtHandleQueuedMessages {resumeTable dequeueTable : ClientTable} {arrived : List MpscMsgNode}
    {result : OutboundResult}
    (call : wtHandleQueuedMessages stdcl resumeTable dequeueTable arrived = some result) :
    KeepsSession { stdcl with pendingUserdataQueue := stdcl.pendingUserdataQueue ++ arrived }
      result.stdcl := by
  have sent := sendUnfinished stdcl resumeTable
  have waiting := sendUnfinished_pendingUserdataQueue stdcl resumeTable
  rw [Lwmsg.wtHandleQueuedMessages] at call
  split at call
  · obtain rfl := Option.some.inj call
    exact refl _
  · rcases finish : Lwmsg.sendUnfinished stdcl resumeTable with ⟨res, after, notices⟩
    rw [finish] at call sent waiting
    have changed (pendingUserdataQueue pendingCtrlQueue : List MpscMsgNode)
        (tempSendStorage : Option MpscMsgNode)
        (fewer : pendingUserdataQueue ⊆ stdcl.pendingUserdataQueue ++ arrived) :
        KeepsSession { stdcl with pendingUserdataQueue := stdcl.pendingUserdataQueue ++ arrived }
          { after with pendingUserdataQueue, pendingCtrlQueue, tempSendStorage } :=
      ⟨⟨sent.username, sent.keySize, sent.clState⟩, fewer⟩
    simp only at call waiting
    split at call
    · obtain rfl := Option.some.inj call
      refine (changed _ _ _ ?_).awaitSocket _
      rw [waiting]
      exact List.Subset.refl _
    · obtain rfl := Option.some.inj call
      refine awaitSocket (changed _ _ _ ?_) none
      rw [waiting]
      exact List.Subset.refl _
    · rename_i msg pendingUserdataQueue queue
      have rest : pendingUserdataQueue ++ arrived ⊆ stdcl.pendingUserdataQueue ++ arrived := by
        rw [← waiting, queue]
        exact List.subset_cons_self _ _
      split at call
      · obtain rfl := Option.some.inj call
        exact ((changed _ _ _ rest).sendOneMsg _).awaitSocket _
      · split at call
        · cases call
        · obtain rfl := Option.some.inj call
          exact ((changed _ _ _ (List.Subset.trans List.filter_sublist.subset
            rest)).sendOneMsg _).awaitSocket _

end KeepsSession

end Lwmsg
