/-
This file is about the messages that wait in `pending_userdata_queue` after their
senders got their answer. As long as each message of a sender that is dequeued finds
the session of its sender, none of them is lost: it waits or is part of what is sent.
A sender that is gone takes with it what it sent, and its recipient is told so.
-/

import Lwmsg.InboundDrain

namespace Lwmsg

open Bytes Pointers

/-! ### Runs in which a sender is found -/

/-- The lookup of the first message that waits finds its sender, if it is one of `sender`. -/
def SenderFound (sender : Bytes) (stdcl : StdClient) (dequeueTable : ClientTable) : Prop :=
  ∀ msg pendingUserdataQueue, stdcl.pendingUserdataQueue = msg :: pendingUserdataQueue →
    sameSubject msg.subjectName sender = true →
      htableGetCond dequeueTable (cString msg.subjectName) ≠ none

/-- What happens to one client from a moment on, as in `OutboundRun`, with the sender found each time
a message under its name is dequeued. All other lookups find whom they will. -/
inductive DeliveryRun (sender : Bytes) (start : StdClient) :
    List MpscMsgNode → List MpscMsgNode → StdClient → Prop
  | start : DeliveryRun sender start [] [] start
  | serveResponse {generated enqueued stdcl} (msg : NewMsg)
      (run : DeliveryRun sender start generated enqueued stdcl) :
      DeliveryRun sender start (generated ++ [msg.1]) enqueued (wtServeResponse stdcl msg.1)
  | outboundData {generated enqueued stdcl} (table : ClientTable)
      (run : DeliveryRun sender start generated enqueued stdcl) :
      DeliveryRun sender start (generated ++ (wtHandleOutboundData stdcl table).notices) enqueued
        (wtHandleOutboundData stdcl table).stdcl
  | queuedMessages {generated enqueued stdcl result} (resumeTable dequeueTable : ClientTable)
      (arrived : List NewMsg) (run : DeliveryRun sender start generated enqueued stdcl)
      (found : SenderFound sender stdcl dequeueTable)
      (call : wtHandleQueuedMessages stdcl resumeTable dequeueTable (arrived.map (·.1)) =
        some result) :
      DeliveryRun sender start (generated ++ result.notices) (enqueued ++ arrived.map (·.1))
        result.stdcl
  | enqueue {generated enqueued stdcl} (msg : NewMsg)
      (run : DeliveryRun sender start generated enqueued stdcl) :
      DeliveryRun sender start generated (enqueued ++ [msg.1])
        { stdcl with pendingUserdataQueue := stdcl.pendingUserdataQueue ++ [msg.1] }
  | receive {generated enqueued stdcl} (tempRecvStorage : CurrRecvMsg) (incoming : Bytes)
      (recvEvents : List NetEvent) (run : DeliveryRun sender start generated enqueued stdcl) :
      DeliveryRun sender start generated enqueued
        { stdcl with
          tempRecvStorage
          connection := { stdcl.connection with incoming, recvEvents } }
  | cleanup {generated enqueued stdcl} (run : DeliveryRun sender start generated enqueued stdcl) :
      DeliveryRun sender start generated enqueued (cleanupStdClient stdcl)

/-- The messages under the name of a sender. -/
def ofSender (sender : Bytes) (msgs : List MpscMsgNode) : List MpscMsgNode :=
  msgs.filter fun msg => sameSubject msg.subjectName sender

@[simp] theorem ofSender_append (sender : Bytes) (first second : List MpscMsgNode) :
    ofSender sender (first ++ second) = ofSender sender first ++ ofSender sender second :=
  List.filter_append ..

/-- Who has the name of one sender does not have the name of another. -/
theorem sameSubject_trans {first second third : Bytes} (left : sameSubject first second = true)
    (right : sameSubject first third = true) : sameSubject second third = true := by
  simp only [sameSubject, beq_iff_eq] at left right ⊢
  exact left.symm.trans right

/-- A flush under another name keeps all messages of the sender. -/
theorem ofSender_flush {sender subject : Bytes} (other : sameSubject subject sender ≠ true)
    (msgs : List MpscMsgNode) :
    ofSender sender (msgs.filter fun msg => strncmp unamesize msg.subjectName subject ≠ 0) =
      ofSender sender msgs := by
  rw [ofSender, ofSender, List.filter_filter]
  refine List.filter_congr fun msg _ => ?_
  by_cases mine : sameSubject msg.subjectName sender = true
  · have kept : strncmp unamesize msg.subjectName subject ≠ 0 := by
      intro same
      rw [strncmp_eq_zero_iff_sameSubject] at same
      exact other (sameSubject_trans same mine)
    rw [mine, Bool.true_and]
    exact decide_eq_true kept
  · simp [mine]

theorem Flushed.ofSender {sender : Bytes} {stdcl : StdClient} {dequeueTable : ClientTable}
    {queued kept : List MpscMsgNode} (found : SenderFound sender stdcl dequeueTable)
    (flushed : Flushed stdcl dequeueTable queued kept) :
    ofSender sender kept = ofSender sender queued := by
  cases flushed with
  | nothing => rfl
  | @sender earlier arrived pendingUserdataQueue msg queue missing =>
    have other : sameSubject msg.subjectName sender ≠ true :=
      fun mine => found msg _ queue mine missing
    rw [ofSender_append, ofSender_append, ofSender_flush other]
    congr 1
    simp [Lwmsg.ofSender, other]

/-- What a run keeps in which the sender is found. -/
theorem DeliveryRun.framed {sender before : Bytes} {start stdcl : StdClient}
    {earlier kept generated enqueued : List MpscMsgNode} {started : Started}
    (framed : Framed before earlier kept start started) (settled : Settled start)
    (run : DeliveryRun sender start generated enqueued stdcl) :
    (∃ started later, later.Sublist (kept ++ enqueued) ∧
      ofSender sender later = ofSender sender (kept ++ enqueued) ∧
      Framed before (earlier ++ generated) later stdcl started) ∧ Settled stdcl := by
  induction run with
  | start => exact ⟨⟨started, kept, by simp, by simp, by simpa using framed⟩, settled⟩
  | serveResponse msg run inductionHypothesis =>
    obtain ⟨⟨started, later, sublist, same, framed⟩, settled⟩ := inductionHypothesis
    obtain ⟨⟨started, framed⟩, settled⟩ := framed.serveResponse settled msg
    rw [← List.append_assoc]
    exact ⟨⟨started, later, sublist, same, framed⟩, settled⟩
  | outboundData table run inductionHypothesis =>
    obtain ⟨⟨started, later, sublist, same, framed⟩, settled⟩ := inductionHypothesis
    obtain ⟨⟨started, framed⟩, settled⟩ := framed.outboundData settled table
    rw [← List.append_assoc]
    exact ⟨⟨started, later, sublist, same, framed⟩, settled⟩
  | queuedMessages resumeTable dequeueTable arrived run found call inductionHypothesis =>
    obtain ⟨⟨started, later, sublist, same, framed⟩, settled⟩ := inductionHypothesis
    obtain ⟨⟨started, last, flushed, framed⟩, settled⟩ :=
      framed.queuedMessages settled resumeTable dequeueTable arrived call
    have keeps := flushed.ofSender found
    rw [ofSender_append, same, ← ofSender_append] at keeps
    rw [← List.append_assoc, ← List.append_assoc]
    exact ⟨⟨started, last, flushed.sublist.trans (sublist.append_right _), keeps, framed⟩, settled⟩
  | enqueue msg run inductionHypothesis =>
    obtain ⟨⟨started, later, sublist, same, framed⟩, settled⟩ := inductionHypothesis
    have enqueued := framed.enqueue [msg.1] (by simpa using msg.2)
    rw [← List.append_assoc]
    refine ⟨⟨started, _, sublist.append_right _, ?_, enqueued⟩, settled⟩
    rw [ofSender_append, same, ← ofSender_append]
  | receive tempRecvStorage incoming recvEvents run inductionHypothesis =>
    obtain ⟨⟨started, later, sublist, same, framed⟩, settled⟩ := inductionHypothesis
    exact ⟨⟨started, later, sublist, same, framed.sent, framed.control, framed.userdata,
      framed.newControl, framed.newUserdata⟩, settled⟩
  | cleanup run inductionHypothesis =>
    obtain ⟨⟨started, later, sublist, same, framed⟩, settled⟩ := inductionHypothesis
    exact ⟨⟨started, later, sublist, same, framed.cleanup⟩,
      fun idle => by simpa using settled (by simpa using idle)⟩

/-- Whatever happened to a recipient before, a run in which the sender is found loses none of its
messages: those that wait, and those enqueued in the run, wait or are started, in this order and each
once, and the bytes on the connection are the started messages, whole but for the last. -/
theorem queued_messages_not_lost {sender : Bytes} {begin start stdcl : StdClient}
    {earlierGenerated earlierEnqueued generated enqueued : List MpscMsgNode}
    (session : NewSession begin) (run : OutboundRun begin earlierGenerated earlierEnqueued start)
    (more : DeliveryRun sender start generated enqueued stdcl) :
    ∃ startedBefore started,
      OutboundFraming begin start earlierGenerated earlierEnqueued startedBefore ∧
      OutboundFraming begin stdcl (earlierGenerated ++ generated) (earlierEnqueued ++ enqueued)
        started ∧
      ofSender sender (started.ofOrigin .userdata ++ stdcl.pendingUserdataQueue) =
        ofSender sender (startedBefore.ofOrigin .userdata ++ start.pendingUserdataQueue ++
          enqueued) := by
  obtain ⟨⟨startedBefore, kept, fewer, framed⟩, settled⟩ := run.framed session
  obtain ⟨⟨started, later, sublist, same, after⟩, _⟩ := more.framed framed settled
  refine ⟨startedBefore, started,
    ⟨framed.sent, framed.sent.isPrefix, framed.control, framed.userdata.symm ▸ fewer⟩,
    ⟨after.sent, after.sent.isPrefix, after.control, ?_⟩, ?_⟩
  · rw [after.userdata]
    exact sublist.trans (fewer.append_right _)
  · rw [after.userdata, framed.userdata]
    exact same

/-- A session whose socket takes every message. -/
def openSession : StdClient :=
  { createStdClient [127, 0, 0, 1] {
      incoming := []
      recvEvents := []
      recvAfter := .eblock
      accepted := []
      sendEvents := List.replicate 8 (.upTo 4096)
      sendAfter := .eblock } with
    clState := .authenticated
    sockEvents := [.epollin]
    queueEvents := [.epollin] }

/-- The message without text, as it waits for its recipient. -/
def waitingMessage : NewMsg := ⟨forwardNode emptyMessage (strncpy unamesize (ofLiteral "ann")), rfl⟩

/-- A recipient to whom one message was enqueued. -/
def waitingSession : StdClient :=
  { openSession with pendingUserdataQueue := [waitingMessage.1] }

/-- Its sender is there when the message is dequeued, and a second message of the sender comes in
meanwhile. -/
theorem queued_messages_not_lost_two_messages : ∃ stdcl startedBefore started,
    OutboundFraming openSession waitingSession [] [waitingMessage.1] startedBefore ∧
    OutboundFraming openSession stdcl [] [waitingMessage.1, waitingMessage.1] started ∧
    ofSender (ofLiteral "ann") (started.ofOrigin .userdata ++ stdcl.pendingUserdataQueue) =
      ofSender (ofLiteral "ann") (startedBefore.ofOrigin .userdata ++
        waitingSession.pendingUserdataQueue ++ [waitingMessage.1]) := by
  let table : ClientTable := fun _ => some (0, .authenticated)
  have found : SenderFound (ofLiteral "ann") waitingSession table := by
    intro msg pendingUserdataQueue queue _
    obtain ⟨rfl, _⟩ := List.cons.inj queue
    decide +kernel
  have more := @DeliveryRun.start (ofLiteral "ann") waitingSession
    |>.queuedMessages table table [waitingMessage] found rfl
  obtain ⟨startedBefore, started, before, after, same⟩ :=
    queued_messages_not_lost ⟨rfl, rfl, rfl, rfl⟩ (.enqueue waitingMessage .start) more
  exact ⟨_, startedBefore, started, before, after, same⟩

/-- The call that forwards the message without text to the client at address 1. -/
def acknowledgedCall : InboundEnv × StdClient := (everyoneIsHere, sendingClient emptyMessage)

/-- The recipient after its handler found that the sender is gone. -/
def abandonedSession : OutboundResult :=
  (wtHandleQueuedMessages waitingSession (fun _ => none) (fun _ => none) []).get
    (wtHandleQueuedMessages_isSome _ _ _ _)

/-- A message that was answered with success is neither sent nor in the queue: its sender
disconnected before the handler got to it. Its recipient is still there, and its socket took all that
it was given. -/
theorem acknowledged_message_lost :
    (wtHandleInboundData acknowledgedCall.1 acknowledgedCall.2).forwarded =
      some (1, waitingMessage.1) ∧
    (wtHandleInboundData acknowledgedCall.1 acknowledgedCall.2).responses =
      [responseNode .info (respCodes .ok) none] ∧
    OutboundRun openSession abandonedSession.notices [waitingMessage.1] abandonedSession.stdcl ∧
    abandonedSession.stdcl.clState = .authenticated ∧
    abandonedSession.stdcl.tempSendStorage = none ∧
    abandonedSession.stdcl.pendingUserdataQueue = [] ∧
    ¬ waitingMessage.1.buf <:+: abandonedSession.stdcl.connection.accepted := by
  have run : OutboundRun openSession ([] ++ abandonedSession.notices) ([waitingMessage.1] ++ [])
      abandonedSession.stdcl :=
    .queuedMessages (fun _ => none) (fun _ => none) [] (.enqueue waitingMessage .start)
      (Option.some_get _).symm
  have executed : (wtHandleInboundData acknowledgedCall.1 acknowledgedCall.2).forwarded =
        some (1, waitingMessage.1) ∧
      (wtHandleInboundData acknowledgedCall.1 acknowledgedCall.2).responses =
        [responseNode .info (respCodes .ok) none] ∧
      abandonedSession.stdcl.clState = .authenticated ∧
      abandonedSession.stdcl.tempSendStorage = none ∧
      abandonedSession.stdcl.pendingUserdataQueue = [] ∧
      ¬ waitingMessage.1.buf <:+: abandonedSession.stdcl.connection.accepted := by
    decide +kernel
  obtain ⟨enqueued, answered, left⟩ := executed
  exact ⟨enqueued, answered, run, left⟩

end Lwmsg
