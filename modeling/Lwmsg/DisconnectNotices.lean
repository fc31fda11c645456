/-
This file counts the notices that one message in `temp_send_storage` causes. Both handlers
of `server/worker.c` look its sender up each time they resume it and call
`notify_about_disconnect` if no connected client has the name. Nothing records that they
did so before, so each such call makes another notice, and all of them wait in
`pending_ctrl_queue` until the message is sent.
-/

import Lwmsg.Downlink

namespace Lwmsg

open Bytes Pointers

/-! ### One message -/

/-- What happens to a client: the handlers run, other workers enqueue messages, and something
arrives. What its socket accepts is in its connection. -/
inductive ClientEvent
  | serveResponse (msg : NewMsg)
  | outboundData (table : ClientTable)
  | queuedMessages (resumeTable dequeueTable : ClientTable) (arrived : List NewMsg)
  | enqueue (msg : NewMsg)
  | receive (tempRecvStorage : CurrRecvMsg) (incoming : Bytes) (recvEvents : List NetEvent)
  | cleanup

namespace ClientEvent

/-- The client behind an event. -/
def perform (stdcl : StdClient) : ClientEvent → Option StdClient
  | .serveResponse msg => some (wtServeResponse stdcl msg.1)
  | .outboundData table => some (wtHandleOutboundData stdcl table).stdcl
  | .queuedMessages resumeTable dequeueTable arrived =>
    (wtHandleQueuedMessages stdcl resumeTable dequeueTable (arrived.map (·.1))).map (·.stdcl)
  | .enqueue msg =>
    some { stdcl with pendingUserdataQueue := stdcl.pendingUserdataQueue ++ [msg.1] }
  | .receive tempRecvStorage incoming recvEvents =>
    some { stdcl with
      tempRecvStorage
      connection := { stdcl.connection with incoming, recvEvents } }
  | .cleanup => some (cleanupStdClient stdcl)

/-- The table in which an event looks up the sender of the message it resumes, if it resumes one. -/
def resumes (stdcl : StdClient) : ClientEvent → Option ClientTable
  | .outboundData table | .queuedMessages table _ _ =>
    if stdcl.clState = .disconnected then none else some table
  | _ => none

end ClientEvent

/-- A client beside the message that was in its `temp_send_storage`: whether it is still there, how
many events resumed it and found no connected client under its sender's name, and the notices that
were enqueued on account of it. -/
structure WatchedMessage where
  stdcl : StdClient
  held : Bool
  missed : Nat
  notices : List MpscMsgNode

/-- The message in `temp_send_storage` stays there when it is resumed. -/
def staysHeld (stdcl : StdClient) : Bool :=
  match stdcl.tempSendStorage with
  | none => false
  | some tss => (sendWhile tss.buf stdcl.connection tss.bufOffset).stopped.isSome

namespace WatchedMessage

/-- An event. What a handler does with other messages behind the resumed one is not on its
account. -/
def perform (watched : WatchedMessage) (event : ClientEvent) : Option WatchedMessage :=
  (event.perform watched.stdcl).map fun stdcl =>
    match watched.held, event.resumes watched.stdcl with
    | true, some table =>
      { stdcl
        held := staysHeld watched.stdcl
        missed := watched.missed + if ResumedHere watched.stdcl table then 0 else 1
        notices := watched.notices ++ (sendUnfinished watched.stdcl table).2.notices }
    | _, _ => { watched with stdcl }

/-- What any sequence of events leads to from a client with a message in `temp_send_storage`. -/
inductive Reachable (start : StdClient) : WatchedMessage → Prop
  | start : Reachable start ⟨start, true, 0, []⟩
  | step {watched next : WatchedMessage} (event : ClientEvent) (before : Reachable start watched)
      (performed : watched.perform event = some next) : Reachable start next

end WatchedMessage

/-! ### Resuming it -/

section Resuming

variable {stdcl : StdClient} {tss : MpscMsgNode} {table : ClientTable}

/-- A handler makes one notice, or none, for the message it resumes. -/
theorem resumeNotices_eq (unfinished : stdcl.tempSendStorage = some tss) :
    resumeNotices table tss =
      List.replicate (if ResumedHere stdcl table then 0 else 1) (disconnectNotice tss.subjectName) := by
  have here : ResumedHere stdcl table ↔ (tss.subjectName.headD 0 ≠ 0 →
      (htableGetCond table (cString tss.subjectName)).isSome = true) := by
    rw [ResumedHere, unfinished]
    simp
  rw [resumeNotices]
  by_cases isHere : ResumedHere stdcl table
  · rw [if_pos isHere, if_neg fun departed => ?_]
    · rfl
    · have found := here.mp isHere departed.1
      rw [departed.2] at found
      cases found
  · rw [if_neg isHere, if_pos]
    · rfl
    · rw [here, Classical.not_imp, Option.not_isSome_iff_eq_none] at isHere
      exact isHere

theorem sendUnfinished_notices (unfinished : stdcl.tempSendStorage = some tss) :
    (sendUnfinished stdcl table).2.notices = resumeNotices table tss := by
  rw [sendUnfinished, unfinished]
  simp only
  split <;> rfl

/-- A message whose sending stops keeps its place and the offset it reached. -/
theorem sendOneMsg_stopped {res : NetFailure}
    (stopped : (sendWhile tss.buf stdcl.connection tss.bufOffset).stopped = some res) :
    (sendOneMsg stdcl tss).1 = some res ∧ ∃ offset,
      (sendOneMsg stdcl tss).2.tempSendStorage = some { tss with bufOffset := offset } := by
  refine ⟨stopped, (sendWhile tss.buf stdcl.connection tss.bufOffset).offset, ?_⟩
  rw [sendOneMsg, afterSend, stopped]
  cases res with
  | error => exact cleanupStdClient_tempSendStorage _
  | eblock => rfl

/-- A message that stays keeps its place in front of the control messages, with the new notice behind
them. -/
theorem sendUnfinished_held (unfinished : stdcl.tempSendStorage = some tss)
    (stays : staysHeld stdcl = true) :
    ∃ res offset, (sendUnfinished stdcl table).1 = some res ∧
      (sendUnfinished stdcl table).2.stdcl.tempSendStorage = some { tss with bufOffset := offset } ∧
      (sendUnfinished stdcl table).2.stdcl.pendingCtrlQueue =
        stdcl.pendingCtrlQueue ++ resumeNotices table tss := by
  rw [staysHeld, unfinished] at stays
  obtain ⟨res, stopped⟩ := Option.isSome_iff_exists.mp stays
  unfold sendUnfinished
  split
  · rename_i idle
    rw [unfinished] at idle
    cases idle
  · rename_i other found
    obtain rfl := Option.some.inj (found.symm.trans unfinished)
    simp only
    generalize noticed : { stdcl with
      pendingCtrlQueue := stdcl.pendingCtrlQueue ++ resumeNotices table other } = before
    have connection : before.connection = stdcl.connection := by rw [← noticed]
    have waiting : before.pendingCtrlQueue =
        stdcl.pendingCtrlQueue ++ resumeNotices table other := by rw [← noticed]
    rw [← connection] at stopped
    obtain ⟨failed, offset, storage⟩ := sendOneMsg_stopped stopped
    have queue := sendOneMsg_pendingCtrlQueue before other
    rcases call : sendOneMsg before other with ⟨answer, after⟩
    rw [call] at failed storage queue
    obtain rfl : answer = some res := failed
    exact ⟨res, offset, rfl, storage, queue.trans waiting⟩

/-- What any event leaves of a message that it does not finish. -/
structure StillHeld (before after : StdClient) (tss : MpscMsgNode)
    (notices : List MpscMsgNode) : Prop where
  storage : ∃ offset, after.tempSendStorage = some { tss with bufOffset := offset }
  queue : ∃ others, after.pendingCtrlQueue = before.pendingCtrlQueue ++ (notices ++ others)

theorem wtHandleOutboundData_held (unfinished : stdcl.tempSendStorage = some tss)
    (connected : stdcl.clState ≠ .disconnected) (stays : staysHeld stdcl = true) :
    StillHeld stdcl (wtHandleOutboundData stdcl table).stdcl tss (resumeNotices table tss) := by
  obtain ⟨res, offset, failed, storage, queue⟩ := @sendUnfinished_held _ _ table unfinished stays
  rw [wtHandleOutboundData, if_neg connected]
  rcases call : sendUnfinished stdcl table with ⟨answer, result⟩
  rw [call] at failed storage queue
  obtain rfl : answer = some res := failed
  exact ⟨⟨offset, storage⟩, [], by rw [List.append_nil]; exact queue⟩

theorem wtHandleQueuedMessages_held {dequeueTable : ClientTable} {arrived : List MpscMsgNode}
    {result : OutboundResult} (unfinished : stdcl.tempSendStorage = some tss)
    (connected : stdcl.clState ≠ .disconnected) (stays : staysHeld stdcl = true)
    (performed : wtHandleQueuedMessages stdcl table dequeueTable arrived = some result) :
    StillHeld stdcl result.stdcl tss (resumeNotices table tss) := by
  obtain ⟨res, offset, failed, storage, queue⟩ := @sendUnfinished_held _ _ table unfinished stays
  rw [wtHandleQueuedMessages, if_neg connected] at performed
  rcases call : sendUnfinished stdcl table with ⟨answer, result⟩
  rw [call] at failed storage queue performed
  obtain rfl : answer = some res := failed
  obtain rfl := Option.some.inj performed
  obtain ⟨sockEvents, queueEvents, equal⟩ := awaitSocket_eq (some res)
    { result.stdcl with pendingUserdataQueue := result.stdcl.pendingUserdataQueue ++ arrived }
  refine ⟨⟨offset, ?_⟩, [], ?_⟩
  · rw [equal]
    exact storage
  · rw [equal, List.append_nil]
    exact queue

/-- An event that resumes the message. -/
theorem ClientEvent.perform_held {event : ClientEvent} {next : StdClient}
    (unfinished : stdcl.tempSendStorage = some tss) (resumes : event.resumes stdcl = some table)
    (stays : staysHeld stdcl = true) (performed : event.perform stdcl = some next) :
    StillHeld stdcl next tss (resumeNotices table tss) := by
  cases event with
  | outboundData other =>
    simp only [ClientEvent.resumes, Option.ite_none_left_eq_some, Option.some.injEq] at resumes
    obtain ⟨connected, rfl⟩ := resumes
    obtain rfl := Option.some.inj performed
    exact wtHandleOutboundData_held unfinished connected stays
  | queuedMessages other dequeueTable arrived =>
    simp only [ClientEvent.resumes, Option.ite_none_left_eq_some, Option.some.injEq] at resumes
    obtain ⟨connected, rfl⟩ := resumes
    obtain ⟨result, call, rfl⟩ := Option.map_eq_some_iff.mp performed
    exact wtHandleQueuedMessages_held unfinished connected stays call
  | serveResponse msg => cases resumes
  | enqueue msg => cases resumes
  | receive tempRecvStorage incoming recvEvents => cases resumes
  | cleanup => cases resumes

/-- An event that does not. -/
theorem ClientEvent.perform_other {event : ClientEvent} {next : StdClient}
    (unfinished : stdcl.tempSendStorage = some tss) (resumes : event.resumes stdcl = none)
    (performed : event.perform stdcl = some next) : StillHeld stdcl next tss [] := by
  cases event with
  | outboundData other =>
    simp only [ClientEvent.resumes, ite_eq_left_iff, reduceCtorEq, imp_false, not_not] at resumes
    obtain rfl := Option.some.inj performed
    rw [wtHandleOutboundData, if_pos resumes]
    exact ⟨⟨_, unfinished⟩, [], (List.append_nil _).symm⟩
  | queuedMessages other dequeueTable arrived =>
    simp only [ClientEvent.resumes, ite_eq_left_iff, reduceCtorEq, imp_false, not_not] at resumes
    obtain ⟨result, call, rfl⟩ := Option.map_eq_some_iff.mp performed
    rw [wtHandleQueuedMessages, if_pos resumes] at call
    obtain rfl := Option.some.inj call
    exact ⟨⟨_, unfinished⟩, [], (List.append_nil _).symm⟩
  | serveResponse msg =>
    obtain rfl := Option.some.inj performed
    rw [wtServeResponse, unfinished]
    exact ⟨⟨tss.bufOffset, rfl⟩, [msg.1], rfl⟩
  | enqueue msg =>
    obtain rfl := Option.some.inj performed
    exact ⟨⟨_, unfinished⟩, [], (List.append_nil _).symm⟩
  | receive tempRecvStorage incoming recvEvents =>
    obtain rfl := Option.some.inj performed
    exact ⟨⟨_, unfinished⟩, [], (List.append_nil _).symm⟩
  | cleanup =>
    obtain rfl := Option.some.inj performed
    refine ⟨⟨tss.bufOffset, ?_⟩, [], ?_⟩
    · rw [cleanupStdClient_tempSendStorage]
      exact unfinished
    · rw [cleanupStdClient_pendingCtrlQueue]
      exact (List.append_nil _).symm

end Resuming

/-! ### How many notices there are -/

/-- Every call that missed the sender made a notice, and as long as the message is there they all wait
in `pending_ctrl_queue`. -/
structure WatchedMessage.Counted (tss : MpscMsgNode) (watched : WatchedMessage) : Prop where
  notices : watched.notices = List.replicate watched.missed (disconnectNotice tss.subjectName)
  storage : watched.held = true → ∃ offset,
    watched.stdcl.tempSendStorage = some { tss with bufOffset := offset }
  queue : watched.held = true → watched.notices.Sublist watched.stdcl.pendingCtrlQueue

theorem WatchedMessage.Counted.step {tss : MpscMsgNode} {watched next : WatchedMessage}
    {event : ClientEvent} (counted : watched.Counted tss)
    (performed : watched.perform event = some next) : next.Counted tss := by
  obtain ⟨stdcl, call, rfl⟩ := Option.map_eq_some_iff.mp performed
  cases held : watched.held with
  | false =>
    exact ⟨counted.notices, fun stays => absurd stays Bool.false_ne_true,
      fun stays => absurd stays Bool.false_ne_true⟩
  | true =>
    obtain ⟨offset, unfinished⟩ := counted.storage held
    cases resumes : event.resumes watched.stdcl with
    | none =>
      have still := ClientEvent.perform_other unfinished resumes call
      obtain ⟨others, queue⟩ := still.queue
      refine ⟨counted.notices, fun _ => still.storage, fun _ => ?_⟩
      simp only
      rw [queue]
      exact (counted.queue held).trans (List.sublist_append_left _ _)
    | some table =>
      have made : (sendUnfinished watched.stdcl table).2.notices = List.replicate
          (if ResumedHere watched.stdcl table then 0 else 1) (disconnectNotice tss.subjectName) := by
        rw [sendUnfinished_notices unfinished, resumeNotices_eq unfinished]
      refine ⟨?_, fun stays => ?_, fun stays => ?_⟩
      · simp only
        rw [made, counted.notices, List.replicate_append_replicate]
      · exact (ClientEvent.perform_held unfinished resumes stays call).storage
      · obtain ⟨others, queue⟩ := (ClientEvent.perform_held unfinished resumes stays call).queue
        simp only
        rw [queue, sendUnfinished_notices unfinished, ← List.append_assoc]
        exact ((counted.queue held).append_right _).trans (List.sublist_append_left _ _)

theorem WatchedMessage.Reachable.counted {start : StdClient} {tss : MpscMsgNode}
    {watched : WatchedMessage} (reachable : watched.Reachable start)
    (unfinished : start.tempSendStorage = some tss) : watched.Counted tss := by
  induction reachable with
  | start => exact ⟨rfl, fun _ => ⟨tss.bufOffset, unfinished⟩, fun _ => List.nil_sublist _⟩
  | step event _ performed inductionHypothesis => exact inductionHypothesis.step performed

/-- In every run, the notices on account of one message are as many as the calls that resumed it and
found no connected client under its sender's name, so there is at most one exactly if there was at
most one such call. As long as the message is not sent they are all in `pending_ctrl_queue`. -/
theorem disconnect_notices_iff {start : StdClient} {tss : MpscMsgNode} {watched : WatchedMessage}
    (unfinished : start.tempSendStorage = some tss) (reachable : watched.Reachable start) :
    (watched.notices.length ≤ 1 ↔ watched.missed ≤ 1) ∧
      watched.notices = List.replicate watched.missed (disconnectNotice tss.subjectName) ∧
      (watched.held = true → watched.notices.Sublist watched.stdcl.pendingCtrlQueue) := by
  have counted := reachable.counted unfinished
  refine ⟨?_, counted.notices, counted.queue⟩
  rw [counted.notices, List.length_replicate]

/-- A recipient with a message of a sender that is gone, and a socket that takes nothing. -/
def blockedRecipient : StdClient :=
  { createStdClient [127, 0, 0, 1] {
      incoming := []
      recvEvents := []
      recvAfter := .eblock
      accepted := []
      sendEvents := []
      sendAfter := .eblock } with
    clState := .authenticated
    tempSendStorage := some ⟨[1, 2, 3], 0, strncpy unamesize (ofLiteral "bob")⟩
    sockEvents := [.epollin, .epollout]
    queueEvents := [] }

theorem WatchedMessage.Reachable.foldlM {start : StdClient} {watched next : WatchedMessage}
    (reachable : watched.Reachable start) (events : List ClientEvent)
    (performed : events.foldlM WatchedMessage.perform watched = some next) :
    next.Reachable start := by
  induction events generalizing watched with
  | nil =>
    obtain rfl := Option.some.inj performed
    exact reachable
  | cons event events inductionHypothesis =>
    obtain ⟨middle, first, rest⟩ := Option.bind_eq_some_iff.mp performed
    exact inductionHypothesis (reachable.step event first) rest

/-- The recipient resumes the message twice while nobody is connected. -/
theorem exists_two_notices : ∃ watched : WatchedMessage, watched.Reachable blockedRecipient ∧
    watched.missed = 2 ∧ watched.notices.length = 2 := by
  have resumed : (([.outboundData fun _ => none, .outboundData fun _ => none] :
      List ClientEvent).foldlM WatchedMessage.perform ⟨blockedRecipient, true, 0, []⟩).map
        (fun watched => (watched.missed, watched.notices.length)) = some (2, 2) := by
    decide +kernel
  obtain ⟨watched, performed, counts⟩ := Option.map_eq_some_iff.mp resumed
  obtain ⟨missed, length⟩ := Prod.mk.inj counts
  exact ⟨watched, .foldlM .start _ performed, missed, length⟩

/-- Both of the notices wait. -/
theorem disconnect_notices_iff_two : ∃ watched : WatchedMessage, watched.Reachable blockedRecipient ∧
    ¬ watched.notices.length ≤ 1 ∧
    (watched.notices.length ≤ 1 ↔ watched.missed ≤ 1) := by
  obtain ⟨watched, reachable, missed, length⟩ := exists_two_notices
  exact ⟨watched, reachable, by omega, (disconnect_notices_iff rfl reachable).1⟩

/-- A message may cause more than one notice. -/
theorem disconnect_notices_repeated :
    ¬ ∀ (start : StdClient) (tss : MpscMsgNode) (watched : WatchedMessage),
      start.tempSendStorage = some tss → watched.Reachable start → watched.notices.length ≤ 1 := by
  intro claim
  obtain ⟨watched, reachable, -, length⟩ := exists_two_notices
  have single := claim blockedRecipient _ watched rfl reachable
  omega

end Lwmsg
