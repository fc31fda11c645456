/-
This file says what a call of `wt_handle_inbound_data` does to the part of its client
that the other handlers see: it receives, it serves responses, and it may clean the
client up. So a call is a part of a run of the handlers that send, and whatever these
acts keep, every call keeps, also where the receive state is of no concern.
-/

import Lwmsg.InboundStages

namespace Lwmsg

open Bytes Pointers

/-! ### Loops around `recv_fn` -/

/-- A loop around `recv_fn` moves bytes and uses up events. -/
theorem recvTurns_connection {State : Type} (wanted : State → Option Nat)
    (received : State → Bytes → State) (turns : Nat) (connection : Conn) (state : State) :
    ∃ incoming recvEvents, (recvTurns wanted received turns connection state).connection =
      { connection with incoming, recvEvents } := by
  induction turns generalizing connection state with
  | zero => exact ⟨connection.incoming, connection.recvEvents, rfl⟩
  | succ turns inductionHypothesis =>
    rw [recvTurns]
    split
    · exact ⟨connection.incoming, connection.recvEvents, rfl⟩
    · split
      · rename_i reason after call
        obtain ⟨used, rfl⟩ := Conn.recvFn_error call
        exact ⟨after.incoming, after.recvEvents, rfl⟩
      · rename_i bytes after call
        obtain ⟨_, _, event, rfl⟩ := Conn.recvFn_ok call
        exact inductionHypothesis after (received state bytes)

theorem recvDoWhile_connection {State : Type} (len : Nat) (wanted : State → Option Nat)
    (received : State → Bytes → State) (connection : Conn) (state : State) :
    ∃ incoming recvEvents, (recvDoWhile len wanted received connection state).connection =
      { connection with incoming, recvEvents } := by
  rw [recvDoWhile]
  split
  · rename_i reason after call
    obtain ⟨used, rfl⟩ := Conn.recvFn_error call
    exact ⟨after.incoming, after.recvEvents, rfl⟩
  · rename_i bytes after call
    obtain ⟨_, _, event, rfl⟩ := Conn.recvFn_ok call
    exact recvTurns_connection _ _ _ after _

/-! ### The acts of a call -/

/-- What a call does to its client, one act behind the other, and the responses it serves. -/
inductive InboundActs (before : StdClient) : List MpscMsgNode → StdClient → Prop
  | start : InboundActs before [] before
  | receive {responses after} (tempRecvStorage : CurrRecvMsg) (incoming : Bytes)
      (recvEvents : List NetEvent) (acts : InboundActs before responses after) :
      InboundActs before responses { after with
        tempRecvStorage
        connection := { after.connection with incoming, recvEvents } }
  | serve {responses after} (msg : NewMsg) (acts : InboundActs before responses after) :
      InboundActs before (responses ++ [msg.1]) (wtServeResponse after msg.1)
  | cleanup {responses after} (acts : InboundActs before responses after) :
      InboundActs before responses (cleanupStdClient after)

namespace InboundActs

variable {before after : StdClient} {responses : List MpscMsgNode}

theorem withStorage (acts : InboundActs before responses after) (tempRecvStorage : CurrRecvMsg) :
    InboundActs before responses { after with tempRecvStorage } :=
  acts.receive tempRecvStorage after.connection.incoming after.connection.recvEvents

theorem afterRecv {outcome : RecvOutcome CurrRecvMsg} (acts : InboundActs before responses after)
    (moved : ∃ incoming recvEvents,
      outcome.connection = { after.connection with incoming, recvEvents }) :
    InboundActs before responses (after.afterRecv outcome) := by
  obtain ⟨incoming, recvEvents, moved⟩ := moved
  rw [StdClient.afterRecv, moved]
  exact acts.receive outcome.state incoming recvEvents

/-- What a stage did when the rest of the call begins, or when it left the call. -/
def Stage (before : StdClient) : InboundStage → Prop
  | .leave _ after | .go after => InboundActs before [] after

theorem recv (wanted : CurrRecvMsg → Option Nat) (received : CurrRecvMsg → Bytes → CurrRecvMsg)
    (acts : InboundActs before [] after) : Stage before (inboundRecv wanted received after) := by
  have moved := acts.afterRecv (recvTurns_connection wanted received
    (after.connection.recvEvents.length + 1) after.connection after.tempRecvStorage)
  rw [inboundRecv]
  split
  · exact moved.cleanup
  · exact moved
  · exact moved

theorem resync (acts : InboundActs before [] after) : Stage before (inboundResync after) := by
  rw [inboundResync]
  split
  · have moved := acts.afterRecv (recvDoWhile_connection
      (lwmpMaxPduSize - after.tempRecvStorage.recvbuf.length) CurrRecvMsg.resyncWanted
      CurrRecvMsg.received after.connection after.tempRecvStorage)
    simp only
    split
    · exact moved.cleanup
    · split
      · exact moved.withStorage _
      · exact moved.withStorage _
  · exact acts

theorem recvPdu (acts : InboundActs before [] after) : Stage before (inboundRecvPdu after) := by
  have header := acts.recv CurrRecvMsg.hdrWanted CurrRecvMsg.received
  rw [inboundRecvPdu]
  split
  · rename_i left
    rw [left] at header
    exact header
  · rename_i opened reached
    rw [reached] at header
    have body := (withStorage header opened.tempRecvStorage.startMsg).recv
      CurrRecvMsg.bodyWanted CurrRecvMsg.receivedPayload
    simp only
    split
    · rename_i left
      rw [left] at body
      exact body
    · rename_i reached
      rw [reached] at body
      split
      · exact body
      · exact body

theorem requestNode_new (reqbuf : Bytes) : (requestNode reqbuf).bufOffset = 0 := by
  rw [requestNode]
  split
  · exact responseNode_bufOffset _ _ _
  · rfl

theorem unreachableNode_new (destUname : Bytes) : (unreachableNode destUname).bufOffset = 0 :=
  responseNode_bufOffset _ _ _

theorem deliverPdu (acts : InboundActs before [] after) (env : InboundEnv) :
    InboundActs before (inboundDeliverPdu env after).responses (inboundDeliverPdu env after).stdcl := by
  have answered := acts.serve ⟨responseNode .info (respCodes (lwmpValidateHdrs
    after.tempRecvStorage.recvbuf after.tempRecvStorage.destUname env.hvfns)) none,
    responseNode_bufOffset _ _ _⟩
  rw [inboundDeliverPdu]
  simp only
  split
  · exact answered.withStorage _
  · split
    · exact (answered.serve ⟨_, requestNode_new _⟩).withStorage _
    · split
      · exact (answered.serve ⟨_, unreachableNode_new _⟩).withStorage _
      · exact answered.withStorage _

theorem deliverChunk (acts : InboundActs before [] after) (env : InboundEnv) :
    InboundActs before (inboundDeliverChunk env after).responses
      (inboundDeliverChunk env after).stdcl := by
  rw [inboundDeliverChunk]
  split
  · exact (acts.serve ⟨_, unreachableNode_new _⟩).withStorage _
  · exact acts.withStorage _

theorem andThen {stage : InboundStage} {next : StdClient → InboundResult}
    (reached : Stage before stage)
    (rest : ∀ after, InboundActs before [] after →
      InboundActs before (next after).responses (next after).stdcl) :
    InboundActs before (stage.andThen next).responses (stage.andThen next).stdcl := by
  cases stage with
  | leave exit after => exact reached
  | go after => exact rest after reached

end InboundActs

/-- A call receives, serves the responses it answers with, and may clean its client up. -/
theorem wtHandleInboundData_acts (env : InboundEnv) (stdcl : StdClient) :
    InboundActs stdcl (wtHandleInboundData env stdcl).responses
      (wtHandleInboundData env stdcl).stdcl := by
  rw [wtHandleInboundData]
  split
  · exact .start
  · refine InboundActs.andThen (InboundActs.resync .start) fun after acts => ?_
    split
    · exact InboundActs.andThen acts.recvPdu fun _ received => received.deliverPdu env
    · exact InboundActs.andThen (acts.recv _ _) fun _ received => received.deliverChunk env

/-- So a call is a part of a run of the handlers that send. -/
theorem OutboundRun.inbound {start stdcl after : StdClient}
    {generated enqueued responses : List MpscMsgNode}
    (run : OutboundRun start generated enqueued stdcl) (acts : InboundActs stdcl responses after) :
    OutboundRun start (generated ++ responses) enqueued after := by
  induction acts with
  | start => rwa [List.append_nil]
  | receive tempRecvStorage incoming recvEvents _ inductionHypothesis =>
    exact inductionHypothesis.receive tempRecvStorage incoming recvEvents
  | serve msg _ inductionHypothesis =>
    rw [← List.append_assoc]
    exact inductionHypothesis.serveResponse msg
  | cleanup _ inductionHypothesis => exact inductionHypothesis.cleanup

theorem cleanupStdClient_not_authenticated (stdcl : StdClient) :
    (cleanupStdClient stdcl).clState ≠ .authenticated := by
  rw [cleanupStdClient]
  split
  · simp
  · rename_i other
    exact other

namespace InboundActs

variable {before after : StdClient} {responses : List MpscMsgNode}

/-- A call keeps what a session keeps. -/
theorem keepsSession (acts : InboundActs before responses after) : KeepsSession before after := by
  induction acts with
  | start => exact .refl before
  | receive _ _ _ _ inductionHypothesis =>
    exact inductionHypothesis.restate rfl rfl rfl inductionHypothesis.queue
  | @serve responses after msg _ inductionHypothesis =>
    exact inductionHypothesis.trans (.wtServeResponse after msg.1)
  | cleanup _ inductionHypothesis => exact inductionHypothesis.cleanup

theorem username (acts : InboundActs before responses after) : after.username = before.username :=
  acts.keepsSession.username

theorem clState (acts : InboundActs before responses after) :
    after.clState = before.clState ∨ after.clState = .disconnected :=
  acts.keepsSession.clState.imp_right And.right

end InboundActs

/-! ### The name a message is enqueued under -/

/-- What a call enqueues, it enqueues under a name. -/
def InboundResult.Names (username : Bytes) (result : InboundResult) : Prop :=
  ∀ rcpt msg, result.forwarded = some (rcpt, msg) → msg.subjectName = strncpy unamesize username

theorem inboundDeliverPdu_names (env : InboundEnv) (stdcl : StdClient) :
    (inboundDeliverPdu env stdcl).Names stdcl.username := by
  intro rcpt msg forwarded
  rw [inboundDeliverPdu] at forwarded
  simp only at forwarded
  split at forwarded
  · cases forwarded
  · split at forwarded
    · cases forwarded
    · split at forwarded
      · cases forwarded
      · obtain ⟨rfl, rfl⟩ := Prod.mk.inj (Option.some.inj forwarded)
        exact congrArg (strncpy unamesize) (KeepsSession.wtServeResponse stdcl _).username

theorem inboundDeliverChunk_names (env : InboundEnv) (stdcl : StdClient) :
    (inboundDeliverChunk env stdcl).Names stdcl.username := by
  intro rcpt msg forwarded
  rw [inboundDeliverChunk] at forwarded
  split at forwarded
  · cases forwarded
  · obtain ⟨rfl, rfl⟩ := Prod.mk.inj (Option.some.inj forwarded)
    rfl

theorem InboundActs.names {before : StdClient} {stage : InboundStage}
    {next : StdClient → InboundResult} (reached : Stage before stage)
    (rest : ∀ after, InboundActs before [] after → (next after).Names after.username) :
    (stage.andThen next).Names before.username := by
  cases stage with
  | leave exit after => exact fun _ _ none => by cases none
  | go after =>
    rw [← InboundActs.username reached]
    exact rest after reached

/-- A call enqueues a message only under the name of its client. -/
theorem wtHandleInboundData_names (env : InboundEnv) (stdcl : StdClient) :
    (wtHandleInboundData env stdcl).Names stdcl.username := by
  rw [wtHandleInboundData]
  split
  · exact fun _ _ none => by cases none
  · refine InboundActs.names (InboundActs.resync .start) fun after acts => ?_
    split
    · exact InboundActs.names (InboundActs.recvPdu .start) fun received _ =>
        inboundDeliverPdu_names env received
    · exact InboundActs.names (InboundActs.recv _ _ .start) fun received _ =>
        inboundDeliverChunk_names env received

end Lwmsg
