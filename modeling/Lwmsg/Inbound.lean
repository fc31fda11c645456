/-
This file models `wt_handle_inbound_data` of `server/worker.c`, which reads from a
client, answers it and forwards what it sent to the recipient. A call is cut at the
places where the source changes from receiving to deciding: it gets the stream back
in step, receives a first PDU or a chunk, and delivers what it received.

The receiving stages leave the function early in several ways, and delivering has
an exit of its own for every way in which the server gives a message up. A result
names the `return` it left through, so that a property can speak about each of them.
-/

import Lwmsg.Outbound

namespace Lwmsg

open Bytes Pointers

/-! ### What a call sees and what it answers -/

/-- `enum wt_inb_data_status`. -/
inductive WtInbDataStatus
  | dconn
  | stopEblk
  | stopBorder
  deriving DecidableEq, Repr

/-- What a call reads besides its client: the table at the lookup of the header validation and at
the lookup of the recipient, the two settings of the configuration, and the keys that
`htable_copy_all_keys` copies. -/
structure InboundEnv where
  validationTable : ClientTable
  forwardTable : ClientTable
  allowFileTransfers : Bool
  maxFilesizeB : Nat
  userList : Bytes

/-- The `return` a call left through. Where it gave a message up, this holds the receive state from
before the reset. -/
inductive InboundExit
  | disconnected
  | recvError
  | blocked
  | notResynced
  | notComplete
  | rejected (reason : HdrValidationStatus) (gaveUp : CurrRecvMsg)
  | requestServed
  | pduUnreachable (gaveUp : CurrRecvMsg)
  | pduForwarded
  | chunkUnreachable (gaveUp : CurrRecvMsg)
  | chunkForwarded
  deriving DecidableEq, Repr

/-- What the call returned. -/
def InboundExit.status : InboundExit → WtInbDataStatus
  | .disconnected | .recvError => .dconn
  | .blocked | .notResynced | .pduUnreachable _ | .chunkUnreachable _ => .stopEblk
  | .notComplete | .rejected _ _ | .requestServed | .pduForwarded | .chunkForwarded => .stopBorder

/-- What a call did: how it left, its client, the messages it gave to `wt_serve_response` in order,
and the message it enqueued for a recipient, with the recipient. -/
structure InboundResult where
  exit : InboundExit
  stdcl : StdClient
  responses : List MpscMsgNode
  forwarded : Option (Addr × MpscMsgNode)
  deriving DecidableEq, Repr

/-- A stage of a call: it leaves the function or goes on. -/
inductive InboundStage
  | leave (exit : InboundExit) (stdcl : StdClient)
  | go (stdcl : StdClient)

/-- The rest of the function behind a stage. -/
def InboundStage.andThen (stage : InboundStage) (next : StdClient → InboundResult) : InboundResult :=
  match stage with
  | .leave exit stdcl => ⟨exit, stdcl, [], none⟩
  | .go stdcl => next stdcl

/-! ### Receiving -/

/-- The difference of two numbers of type `uint64_t`. -/
def sub64 (left right : Nat) : Nat := if right ≤ left then left - right else 2 ^ 64 - (right - left)

namespace CurrRecvMsg

/-- `buf_data_offset += recved_data`. -/
def received (msg : CurrRecvMsg) (bytes : Bytes) : CurrRecvMsg :=
  { msg with recvbuf := msg.recvbuf ++ bytes }

/-- The same, and `total_msg_data_recved += recved_data`. -/
def receivedPayload (msg : CurrRecvMsg) (bytes : Bytes) : CurrRecvMsg :=
  { msg with
    recvbuf := msg.recvbuf ++ bytes
    totalMsgDataRecved := (msg.totalMsgDataRecved + bytes.length) % 2 ^ 64 }

/-- The loop that fills the buffer before a resynchronisation. -/
def resyncWanted (msg : CurrRecvMsg) : Option Nat :=
  if msg.recvbuf.length = lwmpMaxPduSize then none
  else some (lwmpMaxPduSize - msg.recvbuf.length)

/-- The loop that completes a header. -/
def hdrWanted (msg : CurrRecvMsg) : Option Nat :=
  if msg.recvbuf.length < lwmpHdrSize then some (lwmpHdrSize - msg.recvbuf.length) else none

/-- The loop that completes a first PDU, whose bound is a sum of type `uint64_t`. -/
def bodyWanted (msg : CurrRecvMsg) : Option Nat :=
  if msg.recvbuf.length < min ((lwmpHdrSize + msg.expectedMsgSize) % 2 ^ 64) lwmpMaxPduSize then
    some (min (sub64 msg.expectedMsgSize msg.totalMsgDataRecved)
      (lwmpMaxPduSize - msg.recvbuf.length))
  else none

/-- The loop that completes a chunk. -/
def chunkWanted (msg : CurrRecvMsg) : Option Nat :=
  if msg.totalMsgDataRecved < msg.expectedMsgSize ∧ msg.recvbuf.length < lwmpChunkBufSize then
    some (min (sub64 msg.expectedMsgSize msg.totalMsgDataRecved)
      (lwmpChunkBufSize - msg.recvbuf.length))
  else none

/-- `dest_uname` as it is taken from a PDU, with a NUL in its last byte. -/
def destOf (pdu : Bytes) : Bytes := (LwmpPdu.subjectUname pdu).take (unamesize - 1) ++ [0]

/-- What follows a complete header: unless that was done already, the fields of the message are
taken from it. -/
def startMsg (msg : CurrRecvMsg) : CurrRecvMsg :=
  if msg.msgType = 0 ∧ msg.expectedMsgSize = 0 then
    { msg with
      msgType := LwmpPdu.msgType msg.recvbuf
      destUname := if LwmpPdu.msgType msg.recvbuf ≠ MsgType.req.code then destOf msg.recvbuf
        else msg.destUname
      expectedMsgSize := LwmpPdu.totalMsgSize msg.recvbuf
      totalMsgDataRecved := msg.recvbuf.length - lwmpHdrSize }
  else msg

/-- The test in front of the header validation. -/
def pduReady (msg : CurrRecvMsg) : Prop :=
  msg.expectedMsgSize ≤ msg.totalMsgDataRecved ∨ msg.recvbuf.length = lwmpMaxPduSize

instance (msg : CurrRecvMsg) : Decidable msg.pduReady :=
  inferInstanceAs (Decidable (_ ∨ _))

/-- `memset` from `expected_msg_size` on and `buf_data_offset = 0`. -/
def reset (msg : CurrRecvMsg) : CurrRecvMsg := { msg.cleared with recvbuf := [] }

@[simp] theorem reset_eq (msg : CurrRecvMsg) : msg.reset = fresh := rfl

end CurrRecvMsg

/-- What a loop around `recv_fn` leaves of a client. -/
def StdClient.afterRecv (stdcl : StdClient) (outcome : RecvOutcome CurrRecvMsg) : StdClient :=
  { stdcl with connection := outcome.connection, tempRecvStorage := outcome.state }

/-- A loop around `recv_fn` that leaves the function on every failure. -/
def inboundRecv (wanted : CurrRecvMsg → Option Nat) (received : CurrRecvMsg → Bytes → CurrRecvMsg)
    (stdcl : StdClient) : InboundStage :=
  let outcome := recvWhile wanted received stdcl.connection stdcl.tempRecvStorage
  match outcome.stopped with
  | some .error => .leave .recvError (cleanupStdClient (stdcl.afterRecv outcome))
  | some .eblock => .leave .blocked (stdcl.afterRecv outcome)
  | none => .go (stdcl.afterRecv outcome)

/-- The branch for a client whose stream is out of step. -/
def inboundResync (stdcl : StdClient) : InboundStage :=
  if stdcl.tempRecvStorage.isDesynced then
    let outcome := recvDoWhile (lwmpMaxPduSize - stdcl.tempRecvStorage.recvbuf.length)
      CurrRecvMsg.resyncWanted CurrRecvMsg.received stdcl.connection stdcl.tempRecvStorage
    let stdcl := stdcl.afterRecv outcome
    if outcome.stopped = some .error then
      .leave .recvError (cleanupStdClient stdcl)
    else
      let recvbuf := lwmpStreamResync stdcl.tempRecvStorage.recvbuf
      if recvbuf.length ≠ 0 then
        .go { stdcl with
          tempRecvStorage := { stdcl.tempRecvStorage with recvbuf, isDesynced := false } }
      else
        .leave .notResynced { stdcl with tempRecvStorage := { stdcl.tempRecvStorage with recvbuf } }
  else .go stdcl

/-- The branch for the first PDU of a message, up to the header validation. -/
def inboundRecvPdu (stdcl : StdClient) : InboundStage :=
  match inboundRecv CurrRecvMsg.hdrWanted CurrRecvMsg.received stdcl with
  | .leave exit stdcl => .leave exit stdcl
  | .go stdcl =>
    let stdcl := { stdcl with tempRecvStorage := stdcl.tempRecvStorage.startMsg }
    match inboundRecv CurrRecvMsg.bodyWanted CurrRecvMsg.receivedPayload stdcl with
    | .leave exit stdcl => .leave exit stdcl
    | .go stdcl =>
      if stdcl.tempRecvStorage.pduReady then .go stdcl else .leave .notComplete stdcl

/-- The loop for the rest of a message. -/
def inboundRecvChunk (stdcl : StdClient) : InboundStage :=
  inboundRecv CurrRecvMsg.chunkWanted CurrRecvMsg.receivedPayload stdcl

/-! ### Delivering -/

/-- `handle_request`: the bytes it puts into `reqbuf`. -/
def handleRequest (pdu : Bytes) (userList : Bytes) : Bytes :=
  if beValue (slice 0 4 (LwmpPdu.optionalData pdu)) = reqUserList then userList else []

/-- The answer to a request that was handled. -/
def requestNode (reqbuf : Bytes) : MpscMsgNode :=
  if reqbuf = [] then
    responseNode .info (respCodes .invalReq) (some (ofLiteral "Failed to process request."))
  else
    let msg := msgNodeCreate none (lwmpHdrSize + reqbuf.length) none
    let pdu := lwmpPrepareResponse msg.buf .req (some (beBytes 4 (respCodes .ok))) none
    { msg with
      buf := LwmpPdu.setCrc32
        (LwmpPdu.setTotalMsgSize (pdu.take lwmpHdrSize ++ reqbuf) reqbuf.length) }

/-- The answer where the recipient of a message cannot be reached, as `snprintf` cuts it. -/
def unreachableNode (destUname : Bytes) : MpscMsgNode :=
  responseNode .info (respCodes .invalSubj) (some ((ofLiteral "Unable to reach recipient " ++
    cString destUname ++ ofLiteral ".").take 255))

/-- The message that forwards a first PDU: all of the buffer, under the name of its sender. -/
def forwardNode (recvbuf username : Bytes) : MpscMsgNode :=
  let msg := msgNodeCreate (some recvbuf) recvbuf.length (some username)
  { msg with buf := LwmpPdu.setCrc32 (LwmpPdu.setSubjectUname msg.buf username) }

/-- The message that forwards a chunk. -/
def chunkNode (recvbuf username : Bytes) : MpscMsgNode :=
  let msg := msgNodeCreate none (lwmpChunkHdrSize + recvbuf.length) (some username)
  { msg with buf := lwmpPrepareChunk msg.buf recvbuf.length username recvbuf }

/-- The chunk fills the buffer that was made for it. -/
theorem chunkNode_filled (recvbuf username : Bytes) :
    (msgNodeCreate none (lwmpChunkHdrSize + recvbuf.length) (some username)).buf.length ≤
      lwmpChunkHdrSize + recvbuf.length := by
  rw [msgNodeCreate, List.length_replicate]

/-- The end of the branch for a first PDU that was accepted. -/
def CurrRecvMsg.afterPdu (msg : CurrRecvMsg) : CurrRecvMsg :=
  if msg.totalMsgDataRecved = msg.expectedMsgSize then msg.reset
  else { msg with notMsgInitPdu := true }

/-- The end of the branch for a chunk. -/
def CurrRecvMsg.afterChunk (msg : CurrRecvMsg) : CurrRecvMsg :=
  if msg.expectedMsgSize = msg.totalMsgDataRecved then msg.reset else msg

/-- The functions a call validates a header with. -/
def InboundEnv.hvfns (env : InboundEnv) : HdrValidationFns where
  subjValidFn := validateRecipient env.validationTable
  reqValidFn := validateRequest
  allowFileTransfers := env.allowFileTransfers
  maxFilesizeB := env.maxFilesizeB

/-- The branch for a first PDU, from the header validation on. -/
def inboundDeliverPdu (env : InboundEnv) (stdcl : StdClient) : InboundResult :=
  let msg := stdcl.tempRecvStorage
  let hdrValRes := lwmpValidateHdrs msg.recvbuf msg.destUname env.hvfns
  let resp := responseNode .info (respCodes hdrValRes) none
  let stdcl := wtServeResponse stdcl resp
  if hdrValRes ≠ .ok then
    let tempRecvStorage := { msg.reset with isDesynced := hdrValRes = .crcerr }
    ⟨.rejected hdrValRes msg, { stdcl with tempRecvStorage }, [resp], none⟩
  else if msg.msgType = MsgType.req.code then
    let answer := requestNode (handleRequest msg.recvbuf env.userList)
    ⟨.requestServed, { wtServeResponse stdcl answer with tempRecvStorage := msg.afterPdu },
      [resp, answer], none⟩
  else
    match htableGetCond env.forwardTable (cString msg.destUname) with
    | none =>
      let answer := unreachableNode msg.destUname
      ⟨.pduUnreachable msg, { wtServeResponse stdcl answer with tempRecvStorage := msg.reset },
        [resp, answer], none⟩
    | some rcpt =>
      let tempRecvStorage := { msg with recvbuf := [] }.afterPdu
      ⟨.pduForwarded, { stdcl with tempRecvStorage }, [resp],
        some (rcpt, forwardNode msg.recvbuf stdcl.username)⟩

/-- The branch for a chunk, from the lookup of the recipient on. -/
def inboundDeliverChunk (env : InboundEnv) (stdcl : StdClient) : InboundResult :=
  let msg := stdcl.tempRecvStorage
  match htableGetCond env.forwardTable (cString msg.destUname) with
  | none =>
    let answer := unreachableNode msg.destUname
    let tempRecvStorage := { msg.reset with isDesynced := true }
    ⟨.chunkUnreachable msg, { wtServeResponse stdcl answer with tempRecvStorage }, [answer], none⟩
  | some rcpt =>
    let tempRecvStorage := { msg with recvbuf := [] }.afterChunk
    ⟨.chunkForwarded, { stdcl with tempRecvStorage }, [],
      some (rcpt, chunkNode msg.recvbuf stdcl.username)⟩

/-- `wt_handle_inbound_data`. -/
def wtHandleInboundData (env : InboundEnv) (stdcl : StdClient) : InboundResult :=
  if stdcl.clState = .disconnected then ⟨.disconnected, stdcl, [], none⟩
  else
    (inboundResync stdcl).andThen fun stdcl =>
      if ¬ stdcl.tempRecvStorage.notMsgInitPdu then
        (inboundRecvPdu stdcl).andThen (inboundDeliverPdu env)
      else
        (inboundRecvChunk stdcl).andThen (inboundDeliverChunk env)

end Lwmsg
