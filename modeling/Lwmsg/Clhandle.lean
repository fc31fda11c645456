/-
This file models the data of a client that the server keeps in `server/clhandle.h`
and the small functions of `server/clhandle.c` that its handlers call.

The two queues of a client are lists, oldest message first, which is what the queue
of `thrdmsg_mpscq.c` refines. The table of clients appears as what a lookup in it
would find at one moment, which is the map that `htable.c` refines.
-/

import Lwmsg.Netwrap
import Lwmsg.ThrdmsgMpscq

namespace Lwmsg

open Bytes Pointers

/-! ### The message being received -/

/-- `curr_recv_msg`. Of `recvbuf`, whose size is `LWMP_MAX_PDU_SIZE`, these are the first
`buf_data_offset` bytes: nothing reads the others. -/
structure CurrRecvMsg where
  recvbuf : Bytes
  expectedMsgSize : Nat
  totalMsgDataRecved : Nat
  msgType : Nat
  notMsgInitPdu : Bool
  isDesynced : Bool
  destUname : Bytes
  deriving DecidableEq, Repr

/-- The state in which `create_std_client` leaves it. -/
def CurrRecvMsg.fresh : CurrRecvMsg where
  recvbuf := []
  expectedMsgSize := 0
  totalMsgDataRecved := 0
  msgType := MsgType.none.code
  notMsgInitPdu := false
  isDesynced := false
  destUname := List.replicate unamesize 0

/-- `memset` from `expected_msg_size` on, which keeps the buffer. -/
def CurrRecvMsg.cleared (msg : CurrRecvMsg) : CurrRecvMsg := { CurrRecvMsg.fresh with recvbuf := msg.recvbuf }

/-! ### Clients -/

/-- `enum client_state`. -/
inductive ClientState
  | init
  | accepting
  | accepted
  | disconnected
  | registered
  | authenticated
  deriving DecidableEq, Repr

/-- The events a client registers for. -/
inductive EpollEvent
  | epollin
  | epollout
  deriving DecidableEq, Repr

/-- `std_client`, with the `client` at its start. Of its table node only `key_size` is kept. The two
sets of events are what the last `epoll_ctl` for its socket and for the eventfd of its queue asked
for. -/
structure StdClient where
  connection : Conn
  tempRecvStorage : CurrRecvMsg
  peerName : Bytes
  clState : ClientState
  pendingUserdataQueue : List MpscMsgNode
  pendingCtrlQueue : List MpscMsgNode
  tempSendStorage : Option MpscMsgNode
  keySize : Nat
  username : Bytes
  sockEvents : List EpollEvent
  queueEvents : List EpollEvent
  deriving DecidableEq, Repr

/-- `create_std_client`, for a socket that became `connection`. -/
def createStdClient (peerName : Bytes) (connection : Conn) : StdClient where
  connection
  tempRecvStorage := .fresh
  peerName
  clState := .init
  pendingUserdataQueue := []
  pendingCtrlQueue := []
  tempSendStorage := none
  keySize := 0
  username := List.replicate unamesize 0
  sockEvents := []
  queueEvents := []

/-- The clients a lookup finds at one moment: where the node of a name lies, and the state of the
client it belongs to. -/
abbrev ClientTable := Bytes → Option (Addr × ClientState)

/-- `is_not_disconnected`. -/
def isNotDisconnected (clState : ClientState) : Bool := clState != .disconnected

/-- `htable_get_cond` with the condition `is_not_disconnected`. The reference it takes keeps the
node from being freed until the caller puts it. -/
def htableGetCond (table : ClientTable) (key : Bytes) : Option Addr :=
  if key.headD 0 = 0 then none
  else
    match table key with
    | none => none
    | some (addr, clState) => if isNotDisconnected clState then some addr else none

/-- `validate_recipient`. -/
def validateRecipient (table : ClientTable) (rcptUname : Bytes) : Bool :=
  (htableGetCond table (cString rcptUname)).isSome

/-- `validate_request`. -/
def validateRequest (pdu : Bytes) : Bool :=
  LwmpPdu.msgType pdu == MsgType.req.code &&
    beValue (slice 0 4 (LwmpPdu.optionalData pdu)) == reqUserList

end Lwmsg
