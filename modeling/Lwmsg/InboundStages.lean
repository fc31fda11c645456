/-
This file says once what each stage of `wt_handle_inbound_data` can do. Between two
calls the receive state has one of four shapes: it collects a header, it collects
the rest of a first PDU, it is in the middle of a message, or the stream is out of
step. A stage takes some bytes from the connection and goes on if they are all it
asked for. Every property of the function is derived from the cases collected here.
-/

import Lwmsg.Inbound

namespace Lwmsg

open Bytes Pointers

namespace CurrRecvMsg

/-! ### The shapes of the receive state -/

/-- No message is begun; some bytes of a header may be there. -/
def idle (recvbuf : Bytes) : CurrRecvMsg := { fresh with recvbuf }

/-- The header of a message was read from a buffer that holds the first bytes of its first PDU. -/
def opened (recvbuf : Bytes) : CurrRecvMsg where
  recvbuf
  expectedMsgSize := LwmpPdu.totalMsgSize recvbuf
  totalMsgDataRecved := recvbuf.length - lwmpHdrSize
  msgType := LwmpPdu.msgType recvbuf
  notMsgInitPdu := false
  isDesynced := false
  destUname := if LwmpPdu.msgType recvbuf ≠ MsgType.req.code then destOf recvbuf
    else List.replicate unamesize 0

/-- The stream is out of step. -/
def desynced : CurrRecvMsg := { fresh with isDesynced := true }

/-- What a call can find. -/
inductive Waiting : CurrRecvMsg → Prop
  | idle {buf : Bytes} (short : buf.length < lwmpHdrSize) : Waiting (idle buf)
  | opened {buf : Bytes} (header : lwmpHdrSize ≤ buf.length) (space : buf.length < lwmpMaxPduSize)
      (unfinished : buf.length - lwmpHdrSize < LwmpPdu.totalMsgSize buf) : Waiting (opened buf)
  | desynced : Waiting desynced
  | chunks {msg : CurrRecvMsg} (begun : msg.notMsgInitPdu = true) (inStep : msg.isDesynced = false)
      (word : msg.expectedMsgSize < 2 ^ 64) (recvedWord : msg.totalMsgDataRecved < 2 ^ 64) :
      Waiting msg

theorem waiting_fresh : Waiting fresh := @Waiting.idle [] (by decide)

@[simp] theorem idle_recvbuf (buf : Bytes) : (idle buf).recvbuf = buf := rfl
@[simp] theorem idle_notMsgInitPdu (buf : Bytes) : (idle buf).notMsgInitPdu = false := rfl
@[simp] theorem idle_isDesynced (buf : Bytes) : (idle buf).isDesynced = false := rfl
@[simp] theorem opened_recvbuf (buf : Bytes) : (opened buf).recvbuf = buf := rfl
@[simp] theorem opened_notMsgInitPdu (buf : Bytes) : (opened buf).notMsgInitPdu = false := rfl
@[simp] theorem opened_isDesynced (buf : Bytes) : (opened buf).isDesynced = false := rfl
@[simp] theorem opened_msgType (buf : Bytes) : (opened buf).msgType = LwmpPdu.msgType buf := rfl
@[simp] theorem opened_expectedMsgSize (buf : Bytes) :
    (opened buf).expectedMsgSize = LwmpPdu.totalMsgSize buf := rfl
@[simp] theorem opened_totalMsgDataRecved (buf : Bytes) :
    (opened buf).totalMsgDataRecved = buf.length - lwmpHdrSize := rfl
@[simp] theorem desynced_recvbuf : desynced.recvbuf = [] := rfl

theorem opened_destUname {buf : Bytes} (message : LwmpPdu.msgType buf ≠ MsgType.req.code) :
    (opened buf).destUname = destOf buf := if_pos message

/-- The fields of a message are not taken again while it is unfinished. -/
theorem opened_startMsg {buf : Bytes}
    (unfinished : buf.length - lwmpHdrSize < LwmpPdu.totalMsgSize buf) :
    (opened buf).startMsg = opened buf := by
  have positive : LwmpPdu.totalMsgSize buf ≠ 0 := by omega
  rw [startMsg, if_neg fun ⟨_, zero⟩ => positive zero]

/-- The fields of a message only depend on its header and on how much is there. -/
theorem opened_receivedPayload {buf bytes : Bytes} (header : lwmpHdrSize ≤ buf.length)
    (small : buf.length + bytes.length < 2 ^ 64) :
    (opened buf).receivedPayload bytes = opened (buf ++ bytes) := by
  have count : (buf.length - lwmpHdrSize + bytes.length) % 2 ^ 64 =
      (buf ++ bytes).length - lwmpHdrSize := by
    rw [List.length_append, Nat.mod_eq_of_lt (by omega)]
    omega
  have dest : destOf (buf ++ bytes) = destOf buf := by
    rw [destOf, LwmpPdu.subjectUname_append header, destOf]
  simp only [opened, receivedPayload, count, LwmpPdu.totalMsgSize_append header,
    LwmpPdu.msgType_append header, dest]

/-! ### The loops fill up -/

theorem sub64_of_le {left right : Nat} (le : right ≤ left) : sub64 left right = left - right :=
  if_pos le

theorem hdrFills : Fills hdrWanted received (fun msg => lwmpHdrSize - msg.recvbuf.length)
    (fun _ => True) where
  wanted_eq := by
    intro msg _
    rw [hdrWanted]
    by_cases short : msg.recvbuf.length < lwmpHdrSize
    · rw [if_pos short, if_neg (by omega)]
    · rw [if_neg short, if_pos (by omega)]
  received_nil := by
    intro msg _
    rw [received, List.append_nil]
  received_append := by
    intro msg first second _
    simp only [received, List.append_assoc]
  room_received := by
    intro msg bytes _ fits
    simp only [received, List.length_append]
    omega
  good_received := fun _ _ _ _ => trivial

theorem resyncFills : Fills resyncWanted received (fun msg => lwmpMaxPduSize - msg.recvbuf.length)
    (fun msg => msg.recvbuf.length ≤ lwmpMaxPduSize) where
  wanted_eq := by
    intro msg within
    rw [resyncWanted]
    by_cases full : msg.recvbuf.length = lwmpMaxPduSize
    · rw [if_pos full, if_pos (by omega)]
    · rw [if_neg full, if_neg (by omega)]
  received_nil := by
    intro msg _
    rw [received, List.append_nil]
  received_append := by
    intro msg first second _
    simp only [received, List.append_assoc]
  room_received := by
    intro msg bytes _ fits
    simp only [received, List.length_append]
    omega
  good_received := by
    intro msg bytes within fits
    simp only [received, List.length_append]
    omega

theorem receivedPayload_nil {msg : CurrRecvMsg} (word : msg.totalMsgDataRecved < 2 ^ 64) :
    msg.receivedPayload [] = msg := by
  rw [receivedPayload, List.append_nil, List.length_nil, Nat.add_zero, Nat.mod_eq_of_lt word]

theorem receivedPayload_append (msg : CurrRecvMsg) (first second : Bytes) :
    (msg.receivedPayload first).receivedPayload second = msg.receivedPayload (first ++ second) := by
  simp only [receivedPayload, List.append_assoc, List.length_append, Nat.mod_add_mod, Nat.add_assoc]

/-- How much the loop for a first PDU still takes. Where the sum overflows it takes nothing. -/
def bodyRoom (msg : CurrRecvMsg) : Nat :=
  min ((lwmpHdrSize + msg.expectedMsgSize) % 2 ^ 64) lwmpMaxPduSize - msg.recvbuf.length

/-- A state in which the counter and the buffer agree. -/
structure InFirstPdu (msg : CurrRecvMsg) : Prop where
  counted : msg.totalMsgDataRecved + lwmpHdrSize = msg.recvbuf.length
  within : msg.recvbuf.length ≤ lwmpMaxPduSize
  word : msg.expectedMsgSize < 2 ^ 64

theorem bodyRoom_of_small {msg : CurrRecvMsg} (small : lwmpHdrSize + msg.expectedMsgSize < 2 ^ 64) :
    bodyRoom msg =
      min (lwmpHdrSize + msg.expectedMsgSize) lwmpMaxPduSize - msg.recvbuf.length := by
  rw [bodyRoom, Nat.mod_eq_of_lt small]

theorem bodyRoom_of_large {msg : CurrRecvMsg} (state : InFirstPdu msg)
    (large : 2 ^ 64 ≤ lwmpHdrSize + msg.expectedMsgSize) : bodyRoom msg = 0 := by
  have counted := state.counted
  have word := state.word
  simp only [lwmpHdrSize] at counted large
  simp only [bodyRoom, lwmpHdrSize]
  omega

theorem bodyFills : Fills bodyWanted receivedPayload bodyRoom InFirstPdu where
  wanted_eq := by
    intro msg state
    have counted := state.counted
    have within := state.within
    rw [bodyWanted]
    by_cases full : bodyRoom msg = 0
    · rw [if_pos full, if_neg]
      rw [bodyRoom] at full
      omega
    · have small : lwmpHdrSize + msg.expectedMsgSize < 2 ^ 64 := by
        by_contra large
        exact full (bodyRoom_of_large state (not_lt.mp large))
      rw [bodyRoom_of_small small] at full ⊢
      rw [Nat.mod_eq_of_lt small, if_pos (by omega), if_neg full, sub64_of_le (by omega)]
      congr 1
      omega
  received_nil := by
    intro msg state
    have counted := state.counted
    have within := state.within
    simp only [lwmpHdrSize, lwmpMaxPduSize] at counted within
    exact receivedPayload_nil (by omega)
  received_append := fun msg first second _ => receivedPayload_append msg first second
  room_received := by
    intro msg bytes _ fits
    simp only [bodyRoom, receivedPayload, List.length_append] at fits ⊢
    omega
  good_received := by
    intro msg bytes state fits
    have counted := state.counted
    have within := state.within
    simp only [bodyRoom, lwmpHdrSize, lwmpMaxPduSize] at counted within fits
    refine ⟨?_, ?_, state.word⟩
    · simp only [receivedPayload, List.length_append, lwmpHdrSize]
      rw [Nat.mod_eq_of_lt (by omega)]
      omega
    · simp only [receivedPayload, List.length_append, lwmpMaxPduSize]
      omega

/-- How much the loop for a chunk still takes. -/
def chunkRoom (msg : CurrRecvMsg) : Nat :=
  min (msg.expectedMsgSize - msg.totalMsgDataRecved) (lwmpChunkBufSize - msg.recvbuf.length)

/-- A state whose counters are numbers of type `uint64_t`. -/
structure Counters (msg : CurrRecvMsg) : Prop where
  expected : msg.expectedMsgSize < 2 ^ 64
  recved : msg.totalMsgDataRecved < 2 ^ 64

theorem receivedPayload_totalMsgDataRecved {msg : CurrRecvMsg} {bytes : Bytes} (state : Counters msg)
    (fits : bytes.length ≤ chunkRoom msg) :
    (msg.receivedPayload bytes).totalMsgDataRecved = msg.totalMsgDataRecved + bytes.length := by
  have expected := state.expected
  have recved := state.recved
  rw [chunkRoom] at fits
  exact Nat.mod_eq_of_lt (by omega)

theorem chunkFills : Fills chunkWanted receivedPayload chunkRoom Counters where
  wanted_eq := by
    intro msg state
    rw [chunkWanted]
    by_cases more : msg.totalMsgDataRecved < msg.expectedMsgSize ∧
        msg.recvbuf.length < lwmpChunkBufSize
    · rw [if_pos more, if_neg (by rw [chunkRoom]; omega), sub64_of_le (by omega), chunkRoom]
    · rw [if_neg more, if_pos (by rw [chunkRoom]; omega)]
  received_nil := fun msg state => receivedPayload_nil state.recved
  received_append := fun msg first second _ => receivedPayload_append msg first second
  room_received := by
    intro msg bytes state fits
    have recved := receivedPayload_totalMsgDataRecved state fits
    rw [chunkRoom, recved, chunkRoom]
    simp only [receivedPayload, List.length_append]
    omega
  good_received := by
    intro msg bytes state fits
    exact ⟨state.expected, Nat.mod_lt _ (by decide)⟩

end CurrRecvMsg

/-! ### The stages -/

/-- A client with another connection and another receive state. -/
def StdClient.withRecv (stdcl : StdClient) (connection : Conn) (tempRecvStorage : CurrRecvMsg) :
    StdClient := { stdcl with connection, tempRecvStorage }

@[simp] theorem withRecv_tempRecvStorage (stdcl : StdClient) (connection : Conn)
    (msg : CurrRecvMsg) : (stdcl.withRecv connection msg).tempRecvStorage = msg := rfl

@[simp] theorem withRecv_connection (stdcl : StdClient) (connection : Conn) (msg : CurrRecvMsg) :
    (stdcl.withRecv connection msg).connection = connection := rfl

@[simp] theorem withRecv_username (stdcl : StdClient) (connection : Conn) (msg : CurrRecvMsg) :
    (stdcl.withRecv connection msg).username = stdcl.username := rfl

@[simp] theorem withRecv_withRecv (stdcl : StdClient) (connection other : Conn)
    (msg otherMsg : CurrRecvMsg) :
    (stdcl.withRecv connection msg).withRecv other otherMsg = stdcl.withRecv other otherMsg := rfl

/-- What a loop that leaves on every failure does. -/
inductive Looped (stdcl : StdClient) (received : Bytes → CurrRecvMsg) (room : Nat) :
    InboundStage → Prop
  | full {bytes connection} (receives : stdcl.connection.Receives bytes connection)
      (length : bytes.length = room) :
      Looped stdcl received room (.go (stdcl.withRecv connection (received bytes)))
  | blocked {bytes connection} (receives : stdcl.connection.Receives bytes connection)
      (short : bytes.length < room) :
      Looped stdcl received room (.leave .blocked (stdcl.withRecv connection (received bytes)))
  | failed {bytes connection} (receives : stdcl.connection.Receives bytes connection)
      (fails : ¬ stdcl.connection.NeverFails) :
      Looped stdcl received room
        (.leave .recvError (cleanupStdClient (stdcl.withRecv connection (received bytes))))

theorem inboundRecv_looped {wanted : CurrRecvMsg → Option Nat}
    {received : CurrRecvMsg → Bytes → CurrRecvMsg} {room : CurrRecvMsg → Nat}
    {good : CurrRecvMsg → Prop} (fills : Fills wanted received room good) (stdcl : StdClient)
    (start : good stdcl.tempRecvStorage) :
    Looped stdcl (received stdcl.tempRecvStorage) (room stdcl.tempRecvStorage)
      (inboundRecv wanted received stdcl) := by
  obtain ⟨bytes, filled⟩ := fills.recvWhile stdcl.connection stdcl.tempRecvStorage start
  have left : stdcl.afterRecv (recvWhile wanted received stdcl.connection stdcl.tempRecvStorage) =
      stdcl.withRecv (recvWhile wanted received stdcl.connection stdcl.tempRecvStorage).connection
        (received stdcl.tempRecvStorage bytes) := by
    rw [StdClient.afterRecv, filled.state_eq, StdClient.withRecv]
  have complete := filled.complete
  have fits := filled.fits
  rw [inboundRecv]
  simp only [left]
  cases stopped : (recvWhile wanted received stdcl.connection stdcl.tempRecvStorage).stopped with
  | none => exact .full filled.receives (complete.mp stopped)
  | some reason =>
    have short : bytes.length ≠ room stdcl.tempRecvStorage := fun equal => by
      simp [complete.mpr equal] at stopped
    cases reason with
    | error => exact .failed filled.receives fun clean => filled.clean clean stopped
    | eblock => exact .blocked filled.receives (by omega)

/-- What the branch for a stream out of step does. -/
inductive Resynced (stdcl : StdClient) : InboundStage → Prop
  | located {bytes connection} (receives : stdcl.connection.Receives bytes connection)
      (within : bytes.length ≤ lwmpMaxPduSize) (kept : lwmpStreamResync bytes ≠ []) :
      Resynced stdcl (.go (stdcl.withRecv connection (.idle (lwmpStreamResync bytes))))
  | lost {bytes connection} (receives : stdcl.connection.Receives bytes connection) :
      Resynced stdcl (.leave .notResynced (stdcl.withRecv connection .desynced))
  | failed {bytes connection msg} (receives : stdcl.connection.Receives bytes connection)
      (fails : ¬ stdcl.connection.NeverFails) :
      Resynced stdcl (.leave .recvError (cleanupStdClient (stdcl.withRecv connection msg)))

theorem inboundResync_of_inStep {stdcl : StdClient}
    (inStep : stdcl.tempRecvStorage.isDesynced = false) : inboundResync stdcl = .go stdcl := by
  rw [inboundResync, inStep]
  rfl

/-- The branch receives some bytes and searches them, or it fails. -/
theorem inboundResync_search {stdcl : StdClient} (out : stdcl.tempRecvStorage = .desynced) :
    (∃ bytes connection, stdcl.connection.Receives bytes connection ∧
      bytes.length ≤ lwmpMaxPduSize ∧ inboundResync stdcl =
        if lwmpStreamResync bytes = [] then
          .leave .notResynced (stdcl.withRecv connection .desynced)
        else .go (stdcl.withRecv connection (.idle (lwmpStreamResync bytes)))) ∨
    ∃ bytes connection msg, stdcl.connection.Receives bytes connection ∧
      ¬ stdcl.connection.NeverFails ∧ inboundResync stdcl =
        .leave .recvError (cleanupStdClient (stdcl.withRecv connection msg)) := by
  have start : stdcl.tempRecvStorage.recvbuf.length ≤ lwmpMaxPduSize := by
    rw [out]
    decide
  have flag : stdcl.tempRecvStorage.isDesynced = true := by
    rw [out]
    rfl
  have loop : recvDoWhile (lwmpMaxPduSize - stdcl.tempRecvStorage.recvbuf.length)
      CurrRecvMsg.resyncWanted CurrRecvMsg.received stdcl.connection stdcl.tempRecvStorage =
      recvWhile CurrRecvMsg.resyncWanted CurrRecvMsg.received stdcl.connection
        stdcl.tempRecvStorage :=
    CurrRecvMsg.resyncFills.recvDoWhile stdcl.connection stdcl.tempRecvStorage start
      (by rw [out]; decide)
  obtain ⟨bytes, filled⟩ := CurrRecvMsg.resyncFills.recvWhile stdcl.connection
    stdcl.tempRecvStorage start
  have fits : bytes.length ≤ lwmpMaxPduSize :=
    filled.fits.trans (Nat.sub_le _ _)
  have state : (recvWhile CurrRecvMsg.resyncWanted CurrRecvMsg.received stdcl.connection
      stdcl.tempRecvStorage).state = { CurrRecvMsg.desynced with recvbuf := bytes } := by
    rw [filled.state_eq, out]
    rfl
  rw [inboundResync, if_pos flag]
  simp only [loop, StdClient.afterRecv, state]
  split
  · rename_i stopped
    exact .inr ⟨bytes, _, _, filled.receives, fun clean => filled.clean clean stopped, rfl⟩
  · refine .inl ⟨bytes, _, filled.receives, fits, ?_⟩
    by_cases lost : lwmpStreamResync bytes = []
    · rw [lost, if_neg (by simp), if_pos rfl]
      rfl
    · rw [if_pos (by simpa using lost), if_neg lost]
      rfl

theorem inboundResync_resynced {stdcl : StdClient} (out : stdcl.tempRecvStorage = .desynced) :
    Resynced stdcl (inboundResync stdcl) := by
  rcases inboundResync_search out with ⟨bytes, connection, receives, within, searched⟩ |
    ⟨bytes, connection, msg, receives, fails, failed⟩
  · rw [searched]
    split
    · exact .lost receives
    · rename_i kept
      exact .located receives within kept
  · rw [failed]
    exact .failed receives fails

/-- What the branch for a first PDU does to a client that holds the first bytes of one. -/
inductive PduReceived (stdcl : StdClient) (buf : Bytes) : InboundStage → Prop
  | hdrBlocked {bytes connection} (receives : stdcl.connection.Receives bytes connection)
      (short : (buf ++ bytes).length < lwmpHdrSize) :
      PduReceived stdcl buf
        (.leave .blocked (stdcl.withRecv connection (.idle (buf ++ bytes))))
  | bodyBlocked {bytes connection} (receives : stdcl.connection.Receives bytes connection)
      (header : lwmpHdrSize ≤ (buf ++ bytes).length)
      (space : (buf ++ bytes).length < lwmpMaxPduSize)
      (unfinished : (buf ++ bytes).length - lwmpHdrSize < LwmpPdu.totalMsgSize (buf ++ bytes)) :
      PduReceived stdcl buf
        (.leave .blocked (stdcl.withRecv connection (.opened (buf ++ bytes))))
  | failed {bytes connection msg} (receives : stdcl.connection.Receives bytes connection)
      (fails : ¬ stdcl.connection.NeverFails) :
      PduReceived stdcl buf (.leave .recvError (cleanupStdClient (stdcl.withRecv connection msg)))
  | notComplete {bytes connection} (receives : stdcl.connection.Receives bytes connection)
      (header : lwmpHdrSize ≤ (buf ++ bytes).length)
      (space : (buf ++ bytes).length < lwmpMaxPduSize)
      (overflows : 2 ^ 64 ≤ lwmpHdrSize + LwmpPdu.totalMsgSize (buf ++ bytes)) :
      PduReceived stdcl buf
        (.leave .notComplete (stdcl.withRecv connection (.opened (buf ++ bytes))))
  | ready {bytes connection} (receives : stdcl.connection.Receives bytes connection)
      (header : lwmpHdrSize ≤ (buf ++ bytes).length)
      (within : (buf ++ bytes).length ≤ lwmpMaxPduSize)
      (ready : (CurrRecvMsg.opened (buf ++ bytes)).pduReady)
      (exact : (buf ++ bytes).length ≤ lwmpHdrSize + LwmpPdu.totalMsgSize (buf ++ bytes) ∨
        bytes = [] ∧ lwmpHdrSize < buf.length) :
      PduReceived stdcl buf (.go (stdcl.withRecv connection (.opened (buf ++ bytes))))

/-- The last part of the branch, behind the header. -/
def inboundRecvBody (stdcl : StdClient) : InboundStage :=
  match inboundRecv CurrRecvMsg.bodyWanted CurrRecvMsg.receivedPayload stdcl with
  | .leave exit stdcl => .leave exit stdcl
  | .go stdcl => if stdcl.tempRecvStorage.pduReady then .go stdcl else .leave .notComplete stdcl

theorem inFirstPdu_opened {buf : Bytes} (header : lwmpHdrSize ≤ buf.length)
    (within : buf.length ≤ lwmpMaxPduSize) : (CurrRecvMsg.opened buf).InFirstPdu where
  counted := by
    rw [CurrRecvMsg.opened_totalMsgDataRecved, CurrRecvMsg.opened_recvbuf]
    omega
  within := within
  word := LwmpPdu.totalMsgSize_lt buf

theorem inboundRecvBody_received {stdcl : StdClient} {buf : Bytes}
    (start : stdcl.tempRecvStorage = .opened buf) (header : lwmpHdrSize ≤ buf.length)
    (within : buf.length ≤ lwmpMaxPduSize) :
    PduReceived stdcl buf (inboundRecvBody stdcl) := by
  have state : stdcl.tempRecvStorage.InFirstPdu := start ▸ inFirstPdu_opened header within
  have looped := inboundRecv_looped CurrRecvMsg.bodyFills stdcl state
  have roomLe : (CurrRecvMsg.opened buf).bodyRoom ≤ lwmpMaxPduSize - buf.length := by
    rw [CurrRecvMsg.bodyRoom, CurrRecvMsg.opened_recvbuf]
    omega
  have size (bytes : Bytes) :
      LwmpPdu.totalMsgSize (buf ++ bytes) = LwmpPdu.totalMsgSize buf :=
    LwmpPdu.totalMsgSize_append header
  have joined (bytes : Bytes) (fits : bytes.length ≤ (CurrRecvMsg.opened buf).bodyRoom) :
      (CurrRecvMsg.opened buf).receivedPayload bytes = .opened (buf ++ bytes) := by
    refine CurrRecvMsg.opened_receivedPayload header ?_
    simp only [lwmpMaxPduSize] at within roomLe
    omega
  rw [start] at looped
  rw [inboundRecvBody]
  generalize inboundRecv CurrRecvMsg.bodyWanted CurrRecvMsg.receivedPayload stdcl = stage at looped ⊢
  cases looped with
  | full receives length =>
    rename_i bytes connection
    have lengths : (buf ++ bytes).length = buf.length + bytes.length := List.length_append
    simp only [joined bytes length.le]
    by_cases ready : (CurrRecvMsg.opened (buf ++ bytes)).pduReady
    · rw [if_pos (by exact ready)]
      refine .ready receives (by omega) (by omega) ready ?_
      rw [size]
      by_cases small : lwmpHdrSize + LwmpPdu.totalMsgSize buf < 2 ^ 64
      · have room := @CurrRecvMsg.bodyRoom_of_small (.opened buf) small
        rw [CurrRecvMsg.opened_recvbuf, CurrRecvMsg.opened_expectedMsgSize] at room
        by_cases long : lwmpHdrSize + LwmpPdu.totalMsgSize buf < buf.length
        · exact .inr ⟨List.eq_nil_of_length_eq_zero (by omega), by omega⟩
        · exact .inl (by omega)
      · simp only [lwmpMaxPduSize] at within roomLe
        exact .inl (by omega)
    · rw [if_neg (by exact ready)]
      rw [CurrRecvMsg.pduReady, not_or, CurrRecvMsg.opened_expectedMsgSize,
        CurrRecvMsg.opened_totalMsgDataRecved, CurrRecvMsg.opened_recvbuf, size] at ready
      obtain ⟨unfinished, notFull⟩ := ready
      refine .notComplete receives (by omega) (by omega) ?_
      rw [size]
      by_contra small
      have room := @CurrRecvMsg.bodyRoom_of_small (.opened buf) (not_le.mp small)
      rw [CurrRecvMsg.opened_recvbuf, CurrRecvMsg.opened_expectedMsgSize] at room
      omega
  | blocked receives short =>
    rename_i bytes connection
    have lengths : (buf ++ bytes).length = buf.length + bytes.length := List.length_append
    have small : lwmpHdrSize + LwmpPdu.totalMsgSize buf < 2 ^ 64 := by
      by_contra large
      have none := CurrRecvMsg.bodyRoom_of_large (start ▸ state) (not_lt.mp large)
      omega
    have room := @CurrRecvMsg.bodyRoom_of_small (.opened buf) small
    rw [CurrRecvMsg.opened_recvbuf, CurrRecvMsg.opened_expectedMsgSize] at room
    simp only [joined bytes short.le]
    refine .bodyBlocked receives (by omega) (by omega) ?_
    rw [size]
    omega
  | failed receives fails => exact .failed receives fails

/-- A client at the start of the branch: it holds some bytes of a header, or what the
resynchronisation left, or the first bytes of an unfinished PDU. -/
inductive PduStart : CurrRecvMsg → Bytes → Prop
  | idle {buf} (within : buf.length ≤ lwmpMaxPduSize) : PduStart (.idle buf) buf
  | opened {buf} (header : lwmpHdrSize ≤ buf.length) (space : buf.length < lwmpMaxPduSize)
      (unfinished : buf.length - lwmpHdrSize < LwmpPdu.totalMsgSize buf) :
      PduStart (.opened buf) buf

/-- What a stage does behind bytes that were received before it. -/
theorem PduReceived.after {stdcl : StdClient} {buf bytes : Bytes} {connection : Conn}
    {msg : CurrRecvMsg} {stage : InboundStage}
    (receives : stdcl.connection.Receives bytes connection)
    (received : PduReceived (stdcl.withRecv connection msg) (buf ++ bytes) stage)
    (exact : bytes = [] ∨ (buf ++ bytes).length = lwmpHdrSize) : PduReceived stdcl buf stage := by
  have clean (fails : ¬ connection.NeverFails) : ¬ stdcl.connection.NeverFails :=
    fun harmless => fails (receives.neverFails harmless)
  cases received with
  | hdrBlocked more short =>
    rw [List.append_assoc] at short ⊢
    exact .hdrBlocked (receives.trans more) short
  | bodyBlocked more header space unfinished =>
    rw [List.append_assoc] at header space unfinished ⊢
    exact .bodyBlocked (receives.trans more) header space unfinished
  | failed more fails => exact .failed (receives.trans more) (clean fails)
  | notComplete more header space overflows =>
    rw [List.append_assoc] at header space overflows ⊢
    exact .notComplete (receives.trans more) header space overflows
  | ready more header within ready fits =>
    rename_i rest last
    have outcome : (buf ++ bytes ++ rest).length ≤
        lwmpHdrSize + LwmpPdu.totalMsgSize (buf ++ bytes ++ rest) ∨
        bytes ++ rest = [] ∧ lwmpHdrSize < buf.length := by
      rcases fits with within | ⟨none, long⟩
      · exact .inl within
      · rcases exact with empty | short
        · rw [empty, List.append_nil] at long
          exact .inr ⟨by rw [empty, none, List.append_nil], long⟩
        · omega
    rw [List.append_assoc] at header within ready outcome ⊢
    exact .ready (receives.trans more) header within ready outcome

theorem inboundRecvPdu_received {stdcl : StdClient} {buf : Bytes}
    (start : PduStart stdcl.tempRecvStorage buf) :
    PduReceived stdcl buf (inboundRecvPdu stdcl) := by
  have looped := inboundRecv_looped CurrRecvMsg.hdrFills stdcl trivial
  have unfolded : inboundRecvPdu stdcl =
      match inboundRecv CurrRecvMsg.hdrWanted CurrRecvMsg.received stdcl with
      | .leave exit stdcl => .leave exit stdcl
      | .go stdcl => inboundRecvBody
        (stdcl.withRecv stdcl.connection stdcl.tempRecvStorage.startMsg) := rfl
  rw [unfolded]
  generalize inboundRecv CurrRecvMsg.hdrWanted CurrRecvMsg.received stdcl = stage at looped ⊢
  generalize stdcl.tempRecvStorage = msg at start looped
  cases start with
  | idle within =>
    cases looped with
    | full receives length =>
      rename_i bytes connection
      have lengths : (buf ++ bytes).length = buf.length + bytes.length := List.length_append
      simp only [CurrRecvMsg.idle_recvbuf, lwmpHdrSize, lwmpMaxPduSize] at length within
      have body := @inboundRecvBody_received
        (stdcl.withRecv connection (.opened (buf ++ bytes))) (buf ++ bytes) rfl
        (by simp only [lwmpHdrSize]; omega) (by simp only [lwmpMaxPduSize]; omega)
      refine PduReceived.after receives body ?_
      by_cases long : lwmpHdrSize ≤ buf.length
      · simp only [lwmpHdrSize] at long
        exact .inl (List.eq_nil_of_length_eq_zero (by omega))
      · simp only [lwmpHdrSize] at long ⊢
        exact .inr (by omega)
    | blocked receives short =>
      rename_i bytes connection
      refine .hdrBlocked receives ?_
      rw [CurrRecvMsg.idle_recvbuf] at short
      rw [List.length_append]
      omega
    | failed receives fails => exact .failed receives fails
  | opened header space unfinished =>
    cases looped with
    | full receives length =>
      rename_i bytes connection
      rw [CurrRecvMsg.opened_recvbuf] at length
      obtain rfl : bytes = [] := List.eq_nil_of_length_eq_zero (by omega)
      have body := @inboundRecvBody_received (stdcl.withRecv connection (.opened buf)) buf rfl header
        (by omega)
      have stays : ((CurrRecvMsg.opened buf).received []).startMsg = .opened buf := by
        rw [CurrRecvMsg.hdrFills.received_nil _ trivial, CurrRecvMsg.opened_startMsg unfinished]
      simp only [withRecv_tempRecvStorage, withRecv_withRecv, stays, withRecv_connection]
      exact PduReceived.after receives (by rwa [List.append_nil]) (.inl rfl)
    | blocked receives short =>
      rw [CurrRecvMsg.opened_recvbuf] at short
      omega
    | failed receives fails => exact .failed receives fails

/-! ### Delivering -/

/-- What serving a response keeps: everything on the side that receives, and as long as the
connection does not break, the state of the client. -/
structure KeepsRecv (before after : StdClient) : Prop where
  incoming : after.connection.incoming = before.connection.incoming
  recvEvents : after.connection.recvEvents = before.connection.recvEvents
  recvAfter : after.connection.recvAfter = before.connection.recvAfter
  username : after.username = before.username
  stays : before.connection.NeverBreaks →
    after.connection.NeverBreaks ∧ after.clState = before.clState

theorem KeepsRecv.refl (stdcl : StdClient) : KeepsRecv stdcl stdcl :=
  ⟨rfl, rfl, rfl, rfl, fun harmless => ⟨harmless, rfl⟩⟩

theorem KeepsRecv.trans {first second third : StdClient} (left : KeepsRecv first second)
    (right : KeepsRecv second third) : KeepsRecv first third where
  incoming := right.incoming.trans left.incoming
  recvEvents := right.recvEvents.trans left.recvEvents
  recvAfter := right.recvAfter.trans left.recvAfter
  username := right.username.trans left.username
  stays := by
    intro harmless
    obtain ⟨second, same⟩ := left.stays harmless
    obtain ⟨third, again⟩ := right.stays second
    exact ⟨third, again.trans same⟩

theorem KeepsRecv.withStorage {before after : StdClient} (keeps : KeepsRecv before after)
    (msg : CurrRecvMsg) : KeepsRecv before { after with tempRecvStorage := msg } :=
  ⟨keeps.incoming, keeps.recvEvents, keeps.recvAfter, keeps.username, keeps.stays⟩

theorem KeepsRecv.withSockEvents {before after : StdClient} (keeps : KeepsRecv before after)
    (sockEvents : List EpollEvent) : KeepsRecv before { after with sockEvents } :=
  ⟨keeps.incoming, keeps.recvEvents, keeps.recvAfter, keeps.username, keeps.stays⟩

theorem keepsRecv_wtServeResponse (stdcl : StdClient) (msg : MpscMsgNode)
    (new : msg.bufOffset < msg.buf.length) : KeepsRecv stdcl (wtServeResponse stdcl msg) := by
  by_cases idle : stdcl.tempSendStorage = none
  case neg =>
    obtain ⟨tss, unfinished⟩ := Option.ne_none_iff_exists'.mp idle
    rw [wtServeResponse, unfinished]
    exact ⟨rfl, rfl, rfl, rfl, fun harmless => ⟨harmless, rfl⟩⟩
  case pos =>
    have sent := sendDoWhile_sent msg.buf stdcl.connection msg.bufOffset new.le
    obtain ⟨used, moved, events⟩ := sent.accepts
    have incoming := congrArg Conn.incoming moved
    have recvEvents := congrArg Conn.recvEvents moved
    have recvAfter := congrArg Conn.recvAfter moved
    have clean := sent.clean new
    have neverBreaks := Conn.Accepts.neverBreaks ⟨used, moved, events⟩
    obtain ⟨sockEvents, served⟩ := wtServeResponse_idle idle msg
    rw [served]
    refine KeepsRecv.withSockEvents ?_ sockEvents
    rw [afterSend]
    cases stopped : (sendDoWhile msg.buf stdcl.connection msg.bufOffset).stopped with
    | none => exact ⟨incoming, recvEvents, recvAfter, rfl, fun ok => ⟨neverBreaks ok, rfl⟩⟩
    | some reason =>
      cases reason with
      | eblock => exact ⟨incoming, recvEvents, recvAfter, rfl, fun ok => ⟨neverBreaks ok, rfl⟩⟩
      | error =>
        refine ⟨by simpa using incoming, by simpa using recvEvents, by simpa using recvAfter, ?_,
          fun ok => absurd stopped (clean ok)⟩
        simp only [cleanupStdClient]
        split <;> rfl

theorem length_responseNode_pos (msgType : MsgType) (respCode : Nat) (text : Option Bytes) :
    0 < (responseNode msgType respCode text).buf.length := by
  have optional : (some (beBytes 4 respCode)).getD [] = beBytes 4 respCode := rfl
  simp only [responseNode, lwmpPrepareResponse, optional, length_beBytes, optdataLen]
  rw [if_neg (by decide)]
  have header (total : Nat) : (lwmpHdr msgType.code (List.replicate unamesize 0)
      (beBytes 4 respCode ++ List.replicate (32 - 4) 0) total).length = lwmpHdrSize :=
    length_lwmpHdr (List.length_replicate) (by simp)
  cases text with
  | none =>
    simp only [List.length_append, header, lwmpHdrSize]
    omega
  | some text =>
    simp only [List.length_append, header, lwmpHdrSize]
    omega

theorem length_setCrc32_pos (pdu : Bytes) : 0 < (LwmpPdu.setCrc32 pdu).length := by
  simp only [LwmpPdu.setCrc32, List.length_append, length_beBytes]
  omega

theorem keepsRecv_response (stdcl : StdClient) (msgType : MsgType) (respCode : Nat)
    (text : Option Bytes) :
    KeepsRecv stdcl (wtServeResponse stdcl (responseNode msgType respCode text)) :=
  keepsRecv_wtServeResponse stdcl _ (length_responseNode_pos msgType respCode text)

theorem keepsRecv_request (stdcl : StdClient) (reqbuf : Bytes) :
    KeepsRecv stdcl (wtServeResponse stdcl (requestNode reqbuf)) := by
  refine keepsRecv_wtServeResponse stdcl _ ?_
  rw [requestNode]
  split
  · exact length_responseNode_pos _ _ _
  · exact length_setCrc32_pos _

/-- The verdict of a call over the header of a first PDU. -/
def InboundEnv.verdict (env : InboundEnv) (pdu : Bytes) : HdrValidationStatus :=
  lwmpValidateHdrs pdu (CurrRecvMsg.opened pdu).destUname env.hvfns

/-- The recipient a call finds for a first PDU. -/
def InboundEnv.recipient (env : InboundEnv) (pdu : Bytes) : Option Addr :=
  htableGetCond env.forwardTable (cString (CurrRecvMsg.opened pdu).destUname)

/-- The receive state behind a rejected header. -/
def CurrRecvMsg.afterRejection (reason : HdrValidationStatus) : CurrRecvMsg :=
  { fresh with isDesynced := reason = .crcerr }

/-- What delivering a first PDU does. -/
inductive PduDelivered (env : InboundEnv) (stdcl : StdClient) (buf : Bytes) : InboundResult → Prop
  | rejected {after} (refused : env.verdict buf ≠ .ok) (keeps : KeepsRecv stdcl after)
      (left : after.tempRecvStorage = .afterRejection (env.verdict buf)) :
      PduDelivered env stdcl buf ⟨.rejected (env.verdict buf) (.opened buf), after,
        [responseNode .info (respCodes (env.verdict buf)) none], none⟩
  | served {after} (accepted : env.verdict buf = .ok)
      (request : LwmpPdu.msgType buf = MsgType.req.code) (keeps : KeepsRecv stdcl after)
      (left : after.tempRecvStorage = (CurrRecvMsg.opened buf).afterPdu) :
      PduDelivered env stdcl buf ⟨.requestServed, after,
        [responseNode .info (respCodes .ok) none, requestNode (handleRequest buf env.userList)], none⟩
  | unreachable {after} (accepted : env.verdict buf = .ok)
      (message : LwmpPdu.msgType buf ≠ MsgType.req.code) (gone : env.recipient buf = none)
      (keeps : KeepsRecv stdcl after) (left : after.tempRecvStorage = .fresh) :
      PduDelivered env stdcl buf ⟨.pduUnreachable (.opened buf), after,
        [responseNode .info (respCodes .ok) none,
          unreachableNode (CurrRecvMsg.opened buf).destUname], none⟩
  | forwarded {after rcpt} (accepted : env.verdict buf = .ok)
      (message : LwmpPdu.msgType buf ≠ MsgType.req.code) (found : env.recipient buf = some rcpt)
      (keeps : KeepsRecv stdcl after)
      (left : after.tempRecvStorage = { CurrRecvMsg.opened buf with recvbuf := [] }.afterPdu) :
      PduDelivered env stdcl buf ⟨.pduForwarded, after,
        [responseNode .info (respCodes .ok) none], some (rcpt, forwardNode buf stdcl.username)⟩

theorem PduDelivered.keeps {env : InboundEnv} {stdcl : StdClient} {buf : Bytes}
    {result : InboundResult} (delivered : PduDelivered env stdcl buf result) :
    KeepsRecv stdcl result.stdcl := by
  cases delivered with
  | rejected refused keeps left => exact keeps
  | served accepted request keeps left => exact keeps
  | unreachable accepted message gone keeps left => exact keeps
  | forwarded accepted message found keeps left => exact keeps

theorem inboundDeliverPdu_delivered (env : InboundEnv) (stdcl : StdClient) (buf : Bytes)
    (start : stdcl.tempRecvStorage = .opened buf) :
    PduDelivered env stdcl buf (inboundDeliverPdu env stdcl) := by
  have answered := keepsRecv_response stdcl .info (respCodes (env.verdict buf)) none
  rw [inboundDeliverPdu]
  simp only [start, CurrRecvMsg.opened_recvbuf, CurrRecvMsg.reset_eq]
  by_cases accepted : env.verdict buf = .ok
  · rw [accepted] at answered
    rw [InboundEnv.verdict] at accepted
    rw [accepted, if_neg (not_not.mpr rfl)]
    by_cases request : (CurrRecvMsg.opened buf).msgType = MsgType.req.code
    · rw [if_pos request]
      exact .served accepted request
        ((answered.trans (keepsRecv_request _ _)).withStorage _) rfl
    · rw [if_neg request]
      cases found : env.recipient buf with
      | none =>
        rw [InboundEnv.recipient] at found
        rw [found]
        exact .unreachable accepted request found
          ((answered.trans (keepsRecv_response _ _ _ _)).withStorage _) rfl
      | some rcpt =>
        rw [InboundEnv.recipient] at found
        have sender := congrArg (forwardNode buf) answered.username
        simp only [found, sender]
        exact .forwarded accepted request found (answered.withStorage _) rfl
  · rw [InboundEnv.verdict] at accepted
    rw [if_pos accepted]
    exact .rejected accepted (answered.withStorage _) rfl

/-- What delivering a chunk does. -/
inductive ChunkDelivered (env : InboundEnv) (stdcl : StdClient) : InboundResult → Prop
  | unreachable {after}
      (gone : htableGetCond env.forwardTable (cString stdcl.tempRecvStorage.destUname) = none)
      (keeps : KeepsRecv stdcl after) (left : after.tempRecvStorage = .desynced) :
      ChunkDelivered env stdcl ⟨.chunkUnreachable stdcl.tempRecvStorage, after,
        [unreachableNode stdcl.tempRecvStorage.destUname], none⟩
  | forwarded {after rcpt}
      (found : htableGetCond env.forwardTable (cString stdcl.tempRecvStorage.destUname) = some rcpt)
      (keeps : KeepsRecv stdcl after)
      (left : after.tempRecvStorage = { stdcl.tempRecvStorage with recvbuf := [] }.afterChunk) :
      ChunkDelivered env stdcl ⟨.chunkForwarded, after, [],
        some (rcpt, chunkNode stdcl.tempRecvStorage.recvbuf stdcl.username)⟩

theorem ChunkDelivered.keeps {env : InboundEnv} {stdcl : StdClient} {result : InboundResult}
    (delivered : ChunkDelivered env stdcl result) : KeepsRecv stdcl result.stdcl := by
  cases delivered with
  | unreachable gone keeps left => exact keeps
  | forwarded found keeps left => exact keeps

theorem inboundDeliverChunk_delivered (env : InboundEnv) (stdcl : StdClient) :
    ChunkDelivered env stdcl (inboundDeliverChunk env stdcl) := by
  rw [inboundDeliverChunk]
  cases found : htableGetCond env.forwardTable (cString stdcl.tempRecvStorage.destUname) with
  | none => exact .unreachable found ((keepsRecv_response _ _ _ _).withStorage _) rfl
  | some rcpt => exact .forwarded found ((KeepsRecv.refl stdcl).withStorage _) rfl

/-! ### One call -/

/-- The buffer with which a call comes to the test in front of the header validation. -/
def pduRead (stdcl : StdClient) : Option Bytes :=
  if stdcl.clState = .disconnected then none
  else
    match inboundResync stdcl with
    | .leave _ _ => none
    | .go stdcl =>
      if stdcl.tempRecvStorage.notMsgInitPdu then none
      else
        match inboundRecvPdu stdcl with
        | .go stdcl | .leave .notComplete stdcl => some stdcl.tempRecvStorage.recvbuf
        | .leave _ _ => none

section InStep

variable {stdcl : StdClient}

/-- A client whose stream is in step goes straight to the branch for a first PDU, or to the one for
the rest of a message. -/
theorem wtHandleInboundData_of_first (env : InboundEnv) (present : stdcl.clState ≠ .disconnected)
    (inStep : stdcl.tempRecvStorage.isDesynced = false)
    (first : stdcl.tempRecvStorage.notMsgInitPdu = false) :
    wtHandleInboundData env stdcl = (inboundRecvPdu stdcl).andThen (inboundDeliverPdu env) := by
  rw [wtHandleInboundData, if_neg present, inboundResync_of_inStep inStep, InboundStage.andThen]
  simp only [first, Bool.false_eq_true, not_false_eq_true, if_true]

theorem wtHandleInboundData_of_begun (env : InboundEnv) (present : stdcl.clState ≠ .disconnected)
    (inStep : stdcl.tempRecvStorage.isDesynced = false)
    (begun : stdcl.tempRecvStorage.notMsgInitPdu = true) :
    wtHandleInboundData env stdcl = (inboundRecvChunk stdcl).andThen (inboundDeliverChunk env) := by
  rw [wtHandleInboundData, if_neg present, inboundResync_of_inStep inStep, InboundStage.andThen]
  simp only [begun, not_true_eq_false, if_false]

/-- The buffer that a call reads which goes on behind the branch for a first PDU. -/
theorem pduRead_of_go {received : StdClient} (present : stdcl.clState ≠ .disconnected)
    (inStep : stdcl.tempRecvStorage.isDesynced = false)
    (first : stdcl.tempRecvStorage.notMsgInitPdu = false)
    (reached : inboundRecvPdu stdcl = .go received) :
    pduRead stdcl = some received.tempRecvStorage.recvbuf := by
  rw [pduRead, if_neg present, inboundResync_of_inStep inStep]
  simp only [first, Bool.false_eq_true, if_false, reached]

/-- In the middle of a message no PDU is read. -/
theorem pduRead_of_begun (inStep : stdcl.tempRecvStorage.isDesynced = false)
    (begun : stdcl.tempRecvStorage.notMsgInitPdu = true) : pduRead stdcl = none := by
  rw [pduRead, inboundResync_of_inStep inStep]
  split
  · rfl
  · simp only [begun, if_true]

end InStep

/-- What a call does to a client that waits. -/
inductive Called (env : InboundEnv) (stdcl : StdClient) : InboundResult → Prop
  | disconnected (gone : stdcl.clState = .disconnected) :
      Called env stdcl ⟨.disconnected, stdcl, [], none⟩
  | recvError {bytes connection msg} (receives : stdcl.connection.Receives bytes connection)
      (fails : ¬ stdcl.connection.NeverFails) (unread : pduRead stdcl = none) :
      Called env stdcl ⟨.recvError, cleanupStdClient (stdcl.withRecv connection msg), [], none⟩
  | notResynced {bytes connection} (receives : stdcl.connection.Receives bytes connection)
      (out : stdcl.tempRecvStorage = .desynced) (unread : pduRead stdcl = none) :
      Called env stdcl ⟨.notResynced, stdcl.withRecv connection .desynced, [], none⟩
  | pduBlocked {bytes connection msg} (receives : stdcl.connection.Receives bytes connection)
      (first : msg.notMsgInitPdu = false) (waiting : msg.Waiting)
      (kept : msg.recvbuf.length ≤ stdcl.tempRecvStorage.recvbuf.length + bytes.length)
      (unread : pduRead stdcl = none) (opening : stdcl.tempRecvStorage.notMsgInitPdu = false) :
      Called env stdcl ⟨.blocked, stdcl.withRecv connection msg, [], none⟩
  | chunkBlocked {bytes connection} (receives : stdcl.connection.Receives bytes connection)
      (begun : stdcl.tempRecvStorage.notMsgInitPdu = true)
      (short : bytes.length < stdcl.tempRecvStorage.chunkRoom) (unread : pduRead stdcl = none) :
      Called env stdcl ⟨.blocked,
        stdcl.withRecv connection (stdcl.tempRecvStorage.receivedPayload bytes), [], none⟩
  | notComplete {bytes connection buf} (receives : stdcl.connection.Receives bytes connection)
      (read : pduRead stdcl = some buf) (header : lwmpHdrSize ≤ buf.length)
      (space : buf.length < lwmpMaxPduSize)
      (overflows : 2 ^ 64 ≤ lwmpHdrSize + LwmpPdu.totalMsgSize buf)
      (kept : buf.length ≤ stdcl.tempRecvStorage.recvbuf.length + bytes.length) :
      Called env stdcl ⟨.notComplete, stdcl.withRecv connection (.opened buf), [], none⟩
  | pdu {bytes connection buf result} (receives : stdcl.connection.Receives bytes connection)
      (read : pduRead stdcl = some buf) (header : lwmpHdrSize ≤ buf.length)
      (within : buf.length ≤ lwmpMaxPduSize) (ready : (CurrRecvMsg.opened buf).pduReady)
      (kept : buf.length ≤ stdcl.tempRecvStorage.recvbuf.length + bytes.length)
      (delivered : PduDelivered env (stdcl.withRecv connection (.opened buf)) buf result) :
      Called env stdcl result
  | chunk {bytes connection result} (receives : stdcl.connection.Receives bytes connection)
      (begun : stdcl.tempRecvStorage.notMsgInitPdu = true)
      (full : bytes.length = stdcl.tempRecvStorage.chunkRoom) (unread : pduRead stdcl = none)
      (delivered : ChunkDelivered env
        (stdcl.withRecv connection (stdcl.tempRecvStorage.receivedPayload bytes)) result) :
      Called env stdcl result

/-- A call that comes to the branch for a first PDU, which holds some bytes of one. -/
theorem called_of_pduStart {env : InboundEnv} {stdcl : StdClient} {buf bytes : Bytes}
    {connection : Conn} {msg : CurrRecvMsg} (present : stdcl.clState ≠ .disconnected)
    (receives : stdcl.connection.Receives bytes connection)
    (kept : buf.length ≤ stdcl.tempRecvStorage.recvbuf.length + bytes.length)
    (resync : inboundResync stdcl = .go (stdcl.withRecv connection msg))
    (first : msg.notMsgInitPdu = false) (start : PduStart msg buf)
    (opening : stdcl.tempRecvStorage.notMsgInitPdu = false) :
    Called env stdcl (wtHandleInboundData env stdcl) := by
  have read : pduRead stdcl = match inboundRecvPdu (stdcl.withRecv connection msg) with
      | .go stdcl | .leave .notComplete stdcl => some stdcl.tempRecvStorage.recvbuf
      | .leave _ _ => none := by
    rw [pduRead, if_neg present, resync]
    simp only [withRecv_tempRecvStorage, first, Bool.false_eq_true, if_false]
  have call : wtHandleInboundData env stdcl =
      (inboundRecvPdu (stdcl.withRecv connection msg)).andThen (inboundDeliverPdu env) := by
    rw [wtHandleInboundData, if_neg present, resync, InboundStage.andThen]
    simp only [withRecv_tempRecvStorage, first, Bool.false_eq_true, not_false_eq_true, if_true]
  have stage := @inboundRecvPdu_received (stdcl.withRecv connection msg) _ start
  rw [call]
  generalize inboundRecvPdu (stdcl.withRecv connection msg) = reached at stage read ⊢
  have longer (more : Bytes) : (buf ++ more).length ≤
      stdcl.tempRecvStorage.recvbuf.length + (bytes ++ more).length := by
    rw [List.length_append, List.length_append]
    omega
  cases stage with
  | hdrBlocked more short =>
    exact .pduBlocked (receives.trans more) rfl (.idle short) (longer _) read opening
  | bodyBlocked more header space unfinished =>
    exact .pduBlocked (receives.trans more) rfl (.opened header space unfinished) (longer _) read
      opening
  | failed more fails =>
    exact .recvError (receives.trans more) (fun harmless => fails (receives.neverFails harmless)) read
  | notComplete more header space overflows =>
    exact .notComplete (receives.trans more) read header space overflows (longer _)
  | ready more header within ready exact =>
    exact .pdu (receives.trans more) read header within ready (longer _)
      (inboundDeliverPdu_delivered env _ _ rfl)

/-- Every call on a client that waits does one of the things listed above. -/
theorem wtHandleInboundData_called (env : InboundEnv) (stdcl : StdClient)
    (waiting : stdcl.tempRecvStorage.Waiting) :
    Called env stdcl (wtHandleInboundData env stdcl) := by
  by_cases gone : stdcl.clState = .disconnected
  · rw [wtHandleInboundData, if_pos gone]
    exact .disconnected gone
  · have resync (inStep : stdcl.tempRecvStorage.isDesynced = false) :
        inboundResync stdcl = .go (stdcl.withRecv stdcl.connection stdcl.tempRecvStorage) :=
      inboundResync_of_inStep inStep
    generalize held : stdcl.tempRecvStorage = msg at waiting resync
    cases waiting with
    | idle short =>
      exact called_of_pduStart gone (.nil _) (by rw [held]; exact Nat.le_add_right _ _)
        (resync rfl) rfl (.idle (by simp only [lwmpHdrSize] at short; simp; omega))
        (by rw [held]; rfl)
    | opened header space unfinished =>
      exact called_of_pduStart gone (.nil _) (by rw [held]; exact Nat.le_add_right _ _)
        (resync rfl) rfl (.opened header space unfinished) (by rw [held]; rfl)
    | desynced =>
      have stage := inboundResync_resynced held
      generalize reached : inboundResync stdcl = stage at stage
      cases stage with
      | located receives within kept =>
        refine called_of_pduStart gone receives ?_ reached rfl
          (.idle ((length_lwmpStreamResync_le _).trans within)) (by rw [held]; rfl)
        rw [held]
        exact (length_lwmpStreamResync_le _).trans (Nat.le_add_left _ _)
      | lost receives =>
        rw [wtHandleInboundData, if_neg gone, reached]
        exact .notResynced receives held (by rw [pduRead, if_neg gone, reached])
      | failed receives fails =>
        rw [wtHandleInboundData, if_neg gone, reached]
        exact .recvError receives fails (by rw [pduRead, if_neg gone, reached])
    | chunks begun inStep word recvedWord =>
      have stage := inboundRecv_looped CurrRecvMsg.chunkFills stdcl
        (by rw [held]; exact ⟨word, recvedWord⟩)
      have inStep : stdcl.tempRecvStorage.isDesynced = false := by rw [held]; exact inStep
      have begun : stdcl.tempRecvStorage.notMsgInitPdu = true := by rw [held]; exact begun
      have unread : pduRead stdcl = none := pduRead_of_begun inStep begun
      rw [wtHandleInboundData_of_begun env gone inStep begun, inboundRecvChunk]
      generalize inboundRecv CurrRecvMsg.chunkWanted CurrRecvMsg.receivedPayload stdcl = reached
        at stage ⊢
      cases stage with
      | full receives length =>
        exact .chunk receives begun length unread (inboundDeliverChunk_delivered env _)
      | blocked receives short => exact .chunkBlocked receives begun short unread
      | failed receives fails => exact .recvError receives fails unread

end Lwmsg
