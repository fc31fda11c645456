/-
This file is about a first PDU whose bytes are those its header announces. A client that
has received a part of it waits for the rest, however the bytes arrive, and the call that
receives the last of them delivers exactly this PDU and leaves what lies behind it.
-/

import Lwmsg.InboundStages

namespace Lwmsg

open Bytes Pointers

/-- What was received of a unit is the front of its bytes. -/
theorem part_eq_of_length {held rest bytes more : Bytes} (stream : held ++ rest = bytes ++ more)
    (same : held.length = bytes.length) : held = bytes ∧ rest = more :=
  List.append_inj stream same

/-! ### A PDU with all its bytes -/

/-- A first PDU, with as many bytes as its header announces and it can hold. -/
structure FirstPdu (pdu : Bytes) : Prop where
  header : lwmpHdrSize ≤ pdu.length
  whole : pdu.length = lwmpHdrSize + min (LwmpPdu.totalMsgSize pdu) lwmpPduBufSize
  small : lwmpHdrSize + LwmpPdu.totalMsgSize pdu < 2 ^ 64

/-- The receive state when the first bytes of a first PDU have arrived. -/
def CurrRecvMsg.partly (part : Bytes) : CurrRecvMsg :=
  if part.length < lwmpHdrSize then .idle part else .opened part

namespace CurrRecvMsg

theorem partly_nil : partly [] = fresh := rfl

@[simp] theorem partly_recvbuf (part : Bytes) : (partly part).recvbuf = part := by
  rw [partly]
  split <;> rfl

@[simp] theorem partly_notMsgInitPdu (part : Bytes) : (partly part).notMsgInitPdu = false := by
  rw [partly]
  split <;> rfl

@[simp] theorem partly_isDesynced (part : Bytes) : (partly part).isDesynced = false := by
  rw [partly]
  split <;> rfl

end CurrRecvMsg

section Arrival

variable {env : InboundEnv} {stdcl : StdClient} {pdu part more : Bytes}

/-- The header of a PDU is known as soon as it has arrived. -/
theorem FirstPdu.totalMsgSize_part {rest : Bytes} (first : FirstPdu pdu)
    (header : lwmpHdrSize ≤ part.length) (stream : part ++ rest = pdu ++ more) :
    LwmpPdu.totalMsgSize part = LwmpPdu.totalMsgSize pdu := by
  rw [← LwmpPdu.totalMsgSize_append header, stream, LwmpPdu.totalMsgSize_append first.header]

/-- A part of a PDU is what a client may hold that waits for the rest. -/
theorem FirstPdu.pduStart {rest : Bytes} (first : FirstPdu pdu) (short : part.length < pdu.length)
    (stream : part ++ rest = pdu ++ more) : PduStart (.partly part) part := by
  have whole := first.whole
  rw [CurrRecvMsg.partly]
  split
  · rename_i none
    refine .idle ?_
    simp only [lwmpHdrSize, lwmpMaxPduSize] at none ⊢
    omega
  · rename_i header
    have size := first.totalMsgSize_part (not_lt.mp header) stream
    refine .opened (not_lt.mp header) ?_ ?_
    · simp only [lwmpHdrSize, lwmpPduBufSize, lwmpMaxPduSize] at whole ⊢
      omega
    · rw [size]
      omega

/-- What receiving does where a part of a PDU is there: it waits for more of the PDU, it fails, or it
has all of it. -/
inductive PduComes (stdcl : StdClient) (pdu part more : Bytes) : InboundStage → Prop
  | waits {bytes connection} (receives : stdcl.connection.Receives bytes connection)
      (short : (part ++ bytes).length < pdu.length)
      (stream : part ++ bytes ++ connection.incoming = pdu ++ more) :
      PduComes stdcl pdu part more
        (.leave .blocked (stdcl.withRecv connection (.partly (part ++ bytes))))
  | fails {bytes connection msg} (receives : stdcl.connection.Receives bytes connection)
      (fails : ¬ stdcl.connection.NeverFails) :
      PduComes stdcl pdu part more
        (.leave .recvError (cleanupStdClient (stdcl.withRecv connection msg)))
  | comes {bytes connection} (receives : stdcl.connection.Receives bytes connection)
      (rest : connection.incoming = more) :
      PduComes stdcl pdu part more (.go (stdcl.withRecv connection (.opened pdu)))

theorem FirstPdu.comes (first : FirstPdu pdu) (start : PduStart stdcl.tempRecvStorage part)
    (fits : part.length ≤ pdu.length)
    (stream : part ++ stdcl.connection.incoming = pdu ++ more) :
    PduComes stdcl pdu part more (inboundRecvPdu stdcl) := by
  have length := first.whole
  have noOverflow := first.small
  have received := inboundRecvPdu_received start
  have whole {bytes : Bytes} {connection : Conn}
      (receives : stdcl.connection.Receives bytes connection) :
      part ++ bytes ++ connection.incoming = pdu ++ more := by
    rw [List.append_assoc, ← receives.incoming]
    exact stream
  generalize inboundRecvPdu stdcl = stage at received ⊢
  cases received with
  | @hdrBlocked bytes connection receives none =>
    have idle : CurrRecvMsg.idle (part ++ bytes) = .partly (part ++ bytes) := by
      rw [CurrRecvMsg.partly, if_pos none]
    have still : (part ++ bytes).length < pdu.length := none.trans_le first.header
    rw [idle]
    exact .waits receives still (whole receives)
  | @bodyBlocked bytes connection receives header space unfinished =>
    have opened : CurrRecvMsg.opened (part ++ bytes) = .partly (part ++ bytes) := by
      rw [CurrRecvMsg.partly, if_neg (not_lt.mpr header)]
    rw [first.totalMsgSize_part header (whole receives)] at unfinished
    have still : (part ++ bytes).length < pdu.length := by
      simp only [lwmpHdrSize, lwmpPduBufSize, lwmpMaxPduSize] at length header space unfinished ⊢
      omega
    rw [opened]
    exact .waits receives still (whole receives)
  | failed receives fails => exact .fails receives fails
  | @notComplete bytes connection receives header space overflows =>
    rw [first.totalMsgSize_part header (whole receives)] at overflows
    omega
  | @ready bytes connection receives header within ready exact =>
    have all : (part ++ bytes).length = pdu.length := by
      rw [CurrRecvMsg.pduReady, CurrRecvMsg.opened_expectedMsgSize,
        CurrRecvMsg.opened_totalMsgDataRecved, CurrRecvMsg.opened_recvbuf,
        first.totalMsgSize_part header (whole receives)] at ready
      rw [first.totalMsgSize_part header (whole receives)] at exact
      simp only [lwmpHdrSize, lwmpPduBufSize, lwmpMaxPduSize] at length header within ready exact
      rcases exact with fits | ⟨none, _⟩
      · omega
      · rw [none, List.append_nil] at header within ready ⊢
        omega
    obtain ⟨same, rest⟩ := part_eq_of_length (whole receives) all
    rw [same]
    exact .comes receives rest

/-- What a call does to a client which has received a part of a PDU: it waits for more of it, it
fails, or it delivers it. -/
inductive PduArrives (env : InboundEnv) (stdcl : StdClient) (pdu more : Bytes) :
    InboundResult → Prop
  | waits {bytes part connection} (receives : stdcl.connection.Receives bytes connection)
      (short : part.length < pdu.length) (stream : part ++ connection.incoming = pdu ++ more) :
      PduArrives env stdcl pdu more
        ⟨.blocked, stdcl.withRecv connection (.partly part), [], none⟩
  | fails {bytes connection msg} (receives : stdcl.connection.Receives bytes connection)
      (fails : ¬ stdcl.connection.NeverFails) :
      PduArrives env stdcl pdu more
        ⟨.recvError, cleanupStdClient (stdcl.withRecv connection msg), [], none⟩
  | arrives {bytes connection result} (receives : stdcl.connection.Receives bytes connection)
      (rest : connection.incoming = more) (read : pduRead stdcl = some pdu)
      (delivered : PduDelivered env (stdcl.withRecv connection (.opened pdu)) pdu result) :
      PduArrives env stdcl pdu more result

theorem FirstPdu.arrives (first : FirstPdu pdu) (live : stdcl.clState = .authenticated)
    (held : stdcl.tempRecvStorage = .partly part) (short : part.length < pdu.length)
    (stream : part ++ stdcl.connection.incoming = pdu ++ more) :
    PduArrives env stdcl pdu more (wtHandleInboundData env stdcl) := by
  have present : stdcl.clState ≠ .disconnected := live.trans_ne (by decide)
  have inStep : stdcl.tempRecvStorage.isDesynced = false := by
    rw [held, CurrRecvMsg.partly_isDesynced]
  have begins : stdcl.tempRecvStorage.notMsgInitPdu = false := by
    rw [held, CurrRecvMsg.partly_notMsgInitPdu]
  rw [wtHandleInboundData_of_first env present inStep begins]
  have comes := first.comes (held ▸ first.pduStart short stream) short.le stream
  generalize reached : inboundRecvPdu stdcl = stage at comes
  cases comes with
  | waits receives still whole => exact .waits receives still whole
  | fails receives fails => exact .fails receives fails
  | comes receives rest =>
    exact .arrives receives rest (pduRead_of_go present inStep begins reached)
      (inboundDeliverPdu_delivered env _ _ rfl)

/-- Where nothing has arrived and nothing is on the way, a client waits or fails. -/
theorem wtHandleInboundData_nothing (env : InboundEnv) (live : stdcl.clState = .authenticated)
    (fresh : stdcl.tempRecvStorage = .fresh) (empty : stdcl.connection.incoming = []) :
    (∃ connection, stdcl.connection.Receives [] connection ∧ connection.incoming = [] ∧
      wtHandleInboundData env stdcl =
        ⟨.blocked, stdcl.withRecv connection .fresh, [], none⟩) ∨
    ∃ after, wtHandleInboundData env stdcl =
      ⟨.recvError, cleanupStdClient after, [], none⟩ := by
  have start : PduStart stdcl.tempRecvStorage [] := by
    rw [fresh]
    exact .idle (Nat.zero_le _)
  have present : stdcl.clState ≠ .disconnected := live.trans_ne (by decide)
  have inStep : stdcl.tempRecvStorage.isDesynced = false := by
    rw [fresh]
    rfl
  have begins : stdcl.tempRecvStorage.notMsgInitPdu = false := by
    rw [fresh]
    rfl
  have nothing {bytes : Bytes} {connection : Conn}
      (receives : stdcl.connection.Receives bytes connection) :
      bytes = [] ∧ connection.incoming = [] := by
    have incoming := receives.incoming
    rw [empty] at incoming
    exact List.append_eq_nil_iff.mp incoming.symm
  rw [wtHandleInboundData_of_first env present inStep begins]
  have received := inboundRecvPdu_received start
  generalize inboundRecvPdu stdcl = stage at received
  cases received with
  | @hdrBlocked bytes connection receives short =>
    obtain ⟨rfl, rest⟩ := nothing receives
    exact .inl ⟨connection, receives, rest, rfl⟩
  | @bodyBlocked bytes connection receives header =>
    obtain ⟨rfl, _⟩ := nothing receives
    cases header
  | failed receives fails => exact .inr ⟨_, rfl⟩
  | @notComplete bytes connection receives header =>
    obtain ⟨rfl, _⟩ := nothing receives
    cases header
  | @ready bytes connection receives header =>
    obtain ⟨rfl, _⟩ := nothing receives
    cases header

end Arrival

end Lwmsg
