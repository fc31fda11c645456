/-
This file says what one call of `wt_handle_inbound_data` means for the two streams of its
client. On the way up it takes some bytes, and a header it comes to a verdict about lies
behind all earlier ones. On the way down it sends frames, and the first of them, where it
came to a verdict, is the response with the code of this verdict.
-/

import Lwmsg.InboundFrames
import Lwmsg.Upload

namespace Lwmsg

open Bytes Pointers

/-! ### The frames of the server -/

section Frames

variable {msgType : MsgType} {text : Option Bytes}

theorem downFrame_responseNode (respCode : Nat) (notFile : msgType ≠ .file)
    (short : (text.getD []).length < lwmpPduBufSize) :
    DownFrame (responseNode msgType respCode text).buf := by
  obtain ⟨whole, small⟩ := responseNode_pduFrame respCode text notFile short
  exact ⟨.inl whole, small.trans_lt (by decide)⟩

theorem isInfo_responseNode (respCode : Nat) (short : (text.getD []).length < lwmpPduBufSize) :
    isInfo (responseNode .info respCode text).buf = true := by
  have whole := (@responseNode_pduFrame .info respCode text (by decide) short).1
  rw [whole.isInfo_iff, responseNode_buf _ _ short, msgType_lwmpHdr (by decide)]

theorem respCode_responseNode {respCode : Nat} (word : respCode < 2 ^ 32)
    (short : (text.getD []).length < lwmpPduBufSize) :
    LwmpPdu.respCode (responseNode msgType respCode text).buf = respCode := by
  rw [LwmpPdu.respCode, responseNode_buf _ _ short,
    optionalData_lwmpHdr (List.length_replicate) (length_responseOptional respCode),
    responseOptional, slice_append_self (length_beBytes _ _), beValue_beBytes _ _ word]

/-- A notice is an `MT_INFO`. -/
theorem downFrame_disconnectNotice (subjectName : Bytes) :
    DownFrame (disconnectNotice subjectName).buf :=
  downFrame_responseNode _ (by decide) (length_disconnectText subjectName)

theorem downFrame_unreachableNode (destUname : Bytes) :
    DownFrame (unreachableNode destUname).buf := by
  refine downFrame_responseNode _ (by decide) ?_
  exact (List.length_take_le _ _).trans_lt (by decide)

theorem downFrame_requestNode {reqbuf : Bytes} (fits : lwmpHdrSize + reqbuf.length < 2 ^ 64) :
    DownFrame (requestNode reqbuf).buf := by
  by_cases empty : reqbuf = []
  · rw [requestNode, if_pos empty]
    exact downFrame_responseNode _ (by decide) (by decide)
  · refine ⟨.inl (requestNode_pduFrame empty (by omega)), ?_⟩
    rwa [length_requestNode empty]

end Frames

/-- The response with the code of a verdict. -/
def verdictNode (verdict : HdrValidationStatus) : MpscMsgNode :=
  responseNode .info (respCodes verdict) none

theorem isInfo_verdictNode (verdict : HdrValidationStatus) :
    isInfo (verdictNode verdict).buf = true := isInfo_responseNode _ (by decide)

/-- The code tells an acceptance from everything else. -/
theorem respCode_verdictNode (verdict : HdrValidationStatus) :
    LwmpPdu.respCode (verdictNode verdict).buf = respCodes verdict :=
  respCode_responseNode (by cases verdict <;> decide) (by decide)

theorem respCodes_eq_ok_iff (verdict : HdrValidationStatus) :
    respCodes verdict = respCodes .ok ↔ verdict = .ok := by
  cases verdict <;> decide

/-! ### A call in the stream of the client -/

/-- The bytes a client holds that may belong to a header. -/
def CurrRecvMsg.collected (msg : CurrRecvMsg) : Nat :=
  if msg.notMsgInitPdu then 0 else msg.recvbuf.length

namespace CurrRecvMsg

theorem collected_of_begun {msg : CurrRecvMsg} (begun : msg.notMsgInitPdu = true) :
    msg.collected = 0 := by
  rw [collected, if_pos begun]

theorem collected_of_first {msg : CurrRecvMsg} (first : msg.notMsgInitPdu = false) :
    msg.collected = msg.recvbuf.length := by
  rw [collected, first]
  rfl

@[simp] theorem collected_fresh : fresh.collected = 0 := rfl

@[simp] theorem collected_desynced : desynced.collected = 0 := rfl

@[simp] theorem collected_afterPdu (msg : CurrRecvMsg) : msg.afterPdu.collected = 0 := by
  rw [afterPdu]
  split
  · rfl
  · exact collected_of_begun rfl

theorem collected_afterChunk {msg : CurrRecvMsg} (begun : msg.notMsgInitPdu = true) :
    msg.afterChunk.collected = 0 := by
  rw [afterChunk]
  split
  · rfl
  · exact collected_of_begun begun

/-- Where a call reads a header, the client is not in the middle of a message. -/
theorem Waiting.first_of_pduRead {stdcl : StdClient} {pdu : Bytes}
    (waiting : stdcl.tempRecvStorage.Waiting) (read : pduRead stdcl = some pdu) :
    stdcl.tempRecvStorage.notMsgInitPdu = false := by
  by_contra begun
  have begun := Bool.not_eq_false _ ▸ begun
  rw [pduRead_of_begun (waiting.inStep begun) begun] at read
  cases read

end CurrRecvMsg

/-- What a call does in the stream of its client. It holds no more than it held and took; and a header
it comes to a verdict about is a part of this, and is not held any longer. -/
structure Advances (stdcl : StdClient) (result : InboundResult) (bytes : Bytes) : Prop where
  incoming : stdcl.connection.incoming = bytes ++ result.stdcl.connection.incoming
  collected : result.stdcl.clState = .authenticated →
    result.stdcl.tempRecvStorage.collected ≤ stdcl.tempRecvStorage.collected + bytes.length
  verdict : ∀ pdu verdict, pduRead stdcl = some pdu → result.exit.verdict = some verdict →
    pdu.length ≤ stdcl.tempRecvStorage.collected + bytes.length ∧
      result.stdcl.tempRecvStorage.collected < pdu.length

theorem Called.advances {env : InboundEnv} {stdcl : StdClient} {result : InboundResult}
    (called : Called env stdcl result) (waiting : stdcl.tempRecvStorage.Waiting)
    (live : stdcl.clState = .authenticated) : ∃ bytes, Advances stdcl result bytes := by
  cases called with
  | disconnected gone =>
    rw [live] at gone
    cases gone
  | @recvError bytes connection msg receives fails unread =>
    refine ⟨bytes, ?_, fun still => ?_, fun _ _ _ none => by cases none⟩
    · rw [cleanupStdClient_connection]
      exact receives.incoming
    · exact absurd still (cleanupStdClient_not_authenticated _)
  | @notResynced bytes connection receives out unread =>
    exact ⟨bytes, receives.incoming, fun _ => Nat.zero_le _, fun _ _ _ none => by cases none⟩
  | @pduBlocked bytes connection msg receives first waiting kept unread opening =>
    refine ⟨bytes, receives.incoming, fun _ => ?_, fun _ _ _ none => by cases none⟩
    rw [CurrRecvMsg.collected_of_first opening, withRecv_tempRecvStorage,
      CurrRecvMsg.collected_of_first first]
    exact kept
  | @chunkBlocked bytes connection receives begun short unread =>
    refine ⟨bytes, receives.incoming, fun _ => ?_, fun _ _ _ none => by cases none⟩
    have still : (stdcl.tempRecvStorage.receivedPayload bytes).notMsgInitPdu = true := begun
    rw [withRecv_tempRecvStorage, CurrRecvMsg.collected_of_begun still]
    exact Nat.zero_le _
  | @notComplete bytes connection buf receives read header space overflows kept =>
    refine ⟨bytes, receives.incoming, fun _ => ?_, fun _ _ _ none => by cases none⟩
    rw [CurrRecvMsg.collected_of_first (waiting.first_of_pduRead read), withRecv_tempRecvStorage,
      CurrRecvMsg.collected_of_first rfl]
    exact kept
  | @pdu bytes connection buf result receives read header within ready kept delivered =>
    rw [← CurrRecvMsg.collected_of_first (waiting.first_of_pduRead read)] at kept
    have positive : 0 < buf.length := Nat.lt_of_lt_of_le (by decide) header
    have verdict {after : StdClient} (keeps : KeepsRecv (stdcl.withRecv connection
        (.opened buf)) after) (nothing : after.tempRecvStorage.collected = 0)
        (exit : InboundExit) (responses : List MpscMsgNode)
        (forwarded : Option (Addr × MpscMsgNode)) :
        Advances stdcl ⟨exit, after, responses, forwarded⟩ bytes := by
      refine ⟨?_, fun _ => by rw [nothing]; exact Nat.zero_le _, fun pdu verdict again _ => ?_⟩
      · rw [keeps.incoming]
        exact receives.incoming
      · obtain rfl := Option.some.inj (again.symm.trans read)
        rw [nothing]
        exact ⟨kept, positive⟩
    refine ⟨bytes, ?_⟩
    cases delivered with
    | rejected refused keeps left => exact verdict keeps (by rw [left]; rfl) _ _ _
    | served accepted request keeps left =>
      exact verdict keeps (by rw [left, CurrRecvMsg.collected_afterPdu]) _ _ _
    | unreachable accepted message gone keeps left =>
      exact verdict keeps (by rw [left, CurrRecvMsg.collected_fresh]) _ _ _
    | forwarded accepted message found keeps left =>
      exact verdict keeps (by rw [left, CurrRecvMsg.collected_afterPdu]) _ _ _
  | @chunk bytes connection result receives begun full unread delivered =>
    refine ⟨bytes, ?_⟩
    have still : (stdcl.tempRecvStorage.receivedPayload bytes).notMsgInitPdu = true := begun
    have nothing {after : StdClient} (keeps : KeepsRecv (stdcl.withRecv connection
        (stdcl.tempRecvStorage.receivedPayload bytes)) after)
        (nothing : after.tempRecvStorage.collected = 0)
        (exit : InboundExit) (responses : List MpscMsgNode)
        (forwarded : Option (Addr × MpscMsgNode)) :
        Advances stdcl ⟨exit, after, responses, forwarded⟩ bytes := by
      refine ⟨?_, fun _ => by rw [nothing]; exact Nat.zero_le _, fun pdu verdict again _ => ?_⟩
      · rw [keeps.incoming]
        exact receives.incoming
      · rw [unread] at again
        cases again
    cases delivered with
    | unreachable gone keeps left => exact nothing keeps (by rw [left]; rfl) _ _ _
    | forwarded found keeps left =>
      refine nothing keeps ?_ _ _ _
      rw [left]
      exact CurrRecvMsg.collected_afterChunk still

/-- What a call sends to its client: frames, and in front of them, where it came to a verdict, the
response with its code. -/
structure Responds (result : InboundResult) : Prop where
  frames : ∀ msg ∈ result.responses, DownFrame msg.buf
  verdict : ∀ verdict, result.exit.verdict = some verdict →
    ∃ more, result.responses = verdictNode verdict :: more

theorem length_handleRequest_le (pdu userList : Bytes) :
    (handleRequest pdu userList).length ≤ userList.length := by
  rw [handleRequest]
  split
  · exact le_rfl
  · exact Nat.zero_le _

/-- A call that delivers a PDU has come to the verdict about its header. -/
theorem PduDelivered.exit_verdict {env : InboundEnv} {stdcl : StdClient} {buf : Bytes}
    {result : InboundResult} (delivered : PduDelivered env stdcl buf result) :
    result.exit.verdict = some (env.verdict buf) := by
  cases delivered with
  | rejected refused keeps left => rfl
  | served accepted request keeps left => exact congrArg some accepted.symm
  | unreachable accepted message gone keeps left => exact congrArg some accepted.symm
  | forwarded accepted message found keeps left => exact congrArg some accepted.symm

theorem PduDelivered.responds {env : InboundEnv} {stdcl : StdClient} {buf : Bytes}
    {result : InboundResult} (delivered : PduDelivered env stdcl buf result)
    (fits : lwmpHdrSize + env.userList.length < 2 ^ 64) : Responds result := by
  have verdictFrame (verdict : HdrValidationStatus) : DownFrame (verdictNode verdict).buf :=
    downFrame_responseNode _ (by decide) (by decide)
  have list := length_handleRequest_le buf env.userList
  cases delivered with
  | rejected refused keeps left =>
    refine ⟨fun msg member => ?_, fun verdict same => ?_⟩
    · rw [List.mem_singleton.mp member]
      exact verdictFrame _
    · cases same
      exact ⟨[], rfl⟩
  | served accepted request keeps left =>
    refine ⟨fun msg member => ?_, fun verdict same => ?_⟩
    · rcases List.mem_pair.mp member with rfl | rfl
      · exact verdictFrame .ok
      · exact downFrame_requestNode (by omega)
    · cases same
      exact ⟨_, rfl⟩
  | unreachable accepted message gone keeps left =>
    refine ⟨fun msg member => ?_, fun verdict same => ?_⟩
    · rcases List.mem_pair.mp member with rfl | rfl
      · exact verdictFrame .ok
      · exact downFrame_unreachableNode _
    · cases same
      exact ⟨_, rfl⟩
  | forwarded accepted message found keeps left =>
    refine ⟨fun msg member => ?_, fun verdict same => ?_⟩
    · rw [List.mem_singleton.mp member]
      exact verdictFrame .ok
    · cases same
      exact ⟨[], rfl⟩

theorem Called.responds {env : InboundEnv} {stdcl : StdClient} {result : InboundResult}
    (called : Called env stdcl result) (fits : lwmpHdrSize + env.userList.length < 2 ^ 64) :
    Responds result := by
  have silent (exit : InboundExit) (after : StdClient)
      (forwarded : Option (Addr × MpscMsgNode)) (none : exit.verdict = .none) :
      Responds ⟨exit, after, [], forwarded⟩ := by
    refine ⟨fun _ member => (List.not_mem_nil member).elim, fun verdict same => ?_⟩
    rw [none] at same
    cases same
  cases called with
  | disconnected gone => exact silent _ _ _ rfl
  | recvError receives fails unread => exact silent _ _ _ rfl
  | notResynced receives out unread => exact silent _ _ _ rfl
  | pduBlocked receives first waiting kept unread opening => exact silent _ _ _ rfl
  | chunkBlocked receives begun short unread => exact silent _ _ _ rfl
  | notComplete receives read header space overflows kept => exact silent _ _ _ rfl
  | pdu receives read header within ready kept delivered => exact delivered.responds fits
  | chunk receives begun full unread delivered =>
    cases delivered with
    | unreachable gone keeps left =>
      refine ⟨fun msg member => ?_, fun verdict same => by cases same⟩
      rw [List.mem_singleton.mp member]
      exact downFrame_unreachableNode _
    | forwarded found keeps left =>
      exact silent _ _ _ rfl

end Lwmsg
