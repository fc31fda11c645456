/-
This file is about what the server forwards. Whatever bytes a client sends and however
they arrive, a message that is enqueued for a recipient is one frame under the name of
the client that sent it, as long as no bytes lie behind the first PDU of a message in
the buffer when the server forwards it. The client of the recipient hands over exactly
these frames, as long as it does not write the end of an empty text into the frame that
lies behind it. Where one of the two happens, a client can speak under the name of
another one.
-/

import Lwmsg.Clrecv
import Lwmsg.InboundDrain

namespace Lwmsg

open Bytes Pointers

/-! ### Frames under a name -/

/-- One frame that a client of the server sent: the first PDU of a text or of a file, or a chunk. -/
inductive SentBy (username frame : Bytes) : Prop
  | pdu (whole : PduFrame frame)
      (message : LwmpPdu.msgType frame = MsgType.msg.code ∨
        LwmpPdu.msgType frame = MsgType.file.code)
      (subject : LwmpPdu.subjectUname frame = strncpy unamesize username)
      (length : frame.length = lwmpHdrSize + min (LwmpPdu.totalMsgSize frame) lwmpPduBufSize)
  | chunk (whole : ChunkFrame frame)
      (subject : LwmpChunk.subjectUname frame = strncpy unamesize username)
      (some : 0 < LwmpChunk.chunkSize frame)
      (fits : LwmpChunk.chunkSize frame ≤ lwmpChunkBufSize)

/-- The client has room for such a frame. -/
theorem SentBy.serverFrame {username frame : Bytes} (sent : SentBy username frame) :
    ServerFrame frame ∧ frame.length ≤ recvBufSize := by
  cases sent with
  | pdu whole message subject length =>
    refine ⟨.inl whole, ?_⟩
    simp only [lwmpHdrSize, lwmpPduBufSize, lwmpMaxPduSize, recvBufSize] at length ⊢
    omega
  | chunk whole subject some fits =>
    refine ⟨.inr whole, ?_⟩
    have length := whole.whole
    simp only [lwmpChunkHdrSize, lwmpChunkBufSize, lwmpMaxPduSize, recvBufSize] at length fits ⊢
    omega

section Headers

variable {pdu username : Bytes}

/-- What forwarding writes into a first PDU. -/
theorem length_forwardNode (header : lwmpHdrSize ≤ pdu.length) :
    (forwardNode pdu username).buf.length = pdu.length := by
  have named := @LwmpPdu.length_setSubjectUname pdu username header
  rw [forwardNode, msgNodeCreate]
  simp only [List.take_length]
  rw [LwmpPdu.length_setCrc32 (by rw [named]; exact header), named]

/-- Forwarding changes the name and the checksum, and no other field. -/
theorem slice_forwardNode {start count : Nat} (header : lwmpHdrSize ≤ pdu.length)
    (kept : start + count ≤ 5 ∨ 37 ≤ start ∧ start + count ≤ 77) :
    slice start count (forwardNode pdu username).buf = slice start count pdu := by
  have named := @LwmpPdu.length_setSubjectUname pdu username header
  rw [forwardNode, msgNodeCreate]
  simp only [List.take_length]
  rw [LwmpPdu.slice_setCrc32 (by rw [named]; exact header) (by omega)]
  rcases kept with before | ⟨behind, _⟩
  · exact LwmpPdu.slice_setSubjectUname_before header before
  · exact LwmpPdu.slice_setSubjectUname_behind header behind

theorem hdrMark_forwardNode (header : lwmpHdrSize ≤ pdu.length) :
    LwmpPdu.hdrMark (forwardNode pdu username).buf = LwmpPdu.hdrMark pdu := by
  rw [LwmpPdu.hdrMark, slice_forwardNode header (.inl (by omega)), LwmpPdu.hdrMark]

theorem msgType_forwardNode (header : lwmpHdrSize ≤ pdu.length) :
    LwmpPdu.msgType (forwardNode pdu username).buf = LwmpPdu.msgType pdu := by
  rw [LwmpPdu.msgType, slice_forwardNode header (.inl (by omega)), LwmpPdu.msgType]

theorem totalMsgSize_forwardNode (header : lwmpHdrSize ≤ pdu.length) :
    LwmpPdu.totalMsgSize (forwardNode pdu username).buf = LwmpPdu.totalMsgSize pdu := by
  rw [LwmpPdu.totalMsgSize, slice_forwardNode header (.inr ⟨by omega, by omega⟩),
    LwmpPdu.totalMsgSize]

theorem crcMatches_forwardNode (header : lwmpHdrSize ≤ pdu.length) :
    LwmpPdu.crcMatches (forwardNode pdu username).buf = true := by
  have named := @LwmpPdu.length_setSubjectUname pdu username header
  rw [forwardNode, msgNodeCreate]
  simp only [List.take_length]
  exact LwmpPdu.crcMatches_setCrc32 (by rw [named]; exact header)

theorem subjectUname_forwardNode (header : lwmpHdrSize ≤ pdu.length) :
    LwmpPdu.subjectUname (forwardNode pdu username).buf = strncpy unamesize username := by
  have named := @LwmpPdu.length_setSubjectUname pdu username header
  rw [forwardNode, msgNodeCreate]
  simp only [List.take_length]
  rw [LwmpPdu.subjectUname, LwmpPdu.slice_setCrc32 (by rw [named]; exact header)
    (by simp only [unamesize]; omega), ← LwmpPdu.subjectUname,
    LwmpPdu.subjectUname_setSubjectUname header]

end Headers

/-- The first PDU of a message that has nothing behind it is forwarded as one frame. -/
theorem sentBy_forwardNode {pdu subject username : Bytes} {hvfns : HdrValidationFns}
    (valid : ValidHdrs pdu subject hvfns) (message : LwmpPdu.msgType pdu ≠ MsgType.req.code)
    (header : lwmpHdrSize ≤ pdu.length) (ready : (CurrRecvMsg.opened pdu).pduReady)
    (within : pdu.length ≤ lwmpMaxPduSize)
    (exact : pdu.length ≤ lwmpHdrSize + LwmpPdu.totalMsgSize pdu) :
    SentBy username (forwardNode pdu username).buf := by
  have length : pdu.length = lwmpHdrSize + min (LwmpPdu.totalMsgSize pdu) lwmpPduBufSize := by
    simp only [CurrRecvMsg.pduReady, CurrRecvMsg.opened_expectedMsgSize,
      CurrRecvMsg.opened_totalMsgDataRecved, CurrRecvMsg.opened_recvbuf] at ready
    simp only [lwmpHdrSize, lwmpMaxPduSize, lwmpPduBufSize] at header within ready exact ⊢
    omega
  have announced : wirePayload (forwardNode pdu username).buf =
      min (LwmpPdu.totalMsgSize pdu) lwmpPduBufSize := by
    rw [wirePayload, msgType_forwardNode header, totalMsgSize_forwardNode header]
    split
    · rename_i long
      exact (Nat.min_eq_right long.2.le).symm
    · rename_i short
      refine (Nat.min_eq_left ?_).symm
      by_contra long
      exact short ⟨valid.short_or_file.resolve_left long, not_le.mp long⟩
  refine .pdu ⟨?_, ?_, crcMatches_forwardNode header, ?_⟩ ?_ (subjectUname_forwardNode header) ?_
  · rw [length_forwardNode header]
    exact header
  · rw [hdrMark_forwardNode header]
    exact valid.mark
  · rw [length_forwardNode header, announced]
    exact length
  · rw [msgType_forwardNode header]
    rcases valid.msgType with text | file | request
    · exact .inl text
    · exact .inr file
    · exact absurd request message
  · rw [length_forwardNode header, totalMsgSize_forwardNode header]
    exact length

/-- So is a chunk that holds something. -/
theorem sentBy_chunkNode {recvbuf username : Bytes} (some : 0 < recvbuf.length)
    (within : recvbuf.length ≤ lwmpChunkBufSize) :
    SentBy username (chunkNode recvbuf username).buf := by
  have filled := chunkNode_filled recvbuf username
  have size : LwmpChunk.chunkSize (chunkNode recvbuf username).buf = recvbuf.length :=
    chunkSize_lwmpPrepareChunk within filled
  refine .chunk (chunkFrame_lwmpPrepareChunk within filled)
    (subjectUname_lwmpPrepareChunk within filled) ?_ ?_
  · rw [size]
    exact some
  · rw [size]
    exact within

/-! ### What a call enqueues -/

/-- The condition: a first PDU that is forwarded has nothing behind its announced end. -/
def InboundEnv.ForwardsWhole (env : InboundEnv) (stdcl : StdClient) : Prop :=
  ∀ pdu, pduRead stdcl = some pdu → env.verdict pdu = .ok →
    LwmpPdu.msgType pdu ≠ MsgType.req.code → (env.recipient pdu).isSome →
    pdu.length ≤ lwmpHdrSize + LwmpPdu.totalMsgSize pdu

/-- A message that goes on has bytes to come and room for them. The only other one is a request that
was read out of a stream out of step, which has no recipient. -/
def ForwardsNext (msg : CurrRecvMsg) : Prop :=
  msg.notMsgInitPdu = true →
    msg.totalMsgDataRecved < msg.expectedMsgSize ∧ msg.recvbuf.length < lwmpChunkBufSize ∨
      msg.destUname = List.replicate unamesize 0

/-- What a result enqueues is one frame of a client. -/
def Authentic (username : Bytes) (forwarded : Option (Addr × MpscMsgNode)) : Prop :=
  ∀ rcpt node, forwarded = some (rcpt, node) → SentBy username node.buf

theorem nothing_enqueued (username : Bytes) : Authentic username none := by
  intro rcpt node enqueued
  cases enqueued

theorem forwardsNext_of_first {msg : CurrRecvMsg} (first : msg.notMsgInitPdu = false) :
    ForwardsNext msg := by
  intro begun
  rw [first] at begun
  cases begun

theorem htableGetCond_zeros (table : ClientTable) :
    htableGetCond table (cString (List.replicate unamesize 0)) = none := by
  rw [htableGetCond]
  rfl

/-- A chunk is enqueued under the name of its sender, and what it leaves goes on. -/
theorem ChunkDelivered.authentic {env : InboundEnv} {stdcl : StdClient} {bytes : Bytes}
    {connection : Conn} {result : InboundResult} (waiting : stdcl.tempRecvStorage.Waiting)
    (begun : stdcl.tempRecvStorage.notMsgInitPdu = true)
    (next : ForwardsNext stdcl.tempRecvStorage)
    (full : bytes.length = stdcl.tempRecvStorage.chunkRoom)
    (delivered : ChunkDelivered env
      (stdcl.withRecv connection (stdcl.tempRecvStorage.receivedPayload bytes)) result) :
    Authentic stdcl.username result.forwarded ∧
      ForwardsNext result.stdcl.tempRecvStorage := by
  cases delivered with
  | unreachable gone keeps left =>
    refine ⟨nothing_enqueued _, ?_⟩
    simp only [left]
    exact forwardsNext_of_first rfl
  | @forwarded after rcpt found keeps left =>
    have inside : stdcl.tempRecvStorage.totalMsgDataRecved < stdcl.tempRecvStorage.expectedMsgSize ∧
        stdcl.tempRecvStorage.recvbuf.length < lwmpChunkBufSize := by
      refine (next begun).resolve_right fun zeros => ?_
      have none := htableGetCond_zeros env.forwardTable
      rw [← zeros] at none
      exact absurd (found.symm.trans none) (by simp)
    have held : (stdcl.tempRecvStorage.receivedPayload bytes).recvbuf.length =
        stdcl.tempRecvStorage.recvbuf.length + bytes.length := List.length_append
    rw [CurrRecvMsg.chunkRoom] at full
    constructor
    · rintro other node enqueued
      obtain ⟨rfl, rfl⟩ := Prod.mk.inj (Option.some.inj enqueued)
      refine sentBy_chunkNode ?_ ?_
      · show 0 < (stdcl.tempRecvStorage.receivedPayload bytes).recvbuf.length
        omega
      · show (stdcl.tempRecvStorage.receivedPayload bytes).recvbuf.length ≤ lwmpChunkBufSize
        omega
    · obtain ⟨within, _⟩ := goesOn_receivedPayload waiting begun (fun _ => inside.1)
        (by rw [CurrRecvMsg.chunkRoom]; exact full.le)
      have goesOn := @goesOn_afterChunk (stdcl.tempRecvStorage.receivedPayload bytes) within
      simp only [left]
      intro more
      refine .inl ⟨goesOn more, ?_⟩
      show ({ stdcl.tempRecvStorage.receivedPayload bytes with
        recvbuf := [] }.afterChunk).recvbuf.length < _
      rw [recvbuf_afterChunk_nil]
      decide

/-- A request leaves no recipient. -/
theorem destUname_afterPdu_of_request {buf : Bytes}
    (request : LwmpPdu.msgType buf = MsgType.req.code) :
    ((CurrRecvMsg.opened buf).afterPdu).destUname = List.replicate unamesize 0 := by
  rw [CurrRecvMsg.afterPdu]
  split
  · rfl
  · show (if LwmpPdu.msgType buf ≠ MsgType.req.code then _ else List.replicate unamesize 0) = _
    rw [if_neg (not_not.mpr request)]

/-- What a first PDU enqueues is one frame of its sender, and what it leaves goes on. -/
theorem PduDelivered.authentic {env : InboundEnv} {stdcl : StdClient} {buf : Bytes}
    {connection : Conn} {result : InboundResult} (header : lwmpHdrSize ≤ buf.length)
    (within : buf.length ≤ lwmpMaxPduSize) (ready : (CurrRecvMsg.opened buf).pduReady)
    (exact : env.verdict buf = .ok → LwmpPdu.msgType buf ≠ MsgType.req.code →
      (env.recipient buf).isSome → buf.length ≤ lwmpHdrSize + LwmpPdu.totalMsgSize buf)
    (delivered : PduDelivered env (stdcl.withRecv connection (.opened buf)) buf result) :
    Authentic stdcl.username result.forwarded ∧
      ForwardsNext result.stdcl.tempRecvStorage := by
  cases delivered with
  | rejected refused keeps left =>
    refine ⟨nothing_enqueued _, ?_⟩
    simp only [left]
    exact forwardsNext_of_first rfl
  | served accepted request keeps left =>
    refine ⟨nothing_enqueued _, ?_⟩
    simp only [left]
    exact fun _ => .inr (destUname_afterPdu_of_request request)
  | unreachable accepted message gone keeps left =>
    refine ⟨nothing_enqueued _, ?_⟩
    simp only [left]
    exact forwardsNext_of_first rfl
  | @forwarded after rcpt accepted message found keeps left =>
    have exact := exact accepted message (by rw [found]; rfl)
    have valid := (lwmpValidateHdrs_ok_iff _ _ _).mp accepted
    constructor
    · rintro other node enqueued
      obtain ⟨rfl, rfl⟩ := Prod.mk.inj (Option.some.inj enqueued)
      exact sentBy_forwardNode valid message header ready within exact
    · simp only [left]
      intro more
      refine .inl ⟨goesOn_afterPdu exact more, ?_⟩
      rw [recvbuf_afterPdu_nil]
      decide

theorem Called.authentic {env : InboundEnv} {stdcl : StdClient} {result : InboundResult}
    (called : Called env stdcl result) (waiting : stdcl.tempRecvStorage.Waiting)
    (next : ForwardsNext stdcl.tempRecvStorage) (safe : env.ForwardsWhole stdcl)
    (live : stdcl.clState = .authenticated) :
    Authentic stdcl.username result.forwarded ∧
      (result.stdcl.clState = .authenticated → ForwardsNext result.stdcl.tempRecvStorage) := by
  cases called with
  | disconnected gone =>
    rw [live] at gone
    cases gone
  | recvError receives fails unread =>
    exact ⟨nothing_enqueued _,
      fun still => absurd still (cleanupStdClient_not_authenticated _)⟩
  | notResynced receives out unread =>
    exact ⟨nothing_enqueued _, fun _ => forwardsNext_of_first rfl⟩
  | pduBlocked receives first waiting kept unread =>
    exact ⟨nothing_enqueued _, fun _ => forwardsNext_of_first first⟩
  | @chunkBlocked bytes connection receives begun short unread =>
    refine ⟨nothing_enqueued _, fun _ more => ?_⟩
    rcases next begun with ⟨unfinished, room⟩ | zeros
    · have goesOn :=
        (goesOn_receivedPayload waiting begun (fun _ => unfinished) short.le).2 short more
      refine .inl ⟨goesOn, ?_⟩
      have held : (stdcl.tempRecvStorage.receivedPayload bytes).recvbuf.length =
          stdcl.tempRecvStorage.recvbuf.length + bytes.length := List.length_append
      rw [CurrRecvMsg.chunkRoom] at short
      show (stdcl.tempRecvStorage.receivedPayload bytes).recvbuf.length < lwmpChunkBufSize
      omega
    · exact .inr zeros
  | notComplete receives read header space overflows kept =>
    exact ⟨nothing_enqueued _, fun _ => forwardsNext_of_first rfl⟩
  | pdu receives read header within ready kept delivered =>
    obtain ⟨authentic, forwards⟩ := delivered.authentic header within ready (safe _ read)
    exact ⟨authentic, fun _ => forwards⟩
  | chunk receives begun full unread delivered =>
    obtain ⟨authentic, forwards⟩ := delivered.authentic waiting begun next full
    exact ⟨authentic, fun _ => forwards⟩

/-- Every call of a run meets the condition. -/
def ForwardsWholeAlways (calls : List (InboundEnv × StdClient)) : Prop :=
  ∀ call ∈ calls, call.1.ForwardsWhole call.2

/-- What a run keeps under the condition, and what it enqueues. -/
theorem InboundRun.authentic {start stdcl : StdClient} {calls : List (InboundEnv × StdClient)}
    (session : ReceivingSession start) (run : InboundRun start calls stdcl)
    (safe : ForwardsWholeAlways calls) :
    (stdcl.clState = .authenticated → ForwardsNext stdcl.tempRecvStorage) ∧
      stdcl.username = start.username ∧
      ∀ call ∈ calls, Authentic start.username (wtHandleInboundData call.1 call.2).forwarded := by
  induction run with
  | start =>
    refine ⟨fun _ => ?_, rfl, by simp⟩
    rw [session.fresh]
    exact forwardsNext_of_first rfl
  | between run between inductionHypothesis =>
    obtain ⟨next, username, authentic⟩ := inductionHypothesis safe
    refine ⟨fun live => ?_, between.username.trans username, authentic⟩
    rcases between.state with same | gone
    · rw [between.storage]
      exact next (same.symm.trans live)
    · rw [live] at gone
      cases gone
  | @call calls stdcl env run inductionHypothesis =>
    obtain ⟨next, username, authentic⟩ :=
      inductionHypothesis fun call member => safe call (List.mem_append_left _ member)
    have now := safe _ (List.mem_append_right calls (List.mem_singleton_self _))
    have result : Authentic stdcl.username (wtHandleInboundData env stdcl).forwarded ∧
        ((wtHandleInboundData env stdcl).stdcl.clState = .authenticated →
          ForwardsNext (wtHandleInboundData env stdcl).stdcl.tempRecvStorage) := by
      rcases (run.reading session).1 with gone | ⟨live, waiting⟩
      · rw [wtHandleInboundData, if_pos gone]
        refine ⟨nothing_enqueued _, fun live => ?_⟩
        rw [live] at gone
        cases gone
      · exact (wtHandleInboundData_called env stdcl waiting).authentic waiting (next live) now live
    refine ⟨result.2, ?_, fun call member => ?_⟩
    · exact (wtHandleInboundData_acts env stdcl).username.trans username
    · rcases List.mem_append.mp member with earlier | last
      · exact authentic call earlier
      · rw [List.mem_singleton.mp last, ← username]
        exact result.1

/-! ### What a recipient reads -/

theorem subjectUname_lwmpHdr {msgType total : Nat} {subject optional rest : Bytes}
    (subjectLength : subject.length = unamesize) :
    LwmpPdu.subjectUname (lwmpHdr msgType subject optional total ++ rest) = subject := by
  have front : (beBytes 4 pduSyncHdrMark ++ beBytes 1 msgType).length = 5 := by
    rw [List.length_append, length_beBytes, length_beBytes]
  rw [LwmpPdu.subjectUname, lwmpHdr, lwmpHdrCovered, List.append_assoc, List.append_assoc,
    List.append_assoc, List.append_assoc (beBytes 4 pduSyncHdrMark ++ _),
    slice_append_right (le_of_eq front), front, Nat.sub_self, slice_append_self subjectLength]

/-- A header with the bytes it announces behind it. -/
theorem pduFrame_lwmpHdr {msgType : MsgType} {subject optional body : Bytes}
    (notFile : msgType ≠ .file) (subjectLength : subject.length = unamesize)
    (optionalLength : optional.length = optdataLen) (word : body.length < 2 ^ 64) :
    PduFrame (lwmpHdr msgType.code subject optional body.length ++ body) := by
  have byte : msgType.code < 256 := by cases msgType <;> decide
  have header := @length_lwmpHdr msgType.code body.length _ _ subjectLength optionalLength
  refine ⟨?_, hdrMark_lwmpHdr, crcMatches_lwmpHdr subjectLength optionalLength, ?_⟩
  · rw [List.length_append, header]
    omega
  · have other : msgType.code ≠ MsgType.file.code := by
      cases msgType <;> first | decide | exact absurd rfl notFile
    rw [List.length_append, header, wirePayload, msgType_lwmpHdr byte,
      totalMsgSize_lwmpHdr subjectLength optionalLength word, if_neg fun file => other file.1]

/-- Setting the size of a message and then the checksum of its header. -/
theorem setCrc32_setTotalMsgSize {msgType total size : Nat} {subject optional body : Bytes}
    (subjectLength : subject.length = unamesize) (optionalLength : optional.length = optdataLen) :
    LwmpPdu.setCrc32 (LwmpPdu.setTotalMsgSize
      (lwmpHdr msgType subject optional total ++ body) size) =
      lwmpHdr msgType subject optional size ++ body := by
  let front := beBytes 4 pduSyncHdrMark ++ beBytes 1 msgType ++ subject ++ optional
  have length : front.length = 69 := by
    simp only [front, List.length_append, length_beBytes, subjectLength, optionalLength, unamesize,
      optdataLen]
  have covered (number : Nat) : (front ++ beBytes 8 number).length = 77 := by
    rw [List.length_append, length, length_beBytes]
  have sized : LwmpPdu.setTotalMsgSize (lwmpHdr msgType subject optional total ++ body) size =
      front ++ beBytes 8 size ++ (beBytes 4
        (crc32 (lwmpHdrCovered msgType subject optional total)).toNat ++ body) := by
    have split : lwmpHdr msgType subject optional total ++ body =
        front ++ beBytes 8 total ++ (beBytes 4
          (crc32 (lwmpHdrCovered msgType subject optional total)).toNat ++ body) := by
      rw [← List.append_assoc]
      rfl
    rw [LwmpPdu.setTotalMsgSize, split, ← covered total, List.drop_left, List.append_assoc front,
      ← length, List.take_left]
  have checksum : LwmpPdu.covered (front ++ beBytes 8 size ++ (beBytes 4
      (crc32 (lwmpHdrCovered msgType subject optional total)).toNat ++ body)) =
      lwmpHdrCovered msgType subject optional size := by
    rw [LwmpPdu.covered, ← covered size, List.take_left]
    rfl
  have behind : (front ++ beBytes 8 size ++ beBytes 4
      (crc32 (lwmpHdrCovered msgType subject optional total)).toNat).length = lwmpHdrSize := by
    rw [List.length_append, covered, length_beBytes, lwmpHdrSize]
  rw [sized, LwmpPdu.setCrc32, checksum, ← List.append_assoc (front ++ beBytes 8 size), ← behind,
    List.drop_left]
  rfl

/-- What `lwmp_prepare_response` puts behind a header: the text with its NUL. -/
def responseBody : Option Bytes → Bytes
  | none => []
  | some text => text ++ [0]

/-- The optional data of a response. -/
def responseOptional (respCode : Nat) : Bytes :=
  beBytes 4 respCode ++ List.replicate (optdataLen - 4) 0

theorem length_responseOptional (respCode : Nat) :
    (responseOptional respCode).length = optdataLen := by
  rw [responseOptional, List.length_append, length_beBytes, List.length_replicate]
  rfl

theorem responseNode_buf {text : Option Bytes} (msgType : MsgType) (respCode : Nat)
    (short : (text.getD []).length < lwmpPduBufSize) :
    (responseNode msgType respCode text).buf =
      lwmpHdr msgType.code (List.replicate unamesize 0) (responseOptional respCode)
        (responseBody text).length ++ responseBody text := by
  have fits : ¬ optdataLen < 4 := by decide
  simp only [lwmpPduBufSize, lwmpMaxPduSize, lwmpHdrSize] at short
  cases text with
  | none =>
    simp only [responseNode, msgNodeCreate, lwmpPrepareResponse, Option.getD_some, gt_iff_lt,
      length_beBytes, fits, if_false]
    rw [List.drop_of_length_le (by rw [List.length_replicate]; exact le_rfl)]
    rfl
  | some text =>
    simp only [Option.getD_some] at short
    have kept : text.take (lwmpPduBufSize - 1) = text := by
      refine List.take_of_length_le ?_
      simp only [lwmpPduBufSize, lwmpMaxPduSize, lwmpHdrSize]
      omega
    simp only [responseNode, msgNodeCreate, lwmpPrepareResponse, Option.getD_some, gt_iff_lt,
      length_beBytes, fits, if_false, kept]
    rw [List.drop_of_length_le (by rw [List.length_replicate, List.length_append]; rfl),
      List.append_nil]
    rfl

theorem responseNode_pduFrame {msgType : MsgType} (respCode : Nat) (text : Option Bytes)
    (notFile : msgType ≠ .file) (short : (text.getD []).length < lwmpPduBufSize) :
    PduFrame (responseNode msgType respCode text).buf ∧
      (responseNode msgType respCode text).buf.length ≤ lwmpMaxPduSize := by
  have subject : (List.replicate unamesize (0 : UInt8)).length = unamesize := List.length_replicate
  have body : (responseBody text).length ≤ lwmpPduBufSize := by
    cases text with
    | none => exact Nat.zero_le _
    | some text =>
      simp only [Option.getD_some] at short
      rw [responseBody, List.length_append, List.length_singleton]
      omega
  rw [responseNode_buf msgType respCode short]
  refine ⟨pduFrame_lwmpHdr notFile subject (length_responseOptional respCode)
    (body.trans_lt (by decide)), ?_⟩
  rw [List.length_append, length_lwmpHdr subject (length_responseOptional respCode)]
  simp only [lwmpPduBufSize, lwmpHdrSize, lwmpMaxPduSize] at body ⊢
  omega

theorem length_disconnectText (subjectName : Bytes) :
    (disconnectText subjectName).length < lwmpPduBufSize := by
  have cut : (disconnectText subjectName).length ≤ 127 := List.length_take_le _ _
  exact cut.trans_lt (by decide)

/-- The optional data of an answer to a request that was handled. -/
def requestOptional : Bytes := beBytes 4 (respCodes .ok) ++ List.replicate (optdataLen - 4) 0

theorem length_requestOptional : requestOptional.length = optdataLen := by
  rw [requestOptional, List.length_append, length_beBytes, List.length_replicate]
  rfl

theorem requestNode_buf {reqbuf : Bytes} (some : reqbuf ≠ []) :
    (requestNode reqbuf).buf =
      lwmpHdr MsgType.req.code (List.replicate unamesize 0) requestOptional reqbuf.length ++
        reqbuf := by
  have subject : (List.replicate unamesize (0 : UInt8)).length = unamesize := List.length_replicate
  have header := @length_lwmpHdr MsgType.req.code 0 _ _ subject length_requestOptional
  have inField : ¬ optdataLen < 4 := by decide
  rw [requestNode, if_neg some]
  simp only [msgNodeCreate, lwmpPrepareResponse, Option.getD_some, gt_iff_lt, length_beBytes,
    inField, if_false]
  rw [← requestOptional, ← header, List.take_left,
    setCrc32_setTotalMsgSize subject length_requestOptional]

theorem length_requestNode {reqbuf : Bytes} (some : reqbuf ≠ []) :
    (requestNode reqbuf).buf.length = lwmpHdrSize + reqbuf.length := by
  have subject : (List.replicate unamesize (0 : UInt8)).length = unamesize := List.length_replicate
  rw [requestNode_buf some, List.length_append, length_lwmpHdr subject length_requestOptional]

theorem requestNode_pduFrame {reqbuf : Bytes} (some : reqbuf ≠ []) (word : reqbuf.length < 2 ^ 64) :
    PduFrame (requestNode reqbuf).buf := by
  have subject : (List.replicate unamesize (0 : UInt8)).length = unamesize := List.length_replicate
  rw [requestNode_buf some]
  exact pduFrame_lwmpHdr (by decide) subject length_requestOptional word

/-- The frames on the stream of a recipient, each with the name of the client it comes from: what
the server answers, without a name, and what was enqueued for clients in runs that meet the
condition. -/
inductive OnStream : Option Bytes → Bytes → Prop
  | response {msgType : MsgType} (respCode : Nat) (text : Option Bytes) (notFile : msgType ≠ .file)
      (short : (text.getD []).length < lwmpPduBufSize) :
      OnStream none (responseNode msgType respCode text).buf
  | request {reqbuf : Bytes} (some : reqbuf ≠ []) (word : lwmpHdrSize + reqbuf.length < 2 ^ 64) :
      OnStream none (requestNode reqbuf).buf
  | forwarded {start stdcl : StdClient} {calls : List (InboundEnv × StdClient)}
      {call : InboundEnv × StdClient} {rcpt : Addr} {node : MpscMsgNode}
      (session : ReceivingSession start) (run : InboundRun start calls stdcl)
      (safe : ForwardsWholeAlways calls) (member : call ∈ calls)
      (enqueued : (wtHandleInboundData call.1 call.2).forwarded = some (rcpt, node)) :
      OnStream (some start.username) node.buf

/-- The frame of a client is one frame under its name. One of the server names nobody. -/
def NamesSender : Option Bytes → Bytes → Prop
  | some username, frame => SentBy username frame
  | none, frame => PduFrame frame ∧ LwmpPdu.subjectUname frame = List.replicate unamesize 0

theorem OnStream.namesSender {sender : Option Bytes} {frame : Bytes}
    (onStream : OnStream sender frame) : NamesSender sender frame := by
  have nobody : (List.replicate unamesize (0 : UInt8)).length = unamesize := List.length_replicate
  cases onStream with
  | response respCode text notFile short =>
    refine ⟨(responseNode_pduFrame respCode text notFile short).1, ?_⟩
    rw [responseNode_buf _ respCode short, subjectUname_lwmpHdr nobody]
  | request some word =>
    refine ⟨requestNode_pduFrame some (by omega), ?_⟩
    rw [requestNode_buf some, subjectUname_lwmpHdr nobody]
  | forwarded session run safe member enqueued =>
    exact (run.authentic session safe).2.2 _ member _ _ enqueued

theorem OnStream.serverFrame {sender : Option Bytes} {frame : Bytes}
    (onStream : OnStream sender frame) : ServerFrame frame ∧ frame.length < 2 ^ 64 := by
  cases onStream with
  | response respCode text notFile short =>
    obtain ⟨whole, small⟩ := responseNode_pduFrame respCode text notFile short
    exact ⟨.inl whole, small.trans_lt (by decide)⟩
  | request some word =>
    exact ⟨.inl (requestNode_pduFrame some (by omega)), by rwa [length_requestNode some]⟩
  | forwarded session run safe member enqueued =>
    obtain ⟨whole, small⟩ := ((run.authentic session safe).2.2 _ member _ _ enqueued).serverFrame
    exact ⟨whole, small.trans_lt (by decide)⟩

/-- A recipient that was just connected, and the frames that its stream will hold. -/
structure ReadsStream (recipient : ClientCtx) (stream : List (Option Bytes × Bytes)) : Prop where
  live : recipient.connected = true
  empty : recipient.recvBuf = []
  incoming : recipient.connection.incoming = (stream.map (·.2)).flatten
  onStream : ∀ item ∈ stream, OnStream item.1 item.2

theorem ReadsStream.readsServer {recipient : ClientCtx} {stream : List (Option Bytes × Bytes)}
    (reads : ReadsStream recipient stream) : ReadsServer recipient (stream.map (·.2)) := by
  refine ⟨reads.live, reads.empty, reads.incoming, fun frame member => ?_⟩
  obtain ⟨item, listed, rfl⟩ := List.mem_map.mp member
  exact (reads.onStream item listed).serverFrame

/-- A recipient that stays in step hands over the frames of its stream, which name their senders. -/
theorem ReadsStream.handed {recipient ctx : ClientCtx} {stream : List (Option Bytes × Bytes)}
    {parsed : List ClientCtx} {handled : List Handled} (reads : ReadsStream recipient stream)
    (run : ClrecvRun recipient parsed handled ctx)
    (safe : ∀ visited ∈ parsed, ParsesSafely visited) :
    ∃ done left, stream = done ++ left ∧ handled = done.map (fun item => .frame item.2) ∧
      ∀ item ∈ done, NamesSender item.1 item.2 := by
  obtain ⟨_, inStep⟩ := run.inStep reads.readsServer safe
  obtain ⟨_, split, same⟩ := inStep.handed
  obtain ⟨done, left, rfl, rfl, rfl⟩ := List.map_eq_append_iff.mp split
  refine ⟨done, left, rfl, by rw [same, List.map_map]; rfl, fun item member => ?_⟩
  exact (reads.onStream item (List.mem_append_left _ member)).namesSender

/-- In every run that meets the condition, what a call enqueues is one frame under the name of the
client. A recipient whose stream holds such frames and those of the server, and whose calls of
`clrecv_parse` do not write behind a PDU, hands over these frames in their order and nothing else,
so it never decodes a frame that names another sender. -/
theorem forwarded_frames_authentic {start stdcl : StdClient}
    {calls : List (InboundEnv × StdClient)} (session : ReceivingSession start)
    (run : InboundRun start calls stdcl) (safe : ForwardsWholeAlways calls) :
    (∀ call ∈ calls, ∀ rcpt node,
      (wtHandleInboundData call.1 call.2).forwarded = some (rcpt, node) →
        SentBy start.username node.buf ∧ OnStream (some start.username) node.buf) ∧
    ∀ (recipient ctx : ClientCtx) (stream : List (Option Bytes × Bytes))
      (parsed : List ClientCtx) (handled : List Handled),
      ReadsStream recipient stream → ClrecvRun recipient parsed handled ctx →
      (∀ visited ∈ parsed, ParsesSafely visited) →
        ∃ done left, stream = done ++ left ∧ handled = done.map (fun item => .frame item.2) ∧
          ∀ item ∈ done, NamesSender item.1 item.2 := by
  refine ⟨fun call member rcpt node enqueued => ?_, fun recipient ctx stream parsed handled reads
    decodes inStep => reads.handed decodes inStep⟩
  exact ⟨(run.authentic session safe).2.2 call member rcpt node enqueued,
    .forwarded session run safe member enqueued⟩

/-- A client of which the server receives all bytes that it asks for. -/
def textingClient (incoming : Bytes) : StdClient :=
  { sendingClient incoming with
    connection := { (sendingClient incoming).connection with
      recvEvents := [.upTo 4095, .upTo 4095, .upTo 4095] } }

/-- The first two calls for such a client. -/
def textingCalls (incoming : Bytes) : List (InboundEnv × StdClient) :=
  [(everyoneIsHere, textingClient incoming),
    (everyoneIsHere, (wtHandleInboundData everyoneIsHere (textingClient incoming)).stdcl)]

theorem textingCalls_run (incoming : Bytes) :
    ∃ stdcl, InboundRun (textingClient incoming) (textingCalls incoming) stdcl :=
  ⟨_, .call everyoneIsHere (.call everyoneIsHere .start)⟩

/-- The message of such a client as it is enqueued. -/
def textingNode (text : Bytes) : MpscMsgNode :=
  forwardNode text (strncpy unamesize (ofLiteral "ann"))

/-- Two texts that are read one by one are forwarded one by one, each with nothing behind it. -/
theorem textingCalls_whole {incoming first second : Bytes}
    (firstRead : pduRead (textingClient incoming) = some first)
    (secondRead : pduRead
      (wtHandleInboundData everyoneIsHere (textingClient incoming)).stdcl = some second)
    (firstWhole : first.length ≤ lwmpHdrSize + LwmpPdu.totalMsgSize first)
    (secondWhole : second.length ≤ lwmpHdrSize + LwmpPdu.totalMsgSize second) :
    ForwardsWholeAlways (textingCalls incoming) := by
  intro call member pdu read _ _ _
  rcases List.mem_pair.mp member with same | same
  · rw [same] at read
    obtain rfl := Option.some.inj (firstRead.symm.trans read)
    exact firstWhole
  · rw [same] at read
    obtain rfl := Option.some.inj (secondRead.symm.trans read)
    exact secondWhole

/-- A recipient that gets a response and both texts at once. -/
def textedClient : ClientCtx :=
  readingClient [okResponse, (textingNode helloText).buf, (textingNode emptyMessage).buf]
    [.upTo 299]

/-- What is on its stream. -/
def textedStream : List (Option Bytes × Bytes) :=
  [(none, okResponse), (some (strncpy unamesize (ofLiteral "ann")), (textingNode helloText).buf),
    (some (strncpy unamesize (ofLiteral "ann")), (textingNode emptyMessage).buf)]

/-- The texts of a client reach the screen of a recipient under its name. -/
theorem forwarded_frames_authentic_two_texts : ∃ parsed ctx done left,
    ClrecvRun textedClient parsed [.frame okResponse, .frame (textingNode helloText).buf,
      .frame (textingNode emptyMessage).buf] ctx ∧
    textedStream = done ++ left ∧
    [.frame okResponse, .frame (textingNode helloText).buf,
      .frame (textingNode emptyMessage).buf] =
        done.map (fun item : Option Bytes × Bytes => Handled.frame item.2) ∧
    ∀ item ∈ done, NamesSender item.1 item.2 := by
  have executed : pduRead (textingClient (helloText ++ emptyMessage)) = some helloText ∧
      pduRead (wtHandleInboundData everyoneIsHere
        (textingClient (helloText ++ emptyMessage))).stdcl = some emptyMessage ∧
      (textingCalls (helloText ++ emptyMessage)).map
        (fun call => (wtHandleInboundData call.1 call.2).forwarded) =
          [some (1, textingNode helloText), some (1, textingNode emptyMessage)] ∧
      (clrecvParse (clrecvFill textedClient).2).map (·.1) =
        some [.frame okResponse, .frame (textingNode helloText).buf,
          .frame (textingNode emptyMessage).buf] := by
    decide +kernel
  obtain ⟨firstRead, secondRead, forwarded, parse⟩ := executed
  obtain ⟨first, rest⟩ := List.cons.inj forwarded
  obtain ⟨_, run⟩ := textingCalls_run (helloText ++ emptyMessage)
  have safe := textingCalls_whole firstRead secondRead (by decide +kernel) (by decide +kernel)
  obtain ⟨enqueued, decoded⟩ := forwarded_frames_authentic ⟨rfl, rfl⟩ run safe
  have reads : ReadsStream textedClient textedStream := by
    refine ⟨rfl, rfl, rfl, fun item member => ?_⟩
    simp only [textedStream, List.mem_cons, List.not_mem_nil, or_false] at member
    rcases member with rfl | rfl | rfl
    · exact .response (respCodes .ok) none (by decide) (by decide)
    · exact (enqueued _ List.mem_cons_self _ _ first).2
    · exact (enqueued _ (List.mem_cons_of_mem _ List.mem_cons_self) _ _ (List.cons.inj rest).1).2
  obtain ⟨⟨handled, next⟩, call, rfl⟩ := Option.map_eq_some_iff.mp parse
  have decodes := (ClrecvRun.start.fill rfl).parse call
  have inStep : ParsesSafely (clrecvFill textedClient).2 :=
    @parsesSafely_of_turns 4 _ (by decide +kernel)
  obtain ⟨done, left, split, same, names⟩ :=
    decoded _ _ _ _ _ reads decodes fun visited member => by rwa [List.mem_singleton.mp member]
  exact ⟨_, _, done, left, decodes, split, same, names⟩

/-- A text under the name of somebody else. -/
def forgedText : Bytes :=
  lwmpHdr MsgType.msg.code (strncpy unamesize (ofLiteral "eve")) (List.replicate optdataLen 0) 1 ++
    [33]

/-- A header with a wrong checksum, and a text with a forged one behind it. -/
def forgingBytes : Bytes := beHdrMark ++ List.replicate 77 0 ++ (helloText ++ forgedText)

/-- A text that consists of a forged one. -/
def wrappingText : Bytes :=
  lwmpHdr MsgType.msg.code (strncpy unamesize (ofLiteral "bob")) (List.replicate optdataLen 0)
    forgedText.length ++ forgedText

/-- The server forwards both texts behind a rejected header in one message, and the recipient takes
the forged one for a frame of its own. It does so too where each message is one frame, but the first
one is an empty text, for which it writes a NUL into the mark of the second one. -/
theorem forged_frame_forwarded :
    (∃ start stdcl calls, ReceivingSession start ∧ InboundRun start calls stdcl ∧
      ∃ call ∈ calls, ∃ rcpt node,
        (wtHandleInboundData call.1 call.2).forwarded = some (rcpt, node) ∧
        ¬ SentBy start.username node.buf ∧
        ∃ parsed handled ctx, ClrecvRun (readingClient [node.buf] [.upTo 299]) parsed handled ctx ∧
          ∃ frame, .frame frame ∈ handled ∧
            LwmpPdu.subjectUname frame ≠ strncpy unamesize start.username) ∧
    ∃ recipient stream parsed handled ctx, ReadsStream recipient stream ∧
      ClrecvRun recipient parsed handled ctx ∧ ∃ frame, .frame frame ∈ handled ∧
        ∀ item ∈ stream, LwmpPdu.subjectUname frame ≠ LwmpPdu.subjectUname item.2 := by
  constructor
  · have executed : (textingCalls forgingBytes).map
          (fun call => (wtHandleInboundData call.1 call.2).forwarded) =
            [none, some (1, textingNode (helloText ++ forgedText))] ∧
        (clrecvParse (clrecvFill
          (readingClient [(textingNode (helloText ++ forgedText)).buf] [.upTo 299])).2).map (·.1) =
            some [.frame (textingNode helloText).buf, .frame forgedText] ∧
        LwmpPdu.subjectUname forgedText ≠ strncpy unamesize (textingClient []).username ∧
        (textingNode (helloText ++ forgedText)).buf.length ≠ lwmpHdrSize +
          min (LwmpPdu.totalMsgSize (textingNode (helloText ++ forgedText)).buf) lwmpPduBufSize ∧
        LwmpChunk.chHdrMark (textingNode (helloText ++ forgedText)).buf ≠ chunkSyncHdrMark := by
      decide +kernel
    obtain ⟨forwarded, parse, other, longer, notChunk⟩ := executed
    obtain ⟨_, run⟩ := textingCalls_run forgingBytes
    have enqueued := (List.cons.inj (List.cons.inj forwarded).2).1
    obtain ⟨⟨handled, next⟩, call, rfl⟩ := Option.map_eq_some_iff.mp parse
    refine ⟨_, _, _, ⟨rfl, rfl⟩, run, _, List.mem_cons_of_mem _ List.mem_cons_self, 1, _, enqueued,
      fun sent => ?_, _, _, next, (ClrecvRun.start.fill rfl).parse call, forgedText,
      List.mem_cons_of_mem _ (List.mem_singleton_self _), other⟩
    cases sent with
    | pdu whole message subject length => exact longer length
    | chunk whole subject some fits => exact notChunk whole.mark
  · have executed : pduRead (textingClient (emptyMessage ++ wrappingText)) = some emptyMessage ∧
        pduRead (wtHandleInboundData everyoneIsHere
          (textingClient (emptyMessage ++ wrappingText))).stdcl = some wrappingText ∧
        (textingCalls (emptyMessage ++ wrappingText)).map
          (fun call => (wtHandleInboundData call.1 call.2).forwarded) =
            [some (1, textingNode emptyMessage), some (1, textingNode wrappingText)] ∧
        (clrecvParse (clrecvFill (readingClient
          [(textingNode emptyMessage).buf, (textingNode wrappingText).buf] [.upTo 299])).2).map
            (·.1) = some [.frame (textingNode emptyMessage).buf, .resync, .frame forgedText] ∧
        LwmpPdu.subjectUname forgedText ≠ LwmpPdu.subjectUname (textingNode emptyMessage).buf ∧
        LwmpPdu.subjectUname forgedText ≠ LwmpPdu.subjectUname (textingNode wrappingText).buf := by
      decide +kernel
    obtain ⟨firstRead, secondRead, forwarded, parse, notFirst, notSecond⟩ := executed
    obtain ⟨first, rest⟩ := List.cons.inj forwarded
    obtain ⟨_, run⟩ := textingCalls_run (emptyMessage ++ wrappingText)
    have safe := textingCalls_whole firstRead secondRead (by decide +kernel) (by decide +kernel)
    have onStream (call : InboundEnv × StdClient) (text : Bytes)
        (member : call ∈ textingCalls (emptyMessage ++ wrappingText))
        (enqueued : (wtHandleInboundData call.1 call.2).forwarded = some (1, textingNode text)) :
        OnStream (some (strncpy unamesize (ofLiteral "ann"))) (textingNode text).buf :=
      @OnStream.forwarded (textingClient (emptyMessage ++ wrappingText)) _ _ _ _ _ ⟨rfl, rfl⟩ run
        safe member enqueued
    obtain ⟨⟨handled, next⟩, call, rfl⟩ := Option.map_eq_some_iff.mp parse
    refine ⟨readingClient [(textingNode emptyMessage).buf, (textingNode wrappingText).buf]
        [.upTo 299], [(some (strncpy unamesize (ofLiteral "ann")), (textingNode emptyMessage).buf),
        (some (strncpy unamesize (ofLiteral "ann")), (textingNode wrappingText).buf)], _, _, next,
      ⟨rfl, rfl, rfl, fun item member => ?_⟩, (ClrecvRun.start.fill rfl).parse call, forgedText,
      by simp, fun item member => ?_⟩
    · rcases List.mem_pair.mp member with rfl | rfl
      · exact onStream _ _ List.mem_cons_self first
      · exact onStream _ _ (List.mem_cons_of_mem _ List.mem_cons_self) (List.cons.inj rest).1
    · rcases List.mem_pair.mp member with rfl | rfl
      · exact notFirst
      · exact notSecond

end Lwmsg
