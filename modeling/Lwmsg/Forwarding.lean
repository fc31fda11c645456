/-
This file is about an honest client: it sends messages one behind the other, each a
header the server accepts and exactly the bytes the header announces. The stream is cut
into the units a call of `wt_handle_inbound_data` forwards one of, a first PDU or a
chunk. However the bytes arrive, the calls forward one unit behind the other, so what
the recipients get does not depend on how `recv_fn` splits the stream.
-/

import Lwmsg.InboundFrames
import Lwmsg.PduArrival

namespace Lwmsg

open Bytes Pointers

/-! ### Messages of a client -/

/-- A message as a client sends it. -/
structure ClientMsg where
  msgType : MsgType
  subjectUname : Bytes
  optionalData : Bytes
  payload : Bytes
  deriving DecidableEq, Repr

namespace ClientMsg

/-- A text or a file with a header of the right layout, whose size does not overflow the sum with the
size of the header. -/
structure Sendable (msg : ClientMsg) : Prop where
  message : msg.msgType = .msg ∨ msg.msgType = .file
  subject : msg.subjectUname.length = unamesize
  optional : msg.optionalData.length = optdataLen
  small : lwmpHdrSize + msg.payload.length < 2 ^ 64

def hdr (msg : ClientMsg) : Bytes :=
  lwmpHdr msg.msgType.code msg.subjectUname msg.optionalData msg.payload.length

/-- The bytes of the message. -/
def wire (msg : ClientMsg) : Bytes := msg.hdr ++ msg.payload

/-- What its recipient is to get for the first PDU: the same header but for the name and the
checksum, and the first bytes of the message. -/
def forwardedPdu (msg : ClientMsg) (username : Bytes) : MpscMsgNode where
  buf := lwmpHdr msg.msgType.code (strncpy unamesize username) msg.optionalData msg.payload.length ++
    msg.payload.take lwmpPduBufSize
  bufOffset := 0
  subjectName := strncpy unamesize username

end ClientMsg

/-- What a recipient is to get for some of the other bytes. -/
def forwardedChunk (username piece : Bytes) : MpscMsgNode where
  buf := beBytes 4 chunkSyncHdrMark ++ beBytes 2 piece.length ++ strncpy unamesize username ++ piece
  bufOffset := 0
  subjectName := strncpy unamesize username

/-- Bytes cut into pieces for chunks, all of them full but for the last one. -/
def chunkPieces : Nat → Bytes → List Bytes
  | 0, _ => []
  | pieces + 1, rest =>
    if rest = [] then []
    else rest.take lwmpChunkBufSize :: chunkPieces pieces (rest.drop lwmpChunkBufSize)

namespace ClientMsg

/-- The bytes that follow the first PDU, cut into pieces. -/
def pieces (msg : ClientMsg) : List Bytes :=
  chunkPieces msg.payload.length (msg.payload.drop lwmpPduBufSize)

/-- All that its recipient is to get for a message. -/
def items (msg : ClientMsg) (username : Bytes) : List MpscMsgNode :=
  msg.forwardedPdu username :: msg.pieces.map (forwardedChunk username)

end ClientMsg

theorem flatten_chunkPieces (pieces : Nat) (rest : Bytes) (enough : rest.length ≤ pieces) :
    (chunkPieces pieces rest).flatten = rest := by
  induction pieces generalizing rest with
  | zero =>
    have empty : rest = [] := List.eq_nil_of_length_eq_zero (by omega)
    rw [chunkPieces, empty, List.flatten_nil]
  | succ pieces inductionHypothesis =>
    rw [chunkPieces]
    split
    · rename_i empty
      rw [empty, List.flatten_nil]
    · rename_i some
      have positive := List.length_pos_iff.mpr some
      rw [List.flatten_cons, inductionHypothesis _ (by
        rw [List.length_drop]
        simp only [lwmpChunkBufSize, lwmpMaxPduSize, lwmpChunkHdrSize]
        omega), List.take_append_drop]

/-- Every piece but the last one is full. -/
theorem length_chunkPieces (pieces : Nat) (rest : Bytes) :
    ∀ piece ∈ (chunkPieces pieces rest).dropLast, piece.length = lwmpChunkBufSize := by
  induction pieces generalizing rest with
  | zero => simp [chunkPieces]
  | succ pieces inductionHypothesis =>
    rw [chunkPieces]
    split
    · simp
    · by_cases last : chunkPieces pieces (rest.drop lwmpChunkBufSize) = []
      · rw [last]
        simp
      · rw [List.dropLast_cons_of_ne_nil last]
        intro piece member
        rcases List.mem_cons.mp member with rfl | later
        · have more : rest.drop lwmpChunkBufSize ≠ [] := by
            intro empty
            rw [empty] at last
            cases pieces <;> simp [chunkPieces] at last
          have long := List.length_pos_iff.mpr more
          rw [List.length_drop] at long
          rw [List.length_take, Nat.min_eq_left (by omega)]
        · exact inductionHypothesis _ piece later

/-! ### Units of the stream -/

/-- The receive state in the middle of a message of which so many bytes were forwarded. -/
def CurrRecvMsg.inMessage (msg : ClientMsg) (sent : Nat) : CurrRecvMsg where
  recvbuf := []
  expectedMsgSize := msg.payload.length
  totalMsgDataRecved := sent
  msgType := msg.msgType.code
  notMsgInitPdu := true
  isDesynced := false
  destUname := CurrRecvMsg.destOf msg.hdr

/-- What a call forwards at once. -/
inductive RecvUnit
  | pdu (msg : ClientMsg)
  | chunk (msg : ClientMsg) (sent : Nat)

namespace RecvUnit

/-- The bytes of a unit. -/
def bytes : RecvUnit → Bytes
  | pdu msg => msg.hdr ++ msg.payload.take lwmpPduBufSize
  | chunk msg sent => (msg.payload.drop sent).take lwmpChunkBufSize

def msg : RecvUnit → ClientMsg
  | pdu msg | chunk msg _ => msg

/-- The receive state in which a unit begins. -/
def before : RecvUnit → CurrRecvMsg
  | pdu _ => .fresh
  | chunk msg sent => .inMessage msg sent

/-- The receive state with so many bytes of a message forwarded. -/
def boundary (msg : ClientMsg) (sent : Nat) : CurrRecvMsg :=
  if sent = msg.payload.length then .fresh else .inMessage msg sent

/-- The receive state in which it ends. -/
def after : RecvUnit → CurrRecvMsg
  | pdu msg => boundary msg (min msg.payload.length lwmpPduBufSize)
  | chunk msg sent => boundary msg (sent + min (msg.payload.length - sent) lwmpChunkBufSize)

/-- What the recipient gets. -/
def item (username : Bytes) : RecvUnit → MpscMsgNode
  | pdu msg => msg.forwardedPdu username
  | chunk msg sent => forwardedChunk username ((msg.payload.drop sent).take lwmpChunkBufSize)

/-- What the sender gets. -/
def responses : RecvUnit → List MpscMsgNode
  | pdu _ => [responseNode .info (respCodes .ok) none]
  | chunk _ _ => []

/-- A unit that can occur. -/
structure Occurs (unit : RecvUnit) : Prop where
  sendable : unit.msg.Sendable
  inside : ∀ msg sent, unit = chunk msg sent → sent < msg.payload.length

/-- The receive state when the first bytes of a unit have arrived. -/
def partly (unit : RecvUnit) (part : Bytes) : CurrRecvMsg :=
  match unit with
  | pdu _ => if part.length < lwmpHdrSize then .idle part else .opened part
  | chunk msg sent => { CurrRecvMsg.inMessage msg sent with
      recvbuf := part
      totalMsgDataRecved := sent + part.length }

end RecvUnit

/-- The chunks of a message behind its first bytes, at most so many. -/
def chunkUnits : Nat → ClientMsg → Nat → List RecvUnit
  | 0, _, _ => []
  | units + 1, msg, sent =>
    if sent < msg.payload.length then
      .chunk msg sent :: chunkUnits units msg (sent + lwmpChunkBufSize)
    else []

/-- The units of a message. -/
def ClientMsg.units (msg : ClientMsg) : List RecvUnit :=
  .pdu msg :: chunkUnits msg.payload.length msg lwmpPduBufSize

/-- Each unit begins in the state in which the one before it ends. -/
def Linked : CurrRecvMsg → List RecvUnit → Prop
  | state, [] => state = .fresh
  | state, unit :: units => state = unit.before ∧ unit.Occurs ∧ Linked unit.after units

/-! ### The units of a message are the message -/

namespace ClientMsg

variable {msg : ClientMsg} {rest : Bytes}

theorem Sendable.byte (sendable : msg.Sendable) :
    msg.msgType.code = MsgType.msg.code ∨ msg.msgType.code = MsgType.file.code := by
  rcases sendable.message with text | file
  · exact .inl (by rw [text])
  · exact .inr (by rw [file])

theorem Sendable.notRequest (sendable : msg.Sendable) : msg.msgType.code ≠ MsgType.req.code := by
  rcases sendable.message with text | file
  · rw [text]
    decide
  · rw [file]
    decide

theorem Sendable.size (sendable : msg.Sendable) : msg.payload.length < 2 ^ 64 := by
  have small := sendable.small
  omega

theorem Sendable.length_hdr (sendable : msg.Sendable) : msg.hdr.length = lwmpHdrSize :=
  length_lwmpHdr sendable.subject sendable.optional

theorem Sendable.totalMsgSize (sendable : msg.Sendable) :
    LwmpPdu.totalMsgSize (msg.hdr ++ rest) = msg.payload.length :=
  totalMsgSize_lwmpHdr sendable.subject sendable.optional sendable.size

theorem Sendable.msgType (sendable : msg.Sendable) :
    LwmpPdu.msgType (msg.hdr ++ rest) = msg.msgType.code := by
  refine msgType_lwmpHdr ?_
  rcases sendable.byte with text | file
  · rw [text]
    decide
  · rw [file]
    decide

theorem Sendable.length_bytes (sendable : msg.Sendable) :
    (RecvUnit.pdu msg).bytes.length = lwmpHdrSize + min msg.payload.length lwmpPduBufSize := by
  rw [RecvUnit.bytes, List.length_append, sendable.length_hdr, List.length_take, Nat.min_comm]

end ClientMsg

theorem chunkUnits_bytes (units : Nat) (msg : ClientMsg) (sent : Nat) :
    (chunkUnits units msg sent).map RecvUnit.bytes = chunkPieces units (msg.payload.drop sent) := by
  induction units generalizing sent with
  | zero => rfl
  | succ units inductionHypothesis =>
    rw [chunkUnits, chunkPieces]
    by_cases inside : sent < msg.payload.length
    · have some : msg.payload.drop sent ≠ [] := by
        rw [← List.length_pos_iff, List.length_drop]
        omega
      rw [if_pos inside, if_neg some, List.map_cons, inductionHypothesis, List.drop_drop,
        RecvUnit.bytes]
    · rw [if_neg inside, if_pos (List.drop_of_length_le (not_lt.mp inside)), List.map_nil]

theorem chunkUnits_items (units : Nat) (msg : ClientMsg) (sent : Nat) (username : Bytes) :
    (chunkUnits units msg sent).map (RecvUnit.item username) =
      (chunkPieces units (msg.payload.drop sent)).map (forwardedChunk username) := by
  rw [← chunkUnits_bytes, List.map_map]
  induction units generalizing sent with
  | zero => rfl
  | succ units inductionHypothesis =>
    rw [chunkUnits]
    split
    · rw [List.map_cons, List.map_cons, inductionHypothesis]
      rfl
    · rfl

theorem ClientMsg.units_items (msg : ClientMsg) (username : Bytes) :
    msg.units.map (RecvUnit.item username) = msg.items username := by
  rw [units, List.map_cons, chunkUnits_items]
  rfl

theorem ClientMsg.units_bytes (msg : ClientMsg) : msg.units.flatMap RecvUnit.bytes = msg.wire := by
  have rest : (msg.payload.drop lwmpPduBufSize).length ≤ msg.payload.length := by
    rw [List.length_drop]
    omega
  have pieces := flatten_chunkPieces msg.payload.length _ rest
  rw [← chunkUnits_bytes] at pieces
  rw [units, List.flatMap_cons, List.flatMap_def, pieces, RecvUnit.bytes, List.append_assoc,
    List.take_append_drop, wire]

theorem ClientMsg.units_responses (msg : ClientMsg) :
    msg.units.flatMap RecvUnit.responses = [responseNode .info (respCodes .ok) none] := by
  have none (units sent : Nat) :
      (chunkUnits units msg sent).flatMap RecvUnit.responses = [] := by
    induction units generalizing sent with
    | zero => rfl
    | succ units inductionHypothesis =>
      rw [chunkUnits]
      split
      · rw [List.flatMap_cons, inductionHypothesis]
        rfl
      · rfl
  rw [units, List.flatMap_cons, none]
  rfl

theorem chunkUnits_msg (units : Nat) (msg : ClientMsg) (sent : Nat) :
    ∀ unit ∈ chunkUnits units msg sent, unit.msg = msg := by
  induction units generalizing sent with
  | zero => simp [chunkUnits]
  | succ units inductionHypothesis =>
    rw [chunkUnits]
    split
    · intro unit member
      rcases List.mem_cons.mp member with rfl | later
      · rfl
      · exact inductionHypothesis _ unit later
    · simp

theorem ClientMsg.units_msg (msg : ClientMsg) : ∀ unit ∈ msg.units, unit.msg = msg := by
  intro unit member
  rcases List.mem_cons.mp member with rfl | later
  · rfl
  · exact chunkUnits_msg _ _ _ unit later

/-- The chunks of a message begin in the state behind the bytes that were forwarded, and end in the
fresh one. -/
theorem linked_chunkUnits {msg : ClientMsg} {rest : List RecvUnit} (sendable : msg.Sendable)
    (fresh : Linked .fresh rest) (units sent : Nat) (inside : sent ≤ msg.payload.length)
    (enough : msg.payload.length - sent ≤ units) :
    Linked (RecvUnit.boundary msg sent) (chunkUnits units msg sent ++ rest) := by
  induction units generalizing sent with
  | zero =>
    rw [RecvUnit.boundary, if_pos (by omega)]
    exact fresh
  | succ units inductionHypothesis =>
    rw [chunkUnits]
    by_cases more : sent < msg.payload.length
    · rw [if_pos more, RecvUnit.boundary, if_neg (by omega), List.cons_append]
      refine ⟨rfl, ⟨sendable, ?_⟩, ?_⟩
      · rintro _ _ same
        cases same
        exact more
      · by_cases last : msg.payload.length - sent ≤ lwmpChunkBufSize
        · have ends : chunkUnits units msg (sent + lwmpChunkBufSize) = [] := by
            cases units with
            | zero => rfl
            | succ units => rw [chunkUnits, if_neg (by omega)]
          rw [RecvUnit.after, Nat.min_eq_left last, ends, List.nil_append, RecvUnit.boundary,
            if_pos (by omega)]
          exact fresh
        · rw [RecvUnit.after, Nat.min_eq_right (by omega)]
          refine inductionHypothesis _ (by omega) ?_
          simp only [lwmpChunkBufSize, lwmpMaxPduSize, lwmpChunkHdrSize] at last ⊢
          omega
    · rw [if_neg more, RecvUnit.boundary, if_pos (by omega)]
      exact fresh

theorem linked_units {msg : ClientMsg} {rest : List RecvUnit} (sendable : msg.Sendable)
    (fresh : Linked .fresh rest) : Linked .fresh (msg.units ++ rest) := by
  refine ⟨rfl, ⟨sendable, fun _ _ same => by cases same⟩, ?_⟩
  by_cases short : msg.payload.length ≤ lwmpPduBufSize
  · have ends : chunkUnits msg.payload.length msg lwmpPduBufSize = [] := by
      cases length : msg.payload.length with
      | zero => rfl
      | succ units => rw [chunkUnits, if_neg (by omega)]
    rw [RecvUnit.after, Nat.min_eq_left short, ends, RecvUnit.boundary, if_pos rfl]
    exact fresh
  · rw [RecvUnit.after, Nat.min_eq_right (by omega)]
    exact linked_chunkUnits sendable fresh _ _ (by omega) (Nat.sub_le _ _)

theorem linked_messages (messages : List ClientMsg) (sendable : ∀ msg ∈ messages, msg.Sendable) :
    Linked .fresh (messages.flatMap ClientMsg.units) := by
  induction messages with
  | nil => rfl
  | cons msg messages inductionHypothesis =>
    rw [List.flatMap_cons]
    exact linked_units (sendable msg List.mem_cons_self)
      (inductionHypothesis fun msg member => sendable msg (List.mem_cons_of_mem _ member))

/-! ### What the server makes of a unit -/

/-- Forwarding a header changes its name and its checksum. -/
theorem forwardNode_lwmpHdr {msgType total : Nat} {subject optional body username : Bytes}
    (subjectLength : subject.length = unamesize) (optionalLength : optional.length = optdataLen) :
    forwardNode (lwmpHdr msgType subject optional total ++ body) username =
      { buf := lwmpHdr msgType (strncpy unamesize username) optional total ++ body
        bufOffset := 0
        subjectName := strncpy unamesize username } := by
  let front := beBytes 4 pduSyncHdrMark ++ beBytes 1 msgType
  have length : front.length = 5 := by
    rw [List.length_append, length_beBytes, length_beBytes]
  have split (name : Bytes) : lwmpHdr msgType name optional total ++ body =
      front ++ (name ++ (optional ++ beBytes 8 total ++
        (beBytes 4 (crc32 (lwmpHdrCovered msgType name optional total)).toNat ++ body))) := by
    simp only [lwmpHdr, lwmpHdrCovered, front, List.append_assoc]
  have named : LwmpPdu.setSubjectUname (lwmpHdr msgType subject optional total ++ body) username =
      front ++ (strncpy unamesize username ++ (optional ++ beBytes 8 total ++
        (beBytes 4 (crc32 (lwmpHdrCovered msgType subject optional total)).toNat ++ body))) := by
    have behind : (front ++ subject).length = 37 := by
      rw [List.length_append, length, subjectLength]
      rfl
    rw [LwmpPdu.setSubjectUname, split, ← length, List.take_left, ← behind,
      ← List.append_assoc front subject, List.drop_left, List.append_assoc]
  have covered : LwmpPdu.covered (front ++ (strncpy unamesize username ++ (optional ++
      beBytes 8 total ++ (beBytes 4 (crc32 (lwmpHdrCovered msgType subject optional total)).toNat ++
        body)))) = lwmpHdrCovered msgType (strncpy unamesize username) optional total := by
    have whole := @length_lwmpHdrCovered msgType total (strncpy unamesize username) optional
      (length_strncpy _ _) optionalLength
    rw [LwmpPdu.covered, ← whole]
    simp only [← List.append_assoc, front]
    rw [List.append_assoc _ _ body, ← lwmpHdrCovered, List.take_left]
  have behind : (LwmpPdu.setSubjectUname (lwmpHdr msgType subject optional total ++ body)
      username).drop lwmpHdrSize = body := by
    have whole : (lwmpHdrCovered msgType (strncpy unamesize username) optional total ++
        beBytes 4 (crc32 (lwmpHdrCovered msgType subject optional total)).toNat).length =
          lwmpHdrSize := by
      rw [List.length_append, length_lwmpHdrCovered (length_strncpy _ _) optionalLength,
        length_beBytes, lwmpHdrSize]
    rw [named, ← whole]
    simp only [← List.append_assoc, front, lwmpHdrCovered]
    rw [List.drop_left]
  rw [forwardNode, msgNodeCreate]
  simp only [List.take_length]
  rw [LwmpPdu.setCrc32, behind, named, covered, ← lwmpHdr]

theorem chunkNode_eq {piece : Bytes} (username : Bytes) (within : piece.length ≤ lwmpChunkBufSize) :
    chunkNode piece username = forwardedChunk username piece := by
  unfold forwardedChunk
  rw [← lwmpPrepareChunk_eq within (chunkNode_filled piece username)]
  rfl

/-! ### One call -/

/-- The server accepts a message, and its recipient is there. -/
structure InboundEnv.Accepts (env : InboundEnv) (rcpt : ClientMsg → Addr) (msg : ClientMsg) : Prop where
  verdict : env.verdict msg.hdr = .ok
  recipient : env.recipient msg.hdr = some (rcpt msg)

/-- A client whose connection does not fail. -/
structure Reliable (stdcl : StdClient) : Prop where
  live : stdcl.clState = .authenticated
  receives : stdcl.connection.NeverFails
  sends : stdcl.connection.NeverBreaks

theorem Reliable.present {stdcl : StdClient} (reliable : Reliable stdcl) :
    stdcl.clState ≠ .disconnected :=
  reliable.live.trans_ne (by decide)

/-- What a call does to a client which has received a part of a unit: it waits for more of it, or it
forwards it. -/
inductive UnitCalled (rcpt : ClientMsg → Addr) (stdcl : StdClient) (unit : RecvUnit) (more : Bytes) :
    InboundResult → Prop
  | waits {exit after part} (reliable : Reliable after) (username : after.username = stdcl.username)
      (held : after.tempRecvStorage = unit.partly part) (short : part.length < unit.bytes.length)
      (stream : part ++ after.connection.incoming = unit.bytes ++ more) :
      UnitCalled rcpt stdcl unit more ⟨exit, after, [], none⟩
  | forwards {exit after} (reliable : Reliable after) (username : after.username = stdcl.username)
      (held : after.tempRecvStorage = unit.after) (stream : after.connection.incoming = more) :
      UnitCalled rcpt stdcl unit more
        ⟨exit, after, unit.responses, some (rcpt unit.msg, unit.item stdcl.username)⟩

theorem Reliable.withRecv {stdcl : StdClient} {connection : Conn} {bytes : Bytes}
    (reliable : Reliable stdcl) (receives : stdcl.connection.Receives bytes connection)
    (msg : CurrRecvMsg) : Reliable (stdcl.withRecv connection msg) := by
  refine ⟨reliable.live, receives.neverFails reliable.receives, ?_⟩
  obtain ⟨used, before⟩ := receives
  have sends := reliable.sends
  rw [before] at sends
  exact sends

theorem Reliable.keepsRecv {before after : StdClient} (reliable : Reliable before)
    (keeps : KeepsRecv before after) : Reliable after := by
  obtain ⟨sends, state⟩ := keeps.stays reliable.sends
  refine ⟨state.trans reliable.live, ?_, sends⟩
  rw [Conn.NeverFails, keeps.recvAfter, keeps.recvEvents]
  exact reliable.receives

section Delivering

variable {env : InboundEnv} {rcpt : ClientMsg → Addr} {msg : ClientMsg} {tail : Bytes}

theorem ClientMsg.Sendable.header (sendable : msg.Sendable) : lwmpHdrSize ≤ msg.hdr.length :=
  sendable.length_hdr.ge

/-- The bytes behind a header make no difference to what a call decides about it. -/
theorem ClientMsg.Sendable.destUname (sendable : msg.Sendable) :
    (CurrRecvMsg.opened (msg.hdr ++ tail)).destUname = CurrRecvMsg.destOf msg.hdr := by
  have message : LwmpPdu.msgType (msg.hdr ++ tail) ≠ MsgType.req.code := by
    rw [sendable.msgType]
    exact sendable.notRequest
  rw [CurrRecvMsg.opened_destUname message, CurrRecvMsg.destOf,
    LwmpPdu.subjectUname_append sendable.header, ← CurrRecvMsg.destOf]

theorem InboundEnv.Accepts.verdict_append (accepts : env.Accepts rcpt msg)
    (sendable : msg.Sendable) : env.verdict (msg.hdr ++ tail) = .ok := by
  have dest : (CurrRecvMsg.opened msg.hdr).destUname = CurrRecvMsg.destOf msg.hdr := by
    have same := @ClientMsg.Sendable.destUname msg [] sendable
    rwa [List.append_nil] at same
  have valid := (lwmpValidateHdrs_ok_iff _ _ _).mp accepts.verdict
  have type := @LwmpPdu.msgType_append msg.hdr tail sendable.header
  have size := @LwmpPdu.totalMsgSize_append msg.hdr tail sendable.header
  rw [InboundEnv.verdict, lwmpValidateHdrs_ok_iff, sendable.destUname]
  refine ⟨?_, ?_, ?_, ?_, ?_, ?_, ?_, ?_⟩
  · rw [LwmpPdu.hdrMark_append sendable.header]
    exact valid.mark
  · rw [LwmpPdu.crcMatches_append sendable.header]
    exact valid.crc
  · rw [type]
    exact valid.msgType
  · rw [type]
    exact valid.allowed
  · rw [size]
    exact valid.fileSize
  · rw [type, size]
    exact valid.textSize
  · rw [type, ← dest]
    exact valid.subject
  · intro request
    rw [sendable.msgType] at request
    exact absurd request sendable.notRequest

theorem InboundEnv.Accepts.lookup (accepts : env.Accepts rcpt msg) (sendable : msg.Sendable) :
    htableGetCond env.forwardTable (cString (CurrRecvMsg.destOf msg.hdr)) = some (rcpt msg) := by
  have same := @ClientMsg.Sendable.destUname msg [] sendable
  rw [List.append_nil] at same
  rw [← same]
  exact accepts.recipient

/-- What follows the first PDU of a message is the state behind its bytes. -/
theorem ClientMsg.Sendable.afterPdu (sendable : msg.Sendable) :
    ({ CurrRecvMsg.opened (msg.hdr ++ tail) with recvbuf := [] }.afterPdu) =
      RecvUnit.boundary msg tail.length := by
  have recved : (CurrRecvMsg.opened (msg.hdr ++ tail)).totalMsgDataRecved = tail.length := by
    rw [CurrRecvMsg.opened_totalMsgDataRecved, List.length_append, sendable.length_hdr]
    omega
  have expected : (CurrRecvMsg.opened (msg.hdr ++ tail)).expectedMsgSize = msg.payload.length :=
    @ClientMsg.Sendable.totalMsgSize msg tail sendable
  have type : (CurrRecvMsg.opened (msg.hdr ++ tail)).msgType = msg.msgType.code :=
    @ClientMsg.Sendable.msgType msg tail sendable
  rw [CurrRecvMsg.afterPdu, RecvUnit.boundary]
  simp only [recved, expected]
  split
  · rfl
  · rw [CurrRecvMsg.inMessage, ← expected, ← recved, ← type, ← sendable.destUname]
    rfl

end Delivering

theorem ClientMsg.Sendable.firstPdu {msg : ClientMsg} (sendable : msg.Sendable) :
    FirstPdu (RecvUnit.pdu msg).bytes := by
  have size : LwmpPdu.totalMsgSize (RecvUnit.pdu msg).bytes = msg.payload.length :=
    sendable.totalMsgSize
  refine ⟨?_, ?_, ?_⟩
  · rw [sendable.length_bytes]
    omega
  · rw [size, sendable.length_bytes]
  · rw [size]
    exact sendable.small

/-- A call that has received all of a first PDU forwards it. -/
theorem unitCalled_delivered {env : InboundEnv} {rcpt : ClientMsg → Addr} {stdcl : StdClient}
    {msg : ClientMsg} {bytes more : Bytes} {connection : Conn} {result : InboundResult}
    (sendable : msg.Sendable) (accepts : env.Accepts rcpt msg) (reliable : Reliable stdcl)
    (receives : stdcl.connection.Receives bytes connection) (rest : connection.incoming = more)
    (delivered : PduDelivered env (stdcl.withRecv connection (.opened (RecvUnit.pdu msg).bytes))
      (RecvUnit.pdu msg).bytes result) : UnitCalled rcpt stdcl (.pdu msg) more result := by
  have accepted : env.verdict (RecvUnit.pdu msg).bytes = .ok := accepts.verdict_append sendable
  have type : LwmpPdu.msgType (RecvUnit.pdu msg).bytes ≠ MsgType.req.code := by
    rw [RecvUnit.bytes, sendable.msgType]
    exact sendable.notRequest
  have there : env.recipient (RecvUnit.pdu msg).bytes = some (rcpt msg) := by
    rw [InboundEnv.recipient, RecvUnit.bytes, sendable.destUname]
    exact accepts.lookup sendable
  cases delivered with
  | rejected refused keeps left => exact absurd accepted refused
  | served _ request keeps left => exact absurd request type
  | unreachable _ message gone keeps left =>
    rw [there] at gone
    cases gone
  | forwarded _ message found keeps left =>
    rw [there] at found
    obtain rfl := Option.some.inj found
    have node : forwardNode (RecvUnit.pdu msg).bytes stdcl.username =
        (RecvUnit.pdu msg).item stdcl.username :=
      forwardNode_lwmpHdr sendable.subject sendable.optional
    rw [withRecv_username, node]
    refine .forwards ((reliable.withRecv receives _).keepsRecv keeps) keeps.username ?_ ?_
    · rw [left, RecvUnit.bytes, sendable.afterPdu, List.length_take, Nat.min_comm]
      rfl
    · exact keeps.incoming.trans rest

/-- A call on a client that has received a part of a first PDU. -/
theorem unitCalled_pdu {env : InboundEnv} {rcpt : ClientMsg → Addr} {stdcl : StdClient}
    {msg : ClientMsg} {part more : Bytes} (sendable : msg.Sendable)
    (accepts : env.Accepts rcpt msg) (reliable : Reliable stdcl)
    (held : stdcl.tempRecvStorage = (RecvUnit.pdu msg).partly part)
    (short : part.length < (RecvUnit.pdu msg).bytes.length)
    (stream : part ++ stdcl.connection.incoming = (RecvUnit.pdu msg).bytes ++ more) :
    UnitCalled rcpt stdcl (.pdu msg) more (wtHandleInboundData env stdcl) := by
  have arrived := @FirstPdu.arrives env stdcl _ _ _ sendable.firstPdu reliable.live held short stream
  generalize wtHandleInboundData env stdcl = result at arrived ⊢
  cases arrived with
  | waits receives short stream => exact .waits (reliable.withRecv receives _) rfl rfl short stream
  | fails receives fails => exact absurd reliable.receives fails
  | arrives receives rest read delivered =>
    exact unitCalled_delivered sendable accepts reliable receives rest delivered

/-- A call on a client that has received a part of a chunk. -/
theorem unitCalled_chunk {env : InboundEnv} {rcpt : ClientMsg → Addr} {stdcl : StdClient}
    {msg : ClientMsg} {sent : Nat} {part more : Bytes} (sendable : msg.Sendable)
    (inside : sent < msg.payload.length) (accepts : env.Accepts rcpt msg)
    (reliable : Reliable stdcl) (held : stdcl.tempRecvStorage = (RecvUnit.chunk msg sent).partly part)
    (short : part.length < (RecvUnit.chunk msg sent).bytes.length)
    (stream : part ++ stdcl.connection.incoming = (RecvUnit.chunk msg sent).bytes ++ more) :
    UnitCalled rcpt stdcl (.chunk msg sent) more (wtHandleInboundData env stdcl) := by
  have small := sendable.size
  have length : (RecvUnit.chunk msg sent).bytes.length =
      min (msg.payload.length - sent) lwmpChunkBufSize := by
    rw [RecvUnit.bytes, List.length_take, List.length_drop, Nat.min_comm]
  have counters : stdcl.tempRecvStorage.Counters := by
    rw [held]
    refine ⟨small, ?_⟩
    show sent + part.length < 2 ^ 64
    omega
  have room : stdcl.tempRecvStorage.chunkRoom =
      (RecvUnit.chunk msg sent).bytes.length - part.length := by
    rw [held, CurrRecvMsg.chunkRoom, length]
    show min (msg.payload.length - (sent + part.length)) (lwmpChunkBufSize - part.length) = _
    omega
  rw [wtHandleInboundData_of_begun env reliable.present (by rw [held]; rfl) (by rw [held]; rfl),
    inboundRecvChunk]
  have received := inboundRecv_looped CurrRecvMsg.chunkFills stdcl counters
  have whole {bytes : Bytes} {connection : Conn}
      (receives : stdcl.connection.Receives bytes connection) :
      part ++ bytes ++ connection.incoming = (RecvUnit.chunk msg sent).bytes ++ more := by
    rw [List.append_assoc, ← receives.incoming]
    exact stream
  have partly {bytes : Bytes} (fits : bytes.length ≤ stdcl.tempRecvStorage.chunkRoom) :
      stdcl.tempRecvStorage.receivedPayload bytes =
        (RecvUnit.chunk msg sent).partly (part ++ bytes) := by
    have recved : (stdcl.tempRecvStorage.totalMsgDataRecved + bytes.length) % 2 ^ 64 =
        stdcl.tempRecvStorage.totalMsgDataRecved + bytes.length :=
      CurrRecvMsg.receivedPayload_totalMsgDataRecved counters fits
    rw [CurrRecvMsg.receivedPayload, recved, held]
    simp only [RecvUnit.partly, List.length_append, Nat.add_assoc]
  generalize inboundRecv CurrRecvMsg.chunkWanted CurrRecvMsg.receivedPayload stdcl = stage
    at received
  cases received with
  | @blocked bytes connection receives unfinished =>
    rw [partly unfinished.le]
    refine .waits (reliable.withRecv receives _) rfl rfl ?_ (whole receives)
    rw [List.length_append]
    omega
  | failed receives fails => exact absurd reliable.receives fails
  | @full bytes connection receives full =>
    have all : (part ++ bytes).length = (RecvUnit.chunk msg sent).bytes.length := by
      rw [List.length_append]
      omega
    obtain ⟨same, rest⟩ := part_eq_of_length (whole receives) all
    rw [partly full.le, same]
    have delivered := inboundDeliverChunk_delivered env (stdcl.withRecv connection
      ((RecvUnit.chunk msg sent).partly (RecvUnit.chunk msg sent).bytes))
    have there : htableGetCond env.forwardTable (cString (stdcl.withRecv connection
        ((RecvUnit.chunk msg sent).partly
          (RecvUnit.chunk msg sent).bytes)).tempRecvStorage.destUname) =
        some (rcpt msg) := accepts.lookup sendable
    rw [InboundStage.andThen]
    generalize inboundDeliverChunk env _ = result at delivered ⊢
    cases delivered with
    | unreachable gone keeps left =>
      rw [there] at gone
      cases gone
    | forwarded found keeps left =>
      rw [there] at found
      obtain rfl := Option.some.inj found
      have node : chunkNode (RecvUnit.chunk msg sent).bytes stdcl.username =
          (RecvUnit.chunk msg sent).item stdcl.username :=
        chunkNode_eq _ (by rw [length]; omega)
      show UnitCalled rcpt stdcl (.chunk msg sent) more ⟨_, _, _, some (_,
        chunkNode (RecvUnit.chunk msg sent).bytes stdcl.username)⟩
      rw [node]
      refine .forwards ((reliable.withRecv receives _).keepsRecv keeps) keeps.username ?_ ?_
      · rw [left, CurrRecvMsg.afterChunk, RecvUnit.after, RecvUnit.boundary, ← length]
        show (if msg.payload.length = sent + (RecvUnit.chunk msg sent).bytes.length then _ else _) = _
        by_cases last : sent + (RecvUnit.chunk msg sent).bytes.length = msg.payload.length
        · rw [if_pos last.symm, if_pos last]
          rfl
        · rw [if_neg (Ne.symm last), if_neg last]
          rfl
      · exact keeps.incoming.trans rest

/-! ### Runs of calls -/

/-- What happens to a client between two calls when its connection does not fail: no byte that comes in
is touched. -/
structure BetweenReliable (before after : StdClient) : Prop where
  storage : after.tempRecvStorage = before.tempRecvStorage
  username : after.username = before.username
  incoming : after.connection.incoming = before.connection.incoming
  reliable : Reliable after

/-- A run of calls with their results, in which the server accepts the messages and their recipients
stay. -/
inductive ForwardRun (rcpt : ClientMsg → Addr) (messages : List ClientMsg) (start : StdClient) :
    List InboundResult → StdClient → Prop
  | start : ForwardRun rcpt messages start [] start
  | between {log before after} (run : ForwardRun rcpt messages start log before)
      (between : BetweenReliable before after) : ForwardRun rcpt messages start log after
  | call {log stdcl} (env : InboundEnv) (run : ForwardRun rcpt messages start log stdcl)
      (accepts : ∀ msg ∈ messages, env.Accepts rcpt msg) :
      ForwardRun rcpt messages start (log ++ [wtHandleInboundData env stdcl])
        (wtHandleInboundData env stdcl).stdcl

/-- A client that is to receive some units and has received a part of the first one. -/
def Ahead (stdcl : StdClient) : List RecvUnit → Prop
  | [] => stdcl.tempRecvStorage = .fresh ∧ stdcl.connection.incoming = []
  | unit :: rest => ∃ part, stdcl.tempRecvStorage = unit.partly part ∧
      part.length < unit.bytes.length ∧
      part ++ stdcl.connection.incoming = unit.bytes ++ rest.flatMap RecvUnit.bytes ∧
      unit.Occurs ∧ Linked unit.after rest

theorem RecvUnit.Occurs.bytes_pos {unit : RecvUnit} (occurs : unit.Occurs) :
    0 < unit.bytes.length := by
  cases unit with
  | pdu msg =>
    have sendable : msg.Sendable := occurs.sendable
    rw [sendable.length_bytes, lwmpHdrSize]
    omega
  | chunk msg sent =>
    have inside := occurs.inside msg sent rfl
    rw [bytes, List.length_take, List.length_drop]
    simp only [lwmpChunkBufSize, lwmpMaxPduSize, lwmpChunkHdrSize]
    omega

theorem RecvUnit.partly_nil (unit : RecvUnit) : unit.partly [] = unit.before := by
  cases unit with
  | pdu msg => rfl
  | chunk msg sent => rfl

/-- Behind a unit the client waits for the next one. -/
theorem ahead_of_linked {stdcl : StdClient} {state : CurrRecvMsg} {units : List RecvUnit}
    (linked : Linked state units) (held : stdcl.tempRecvStorage = state)
    (stream : stdcl.connection.incoming = units.flatMap RecvUnit.bytes) : Ahead stdcl units := by
  cases units with
  | nil => exact ⟨held.trans linked, stream⟩
  | cons unit rest =>
    obtain ⟨begins, occurs, next⟩ := linked
    refine ⟨[], ?_, occurs.bytes_pos, stream, occurs, next⟩
    rw [held, begins, unit.partly_nil]

/-- A call that has nothing to read waits. -/
theorem unitCalled_nothing {env : InboundEnv} {stdcl : StdClient} (reliable : Reliable stdcl)
    (held : stdcl.tempRecvStorage = .fresh) (empty : stdcl.connection.incoming = []) :
    ∃ exit after, wtHandleInboundData env stdcl = ⟨exit, after, [], none⟩ ∧ Reliable after ∧
      after.username = stdcl.username ∧ Ahead after [] := by
  rw [wtHandleInboundData_of_first env reliable.present (by rw [held]; rfl) (by rw [held]; rfl)]
  have received := @inboundRecvPdu_received stdcl [] (by rw [held]; exact .idle (by decide))
  have none {bytes : Bytes} {connection : Conn}
      (receives : stdcl.connection.Receives bytes connection) :
      bytes = [] ∧ connection.incoming = [] :=
    List.append_eq_nil_iff.mp (receives.incoming ▸ empty)
  generalize inboundRecvPdu stdcl = stage at received
  cases received with
  | hdrBlocked receives short =>
    obtain ⟨rfl, still⟩ := none receives
    exact ⟨_, _, rfl, reliable.withRecv receives _, rfl, rfl, still⟩
  | bodyBlocked receives header space unfinished =>
    obtain ⟨rfl, _⟩ := none receives
    cases header
  | failed receives fails => exact absurd reliable.receives fails
  | notComplete receives header space overflows =>
    obtain ⟨rfl, _⟩ := none receives
    cases header
  | ready receives header within ready exact =>
    obtain ⟨rfl, _⟩ := none receives
    cases header

/-- What a unit puts into the queue of its recipient. -/
def RecvUnit.delivery (rcpt : ClientMsg → Addr) (username : Bytes) (unit : RecvUnit) :
    Addr × MpscMsgNode :=
  (rcpt unit.msg, unit.item username)

/-- What a run keeps: the units up to one place were forwarded, and the others are to come. -/
structure InTransit (rcpt : ClientMsg → Addr) (units : List RecvUnit) (username : Bytes)
    (log : List InboundResult) (stdcl : StdClient) (done left : List RecvUnit) : Prop where
  split : units = done ++ left
  forwarded : log.filterMap (·.forwarded) = done.map (RecvUnit.delivery rcpt username)
  responses : log.flatMap (·.responses) = done.flatMap RecvUnit.responses
  reliable : Reliable stdcl
  username : stdcl.username = username
  ahead : Ahead stdcl left

theorem InTransit.call {rcpt : ClientMsg → Addr} {units done left : List RecvUnit}
    {username : Bytes} {log : List InboundResult} {stdcl : StdClient} {env : InboundEnv}
    (transit : InTransit rcpt units username log stdcl done left)
    (accepts : ∀ unit ∈ units, env.Accepts rcpt unit.msg) :
    ∃ done left, InTransit rcpt units username (log ++ [wtHandleInboundData env stdcl])
      (wtHandleInboundData env stdcl).stdcl done left := by
  have reliable := transit.reliable
  cases left with
  | nil =>
    obtain ⟨held, empty⟩ := transit.ahead
    obtain ⟨exit, after, result, still, name, ahead⟩ := @unitCalled_nothing env _ reliable held empty
    rw [result]
    refine ⟨done, [], transit.split, ?_, ?_, still, name.trans transit.username, ahead⟩
    · rw [List.filterMap_append, transit.forwarded]
      simp
    · rw [List.flatMap_append, transit.responses]
      simp
  | cons unit rest =>
    obtain ⟨part, held, short, stream, occurs, next⟩ := transit.ahead
    have accepted := accepts unit (by rw [transit.split]; simp)
    have called : UnitCalled rcpt stdcl unit (rest.flatMap RecvUnit.bytes)
        (wtHandleInboundData env stdcl) := by
      cases unit with
      | pdu msg => exact unitCalled_pdu occurs.sendable accepted reliable held short stream
      | chunk msg sent =>
        exact unitCalled_chunk occurs.sendable (occurs.inside msg sent rfl) accepted reliable held
          short stream
    generalize wtHandleInboundData env stdcl = result at called ⊢
    cases called with
    | waits still name held short stream =>
      refine ⟨done, unit :: rest, transit.split, ?_, ?_, still, name.trans transit.username,
        _, held, short, stream, occurs, next⟩
      · rw [List.filterMap_append, transit.forwarded]
        simp
      · rw [List.flatMap_append, transit.responses]
        simp
    | forwards still name held stream =>
      refine ⟨done ++ [unit], rest, ?_, ?_, ?_, still, name.trans transit.username,
        ahead_of_linked next held stream⟩
      · rw [transit.split, List.append_assoc, List.singleton_append]
      · rw [List.filterMap_append, transit.forwarded, List.map_append, transit.username]
        rfl
      · rw [List.flatMap_append, transit.responses, List.flatMap_append]
        simp

theorem ForwardRun.inTransit {rcpt : ClientMsg → Addr} {messages : List ClientMsg}
    {start stdcl : StdClient} {log : List InboundResult} (session : ReceivingSession start)
    (reliable : Reliable start) (sendable : ∀ msg ∈ messages, msg.Sendable)
    (stream : start.connection.incoming = messages.flatMap ClientMsg.wire)
    (run : ForwardRun rcpt messages start log stdcl) :
    ∃ done left, InTransit rcpt (messages.flatMap ClientMsg.units) start.username log stdcl done
      left := by
  induction run with
  | start =>
    refine ⟨[], messages.flatMap ClientMsg.units, rfl, rfl, rfl, reliable, rfl,
      ahead_of_linked (linked_messages messages sendable) session.fresh ?_⟩
    rw [stream, List.flatMap_assoc]
    exact List.flatMap_congr fun msg _ => msg.units_bytes.symm
  | between run between inductionHypothesis =>
    obtain ⟨done, left, transit⟩ := inductionHypothesis
    refine ⟨done, left, transit.split, transit.forwarded, transit.responses, between.reliable,
      between.username.trans transit.username, ?_⟩
    have ahead := transit.ahead
    cases left with
    | nil => exact ⟨between.storage.trans ahead.1, between.incoming.trans ahead.2⟩
    | cons unit rest =>
      obtain ⟨part, held, short, stream, occurs, next⟩ := ahead
      exact ⟨part, between.storage.trans held, short, by rw [between.incoming]; exact stream, occurs,
        next⟩
  | call env run accepts inductionHypothesis =>
    obtain ⟨done, left, transit⟩ := inductionHypothesis
    refine transit.call fun unit member => ?_
    obtain ⟨msg, sent, inside⟩ := List.mem_flatMap.mp member
    rw [msg.units_msg unit inside]
    exact accepts msg sent

/-- Everything the recipients are to get. -/
def deliveries (rcpt : ClientMsg → Addr) (username : Bytes) (messages : List ClientMsg) :
    List (Addr × MpscMsgNode) :=
  messages.flatMap fun msg => (msg.items username).map fun item => (rcpt msg, item)

theorem units_deliveries (rcpt : ClientMsg → Addr) (username : Bytes) (messages : List ClientMsg) :
    (messages.flatMap ClientMsg.units).map (RecvUnit.delivery rcpt username) =
      deliveries rcpt username messages := by
  rw [List.map_flatMap, deliveries]
  refine List.flatMap_congr fun msg _ => ?_
  rw [← msg.units_items username, List.map_map]
  refine List.map_congr_left fun unit member => ?_
  rw [RecvUnit.delivery, msg.units_msg unit member]
  rfl

/-- In every run the calls enqueue what the recipients are to get, in this order, however the bytes
arrive. When all bytes have arrived they have enqueued all of it and given one response for each
message, and the receive state is the fresh one. -/
theorem forwarding_faithful {rcpt : ClientMsg → Addr} {messages : List ClientMsg}
    {start stdcl : StdClient} {log : List InboundResult} (session : ReceivingSession start)
    (reliable : Reliable start) (sendable : ∀ msg ∈ messages, msg.Sendable)
    (stream : start.connection.incoming = messages.flatMap ClientMsg.wire)
    (run : ForwardRun rcpt messages start log stdcl) :
    log.filterMap (·.forwarded) <+: deliveries rcpt start.username messages ∧
      (stdcl.connection.incoming = [] →
        log.filterMap (·.forwarded) = deliveries rcpt start.username messages ∧
        log.flatMap (·.responses) =
          messages.map (fun _ => responseNode .info (respCodes .ok) none) ∧
        stdcl.tempRecvStorage = .fresh) ∧
      ∀ msg ∈ messages, msg.pieces.flatten = msg.payload.drop lwmpPduBufSize ∧
        ∀ piece ∈ msg.pieces.dropLast, piece.length = lwmpChunkBufSize := by
  obtain ⟨done, left, transit⟩ := run.inTransit session reliable sendable stream
  have all := units_deliveries rcpt start.username messages
  rw [transit.split, List.map_append, ← transit.forwarded] at all
  refine ⟨⟨_, all⟩, fun arrived => ?_, fun msg _ => ⟨flatten_chunkPieces _ _ ?_,
    length_chunkPieces _ _⟩⟩
  · have ahead := transit.ahead
    cases left with
    | nil =>
      have split := transit.split
      rw [List.append_nil] at split
      rw [List.map_nil, List.append_nil] at all
      refine ⟨all, ?_, ahead.1⟩
      rw [transit.responses, ← split, List.flatMap_assoc]
      simp only [ClientMsg.units_responses]
      exact List.map_eq_flatMap.symm
    | cons unit rest =>
      obtain ⟨part, _, short, whole, _, _⟩ := ahead
      have lengths := congrArg List.length whole
      rw [arrived, List.append_nil, List.length_append] at lengths
      omega
  · rw [List.length_drop]
    omega

/-- Two texts of one client. -/
def twoTexts : List ClientMsg :=
  [⟨.msg, strncpy unamesize (ofLiteral "bob"), List.replicate optdataLen 0, []⟩,
    ⟨.msg, strncpy unamesize (ofLiteral "bob"), List.replicate optdataLen 0, [104, 105]⟩]

/-- The client, whose bytes arrive in three parts. -/
def twoTextsClient : StdClient :=
  let sender := sendingClient (twoTexts.flatMap ClientMsg.wire)
  { sender with connection := { sender.connection with
      recvEvents := [.upTo 40, .failure .eblock, .upTo 99, .upTo 99, .upTo 99]
      sendEvents := [.upTo 99, .upTo 99] } }

/-- The calls of a run for this client. -/
def twoTextsCalls : Nat → StdClient
  | 0 => twoTextsClient
  | calls + 1 => (wtHandleInboundData everyoneIsHere (twoTextsCalls calls)).stdcl

/-- Three calls forward both texts. -/
theorem forwarding_faithful_two_texts :
    let log := (List.range 3).map fun call =>
      wtHandleInboundData everyoneIsHere (twoTextsCalls call)
    log.filterMap (·.forwarded) =
        deliveries (fun _ => 1) (strncpy unamesize (ofLiteral "ann")) twoTexts ∧
      log.flatMap (·.responses) =
        twoTexts.map (fun _ => responseNode .info (respCodes .ok) none) ∧
      (twoTextsCalls 3).tempRecvStorage = .fresh := by
  have accepts : ∀ msg ∈ twoTexts, everyoneIsHere.Accepts (fun _ => 1) msg := by
    intro msg member
    have executed : ∀ msg ∈ twoTexts, everyoneIsHere.verdict msg.hdr = .ok ∧
        everyoneIsHere.recipient msg.hdr = some 1 := by
      decide +kernel
    obtain ⟨verdict, recipient⟩ := executed msg member
    exact ⟨verdict, recipient⟩
  have sendable : ∀ msg ∈ twoTexts, msg.Sendable := by
    intro msg member
    rcases List.mem_pair.mp member with rfl | rfl
    · exact ⟨.inl rfl, by decide, by decide, by decide⟩
    · exact ⟨.inl rfl, by decide, by decide, by decide⟩
  have arrived : (twoTextsCalls 3).connection.incoming = [] := by decide +kernel
  have run : ForwardRun (fun _ => 1) twoTexts twoTextsClient _ (twoTextsCalls 3) :=
    .call everyoneIsHere (.call everyoneIsHere (.call everyoneIsHere .start accepts) accepts) accepts
  exact (forwarding_faithful ⟨rfl, rfl⟩ ⟨rfl, ⟨rfl, by decide⟩, ⟨rfl, by decide⟩⟩ sendable rfl
    run).2.1 arrived

end Lwmsg
