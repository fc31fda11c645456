/-
This file models `common/lwmp.h` and `common/lwmp.c`: the constants, the layout of
the packed structures `lwmp_pdu` and `lwmp_chunk` inside a buffer, the header
validation of the server, the two functions that prepare a response and a chunk,
and the resynchronisation of a byte stream.

A buffer that the program casts to `lwmp_pdu*` is a byte string here, and a field
is what the bytes at its offset spell. The program reads and writes exactly these
bytes, so nothing depends on how a compiler would lay out an unpacked structure.
-/

import Lwmsg.Crc32

namespace Lwmsg

open Bytes

/-! ### Constants -/

@[simp] def unamesize : Nat := 32
@[simp] def optdataLen : Nat := 32
@[simp] def pwdsize : Nat := 20
@[simp] def lwmpMaxPduSize : Nat := 4096
@[simp] def pduSyncHdrMark : Nat := 0xF7C3EDA8
@[simp] def chunkSyncHdrMark : Nat := 0x4FE2CD81
@[simp] def lwmpHdrSize : Nat := 81
@[simp] def lwmpChunkHdrSize : Nat := 38
@[simp] def lwmpPduBufSize : Nat := lwmpMaxPduSize - lwmpHdrSize
@[simp] def lwmpChunkBufSize : Nat := lwmpMaxPduSize - lwmpChunkHdrSize
@[simp] def maxTextmsgSize : Nat := lwmpPduBufSize

/-- `enum msg_type`. -/
inductive MsgType
  | none
  | msg
  | file
  | req
  | info
  deriving DecidableEq, Repr

/-- The value of an enumerator, which is the byte a header carries. -/
def MsgType.code : MsgType → Nat
  | .none => 0
  | .msg => 1
  | .file => 2
  | .req => 3
  | .info => 4

/-- `enum hdr_validation_status`. -/
inductive HdrValidationStatus
  | ok
  | fileNotAllowed
  | fileToobig
  | txtmsgToobig
  | crcerr
  | invalReq
  | invalPdu
  | invalSubj
  deriving DecidableEq, Repr

/-- `enum resp_code`, by the status it answers. -/
def respCodes : HdrValidationStatus → Nat
  | .ok => 0x4F643180
  | .fileNotAllowed => 0x7F1C825B
  | .fileToobig => 0x1C337928
  | .txtmsgToobig => 0x4829CD33
  | .crcerr => 0xCC32621A
  | .invalReq => 0x3738AA64
  | .invalPdu => 0x337C801A
  | .invalSubj => 0x772A5C19

/-- `REQ_USER_LIST`, the only member of `enum std_req_type`. -/
def reqUserList : Nat := 0

/-! ### The fields of a PDU -/

namespace LwmpPdu

def hdrMark (pdu : Bytes) : Nat := beValue (slice 0 4 pdu)
def msgType (pdu : Bytes) : Nat := beValue (slice 4 1 pdu)
def subjectUname (pdu : Bytes) : Bytes := slice 5 unamesize pdu
def optionalData (pdu : Bytes) : Bytes := slice 37 optdataLen pdu
def totalMsgSize (pdu : Bytes) : Nat := beValue (slice 69 8 pdu)
def crc32 (pdu : Bytes) : Nat := beValue (slice 77 4 pdu)

/-- The bytes the checksum of a header covers: everything in front of the field `crc32`. -/
def covered (pdu : Bytes) : Bytes := pdu.take 77

/-- The field `crc32` is the checksum of the bytes in front of it. -/
def crcMatches (pdu : Bytes) : Bool := (Lwmsg.crc32 (covered pdu)).toNat == crc32 pdu

/-- `strncpy(pdu->subject_uname, name, UNAMESIZE)`. -/
def setSubjectUname (pdu name : Bytes) : Bytes :=
  pdu.take 5 ++ strncpy unamesize name ++ pdu.drop 37

/-- `pdu->total_msg_size = htobe64(size)`. -/
def setTotalMsgSize (pdu : Bytes) (size : Nat) : Bytes := pdu.take 69 ++ beBytes 8 size ++ pdu.drop 77

/-- `pdu->crc32 = htonl(crc32(pdu, offsetof(lwmp_pdu, crc32)))`. -/
def setCrc32 (pdu : Bytes) : Bytes :=
  covered pdu ++ beBytes 4 (Lwmsg.crc32 (covered pdu)).toNat ++ pdu.drop lwmpHdrSize

end LwmpPdu

/-- The bytes of a header in front of its checksum. -/
def lwmpHdrCovered (msgType : Nat) (subject optional : Bytes) (total : Nat) : Bytes :=
  beBytes 4 pduSyncHdrMark ++ beBytes 1 msgType ++ subject ++ optional ++ beBytes 8 total

/-- A header with the right mark and checksum. -/
def lwmpHdr (msgType : Nat) (subject optional : Bytes) (total : Nat) : Bytes :=
  lwmpHdrCovered msgType subject optional total ++
    beBytes 4 (crc32 (lwmpHdrCovered msgType subject optional total)).toNat

/-! ### Reading and rewriting a header -/

namespace LwmpPdu

variable {pdu rest name : Bytes}

theorem hdrMark_append (header : lwmpHdrSize ≤ pdu.length) : hdrMark (pdu ++ rest) = hdrMark pdu := by
  simp only [lwmpHdrSize] at header
  rw [hdrMark, slice_append_left (by omega), hdrMark]

theorem msgType_append (header : lwmpHdrSize ≤ pdu.length) : msgType (pdu ++ rest) = msgType pdu := by
  simp only [lwmpHdrSize] at header
  rw [msgType, slice_append_left (by omega), msgType]

theorem subjectUname_append (header : lwmpHdrSize ≤ pdu.length) :
    subjectUname (pdu ++ rest) = subjectUname pdu := by
  simp only [lwmpHdrSize] at header
  rw [subjectUname, slice_append_left (by simp only [unamesize]; omega), subjectUname]

theorem optionalData_append (header : lwmpHdrSize ≤ pdu.length) :
    optionalData (pdu ++ rest) = optionalData pdu := by
  simp only [lwmpHdrSize] at header
  rw [optionalData, slice_append_left (by simp only [optdataLen]; omega), optionalData]

theorem totalMsgSize_append (header : lwmpHdrSize ≤ pdu.length) :
    totalMsgSize (pdu ++ rest) = totalMsgSize pdu := by
  simp only [lwmpHdrSize] at header
  rw [totalMsgSize, slice_append_left (by omega), totalMsgSize]

theorem covered_append (header : lwmpHdrSize ≤ pdu.length) : covered (pdu ++ rest) = covered pdu := by
  simp only [lwmpHdrSize] at header
  rw [covered, List.take_append_of_le_length (by omega), covered]

theorem crcMatches_append (header : lwmpHdrSize ≤ pdu.length) :
    crcMatches (pdu ++ rest) = crcMatches pdu := by
  have field : crc32 (pdu ++ rest) = crc32 pdu := by
    simp only [lwmpHdrSize] at header
    rw [crc32, slice_append_left (by omega), crc32]
  rw [crcMatches, covered_append header, field, crcMatches]

theorem totalMsgSize_lt (pdu : Bytes) : totalMsgSize pdu < 2 ^ 64 := by
  refine lt_of_lt_of_le (beValue_lt _) ?_
  have short : (slice 69 8 pdu).length ≤ 8 := by
    rw [slice, List.length_take]
    omega
  calc 256 ^ (slice 69 8 pdu).length ≤ 256 ^ 8 := Nat.pow_le_pow_right (by decide) short
    _ = 2 ^ 64 := by decide

theorem length_setSubjectUname (header : lwmpHdrSize ≤ pdu.length) :
    (setSubjectUname pdu name).length = pdu.length := by
  simp only [lwmpHdrSize] at header
  simp only [setSubjectUname, List.length_append, List.length_take, length_strncpy, unamesize,
    List.length_drop]
  omega

/-- Setting the name keeps what lies in front of the field. -/
theorem slice_setSubjectUname_before {start count : Nat} (header : lwmpHdrSize ≤ pdu.length)
    (before : start + count ≤ 5) :
    slice start count (setSubjectUname pdu name) = slice start count pdu := by
  simp only [lwmpHdrSize] at header
  rw [setSubjectUname, List.append_assoc,
    slice_append_left (by rw [List.length_take]; omega), slice_take before]

/-- Setting the name keeps what lies behind the field. -/
theorem slice_setSubjectUname_behind {start count : Nat} (header : lwmpHdrSize ≤ pdu.length)
    (behind : 37 ≤ start) :
    slice start count (setSubjectUname pdu name) = slice start count pdu := by
  simp only [lwmpHdrSize] at header
  have front : (pdu.take 5 ++ strncpy unamesize name).length = 37 := by
    rw [List.length_append, List.length_take, length_strncpy]
    simp only [unamesize]
    omega
  rw [setSubjectUname, slice_append_right (by omega), front, slice, slice, List.drop_drop]
  congr 2
  omega

theorem subjectUname_setSubjectUname (header : lwmpHdrSize ≤ pdu.length) :
    subjectUname (setSubjectUname pdu name) = strncpy unamesize name := by
  simp only [lwmpHdrSize] at header
  have front : (pdu.take 5).length = 5 := by
    rw [List.length_take]
    omega
  rw [subjectUname, setSubjectUname, List.append_assoc, slice_append_right (by omega), front,
    Nat.sub_self, slice_append_self (length_strncpy _ _)]

theorem length_setCrc32 (header : lwmpHdrSize ≤ pdu.length) : (setCrc32 pdu).length = pdu.length := by
  simp only [lwmpHdrSize] at header
  simp only [setCrc32, covered, List.length_append, List.length_take, length_beBytes, lwmpHdrSize,
    List.length_drop]
  omega

/-- Setting the checksum keeps what lies in front of it. -/
theorem slice_setCrc32 {start count : Nat} (header : lwmpHdrSize ≤ pdu.length)
    (before : start + count ≤ 77) : slice start count (setCrc32 pdu) = slice start count pdu := by
  simp only [lwmpHdrSize] at header
  rw [setCrc32, List.append_assoc,
    slice_append_left (by rw [covered, List.length_take]; omega), covered, slice_take before]

theorem crcMatches_setCrc32 (header : lwmpHdrSize ≤ pdu.length) : crcMatches (setCrc32 pdu) = true := by
  simp only [lwmpHdrSize] at header
  have front : (covered pdu).length = 77 := by
    rw [covered, List.length_take]
    omega
  have same : covered (setCrc32 pdu) = covered pdu := by
    rw [setCrc32, covered, List.append_assoc, ← front, List.take_left]
  have field : crc32 (setCrc32 pdu) = (Lwmsg.crc32 (covered pdu)).toNat := by
    rw [crc32, setCrc32, List.append_assoc, slice_append_right (by omega), front, Nat.sub_self,
      slice_append_self (length_beBytes _ _), beValue_beBytes _ _ (crc32_toNat_lt _)]
  rw [crcMatches, same, field, beq_self_eq_true]

end LwmpPdu

section Header

variable {msgType total : Nat} {subject optional rest : Bytes}

theorem length_lwmpHdrCovered (subjectLength : subject.length = unamesize)
    (optionalLength : optional.length = optdataLen) :
    (lwmpHdrCovered msgType subject optional total).length = 77 := by
  simp only [lwmpHdrCovered, List.length_append, length_beBytes, subjectLength, optionalLength,
    unamesize, optdataLen]

theorem length_lwmpHdr (subjectLength : subject.length = unamesize)
    (optionalLength : optional.length = optdataLen) :
    (lwmpHdr msgType subject optional total).length = lwmpHdrSize := by
  rw [lwmpHdr, List.length_append, length_lwmpHdrCovered subjectLength optionalLength,
    length_beBytes, lwmpHdrSize]

theorem hdrMark_lwmpHdr :
    LwmpPdu.hdrMark (lwmpHdr msgType subject optional total ++ rest) = pduSyncHdrMark := by
  simp only [LwmpPdu.hdrMark, lwmpHdr, lwmpHdrCovered, List.append_assoc]
  rw [slice_append_self (length_beBytes _ _), beValue_beBytes _ _ (by decide)]

theorem msgType_lwmpHdr (byte : msgType < 256) :
    LwmpPdu.msgType (lwmpHdr msgType subject optional total ++ rest) = msgType := by
  simp only [LwmpPdu.msgType, lwmpHdr, lwmpHdrCovered, List.append_assoc]
  rw [slice_append_right (by rw [length_beBytes]), length_beBytes, Nat.sub_self,
    slice_append_self (length_beBytes _ _), beValue_beBytes _ _ (by omega)]

theorem totalMsgSize_lwmpHdr (subjectLength : subject.length = unamesize)
    (optionalLength : optional.length = optdataLen) (word : total < 2 ^ 64) :
    LwmpPdu.totalMsgSize (lwmpHdr msgType subject optional total ++ rest) = total := by
  have front : (beBytes 4 pduSyncHdrMark ++ beBytes 1 msgType ++ subject ++ optional).length = 69 := by
    simp only [List.length_append, length_beBytes, subjectLength, optionalLength, unamesize,
      optdataLen]
  rw [LwmpPdu.totalMsgSize, lwmpHdr, lwmpHdrCovered, List.append_assoc, List.append_assoc,
    slice_append_right (by omega), front, Nat.sub_self, slice_append_self (length_beBytes _ _),
    beValue_beBytes _ _ word]

theorem optionalData_lwmpHdr (subjectLength : subject.length = unamesize)
    (optionalLength : optional.length = optdataLen) :
    LwmpPdu.optionalData (lwmpHdr msgType subject optional total ++ rest) = optional := by
  have front : (beBytes 4 pduSyncHdrMark ++ beBytes 1 msgType ++ subject).length = 37 := by
    simp only [List.length_append, length_beBytes, subjectLength, unamesize]
  rw [LwmpPdu.optionalData, lwmpHdr, lwmpHdrCovered, List.append_assoc, List.append_assoc,
    List.append_assoc, slice_append_right (by omega), front, Nat.sub_self,
    slice_append_self optionalLength]

theorem crcMatches_lwmpHdr (subjectLength : subject.length = unamesize)
    (optionalLength : optional.length = optdataLen) :
    LwmpPdu.crcMatches (lwmpHdr msgType subject optional total ++ rest) = true := by
  have front := @length_lwmpHdrCovered msgType total _ _ subjectLength
    optionalLength
  have covered : LwmpPdu.covered (lwmpHdr msgType subject optional total ++ rest) =
      lwmpHdrCovered msgType subject optional total := by
    rw [LwmpPdu.covered, lwmpHdr, List.append_assoc, ← front, List.take_left]
  have field : LwmpPdu.crc32 (lwmpHdr msgType subject optional total ++ rest) =
      (crc32 (lwmpHdrCovered msgType subject optional total)).toNat := by
    rw [LwmpPdu.crc32, lwmpHdr, List.append_assoc, slice_append_right (by omega), front,
      Nat.sub_self, slice_append_self (length_beBytes _ _), beValue_beBytes _ _ (crc32_toNat_lt _)]
  rw [LwmpPdu.crcMatches, covered, field, beq_self_eq_true]

end Header

/-! ### The fields of a chunk -/

namespace LwmpChunk

def chHdrMark (chunk : Bytes) : Nat := beValue (slice 0 4 chunk)
def chunkSize (chunk : Bytes) : Nat := beValue (slice 4 2 chunk)
def subjectUname (chunk : Bytes) : Bytes := slice 6 unamesize chunk
def payload (chunk : Bytes) : Bytes := slice lwmpChunkHdrSize (chunkSize chunk) chunk

end LwmpChunk

/-! ### Header validation -/

/-- `hdr_validation_fns`. -/
structure HdrValidationFns where
  subjValidFn : Bytes → Bool
  reqValidFn : Bytes → Bool
  allowFileTransfers : Bool
  maxFilesizeB : Nat

/-- `lwmp_validate_hdrs`. -/
def lwmpValidateHdrs (pdu subject : Bytes) (hvfns : HdrValidationFns) : HdrValidationStatus :=
  if LwmpPdu.hdrMark pdu ≠ pduSyncHdrMark then .invalPdu
  else if ¬ LwmpPdu.crcMatches pdu then .crcerr
  else if LwmpPdu.msgType pdu ≠ MsgType.msg.code ∧ LwmpPdu.msgType pdu ≠ MsgType.file.code ∧
      LwmpPdu.msgType pdu ≠ MsgType.req.code then .invalPdu
  else if LwmpPdu.msgType pdu = MsgType.file.code ∧ ¬ hvfns.allowFileTransfers then .fileNotAllowed
  else if hvfns.allowFileTransfers ∧ LwmpPdu.totalMsgSize pdu > hvfns.maxFilesizeB then .fileToobig
  else if LwmpPdu.msgType pdu ≠ MsgType.file.code ∧
      LwmpPdu.totalMsgSize pdu > maxTextmsgSize then .txtmsgToobig
  else if LwmpPdu.msgType pdu ≠ MsgType.req.code ∧ ¬ hvfns.subjValidFn subject then .invalSubj
  else if LwmpPdu.msgType pdu = MsgType.req.code ∧ ¬ hvfns.reqValidFn pdu then .invalReq
  else .ok

/-- The headers `lwmp_validate_hdrs` accepts. -/
structure ValidHdrs (pdu subject : Bytes) (hvfns : HdrValidationFns) : Prop where
  mark : LwmpPdu.hdrMark pdu = pduSyncHdrMark
  crc : LwmpPdu.crcMatches pdu = true
  msgType : LwmpPdu.msgType pdu = MsgType.msg.code ∨ LwmpPdu.msgType pdu = MsgType.file.code ∨
    LwmpPdu.msgType pdu = MsgType.req.code
  allowed : LwmpPdu.msgType pdu = MsgType.file.code → hvfns.allowFileTransfers = true
  fileSize : hvfns.allowFileTransfers = true → LwmpPdu.totalMsgSize pdu ≤ hvfns.maxFilesizeB
  textSize : LwmpPdu.msgType pdu ≠ MsgType.file.code → LwmpPdu.totalMsgSize pdu ≤ maxTextmsgSize
  subject : LwmpPdu.msgType pdu ≠ MsgType.req.code → hvfns.subjValidFn subject = true
  request : LwmpPdu.msgType pdu = MsgType.req.code → hvfns.reqValidFn pdu = true

/-- A checksum that matches is not what a header is refused for. -/
theorem lwmpValidateHdrs_ne_crcerr {pdu : Bytes} (subject : Bytes) (hvfns : HdrValidationFns)
    (crc : LwmpPdu.crcMatches pdu = true) : lwmpValidateHdrs pdu subject hvfns ≠ .crcerr := by
  intro same
  rw [lwmpValidateHdrs, if_neg (not_not.mpr crc)] at same
  split_ifs at same

theorem lwmpValidateHdrs_ok_iff (pdu subject : Bytes) (hvfns : HdrValidationFns) :
    lwmpValidateHdrs pdu subject hvfns = .ok ↔ ValidHdrs pdu subject hvfns := by
  rw [lwmpValidateHdrs]
  by_cases mark : LwmpPdu.hdrMark pdu = pduSyncHdrMark
  case neg =>
    rw [if_pos mark]
    exact iff_of_false (by simp) fun valid => mark valid.mark
  rw [if_neg (not_not.mpr mark)]
  by_cases crc : LwmpPdu.crcMatches pdu = true
  case neg =>
    rw [if_pos crc]
    exact iff_of_false (by simp) fun valid => crc valid.crc
  rw [if_neg (not_not.mpr crc)]
  split
  · rename_i other
    refine iff_of_false (by simp) fun valid => ?_
    rcases valid.msgType with msg | file | req
    · exact other.1 msg
    · exact other.2.1 file
    · exact other.2.2 req
  rename_i known
  split
  · rename_i refused
    exact iff_of_false (by simp) fun valid => refused.2 (valid.allowed refused.1)
  rename_i allowed
  split
  · rename_i long
    exact iff_of_false (by simp) fun valid => not_lt.mpr (valid.fileSize long.1) long.2
  rename_i fileSize
  split
  · rename_i long
    exact iff_of_false (by simp) fun valid => not_lt.mpr (valid.textSize long.1) long.2
  rename_i textSize
  split
  · rename_i gone
    exact iff_of_false (by simp) fun valid => gone.2 (valid.subject gone.1)
  rename_i subject
  split
  · rename_i refused
    exact iff_of_false (by simp) fun valid => refused.2 (valid.request refused.1)
  rename_i request
  refine iff_of_true rfl ⟨mark, crc, ?_, ?_, ?_, ?_, ?_, ?_⟩
  · by_contra none
    push Not at none
    exact known none
  · exact fun file => by_contra fun refused => allowed ⟨file, refused⟩
  · exact fun allows => not_lt.mp fun long => fileSize ⟨allows, long⟩
  · exact fun text => not_lt.mp fun long => textSize ⟨text, long⟩
  · exact fun message => by_contra fun gone => subject ⟨message, gone⟩
  · exact fun req => by_contra fun refused => request ⟨req, refused⟩

/-! ### Preparing a response and a chunk -/

/-- `lwmp_prepare_response` on the buffer `pdu`. The text is a C string, and what the function does
not write keeps its old bytes. -/
def lwmpPrepareResponse (pdu : Bytes) (msgType : MsgType) (optdata : Option Bytes)
    (text : Option Bytes) : Bytes :=
  if (optdata.getD []).length > optdataLen then pdu
  else
    let optional := optdata.getD [] ++ List.replicate (optdataLen - (optdata.getD []).length) 0
    let subject := List.replicate unamesize 0
    match text with
    | some text =>
      let body := text.take (lwmpPduBufSize - 1) ++ [0]
      lwmpHdr msgType.code subject optional body.length ++ body ++
        pdu.drop (lwmpHdrSize + body.length)
    | none => lwmpHdr msgType.code subject optional 0 ++ pdu.drop lwmpHdrSize

/-- `lwmp_prepare_chunk` on the buffer `lwc`; the parameter `size` has sixteen bits. -/
def lwmpPrepareChunk (lwc : Bytes) (size : Nat) (subject data : Bytes) : Bytes :=
  let size := min (size % 2 ^ 16) lwmpChunkBufSize
  beBytes 4 chunkSyncHdrMark ++ beBytes 2 size ++ strncpy unamesize subject ++ data.take size ++
    lwc.drop (lwmpChunkHdrSize + size)

section Chunk

variable {lwc subject data : Bytes}

/-- A chunk with data that fits, in a buffer that it fills. -/
theorem lwmpPrepareChunk_eq (within : data.length ≤ lwmpChunkBufSize)
    (filled : lwc.length ≤ lwmpChunkHdrSize + data.length) :
    lwmpPrepareChunk lwc data.length subject data =
      beBytes 4 chunkSyncHdrMark ++ beBytes 2 data.length ++ strncpy unamesize subject ++ data := by
  have size : min (data.length % 2 ^ 16) lwmpChunkBufSize = data.length := by
    simp only [lwmpChunkBufSize, lwmpMaxPduSize, lwmpChunkHdrSize] at within ⊢
    omega
  simp only [lwmpPrepareChunk, size, List.take_length]
  rw [List.drop_of_length_le filled, List.append_nil]

theorem length_lwmpPrepareChunk (within : data.length ≤ lwmpChunkBufSize)
    (filled : lwc.length ≤ lwmpChunkHdrSize + data.length) :
    (lwmpPrepareChunk lwc data.length subject data).length = lwmpChunkHdrSize + data.length := by
  rw [lwmpPrepareChunk_eq within filled]
  simp only [List.length_append, length_beBytes, length_strncpy, unamesize, lwmpChunkHdrSize]

/-- The mark of a chunk stands where a PDU has its own. -/
theorem hdrMark_lwmpPrepareChunk (size : Nat) :
    LwmpPdu.hdrMark (lwmpPrepareChunk lwc size subject data) = chunkSyncHdrMark := by
  simp only [lwmpPrepareChunk, LwmpPdu.hdrMark, List.append_assoc]
  rw [slice_append_self (length_beBytes _ _), beValue_beBytes _ _ (by decide)]

theorem chunkSize_lwmpPrepareChunk (within : data.length ≤ lwmpChunkBufSize)
    (filled : lwc.length ≤ lwmpChunkHdrSize + data.length) :
    LwmpChunk.chunkSize (lwmpPrepareChunk lwc data.length subject data) = data.length := by
  have word : data.length < 256 ^ 2 := by
    simp only [lwmpChunkBufSize, lwmpMaxPduSize, lwmpChunkHdrSize] at within
    omega
  rw [lwmpPrepareChunk_eq within filled, LwmpChunk.chunkSize, List.append_assoc, List.append_assoc,
    slice_append_right (by rw [length_beBytes]), length_beBytes, Nat.sub_self,
    slice_append_self (length_beBytes _ _), beValue_beBytes _ _ word]

theorem subjectUname_lwmpPrepareChunk (within : data.length ≤ lwmpChunkBufSize)
    (filled : lwc.length ≤ lwmpChunkHdrSize + data.length) :
    LwmpChunk.subjectUname (lwmpPrepareChunk lwc data.length subject data) =
      strncpy unamesize subject := by
  have front : (beBytes 4 chunkSyncHdrMark ++ beBytes 2 data.length).length = 6 := by
    rw [List.length_append, length_beBytes, length_beBytes]
  rw [lwmpPrepareChunk_eq within filled, LwmpChunk.subjectUname, List.append_assoc,
    slice_append_right (by omega), front, Nat.sub_self, slice_append_self (length_strncpy _ _)]

end Chunk

/-! ### Resynchronisation -/

/-- The header mark as it lies in a stream. -/
def beHdrMark : Bytes := beBytes 4 pduSyncHdrMark

/-- The loop of `lwmp_stream_resync`, cut off after `fuel` candidates. It answers what is left at
the start of the buffer, so the returned length is the length of the answer. -/
def lwmpStreamResyncLoop : Nat → Bytes → Bytes
  | 0, _ => []
  | fuel + 1, buf =>
    match memmem beHdrMark buf with
    | none => []
    | some found =>
      if lwmpHdrSize ≤ found.length ∧ ¬ LwmpPdu.crcMatches found then
        lwmpStreamResyncLoop fuel (found.set 0 0)
      else found

/-- `lwmp_stream_resync`. Every rejected candidate starts behind the one before it, so a buffer
has fewer candidates than the loop may try. -/
def lwmpStreamResync (buf : Bytes) : Bytes := lwmpStreamResyncLoop (buf.length + 1) buf

theorem beHdrMark_eq : beHdrMark = [0xF7, 0xC3, 0xED, 0xA8] := by decide

/-- Overwriting the first byte of a candidate hides that candidate and no later one. -/
theorem memmem_set_zero {found : Bytes} (starts : beHdrMark <+: found) :
    memmem beHdrMark (found.set 0 0) = memmem beHdrMark found.tail := by
  obtain ⟨rest, rfl⟩ := starts
  rw [beHdrMark_eq]
  exact memmem_cons_of_not_starts fun ⟨_, equal⟩ => by simp at equal

theorem lwmpStreamResyncLoop_set_zero {found : Bytes} (fuel : Nat) (starts : beHdrMark <+: found) :
    lwmpStreamResyncLoop fuel (found.set 0 0) = lwmpStreamResyncLoop fuel found.tail := by
  cases fuel with
  | zero => rfl
  | succ fuel => rw [lwmpStreamResyncLoop, memmem_set_zero starts, lwmpStreamResyncLoop]

theorem length_tail_lt_of_mark {buf found : Bytes} (search : memmem beHdrMark buf = some found) :
    found.tail.length < buf.length := by
  have shorter := (memmem_suffix search).length_le
  have marked := (memmem_starts search).length_le
  rw [beHdrMark_eq] at marked
  simp only [List.length_cons, List.length_nil] at marked
  rw [List.length_tail]
  omega

/-- Past the length of the buffer, more candidates to try change nothing. -/
theorem lwmpStreamResyncLoop_fuel (buf : Bytes) (fuel : Nat) (enough : buf.length < fuel) :
    lwmpStreamResyncLoop fuel buf = lwmpStreamResync buf := by
  induction fuel using Nat.strong_induction_on generalizing buf with
  | _ fuel inductionHypothesis =>
    obtain ⟨fuel, rfl⟩ : ∃ smaller, fuel = smaller + 1 := ⟨fuel - 1, by omega⟩
    rw [lwmpStreamResync, lwmpStreamResyncLoop, lwmpStreamResyncLoop]
    cases search : memmem beHdrMark buf with
    | none => rfl
    | some found =>
      have shorter := length_tail_lt_of_mark search
      simp only
      split
      · rw [lwmpStreamResyncLoop_set_zero _ (memmem_starts search),
          lwmpStreamResyncLoop_set_zero _ (memmem_starts search),
          inductionHypothesis fuel (by omega) _ (by omega)]
        by_cases equal : buf.length = fuel
        · rw [equal, inductionHypothesis fuel (by omega) _ (by omega)]
        · rw [inductionHypothesis buf.length (by omega) _ (by omega)]
      · rfl

/-- One candidate of the resynchronisation: the search goes on behind a candidate whose complete
header fails its checksum, and keeps every other one. -/
theorem lwmpStreamResync_eq (buf : Bytes) :
    lwmpStreamResync buf =
      match memmem beHdrMark buf with
      | none => []
      | some found =>
        if lwmpHdrSize ≤ found.length ∧ ¬ LwmpPdu.crcMatches found then lwmpStreamResync found.tail
        else found := by
  rw [lwmpStreamResync, lwmpStreamResyncLoop]
  cases search : memmem beHdrMark buf with
  | none => rfl
  | some found =>
    simp only
    split
    · rw [lwmpStreamResyncLoop_set_zero _ (memmem_starts search),
        lwmpStreamResyncLoop_fuel _ _ (length_tail_lt_of_mark search)]
    · rfl

/-- What the resynchronisation keeps is an unmodified end of the buffer. -/
theorem lwmpStreamResync_suffix (buf : Bytes) : lwmpStreamResync buf <:+ buf := by
  induction length : buf.length using Nat.strong_induction_on generalizing buf with
  | _ count inductionHypothesis =>
    rw [lwmpStreamResync_eq]
    cases search : memmem beHdrMark buf with
    | none => exact List.nil_suffix
    | some found =>
      have shorter := length_tail_lt_of_mark search
      simp only
      split
      · exact ((inductionHypothesis _ (by omega) found.tail rfl).trans
          (List.tail_suffix found)).trans (memmem_suffix search)
      · exact memmem_suffix search

/-- What the resynchronisation keeps starts with the mark, and a complete header in it passes its
checksum. -/
theorem lwmpStreamResync_candidate (buf : Bytes) (kept : lwmpStreamResync buf ≠ []) :
    beHdrMark <+: lwmpStreamResync buf ∧
      (lwmpHdrSize ≤ (lwmpStreamResync buf).length →
        LwmpPdu.crcMatches (lwmpStreamResync buf) = true) := by
  induction length : buf.length using Nat.strong_induction_on generalizing buf with
  | _ count inductionHypothesis =>
    rw [lwmpStreamResync_eq] at kept ⊢
    cases search : memmem beHdrMark buf with
    | none => exact absurd (by rw [search]) kept
    | some found =>
      have shorter := length_tail_lt_of_mark search
      rw [search] at kept
      simp only at kept ⊢
      split
      · rename_i rejected
        rw [if_pos rejected] at kept
        exact inductionHypothesis _ (by omega) found.tail kept rfl
      · rename_i complies
        exact ⟨memmem_starts search, fun complete => by
          by_contra mismatch
          exact complies ⟨complete, mismatch⟩⟩

theorem length_lwmpStreamResync_le (buf : Bytes) : (lwmpStreamResync buf).length ≤ buf.length :=
  (lwmpStreamResync_suffix buf).length_le

end Lwmsg
