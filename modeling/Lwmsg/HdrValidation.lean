/-
This file is about which headers `lwmp_validate_hdrs` accepts, as the worker calls it:
with `validate_recipient`, `validate_request` and the two settings of the configuration
that concern files. It compares the verdict with the specified headers, and the verdicts
under two configurations with each other, and says exactly when they are as specified.
-/

import Lwmsg.Inbound

namespace Lwmsg

open Bytes

/-! ### What is specified -/

/-- The two settings the validation reads, which may change while the server runs. -/
structure FileSettings where
  allowFileTransfers : Bool
  maxFilesizeB : Nat
  deriving DecidableEq, Repr

/-- `hvfns` of `wt_handle_inbound_data`. -/
def FileSettings.hvfns (settings : FileSettings) (table : ClientTable) : HdrValidationFns where
  subjValidFn := validateRecipient table
  reqValidFn := validateRequest
  allowFileTransfers := settings.allowFileTransfers
  maxFilesizeB := settings.maxFilesizeB

/-- A name belongs to a client that is not disconnected. -/
def IsConnected (table : ClientTable) (name : Bytes) : Prop :=
  name ≠ [] ∧ ∃ addr clState, table name = some (addr, clState) ∧ clState ≠ .disconnected

/-- The headers that are to be accepted. -/
structure SpecifiedHdrs (pdu subject : Bytes) (table : ClientTable) (settings : FileSettings) :
    Prop where
  mark : LwmpPdu.hdrMark pdu = pduSyncHdrMark
  crc : LwmpPdu.crcMatches pdu = true
  msgType : LwmpPdu.msgType pdu = MsgType.msg.code ∨ LwmpPdu.msgType pdu = MsgType.file.code ∨
    LwmpPdu.msgType pdu = MsgType.req.code
  file : LwmpPdu.msgType pdu = MsgType.file.code →
    settings.allowFileTransfers = true ∧ LwmpPdu.totalMsgSize pdu ≤ settings.maxFilesizeB
  text : LwmpPdu.msgType pdu ≠ MsgType.file.code → LwmpPdu.totalMsgSize pdu ≤ maxTextmsgSize
  recipient : LwmpPdu.msgType pdu ≠ MsgType.req.code → IsConnected table (cString subject)
  request : LwmpPdu.msgType pdu = MsgType.req.code →
    beValue (slice 0 4 (LwmpPdu.optionalData pdu)) = reqUserList

/-- The verdict under one configuration and under another one are as specified: each accepts the
specified headers, and about a text or a request the two agree. -/
structure ValidatesAsSpecified (pdu subject : Bytes) (table : ClientTable)
    (settings other : FileSettings) : Prop where
  accepts : lwmpValidateHdrs pdu subject (settings.hvfns table) = .ok ↔
    SpecifiedHdrs pdu subject table settings
  acceptsOther : lwmpValidateHdrs pdu subject (other.hvfns table) = .ok ↔
    SpecifiedHdrs pdu subject table other
  agree : LwmpPdu.msgType pdu = MsgType.msg.code ∨ LwmpPdu.msgType pdu = MsgType.req.code →
    lwmpValidateHdrs pdu subject (settings.hvfns table) =
      lwmpValidateHdrs pdu subject (other.hvfns table)

/-! ### The limit for files -/

/-- The limit for files is in force and the header exceeds it. -/
def FileSettings.Limits (settings : FileSettings) (pdu : Bytes) : Prop :=
  settings.allowFileTransfers = true ∧ settings.maxFilesizeB < LwmpPdu.totalMsgSize pdu

instance (settings : FileSettings) (pdu : Bytes) : Decidable (settings.Limits pdu) :=
  inferInstanceAs (Decidable (_ ∧ _))

/-- The limit for files does not concern a text or a request: it does not exceed the limit if it is
to be accepted, and in any case it exceeds the limit under both configurations or under none. -/
structure LimitSparesText (pdu subject : Bytes) (table : ClientTable)
    (settings other : FileSettings) : Prop where
  spares : SpecifiedHdrs pdu subject table settings → ¬ settings.Limits pdu
  sparesOther : SpecifiedHdrs pdu subject table other → ¬ other.Limits pdu
  same : LwmpPdu.hdrMark pdu = pduSyncHdrMark → LwmpPdu.crcMatches pdu = true →
    (settings.Limits pdu ↔ other.Limits pdu)

section Validation

variable {pdu subject : Bytes} {table : ClientTable} {settings other : FileSettings}

/-- A C string is empty exactly if it starts with a NUL. -/
theorem headD_cString_eq_zero (array : Bytes) :
    (cString array).headD 0 = 0 ↔ cString array = [] := by
  have clean := cString_clean array
  cases text : cString array with
  | nil => simp
  | cons byte rest =>
    rw [text] at clean
    simpa using clean byte List.mem_cons_self

theorem validateRecipient_iff : validateRecipient table subject = true ↔
    IsConnected table (cString subject) := by
  unfold validateRecipient htableGetCond IsConnected
  by_cases empty : cString subject = []
  · rw [if_pos ((headD_cString_eq_zero subject).mpr empty)]
    exact iff_of_false (by simp) fun connected => connected.1 empty
  · rw [if_neg fun zero => empty ((headD_cString_eq_zero subject).mp zero)]
    cases found : table (cString subject) with
    | none => simp
    | some entry =>
      obtain ⟨addr, clState⟩ := entry
      by_cases gone : clState = .disconnected
      · simp [isNotDisconnected, gone]
      · simp [isNotDisconnected, gone, empty]

/-- The code accepts the specified headers that the limit for files does not exclude. -/
theorem validHdrs_iff : ValidHdrs pdu subject (settings.hvfns table) ↔
    SpecifiedHdrs pdu subject table settings ∧ ¬ settings.Limits pdu := by
  constructor
  · intro valid
    refine ⟨⟨valid.mark, valid.crc, valid.msgType, fun file => ?_, valid.textSize, fun message => ?_,
      fun request => ?_⟩, fun limits => not_lt.mpr (valid.fileSize limits.1) limits.2⟩
    · exact ⟨valid.allowed file, valid.fileSize (valid.allowed file)⟩
    · exact validateRecipient_iff.mp (valid.subject message)
    · have accepted := valid.request request
      simp only [FileSettings.hvfns, validateRequest, Bool.and_eq_true, beq_iff_eq] at accepted
      exact accepted.2
  · rintro ⟨specified, spared⟩
    refine ⟨specified.mark, specified.crc, specified.msgType, fun file => (specified.file file).1,
      fun allows => not_lt.mp fun exceeds => spared ⟨allows, exceeds⟩, specified.text,
      fun message => validateRecipient_iff.mpr (specified.recipient message), fun request => ?_⟩
    simp only [FileSettings.hvfns, validateRequest, Bool.and_eq_true, beq_iff_eq]
    exact ⟨request, specified.request request⟩

theorem accepts_iff :
    (lwmpValidateHdrs pdu subject (settings.hvfns table) = .ok ↔
      SpecifiedHdrs pdu subject table settings) ↔
    (SpecifiedHdrs pdu subject table settings → ¬ settings.Limits pdu) := by
  rw [lwmpValidateHdrs_ok_iff, validHdrs_iff]
  exact and_iff_left_iff_imp

/-- The tests behind the limit for files, which look at no setting. -/
def textVerdict (pdu subject : Bytes) (table : ClientTable) : HdrValidationStatus :=
  if LwmpPdu.msgType pdu ≠ MsgType.file.code ∧ LwmpPdu.totalMsgSize pdu > maxTextmsgSize then
    .txtmsgToobig
  else if LwmpPdu.msgType pdu ≠ MsgType.req.code ∧ ¬ validateRecipient table subject then .invalSubj
  else if LwmpPdu.msgType pdu = MsgType.req.code ∧ ¬ validateRequest pdu then .invalReq
  else .ok

/-- The verdict about a text or a request with the right mark and checksum looks at the limit for
files first. -/
theorem lwmpValidateHdrs_text (mark : LwmpPdu.hdrMark pdu = pduSyncHdrMark)
    (crc : LwmpPdu.crcMatches pdu = true)
    (text : LwmpPdu.msgType pdu = MsgType.msg.code ∨ LwmpPdu.msgType pdu = MsgType.req.code) :
    lwmpValidateHdrs pdu subject (settings.hvfns table) =
      if settings.Limits pdu then .fileToobig else textVerdict pdu subject table := by
  have notFile : LwmpPdu.msgType pdu ≠ MsgType.file.code := by
    rcases text with msg | req
    · rw [msg]
      decide
    · rw [req]
      decide
  have known : ¬ (LwmpPdu.msgType pdu ≠ MsgType.msg.code ∧
      LwmpPdu.msgType pdu ≠ MsgType.file.code ∧ LwmpPdu.msgType pdu ≠ MsgType.req.code) := by
    rintro ⟨noMsg, _, noReq⟩
    exact text.elim noMsg noReq
  unfold lwmpValidateHdrs
  rw [if_neg (not_not.mpr mark), if_neg (not_not.mpr crc), if_neg known,
    if_neg fun refused => notFile refused.1]
  by_cases limits : settings.Limits pdu
  · rw [if_pos limits]
    exact if_pos limits
  · rw [if_neg limits]
    exact if_neg limits

theorem textVerdict_ne : textVerdict pdu subject table ≠ .fileToobig := by
  unfold textVerdict
  split_ifs <;> simp

theorem agree_iff (mark : LwmpPdu.hdrMark pdu = pduSyncHdrMark)
    (crc : LwmpPdu.crcMatches pdu = true)
    (text : LwmpPdu.msgType pdu = MsgType.msg.code ∨ LwmpPdu.msgType pdu = MsgType.req.code) :
    lwmpValidateHdrs pdu subject (settings.hvfns table) =
        lwmpValidateHdrs pdu subject (other.hvfns table) ↔
      (settings.Limits pdu ↔ other.Limits pdu) := by
  have other_ne := @textVerdict_ne pdu subject table
  have second : lwmpValidateHdrs pdu subject (other.hvfns table) =
      if other.Limits pdu then .fileToobig else textVerdict pdu subject table :=
    lwmpValidateHdrs_text mark crc text
  rw [lwmpValidateHdrs_text mark crc text, second]
  by_cases limits : settings.Limits pdu
  · by_cases limitsOther : other.Limits pdu
    · simp [limits, limitsOther]
    · simp [limits, limitsOther, other_ne.symm]
  · by_cases limitsOther : other.Limits pdu
    · simp [limits, limitsOther, other_ne]
    · simp [limits, limitsOther]

/-- A header without the mark or with a wrong checksum is refused for that under every
configuration. -/
theorem agree_of_broken
    (broken : LwmpPdu.hdrMark pdu ≠ pduSyncHdrMark ∨ LwmpPdu.crcMatches pdu ≠ true) :
    lwmpValidateHdrs pdu subject (settings.hvfns table) =
      lwmpValidateHdrs pdu subject (other.hvfns table) := by
  unfold lwmpValidateHdrs
  by_cases mark : LwmpPdu.hdrMark pdu = pduSyncHdrMark
  · rw [if_neg (not_not.mpr mark), if_neg (not_not.mpr mark)]
    have crc := broken.resolve_left (not_not.mpr mark)
    rw [if_pos crc, if_pos crc]
  · rw [if_pos mark, if_pos mark]

end Validation

/-- A specified file does not exceed the limit for files. -/
theorem SpecifiedHdrs.file_spared {pdu subject : Bytes} {table : ClientTable}
    {settings : FileSettings} (specified : SpecifiedHdrs pdu subject table settings)
    (file : LwmpPdu.msgType pdu = MsgType.file.code) : ¬ settings.Limits pdu :=
  fun limits => not_lt.mpr (specified.file file).2 limits.2

/-- The condition, for a header of any type: it is empty for a file. -/
def ValidationCondition (pdu subject : Bytes) (table : ClientTable)
    (settings other : FileSettings) : Prop :=
  LwmpPdu.msgType pdu = MsgType.msg.code ∨ LwmpPdu.msgType pdu = MsgType.req.code →
    LimitSparesText pdu subject table settings other

/-- For every header and every two configurations, `lwmp_validate_hdrs` accepts exactly the specified
headers and judges texts and requests alike under both, if and only if the limit for files does not
concern the header where it is a text or a request. -/
theorem validates_as_specified_iff (pdu subject : Bytes) (table : ClientTable)
    (settings other : FileSettings) :
    ValidatesAsSpecified pdu subject table settings other ↔
      ValidationCondition pdu subject table settings other := by
  constructor
  · intro valid text
    exact ⟨accepts_iff.mp valid.accepts, accepts_iff.mp valid.acceptsOther,
      fun mark crc => (agree_iff mark crc text).mp (valid.agree text)⟩
  · intro condition
    have spares {chosen : FileSettings} (ofText : (LwmpPdu.msgType pdu = MsgType.msg.code ∨
        LwmpPdu.msgType pdu = MsgType.req.code) → SpecifiedHdrs pdu subject table chosen →
          ¬ chosen.Limits pdu) (specified : SpecifiedHdrs pdu subject table chosen) :
        ¬ chosen.Limits pdu := by
      rcases specified.msgType with msg | file | req
      · exact ofText (.inl msg) specified
      · exact specified.file_spared file
      · exact ofText (.inr req) specified
    refine ⟨accepts_iff.mpr (spares fun text => (condition text).spares),
      accepts_iff.mpr (spares fun text => (condition text).sparesOther), fun text => ?_⟩
    by_cases broken : LwmpPdu.hdrMark pdu ≠ pduSyncHdrMark ∨ LwmpPdu.crcMatches pdu ≠ true
    · exact agree_of_broken broken
    · rw [not_or, not_not, not_not] at broken
      exact (agree_iff broken.1 broken.2 text).mpr ((condition text).same broken.1 broken.2)

/-- A text of 300 bytes for bob. -/
def textHeader : Bytes :=
  lwmpHdr MsgType.msg.code (strncpy unamesize (ofLiteral "bob")) (List.replicate optdataLen 0) 300

/-- Files may have 200 bytes, the smallest limit the configuration allows, and so a text of 300 bytes
for a client that is connected is refused as a file that is too big. -/
theorem text_refused_as_file :
    ¬ ValidatesAsSpecified textHeader (ofLiteral "bob") (fun _ => some (1, .authenticated))
      ⟨true, 200⟩ ⟨false, 200⟩ := by
  intro valid
  have refused : lwmpValidateHdrs textHeader (ofLiteral "bob")
      (FileSettings.hvfns ⟨true, 200⟩ fun _ => some (1, .authenticated)) = .fileToobig := by
    decide +kernel
  have accepted : lwmpValidateHdrs textHeader (ofLiteral "bob")
      (FileSettings.hvfns ⟨false, 200⟩ fun _ => some (1, .authenticated)) = .ok := by
    decide +kernel
  have agree := valid.agree (.inl (by decide +kernel))
  rw [refused, accepted] at agree
  cases agree

end Lwmsg
