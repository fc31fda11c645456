/-
This file models what a client shows of the frames it takes: the lines that
`process_received_pdu` and `clrecv_parse` of `client/clrecv.c` print, with
`print_server_resp`, `resp_friendly` and `cache_userlist`, and `strresp` of
`common/lwmp.c`; and the names of the files it creates.

A file that was created is known by its place among all of them, and so is its name.
Creating and writing files succeeds, and nobody else creates files in the directory.
-/

import Lwmsg.DeadTransfers
import Lwmsg.Filenames
import Lwmsg.UserList

namespace Lwmsg

open Bytes Pointers

/-! ### Lines -/

/-- The names of `X_RESPONSES`. -/
def HdrValidationStatus.respName : HdrValidationStatus → String
  | .ok => "RESP_OK"
  | .fileNotAllowed => "RESP_DISALLOWED_FILE"
  | .fileToobig => "RESP_TOOBIG_FILE"
  | .txtmsgToobig => "RESP_TOOBIG_MSG"
  | .crcerr => "RESP_INVAL_CRC"
  | .invalReq => "RESP_INVAL_REQ"
  | .invalPdu => "RESP_INVAL_PDU"
  | .invalSubj => "RESP_DCONN_SUBJ"

/-- The texts of `resp_friendly`. -/
def HdrValidationStatus.friendly : HdrValidationStatus → String
  | .ok => "OK."
  | .fileNotAllowed => "The server does not allow file transfers."
  | .fileToobig => "The file is larger than the server allows."
  | .txtmsgToobig => "The message is too large."
  | .crcerr => "The message failed integrity validation (CRC mismatch)."
  | .invalReq => "The server rejected the request as invalid."
  | .invalPdu => "The server received a malformed message."
  | .invalSubj => "The recipient is offline or has disconnected."

/-- The order of `enum hdr_validation_status`. -/
def hdrValidationStatuses : List HdrValidationStatus :=
  [.ok, .fileNotAllowed, .fileToobig, .txtmsgToobig, .crcerr, .invalReq, .invalPdu, .invalSubj]

/-- The status whose code a response carries. -/
def statusOfCode (respCode : Nat) : Option HdrValidationStatus :=
  hdrValidationStatuses.find? fun status => respCodes status = respCode

/-- `strresp`. -/
def strresp (respCode : Nat) : Bytes :=
  ofLiteral (((statusOfCode respCode).map HdrValidationStatus.respName).getD "RESP_UNKNOWN")

/-- `resp_friendly`. -/
def respFriendly (respCode : Nat) : Bytes :=
  ofLiteral (((statusOfCode respCode).map HdrValidationStatus.friendly).getD
    "Unknown server response.")

/-- What one call of `clio_print` prints here. -/
inductive ClioLine
  | text (sender text : Bytes)
  | server (text resp : Bytes)
  | onlineUsers (count : Nat)
  | user (name : Bytes)
  | tooManyTransfers
  | receiving (sender filename : Bytes) (size : Nat)
  | received (sender filename : Bytes) (size : Nat)
  | unknownType (msgType : Nat)
  | disconnected
  deriving DecidableEq, Repr

/-! ### What a frame shows -/

/-- The text of an `MT_MSG`, whose last byte is overwritten with a NUL. -/
def shownText (pdu : Bytes) (payloadSize : Nat) : Bytes :=
  if 0 < payloadSize ∧ payloadSize ≤ lwmpPduBufSize then
    cString ((pdu.set (lwmpHdrSize + (payloadSize - 1)) 0).drop lwmpHdrSize)
  else cString ((pdu.set lwmpHdrSize 0).drop lwmpHdrSize)

/-- `print_server_resp`. -/
def serverLines (pdu : Bytes) (payloadSize respCode : Nat) : List ClioLine :=
  if respCode = respCodes .ok then []
  else if 0 < payloadSize ∧ payloadSize ≤ lwmpPduBufSize then
    [.server (cString ((printServerResp pdu payloadSize respCode).drop lwmpHdrSize))
      (strresp respCode)]
  else [.server (respFriendly respCode) (strresp respCode)]

/-- What the client shows: the lines it printed, the files it receives with the names of all that
were created, and the names it completes. -/
structure ClientView where
  shown : List ClioLine
  transfers : TransferCtx
  filenames : List Bytes
  userCache : List Bytes
  deriving DecidableEq, Repr

namespace ClientView

/-- Nothing was received. -/
def start : ClientView := ⟨[], .start, [], []⟩

/-- `access(out, F_OK)`, in a directory with files that were there before. -/
def accessible (existing : Bytes → Bool) (view : ClientView) (name : Bytes) : Bool :=
  existing name || decide (name ∈ view.filenames)

/-- The case `MT_FILE` of `process_received_pdu`. -/
def takeFile (existing : Bytes → Bool) (view : ClientView) (pdu payload : Bytes) : ClientView :=
  let sender := copySender (LwmpPdu.subjectUname pdu)
  let fileSize := LwmpPdu.totalMsgSize pdu
  let transfers := view.transfers.receiveFile (LwmpPdu.subjectUname pdu) fileSize payload
  match allocTransfer (view.transfers.closeExisting sender).transfers with
  | none => { view with transfers, shown := view.shown ++ [.tooManyTransfers] }
  | some _ =>
    let destname := destname (view.accessible existing) (LwmpPdu.optionalData pdu)
    { view with
      transfers
      filenames := view.filenames ++ [destname]
      shown := view.shown ++
        [if payload.length ≥ fileSize then .received (cString sender) destname fileSize
          else .receiving (cString sender) destname fileSize] }

/-- What `process_received_pdu` shows of a PDU with so many bytes behind its header. -/
def takePdu (existing : Bytes → Bool) (view : ClientView) (pdu : Bytes) (payloadSize : Nat) :
    ClientView :=
  let respCode := LwmpPdu.respCode pdu
  if LwmpPdu.msgType pdu = MsgType.msg.code then
    { view with shown := view.shown ++
      [.text (cString (copySender (LwmpPdu.subjectUname pdu))) (shownText pdu payloadSize)] }
  else if LwmpPdu.msgType pdu = MsgType.info.code then
    { view with shown := view.shown ++ serverLines pdu payloadSize respCode }
  else if LwmpPdu.msgType pdu = MsgType.req.code then
    if respCode = respCodes .ok ∧ 0 < payloadSize then
      let userCache := cacheUserlist (pdu.drop lwmpHdrSize) payloadSize
      { view with
        userCache
        shown := view.shown ++ .onlineUsers userCache.length :: userCache.map .user }
    else { view with shown := view.shown ++ serverLines pdu payloadSize respCode }
  else if LwmpPdu.msgType pdu = MsgType.file.code then
    view.takeFile existing pdu (slice lwmpHdrSize payloadSize pdu)
  else { view with shown := view.shown ++ [.unknownType (LwmpPdu.msgType pdu)] }

/-- The line about a file that its last chunk completes. -/
def completed (view : ClientView) (subjectUname payload : Bytes) : List ClioLine :=
  if payload.length = 0 then []
  else
    match findTransfer view.transfers.transfers (copySender subjectUname) with
    | none => []
    | some index =>
      match view.transfers.transfers[index]? with
      | none => []
      | some ft =>
        if (ft.received + payload.length) % 2 ^ 64 ≥ ft.expectedSize then
          [.received (cString ft.sender) ((ft.fp.bind (view.filenames[·]?)).getD []) ft.expectedSize]
        else []

/-- What `clrecv_parse` shows of a chunk. -/
def takeChunk (view : ClientView) (subjectUname payload : Bytes) : ClientView :=
  { view with
    transfers := view.transfers.receiveChunk subjectUname payload
    shown := view.shown ++ view.completed subjectUname payload }

/-- What `clrecv_parse` shows of a frame that it took out of the buffer. -/
def takeFrame (existing : Bytes → Bool) (view : ClientView) (frame : Bytes) : ClientView :=
  if LwmpPdu.hdrMark frame = pduSyncHdrMark then view.takePdu existing frame (wirePayload frame)
  else if LwmpChunk.chHdrMark frame = chunkSyncHdrMark then
    view.takeChunk (LwmpChunk.subjectUname frame) (LwmpChunk.payload frame)
  else view

/-- What `clrecv_fill` shows of the end of the connection is there as well. The names that the client
completes stay. -/
def receive (existing : Bytes → Bool) (view : ClientView) : Reception → ClientView
  | .frame bytes => view.takeFrame existing bytes
  | .disconnected =>
    { view with
      transfers := view.transfers.closeAllTransfers
      shown := view.shown ++ [.disconnected] }

/-- What it shows of all that it has received. -/
def viewAfter (existing : Bytes → Bool) (received : List Reception) : ClientView :=
  received.foldl (receive existing) start

theorem viewAfter_append (existing : Bytes → Bool) (received : List Reception)
    (reception : Reception) :
    viewAfter existing (received ++ [reception]) =
      (viewAfter existing received).receive existing reception := by
  rw [viewAfter, List.foldl_append]
  rfl

/-! ### The files -/

section Files

variable {existing : Bytes → Bool} {view : ClientView}

theorem transfers_takePdu (existing : Bytes → Bool) (view : ClientView) (pdu : Bytes)
    (payloadSize : Nat) :
    (view.takePdu existing pdu payloadSize).transfers =
      if LwmpPdu.msgType pdu = MsgType.file.code then
        view.transfers.receiveFile (LwmpPdu.subjectUname pdu) (LwmpPdu.totalMsgSize pdu)
          (slice lwmpHdrSize payloadSize pdu)
      else view.transfers := by
  have other (type : MsgType) (same : LwmpPdu.msgType pdu = type.code)
      (noFile : type.code ≠ MsgType.file.code) : ¬ LwmpPdu.msgType pdu = MsgType.file.code := by
    rw [same]
    exact noFile
  simp only [takePdu]
  split
  · rename_i text
    rw [if_neg (other .msg text (by decide))]
  · split
    · rename_i info
      rw [if_neg (other .info info (by decide))]
    · split
      · rename_i request
        rw [if_neg (other .req request (by decide))]
        split <;> rfl
      · split
        · simp only [takeFile]
          split <;> rfl
        · rfl

/-- The transfers follow the frames, whatever is printed. -/
theorem transfers_takeFrame (existing : Bytes → Bool) (view : ClientView) (frame : Bytes) :
    (view.takeFrame existing frame).transfers = view.transfers.receiveFrame frame := by
  rw [takeFrame, TransferCtx.receiveFrame]
  split
  · exact transfers_takePdu existing view frame _
  · split <;> rfl

theorem transfers_viewAfter (existing : Bytes → Bool) (received : List Reception) :
    (viewAfter existing received).transfers = transfersAfter received := by
  induction received using List.reverseRecOn with
  | nil => rfl
  | append_singleton received reception inductionHypothesis =>
    rw [viewAfter_append, transfersAfter_append, ← inductionHypothesis]
    cases reception with
    | frame bytes => exact transfers_takeFrame existing _ bytes
    | disconnected => rfl

theorem length_fclose (files : List ReceivedFile) (fp : Option Nat) :
    (fclose files fp).length = files.length := by
  cases fp with
  | none => rfl
  | some place => exact List.length_modify _ _ _

theorem length_files_closeAllTransfers (ctx : TransferCtx) :
    ctx.closeAllTransfers.files.length = ctx.files.length := by
  rw [TransferCtx.closeAllTransfers]
  refine List.foldlRecOn ctx.transfers _ (motive := fun files => List.length files = ctx.files.length)
    rfl fun files same ft _ => ?_
  split
  · exact (length_fclose files ft.fp).trans same
  · exact same

theorem length_files_closeExisting (ctx : TransferCtx) (sender : Bytes) :
    (ctx.closeExisting sender).files.length = ctx.files.length := by
  rw [TransferCtx.closeExisting]
  split
  · rfl
  · split
    · rfl
    · exact length_fclose _ _

theorem length_files_receiveChunk (ctx : TransferCtx) (subjectUname payload : Bytes) :
    (ctx.receiveChunk subjectUname payload).files.length = ctx.files.length := by
  have written (fp : Option Nat) : (fwrite ctx.files fp payload).length = ctx.files.length := by
    cases fp with
    | none => rfl
    | some place => exact List.length_modify _ _ _
  rw [TransferCtx.receiveChunk]
  split
  · rfl
  · split
    · rfl
    · split
      · rfl
      · dsimp only
        split
        · exact (length_fclose _ _).trans (written _)
        · exact written _

theorem length_files_receiveFile (ctx : TransferCtx) (subjectUname payload : Bytes)
    (fileSize : Nat) :
    (ctx.receiveFile subjectUname fileSize payload).files.length = ctx.files.length +
      if (allocTransfer (ctx.closeExisting (copySender subjectUname)).transfers).isSome then 1
      else 0 := by
  have before := length_files_closeExisting ctx (copySender subjectUname)
  rw [TransferCtx.receiveFile]
  generalize ctx.closeExisting (copySender subjectUname) = closed at before ⊢
  rw [TransferCtx.createFile]
  cases found : allocTransfer closed.transfers with
  | none => rw [if_neg (by simp)]; exact before
  | some index =>
    obtain ⟨within, _⟩ := List.findIdx?_eq_some_iff_getElem.mp found
    rw [if_pos (by simp), ← before]
    simp only [List.getElem?_eq_getElem within]
    split <;> rw [List.length_append, List.length_singleton]

/-- A file is created and gets a name, or neither. -/
theorem filenames_takeFrame (existing : Bytes → Bool) (view : ClientView) (frame : Bytes) :
    ((view.takeFrame existing frame).filenames = view.filenames ∧
      (view.takeFrame existing frame).transfers.files.length = view.transfers.files.length) ∨
    ((view.takeFrame existing frame).filenames =
        view.filenames ++ [destname (view.accessible existing) (LwmpPdu.optionalData frame)] ∧
      (view.takeFrame existing frame).transfers.files.length =
        view.transfers.files.length + 1) := by
  rw [takeFrame]
  split
  · simp only [takePdu]
    split
    · exact .inl ⟨rfl, rfl⟩
    · split
      · exact .inl ⟨rfl, rfl⟩
      · split
        · split <;> exact .inl ⟨rfl, rfl⟩
        · split
          · have files := length_files_receiveFile view.transfers (LwmpPdu.subjectUname frame)
              (slice lwmpHdrSize (wirePayload frame) frame) (LwmpPdu.totalMsgSize frame)
            simp only [takeFile]
            split
            · rename_i refused
              rw [refused, if_neg (by simp)] at files
              exact .inl ⟨rfl, files⟩
            · rename_i taken
              rw [taken, if_pos (by simp)] at files
              exact .inr ⟨rfl, files⟩
          · exact .inl ⟨rfl, rfl⟩
  · split
    · exact .inl ⟨rfl, length_files_receiveChunk _ _ _⟩
    · exact .inl ⟨rfl, rfl⟩

end Files

/-! ### The names of the files -/

/-- The files a client has created are kept apart: each has a name of the directory itself, and as
long as no more names are taken than are tried, no two of them have the same one and none has that
of a file that was there before. -/
theorem received_files_kept_apart (existing : Finset Bytes) (received : List Reception) :
    let view := viewAfter (fun name => decide (name ∈ existing)) received
    view.filenames.length = view.transfers.files.length ∧
      (∀ name ∈ view.filenames, ProperName name) ∧
      (existing.card + view.filenames.length ≤ maxDedupAttempts →
        view.filenames.Nodup ∧ ∀ name ∈ view.filenames, name ∉ existing) := by
  induction received using List.reverseRecOn with
  | nil => simp [viewAfter, start, TransferCtx.start]
  | append_singleton received reception inductionHypothesis =>
    rw [viewAfter_append]
    generalize viewAfter (fun name => decide (name ∈ existing)) received = view
      at inductionHypothesis
    obtain ⟨one, proper, apart⟩ := inductionHypothesis
    cases reception with
    | disconnected =>
      exact ⟨one.trans (length_files_closeAllTransfers view.transfers).symm, proper, apart⟩
    | frame bytes =>
      rcases filenames_takeFrame (fun name => decide (name ∈ existing)) view bytes with
        ⟨names, files⟩ | ⟨names, files⟩
      · show (view.takeFrame _ bytes).filenames.length =
            (view.takeFrame _ bytes).transfers.files.length ∧ _
        simp only [receive, names, files]
        exact ⟨one, proper, apart⟩
      · simp only [receive, names, files, List.length_append, List.length_singleton]
        refine ⟨by rw [one], ?_, fun few => ?_⟩
        · intro name member
          rcases List.mem_append.mp member with old | new
          · exact proper name old
          · rw [List.mem_singleton.mp new]
            exact destname_proper _ _
        · obtain ⟨once, others⟩ := apart (by omega)
          -- what is accessible are the files that were there and those that were created
          have fresh := @destname_new (view.accessible fun name => decide (name ∈ existing))
            (LwmpPdu.optionalData bytes) (existing ∪ view.filenames.toFinset) (by simp [accessible]) (by
              have union := Finset.card_union_le existing view.filenames.toFinset
              have names := view.filenames.toFinset_card_le
              omega)
          rw [Finset.mem_union, List.mem_toFinset, not_or] at fresh
          refine ⟨List.nodup_append.mpr ⟨once, List.nodup_singleton _, ?_⟩, ?_⟩
          · rintro name old other new rfl
            rw [List.mem_singleton.mp new] at old
            exact fresh.2 old
          · intro name member
            rcases List.mem_append.mp member with old | new
            · exact others name old
            · rw [List.mem_singleton.mp new]
              exact fresh.1

end ClientView

end Lwmsg
