/-
This file follows the transfers of the client over every sequence of frames, whoever they are from.
A transfer is released when its file is complete, when its sender begins another file, and when the
client loses its connection. The notice that the sender has disconnected is an `MT_INFO` like any
other to `process_received_pdu`: it prints the text and leaves the transfers alone. So a sender that
disconnects in the middle of a file keeps its transfer, and eight such senders keep all of them.
-/

import Lwmsg.FileTransfers
import Lwmsg.InboundFrames

namespace Lwmsg

open Bytes Pointers

/-! ### Frames and transfers -/

/-- `close_all_transfers`. -/
def TransferCtx.closeAllTransfers (ctx : TransferCtx) : TransferCtx where
  transfers := ctx.transfers.map fun ft =>
    { ft with active := false, fp := if ft.active then none else ft.fp }
  files := ctx.transfers.foldl (fun files ft => if ft.active then fclose files ft.fp else files)
    ctx.files

/-- What becomes of the transfers when `clrecv_parse` has taken a frame out of the buffer. -/
def TransferCtx.receiveFrame (ctx : TransferCtx) (frame : Bytes) : TransferCtx :=
  if LwmpPdu.hdrMark frame = pduSyncHdrMark then
    if LwmpPdu.msgType frame = MsgType.file.code then
      ctx.receiveFile (LwmpPdu.subjectUname frame) (LwmpPdu.totalMsgSize frame)
        (slice lwmpHdrSize (wirePayload frame) frame)
    else ctx
  else if LwmpChunk.chHdrMark frame = chunkSyncHdrMark then
    ctx.receiveChunk (LwmpChunk.subjectUname frame) (LwmpChunk.payload frame)
  else ctx

/-- What the client receives: a frame, or the end of its connection. -/
inductive Reception
  | frame (bytes : Bytes)
  | disconnected

def TransferCtx.receive (ctx : TransferCtx) : Reception → TransferCtx
  | .frame bytes => ctx.receiveFrame bytes
  | .disconnected => ctx.closeAllTransfers

/-- The transfers behind all that was received. -/
def transfersAfter (received : List Reception) : TransferCtx :=
  received.foldl TransferCtx.receive .start

/-- A new file is refused: `alloc_transfer` finds no transfer for it. -/
def TransferCtx.RefusesFile (ctx : TransferCtx) (subjectUname : Bytes) : Prop :=
  allocTransfer (ctx.closeExisting (copySender subjectUname)).transfers = none

/-! ### Senders that are gone -/

/-- The first PDU of a file of the sender. -/
def Reception.BeginsFile (name : Bytes) : Reception → Prop
  | .frame bytes => LwmpPdu.hdrMark bytes = pduSyncHdrMark ∧
      LwmpPdu.msgType bytes = MsgType.file.code ∧
      senderName (LwmpPdu.subjectUname bytes) = senderName name
  | .disconnected => False

/-- The notice of `notify_about_disconnect` about a sender. -/
def Reception.notice (name : Bytes) : Reception := .frame (disconnectNotice name).buf

/-- The notice about the sender was processed, and the sender has not begun a file since. -/
def SenderGone (received : List Reception) (name : Bytes) : Prop :=
  ∃ earlier later, received = earlier ++ .notice name :: later ∧
    ∀ reception ∈ later, ¬ reception.BeginsFile name

/-- No transfer is held for a sender that is gone, and a file is refused only if all transfers belong
to senders that are not. -/
structure ReleasesDead (received : List Reception) : Prop where
  released : ∀ name, SenderGone received name →
    findTransfer (transfersAfter received).transfers (copySender name) = none
  refused : ∀ subjectUname, (transfersAfter received).RefusesFile subjectUname →
    (transfersAfter received).transfers.length = maxActiveTransfers ∧
      ∀ ft ∈ (transfersAfter received).transfers, ft.active = true ∧
        ∀ name, SenderGone received name → senderName ft.sender ≠ senderName name

/-! ### What a frame does to the transfers -/

/-- A client finds no transfer exactly where no active one has the name. -/
theorem findTransfer_eq_none_iff {transfers : List FileTransfer} {name : Bytes} :
    findTransfer transfers (copySender name) = none ↔
      ∀ ft ∈ transfers, ft.active = true → senderName ft.sender ≠ senderName name := by
  rw [findTransfer, List.findIdx?_eq_none_iff]
  refine forall₂_congr fun ft _ => ?_
  rw [Bool.and_eq_false_imp, ← senderName_copySender name]
  refine imp_congr_right fun _ => ?_
  rw [decide_eq_false_iff_not, strncmp_eq_zero_iff]
  rfl

theorem allocTransfer_eq_none_iff {transfers : List FileTransfer} :
    allocTransfer transfers = none ↔ ∀ ft ∈ transfers, ft.active = true := by
  rw [allocTransfer, List.findIdx?_eq_none_iff]
  refine forall₂_congr fun ft _ => ?_
  rw [Bool.not_eq_false']

/-- Writing a transfer that is released, or is not the sender's, gives the sender none. -/
theorem findTransfer_set {transfers : List FileTransfer} {name : Bytes} {index : Nat}
    {ft : FileTransfer} (missing : findTransfer transfers (copySender name) = none)
    (other : ft.active = true → senderName ft.sender ≠ senderName name) :
    findTransfer (transfers.set index ft) (copySender name) = none := by
  rw [findTransfer_eq_none_iff] at missing ⊢
  intro transfer member
  rcases List.mem_or_eq_of_mem_set member with old | new
  · exact missing transfer old
  · rw [new]
    exact other

namespace TransferCtx

variable {ctx : TransferCtx} {name : Bytes}

theorem findTransfer_closeExisting (sender : Bytes)
    (missing : findTransfer ctx.transfers (copySender name) = none) :
    findTransfer (ctx.closeExisting sender).transfers (copySender name) = none := by
  unfold closeExisting
  split
  · exact missing
  · split
    · exact missing
    · exact findTransfer_set missing fun active => absurd active Bool.false_ne_true

theorem findTransfer_createFile {subjectUname : Bytes} (fileSize : Nat) (payload : Bytes)
    (other : senderName subjectUname ≠ senderName name)
    (missing : findTransfer ctx.transfers (copySender name) = none) :
    findTransfer (ctx.createFile (copySender subjectUname) fileSize payload).transfers
      (copySender name) = none := by
  unfold createFile
  split
  · exact missing
  · split
    · exact missing
    · dsimp only
      split
      · exact missing
      · refine findTransfer_set missing fun _ => ?_
        rw [senderName_strncpy, senderName_copySender]
        exact other

theorem findTransfer_receiveChunk (subjectUname payload : Bytes)
    (missing : findTransfer ctx.transfers (copySender name) = none) :
    findTransfer (ctx.receiveChunk subjectUname payload).transfers (copySender name) = none := by
  unfold receiveChunk
  split
  · exact missing
  · split
    · exact missing
    · split
      · exact missing
      · rename_i ft there
        have other := findTransfer_eq_none_iff.mp missing ft (List.mem_of_getElem? there)
        dsimp only
        split
        · exact findTransfer_set missing fun active => absurd active Bool.false_ne_true
        · exact findTransfer_set missing other

/-- Only the first PDU of a file of its own gives a sender a transfer. -/
theorem findTransfer_receive {reception : Reception} (other : ¬ reception.BeginsFile name)
    (missing : findTransfer ctx.transfers (copySender name) = none) :
    findTransfer (ctx.receive reception).transfers (copySender name) = none := by
  cases reception with
  | frame bytes =>
    show findTransfer (ctx.receiveFrame bytes).transfers (copySender name) = none
    unfold receiveFrame
    split
    · rename_i mark
      split
      · rename_i file
        have named : senderName (LwmpPdu.subjectUname bytes) ≠ senderName name :=
          fun same => other ⟨mark, file, same⟩
        exact findTransfer_createFile _ _ named (findTransfer_closeExisting _ missing)
      · exact missing
    · split
      · exact findTransfer_receiveChunk _ _ missing
      · exact missing
  | disconnected =>
    rw [findTransfer_eq_none_iff]
    intro ft member active
    obtain ⟨old, _, rfl⟩ := List.mem_map.mp member
    exact absurd active Bool.false_ne_true

theorem length_closeExisting (sender : Bytes) :
    (ctx.closeExisting sender).transfers.length = ctx.transfers.length := by
  unfold closeExisting
  split
  · rfl
  · split
    · rfl
    · exact List.length_set

theorem length_createFile (sender : Bytes) (fileSize : Nat) (payload : Bytes) :
    (ctx.createFile sender fileSize payload).transfers.length = ctx.transfers.length := by
  unfold createFile
  split
  · rfl
  · split
    · rfl
    · dsimp only
      split
      · rfl
      · exact List.length_set

theorem length_receiveChunk (subjectUname payload : Bytes) :
    (ctx.receiveChunk subjectUname payload).transfers.length = ctx.transfers.length := by
  unfold receiveChunk
  split
  · rfl
  · split
    · rfl
    · split
      · rfl
      · dsimp only
        split
        · exact List.length_set
        · exact List.length_set

theorem length_receive (reception : Reception) :
    (ctx.receive reception).transfers.length = ctx.transfers.length := by
  cases reception with
  | frame bytes =>
    show (ctx.receiveFrame bytes).transfers.length = _
    unfold receiveFrame
    split
    · split
      · rw [receiveFile, length_createFile, length_closeExisting]
      · rfl
    · split
      · exact length_receiveChunk _ _
      · rfl
  | disconnected => exact List.length_map _

/-- Where a file is refused, its sender has no transfer either, and all of them are taken. -/
theorem RefusesFile.active {subjectUname : Bytes} (refused : ctx.RefusesFile subjectUname) :
    ∀ ft ∈ ctx.transfers, ft.active = true := by
  have taken := allocTransfer_eq_none_iff.mp refused
  cases found : findTransfer ctx.transfers (copySender subjectUname) with
  | none =>
    rw [closeExisting, found] at taken
    exact taken
  | some index =>
    -- The transfer of the sender itself was just released, so it would have been found.
    obtain ⟨ft, there, _, _⟩ := slot_findTransfer found
    have within := (List.getElem?_eq_some_iff.mp there).1
    rw [closeExisting, found] at taken
    simp only [there] at taken
    exact absurd (taken _ (List.mem_set within _)) Bool.false_ne_true

end TransferCtx

/-! ### The notice -/

theorem pduFrame_disconnectNotice (name : Bytes) : PduFrame (disconnectNotice name).buf :=
  (responseNode_pduFrame _ (some (disconnectText name)) (by decide) (length_disconnectText name)).1

theorem disconnectNotice_buf (name : Bytes) :
    ∃ body, (disconnectNotice name).buf = lwmpHdr MsgType.info.code (List.replicate unamesize 0)
      (responseOptional (respCodes .invalSubj)) body.length ++ body :=
  ⟨_, responseNode_buf .info (respCodes .invalSubj) (length_disconnectText name)⟩

/-- The client does nothing about a sender it hears is gone. -/
theorem receive_notice (ctx : TransferCtx) (name : Bytes) : ctx.receive (.notice name) = ctx := by
  obtain ⟨body, notice⟩ := disconnectNotice_buf name
  show ctx.receiveFrame (disconnectNotice name).buf = ctx
  rw [TransferCtx.receiveFrame, notice, if_pos hdrMark_lwmpHdr, msgType_lwmpHdr (by decide),
    if_neg (by decide)]

/-! ### Runs -/

theorem transfersAfter_append (received : List Reception) (reception : Reception) :
    transfersAfter (received ++ [reception]) = (transfersAfter received).receive reception := by
  rw [transfersAfter, List.foldl_append]
  rfl

theorem length_transfersAfter (received : List Reception) :
    (transfersAfter received).transfers.length = maxActiveTransfers := by
  induction received using List.reverseRecOn with
  | nil => rfl
  | append_singleton received reception inductionHypothesis =>
    rw [transfersAfter_append, TransferCtx.length_receive, inductionHypothesis]

/-- A sender without a transfer has none until it begins a file. -/
theorem findTransfer_transfersAfter {name : Bytes} {earlier later : List Reception}
    (missing : findTransfer (transfersAfter earlier).transfers (copySender name) = none)
    (other : ∀ reception ∈ later, ¬ reception.BeginsFile name) :
    findTransfer (transfersAfter (earlier ++ later)).transfers (copySender name) = none := by
  induction later using List.reverseRecOn with
  | nil => rwa [List.append_nil]
  | append_singleton later reception inductionHypothesis =>
    rw [← List.append_assoc, transfersAfter_append]
    refine TransferCtx.findTransfer_receive
      (other reception (List.mem_append_right _ (List.mem_singleton_self _)))
      (inductionHypothesis fun reception member => other reception (List.mem_append_left _ member))

/-- What all transfers belong to where a file is refused. -/
theorem releasesDead_of_released {received : List Reception}
    (released : ∀ name, SenderGone received name →
      findTransfer (transfersAfter received).transfers (copySender name) = none) :
    ReleasesDead received where
  released := released
  refused := by
    intro subjectUname refused
    refine ⟨length_transfersAfter received, fun ft member => ?_⟩
    have active := refused.active ft member
    exact ⟨active, fun name gone =>
      findTransfer_eq_none_iff.mp (released name gone) ft member active⟩

/-- Behind every part of what a client receives the senders that are gone hold no transfers, and a
file is refused only if all transfers belong to others, exactly if each notice is about a sender that
holds none when it is processed. -/
theorem dead_transfers_released_iff (received : List Reception) :
    (∀ part, part <+: received → ReleasesDead part) ↔
      ∀ earlier name, earlier ++ [.notice name] <+: received →
        findTransfer (transfersAfter earlier).transfers (copySender name) = none := by
  constructor
  · intro releases earlier name processed
    have gone : SenderGone (earlier ++ [.notice name]) name :=
      ⟨earlier, [], rfl, fun _ member => absurd member List.not_mem_nil⟩
    have missing := (releases _ processed).released name gone
    rwa [transfersAfter_append, receive_notice] at missing
  · intro safe part processed
    refine releasesDead_of_released fun name gone => ?_
    obtain ⟨earlier, later, rfl, other⟩ := gone
    rw [List.append_cons] at processed ⊢
    refine findTransfer_transfersAfter ?_ other
    rw [transfersAfter_append, receive_notice]
    exact safe earlier name ((List.prefix_append _ _).trans processed)

/-! ### Files -/

/-- The first PDU of a file. -/
def filePdu (subject content : Bytes) : Bytes :=
  lwmpHdr MsgType.file.code (strncpy unamesize subject) (List.replicate optdataLen 0)
    content.length ++ content.take lwmpPduBufSize

section FilePdu

variable {subject content : Bytes}

theorem totalMsgSize_filePdu (small : content.length < 2 ^ 64) :
    LwmpPdu.totalMsgSize (filePdu subject content) = content.length :=
  totalMsgSize_lwmpHdr (length_strncpy _ _) List.length_replicate small

theorem msgType_filePdu : LwmpPdu.msgType (filePdu subject content) = MsgType.file.code :=
  msgType_lwmpHdr (by decide)

theorem wirePayload_filePdu (small : content.length < 2 ^ 64) :
    wirePayload (filePdu subject content) = (content.take lwmpPduBufSize).length := by
  rw [wirePayload, totalMsgSize_filePdu small, msgType_filePdu, List.length_take]
  split
  · rename_i long
    exact (Nat.min_eq_left (le_of_lt long.2)).symm
  · rename_i short
    refine (Nat.min_eq_right ?_).symm
    exact not_lt.mp fun long => short ⟨rfl, long⟩

theorem pduFrame_filePdu (small : content.length < 2 ^ 64) : PduFrame (filePdu subject content) where
  header := by
    rw [filePdu, List.length_append, length_lwmpHdr (length_strncpy _ _) List.length_replicate]
    exact Nat.le_add_right _ _
  mark := hdrMark_lwmpHdr
  crc := crcMatches_lwmpHdr (length_strncpy _ _) List.length_replicate
  whole := by
    rw [wirePayload_filePdu small, filePdu, List.length_append,
      length_lwmpHdr (length_strncpy _ _) List.length_replicate]

theorem subjectUname_filePdu :
    LwmpPdu.subjectUname (filePdu subject content) = strncpy unamesize subject := by
  have front : (beBytes 4 pduSyncHdrMark ++ beBytes 1 MsgType.file.code).length = 5 := by
    rw [List.length_append, length_beBytes, length_beBytes]
  rw [LwmpPdu.subjectUname, filePdu, lwmpHdr, lwmpHdrCovered, List.append_assoc, List.append_assoc,
    List.append_assoc, List.append_assoc (beBytes 4 pduSyncHdrMark ++ _),
    slice_append_right (le_of_eq front), front, Nat.sub_self,
    slice_append_self (length_strncpy _ _)]

/-- The frame that starts a file is the event of `TransferWorld.step` that does. -/
theorem receive_filePdu {world next : TransferWorld}
    (started : world.step (.startFile (strncpy unamesize subject) content) = some next) :
    next.ctx = world.ctx.receive (.frame (filePdu subject content)) := by
  rw [TransferWorld.step] at started
  split at started
  · rename_i small
    cases started
    have header := @length_lwmpHdr MsgType.file.code content.length _ _
      (length_strncpy unamesize subject) (@List.length_replicate _ optdataLen (0 : UInt8))
    have payload : slice lwmpHdrSize (content.take lwmpPduBufSize).length
        (filePdu subject content) = content.take lwmpPduBufSize := by
      rw [filePdu, slice_append_right (le_of_eq header), header, Nat.sub_self, slice,
        List.drop_zero, List.take_length]
    show _ = world.ctx.receiveFrame _
    rw [TransferCtx.receiveFrame, if_pos (pduFrame_filePdu small).mark, if_pos msgType_filePdu,
      subjectUname_filePdu, totalMsgSize_filePdu small, wirePayload_filePdu small, payload]
  · cases started

end FilePdu

/-- Eight senders begin a file of 4016 bytes each. -/
def departedSenders : List Bytes :=
  [[97], [98], [99], [100], [101], [102], [103], [104]]

def filesBegun : List Reception :=
  departedSenders.map fun name => .frame (filePdu name (List.replicate 4016 1))

/-- Then each of them disconnects. -/
def filesCutShort : List Reception := filesBegun ++ departedSenders.map .notice

theorem transfersAfter_notices (received : List Reception) (names : List Bytes) :
    transfersAfter (received ++ names.map .notice) = transfersAfter received := by
  induction names using List.reverseRecOn with
  | nil => rw [List.map_nil, List.append_nil]
  | append_singleton names name inductionHypothesis =>
    rw [List.map_append, ← List.append_assoc, List.map_singleton, transfersAfter_append,
      receive_notice, inductionHypothesis]

/-- What the client receives are frames, each of the eight senders is gone and keeps its transfer, and
a ninth file is refused though none of them will send another byte. -/
theorem dead_transfers_refuse_file :
    (∀ bytes, .frame bytes ∈ filesCutShort → ServerFrame bytes) ∧
      (∀ name ∈ departedSenders, SenderGone filesCutShort name ∧
        findTransfer (transfersAfter filesCutShort).transfers (copySender name) ≠ none) ∧
      (transfersAfter filesCutShort).RefusesFile [105] ∧ ¬ ReleasesDead filesCutShort := by
  have small : (List.replicate 4016 (1 : UInt8)).length < 2 ^ 64 := by
    rw [List.length_replicate]
    decide
  have same : transfersAfter filesCutShort = transfersAfter filesBegun :=
    transfersAfter_notices filesBegun departedSenders
  have gone : ∀ name ∈ departedSenders, SenderGone filesCutShort name := by
    intro name member
    obtain ⟨before, behind, split⟩ := List.append_of_mem member
    refine ⟨filesBegun ++ before.map .notice, behind.map .notice, ?_, ?_⟩
    · rw [filesCutShort, split, List.map_append, List.map_cons, List.append_assoc]
    · intro reception notice begins
      obtain ⟨other, _, rfl⟩ := List.mem_map.mp notice
      obtain ⟨_, file, _⟩ := begins
      obtain ⟨body, buf⟩ := disconnectNotice_buf other
      rw [buf, msgType_lwmpHdr (by decide)] at file
      exact absurd file (by decide)
  have kept : ∀ name ∈ departedSenders,
      findTransfer (transfersAfter filesCutShort).transfers (copySender name) ≠ none := by
    rw [same]
    decide +kernel
  refine ⟨?_, fun name member => ⟨gone name member, kept name member⟩, ?_, ?_⟩
  · intro bytes member
    rcases List.mem_append.mp member with begun | notice
    · obtain ⟨name, _, frame⟩ := List.mem_map.mp begun
      cases frame
      exact .inl (pduFrame_filePdu small)
    · obtain ⟨name, _, frame⟩ := List.mem_map.mp notice
      cases frame
      exact .inl (pduFrame_disconnectNotice name)
  · unfold TransferCtx.RefusesFile
    rw [same]
    decide +kernel
  · intro releases
    exact kept [97] (by decide) (releases.released [97] (gone [97] (by decide)))

end Lwmsg
