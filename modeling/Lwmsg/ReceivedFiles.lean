/-
This file follows the files of a run of the message path to the directory of the recipient.

The units of one sender begin a file, go on with it until it is complete and only then begin
something else. The frames of other senders and of the server come in between. Beside the
client stands a list of all files that were begun, with how much of each has come; every
frame keeps the client in step with it, and the files of one sender in it are those that its
own units begin. So as long as the client never has to say that it receives too many files
at once, what it says it has received are the files that were typed, byte for byte.
-/

import Lwmsg.ReceivedMessages

namespace Lwmsg

open Bytes Pointers SlotTable

/-! ### The files of one sender -/

/-- All bytes of the file were sent. -/
def SentFile.complete (file : SentFile) : Bool := file.sent = file.content.length

namespace RecvUnit

/-- How many bytes of its message are sent when a unit is. -/
def sentUpTo : RecvUnit → Nat
  | pdu msg => min msg.payload.length lwmpPduBufSize
  | chunk msg sent => sent + min (msg.payload.length - sent) lwmpChunkBufSize

/-- The message that is under way before a unit, and how much of it was sent. -/
def underWayBefore : RecvUnit → Option (ClientMsg × Nat)
  | pdu _ => none
  | chunk msg sent => some (msg, sent)

/-- The message that is under way behind a unit. -/
def underWayAfter (unit : RecvUnit) : Option (ClientMsg × Nat) :=
  if unit.sentUpTo = unit.msg.payload.length then none else some (unit.msg, unit.sentUpTo)

theorem underWayAfter_eq {unit : RecvUnit} {msg : ClientMsg} {sent : Nat} (same : unit.msg = msg)
    (upTo : unit.sentUpTo = sent) :
    unit.underWayAfter = if sent = msg.payload.length then none else some (msg, sent) := by
  rw [underWayAfter, same, upTo]

theorem underWayAfter_done {unit : RecvUnit} (done : unit.sentUpTo = unit.msg.payload.length) :
    unit.underWayAfter = none := if_pos done

/-- The files that were begun, when one more unit is sent. -/
def files (name : Bytes) (begun : List SentFile) : RecvUnit → List SentFile
  | pdu msg => if msg.msgType = .file then begun ++ [.started name msg.payload] else begun
  | chunk msg sent =>
    begun.dropLast ++ [⟨name, msg.payload, (chunk msg sent).sentUpTo, false⟩]

/-- The content of the file that a unit begins. -/
def content : RecvUnit → List Bytes
  | pdu msg => if msg.msgType = .file then [msg.payload] else []
  | chunk _ _ => []

end RecvUnit

/-- The files that units begin. -/
def filesOf (name : Bytes) (units : List RecvUnit) : List SentFile :=
  units.foldl (RecvUnit.files name) []

/-- Each unit goes on where the one before it stopped. -/
def UnitsInOrder : Option (ClientMsg × Nat) → List RecvUnit → Prop
  | underWay, [] => underWay = none
  | underWay, unit :: units =>
    underWay = unit.underWayBefore ∧ unit.Occurs ∧ unit.msg.Whole ∧ UnitsInOrder unit.underWayAfter units

/-- Of the files of a sender only the last one may not be complete, and then it is under way. -/
def FilesAt (name : Bytes) : Option (ClientMsg × Nat) → List SentFile → Prop
  | none, begun => ∀ file ∈ begun, file.complete = true
  | some (msg, sent), begun => msg.msgType = .file ∧
      ∃ before, begun = before ++ [⟨name, msg.payload, sent, false⟩] ∧
        ∀ file ∈ before, file.complete = true

theorem unitsInOrder_chunkUnits {msg : ClientMsg} {rest : List RecvUnit} (sendable : msg.Sendable)
    (whole : msg.Whole) (order : UnitsInOrder none rest) (units sent : Nat)
    (enough : msg.payload.length - sent ≤ units) (within : sent ≤ msg.payload.length) :
    UnitsInOrder (if sent = msg.payload.length then none else some (msg, sent))
      (chunkUnits units msg sent ++ rest) := by
  induction units generalizing sent with
  | zero =>
    rw [if_pos (by omega)]
    exact order
  | succ units inductionHypothesis =>
    rw [chunkUnits]
    by_cases more : sent < msg.payload.length
    · rw [if_pos more, if_neg (by omega), List.cons_append]
      refine ⟨rfl, ⟨sendable, ?_⟩, whole, ?_⟩
      · rintro _ _ same
        cases same
        exact more
      · by_cases last : msg.payload.length - sent ≤ lwmpChunkBufSize
        · have ends : chunkUnits units msg (sent + lwmpChunkBufSize) = [] := by
            cases units with
            | zero => rfl
            | succ units => rw [chunkUnits, if_neg (by omega)]
          have done : (RecvUnit.chunk msg sent).sentUpTo = msg.payload.length := by
            rw [RecvUnit.sentUpTo, Nat.min_eq_left last]
            omega
          rw [RecvUnit.underWayAfter_done done, ends]
          exact order
        · have next : (RecvUnit.chunk msg sent).sentUpTo = sent + lwmpChunkBufSize := by
            rw [RecvUnit.sentUpTo, Nat.min_eq_right (by omega)]
          rw [RecvUnit.underWayAfter_eq rfl next]
          refine inductionHypothesis _ ?_ (by omega)
          simp only [lwmpChunkBufSize, lwmpMaxPduSize, lwmpChunkHdrSize] at last ⊢
          omega
    · rw [if_neg more, if_pos (by omega)]
      exact order

theorem unitsInOrder_units {msg : ClientMsg} {rest : List RecvUnit} (sendable : msg.Sendable)
    (whole : msg.Whole) (order : UnitsInOrder none rest) : UnitsInOrder none (msg.units ++ rest) := by
  refine ⟨rfl, ⟨sendable, fun _ _ same => by cases same⟩, whole, ?_⟩
  by_cases short : msg.payload.length ≤ lwmpPduBufSize
  · have ends : chunkUnits msg.payload.length msg lwmpPduBufSize = [] := by
      cases length : msg.payload.length with
      | zero => rfl
      | succ units => rw [chunkUnits, if_neg (by omega)]
    have done : (RecvUnit.pdu msg).sentUpTo = msg.payload.length := Nat.min_eq_left short
    rw [RecvUnit.underWayAfter_done done, ends]
    exact order
  · have next : (RecvUnit.pdu msg).sentUpTo = lwmpPduBufSize := Nat.min_eq_right (by omega)
    rw [RecvUnit.underWayAfter_eq rfl next]
    exact unitsInOrder_chunkUnits sendable whole order _ _ (Nat.sub_le _ _) (by omega)

theorem unitsInOrder_messages (messages : List ClientMsg)
    (sent : ∀ msg ∈ messages, msg.Sendable ∧ msg.Whole) :
    UnitsInOrder none (messages.flatMap ClientMsg.units) := by
  induction messages with
  | nil => rfl
  | cons msg messages inductionHypothesis =>
    obtain ⟨sendable, whole⟩ := sent msg List.mem_cons_self
    rw [List.flatMap_cons]
    exact unitsInOrder_units sendable whole
      (inductionHypothesis fun other member => sent other (List.mem_cons_of_mem _ member))

section Files

variable {name : Bytes} {unit : RecvUnit} {begun : List SentFile}

/-- A unit begins a file when none is under way, and goes on with the one that is. -/
theorem FilesAt.step (current : FilesAt name unit.underWayBefore begun) (occurs : unit.Occurs)
    (whole : unit.msg.Whole) :
    FilesAt name unit.underWayAfter (unit.files name begun) ∧
      (unit.files name begun).map (·.content) = begun.map (·.content) ++ unit.content := by
  cases unit with
  | pdu msg =>
    rw [RecvUnit.files, RecvUnit.content]
    by_cases file : msg.msgType = .file
    · rw [if_pos file, if_pos file, List.map_append]
      refine ⟨?_, rfl⟩
      rw [RecvUnit.underWayAfter]
      split
      · rename_i done
        intro other member
        rcases List.mem_append.mp member with old | new
        · exact current other old
        · rw [List.mem_singleton.mp new]
          exact decide_eq_true done
      · exact ⟨file, begun, rfl, current⟩
    · rw [if_neg file, if_neg file, List.append_nil]
      refine ⟨?_, rfl⟩
      have done : (RecvUnit.pdu msg).sentUpTo = msg.payload.length := by
        rcases occurs.sendable.message with text | isFile
        · exact Nat.min_eq_left (whole text).2
        · exact absurd isFile file
      rw [RecvUnit.underWayAfter_done done]
      exact current
  | chunk msg sent =>
    obtain ⟨file, before, rfl, complete⟩ := current
    rw [RecvUnit.files, RecvUnit.content, RecvUnit.underWayAfter, List.dropLast_concat,
      List.append_nil]
    refine ⟨?_, by simp⟩
    split
    · rename_i done
      intro other member
      rcases List.mem_append.mp member with old | new
      · exact complete other old
      · rw [List.mem_singleton.mp new]
        exact decide_eq_true done
    · exact ⟨file, before, rfl, complete⟩

/-- Where the units that were sent have left the files of their sender. -/
theorem UnitsInOrder.files {done left : List RecvUnit} {underWay : Option (ClientMsg × Nat)}
    (order : UnitsInOrder underWay (done ++ left)) (current : FilesAt name underWay begun) :
    ∃ now, UnitsInOrder now left ∧ FilesAt name now (done.foldl (RecvUnit.files name) begun) ∧
      (done.foldl (RecvUnit.files name) begun).map (·.content) =
        begun.map (·.content) ++ done.flatMap RecvUnit.content := by
  induction done generalizing underWay begun with
  | nil => exact ⟨underWay, order, current, (List.append_nil _).symm⟩
  | cons unit done inductionHypothesis =>
    obtain ⟨rfl, occurs, whole, rest⟩ := order
    obtain ⟨next, contents⟩ := current.step occurs whole
    obtain ⟨now, behind, files, all⟩ := inductionHypothesis rest next
    refine ⟨now, behind, files, ?_⟩
    rw [List.foldl_cons, all, contents, List.flatMap_cons, List.append_assoc]

/-- The files of a sender when some of its units were taken. -/
theorem filesOf_spec {messages : List ClientMsg} {done left : List RecvUnit} (name : Bytes)
    (sent : ∀ msg ∈ messages, msg.Sendable ∧ msg.Whole)
    (split : messages.flatMap ClientMsg.units = done ++ left) :
    ∃ now, UnitsInOrder now left ∧ FilesAt name now (filesOf name done) ∧
      (filesOf name done).map (·.content) = done.flatMap RecvUnit.content := by
  have order := unitsInOrder_messages messages sent
  rw [split] at order
  have none : FilesAt name none [] := fun file member => absurd member List.not_mem_nil
  exact order.files none

@[simp] theorem filesOf_concat (name : Bytes) (units : List RecvUnit) (unit : RecvUnit) :
    filesOf name (units ++ [unit]) = unit.files name (filesOf name units) := by
  rw [filesOf, List.foldl_append]
  rfl

end Files

/-! ### The client takes a frame -/

/-- Where a transfer is free, fewer files are unfinished than there are transfers. -/
theorem Reassembles.room {sent : List SentFile} {ctx : TransferCtx} {index : Nat}
    (reassembles : Reassembles sent ctx) (free : allocTransfer ctx.transfers = some index) :
    sent.countP SentFile.unfinished < maxActiveTransfers := by
  have keys : (sentSlots sent).filterMap (fun slot => slot.map Prod.fst) =
      (sent.filter SentFile.unfinished).map SentFile.sender := by
    have slots (sent : List SentFile) (count : Nat) :
        (sent.mapIdx fun place => SentFile.slot (place + count)).filterMap
          (fun slot => slot.map Prod.fst) = (sent.filter SentFile.unfinished).map SentFile.sender := by
      induction sent generalizing count with
      | nil => rfl
      | cons file sent inductionHypothesis =>
        have rest := inductionHypothesis (count + 1)
        rw [List.mapIdx_cons]
        simp only [Nat.add_right_comm _ 1 count, Nat.add_assoc]
        cases unfinished : file.unfinished with
        | true => simp [SentFile.slot, unfinished, rest]
        | false => simp [SentFile.slot, unfinished, rest]
    exact slots sent 0
  have nodup := reassembles.single.nodup_keys
  rw [keys] at nodup
  -- every unfinished file has a transfer of its own, and the free one is not among them
  have held : (sent.filter SentFile.unfinished).map SentFile.sender ⊆
      (ctx.transfers.filter (·.active)).map fun ft => senderName ft.sender := by
    intro name member
    obtain ⟨file, listed, rfl⟩ := List.mem_map.mp member
    obtain ⟨inside, unfinished⟩ := List.mem_filter.mp listed
    obtain ⟨place, there⟩ := List.mem_iff_getElem?.mp inside
    obtain ⟨index, holds⟩ := (reassembles.agree _ _).mpr ⟨place, sentSlots_getElem? there unfinished⟩
    rw [transferSlots, List.getElem?_map] at holds
    obtain ⟨ft, found, slot⟩ := Option.map_eq_some_iff.mp holds
    rw [FileTransfer.slot] at slot
    split at slot
    · rename_i active
      refine List.mem_map.mpr ⟨ft, List.mem_filter.mpr ⟨List.mem_of_getElem? found, active⟩, ?_⟩
      exact congrArg Prod.fst (Option.some.inj slot)
    · cases slot
  have few := (nodup.subperm held).length_le
  rw [List.length_map, List.length_map, ← List.countP_eq_length_filter,
    ← List.countP_eq_length_filter] at few
  obtain ⟨within, inactive, _⟩ := List.findIdx?_eq_some_iff_getElem.mp free
  have less : ctx.transfers.countP (·.active) < ctx.transfers.length := by
    refine lt_of_le_of_ne List.countP_le_length fun all => ?_
    have active := List.countP_eq_length.mp all _ (List.getElem_mem within)
    rw [active] at inactive
    cases inactive
  rw [reassembles.size] at less
  omega

/-- The copies of names end behind the field of a name. -/
def NamesEnd (transfers : List FileTransfer) : Prop :=
  ∀ ft ∈ transfers, ft.sender.drop unamesize = [0]

theorem NamesEnd.cString {transfers : List FileTransfer} {ft : FileTransfer}
    (ends : NamesEnd transfers) (member : ft ∈ transfers) :
    cString ft.sender = senderName ft.sender := by
  have behind := ends ft member
  conv_lhs => rw [← List.take_append_drop unamesize ft.sender, behind]
  exact cString_append_zero _

theorem NamesEnd.set {transfers : List FileTransfer} {index : Nat} {ft : FileTransfer}
    (ends : NamesEnd transfers) (one : ft.sender.drop unamesize = [0]) :
    NamesEnd (transfers.set index ft) := by
  intro other member
  rcases List.mem_or_eq_of_mem_set member with old | rfl
  · exact ends other old
  · exact one

namespace TransferCtx

variable {ctx : TransferCtx}

theorem namesEnd_start : NamesEnd start.transfers := by
  intro ft member
  rw [List.eq_of_mem_replicate member]
  rfl

theorem namesEnd_closeExisting (ends : NamesEnd ctx.transfers) (sender : Bytes) :
    NamesEnd (ctx.closeExisting sender).transfers := by
  rw [closeExisting]
  split
  · exact ends
  · split
    · exact ends
    · rename_i ft there
      have one : ft.sender.drop unamesize = [0] := ends _ (List.mem_of_getElem? there)
      exact ends.set one

theorem namesEnd_createFile (ends : NamesEnd ctx.transfers) (sender payload : Bytes)
    (fileSize : Nat) : NamesEnd (ctx.createFile sender fileSize payload).transfers := by
  rw [createFile]
  split
  · exact ends
  · split
    · exact ends
    · rename_i ft there
      dsimp only
      split
      · exact ends
      · refine ends.set ?_
        rw [List.drop_left' (length_strncpy _ _)]
        exact ends ft (List.mem_of_getElem? there)

theorem namesEnd_receiveChunk (ends : NamesEnd ctx.transfers) (subjectUname payload : Bytes) :
    NamesEnd (ctx.receiveChunk subjectUname payload).transfers := by
  rw [receiveChunk]
  split
  · exact ends
  · split
    · exact ends
    · split
      · exact ends
      · rename_i there
        have one := ends _ (List.mem_of_getElem? there)
        dsimp only
        split <;> exact ends.set one

end TransferCtx

/-- The files, with their sizes, that a client says it has received from a name. -/
def receivedFrom (name : Bytes) (shown : List ClioLine) : List (Bytes × Nat) :=
  shown.filterMap fun line => match line with
    | .received sender filename size => if sender = name then some (filename, size) else none
    | _ => none

@[simp] theorem receivedFrom_append (name : Bytes) (first second : List ClioLine) :
    receivedFrom name (first ++ second) = receivedFrom name first ++ receivedFrom name second :=
  List.filterMap_append

theorem receivedFrom_received (name sender filename : Bytes) (size : Nat) :
    receivedFrom name [.received sender filename size] =
      if sender = name then [(filename, size)] else [] := by
  by_cases same : sender = name
  · simp [receivedFrom, same]
  · simp [receivedFrom, same]

namespace ClientView

variable {existing : Bytes → Bool} {view : ClientView} {frame : Bytes}

theorem received_serverLines (name pdu : Bytes) (payloadSize respCode : Nat) :
    receivedFrom name (serverLines pdu payloadSize respCode) = [] := by
  rw [serverLines]
  split
  · rfl
  · split <;> rfl

theorem received_users (name : Bytes) (count : Nat) (users : List Bytes) :
    receivedFrom name (.onlineUsers count :: users.map .user) = [] := by
  induction users with
  | nil => rfl
  | cons user users inductionHypothesis => exact inductionHypothesis

/-- A PDU that is no file leaves the files alone. -/
theorem takeFrame_noFile (mark : LwmpPdu.hdrMark frame = pduSyncHdrMark)
    (noFile : LwmpPdu.msgType frame ≠ MsgType.file.code) :
    (view.takeFrame existing frame).transfers = view.transfers ∧
      (view.takeFrame existing frame).filenames = view.filenames ∧
      ∀ name, receivedFrom name (view.takeFrame existing frame).shown =
        receivedFrom name view.shown := by
  refine ⟨?_, ?_, fun name => ?_⟩
  · rw [transfers_takeFrame, TransferCtx.receiveFrame, if_pos mark, if_neg noFile]
  · rw [takeFrame, if_pos mark, takePdu]
    simp only [if_neg noFile]
    split
    · rfl
    · split
      · rfl
      · split
        · split <;> rfl
        · rfl
  · rw [takeFrame, if_pos mark, takePdu]
    simp only [if_neg noFile]
    split
    · exact (receivedFrom_append _ _ _).trans (List.append_nil _)
    · split
      · rw [receivedFrom_append, received_serverLines, List.append_nil]
      · split
        · split
          · rw [receivedFrom_append, received_users, List.append_nil]
          · rw [receivedFrom_append, received_serverLines, List.append_nil]
        · exact (receivedFrom_append _ _ _).trans (List.append_nil _)

/-- What was shown stays. -/
theorem shown_takeFrame (existing : Bytes → Bool) (view : ClientView) (frame : Bytes) :
    view.shown <+: (view.takeFrame existing frame).shown := by
  rw [takeFrame]
  split
  · simp only [takePdu]
    split
    · exact List.prefix_append _ _
    · split
      · exact List.prefix_append _ _
      · split
        · split <;> exact List.prefix_append _ _
        · split
          · simp only [takeFile]
            split <;> exact List.prefix_append _ _
          · exact List.prefix_append _ _
  · split
    · exact List.prefix_append _ _
    · exact List.prefix_rfl

/-- The first PDU of a file is taken by the case `MT_FILE`. -/
theorem takeFrame_forwardedPdu {msg : ClientMsg} (username : Bytes) (sendable : msg.Sendable)
    (file : msg.msgType = .file) :
    let frame := (msg.forwardedPdu username).buf
    view.takeFrame existing frame =
        view.takeFile existing frame (msg.payload.take lwmpPduBufSize) ∧
      LwmpPdu.subjectUname frame = strncpy unamesize username ∧
      LwmpPdu.totalMsgSize frame = msg.payload.length := by
  have header := @length_lwmpHdr msg.msgType.code msg.payload.length _ _
    (length_strncpy unamesize username) sendable.optional
  have type : LwmpPdu.msgType (msg.forwardedPdu username).buf = MsgType.file.code := by
    rw [← file]
    exact msgType_lwmpHdr sendable.msgType_code_lt
  have size : LwmpPdu.totalMsgSize (msg.forwardedPdu username).buf = msg.payload.length :=
    totalMsgSize_lwmpHdr (length_strncpy _ _) sendable.optional sendable.size
  have payload : wirePayload (msg.forwardedPdu username).buf =
      (msg.payload.take lwmpPduBufSize).length := by
    rw [wirePayload, type, size, List.length_take]
    split
    · rename_i long
      exact (Nat.min_eq_left (le_of_lt long.2)).symm
    · rename_i short
      exact (Nat.min_eq_right (not_lt.mp fun long => short ⟨rfl, long⟩)).symm
  have body : slice lwmpHdrSize (msg.payload.take lwmpPduBufSize).length
      (msg.forwardedPdu username).buf = msg.payload.take lwmpPduBufSize := by
    rw [ClientMsg.forwardedPdu, slice_append_right (le_of_eq header), header, Nat.sub_self, slice,
      List.drop_zero, List.take_length]
  have mark : LwmpPdu.hdrMark (msg.forwardedPdu username).buf = pduSyncHdrMark := hdrMark_lwmpHdr
  refine ⟨?_, subjectUname_lwmpHdr (length_strncpy _ _), size⟩
  rw [takeFrame, if_pos mark, takePdu, type, payload, body]
  rfl

/-- Where it is not refused, a transfer is free for it and it gets a name. -/
theorem takeFile_of_calm {pdu payload : Bytes}
    (calm : ClioLine.tooManyTransfers ∉ (view.takeFile existing pdu payload).shown) :
    let sender := copySender (LwmpPdu.subjectUname pdu)
    let filename := destname (view.accessible existing) (LwmpPdu.optionalData pdu)
    (∃ index, allocTransfer (view.transfers.closeExisting sender).transfers = some index) ∧
      view.takeFile existing pdu payload =
        { view with
          transfers := view.transfers.receiveFile (LwmpPdu.subjectUname pdu)
            (LwmpPdu.totalMsgSize pdu) payload
          filenames := view.filenames ++ [filename]
          shown := view.shown ++
            [if payload.length ≥ LwmpPdu.totalMsgSize pdu then
                .received (cString sender) filename (LwmpPdu.totalMsgSize pdu)
              else .receiving (cString sender) filename (LwmpPdu.totalMsgSize pdu)] } := by
  rw [takeFile] at calm ⊢
  dsimp only at calm ⊢
  split
  · rename_i refused
    rw [refused] at calm
    exact absurd (List.mem_append_right _ (List.mem_singleton_self _)) calm
  · rename_i index free
    exact ⟨⟨index, free⟩, rfl⟩

/-- A chunk is taken by the sender's name and with all its bytes. -/
theorem takeFrame_forwardedChunk {piece : Bytes} (username : Bytes)
    (within : piece.length ≤ lwmpChunkBufSize) :
    view.takeFrame existing (forwardedChunk username piece).buf =
      view.takeChunk (strncpy unamesize username) piece := by
  have mark : LwmpChunk.chHdrMark (forwardedChunk username piece).buf = chunkSyncHdrMark :=
    hdrMark_forwardedChunk username piece
  have noPdu : LwmpPdu.hdrMark (forwardedChunk username piece).buf ≠ pduSyncHdrMark := by
    rw [hdrMark_forwardedChunk]
    decide
  have front : (beBytes 4 chunkSyncHdrMark).length = 4 := length_beBytes _ _
  have size : (beBytes 4 chunkSyncHdrMark ++ beBytes 2 piece.length).length = 6 := by
    rw [List.length_append, length_beBytes, length_beBytes]
  have header : (beBytes 4 chunkSyncHdrMark ++ beBytes 2 piece.length ++
      strncpy unamesize username).length = lwmpChunkHdrSize := by
    rw [List.length_append, size, length_strncpy]
    rfl
  have chunkSize : LwmpChunk.chunkSize (forwardedChunk username piece).buf = piece.length := by
    have fits : piece.length < 256 ^ 2 := lt_of_le_of_lt within (by decide)
    rw [LwmpChunk.chunkSize, forwardedChunk]
    simp only [List.append_assoc]
    rw [slice_append_right (le_of_eq front), front, Nat.sub_self,
      slice_append_self (length_beBytes _ _), beValue_beBytes _ _ fits]
  have subject : LwmpChunk.subjectUname (forwardedChunk username piece).buf =
      strncpy unamesize username := by
    rw [LwmpChunk.subjectUname, forwardedChunk]
    simp only
    rw [List.append_assoc, slice_append_right (le_of_eq size), size, Nat.sub_self,
      slice_append_self (length_strncpy _ _)]
  have payload : LwmpChunk.payload (forwardedChunk username piece).buf = piece := by
    rw [LwmpChunk.payload, chunkSize, forwardedChunk, slice_append_right (le_of_eq header), header,
      Nat.sub_self, slice_zero_eq rfl]
  rw [takeFrame, if_neg noPdu, if_pos mark, subject, payload]

/-- What the chunk of a file that is under way shows. -/
theorem completed_eq {sent : List SentFile} {place : Nat} {file : SentFile}
    {subjectUname payload : Bytes} (reassembles : Reassembles sent view.transfers)
    (ends : NamesEnd view.transfers.transfers) (there : sent[place]? = some file)
    (unfinished : file.unfinished = true) (name : file.sender = senderName subjectUname)
    (some_ : 0 < payload.length) (fits : file.sent + payload.length ≤ file.content.length) :
    view.completed subjectUname payload =
      if file.sent + payload.length = file.content.length then
        [.received file.sender (view.filenames[place]?.getD []) file.content.length]
      else [] := by
  obtain ⟨small, _⟩ := reassembles.sized file (List.mem_of_getElem? there)
  obtain ⟨index, ft, found, transfer, active, slot, _⟩ :=
    reassembles.exists_transfer there unfinished name
  obtain ⟨sender, rest⟩ := Prod.mk.inj (Option.some.inj ((if_pos active).symm.trans slot))
  obtain ⟨fp, rest⟩ := Prod.mk.inj rest
  obtain ⟨expectedSize, received⟩ := Prod.mk.inj rest
  rw [completed, if_neg some_.ne']
  simp only [found, transfer, fp, expectedSize, received, Option.bind_some,
    ends.cString (List.mem_of_getElem? transfer), sender]
  rw [Nat.mod_eq_of_lt (by omega)]
  by_cases whole : file.sent + payload.length = file.content.length
  · rw [if_pos whole, if_pos (by omega)]
  · rw [if_neg whole, if_neg (by omega)]

end ClientView

/-! ### The list of all files -/

/-- The name and the size of a file if it is a complete one of the sender. -/
def SentFile.completedAs (name filename : Bytes) (file : SentFile) : List (Bytes × Nat) :=
  if file.sender = name ∧ file.complete = true then [(filename, file.content.length)] else []

/-- The names and sizes of the complete files of a sender. -/
def completedFiles (name : Bytes) (sent : List SentFile) (filenames : List Bytes) :
    List (Bytes × Nat) :=
  (sent.zip filenames).flatMap fun entry => entry.1.completedAs name entry.2

section CompletedFiles

variable {name filename : Bytes} {sent : List SentFile} {filenames : List Bytes}

theorem completedFiles_append {more : List SentFile} {others : List Bytes}
    (length : sent.length = filenames.length) :
    completedFiles name (sent ++ more) (filenames ++ others) =
      completedFiles name sent filenames ++ completedFiles name more others := by
  rw [completedFiles, List.zip_append length, List.flatMap_append]
  rfl

theorem completedFiles_cons (file : SentFile) :
    completedFiles name (file :: sent) (filename :: filenames) =
      file.completedAs name filename ++ completedFiles name sent filenames := by
  rw [completedFiles, List.zip_cons_cons, List.flatMap_cons]
  rfl

theorem SentFile.completedAs_of_ne {file : SentFile} (other : file.sender ≠ name) :
    file.completedAs name filename = [] := by
  exact if_neg fun both => other both.1

theorem SentFile.completedAs_started (sender content : Bytes) :
    (SentFile.started sender content).completedAs name filename =
      if sender = name ∧ content.length ≤ lwmpPduBufSize then [(filename, content.length)] else [] := by
  simp only [completedAs, complete, started, decide_eq_true_eq, min_eq_left_iff]

theorem completedFiles_others (others : ∀ file ∈ sent, file.sender ≠ name) :
    completedFiles name sent filenames = [] := by
  rw [completedFiles, List.flatMap_eq_nil_iff]
  rintro ⟨file, filename⟩ member
  exact SentFile.completedAs_of_ne (others file (List.of_mem_zip member).1)

/-- A file that is the last one of its sender becomes complete behind the others. -/
theorem completedFiles_set {before behind : List SentFile} {file next : SentFile}
    (length : (before ++ file :: behind).length = filenames.length)
    (last : ∀ other ∈ behind, other.sender ≠ file.sender) (same : next.sender = file.sender)
    (open_ : file.complete = false) :
    completedFiles name (before ++ next :: behind) filenames =
      completedFiles name (before ++ file :: behind) filenames ++
        next.completedAs name (filenames[before.length]?.getD []) := by
  rw [List.length_append, List.length_cons] at length
  obtain ⟨front, filename, rest, rfl, front_length⟩ :
      ∃ front filename rest, filenames = front ++ filename :: rest ∧
        front.length = before.length := by
    have inside : before.length < filenames.length := by omega
    refine ⟨filenames.take before.length, filenames[before.length],
      filenames.drop (before.length + 1), ?_, by rw [List.length_take]; omega⟩
    rw [List.cons_getElem_drop_succ, List.take_append_drop]
  have found : (front ++ filename :: rest)[before.length]?.getD [] = filename := by
    rw [← front_length, List.getElem?_append_right (le_refl _), Nat.sub_self]
    rfl
  have nothing : file.completedAs name filename = [] := by
    rw [SentFile.completedAs, open_]
    exact if_neg fun both => absurd both.2 Bool.false_ne_true
  rw [found, completedFiles_append front_length.symm, completedFiles_append front_length.symm,
    completedFiles_cons, completedFiles_cons, nothing, List.nil_append, List.append_assoc]
  congr 1
  by_cases mine : file.sender = name
  · rw [completedFiles_others (mine ▸ last), List.append_nil, List.nil_append]
  · rw [SentFile.completedAs_of_ne (same ▸ mine), List.append_nil, List.nil_append]

end CompletedFiles

section Interleaved

variable (usernames : Addr → Bytes) (messages : Addr → List ClientMsg)

/-- The units a sender sends. -/
def unitsOf (sender : Addr) : List RecvUnit := (messages sender).flatMap ClientMsg.units

/-- The units of a sender among the frames that were taken. -/
def takenUnits (frames : List Bytes) (sender : Addr) : List RecvUnit :=
  (unitsOf messages sender).take (framesFrom (senderName (usernames sender)) frames).length

/-- Frames of several senders with different names, each in its order, and of the server. -/
structure Interleaved (frames : List Bytes) : Prop where
  sent : ∀ sender, ∀ msg ∈ messages sender, msg.Sendable ∧ msg.Whole
  apart : ∀ sender other, messages sender ≠ [] → messages other ≠ [] →
    senderName (usernames sender) = senderName (usernames other) → sender = other
  known : ∀ frame ∈ frames, ControlFrame frame ∨
    ∃ sender, messages sender ≠ [] ∧ frameSender frame = some (senderName (usernames sender))
  order : ∀ sender, messages sender ≠ [] →
    framesFrom (senderName (usernames sender)) frames <+:
      (unitsOf messages sender).map fun unit => (unit.item (usernames sender)).buf

/-- The client is in step with the list of all files, those of a sender are the ones its units begin,
and it has said so of the complete ones. -/
structure FilesKept (frames : List Bytes) (view : ClientView) (sent : List SentFile) : Prop where
  reassembles : Reassembles sent view.transfers
  named : view.filenames.length = sent.length
  ends : NamesEnd view.transfers.transfers
  begun : ∀ sender, messages sender ≠ [] →
    sent.filter (fun file => file.sender = senderName (usernames sender)) =
      filesOf (senderName (usernames sender)) (takenUnits usernames messages frames sender)
  lines : ∀ name, receivedFrom name view.shown = completedFiles name sent view.filenames

end Interleaved

section Steps

variable {usernames : Addr → Bytes} {messages : Addr → List ClientMsg} {frames : List Bytes}
  {frame : Bytes} {existing : Bytes → Bool} {view : ClientView} {sent : List SentFile}

theorem Interleaved.front (interleaved : Interleaved usernames messages (frames ++ [frame])) :
    Interleaved usernames messages frames where
  sent := interleaved.sent
  apart := interleaved.apart
  known := fun other member => interleaved.known other (List.mem_append_left _ member)
  order := by
    intro sender sends
    refine List.IsPrefix.trans ?_ (interleaved.order sender sends)
    rw [framesFrom_append]
    exact List.prefix_append _ _

/-- The last frame of a sender is its next unit. -/
theorem Interleaved.next {sender : Addr}
    (interleaved : Interleaved usernames messages (frames ++ [frame])) (sends : messages sender ≠ [])
    (mine : frameSender frame = some (senderName (usernames sender))) :
    ∃ unit left, unitsOf messages sender =
        takenUnits usernames messages frames sender ++ unit :: left ∧
      takenUnits usernames messages (frames ++ [frame]) sender =
        takenUnits usernames messages frames sender ++ [unit] ∧
      frame = (unit.item (usernames sender)).buf := by
  obtain ⟨behind, order⟩ := interleaved.order sender sends
  have one : framesFrom (senderName (usernames sender)) [frame] = [frame] := by
    simp [framesFrom, mine]
  rw [framesFrom_append, one, List.append_assoc, List.singleton_append] at order
  obtain ⟨done, rest, split, taken, more⟩ := List.map_eq_append_iff.mp order.symm
  obtain ⟨unit, left, rfl, same, _⟩ := List.map_eq_cons_iff.mp more
  have count : (framesFrom (senderName (usernames sender)) frames).length = done.length := by
    rw [← taken, List.length_map]
  refine ⟨unit, left, ?_, ?_, same.symm⟩
  · rw [takenUnits, count, split, List.take_left]
  · rw [takenUnits, takenUnits, framesFrom_append, one, List.length_append, count, split,
      List.length_singleton, List.take_left, List.take_length_add_append]
    rfl

theorem takenUnits_other {sender : Addr}
    (other : frameSender frame ≠ some (senderName (usernames sender))) :
    takenUnits usernames messages (frames ++ [frame]) sender =
      takenUnits usernames messages frames sender := by
  have none : framesFrom (senderName (usernames sender)) [frame] = [] := by
    simp [framesFrom, other]
  rw [takenUnits, takenUnits, framesFrom_append, none, List.append_nil]

namespace FilesKept

/-- Nothing was received. -/
theorem start : FilesKept usernames messages [] ClientView.start [] where
  reassembles := transferStart_reassembles
  named := rfl
  ends := TransferCtx.namesEnd_start
  begun := fun _ _ => rfl
  lines := fun _ => rfl

/-- A frame that is no part of a file. -/
theorem noFile (kept : FilesKept usernames messages frames view sent)
    (mark : LwmpPdu.hdrMark frame = pduSyncHdrMark)
    (noFile : LwmpPdu.msgType frame ≠ MsgType.file.code)
    (same : ∀ sender, messages sender ≠ [] →
      filesOf (senderName (usernames sender))
          (takenUnits usernames messages (frames ++ [frame]) sender) =
        filesOf (senderName (usernames sender)) (takenUnits usernames messages frames sender)) :
    FilesKept usernames messages (frames ++ [frame]) (view.takeFrame existing frame) sent := by
  obtain ⟨transfers, filenames, received⟩ :=
    @ClientView.takeFrame_noFile existing view frame mark noFile
  refine ⟨?_, ?_, ?_, ?_, ?_⟩
  · rw [transfers]
    exact kept.reassembles
  · rw [filenames, kept.named]
  · rw [transfers]
    exact kept.ends
  · intro sender sends
    rw [same sender sends, kept.begun sender sends]
  · intro name
    rw [received, filenames, kept.lines]

/-- The list of all files grows by those that a unit of a sender begins. -/
theorem begun_next {sender : Addr} {unit : RecvUnit} {next : List SentFile}
    (kept : FilesKept usernames messages frames view sent)
    (apart : ∀ sender other, messages sender ≠ [] → messages other ≠ [] →
      senderName (usernames sender) = senderName (usernames other) → sender = other)
    (sends : messages sender ≠ [])
    (mine : frameSender frame = some (senderName (usernames sender)))
    (taken : takenUnits usernames messages (frames ++ [frame]) sender =
      takenUnits usernames messages frames sender ++ [unit])
    (files : next.filter (fun file => file.sender = senderName (usernames sender)) =
      unit.files (senderName (usernames sender))
        (sent.filter fun file => file.sender = senderName (usernames sender)))
    (others : ∀ name, name ≠ senderName (usernames sender) →
      next.filter (fun file => file.sender = name) = sent.filter fun file => file.sender = name) :
    ∀ other, messages other ≠ [] →
      next.filter (fun file => file.sender = senderName (usernames other)) =
        filesOf (senderName (usernames other))
          (takenUnits usernames messages (frames ++ [frame]) other) := by
  intro other sendsToo
  by_cases same : other = sender
  · subst same
    rw [files, taken, filesOf_concat, kept.begun other sends]
  · have differs : senderName (usernames other) ≠ senderName (usernames sender) :=
      fun alike => same (apart other sender sendsToo sends alike)
    rw [others _ differs, kept.begun other sendsToo, takenUnits_other]
    rw [mine]
    exact fun alike => differs (Option.some.inj alike).symm

theorem unfinished_of_complete {file : SentFile} (complete : file.complete = true) :
    file.unfinished = false := by
  rw [SentFile.unfinished, Bool.and_eq_false_iff]
  exact .inr (decide_eq_false (of_decide_eq_true complete).not_lt)

/-- The first PDU of a file: the sender has no other file under way, so the client creates one and
keeps a transfer for it if there is more to come. -/
theorem file {sender : Addr} {msg : ClientMsg} {left : List RecvUnit}
    (kept : FilesKept usernames messages frames view sent)
    (interleaved : Interleaved usernames messages (frames ++ [frame])) (sends : messages sender ≠ [])
    (mine : frameSender frame = some (senderName (usernames sender)))
    (split : unitsOf messages sender =
      takenUnits usernames messages frames sender ++ .pdu msg :: left)
    (taken : takenUnits usernames messages (frames ++ [frame]) sender =
      takenUnits usernames messages frames sender ++ [.pdu msg])
    (pdu : frame = (msg.forwardedPdu (usernames sender)).buf) (isFile : msg.msgType = .file)
    (calm : ClioLine.tooManyTransfers ∉ (view.takeFrame existing frame).shown) :
    ∃ next, FilesKept usernames messages (frames ++ [frame]) (view.takeFrame existing frame) next := by
  obtain ⟨now, order, current, _⟩ := filesOf_spec (senderName (usernames sender))
    (interleaved.sent sender) split
  obtain ⟨rfl, occurs, _, _⟩ := order
  rw [← kept.begun sender sends] at current
  have sendable : msg.Sendable := occurs.sendable
  have finished : ∀ file ∈ sent, file.unfinished = true →
      file.sender ≠ senderName (usernames sender) := by
    intro file member unfinished same
    have complete := current file (List.mem_filter.mpr ⟨member, decide_eq_true same⟩)
    rw [unfinished_of_complete complete] at unfinished
    cases unfinished
  obtain ⟨takes, subject, size⟩ :=
    @ClientView.takeFrame_forwardedPdu existing view msg (usernames sender) sendable isFile
  rw [← pdu] at takes subject size
  rw [takes] at calm ⊢
  obtain ⟨⟨index, free⟩, taken_⟩ := ClientView.takeFile_of_calm calm
  rw [subject, size] at taken_
  rw [subject] at free
  rw [taken_]
  generalize destname (view.accessible existing) (LwmpPdu.optionalData frame) = filename
  -- the transfer of the sender is not in use, and another one is free
  have name : senderName (strncpy unamesize (usernames sender)) = senderName (usernames sender) :=
    senderName_strncpy_unamesize _
  have closed := kept.reassembles.closeExisting (strncpy unamesize (usernames sender))
  rw [name, Reassembles.supersede_of_other finished] at closed
  have created := @Reassembles.createFile sent _ closed (strncpy unamesize (usernames sender))
    msg.payload (name.symm ▸ finished) (closed.room free) sendable.size
  rw [name] at created
  refine ⟨sent ++ [.started (senderName (usernames sender)) msg.payload], created, ?_, ?_, ?_, ?_⟩
  · simp only [List.length_append, List.length_singleton, kept.named]
  · exact TransferCtx.namesEnd_createFile (TransferCtx.namesEnd_closeExisting kept.ends _) _ _ _
  · refine kept.begun_next interleaved.apart sends mine taken ?_ fun other differs => ?_
    · rw [List.filter_append, RecvUnit.files, if_pos isFile]
      congr 1
      exact List.filter_eq_self.mpr fun file member => by
        rw [List.mem_singleton.mp member]
        exact decide_eq_true rfl
    · have nothing : [SentFile.started (senderName (usernames sender)) msg.payload].filter
          (fun file => file.sender = other) = [] :=
        List.filter_eq_nil_iff.mpr fun file member => by
          rw [List.mem_singleton.mp member, decide_eq_true_eq]
          exact differs.symm
      rw [List.filter_append, nothing, List.append_nil]
  · intro other
    rw [completedFiles_append kept.named.symm, receivedFrom_append, kept.lines, cString_copySender,
      name, List.length_take]
    congr 1
    rw [completedFiles_cons, SentFile.completedAs_started]
    by_cases whole : msg.payload.length ≤ min lwmpPduBufSize msg.payload.length
    · rw [if_pos whole]
      by_cases same : senderName (usernames sender) = other
      · rw [if_pos ⟨same, (Nat.le_min.mp whole).1⟩, receivedFrom_received, if_pos same]
        rfl
      · rw [if_neg fun both => same both.1, receivedFrom_received, if_neg same]
        rfl
    · rw [if_neg whole, if_neg fun both => whole (Nat.le_min.mpr ⟨both.2, le_rfl⟩)]
      rfl

theorem exists_last_of_filter {name : Bytes} {done : List SentFile} {file : SentFile}
    (files : sent.filter (fun file => file.sender = name) = done ++ [file]) :
    ∃ front rest, sent = front ++ file :: rest ∧
      front.filter (fun file => file.sender = name) = done ∧ ∀ other ∈ rest, other.sender ≠ name := by
  obtain ⟨before, behind, rfl, rfl, last⟩ := List.filter_eq_append_iff.mp files
  obtain ⟨between, rest, rfl, others, _, none⟩ := List.filter_eq_cons_iff.mp last
  refine ⟨before ++ between, rest, (List.append_assoc _ _ _).symm, ?_, fun other member => ?_⟩
  · rw [List.filter_append, List.filter_eq_nil_iff.mpr others, List.append_nil]
  · simpa using List.filter_eq_nil_iff.mp none other member

/-- A chunk: it goes to the end of the last file of its sender. -/
theorem chunk {sender : Addr} {msg : ClientMsg} {count : Nat} {left : List RecvUnit}
    (kept : FilesKept usernames messages frames view sent)
    (interleaved : Interleaved usernames messages (frames ++ [frame])) (sends : messages sender ≠ [])
    (mine : frameSender frame = some (senderName (usernames sender)))
    (split : unitsOf messages sender =
      takenUnits usernames messages frames sender ++ .chunk msg count :: left)
    (taken : takenUnits usernames messages (frames ++ [frame]) sender =
      takenUnits usernames messages frames sender ++ [.chunk msg count])
    (chunk : frame = (forwardedChunk (usernames sender)
      ((msg.payload.drop count).take lwmpChunkBufSize)).buf) :
    ∃ next, FilesKept usernames messages (frames ++ [frame]) (view.takeFrame existing frame) next := by
  obtain ⟨now, order, current, _⟩ := filesOf_spec (senderName (usernames sender))
    (interleaved.sent sender) split
  obtain ⟨rfl, occurs, _, _⟩ := order
  rw [← kept.begun sender sends] at current
  obtain ⟨_, done, files, _⟩ := current
  have inside : count < msg.payload.length := occurs.inside msg count rfl
  -- the file that is under way is the last one of its sender
  obtain ⟨front, rest, rfl, others, last⟩ := exists_last_of_filter files
  generalize same : (msg.payload.drop count).take lwmpChunkBufSize = piece at chunk
  have length : piece.length = min (msg.payload.length - count) lwmpChunkBufSize := by
    rw [← same, List.length_take, List.length_drop, Nat.min_comm]
  have cut : slice count piece.length msg.payload = piece := by
    rw [slice, ← same]
    exact (List.prefix_iff_eq_take.mp (List.take_prefix _ _)).symm
  have name : senderName (strncpy unamesize (usernames sender)) = senderName (usernames sender) :=
    senderName_strncpy_unamesize _
  have some_ : 0 < piece.length := by
    rw [length]
    simp only [lwmpChunkBufSize, lwmpMaxPduSize, lwmpChunkHdrSize]
    omega
  have fits : count + piece.length ≤ msg.payload.length := by omega
  have within : piece.length ≤ lwmpChunkBufSize := by omega
  have there : (front ++ ⟨senderName (usernames sender), msg.payload, count, false⟩ ::
      rest)[front.length]? = some ⟨senderName (usernames sender), msg.payload, count, false⟩ := by
    rw [List.getElem?_append_right (le_refl _), Nat.sub_self, List.getElem?_cons_zero]
  have unfinished : (SentFile.mk (senderName (usernames sender)) msg.payload count false).unfinished =
      true := decide_eq_true inside
  have written := kept.reassembles.receiveChunk there unfinished name.symm fits
  have shows := ClientView.completed_eq kept.reassembles kept.ends there unfinished name.symm some_ fits
  rw [List.set_append_right _ _ (le_refl _), Nat.sub_self, List.set_cons_zero] at written
  simp only [cut] at written
  rw [chunk, ClientView.takeFrame_forwardedChunk (usernames sender) within, ← chunk,
    ClientView.takeChunk, shows]
  refine ⟨_, written, ?_, ?_, ?_, ?_⟩
  · rw [kept.named, List.length_append, List.length_append, List.length_cons, List.length_cons]
  · exact TransferCtx.namesEnd_receiveChunk kept.ends _ _
  · refine kept.begun_next interleaved.apart sends mine taken ?_ fun other differs => ?_
    · rw [files, RecvUnit.files, RecvUnit.sentUpTo, List.dropLast_concat, List.filter_append, others,
        List.filter_cons, if_pos (decide_eq_true rfl), length]
      congr 2
      exact List.filter_eq_nil_iff.mpr fun file member => by simpa using last file member
    · rw [List.filter_append, List.filter_append, List.filter_cons, List.filter_cons,
        if_neg (by simpa using differs.symm), if_neg (by simpa using differs.symm)]
  · intro other
    have open_ : (SentFile.mk (senderName (usernames sender)) msg.payload count false).complete = false :=
      decide_eq_false inside.ne
    have grows : completedFiles other (front ++ ⟨senderName (usernames sender), msg.payload,
        count + piece.length, false⟩ :: rest) view.filenames = _ :=
      completedFiles_set kept.named.symm last rfl open_
    rw [receivedFrom_append, kept.lines, grows]
    congr 1
    simp only [SentFile.completedAs, SentFile.complete, decide_eq_true_eq]
    by_cases whole : count + piece.length = msg.payload.length
    · simp only [if_pos, receivedFrom_received, whole, and_true]
    · rw [if_neg whole, if_neg fun both => whole both.2]
      rfl

/-- Every frame keeps the client in step. -/
theorem step (kept : FilesKept usernames messages frames view sent)
    (interleaved : Interleaved usernames messages (frames ++ [frame]))
    (calm : ClioLine.tooManyTransfers ∉ (view.takeFrame existing frame).shown) :
    ∃ next, FilesKept usernames messages (frames ++ [frame]) (view.takeFrame existing frame) next := by
  rcases interleaved.known frame (List.mem_append_right _ (List.mem_singleton_self _)) with
    control | ⟨sender, sends, mine⟩
  · refine ⟨sent, kept.noFile control.whole.mark ?_ fun sender _ => ?_⟩
    · rcases control.control with info | req
      · rw [info]
        decide
      · rw [req]
        decide
    · rw [takenUnits_other]
      rw [control.frameSender]
      exact fun none => by cases none
  · obtain ⟨unit, left, split, taken, same⟩ := interleaved.next sends mine
    cases unit with
    | chunk msg count => exact kept.chunk interleaved sends mine split taken same
    | pdu msg =>
      have listed : RecvUnit.pdu msg ∈ unitsOf messages sender :=
        split ▸ List.mem_append_right _ List.mem_cons_self
      obtain ⟨occurs, _⟩ := units_of_messages (fun msg member => (interleaved.sent sender msg member).1)
        _ listed
      have sendable : msg.Sendable := occurs.sendable
      by_cases file : msg.msgType = .file
      · exact kept.file interleaved sends mine split taken same file calm
      · have type : LwmpPdu.msgType frame = msg.msgType.code := by
          rw [same]
          exact msgType_lwmpHdr sendable.msgType_code_lt
        have text : msg.msgType = .msg := sendable.message.resolve_right file
        refine ⟨sent, kept.noFile (same ▸ hdrMark_lwmpHdr) ?_ fun other sendsToo => ?_⟩
        · rw [type, text]
          decide
        · by_cases own : other = sender
          · subst own
            rw [taken, filesOf_concat, RecvUnit.files, if_neg file]
          · rw [takenUnits_other]
            rw [mine]
            exact fun alike => own (interleaved.apart other sender sendsToo sends
              (Option.some.inj alike).symm)

end FilesKept

/-- A client that has not had too many transfers is in step with the files behind any frames. -/
theorem Interleaved.filesKept (interleaved : Interleaved usernames messages frames)
    (calm : ClioLine.tooManyTransfers ∉
      (ClientView.viewAfter existing (frames.map .frame)).shown) :
    ∃ sent, FilesKept usernames messages frames
      (ClientView.viewAfter existing (frames.map .frame)) sent := by
  induction frames using List.reverseRecOn with
  | nil => exact ⟨[], .start⟩
  | append_singleton frames frame inductionHypothesis =>
    rw [List.map_append, List.map_singleton, ClientView.viewAfter_append] at calm ⊢
    obtain ⟨sent, kept⟩ := inductionHypothesis interleaved.front fun before =>
      calm ((ClientView.shown_takeFrame existing _ frame).subset before)
    exact kept.step interleaved calm

end Steps

/-! ### The files that were typed -/

/-- The contents of the files that were typed for a recipient. -/
def filesTo (rcpt : Addr) (dest : ClientMsg → Addr) (typed : List TypedMsg) : List Bytes :=
  (typed.filter fun typedMsg => dest typedMsg.msg = rcpt).filterMap fun typedMsg =>
    match typedMsg with
    | .text _ _ => none
    | .file _ _ content => some content

/-- The messages of a sender for the recipient. -/
def messagesTo (rcpt : Addr) (dest : ClientMsg → Addr) (typed : Addr → List TypedMsg)
    (sender : Addr) : List ClientMsg :=
  ((typed sender).map TypedMsg.msg).filter fun msg => dest msg = rcpt

/-- What a client says it has received from a name are files of its directory, in the order in which
they were created: at these places, with these contents, closed, and it gives their names and sizes. -/
structure HasReceived (view : ClientView) (name : Bytes) (places : List Nat) (contents : List Bytes) :
    Prop where
  inOrder : places.Pairwise (· < ·)
  files : places.map (view.transfers.files[·]?) = contents.map fun content => some ⟨content, false⟩
  lines : receivedFrom name view.shown = (places.zip contents).map fun (place, content) =>
    (view.filenames[place]?.getD [], content.length)

theorem completedFiles_eq (name : Bytes) (entries : List (SentFile × Bytes)) :
    entries.flatMap (fun entry => entry.1.completedAs name entry.2) =
      (entries.filter fun entry => entry.1.sender = name && entry.1.complete).map
        fun entry => (entry.2, entry.1.content.length) := by
  induction entries with
  | nil => rfl
  | cons entry entries inductionHypothesis =>
    rw [List.flatMap_cons, inductionHypothesis, List.filter_cons, SentFile.completedAs]
    by_cases mine : entry.1.sender = name ∧ entry.1.complete = true
    · rw [if_pos mine, if_pos (by simp [mine])]
      rfl
    · rw [if_neg mine, if_neg (by simpa using mine)]
      rfl

/-- The complete files of a name were received. -/
theorem FilesKept.hasReceived {usernames : Addr → Bytes} {messages : Addr → List ClientMsg}
    {frames : List Bytes} {view : ClientView} {sent : List SentFile}
    (kept : FilesKept usernames messages frames view sent) (name : Bytes) :
    ∃ places, HasReceived view name places
      (((sent.filter fun file => file.sender = name).filter SentFile.complete).map (·.content)) := by
  let mine (entry : SentFile × Bytes) : Bool := entry.1.sender = name && entry.1.complete
  obtain ⟨places, chosen, inOrder⟩ := List.sublist_eq_map_getElem
    (@List.filter_sublist _ mine (sent.zip view.filenames))
  have contents : ((sent.filter fun file => file.sender = name).filter SentFile.complete).map
      (·.content) = places.map fun place => (sent.zip view.filenames)[place].1.content := by
    have firsts : (sent.zip view.filenames).map Prod.fst = sent :=
      List.map_fst_zip kept.named.symm.le
    conv_lhs => rw [← firsts]
    rw [List.filter_filter, List.filter_map, List.map_map]
    have same : ((fun file : SentFile => file.complete && decide (file.sender = name)) ∘ Prod.fst) =
        mine := by
      funext entry
      exact Bool.and_comm _ _
    rw [same, chosen, List.map_map]
    rfl
  have each : ∀ place ∈ places, (sent.zip view.filenames)[place].1.complete = true := by
    intro place member
    have listed : (sent.zip view.filenames)[place] ∈ (sent.zip view.filenames).filter mine := by
      rw [chosen]
      exact List.mem_map_of_mem member
    exact (Bool.and_eq_true_iff.mp (List.mem_filter.mp listed).2).2
  have there (place : Fin (sent.zip view.filenames).length) :
      sent[place.val]? = some (sent.zip view.filenames)[place].1 ∧
        view.filenames[place.val]? = some (sent.zip view.filenames)[place].2 :=
    List.getElem?_zip_eq_some.mp (List.getElem?_eq_getElem place.isLt)
  refine ⟨places.map Fin.val, ?_, ?_, ?_⟩
  · exact List.pairwise_map.mpr inOrder
  · rw [contents, List.map_map, List.map_map]
    refine List.map_congr_left fun place member => ?_
    have whole := of_decide_eq_true (each place member)
    rw [Function.comp, Function.comp, kept.reassembles.files, List.getElem?_map, (there place).1,
      Option.map_some, SentFile.written, FilesKept.unfinished_of_complete (each place member), whole,
      List.take_length]
  · rw [kept.lines, completedFiles, completedFiles_eq, contents, List.zip_map', List.map_map]
    show ((sent.zip view.filenames).filter mine).map _ = _
    rw [chosen, List.map_map]
    refine List.map_congr_left fun place _ => ?_
    simp only [Function.comp, (there place).2, Option.getD_some]

/-- Of the files of a sender the complete ones are the first, and all unless one is under way. -/
theorem FilesAt.complete {name : Bytes} {now : Option (ClientMsg × Nat)} {begun : List SentFile}
    (current : FilesAt name now begun) :
    (begun.filter SentFile.complete).map (·.content) <+: begun.map (·.content) ∧
      (now = none → begun.filter SentFile.complete = begun) := by
  cases now with
  | none =>
    have all := List.filter_eq_self.mpr current
    exact ⟨by rw [all], fun _ => all⟩
  | some underWay =>
    obtain ⟨_, before, rfl, complete⟩ := current
    refine ⟨?_, fun none => by cases none⟩
    rw [List.filter_append, List.filter_eq_self.mpr complete, List.map_append, List.map_append]
    refine (List.prefix_append_right_inj _).mpr ?_
    rw [List.filter_cons]
    split
    · exact List.prefix_rfl
    · exact List.nil_prefix

theorem chunkUnits_content (units : Nat) (msg : ClientMsg) (sent : Nat) :
    (chunkUnits units msg sent).flatMap RecvUnit.content = [] := by
  induction units generalizing sent with
  | zero => rfl
  | succ units inductionHypothesis =>
    rw [chunkUnits]
    split
    · rw [List.flatMap_cons, inductionHypothesis]
      rfl
    · rfl

/-- What the units for a recipient begin are the files that were typed for it. -/
theorem unitsOf_content (rcpt : Addr) (dest : ClientMsg → Addr) (typed : Addr → List TypedMsg)
    (sender : Addr) :
    (unitsOf (messagesTo rcpt dest typed) sender).flatMap RecvUnit.content =
      filesTo rcpt dest (typed sender) := by
  rw [unitsOf, messagesTo, filesTo]
  induction typed sender with
  | nil => rfl
  | cons typedMsg typed inductionHypothesis =>
    rw [List.map_cons, List.filter_cons, List.filter_cons]
    split
    · rw [List.flatMap_cons, List.flatMap_append, inductionHypothesis, List.filterMap_cons,
        ClientMsg.units, List.flatMap_cons, chunkUnits_content]
      cases typedMsg with
      | text token line => rfl
      | file token filename content => rfl
    · exact inductionHypothesis

theorem itemsTo_eq (rcpt : Addr) (dest : ClientMsg → Addr) (typed : Addr → List TypedMsg)
    (sender : Addr) (username : Bytes) :
    itemsTo rcpt dest username ((typed sender).map TypedMsg.msg) =
      (unitsOf (messagesTo rcpt dest typed) sender).map (RecvUnit.item username) := by
  rw [itemsTo, unitsOf, messagesTo, List.map_flatMap]
  exact List.flatMap_congr fun msg _ => (msg.units_items username).symm

section Received

variable {rcpt : Addr} {dest : ClientMsg → Addr} {typed : Addr → List TypedMsg}
  {start world : PathWorld} {log : Addr → List InboundResult}
  {generated enqueued : List MpscMsgNode} {handled : List Bytes}

/-- What the recipient takes on the message path are frames of several senders. -/
theorem PathInvariant.interleaved
    (begun : PathStart rcpt (fun sender => (typed sender).map TypedMsg.msg) start)
    (sent : ∀ sender, ∀ typedMsg ∈ typed sender, typedMsg.Sent)
    (invariant : PathInvariant rcpt dest (fun sender => (typed sender).map TypedMsg.msg) start world
      log generated enqueued handled) :
    Interleaved (fun sender => (start.senders sender).username) (messagesTo rcpt dest typed)
      handled := by
  have allSent := allSent_typed sent
  have order (sender : Addr) (types : (typed sender).map TypedMsg.msg ≠ []) :
      Lwmsg.framesFrom (senderName (start.senders sender).username) handled <+:
        (unitsOf (messagesTo rcpt dest typed) sender).map
          fun unit => (unit.item (start.senders sender).username).buf := by
    have front := (invariant.framesFrom begun allSent types).1
    rw [itemsTo_eq, List.map_map] at front
    exact front
  have sends (sender : Addr) (some : messagesTo rcpt dest typed sender ≠ []) :
      (typed sender).map TypedMsg.msg ≠ [] := fun none => some (by rw [messagesTo, none]; rfl)
  refine ⟨?_, ?_, ?_, ?_⟩
  · exact fun sender msg member => allSent sender msg (List.mem_filter.mp member).1
  · exact fun sender other some more => begun.names sender other (sends sender some) (sends other more)
  · intro frame member
    rcases invariant.handled_known begun member with control | ⟨sender, types, mine⟩
    · exact .inl control
    · refine .inr ⟨sender, fun none => ?_, mine⟩
      -- the frame is one of the units for the recipient, so there are some
      have listed : frame ∈ Lwmsg.framesFrom (senderName (start.senders sender).username) handled :=
        List.mem_filter.mpr ⟨member, decide_eq_true mine⟩
      have inside := (order sender types).subset listed
      rw [unitsOf, none] at inside
      cases inside
  · exact fun sender some => order sender (sends sender some)

/-- The end of the connection changes nothing about what was received. -/
theorem HasReceived.disconnected {view : ClientView} {name : Bytes} {places : List Nat}
    {contents : List Bytes} (existing : Bytes → Bool)
    (received : HasReceived view name places contents) :
    HasReceived (view.receive existing .disconnected) name places contents := by
  have stays (files : List ReceivedFile) (fp : Option Nat) (place : Nat) (content : Bytes)
      (closed : files[place]? = some ⟨content, false⟩) :
      (fclose files fp)[place]? = some ⟨content, false⟩ := by
    cases fp with
    | none => exact closed
    | some other =>
      rw [fclose, List.getElem?_modify, closed]
      split <;> rfl
  have kept (place : Nat) (content : Bytes)
      (closed : view.transfers.files[place]? = some ⟨content, false⟩) :
      view.transfers.closeAllTransfers.files[place]? = some ⟨content, false⟩ := by
    rw [TransferCtx.closeAllTransfers]
    refine List.foldlRecOn view.transfers.transfers _
      (motive := fun (files : List ReceivedFile) => files[place]? = some ⟨content, false⟩) closed
      fun files still ft _ => ?_
    split
    · exact stays files ft.fp place content still
    · exact still
  refine ⟨received.inOrder, ?_, ?_⟩
  · have files := received.files
    have length := congrArg List.length files
    rw [List.length_map, List.length_map] at length
    refine List.ext_getElem (by rw [List.length_map, List.length_map, length]) fun index here more => ?_
    rw [List.getElem_map, List.getElem_map]
    refine kept _ _ ?_
    have one := congrArg (·[index]?) files
    rw [List.length_map] at here more
    simpa [here, more] using one
  · show receivedFrom name (view.shown ++ [.disconnected]) = _
    rw [receivedFrom_append, received.lines]
    exact List.append_nil _

/-- As long as the client never has too many transfers at once, what it says it has received from a
sender are files of its directory that hold, byte for byte and in order, what was typed to be sent to
it, as far as it has come; and when all has come, they are all of it.

As for the texts, the senders' commands send all that is typed, the server accepts their messages and
finds the recipients, their connections do not fail, and they stay until the recipient gets their
messages. -/
theorem typed_files_received (existing : Bytes → Bool)
    (begun : PathStart rcpt (fun sender => (typed sender).map TypedMsg.msg) start)
    (sent : ∀ sender, ∀ typedMsg ∈ typed sender, typedMsg.Sent)
    (run : PathRun rcpt dest (fun sender => (typed sender).map TypedMsg.msg) start world)
    (calm : ClioLine.tooManyTransfers ∉ (ClientView.viewAfter existing world.received).shown) :
    ∀ sender, filesTo rcpt dest (typed sender) ≠ [] →
      ∃ places contents, HasReceived (ClientView.viewAfter existing world.received)
          (senderName (start.senders sender).username) places contents ∧
        contents <+: filesTo rcpt dest (typed sender) ∧
        (Drained sender world → contents = filesTo rcpt dest (typed sender)) := by
  intro sender some_
  obtain ⟨log, generated, enqueued, handled, invariant⟩ := run.invariant begun (allSent_typed sent)
  have interleaved := invariant.interleaved begun sent
  have content := unitsOf_content rcpt dest typed sender
  have sends : messagesTo rcpt dest typed sender ≠ [] := by
    intro none
    rw [unitsOf, none] at content
    exact some_ content.symm
  have types : (typed sender).map TypedMsg.msg ≠ [] := fun none => sends (by rw [messagesTo, none]; rfl)
  obtain ⟨left, split⟩ : ∃ left, unitsOf (messagesTo rcpt dest typed) sender =
      takenUnits (fun sender => (start.senders sender).username) (messagesTo rcpt dest typed) handled
        sender ++ left := ⟨_, (List.take_append_drop _ _).symm⟩
  obtain ⟨now, order, current, contents⟩ := filesOf_spec
    (senderName (start.senders sender).username) (interleaved.sent sender) split
  obtain ⟨front, all⟩ := current.complete
  rw [contents] at front
  -- what was taken before the end of the connection, if it came
  obtain ⟨places, received⟩ : ∃ places, HasReceived (ClientView.viewAfter existing world.received)
      (senderName (start.senders sender).username) places
      (((filesOf (senderName (start.senders sender).username) (takenUnits
        (fun sender => (start.senders sender).username) (messagesTo rcpt dest typed) handled
        sender)).filter SentFile.complete).map (·.content)) := by
    rcases invariant.seen with same | ⟨_, same⟩
    · rw [same] at calm ⊢
      obtain ⟨files, kept⟩ := interleaved.filesKept calm
      rw [← kept.begun sender sends]
      exact kept.hasReceived _
    · rw [same, ClientView.viewAfter_append] at calm ⊢
      obtain ⟨files, kept⟩ := interleaved.filesKept fun earlier =>
        calm (List.mem_append_left _ earlier)
      rw [← kept.begun sender sends]
      obtain ⟨places, received⟩ := kept.hasReceived (senderName (start.senders sender).username)
      exact ⟨places, received.disconnected existing⟩
  refine ⟨places, _, received, ?_, fun drained => ?_⟩
  · rw [← content, split, List.flatMap_append]
    exact front.trans (List.prefix_append _ _)
  · have arrived := (invariant.framesFrom begun (allSent_typed sent) types).2 drained
    rw [itemsTo_eq, List.map_map] at arrived
    have whole : takenUnits (fun sender => (start.senders sender).username)
        (messagesTo rcpt dest typed) handled sender = unitsOf (messagesTo rcpt dest typed) sender := by
      rw [takenUnits, arrived, List.length_map, List.take_length]
    rw [whole, List.self_eq_append_right] at split
    subst split
    rw [all order, contents, whole, content]

end Received

/-- In the run in which two clients send bob a file of the same name both files are there. -/
theorem typed_files_received_two_senders :
    (∃ places, HasReceived (ClientView.viewAfter (fun _ => false) toBobArrived.received)
      (ofLiteral "ann") places [List.replicate 5000 7]) ∧
    ∃ places, HasReceived (ClientView.viewAfter (fun _ => false) toBobArrived.received)
      (ofLiteral "eve") places [[104, 105]] := by
  obtain ⟨_, _, _, _, _, _, _, _, calm⟩ := toBobArrived_executed
  have received := typed_files_received (fun _ => false) toBob_start typesToBob_sent toBobArrived_run
    calm
  constructor
  · obtain ⟨places, contents, ann, _, all⟩ := received 2 (List.cons_ne_nil _ _)
    rw [all toBobArrived_drained.1] at ann
    exact ⟨places, ann⟩
  · obtain ⟨places, contents, eve, _, all⟩ := received 3 (List.cons_ne_nil _ _)
    rw [all toBobArrived_drained.2] at eve
    exact ⟨places, eve⟩

end Lwmsg
