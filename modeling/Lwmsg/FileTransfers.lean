/-
This file models how the client turns the frames of file transfers into files: `find_transfer`,
`alloc_transfer`, the case `MT_FILE` of `process_received_pdu` and the chunks of `clrecv_parse` of
`client/clrecv.c`. Several senders send files at the same time, and the frames of each of them are
in order.

Each file that is created has a name of its own, so it is known by its place among all that were
created, and creating and writing files succeeds. What is printed is left out, and so are the names
of the files.
-/

import Lwmsg.Clrecv
import Lwmsg.SlotTable
import Lwmsg.Traced

namespace Lwmsg

open Bytes Pointers SlotTable

/-! ### Transfers of the client -/

/-- `MAX_ACTIVE_TRANSFERS`. -/
def maxActiveTransfers : Nat := 8

/-- `file_transfer`. An open file is known by its place among the files that were created. -/
structure FileTransfer where
  active : Bool
  fp : Option Nat
  expectedSize : Nat
  received : Nat
  sender : Bytes
  deriving DecidableEq, Repr

/-- A file with what was written to it. -/
structure ReceivedFile where
  bytes : Bytes
  isOpen : Bool
  deriving DecidableEq, Repr

/-- The `transfers` of `client_ctx`, and the files that were created. -/
structure TransferCtx where
  transfers : List FileTransfer
  files : List ReceivedFile
  deriving DecidableEq, Repr

/-- The client before it has received anything. -/
def TransferCtx.start : TransferCtx where
  transfers := List.replicate maxActiveTransfers ⟨false, none, 0, 0, List.replicate 33 0⟩
  files := []

/-- `fwrite`. -/
def fwrite (files : List ReceivedFile) (fp : Option Nat) (bytes : Bytes) : List ReceivedFile :=
  match fp with
  | none => files
  | some place => files.modify place fun file => { file with bytes := file.bytes ++ bytes }

/-- `fclose`. -/
def fclose (files : List ReceivedFile) (fp : Option Nat) : List ReceivedFile :=
  match fp with
  | none => files
  | some place => files.modify place fun file => { file with isOpen := false }

/-- `find_transfer`. -/
def findTransfer (transfers : List FileTransfer) (sender : Bytes) : Option Nat :=
  transfers.findIdx? fun ft => ft.active && strncmp unamesize ft.sender sender = 0

/-- `alloc_transfer`. -/
def allocTransfer (transfers : List FileTransfer) : Option Nat :=
  transfers.findIdx? fun ft => !ft.active

/-- The name of a sender, copied out of a frame. -/
def copySender (subjectUname : Bytes) : Bytes := subjectUname.take unamesize ++ [0]

namespace TransferCtx

/-- A transfer that goes on is given up, and its file is closed. -/
def closeExisting (ctx : TransferCtx) (sender : Bytes) : TransferCtx :=
  match findTransfer ctx.transfers sender with
  | none => ctx
  | some existing =>
    match ctx.transfers[existing]? with
    | none => ctx
    | some ft =>
      { transfers := ctx.transfers.set existing { ft with fp := none, active := false }
        files := fclose ctx.files ft.fp }

/-- A file is created for the first bytes, and a transfer if there are more to come. -/
def createFile (ctx : TransferCtx) (sender : Bytes) (fileSize : Nat) (payload : Bytes) :
    TransferCtx :=
  match allocTransfer ctx.transfers with
  | none => ctx
  | some index =>
    match ctx.transfers[index]? with
    | none => ctx
    | some ft =>
      let fp := ctx.files.length
      if payload.length ≥ fileSize then { ctx with files := ctx.files ++ [⟨payload, false⟩] }
      else
        { transfers := ctx.transfers.set index
            { active := true
              fp := some fp
              expectedSize := fileSize
              received := payload.length
              sender := strncpy unamesize sender ++ ft.sender.drop unamesize }
          files := ctx.files ++ [⟨payload, true⟩] }

/-- The case `MT_FILE` of `process_received_pdu`. -/
def receiveFile (ctx : TransferCtx) (subjectUname : Bytes) (fileSize : Nat) (payload : Bytes) :
    TransferCtx :=
  let sender := copySender subjectUname
  (ctx.closeExisting sender).createFile sender fileSize payload

/-- What `clrecv_parse` does with a chunk. The sum is of type `uint64_t`. -/
def receiveChunk (ctx : TransferCtx) (subjectUname payload : Bytes) : TransferCtx :=
  if payload.length = 0 then ctx
  else
    match findTransfer ctx.transfers (copySender subjectUname) with
    | none => ctx
    | some index =>
      match ctx.transfers[index]? with
      | none => ctx
      | some ft =>
        let files := fwrite ctx.files ft.fp payload
        let received := (ft.received + payload.length) % 2 ^ 64
        if received ≥ ft.expectedSize then
          { transfers := ctx.transfers.set index { ft with fp := none, active := false, received }
            files := fclose files ft.fp }
        else { transfers := ctx.transfers.set index { ft with received }, files }

end TransferCtx

/-! ### Senders -/

/-- The name a sender is found by. -/
def senderName (subjectUname : Bytes) : Bytes := cString (subjectUname.take unamesize)

/-- A file that a sender has begun to send, with the number of bytes it has sent, and whether the
sender began another one before it was done. -/
structure SentFile where
  sender : Bytes
  content : Bytes
  sent : Nat
  superseded : Bool
  deriving DecidableEq, Repr

/-- A file whose first bytes were sent with its header. -/
def SentFile.started (sender content : Bytes) : SentFile :=
  ⟨sender, content, min content.length lwmpPduBufSize, false⟩

/-- The sender has more bytes of the file to send. -/
def SentFile.unfinished (file : SentFile) : Bool :=
  !file.superseded && file.sent < file.content.length

/-- The sender begins another file. -/
def SentFile.supersede (name : Bytes) (file : SentFile) : SentFile :=
  if file.unfinished && file.sender = name then { file with superseded := true } else file

/-- The files all senders have begun to send, and the client that receives them. -/
structure TransferWorld where
  sent : List SentFile
  ctx : TransferCtx
  deriving DecidableEq, Repr

inductive SenderEvent
  | startFile (subjectUname content : Bytes)
  | sendChunk (subjectUname : Bytes) (count : Nat)
  deriving DecidableEq, Repr

namespace TransferWorld

/-- The place of the file a sender is sending. -/
def current (world : TransferWorld) (name : Bytes) : Option Nat :=
  world.sent.findIdx? fun file => file.unfinished && file.sender = name

/-- A sender sends a frame, and the client receives it: a PDU with the first bytes of a file, or a
chunk with some of the rest. -/
def step (world : TransferWorld) : SenderEvent → Option TransferWorld
  | .startFile subjectUname content =>
    let name := senderName subjectUname
    if content.length < 2 ^ 64 then
      some
        { sent := world.sent.map (SentFile.supersede name) ++ [.started name content]
          ctx := world.ctx.receiveFile subjectUname content.length (content.take lwmpPduBufSize) }
    else none
  | .sendChunk subjectUname count =>
    match world.current (senderName subjectUname) with
    | none => none
    | some place =>
      match world.sent[place]? with
      | none => none
      | some file =>
        if file.sent + count ≤ file.content.length ∧ count < 2 ^ 16 then
          some
            { sent := world.sent.set place { file with sent := file.sent + count }
              ctx := world.ctx.receiveChunk subjectUname (slice file.sent count file.content) }
        else none

/-- How many other senders have an unfinished transfer. -/
def otherSenders (world : TransferWorld) (name : Bytes) : Nat :=
  world.sent.countP fun file => file.unfinished && file.sender ≠ name

/-- When a new file starts, the client has room for it beside those of other senders. -/
def HasRoom (world : TransferWorld) : SenderEvent → Prop
  | .startFile subjectUname _ =>
    world.otherSenders (senderName subjectUname) ≤ maxActiveTransfers - 1
  | .sendChunk _ _ => True

instance (world : TransferWorld) : (event : SenderEvent) → Decidable (world.HasRoom event)
  | .startFile subjectUname _ =>
    inferInstanceAs (Decidable (world.otherSenders (senderName subjectUname) ≤ _))
  | .sendChunk _ _ => isTrue trivial

end TransferWorld

/-- Nobody has sent anything. -/
def transferStart : TransferWorld := ⟨[], .start⟩

/-! ### Slots -/

/-- What a transfer holds for its sender. -/
def FileTransfer.slot (ft : FileTransfer) : Option (Bytes × Option Nat × Nat × Nat) :=
  if ft.active then some (senderName ft.sender, ft.fp, ft.expectedSize, ft.received) else none

def transferSlots (transfers : List FileTransfer) : List (Option (Bytes × Option Nat × Nat × Nat)) :=
  transfers.map FileTransfer.slot

/-- What a transfer should hold for a file that is not finished. -/
def SentFile.slot (place : Nat) (file : SentFile) : Option (Bytes × Option Nat × Nat × Nat) :=
  if file.unfinished then some (file.sender, some place, file.content.length, file.sent) else none

def sentSlots (sent : List SentFile) : List (Option (Bytes × Option Nat × Nat × Nat)) :=
  sent.mapIdx SentFile.slot

/-- What the client has written of a file, which is open as long as there is more to come. -/
def SentFile.written (file : SentFile) : ReceivedFile :=
  ⟨file.content.take file.sent, file.unfinished⟩

/-- The transfers of the client are those the senders have not finished, one for a sender, and its
files hold what was sent. -/
structure Reassembles (sent : List SentFile) (ctx : TransferCtx) : Prop where
  size : ctx.transfers.length = maxActiveTransfers
  distinct : Distinct (transferSlots ctx.transfers)
  single : Distinct (sentSlots sent)
  agree : Agree (transferSlots ctx.transfers) (sentSlots sent)
  files : ctx.files = sent.map SentFile.written
  sized : ∀ file ∈ sent, file.content.length < 2 ^ 64 ∧ file.sent ≤ file.content.length

theorem cString_append_zero (str : Bytes) : cString (str ++ [0]) = cString str := by
  rw [cString, cString, List.takeWhile_append]
  split
  · rename_i clean
    have whole := (List.takeWhile_prefix (p := (· ≠ 0)) (l := str)).eq_of_length clean
    rw [whole]
    exact List.append_nil _
  · rfl

theorem cString_take (count : Nat) (str : Bytes) :
    cString (str.take count) = (cString str).take count := by
  induction str generalizing count with
  | nil => rw [List.take_nil, cString_nil, List.take_nil]
  | cons byte str inductionHypothesis =>
    cases count with
    | zero => rfl
    | succ count =>
      rw [List.take_succ_cons, cString_cons, cString_cons, inductionHypothesis]
      split
      · rfl
      · rfl

theorem senderName_copySender (subjectUname : Bytes) :
    senderName (copySender subjectUname) = senderName subjectUname := by
  rw [senderName, senderName, copySender]
  by_cases full : (subjectUname.take unamesize).length = unamesize
  · rw [List.take_left' full]
  · have short : (subjectUname.take unamesize ++ [0]).length ≤ unamesize := by
      have within := List.length_take_le unamesize subjectUname
      rw [List.length_append, List.length_singleton]
      omega
    rw [List.take_of_length_le short, cString_append_zero]

/-- The name that `strncpy` leaves in a transfer. -/
theorem senderName_strncpy (sender rest : Bytes) :
    senderName (strncpy unamesize sender ++ rest) = senderName sender := by
  rw [senderName, List.take_left' (length_strncpy unamesize sender), cString_strncpy, senderName,
    cString_take]

/-- The transfer `find_transfer` finds is the one of the sender. -/
theorem slot_findTransfer {transfers : List FileTransfer} {subjectUname : Bytes} {index : Nat}
    (found : findTransfer transfers (copySender subjectUname) = some index) :
    ∃ ft, transfers[index]? = some ft ∧ ft.active = true ∧
      ft.slot = some (senderName subjectUname, ft.fp, ft.expectedSize, ft.received) ∧
      (transferSlots transfers)[index]? =
        some (some (senderName subjectUname, ft.fp, ft.expectedSize, ft.received)) := by
  obtain ⟨within, test, _⟩ := List.findIdx?_eq_some_iff_getElem.mp found
  have there := List.getElem?_eq_getElem within
  simp only [Bool.and_eq_true, decide_eq_true_eq, strncmp_eq_zero_iff] at test
  obtain ⟨active, same⟩ := test
  have named : senderName transfers[index].sender = senderName subjectUname := by
    rw [← senderName_copySender subjectUname]
    exact same
  have slot : transfers[index].slot = some (senderName subjectUname, transfers[index].fp,
      transfers[index].expectedSize, transfers[index].received) := by
    rw [FileTransfer.slot, if_pos active, named]
  refine ⟨transfers[index], there, active, slot, ?_⟩
  rw [transferSlots, List.getElem?_map, there, ← slot]
  rfl

theorem not_holds_of_findTransfer {transfers : List FileTransfer} {subjectUname : Bytes}
    (missing : findTransfer transfers (copySender subjectUname) = none)
    (value : Option Nat × Nat × Nat) :
    ¬ Holds (transferSlots transfers) (senderName subjectUname) value := by
  rintro ⟨index, there⟩
  rw [transferSlots, List.getElem?_map] at there
  obtain ⟨ft, found, slot⟩ := Option.map_eq_some_iff.mp there
  have other := List.findIdx?_eq_none_iff.mp missing ft (List.mem_of_getElem? found)
  rw [FileTransfer.slot] at slot
  split at slot
  · rename_i active
    have named : senderName ft.sender = senderName (copySender subjectUname) := by
      rw [senderName_copySender]
      exact congrArg Prod.fst (Option.some.inj slot)
    rw [active, Bool.true_and, decide_eq_false_iff_not] at other
    exact other ((strncmp_eq_zero_iff unamesize ft.sender (copySender subjectUname)).mpr named)
  · cases slot

theorem sentSlots_getElem? {sent : List SentFile} {place : Nat} {file : SentFile}
    (there : sent[place]? = some file) (unfinished : file.unfinished = true) :
    (sentSlots sent)[place]? =
      some (some (file.sender, some place, file.content.length, file.sent)) := by
  rw [sentSlots, List.getElem?_mapIdx, there, Option.map_some, SentFile.slot, if_pos unfinished]

/-- Changing one of the files changes one of the files of the client. -/
theorem modify_written {sent : List SentFile} {place : Nat} {file next : SentFile}
    {change : ReceivedFile → ReceivedFile} (there : sent[place]? = some file)
    (changed : change file.written = next.written) :
    (sent.map SentFile.written).modify place change = (sent.set place next).map SentFile.written := by
  rw [List.modify_eq_set_getElem?, List.getElem?_map, there, List.map_set, ← changed]
  rfl

namespace Reassembles

variable {sent : List SentFile} {ctx : TransferCtx} {place : Nat} {file : SentFile}

/-- The transfer of a sender knows how much it has received of which file. -/
theorem slot_eq (reassembles : Reassembles sent ctx) {index : Nat} {ft : FileTransfer}
    (there : sent[place]? = some file) (unfinished : file.unfinished = true)
    (slot : (transferSlots ctx.transfers)[index]? =
      some (some (file.sender, ft.fp, ft.expectedSize, ft.received))) :
    ft.fp = some place ∧ ft.expectedSize = file.content.length ∧ ft.received = file.sent := by
  have mine := (reassembles.agree _ _).mp ⟨index, slot⟩
  have same := reassembles.single.unique mine ⟨place, sentSlots_getElem? there unfinished⟩
  simpa using same

/-- The sender of an unfinished file has a transfer. -/
theorem exists_transfer (reassembles : Reassembles sent ctx) {subjectUname : Bytes}
    (there : sent[place]? = some file) (unfinished : file.unfinished = true)
    (name : file.sender = senderName subjectUname) :
    ∃ index ft, findTransfer ctx.transfers (copySender subjectUname) = some index ∧
      ctx.transfers[index]? = some ft ∧ ft.active = true ∧
      ft.slot = some (file.sender, some place, file.content.length, file.sent) ∧
      (transferSlots ctx.transfers)[index]? =
        some (some (file.sender, some place, file.content.length, file.sent)) := by
  have holds := (reassembles.agree _ _).mpr ⟨place, sentSlots_getElem? there unfinished⟩
  cases found : findTransfer ctx.transfers (copySender subjectUname) with
  | none =>
    rw [name] at holds
    exact absurd holds (not_holds_of_findTransfer found _)
  | some index =>
    obtain ⟨ft, transfer, active, slot, held⟩ := slot_findTransfer found
    rw [← name] at slot held
    obtain ⟨fp, expectedSize, received⟩ := reassembles.slot_eq there unfinished held
    rw [fp, expectedSize, received] at slot held
    exact ⟨index, ft, rfl, transfer, active, slot, held⟩

/-- The transfer of a sender and its file change together. Here `others` are the slots of the files
that were sent, with one for the file if it is new. -/
theorem change (reassembles : Reassembles sent ctx) {index : Nat} {ft : FileTransfer}
    {next : SentFile} {after : List SentFile} {files : List ReceivedFile}
    {others : List (Option (Bytes × Option Nat × Nat × Nat))}
    (agree : Agree (transferSlots ctx.transfers) others) (single : Distinct others)
    (mine : Owns (transferSlots ctx.transfers) index next.sender)
    (theirs : Owns others place next.sender) (slot : ft.slot = next.slot place)
    (changed : sentSlots after = others.set place (next.slot place))
    (written : files = after.map SentFile.written)
    (sized : ∀ file ∈ after, file.content.length < 2 ^ 64 ∧ file.sent ≤ file.content.length) :
    Reassembles after ⟨ctx.transfers.set index ft, files⟩ := by
  have slots : transferSlots (ctx.transfers.set index ft) =
      (transferSlots ctx.transfers).set index (next.slot place) := by
    rw [transferSlots, List.map_set, slot, transferSlots]
  have named : ∀ name value, next.slot place = some (name, value) → name = next.sender := by
    intro name value content
    rw [SentFile.slot] at content
    split at content
    · cases content
      rfl
    · cases content
  refine ⟨?_, ?_, ?_, ?_, written, sized⟩
  · show (ctx.transfers.set index ft).length = _
    rw [List.length_set, reassembles.size]
  · show Distinct (transferSlots (ctx.transfers.set index ft))
    rw [slots]
    exact mine.distinct_set reassembles.distinct named
  · rw [changed]
    exact theirs.distinct_set single named
  · show Agree (transferSlots (ctx.transfers.set index ft)) _
    rw [slots, changed]
    exact agree.set mine theirs

theorem set (reassembles : Reassembles sent ctx) {index : Nat} {ft : FileTransfer}
    {next : SentFile} {rewrite : ReceivedFile → ReceivedFile} (there : sent[place]? = some file)
    (unfinished : file.unfinished = true)
    (held : (transferSlots ctx.transfers)[index]? =
      some (some (file.sender, some place, file.content.length, file.sent)))
    (same : next.sender = file.sender) (slot : ft.slot = next.slot place)
    (rewritten : rewrite file.written = next.written)
    (sized : next.content.length < 2 ^ 64 ∧ next.sent ≤ next.content.length) :
    Reassembles (sent.set place next)
      ⟨ctx.transfers.set index ft, ctx.files.modify place rewrite⟩ := by
  have mine := reassembles.distinct.owns_held held
  have theirs := reassembles.single.owns_held (sentSlots_getElem? there unfinished)
  rw [← same] at mine theirs
  refine reassembles.change reassembles.agree reassembles.single mine theirs slot ?_ ?_ ?_
  · rw [sentSlots, List.mapIdx_set, sentSlots]
  · rw [reassembles.files]
    exact modify_written there rewritten
  · intro other member
    rcases List.mem_or_eq_of_mem_set member with old | rfl
    · exact reassembles.sized other old
    · exact sized

/-- A chunk goes to the end of the file of its sender. -/
theorem receiveChunk (reassembles : Reassembles sent ctx) {subjectUname : Bytes} {count : Nat}
    (there : sent[place]? = some file) (unfinished : file.unfinished = true)
    (name : file.sender = senderName subjectUname)
    (fits : file.sent + count ≤ file.content.length) :
    Reassembles (sent.set place { file with sent := file.sent + count })
      (ctx.receiveChunk subjectUname (slice file.sent count file.content)) := by
  have length : (slice file.sent count file.content).length = count := length_slice fits
  obtain ⟨small, _⟩ := reassembles.sized file (List.mem_of_getElem? there)
  rw [TransferCtx.receiveChunk, length]
  split
  · rename_i zero
    subst zero
    have unchanged : sent.set place file = sent := by
      obtain ⟨within, rfl⟩ := List.getElem?_eq_some_iff.mp there
      exact List.set_getElem_self within
    show Reassembles (sent.set place file) ctx
    rw [unchanged]
    exact reassembles
  · obtain ⟨index, ft, found, transfer, active, slot, held⟩ :=
      reassembles.exists_transfer there unfinished name
    obtain ⟨sender, rest⟩ := Prod.mk.inj (Option.some.inj ((if_pos active).symm.trans slot))
    obtain ⟨fp, rest⟩ := Prod.mk.inj rest
    obtain ⟨expectedSize, received⟩ := Prod.mk.inj rest
    have more : file.content.take (file.sent + count) =
        file.content.take file.sent ++ slice file.sent count file.content := by
      rw [List.take_add, slice]
    have ongoing : file.superseded = false := by
      simp only [SentFile.unfinished, Bool.and_eq_true, Bool.not_eq_true'] at unfinished
      exact unfinished.1
    simp only [found, transfer, fp, expectedSize, received, fwrite, fclose]
    rw [Nat.mod_eq_of_lt (by omega)]
    split
    · rename_i complete
      have done : ({ file with sent := file.sent + count } : SentFile).unfinished = false := by
        simp only [SentFile.unfinished, Bool.and_eq_false_iff, decide_eq_false_iff_not]
        exact .inr (by omega)
      rw [List.modify_modify_eq]
      refine reassembles.set there unfinished held rfl ?_ ?_ ⟨small, fits⟩
      · rw [SentFile.slot, done]
        rfl
      · simp only [SentFile.written, done, more, Function.comp]
    · rename_i missing
      have goesOn : ({ file with sent := file.sent + count } : SentFile).unfinished = true := by
        simp only [SentFile.unfinished, ongoing, Bool.not_false, Bool.true_and, decide_eq_true_eq]
        omega
      refine reassembles.set there unfinished held rfl ?_ ?_ ⟨small, fits⟩
      · rw [SentFile.slot, goesOn, FileTransfer.slot, if_pos active, if_pos rfl]
        simp only [sender]
      · simp only [SentFile.written, goesOn, unfinished, more]

/-- A sender who begins a new file gives up the one it was sending. -/
theorem supersede_of_other {name : Bytes}
    (other : ∀ file ∈ sent, file.unfinished = true → file.sender ≠ name) :
    sent.map (SentFile.supersede name) = sent := by
  conv_rhs => rw [← List.map_id sent]
  refine List.map_congr_left fun file member => ?_
  rw [SentFile.supersede, if_neg, id]
  intro mine
  rw [Bool.and_eq_true, decide_eq_true_eq] at mine
  exact other file member mine.1 mine.2

theorem supersede_eq_set (reassembles : Reassembles sent ctx) (there : sent[place]? = some file)
    (unfinished : file.unfinished = true) :
    sent.map (SentFile.supersede file.sender) = sent.set place { file with superseded := true } := by
  refine List.ext_getElem? fun position => ?_
  rw [List.getElem?_map, List.getElem?_set]
  split
  · rename_i same
    rw [← same, there, if_pos (List.getElem?_eq_some_iff.mp there).1, Option.map_some,
      SentFile.supersede, if_pos (by rw [unfinished, Bool.true_and, decide_eq_true_eq])]
  · rename_i apart
    cases elsewhere : sent[position]? with
    | none => rfl
    | some other =>
      rw [Option.map_some, SentFile.supersede, if_neg]
      intro mine
      rw [Bool.and_eq_true, decide_eq_true_eq] at mine
      have second := sentSlots_getElem? elsewhere mine.1
      rw [mine.2] at second
      exact apart (reassembles.single place position _ _ _ (sentSlots_getElem? there unfinished)
        second)

/-- The transfer of a sender who begins a new file is given up. -/
theorem closeExisting (reassembles : Reassembles sent ctx) (subjectUname : Bytes) :
    Reassembles (sent.map (SentFile.supersede (senderName subjectUname)))
      (ctx.closeExisting (copySender subjectUname)) := by
  cases found : findTransfer ctx.transfers (copySender subjectUname) with
  | none =>
    have other : ∀ file ∈ sent, file.unfinished = true → file.sender ≠ senderName subjectUname := by
      rintro file member unfinished same
      obtain ⟨place, there⟩ := List.mem_iff_getElem?.mp member
      obtain ⟨_, _, missing, _⟩ := reassembles.exists_transfer there unfinished same
      rw [found] at missing
      cases missing
    rw [supersede_of_other other]
    simp only [TransferCtx.closeExisting, found]
    exact reassembles
  | some index =>
    obtain ⟨ft, transfer, active, slot, held⟩ := slot_findTransfer found
    obtain ⟨place, there⟩ := (reassembles.agree _ _).mp ⟨index, held⟩
    rw [sentSlots, List.getElem?_mapIdx] at there
    obtain ⟨file, there, theirs⟩ := Option.map_eq_some_iff.mp there
    rw [SentFile.slot] at theirs
    split at theirs
    · rename_i unfinished
      obtain ⟨name, rest⟩ := Prod.mk.inj (Option.some.inj theirs)
      rw [← rest, ← name] at held
      have only : sent.map (SentFile.supersede (senderName subjectUname)) =
          sent.set place { file with superseded := true } := by
        rw [← name]
        exact reassembles.supersede_eq_set there unfinished
      have given : ({ file with superseded := true } : SentFile).unfinished = false := rfl
      rw [only]
      simp only [TransferCtx.closeExisting, found, transfer, ← (Prod.mk.inj rest).1, fclose]
      refine reassembles.set there unfinished held rfl ?_ ?_
        (reassembles.sized file (List.mem_of_getElem? there))
      · rw [SentFile.slot, given]
        rfl
      · rfl
    · cases theirs

/-- There is a free transfer where fewer senders have one than there are transfers. -/
theorem exists_free (reassembles : Reassembles sent ctx)
    (room : sent.countP SentFile.unfinished < maxActiveTransfers) :
    ∃ index ft, allocTransfer ctx.transfers = some index ∧ ctx.transfers[index]? = some ft ∧
      ft.slot = none := by
  have named : ∀ key value, Holds (transferSlots ctx.transfers) key value →
      key ∈ (sent.filter SentFile.unfinished).map SentFile.sender := by
    intro key value holds
    obtain ⟨place, there⟩ := (reassembles.agree key value).mp holds
    rw [sentSlots, List.getElem?_mapIdx] at there
    obtain ⟨file, listed, slot⟩ := Option.map_eq_some_iff.mp there
    rw [SentFile.slot] at slot
    split at slot
    · rename_i unfinished
      cases slot
      exact List.mem_map_of_mem (List.mem_filter.mpr ⟨List.mem_of_getElem? listed, unfinished⟩)
    · cases slot
  obtain ⟨slot, member, free⟩ := reassembles.distinct.exists_free named (by
    rw [List.length_map, ← List.countP_eq_length_filter, transferSlots, List.length_map,
      reassembles.size]
    exact room)
  obtain ⟨ft, inside, same⟩ := List.mem_map.mp member
  have inactive : ft.active = false := by
    rw [free, FileTransfer.slot] at same
    split at same
    · cases same
    · exact Bool.eq_false_iff.mpr ‹_›
  have found : (allocTransfer ctx.transfers).isSome := by
    rw [allocTransfer, List.findIdx?_isSome, List.any_eq_true]
    exact ⟨ft, inside, by rw [inactive]; rfl⟩
  obtain ⟨index, found⟩ := Option.isSome_iff_exists.mp found
  obtain ⟨within, test, _⟩ := List.findIdx?_eq_some_iff_getElem.mp found
  refine ⟨index, _, found, List.getElem?_eq_getElem within, ?_⟩
  rw [FileTransfer.slot, if_neg (by simpa using test)]

theorem sized_append (reassembles : Reassembles sent ctx)
    (sized : file.content.length < 2 ^ 64 ∧ file.sent ≤ file.content.length) :
    ∀ other ∈ sent ++ [file],
      other.content.length < 2 ^ 64 ∧ other.sent ≤ other.content.length := by
  intro other member
  rcases List.mem_append.mp member with old | new
  · exact reassembles.sized other old
  · rw [List.mem_singleton.mp new]
    exact sized

theorem files_append (reassembles : Reassembles sent ctx) :
    ctx.files ++ [file.written] = (sent ++ [file]).map SentFile.written := by
  rw [List.map_append, reassembles.files]
  rfl

/-- A file that is complete with its first bytes needs no transfer. -/
theorem append_finished (reassembles : Reassembles sent ctx) (finished : file.unfinished = false)
    (sized : file.content.length < 2 ^ 64 ∧ file.sent ≤ file.content.length) :
    Reassembles (sent ++ [file]) { ctx with files := ctx.files ++ [file.written] } := by
  have slots : sentSlots (sent ++ [file]) = sentSlots sent ++ [none] := by
    rw [sentSlots, List.mapIdx_concat, SentFile.slot, if_neg (by rw [finished]; decide), sentSlots]
  refine ⟨reassembles.size, reassembles.distinct, ?_, ?_, reassembles.files_append,
    reassembles.sized_append sized⟩
  · rw [slots]
    exact reassembles.single.append_free
  · rw [slots]
    exact reassembles.agree.append_free

/-- A file with more to come gets a free transfer. -/
theorem append_unfinished (reassembles : Reassembles sent ctx) {index : Nat} {ft taken : FileTransfer}
    (other : ∀ old ∈ sent, old.unfinished = true → old.sender ≠ file.sender)
    (there : ctx.transfers[index]? = some ft) (free : ft.slot = none)
    (slot : taken.slot = file.slot sent.length)
    (sized : file.content.length < 2 ^ 64 ∧ file.sent ≤ file.content.length) :
    Reassembles (sent ++ [file])
      ⟨ctx.transfers.set index taken, ctx.files ++ [file.written]⟩ := by
  have missing : ∀ value, ¬ Holds (sentSlots sent) file.sender value := by
    rintro value ⟨place, found⟩
    rw [sentSlots, List.getElem?_mapIdx] at found
    obtain ⟨old, listed, same⟩ := Option.map_eq_some_iff.mp found
    rw [SentFile.slot] at same
    split at same
    · rename_i unfinished
      have name : old.sender = file.sender := congrArg Prod.fst (Option.some.inj same)
      exact other old (List.mem_of_getElem? listed) unfinished name
    · cases same
  have agree := reassembles.agree.append_free
  have length : (sentSlots sent).length = sent.length := by rw [sentSlots, List.length_mapIdx]
  have mine : Owns (transferSlots ctx.transfers) index file.sender := by
    refine owns_free ?_ fun value holds => missing value ((reassembles.agree _ _).mp holds)
    rw [transferSlots, List.getElem?_map, there, Option.map_some, free]
  have theirs : Owns (sentSlots sent ++ [none]) sent.length file.sender := by
    refine owns_free ?_ fun value holds =>
      missing value ((reassembles.agree _ _).mp ((agree _ _).mpr holds))
    rw [← length]
    exact List.getElem?_concat_length
  refine reassembles.change agree reassembles.single.append_free mine theirs slot ?_
    reassembles.files_append (reassembles.sized_append sized)
  rw [sentSlots, List.mapIdx_concat, ← length, List.set_append_right _ _ (le_refl _), Nat.sub_self,
    length]
  rfl

theorem createFile (reassembles : Reassembles sent ctx) {subjectUname content : Bytes}
    (other : ∀ old ∈ sent, old.unfinished = true → old.sender ≠ senderName subjectUname)
    (room : sent.countP SentFile.unfinished < maxActiveTransfers)
    (small : content.length < 2 ^ 64) :
    Reassembles (sent ++ [.started (senderName subjectUname) content])
      (ctx.createFile (copySender subjectUname) content.length (content.take lwmpPduBufSize)) := by
  obtain ⟨index, ft, found, there, free⟩ := reassembles.exists_free room
  have written : (SentFile.started (senderName subjectUname) content).written =
      ⟨content.take lwmpPduBufSize,
        (SentFile.started (senderName subjectUname) content).unfinished⟩ := by
    show ReceivedFile.mk (content.take (min content.length lwmpPduBufSize)) _ = _
    rw [Nat.min_comm, ← List.take_take, List.take_length]
  have unfinished : (SentFile.started (senderName subjectUname) content).unfinished =
      decide ((content.take lwmpPduBufSize).length < content.length) := by
    rw [List.length_take, Nat.min_comm]
    rfl
  have sized : content.length < 2 ^ 64 ∧
      (SentFile.started (senderName subjectUname) content).sent ≤ content.length :=
    ⟨small, Nat.min_le_left _ _⟩
  simp only [TransferCtx.createFile, found, there]
  split
  · rename_i complete
    rw [decide_eq_false (not_lt.mpr complete)] at unfinished
    have appended := reassembles.append_finished unfinished sized
    rw [written, unfinished] at appended
    exact appended
  · rename_i missing
    rw [decide_eq_true (not_le.mp missing)] at unfinished
    rw [unfinished] at written
    rw [← written]
    refine reassembles.append_unfinished other there free ?_ sized
    have places : ctx.files.length = sent.length := by rw [reassembles.files, List.length_map]
    rw [SentFile.slot, if_pos unfinished, FileTransfer.slot, if_pos rfl, senderName_strncpy,
      senderName_copySender, places, List.length_take, Nat.min_comm]
    rfl

end Reassembles

/-! ### Runs -/

theorem unfinished_supersede (name : Bytes) (file : SentFile) :
    (file.supersede name).unfinished = (file.unfinished && file.sender ≠ name) := by
  rw [SentFile.supersede]
  split
  · rename_i mine
    rw [Bool.and_eq_true, decide_eq_true_eq] at mine
    simp [SentFile.unfinished, mine.2]
  · rename_i other
    rw [Bool.and_eq_true, decide_eq_true_eq] at other
    cases unfinished : file.unfinished with
    | false => rfl
    | true => simpa using fun same => other ⟨unfinished, same⟩

theorem sender_supersede (name : Bytes) (file : SentFile) :
    (file.supersede name).sender = file.sender := by
  rw [SentFile.supersede]
  split
  · rfl
  · rfl

/-- Every frame keeps the transfers in step with the files. -/
theorem Reassembles.step {world next : TransferWorld} {event : SenderEvent}
    (reassembles : Reassembles world.sent world.ctx) (room : world.HasRoom event)
    (taken : world.step event = some next) : Reassembles next.sent next.ctx := by
  cases event with
  | startFile subjectUname content =>
    rw [TransferWorld.step] at taken
    split at taken
    · rename_i small
      cases taken
      refine (reassembles.closeExisting subjectUname).createFile ?_ ?_ small
      · rintro old member unfinished same
        obtain ⟨file, _, rfl⟩ := List.mem_map.mp member
        rw [unfinished_supersede, Bool.and_eq_true, decide_eq_true_eq] at unfinished
        rw [sender_supersede] at same
        exact unfinished.2 same
      · have count : (world.sent.map (SentFile.supersede (senderName subjectUname))).countP
            SentFile.unfinished = world.otherSenders (senderName subjectUname) := by
          rw [List.countP_map, TransferWorld.otherSenders]
          congr 1
          funext file
          exact unfinished_supersede _ _
        rw [count]
        have others : world.otherSenders (senderName subjectUname) ≤ maxActiveTransfers - 1 := room
        simp only [maxActiveTransfers] at others ⊢
        omega
    · cases taken
  | sendChunk subjectUname count =>
    rw [TransferWorld.step] at taken
    split at taken
    · cases taken
    · rename_i place current
      obtain ⟨within, mine, _⟩ := List.findIdx?_eq_some_iff_getElem.mp current
      rw [List.getElem?_eq_getElem within] at taken
      simp only [Bool.and_eq_true, decide_eq_true_eq] at mine taken
      split at taken
      · rename_i fits
        cases taken
        exact reassembles.receiveChunk (List.getElem?_eq_getElem within) mine.1 mine.2 fits.1
      · cases taken

theorem not_holds_transferStart (index : Nat) (held : Bytes × Option Nat × Nat × Nat) :
    (transferSlots transferStart.ctx.transfers)[index]? ≠ some (some held) := by
  intro there
  have free : some held ∈ List.replicate maxActiveTransfers none := List.mem_of_getElem? there
  cases List.eq_of_mem_replicate free

theorem transferStart_reassembles : Reassembles transferStart.sent transferStart.ctx where
  size := rfl
  distinct := by
    intro first second key value more there
    exact absurd there (not_holds_transferStart first _)
  single := by
    intro first second key value more there
    cases there
  agree := by
    intro key value
    refine iff_of_false ?_ ?_
    · rintro ⟨index, there⟩
      exact not_holds_transferStart index _ there
    · rintro ⟨index, there⟩
      cases there
  files := rfl
  sized := by
    intro file member
    cases member

/-- A transfer that goes on writes to the file. -/
def TransferCtx.WritesTo (ctx : TransferCtx) (place : Nat) : Prop :=
  ∃ ft ∈ ctx.transfers, ft.active = true ∧ ft.fp = some place

/-- A transfer is taken for each unfinished file, and for no other. -/
theorem Reassembles.writesTo_iff {sent : List SentFile} {ctx : TransferCtx} {place : Nat}
    {file : SentFile} (reassembles : Reassembles sent ctx) (there : sent[place]? = some file) :
    ctx.WritesTo place ↔ file.unfinished = true := by
  constructor
  · rintro ⟨ft, member, active, fp⟩
    obtain ⟨index, transfer⟩ := List.mem_iff_getElem?.mp member
    have held : Holds (transferSlots ctx.transfers) (senderName ft.sender)
        (some place, ft.expectedSize, ft.received) := by
      refine ⟨index, ?_⟩
      rw [transferSlots, List.getElem?_map, transfer, Option.map_some, FileTransfer.slot,
        if_pos active, fp]
    obtain ⟨position, theirs⟩ := (reassembles.agree _ _).mp held
    rw [sentSlots, List.getElem?_mapIdx] at theirs
    obtain ⟨other, listed, slot⟩ := Option.map_eq_some_iff.mp theirs
    rw [SentFile.slot] at slot
    split at slot
    · rename_i unfinished
      have same := congrArg (fun held => held.2.1) (Option.some.inj slot)
      obtain rfl : position = place := Option.some.inj same
      rw [there] at listed
      cases listed
      exact unfinished
    · cases slot
  · intro unfinished
    obtain ⟨index, held⟩ := (reassembles.agree _ _).mpr ⟨place, sentSlots_getElem? there unfinished⟩
    rw [transferSlots, List.getElem?_map] at held
    obtain ⟨ft, transfer, slot⟩ := Option.map_eq_some_iff.mp held
    rw [FileTransfer.slot] at slot
    split at slot
    · rename_i active
      have fp := congrArg (fun held => held.2.1) (Option.some.inj slot)
      exact ⟨ft, List.mem_of_getElem? transfer, active, fp⟩
    · cases slot

/-- As long as no more than seven others have an unfinished transfer when a new file starts, the
client reassembles all files: of each file that its sender has not given up for another one it has
written what was sent so far, and the file is open, and a transfer is taken for it, as long as some
of it was not sent. -/
theorem files_reassembled {history : List (TransferWorld × SenderEvent)} {world : TransferWorld}
    (run : Traced TransferWorld.step transferStart history world)
    (room : ∀ visited ∈ history, visited.1.HasRoom visited.2) (place : Nat) (file : SentFile)
    (there : world.sent[place]? = some file) (kept : file.superseded = false) :
    file.sent ≤ file.content.length ∧
      world.ctx.files[place]? =
        some ⟨file.content.take file.sent, decide (file.sent < file.content.length)⟩ ∧
      (world.ctx.WritesTo place ↔ file.sent < file.content.length) := by
  have reassembles : Reassembles world.sent world.ctx := by
    refine @Traced.invariant _ _ _ _ _ _ (fun world => Reassembles world.sent world.ctx) run
      transferStart_reassembles ?_
    intro visited member reassembles next taken
    exact reassembles.step (room visited member) taken
  have unfinished : file.unfinished = decide (file.sent < file.content.length) := by
    rw [SentFile.unfinished, kept]
    rfl
  refine ⟨(reassembles.sized file (List.mem_of_getElem? there)).2, ?_, ?_⟩
  · rw [reassembles.files, List.getElem?_map, there, Option.map_some, SentFile.written, unfinished]
  · rw [reassembles.writesTo_iff there, unfinished, decide_eq_true_eq]

/-- Two senders send at the same time, and one of them is done. -/
def twoSenders : List SenderEvent :=
  [.startFile (ofLiteral "ann") (List.replicate 4017 1),
    .startFile (ofLiteral "bob") (List.replicate 4017 2), .sendChunk (ofLiteral "ann") 1,
    .sendChunk (ofLiteral "bob") 2, .sendChunk (ofLiteral "ann") 1]

theorem files_reassembled_interleaved : ∃ history world,
    Traced TransferWorld.step transferStart history world ∧
      history.map Prod.snd = twoSenders ∧
      world.ctx.files[1]? = some ⟨List.replicate 4017 2, false⟩ ∧ ¬ world.ctx.WritesTo 1 := by
  have executed : (traceAll TransferWorld.step transferStart twoSenders).any
      (fun (history, world) =>
        decide (∀ visited ∈ history, visited.1.HasRoom visited.2) &&
          decide (world.sent[1]? = some ⟨ofLiteral "bob", List.replicate 4017 2, 4017, false⟩)) =
      true := by
    decide +kernel
  obtain ⟨⟨history, world⟩, traced, room⟩ := (Option.any_eq_true _ _).mp executed
  obtain ⟨room, there⟩ := Bool.and_eq_true_iff.mp room
  rw [decide_eq_true_eq] at room there
  have run := Traced.start.traceAll traced
  obtain ⟨_, written, writes⟩ := files_reassembled run room 1 _ there rfl
  refine ⟨history, world, run, traceAll_events traced, ?_, ?_⟩
  · rw [written]
    decide +kernel
  · rw [writes]
    decide +kernel

end Lwmsg
