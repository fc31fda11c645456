/-
This file models how the client reads what the server sends: `clrecv_fill`,
`clrecv_parse` and `process_received_pdu` of `client/clrecv.c`. It says which frames
the server can put on a stream and where each of them ends, and it proves that the
client takes a stream of frames apart at exactly these places.

Of `process_received_pdu` this is what it does to the receive buffer and to the
state of a request or a transfer that waits for its response. A frame that was
handed over is recorded as the bytes it had when it was; what is printed, and the
files and the list of users it is turned into, follow from these bytes.
-/

import Lwmsg.Inbound

namespace Lwmsg

open Bytes Pointers

/-! ### The receive buffer of the client -/

/-- `RECV_BUF_SIZE`. -/
@[simp] def recvBufSize : Nat := lwmpMaxPduSize * 4

/-- The part of `client_ctx` that receiving reads and writes. Of `recv_buf` these are the first
`recv_len` bytes: a write behind them is overwritten before anything reads it. -/
structure ClientCtx where
  connection : Conn
  connected : Bool
  recvBuf : Bytes
  awaitingResp : Bool
  lastRespCode : Nat
  sendingChunks : Bool
  transferError : Bool
  deriving DecidableEq, Repr

/-- `clrecv_fill`, and whether it answered zero. -/
def clrecvFill (ctx : ClientCtx) : Bool × ClientCtx :=
  let outcome := recvWhile
    (fun recvBuf : Bytes =>
      if recvBuf.length < recvBufSize then some (recvBufSize - recvBuf.length) else none)
    (fun recvBuf bytes => recvBuf ++ bytes) ctx.connection ctx.recvBuf
  match outcome.stopped with
  | some .error => (false, { ctx with
      connection := outcome.connection
      connected := false
      recvBuf := []
      awaitingResp := false
      sendingChunks := false })
  | some .eblock | none =>
    (true, { ctx with connection := outcome.connection, recvBuf := outcome.state })

/-! ### Frames that were received -/

/-- `print_server_resp`, as far as the PDU at the start of the buffer is written. -/
def printServerResp (recvBuf : Bytes) (payloadSize respCode : Nat) : Bytes :=
  if respCode = respCodes .ok then recvBuf
  else if 0 < payloadSize ∧ payloadSize ≤ lwmpPduBufSize then
    recvBuf.set (lwmpHdrSize + (payloadSize - 1)) 0
  else recvBuf

/-- `pdu->response.resp_code`, in the byte order of the host. -/
def LwmpPdu.respCode (pdu : Bytes) : Nat := beValue (slice 0 4 (LwmpPdu.optionalData pdu))

/-- `process_received_pdu`, for the PDU at the start of the buffer. -/
def processReceivedPdu (ctx : ClientCtx) (payloadSize : Nat) : ClientCtx :=
  let pdu := ctx.recvBuf
  if LwmpPdu.msgType pdu = MsgType.msg.code then
    if 0 < payloadSize ∧ payloadSize ≤ lwmpPduBufSize then
      { ctx with recvBuf := pdu.set (lwmpHdrSize + (payloadSize - 1)) 0 }
    else { ctx with recvBuf := pdu.set lwmpHdrSize 0 }
  else if LwmpPdu.msgType pdu = MsgType.info.code then
    let respCode := LwmpPdu.respCode pdu
    { ctx with
      recvBuf := printServerResp pdu payloadSize respCode
      lastRespCode := if ctx.awaitingResp then respCode else ctx.lastRespCode
      awaitingResp := false
      transferError := ctx.transferError || ctx.sendingChunks && decide (respCode ≠ respCodes .ok) }
  else if LwmpPdu.msgType pdu = MsgType.req.code then
    let respCode := LwmpPdu.respCode pdu
    if respCode = respCodes .ok ∧ 0 < payloadSize then ctx
    else { ctx with recvBuf := printServerResp pdu payloadSize respCode }
  else ctx

/-- What one turn of the loop of `clrecv_parse` finds at the start of the buffer. -/
inductive ClrecvTurn
  | wait
  | crcMismatch
  | pdu (wirePayload totalNeeded : Nat)
  | chunk (totalNeeded : Nat)
  | noMark
  deriving DecidableEq, Repr

/-- The decisions of one turn. The sum is of type `uint64_t`. -/
def clrecvTurn (recvBuf : Bytes) : ClrecvTurn :=
  if recvBuf.length < 4 then .wait
  else if LwmpPdu.hdrMark recvBuf = pduSyncHdrMark then
    if recvBuf.length < lwmpHdrSize then .wait
    else if ¬ LwmpPdu.crcMatches recvBuf then .crcMismatch
    else
      let payloadSize := LwmpPdu.totalMsgSize recvBuf
      let wirePayload :=
        if LwmpPdu.msgType recvBuf = MsgType.file.code ∧ payloadSize > lwmpPduBufSize then
          lwmpPduBufSize
        else payloadSize
      let totalNeeded := (lwmpHdrSize + wirePayload) % 2 ^ 64
      if recvBuf.length < totalNeeded then .wait else .pdu wirePayload totalNeeded
  else if LwmpChunk.chHdrMark recvBuf = chunkSyncHdrMark then
    if recvBuf.length < lwmpChunkHdrSize then .wait
    else
      let totalNeeded := lwmpChunkHdrSize + LwmpChunk.chunkSize recvBuf
      if recvBuf.length < totalNeeded then .wait else .chunk totalNeeded
  else .noMark

/-- What a turn did besides changing the client: it handed a frame over, or it entered one of the two
branches that resynchronise. -/
inductive Handled
  | frame (bytes : Bytes)
  | resync
  deriving DecidableEq, Repr

/-- One turn of the loop, or nothing where the loop is left. Where no mark is found, the loop is left
with an empty buffer, which another turn does not change. -/
def clrecvStep (ctx : ClientCtx) : Option (Handled × ClientCtx) :=
  match clrecvTurn ctx.recvBuf with
  | .wait => none
  | .crcMismatch =>
    some (.resync, { ctx with recvBuf := lwmpStreamResync (ctx.recvBuf.set 0 0) })
  | .pdu wirePayload totalNeeded =>
    let after := processReceivedPdu ctx wirePayload
    some (.frame (ctx.recvBuf.take totalNeeded),
      { after with recvBuf := after.recvBuf.drop totalNeeded })
  | .chunk totalNeeded =>
    some (.frame (ctx.recvBuf.take totalNeeded),
      { ctx with recvBuf := ctx.recvBuf.drop totalNeeded })
  | .noMark => some (.resync, { ctx with recvBuf := lwmpStreamResync ctx.recvBuf })

/-- The loop of `clrecv_parse`, which may take so many turns. It answers what it handled and what it
left. -/
def clrecvParseTurns : Nat → ClientCtx → Option (List Handled × ClientCtx)
  | 0, _ => none
  | turns + 1, ctx =>
    match clrecvStep ctx with
    | none => some ([], ctx)
    | some (handled, ctx) =>
      (clrecvParseTurns turns ctx).map fun (rest, ctx) => (handled :: rest, ctx)

/-- `clrecv_parse`. A turn that does not shorten the buffer is followed by another such turn, so the
loop either ends within as many turns as there are bytes, or it does not end. -/
def clrecvParse (ctx : ClientCtx) : Option (List Handled × ClientCtx) :=
  clrecvParseTurns (ctx.recvBuf.length + 1) ctx

/-! ### Frames of the server -/

/-- The bytes a PDU announces. -/
def wirePayload (pdu : Bytes) : Nat :=
  if LwmpPdu.msgType pdu = MsgType.file.code ∧ LwmpPdu.totalMsgSize pdu > lwmpPduBufSize then
    lwmpPduBufSize
  else LwmpPdu.totalMsgSize pdu

/-- A PDU with nothing behind it. -/
structure PduFrame (frame : Bytes) : Prop where
  header : lwmpHdrSize ≤ frame.length
  mark : LwmpPdu.hdrMark frame = pduSyncHdrMark
  crc : LwmpPdu.crcMatches frame = true
  whole : frame.length = lwmpHdrSize + wirePayload frame

/-- A chunk with nothing behind it. -/
structure ChunkFrame (frame : Bytes) : Prop where
  header : lwmpChunkHdrSize ≤ frame.length
  mark : LwmpChunk.chHdrMark frame = chunkSyncHdrMark
  whole : frame.length = lwmpChunkHdrSize + LwmpChunk.chunkSize frame

theorem chunkFrame_lwmpPrepareChunk {lwc subject data : Bytes}
    (within : data.length ≤ lwmpChunkBufSize)
    (filled : lwc.length ≤ lwmpChunkHdrSize + data.length) :
    ChunkFrame (lwmpPrepareChunk lwc data.length subject data) := by
  refine ⟨?_, hdrMark_lwmpPrepareChunk _, ?_⟩
  · rw [length_lwmpPrepareChunk within filled]
    exact Nat.le_add_right _ _
  · rw [length_lwmpPrepareChunk within filled, chunkSize_lwmpPrepareChunk within filled]

/-- What the server puts on the stream of a client. -/
def ServerFrame (frame : Bytes) : Prop := PduFrame frame ∨ ChunkFrame frame

instance (frame : Bytes) : Decidable (PduFrame frame) :=
  decidable_of_iff (lwmpHdrSize ≤ frame.length ∧ LwmpPdu.hdrMark frame = pduSyncHdrMark ∧
      LwmpPdu.crcMatches frame = true ∧ frame.length = lwmpHdrSize + wirePayload frame)
    ⟨fun fields => ⟨fields.1, fields.2.1, fields.2.2.1, fields.2.2.2⟩,
      fun pdu => ⟨pdu.header, pdu.mark, pdu.crc, pdu.whole⟩⟩

instance (frame : Bytes) : Decidable (ChunkFrame frame) :=
  decidable_of_iff (lwmpChunkHdrSize ≤ frame.length ∧
      LwmpChunk.chHdrMark frame = chunkSyncHdrMark ∧
      frame.length = lwmpChunkHdrSize + LwmpChunk.chunkSize frame)
    ⟨fun fields => ⟨fields.1, fields.2.1, fields.2.2⟩,
      fun chunk => ⟨chunk.header, chunk.mark, chunk.whole⟩⟩

instance (frame : Bytes) : Decidable (ServerFrame frame) := inferInstanceAs (Decidable (_ ∨ _))

section Frames

variable {frame more recvBuf tail : Bytes}

theorem ChunkFrame.not_pdu (chunk : ChunkFrame frame) : LwmpPdu.hdrMark frame ≠ pduSyncHdrMark := by
  have mark : LwmpPdu.hdrMark frame = chunkSyncHdrMark := chunk.mark
  rw [mark]
  decide

theorem ServerFrame.length_pos (server : ServerFrame frame) : 4 ≤ frame.length := by
  rcases server with pdu | chunk
  · have header := pdu.header
    simp only [lwmpHdrSize] at header
    omega
  · have header := chunk.header
    simp only [lwmpChunkHdrSize] at header
    omega

theorem hdrMark_of_four (four : 4 ≤ recvBuf.length) :
    LwmpPdu.hdrMark (recvBuf ++ tail) = LwmpPdu.hdrMark recvBuf := by
  rw [LwmpPdu.hdrMark, slice_append_left (by omega), LwmpPdu.hdrMark]

theorem chunkSize_append (header : lwmpChunkHdrSize ≤ recvBuf.length) :
    LwmpChunk.chunkSize (recvBuf ++ tail) = LwmpChunk.chunkSize recvBuf := by
  simp only [lwmpChunkHdrSize] at header
  rw [LwmpChunk.chunkSize, slice_append_left (by omega), LwmpChunk.chunkSize]

theorem wirePayload_append (header : lwmpHdrSize ≤ recvBuf.length) :
    wirePayload (recvBuf ++ tail) = wirePayload recvBuf := by
  rw [wirePayload, LwmpPdu.msgType_append header, LwmpPdu.totalMsgSize_append header, wirePayload]

/-- A turn that finds the whole header of a PDU. -/
theorem clrecvTurn_pdu (header : lwmpHdrSize ≤ recvBuf.length)
    (mark : LwmpPdu.hdrMark recvBuf = pduSyncHdrMark) (crc : LwmpPdu.crcMatches recvBuf = true) :
    clrecvTurn recvBuf =
      if recvBuf.length < (lwmpHdrSize + wirePayload recvBuf) % 2 ^ 64 then .wait
      else .pdu (wirePayload recvBuf) ((lwmpHdrSize + wirePayload recvBuf) % 2 ^ 64) := by
  have four : ¬ recvBuf.length < 4 := by
    simp only [lwmpHdrSize] at header
    omega
  rw [clrecvTurn, if_neg four, if_pos mark, if_neg (not_lt.mpr header), crc, if_neg (by simp)]
  rfl

/-- A turn that finds the whole header of a chunk. -/
theorem clrecvTurn_chunk (header : lwmpChunkHdrSize ≤ recvBuf.length)
    (noPdu : LwmpPdu.hdrMark recvBuf ≠ pduSyncHdrMark)
    (mark : LwmpChunk.chHdrMark recvBuf = chunkSyncHdrMark) :
    clrecvTurn recvBuf =
      if recvBuf.length < lwmpChunkHdrSize + LwmpChunk.chunkSize recvBuf then .wait
      else .chunk (lwmpChunkHdrSize + LwmpChunk.chunkSize recvBuf) := by
  have four : ¬ recvBuf.length < 4 := by
    simp only [lwmpChunkHdrSize] at header
    omega
  rw [clrecvTurn, if_neg four, if_neg noPdu, if_pos mark, if_neg (not_lt.mpr header)]

/-- The decoder waits as long as it has a part of a frame. -/
theorem ServerFrame.turn_part (server : ServerFrame (recvBuf ++ tail)) (unfinished : tail ≠ [])
    (small : (recvBuf ++ tail).length < 2 ^ 64) : clrecvTurn recvBuf = .wait := by
  have longer : recvBuf.length < (recvBuf ++ tail).length := by
    rw [List.length_append]
    have some := List.length_pos_iff.mpr unfinished
    omega
  by_cases four : recvBuf.length < 4
  · rw [clrecvTurn, if_pos four]
  · have kept := @hdrMark_of_four recvBuf tail (not_lt.mp four)
    rcases server with pdu | chunk
    · have mark : LwmpPdu.hdrMark recvBuf = pduSyncHdrMark := kept ▸ pdu.mark
      by_cases header : recvBuf.length < lwmpHdrSize
      · rw [clrecvTurn, if_neg four, if_pos mark, if_pos header]
      · have header := not_lt.mp header
        have crc : LwmpPdu.crcMatches recvBuf = true := LwmpPdu.crcMatches_append header ▸ pdu.crc
        have whole := pdu.whole
        rw [wirePayload_append header] at whole
        rw [clrecvTurn_pdu header mark crc, Nat.mod_eq_of_lt (by omega), if_pos (by omega)]
    · have mark : LwmpChunk.chHdrMark recvBuf = chunkSyncHdrMark := kept.symm.trans chunk.mark
      have noPdu : LwmpPdu.hdrMark recvBuf ≠ pduSyncHdrMark := kept ▸ chunk.not_pdu
      by_cases header : recvBuf.length < lwmpChunkHdrSize
      · rw [clrecvTurn, if_neg four, if_neg noPdu, if_pos mark, if_pos header]
      · have header := not_lt.mp header
        have whole := chunk.whole
        rw [chunkSize_append header] at whole
        rw [clrecvTurn_chunk header noPdu mark, if_pos (by omega)]

/-- A PDU at the start of the buffer is found whole, whatever lies behind it. -/
theorem PduFrame.turn (pdu : PduFrame frame) (small : frame.length < 2 ^ 64) :
    clrecvTurn (frame ++ more) = .pdu (wirePayload frame) frame.length := by
  have header : lwmpHdrSize ≤ (frame ++ more).length :=
    pdu.header.trans (by rw [List.length_append]; omega)
  have whole := pdu.whole
  rw [clrecvTurn_pdu header (by rw [LwmpPdu.hdrMark_append pdu.header]; exact pdu.mark)
    (by rw [LwmpPdu.crcMatches_append pdu.header]; exact pdu.crc), wirePayload_append pdu.header,
    ← whole, Nat.mod_eq_of_lt (by omega), if_neg (by rw [List.length_append]; omega)]

/-- So is a chunk. -/
theorem ChunkFrame.turn (chunk : ChunkFrame frame) :
    clrecvTurn (frame ++ more) = .chunk frame.length := by
  have four : 4 ≤ frame.length := ServerFrame.length_pos (.inr chunk)
  have kept := @hdrMark_of_four frame more four
  have header : lwmpChunkHdrSize ≤ (frame ++ more).length :=
    chunk.header.trans (by rw [List.length_append]; omega)
  have mark : LwmpChunk.chHdrMark (frame ++ more) = chunkSyncHdrMark := kept.trans chunk.mark
  rw [clrecvTurn_chunk header (kept ▸ chunk.not_pdu) mark, chunkSize_append chunk.header,
    ← chunk.whole, if_neg (by rw [List.length_append]; omega)]

end Frames

/-! ### One turn of the decoder -/

/-- `process_received_pdu` is about to write the end of an empty text behind its PDU, where the next
frame lies. -/
def OverwritesNext (recvBuf : Bytes) : Prop :=
  clrecvTurn recvBuf = .pdu 0 lwmpHdrSize ∧ LwmpPdu.msgType recvBuf = MsgType.msg.code ∧
    lwmpHdrSize < recvBuf.length

instance (recvBuf : Bytes) : Decidable (OverwritesNext recvBuf) :=
  inferInstanceAs (Decidable (_ ∧ _))

/-- What `process_received_pdu` leaves of the buffer: it puts a NUL at the end of a text. -/
inductive Terminated (recvBuf : Bytes) (payloadSize : Nat) : Bytes → Prop
  | kept : Terminated recvBuf payloadSize recvBuf
  | last (some : 0 < payloadSize) :
      Terminated recvBuf payloadSize (recvBuf.set (lwmpHdrSize + (payloadSize - 1)) 0)
  | first (text : LwmpPdu.msgType recvBuf = MsgType.msg.code) :
      Terminated recvBuf payloadSize (recvBuf.set lwmpHdrSize 0)

theorem printServerResp_terminated (recvBuf : Bytes) (payloadSize respCode : Nat) :
    Terminated recvBuf payloadSize (printServerResp recvBuf payloadSize respCode) := by
  rw [printServerResp]
  split
  · exact .kept
  · split
    · rename_i fits
      exact .last fits.1
    · exact .kept

theorem processReceivedPdu_terminated (ctx : ClientCtx) (payloadSize : Nat) :
    Terminated ctx.recvBuf payloadSize (processReceivedPdu ctx payloadSize).recvBuf ∧
      (processReceivedPdu ctx payloadSize).connection = ctx.connection ∧
      (processReceivedPdu ctx payloadSize).connected = ctx.connected := by
  simp only [processReceivedPdu]
  split
  · rename_i text
    split
    · rename_i fits
      exact ⟨.last fits.1, rfl, rfl⟩
    · exact ⟨.first text, rfl, rfl⟩
  · split
    · exact ⟨printServerResp_terminated _ _ _, rfl, rfl⟩
    · split
      · split
        · exact ⟨.kept, rfl, rfl⟩
        · exact ⟨printServerResp_terminated _ _ _, rfl, rfl⟩
      · exact ⟨.kept, rfl, rfl⟩

theorem Terminated.length {recvBuf after : Bytes} {payloadSize : Nat}
    (terminated : Terminated recvBuf payloadSize after) : after.length = recvBuf.length := by
  cases terminated with
  | kept => rfl
  | last some => exact List.length_set
  | first text => exact List.length_set

/-- A PDU is processed without a change behind it, except for an empty text message. -/
theorem Terminated.drop {recvBuf after : Bytes} {payloadSize : Nat}
    (terminated : Terminated recvBuf payloadSize after)
    (harmless : LwmpPdu.msgType recvBuf = MsgType.msg.code → payloadSize = 0 →
      recvBuf.length ≤ lwmpHdrSize) :
    after.drop (lwmpHdrSize + payloadSize) = recvBuf.drop (lwmpHdrSize + payloadSize) := by
  cases terminated with
  | kept => rfl
  | last some => exact List.drop_set_of_lt (by omega)
  | first text =>
    by_cases empty : payloadSize = 0
    · rw [List.set_eq_of_length_le (harmless text empty)]
    · exact List.drop_set_of_lt (by omega)

/-- A frame at the start of the buffer is handed over, and what lies behind it moves to the start. -/
theorem ServerFrame.step {ctx : ClientCtx} {frame more : Bytes} (server : ServerFrame frame)
    (small : frame.length < 2 ^ 64) (held : ctx.recvBuf = frame ++ more)
    (safe : ¬ OverwritesNext ctx.recvBuf) :
    ∃ next, clrecvStep ctx = some (.frame frame, next) ∧ next.recvBuf = more ∧
      next.connection = ctx.connection ∧ next.connected = ctx.connected := by
  have front : ctx.recvBuf.take frame.length = frame := by rw [held, List.take_left]
  have back : ctx.recvBuf.drop frame.length = more := by rw [held, List.drop_left]
  rcases server with pdu | chunk
  · have turn : clrecvTurn ctx.recvBuf = .pdu (wirePayload frame) frame.length := by
      rw [held]
      exact pdu.turn small
    have whole := pdu.whole
    have harmless : LwmpPdu.msgType ctx.recvBuf = MsgType.msg.code → wirePayload frame = 0 →
        ctx.recvBuf.length ≤ lwmpHdrSize := by
      intro text empty
      by_contra behind
      rw [empty, Nat.add_zero] at whole
      exact safe ⟨by rw [turn, empty, whole], text, not_le.mp behind⟩
    obtain ⟨terminated, connection, connected⟩ :=
      processReceivedPdu_terminated ctx (wirePayload frame)
    have kept := terminated.drop harmless
    rw [← whole] at kept
    have step : clrecvStep ctx = some (.frame frame,
        { processReceivedPdu ctx (wirePayload frame) with
          recvBuf := (processReceivedPdu ctx (wirePayload frame)).recvBuf.drop frame.length }) := by
      rw [clrecvStep, turn]
      simp only [front]
    exact ⟨_, step, kept.trans back, connection, connected⟩
  · have step : clrecvStep ctx = some (.frame frame,
        { ctx with recvBuf := ctx.recvBuf.drop frame.length }) := by
      rw [clrecvStep, held, chunk.turn, ← held]
      simp only [front]
    exact ⟨_, step, back, rfl, rfl⟩

/-! ### Runs of the decoder -/

/-- The states in which `clrecv_parse` begins a turn. -/
inductive ClrecvVisits : ClientCtx → ClientCtx → Prop
  | here {ctx} : ClrecvVisits ctx ctx
  | later {ctx next visited handled} (step : clrecvStep ctx = some (handled, next))
      (visits : ClrecvVisits next visited) : ClrecvVisits ctx visited

/-- No turn of a call of `clrecv_parse` writes behind the PDU it processes. -/
def ParsesSafely (ctx : ClientCtx) : Prop :=
  ∀ visited, ClrecvVisits ctx visited → ¬ OverwritesNext visited.recvBuf

/-- The buffer holds the start of the next frame and not all of it. -/
def Incomplete (recvBuf : Bytes) : List Bytes → Prop
  | [] => recvBuf = []
  | frame :: _ => recvBuf <+: frame ∧ recvBuf.length < frame.length

/-- A stream is cut behind its first frame or inside it. -/
theorem cut_of_append {recvBuf incoming frame rest : Bytes}
    (stream : recvBuf ++ incoming = frame ++ rest) :
    (∃ more, recvBuf = frame ++ more ∧ more ++ incoming = rest) ∨
      ∃ tail, tail ≠ [] ∧ frame = recvBuf ++ tail := by
  rcases List.append_eq_append_iff.mp stream with ⟨tail, equal, later⟩ | ⟨more, held, later⟩
  · by_cases whole : tail = []
    · rw [whole] at equal later
      exact .inl ⟨[], by simp [equal], by simpa using later⟩
    · exact .inr ⟨tail, whole, equal⟩
  · exact .inl ⟨more, held, later.symm⟩

/-- A call of `clrecv_parse` hands over the frames that are complete, and it leaves the start of the
next one. -/
theorem clrecvParseTurns_frames {turns : Nat} {ctx : ClientCtx} {left : List Bytes}
    (enough : ctx.recvBuf.length < turns)
    (server : ∀ frame ∈ left, ServerFrame frame ∧ frame.length < 2 ^ 64)
    (stream : ctx.recvBuf ++ ctx.connection.incoming = left.flatten) (safe : ParsesSafely ctx) :
    ∃ done rest next, left = done ++ rest ∧
      clrecvParseTurns turns ctx = some (done.map .frame, next) ∧
      next.recvBuf ++ next.connection.incoming = rest.flatten ∧
      next.connected = ctx.connected ∧ Incomplete next.recvBuf rest := by
  induction turns generalizing ctx left with
  | zero => omega
  | succ turns inductionHypothesis =>
    cases left with
    | nil =>
      have empty : ctx.recvBuf = [] := (List.append_eq_nil_iff.mp stream).1
      have ends : clrecvStep ctx = none := by
        rw [clrecvStep, empty]
        rfl
      refine ⟨[], [], ctx, rfl, ?_, stream, rfl, empty⟩
      rw [clrecvParseTurns, ends]
      rfl
    | cons frame left =>
      obtain ⟨first, small⟩ := server frame List.mem_cons_self
      rw [List.flatten_cons] at stream
      rcases cut_of_append stream with ⟨more, held, later⟩ | ⟨tail, unfinished, equal⟩
      · obtain ⟨next, step, rest, connection, connected⟩ :=
          first.step small held (safe ctx .here)
        have shorter : next.recvBuf.length < turns := by
          have long := first.length_pos
          rw [held, List.length_append] at enough
          rw [rest]
          omega
        rw [← rest, ← connection] at later
        obtain ⟨done, left, last, split, parse, stream, same, incomplete⟩ :=
          inductionHypothesis shorter (fun frame member => server frame (List.mem_cons_of_mem _ member))
            later fun visited visits => safe visited (.later step visits)
        refine ⟨frame :: done, left, last, by rw [split, List.cons_append], ?_, stream,
          same.trans connected, incomplete⟩
        rw [clrecvParseTurns, step]
        simp only [parse, Option.map_some, List.map_cons]
      · subst equal
        have waits := first.turn_part unfinished small
        have ends : clrecvStep ctx = none := by rw [clrecvStep, waits]
        refine ⟨[], _, ctx, rfl, ?_, by rw [stream, List.flatten_cons], rfl,
          List.prefix_append _ _, ?_⟩
        · rw [clrecvParseTurns, ends]
          rfl
        · rw [List.length_append]
          have some := List.length_pos_iff.mpr unfinished
          omega

/-- What happens on the receiving side of a client that is connected: it reads, it decodes, and its
commands begin and end to wait for a response or to send a file. The decoder's calls are kept. -/
inductive ClrecvRun (start : ClientCtx) : List ClientCtx → List Handled → ClientCtx → Prop
  | start : ClrecvRun start [] [] start
  | fill {parsed handled ctx} (run : ClrecvRun start parsed handled ctx) (live : ctx.connected = true) :
      ClrecvRun start parsed handled (clrecvFill ctx).2
  | parse {parsed handled ctx more next} (run : ClrecvRun start parsed handled ctx)
      (call : clrecvParse ctx = some (more, next)) :
      ClrecvRun start (parsed ++ [ctx]) (handled ++ more) next
  | command {parsed handled ctx} (awaitingResp sendingChunks transferError : Bool)
      (run : ClrecvRun start parsed handled ctx) :
      ClrecvRun start parsed handled { ctx with awaitingResp, sendingChunks, transferError }

/-- A client that was just connected to a server which will send it some frames. -/
structure ReadsFrames (start : ClientCtx) (frames : List Bytes) : Prop where
  live : start.connected = true
  empty : start.recvBuf = []
  stream : start.connection.incoming = frames.flatten
  server : ∀ frame ∈ frames, ServerFrame frame ∧ frame.length ≤ recvBufSize

/-- The same for frames that the client may have no room for. -/
structure ReadsServer (start : ClientCtx) (frames : List Bytes) : Prop where
  live : start.connected = true
  empty : start.recvBuf = []
  stream : start.connection.incoming = frames.flatten
  server : ∀ frame ∈ frames, ServerFrame frame ∧ frame.length < 2 ^ 64

theorem ReadsFrames.readsServer {start : ClientCtx} {frames : List Bytes}
    (reads : ReadsFrames start frames) : ReadsServer start frames := by
  refine ⟨reads.live, reads.empty, reads.stream, fun frame member => ?_⟩
  obtain ⟨frame, small⟩ := reads.server frame member
  exact ⟨frame, small.trans_lt (by decide)⟩

/-- The frames up to one place were handed over, unchanged, once each and in order, and nothing else
was; the others are in the buffer and on their way. -/
structure InStep (frames : List Bytes) (handled : List Handled) (ctx : ClientCtx)
    (left : List Bytes) : Prop where
  handed : ∃ done, frames = done ++ left ∧ handled = done.map .frame
  stream : ctx.connected = true → ctx.recvBuf ++ ctx.connection.incoming = left.flatten
  gone : ctx.connected = false → ctx.recvBuf = []

theorem clrecvFill_fills : Fills
    (fun recvBuf : Bytes =>
      if recvBuf.length < recvBufSize then some (recvBufSize - recvBuf.length) else none)
    (fun recvBuf bytes => recvBuf ++ bytes) (fun recvBuf => recvBufSize - recvBuf.length)
    (fun _ => True) where
  wanted_eq := by
    intro recvBuf _
    by_cases space : recvBuf.length < recvBufSize
    · rw [if_pos space, if_neg (by omega)]
    · rw [if_neg space, if_pos (by omega)]
  received_nil := fun _ _ => List.append_nil _
  received_append := fun _ _ _ _ => List.append_assoc _ _ _
  room_received := by
    intro recvBuf bytes _ _
    rw [List.length_append]
    omega
  good_received := fun _ _ _ _ => trivial

/-- `clrecv_fill` moves bytes from the connection to the end of the buffer, or it disconnects. -/
theorem InStep.fill {frames left : List Bytes} {handled : List Handled} {ctx : ClientCtx}
    (inStep : InStep frames handled ctx left) (live : ctx.connected = true) :
    InStep frames handled (clrecvFill ctx).2 left := by
  obtain ⟨bytes, filled⟩ := clrecvFill_fills.recvWhile ctx.connection ctx.recvBuf trivial
  have stream := inStep.stream live
  rw [filled.receives.incoming] at stream
  rw [clrecvFill]
  split
  · exact ⟨inStep.handed, fun dead => by simp at dead, fun _ => rfl⟩
  · refine ⟨inStep.handed, fun _ => ?_, fun dead => by simp [live] at dead⟩
    simp only [filled.state_eq, List.append_assoc]
    exact stream
  · refine ⟨inStep.handed, fun _ => ?_, fun dead => by simp [live] at dead⟩
    simp only [filled.state_eq, List.append_assoc]
    exact stream

theorem clrecvParse_of_empty {ctx : ClientCtx} (empty : ctx.recvBuf = []) :
    clrecvParse ctx = some ([], ctx) := by
  have ends : clrecvStep ctx = none := by
    rw [clrecvStep, empty]
    rfl
  rw [clrecvParse, clrecvParseTurns, ends]

/-- What a call of `clrecv_parse` does in step with the stream. -/
theorem InStep.parse {frames left : List Bytes} {handled : List Handled} {ctx : ClientCtx}
    (server : ∀ frame ∈ frames, ServerFrame frame ∧ frame.length < 2 ^ 64)
    (inStep : InStep frames handled ctx left) (safe : ParsesSafely ctx) :
    ∃ more next rest, clrecvParse ctx = some (more, next) ∧
      InStep frames (handled ++ more) next rest ∧
      (next.connected = true → Incomplete next.recvBuf rest) := by
  obtain ⟨before, equal, same⟩ := inStep.handed
  cases live : ctx.connected with
  | false =>
    refine ⟨[], ctx, left, clrecvParse_of_empty (inStep.gone live), ?_, fun on => ?_⟩
    · rw [List.append_nil]
      exact inStep
    · rw [live] at on
      cases on
  | true =>
    obtain ⟨done, rest, next, split, parse, stream, connected, incomplete⟩ :=
      clrecvParseTurns_frames (Nat.lt_succ_self _)
        (fun frame member => server frame (equal ▸ List.mem_append_right before member))
        (inStep.stream live) safe
    refine ⟨_, next, rest, parse, ⟨⟨before ++ done, ?_, ?_⟩, fun _ => stream, fun dead => ?_⟩,
      fun _ => incomplete⟩
    · rw [equal, split, List.append_assoc]
    · rw [same, List.map_append]
    · rw [connected, live] at dead
      cases dead

theorem ClrecvRun.inStep {start ctx : ClientCtx} {frames : List Bytes} {parsed : List ClientCtx}
    {handled : List Handled} (reads : ReadsServer start frames)
    (run : ClrecvRun start parsed handled ctx) (safe : ∀ visited ∈ parsed, ParsesSafely visited) :
    ∃ left, InStep frames handled ctx left := by
  induction run with
  | start =>
    refine ⟨frames, ⟨[], rfl, rfl⟩, fun _ => ?_, fun dead => ?_⟩
    · rw [reads.empty, reads.stream, List.nil_append]
    · rw [reads.live] at dead
      cases dead
  | fill run live inductionHypothesis =>
    obtain ⟨left, inStep⟩ := inductionHypothesis safe
    exact ⟨left, inStep.fill live⟩
  | @parse parsed handled ctx more next run call inductionHypothesis =>
    obtain ⟨left, inStep⟩ :=
      inductionHypothesis fun visited member => safe visited (List.mem_append_left _ member)
    have last := safe ctx (List.mem_append_right _ (List.mem_singleton_self _))
    obtain ⟨_, _, rest, result, parsed, _⟩ := inStep.parse reads.server last
    rw [result] at call
    obtain ⟨rfl, rfl⟩ := Prod.mk.inj (Option.some.inj call)
    exact ⟨rest, parsed⟩
  | command awaitingResp sendingChunks transferError run inductionHypothesis =>
    obtain ⟨left, inStep⟩ := inductionHypothesis safe
    exact ⟨left, inStep.handed, inStep.stream, inStep.gone⟩

/-- In every run in which no call of `clrecv_parse` writes behind a PDU, the client hands over exactly
the frames of the server, never resynchronises, and every further such call returns and leaves only
the start of the next frame. -/
theorem clrecv_inverts_frames {start ctx : ClientCtx} {frames : List Bytes}
    {parsed : List ClientCtx} {handled : List Handled} (reads : ReadsFrames start frames)
    (run : ClrecvRun start parsed handled ctx) (safe : ∀ visited ∈ parsed, ParsesSafely visited) :
    (∃ left, InStep frames handled ctx left) ∧
      (ParsesSafely ctx → ∃ more next rest, clrecvParse ctx = some (more, next) ∧
        InStep frames (handled ++ more) next rest ∧
        (next.connected = true → Incomplete next.recvBuf rest)) := by
  obtain ⟨left, inStep⟩ := run.inStep reads.readsServer safe
  exact ⟨⟨left, inStep⟩, inStep.parse reads.readsServer.server⟩

/-- All turns of a call are run, and none of them writes behind its PDU. -/
def parsesSafelyTurns : Nat → ClientCtx → Bool
  | 0, _ => false
  | turns + 1, ctx =>
    decide (¬ OverwritesNext ctx.recvBuf) &&
      match clrecvStep ctx with
      | none => true
      | some (_, next) => parsesSafelyTurns turns next

theorem parsesSafely_of_turns {turns : Nat} {ctx : ClientCtx}
    (safe : parsesSafelyTurns turns ctx = true) : ParsesSafely ctx := by
  induction turns generalizing ctx with
  | zero => cases safe
  | succ turns inductionHypothesis =>
    obtain ⟨here, later⟩ := (Bool.and_eq_true _ _).mp safe
    intro visited visits
    cases visits with
    | here => exact of_decide_eq_true here
    | later step visits =>
      rw [step] at later
      exact inductionHypothesis later visited visits

/-- A text message without a text, as the server forwards it. -/
def emptyText : Bytes :=
  lwmpHdr MsgType.msg.code (strncpy unamesize (ofLiteral "bob")) (List.replicate optdataLen 0) 0

/-- A response without a text. -/
def okResponse : Bytes := (responseNode .info (respCodes .ok) none).buf

theorem emptyText_pduFrame : PduFrame emptyText := by
  constructor <;> decide +kernel

theorem okResponse_pduFrame : PduFrame okResponse := by
  constructor <;> decide +kernel

/-- A client whose server sends some frames, which arrive as the events say. -/
def readingClient (frames : List Bytes) (recvEvents : List NetEvent) : ClientCtx where
  connection :=
    { incoming := frames.flatten
      recvEvents
      recvAfter := .eblock
      accepted := []
      sendEvents := []
      sendAfter := .eblock }
  connected := true
  recvBuf := []
  awaitingResp := false
  lastRespCode := 0
  sendingChunks := false
  transferError := false

theorem readingClient_reads {frames : List Bytes} (recvEvents : List NetEvent)
    (server : ∀ frame ∈ frames, ServerFrame frame ∧ frame.length ≤ recvBufSize) :
    ReadsFrames (readingClient frames recvEvents) frames :=
  ⟨rfl, rfl, rfl, server⟩

/-- A response behind an empty text message is lost where both arrive together. -/
theorem clrecv_loses_frame : ∃ start frames parsed handled ctx, ReadsFrames start frames ∧
    ClrecvRun start parsed handled ctx ∧ ¬ ∃ left, InStep frames handled ctx left := by
  have reads := @readingClient_reads [emptyText, okResponse] [.upTo 200] (by
    intro frame member
    rcases List.mem_pair.mp member with rfl | rfl
    · exact ⟨.inl emptyText_pduFrame, by decide +kernel⟩
    · exact ⟨.inl okResponse_pduFrame, by decide +kernel⟩)
  have parse : (clrecvParse (clrecvFill
      (readingClient [emptyText, okResponse] [.upTo 200])).2).map (·.1) =
        some [.frame emptyText, .resync] := by
    decide +kernel
  obtain ⟨⟨handled, next⟩, call, rfl⟩ := Option.map_eq_some_iff.mp parse
  refine ⟨_, _, _, _, _, reads, (ClrecvRun.start.fill rfl).parse call, fun ⟨left, inStep⟩ => ?_⟩
  obtain ⟨done, _, same⟩ := inStep.handed
  have resynced : Handled.resync ∈ done.map Handled.frame := by
    rw [← same]
    simp
  obtain ⟨frame, _, wrong⟩ := List.mem_map.mp resynced
  cases wrong

/-- A text message with a text, as the server forwards it. -/
def helloText : Bytes :=
  lwmpHdr MsgType.msg.code (strncpy unamesize (ofLiteral "bob")) (List.replicate optdataLen 0) 2 ++
    [104, 105]

/-- A client that reads a response and a part of a text first, and then the rest. -/
def interruptedClient : ClientCtx :=
  readingClient [okResponse, helloText, emptyText] [.upTo 89, .failure .eblock, .upTo 299]

theorem interruptedClient_reads : ReadsFrames interruptedClient [okResponse, helloText, emptyText] :=
  readingClient_reads _ fun frame member => by
    have hello : PduFrame helloText := by constructor <;> decide +kernel
    simp only [List.mem_cons, List.not_mem_nil, or_false] at member
    rcases member with rfl | rfl | rfl
    · exact ⟨.inl okResponse_pduFrame, by decide +kernel⟩
    · exact ⟨.inl hello, by decide +kernel⟩
    · exact ⟨.inl emptyText_pduFrame, by decide +kernel⟩

/-- What it has read and not handed over behind its first call of `clrecv_parse`. -/
def interruptedClientLeft : ClientCtx :=
  { (clrecvFill interruptedClient).2 with recvBuf := helloText.take 9 }

/-- Its two calls of `clrecv_parse` hand over the response, and then both texts. -/
theorem clrecv_inverts_frames_three_frames : ∃ parsed ctx,
    ClrecvRun interruptedClient parsed
      ([.frame okResponse] ++ [.frame helloText, .frame emptyText]) ctx ∧
    ∃ left, InStep [okResponse, helloText, emptyText]
      ([.frame okResponse] ++ [.frame helloText, .frame emptyText]) ctx left := by
  have first : clrecvParse (clrecvFill interruptedClient).2 =
      some ([.frame okResponse], interruptedClientLeft) := by
    decide +kernel
  have second : (clrecvParse (clrecvFill interruptedClientLeft).2).map (·.1) =
      some [.frame helloText, .frame emptyText] := by
    decide +kernel
  obtain ⟨⟨handled, next⟩, call, rfl⟩ := Option.map_eq_some_iff.mp second
  have begun : ClrecvRun interruptedClient ([] ++ [(clrecvFill interruptedClient).2])
      ([] ++ [.frame okResponse]) interruptedClientLeft :=
    .parse (.fill .start rfl) first
  have run := (begun.fill (by decide +kernel)).parse call
  refine ⟨_, _, run, (clrecv_inverts_frames interruptedClient_reads run fun visited member => ?_).1⟩
  rcases List.mem_pair.mp member with same | same
  · rw [same]
    exact @parsesSafely_of_turns 2 _ (by decide +kernel)
  · rw [same]
    exact @parsesSafely_of_turns 3 _ (by decide +kernel)

end Lwmsg
