/-
This file is about what the server loses when a stream gets out of step. It has two
parts. A header with a wrong checksum takes all the bytes with it that were read
behind it: the buffer is emptied before the stream is searched for the next header.
And a search that finds no mark empties the buffer too, so a mark whose bytes are
read by two calls is lost, and with it the PDU behind it.
-/

import Lwmsg.StopReading
import Lwmsg.Forwarding
import Lwmsg.Resync

namespace Lwmsg

open Bytes Pointers

/-! ### A client that is out of step -/

/-- A connection on which nothing more arrives and nothing fails. -/
structure Conn.Silent (connection : Conn) : Prop where
  nothing : connection.incoming = []
  clean : connection.NeverFails

theorem Conn.Silent.receives {before after : Conn} {bytes : Bytes} (silent : before.Silent)
    (receives : before.Receives bytes after) : bytes = [] ∧ after.Silent := by
  have incoming := receives.incoming
  rw [silent.nothing] at incoming
  obtain ⟨none, rest⟩ := List.append_eq_nil_iff.mp incoming.symm
  exact ⟨none, rest, receives.neverFails silent.clean⟩

theorem lwmpStreamResync_nil : lwmpStreamResync [] = [] := by decide

/-- Out of step and in silence, the branch leaves without a header. -/
theorem inboundResync_silent {stdcl : StdClient} (out : stdcl.tempRecvStorage = .desynced)
    (silent : stdcl.connection.Silent) : ∃ connection, connection.Silent ∧
      inboundResync stdcl = .leave .notResynced (stdcl.withRecv connection .desynced) := by
  have resynced := inboundResync_resynced out
  generalize inboundResync stdcl = stage at resynced ⊢
  cases resynced with
  | located receives within kept =>
    obtain ⟨rfl, _⟩ := silent.receives receives
    exact absurd lwmpStreamResync_nil kept
  | lost receives => exact ⟨_, (silent.receives receives).2, rfl⟩
  | failed receives fails => exact absurd silent.clean fails

/-- So a call reads no header, and it leaves the client as it was. -/
theorem wtHandleInboundData_silent (env : InboundEnv) {stdcl : StdClient}
    (out : stdcl.tempRecvStorage = .desynced) (silent : stdcl.connection.Silent) :
    pduRead stdcl = none ∧ (wtHandleInboundData env stdcl).stdcl.tempRecvStorage = .desynced ∧
      (wtHandleInboundData env stdcl).stdcl.connection.Silent := by
  obtain ⟨connection, still, leaves⟩ := inboundResync_silent out silent
  unfold pduRead wtHandleInboundData
  rw [leaves]
  split
  · exact ⟨rfl, out, silent⟩
  · exact ⟨rfl, rfl, still⟩

/-! ### Buffered PDUs behind a corrupt header -/

/-- A PDU is processed by one of the calls that follow, also where nothing more arrives. -/
def ProcessedAfterwards (stdcl : StdClient) (pdu : Bytes) : Prop :=
  ∀ (connection : Conn) (schedule : DrainSchedule), connection.Silent → connection.NeverBreaks →
    ∃ turn behind, pduRead (drainClient schedule { stdcl with connection } turn) =
      some (pdu ++ behind)

/-- Every complete PDU that starts later in a buffer is processed by a call that follows. -/
def BufferedPdusSurvive (buf : Bytes) (stdcl : StdClient) : Prop :=
  ∀ before pdu behind, buf = before ++ pdu ++ behind → before ≠ [] → PduFrame pdu →
    ProcessedAfterwards stdcl pdu

/-- A client that is out of step has nothing left to process. -/
theorem not_processedAfterwards {stdcl : StdClient} (out : stdcl.tempRecvStorage = .desynced)
    (pdu : Bytes) : ¬ ProcessedAfterwards stdcl pdu := by
  intro processed
  let silence : Conn := ⟨[], [], .eblock, [], [], .eblock⟩
  have silent : silence.Silent := ⟨rfl, rfl, by simp [silence]⟩
  obtain ⟨turn, behind, read⟩ := processed silence quietSchedule silent ⟨rfl, by simp [silence]⟩
  have stays (turn : Nat) :
      (drainClient quietSchedule { stdcl with connection := silence } turn).tempRecvStorage =
          .desynced ∧
        (drainClient quietSchedule { stdcl with connection := silence } turn).connection.Silent := by
    induction turn with
    | zero => exact ⟨out, silent⟩
    | succ turn inductionHypothesis =>
      exact (wtHandleInboundData_silent everyoneIsHere inductionHypothesis.1
        inductionHypothesis.2).2
  rw [(wtHandleInboundData_silent everyoneIsHere (stays turn).1 (stays turn).2).1] at read
  cases read

/-- A call that reads a header with a wrong checksum leaves its client out of step, with an empty
buffer. -/
theorem wtHandleInboundData_corrupt {env : InboundEnv} {stdcl : StdClient} {buf : Bytes}
    (waiting : stdcl.tempRecvStorage.Waiting) (read : pduRead stdcl = some buf)
    (ready : (CurrRecvMsg.opened buf).pduReady) (corrupt : env.verdict buf = .crcerr) :
    (wtHandleInboundData env stdcl).stdcl.tempRecvStorage = .desynced := by
  have called := wtHandleInboundData_called env stdcl waiting
  have known {other : Bytes} (same : pduRead stdcl = some other) : other = buf :=
    Option.some.inj (same.symm.trans read)
  have something {other : Prop} (unread : pduRead stdcl = none) : other := by
    rw [read] at unread
    cases unread
  generalize wtHandleInboundData env stdcl = result at called ⊢
  cases called with
  | disconnected gone => exact something (by rw [pduRead, if_pos gone])
  | recvError receives fails unread => exact something unread
  | notResynced receives out unread => exact something unread
  | pduBlocked receives first waiting kept unread => exact something unread
  | chunkBlocked receives begun short unread => exact something unread
  | notComplete receives read header space overflows kept =>
    obtain rfl := known read
    simp only [CurrRecvMsg.pduReady, CurrRecvMsg.opened_expectedMsgSize,
      CurrRecvMsg.opened_totalMsgDataRecved, CurrRecvMsg.opened_recvbuf, lwmpHdrSize,
      lwmpMaxPduSize] at ready space overflows
    omega
  | pdu receives read header within ready kept delivered =>
    obtain rfl := known read
    cases delivered with
    | rejected refused keeps left =>
      rw [left, corrupt]
      rfl
    | served accepted request keeps left =>
      rw [corrupt] at accepted
      cases accepted
    | unreachable accepted message gone keeps left =>
      rw [corrupt] at accepted
      cases accepted
    | forwarded accepted message found keeps left =>
      rw [corrupt] at accepted
      cases accepted
  | chunk receives begun full unread delivered => exact something unread

/-- The PDUs behind a header with a wrong checksum survive exactly where there are none. -/
theorem corrupt_header_keeps_buffered_iff {env : InboundEnv} {stdcl : StdClient} {buf : Bytes}
    (waiting : stdcl.tempRecvStorage.Waiting) (read : pduRead stdcl = some buf)
    (ready : (CurrRecvMsg.opened buf).pduReady) (corrupt : env.verdict buf = .crcerr) :
    BufferedPdusSurvive buf (wtHandleInboundData env stdcl).stdcl ↔
      ∀ before pdu behind, buf = before ++ pdu ++ behind → before ≠ [] → ¬ PduFrame pdu := by
  have out := wtHandleInboundData_corrupt waiting read ready corrupt
  constructor
  · intro survive before pdu behind split later complete
    exact not_processedAfterwards out pdu (survive before pdu behind split later complete)
  · intro none before pdu behind split later complete
    exact absurd complete (none before pdu behind split later)

/-- A header that announces a PDU behind it, and whose checksum is wrong. -/
def corruptText : Bytes :=
  LwmpPdu.setTotalMsgSize emptyMessage lwmpHdrSize

/-- A client that sends the corrupt header and a complete PDU behind it. -/
def corruptClient : StdClient :=
  let stdcl := sendingClient (corruptText ++ emptyMessage)
  { stdcl with connection := { stdcl.connection with
      recvEvents := List.replicate 2 (.upTo (lwmpMaxPduSize - 1)) } }

theorem corruptClient_session : ReceivingSession corruptClient := ⟨rfl, rfl⟩

theorem corruptClient_waiting : corruptClient.tempRecvStorage.Waiting := by
  rw [corruptClient_session.fresh]
  exact CurrRecvMsg.waiting_fresh

theorem corruptClient_read : pduRead corruptClient = some (corruptText ++ emptyMessage) := by
  decide +kernel

theorem corruptClient_verdict : everyoneIsHere.verdict (corruptText ++ emptyMessage) = .crcerr := by
  decide +kernel

theorem emptyMessage_pduFrame : PduFrame emptyMessage := by
  constructor <;> decide +kernel

/-- The server reads a complete PDU behind a corrupt header and loses it. The client hands the same
PDU over, from the same bytes. -/
theorem corrupt_header_drops_buffered : ∃ (env : InboundEnv) (stdcl : StdClient) (buf : Bytes),
    ReceivingSession stdcl ∧ pduRead stdcl = some buf ∧ (CurrRecvMsg.opened buf).pduReady ∧
      env.verdict buf = .crcerr ∧
      ¬ BufferedPdusSurvive buf (wtHandleInboundData env stdcl).stdcl ∧
      ∃ after, clrecvParse { readingClient [] [] with recvBuf := buf } =
        some ([.resync, .frame emptyMessage], after) := by
  have ready : (CurrRecvMsg.opened (corruptText ++ emptyMessage)).pduReady := by decide +kernel
  have parse : (clrecvParse { readingClient [] [] with recvBuf := corruptText ++ emptyMessage }).map
      (·.1) = some [.resync, .frame emptyMessage] := by decide +kernel
  obtain ⟨⟨handled, after⟩, parsed, rfl⟩ := Option.map_eq_some_iff.mp parse
  refine ⟨everyoneIsHere, corruptClient, _, corruptClient_session, corruptClient_read, ready,
    corruptClient_verdict, fun survive => ?_, after, parsed⟩
  have out := wtHandleInboundData_corrupt corruptClient_waiting corruptClient_read ready
    corruptClient_verdict
  refine not_processedAfterwards out emptyMessage
    (survive corruptText emptyMessage [] (List.append_nil _).symm ?_ emptyMessage_pduFrame)
  decide +kernel

/-- The buffer of that client holds a complete PDU, so not all of its PDUs survive. -/
theorem corrupt_header_keeps_buffered_iff_corruptClient :
    ¬ BufferedPdusSurvive (corruptText ++ emptyMessage)
      (wtHandleInboundData everyoneIsHere corruptClient).stdcl := by
  rw [corrupt_header_keeps_buffered_iff corruptClient_waiting corruptClient_read (by decide +kernel)
    corruptClient_verdict]
  intro none
  exact none corruptText emptyMessage [] (List.append_nil _).symm (by decide +kernel)
    emptyMessage_pduFrame

/-! ### Where the mark lies -/

section Search

variable {garbage pdu part bytes : Bytes}

/-- The first byte of the mark does not come again in it. -/
theorem beHdrMark_unbordered {front back : Bytes} (split : beHdrMark = front ++ back)
    (some : front ≠ []) : back.head? ≠ beHdrMark.head? := by
  have place : back.head? = beHdrMark[front.length]? := by
    rw [split, List.getElem?_append_right le_rfl, Nat.sub_self, List.head?_eq_getElem?]
  have positive := List.length_pos_iff.mpr some
  rw [place, beHdrMark_eq]
  generalize front.length = count at positive
  rcases count with _ | _ | _ | _ | more
  · cases positive
  · decide
  · decide
  · decide
  · simp

/-- So a mark that begins in front of a PDU ends in front of it. -/
theorem not_markAt_append (clean : ∀ offset, ¬ MarkAt garbage offset) (starts : part <+: pdu)
    (marked : beHdrMark <+: pdu) {offset : Nat} (before : offset < garbage.length) :
    ¬ MarkAt (garbage ++ part) offset := by
  rintro ⟨rest, mark⟩
  rw [List.drop_append_of_le_length before.le] at mark
  have some : garbage.drop offset ≠ [] := by
    rw [← List.length_pos_iff, List.length_drop]
    omega
  rcases List.append_eq_append_iff.mp mark with ⟨tail, equal, _⟩ | ⟨tail, split, held⟩
  · exact clean offset ⟨tail, equal.symm⟩
  · cases tail with
    | nil => exact clean offset ⟨[], by rw [split, List.append_nil, List.append_nil]⟩
    | cons byte tail =>
      obtain ⟨more, rfl⟩ := starts
      refine beHdrMark_unbordered split some ?_
      obtain ⟨behind, same⟩ := marked
      have heads := congrArg List.head? same
      rw [held, beHdrMark_eq] at heads
      rw [beHdrMark_eq]
      exact heads.symm

theorem FirstPlausible.resync {stream : Bytes} {offset : Nat} (found : FirstPlausible stream offset) :
    lwmpStreamResync stream = stream.drop offset := by
  rcases lwmpStreamResync_first stream with ⟨nowhere, _⟩ | ⟨other, first, kept⟩
  · exact absurd found.accepted (nowhere offset found.mark)
  · rcases Nat.lt_trichotomy other offset with less | same | more
    · exact absurd first.accepted (found.first other less first.mark)
    · rw [kept, same]
    · exact absurd found.accepted (first.first offset more found.mark)

/-- A search that ends in front of a whole mark keeps nothing. -/
theorem lwmpStreamResync_lost (clean : ∀ offset, ¬ MarkAt garbage offset) (starts : part <+: pdu)
    (marked : beHdrMark <+: pdu) (short : part.length < beHdrMark.length) :
    lwmpStreamResync (garbage ++ part) = [] := by
  rcases lwmpStreamResync_first (garbage ++ part) with ⟨_, nothing⟩ | ⟨offset, first, _⟩
  · exact nothing
  · by_cases before : offset < garbage.length
    · exact absurd first.mark (not_markAt_append clean starts marked before)
    · have fits := first.mark.length_le
      rw [List.length_drop, List.length_append] at fits
      omega

/-- A search that comes behind the mark keeps the stream from the PDU on. -/
theorem lwmpStreamResync_located (clean : ∀ offset, ¬ MarkAt garbage offset) (starts : part <+: pdu)
    (marked : beHdrMark <+: pdu) (long : beHdrMark.length ≤ part.length)
    (valid : Plausible part) : lwmpStreamResync (garbage ++ part) = part := by
  have located : FirstPlausible (garbage ++ part) garbage.length := by
    refine ⟨?_, ?_, fun earlier before mark => ?_⟩
    · rw [MarkAt, List.drop_left]
      exact List.prefix_of_prefix_length_le marked starts long
    · rw [List.drop_left]
      exact valid
    · exact absurd mark (not_markAt_append clean starts marked before)
  rw [located.resync, List.drop_left]

end Search

/-! ### Runs that get back in step -/

/-- A text message with a header of the right layout, which fits into one PDU. -/
structure ClientMsg.Text (msg : ClientMsg) : Prop where
  text : msg.msgType = .msg
  sendable : msg.Sendable
  fits : msg.payload.length ≤ lwmpPduBufSize

/-- A client that is out of step, to which some bytes without a mark arrive and behind them a text
message, and nothing else. -/
structure RecoveryStart (start : StdClient) (garbage : Bytes) (msg : ClientMsg) : Prop where
  out : start.tempRecvStorage = .desynced
  reliable : Reliable start
  clean : ∀ offset, ¬ MarkAt garbage offset
  text : msg.Text
  stream : start.connection.incoming = garbage ++ msg.wire

/-- The calls up to this one have read the first bytes of the mark and not all of it. -/
def SplitsMark (start : StdClient) (garbage : Bytes) (result : InboundResult) : Prop :=
  let read := start.connection.incoming.length - result.stdcl.connection.incoming.length
  garbage.length < read ∧ read < garbage.length + beHdrMark.length

section Recovery

variable {rcpt : ClientMsg → Addr} {msg : ClientMsg} {garbage : Bytes} {start stdcl : StdClient}
  {log : List InboundResult} {env : InboundEnv}

theorem ClientMsg.Text.bytes (text : msg.Text) : (RecvUnit.pdu msg).bytes = msg.wire := by
  rw [RecvUnit.bytes, List.take_of_length_le text.fits, ClientMsg.wire]

theorem ClientMsg.marked (msg : ClientMsg) : beHdrMark <+: msg.wire := by
  simp only [ClientMsg.wire, ClientMsg.hdr, lwmpHdr, lwmpHdrCovered, List.append_assoc]
  exact List.prefix_append _ _

theorem ClientMsg.Text.length_wire (text : msg.Text) :
    msg.wire.length = lwmpHdrSize + msg.payload.length := by
  rw [ClientMsg.wire, List.length_append, text.sendable.length_hdr]

/-- The start of a text message may be a header. -/
theorem ClientMsg.Text.isPlausible (text : msg.Text) {part : Bytes} (starts : part <+: msg.wire) :
    Plausible part := by
  by_cases header : lwmpHdrSize ≤ part.length
  · right
    obtain ⟨rest, whole⟩ := starts
    rw [← LwmpPdu.crcMatches_append header, whole]
    exact crcMatches_lwmpHdr text.sendable.subject text.sendable.optional
  · exact .inl (not_le.mp header)

/-! ### One call -/

/-- No call makes more of the bytes that are left. -/
theorem Called.shrinks {result : InboundResult} (called : Called env stdcl result)
    (reliable : Reliable stdcl) :
    result.stdcl.connection.incoming.length ≤ stdcl.connection.incoming.length ∧
      bytesLeft result.stdcl ≤ bytesLeft stdcl := by
  have shrunk {after : StdClient} {connection : Conn} {bytes : Bytes}
      (receives : stdcl.connection.Receives bytes connection)
      (incoming : after.connection.incoming = connection.incoming)
      (kept : after.tempRecvStorage.recvbuf.length ≤
        stdcl.tempRecvStorage.recvbuf.length + bytes.length) :
      after.connection.incoming.length ≤ stdcl.connection.incoming.length ∧
        bytesLeft after ≤ bytesLeft stdcl := by
    have received := receives.length
    rw [bytesLeft, bytesLeft, incoming]
    omega
  cases called with
  | disconnected gone => exact ⟨le_rfl, le_rfl⟩
  | recvError receives fails unread => exact absurd reliable.receives fails
  | notResynced receives out unread => exact shrunk receives rfl (Nat.zero_le _)
  | pduBlocked receives first waiting kept unread => exact shrunk receives rfl kept
  | chunkBlocked receives begun short unread =>
    exact shrunk receives rfl List.length_append.le
  | notComplete receives read header space overflows kept => exact shrunk receives rfl kept
  | @pdu bytes connection buf result receives read header within ready kept delivered =>
    have emptied (msg : CurrRecvMsg) : ({ msg with recvbuf := [] }.afterPdu).recvbuf.length ≤
        stdcl.tempRecvStorage.recvbuf.length + bytes.length := by
      rw [recvbuf_afterPdu_nil]
      exact Nat.zero_le _
    cases delivered with
    | rejected refused keeps left =>
      exact shrunk receives keeps.incoming (by rw [left]; exact Nat.zero_le _)
    | served accepted request keeps left =>
      refine shrunk receives keeps.incoming ?_
      rw [left, CurrRecvMsg.afterPdu]
      split
      · exact Nat.zero_le _
      · exact kept
    | unreachable accepted message gone keeps left =>
      exact shrunk receives keeps.incoming (by rw [left]; exact Nat.zero_le _)
    | forwarded accepted message found keeps left =>
      exact shrunk receives keeps.incoming (by rw [left]; exact emptied _)
  | @chunk bytes connection result receives begun full unread delivered =>
    cases delivered with
    | unreachable gone keeps left =>
      exact shrunk receives keeps.incoming (by rw [left]; exact Nat.zero_le _)
    | forwarded found keeps left =>
      refine shrunk receives keeps.incoming ?_
      rw [left, recvbuf_afterChunk_nil]
      exact Nat.zero_le _

/-- A connection that does not fail stays so, and the client keeps its name. -/
theorem Called.reliable {result : InboundResult} (called : Called env stdcl result)
    (reliable : Reliable stdcl) :
    Reliable result.stdcl ∧ result.stdcl.username = stdcl.username := by
  cases called with
  | disconnected gone => exact ⟨reliable, rfl⟩
  | recvError receives fails unread => exact absurd reliable.receives fails
  | notResynced receives out unread => exact ⟨reliable.withRecv receives _, rfl⟩
  | pduBlocked receives first waiting kept unread => exact ⟨reliable.withRecv receives _, rfl⟩
  | chunkBlocked receives begun short unread => exact ⟨reliable.withRecv receives _, rfl⟩
  | notComplete receives read header space overflows kept =>
    exact ⟨reliable.withRecv receives _, rfl⟩
  | pdu receives read header within ready kept delivered =>
    exact ⟨(reliable.withRecv receives _).keepsRecv delivered.keeps, delivered.keeps.username⟩
  | chunk receives begun full unread delivered =>
    exact ⟨(reliable.withRecv receives _).keepsRecv delivered.keeps, delivered.keeps.username⟩

/-- With fewer bytes than the message has, no call forwards it. -/
theorem Called.forwarded_ne {result : InboundResult} {addr : Addr} {username : Bytes}
    (called : Called env stdcl result) (text : msg.Text) (few : bytesLeft stdcl < msg.wire.length) :
    result.forwarded ≠ some (addr, msg.forwardedPdu username) := by
  have target : (msg.forwardedPdu username).buf.length = msg.wire.length := by
    rw [ClientMsg.forwardedPdu, List.length_append, List.take_of_length_le text.fits,
      length_lwmpHdr (length_strncpy _ _) text.sendable.optional, text.length_wire]
  cases called with
  | disconnected gone => simp
  | recvError receives fails unread => simp
  | notResynced receives out unread => simp
  | pduBlocked receives first waiting kept unread => simp
  | chunkBlocked receives begun short unread => simp
  | notComplete receives read header space overflows kept => simp
  | pdu receives read header within ready kept delivered =>
    cases delivered with
    | rejected refused keeps left => simp
    | served accepted request keeps left => simp
    | unreachable accepted message gone keeps left => simp
    | forwarded accepted message found keeps left =>
      intro same
      have lengths := congrArg (fun node => node.2.buf.length) (Option.some.inj same)
      have received := receives.length
      simp only [length_forwardNode header, target] at lengths
      rw [bytesLeft] at few
      omega
  | chunk receives begun full unread delivered =>
    cases delivered with
    | unreachable gone keeps left => simp
    | forwarded found keeps left =>
      intro same
      have marks := congrArg (fun node => LwmpPdu.hdrMark node.2.buf) (Option.some.inj same)
      have pduMark : LwmpPdu.hdrMark (msg.forwardedPdu username).buf = pduSyncHdrMark :=
        hdrMark_lwmpHdr
      have chunkMark (recvbuf name : Bytes) :
          LwmpPdu.hdrMark (chunkNode recvbuf name).buf = chunkSyncHdrMark :=
        hdrMark_lwmpPrepareChunk _
      simp only [pduMark, chunkMark] at marks
      cases marks

/-- What a call does to a client that is out of step: it drops what it has read, which does not hold
the whole mark, or it goes on with the message. -/
inductive DesyncedCalled (rcpt : ClientMsg → Addr) (stdcl : StdClient) (garbage : Bytes)
    (msg : ClientMsg) : InboundResult → Prop
  | drops {read connection} (receives : stdcl.connection.Receives read connection)
      (short : read.length < garbage.length + beHdrMark.length) :
      DesyncedCalled rcpt stdcl garbage msg
        ⟨.notResynced, stdcl.withRecv connection .desynced, [], none⟩
  | locates {result} (far : result.stdcl.connection.incoming.length + beHdrMark.length ≤
        msg.wire.length)
      (called : UnitCalled rcpt stdcl (.pdu msg) [] result) :
      DesyncedCalled rcpt stdcl garbage msg result

/-- A call that goes on behind the mark waits for the rest of the message or forwards it. -/
theorem unitCalled_located {part bytes : Bytes} {connection : Conn} (text : msg.Text)
    (accepts : env.Accepts rcpt msg) (reliable : Reliable stdcl)
    (receives : stdcl.connection.Receives bytes connection)
    (within : part.length ≤ lwmpMaxPduSize) (long : beHdrMark.length ≤ part.length)
    (stream : msg.wire = part ++ connection.incoming) {result : InboundResult}
    (call : result = (inboundRecvPdu (stdcl.withRecv connection (.idle part))).andThen
      (inboundDeliverPdu env)) :
    DesyncedCalled rcpt stdcl garbage msg result := by
  have lengths := congrArg List.length stream
  rw [List.length_append] at lengths
  have comes := @FirstPdu.comes (stdcl.withRecv connection (.idle part)) (RecvUnit.pdu msg).bytes
    part [] text.sendable.firstPdu (.idle within) (by rw [text.bytes]; omega)
    (by rw [text.bytes, List.append_nil]; exact stream.symm)
  rw [call]
  generalize inboundRecvPdu (stdcl.withRecv connection (.idle part)) = stage at comes
  cases comes with
  | @waits more after receivesMore short stream =>
    have received := receivesMore.length
    simp only [withRecv_connection] at received
    refine .locates ?_ (.waits (reliable.withRecv (receives.trans receivesMore) _) rfl rfl short
      stream)
    show after.incoming.length + _ ≤ _
    omega
  | fails receivesMore fails =>
    exact absurd (receives.neverFails reliable.receives) fails
  | @comes more after receivesMore rest =>
    have delivered := inboundDeliverPdu_delivered env
      (stdcl.withRecv after (.opened (RecvUnit.pdu msg).bytes)) _ rfl
    rw [InboundStage.andThen, withRecv_withRecv]
    generalize inboundDeliverPdu env _ = result at delivered ⊢
    refine .locates ?_ (unitCalled_delivered text.sendable accepts reliable
      (receives.trans receivesMore) rest delivered)
    rw [delivered.keeps.incoming, withRecv_connection, rest, List.length_nil]
    omega

theorem desyncedCalled (text : msg.Text) (accepts : env.Accepts rcpt msg)
    (reliable : Reliable stdcl) (out : stdcl.tempRecvStorage = .desynced)
    (clean : ∀ offset, ¬ MarkAt garbage offset)
    (stream : stdcl.connection.incoming = garbage ++ msg.wire) :
    DesyncedCalled rcpt stdcl garbage msg (wtHandleInboundData env stdcl) := by
  have present : stdcl.clState ≠ .disconnected := by simp [reliable.live]
  rcases inboundResync_search out with ⟨read, connection, receives, within, searched⟩ |
    ⟨_, _, _, _, fails, _⟩
  · have cut : read ++ connection.incoming = garbage ++ msg.wire := by
      rw [← stream, receives.incoming]
    have drops (nothing : lwmpStreamResync read = [])
        (short : read.length < garbage.length + beHdrMark.length) :
        DesyncedCalled rcpt stdcl garbage msg (wtHandleInboundData env stdcl) := by
      rw [wtHandleInboundData, if_neg present, searched, if_pos nothing]
      exact .drops receives short
    rcases List.append_eq_append_iff.mp cut with ⟨tail, split, _⟩ | ⟨part, held, rest⟩
    · -- the call has read garbage and nothing else
      have front : ∀ offset, ¬ MarkAt read offset := by
        intro offset mark
        refine clean offset (mark.trans ?_)
        rw [split, List.drop_append]
        exact List.prefix_append _ _
      refine drops ?_ ?_
      · have lost := lwmpStreamResync_lost front List.nil_prefix msg.marked (by decide)
        rwa [List.append_nil] at lost
      · rw [split, List.length_append, beHdrMark_eq, List.length_cons]
        omega
    · have starts : part <+: msg.wire := by
        rw [rest]
        exact List.prefix_append _ _
      have length : read.length = garbage.length + part.length := by
        rw [held, List.length_append]
      by_cases long : beHdrMark.length ≤ part.length
      · have located := lwmpStreamResync_located clean starts msg.marked long (text.isPlausible starts)
        have some : part ≠ [] := by
          rintro rfl
          rw [beHdrMark_eq] at long
          cases long
        rw [held, located, if_neg some] at searched
        refine unitCalled_located text accepts reliable receives (by omega) long rest ?_
        rw [wtHandleInboundData, if_neg present, searched, InboundStage.andThen]
        simp only [withRecv_tempRecvStorage, CurrRecvMsg.idle_notMsgInitPdu, Bool.false_eq_true,
          not_false_eq_true, if_true]
      · refine drops ?_ (by omega)
        rw [held]
        exact lwmpStreamResync_lost clean starts msg.marked (not_le.mp long)
  · exact absurd reliable.receives fails

/-! ### The run -/

/-- The message as it is handed to its recipient. -/
def ClientMsg.handed (msg : ClientMsg) (rcpt : ClientMsg → Addr) (username : Bytes) :
    Addr × MpscMsgNode :=
  (rcpt msg, msg.forwardedPdu username)

/-- Where a run is: it searches the rest of the garbage, it has a part of the message, it has
forwarded the message, or it has lost it. -/
inductive RecoveryPhase (rcpt : ClientMsg → Addr) (start : StdClient) (garbage : Bytes)
    (msg : ClientMsg) (log : List InboundResult) (stdcl : StdClient) : Prop
  | searching {dropped left} (split : garbage = dropped ++ left)
      (out : stdcl.tempRecvStorage = .desynced)
      (stream : stdcl.connection.incoming = left ++ msg.wire)
      (quiet : log.filterMap (·.forwarded) = [])
      (whole : ∀ result ∈ log, ¬ SplitsMark start garbage result)
  | arriving {part} (held : stdcl.tempRecvStorage = (RecvUnit.pdu msg).partly part)
      (short : part.length < (RecvUnit.pdu msg).bytes.length)
      (stream : part ++ stdcl.connection.incoming = (RecvUnit.pdu msg).bytes ++ [])
      (far : stdcl.connection.incoming.length + beHdrMark.length ≤ msg.wire.length)
      (quiet : log.filterMap (·.forwarded) = [])
      (whole : ∀ result ∈ log, ¬ SplitsMark start garbage result)
  | forwarded (fresh : stdcl.tempRecvStorage = .fresh) (empty : stdcl.connection.incoming = [])
      (handed : log.filterMap (·.forwarded) = [msg.handed rcpt start.username])
      (whole : ∀ result ∈ log, ¬ SplitsMark start garbage result)
  | lost (few : bytesLeft stdcl < msg.wire.length)
      (absent : msg.handed rcpt start.username ∉ log.filterMap (·.forwarded))
      (split : ∃ result ∈ log, SplitsMark start garbage result)

/-- What a run keeps. -/
structure RecoveryRun (rcpt : ClientMsg → Addr) (start : StdClient) (garbage : Bytes)
    (msg : ClientMsg) (log : List InboundResult) (stdcl : StdClient) : Prop where
  reliable : Reliable stdcl
  waiting : stdcl.tempRecvStorage.Waiting
  username : stdcl.username = start.username
  phase : RecoveryPhase rcpt start garbage msg log stdcl

theorem RecoveryPhase.between {before after : StdClient}
    (phase : RecoveryPhase rcpt start garbage msg log before)
    (between : BetweenReliable before after) :
    RecoveryPhase rcpt start garbage msg log after := by
  cases phase with
  | searching split out stream quiet whole =>
    exact .searching split (between.storage.trans out) (between.incoming.trans stream) quiet whole
  | arriving held short stream far quiet whole =>
    refine .arriving (between.storage.trans held) short ?_ ?_ quiet whole
    · rw [between.incoming]
      exact stream
    · rw [between.incoming]
      exact far
  | forwarded fresh empty handed whole =>
    exact .forwarded (between.storage.trans fresh) (between.incoming.trans empty) handed whole
  | lost few absent split =>
    refine .lost ?_ absent split
    rw [bytesLeft, between.incoming, between.storage]
    exact few

/-- A call behind the mark does not split it. -/
theorem not_splitsMark_of_far {result : InboundResult} (begun : RecoveryStart start garbage msg)
    (far : result.stdcl.connection.incoming.length + beHdrMark.length ≤ msg.wire.length) :
    ¬ SplitsMark start garbage result := by
  have all := congrArg List.length begun.stream
  rw [List.length_append] at all
  rw [SplitsMark]
  omega

/-- The log of a run goes on with a call that forwards nothing. -/
theorem filterMap_quiet {log : List InboundResult} {result : InboundResult}
    (none : result.forwarded = none) :
    (log ++ [result]).filterMap (·.forwarded) = log.filterMap (·.forwarded) := by
  rw [List.filterMap_append, List.filterMap_cons_none none, List.filterMap_nil, List.append_nil]

theorem forall_mem_concat {log : List InboundResult} {result : InboundResult}
    {Good : InboundResult → Prop} (before : ∀ earlier ∈ log, Good earlier) (last : Good result) :
    ∀ earlier ∈ log ++ [result], Good earlier := by
  intro earlier member
  rcases List.mem_append.mp member with old | new
  · exact before earlier old
  · rw [List.mem_singleton.mp new]
    exact last

/-- What a call with a part of the message, or behind the mark, makes of the run. -/
theorem RecoveryPhase.unitCalled {result : InboundResult} (begun : RecoveryStart start garbage msg)
    (username : stdcl.username = start.username)
    (quiet : log.filterMap (·.forwarded) = [])
    (whole : ∀ result ∈ log, ¬ SplitsMark start garbage result)
    (far : result.stdcl.connection.incoming.length + beHdrMark.length ≤ msg.wire.length)
    (called : UnitCalled rcpt stdcl (.pdu msg) [] result) :
    Reliable result.stdcl ∧ result.stdcl.username = start.username ∧
      RecoveryPhase rcpt start garbage msg (log ++ [result]) result.stdcl := by
  have unsplit := forall_mem_concat whole (not_splitsMark_of_far begun far)
  cases called with
  | waits reliable name held short stream =>
    refine ⟨reliable, name.trans username, .arriving held short stream far ?_ unsplit⟩
    rw [filterMap_quiet rfl, quiet]
  | forwards reliable name held stream =>
    refine ⟨reliable, name.trans username, .forwarded ?_ stream ?_ unsplit⟩
    · have fits := begun.text.fits
      rw [held, RecvUnit.after, RecvUnit.boundary, if_pos (Nat.min_eq_left fits)]
    · rw [List.filterMap_append, quiet, username]
      rfl

/-- What a call makes of the run that drops what it has read. -/
theorem RecoveryPhase.drops {dropped left read : Bytes} {connection : Conn}
    (begun : RecoveryStart start garbage msg) (split : garbage = dropped ++ left)
    (stream : stdcl.connection.incoming = left ++ msg.wire)
    (quiet : log.filterMap (·.forwarded) = [])
    (whole : ∀ result ∈ log, ¬ SplitsMark start garbage result)
    (receives : stdcl.connection.Receives read connection)
    (short : read.length < left.length + beHdrMark.length) :
    RecoveryPhase rcpt start garbage msg
      (log ++ [⟨.notResynced, stdcl.withRecv connection .desynced, [], none⟩])
      (stdcl.withRecv connection .desynced) := by
  have cut : read ++ connection.incoming = left ++ msg.wire := by
    rw [← stream, receives.incoming]
  have total := congrArg List.length begun.stream
  have lengths := congrArg List.length cut
  have parts := congrArg List.length split
  simp only [List.length_append] at total lengths parts
  by_cases inside : read.length ≤ left.length
  · obtain ⟨rest, rfl, same⟩ : ∃ rest, left = read ++ rest ∧
        connection.incoming = rest ++ msg.wire := by
      rcases List.append_eq_append_iff.mp cut with ⟨rest, first, second⟩ | ⟨more, first, second⟩
      · exact ⟨rest, first, second⟩
      · have none : more = [] := by
          rw [first, List.length_append] at inside
          exact List.eq_nil_of_length_eq_zero (by omega)
        rw [none] at first second
        exact ⟨[], by simp [first], second.symm⟩
    have longer : garbage = (dropped ++ read) ++ rest := by rw [split, List.append_assoc]
    refine .searching longer rfl same ?_ ?_
    · rw [filterMap_quiet rfl, quiet]
    · refine forall_mem_concat whole fun splits => ?_
      simp only [SplitsMark, withRecv_connection] at splits
      omega
  · refine .lost ?_ ?_ ⟨_, List.mem_append_right _ (List.mem_singleton_self _), ?_⟩
    · rw [bytesLeft, withRecv_tempRecvStorage, CurrRecvMsg.desynced_recvbuf, List.length_nil,
        withRecv_connection]
      omega
    · rw [filterMap_quiet rfl, quiet]
      exact List.not_mem_nil
    · simp only [SplitsMark, withRecv_connection]
      omega

/-- A call keeps it. -/
theorem RecoveryRun.call (begun : RecoveryStart start garbage msg)
    (run : RecoveryRun rcpt start garbage msg log stdcl) (accepts : env.Accepts rcpt msg) :
    RecoveryRun rcpt start garbage msg (log ++ [wtHandleInboundData env stdcl])
      (wtHandleInboundData env stdcl).stdcl := by
  have reliable := run.reliable
  have reading : Reading (wtHandleInboundData env stdcl).stdcl :=
    Reading.call (.inr ⟨reliable.live, run.waiting⟩) env
  have called := wtHandleInboundData_called env stdcl run.waiting
  have shrinks := called.shrinks reliable
  have kept : Reliable (wtHandleInboundData env stdcl).stdcl ∧
      (wtHandleInboundData env stdcl).stdcl.username = start.username ∧
      RecoveryPhase rcpt start garbage msg (log ++ [wtHandleInboundData env stdcl])
        (wtHandleInboundData env stdcl).stdcl := by
    cases run.phase with
    | @searching dropped left split out stream quiet whole =>
      have clean : ∀ offset, ¬ MarkAt left offset := by
        intro offset mark
        refine begun.clean (dropped.length + offset) ?_
        rw [MarkAt, split, ← List.drop_drop, List.drop_left]
        exact mark
      have desynced : DesyncedCalled rcpt stdcl left msg (wtHandleInboundData env stdcl) :=
        desyncedCalled begun.text accepts reliable out clean stream
      generalize wtHandleInboundData env stdcl = result at desynced ⊢
      cases desynced with
      | drops receives short =>
        exact ⟨reliable.withRecv receives _, run.username,
          .drops begun split stream quiet whole receives short⟩
      | locates far called => exact RecoveryPhase.unitCalled begun run.username quiet whole far called
    | arriving held short stream far quiet whole =>
      exact RecoveryPhase.unitCalled begun run.username quiet whole (by omega)
        (unitCalled_pdu begun.text.sendable accepts reliable held short stream)
    | forwarded fresh empty handed whole =>
      obtain ⟨exit, after, result, still, name, ahead⟩ :=
        @unitCalled_nothing env _ reliable fresh empty
      rw [result]
      refine ⟨still, name.trans run.username, .forwarded ahead.1 ahead.2 ?_ ?_⟩
      · rw [filterMap_quiet rfl, handed]
      · refine forall_mem_concat whole (not_splitsMark_of_far begun ?_)
        rw [ahead.2, begun.text.length_wire, beHdrMark_eq]
        exact le_trans (by decide) (Nat.le_add_right lwmpHdrSize _)
    | lost few absent split =>
      obtain ⟨still, name⟩ := called.reliable reliable
      obtain ⟨earlier, member, splits⟩ := split
      refine ⟨still, name.trans run.username, .lost (shrinks.2.trans_lt few) ?_
        ⟨earlier, List.mem_append_left _ member, splits⟩⟩
      rw [List.filterMap_append, List.mem_append, not_or]
      refine ⟨absent, fun now => ?_⟩
      obtain ⟨result, last, forwards⟩ := List.mem_filterMap.mp now
      rw [List.mem_singleton.mp last] at forwards
      exact called.forwarded_ne begun.text few forwards
  refine ⟨kept.1, ?_, kept.2.1, kept.2.2⟩
  rcases reading with gone | ⟨_, waiting⟩
  · rw [kept.1.live] at gone
    cases gone
  · exact waiting

theorem ForwardRun.recovery (begun : RecoveryStart start garbage msg)
    (run : ForwardRun rcpt [msg] start log stdcl) :
    RecoveryRun rcpt start garbage msg log stdcl := by
  induction run with
  | start =>
    exact ⟨begun.reliable, begun.out ▸ .desynced, rfl,
      .searching (List.nil_append garbage).symm begun.out begun.stream rfl
        fun _ none => absurd none List.not_mem_nil⟩
  | between run between inductionHypothesis =>
    exact ⟨between.reliable, between.storage ▸ inductionHypothesis.waiting,
      between.username.trans inductionHypothesis.username, inductionHypothesis.phase.between between⟩
  | call env run accepts inductionHypothesis =>
    exact inductionHypothesis.call begun (accepts msg (List.mem_singleton_self _))

/-- When all bytes have been read, the message was handed to its recipient exactly if no call has
split the mark. -/
theorem ForwardRun.handed_iff (begun : RecoveryStart start garbage msg)
    (run : ForwardRun rcpt [msg] start log stdcl) (all : stdcl.connection.incoming = []) :
    msg.handed rcpt start.username ∈ log.filterMap (·.forwarded) ↔
      ∀ result ∈ log, ¬ SplitsMark start garbage result := by
  cases (run.recovery begun).phase with
  | searching split out stream quiet whole =>
    have length := congrArg List.length stream
    rw [all, List.length_append, begun.text.length_wire, lwmpHdrSize, List.length_nil] at length
    omega
  | arriving held short stream far quiet whole =>
    have length := congrArg List.length stream
    rw [all, List.append_nil, List.append_nil] at length
    omega
  | forwarded fresh empty handed whole =>
    refine iff_of_true ?_ whole
    rw [handed]
    exact List.mem_singleton_self _
  | lost few absent split =>
    obtain ⟨result, member, splits⟩ := split
    exact iff_of_false absent fun whole => whole result member splits

end Recovery

/-- Two runs that get the same bytes, cut in two ways: the message is forwarded in both exactly if
neither cuts through the mark at the end of a call. -/
theorem recovery_independent_of_cuts_iff {rcpt : ClientMsg → Addr} {msg : ClientMsg}
    {garbage : Bytes} {first second firstEnd secondEnd : StdClient}
    {firstLog secondLog : List InboundResult} (firstStart : RecoveryStart first garbage msg)
    (secondStart : RecoveryStart second garbage msg)
    (firstRun : ForwardRun rcpt [msg] first firstLog firstEnd)
    (secondRun : ForwardRun rcpt [msg] second secondLog secondEnd)
    (firstAll : firstEnd.connection.incoming = []) (secondAll : secondEnd.connection.incoming = []) :
    msg.handed rcpt first.username ∈ firstLog.filterMap (·.forwarded) ∧
        msg.handed rcpt second.username ∈ secondLog.filterMap (·.forwarded) ↔
      (∀ result ∈ firstLog, ¬ SplitsMark first garbage result) ∧
        ∀ result ∈ secondLog, ¬ SplitsMark second garbage result :=
  and_congr (firstRun.handed_iff firstStart firstAll) (secondRun.handed_iff secondStart secondAll)

/-- A text of two bytes. -/
def greeting : ClientMsg :=
  ⟨.msg, strncpy unamesize (ofLiteral "bob"), List.replicate optdataLen 0, [104, 105]⟩

theorem greeting_text : greeting.Text :=
  ⟨rfl, ⟨.inl rfl, by decide +kernel, by decide, by decide⟩, by decide⟩

theorem greeting_accepted : everyoneIsHere.Accepts (fun _ => 1) greeting :=
  ⟨by decide +kernel, by decide +kernel⟩

/-- A client that is out of step, to which one byte and that text arrive. -/
def recoveringClient (recvEvents : List NetEvent) : StdClient :=
  let stdcl := sendingClient (0 :: greeting.wire)
  { stdcl with
    tempRecvStorage := .desynced
    connection := { stdcl.connection with recvEvents, sendEvents := [.upTo 99] } }

/-- A client whose bytes all arrive at once, one that gets three of them before the others, and one
that gets ten. -/
def atOnce : StdClient := recoveringClient [.upTo 99, .upTo 99]

def threeFirst : StdClient := recoveringClient [.upTo 2, .failure .eblock, .upTo 99, .upTo 99]

def tenFirst : StdClient := recoveringClient [.upTo 9, .failure .eblock, .upTo 99, .upTo 99]

theorem recoveryStart_greeting {recvEvents : List NetEvent}
    (clean : .failure .error ∉ recvEvents) :
    RecoveryStart (recoveringClient recvEvents) [0] greeting where
  out := rfl
  reliable := ⟨rfl, ⟨rfl, clean⟩, ⟨rfl, by simp [recoveringClient]⟩⟩
  clean := by
    rintro offset mark
    have fits := mark.length_le
    rw [beHdrMark_eq, List.length_drop] at fits
    simp only [List.length_cons, List.length_nil] at fits
    omega
  text := greeting_text
  stream := rfl

/-- The calls of a run. -/
def recoveryCall (stdcl : StdClient) : InboundResult := wtHandleInboundData everyoneIsHere stdcl

theorem forwardRun_one (stdcl : StdClient) : ForwardRun (fun _ => 1) [greeting] stdcl
    [recoveryCall stdcl] (recoveryCall stdcl).stdcl :=
  ForwardRun.start.call everyoneIsHere fun msg member => by
    rw [List.mem_singleton.mp member]
    exact greeting_accepted

theorem forwardRun_two (stdcl : StdClient) : ForwardRun (fun _ => 1) [greeting] stdcl
    [recoveryCall stdcl, recoveryCall (recoveryCall stdcl).stdcl]
    (recoveryCall (recoveryCall stdcl).stdcl).stdcl :=
  (forwardRun_one stdcl).call everyoneIsHere fun msg member => by
    rw [List.mem_singleton.mp member]
    exact greeting_accepted

/-- The text is forwarded where its bytes arrive at once, and lost where the first two bytes of its
mark arrive before the others. -/
theorem recovery_depends_on_cuts : ∃ (rcpt : ClientMsg → Addr) (msg : ClientMsg) (garbage : Bytes)
    (first second firstEnd secondEnd : StdClient) (firstLog secondLog : List InboundResult),
    RecoveryStart first garbage msg ∧ RecoveryStart second garbage msg ∧
    ForwardRun rcpt [msg] first firstLog firstEnd ∧
    ForwardRun rcpt [msg] second secondLog secondEnd ∧
    firstEnd.connection.incoming = [] ∧ secondEnd.connection.incoming = [] ∧
    msg.handed rcpt first.username ∈ firstLog.filterMap (·.forwarded) ∧
    msg.handed rcpt second.username ∉ secondLog.filterMap (·.forwarded) := by
  refine ⟨fun _ => 1, greeting, [0], atOnce, threeFirst, _, _, _, _,
    recoveryStart_greeting (by decide), recoveryStart_greeting (by decide), forwardRun_one atOnce,
    forwardRun_two threeFirst, ?_⟩
  decide +kernel

/-- The text is forwarded as well where all of its mark and a part of its header arrive before the
others. -/
theorem recovery_independent_of_cuts_iff_ten_first :
    greeting.handed (fun _ => 1) atOnce.username ∈ [recoveryCall atOnce].filterMap (·.forwarded) ∧
      greeting.handed (fun _ => 1) tenFirst.username ∈
        [recoveryCall tenFirst, recoveryCall (recoveryCall tenFirst).stdcl].filterMap
          (·.forwarded) := by
  refine (recovery_independent_of_cuts_iff (recoveryStart_greeting (by decide))
    (recoveryStart_greeting (by decide)) (forwardRun_one atOnce) (forwardRun_two tenFirst)
    (by decide +kernel) (by decide +kernel)).mpr ⟨fun result member => ?_, fun result member => ?_⟩
  · rw [List.mem_singleton.mp member, SplitsMark]
    decide +kernel
  · rcases List.mem_pair.mp member with same | same <;> rw [same, SplitsMark] <;> decide +kernel

end Lwmsg
