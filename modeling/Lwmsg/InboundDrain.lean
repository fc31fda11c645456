/-
This file is about the loop of `wt_handle_clientevent` that calls
`wt_handle_inbound_data` as long as it answers `WT_STOP_BORDER`. The measure of its
progress is the number of bytes that were sent to the server and are not dealt with:
those still to be read and those in the buffer. It proves under which condition each
turn takes some of them, so that the loop ends.
-/

import Lwmsg.InboundRuns

namespace Lwmsg

open Bytes Pointers

/-! ### Progress -/

/-- The bytes of a client the server has not dealt with. -/
def bytesLeft (stdcl : StdClient) : Nat :=
  stdcl.connection.incoming.length + stdcl.tempRecvStorage.recvbuf.length

/-- A message that goes on behind its first PDU has bytes to come. -/
def GoesOn (msg : CurrRecvMsg) : Prop :=
  msg.notMsgInitPdu = true → msg.totalMsgDataRecved < msg.expectedMsgSize

/-- The condition for progress: the size of a message does not overflow the sum with the size of its
header, unless the buffer is full, and nothing lies behind an accepted first PDU in the buffer. -/
def InboundEnv.ReadsProgress (env : InboundEnv) (stdcl : StdClient) : Prop :=
  ∀ pdu, pduRead stdcl = some pdu →
    (lwmpHdrSize + LwmpPdu.totalMsgSize pdu < 2 ^ 64 ∨ pdu.length = lwmpMaxPduSize) ∧
    (env.verdict pdu = .ok → LwmpPdu.msgType pdu = MsgType.req.code ∨ (env.recipient pdu).isSome →
      pdu.length ≤ lwmpHdrSize + LwmpPdu.totalMsgSize pdu)

theorem Conn.Receives.length {before after : Conn} {bytes : Bytes}
    (receives : before.Receives bytes after) :
    before.incoming.length = bytes.length + after.incoming.length := by
  rw [receives.incoming, List.length_append]

theorem goesOn_fresh : GoesOn .fresh := by
  intro begun
  cases begun

theorem goesOn_afterPdu {buf kept : Bytes}
    (exact : buf.length ≤ lwmpHdrSize + LwmpPdu.totalMsgSize buf) :
    GoesOn ({ CurrRecvMsg.opened buf with recvbuf := kept }.afterPdu) := by
  rw [CurrRecvMsg.afterPdu]
  split
  · exact goesOn_fresh
  · rename_i unfinished
    intro _
    have different : buf.length - lwmpHdrSize ≠ LwmpPdu.totalMsgSize buf := unfinished
    show buf.length - lwmpHdrSize < LwmpPdu.totalMsgSize buf
    omega

/-- The bytes of a chunk are bytes of its message. -/
theorem goesOn_receivedPayload {msg : CurrRecvMsg} {bytes : Bytes} (waiting : msg.Waiting)
    (begun : msg.notMsgInitPdu = true) (goesOn : GoesOn msg)
    (fits : bytes.length ≤ msg.chunkRoom) :
    (msg.receivedPayload bytes).totalMsgDataRecved ≤ (msg.receivedPayload bytes).expectedMsgSize ∧
      (bytes.length < msg.chunkRoom → GoesOn (msg.receivedPayload bytes)) := by
  have recved := CurrRecvMsg.receivedPayload_totalMsgDataRecved (waiting.counters begun) fits
  have less := goesOn begun
  rw [CurrRecvMsg.chunkRoom] at fits ⊢
  rw [recved]
  constructor
  · show _ ≤ msg.expectedMsgSize
    omega
  · intro short _
    rw [recved]
    show _ < msg.expectedMsgSize
    omega

theorem goesOn_afterChunk {msg : CurrRecvMsg} (within : msg.totalMsgDataRecved ≤ msg.expectedMsgSize) :
    GoesOn ({ msg with recvbuf := [] }.afterChunk) := by
  rw [CurrRecvMsg.afterChunk]
  split
  · exact goesOn_fresh
  · rename_i unfinished
    intro _
    exact lt_of_le_of_ne within fun same => unfinished same.symm

theorem recvbuf_afterPdu_nil (msg : CurrRecvMsg) :
    ({ msg with recvbuf := [] }.afterPdu).recvbuf = [] := by
  rw [CurrRecvMsg.afterPdu]
  split <;> rfl

theorem recvbuf_afterChunk_nil (msg : CurrRecvMsg) :
    ({ msg with recvbuf := [] }.afterChunk).recvbuf = [] := by
  rw [CurrRecvMsg.afterChunk]
  split <;> rfl

/-- A message of a request ends with its first PDU. -/
theorem afterPdu_of_request {env : InboundEnv} {buf : Bytes} (header : lwmpHdrSize ≤ buf.length)
    (ready : (CurrRecvMsg.opened buf).pduReady) (accepted : env.verdict buf = .ok)
    (request : LwmpPdu.msgType buf = MsgType.req.code)
    (exact : buf.length ≤ lwmpHdrSize + LwmpPdu.totalMsgSize buf) :
    (CurrRecvMsg.opened buf).afterPdu = .fresh := by
  have valid := (lwmpValidateHdrs_ok_iff _ _ _).mp accepted
  have short : LwmpPdu.totalMsgSize buf ≤ lwmpPduBufSize := by
    rcases valid.short_or_file with short | file
    · exact short
    · rw [request] at file
      cases file
  simp only [CurrRecvMsg.pduReady, CurrRecvMsg.opened_expectedMsgSize,
    CurrRecvMsg.opened_totalMsgDataRecved, CurrRecvMsg.opened_recvbuf] at ready
  have all : (CurrRecvMsg.opened buf).totalMsgDataRecved =
      (CurrRecvMsg.opened buf).expectedMsgSize := by
    simp only [CurrRecvMsg.opened_expectedMsgSize, CurrRecvMsg.opened_totalMsgDataRecved]
    simp only [lwmpHdrSize, lwmpMaxPduSize, lwmpPduBufSize] at header ready short exact ⊢
    omega
  rw [CurrRecvMsg.afterPdu, if_pos all]
  rfl

/-- What a call does that meets the condition. -/
structure Progress (stdcl : StdClient) (result : InboundResult) : Prop where
  less : result.exit.status = .stopBorder → bytesLeft result.stdcl < bytesLeft stdcl
  goesOn : result.stdcl.clState = .authenticated → GoesOn result.stdcl.tempRecvStorage

/-- A call that empties the buffer after it received something takes what was in it. -/
theorem bytesLeft_lt {stdcl after : StdClient} {connection : Conn} {bytes : Bytes} {held : Nat}
    (receives : stdcl.connection.Receives bytes connection)
    (incoming : after.connection.incoming = connection.incoming)
    (empty : after.tempRecvStorage.recvbuf = [])
    (kept : held ≤ stdcl.tempRecvStorage.recvbuf.length + bytes.length) (some : 0 < held) :
    bytesLeft after < bytesLeft stdcl := by
  have received := receives.length
  rw [bytesLeft, bytesLeft, incoming, empty, received, List.length_nil]
  omega

theorem Called.progress {env : InboundEnv} {stdcl : StdClient} {result : InboundResult}
    (called : Called env stdcl result) (waiting : stdcl.tempRecvStorage.Waiting)
    (goesOn : GoesOn stdcl.tempRecvStorage) (safe : env.ReadsProgress stdcl)
    (live : stdcl.clState = .authenticated) : Progress stdcl result := by
  cases called with
  | disconnected gone =>
    rw [live] at gone
    cases gone
  | recvError receives fails unread =>
    exact ⟨fun border => (by cases border),
      fun still => absurd still (cleanupStdClient_not_authenticated _)⟩
  | notResynced receives out unread =>
    refine ⟨fun border => (by cases border), fun _ begun => ?_⟩
    cases begun
  | @pduBlocked bytes connection msg receives first waiting kept unread =>
    refine ⟨fun border => (by cases border), fun _ begun => ?_⟩
    have begun : msg.notMsgInitPdu = true := begun
    rw [first] at begun
    cases begun
  | chunkBlocked receives begun short unread =>
    refine ⟨fun border => (by cases border), fun _ => ?_⟩
    exact (goesOn_receivedPayload waiting begun goesOn short.le).2 short
  | notComplete receives read header space overflows kept =>
    rcases (safe _ read).1 with small | full
    · omega
    · omega
  | @pdu bytes connection buf result receives read header within ready kept delivered =>
    have some : 0 < buf.length := lt_of_lt_of_le (by decide) header
    have exact := (safe buf read).2
    cases delivered with
    | rejected refused keeps left =>
      refine ⟨fun _ => bytesLeft_lt receives keeps.incoming ?_ kept some, fun _ => ?_⟩
      · rw [left]
        rfl
      · rw [left]
        intro begun
        cases begun
    | served accepted request keeps left =>
      rw [afterPdu_of_request header ready accepted request (exact accepted (.inl request))] at left
      refine ⟨fun _ => bytesLeft_lt receives keeps.incoming ?_ kept some, fun _ => ?_⟩
      · rw [left]
        rfl
      · rw [left]
        exact goesOn_fresh
    | unreachable accepted message gone keeps left =>
      refine ⟨fun border => (by cases border), fun _ => ?_⟩
      rw [left]
      exact goesOn_fresh
    | forwarded accepted message found keeps left =>
      refine ⟨fun _ => bytesLeft_lt receives keeps.incoming ?_ kept some, fun _ => ?_⟩
      · rw [left]
        exact recvbuf_afterPdu_nil _
      · rw [left]
        exact goesOn_afterPdu (exact accepted (.inr (by rw [found]; rfl)))
  | @chunk bytes connection result receives begun full unread delivered =>
    have less := goesOn begun
    obtain ⟨inMessage, _⟩ := goesOn_receivedPayload waiting begun goesOn full.le
    cases delivered with
    | unreachable gone keeps left =>
      refine ⟨fun border => (by cases border), fun _ => ?_⟩
      rw [left]
      intro begun
      cases begun
    | forwarded found keeps left =>
      refine ⟨fun _ => bytesLeft_lt receives keeps.incoming ?_ le_rfl ?_, fun _ => ?_⟩
      · rw [left]
        exact recvbuf_afterChunk_nil _
      · rw [full, CurrRecvMsg.chunkRoom]
        simp only [lwmpChunkBufSize, lwmpMaxPduSize, lwmpChunkHdrSize]
        omega
      · rw [left]
        exact goesOn_afterChunk inMessage

/-- Every call of a run meets the condition. -/
def ReadsProgressAlways (calls : List (InboundEnv × StdClient)) : Prop :=
  ∀ call ∈ calls, call.1.ReadsProgress call.2

theorem InboundRun.goesOn {start stdcl : StdClient} {calls : List (InboundEnv × StdClient)}
    (session : ReceivingSession start) (run : InboundRun start calls stdcl)
    (safe : ReadsProgressAlways calls) :
    stdcl.clState = .authenticated → GoesOn stdcl.tempRecvStorage := by
  induction run with
  | start =>
    intro _
    rw [session.fresh]
    exact goesOn_fresh
  | between run between inductionHypothesis =>
    intro live
    rcases between.state with same | gone
    · rw [between.storage]
      exact inductionHypothesis safe (same.symm.trans live)
    · rw [live] at gone
      cases gone
  | @call calls stdcl env run inductionHypothesis =>
    intro live
    have earlier := inductionHypothesis fun call member => safe call (List.mem_append_left _ member)
    have now := safe _ (List.mem_append_right calls (List.mem_singleton_self _))
    rcases (run.reading session).1 with gone | ⟨before, waiting⟩
    · have state := (wtHandleInboundData_acts env stdcl).clState
      rw [live, gone] at state
      rcases state with wrong | wrong <;> cases wrong
    · exact ((wtHandleInboundData_called env stdcl waiting).progress waiting (earlier before) now
        before).goesOn live

/-! ### The loop -/

/-- What a turn of the loop reads besides its client, and the messages other workers enqueue for the
client before the next turn. -/
abbrev DrainSchedule := Nat → InboundEnv × List MpscMsgNode

/-- The call of a turn. -/
def DrainSchedule.call (schedule : DrainSchedule) (turn : Nat) (stdcl : StdClient) : InboundResult :=
  wtHandleInboundData (schedule turn).1 stdcl

/-- The client a turn is made for, if no turn before it ended the loop. -/
def drainClient (schedule : DrainSchedule) (stdcl : StdClient) : Nat → StdClient
  | 0 => stdcl
  | turn + 1 =>
    let client := (schedule.call turn (drainClient schedule stdcl turn)).stdcl
    { client with pendingUserdataQueue := client.pendingUserdataQueue ++ (schedule turn).2 }

/-- The result of a turn. -/
def drainTurn (schedule : DrainSchedule) (stdcl : StdClient) (turn : Nat) : InboundResult :=
  schedule.call turn (drainClient schedule stdcl turn)

/-- The loop comes to a turn: every turn before it was answered with `WT_STOP_BORDER`. -/
def DrainReaches (schedule : DrainSchedule) (stdcl : StdClient) (turns : Nat) : Prop :=
  ∀ turn < turns, (drainTurn schedule stdcl turn).exit.status = .stopBorder

/-- The calls of the turns before a turn. -/
def drainCalls (schedule : DrainSchedule) (stdcl : StdClient) (turns : Nat) :
    List (InboundEnv × StdClient) :=
  (List.range turns).map fun turn => ((schedule turn).1, drainClient schedule stdcl turn)

/-- The frames the turns before a turn enqueued. -/
def drainFrames (schedule : DrainSchedule) (stdcl : StdClient) (turns : Nat) :
    List (Addr × MpscMsgNode) :=
  (List.range turns).filterMap fun turn => (drainTurn schedule stdcl turn).forwarded

section Loop

variable {start stdcl : StdClient} {calls : List (InboundEnv × StdClient)}
  {schedule : DrainSchedule}

theorem drainCalls_succ (turns : Nat) : drainCalls schedule stdcl (turns + 1) =
    drainCalls schedule stdcl turns ++ [((schedule turns).1, drainClient schedule stdcl turns)] := by
  rw [drainCalls, drainCalls, List.range_succ, List.map_append, List.map_singleton]

/-- The turns of the loop go on with the run that led to it. -/
theorem InboundRun.drain (run : InboundRun start calls stdcl) (turns : Nat) :
    InboundRun start (calls ++ drainCalls schedule stdcl turns)
      (drainClient schedule stdcl turns) := by
  induction turns with
  | zero =>
    show InboundRun start (calls ++ []) stdcl
    rwa [List.append_nil]
  | succ turns inductionHypothesis =>
    rw [drainCalls_succ, ← List.append_assoc]
    exact (inductionHypothesis.call (schedule turns).1).between ⟨rfl, rfl, .inl rfl⟩

/-- Every turn the loop comes to meets the condition. -/
def DrainsSafely (schedule : DrainSchedule) (stdcl : StdClient) : Prop :=
  ∀ turn, DrainReaches schedule stdcl turn →
    (schedule turn).1.ReadsProgress (drainClient schedule stdcl turn)

theorem DrainReaches.mono {turns fewer : Nat} (reaches : DrainReaches schedule stdcl turns)
    (le : fewer ≤ turns) : DrainReaches schedule stdcl fewer :=
  fun turn before => reaches turn (lt_of_lt_of_le before le)

theorem readsProgressAlways_drain {turns : Nat} (earlier : ReadsProgressAlways calls)
    (safe : DrainsSafely schedule stdcl) (reaches : DrainReaches schedule stdcl turns) :
    ReadsProgressAlways (calls ++ drainCalls schedule stdcl turns) := by
  intro call member
  rcases List.mem_append.mp member with before | now
  · exact earlier call before
  · obtain ⟨turn, within, rfl⟩ := List.mem_map.mp now
    exact safe turn (reaches.mono (List.mem_range.mp within).le)

/-- A turn that is answered with `WT_STOP_BORDER` takes bytes. -/
theorem drainTurn_less {turn : Nat} (session : ReceivingSession start)
    (run : InboundRun start calls stdcl) (earlier : ReadsProgressAlways calls)
    (safe : DrainsSafely schedule stdcl) (reaches : DrainReaches schedule stdcl turn)
    (border : (drainTurn schedule stdcl turn).exit.status = .stopBorder) :
    bytesLeft (drainClient schedule stdcl (turn + 1)) <
      bytesLeft (drainClient schedule stdcl turn) := by
  have reached : InboundRun start _ (drainClient schedule stdcl turn) := run.drain turn
  have goesOn := reached.goesOn session (readsProgressAlways_drain earlier safe reaches)
  show bytesLeft (drainTurn schedule stdcl turn).stdcl < _
  rw [drainTurn, DrainSchedule.call] at border ⊢
  rcases (reached.reading session).1 with gone | ⟨live, waiting⟩
  · rw [wtHandleInboundData, if_pos gone] at border
    cases border
  · exact ((wtHandleInboundData_called _ _ waiting).progress waiting (goesOn live)
      (safe turn reaches) live).less border

/-- So there are at most as many turns as there were bytes. -/
theorem DrainReaches.bytesLeft_le {turns : Nat} (reaches : DrainReaches schedule stdcl turns)
    (session : ReceivingSession start) (run : InboundRun start calls stdcl)
    (earlier : ReadsProgressAlways calls) (safe : DrainsSafely schedule stdcl) :
    bytesLeft (drainClient schedule stdcl turns) + turns ≤ bytesLeft stdcl := by
  induction turns with
  | zero => exact le_rfl
  | succ turns inductionHypothesis =>
    have before := reaches.mono (Nat.le_succ turns)
    have fewer := inductionHypothesis before
    have less := drainTurn_less session run earlier safe before
      (reaches turns (Nat.lt_succ_self turns))
    omega

/-- Only a turn that is answered with `WT_STOP_BORDER` enqueues a frame. -/
theorem Called.forwarded_none {env : InboundEnv} {client : StdClient} {result : InboundResult}
    (called : Called env client result) (last : result.exit.status ≠ .stopBorder) :
    result.forwarded = none := by
  cases called with
  | disconnected gone => rfl
  | recvError receives fails unread => rfl
  | notResynced receives out unread => rfl
  | pduBlocked receives first waiting kept unread => rfl
  | chunkBlocked receives begun short unread => rfl
  | notComplete receives read header space overflows kept => rfl
  | pdu receives read header within ready kept delivered =>
    cases delivered with
    | rejected refused keeps left => rfl
    | served accepted request keeps left => rfl
    | unreachable accepted message gone keeps left => rfl
    | forwarded accepted message found keeps left => exact absurd rfl last
  | chunk receives begun full unread delivered =>
    cases delivered with
    | unreachable gone keeps left => rfl
    | forwarded found keeps left => exact absurd rfl last

theorem drainTurn_forwarded_none {turn : Nat} (session : ReceivingSession start)
    (run : InboundRun start calls stdcl)
    (last : (drainTurn schedule stdcl turn).exit.status ≠ .stopBorder) :
    (drainTurn schedule stdcl turn).forwarded = none := by
  have reached : InboundRun start _ (drainClient schedule stdcl turn) := run.drain turn
  rw [drainTurn, DrainSchedule.call] at last ⊢
  rcases (reached.reading session).1 with gone | ⟨live, waiting⟩
  · rw [wtHandleInboundData, if_pos gone]
  · exact (wtHandleInboundData_called _ _ waiting).forwarded_none last

theorem length_drainFrames_le (turns : Nat) : (drainFrames schedule stdcl turns).length ≤ turns := by
  refine (List.length_filterMap_le _ _).trans ?_
  rw [List.length_range]

/-- A turn that leaves its client as it found it comes again. -/
theorem drainClient_stuck {exit : InboundExit} (first turn : Nat)
    (again : ∀ turn, schedule.call turn (drainClient schedule stdcl first) =
      ⟨exit, drainClient schedule stdcl first, [], none⟩)
    (quiet : ∀ turn, (schedule turn).2 = []) :
    drainClient schedule stdcl (first + turn) = drainClient schedule stdcl first := by
  induction turn with
  | zero => rfl
  | succ turn inductionHypothesis =>
    rw [← Nat.add_assoc, drainClient, inductionHypothesis, again, quiet]
    simp only [List.append_nil]

end Loop

/-- In every run whose first PDUs meet the condition the loop ends, each of its turns takes bytes, and
it enqueues no more frames than it took bytes. -/
theorem inbound_drain_ends {start stdcl : StdClient} {calls : List (InboundEnv × StdClient)}
    (session : ReceivingSession start) (run : InboundRun start calls stdcl)
    (earlier : ReadsProgressAlways calls) (schedule : DrainSchedule)
    (safe : DrainsSafely schedule stdcl) :
    ∃ turns, DrainReaches schedule stdcl turns ∧
      (drainTurn schedule stdcl turns).exit.status ≠ .stopBorder ∧
      (∀ turn < turns, bytesLeft (drainClient schedule stdcl (turn + 1)) <
        bytesLeft (drainClient schedule stdcl turn)) ∧
      bytesLeft (drainClient schedule stdcl turns) +
        (drainFrames schedule stdcl (turns + 1)).length ≤ bytesLeft stdcl := by
  have ends : ∃ turns, (drainTurn schedule stdcl turns).exit.status ≠ .stopBorder := by
    by_contra never
    push Not at never
    have reaches : DrainReaches schedule stdcl (bytesLeft stdcl + 1) := fun turn _ => never turn
    have bound := reaches.bytesLeft_le session run earlier safe
    omega
  -- the loop ends at the first turn that is answered otherwise
  classical
  have reaches : DrainReaches schedule stdcl (Nat.find ends) :=
    fun turn before => not_not.mp (Nat.find_min ends before)
  refine ⟨Nat.find ends, reaches, Nat.find_spec ends, fun turn before => ?_, ?_⟩
  · exact drainTurn_less session run earlier safe (reaches.mono before.le) (reaches turn before)
  · have bound := reaches.bytesLeft_le session run earlier safe
    have last : (drainTurn schedule stdcl (Nat.find ends)).forwarded = none :=
      drainTurn_forwarded_none session run (Nat.find_spec ends)
    have frames := @length_drainFrames_le stdcl schedule (Nat.find ends)
    have same : drainFrames schedule stdcl (Nat.find ends + 1) =
        drainFrames schedule stdcl (Nat.find ends) := by
      rw [drainFrames, List.range_succ, List.filterMap_append]
      simp only [List.filterMap_cons, last, List.filterMap_nil, List.append_nil]
      rfl
    rw [same]
    omega

/-- A message without text. -/
def emptyMessage : Bytes :=
  lwmpHdr MsgType.msg.code (strncpy unamesize (ofLiteral "bob")) (List.replicate optdataLen 0) 0

/-- A message with a text. -/
def textMessage : Bytes :=
  lwmpHdr MsgType.msg.code (strncpy unamesize (ofLiteral "bob")) (List.replicate optdataLen 0) 2 ++
    ofLiteral "hi"

/-- A client that sends both. -/
def textAndEmptyClient : StdClient :=
  let stdcl := sendingClient (textMessage ++ emptyMessage)
  { stdcl with connection := { stdcl.connection with recvEvents := List.replicate 3 (.upTo 4095) } }

theorem textAndEmptyClient_session : ReceivingSession textAndEmptyClient := ⟨rfl, rfl⟩

/-- Nothing happens between the turns. -/
def quietSchedule : DrainSchedule := fun _ => (everyoneIsHere, [])

theorem drainsSafely_textAndEmpty : DrainsSafely quietSchedule textAndEmptyClient := by
  have executed : pduRead textAndEmptyClient = some textMessage ∧
      pduRead (drainClient quietSchedule textAndEmptyClient 1) = some emptyMessage ∧
      pduRead (drainClient quietSchedule textAndEmptyClient 2) = none ∧
      (drainTurn quietSchedule textAndEmptyClient 2).exit.status = .stopEblk := by
    decide +kernel
  obtain ⟨first, second, none, blocked⟩ := executed
  intro turn reaches pdu read
  rcases turn with _ | _ | _ | turn
  · obtain rfl := Option.some.inj (first.symm.trans read)
    exact ⟨.inl (by decide +kernel), fun _ _ => by decide +kernel⟩
  · obtain rfl := Option.some.inj (second.symm.trans read)
    exact ⟨.inl (by decide +kernel), fun _ _ => by decide +kernel⟩
  · exact absurd (none.symm.trans read) (by simp)
  · have third := reaches 2 (by omega)
    rw [blocked] at third
    cases third

/-- The loop forwards both messages of a client and ends. -/
theorem inbound_drain_ends_text_and_empty :
    ∃ turns, DrainReaches quietSchedule textAndEmptyClient turns ∧
      (drainTurn quietSchedule textAndEmptyClient turns).exit.status ≠ .stopBorder ∧
      (∀ turn < turns,
        bytesLeft (drainClient quietSchedule textAndEmptyClient (turn + 1)) <
          bytesLeft (drainClient quietSchedule textAndEmptyClient turn)) ∧
      bytesLeft (drainClient quietSchedule textAndEmptyClient turns) +
        (drainFrames quietSchedule textAndEmptyClient (turns + 1)).length ≤
          bytesLeft textAndEmptyClient :=
  inbound_drain_ends textAndEmptyClient_session .start (fun _ member => by cases member) _
    drainsSafely_textAndEmpty

/-- A header whose size overflows the sum with the size of the header. -/
def overflowingHeader : Bytes :=
  lwmpHdr MsgType.msg.code (strncpy unamesize (ofLiteral "bob")) (List.replicate optdataLen 0)
    (2 ^ 64 - 1)

/-- The loop never ends: every turn is answered with `WT_STOP_BORDER` and takes nothing. -/
theorem inbound_drain_never_ends :
    ∃ (start : StdClient) (schedule : DrainSchedule), ReceivingSession start ∧
      ∀ turn, (drainTurn schedule start turn).exit.status = .stopBorder := by
  refine ⟨sendingClient overflowingHeader, quietSchedule, sendingClient_session _, fun turn => ?_⟩
  have again : wtHandleInboundData everyoneIsHere
      (drainClient quietSchedule (sendingClient overflowingHeader) 1) =
      ⟨.notComplete, drainClient quietSchedule (sendingClient overflowingHeader) 1, [], none⟩ := by
    decide +kernel
  cases turn with
  | zero => decide +kernel
  | succ turn =>
    rw [drainTurn, Nat.add_comm turn 1, drainClient_stuck 1 turn (fun _ => again) fun _ => rfl]
    show (wtHandleInboundData everyoneIsHere
      (drainClient quietSchedule (sendingClient overflowingHeader) 1)).exit.status = .stopBorder
    rw [again]
    rfl

end Lwmsg
