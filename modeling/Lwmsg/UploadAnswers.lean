/-
This file asks whether `cmd_sendfile` takes the right response for the answer to its
header. It takes the first `MT_INFO` that the client parses once it waits, whatever that
one answers. So it is right where nothing else can come first: when it begins, the
server has read everything and the client has seen all responses, and until the server
has come to its verdict nobody is notified about anybody.
-/

import Lwmsg.Traced
import Lwmsg.UploadCalls

namespace Lwmsg

open Bytes Pointers

/-! ### What is claimed -/

namespace UploadWorld

/-- `cmd_sendfile` goes on with a file exactly if the server accepted its header. -/
def DecisionsMatch (world : UploadWorld) : Prop :=
  ∀ decision ∈ world.decisions, decision.2 = true ↔ (decision.1, .ok) ∈ world.answers

/-- Nothing is under way that could bring an `MT_INFO`: the server has read all that the client sent
and waits for a header, and the client has taken as many of them as were made for it. -/
def Quiet (world : UploadWorld) : Prop :=
  world.stdcl.tempRecvStorage = .fresh ∧ world.stdcl.connection.incoming = [] ∧
    (infosOf world.generated).length = (world.handled.filter isInfo).length

/-- `cmd_sendfile` waits, and the server has not come to a verdict. -/
def Unanswered (world : UploadWorld) : Prop :=
  ∃ header ∈ world.phase.awaited, header ∉ world.answers.map Prod.fst

instance (world : UploadWorld) : Decidable world.DecisionsMatch :=
  inferInstanceAs (Decidable (∀ decision ∈ world.decisions, _))

instance (world : UploadWorld) : Decidable world.Quiet := inferInstanceAs (Decidable (_ ∧ _))

instance (world : UploadWorld) : Decidable world.Unanswered :=
  inferInstanceAs (Decidable (∃ header ∈ _, _))

end UploadWorld

/-- What others enqueue for a client is a text, a file or a chunk. -/
def UserFrame (frame : Bytes) : Prop := DownFrame frame ∧ isInfo frame = false

/-- The condition on a step. A file that does not fit into its PDU is sent when all is quiet; until
the server has come to a verdict about it, the senders of what the client gets are there; what
others enqueue is one frame each; and `process_received_pdu` does not write behind its PDU. -/
def KeepsAnswers (world : UploadWorld) : UploadEvent → Prop
  | .cmdSendfile _ _ content _ => lwmpPduBufSize < content.length → world.Quiet
  | .clrecvTurn => ¬ OverwritesNext world.ctx.recvBuf
  | .outbound table => world.Unanswered → ResumedHere world.stdcl table
  | .queued resumeTable dequeueTable arrived =>
    (world.Unanswered → ResumedHere world.stdcl resumeTable ∧
      DequeuedHere world.stdcl dequeueTable) ∧
      ∀ msg ∈ arrived, UserFrame msg.1.buf
  | .enqueue msg => UserFrame msg.1.buf
  | _ => True

instance (frame : Bytes) : Decidable (UserFrame frame) := inferInstanceAs (Decidable (_ ∧ _))

instance (world : UploadWorld) (event : UploadEvent) : Decidable (KeepsAnswers world event) :=
  match event with
  | .cmdSendfile _ _ content _ =>
    inferInstanceAs (Decidable (lwmpPduBufSize < content.length → world.Quiet))
  | .clrecvTurn => inferInstanceAs (Decidable (¬ OverwritesNext world.ctx.recvBuf))
  | .outbound table => inferInstanceAs (Decidable (world.Unanswered → ResumedHere world.stdcl table))
  | .queued resumeTable dequeueTable arrived =>
    inferInstanceAs (Decidable ((world.Unanswered → ResumedHere world.stdcl resumeTable ∧
      DequeuedHere world.stdcl dequeueTable) ∧ ∀ msg ∈ arrived, UserFrame msg.1.buf))
  | .enqueue msg => inferInstanceAs (Decidable (UserFrame msg.1.buf))
  | .cmdMsg .. | .cmdUserlist .. | .awaitTimeout | .awaitFails | .awaitResp | .sendChunk .. |
    .freadFails | .pumpEnds | .clrecvFill .. | .inbound .. => inferInstanceAs (Decidable True)

/-! ### What the client sends -/

theorem length_recipientName (token : Bytes) : (recipientName token).length = unamesize :=
  length_strncpy _ _

/-- A PDU of the client: it has all its bytes, and its header is in order. -/
structure ClientPdu (pdu : Bytes) : Prop extends FirstPdu pdu where
  crc : LwmpPdu.crcMatches pdu = true

/-- A header with as much behind it as it announces and the PDU can hold. -/
theorem clientPdu_lwmpHdr {msgType total : Nat} {subject optional body : Bytes}
    (subjectLength : subject.length = unamesize) (optionalLength : optional.length = optdataLen)
    (small : lwmpHdrSize + total < 2 ^ 64) (length : body.length = min total lwmpPduBufSize) :
    ClientPdu (lwmpHdr msgType subject optional total ++ body) := by
  have size : LwmpPdu.totalMsgSize (lwmpHdr msgType subject optional total ++ body) = total :=
    totalMsgSize_lwmpHdr subjectLength optionalLength (by omega)
  have header := @length_lwmpHdr msgType total _ _ subjectLength optionalLength
  refine ⟨⟨?_, ?_, ?_⟩, crcMatches_lwmpHdr subjectLength optionalLength⟩
  · rw [List.length_append, header]
    omega
  · rw [List.length_append, header, length, size]
  · rwa [size]

theorem length_filename (filename : Bytes) :
    (strncpy (optdataLen - 1) filename ++ [0]).length = optdataLen := by
  rw [List.length_append, length_strncpy]
  rfl

theorem sendfilePdu_clientPdu {content : Bytes} (token filename : Bytes)
    (small : content.length < 2 ^ 63) : ClientPdu (sendfilePdu token filename content) := by
  refine clientPdu_lwmpHdr (length_recipientName token) (length_filename filename) ?_ ?_
  · simp only [lwmpHdrSize]
    omega
  · rw [List.length_take, Nat.min_comm]

theorem totalMsgSize_sendfilePdu {content : Bytes} (token filename : Bytes)
    (small : content.length < 2 ^ 63) :
    LwmpPdu.totalMsgSize (sendfilePdu token filename content) = content.length :=
  totalMsgSize_lwmpHdr (length_recipientName token) (length_filename filename) (by omega)

/-! ### What every run keeps -/

namespace UploadWorld

/-- So many bytes of the client lie ahead of the server: they are on the way, or it holds them and
they may belong to a header. -/
def ahead (world : UploadWorld) : Nat :=
  world.stdcl.connection.incoming.length + world.stdcl.tempRecvStorage.collected

/-- The server came to this verdict about a header, and to no other one. -/
def HasVerdict (world : UploadWorld) (header : Nat) (verdict : HdrValidationStatus) : Prop :=
  (header, verdict) ∈ world.answers ∧ ∀ other, (header, other) ∈ world.answers → other = verdict

end UploadWorld

/-- What every step keeps, whatever `cmd_sendfile` waits for. -/
structure Tracked (start world : UploadWorld) : Prop where
  down : Downlink start.stdcl world.stdcl world.ctx world.generated world.enqueued world.handled
  reading : Reading world.stdcl
  within : world.stdcl.clState = .authenticated → world.ahead ≤ world.sent
  places : world.stdcl.clState = .authenticated →
    ∀ answer ∈ world.answers, answer.1 + world.ahead < world.sent
  before : ∀ answer ∈ world.answers, answer.1 < world.sent
  decided : ∀ decision ∈ world.decisions, ∃ verdict,
    world.HasVerdict decision.1 verdict ∧ (decision.2 = true ↔ verdict = .ok)

namespace Tracked

variable {start world : UploadWorld}

/-- Of the client only its buffer and what is on the way to it matter. -/
theorem withClient (tracked : Tracked start world) (ctx : ClientCtx) (phase : SendfilePhase)
    (headers : List Nat) (connected : ctx.connected = world.ctx.connected)
    (recvBuf : ctx.recvBuf = world.ctx.recvBuf)
    (incoming : ctx.connection.incoming = world.ctx.connection.incoming) :
    Tracked start { world with ctx, phase, headers } :=
  ⟨tracked.down.withClient connected recvBuf incoming, tracked.reading, tracked.within,
    tracked.places, tracked.before, tracked.decided⟩

/-- The client sends some bytes. -/
theorem upstream (tracked : Tracked start world) (bytes : Bytes) :
    Tracked start (world.upstream bytes) := by
  have down := tracked.down
  have longer : (world.upstream bytes).ahead = world.ahead + bytes.length := by
    show (world.stdcl.connection.incoming ++ bytes).length +
      world.stdcl.tempRecvStorage.collected = _
    rw [List.length_append, UploadWorld.ahead]
    omega
  have sent : (world.upstream bytes).sent = world.sent + bytes.length := rfl
  refine ⟨⟨down.session, down.unsent, down.run.receive _ _ _, down.control, down.userdata,
    down.taken, down.stream, down.gone⟩, tracked.reading, fun live => ?_, fun live answer member => ?_,
    fun answer member => ?_, tracked.decided⟩
  · have within := tracked.within live
    omega
  · have place := tracked.places live answer member
    omega
  · have place := tracked.before answer member
    omega

/-- A handler of the server sends. -/
theorem serve {after : StdClient} {made arrived : List MpscMsgNode}
    (tracked : Tracked start world)
    (run : OutboundRun start.stdcl (world.generated ++ made) (world.enqueued ++ arrived) after)
    (sends : SendsOnly world.stdcl after) (keeps : KeepsName world.stdcl after)
    (control : ∀ msg ∈ made, DownFrame msg.buf)
    (userdata : ∀ msg ∈ arrived, UserFrame msg.buf) :
    Tracked start { world.serve after made with enqueued := world.enqueued ++ arrived } := by
  have ahead : UploadWorld.ahead { world.serve after made with
      enqueued := world.enqueued ++ arrived } = world.ahead := by
    show after.connection.incoming.length + after.tempRecvStorage.collected = _
    rw [sends.incoming, sends.storage]
    rfl
  refine ⟨tracked.down.server run sends.accepted control userdata, ?_, fun live => ?_,
    fun live => ?_, tracked.before, tracked.decided⟩
  · show Reading after
    rcases tracked.reading with gone | ⟨live, waiting⟩
    · left
      rcases keeps.clState with same | ⟨live, _⟩
      · exact same.trans gone
      · rw [gone] at live
        cases live
    · rcases keeps.clState with same | ⟨_, gone⟩
      · exact .inr ⟨same.trans live, sends.storage ▸ waiting⟩
      · exact .inl gone
  · rw [ahead]
    exact tracked.within (keeps.before live)
  · rw [ahead]
    exact tracked.places (keeps.before live)

end Tracked

/-! ### A call of the server -/

section Inbound

variable {start world : UploadWorld} {env : InboundEnv} {recvEvents : List NetEvent}

theorem mem_answerOf {stdcl : StdClient} {result : InboundResult}
    {answer : Nat × HdrValidationStatus} : answer ∈ world.answerOf stdcl result ↔
      ∃ pdu, pduRead stdcl = some pdu ∧ result.exit.verdict = some answer.2 ∧
        answer.1 = world.sent - result.stdcl.connection.incoming.length - pdu.length := by
  obtain ⟨place, verdict⟩ := answer
  rw [UploadWorld.answerOf]
  constructor
  · intro member
    split at member
    · rename_i pdu other read exit
      obtain ⟨rfl, rfl⟩ := Prod.mk.inj (List.mem_singleton.mp member)
      exact ⟨pdu, read, exit, rfl⟩
    · cases member
  · rintro ⟨pdu, read, exit, rfl⟩
    rw [read, exit]
    exact List.mem_singleton_self _

theorem answerOf_of_none {stdcl : StdClient} {result : InboundResult}
    (none : result.exit.verdict = .none) : world.answerOf stdcl result = [] := by
  rw [UploadWorld.answerOf, none]
  cases pduRead stdcl <;> rfl

/-- A client that is gone is not called for. -/
theorem inbound_of_gone (gone : world.stdcl.clState = .disconnected) :
    wtHandleInboundData env (world.receiving recvEvents) =
      ⟨.disconnected, world.receiving recvEvents, [], none⟩ := by
  have receiving : (world.receiving recvEvents).clState = .disconnected := gone
  rw [wtHandleInboundData, if_pos receiving]

theorem inbound_advances (tracked : Tracked start world)
    (live : world.stdcl.clState = .authenticated) : ∃ bytes,
      Advances (world.receiving recvEvents)
        (wtHandleInboundData env (world.receiving recvEvents)) bytes := by
  rcases tracked.reading with gone | ⟨_, waiting⟩
  · rw [live] at gone
    cases gone
  · exact (wtHandleInboundData_called env (world.receiving recvEvents) waiting).advances waiting live

/-- The server passes over nothing twice. -/
theorem ahead_inbound (tracked : Tracked start world)
    (live : world.stdcl.clState = .authenticated)
    (still : (world.inbound env recvEvents).stdcl.clState = .authenticated) :
    (world.inbound env recvEvents).ahead ≤ world.ahead := by
  obtain ⟨bytes, advances⟩ := @inbound_advances _ _ env recvEvents tracked live
  have incoming := congrArg List.length advances.incoming
  have collected := advances.collected still
  rw [List.length_append] at incoming
  show (wtHandleInboundData env (world.receiving recvEvents)).stdcl.connection.incoming.length +
    (wtHandleInboundData env (world.receiving recvEvents)).stdcl.tempRecvStorage.collected ≤
      (world.receiving recvEvents).connection.incoming.length +
        (world.receiving recvEvents).tempRecvStorage.collected
  omega

/-- A header that a call comes to a verdict about lies ahead of the server before the call, and not
behind it. -/
theorem answerOf_place (tracked : Tracked start world) {answer : Nat × HdrValidationStatus}
    (member : answer ∈ world.answerOf (world.receiving recvEvents)
      (wtHandleInboundData env (world.receiving recvEvents))) :
    world.stdcl.clState = .authenticated ∧ world.sent ≤ answer.1 + world.ahead ∧
      answer.1 + (world.inbound env recvEvents).ahead < world.sent := by
  obtain ⟨pdu, read, exit, place⟩ := mem_answerOf.mp member
  have live : world.stdcl.clState = .authenticated := by
    rcases tracked.reading with gone | ⟨live, _⟩
    · rw [inbound_of_gone gone] at exit
      cases exit
    · exact live
  obtain ⟨bytes, advances⟩ := @inbound_advances _ _ env recvEvents tracked live
  have incoming := congrArg List.length advances.incoming
  have verdict := advances.verdict pdu _ read exit
  have within := tracked.within live
  have aheadBefore : world.ahead = (world.receiving recvEvents).connection.incoming.length +
      (world.receiving recvEvents).tempRecvStorage.collected := rfl
  have aheadAfter : (world.inbound env recvEvents).ahead =
      (wtHandleInboundData env (world.receiving recvEvents)).stdcl.connection.incoming.length +
        (wtHandleInboundData env (world.receiving recvEvents)).stdcl.tempRecvStorage.collected :=
    rfl
  rw [List.length_append] at incoming
  exact ⟨live, by omega, by omega⟩

theorem UploadWorld.HasVerdict.inbound {header : Nat} {verdict : HdrValidationStatus}
    (tracked : Tracked start world) (has : world.HasVerdict header verdict) :
    (world.inbound env recvEvents).HasVerdict header verdict := by
  refine ⟨List.mem_append_left _ has.1, fun other member => ?_⟩
  rcases List.mem_append.mp member with old | new
  · exact has.2 other old
  · obtain ⟨live, later, _⟩ := answerOf_place tracked new
    have earlier := tracked.places live _ has.1
    simp only at later earlier
    omega

theorem inbound_responds (tracked : Tracked start world)
    (fits : lwmpHdrSize + env.userList.length < 2 ^ 64) :
    Responds (wtHandleInboundData env (world.receiving recvEvents)) := by
  rcases tracked.reading with gone | ⟨_, waiting⟩
  · have called : Called env (world.receiving recvEvents)
        (wtHandleInboundData env (world.receiving recvEvents)) := by
      rw [inbound_of_gone gone]
      exact .disconnected gone
    exact called.responds fits
  · exact (wtHandleInboundData_called env (world.receiving recvEvents) waiting).responds fits

theorem Tracked.inbound (tracked : Tracked start world)
    (fits : lwmpHdrSize + env.userList.length < 2 ^ 64) :
    Tracked start (world.inbound env recvEvents) := by
  have acts := wtHandleInboundData_acts env (world.receiving recvEvents)
  have receive : OutboundRun start.stdcl world.generated world.enqueued
      (world.receiving recvEvents) := tracked.down.run.receive _ _ _
  have accepted : (world.receiving recvEvents).connection.accepted <+:
      (wtHandleInboundData env (world.receiving recvEvents)).stdcl.connection.accepted :=
    (OutboundRun.start.inbound acts).accepted
  have run := receive.inbound acts
  have before : ∀ answer ∈ (world.inbound env recvEvents).answers,
      answer.1 < (world.inbound env recvEvents).sent := by
    intro answer member
    rcases List.mem_append.mp member with old | new
    · exact tracked.before answer old
    · obtain ⟨_, _, place⟩ := answerOf_place tracked new
      exact Nat.lt_of_le_of_lt (Nat.le_add_right _ _) place
  have live (still : (world.inbound env recvEvents).stdcl.clState = .authenticated) :
      world.stdcl.clState = .authenticated := by
    rcases tracked.reading with gone | ⟨live, _⟩
    · have same : (world.inbound env recvEvents).stdcl.clState = .disconnected := by
        show (wtHandleInboundData env (world.receiving recvEvents)).stdcl.clState = _
        rw [inbound_of_gone gone]
        exact gone
      rw [still] at same
      cases same
    · exact live
  have reading : Reading (world.receiving recvEvents) := tracked.reading
  refine ⟨?_, reading.call env, fun still => ?_, fun still answer member => ?_,
    before, fun decision member => ?_⟩
  · rw [← List.append_nil world.enqueued] at run
    have down := tracked.down.server run accepted (inbound_responds tracked fits).frames
      (fun _ none => (List.not_mem_nil none).elim)
    rwa [List.append_nil] at down
  · exact (ahead_inbound tracked (live still) still).trans (tracked.within (live still))
  · rcases List.mem_append.mp member with old | new
    · have place := tracked.places (live still) answer old
      have passed := ahead_inbound tracked (live still) still
      exact Nat.lt_of_le_of_lt (Nat.add_le_add_left passed _) place
    · exact (answerOf_place tracked new).2.2
  · obtain ⟨verdict, has, agrees⟩ := tracked.decided decision member
    exact ⟨verdict, has.inbound tracked, agrees⟩

end Inbound

/-! ### The answer and nothing else -/

/-- `cmd_sendfile` waits, and only the answer can come: the PDU it sent is arriving, and nothing else
is ahead of the server, and the client has taken all the responses and notices there are. -/
structure Waits (world : UploadWorld) (header : Nat) (remaining : Bytes) : Prop where
  awaiting : world.ctx.connected = true → world.ctx.awaitingResp = true
  heard : (infosOf world.generated).length = (world.handled.filter isInfo).length
  unanswered : header ∉ world.answers.map Prod.fst
  arriving : world.stdcl.clState = .authenticated → ∃ part pdu, ClientPdu pdu ∧
    LwmpPdu.totalMsgSize pdu = lwmpPduBufSize + remaining.length ∧ part.length < pdu.length ∧
    world.stdcl.tempRecvStorage = .partly part ∧
    part ++ world.stdcl.connection.incoming = pdu ∧ world.sent = header + pdu.length

/-- The server has come to its verdict. The client took the code of it, or the response is the next
one it takes. -/
structure Answered (world : UploadWorld) (header : Nat) (verdict : HdrValidationStatus) : Prop where
  has : world.HasVerdict header verdict
  hears : world.ctx.connected = true →
    (world.ctx.awaitingResp = true ∧ ∃ earlier later,
      infosOf world.generated = earlier ++ (verdictNode verdict).buf :: later ∧
        (world.handled.filter isInfo).length = earlier.length) ∨
    world.ctx.awaitingResp = false ∧ world.ctx.lastRespCode = respCodes verdict

/-- What every step keeps under the condition. -/
structure Awaits (start world : UploadWorld) : Prop where
  tracked : Tracked start world
  answer : ∀ header remaining, world.phase = .awaiting header remaining →
    Waits world header remaining ∨ ∃ verdict, Answered world header verdict

section Steps

variable {start world next : UploadWorld} {header : Nat} {remaining : Bytes}
  {verdict : HdrValidationStatus}

theorem Waits.isUnanswered (waits : Waits world header remaining)
    (phase : world.phase = .awaiting header remaining) : world.Unanswered :=
  ⟨header, by rw [phase]; rfl, waits.unanswered⟩

/-- Nothing that counts has changed. -/
theorem Waits.keep (waits : Waits world header remaining)
    (client : next.ctx.connected = true →
      world.ctx.connected = true ∧ next.ctx.awaitingResp = world.ctx.awaitingResp)
    (generated : next.generated = world.generated)
    (handled : next.handled.filter isInfo = world.handled.filter isInfo)
    (answers : next.answers = world.answers) (sent : next.sent = world.sent)
    (server : next.stdcl.clState = .authenticated → world.stdcl.clState = .authenticated ∧
      next.stdcl.tempRecvStorage = world.stdcl.tempRecvStorage ∧
      next.stdcl.connection.incoming = world.stdcl.connection.incoming) :
    Waits next header remaining := by
  refine ⟨fun live => ?_, ?_, ?_, fun live => ?_⟩
  · obtain ⟨before, same⟩ := client live
    exact same.trans (waits.awaiting before)
  · rw [generated, handled]
    exact waits.heard
  · rw [answers]
    exact waits.unanswered
  · obtain ⟨before, storage, incoming⟩ := server live
    rw [storage, incoming, sent]
    exact waits.arriving before

/-- The server may have made more responses and notices. -/
theorem Answered.keep (answered : Answered world header verdict)
    (has : next.HasVerdict header verdict)
    (client : next.ctx.connected = true → world.ctx.connected = true ∧
      next.ctx.awaitingResp = world.ctx.awaitingResp ∧
      next.ctx.lastRespCode = world.ctx.lastRespCode)
    (generated : ∃ more, next.generated = world.generated ++ more)
    (handled : next.handled.filter isInfo = world.handled.filter isInfo) :
    Answered next header verdict := by
  refine ⟨has, fun live => ?_⟩
  obtain ⟨before, awaiting, code⟩ := client live
  obtain ⟨more, generated⟩ := generated
  rw [awaiting, code, handled, generated, infosOf_append]
  rcases answered.hears before with ⟨waiting, earlier, later, infos, taken⟩ | took
  · refine .inl ⟨waiting, earlier, later ++ infosOf more, ?_, taken⟩
    rw [infos, List.append_assoc, List.cons_append]
  · exact .inr took

/-- Where `cmd_sendfile` does not wait, there is nothing to say. -/
theorem Tracked.awaits (tracked : Tracked start world) (phase : world.phase.awaited = none) :
    Awaits start world := by
  refine ⟨tracked, fun header remaining waiting => ?_⟩
  rw [waiting] at phase
  cases phase

namespace Awaits

/-- `cmd_sendfile` begins to wait. -/
theorem cmdSendfile (awaits : Awaits start world) {content : Bytes} (token filename : Bytes)
    (limit : Nat) (idle : world.phase = .idle) (small : content.length < 2 ^ 63)
    (quiet : lwmpPduBufSize < content.length → world.Quiet) :
    Awaits start (world.cmdSendfile token filename content limit) := by
  have announced : Tracked start { world with headers := world.headers ++ [world.sent] } :=
    awaits.tracked.withClient world.ctx world.phase _ rfl rfl rfl
  have tracked := announced.upstream ((sendfilePdu token filename content).take limit)
  rw [UploadWorld.cmdSendfile, UploadWorld.sendPdu, UploadWorld.sendAll]
  by_cases all : (sendfilePdu token filename content).length ≤ limit
  · rw [decide_eq_true all]
    rw [List.take_of_length_le all] at tracked ⊢
    simp only
    split
    · rename_i long
      obtain ⟨storage, incoming, heard⟩ := quiet long
      refine ⟨tracked.withClient _ _ _ rfl rfl rfl, fun header remaining phase => .inl ?_⟩
      obtain ⟨rfl, rfl⟩ := SendfilePhase.awaiting.inj phase
      refine ⟨fun _ => rfl, heard, fun member => ?_, fun _ => ?_⟩
      · obtain ⟨answer, member, same⟩ := List.mem_map.mp member
        have place := awaits.tracked.before answer member
        omega
      · have pdu := sendfilePdu_clientPdu token filename small
        have header := pdu.header
        refine ⟨[], _, pdu, ?_, Nat.lt_of_lt_of_le (by decide) header, storage, ?_, rfl⟩
        · rw [totalMsgSize_sendfilePdu token filename small, List.length_drop]
          omega
        · show [] ++ (world.stdcl.connection.incoming ++ _) = _
          rw [incoming, List.nil_append, List.nil_append]
    · exact tracked.awaits (congrArg SendfilePhase.awaited idle)
  · rw [decide_eq_false all]
    exact tracked.awaits (congrArg SendfilePhase.awaited idle)

/-- `cmd_sendfile` has the code of the verdict about its header. -/
theorem awaitResp (awaits : Awaits start world)
    (phase : world.phase = .awaiting header remaining)
    (ends : ¬ (world.ctx.awaitingResp = true ∧ world.ctx.connected = true)) :
    Awaits start (world.afterAwaitResp header remaining) := by
  have tracked := awaits.tracked
  have decided (live : world.ctx.connected = true) (made : Bool)
      (agrees : made = true ↔ world.ctx.lastRespCode = respCodes .ok) :
      ∀ decision ∈ world.decisions ++ [(header, made)], ∃ verdict,
        world.HasVerdict decision.1 verdict ∧ (decision.2 = true ↔ verdict = .ok) := by
    intro decision member
    rcases List.mem_append.mp member with old | new
    · exact tracked.decided decision old
    · rw [List.mem_singleton.mp new]
      rcases awaits.answer header remaining phase with waits | ⟨verdict, answered⟩
      · exact absurd ⟨waits.awaiting live, live⟩ ends
      · rcases answered.hears live with ⟨waiting, _⟩ | ⟨_, code⟩
        · exact absurd ⟨waiting, live⟩ ends
        · refine ⟨verdict, answered.has, ?_⟩
          rw [agrees, code, respCodes_eq_ok_iff]
  rw [UploadWorld.afterAwaitResp]
  split
  · exact (tracked.withClient _ _ _ rfl rfl rfl).awaits rfl
  · rename_i live
    have live := not_not.mp live
    split
    · rename_i other
      refine Tracked.awaits ⟨tracked.down, tracked.reading, tracked.within, tracked.places,
        tracked.before, decided live false ?_⟩ rfl
      simp only [Bool.false_eq_true, false_iff]
      exact other
    · rename_i accepted
      have down := @Downlink.withClient _ _ _ _ _ _
        { world.ctx with sendingChunks := true } tracked.down rfl rfl rfl
      refine Tracked.awaits ⟨down, tracked.reading, tracked.within, tracked.places,
        tracked.before, decided live true ?_⟩ rfl
      simp only [true_iff]
      exact not_not.mp accepted

/-- The client takes the next frame: anything but a response or notice, or the response it waits
for. -/
theorem turn (awaits : Awaits start world) {item : Handled} {ctx : ClientCtx}
    (safe : ¬ OverwritesNext world.ctx.recvBuf) (step : clrecvStep world.ctx = some (item, ctx)) :
    ∃ frame, item = .frame frame ∧
      Awaits start { world with ctx, handled := world.handled ++ [frame] } := by
  obtain ⟨frame, rfl, learns, connected, down⟩ := awaits.tracked.down.parse safe step
  have tracked : Tracked start { world with ctx, handled := world.handled ++ [frame] } :=
    ⟨down, awaits.tracked.reading, awaits.tracked.within, awaits.tracked.places,
      awaits.tracked.before, awaits.tracked.decided⟩
  have taken := down.infos
  rw [List.filter_append] at taken
  refine ⟨frame, rfl, tracked, fun header remaining phase => ?_⟩
  cases info : isInfo frame with
  | false =>
    obtain ⟨awaiting, code⟩ := learns.other info
    have handled : (world.handled ++ [frame]).filter isInfo = world.handled.filter isInfo := by
      rw [List.filter_append, List.filter_cons_of_neg (by simp [info]), List.filter_nil,
        List.append_nil]
    rcases awaits.answer header remaining phase with waits | ⟨verdict, answered⟩
    · exact .inl (waits.keep (fun live => ⟨connected ▸ live, awaiting⟩) rfl handled rfl rfl
        fun live => ⟨live, rfl, rfl⟩)
    · exact .inr ⟨verdict, answered.keep answered.has
        (fun live => ⟨connected ▸ live, awaiting, code⟩) ⟨[], (List.append_nil _).symm⟩ handled⟩
  | true =>
    obtain ⟨awaiting, code⟩ := learns.info info
    rw [List.filter_cons_of_pos info, List.filter_nil] at taken
    rcases awaits.answer header remaining phase with waits | ⟨verdict, answered⟩
    · have more := taken.length_le
      rw [waits.heard, List.length_append, List.length_singleton] at more
      omega
    · refine .inr ⟨verdict, answered.has, fun live => .inr ⟨awaiting, ?_⟩⟩
      show ctx.lastRespCode = _
      rw [code]
      rcases answered.hears (connected ▸ live) with ⟨waiting, earlier, later, infos, same⟩ | took
      · obtain ⟨rest, split⟩ := taken
        rw [infos, List.append_assoc, List.singleton_append] at split
        obtain ⟨_, split⟩ := List.append_inj split same
        obtain ⟨rfl, _⟩ := List.cons.inj split
        rw [waiting, if_pos rfl, respCode_verdictNode]
      · rw [took.1, if_neg (by decide)]
        exact took.2

/-- `clrecv_fill` tells the client nothing. -/
theorem fill (awaits : Awaits start world) (recvEvents : List NetEvent)
    (live : world.ctx.connected = true) :
    Awaits start { world with ctx := (clrecvFill { world.ctx with
      connection := { world.ctx.connection with recvEvents } }).2 } := by
  have tracked := awaits.tracked
  have down := (@Downlink.withClient _ _ _ _ _ _
    { world.ctx with connection := { world.ctx.connection with recvEvents } }
    tracked.down rfl rfl rfl).fill live
  have keeps := clrecvFill_keeps
    { world.ctx with connection := { world.ctx.connection with recvEvents } }
  refine ⟨⟨down, tracked.reading, tracked.within, tracked.places, tracked.before,
    tracked.decided⟩, fun header remaining phase => ?_⟩
  rcases awaits.answer header remaining phase with waits | ⟨verdict, answered⟩
  · refine .inl (waits.keep (fun still => ⟨live, ?_⟩) rfl rfl rfl rfl fun live => ⟨live, rfl, rfl⟩)
    exact (congrArg ClientCtx.awaitingResp (keeps still)).trans rfl
  · refine .inr ⟨verdict, answered.keep answered.has (fun still => ⟨live, ?_, ?_⟩)
      ⟨[], (List.append_nil _).symm⟩ rfl⟩
    · exact (congrArg ClientCtx.awaitingResp (keeps still)).trans rfl
    · exact (congrArg ClientCtx.lastRespCode (keeps still)).trans rfl

/-- A handler of the server sends, which has made no notice before there is an answer. -/
theorem serve (awaits : Awaits start world) {after : StdClient} {made arrived : List MpscMsgNode}
    (run : OutboundRun start.stdcl (world.generated ++ made) (world.enqueued ++ arrived) after)
    (sends : SendsOnly world.stdcl after) (keeps : KeepsName world.stdcl after)
    (control : ∀ msg ∈ made, DownFrame msg.buf)
    (userdata : ∀ msg ∈ arrived, UserFrame msg.buf)
    (silent : world.Unanswered → made = []) :
    Awaits start { world.serve after made with enqueued := world.enqueued ++ arrived } := by
  refine ⟨awaits.tracked.serve run sends keeps control userdata, fun header remaining phase => ?_⟩
  rcases awaits.answer header remaining phase with waits | ⟨verdict, answered⟩
  · refine .inl (waits.keep (fun live => ⟨live, rfl⟩) ?_ rfl rfl rfl fun live =>
      ⟨keeps.before live, sends.storage, sends.incoming⟩)
    show world.generated ++ made = _
    rw [silent (waits.isUnanswered phase), List.append_nil]
  · exact .inr ⟨verdict, answered.keep answered.has (fun live => ⟨live, rfl, rfl⟩) ⟨made, rfl⟩ rfl⟩

end Awaits

/-- The call that delivers the PDU of `cmd_sendfile` answers its header. -/
theorem Waits.delivered {env : InboundEnv} {recvEvents : List NetEvent} {connection : Conn}
    {pdu : Bytes} (waits : Waits world header remaining)
    (fits : lwmpHdrSize + env.userList.length < 2 ^ 64)
    (sent : world.sent = header + pdu.length) (rest : connection.incoming = [])
    (read : pduRead (world.receiving recvEvents) = some pdu)
    (delivered : PduDelivered env ((world.receiving recvEvents).withRecv connection (.opened pdu))
      pdu (wtHandleInboundData env (world.receiving recvEvents))) :
    Answered (world.inbound env recvEvents) header (env.verdict pdu) := by
  have answer (other : HdrValidationStatus) : (header, other) ∈
      world.answerOf (world.receiving recvEvents)
        (wtHandleInboundData env (world.receiving recvEvents)) ↔ other = env.verdict pdu := by
    have nothing : (wtHandleInboundData env
        (world.receiving recvEvents)).stdcl.connection.incoming = [] :=
      delivered.keeps.incoming.trans rest
    rw [mem_answerOf, nothing, delivered.exit_verdict]
    constructor
    · rintro ⟨_, _, same, _⟩
      exact (Option.some.inj same).symm
    · rintro rfl
      refine ⟨pdu, read, rfl, ?_⟩
      rw [List.length_nil, sent]
      omega
  obtain ⟨more, responses⟩ := (delivered.responds fits).verdict _ delivered.exit_verdict
  refine ⟨⟨List.mem_append_right _ ((answer _).mpr rfl), fun other member => ?_⟩, fun live => ?_⟩
  · rcases List.mem_append.mp member with old | new
    · exact absurd (List.mem_map.mpr ⟨_, old, rfl⟩) waits.unanswered
    · exact (answer other).mp new
  · refine .inl ⟨waits.awaiting live, infosOf world.generated, infosOf more, ?_, waits.heard.symm⟩
    show infosOf (world.generated ++ _) = _
    rw [responses, infosOf_append]
    show infosOf world.generated ++ List.filter isInfo (_ :: _) = _
    rw [List.filter_cons_of_pos (isInfo_verdictNode _)]
    rfl

/-- A call while `cmd_sendfile` waits comes to no verdict, or to the one about its header. -/
theorem Waits.inbound {env : InboundEnv} {recvEvents : List NetEvent}
    (waits : Waits world header remaining) (tracked : Tracked start world)
    (fits : lwmpHdrSize + env.userList.length < 2 ^ 64) :
    Waits (world.inbound env recvEvents) header remaining ∨
      ∃ verdict, Answered (world.inbound env recvEvents) header verdict := by
  -- A call without a response changes at most what has arrived of the PDU.
  have silent (exit : (wtHandleInboundData env (world.receiving recvEvents)).exit.verdict = none)
      (responses : (wtHandleInboundData env (world.receiving recvEvents)).responses = [])
      (arriving : (world.inbound env recvEvents).stdcl.clState = .authenticated →
        ∃ part pdu, ClientPdu pdu ∧
          LwmpPdu.totalMsgSize pdu = lwmpPduBufSize + remaining.length ∧
          part.length < pdu.length ∧
          (world.inbound env recvEvents).stdcl.tempRecvStorage = .partly part ∧
          part ++ (world.inbound env recvEvents).stdcl.connection.incoming = pdu ∧
          world.sent = header + pdu.length) :
      Waits (world.inbound env recvEvents) header remaining := by
    refine ⟨waits.awaiting, ?_, ?_, arriving⟩
    · show (infosOf (world.generated ++ _)).length = _
      rw [responses, List.append_nil]
      exact waits.heard
    · show header ∉ (world.answers ++ _).map Prod.fst
      rw [answerOf_of_none exit, List.append_nil]
      exact waits.unanswered
  rcases tracked.reading with gone | ⟨live, _⟩
  · have same := @inbound_of_gone world env recvEvents gone
    refine .inl (silent (by rw [same]; rfl) (by rw [same]) fun live => ?_)
    have still : (wtHandleInboundData env (world.receiving recvEvents)).stdcl.clState =
        .authenticated := live
    rw [same] at still
    exact absurd (gone.symm.trans still) (by decide)
  · obtain ⟨part, pdu, whole, size, short, storage, stream, sent⟩ := waits.arriving live
    rw [← List.append_nil pdu] at stream
    have arrives : PduArrives env (world.receiving recvEvents) pdu []
        (wtHandleInboundData env (world.receiving recvEvents)) :=
      whole.arrives live storage short stream
    generalize called : wtHandleInboundData env (world.receiving recvEvents) = result at arrives
    have inbound : (world.inbound env recvEvents).stdcl = result.stdcl := by rw [← called]; rfl
    cases arrives with
    | @waits bytes part connection receives short stream =>
      refine .inl (silent (by rw [called]; rfl) (by rw [called]) fun live => ?_)
      rw [inbound]
      rw [List.append_nil] at stream
      exact ⟨part, pdu, whole, size, short, rfl, stream, sent⟩
    | @fails bytes connection msg receives fails =>
      refine .inl (silent (by rw [called]; rfl) (by rw [called]) fun live => ?_)
      rw [inbound] at live
      exact absurd live (cleanupStdClient_not_authenticated _)
    | @arrives bytes connection result receives rest read delivered =>
      subst called
      exact .inr ⟨_, waits.delivered fits sent rest read delivered⟩

/-- Others put a message into the second queue. -/
theorem Awaits.enqueue (awaits : Awaits start world) (msg : NewMsg) (whole : UserFrame msg.1.buf) :
    Awaits start { world with
      stdcl := { world.stdcl with
        pendingUserdataQueue := world.stdcl.pendingUserdataQueue ++ [msg.1] }
      enqueued := world.enqueued ++ [msg.1] } := by
  have tracked := awaits.tracked
  have down := tracked.down
  refine ⟨⟨⟨down.session, down.unsent, down.run.enqueue msg, down.control, ?_, down.taken,
    down.stream, down.gone⟩, tracked.reading, tracked.within, tracked.places, tracked.before,
    tracked.decided⟩, fun header remaining phase => ?_⟩
  · intro other member
    rcases List.mem_append.mp member with old | new
    · exact down.userdata other old
    · rwa [List.mem_singleton.mp new]
  · rcases awaits.answer header remaining phase with waits | ⟨verdict, answered⟩
    · exact .inl ⟨waits.awaiting, waits.heard, waits.unanswered, waits.arriving⟩
    · exact .inr ⟨verdict, answered.has, answered.hears⟩

/-- What every step keeps. -/
theorem Awaits.step (awaits : Awaits start world) {event : UploadEvent}
    (condition : KeepsAnswers world event) (taken : world.step event = some next) :
    Awaits start next := by
  have tracked := awaits.tracked
  have phaseOf (phase : SendfilePhase) (ctx : ClientCtx)
      (connected : ctx.connected = world.ctx.connected)
      (recvBuf : ctx.recvBuf = world.ctx.recvBuf)
      (incoming : ctx.connection.incoming = world.ctx.connection.incoming)
      (still : phase.awaited = none) : Awaits start { world with ctx, phase } :=
    (tracked.withClient ctx phase world.headers connected recvBuf incoming).awaits still
  have sendPdu (idle : world.phase = .idle) (limit : Nat) (pdu : Bytes) :
      Awaits start (world.sendPdu limit pdu).2 :=
    ((tracked.withClient world.ctx world.phase (world.headers ++ [world.sent]) rfl rfl rfl).upstream
      (pdu.take limit)).awaits (congrArg SendfilePhase.awaited idle)
  cases UploadWorld.step_taken taken with
  | cmdMsg limit prompt made => exact sendPdu prompt.1 limit _
  | cmdUserlist limit prompt => exact sendPdu prompt.1 limit _
  | cmdSendfile token filename limit prompt some small =>
    exact awaits.cmdSendfile token filename limit prompt.1 small condition
  | awaitTimeout phase => exact phaseOf .idle _ rfl rfl rfl rfl
  | awaitFails phase => exact phaseOf .idle _ rfl rfl rfl rfl
  | awaitResp phase ends => exact awaits.awaitResp phase ends
  | @sendChunk remaining limit phase =>
    have sent := tracked.upstream ((remaining.take lwmpMaxPduSize).take limit)
    rw [UploadWorld.sendChunk, UploadWorld.sendAll]
    cases decide ((remaining.take lwmpMaxPduSize).length ≤ limit) with
    | false =>
      exact (sent.withClient { world.ctx with sendingChunks := false } .idle world.headers
        rfl rfl rfl).awaits rfl
    | true => exact (sent.withClient _ (.pumping _) world.headers rfl rfl rfl).awaits rfl
  | freadFails phase => exact phaseOf .idle _ rfl rfl rfl rfl
  | pumpEnds phase =>
    rw [UploadWorld.afterPump]
    split
    · exact phaseOf .idle _ rfl rfl rfl rfl
    · split
      · exact phaseOf .idle _ rfl rfl rfl rfl
      · exact phaseOf (.sending _) _ rfl rfl rfl rfl
  | clrecvFill recvEvents connected => exact awaits.fill recvEvents connected
  | clrecvFrame turn =>
    obtain ⟨frame, same, after⟩ := awaits.turn condition turn
    cases same
    exact after
  | clrecvResync turn =>
    obtain ⟨frame, wrong, _⟩ := awaits.turn condition turn
    cases wrong
  | inbound recvEvents fits =>
    refine ⟨tracked.inbound fits, fun header remaining phase => ?_⟩
    rcases awaits.answer header remaining phase with waits | ⟨verdict, answered⟩
    · exact waits.inbound tracked fits
    · exact .inr ⟨verdict, answered.keep (answered.has.inbound tracked)
        (fun live => ⟨live, rfl, rfl⟩) ⟨_, rfl⟩ rfl⟩
  | outbound table =>
    have run := tracked.down.run.outboundData table
    have notice (msg : MpscMsgNode)
        (member : msg ∈ (wtHandleOutboundData world.stdcl table).notices) := outboundNotice member
    rw [← List.append_nil world.enqueued] at run
    have after := awaits.serve run (SendsOnly.wtHandleOutboundData _ _)
      (KeepsSession.wtHandleOutboundData _ _).toKeepsName
      (fun msg member => by
        obtain ⟨⟨subjectName, rfl⟩, _⟩ := notice msg member
        exact downFrame_disconnectNotice _)
      (fun _ none => (List.not_mem_nil none).elim)
      (fun unanswered => List.eq_nil_iff_forall_not_mem.mpr fun msg member =>
        (notice msg member).2 (condition unanswered))
    rwa [List.append_nil] at after
  | @queued resumeTable dequeueTable arrived result call =>
    have run := tracked.down.run.queuedMessages resumeTable dequeueTable arrived call
    have keeps := KeepsSession.wtHandleQueuedMessages call
    have notice (msg : MpscMsgNode) (member : msg ∈ result.notices) := queuedNotice call member
    refine awaits.serve run (SendsOnly.wtHandleQueuedMessages call)
      ⟨keeps.username, keeps.keySize, keeps.clState⟩ (fun msg member => ?_) (fun msg member => ?_)
      (fun unanswered => List.eq_nil_iff_forall_not_mem.mpr fun msg member =>
        (notice msg member).2 (condition.1 unanswered))
    · obtain ⟨⟨subjectName, rfl⟩, _⟩ := notice msg member
      exact downFrame_disconnectNotice _
    · obtain ⟨new, inside, rfl⟩ := List.mem_map.mp member
      exact condition.2 new inside
  | enqueue msg => exact awaits.enqueue msg condition

end Steps

/-- When a session begins, `cmd_sendfile` does not wait. -/
theorem UploadSession.awaits {start : UploadWorld} (session : UploadSession start) :
    Awaits start start := by
  have down : Downlink start.stdcl start.stdcl start.ctx start.generated start.enqueued
      start.handled := by
    refine ⟨session.newSession, session.noAccepted, ?_, ?_, ?_, ?_, fun _ => ?_, fun dead => ?_⟩
    · rw [session.noGenerated, session.noEnqueued]
      exact .start
    · rw [session.noGenerated]
      simp
    · rw [session.noEnqueued]
      simp
    · rw [session.noHandled]
      simp
    · rw [session.noHandled, session.noBuffer, session.nothingOnTheWay, session.noAccepted]
      rfl
    · exact absurd (session.connected.symm.trans dead) (by decide)
  refine Tracked.awaits ⟨down, .inr ⟨session.newSession.authenticated, ?_⟩, fun _ => ?_, fun _ => ?_,
    ?_, ?_⟩ (by rw [session.idle]; rfl)
  · rw [session.fresh]
    exact CurrRecvMsg.waiting_fresh
  · rw [UploadWorld.ahead, session.noIncoming, session.fresh]
    exact Nat.zero_le _
  · rw [session.noAnswers]
    simp
  · rw [session.noAnswers]
    simp
  · rw [session.noDecisions]
    simp

/-- `cmd_sendfile` goes on with a file exactly if the server accepted its header, in every state of a
run whose steps meet the condition: a file that does not fit into its PDU is sent when all is quiet,
and until the server has come to its verdict nobody is notified about anybody. -/
theorem sendfile_decisions_match {start world : UploadWorld}
    {history : List (UploadWorld × UploadEvent)} (session : UploadSession start)
    (run : Traced UploadWorld.step start history world)
    (condition : ∀ visited ∈ history, KeepsAnswers visited.1 visited.2) :
    world.DecisionsMatch := by
  have awaits : Awaits start world := run.invariant session.awaits
    fun visited member awaits next taken => awaits.step (condition visited member) taken
  intro decision member
  obtain ⟨verdict, has, agrees⟩ := awaits.tracked.decided decision member
  constructor
  · intro made
    rw [← agrees.mp made]
    exact has.1
  · intro accepted
    exact agrees.mpr (has.2 _ accepted).symm

/-! ### Two runs -/

/-- A session whose two connections take and give what they are asked for. -/
def uploadStart : UploadWorld where
  stdcl := { sendingClient [] with
    connection := { (sendingClient []).connection with
      sendEvents := List.replicate 16 (.upTo 4096) } }
  ctx := readingClient [] []
  phase := .idle
  sent := 0
  headers := []
  answers := []
  decisions := []
  generated := []
  enqueued := []
  handled := []

theorem uploadStart_session : UploadSession uploadStart :=
  ⟨⟨rfl, rfl, rfl, rfl⟩, rfl, rfl, rfl, rfl, rfl, rfl, rfl, rfl, rfl, rfl, rfl, rfl, rfl, rfl⟩

/-- A file that is one byte longer than its first PDU. -/
def oneByteMore : Bytes := List.replicate (lwmpPduBufSize + 1) 120

/-- The server takes texts, but no files. The client sends a text, whose response is on the way when
the client begins with a file. -/
def responseOfText : List UploadEvent :=
  let env := { everyoneIsHere with allowFileTransfers := false }
  [.cmdMsg (ofLiteral "bob") (ofLiteral "hi") 8192, .inbound env [.upTo 4096, .upTo 4096],
    .cmdSendfile (ofLiteral "bob") (ofLiteral "a.txt") oneByteMore 8192,
    .clrecvFill [.upTo 4096], .clrecvTurn, .awaitResp, .sendChunk 8192,
    .inbound env [.upTo 4096, .upTo 4096]]

/-- The response to the text is taken for the answer to the file, which is sent although the server
does not accept it. -/
theorem sendfile_takes_other_response : ∃ start history world, UploadSession start ∧
    Traced UploadWorld.step start history world ∧ ¬ world.DecisionsMatch := by
  have executed : (traceAll UploadWorld.step uploadStart responseOfText).any
      (fun (_, world) => decide (¬ world.DecisionsMatch)) = true := by
    decide +kernel
  obtain ⟨⟨history, world⟩, traced, differs⟩ := (Option.any_eq_true _ _).mp executed
  exact ⟨uploadStart, history, world, uploadStart_session, Traced.start.traceAll traced,
    of_decide_eq_true differs⟩

/-- The client waits for the response to a text, and sends the file afterwards. -/
def fileWhenQuiet : List UploadEvent :=
  [.cmdMsg (ofLiteral "bob") (ofLiteral "hi") 8192, .inbound everyoneIsHere [.upTo 4096, .upTo 4096],
    .clrecvFill [.upTo 4096], .clrecvTurn,
    .cmdSendfile (ofLiteral "bob") (ofLiteral "a.txt") oneByteMore 8192,
    .inbound everyoneIsHere [.upTo 4096, .upTo 4096], .clrecvFill [.upTo 4096], .clrecvTurn,
    .awaitResp, .sendChunk 8192, .pumpEnds]

theorem sendfile_decisions_match_when_quiet : ∃ history world,
    Traced UploadWorld.step uploadStart history world ∧ history.map Prod.snd = fileWhenQuiet ∧
      world.decisions.map Prod.snd = [true] ∧ world.DecisionsMatch := by
  have executed : (traceAll UploadWorld.step uploadStart fileWhenQuiet).any
      (fun (history, world) => decide (∀ visited ∈ history, KeepsAnswers visited.1 visited.2) &&
        decide (world.decisions.map Prod.snd = [true])) = true := by
    decide +kernel
  obtain ⟨⟨history, world⟩, traced, held⟩ := (Option.any_eq_true _ _).mp executed
  obtain ⟨condition, made⟩ := Bool.and_eq_true_iff.mp held
  have run := Traced.start.traceAll traced
  exact ⟨history, world, run, traceAll_events traced, of_decide_eq_true made,
    sendfile_decisions_match uploadStart_session run (of_decide_eq_true condition)⟩

end Lwmsg
