/-
This file puts one client and its server together. The client runs its commands
`cmd_msg`, `cmd_userlist` and `cmd_sendfile`, and reads what arrives; the server runs
the handlers of a worker for this client, while others enqueue messages for it. What
one end has sent and the other one has not read is on the way, in both directions.

`cmd_sendfile` is cut where it waits: in `await_resp`, at the head of its loop, and in
`pump_socket_once`, which may receive more than once here. What it prints is left out,
and so is a file that cannot be opened or whose first bytes cannot be read, because then
it sends nothing.

Four fields of the world only record what happened: where the header of each PDU of the
client begins in its stream, at which places the server came to a verdict about a header,
and what `cmd_sendfile` made of the response it took for the answer to its header.
-/

import Lwmsg.Authentication
import Lwmsg.Downlink
import Lwmsg.PduArrival

namespace Lwmsg

open Bytes Pointers

/-! ### What the client sends -/

/-- The name of the recipient, as `cmd_msg` and `cmd_sendfile` take it from a token. -/
def recipientName (token : Bytes) : Bytes :=
  strncpy unamesize (normalizeString (strncpy (unamesize - 1) token ++ [0]))

/-- The PDU of `cmd_msg`, if there is one: the text is a string, and its NUL is sent too. -/
def cmdMsgPdu (token line : Bytes) : Option Bytes :=
  let msgText := cString line
  if msgText = [] then none
  else if msgText.length + 1 > lwmpPduBufSize then none
  else some (lwmpHdr MsgType.msg.code (recipientName token) (List.replicate optdataLen 0)
    (msgText.length + 1) ++ (msgText ++ [0]))

/-- The PDU of `cmd_userlist`. -/
def userlistPdu : Bytes :=
  lwmpHdr MsgType.req.code (List.replicate unamesize 0)
    (beBytes 4 reqUserList ++ List.replicate (optdataLen - 4) 0) 0

/-- The PDU of `cmd_sendfile`, with the first bytes of the file. -/
def sendfilePdu (token filename content : Bytes) : Bytes :=
  lwmpHdr MsgType.file.code (recipientName token) (strncpy (optdataLen - 1) filename ++ [0])
    content.length ++ content.take lwmpPduBufSize

/-! ### The two parties -/

/-- Where `cmd_sendfile` is, with the bytes of the file that it has not sent. In `await_resp` it waits
for the answer to the header at some place of the stream. -/
inductive SendfilePhase
  | idle
  | awaiting (header : Nat) (remaining : Bytes)
  | sending (remaining : Bytes)
  | pumping (remaining : Bytes)
  deriving DecidableEq, Repr

/-- The header whose answer it waits for. -/
def SendfilePhase.awaited : SendfilePhase → Option Nat
  | .awaiting header _ => some header
  | _ => none

/-- The client as the server has it, and the client itself. Each of them holds the bytes on the way
to it. So many bytes were `sent` by the client; the lists below it record what happened. -/
structure UploadWorld where
  stdcl : StdClient
  ctx : ClientCtx
  phase : SendfilePhase
  sent : Nat
  headers : List Nat
  answers : List (Nat × HdrValidationStatus)
  decisions : List (Nat × Bool)
  generated : List MpscMsgNode
  enqueued : List MpscMsgNode
  handled : List Bytes

/-- What can happen. A command names how many bytes its connection takes before it breaks. -/
inductive UploadEvent
  | cmdMsg (token line : Bytes) (limit : Nat)
  | cmdUserlist (limit : Nat)
  | cmdSendfile (token filename content : Bytes) (limit : Nat)
  | awaitTimeout
  | awaitFails
  | awaitResp
  | sendChunk (limit : Nat)
  | freadFails
  | pumpEnds
  | clrecvFill (recvEvents : List NetEvent)
  | clrecvTurn
  | inbound (env : InboundEnv) (recvEvents : List NetEvent)
  | outbound (table : ClientTable)
  | queued (resumeTable dequeueTable : ClientTable) (arrived : List NewMsg)
  | enqueue (msg : NewMsg)

/-- The verdict of a call over a header, if it came to one. -/
def InboundExit.verdict : InboundExit → Option HdrValidationStatus
  | .rejected reason _ => some reason
  | .requestServed | .pduUnreachable _ | .pduForwarded => some .ok
  | _ => none

namespace UploadWorld

/-- Bytes of the client are on the way to the server. -/
def upstream (world : UploadWorld) (bytes : Bytes) : UploadWorld :=
  { world with
    stdcl := { world.stdcl with connection := { world.stdcl.connection with
      incoming := world.stdcl.connection.incoming ++ bytes } }
    sent := world.sent + bytes.length }

/-- `send_all`, whose connection breaks behind some bytes. A send that blocks is repeated. -/
def sendAll (world : UploadWorld) (limit : Nat) (data : Bytes) : Bool × UploadWorld :=
  (decide (data.length ≤ limit), world.upstream (data.take limit))

/-- A command sends a PDU. -/
def sendPdu (world : UploadWorld) (limit : Nat) (pdu : Bytes) : Bool × UploadWorld :=
  { world with headers := world.headers ++ [world.sent] }.sendAll limit pdu

/-- `cmd_sendfile` up to `await_resp`, which it calls for a file that does not fit into its PDU. -/
def cmdSendfile (world : UploadWorld) (token filename content : Bytes) (limit : Nat) :
    UploadWorld :=
  match world.sendPdu limit (sendfilePdu token filename content) with
  | (false, next) => next
  | (true, next) =>
    if content.length > lwmpPduBufSize then
      { next with
        ctx := { next.ctx with transferError := false, awaitingResp := true }
        phase := .awaiting world.sent (content.drop lwmpPduBufSize) }
    else next

/-- `cmd_sendfile` behind `await_resp`, which has a response or has lost the connection. -/
def afterAwaitResp (world : UploadWorld) (header : Nat) (remaining : Bytes) : UploadWorld :=
  if ¬ world.ctx.connected then { world with phase := .idle }
  else if world.ctx.lastRespCode ≠ respCodes .ok then
    { world with phase := .idle, decisions := world.decisions ++ [(header, false)] }
  else
    { world with
      ctx := { world.ctx with sendingChunks := true }
      phase := .sending remaining
      decisions := world.decisions ++ [(header, true)] }

/-- `cmd_sendfile` is left behind its loop. -/
def endSendfile (world : UploadWorld) : UploadWorld :=
  { world with ctx := { world.ctx with sendingChunks := false }, phase := .idle }

/-- The loop of `cmd_sendfile` up to `pump_socket_once`. -/
def sendChunk (world : UploadWorld) (remaining : Bytes) (limit : Nat) : UploadWorld :=
  match world.sendAll limit (remaining.take lwmpMaxPduSize) with
  | (false, next) => next.endSendfile
  | (true, next) => { next with phase := .pumping (remaining.drop lwmpMaxPduSize) }

/-- The loop behind `pump_socket_once`. -/
def afterPump (world : UploadWorld) (remaining : Bytes) : UploadWorld :=
  if ¬ world.ctx.connected ∨ world.ctx.transferError then world.endSendfile
  else if remaining = [] then world.endSendfile
  else { world with phase := .sending remaining }

/-- The client has parsed all that it received. -/
def Parsed (world : UploadWorld) : Prop := (clrecvStep world.ctx).isNone = true

/-- The client takes its next command. -/
def AtPrompt (world : UploadWorld) : Prop :=
  world.phase = .idle ∧ world.ctx.connected = true ∧ world.Parsed

instance (world : UploadWorld) : Decidable world.Parsed := inferInstanceAs (Decidable (_ = _))

instance (world : UploadWorld) : Decidable world.AtPrompt := inferInstanceAs (Decidable (_ ∧ _))

/-- The client is not in the part of the loop that sends. -/
def receives (world : UploadWorld) : Bool :=
  match world.phase with
  | .sending _ => false
  | _ => true

/-- The client as the server has it when a call begins to receive. -/
def receiving (world : UploadWorld) (recvEvents : List NetEvent) : StdClient :=
  { world.stdcl with connection := { world.stdcl.connection with recvEvents } }

/-- What the server's connection accepted in a handler is on the way. -/
def serve (world : UploadWorld) (after : StdClient) (made : List MpscMsgNode) : UploadWorld :=
  { world with
    stdcl := after
    ctx := { world.ctx with connection := { world.ctx.connection with
      incoming := world.ctx.connection.incoming ++
        after.connection.accepted.drop world.stdcl.connection.accepted.length } }
    generated := world.generated ++ made }

/-- The place of the header that a call came to a verdict about, with the verdict. -/
def answerOf (world : UploadWorld) (stdcl : StdClient) (result : InboundResult) :
    List (Nat × HdrValidationStatus) :=
  match pduRead stdcl, result.exit.verdict with
  | some pdu, some verdict =>
    [(world.sent - result.stdcl.connection.incoming.length - pdu.length, verdict)]
  | _, _ => []

/-- `wt_handle_inbound_data` for the client. -/
def inbound (world : UploadWorld) (env : InboundEnv) (recvEvents : List NetEvent) : UploadWorld :=
  let stdcl := world.receiving recvEvents
  let result := wtHandleInboundData env stdcl
  { world.serve result.stdcl result.responses with
    answers := world.answers ++ world.answerOf stdcl result }

/-- One step, or nothing where it cannot happen. The list of users that a call copies is in memory,
so its size and the size of a header fit into a `uint64_t`. -/
def step (world : UploadWorld) : UploadEvent → Option UploadWorld
  | .cmdMsg token line limit =>
    if world.AtPrompt then (cmdMsgPdu token line).map fun pdu => (world.sendPdu limit pdu).2
    else none
  | .cmdUserlist limit =>
    if world.AtPrompt then some (world.sendPdu limit userlistPdu).2 else none
  | .cmdSendfile token filename content limit =>
    if world.AtPrompt ∧ 0 < content.length ∧ content.length < 2 ^ 63 then
      some (world.cmdSendfile token filename content limit)
    else none
  | .awaitTimeout =>
    match world.phase with
    | .awaiting _ _ =>
      if world.ctx.awaitingResp ∧ world.ctx.connected ∧ world.Parsed then
        some { world with ctx := { world.ctx with awaitingResp := false }, phase := .idle }
      else none
    | _ => none
  | .awaitFails =>
    match world.phase with
    | .awaiting _ _ =>
      if world.ctx.awaitingResp ∧ world.ctx.connected ∧ world.Parsed then
        some { world with phase := .idle }
      else none
    | _ => none
  | .awaitResp =>
    match world.phase with
    | .awaiting header remaining =>
      if ¬ (world.ctx.awaitingResp ∧ world.ctx.connected) ∧ world.Parsed then
        some (world.afterAwaitResp header remaining)
      else none
    | _ => none
  | .sendChunk limit =>
    match world.phase with
    | .sending remaining => some (world.sendChunk remaining limit)
    | _ => none
  | .freadFails =>
    match world.phase with
    | .sending _ => some world.endSendfile
    | _ => none
  | .pumpEnds =>
    match world.phase with
    | .pumping remaining => if world.Parsed then some (world.afterPump remaining) else none
    | _ => none
  | .clrecvFill recvEvents =>
    if world.receives ∧ world.ctx.connected ∧ world.Parsed then
      some { world with ctx := (Lwmsg.clrecvFill { world.ctx with
        connection := { world.ctx.connection with recvEvents } }).2 }
    else none
  | .clrecvTurn =>
    if world.receives then
      (clrecvStep world.ctx).map fun (item, ctx) => { world with
        ctx
        handled := world.handled ++ match item with
          | .frame frame => [frame]
          | .resync => [] }
    else none
  | .inbound env recvEvents =>
    if lwmpHdrSize + env.userList.length < 2 ^ 64 then some (world.inbound env recvEvents)
    else none
  | .outbound table =>
    let result := wtHandleOutboundData world.stdcl table
    some (world.serve result.stdcl result.notices)
  | .queued resumeTable dequeueTable arrived =>
    (wtHandleQueuedMessages world.stdcl resumeTable dequeueTable (arrived.map (·.1))).map
      fun result => { world.serve result.stdcl result.notices with
        enqueued := world.enqueued ++ arrived.map (·.1) }
  | .enqueue msg =>
    some { world with
      stdcl := { world.stdcl with
        pendingUserdataQueue := world.stdcl.pendingUserdataQueue ++ [msg.1] }
      enqueued := world.enqueued ++ [msg.1] }

/-- What each event does where it happens. -/
inductive Taken (world : UploadWorld) : UploadEvent → UploadWorld → Prop
  | cmdMsg {token line pdu} (limit : Nat) (prompt : world.AtPrompt)
      (made : cmdMsgPdu token line = some pdu) :
      Taken world (.cmdMsg token line limit) (world.sendPdu limit pdu).2
  | cmdUserlist (limit : Nat) (prompt : world.AtPrompt) :
      Taken world (.cmdUserlist limit) (world.sendPdu limit userlistPdu).2
  | cmdSendfile {content} (token filename : Bytes) (limit : Nat) (prompt : world.AtPrompt)
      (some : 0 < content.length) (small : content.length < 2 ^ 63) :
      Taken world (.cmdSendfile token filename content limit)
        (world.cmdSendfile token filename content limit)
  | awaitTimeout {header remaining} (phase : world.phase = .awaiting header remaining) :
      Taken world .awaitTimeout
        { world with ctx := { world.ctx with awaitingResp := false }, phase := .idle }
  | awaitFails {header remaining} (phase : world.phase = .awaiting header remaining) :
      Taken world .awaitFails { world with phase := .idle }
  | awaitResp {header remaining} (phase : world.phase = .awaiting header remaining)
      (ends : ¬ (world.ctx.awaitingResp ∧ world.ctx.connected)) :
      Taken world .awaitResp (world.afterAwaitResp header remaining)
  | sendChunk {remaining} (limit : Nat) (phase : world.phase = .sending remaining) :
      Taken world (.sendChunk limit) (world.sendChunk remaining limit)
  | freadFails {remaining} (phase : world.phase = .sending remaining) :
      Taken world .freadFails world.endSendfile
  | pumpEnds {remaining} (phase : world.phase = .pumping remaining) :
      Taken world .pumpEnds (world.afterPump remaining)
  | clrecvFill (recvEvents : List NetEvent) (connected : world.ctx.connected = true) :
      Taken world (.clrecvFill recvEvents)
        { world with ctx := (Lwmsg.clrecvFill { world.ctx with
          connection := { world.ctx.connection with recvEvents } }).2 }
  | clrecvFrame {frame ctx} (turn : clrecvStep world.ctx = some (.frame frame, ctx)) :
      Taken world .clrecvTurn { world with ctx, handled := world.handled ++ [frame] }
  | clrecvResync {ctx} (turn : clrecvStep world.ctx = some (.resync, ctx)) :
      Taken world .clrecvTurn { world with ctx }
  | inbound {env} (recvEvents : List NetEvent)
      (fits : lwmpHdrSize + env.userList.length < 2 ^ 64) :
      Taken world (.inbound env recvEvents) (world.inbound env recvEvents)
  | outbound (table : ClientTable) :
      Taken world (.outbound table)
        (world.serve (wtHandleOutboundData world.stdcl table).stdcl
          (wtHandleOutboundData world.stdcl table).notices)
  | queued {resumeTable dequeueTable arrived result}
      (call : wtHandleQueuedMessages world.stdcl resumeTable dequeueTable (arrived.map (·.1)) =
        some result) :
      Taken world (.queued resumeTable dequeueTable arrived)
        { world.serve result.stdcl result.notices with
          enqueued := world.enqueued ++ arrived.map (·.1) }
  | enqueue (msg : NewMsg) :
      Taken world (.enqueue msg) { world with
        stdcl := { world.stdcl with
          pendingUserdataQueue := world.stdcl.pendingUserdataQueue ++ [msg.1] }
        enqueued := world.enqueued ++ [msg.1] }

theorem step_taken {world next : UploadWorld} {event : UploadEvent}
    (taken : world.step event = some next) : Taken world event next := by
  cases event with
  | cmdMsg token line limit =>
    rw [step] at taken
    split at taken
    · rename_i prompt
      obtain ⟨pdu, made, rfl⟩ := Option.map_eq_some_iff.mp taken
      exact .cmdMsg limit prompt made
    · cases taken
  | cmdUserlist limit =>
    rw [step] at taken
    split at taken
    · rename_i prompt
      obtain rfl := Option.some.inj taken
      exact .cmdUserlist limit prompt
    · cases taken
  | cmdSendfile token filename content limit =>
    rw [step] at taken
    split at taken
    · rename_i ready
      obtain rfl := Option.some.inj taken
      exact .cmdSendfile token filename limit ready.1 ready.2.1 ready.2.2
    · cases taken
  | awaitTimeout =>
    rw [step] at taken
    split at taken
    · rename_i header remaining phase
      split at taken
      · obtain rfl := Option.some.inj taken
        exact .awaitTimeout phase
      · cases taken
    · cases taken
  | awaitFails =>
    rw [step] at taken
    split at taken
    · rename_i header remaining phase
      split at taken
      · obtain rfl := Option.some.inj taken
        exact .awaitFails phase
      · cases taken
    · cases taken
  | awaitResp =>
    rw [step] at taken
    split at taken
    · rename_i header remaining phase
      split at taken
      · rename_i ends
        obtain rfl := Option.some.inj taken
        exact .awaitResp phase ends.1
      · cases taken
    · cases taken
  | sendChunk limit =>
    rw [step] at taken
    split at taken
    · rename_i remaining phase
      obtain rfl := Option.some.inj taken
      exact .sendChunk limit phase
    · cases taken
  | freadFails =>
    rw [step] at taken
    split at taken
    · rename_i remaining phase
      obtain rfl := Option.some.inj taken
      exact .freadFails phase
    · cases taken
  | pumpEnds =>
    rw [step] at taken
    split at taken
    · rename_i remaining phase
      split at taken
      · obtain rfl := Option.some.inj taken
        exact .pumpEnds phase
      · cases taken
    · cases taken
  | clrecvFill recvEvents =>
    rw [step] at taken
    split at taken
    · rename_i ready
      obtain rfl := Option.some.inj taken
      exact .clrecvFill recvEvents ready.2.1
    · cases taken
  | clrecvTurn =>
    rw [step] at taken
    split at taken
    · obtain ⟨⟨item, ctx⟩, turn, rfl⟩ := Option.map_eq_some_iff.mp taken
      cases item with
      | frame frame => exact .clrecvFrame turn
      | resync =>
        simp only [List.append_nil]
        exact .clrecvResync turn
    · cases taken
  | inbound env recvEvents =>
    rw [step] at taken
    split at taken
    · rename_i fits
      obtain rfl := Option.some.inj taken
      exact .inbound recvEvents fits
    · cases taken
  | outbound table =>
    obtain rfl := Option.some.inj taken
    exact .outbound table
  | queued resumeTable dequeueTable arrived =>
    rw [step] at taken
    obtain ⟨result, call, rfl⟩ := Option.map_eq_some_iff.mp taken
    exact .queued call
  | enqueue msg =>
    obtain rfl := Option.some.inj taken
    exact .enqueue msg

end UploadWorld

/-- A session that begins: nothing is on the way, nothing waits and nothing was sent. -/
structure UploadSession (world : UploadWorld) : Prop where
  newSession : NewSession world.stdcl
  fresh : world.stdcl.tempRecvStorage = .fresh
  noIncoming : world.stdcl.connection.incoming = []
  noAccepted : world.stdcl.connection.accepted = []
  connected : world.ctx.connected = true
  noBuffer : world.ctx.recvBuf = []
  nothingOnTheWay : world.ctx.connection.incoming = []
  idle : world.phase = .idle
  noSent : world.sent = 0
  noHeaders : world.headers = []
  noAnswers : world.answers = []
  noDecisions : world.decisions = []
  noGenerated : world.generated = []
  noEnqueued : world.enqueued = []
  noHandled : world.handled = []

end Lwmsg
