/-
This file follows messages from the prompts of their senders to the screen of one recipient:
`cmd_msg` and `cmd_sendfile` of the senders, `wt_handle_inbound_data` for each of them,
the queue of the recipient and the handlers that send it, and `clrecv_fill` and
`clrecv_parse` of the recipient. All of them take their steps in any order, bytes move in
any portions, and the recipient gets answers and notices of its own in between.

The frames that the recipient takes under the name of a sender are the frames of what the
sender typed, one behind the other. Each part of the way is proved elsewhere; here they are
put together, and what the recipient sees is read off its frames.
-/

import Lwmsg.ClientView
import Lwmsg.Delivery
import Lwmsg.Forwarding
import Lwmsg.Upload

namespace Lwmsg

open Bytes Pointers

/-! ### What is typed -/

/-- A text of `cmd_msg` or a file of `cmd_sendfile`. -/
inductive TypedMsg
  | text (token line : Bytes)
  | file (token filename content : Bytes)
  deriving DecidableEq, Repr

namespace TypedMsg

/-- The message it becomes. -/
def msg : TypedMsg → ClientMsg
  | text token line =>
    ⟨.msg, recipientName token, List.replicate optdataLen 0, cString line ++ [0]⟩
  | file token filename content =>
    ⟨.file, recipientName token, strncpy (optdataLen - 1) filename ++ [0], content⟩

/-- The command sends it: a text that is not empty and not too long, or a file that is not empty. -/
def Sent : TypedMsg → Prop
  | text _ line => cString line ≠ [] ∧ (cString line).length + 1 ≤ lwmpPduBufSize
  | file _ _ content => 0 < content.length ∧ content.length < 2 ^ 63

instance (typed : TypedMsg) : Decidable typed.Sent :=
  match typed with
  | text _ line => inferInstanceAs (Decidable (cString line ≠ [] ∧ _))
  | file _ _ content => inferInstanceAs (Decidable (0 < content.length ∧ _))

/-- `cmd_msg` sends exactly the message. -/
theorem cmdMsgPdu_eq (token line : Bytes) :
    cmdMsgPdu token line = if (text token line).Sent then some (text token line).msg.wire else none := by
  rw [cmdMsgPdu]
  split
  · rename_i empty
    rw [if_neg fun sent => sent.1 empty]
  · rename_i some
    split
    · rename_i long
      rw [if_neg fun sent => absurd sent.2 (not_le.mpr long)]
    · rename_i short
      rw [if_pos ⟨some, not_lt.mp short⟩, msg, ClientMsg.wire, ClientMsg.hdr, List.length_append,
        List.length_singleton]

/-- `cmd_sendfile` sends the message in its PDU and behind it. -/
theorem sendfilePdu_append (token filename content : Bytes) :
    sendfilePdu token filename content ++ content.drop lwmpPduBufSize =
      (file token filename content).msg.wire := by
  rw [sendfilePdu, List.append_assoc, List.take_append_drop]
  rfl

theorem Sent.sendable {typed : TypedMsg} (sent : typed.Sent) : typed.msg.Sendable := by
  cases typed with
  | text token line =>
    have short := sent.2
    refine ⟨.inl rfl, length_strncpy _ _, List.length_replicate, ?_⟩
    show lwmpHdrSize + (cString line ++ [0]).length < 2 ^ 64
    rw [List.length_append, List.length_singleton]
    simp only [lwmpPduBufSize, lwmpMaxPduSize, lwmpHdrSize] at short ⊢
    omega
  | file token filename content =>
    have short := sent.2
    refine ⟨.inr rfl, length_strncpy _ _, ?_, ?_⟩
    · show (strncpy (optdataLen - 1) filename ++ [0]).length = optdataLen
      rw [List.length_append, length_strncpy]
      rfl
    · show lwmpHdrSize + content.length < 2 ^ 64
      simp only [lwmpHdrSize]
      omega

end TypedMsg

/-! ### Frames under a name -/

/-- The name under which a frame is shown, if it is one of another client. -/
def frameSender (frame : Bytes) : Option Bytes :=
  if LwmpPdu.hdrMark frame = pduSyncHdrMark then
    if LwmpPdu.msgType frame = MsgType.msg.code ∨ LwmpPdu.msgType frame = MsgType.file.code then
      some (senderName (LwmpPdu.subjectUname frame))
    else none
  else if LwmpChunk.chHdrMark frame = chunkSyncHdrMark then
    some (senderName (LwmpChunk.subjectUname frame))
  else none

/-- An answer of the server or a notice. -/
structure ControlFrame (frame : Bytes) : Prop where
  whole : PduFrame frame
  word : frame.length < 2 ^ 64
  control : LwmpPdu.msgType frame = MsgType.info.code ∨ LwmpPdu.msgType frame = MsgType.req.code

/-- The frames under one name. -/
def framesFrom (name : Bytes) (frames : List Bytes) : List Bytes :=
  frames.filter fun frame => frameSender frame = some name

@[simp] theorem framesFrom_append (name : Bytes) (first second : List Bytes) :
    framesFrom name (first ++ second) = framesFrom name first ++ framesFrom name second :=
  List.filter_append ..

theorem ControlFrame.downFrame {frame : Bytes} (control : ControlFrame frame) : DownFrame frame :=
  ⟨.inl control.whole, control.word⟩

theorem ControlFrame.frameSender {frame : Bytes} (control : ControlFrame frame) :
    frameSender frame = none := by
  have other : ¬ (LwmpPdu.msgType frame = MsgType.msg.code ∨
      LwmpPdu.msgType frame = MsgType.file.code) := by
    rcases control.control with info | req
    · rw [info]
      decide
    · rw [req]
      decide
  rw [Lwmsg.frameSender, if_pos control.whole.mark, if_neg other]

theorem controlFrame_disconnectNotice (name : Bytes) : ControlFrame (disconnectNotice name).buf := by
  obtain ⟨whole, small⟩ := responseNode_pduFrame (respCodes .invalSubj) (some (disconnectText name))
    (show MsgType.info ≠ .file by decide) (length_disconnectText name)
  refine ⟨whole, small.trans_lt (by decide), .inl ?_⟩
  obtain ⟨body, notice⟩ := disconnectNotice_buf name
  rw [notice, msgType_lwmpHdr (by decide)]

theorem senderName_strncpy_unamesize (username : Bytes) :
    senderName (strncpy unamesize username) = senderName username := by
  have copied := senderName_strncpy username []
  rwa [List.append_nil] at copied

/-- What a client sent is shown under its name. -/
theorem SentBy.frameSender {username frame : Bytes} (sent : SentBy username frame) :
    frameSender frame = some (senderName username) := by
  cases sent with
  | pdu whole message subject length =>
    rw [Lwmsg.frameSender, if_pos whole.mark, if_pos message, subject, senderName_strncpy_unamesize]
  | chunk whole subject some fits =>
    have noPdu : LwmpPdu.hdrMark frame ≠ pduSyncHdrMark := whole.not_pdu
    rw [Lwmsg.frameSender, if_neg noPdu, if_pos whole.mark, subject, senderName_strncpy_unamesize]

theorem SentBy.downFrame {username frame : Bytes} (sent : SentBy username frame) :
    DownFrame frame ∧ isInfo frame = false := by
  refine ⟨⟨sent.serverFrame.1, sent.serverFrame.2.trans_lt (by decide)⟩, ?_⟩
  cases sent with
  | pdu whole message subject length =>
    rw [Bool.eq_false_iff, Ne, whole.isInfo_iff]
    rcases message with text | file
    · rw [text]
      decide
    · rw [file]
      decide
  | chunk whole subject some fits => exact whole.isInfo

/-! ### Frames of units -/

/-- The server only takes texts that fit into one PDU, and `cmd_msg` sends no other and none that is
empty. -/
def ClientMsg.Whole (msg : ClientMsg) : Prop :=
  msg.msgType = .msg → msg.payload ≠ [] ∧ msg.payload.length ≤ lwmpPduBufSize

theorem TypedMsg.Sent.whole {typed : TypedMsg} (sent : typed.Sent) : typed.msg.Whole := by
  cases typed with
  | text token line =>
    intro _
    refine ⟨List.append_ne_nil_of_right_ne_nil _ (List.cons_ne_nil _ _), ?_⟩
    show (cString line ++ [0]).length ≤ lwmpPduBufSize
    rw [List.length_append, List.length_singleton]
    exact sent.2
  | file token filename content => exact fun text => by cases text

section Units

variable {msg : ClientMsg} {unit : RecvUnit} {username : Bytes}

theorem ClientMsg.Sendable.msgType_code_lt (sendable : msg.Sendable) : msg.msgType.code < 256 := by
  rcases sendable.byte with text | file
  · rw [text]
    decide
  · rw [file]
    decide

/-- The first PDU of a message reaches its recipient as a frame of its own. -/
theorem sentBy_forwardedPdu (sendable : msg.Sendable) (whole : msg.Whole) (username : Bytes) :
    SentBy username (msg.forwardedPdu username).buf := by
  have subject : (strncpy unamesize username).length = unamesize := length_strncpy _ _
  have header := @length_lwmpHdr msg.msgType.code msg.payload.length _ _ subject sendable.optional
  have type : LwmpPdu.msgType (msg.forwardedPdu username).buf = msg.msgType.code :=
    msgType_lwmpHdr sendable.msgType_code_lt
  have size : LwmpPdu.totalMsgSize (msg.forwardedPdu username).buf = msg.payload.length :=
    totalMsgSize_lwmpHdr subject sendable.optional sendable.size
  have length : (msg.forwardedPdu username).buf.length =
      lwmpHdrSize + min msg.payload.length lwmpPduBufSize := by
    rw [ClientMsg.forwardedPdu, List.length_append, header, List.length_take, Nat.min_comm]
  refine .pdu ⟨?_, hdrMark_lwmpHdr, crcMatches_lwmpHdr subject sendable.optional, ?_⟩ ?_
    (subjectUname_lwmpHdr subject) (by rw [length, size])
  · rw [length]
    exact Nat.le_add_right _ _
  · rw [length, wirePayload, type, size]
    split
    · rename_i long
      rw [Nat.min_eq_right (le_of_lt long.2)]
    · rename_i short
      rcases sendable.message with text | file
      · rw [Nat.min_eq_left (whole text).2]
      · rw [Nat.min_eq_left (not_lt.mp fun long => short ⟨by rw [file], long⟩)]
  · rw [type]
    exact sendable.byte

theorem sentBy_forwardedChunk {piece : Bytes} (some : piece ≠ [])
    (within : piece.length ≤ lwmpChunkBufSize) (username : Bytes) :
    SentBy username (forwardedChunk username piece).buf := by
  have filled := chunkNode_filled piece username
  have made : (forwardedChunk username piece).buf =
      lwmpPrepareChunk (msgNodeCreate none (lwmpChunkHdrSize + piece.length) (Option.some username)).buf
        piece.length username piece := by
    rw [← chunkNode_eq username within]
    rfl
  have size := @chunkSize_lwmpPrepareChunk _ username _ within filled
  rw [made]
  refine .chunk (chunkFrame_lwmpPrepareChunk within filled)
    (subjectUname_lwmpPrepareChunk within filled) ?_ ?_
  · rw [size]
    exact List.length_pos_iff.mpr some
  · rw [size]
    exact within

/-- Every unit reaches its recipient as a frame under the name of its sender. -/
theorem RecvUnit.Occurs.sentBy (occurs : unit.Occurs) (whole : unit.msg.Whole) (username : Bytes) :
    SentBy username (unit.item username).buf := by
  cases unit with
  | pdu msg => exact sentBy_forwardedPdu occurs.sendable whole username
  | chunk msg sent =>
    have inside := occurs.inside msg sent rfl
    refine sentBy_forwardedChunk ?_ (List.length_take_le _ _) username
    exact List.length_pos_iff.mp occurs.bytes_pos

/-- A text has something in it, so the client writes its NUL into the frame itself. -/
def NoEmptyText (frame : Bytes) : Prop :=
  LwmpPdu.hdrMark frame = pduSyncHdrMark → LwmpPdu.msgType frame = MsgType.msg.code →
    wirePayload frame ≠ 0

theorem hdrMark_forwardedChunk (username piece : Bytes) :
    LwmpPdu.hdrMark (forwardedChunk username piece).buf = chunkSyncHdrMark := by
  rw [forwardedChunk, LwmpPdu.hdrMark]
  simp only [List.append_assoc]
  rw [slice_append_self (length_beBytes _ _), beValue_beBytes _ _ (by decide)]

theorem noEmptyText_forwardedPdu (sendable : msg.Sendable) (whole : msg.Whole) (username : Bytes) :
    NoEmptyText (msg.forwardedPdu username).buf := by
  intro _ text
  have type : LwmpPdu.msgType (msg.forwardedPdu username).buf = msg.msgType.code :=
    msgType_lwmpHdr sendable.msgType_code_lt
  have size : LwmpPdu.totalMsgSize (msg.forwardedPdu username).buf = msg.payload.length :=
    totalMsgSize_lwmpHdr (length_strncpy _ _) sendable.optional sendable.size
  rw [wirePayload, text, if_neg fun file => absurd file.1 (by decide), size]
  rcases sendable.message with isText | isFile
  · exact (List.length_pos_iff.mpr (whole isText).1).ne'
  · rw [type, isFile] at text
    cases text

theorem RecvUnit.Occurs.noEmptyText (occurs : unit.Occurs) (whole : unit.msg.Whole)
    (username : Bytes) : NoEmptyText (unit.item username).buf := by
  cases unit with
  | pdu msg => exact noEmptyText_forwardedPdu occurs.sendable whole username
  | chunk msg sent =>
    intro mark _
    exact absurd ((hdrMark_forwardedChunk username _).symm.trans mark) (by decide)

theorem ControlFrame.noEmptyText {frame : Bytes} (control : ControlFrame frame) :
    NoEmptyText frame := by
  intro _ text
  rcases control.control with info | req
  · exact absurd (info.symm.trans text) (by decide)
  · exact absurd (req.symm.trans text) (by decide)

theorem Linked.occurs {state : CurrRecvMsg} {units : List RecvUnit} (linked : Linked state units) :
    ∀ unit ∈ units, unit.Occurs := by
  induction units generalizing state with
  | nil => exact fun unit member => absurd member List.not_mem_nil
  | cons unit units inductionHypothesis =>
    intro other member
    rcases List.mem_cons.mp member with rfl | later
    · exact linked.2.1
    · exact inductionHypothesis linked.2.2 other later

/-- The units of some messages, each of which can occur and belongs to one of them. -/
theorem units_of_messages {messages : List ClientMsg} (sendable : ∀ msg ∈ messages, msg.Sendable) :
    ∀ unit ∈ messages.flatMap ClientMsg.units, unit.Occurs ∧ unit.msg ∈ messages := by
  intro unit member
  refine ⟨(linked_messages messages sendable).occurs unit member, ?_⟩
  obtain ⟨msg, listed, inside⟩ := List.mem_flatMap.mp member
  rw [msg.units_msg unit inside]
  exact listed

end Units

/-! ### The way -/

/-- The sessions of all who send, the session of the recipient and its client, and what this client
has received. -/
structure PathWorld where
  senders : Addr → StdClient
  stdcl : StdClient
  ctx : ClientCtx
  received : List Reception

namespace PathWorld

/-- What a call for a sender forwards to the recipient waits in its queue. -/
def forward (world : PathWorld) (rcpt sender : Addr) (result : InboundResult) : PathWorld :=
  { world with
    senders := Function.update world.senders sender result.stdcl
    stdcl :=
      match result.forwarded with
      | some (addr, node) =>
        if addr = rcpt then
          { world.stdcl with
            pendingUserdataQueue := world.stdcl.pendingUserdataQueue ++ [node] }
        else world.stdcl
      | none => world.stdcl }

/-- What the connection of the recipient accepted in a handler is on the way to it. -/
def serve (world : PathWorld) (after : StdClient) : PathWorld :=
  { world with
    stdcl := after
    ctx := { world.ctx with connection := { world.ctx.connection with
      incoming := world.ctx.connection.incoming ++
        after.connection.accepted.drop world.stdcl.connection.accepted.length } } }

/-- `clrecv_fill`, and what it says if the connection is lost. -/
def fill (world : PathWorld) (recvEvents : List NetEvent) : PathWorld :=
  let ctx := { world.ctx with connection := { world.ctx.connection with recvEvents } }
  { world with
    ctx := (clrecvFill ctx).2
    received := world.received ++ if (clrecvFill ctx).1 then [] else [.disconnected] }

/-- What a turn of `clrecv_parse` leaves. -/
def took (world : PathWorld) (handled : Handled) (ctx : ClientCtx) : PathWorld :=
  { world with
    ctx
    received := world.received ++ match handled with
      | .frame bytes => [.frame bytes]
      | .resync => [] }

end PathWorld

section Path

variable (rcpt : Addr) (dest : ClientMsg → Addr) (messages : Addr → List ClientMsg)

/-- A run in which the senders stay: what a recipient dequeues is from a sender that is there. The
recipient may be cleaned up and may lose its connection at any time. -/
inductive PathRun (start : PathWorld) : PathWorld → Prop
  | start : PathRun start start
  | arrives {world after} (sender : Addr) (run : PathRun start world)
      (between : BetweenReliable (world.senders sender) after) :
      PathRun start { world with senders := Function.update world.senders sender after }
  | inbound {world} (sender : Addr) (env : InboundEnv) (run : PathRun start world)
      (accepts : ∀ msg ∈ messages sender, env.Accepts dest msg) :
      PathRun start
        (world.forward rcpt sender (wtHandleInboundData env (world.senders sender)))
  | serveResponse {world} (msg : NewMsg) (run : PathRun start world)
      (control : ControlFrame msg.1.buf) :
      PathRun start (world.serve (wtServeResponse world.stdcl msg.1))
  | outboundData {world} (table : ClientTable) (run : PathRun start world) :
      PathRun start (world.serve (wtHandleOutboundData world.stdcl table).stdcl)
  | queuedMessages {world result} (resumeTable dequeueTable : ClientTable)
      (run : PathRun start world) (here : DequeuedHere world.stdcl dequeueTable)
      (call : wtHandleQueuedMessages world.stdcl resumeTable dequeueTable [] = some result) :
      PathRun start (world.serve result.stdcl)
  | receive {world} (tempRecvStorage : CurrRecvMsg) (incoming : Bytes) (recvEvents : List NetEvent)
      (run : PathRun start world) :
      PathRun start { world with stdcl := { world.stdcl with
        tempRecvStorage
        connection := { world.stdcl.connection with incoming, recvEvents } } }
  | cleanup {world} (run : PathRun start world) :
      PathRun start { world with stdcl := cleanupStdClient world.stdcl }
  | fill {world} (recvEvents : List NetEvent) (run : PathRun start world)
      (live : world.ctx.connected = true) : PathRun start (world.fill recvEvents)
  | turn {world handled ctx} (run : PathRun start world)
      (step : clrecvStep world.ctx = some (handled, ctx)) : PathRun start (world.took handled ctx)
  | command {world} (awaitingResp sendingChunks transferError : Bool) (run : PathRun start world) :
      PathRun start { world with
        ctx := { world.ctx with awaitingResp, sendingChunks, transferError } }

/-- The sessions have just begun, those of the senders under different names, and what each of them
will send is on the way to the server. -/
structure PathStart (start : PathWorld) : Prop where
  sessions : ∀ sender, ReceivingSession (start.senders sender)
  reliable : ∀ sender, Reliable (start.senders sender)
  streams : ∀ sender, (start.senders sender).connection.incoming =
    (messages sender).flatMap ClientMsg.wire
  names : ∀ sender other, messages sender ≠ [] → messages other ≠ [] →
    senderName (start.senders sender).username = senderName (start.senders other).username →
    sender = other
  noSelf : messages rcpt = []
  session : NewSession start.stdcl
  unsent : start.stdcl.connection.accepted = []
  connected : start.ctx.connected = true
  empty : start.ctx.recvBuf = []
  nothing : start.ctx.connection.incoming = []
  unseen : start.received = []

/-- What is typed is sent as it is. -/
def AllSent : Prop := ∀ sender, ∀ msg ∈ messages sender, msg.Sendable ∧ msg.Whole

/-- Of what calls forwarded, this went to the recipient. -/
def toRecipient (log : List InboundResult) : List MpscMsgNode :=
  (log.filterMap (·.forwarded)).filterMap fun (addr, node) => if addr = rcpt then some node else none

/-- What holds on the way: each sender's bytes are forwarded as they come, what waits for the recipient
under the name of a sender is what was forwarded to it, nothing of it gets lost, and the client takes
whole frames off what the connection accepted. -/
structure PathInvariant (start world : PathWorld) (log : Addr → List InboundResult)
    (generated enqueued : List MpscMsgNode) (handled : List Bytes) : Prop where
  runs : ∀ sender, ForwardRun dest (messages sender) (start.senders sender) (log sender)
    (world.senders sender)
  down : Downlink start.stdcl world.stdcl world.ctx generated enqueued handled
  control : ∀ msg ∈ generated, ControlFrame msg.buf
  delivery : ∀ name, DeliveryRun name start.stdcl generated enqueued world.stdcl
  known : ∀ msg ∈ enqueued, ∃ sender, messages sender ≠ [] ∧
    SentBy (start.senders sender).username msg.buf ∧ NoEmptyText msg.buf ∧
    msg.subjectName = strncpy unamesize (start.senders sender).username
  forwarded : ∀ sender, messages sender ≠ [] →
    ofSender (start.senders sender).username enqueued = toRecipient rcpt (log sender)
  seen : world.received = handled.map .frame ∨
    world.ctx.connected = false ∧ world.received = handled.map .frame ++ [.disconnected]

end Path

theorem sameSubject_strncpy (username name : Bytes) :
    sameSubject (strncpy unamesize username) name = true ↔ senderName username = senderName name := by
  rw [sameSubject, beq_iff_eq]
  show senderName (strncpy unamesize username) = senderName name ↔ _
  rw [senderName_strncpy_unamesize]

theorem ofSender_singleton (name : Bytes) (msg : MpscMsgNode) :
    ofSender name [msg] = if sameSubject msg.subjectName name = true then [msg] else [] := by
  by_cases same : sameSubject msg.subjectName name = true
  · simp [ofSender, same]
  · simp [ofSender, same]

theorem toRecipient_append (rcpt : Addr) (log : List InboundResult) (result : InboundResult) :
    toRecipient rcpt (log ++ [result]) = toRecipient rcpt log ++ toRecipient rcpt [result] := by
  rw [toRecipient, List.filterMap_append, List.filterMap_append]
  rfl

theorem DequeuedHere.senderFound {stdcl : StdClient} {table : ClientTable}
    (here : DequeuedHere stdcl table) (name : Bytes) : SenderFound name stdcl table := by
  intro msg pendingUserdataQueue queue _
  rw [← Option.isSome_iff_ne_none]
  exact here msg (by rw [queue]; rfl)

/-- What a call forwards is a unit of its client. -/
theorem ForwardRun.forwarded_item {dest : ClientMsg → Addr} {messages : List ClientMsg}
    {start stdcl : StdClient} {log : List InboundResult} {env : InboundEnv} {addr : Addr}
    {node : MpscMsgNode} (session : ReceivingSession start) (reliable : Reliable start)
    (sendable : ∀ msg ∈ messages, msg.Sendable)
    (stream : start.connection.incoming = messages.flatMap ClientMsg.wire)
    (run : ForwardRun dest messages start log stdcl)
    (accepts : ∀ msg ∈ messages, env.Accepts dest msg)
    (forwards : (wtHandleInboundData env stdcl).forwarded = some (addr, node)) :
    ∃ unit ∈ messages.flatMap ClientMsg.units, node = unit.item start.username := by
  obtain ⟨done, left, transit⟩ :=
    (run.call env accepts).inTransit session reliable sendable stream
  have member : (addr, node) ∈ done.map (RecvUnit.delivery dest start.username) := by
    rw [← transit.forwarded]
    exact List.mem_filterMap.mpr ⟨_, List.mem_append_right _ (List.mem_singleton_self _), forwards⟩
  obtain ⟨unit, inside, same⟩ := List.mem_map.mp member
  refine ⟨unit, ?_, (congrArg Prod.snd same).symm⟩
  rw [transit.split]
  exact List.mem_append_left _ inside

namespace PathInvariant

variable {rcpt : Addr} {dest : ClientMsg → Addr} {messages : Addr → List ClientMsg}
  {start world : PathWorld} {log : Addr → List InboundResult}
  {generated enqueued : List MpscMsgNode} {handled : List Bytes}

theorem init (begun : PathStart rcpt messages start) :
    PathInvariant rcpt dest messages start start (fun _ => []) [] [] [] where
  runs := fun _ => .start
  down := ⟨begun.session, begun.unsent, .start, by simp, by simp, by simp,
    fun _ => by rw [begun.empty, begun.nothing, begun.unsent]; rfl,
    fun dead => by rw [begun.connected] at dead; cases dead⟩
  control := by simp
  delivery := fun _ => .start
  known := by simp
  forwarded := fun _ _ => rfl
  seen := .inl begun.unseen

/-- A handler of the recipient sends; what it makes are answers and notices. -/
theorem serve {after : StdClient} {made : List MpscMsgNode}
    (invariant : PathInvariant rcpt dest messages start world log generated enqueued handled)
    (run : OutboundRun start.stdcl (generated ++ made) enqueued after)
    (delivery : ∀ name, DeliveryRun name start.stdcl (generated ++ made) enqueued after)
    (accepts : world.stdcl.connection.accepted <+: after.connection.accepted)
    (control : ∀ msg ∈ made, ControlFrame msg.buf) :
    PathInvariant rcpt dest messages start (world.serve after) log (generated ++ made) enqueued
      handled where
  runs := invariant.runs
  down := by
    have same : OutboundRun start.stdcl (generated ++ made) (enqueued ++ []) after := by
      rwa [List.append_nil]
    have arrived := invariant.down.server same accepts
      (fun msg member => (control msg member).downFrame) (by simp)
    rw [List.append_nil] at arrived
    exact arrived
  control := by
    intro msg member
    exact (List.mem_append.mp member).elim (invariant.control msg) (control msg)
  delivery := delivery
  known := invariant.known
  forwarded := invariant.forwarded
  seen := invariant.seen

/-- Of the recipient something changes that it neither sends nor has waiting. -/
theorem keep {after : StdClient}
    (invariant : PathInvariant rcpt dest messages start world log generated enqueued handled)
    (run : OutboundRun start.stdcl generated enqueued after)
    (delivery : ∀ name, DeliveryRun name start.stdcl generated enqueued after)
    (same : after.connection.accepted = world.stdcl.connection.accepted) :
    PathInvariant rcpt dest messages start { world with stdcl := after } log generated enqueued
      handled := by
  have still : OutboundRun start.stdcl (generated ++ []) enqueued after := by rwa [List.append_nil]
  have served := invariant.serve still (by simpa only [List.append_nil] using delivery)
    (by rw [same]) (by simp)
  rw [List.append_nil] at served
  have there : world.serve after = { world with stdcl := after } := by
    rw [PathWorld.serve, same, List.drop_length, List.append_nil]
  rwa [there] at served

/-- What waits for the recipient grows by what a sender sent. -/
theorem enqueue {sender : Addr} {node : MpscMsgNode} {results : List InboundResult}
    {senders : Addr → StdClient}
    (begun : PathStart rcpt messages start)
    (invariant : PathInvariant rcpt dest messages start world log generated enqueued handled)
    (sends : messages sender ≠ []) (new : node.bufOffset = 0)
    (sent : SentBy (start.senders sender).username node.buf) (noEmpty : NoEmptyText node.buf)
    (subject : node.subjectName = strncpy unamesize (start.senders sender).username)
    (more : toRecipient rcpt results = toRecipient rcpt (log sender) ++ [node])
    (runs : ∀ other, ForwardRun dest (messages other) (start.senders other)
      (Function.update log sender results other) (senders other)) :
    PathInvariant rcpt dest messages start
      { world with
        senders
        stdcl := { world.stdcl with
          pendingUserdataQueue := world.stdcl.pendingUserdataQueue ++ [node] } }
      (Function.update log sender results) generated (enqueued ++ [node]) handled where
  runs := runs
  down := by
    have run : OutboundRun start.stdcl (generated ++ []) (enqueued ++ [node])
        { world.stdcl with
          pendingUserdataQueue := world.stdcl.pendingUserdataQueue ++ [node] } := by
      rw [List.append_nil]
      exact .enqueue ⟨node, new⟩ invariant.down.run
    have arrived := invariant.down.server run List.prefix_rfl (by simp) fun msg member => by
      rw [List.mem_singleton.mp member]
      exact sent.downFrame
    rw [List.append_nil] at arrived
    exact arrived.withClient rfl rfl (by simp)
  control := invariant.control
  delivery := fun name => .enqueue ⟨node, new⟩ (invariant.delivery name)
  known := by
    intro msg member
    rcases List.mem_append.mp member with old | last
    · exact invariant.known msg old
    · rw [List.mem_singleton.mp last]
      exact ⟨sender, sends, sent, noEmpty, subject⟩
  forwarded := by
    intro other sendsToo
    rw [ofSender_append, invariant.forwarded other sendsToo]
    have named : sameSubject node.subjectName (start.senders other).username = true ↔
        senderName (start.senders sender).username = senderName (start.senders other).username := by
      rw [subject, sameSubject_strncpy]
    by_cases same : other = sender
    · subst same
      rw [Function.update_self, more, ofSender_singleton, if_pos (named.mpr rfl)]
    · have differs : ¬ sameSubject node.subjectName (start.senders other).username = true :=
        fun alike => same (begun.names sender other sends sendsToo (named.mp alike)).symm
      rw [Function.update_of_ne same, ofSender_singleton, if_neg differs, List.append_nil]
  seen := invariant.seen

/-- A call for a sender goes on with its run. -/
theorem runs_call {sender : Addr} {env : InboundEnv}
    (invariant : PathInvariant rcpt dest messages start world log generated enqueued handled)
    (accepts : ∀ msg ∈ messages sender, env.Accepts dest msg) (other : Addr) :
    ForwardRun dest (messages other) (start.senders other)
      (Function.update log sender
        (log sender ++ [wtHandleInboundData env (world.senders sender)]) other)
      (Function.update world.senders sender
        (wtHandleInboundData env (world.senders sender)).stdcl other) := by
  by_cases same : other = sender
  · subst same
    rw [Function.update_self, Function.update_self]
    exact .call env (invariant.runs other) accepts
  · rw [Function.update_of_ne same, Function.update_of_ne same]
    exact invariant.runs other

/-- What was forwarded for somebody else makes no difference to the recipient. -/
theorem quiet {sender : Addr} {results : List InboundResult} {senders : Addr → StdClient}
    (invariant : PathInvariant rcpt dest messages start world log generated enqueued handled)
    (same : toRecipient rcpt results = toRecipient rcpt (log sender))
    (runs : ∀ other, ForwardRun dest (messages other) (start.senders other)
      (Function.update log sender results other) (senders other)) :
    PathInvariant rcpt dest messages start { world with senders }
      (Function.update log sender results) generated enqueued handled where
  runs := runs
  down := invariant.down
  control := invariant.control
  delivery := invariant.delivery
  known := invariant.known
  forwarded := by
    intro other sends
    rw [invariant.forwarded other sends]
    by_cases mine : other = sender
    · subst mine
      rw [Function.update_self, same]
    · rw [Function.update_of_ne mine]
  seen := invariant.seen

theorem inbound {sender : Addr} {env : InboundEnv} (begun : PathStart rcpt messages start)
    (allSent : AllSent messages)
    (invariant : PathInvariant rcpt dest messages start world log generated enqueued handled)
    (accepts : ∀ msg ∈ messages sender, env.Accepts dest msg) :
    ∃ log enqueued, PathInvariant rcpt dest messages start
      (world.forward rcpt sender (wtHandleInboundData env (world.senders sender))) log generated
      enqueued handled := by
  have runs := invariant.runs_call accepts
  have grows := toRecipient_append rcpt (log sender)
    (wtHandleInboundData env (world.senders sender))
  rw [PathWorld.forward]
  cases forwards : (wtHandleInboundData env (world.senders sender)).forwarded with
  | none =>
    have nothing : toRecipient rcpt [wtHandleInboundData env (world.senders sender)] = [] := by
      simp [toRecipient, forwards]
    rw [nothing, List.append_nil] at grows
    exact ⟨_, enqueued, invariant.quiet grows runs⟩
  | some delivery =>
    obtain ⟨addr, node⟩ := delivery
    by_cases mine : addr = rcpt
    · obtain ⟨unit, member, rfl⟩ := ForwardRun.forwarded_item (begun.sessions sender)
        (begun.reliable sender) (fun msg listed => (allSent sender msg listed).1)
        (begun.streams sender) (invariant.runs sender) accepts forwards
      obtain ⟨occurs, listed⟩ := units_of_messages (fun msg listed =>
        (allSent sender msg listed).1) unit member
      have whole := (allSent sender _ listed).2
      have more : toRecipient rcpt [wtHandleInboundData env (world.senders sender)] =
          [unit.item (start.senders sender).username] := by
        simp [toRecipient, forwards, mine]
      rw [more] at grows
      simp only [if_pos mine]
      refine ⟨_, _, invariant.enqueue begun (List.ne_nil_of_mem listed) ?_
        (occurs.sentBy whole _) (occurs.noEmptyText whole _) ?_ grows runs⟩
      · cases unit <;> rfl
      · cases unit <;> rfl
    · have nothing : toRecipient rcpt [wtHandleInboundData env (world.senders sender)] = [] := by
        simp [toRecipient, forwards, mine]
      rw [nothing, List.append_nil] at grows
      simp only [if_neg mine]
      exact ⟨_, enqueued, invariant.quiet grows runs⟩

/-- What the server has begun to send, seen from one name: nothing under this name was lost, and what
the client has taken are the first frames of it. -/
theorem started (begun : PathStart rcpt messages start)
    (invariant : PathInvariant rcpt dest messages start world log generated enqueued handled)
    (name : Bytes) :
    ∃ started kept unsent, kept.Sublist enqueued ∧ ofSender name kept = ofSender name enqueued ∧
      Framed [] generated kept world.stdcl started ∧
      world.stdcl.connection.accepted ++ unsent = started.wire ∧
      (∀ frame ∈ started.map (·.2.buf), DownFrame frame ∧ NoEmptyText frame) ∧
      handled <+: started.map (·.2.buf) := by
  obtain ⟨⟨_, _, sublist, framed⟩, settled⟩ := OutboundRun.framed begun.session .start
  rw [List.sublist_nil.mp sublist, begun.unsent] at framed
  obtain ⟨⟨started, kept, fewer, same, after⟩, _⟩ :=
    (invariant.delivery name).framed framed settled
  rw [List.nil_append] at fewer same after
  obtain ⟨unsent, whole⟩ := after.sent.isPrefix
  rw [List.nil_append] at whole
  have frames : ∀ frame ∈ started.map (·.2.buf), DownFrame frame ∧ NoEmptyText frame := by
    intro frame member
    obtain ⟨⟨origin, msg⟩, inside, rfl⟩ := List.mem_map.mp member
    cases origin with
    | control =>
      have listed : msg ∈ generated := after.control ▸ List.mem_append_left _
        (List.mem_map.mpr ⟨_, List.mem_filter.mpr ⟨inside, by simp⟩, rfl⟩)
      exact ⟨(invariant.control msg listed).downFrame, (invariant.control msg listed).noEmptyText⟩
    | userdata =>
      have listed : msg ∈ kept := after.userdata ▸ List.mem_append_left _
        (List.mem_map.mpr ⟨_, List.mem_filter.mpr ⟨inside, by simp⟩, rfl⟩)
      obtain ⟨_, _, sent, noEmpty, _⟩ := invariant.known msg (fewer.subset listed)
      exact ⟨sent.downFrame.1, noEmpty⟩
  refine ⟨started, kept, unsent, fewer, same, after, whole, frames, ?_⟩
  refine prefix_of_flatten_prefix invariant.down.taken (fun frame member => (frames frame member).1) ?_
  rw [← List.flatMap_def]
  show handled.flatten <+: started.wire
  rw [← whole]
  refine List.IsPrefix.trans ?_ (List.prefix_append _ _)
  cases live : world.ctx.connected with
  | false => exact (invariant.down.gone live).2
  | true =>
    rw [← invariant.down.stream live, List.append_assoc]
    exact List.prefix_append _ _

/-- No turn of `clrecv_parse` writes behind the PDU it processes, because no text is empty. -/
theorem safe (begun : PathStart rcpt messages start)
    (invariant : PathInvariant rcpt dest messages start world log generated enqueued handled) :
    ¬ OverwritesNext world.ctx.recvBuf := by
  rintro ⟨turn, text, behind⟩
  have live : world.ctx.connected = true := by
    by_contra dead
    rw [(invariant.down.gone (Bool.eq_false_iff.mpr dead)).1] at behind
    exact absurd behind (Nat.not_lt_zero _)
  obtain ⟨started, _, unsent, _, _, _, whole, frames, left, split⟩ := invariant.started begun []
  have wire : started.wire = (started.map (·.2.buf)).flatten := List.flatMap_def
  rw [wire, ← split, ← invariant.down.stream live, List.flatten_append, List.append_assoc,
    List.append_assoc, List.append_cancel_left_eq] at whole
  cases left with
  | nil =>
    have empty := (List.append_eq_nil_iff.mp whole).1
    rw [empty] at behind
    exact absurd behind (Nat.not_lt_zero _)
  | cons frame left =>
    have first : DownFrame frame ∧ NoEmptyText frame :=
      frames frame (split ▸ List.mem_append_right _ List.mem_cons_self)
    rw [List.flatten_cons] at whole
    rcases cut_of_append whole with ⟨more, held, _⟩ | ⟨tail, unfinished, equal⟩
    · rw [held] at turn text
      rcases first.1.1 with pdu | chunk
      · rw [pdu.turn first.1.2] at turn
        rw [LwmpPdu.msgType_append pdu.header] at text
        injection turn with empty
        exact first.2 pdu.mark text empty
      · rw [chunk.turn] at turn
        cases turn
    · subst equal
      rw [first.1.1.turn_part unfinished first.1.2] at turn
      cases turn

/-- `clrecv_fill` answers whether the client is still connected. -/
theorem clrecvFill_connected {ctx : ClientCtx} (live : ctx.connected = true) :
    (clrecvFill ctx).1 = (clrecvFill ctx).2.connected := by
  rw [clrecvFill]
  split
  · rfl
  · exact live.symm
  · exact live.symm

/-- The client reads. -/
theorem fill
    (invariant : PathInvariant rcpt dest messages start world log generated enqueued handled)
    (recvEvents : List NetEvent) (live : world.ctx.connected = true) :
    PathInvariant rcpt dest messages start (world.fill recvEvents) log generated enqueued handled where
  runs := invariant.runs
  down := by
    have reading : Downlink start.stdcl world.stdcl { world.ctx with connection :=
        { world.ctx.connection with recvEvents } } generated enqueued handled :=
      invariant.down.withClient rfl rfl rfl
    exact reading.fill live
  control := invariant.control
  delivery := invariant.delivery
  known := invariant.known
  forwarded := invariant.forwarded
  seen := by
    have seen : world.received = handled.map .frame := by
      rcases invariant.seen with seen | ⟨dead, _⟩
      · exact seen
      · rw [live] at dead
        cases dead
    have answer := @clrecvFill_connected { world.ctx with connection :=
      { world.ctx.connection with recvEvents } } live
    simp only [PathWorld.fill, seen, answer]
    split
    · exact .inl (List.append_nil _)
    · rename_i lost
      exact .inr ⟨Bool.eq_false_iff.mpr lost, rfl⟩

/-- The client takes a frame. -/
theorem turn {item : Handled} {ctx : ClientCtx} (begun : PathStart rcpt messages start)
    (invariant : PathInvariant rcpt dest messages start world log generated enqueued handled)
    (step : clrecvStep world.ctx = some (item, ctx)) :
    ∃ handled, PathInvariant rcpt dest messages start (world.took item ctx) log generated enqueued
      handled := by
  obtain ⟨frame, rfl, _, connected, down⟩ := invariant.down.parse (invariant.safe begun) step
  refine ⟨handled ++ [frame], invariant.runs, down, invariant.control, invariant.delivery,
    invariant.known, invariant.forwarded, .inl ?_⟩
  rcases invariant.seen with seen | ⟨dead, _⟩
  · rw [PathWorld.took, seen, List.map_append, List.map_singleton]
  · rw [clrecvStep, (invariant.down.gone dead).1] at step
    cases step

end PathInvariant

theorem PathRun.invariant {rcpt : Addr} {dest : ClientMsg → Addr} {messages : Addr → List ClientMsg}
    {start world : PathWorld} (begun : PathStart rcpt messages start) (allSent : AllSent messages)
    (run : PathRun rcpt dest messages start world) :
    ∃ log generated enqueued handled,
      PathInvariant rcpt dest messages start world log generated enqueued handled := by
  induction run with
  | start => exact ⟨_, _, _, _, .init begun⟩
  | @arrives world after sender run between inductionHypothesis =>
    obtain ⟨log, generated, enqueued, handled, invariant⟩ := inductionHypothesis
    refine ⟨_, _, _, _, @PathInvariant.quiet _ _ _ _ _ _ _ _ _ sender (log sender) _ invariant rfl
      fun other => ?_⟩
    rw [Function.update_eq_self]
    by_cases same : other = sender
    · subst same
      rw [Function.update_self]
      exact .between (invariant.runs other) between
    · rw [Function.update_of_ne same]
      exact invariant.runs other
  | inbound sender env run accepts inductionHypothesis =>
    obtain ⟨log, generated, enqueued, handled, invariant⟩ := inductionHypothesis
    obtain ⟨_, _, invariant⟩ := invariant.inbound begun allSent accepts
    exact ⟨_, _, _, _, invariant⟩
  | serveResponse msg run control inductionHypothesis =>
    obtain ⟨log, generated, enqueued, handled, invariant⟩ := inductionHypothesis
    exact ⟨_, _, _, _, invariant.serve (.serveResponse msg invariant.down.run)
      (fun name => .serveResponse msg (invariant.delivery name))
      (SendsOnly.wtServeResponse _ _).accepted
      fun other member => by rwa [List.mem_singleton.mp member]⟩
  | outboundData table run inductionHypothesis =>
    obtain ⟨log, generated, enqueued, handled, invariant⟩ := inductionHypothesis
    refine ⟨_, _, _, _, invariant.serve (.outboundData table invariant.down.run)
      (fun name => .outboundData table (invariant.delivery name))
      (SendsOnly.wtHandleOutboundData _ _).accepted fun notice member => ?_⟩
    obtain ⟨⟨name, rfl⟩, _⟩ := outboundNotice member
    exact controlFrame_disconnectNotice name
  | @queuedMessages world result resumeTable dequeueTable run here call inductionHypothesis =>
    obtain ⟨log, generated, enqueued, handled, invariant⟩ := inductionHypothesis
    have served : OutboundRun start.stdcl (generated ++ result.notices) (enqueued ++ [])
        result.stdcl := .queuedMessages resumeTable dequeueTable [] invariant.down.run call
    have delivered (name : Bytes) : DeliveryRun name start.stdcl (generated ++ result.notices)
        (enqueued ++ []) result.stdcl :=
      .queuedMessages resumeTable dequeueTable [] (invariant.delivery name) (here.senderFound name)
        call
    rw [List.append_nil] at served
    refine ⟨_, _, _, _, invariant.serve served (fun name => ?_)
      (SendsOnly.wtHandleQueuedMessages call).accepted fun notice member => ?_⟩
    · have run := delivered name
      rwa [List.append_nil] at run
    · obtain ⟨⟨name, rfl⟩, _⟩ := queuedNotice call member
      exact controlFrame_disconnectNotice name
  | receive tempRecvStorage incoming recvEvents run inductionHypothesis =>
    obtain ⟨log, generated, enqueued, handled, invariant⟩ := inductionHypothesis
    exact ⟨_, _, _, _, invariant.keep (.receive tempRecvStorage incoming recvEvents invariant.down.run)
      (fun name => .receive tempRecvStorage incoming recvEvents (invariant.delivery name)) rfl⟩
  | cleanup run inductionHypothesis =>
    obtain ⟨log, generated, enqueued, handled, invariant⟩ := inductionHypothesis
    exact ⟨_, _, _, _, invariant.keep (.cleanup invariant.down.run)
      (fun name => .cleanup (invariant.delivery name)) (by rw [cleanupStdClient_connection])⟩
  | fill recvEvents run live inductionHypothesis =>
    obtain ⟨log, generated, enqueued, handled, invariant⟩ := inductionHypothesis
    exact ⟨_, _, _, _, invariant.fill recvEvents live⟩
  | turn run step inductionHypothesis =>
    obtain ⟨log, generated, enqueued, handled, invariant⟩ := inductionHypothesis
    obtain ⟨_, invariant⟩ := invariant.turn begun step
    exact ⟨_, _, _, _, invariant⟩
  | command awaitingResp sendingChunks transferError run inductionHypothesis =>
    obtain ⟨log, generated, enqueued, handled, invariant⟩ := inductionHypothesis
    exact ⟨log, generated, enqueued, handled, invariant.runs, invariant.down.withClient rfl rfl rfl,
      invariant.control, invariant.delivery, invariant.known, invariant.forwarded, invariant.seen⟩

/-! ### What arrives under a name -/

/-- What the recipient is to get of the messages of a sender. -/
def itemsTo (rcpt : Addr) (dest : ClientMsg → Addr) (username : Bytes) (messages : List ClientMsg) :
    List MpscMsgNode :=
  (messages.filter fun msg => dest msg = rcpt).flatMap fun msg => msg.items username

theorem units_to (rcpt : Addr) (dest : ClientMsg → Addr) (username : Bytes)
    (messages : List ClientMsg) :
    ((messages.flatMap ClientMsg.units).filter fun unit => dest unit.msg = rcpt).map
      (RecvUnit.item username) = itemsTo rcpt dest username messages := by
  induction messages with
  | nil => rfl
  | cons msg messages inductionHypothesis =>
    have same : msg.units.filter (fun unit => dest unit.msg = rcpt) =
        if dest msg = rcpt then msg.units else [] := by
      split
      · rename_i mine
        exact List.filter_eq_self.mpr fun unit member => by
          rw [msg.units_msg unit member]
          exact decide_eq_true mine
      · rename_i other
        exact List.filter_eq_nil_iff.mpr fun unit member => by
          rw [msg.units_msg unit member, decide_eq_true_eq]
          exact other
    rw [List.flatMap_cons, List.filter_append, List.map_append, inductionHypothesis, same]
    simp only [itemsTo, List.filter_cons, decide_eq_true_eq]
    split
    · rw [List.flatMap_cons, msg.units_items]
    · rfl

/-- What calls forwarded to the recipient is the front of what it is to get, and all of it when the
bytes of the sender have arrived. -/
theorem ForwardRun.toRecipient {rcpt : Addr} {dest : ClientMsg → Addr} {messages : List ClientMsg}
    {start stdcl : StdClient} {log : List InboundResult} (session : ReceivingSession start)
    (reliable : Reliable start) (sendable : ∀ msg ∈ messages, msg.Sendable)
    (stream : start.connection.incoming = messages.flatMap ClientMsg.wire)
    (run : ForwardRun dest messages start log stdcl) :
    Lwmsg.toRecipient rcpt log <+: itemsTo rcpt dest start.username messages ∧
      (stdcl.connection.incoming = [] →
        Lwmsg.toRecipient rcpt log = itemsTo rcpt dest start.username messages) := by
  obtain ⟨done, left, transit⟩ := run.inTransit session reliable sendable stream
  have mine (units : List RecvUnit) :
      (units.map (RecvUnit.delivery dest start.username)).filterMap
        (fun (addr, node) => if addr = rcpt then some node else none) =
      (units.filter fun unit => dest unit.msg = rcpt).map (RecvUnit.item start.username) := by
    induction units with
    | nil => rfl
    | cons unit units inductionHypothesis =>
      rw [List.map_cons, List.filterMap_cons, inductionHypothesis, RecvUnit.delivery, List.filter_cons]
      by_cases same : dest unit.msg = rcpt
      · simp [same]
      · simp [same]
  rw [← units_to, transit.split, Lwmsg.toRecipient, transit.forwarded, mine]
  refine ⟨?_, fun arrived => ?_⟩
  · rw [List.filter_append, List.map_append]
    exact List.prefix_append _ _
  · have ahead := transit.ahead
    cases left with
    | nil => rw [List.append_nil]
    | cons unit rest =>
      obtain ⟨part, _, short, whole, _, _⟩ := ahead
      have lengths := congrArg List.length whole
      rw [arrived, List.append_nil, List.length_append] at lengths
      omega

/-- The frames of a sender among those that were started are the messages under its name. -/
theorem framesFrom_started {started : Started} {username : Bytes}
    (control : ∀ msg ∈ started.ofOrigin .control, frameSender msg.buf = none)
    (userdata : ∀ msg ∈ started.ofOrigin .userdata,
      frameSender msg.buf = some (senderName username) ↔
        sameSubject msg.subjectName username = true) :
    framesFrom (senderName username) (started.map (·.2.buf)) =
      (ofSender username (started.ofOrigin .userdata)).map (·.buf) := by
  induction started with
  | nil => rfl
  | cons message started inductionHypothesis =>
    obtain ⟨origin, msg⟩ := message
    have split (queue : Origin) : Started.ofOrigin ((origin, msg) :: started) queue =
        (if origin = queue then [msg] else []) ++ Started.ofOrigin started queue :=
      (Started.ofOrigin_append [(origin, msg)] started queue).trans
        (by rw [Started.ofOrigin_singleton])
    rw [split] at control userdata
    have rest := inductionHypothesis
      (fun other member => control other (List.mem_append_right _ member))
      fun other member => userdata other (List.mem_append_right _ member)
    rw [split, ofSender_append, List.map_append, ← rest, List.map_cons]
    show framesFrom _ ([msg.buf] ++ _) = _
    rw [framesFrom_append]
    congr 1
    cases origin with
    | control =>
      have none := control msg (List.mem_append_left _ (by simp))
      simp [framesFrom, none, ofSender]
    | userdata =>
      have named := userdata msg (List.mem_append_left _ (by simp))
      rw [if_pos rfl, ofSender_singleton, framesFrom]
      by_cases same : sameSubject msg.subjectName username = true
      · simp [same, named.mpr same]
      · have other : ¬ frameSender msg.buf = some (senderName username) :=
          fun alike => same (named.mp alike)
        simp [same, other]

/-- Every frame the client has taken is one of the server or has the name of a sender. -/
theorem PathInvariant.handled_known {rcpt : Addr} {dest : ClientMsg → Addr}
    {messages : Addr → List ClientMsg} {start world : PathWorld} {log : Addr → List InboundResult}
    {generated enqueued : List MpscMsgNode} {handled : List Bytes} {frame : Bytes}
    (begun : PathStart rcpt messages start)
    (invariant : PathInvariant rcpt dest messages start world log generated enqueued handled)
    (member : frame ∈ handled) :
    ControlFrame frame ∨ ∃ sender, messages sender ≠ [] ∧
      frameSender frame = some (senderName (start.senders sender).username) := by
  obtain ⟨started, kept, _, fewer, _, framed, _, _, taken⟩ := invariant.started begun []
  obtain ⟨⟨origin, msg⟩, inside, rfl⟩ := List.mem_map.mp (taken.subset member)
  cases origin with
  | control =>
    refine .inl (invariant.control msg (framed.control ▸ List.mem_append_left _ ?_))
    exact List.mem_map.mpr ⟨_, List.mem_filter.mpr ⟨inside, by simp⟩, rfl⟩
  | userdata =>
    have listed : msg ∈ kept := framed.userdata ▸ List.mem_append_left _
      (List.mem_map.mpr ⟨_, List.mem_filter.mpr ⟨inside, by simp⟩, rfl⟩)
    obtain ⟨sender, sends, sentBy, _⟩ := invariant.known msg (fewer.subset listed)
    exact .inr ⟨sender, sends, sentBy.frameSender⟩

/-- All that a sender has sent has reached the client of the recipient, and the client has taken it. -/
structure Drained (sender : Addr) (world : PathWorld) : Prop where
  arrived : (world.senders sender).connection.incoming = []
  waiting : world.stdcl.pendingUserdataQueue = []
  idle : world.stdcl.tempSendStorage = none
  connected : world.ctx.connected = true
  buffer : world.ctx.recvBuf = []
  nothing : world.ctx.connection.incoming = []

theorem PathInvariant.framesFrom {rcpt : Addr} {dest : ClientMsg → Addr}
    {messages : Addr → List ClientMsg} {start world : PathWorld} {log : Addr → List InboundResult}
    {generated enqueued : List MpscMsgNode} {handled : List Bytes} {sender : Addr}
    (begun : PathStart rcpt messages start) (allSent : AllSent messages)
    (invariant : PathInvariant rcpt dest messages start world log generated enqueued handled)
    (sends : messages sender ≠ []) :
    framesFrom (senderName (start.senders sender).username) handled <+:
        (itemsTo rcpt dest (start.senders sender).username (messages sender)).map (·.buf) ∧
      (Drained sender world →
        framesFrom (senderName (start.senders sender).username) handled =
          (itemsTo rcpt dest (start.senders sender).username (messages sender)).map (·.buf)) := by
  obtain ⟨started, kept, unsent, fewer, same, framed, whole, frames, left, taken⟩ :=
    invariant.started begun (start.senders sender).username
  obtain ⟨front, all⟩ := @ForwardRun.toRecipient rcpt _ _ _ _ _ (begun.sessions sender)
    (begun.reliable sender) (fun msg member => (allSent sender msg member).1) (begun.streams sender)
    (invariant.runs sender)
  have mine := @framesFrom_started started (start.senders sender).username
    (fun msg member => (invariant.control msg
      (framed.control ▸ List.mem_append_left _ member)).frameSender) (by
    intro msg member
    obtain ⟨other, sendsToo, sentBy, _, subject⟩ := invariant.known msg
      (fewer.subset (framed.userdata ▸ List.mem_append_left _ member))
    rw [sentBy.frameSender, subject, sameSubject_strncpy, Option.some.injEq])
  have forwarded := invariant.forwarded sender sends
  rw [← same, ← framed.userdata, ofSender_append] at forwarded
  rw [← taken, framesFrom_append] at mine
  constructor
  · -- what was taken comes before what was only started, and this before what waits
    refine List.IsPrefix.trans ⟨_, mine⟩ (List.IsPrefix.trans (List.IsPrefix.map _ ?_)
      (front.map _))
    exact ⟨_, forwarded⟩
  · intro drained
    have sent := framed.sent
    rw [SentInWhole, drained.idle] at sent
    have stream := invariant.down.stream drained.connected
    rw [drained.buffer, drained.nothing, List.append_nil, List.append_nil, sent, List.nil_append,
      Started.wire, List.flatMap_def, ← taken, List.flatten_append, List.self_eq_append_right] at stream
    have nothing : left = [] := by
      refine List.eq_nil_iff_forall_not_mem.mpr fun frame member => ?_
      have long := (frames frame (taken ▸ List.mem_append_right _ member)).1.1.length_pos
      rw [List.flatten_eq_nil_iff.mp stream frame member] at long
      exact absurd long (by decide)
    rw [nothing] at mine
    rw [drained.waiting] at forwarded
    rw [← all drained.arrived, ← forwarded]
    simpa [Lwmsg.framesFrom, ofSender] using mine

end Lwmsg
