/-
This file follows the way from the server to one client. The server sends it responses
and notices from one queue and the messages of others from another one; what its
connection accepted is on the way; and the client parses what has arrived.

The frames the client handed over are the first ones the server started to send,
because a stream falls into frames in one way only. So the client sees the responses
and notices in the order in which the server made them, whatever else is sent between
them, and each of them only after all earlier ones.
-/

import Lwmsg.Clrecv

namespace Lwmsg

open Bytes Pointers

/-! ### What sending leaves alone -/

theorem sendTurns_accepts (data : Bytes) (turns : Nat) (connection : Conn) (offset : Nat) :
    ∃ bytes, connection.Accepts bytes (sendTurns data turns connection offset).connection := by
  induction turns generalizing connection offset with
  | zero => exact ⟨[], .nil connection⟩
  | succ turns inductionHypothesis =>
    rw [sendTurns]
    split
    · split
      · rename_i call
        exact ⟨[], Conn.sendFn_error call⟩
      · rename_i sent after call
        obtain ⟨more, accepts⟩ := inductionHypothesis after (offset + sent)
        exact ⟨_, (Conn.sendFn_ok call).2.2.1.trans accepts⟩
    · exact ⟨[], .nil connection⟩

theorem sendDoWhile_accepts (data : Bytes) (connection : Conn) (offset : Nat) :
    ∃ bytes, connection.Accepts bytes (sendDoWhile data connection offset).connection := by
  rw [sendDoWhile]
  split
  · rename_i call
    exact ⟨[], Conn.sendFn_error call⟩
  · rename_i sent after call
    obtain ⟨more, accepts⟩ := sendTurns_accepts data _ after (offset + sent)
    exact ⟨_, (Conn.sendFn_ok call).2.2.1.trans accepts⟩

/-- A handler that sends touches nothing on the side that receives, and takes nothing back. -/
structure SendsOnly (before after : StdClient) : Prop where
  accepted : before.connection.accepted <+: after.connection.accepted
  incoming : after.connection.incoming = before.connection.incoming
  storage : after.tempRecvStorage = before.tempRecvStorage

theorem afterSend_connection (stdcl : StdClient) (tss : MpscMsgNode) (outcome : SendOutcome) :
    (afterSend stdcl tss outcome).connection = outcome.connection := by
  rw [afterSend]
  cases outcome.stopped with
  | none => rfl
  | some failure => cases failure <;> simp

@[simp] theorem cleanupStdClient_tempRecvStorage (stdcl : StdClient) :
    (cleanupStdClient stdcl).tempRecvStorage = stdcl.tempRecvStorage := by
  rw [cleanupStdClient]
  split <;> rfl

theorem afterSend_tempRecvStorage (stdcl : StdClient) (tss : MpscMsgNode) (outcome : SendOutcome) :
    (afterSend stdcl tss outcome).tempRecvStorage = stdcl.tempRecvStorage := by
  rw [afterSend]
  cases outcome.stopped with
  | none => rfl
  | some failure => cases failure <;> simp

namespace SendsOnly

variable {before middle after stdcl : StdClient}

theorem refl (stdcl : StdClient) : SendsOnly stdcl stdcl := ⟨List.prefix_rfl, rfl, rfl⟩

theorem trans (first : SendsOnly before middle) (second : SendsOnly middle after) :
    SendsOnly before after :=
  ⟨first.accepted.trans second.accepted, second.incoming.trans first.incoming,
    second.storage.trans first.storage⟩

/-- What the other fields of a client are makes no difference. -/
theorem restate (sends : SendsOnly before after) (connection : stdcl.connection = after.connection)
    (storage : stdcl.tempRecvStorage = after.tempRecvStorage) : SendsOnly before stdcl := by
  refine ⟨?_, ?_, storage.trans sends.storage⟩
  · rw [connection]
    exact sends.accepted
  · rw [connection]
    exact sends.incoming

theorem afterSend {tss : MpscMsgNode} {outcome : SendOutcome}
    (accepts : ∃ bytes, stdcl.connection.Accepts bytes outcome.connection) :
    SendsOnly stdcl (afterSend stdcl tss outcome) := by
  obtain ⟨bytes, used, equal, _⟩ := accepts
  refine ⟨?_, ?_, afterSend_tempRecvStorage _ _ _⟩
  · rw [afterSend_connection, equal]
    exact List.prefix_append _ _
  · rw [afterSend_connection, equal]

theorem wtServeResponse (stdcl : StdClient) (msg : MpscMsgNode) :
    SendsOnly stdcl (wtServeResponse stdcl msg) := by
  by_cases idle : stdcl.tempSendStorage = none
  · obtain ⟨sockEvents, served⟩ := wtServeResponse_idle idle msg
    rw [served]
    exact (afterSend (sendDoWhile_accepts _ _ _)).restate rfl rfl
  · obtain ⟨tss, unfinished⟩ := Option.ne_none_iff_exists'.mp idle
    rw [Lwmsg.wtServeResponse, unfinished]
    exact (refl stdcl).restate rfl rfl

theorem sendOneMsg (stdcl : StdClient) (tss : MpscMsgNode) :
    SendsOnly stdcl (sendOneMsg stdcl tss).2 := afterSend (sendTurns_accepts _ _ _ _)

theorem sendCtrlQueue (pendingCtrlQueue : List MpscMsgNode) (stdcl : StdClient) :
    SendsOnly stdcl (sendCtrlQueue pendingCtrlQueue stdcl).2 := by
  induction pendingCtrlQueue generalizing stdcl with
  | nil => exact refl stdcl
  | cons msg pendingCtrlQueue inductionHypothesis =>
    have begun : SendsOnly stdcl { stdcl with pendingCtrlQueue, tempSendStorage := some msg } :=
      (refl stdcl).restate rfl rfl
    have sent := begun.trans (sendOneMsg _ msg)
    rw [Lwmsg.sendCtrlQueue]
    split
    · rename_i call
      rwa [call] at sent
    · rename_i after call
      rw [call] at sent
      exact sent.trans (inductionHypothesis after)

theorem sendUnfinished (stdcl : StdClient) (table : ClientTable) :
    SendsOnly stdcl (sendUnfinished stdcl table).2.stdcl := by
  rw [Lwmsg.sendUnfinished]
  split
  · exact sendCtrlQueue _ _
  · rename_i tss unfinished
    have noticed : SendsOnly stdcl
        { stdcl with pendingCtrlQueue := stdcl.pendingCtrlQueue ++ resumeNotices table tss } :=
      (refl stdcl).restate rfl rfl
    have sent := noticed.trans (sendOneMsg _ tss)
    simp only
    split
    · rename_i call
      rwa [call] at sent
    · rename_i call
      rw [call] at sent
      exact sent.trans (sendCtrlQueue _ _)

theorem wtHandleOutboundData (stdcl : StdClient) (table : ClientTable) :
    SendsOnly stdcl (wtHandleOutboundData stdcl table).stdcl := by
  have sent := sendUnfinished stdcl table
  rw [Lwmsg.wtHandleOutboundData]
  split
  · exact refl stdcl
  · split
    · rename_i call
      rwa [call] at sent
    · rename_i call
      rw [call] at sent
      exact sent.restate rfl rfl

theorem awaitSocket (sends : SendsOnly before after) (res : Option NetFailure) :
    SendsOnly before (awaitSocket res after) := by
  obtain ⟨sockEvents, queueEvents, equal⟩ := awaitSocket_eq res after
  rw [equal]
  exact sends.restate rfl rfl

theorem wtHandleQueuedMessages {resumeTable dequeueTable : ClientTable} {arrived : List MpscMsgNode}
    {result : OutboundResult}
    (call : wtHandleQueuedMessages stdcl resumeTable dequeueTable arrived = some result) :
    SendsOnly stdcl result.stdcl := by
  have sent := sendUnfinished stdcl resumeTable
  rw [Lwmsg.wtHandleQueuedMessages] at call
  split at call
  · obtain rfl := Option.some.inj call
    exact (refl stdcl).restate rfl rfl
  · rcases finish : Lwmsg.sendUnfinished stdcl resumeTable with ⟨res, after, notices⟩
    rw [finish] at call sent
    have changed (pendingUserdataQueue pendingCtrlQueue : List MpscMsgNode)
        (tempSendStorage : Option MpscMsgNode) :
        SendsOnly stdcl { after with pendingUserdataQueue, pendingCtrlQueue, tempSendStorage } :=
      sent.restate rfl rfl
    simp only at call
    split at call
    · obtain rfl := Option.some.inj call
      exact (changed _ _ _).awaitSocket _
    · obtain rfl := Option.some.inj call
      exact awaitSocket (changed _ _ _) none
    · split at call
      · obtain rfl := Option.some.inj call
        exact ((changed _ _ _).trans (sendOneMsg _ _)).awaitSocket _
      · split at call
        · cases call
        · obtain rfl := Option.some.inj call
          exact ((changed _ _ _).trans (sendOneMsg _ _)).awaitSocket _

end SendsOnly

/-- The connection of a client never takes back what it accepted. -/
theorem OutboundRun.accepted {start stdcl : StdClient} {generated enqueued : List MpscMsgNode}
    (run : OutboundRun start generated enqueued stdcl) :
    start.connection.accepted <+: stdcl.connection.accepted := by
  induction run with
  | start => exact List.prefix_rfl
  | serveResponse msg run inductionHypothesis =>
    exact inductionHypothesis.trans (SendsOnly.wtServeResponse _ _).accepted
  | outboundData table run inductionHypothesis =>
    exact inductionHypothesis.trans (SendsOnly.wtHandleOutboundData _ _).accepted
  | queuedMessages resumeTable dequeueTable arrived run call inductionHypothesis =>
    exact inductionHypothesis.trans (SendsOnly.wtHandleQueuedMessages call).accepted
  | enqueue msg run inductionHypothesis => exact inductionHypothesis
  | receive tempRecvStorage incoming recvEvents run inductionHypothesis =>
    exact inductionHypothesis
  | cleanup run inductionHypothesis =>
    rw [cleanupStdClient_connection]
    exact inductionHypothesis

/-! ### A stream falls into frames in one way -/

/-- What the server sends is a frame whose size is a number of type `uint64_t`. -/
def DownFrame (frame : Bytes) : Prop := ServerFrame frame ∧ frame.length < 2 ^ 64

instance (frame : Bytes) : Decidable (DownFrame frame) := inferInstanceAs (Decidable (_ ∧ _))

theorem DownFrame.turn {frame more : Bytes} (down : DownFrame frame) :
    clrecvTurn (frame ++ more) = .pdu (wirePayload frame) frame.length ∨
      clrecvTurn (frame ++ more) = .chunk frame.length := by
  rcases down.1 with pdu | chunk
  · exact .inl (pdu.turn down.2)
  · exact .inr chunk.turn

/-- Two frames at the start of one stream are the same. -/
theorem DownFrame.unique {first second rest more : Bytes} (left : DownFrame first)
    (right : DownFrame second) (stream : first ++ rest = second ++ more) :
    first = second ∧ rest = more := by
  have leftTurn := @DownFrame.turn first rest left
  have rightTurn := @DownFrame.turn second more right
  rw [stream] at leftTurn
  have length : first.length = second.length := by
    rcases leftTurn with turn | turn <;> rcases rightTurn with other | other <;>
      rw [turn] at other <;> injection other
  exact List.append_inj stream length

/-- The frames of the front of a stream are its first frames. -/
theorem prefix_of_flatten_prefix {first second : List Bytes}
    (left : ∀ frame ∈ first, DownFrame frame) (right : ∀ frame ∈ second, DownFrame frame)
    (front : first.flatten <+: second.flatten) : first <+: second := by
  induction first generalizing second with
  | nil => exact List.nil_prefix
  | cons frame first inductionHypothesis =>
    obtain ⟨rest, stream⟩ := front
    have here := left frame List.mem_cons_self
    cases second with
    | nil =>
      have long := here.1.length_pos
      have lengths := congrArg List.length stream
      rw [List.flatten_cons, List.length_append, List.length_append, List.flatten_nil,
        List.length_nil] at lengths
      omega
    | cons other second =>
      rw [List.flatten_cons, List.flatten_cons, List.append_assoc] at stream
      obtain ⟨rfl, later⟩ := here.unique (right other List.mem_cons_self) stream
      have more := inductionHypothesis (fun frame member => left frame (List.mem_cons_of_mem _ member))
        (fun frame member => right frame (List.mem_cons_of_mem _ member)) ⟨rest, later⟩
      exact (List.prefix_cons_inj frame).mpr more

/-- A frame is an `MT_INFO`: a response or a notice. -/
def isInfo (frame : Bytes) : Bool :=
  decide (LwmpPdu.hdrMark frame = pduSyncHdrMark) &&
    decide (LwmpPdu.msgType frame = MsgType.info.code)

/-! ### The client takes a frame -/

section Parsing

variable {ctx next : ClientCtx} {frame more : Bytes} {handled : Handled}

theorem PduFrame.isInfo_iff (pdu : PduFrame frame) :
    isInfo frame = true ↔ LwmpPdu.msgType frame = MsgType.info.code := by
  rw [isInfo, pdu.mark]
  simp

theorem ChunkFrame.isInfo (chunk : ChunkFrame frame) : isInfo frame = false := by
  rw [Lwmsg.isInfo, decide_eq_false chunk.not_pdu, Bool.false_and]

/-- What the client learns from a frame: from an `MT_INFO` the code it waits for, from anything else
nothing. -/
structure LearnsFrom (ctx : ClientCtx) (frame : Bytes) (next : ClientCtx) : Prop where
  sending : next.sendingChunks = ctx.sendingChunks
  info : isInfo frame = true → next.awaitingResp = false ∧
    next.lastRespCode = if ctx.awaitingResp then LwmpPdu.respCode frame else ctx.lastRespCode
  other : isInfo frame = false →
    next.awaitingResp = ctx.awaitingResp ∧ next.lastRespCode = ctx.lastRespCode

theorem LearnsFrom.nothing (sending : next.sendingChunks = ctx.sendingChunks)
    (awaiting : next.awaitingResp = ctx.awaitingResp) (code : next.lastRespCode = ctx.lastRespCode)
    (other : isInfo frame = false) : LearnsFrom ctx frame next := by
  refine ⟨sending, fun info => ?_, fun _ => ⟨awaiting, code⟩⟩
  rw [other] at info
  cases info

theorem learnsFrom_processReceivedPdu {payloadSize totalNeeded : Nat} (pdu : PduFrame frame)
    (held : ctx.recvBuf = frame ++ more) :
    LearnsFrom ctx frame { processReceivedPdu ctx payloadSize with
      recvBuf := (processReceivedPdu ctx payloadSize).recvBuf.drop totalNeeded } := by
  have type : LwmpPdu.msgType ctx.recvBuf = LwmpPdu.msgType frame := by
    rw [held, LwmpPdu.msgType_append pdu.header]
  have code : LwmpPdu.respCode ctx.recvBuf = LwmpPdu.respCode frame := by
    rw [held, LwmpPdu.respCode, LwmpPdu.optionalData_append pdu.header, LwmpPdu.respCode]
  have other (type' : MsgType) (same : LwmpPdu.msgType frame = type'.code)
      (noInfo : type'.code ≠ MsgType.info.code) : isInfo frame = false := by
    rw [Bool.eq_false_iff, Ne, pdu.isInfo_iff, same]
    exact noInfo
  simp only [processReceivedPdu, type, code]
  split
  · rename_i text
    split <;> exact .nothing rfl rfl rfl (other .msg text (by decide))
  · split
    · rename_i info
      refine ⟨rfl, fun _ => ⟨rfl, rfl⟩, fun noInfo => ?_⟩
      rw [pdu.isInfo_iff.mpr info] at noInfo
      cases noInfo
    · rename_i noInfo
      have other : isInfo frame = false := by
        rw [Bool.eq_false_iff, Ne, pdu.isInfo_iff]
        exact noInfo
      split
      · split <;> exact .nothing rfl rfl rfl other
      · exact .nothing rfl rfl rfl other

/-- A turn of `clrecv_parse` hands over the frame at the start of the buffer. -/
theorem DownFrame.clrecvStep_learns (down : DownFrame frame) (held : ctx.recvBuf = frame ++ more)
    (step : clrecvStep ctx = some (handled, next)) :
    handled = .frame frame ∧ LearnsFrom ctx frame next := by
  have front : ctx.recvBuf.take frame.length = frame := by rw [held, List.take_left]
  rcases down.1 with pdu | chunk
  · rw [clrecvStep, held, pdu.turn down.2, ← held] at step
    simp only [front] at step
    obtain ⟨rfl, rfl⟩ := Prod.mk.inj (Option.some.inj step)
    exact ⟨rfl, learnsFrom_processReceivedPdu pdu held⟩
  · rw [clrecvStep, held, chunk.turn, ← held] at step
    simp only [front] at step
    obtain ⟨rfl, rfl⟩ := Prod.mk.inj (Option.some.inj step)
    exact ⟨rfl, .nothing rfl rfl rfl chunk.isInfo⟩

end Parsing

/-! ### Both ends of the way -/

/-- What holds of the two ends since the session began. The messages that were made for the first
queue are `generated`, those that others put into the second one are `enqueued`, and the frames the
client took are `handled`. As long as the client is connected, these frames, its buffer and what is
on the way are what the connection of the server accepted. -/
structure Downlink (start stdcl : StdClient) (ctx : ClientCtx)
    (generated enqueued : List MpscMsgNode) (handled : List Bytes) : Prop where
  session : NewSession start
  unsent : start.connection.accepted = []
  run : OutboundRun start generated enqueued stdcl
  control : ∀ msg ∈ generated, DownFrame msg.buf
  userdata : ∀ msg ∈ enqueued, DownFrame msg.buf ∧ isInfo msg.buf = false
  taken : ∀ frame ∈ handled, DownFrame frame
  stream : ctx.connected = true →
    handled.flatten ++ ctx.recvBuf ++ ctx.connection.incoming = stdcl.connection.accepted
  gone : ctx.connected = false →
    ctx.recvBuf = [] ∧ handled.flatten <+: stdcl.connection.accepted

/-- The responses and notices among some messages. -/
def infosOf (msgs : List MpscMsgNode) : List Bytes := (msgs.map (·.buf)).filter isInfo

theorem infosOf_append (first second : List MpscMsgNode) :
    infosOf (first ++ second) = infosOf first ++ infosOf second := by
  rw [infosOf, List.map_append, List.filter_append]
  rfl

/-- Where no message of others is a notice, those that were started are of the first queue. -/
theorem infos_started {started : Started}
    (others : ∀ msg ∈ started.ofOrigin .userdata, isInfo msg.buf = false) :
    (started.map (·.2.buf)).filter isInfo = infosOf (started.ofOrigin .control) := by
  induction started with
  | nil => rfl
  | cons message started inductionHypothesis =>
    obtain ⟨origin, msg⟩ := message
    have split (queue : Origin) : Started.ofOrigin ((origin, msg) :: started) queue =
        (if origin = queue then [msg] else []) ++ Started.ofOrigin started queue :=
      (Started.ofOrigin_append [(origin, msg)] started queue).trans
        (by rw [Started.ofOrigin_singleton])
    rw [split] at others
    have rest := inductionHypothesis fun other member =>
      others other (List.mem_append_right _ member)
    rw [split, infosOf_append, List.map_cons]
    cases origin with
    | control =>
      rw [if_pos rfl, ← rest]
      exact List.filter_append [msg.buf] _
    | userdata =>
      have noInfo := others msg (List.mem_append_left _ (by simp))
      rw [if_neg (by decide), List.filter_cons_of_neg (by simp [noInfo]), rest]
      rfl

namespace Downlink

variable {start stdcl : StdClient} {ctx : ClientCtx} {generated enqueued : List MpscMsgNode}
  {handled : List Bytes}

/-- What the server started to send: the frames the client took, and those that are left. -/
structure Left (ctx : ClientCtx) (generated : List MpscMsgNode) (handled left : List Bytes)
    (unsent : Bytes) : Prop where
  frames : ∀ frame ∈ left, DownFrame frame
  stream : ctx.connected = true →
    ctx.recvBuf ++ (ctx.connection.incoming ++ unsent) = left.flatten
  infos : (handled ++ left).filter isInfo <+: infosOf generated

theorem left (down : Downlink start stdcl ctx generated enqueued handled) :
    ∃ left unsent, Left ctx generated handled left unsent := by
  obtain ⟨started, framing⟩ := down.run.framing down.session
  obtain ⟨unsent, whole⟩ := framing.isPrefix
  rw [down.unsent, List.nil_append] at whole
  have own : ∀ msg ∈ started.ofOrigin .control, DownFrame msg.buf := fun msg member =>
    down.control msg (framing.control ▸ List.mem_append_left _ member)
  have others : ∀ msg ∈ started.ofOrigin .userdata, DownFrame msg.buf ∧ isInfo msg.buf = false :=
    fun msg member => down.userdata msg (framing.userdata.subset (List.mem_append_left _ member))
  have frames : ∀ frame ∈ started.map (·.2.buf), DownFrame frame := by
    intro frame member
    obtain ⟨⟨origin, msg⟩, inside, rfl⟩ := List.mem_map.mp member
    cases origin with
    | control => exact own msg (List.mem_map.mpr ⟨_, List.mem_filter.mpr ⟨inside, by simp⟩, rfl⟩)
    | userdata =>
      exact (others msg (List.mem_map.mpr ⟨_, List.mem_filter.mpr ⟨inside, by simp⟩, rfl⟩)).1
  have wire : started.wire = (started.map (·.2.buf)).flatten := List.flatMap_def
  have front : handled.flatten <+: (started.map (·.2.buf)).flatten := by
    rw [← wire, ← whole]
    refine List.IsPrefix.trans ?_ (List.prefix_append _ _)
    cases live : ctx.connected with
    | false => exact (down.gone live).2
    | true =>
      rw [← down.stream live, List.append_assoc]
      exact List.prefix_append _ _
  obtain ⟨left, split⟩ := prefix_of_flatten_prefix down.taken frames front
  refine ⟨left, unsent, ⟨fun frame member => frames frame ?_, fun live => ?_, ?_⟩⟩
  · rw [← split]
    exact List.mem_append_right _ member
  · rw [wire, ← split, ← down.stream live, List.flatten_append, List.append_assoc,
      List.append_assoc, List.append_cancel_left_eq] at whole
    exact whole
  · rw [split, infos_started fun msg member => (others msg member).2, ← framing.control,
      infosOf_append]
    exact List.prefix_append _ _

/-- The client sees responses and notices in the order in which they were made. -/
theorem infos (down : Downlink start stdcl ctx generated enqueued handled) :
    handled.filter isInfo <+: infosOf generated := by
  obtain ⟨left, unsent, more⟩ := down.left
  refine List.IsPrefix.trans ?_ more.infos
  rw [List.filter_append]
  exact List.prefix_append _ _

/-- The client takes the next frame. -/
theorem parse {item : Handled} {next : ClientCtx}
    (down : Downlink start stdcl ctx generated enqueued handled)
    (safe : ¬ OverwritesNext ctx.recvBuf) (step : clrecvStep ctx = some (item, next)) :
    ∃ frame, item = .frame frame ∧ LearnsFrom ctx frame next ∧ next.connected = ctx.connected ∧
      Downlink start stdcl next generated enqueued (handled ++ [frame]) := by
  have live : ctx.connected = true := by
    by_contra dead
    have empty := (down.gone (Bool.eq_false_iff.mpr dead)).1
    rw [clrecvStep, empty] at step
    cases step
  obtain ⟨left, unsent, more⟩ := down.left
  have stream := more.stream live
  cases left with
  | nil =>
    rw [clrecvStep, (List.append_eq_nil_iff.mp stream).1] at step
    cases step
  | cons frame left =>
    have first := more.frames frame List.mem_cons_self
    rw [List.flatten_cons] at stream
    rcases cut_of_append stream with ⟨rest, held, _⟩ | ⟨tail, unfinished, equal⟩
    · obtain ⟨after, call, buf, connection, connected⟩ := first.1.step first.2 held safe
      obtain ⟨rfl, learns⟩ := first.clrecvStep_learns held step
      rw [call] at step
      obtain ⟨_, rfl⟩ := Prod.mk.inj (Option.some.inj step)
      refine ⟨frame, rfl, learns, connected, down.session, down.unsent, down.run, down.control,
        down.userdata, ?_, fun _ => ?_, fun dead => ?_⟩
      · intro other member
        rcases List.mem_append.mp member with old | new
        · exact down.taken other old
        · rwa [List.mem_singleton.mp new]
      · rw [buf, connection, ← down.stream live, held, List.flatten_append, List.flatten_singleton]
        simp only [List.append_assoc]
      · rw [connected, live] at dead
        cases dead
    · subst equal
      rw [clrecvStep, first.1.turn_part unfinished first.2] at step
      cases step

/-- Of the client only its buffer and what is on the way to it matter. -/
theorem withClient {other : ClientCtx}
    (down : Downlink start stdcl ctx generated enqueued handled)
    (connected : other.connected = ctx.connected) (recvBuf : other.recvBuf = ctx.recvBuf)
    (incoming : other.connection.incoming = ctx.connection.incoming) :
    Downlink start stdcl other generated enqueued handled := by
  refine ⟨down.session, down.unsent, down.run, down.control, down.userdata, down.taken, ?_, ?_⟩
  · rw [connected, recvBuf, incoming]
    exact down.stream
  · rw [connected, recvBuf]
    exact down.gone

/-- `clrecv_fill` moves what has arrived into the buffer, or it disconnects. -/
theorem fill (down : Downlink start stdcl ctx generated enqueued handled)
    (live : ctx.connected = true) :
    Downlink start stdcl (clrecvFill ctx).2 generated enqueued handled := by
  obtain ⟨bytes, filled⟩ := clrecvFill_fills.recvWhile ctx.connection ctx.recvBuf trivial
  have stream := down.stream live
  have front : handled.flatten <+: stdcl.connection.accepted := by
    rw [← stream, List.append_assoc]
    exact List.prefix_append _ _
  rw [filled.receives.incoming] at stream
  refine ⟨down.session, down.unsent, down.run, down.control, down.userdata, down.taken, ?_, ?_⟩
  · intro still
    rw [← stream]
    rw [clrecvFill] at still ⊢
    split at still
    · cases still
    · simp only [filled.state_eq, List.append_assoc]
    · simp only [filled.state_eq, List.append_assoc]
  · intro dead
    rw [clrecvFill] at dead ⊢
    split at dead
    · exact ⟨rfl, front⟩
    · exact absurd (live.symm.trans dead) (by decide)
    · exact absurd (live.symm.trans dead) (by decide)

/-- What the connection of the server accepts is on the way. -/
theorem server {after : StdClient} {made arrived : List MpscMsgNode}
    (down : Downlink start stdcl ctx generated enqueued handled)
    (run : OutboundRun start (generated ++ made) (enqueued ++ arrived) after)
    (accepts : stdcl.connection.accepted <+: after.connection.accepted)
    (control : ∀ msg ∈ made, DownFrame msg.buf)
    (userdata : ∀ msg ∈ arrived, DownFrame msg.buf ∧ isInfo msg.buf = false) :
    Downlink start after
      { ctx with connection := { ctx.connection with
          incoming := ctx.connection.incoming ++
            after.connection.accepted.drop stdcl.connection.accepted.length } }
      (generated ++ made) (enqueued ++ arrived) handled := by
  refine ⟨down.session, down.unsent, run, ?_, ?_, down.taken, fun live => ?_, fun dead => ?_⟩
  · intro msg member
    exact (List.mem_append.mp member).elim (down.control msg) (control msg)
  · intro msg member
    exact (List.mem_append.mp member).elim (down.userdata msg) (userdata msg)
  · obtain ⟨more, equal⟩ := accepts
    rw [← equal, List.drop_left, ← List.append_assoc]
    exact congrArg (· ++ more) (down.stream live)
  · obtain ⟨empty, front⟩ := down.gone dead
    exact ⟨empty, front.trans accepts⟩

end Downlink

/-- What `clrecv_fill` leaves of the other fields. -/
theorem clrecvFill_keeps (ctx : ClientCtx) (live : (clrecvFill ctx).2.connected = true) :
    (clrecvFill ctx).2 = { ctx with
      connection := (clrecvFill ctx).2.connection
      recvBuf := (clrecvFill ctx).2.recvBuf } := by
  rw [clrecvFill] at live ⊢
  split at live
  · cases live
  · rfl
  · rfl

/-! ### Who is notified -/

/-- The sender of the message a handler goes on with is there. -/
def ResumedHere (stdcl : StdClient) (table : ClientTable) : Prop :=
  ∀ tss ∈ stdcl.tempSendStorage, tss.subjectName.headD 0 ≠ 0 →
    (htableGetCond table (cString tss.subjectName)).isSome = true

/-- The sender of the first message that waits is there. -/
def DequeuedHere (stdcl : StdClient) (table : ClientTable) : Prop :=
  ∀ msg ∈ stdcl.pendingUserdataQueue.head?,
    (htableGetCond table (cString msg.subjectName)).isSome = true

instance (stdcl : StdClient) (table : ClientTable) : Decidable (ResumedHere stdcl table) :=
  inferInstanceAs (Decidable (∀ tss ∈ _, _))

instance (stdcl : StdClient) (table : ClientTable) : Decidable (DequeuedHere stdcl table) :=
  inferInstanceAs (Decidable (∀ msg ∈ _, _))

section Notices

variable {stdcl : StdClient} {resumeTable dequeueTable : ClientTable} {msg : MpscMsgNode}

theorem sendUnfinished_notice (member : msg ∈ (sendUnfinished stdcl resumeTable).2.notices) :
    ∃ tss, stdcl.tempSendStorage = some tss ∧ msg ∈ resumeNotices resumeTable tss := by
  rw [sendUnfinished] at member
  split at member
  · cases member
  · rename_i tss unfinished
    refine ⟨tss, unfinished, ?_⟩
    simp only at member
    split at member <;> exact member

/-- A notice of what a handler does first is about the message it goes on with. -/
theorem resumeNotice (member : msg ∈ (sendUnfinished stdcl resumeTable).2.notices) :
    (∃ subjectName, msg = disconnectNotice subjectName) ∧ ¬ ResumedHere stdcl resumeTable := by
  obtain ⟨tss, unfinished, made⟩ := sendUnfinished_notice member
  rw [resumeNotices] at made
  split at made
  · rename_i departed
    refine ⟨⟨_, List.mem_singleton.mp made⟩, fun here => ?_⟩
    have found := here tss unfinished departed.1
    rw [departed.2] at found
    cases found
  · cases made

/-- So is every notice of `wt_handle_outbound_data`. -/
theorem outboundNotice (member : msg ∈ (wtHandleOutboundData stdcl resumeTable).notices) :
    (∃ subjectName, msg = disconnectNotice subjectName) ∧ ¬ ResumedHere stdcl resumeTable := by
  have first : msg ∈ (sendUnfinished stdcl resumeTable).2.notices := by
    rw [wtHandleOutboundData] at member
    split at member
    · cases member
    · split at member
      · rename_i call
        rwa [call]
      · rename_i call
        rwa [call]
  exact resumeNotice first

/-- A notice of `wt_handle_queued_messages` may be about the message it takes, too. -/
theorem queuedNotice {arrived : List MpscMsgNode} {result : OutboundResult}
    (call : wtHandleQueuedMessages stdcl resumeTable dequeueTable arrived = some result)
    (member : msg ∈ result.notices) :
    (∃ subjectName, msg = disconnectNotice subjectName) ∧
      ¬ (ResumedHere stdcl resumeTable ∧ DequeuedHere stdcl dequeueTable) := by
  have waiting := sendUnfinished_pendingUserdataQueue stdcl resumeTable
  have resumed (first : msg ∈ (sendUnfinished stdcl resumeTable).2.notices) :
      (∃ subjectName, msg = disconnectNotice subjectName) ∧
        ¬ (ResumedHere stdcl resumeTable ∧ DequeuedHere stdcl dequeueTable) :=
    ⟨(resumeNotice first).1, fun here => (resumeNotice first).2 here.1⟩
  rw [wtHandleQueuedMessages] at call
  split at call
  · obtain rfl := Option.some.inj call
    cases member
  · rcases finish : sendUnfinished stdcl resumeTable with ⟨res, after, notices⟩
    rw [finish] at call waiting resumed
    simp only at call waiting resumed
    split at call
    · obtain rfl := Option.some.inj call
      exact resumed member
    · obtain rfl := Option.some.inj call
      exact resumed member
    · rename_i first pendingUserdataQueue queue
      split at call
      · obtain rfl := Option.some.inj call
        exact resumed member
      · rename_i departed
        split at call
        · cases call
        · obtain rfl := Option.some.inj call
          rcases List.mem_append.mp member with old | new
          · exact resumed old
          · refine ⟨⟨_, List.mem_singleton.mp new⟩, fun here => ?_⟩
            have found := here.2 first (by rw [← waiting, queue]; rfl)
            rw [departed] at found
            cases found

end Notices

end Lwmsg
