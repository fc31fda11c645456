/-
This file reads off what the recipient of a run of the message path has on its screen and in
its directory: the texts that are shown under the name of a sender, and the files that are
received from it.

The frames under one name are the units of what its sender typed, as far as they were taken.
A text is one unit, so the texts come one behind the other. A file is a PDU and its chunks,
with the frames of other senders in between; beside the client stands a list of the files
that were begun, and taking a frame keeps the client in step with it.
-/

import Lwmsg.MessagePath

namespace Lwmsg

open Bytes Pointers

/-! ### Texts -/

/-- The texts a client has shown under a name. -/
def textsFrom (name : Bytes) (shown : List ClioLine) : List Bytes :=
  shown.filterMap fun line => match line with
    | .text sender words => if sender = name then some words else none
    | _ => none

/-- The text of a frame under a name. -/
def frameTexts (name frame : Bytes) : List Bytes :=
  if LwmpPdu.hdrMark frame = pduSyncHdrMark ∧ LwmpPdu.msgType frame = MsgType.msg.code ∧
      senderName (LwmpPdu.subjectUname frame) = name then
    [shownText frame (wirePayload frame)]
  else []

@[simp] theorem textsFrom_append (name : Bytes) (first second : List ClioLine) :
    textsFrom name (first ++ second) = textsFrom name first ++ textsFrom name second :=
  List.filterMap_append

theorem cString_copySender (subjectUname : Bytes) :
    cString (copySender subjectUname) = senderName subjectUname :=
  cString_append_zero _

theorem textsFrom_serverLines (name pdu : Bytes) (payloadSize respCode : Nat) :
    textsFrom name (serverLines pdu payloadSize respCode) = [] := by
  rw [serverLines]
  split
  · rfl
  · split
    · rfl
    · rfl

theorem textsFrom_users (name : Bytes) (count : Nat) (users : List Bytes) :
    textsFrom name (.onlineUsers count :: users.map .user) = [] := by
  induction users with
  | nil => rfl
  | cons user users inductionHypothesis => exact inductionHypothesis

namespace ClientView

/-- A frame shows its text. -/
theorem texts_takeFrame (existing : Bytes → Bool) (view : ClientView) (name frame : Bytes) :
    textsFrom name (view.takeFrame existing frame).shown =
      textsFrom name view.shown ++ frameTexts name frame := by
  have other (type : MsgType) (same : LwmpPdu.msgType frame = type.code)
      (noText : type.code ≠ MsgType.msg.code) : frameTexts name frame = [] := by
    rw [frameTexts, if_neg]
    rintro ⟨_, text, _⟩
    exact noText (same.symm.trans text)
  rw [takeFrame]
  split
  · rename_i mark
    simp only [takePdu]
    split
    · rename_i text
      rw [textsFrom_append, frameTexts, cString_copySender]
      congr 1
      by_cases mine : senderName (LwmpPdu.subjectUname frame) = name
      · simp [textsFrom, mine, mark, text]
      · simp [textsFrom, mine]
    · rename_i noText
      have none : frameTexts name frame = [] := by
        rw [frameTexts, if_neg]
        exact fun is => noText is.2.1
      rw [none, List.append_nil]
      split
      · rw [textsFrom_append, textsFrom_serverLines, List.append_nil]
      · split
        · split
          · rw [textsFrom_append, textsFrom_users, List.append_nil]
          · rw [textsFrom_append, textsFrom_serverLines, List.append_nil]
        · split
          · simp only [takeFile]
            split
            · rw [textsFrom_append]
              exact List.append_nil _
            · rw [textsFrom_append]
              split <;> exact List.append_nil _
          · rw [textsFrom_append]
            exact List.append_nil _
  · rename_i noMark
    have none : frameTexts name frame = [] := by
      rw [frameTexts, if_neg]
      exact fun is => noMark is.1
    rw [none, List.append_nil]
    split
    · have nothing : textsFrom name (view.completed (LwmpChunk.subjectUname frame)
          (LwmpChunk.payload frame)) = [] := by
        rw [completed]
        split
        · rfl
        · split
          · rfl
          · split
            · rfl
            · split
              · rfl
              · rfl
      rw [takeChunk, textsFrom_append, nothing, List.append_nil]
    · rfl

/-- The texts under a name are those of the frames under it. -/
theorem texts_frames (existing : Bytes → Bool) (name : Bytes) (frames : List Bytes) :
    textsFrom name (viewAfter existing (frames.map .frame)).shown =
      (framesFrom name frames).flatMap (frameTexts name) := by
  induction frames using List.reverseRecOn with
  | nil => rfl
  | append_singleton frames frame inductionHypothesis =>
    rw [List.map_append, List.map_singleton, viewAfter_append]
    show textsFrom name (takeFrame existing _ frame).shown = _
    rw [texts_takeFrame, inductionHypothesis, framesFrom_append, List.flatMap_append]
    congr 1
    by_cases mine : frameSender frame = some name
    · simp [framesFrom, mine]
    · have none : frameTexts name frame = [] := by
        rw [frameTexts, if_neg]
        rintro ⟨mark, text, same⟩
        exact mine (by rw [frameSender, if_pos mark, if_pos (.inl text), same])
      simp [framesFrom, mine, none]

/-- What was received is the frames that were taken, and maybe the end of the connection. -/
theorem texts_received (existing : Bytes → Bool) (name : Bytes) {received : List Reception}
    {connected : Bool} {frames : List Bytes} (seen : received = frames.map .frame ∨
      connected = false ∧ received = frames.map .frame ++ [.disconnected]) :
    textsFrom name (viewAfter existing received).shown =
      (framesFrom name frames).flatMap (frameTexts name) := by
  rcases seen with rfl | ⟨_, rfl⟩
  · exact texts_frames existing name frames
  · rw [viewAfter_append]
    show textsFrom name (_ ++ [ClioLine.disconnected]) = _
    rw [textsFrom_append, texts_frames]
    exact List.append_nil _

end ClientView

/-- The last byte of a text is a NUL already. -/
theorem shownText_forwardedPdu {token line : Bytes} (username : Bytes)
    (sent : (TypedMsg.text token line).Sent) :
    shownText ((TypedMsg.text token line).msg.forwardedPdu username).buf
      ((cString line).length + 1) = cString line := by
  have short := sent.2
  have header : (lwmpHdr MsgType.msg.code (strncpy unamesize username)
      (List.replicate optdataLen 0) (cString line ++ [0]).length).length = lwmpHdrSize :=
    length_lwmpHdr (length_strncpy _ _) List.length_replicate
  have whole : (cString line ++ [0]).take lwmpPduBufSize = cString line ++ [0] := by
    refine List.take_of_length_le ?_
    rw [List.length_append, List.length_singleton]
    exact short
  rw [shownText, if_pos ⟨Nat.succ_pos _, short⟩, ClientMsg.forwardedPdu, TypedMsg.msg]
  simp only
  rw [whole, List.set_append_right _ _ (by omega), header, Nat.add_sub_cancel_left,
    Nat.add_sub_cancel, List.set_append_right _ _ (le_refl _), Nat.sub_self, List.set_cons_zero,
    ← header, List.drop_left, cString_append_zero]
  exact cString_eq_self (cString_clean line)

/-- What a recipient is to see of what was typed. -/
def textsTo (rcpt : Addr) (dest : ClientMsg → Addr) (typed : List TypedMsg) : List Bytes :=
  (typed.filter fun typedMsg => dest typedMsg.msg = rcpt).filterMap fun typedMsg =>
    match typedMsg with
    | .text _ line => some (cString line)
    | .file _ _ _ => none

/-- The frames of a text show it. -/
theorem texts_items_text {token line : Bytes} (username : Bytes)
    (sent : (TypedMsg.text token line).Sent) :
    (((TypedMsg.text token line).msg.items username).map (·.buf)).flatMap
      (frameTexts (senderName username)) = [cString line] := by
  have sendable := sent.sendable
  have noPieces : (TypedMsg.text token line).msg.pieces = [] := by
    have rest : (TypedMsg.text token line).msg.payload.drop lwmpPduBufSize = [] := by
      refine List.drop_of_length_le ?_
      show (cString line ++ [0]).length ≤ _
      rw [List.length_append, List.length_singleton]
      exact sent.2
    rw [ClientMsg.pieces, rest]
    cases (TypedMsg.text token line).msg.payload.length with
    | zero => rfl
    | succ pieces => rw [chunkPieces, if_pos rfl]
  have length : (TypedMsg.text token line).msg.payload.length = (cString line).length + 1 := by
    show (cString line ++ [0]).length = _
    rw [List.length_append, List.length_singleton]
  have type : LwmpPdu.msgType ((TypedMsg.text token line).msg.forwardedPdu username).buf =
      MsgType.msg.code := msgType_lwmpHdr sendable.msgType_code_lt
  have size : LwmpPdu.totalMsgSize ((TypedMsg.text token line).msg.forwardedPdu username).buf =
      (TypedMsg.text token line).msg.payload.length :=
    totalMsgSize_lwmpHdr (length_strncpy _ _) sendable.optional sendable.size
  have subject : LwmpPdu.subjectUname
      ((TypedMsg.text token line).msg.forwardedPdu username).buf = strncpy unamesize username :=
    subjectUname_lwmpHdr (length_strncpy _ _)
  have payload : wirePayload ((TypedMsg.text token line).msg.forwardedPdu username).buf =
      (cString line).length + 1 := by
    rw [wirePayload, type, if_neg fun file => absurd file.1 (by decide), size, length]
  rw [ClientMsg.items, noPieces, List.map_nil, List.map_singleton, List.flatMap_singleton,
    frameTexts, if_pos ⟨hdrMark_lwmpHdr, type, by rw [subject, senderName_strncpy_unamesize]⟩,
    payload, shownText_forwardedPdu username sent]

/-- The frames of a file show no text. -/
theorem texts_items_file {token filename content : Bytes} (username name : Bytes)
    (sent : (TypedMsg.file token filename content).Sent) :
    (((TypedMsg.file token filename content).msg.items username).map (·.buf)).flatMap
      (frameTexts name) = [] := by
  have sendable := sent.sendable
  rw [List.flatMap_eq_nil_iff]
  intro frame member
  obtain ⟨node, listed, rfl⟩ := List.mem_map.mp member
  rw [frameTexts, if_neg]
  rintro ⟨mark, text, _⟩
  rcases List.mem_cons.mp listed with rfl | chunk
  · have type : LwmpPdu.msgType
        ((TypedMsg.file token filename content).msg.forwardedPdu username).buf =
        MsgType.file.code := msgType_lwmpHdr sendable.msgType_code_lt
    exact absurd (type.symm.trans text) (by decide)
  · obtain ⟨piece, _, rfl⟩ := List.mem_map.mp chunk
    exact absurd ((hdrMark_forwardedChunk username piece).symm.trans mark) (by decide)

theorem texts_itemsTo {rcpt : Addr} {dest : ClientMsg → Addr} {typed : List TypedMsg}
    (username : Bytes) (sent : ∀ typedMsg ∈ typed, typedMsg.Sent) :
    ((itemsTo rcpt dest username (typed.map TypedMsg.msg)).map (·.buf)).flatMap
      (frameTexts (senderName username)) = textsTo rcpt dest typed := by
  induction typed with
  | nil => rfl
  | cons typedMsg typed inductionHypothesis =>
    have rest := inductionHypothesis fun other member => sent other (List.mem_cons_of_mem _ member)
    have first := sent typedMsg List.mem_cons_self
    simp only [itemsTo, textsTo, List.map_cons, List.filter_cons] at rest ⊢
    split
    · rw [List.flatMap_cons, List.map_append, List.flatMap_append, rest, List.filterMap_cons]
      cases typedMsg with
      | text token line =>
        rw [texts_items_text username first]
        rfl
      | file token filename content => rw [texts_items_file username _ first, List.nil_append]
    · exact rest

theorem allSent_typed {typed : Addr → List TypedMsg}
    (sent : ∀ sender, ∀ typedMsg ∈ typed sender, typedMsg.Sent) :
    AllSent fun sender => (typed sender).map TypedMsg.msg := by
  intro sender msg member
  obtain ⟨typedMsg, listed, rfl⟩ := List.mem_map.mp member
  exact ⟨(sent sender typedMsg listed).sendable, (sent sender typedMsg listed).whole⟩

/-- Whatever the interleaving, the texts that the recipient sees under the name of a sender are those
that were typed for it, unchanged, in order and each once, as far as they have come; and when all has
come, they are all of them.

This is about senders whose commands send all that is typed, whose messages the server accepts and
finds the recipients of, whose connections do not fail, and who stay until the recipient gets their
messages. The connection of the recipient may end. -/
theorem typed_texts_shown {rcpt : Addr} {dest : ClientMsg → Addr} {typed : Addr → List TypedMsg}
    {start world : PathWorld} (existing : Bytes → Bool)
    (begun : PathStart rcpt (fun sender => (typed sender).map TypedMsg.msg) start)
    (sent : ∀ sender, ∀ typedMsg ∈ typed sender, typedMsg.Sent)
    (run : PathRun rcpt dest (fun sender => (typed sender).map TypedMsg.msg) start world) :
    ∀ sender, typed sender ≠ [] →
      let shown := textsFrom (senderName (start.senders sender).username)
        (ClientView.viewAfter existing world.received).shown
      shown <+: textsTo rcpt dest (typed sender) ∧
        (Drained sender world → shown = textsTo rcpt dest (typed sender)) := by
  intro sender types
  have allSent := allSent_typed sent
  obtain ⟨log, generated, enqueued, handled, invariant⟩ := run.invariant begun allSent
  have sends : (typed sender).map TypedMsg.msg ≠ [] := fun none => types (List.map_eq_nil_iff.mp none)
  obtain ⟨front, all⟩ := invariant.framesFrom begun allSent sends
  have texts := @texts_itemsTo rcpt dest _ (start.senders sender).username (sent sender)
  dsimp only
  rw [ClientView.texts_received existing _ invariant.seen, ← texts]
  refine ⟨?_, fun drained => by rw [all drained]⟩
  obtain ⟨behind, split⟩ := front
  rw [← split, List.flatMap_append]
  exact List.prefix_append _ _

/-! ### A run -/

/-- What two clients send bob: ann two texts, and between them a file that takes a chunk, and eve a
text and a file of the same name. -/
def typesToBob (sender : Addr) : List TypedMsg :=
  if sender = 2 then
    [.text (ofLiteral "bob") (ofLiteral "hi"),
      .file (ofLiteral "bob") (ofLiteral "notes") (List.replicate 5000 7),
      .text (ofLiteral "bob") (ofLiteral "bye")]
  else if sender = 3 then
    [.text (ofLiteral "bob") (ofLiteral "me too"),
      .file (ofLiteral "bob") (ofLiteral "notes") [104, 105]]
  else []

def readyConn (incoming : Bytes) : Conn where
  incoming
  recvEvents := List.replicate 8 (.upTo 4096)
  recvAfter := .eblock
  accepted := []
  sendEvents := List.replicate 8 (.upTo 4096)
  sendAfter := .eblock

/-- Their messages are on the way, and bob is connected. -/
def toBob : PathWorld where
  senders sender := { sendingClient [] with
    username := strncpy unamesize (if sender = 3 then ofLiteral "eve" else ofLiteral "ann")
    connection := readyConn ((typesToBob sender).flatMap fun typedMsg => typedMsg.msg.wire) }
  stdcl := { createStdClient [127, 0, 0, 1] (readyConn []) with clState := .authenticated }
  ctx := ⟨readyConn [], true, [], false, 0, false, false⟩
  received := []

/-- Both senders stay. -/
def sendersHere : ClientTable := fun name =>
  if name = ofLiteral "eve" then some (3, .authenticated) else some (2, .authenticated)

namespace PathWorld

/-- A call for a sender. -/
def inboundFrom (world : PathWorld) (sender : Addr) : PathWorld :=
  world.forward 1 sender (wtHandleInboundData everyoneIsHere (world.senders sender))

/-- A message is taken from the queue of bob. -/
def bobServed (world : PathWorld) : PathWorld :=
  world.serve ((wtHandleQueuedMessages world.stdcl sendersHere sendersHere []).get
    (wtHandleQueuedMessages_isSome _ _ _ _)).stdcl

/-- The client of bob takes a frame if there is one. -/
def bobTakes (world : PathWorld) : PathWorld :=
  match clrecvStep world.ctx with
  | some (handled, ctx) => world.took handled ctx
  | none => world

end PathWorld

section Runs

variable {dest : ClientMsg → Addr} {messages : Addr → List ClientMsg} {start world : PathWorld}

theorem PathRun.inboundFrom (run : PathRun 1 dest messages start world)
    (accepts : ∀ sender, ∀ msg ∈ messages sender, everyoneIsHere.Accepts dest msg)
    (senders : List Addr) :
    PathRun 1 dest messages start (senders.foldl PathWorld.inboundFrom world) := by
  induction senders generalizing world with
  | nil => exact run
  | cons sender senders inductionHypothesis =>
    exact inductionHypothesis (.inbound sender everyoneIsHere run (accepts sender))

theorem PathRun.bobServed (run : PathRun 1 dest messages start world) (times : Nat)
    (here : ∀ turn < times, DequeuedHere (PathWorld.bobServed^[turn] world).stdcl sendersHere) :
    PathRun 1 dest messages start (PathWorld.bobServed^[times] world) := by
  induction times with
  | zero => exact run
  | succ times inductionHypothesis =>
    rw [Function.iterate_succ_apply']
    exact .queuedMessages _ _
      (inductionHypothesis fun turn before => here turn (Nat.lt_succ_of_lt before))
      (here times (Nat.lt_succ_self times)) (Option.some_get _).symm

theorem PathRun.bobTakes (run : PathRun 1 dest messages start world) (times : Nat) :
    PathRun 1 dest messages start (PathWorld.bobTakes^[times] world) := by
  induction times generalizing world with
  | zero => exact run
  | succ times inductionHypothesis =>
    refine inductionHypothesis ?_
    rw [PathWorld.bobTakes]
    split
    · rename_i step
      exact .turn run step
    · exact run

end Runs

/-- All of it waits for bob. The file of eve comes between the parts of the one of ann. -/
def toBobQueued : PathWorld := [2, 3, 2, 3, 2, 2].foldl PathWorld.inboundFrom toBob

/-- All of it arrives. -/
def toBobArrived : PathWorld :=
  PathWorld.bobTakes^[6]
    ((PathWorld.bobServed^[6] toBobQueued).fill (List.replicate 2 (.upTo 4096)))

theorem typesToBob_sent : ∀ sender, ∀ typedMsg ∈ typesToBob sender, typedMsg.Sent := by
  intro sender typedMsg member
  rw [typesToBob] at member
  split at member
  · have all : ∀ typedMsg ∈ typesToBob 2, typedMsg.Sent := by decide +kernel
    exact all typedMsg member
  · split at member
    · have all : ∀ typedMsg ∈ typesToBob 3, typedMsg.Sent := by decide +kernel
      exact all typedMsg member
    · cases member

theorem typesToBob_sender {sender : Addr} (types : (typesToBob sender).map TypedMsg.msg ≠ []) :
    sender = 2 ∨ sender = 3 := by
  by_contra neither
  rw [not_or] at neither
  rw [typesToBob, if_neg neither.1, if_neg neither.2] at types
  exact types rfl

theorem typesToBob_accepted (sender : Addr) : ∀ msg ∈ (typesToBob sender).map TypedMsg.msg,
    everyoneIsHere.Accepts (fun _ => 1) msg := by
  intro msg member
  have executed : ∀ msg ∈ (typesToBob 2 ++ typesToBob 3).map TypedMsg.msg,
      everyoneIsHere.verdict msg.hdr = .ok ∧ everyoneIsHere.recipient msg.hdr = some 1 := by
    decide +kernel
  have both : msg ∈ (typesToBob 2 ++ typesToBob 3).map TypedMsg.msg := by
    rw [List.map_append]
    rcases typesToBob_sender (List.ne_nil_of_mem member) with rfl | rfl
    · exact List.mem_append_left _ member
    · exact List.mem_append_right _ member
  exact ⟨(executed msg both).1, (executed msg both).2⟩

theorem toBob_start : PathStart 1 (fun sender => (typesToBob sender).map TypedMsg.msg) toBob where
  sessions := fun _ => ⟨rfl, rfl⟩
  reliable := by
    have never : NetEvent.failure .error ∉ List.replicate 8 (NetEvent.upTo 4096) := by decide
    exact fun _ => ⟨rfl, ⟨rfl, never⟩, ⟨rfl, never⟩⟩
  streams := fun sender => (List.flatMap_map ..).symm
  names := by
    intro sender other sends sendsToo same
    rcases typesToBob_sender sends with rfl | rfl <;>
      rcases typesToBob_sender sendsToo with rfl | rfl
    · rfl
    · exact absurd same (by decide +kernel)
    · exact absurd same (by decide +kernel)
    · rfl
  noSelf := rfl
  session := ⟨rfl, rfl, rfl, rfl⟩
  unsent := rfl
  connected := rfl
  empty := rfl
  nothing := rfl
  unseen := rfl

/-- What happens in the run: the sender of what is dequeued is there, the client is connected, all is
taken, and there are never too many transfers. -/
theorem toBobArrived_executed :
    (∀ turn < 6, DequeuedHere (PathWorld.bobServed^[turn] toBobQueued).stdcl sendersHere) ∧
      (PathWorld.bobServed^[6] toBobQueued).ctx.connected = true ∧
      ((toBobArrived.senders 2).connection.incoming = [] ∧
        (toBobArrived.senders 3).connection.incoming = []) ∧
      toBobArrived.stdcl.pendingUserdataQueue = [] ∧ toBobArrived.stdcl.tempSendStorage = none ∧
      toBobArrived.ctx.connected = true ∧ toBobArrived.ctx.recvBuf = [] ∧
      toBobArrived.ctx.connection.incoming = [] ∧ ClioLine.tooManyTransfers ∉
        (ClientView.viewAfter (fun _ => false) toBobArrived.received).shown := by
  decide +kernel

theorem toBobArrived_run : PathRun 1 (fun _ => 1) (fun sender => (typesToBob sender).map TypedMsg.msg)
    toBob toBobArrived := by
  have queued : PathRun 1 (fun _ => 1) (fun sender => (typesToBob sender).map TypedMsg.msg) toBob
      toBobQueued := PathRun.start.inboundFrom typesToBob_accepted _
  obtain ⟨here, live, _⟩ := toBobArrived_executed
  exact (PathRun.fill _ (queued.bobServed 6 here) live).bobTakes 6

theorem toBobArrived_drained : Drained 2 toBobArrived ∧ Drained 3 toBobArrived := by
  obtain ⟨_, _, ⟨ann, eve⟩, waiting, idle, connected, buffer, nothing, _⟩ := toBobArrived_executed
  exact ⟨⟨ann, waiting, idle, connected, buffer, nothing⟩,
    ⟨eve, waiting, idle, connected, buffer, nothing⟩⟩

/-- The texts of both are shown. -/
theorem typed_texts_shown_two_senders :
    textsFrom (ofLiteral "ann")
        (ClientView.viewAfter (fun _ => false) toBobArrived.received).shown =
      [ofLiteral "hi", ofLiteral "bye"] ∧
    textsFrom (ofLiteral "eve")
        (ClientView.viewAfter (fun _ => false) toBobArrived.received).shown =
      [ofLiteral "me too"] := by
  have executed : senderName (toBob.senders 2).username = ofLiteral "ann" ∧
      senderName (toBob.senders 3).username = ofLiteral "eve" ∧
      textsTo 1 (fun _ => 1) (typesToBob 2) = [ofLiteral "hi", ofLiteral "bye"] ∧
      textsTo 1 (fun _ => 1) (typesToBob 3) = [ofLiteral "me too"] := by
    decide +kernel
  obtain ⟨ann, eve, annTexts, eveTexts⟩ := executed
  have shown := typed_texts_shown (fun _ => false) toBob_start typesToBob_sent toBobArrived_run
  rw [← ann, ← eve, ← annTexts, ← eveTexts]
  exact ⟨(shown 2 (List.cons_ne_nil _ _)).2 toBobArrived_drained.1,
    (shown 3 (List.cons_ne_nil _ _)).2 toBobArrived_drained.2⟩

end Lwmsg
