/-
This file is about the moment at which a side stops reading. Both sides are told of
new bytes by epoll, and bytes that TLS has decrypted already are not announced again,
so a side that stops before `recv_fn` answered `EBLOCK` may leave bytes behind for good.

It records what the calls of `recv_fn` answer in the loops around them, and says how
such a loop ends in terms of the bytes that are there. From this it says when the loop
of `wt_handle_clientevent` and when `handle_socket_data` stop at an `EBLOCK`.
-/

import Lwmsg.InboundDrain
import Lwmsg.ClrecvLoop

namespace Lwmsg

open Bytes Pointers

/-! ### The answers of a loop -/

/-- What the calls of `recv_fn` answer in the turns of a loop. -/
def recvTurnsAnswers {State : Type} (wanted : State → Option Nat)
    (received : State → Bytes → State) : Nat → Conn → State → List (Except NetFailure Bytes)
  | 0, connection, _ => [.error connection.recvAfter]
  | turns + 1, connection, state =>
    match wanted state with
    | none => []
    | some len =>
      match connection.recvFn len with
      | (.error reason, _) => [.error reason]
      | (.ok bytes, connection) =>
        .ok bytes :: recvTurnsAnswers wanted received turns connection (received state bytes)

/-- The answers in `while (wanted) { recv_fn; received }`. -/
def recvWhileAnswers {State : Type} (wanted : State → Option Nat)
    (received : State → Bytes → State) (connection : Conn) (state : State) :
    List (Except NetFailure Bytes) :=
  recvTurnsAnswers wanted received (connection.recvEvents.length + 1) connection state

/-- The answers in `do { recv_fn; received } while (wanted)`. -/
def recvDoWhileAnswers {State : Type} (len : Nat) (wanted : State → Option Nat)
    (received : State → Bytes → State) (connection : Conn) (state : State) :
    List (Except NetFailure Bytes) :=
  match connection.recvFn len with
  | (.error reason, _) => [.error reason]
  | (.ok bytes, connection) =>
    .ok bytes :: recvWhileAnswers wanted received connection (received state bytes)

section Answers

variable {State : Type} {wanted : State → Option Nat} {received : State → Bytes → State}

/-- A call that delivers is not the last one that failed. -/
theorem getLast_ok_cons (bytes : Bytes) (rest : List (Except NetFailure Bytes))
    (reason : NetFailure) : (.ok bytes :: rest).getLast? = some (.error reason) ↔
      rest.getLast? = some (.error reason) := by
  rw [List.getLast?_cons]
  cases rest.getLast? with
  | none => simp
  | some last => simp

/-- A loop ended with a failure exactly if that was the last answer. -/
theorem recvTurnsAnswers_getLast (turns : Nat) (connection : Conn) (state : State)
    (reason : NetFailure) :
    (recvTurnsAnswers wanted received turns connection state).getLast? = some (.error reason) ↔
      (recvTurns wanted received turns connection state).stopped = some reason := by
  induction turns generalizing connection state with
  | zero => simp [recvTurnsAnswers, recvTurns]
  | succ turns inductionHypothesis =>
    unfold recvTurnsAnswers recvTurns
    cases wanted state with
    | none => simp
    | some len =>
      rcases call : connection.recvFn len with ⟨answer, after⟩
      cases answer with
      | error failure => simp [call]
      | ok bytes =>
        simp only [call]
        exact (getLast_ok_cons _ _ _).trans (inductionHypothesis after (received state bytes))

theorem recvWhileAnswers_getLast (connection : Conn) (state : State) (reason : NetFailure) :
    (recvWhileAnswers wanted received connection state).getLast? = some (.error reason) ↔
      (recvWhile wanted received connection state).stopped = some reason :=
  recvTurnsAnswers_getLast _ _ _ _

theorem recvDoWhileAnswers_getLast (len : Nat) (connection : Conn) (state : State)
    (reason : NetFailure) :
    (recvDoWhileAnswers len wanted received connection state).getLast? = some (.error reason) ↔
      (recvDoWhile len wanted received connection state).stopped = some reason := by
  unfold recvDoWhileAnswers recvDoWhile
  rcases connection.recvFn len with ⟨answer, after⟩
  cases answer with
  | error failure => simp
  | ok bytes => exact (getLast_ok_cons _ _ _).trans (recvWhileAnswers_getLast _ _ _)

end Answers

/-! ### The bytes that are there -/

/-- How many bytes the calls before the first failure may deliver. -/
def offered : List NetEvent → Nat
  | .upTo limit :: events => limit + 1 + offered events
  | .failure _ :: _ | [] => 0

/-- The bytes that `recv_fn` delivers before a call fails, if they are asked for. -/
def Conn.backlog (connection : Conn) : Bytes :=
  connection.incoming.take (offered connection.recvEvents)

/-- Where a call fails, nothing was there. -/
theorem Conn.backlog_of_error {before after : Conn} {reason : NetFailure} {len : Nat}
    (space : len ≠ 0) (call : before.recvFn len = (.error reason, after)) : before.backlog = [] := by
  unfold Conn.backlog
  unfold Conn.recvFn at call
  split at call
  · rename_i events
    rw [events, offered, List.take_zero]
  · rename_i event recvEvents events
    rw [events]
    cases event with
    | failure failed => rw [offered, List.take_zero]
    | upTo limit =>
      by_cases empty : before.incoming = []
      · rw [empty, List.take_nil]
      · simp only [recvOne, if_neg space, if_neg empty] at call
        cases call

/-- A call that delivers takes its bytes from what is there, and all of an event unless it was asked
for less. -/
theorem Conn.backlog_of_ok {before after : Conn} {bytes : Bytes} {len : Nat}
    (call : before.recvFn len = (.ok bytes, after)) :
    bytes.length ≤ before.backlog.length ∧ (bytes.length < len →
      before.backlog.length = bytes.length + after.backlog.length) := by
  unfold Conn.backlog
  unfold Conn.recvFn at call
  split at call
  · cases call
  · rename_i event recvEvents events
    rw [events]
    cases event with
    | failure failed => cases call
    | upTo limit =>
      split at call
      · cases call
      · rename_i delivered answer
        rw [recvOne] at answer
        split at answer
        · cases answer
        · split at answer
          · cases answer
          · obtain rfl := Except.ok.inj answer
            cases call
            simp only [offered, List.length_take, List.length_drop]
            omega

/-- A loop that fills up ends without a failure exactly if there are enough bytes. -/
theorem Fills.stopped_eq_none_iff {State : Type} {wanted : State → Option Nat}
    {received : State → Bytes → State} {room : State → Nat} {good : State → Prop}
    (fills : Fills wanted received room good) (connection : Conn) (state : State)
    (start : good state) :
    (Lwmsg.recvWhile wanted received connection state).stopped = none ↔
      room state ≤ connection.backlog.length := by
  refine fills.turns ?full ?failure ?turn connection state start
  case full =>
    intro connection state start full
    rw [fills.recvWhile_full _ _ start full, full]
    simp
  case failure =>
    intro connection state reason after start space call
    rw [fills.recvWhile_failure start space call, Conn.backlog_of_error space call]
    simp [space]
  case turn =>
    intro connection state bytes after start space call next
    have within := (Conn.recvFn_ok call).2.1
    obtain ⟨taken, rest⟩ := Conn.backlog_of_ok call
    rw [fills.recvWhile_turn start space call]
    rw [fills.room_received state bytes start within] at next
    refine next.trans ?_
    by_cases short : bytes.length < room state
    · have equal := rest short
      omega
    · omega

/-! ### The client -/

/-- `handle_socket_data`, or nothing where the loop of `clrecv_parse` does not end. -/
def handleSocketData (ctx : ClientCtx) : Option (List Handled × ClientCtx) :=
  match clrecvFill ctx with
  | (false, ctx) => some ([], ctx)
  | (true, ctx) => clrecvParse ctx

theorem handleSocketData_of_filled {ctx next : ClientCtx} (fill : clrecvFill ctx = (true, next)) :
    handleSocketData ctx = clrecvParse next := by
  unfold handleSocketData
  rw [fill]

/-- What `recv_fn` answers in a call of `handle_socket_data`. Only `clrecv_fill` calls it. -/
def socketDataAnswers (ctx : ClientCtx) : List (Except NetFailure Bytes) :=
  recvWhileAnswers
    (fun recvBuf : Bytes =>
      if recvBuf.length < recvBufSize then some (recvBufSize - recvBuf.length) else none)
    (fun recvBuf bytes => recvBuf ++ bytes) ctx.connection ctx.recvBuf

/-- Decoding does not touch the connection. -/
theorem clrecvStep_connection {ctx next : ClientCtx} {handled : Handled}
    (step : clrecvStep ctx = some (handled, next)) : next.connection = ctx.connection := by
  unfold clrecvStep at step
  split at step
  · cases step
  · cases step
    rfl
  · cases step
    exact (processReceivedPdu_terminated ctx _).2.1
  · cases step
    rfl
  · cases step
    rfl

theorem clrecvParseTurns_connection {turns : Nat} {ctx after : ClientCtx} {handled : List Handled}
    (call : clrecvParseTurns turns ctx = some (handled, after)) :
    after.connection = ctx.connection := by
  induction turns generalizing ctx handled with
  | zero => cases call
  | succ turns inductionHypothesis =>
    rw [clrecvParseTurns] at call
    split at call
    · cases call
      rfl
    · rename_i first next step
      obtain ⟨⟨rest, last⟩, later, equal⟩ := Option.map_eq_some_iff.mp call
      cases equal
      exact (inductionHypothesis later).trans (clrecvStep_connection step)

/-- How `clrecv_fill` ends: its last read is answered with `EBLOCK`, the buffer is full, or the
client disconnects. -/
inductive SocketRead (ctx : ClientCtx) : Bool × ClientCtx → Prop
  | blocked {next} (last : (socketDataAnswers ctx).getLast? = some (.error .eblock))
      (short : ctx.recvBuf.length + ctx.connection.backlog.length < recvBufSize) :
      SocketRead ctx (true, next)
  | full {bytes connection} (last : (socketDataAnswers ctx).getLast? ≠ some (.error .eblock))
      (full : recvBufSize ≤ ctx.recvBuf.length + ctx.connection.backlog.length)
      (length : bytes.length = recvBufSize - ctx.recvBuf.length)
      (receives : ctx.connection.Receives bytes connection) :
      SocketRead ctx (true, { ctx with connection, recvBuf := ctx.recvBuf ++ bytes })
  | failed {next} (fails : ¬ ctx.connection.NeverFails) (gone : next.connected = false) :
      SocketRead ctx (false, next)

theorem clrecvFill_read (ctx : ClientCtx) : SocketRead ctx (clrecvFill ctx) := by
  obtain ⟨bytes, filled⟩ := clrecvFill_fills.recvWhile ctx.connection ctx.recvBuf trivial
  have complete := filled.complete
  have state := filled.state_eq
  have there := clrecvFill_fills.stopped_eq_none_iff ctx.connection ctx.recvBuf trivial
  have answered := @recvWhileAnswers_getLast _
    (fun recvBuf : Bytes =>
      if recvBuf.length < recvBufSize then some (recvBufSize - recvBuf.length) else none)
    (fun recvBuf bytes => recvBuf ++ bytes) ctx.connection ctx.recvBuf .eblock
  unfold clrecvFill
  dsimp only
  cases stopped : (recvWhile (fun recvBuf : Bytes =>
      if recvBuf.length < recvBufSize then some (recvBufSize - recvBuf.length) else none)
      (fun recvBuf bytes => recvBuf ++ bytes) ctx.connection ctx.recvBuf).stopped with
  | none =>
    rw [stopped] at answered there complete
    have enough := there.mp rfl
    rw [state]
    refine .full (fun last => ?_) (by omega) (complete.mp rfl) filled.receives
    cases answered.mp last
  | some reason =>
    rw [stopped] at answered there
    cases reason with
    | error => exact .failed (fun clean => filled.clean clean stopped) rfl
    | eblock =>
      have short : ¬ recvBufSize - ctx.recvBuf.length ≤ ctx.connection.backlog.length :=
        fun enough => by cases there.mpr enough
      exact .blocked (answered.mpr rfl) (by omega)

/-- Where `handle_socket_data` returns and the client is still connected, its last read was answered
with `EBLOCK` exactly if everything that was there fits into the buffer and leaves room; otherwise all
the bytes behind the end of the buffer stay behind. -/
theorem handle_socket_data_reads_all_iff {ctx after : ClientCtx} {handled : List Handled}
    (returns : handleSocketData ctx = some (handled, after)) (connected : after.connected = true) :
    ((socketDataAnswers ctx).getLast? = some (.error .eblock) ↔
      ctx.recvBuf.length + ctx.connection.backlog.length < recvBufSize) ∧
    (recvBufSize ≤ ctx.recvBuf.length + ctx.connection.backlog.length →
      after.connection.incoming =
        ctx.connection.incoming.drop (recvBufSize - ctx.recvBuf.length)) := by
  have read := clrecvFill_read ctx
  unfold handleSocketData at returns
  generalize clrecvFill ctx = result at read returns
  cases read with
  | blocked last short => exact ⟨iff_of_true last short, fun full => absurd short (not_lt.mpr full)⟩
  | full last full length receives =>
    refine ⟨iff_of_false last (not_lt.mpr full), fun _ => ?_⟩
    rw [clrecvParseTurns_connection returns, receives.incoming, ← length, List.drop_left]
  | failed fails gone =>
    cases returns
    rw [gone] at connected
    cases connected

/-- A call that decodes whole chunks and nothing else. -/
theorem clrecvParseTurns_chunks {turns : Nat} {ctx : ClientCtx} {chunks : List Bytes}
    (chunk : ∀ frame ∈ chunks, ChunkFrame frame) (held : ctx.recvBuf = chunks.flatten)
    (enough : chunks.length < turns) :
    clrecvParseTurns turns ctx = some (chunks.map .frame, { ctx with recvBuf := [] }) := by
  obtain ⟨more, rfl⟩ := Nat.exists_eq_add_of_lt enough
  clear enough
  induction chunks generalizing ctx with
  | nil =>
    have empty : ctx.recvBuf = [] := held
    have ends : clrecvStep ctx = none := by
      rw [clrecvStep, empty]
      rfl
    rw [clrecvParseTurns, ends, List.map_nil, ← empty]
  | cons frame chunks inductionHypothesis =>
    have held : ctx.recvBuf = frame ++ chunks.flatten := by rw [held, List.flatten_cons]
    have step : clrecvStep ctx =
        some (.frame frame, { ctx with recvBuf := chunks.flatten }) := by
      rw [clrecvStep, held, (chunk frame List.mem_cons_self).turn]
      simp only [List.take_left, List.drop_left]
    have rest := @inductionHypothesis { ctx with recvBuf := chunks.flatten }
      (fun later member => chunk later (List.mem_cons_of_mem _ member)) rfl
    have turns : (frame :: chunks).length + more + 1 = chunks.length + more + 1 + 1 := by
      rw [List.length_cons]
      omega
    rw [turns, clrecvParseTurns, step]
    simp only [rest, Option.map_some, List.map_cons]

theorem clrecvParse_chunks {ctx : ClientCtx} {chunks : List Bytes}
    (chunk : ∀ frame ∈ chunks, ChunkFrame frame) (held : ctx.recvBuf = chunks.flatten) :
    clrecvParse ctx = some (chunks.map .frame, { ctx with recvBuf := [] }) := by
  have longer : chunks.length ≤ chunks.flatten.length := by
    have some : ∀ frame ∈ chunks, 1 ≤ frame.length := fun frame member =>
      (by decide : 1 ≤ 4).trans (ServerFrame.length_pos (.inr (chunk frame member)))
    clear chunk held
    induction chunks with
    | nil => exact Nat.zero_le _
    | cons frame chunks inductionHypothesis =>
      have first := some frame List.mem_cons_self
      have rest := inductionHypothesis fun frame member => some frame (List.mem_cons_of_mem _ member)
      rw [List.flatten_cons, List.length_append, List.length_cons]
      omega
  refine clrecvParseTurns_chunks chunk held ?_
  rw [held]
  omega

/-- A chunk of a file that is as long as a chunk may be. -/
def fullChunk : Bytes :=
  lwmpPrepareChunk (List.replicate lwmpMaxPduSize 0) lwmpChunkBufSize (ofLiteral "bob")
    (List.replicate lwmpChunkBufSize 7)

theorem fullChunk_eq : fullChunk = lwmpPrepareChunk (List.replicate lwmpMaxPduSize 0)
    (List.replicate lwmpChunkBufSize (7 : UInt8)).length (ofLiteral "bob")
    (List.replicate lwmpChunkBufSize 7) := by
  rw [List.length_replicate, fullChunk]

theorem fullChunk_fits : (List.replicate lwmpChunkBufSize (7 : UInt8)).length ≤ lwmpChunkBufSize ∧
    (List.replicate lwmpMaxPduSize (0 : UInt8)).length ≤
      lwmpChunkHdrSize + (List.replicate lwmpChunkBufSize (7 : UInt8)).length := by
  rw [List.length_replicate, List.length_replicate]
  exact ⟨le_rfl, by decide⟩

theorem fullChunk_chunkFrame : ChunkFrame fullChunk := by
  rw [fullChunk_eq]
  exact chunkFrame_lwmpPrepareChunk fullChunk_fits.1 fullChunk_fits.2

theorem length_fullChunk : fullChunk.length = lwmpMaxPduSize := by
  rw [fullChunk_eq, length_lwmpPrepareChunk fullChunk_fits.1 fullChunk_fits.2,
    List.length_replicate]
  rfl

/-- A client for which five chunks have arrived. -/
def chunksClient : ClientCtx :=
  readingClient (List.replicate 5 fullChunk) (List.replicate 5 (.upTo (lwmpMaxPduSize - 1)))

theorem chunksClient_backlog :
    chunksClient.connection.backlog = (List.replicate 5 fullChunk).flatten := by
  have all : offered chunksClient.connection.recvEvents = 5 * fullChunk.length := by
    rw [length_fullChunk]
    rfl
  rw [Conn.backlog, all]
  refine List.take_of_length_le ?_
  simp [chunksClient, readingClient, length_fullChunk]

/-- The client handles four of the chunks. It stops without an `EBLOCK`, and the last chunk stays
behind although all of it is there. -/
theorem client_leaves_chunk : ∃ ctx handled after, ctx.connected = true ∧ ctx.recvBuf = [] ∧
    (∃ frames, ctx.connection.backlog = List.flatten frames ∧
      ∀ frame ∈ frames, ServerFrame frame ∧ frame.length ≤ recvBufSize) ∧
    handleSocketData ctx = some (handled, after) ∧ after.connected = true ∧
    (socketDataAnswers ctx).getLast? ≠ some (.error .eblock) ∧
    after.connection.incoming = fullChunk := by
  have small : fullChunk.length ≤ recvBufSize := by
    rw [length_fullChunk]
    decide
  have split : chunksClient.connection.incoming =
      (List.replicate 4 fullChunk).flatten ++ fullChunk := by
    show (List.replicate 5 fullChunk).flatten = _
    rw [List.replicate_succ', List.flatten_append, List.flatten_singleton]
  have four : (List.replicate 4 fullChunk).flatten.length = recvBufSize := by
    simp [length_fullChunk]
  have clean : chunksClient.connection.NeverFails := ⟨rfl, by decide⟩
  have read := clrecvFill_read chunksClient
  rcases fill : clrecvFill chunksClient with ⟨answer, next⟩
  rw [fill] at read
  cases read with
  | blocked last short =>
    rw [chunksClient_backlog] at short
    simp only [List.length_flatten, List.map_replicate, length_fullChunk] at short
    exact absurd short (by decide)
  | failed fails gone => exact absurd clean fails
  | @full bytes connection last full length receives =>
    have joined := receives.incoming
    rw [split] at joined
    have none : chunksClient.recvBuf.length = 0 := rfl
    rw [none, Nat.sub_zero, ← four] at length
    obtain ⟨rfl, rest⟩ := List.append_inj joined length.symm
    have empty : chunksClient.recvBuf ++ (List.replicate 4 fullChunk).flatten =
        (List.replicate 4 fullChunk).flatten := List.nil_append _
    rw [empty] at fill
    have chunk : ∀ frame ∈ List.replicate 4 fullChunk, ChunkFrame frame := by
      intro frame member
      rw [List.eq_of_mem_replicate member]
      exact fullChunk_chunkFrame
    have returns := (handleSocketData_of_filled fill).trans (clrecvParse_chunks chunk rfl)
    refine ⟨chunksClient, _, _, rfl, rfl, ⟨_, chunksClient_backlog, fun frame member => ?_⟩,
      returns, rfl, last, rest.symm⟩
    rw [List.eq_of_mem_replicate member]
    exact ⟨.inr fullChunk_chunkFrame, small⟩

/-- A client for which a response and a text have arrived, and a part of another text. -/
def respondedClient : ClientCtx :=
  readingClient [okResponse, helloText, helloText] [.upTo 99, .upTo 120]

/-- It reads until there is nothing more, and keeps the part. -/
theorem handle_socket_data_reads_all_iff_two_frames :
    ∃ after, handleSocketData respondedClient =
        some ([.frame okResponse, .frame helloText], after) ∧ after.recvBuf = helloText.take 57 ∧
      ((socketDataAnswers respondedClient).getLast? = some (.error .eblock) ↔
        respondedClient.recvBuf.length + respondedClient.connection.backlog.length < recvBufSize) := by
  have executed : (handleSocketData respondedClient).map
      (fun answer => (answer.1, answer.2.recvBuf, answer.2.connected)) =
        some ([.frame okResponse, .frame helloText], helloText.take 57, true) := by
    decide +kernel
  obtain ⟨⟨handled, after⟩, returns, same⟩ := Option.map_eq_some_iff.mp executed
  simp only [Prod.mk.injEq] at same
  obtain ⟨rfl, kept, connected⟩ := same
  exact ⟨after, returns, kept, (handle_socket_data_reads_all_iff returns connected).1⟩

/-! ### One call of the server -/

/-- What `recv_fn` answers in a loop that leaves the function on every failure. -/
def inboundRecvAnswers (wanted : CurrRecvMsg → Option Nat)
    (received : CurrRecvMsg → Bytes → CurrRecvMsg) (stdcl : StdClient) :
    List (Except NetFailure Bytes) :=
  recvWhileAnswers wanted received stdcl.connection stdcl.tempRecvStorage

/-- The same in the branch for a client whose stream is out of step. -/
def inboundResyncAnswers (stdcl : StdClient) : List (Except NetFailure Bytes) :=
  if stdcl.tempRecvStorage.isDesynced then
    recvDoWhileAnswers (lwmpMaxPduSize - stdcl.tempRecvStorage.recvbuf.length)
      CurrRecvMsg.resyncWanted CurrRecvMsg.received stdcl.connection stdcl.tempRecvStorage
  else []

/-- The same in the branch for the first PDU of a message. -/
def inboundRecvPduAnswers (stdcl : StdClient) : List (Except NetFailure Bytes) :=
  inboundRecvAnswers CurrRecvMsg.hdrWanted CurrRecvMsg.received stdcl ++
    match inboundRecv CurrRecvMsg.hdrWanted CurrRecvMsg.received stdcl with
    | .leave _ _ => []
    | .go stdcl =>
      inboundRecvAnswers CurrRecvMsg.bodyWanted CurrRecvMsg.receivedPayload
        { stdcl with tempRecvStorage := stdcl.tempRecvStorage.startMsg }

/-- What `recv_fn` answers in a call of `wt_handle_inbound_data`. -/
def inboundAnswers (stdcl : StdClient) : List (Except NetFailure Bytes) :=
  if stdcl.clState = .disconnected then []
  else
    inboundResyncAnswers stdcl ++
      match inboundResync stdcl with
      | .leave _ _ => []
      | .go stdcl =>
        if ¬ stdcl.tempRecvStorage.notMsgInitPdu then inboundRecvPduAnswers stdcl
        else inboundRecvAnswers CurrRecvMsg.chunkWanted CurrRecvMsg.receivedPayload stdcl

/-- The last answer of two loops is that of the second one, if it met a failure. -/
theorem getLast_append_failure {first second : List (Except NetFailure Bytes)} {reason : NetFailure}
    (last : second.getLast? = some (.error reason)) :
    (first ++ second).getLast? = some (.error reason) := by
  rw [List.getLast?_append, last]
  rfl

/-- A loop that leaves as blocked met an `EBLOCK`. -/
theorem inboundRecv_blocked {wanted : CurrRecvMsg → Option Nat}
    {received : CurrRecvMsg → Bytes → CurrRecvMsg} {stdcl after : StdClient}
    (leaves : inboundRecv wanted received stdcl = .leave .blocked after) :
    (inboundRecvAnswers wanted received stdcl).getLast? = some (.error .eblock) := by
  refine (recvWhileAnswers_getLast _ _ _).mpr ?_
  unfold inboundRecv at leaves
  dsimp only at leaves
  split at leaves
  · cases leaves
  · rename_i stopped
    exact stopped
  · cases leaves

/-- Where the branch for a first PDU leaves as blocked, the loop for the header does, or the one
behind it. -/
theorem inboundRecvPdu_blockedLoop {stdcl after : StdClient}
    (leaves : inboundRecvPdu stdcl = .leave .blocked after) :
    inboundRecv CurrRecvMsg.hdrWanted CurrRecvMsg.received stdcl = .leave .blocked after ∨
      ∃ next, inboundRecv CurrRecvMsg.hdrWanted CurrRecvMsg.received stdcl = .go next ∧
        inboundRecv CurrRecvMsg.bodyWanted CurrRecvMsg.receivedPayload
          { next with tempRecvStorage := next.tempRecvStorage.startMsg } = .leave .blocked after := by
  unfold inboundRecvPdu at leaves
  cases hdr : inboundRecv CurrRecvMsg.hdrWanted CurrRecvMsg.received stdcl with
  | leave exit left =>
    rw [hdr] at leaves
    cases leaves
    exact .inl rfl
  | go next =>
    rw [hdr] at leaves
    dsimp only at leaves
    refine .inr ⟨next, rfl, ?_⟩
    split at leaves
    · rename_i body
      cases leaves
      exact body
    · split at leaves
      · cases leaves
      · cases leaves

theorem inboundRecvPdu_blocked {stdcl after : StdClient}
    (leaves : inboundRecvPdu stdcl = .leave .blocked after) :
    (inboundRecvPduAnswers stdcl).getLast? = some (.error .eblock) := by
  unfold inboundRecvPduAnswers
  rcases inboundRecvPdu_blockedLoop leaves with hdr | ⟨next, hdr, body⟩
  · rw [hdr, List.append_nil]
    exact inboundRecv_blocked hdr
  · rw [hdr]
    exact getLast_append_failure (inboundRecv_blocked body)

/-- The branch for a stream out of step leaves after an `ERROR` or without a header. -/
theorem inboundResync_leaves {stdcl after : StdClient} {exit : InboundExit}
    (leaves : inboundResync stdcl = .leave exit after) : exit = .recvError ∨ exit = .notResynced := by
  unfold inboundResync at leaves
  dsimp only at leaves
  split at leaves
  · split at leaves
    · cases leaves
      exact .inl rfl
    · split at leaves
      · cases leaves
      · cases leaves
        exact .inr rfl
  · cases leaves

theorem inboundDeliverPdu_exit (env : InboundEnv) (stdcl : StdClient) :
    (inboundDeliverPdu env stdcl).exit ≠ .blocked ∧
      (inboundDeliverPdu env stdcl).exit ≠ .notResynced := by
  unfold inboundDeliverPdu
  dsimp only
  split
  · simp
  · split
    · simp
    · split <;> simp

theorem inboundDeliverChunk_exit (env : InboundEnv) (stdcl : StdClient) :
    (inboundDeliverChunk env stdcl).exit ≠ .blocked ∧
      (inboundDeliverChunk env stdcl).exit ≠ .notResynced := by
  unfold inboundDeliverChunk
  dsimp only
  split <;> simp

/-- The branch in which a call leaves as blocked, and the client it leaves. -/
inductive BlockedBranch (stdcl : StdClient) : StdClient → Prop
  | pdu {next after} (went : inboundResync stdcl = .go next)
      (first : next.tempRecvStorage.notMsgInitPdu = false)
      (leaves : inboundRecvPdu next = .leave .blocked after) : BlockedBranch stdcl after
  | chunk {next after} (went : inboundResync stdcl = .go next)
      (begun : next.tempRecvStorage.notMsgInitPdu = true)
      (leaves : inboundRecvChunk next = .leave .blocked after) : BlockedBranch stdcl after

theorem wtHandleInboundData_blockedBranch {env : InboundEnv} {stdcl : StdClient}
    (blocked : (wtHandleInboundData env stdcl).exit = .blocked) :
    stdcl.clState ≠ .disconnected ∧
      BlockedBranch stdcl (wtHandleInboundData env stdcl).stdcl := by
  unfold wtHandleInboundData at blocked ⊢
  split at blocked
  · cases blocked
  · rename_i present
    refine ⟨present, ?_⟩
    rw [if_neg present]
    cases resync : inboundResync stdcl with
    | leave exit after =>
      rw [resync] at blocked
      obtain rfl : exit = .blocked := blocked
      rcases inboundResync_leaves resync with wrong | wrong <;> cases wrong
    | go next =>
      rw [resync] at blocked
      simp only [InboundStage.andThen] at blocked ⊢
      split at blocked
      · rename_i first
        rw [if_pos first]
        split at blocked
        · rename_i leaves
          obtain rfl := blocked
          exact .pdu resync ((Bool.not_eq_true _).mp first) leaves
        · exact absurd blocked (inboundDeliverPdu_exit env _).1
      · rename_i begun
        rw [if_neg begun]
        split at blocked
        · rename_i leaves
          obtain rfl := blocked
          exact .chunk resync (not_not.mp begun) leaves
        · exact absurd blocked (inboundDeliverChunk_exit env _).1

/-- A call that leaves as blocked met an `EBLOCK`. -/
theorem wtHandleInboundData_blocked {env : InboundEnv} {stdcl : StdClient}
    (blocked : (wtHandleInboundData env stdcl).exit = .blocked) :
    (inboundAnswers stdcl).getLast? = some (.error .eblock) := by
  obtain ⟨present, branch⟩ := wtHandleInboundData_blockedBranch blocked
  rw [inboundAnswers, if_neg present]
  refine getLast_append_failure ?_
  cases branch with
  | pdu went first leaves =>
    simp only [went, first, Bool.false_eq_true, not_false_eq_true, if_true]
    exact inboundRecvPdu_blocked leaves
  | chunk went begun leaves =>
    simp only [went, begun, not_true_eq_false, if_false]
    exact inboundRecv_blocked leaves

/-- A resynchronisation that finds no header met an `EBLOCK`, or it has filled the buffer. -/
theorem inboundResync_lost {stdcl after : StdClient} (out : stdcl.tempRecvStorage = .desynced)
    (leaves : inboundResync stdcl = .leave .notResynced after) :
    (inboundResyncAnswers stdcl).getLast? = some (.error .eblock) ∨
      lwmpMaxPduSize ≤ stdcl.connection.backlog.length ∧
        lwmpStreamResync (stdcl.connection.incoming.take lwmpMaxPduSize) = [] := by
  have start : stdcl.tempRecvStorage.recvbuf.length ≤ lwmpMaxPduSize := by
    rw [out]
    decide
  have flag : stdcl.tempRecvStorage.isDesynced = true := by
    rw [out]
    rfl
  have space : lwmpMaxPduSize - stdcl.tempRecvStorage.recvbuf.length = lwmpMaxPduSize := by
    rw [out]
    rfl
  have loop := CurrRecvMsg.resyncFills.recvDoWhile stdcl.connection stdcl.tempRecvStorage start
    (by rw [space]; decide)
  obtain ⟨bytes, filled⟩ := CurrRecvMsg.resyncFills.recvWhile stdcl.connection
    stdcl.tempRecvStorage start
  have there := CurrRecvMsg.resyncFills.stopped_eq_none_iff stdcl.connection
    stdcl.tempRecvStorage start
  have complete := filled.complete
  have state := filled.state_eq
  unfold inboundResyncAnswers
  rw [if_pos flag]
  unfold inboundResync at leaves
  rw [if_pos flag] at leaves
  dsimp only at leaves
  cases stopped : (recvWhile CurrRecvMsg.resyncWanted CurrRecvMsg.received stdcl.connection
      stdcl.tempRecvStorage).stopped with
  | none =>
    right
    rw [space] at there complete
    refine ⟨there.mp stopped, ?_⟩
    have taken : stdcl.connection.incoming.take lwmpMaxPduSize = bytes := by
      rw [filled.receives.incoming, ← complete.mp stopped, List.take_left]
    have held : (stdcl.afterRecv (recvWhile CurrRecvMsg.resyncWanted CurrRecvMsg.received
        stdcl.connection stdcl.tempRecvStorage)).tempRecvStorage.recvbuf = bytes := by
      rw [StdClient.afterRecv, state, out]
      rfl
    rw [loop, stopped, if_neg (by simp), held] at leaves
    split at leaves
    · cases leaves
    · rename_i lost
      rw [taken]
      exact List.length_eq_zero_iff.mp (not_not.mp lost)
  | some reason =>
    cases reason with
    | error =>
      rw [loop, stopped, if_pos rfl] at leaves
      cases leaves
    | eblock =>
      left
      rw [recvDoWhileAnswers_getLast, loop]
      exact stopped

theorem inboundRecv_leaves {wanted : CurrRecvMsg → Option Nat}
    {received : CurrRecvMsg → Bytes → CurrRecvMsg} {stdcl after : StdClient} {exit : InboundExit}
    (leaves : inboundRecv wanted received stdcl = .leave exit after) : exit ≠ .notResynced := by
  unfold inboundRecv at leaves
  dsimp only at leaves
  split at leaves
  · cases leaves
    simp
  · cases leaves
    simp
  · cases leaves

theorem inboundRecvPdu_leaves {stdcl after : StdClient} {exit : InboundExit}
    (leaves : inboundRecvPdu stdcl = .leave exit after) : exit ≠ .notResynced := by
  unfold inboundRecvPdu at leaves
  split at leaves
  · rename_i hdr
    cases leaves
    exact inboundRecv_leaves hdr
  · dsimp only at leaves
    split at leaves
    · rename_i body
      cases leaves
      exact inboundRecv_leaves body
    · split at leaves
      · cases leaves
      · cases leaves
        simp

/-- A call that leaves without a header has read nothing but the bytes it searched. -/
theorem wtHandleInboundData_notResynced {env : InboundEnv} {stdcl : StdClient}
    (lost : (wtHandleInboundData env stdcl).exit = .notResynced) :
    inboundAnswers stdcl = inboundResyncAnswers stdcl ∧
      ∃ after, inboundResync stdcl = .leave .notResynced after := by
  unfold inboundAnswers
  unfold wtHandleInboundData at lost
  split at lost
  · cases lost
  · rename_i present
    rw [if_neg present]
    cases resync : inboundResync stdcl with
    | leave exit after =>
      rw [resync] at lost
      obtain rfl : exit = .notResynced := lost
      exact ⟨List.append_nil _, after, rfl⟩
    | go next =>
      rw [resync] at lost
      simp only [InboundStage.andThen] at lost
      split at lost
      · split at lost
        · rename_i leaves
          exact absurd lost (inboundRecvPdu_leaves leaves)
        · exact absurd lost (inboundDeliverPdu_exit env _).2
      · split at lost
        · rename_i leaves
          exact absurd lost (inboundRecv_leaves leaves)
        · exact absurd lost (inboundDeliverChunk_exit env _).2

/-- A call does not stop with bytes left behind: its resynchronisation does not fill the buffer
without finding a header, and the recipient of what it has read can be reached. -/
structure InboundEnv.StopsDrained (env : InboundEnv) (stdcl : StdClient) : Prop where
  resync : stdcl.tempRecvStorage.isDesynced = true →
    lwmpMaxPduSize ≤ stdcl.connection.backlog.length →
    lwmpStreamResync (stdcl.connection.incoming.take lwmpMaxPduSize) ≠ []
  pdu : ∀ pdu, pduRead stdcl = some pdu → (CurrRecvMsg.opened pdu).pduReady →
    env.verdict pdu = .ok → LwmpPdu.msgType pdu ≠ MsgType.req.code → (env.recipient pdu).isSome
  chunk : stdcl.tempRecvStorage.notMsgInitPdu = true →
    stdcl.tempRecvStorage.chunkRoom ≤ stdcl.connection.backlog.length →
    (htableGetCond env.forwardTable (cString stdcl.tempRecvStorage.destUname)).isSome

/-- A call in the middle of a message, for which a part of a chunk is there, does not go on. -/
theorem wtHandleInboundData_chunk_short {env : InboundEnv} {stdcl : StdClient}
    (present : stdcl.clState ≠ .disconnected) (waiting : stdcl.tempRecvStorage.Waiting)
    (begun : stdcl.tempRecvStorage.notMsgInitPdu = true)
    (short : stdcl.connection.backlog.length < stdcl.tempRecvStorage.chunkRoom) :
    (wtHandleInboundData env stdcl).exit = .blocked ∨
      (wtHandleInboundData env stdcl).exit = .recvError := by
  have there := CurrRecvMsg.chunkFills.stopped_eq_none_iff stdcl.connection stdcl.tempRecvStorage
    (waiting.counters begun)
  rw [wtHandleInboundData_of_begun env present (waiting.inStep begun) begun]
  unfold inboundRecvChunk inboundRecv
  dsimp only
  cases stopped : (recvWhile CurrRecvMsg.chunkWanted CurrRecvMsg.receivedPayload stdcl.connection
      stdcl.tempRecvStorage).stopped with
  | none => exact absurd (there.mp stopped) (not_le.mpr short)
  | some reason =>
    cases reason with
    | error => exact .inr rfl
    | eblock => exact .inl rfl

/-- A call that ends the loop with a client that is still authenticated met an `EBLOCK`, if it does
not stop with bytes left behind. -/
theorem wtHandleInboundData_drained {env : InboundEnv} {stdcl : StdClient}
    (live : stdcl.clState = .authenticated) (waiting : stdcl.tempRecvStorage.Waiting)
    (drained : env.StopsDrained stdcl)
    (ends : (wtHandleInboundData env stdcl).exit.status ≠ .stopBorder)
    (still : (wtHandleInboundData env stdcl).stdcl.clState = .authenticated) :
    (inboundAnswers stdcl).getLast? = some (.error .eblock) := by
  have present : stdcl.clState ≠ .disconnected := by simp [live]
  have blocked := @wtHandleInboundData_blocked env stdcl
  have lost := @wtHandleInboundData_notResynced env stdcl
  have short := @wtHandleInboundData_chunk_short env stdcl present waiting
  have called := wtHandleInboundData_called env stdcl waiting
  generalize wtHandleInboundData env stdcl = result at blocked lost short called ends still
  cases called with
  | disconnected gone =>
    rw [live] at gone
    cases gone
  | recvError receives fails unread =>
    exact absurd still (cleanupStdClient_not_authenticated _)
  | notResynced receives out unread =>
    obtain ⟨same, after, leaves⟩ := lost rfl
    rw [same]
    refine (inboundResync_lost out leaves).resolve_right fun ⟨full, unfound⟩ => ?_
    exact drained.resync (by rw [out]; rfl) full unfound
  | pduBlocked receives first waiting kept unread => exact blocked rfl
  | chunkBlocked receives begun short unread => exact blocked rfl
  | notComplete receives read header space overflows kept => exact absurd rfl ends
  | @pdu bytes connection buf result receives read header within ready kept delivered =>
    cases delivered with
    | rejected refused keeps left => exact absurd rfl ends
    | served accepted request keeps left => exact absurd rfl ends
    | unreachable accepted message gone keeps left =>
      have found := drained.pdu buf read ready accepted message
      rw [gone] at found
      cases found
    | forwarded accepted message found keeps left => exact absurd rfl ends
  | @chunk bytes connection result receives begun full unread delivered =>
    cases delivered with
    | unreachable gone keeps left =>
      have enough : stdcl.tempRecvStorage.chunkRoom ≤ stdcl.connection.backlog.length := by
        by_contra less
        rcases short begun (not_le.mp less) with wrong | wrong <;> cases wrong
      have found := drained.chunk begun enough
      have gone : htableGetCond env.forwardTable (cString stdcl.tempRecvStorage.destUname) = none :=
        gone
      rw [gone] at found
      cases found
    | forwarded found keeps left => exact absurd rfl ends

/-! ### The loop of the server -/

/-- What `recv_fn` answers in the turns of the loop of `wt_handle_clientevent` before a turn. -/
def drainAnswers (schedule : DrainSchedule) (stdcl : StdClient) (turns : Nat) :
    List (Except NetFailure Bytes) :=
  (List.range turns).flatMap fun turn => inboundAnswers (drainClient schedule stdcl turn)

/-- The loop ends with a turn. -/
structure DrainEnds (schedule : DrainSchedule) (stdcl : StdClient) (last : Nat) : Prop where
  reaches : DrainReaches schedule stdcl last
  ends : (drainTurn schedule stdcl last).exit.status ≠ .stopBorder

/-- In every run, where the loop ends with a client that is still authenticated and its last turn
does not stop with bytes left behind, the last call of `recv_fn` in the loop returned `EBLOCK`. -/
theorem inbound_drain_reads_all {start stdcl : StdClient} {calls : List (InboundEnv × StdClient)}
    {schedule : DrainSchedule} {last : Nat} (session : ReceivingSession start)
    (run : InboundRun start calls stdcl) (ended : DrainEnds schedule stdcl last)
    (still : (drainTurn schedule stdcl last).stdcl.clState = .authenticated)
    (drained : (schedule last).1.StopsDrained (drainClient schedule stdcl last)) :
    (drainAnswers schedule stdcl (last + 1)).getLast? = some (.error .eblock) := by
  have ends := ended.ends
  have reached : InboundRun start _ (drainClient schedule stdcl last) := run.drain last
  rw [drainTurn, DrainSchedule.call] at ends still
  unfold drainAnswers
  rw [List.range_succ, List.flatMap_append, List.flatMap_singleton]
  refine getLast_append_failure ?_
  rcases (reached.reading session).1 with gone | ⟨live, waiting⟩
  · rw [wtHandleInboundData, if_pos gone] at still
    rw [gone] at still
    cases still
  · exact wtHandleInboundData_drained live waiting drained ends still

/-- A header with a wrong checksum. -/
def corruptHeader : Bytes := beHdrMark ++ List.replicate (lwmpHdrSize - 4) 0

/-- A client that sends a corrupt header and behind it more bytes than the buffer has room for. -/
def garbageClient : StdClient :=
  let stdcl := sendingClient (corruptHeader ++ List.replicate (lwmpMaxPduSize + 100) 0)
  { stdcl with connection := { stdcl.connection with
      recvEvents := List.replicate 3 (.upTo (lwmpMaxPduSize - 1)) } }

/-- The loop ends although a hundred bytes are left, and its last call of `recv_fn` delivered. -/
theorem inbound_drain_leaves_bytes : ∃ (start stdcl : StdClient)
    (calls : List (InboundEnv × StdClient)) (schedule : DrainSchedule) (last : Nat),
    ReceivingSession start ∧ InboundRun start calls stdcl ∧ DrainEnds schedule stdcl last ∧
      (drainTurn schedule stdcl last).stdcl.clState = .authenticated ∧
      (drainAnswers schedule stdcl (last + 1)).getLast? ≠ some (.error .eblock) ∧
      (drainTurn schedule stdcl last).stdcl.connection.backlog.length = 100 := by
  have executed : (drainTurn quietSchedule garbageClient 0).exit.status = .stopBorder ∧
      (drainTurn quietSchedule garbageClient 1).exit.status ≠ .stopBorder ∧
      (drainTurn quietSchedule garbageClient 1).stdcl.clState = .authenticated ∧
      (drainAnswers quietSchedule garbageClient 2).getLast? ≠ some (.error .eblock) ∧
      (drainTurn quietSchedule garbageClient 1).stdcl.connection.backlog.length = 100 := by
    decide +kernel
  obtain ⟨border, ends, live, last, left⟩ := executed
  refine ⟨garbageClient, garbageClient, [], quietSchedule, 1, ⟨rfl, rfl⟩, .start, ⟨?_, ends⟩,
    live, last, left⟩
  intro turn before
  obtain rfl : turn = 0 := by omega
  exact border

/-- The loop that forwards both messages of a client reads until there is nothing more. -/
theorem inbound_drain_reads_all_text_and_empty :
    (drainAnswers quietSchedule textAndEmptyClient 3).getLast? = some (.error .eblock) := by
  have executed :
      (drainTurn quietSchedule textAndEmptyClient 0).exit.status = .stopBorder ∧
      (drainTurn quietSchedule textAndEmptyClient 1).exit.status = .stopBorder ∧
      (drainTurn quietSchedule textAndEmptyClient 2).exit.status ≠ .stopBorder ∧
      (drainTurn quietSchedule textAndEmptyClient 2).stdcl.clState = .authenticated ∧
      (drainClient quietSchedule textAndEmptyClient 2).tempRecvStorage.isDesynced ≠ true ∧
      pduRead (drainClient quietSchedule textAndEmptyClient 2) = none ∧
      (drainClient quietSchedule textAndEmptyClient 2).tempRecvStorage.notMsgInitPdu ≠ true := by
    decide +kernel
  obtain ⟨border, again, ends, live, inStep, unread, first⟩ := executed
  refine inbound_drain_reads_all textAndEmptyClient_session .start ⟨?_, ends⟩ live ⟨?_, ?_, ?_⟩
  · intro turn before
    rcases turn with _ | _ | turn
    · exact border
    · exact again
    · omega
  · exact fun out => absurd out inStep
  · intro pdu read
    rw [unread] at read
    cases read
  · exact fun begun => absurd begun first

end Lwmsg
