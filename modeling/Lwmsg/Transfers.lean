/-
This file is about files on their way through the server. Each chunk looks its
recipient up again by name, so it is a matter of the lookups whether it goes to the
session that got the first PDU. The file proves that it does as long as no other
session of that name is found, and that the queue of a session then never holds a
chunk without the beginning of its file.

A session stands for one login. It has an address of its own, which no other session
gets, also not a later one of the same user.
-/

import Lwmsg.InboundFrames

namespace Lwmsg

open Bytes Pointers

/-! ### What the sessions of a server enqueue -/

/-- A call of `wt_handle_inbound_data` for one of the sessions. -/
structure SessionCall where
  session : Addr
  env : InboundEnv
  stdcl : StdClient

/-- What a call does. -/
def SessionCall.result (call : SessionCall) : InboundResult :=
  wtHandleInboundData call.env call.stdcl

/-- A message that was enqueued on the `pending_userdata_queue` of a session: a first PDU, or the
chunk of a file behind the bytes up to `offset`. -/
structure Enqueued where
  sender : Addr
  rcpt : Addr
  isInitPdu : Bool
  offset : Nat
  node : MpscMsgNode

/-- How many bytes of the file a message carries. -/
def Enqueued.payloadSize (item : Enqueued) : Nat :=
  item.node.buf.length - if item.isInitPdu then lwmpHdrSize else lwmpChunkHdrSize

/-- How many bytes of a file the server got before those it is collecting. -/
def CurrRecvMsg.passedOn (msg : CurrRecvMsg) : Nat :=
  if msg.notMsgInitPdu then msg.totalMsgDataRecved - msg.recvbuf.length else 0

/-- What a call of a session enqueued that found the receive state `msg`: at most one message, a
first PDU or a chunk. -/
def enqueuedIn (session : Addr) (msg : CurrRecvMsg) (result : InboundResult) : List Enqueued :=
  match result.forwarded with
  | some (rcpt, node) => [⟨session, rcpt, result.exit = .pduForwarded, msg.passedOn, node⟩]
  | none => []

def SessionCall.enqueued (call : SessionCall) : List Enqueued :=
  enqueuedIn call.session call.stdcl.tempRecvStorage call.result

/-- The messages that calls enqueued on all queues, in order. -/
def enqueuedBy (calls : List SessionCall) : List Enqueued := calls.flatMap SessionCall.enqueued

/-- The messages of one sender. -/
def sentFrom (session : Addr) (history : List Enqueued) : List Enqueued :=
  history.filter (·.sender = session)

/-- A run of the calls for all sessions, in any order. What a lookup finds is left open, so sessions
come, go and come back under the same name at any time. -/
inductive ServerRun (start : Addr → StdClient) :
    List SessionCall → (Addr → StdClient) → Prop
  | start : ServerRun start [] start
  | between {calls stdcls after} (session : Addr) (run : ServerRun start calls stdcls)
      (between : BetweenCalls (stdcls session) after) :
      ServerRun start calls (Function.update stdcls session after)
  | call {calls stdcls} (session : Addr) (env : InboundEnv) (run : ServerRun start calls stdcls) :
      ServerRun start (calls ++ [⟨session, env, stdcls session⟩])
        (Function.update stdcls session (wtHandleInboundData env (stdcls session)).stdcl)

@[simp] theorem enqueuedBy_append (first second : List SessionCall) :
    enqueuedBy (first ++ second) = enqueuedBy first ++ enqueuedBy second := List.flatMap_append

@[simp] theorem sentFrom_append (session : Addr) (first second : List Enqueued) :
    sentFrom session (first ++ second) = sentFrom session first ++ sentFrom session second :=
  List.filter_append ..

theorem SessionCall.enqueued_cases (call : SessionCall) :
    call.enqueued = [] ∨ ∃ item, call.enqueued = [item] ∧ item.sender = call.session := by
  rw [SessionCall.enqueued, enqueuedIn]
  split
  · exact .inr ⟨_, rfl, rfl⟩
  · exact .inl rfl

theorem enqueuedBy_concat (calls : List SessionCall) (call : SessionCall) :
    enqueuedBy (calls ++ [call]) = enqueuedBy calls ++ call.enqueued := by
  rw [enqueuedBy_append]
  exact congrArg _ (List.flatMap_singleton _ _)

theorem sentFrom_enqueued (call : SessionCall) :
    sentFrom call.session call.enqueued = call.enqueued := by
  rcases call.enqueued_cases with nothing | ⟨item, one, sender⟩
  · rw [nothing]
    rfl
  · simp [one, sentFrom, sender]

theorem sentFrom_enqueued_of_ne {call : SessionCall} {session : Addr}
    (other : session ≠ call.session) : sentFrom session call.enqueued = [] := by
  rcases call.enqueued_cases with nothing | ⟨item, one, sender⟩
  · rw [nothing]
    rfl
  · simp [one, sentFrom, sender, Ne.symm other]

/-! ### Chunks behind the first PDU of their file -/

/-- The messages of a sender end with a part of a file: its first PDU and chunks, all for one
recipient, which hold `passed` bytes of it. -/
def EndsWithFile (rcpt : Addr) (passed : Nat) (sent : List Enqueued) : Prop :=
  ∃ earlier initPdu chunks, sent = earlier ++ initPdu :: chunks ∧
    initPdu.isInitPdu = true ∧ (∀ chunk ∈ chunks, chunk.isInitPdu = false) ∧
    (∀ item ∈ initPdu :: chunks, item.rcpt = rcpt) ∧
    ((initPdu :: chunks).map Enqueued.payloadSize).sum = passed

/-- What is claimed of the history of the queues: in front of each chunk, its sender enqueued the
first PDU of the file for the same session, and since then nothing but chunks for it, which together
hold all bytes of the file in front of the chunk. -/
def NoOrphans (history : List Enqueued) : Prop :=
  ∀ before chunk after, history = before ++ chunk :: after → chunk.isInitPdu = false →
    EndsWithFile chunk.rcpt chunk.offset (sentFrom chunk.sender before)

/-- A call in the middle of a message receives a whole chunk, so that it looks the recipient up. -/
def ChunkReady (stdcl : StdClient) : Prop :=
  stdcl.tempRecvStorage.notMsgInitPdu = true ∧ ∃ received, inboundRecvChunk stdcl = .go received

/-- The condition on a call: the lookup for a chunk finds the session to which its sender enqueued
the last message, or nobody. -/
def FindsSameSession (env : InboundEnv) (stdcl : StdClient) (sent : List Enqueued) : Prop :=
  ChunkReady stdcl → ∀ last rcpt, sent.getLast? = some last →
    htableGetCond env.forwardTable (cString stdcl.tempRecvStorage.destUname) = some rcpt →
      rcpt = last.rcpt

/-- Every call of a run meets the condition. -/
def FindsSameSessions (calls : List SessionCall) : Prop :=
  ∀ before call after, calls = before ++ call :: after →
    FindsSameSession call.env call.stdcl (sentFrom call.session (enqueuedBy before))

/-- What a call forwards in the middle of a message is a whole chunk. -/
theorem chunkReady_of_forwarded {env : InboundEnv} {stdcl : StdClient}
    (present : stdcl.clState ≠ .disconnected) (inStep : stdcl.tempRecvStorage.isDesynced = false)
    (begun : stdcl.tempRecvStorage.notMsgInitPdu = true)
    (forwarded : (wtHandleInboundData env stdcl).forwarded ≠ none) : ChunkReady stdcl := by
  rw [wtHandleInboundData_of_begun env present inStep begun] at forwarded
  cases reached : inboundRecvChunk stdcl with
  | go received => exact ⟨begun, received, reached⟩
  | leave exit after =>
    rw [reached] at forwarded
    exact absurd rfl forwarded

theorem EndsWithFile.last {rcpt : Addr} {passed : Nat} {sent : List Enqueued}
    (file : EndsWithFile rcpt passed sent) :
    ∃ last, sent.getLast? = some last ∧ last.rcpt = rcpt := by
  obtain ⟨earlier, initPdu, chunks, rfl, _, _, same, _⟩ := file
  have some : (initPdu :: chunks).getLast? = some ((initPdu :: chunks).getLast (by simp)) :=
    List.getLast?_eq_some_getLast (by simp)
  refine ⟨_, ?_, same _ (List.getLast_mem (by simp))⟩
  rw [List.getLast?_append, some]
  rfl

theorem EndsWithFile.chunk {rcpt : Addr} {passed : Nat} {sent : List Enqueued} {item : Enqueued}
    (file : EndsWithFile rcpt passed sent) (chunk : item.isInitPdu = false)
    (same : item.rcpt = rcpt) :
    EndsWithFile rcpt (passed + item.payloadSize) (sent ++ [item]) := by
  obtain ⟨earlier, initPdu, chunks, rfl, first, rest, all, rfl⟩ := file
  refine ⟨earlier, initPdu, chunks ++ [item], by simp, first, ?_, ?_, ?_⟩
  · intro other member
    rcases List.mem_append.mp member with before | now
    · exact rest other before
    · rw [List.mem_singleton.mp now]
      exact chunk
  · intro other member
    rw [← List.cons_append] at member
    rcases List.mem_append.mp member with before | now
    · exact all other before
    · rw [List.mem_singleton.mp now]
      exact same
  · rw [← List.cons_append, List.map_append, List.sum_append]
    simp

/-- A message more keeps what is claimed where it meets the claim itself. -/
theorem NoOrphans.concat {history : List Enqueued} {item : Enqueued} (noOrphans : NoOrphans history)
    (follows : item.isInitPdu = false →
      EndsWithFile item.rcpt item.offset (sentFrom item.sender history)) :
    NoOrphans (history ++ [item]) := by
  intro before chunk after split notFirst
  rcases List.eq_nil_or_concat' after with rfl | ⟨rest, last, rfl⟩
  · obtain ⟨rfl, rfl⟩ := List.append_inj' split rfl |>.imp id List.cons.inj |>.imp id And.left
    exact follows notFirst
  · rw [← List.cons_append, ← List.append_assoc] at split
    exact noOrphans before chunk rest (List.append_inj' split rfl).1 notFirst

/-! ### What a session keeps -/

/-- What a session in the middle of a message has enqueued. The only other one is a request that was
read out of a stream out of step, which has no recipient. -/
def InFile (msg : CurrRecvMsg) (sent : List Enqueued) : Prop :=
  msg.notMsgInitPdu = true →
    msg.destUname = List.replicate unamesize 0 ∨
      msg.recvbuf.length ≤ lwmpChunkBufSize ∧
      ∃ rcpt passed, EndsWithFile rcpt passed sent ∧
        passed + msg.recvbuf.length = msg.totalMsgDataRecved

theorem inFile_of_first {msg : CurrRecvMsg} {sent : List Enqueued}
    (first : msg.notMsgInitPdu = false) : InFile msg sent := by
  intro begun
  rw [first] at begun
  cases begun

theorem length_chunkNode {recvbuf : Bytes} (username : Bytes)
    (within : recvbuf.length ≤ lwmpChunkBufSize) :
    (chunkNode recvbuf username).buf.length = lwmpChunkHdrSize + recvbuf.length :=
  length_lwmpPrepareChunk within (chunkNode_filled recvbuf username)

/-- What a call enqueues follows what its session enqueued before, and so will what comes next. -/
structure Follows (session : Addr) (msg : CurrRecvMsg) (sent : List Enqueued)
    (result : InboundResult) : Prop where
  follows : ∀ item ∈ enqueuedIn session msg result, item.isInitPdu = false →
    EndsWithFile item.rcpt item.offset sent
  inFile : result.stdcl.clState = .authenticated →
    InFile result.stdcl.tempRecvStorage (sent ++ enqueuedIn session msg result)

/-- A call that enqueues nothing. -/
theorem follows_of_nothing {session : Addr} {msg : CurrRecvMsg} {sent : List Enqueued}
    {result : InboundResult} (nothing : result.forwarded = none)
    (inFile : result.stdcl.clState = .authenticated → InFile result.stdcl.tempRecvStorage sent) :
    Follows session msg sent result := by
  have none : enqueuedIn session msg result = [] := by rw [enqueuedIn, nothing]
  refine ⟨fun item member => ?_, fun live => ?_⟩
  · rw [none] at member
    cases member
  · rw [none, List.append_nil]
    exact inFile live

theorem ChunkDelivered.follows {env : InboundEnv} {stdcl : StdClient} {bytes : Bytes}
    {connection : Conn} {result : InboundResult} {session : Addr} {sent : List Enqueued}
    (counters : stdcl.tempRecvStorage.Counters)
    (begun : stdcl.tempRecvStorage.notMsgInitPdu = true)
    (inFile : InFile stdcl.tempRecvStorage sent)
    (finds : FindsSameSession env stdcl sent) (ready : result.forwarded ≠ none → ChunkReady stdcl)
    (full : bytes.length = stdcl.tempRecvStorage.chunkRoom)
    (delivered : ChunkDelivered env
      (stdcl.withRecv connection (stdcl.tempRecvStorage.receivedPayload bytes)) result) :
    Follows session stdcl.tempRecvStorage sent result := by
  cases delivered with
  | unreachable gone keeps left =>
    refine follows_of_nothing rfl fun _ => ?_
    simp only [left]
    exact inFile_of_first rfl
  | @forwarded after rcpt found keeps left =>
    have found : htableGetCond env.forwardTable (cString stdcl.tempRecvStorage.destUname) =
        some rcpt := found
    obtain ⟨within, other, passed, file, count⟩ := (inFile begun).resolve_left fun zeros => by
      rw [zeros, htableGetCond_zeros] at found
      cases found
    obtain ⟨last, isLast, same⟩ := file.last
    have ready := ready (Option.some_ne_none _)
    obtain rfl : rcpt = other := (finds ready last rcpt isLast found).trans same
    have total := CurrRecvMsg.receivedPayload_totalMsgDataRecved counters full.le
    have size : (stdcl.tempRecvStorage.recvbuf ++ bytes).length ≤ lwmpChunkBufSize := by
      rw [CurrRecvMsg.chunkRoom] at full
      rw [List.length_append]
      omega
    have offset : stdcl.tempRecvStorage.passedOn = passed := by
      rw [CurrRecvMsg.passedOn, if_pos begun]
      omega
    let item : Enqueued := ⟨session, rcpt, false, stdcl.tempRecvStorage.passedOn,
      chunkNode (stdcl.tempRecvStorage.recvbuf ++ bytes) stdcl.username⟩
    have payload : item.payloadSize = stdcl.tempRecvStorage.recvbuf.length + bytes.length := by
      show (chunkNode _ _).buf.length - lwmpChunkHdrSize = _
      rw [length_chunkNode _ size, List.length_append]
      omega
    constructor
    · intro other member _
      obtain rfl : other = item := List.mem_singleton.mp member
      show EndsWithFile rcpt stdcl.tempRecvStorage.passedOn sent
      rw [offset]
      exact file
    · intro _ more
      simp only [left] at more ⊢
      right
      rw [CurrRecvMsg.afterChunk] at more ⊢
      split
      · rename_i finished
        rw [if_pos finished] at more
        cases more
      · refine ⟨Nat.zero_le _, rcpt, _, @EndsWithFile.chunk _ _ _ item file rfl rfl, ?_⟩
        show passed + item.payloadSize + 0 =
          (stdcl.tempRecvStorage.receivedPayload bytes).totalMsgDataRecved
        rw [payload, total]
        omega

theorem PduDelivered.follows {env : InboundEnv} {stdcl : StdClient} {buf : Bytes}
    {connection : Conn} {result : InboundResult} {session : Addr} {sent : List Enqueued}
    (header : lwmpHdrSize ≤ buf.length)
    (delivered : PduDelivered env (stdcl.withRecv connection (.opened buf)) buf result) :
    Follows session stdcl.tempRecvStorage sent result := by
  cases delivered with
  | rejected refused keeps left =>
    refine follows_of_nothing rfl fun _ => ?_
    simp only [left]
    exact inFile_of_first rfl
  | served accepted request keeps left =>
    refine follows_of_nothing rfl fun _ => ?_
    simp only [left]
    exact fun _ => .inl (destUname_afterPdu_of_request request)
  | unreachable accepted message gone keeps left =>
    refine follows_of_nothing rfl fun _ => ?_
    simp only [left]
    exact inFile_of_first rfl
  | @forwarded after rcpt accepted message found keeps left =>
    let item : Enqueued := ⟨session, rcpt, true, stdcl.tempRecvStorage.passedOn,
      forwardNode buf stdcl.username⟩
    constructor
    · intro other member chunk
      obtain rfl : other = item := List.mem_singleton.mp member
      cases chunk
    · intro _ more
      simp only [left] at more ⊢
      right
      rw [CurrRecvMsg.afterPdu] at more ⊢
      split
      · rename_i finished
        rw [if_pos finished] at more
        cases more
      · refine ⟨Nat.zero_le _, rcpt, _, ⟨sent, item, [], rfl, rfl, by simp, by simp [item], rfl⟩, ?_⟩
        show [item.payloadSize].sum + 0 = buf.length - lwmpHdrSize
        rw [List.sum_singleton, Nat.add_zero]
        show (forwardNode buf stdcl.username).buf.length - lwmpHdrSize = _
        rw [length_forwardNode header]

theorem Called.follows {env : InboundEnv} {stdcl : StdClient} {result : InboundResult}
    {session : Addr} {sent : List Enqueued} (called : Called env stdcl result)
    (waiting : stdcl.tempRecvStorage.Waiting) (live : stdcl.clState = .authenticated)
    (inFile : InFile stdcl.tempRecvStorage sent) (finds : FindsSameSession env stdcl sent)
    (ready : stdcl.tempRecvStorage.notMsgInitPdu = true → result.forwarded ≠ none →
      ChunkReady stdcl) : Follows session stdcl.tempRecvStorage sent result := by
  cases called with
  | disconnected gone =>
    rw [live] at gone
    cases gone
  | recvError receives fails unread =>
    exact follows_of_nothing rfl fun still => absurd still (cleanupStdClient_not_authenticated _)
  | notResynced receives out unread =>
    exact follows_of_nothing rfl fun _ => inFile_of_first rfl
  | pduBlocked receives first waiting kept unread =>
    exact follows_of_nothing rfl fun _ => inFile_of_first first
  | @chunkBlocked bytes connection receives begun short unread =>
    refine follows_of_nothing rfl fun _ more => ?_
    rcases inFile begun with zeros | ⟨within, rcpt, passed, file, count⟩
    · exact .inl zeros
    · have total := CurrRecvMsg.receivedPayload_totalMsgDataRecved (waiting.counters begun) short.le
      have held : (stdcl.tempRecvStorage.receivedPayload bytes).recvbuf.length =
          stdcl.tempRecvStorage.recvbuf.length + bytes.length := List.length_append
      rw [CurrRecvMsg.chunkRoom] at short
      refine .inr ⟨?_, rcpt, passed, file, ?_⟩
      · show (stdcl.tempRecvStorage.receivedPayload bytes).recvbuf.length ≤ lwmpChunkBufSize
        omega
      · show passed + (stdcl.tempRecvStorage.receivedPayload bytes).recvbuf.length =
          (stdcl.tempRecvStorage.receivedPayload bytes).totalMsgDataRecved
        omega
  | notComplete receives read header space overflows kept =>
    exact follows_of_nothing rfl fun _ => inFile_of_first rfl
  | pdu receives read header within ready kept delivered => exact delivered.follows header
  | chunk receives begun full unread delivered =>
    exact delivered.follows (waiting.counters begun) begun inFile finds (ready begun) full

/-! ### Runs of all sessions -/

/-- What a run keeps: every session waits or was cleaned up, and one in the middle of a message has
enqueued the beginning of it. -/
structure InFiles (calls : List SessionCall) (stdcls : Addr → StdClient) : Prop where
  reading : ∀ session, Reading (stdcls session)
  inFile : ∀ session, (stdcls session).clState = .authenticated →
    InFile (stdcls session).tempRecvStorage (sentFrom session (enqueuedBy calls))

theorem InFiles.between {calls : List SessionCall} {stdcls : Addr → StdClient}
    {session : Addr} {after : StdClient} (inFiles : InFiles calls stdcls)
    (between : BetweenCalls (stdcls session) after) :
    InFiles calls (Function.update stdcls session after) := by
  constructor
  · intro other
    by_cases same : other = session
    · subst same
      rw [Function.update_self]
      exact between.reading (inFiles.reading other)
    · rw [Function.update_of_ne same]
      exact inFiles.reading other
  · intro other live
    by_cases same : other = session
    · subst same
      rw [Function.update_self] at live ⊢
      rw [between.storage]
      rcases between.state with same | gone
      · exact inFiles.inFile other (same.symm.trans live)
      · rw [live] at gone
        cases gone
    · rw [Function.update_of_ne same] at live ⊢
      exact inFiles.inFile other live

/-- One call. What it enqueues follows what its session enqueued before, and for the other sessions
nothing changes. -/
theorem InFiles.call {calls : List SessionCall} {stdcls : Addr → StdClient} (session : Addr)
    (env : InboundEnv) (inFiles : InFiles calls stdcls)
    (finds : FindsSameSession env (stdcls session) (sentFrom session (enqueuedBy calls))) :
    (∀ item ∈ SessionCall.enqueued ⟨session, env, stdcls session⟩, item.isInitPdu = false →
      EndsWithFile item.rcpt item.offset (sentFrom session (enqueuedBy calls))) ∧
      InFiles (calls ++ [⟨session, env, stdcls session⟩])
        (Function.update stdcls session (wtHandleInboundData env (stdcls session)).stdcl) := by
  have follows : Follows session (stdcls session).tempRecvStorage
      (sentFrom session (enqueuedBy calls)) (wtHandleInboundData env (stdcls session)) := by
    rcases inFiles.reading session with gone | ⟨live, waiting⟩
    · rw [wtHandleInboundData, if_pos gone]
      refine follows_of_nothing rfl fun live => ?_
      rw [live] at gone
      cases gone
    · exact (wtHandleInboundData_called env _ waiting).follows waiting live
        (inFiles.inFile session live) finds fun begun =>
          chunkReady_of_forwarded (live.trans_ne (by decide)) (waiting.inStep begun) begun
  refine ⟨follows.follows, fun other => ?_, fun other live => ?_⟩
  · by_cases same : other = session
    · subst same
      rw [Function.update_self]
      exact (inFiles.reading other).call env
    · rw [Function.update_of_ne same]
      exact inFiles.reading other
  · rw [enqueuedBy_concat, sentFrom_append]
    by_cases same : other = session
    · subst same
      rw [Function.update_self] at live ⊢
      rw [sentFrom_enqueued ⟨other, env, stdcls other⟩]
      exact follows.inFile live
    · rw [Function.update_of_ne same] at live ⊢
      rw [sentFrom_enqueued_of_ne (by exact same), List.append_nil]
      exact inFiles.inFile other live

/-- In every run in which the lookup for a chunk finds no other session than the one that got the
first PDU, no queue gets a chunk without all that belongs in front of it. -/
theorem no_orphan_chunks {start stdcls : Addr → StdClient} {calls : List SessionCall}
    (sessions : ∀ session, ReceivingSession (start session)) (run : ServerRun start calls stdcls)
    (finds : FindsSameSessions calls) : NoOrphans (enqueuedBy calls) := by
  suffices kept : InFiles calls stdcls ∧ NoOrphans (enqueuedBy calls) from kept.2
  induction run with
  | start =>
    refine ⟨⟨fun session => (sessions session).reading, fun session _ => ?_⟩, fun before => ?_⟩
    · rw [(sessions session).fresh]
      exact inFile_of_first rfl
    · simp [enqueuedBy]
  | between session run between inductionHypothesis =>
    obtain ⟨inFiles, noOrphans⟩ := inductionHypothesis finds
    exact ⟨inFiles.between between, noOrphans⟩
  | @call calls stdcls session env run inductionHypothesis =>
    obtain ⟨inFiles, noOrphans⟩ := inductionHypothesis fun before call after split =>
      finds before call (after ++ [⟨session, env, stdcls session⟩]) (by simp [split])
    obtain ⟨follows, inFiles⟩ := inFiles.call session env (finds calls _ [] rfl)
    refine ⟨inFiles, ?_⟩
    rw [enqueuedBy_concat]
    rcases SessionCall.enqueued_cases ⟨session, env, stdcls session⟩ with
      nothing | ⟨item, one, sender⟩
    · rw [nothing, List.append_nil]
      exact noOrphans
    · rw [one] at follows ⊢
      refine noOrphans.concat fun chunk => ?_
      rw [sender]
      exact follows item (List.mem_singleton_self item) chunk

/-- A client that sends a file of which the last byte does not fit the first PDU. -/
def sendingFile : StdClient :=
  let sender := sendingClient (lwmpHdr MsgType.file.code (strncpy unamesize (ofLiteral "bob"))
    (List.replicate optdataLen 0) (lwmpPduBufSize + 1) ++ List.replicate lwmpPduBufSize 7)
  { sender with connection := { sender.connection with recvEvents := [.upTo 4096, .upTo 4096] } }

/-- A server where the recipient has the session at an address. -/
def recipientAt (rcpt : Addr) : InboundEnv :=
  { everyoneIsHere with forwardTable := fun _ => some (rcpt, .authenticated) }

/-- A client from which bytes arrive. -/
def StdClient.withIncoming (stdcl : StdClient) (incoming : Bytes) : StdClient :=
  { stdcl with connection := { stdcl.connection with incoming, recvEvents := [.upTo 4096] } }

theorem betweenCalls_withIncoming (stdcl : StdClient) (incoming : Bytes) :
    BetweenCalls stdcl (stdcl.withIncoming incoming) :=
  ⟨rfl, rfl, .inl rfl⟩

/-- The client before the call for the last byte. -/
def sendingLastByte : StdClient :=
  (wtHandleInboundData (recipientAt 1) sendingFile).stdcl.withIncoming [7]

/-- The two calls for the file. The recipient has another session at the second one, unless `rcpt`
is the first one. -/
def fileCalls (rcpt : Addr) : List SessionCall :=
  [⟨0, recipientAt 1, sendingFile⟩, ⟨0, recipientAt rcpt, sendingLastByte⟩]

theorem fileCalls_run (rcpt : Addr) :
    ∃ stdcls, ServerRun (fun _ => sendingFile) (fileCalls rcpt) stdcls := by
  have first := @ServerRun.start (fun _ => sendingFile) |>.call 0 (recipientAt 1)
  have arrives : BetweenCalls (Function.update (fun _ => sendingFile) 0
      (wtHandleInboundData (recipientAt 1) sendingFile).stdcl 0) sendingLastByte := by
    rw [Function.update_self]
    exact betweenCalls_withIncoming _ _
  have more := first.between 0 arrives
  have second := more.call 0 (recipientAt rcpt)
  rw [Function.update_self] at second
  exact ⟨_, second⟩

/-- Both parts of the file go to the same session. -/
theorem no_orphan_chunks_same_session : NoOrphans (enqueuedBy (fileCalls 1)) := by
  obtain ⟨stdcls, run⟩ := fileCalls_run 1
  have history : (sentFrom 0 (enqueuedBy [⟨0, recipientAt 1, sendingFile⟩])).map (·.rcpt) = [1] := by
    decide +kernel
  refine no_orphan_chunks (fun _ => ⟨rfl, rfl⟩) run ?_
  rintro (_ | ⟨first, _ | ⟨second, before⟩⟩) call after split ready last rcpt isLast found
  · cases isLast
  · obtain ⟨rfl, rest⟩ := List.cons.inj split
    obtain ⟨rfl, _⟩ := List.cons.inj rest
    have toFirst : last.rcpt ∈ ([1] : List Addr) := by
      rw [← history]
      exact List.mem_map_of_mem (List.mem_of_getLast? isLast)
    rw [List.mem_singleton.mp toFirst]
    simp only [htableGetCond, recipientAt] at found
    split at found
    · cases found
    · exact (Option.some.inj (by simpa [isNotDisconnected] using found)).symm
  · simp [fileCalls] at split

/-- The recipient came back between the two calls, and its new session gets the end of a file of which
it never saw the beginning. -/
theorem orphan_chunk_enqueued : ∃ start calls stdcls, (∀ session, ReceivingSession (start session)) ∧
    ServerRun start calls stdcls ∧ ¬ NoOrphans (enqueuedBy calls) := by
  obtain ⟨stdcls, run⟩ := fileCalls_run 2
  have history : (enqueuedBy (fileCalls 2)).map (fun item => (item.rcpt, item.isInitPdu)) =
      [(1, true), (2, false)] := by
    decide +kernel
  refine ⟨_, _, stdcls, fun _ => ⟨rfl, rfl⟩, run, fun noOrphans => ?_⟩
  obtain ⟨first, rest, split, firstIs, restIs⟩ := List.map_eq_cons_iff.mp history
  obtain ⟨chunk, none, rfl, chunkIs, nothing⟩ := List.map_eq_cons_iff.mp restIs
  obtain ⟨toOther, isChunk⟩ := Prod.mk.inj chunkIs
  obtain ⟨earlier, initPdu, chunks, sent, _, _, same, _⟩ :=
    noOrphans [first] chunk none split isChunk
  have member : initPdu ∈ sentFrom chunk.sender [first] := by
    rw [sent]
    simp
  have equal : initPdu = first := List.mem_singleton.mp (List.mem_of_mem_filter member)
  have recipients : (1 : Addr) = 2 := by
    rw [← (Prod.mk.inj firstIs).1, ← equal, same initPdu List.mem_cons_self, toOther]
  exact absurd recipients (by decide)

end Lwmsg
