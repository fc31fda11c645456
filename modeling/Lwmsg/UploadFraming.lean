/-
This file asks whether client and server agree where a PDU begins. A file has no end of
its own: the server counts the bytes its header announced, and nothing tells it that the
client has stopped. So they agree where the client stops only behind the last byte of a
file, and where the server counts exactly the files whose bytes are sent.
-/

import Lwmsg.UploadAnswers

namespace Lwmsg

open Bytes Pointers

/-! ### What is claimed -/

/-- The bytes of a file that are sent without a header. -/
def SendfilePhase.unsent : SendfilePhase → Bytes
  | .sending remaining | .pumping remaining => remaining
  | _ => []

/-- The server has come to a verdict about every header that is not ahead of it any more. -/
def UploadWorld.HeadersRead (world : UploadWorld) : Prop :=
  world.stdcl.clState = .authenticated →
    ∀ header ∈ world.headers, header + world.ahead < world.sent →
      header ∈ world.answers.map Prod.fst

/-- The connection of the client takes all that it sends. -/
def SendsWhole (world : UploadWorld) : UploadEvent → Prop
  | .cmdMsg token line limit => ∀ pdu ∈ cmdMsgPdu token line, pdu.length ≤ limit
  | .cmdUserlist limit => userlistPdu.length ≤ limit
  | .cmdSendfile token filename content limit =>
    (sendfilePdu token filename content).length ≤ limit
  | .sendChunk limit => (world.phase.unsent.take lwmpMaxPduSize).length ≤ limit
  | _ => True

/-- The condition on a step. The client gives no file up that the server has accepted, and sends each
of them to its end; the server accepts no file that the client has given up, and the recipient of a
file is there as long as it comes. -/
def KeepsFraming (world : UploadWorld) : UploadEvent → Prop
  | .awaitTimeout | .awaitFails => world.stdcl.tempRecvStorage.notMsgInitPdu = false
  | .freadFails => False
  | .pumpEnds =>
    world.ctx.connected = true → world.ctx.transferError = true → world.phase.unsent = []
  | .inbound env recvEvents =>
    (world.stdcl.tempRecvStorage.notMsgInitPdu = true →
      (htableGetCond env.forwardTable
        (cString world.stdcl.tempRecvStorage.destUname)).isSome = true) ∧
    ∀ pdu ∈ pduRead (world.receiving recvEvents), env.verdict pdu = .ok →
      lwmpPduBufSize < LwmpPdu.totalMsgSize pdu →
        world.Unanswered ∧ (env.recipient pdu).isSome = true
  | _ => True

/-! ### The PDUs of the client -/

theorem cmdMsgPdu_clientPdu {token line pdu : Bytes} (made : cmdMsgPdu token line = some pdu) :
    ClientPdu pdu := by
  rw [cmdMsgPdu] at made
  split at made
  · cases made
  · split at made
    · cases made
    · rename_i short
      obtain rfl := Option.some.inj made
      refine clientPdu_lwmpHdr (length_recipientName token) (List.length_replicate) ?_ ?_
      · simp only [lwmpPduBufSize, lwmpMaxPduSize, lwmpHdrSize] at short ⊢
        omega
      · rw [List.length_append, List.length_singleton]
        omega

theorem userlistPdu_clientPdu : ClientPdu userlistPdu := by
  rw [userlistPdu, ← List.append_nil (lwmpHdr _ _ _ _)]
  refine clientPdu_lwmpHdr (List.length_replicate) ?_ (by decide) rfl
  rw [List.length_append, length_beBytes, List.length_replicate]
  rfl

/-- A message that fits into its PDU is complete with it. -/
theorem FirstPdu.afterPdu {pdu : Bytes} (first : FirstPdu pdu) (kept : Bytes) :
    ({ CurrRecvMsg.opened pdu with recvbuf := kept }.afterPdu) =
      if LwmpPdu.totalMsgSize pdu ≤ lwmpPduBufSize then .fresh
      else { CurrRecvMsg.opened pdu with recvbuf := kept, notMsgInitPdu := true } := by
  have whole := first.whole
  have recved : (CurrRecvMsg.opened pdu).totalMsgDataRecved =
      min (LwmpPdu.totalMsgSize pdu) lwmpPduBufSize := by
    rw [CurrRecvMsg.opened_totalMsgDataRecved]
    omega
  have expected := CurrRecvMsg.opened_expectedMsgSize pdu
  rw [CurrRecvMsg.afterPdu]
  simp only [recved, expected]
  by_cases short : LwmpPdu.totalMsgSize pdu ≤ lwmpPduBufSize
  · rw [if_pos short, if_pos (by omega)]
    rfl
  · rw [if_neg short, if_neg (by omega)]

/-! ### What is ahead of the server -/

/-- The server has come to a verdict about a header of the client, or it begins one of the PDUs that
are ahead. -/
def HeadersAhead (world : UploadWorld) (pdus : List Bytes) : Prop :=
  ∀ header ∈ world.headers, header ∈ world.answers.map Prod.fst ∨
    ∃ earlier later, pdus = earlier ++ later ∧ later ≠ [] ∧
      header + later.flatten.length = world.sent

/-- The server takes what is ahead of it for what it is. It waits for PDUs, or it waits for bytes of a
file behind which PDUs come; of these bytes the last ones are not sent yet, and in front of them there
are no PDUs. -/
inductive Aligned (world : UploadWorld) : Bytes → Prop
  | header {part pdus} (storage : world.stdcl.tempRecvStorage = .partly part)
      (begun : ∀ pdu ∈ pdus.head?, part.length < pdu.length)
      (stream : part ++ world.stdcl.connection.incoming = pdus.flatten)
      (whole : ∀ pdu ∈ pdus, ClientPdu pdu) (ahead : HeadersAhead world pdus) : Aligned world []
  | payload {raw pdus unsent} (begun : world.stdcl.tempRecvStorage.notMsgInitPdu = true)
      (inStep : world.stdcl.tempRecvStorage.isDesynced = false)
      (word : world.stdcl.tempRecvStorage.expectedMsgSize < 2 ^ 64)
      (counted : world.stdcl.tempRecvStorage.expectedMsgSize =
        world.stdcl.tempRecvStorage.totalMsgDataRecved + (raw.length + unsent.length))
      (unfinished : 0 < raw.length + unsent.length)
      (stream : world.stdcl.connection.incoming = raw ++ pdus.flatten)
      (whole : ∀ pdu ∈ pdus, ClientPdu pdu) (ahead : HeadersAhead world pdus)
      (last : unsent ≠ [] → pdus = []) : Aligned world unsent

section Stream

variable {world next : UploadWorld} {pdus : List Bytes} {unsent : Bytes}

theorem HeadersAhead.keep (ahead : HeadersAhead world pdus) (headers : next.headers = world.headers)
    (answers : next.answers = world.answers) (sent : next.sent = world.sent) :
    HeadersAhead next pdus := by
  rw [HeadersAhead, headers, answers, sent]
  exact ahead

theorem HeadersAhead.sendPdu (ahead : HeadersAhead world pdus) (pdu : Bytes) :
    HeadersAhead ({ world with headers := world.headers ++ [world.sent] }.upstream pdu)
      (pdus ++ [pdu]) := by
  intro header member
  have longer (later : List Bytes) :
      (later ++ [pdu]).flatten.length = later.flatten.length + pdu.length := by
    rw [List.flatten_append, List.flatten_singleton, List.length_append]
  rcases List.mem_append.mp member with old | new
  · rcases ahead header old with answered | ⟨earlier, later, rfl, some, place⟩
    · exact .inl answered
    · refine .inr ⟨earlier, later ++ [pdu], List.append_assoc _ _ _, by simp, ?_⟩
      rw [longer]
      show _ = world.sent + pdu.length
      omega
  · rw [List.mem_singleton.mp new]
    exact .inr ⟨pdus, [pdu], rfl, by simp, by rw [List.flatten_singleton]; rfl⟩

/-- Where no PDU is ahead, more bytes make no difference. -/
theorem HeadersAhead.sendRaw (ahead : HeadersAhead world []) (chunk : Bytes) :
    HeadersAhead (world.upstream chunk) [] := by
  intro header member
  rcases ahead header member with answered | ⟨earlier, later, split, some, _⟩
  · exact .inl answered
  · exact absurd (List.append_eq_nil_iff.mp split.symm).2 some

/-- Between two PDUs the server has nothing of the next one yet. -/
theorem Aligned.of_fresh (storage : world.stdcl.tempRecvStorage = .fresh)
    (incoming : world.stdcl.connection.incoming = pdus.flatten)
    (whole : ∀ pdu ∈ pdus, ClientPdu pdu) (ahead : HeadersAhead world pdus) : Aligned world [] := by
  refine @Aligned.header _ [] pdus (by rw [CurrRecvMsg.partly_nil]; exact storage) ?_ incoming whole
    ahead
  intro pdu first
  exact Nat.lt_of_lt_of_le (by decide) (whole pdu (List.mem_of_mem_head? first)).header

theorem Aligned.keep (aligned : Aligned world unsent)
    (storage : next.stdcl.tempRecvStorage = world.stdcl.tempRecvStorage)
    (incoming : next.stdcl.connection.incoming = world.stdcl.connection.incoming)
    (headers : next.headers = world.headers) (answers : next.answers = world.answers)
    (sent : next.sent = world.sent) : Aligned next unsent := by
  cases aligned with
  | header held begun stream whole ahead =>
    exact .header (storage.trans held) begun (by rwa [incoming]) whole
      (ahead.keep headers answers sent)
  | payload begun inStep word counted unfinished stream whole ahead last =>
    rw [← storage] at begun inStep word counted
    exact .payload begun inStep word counted unfinished (incoming.trans stream) whole
      (ahead.keep headers answers sent) last

/-- A header the server has not come to a verdict about has as many bytes ahead as lie behind it. -/
theorem HeadersAhead.within {header : Nat} (ahead : HeadersAhead world pdus)
    (member : header ∈ world.headers) :
    header ∈ world.answers.map Prod.fst ∨ world.sent ≤ header + pdus.flatten.length := by
  rcases ahead header member with answered | ⟨earlier, later, rfl, _, place⟩
  · exact .inl answered
  · right
    rw [List.flatten_append, List.length_append]
    omega

/-- Where nothing is ahead, there are no such headers. -/
theorem Aligned.quiet (aligned : Aligned world unsent) (storage : world.stdcl.tempRecvStorage = .fresh)
    (incoming : world.stdcl.connection.incoming = []) {header : Nat}
    (member : header ∈ world.headers) : header ∈ world.answers.map Prod.fst := by
  cases aligned with
  | @header part pdus held begun stream whole ahead =>
    have none : part = [] := by
      rw [← CurrRecvMsg.partly_recvbuf part, ← held, storage]
      rfl
    rw [none, incoming] at stream
    rcases ahead header member with answered | ⟨earlier, later, rfl, nonempty, _⟩
    · exact answered
    · obtain ⟨pdu, rest, rfl⟩ := List.exists_cons_of_ne_nil nonempty
      have long := (whole pdu (List.mem_append_right _ List.mem_cons_self)).header
      have lengths := congrArg List.length stream
      rw [List.flatten_append, List.flatten_cons] at lengths
      simp only [List.length_append, List.length_nil, lwmpHdrSize] at lengths long
      omega
  | payload begun =>
    rw [storage] at begun
    cases begun

/-- The client sends a PDU behind all that it has sent. -/
theorem Aligned.sendPdu (aligned : Aligned world []) {pdu : Bytes} (client : ClientPdu pdu) :
    Aligned ({ world with headers := world.headers ++ [world.sent] }.upstream pdu) [] := by
  have joined (pdus : List Bytes) : (pdus ++ [pdu]).flatten = pdus.flatten ++ pdu := by
    rw [List.flatten_append, List.flatten_singleton]
  have all {pdus : List Bytes} (whole : ∀ pdu ∈ pdus, ClientPdu pdu) :
      ∀ other ∈ pdus ++ [pdu], ClientPdu other := by
    intro other member
    rcases List.mem_append.mp member with old | new
    · exact whole other old
    · rwa [List.mem_singleton.mp new]
  cases aligned with
  | @header part pdus storage begun stream whole ahead =>
    refine .header storage ?_ ?_ (all whole) (ahead.sendPdu pdu)
    · cases pdus with
      | nil =>
        intro other first
        obtain rfl : pdu = other := Option.some.inj first
        rw [(List.append_eq_nil_iff.mp stream).1]
        exact Nat.lt_of_lt_of_le (by decide) client.header
      | cons first pdus => exact begun
    · show part ++ (world.stdcl.connection.incoming ++ pdu) = _
      rw [joined, ← stream, List.append_assoc]
  | @payload raw pdus _ begun inStep word counted unfinished stream whole ahead last =>
    refine .payload begun inStep word counted unfinished ?_ (all whole) (ahead.sendPdu pdu)
      fun some => absurd rfl some
    show world.stdcl.connection.incoming ++ pdu = _
    rw [joined, stream, List.append_assoc]

/-- The client sends the next bytes of a file. -/
theorem Aligned.sendRaw {chunk : Bytes} (aligned : Aligned world (chunk ++ unsent)) :
    Aligned (world.upstream chunk) unsent := by
  generalize whole : chunk ++ unsent = bytes at aligned
  cases aligned with
  | @header part pdus storage begun stream pdusWhole ahead =>
    obtain ⟨rfl, rfl⟩ := List.append_eq_nil_iff.mp whole
    refine .header storage begun ?_ pdusWhole (ahead.keep rfl rfl rfl)
    show part ++ (world.stdcl.connection.incoming ++ []) = _
    rw [List.append_nil, stream]
  | @payload raw pdus _ begun inStep word counted unfinished stream pdusWhole ahead last =>
    subst whole
    rw [List.length_append] at counted unfinished
    by_cases none : chunk ++ unsent = []
    · obtain ⟨rfl, rfl⟩ := List.append_eq_nil_iff.mp none
      refine .payload begun inStep word counted unfinished ?_ pdusWhole (ahead.keep rfl rfl rfl) last
      show world.stdcl.connection.incoming ++ [] = _
      rw [List.append_nil, stream]
    · obtain rfl := last none
      refine @Aligned.payload _ (raw ++ chunk) [] unsent begun inStep word ?_ ?_ ?_ pdusWhole
        (ahead.sendRaw chunk) fun _ => rfl
      · show world.stdcl.tempRecvStorage.expectedMsgSize =
          world.stdcl.tempRecvStorage.totalMsgDataRecved + _
        rw [List.length_append, counted]
        omega
      · rw [List.length_append]
        omega
      · show world.stdcl.connection.incoming ++ chunk = _
        rw [stream, List.flatten_nil, List.append_nil, List.append_nil]

end Stream

/-- What the server waits for, by where `cmd_sendfile` is. A client that is at its prompt has sent all
that the server waits for; one that waits for a verdict has sent nothing behind its header, and goes on
with what the server waits for if it is accepted. -/
def Uplink (world : UploadWorld) : SendfilePhase → Prop
  | .idle => ∃ unsent, Aligned world unsent ∧ (world.ctx.connected = true → unsent = [])
  | .awaiting header remaining =>
    (header ∉ world.answers.map Prod.fst ∧
      ∀ place ∈ world.headers, place ∈ world.answers.map Prod.fst ∨ place = header) ∨
    ∃ verdict, world.HasVerdict header verdict ∧
      Aligned world (if verdict = .ok then remaining else [])
  | .sending remaining | .pumping remaining => Aligned world remaining

/-! ### A call of the server -/

section Inbound

variable {start world : UploadWorld} {env : InboundEnv} {recvEvents : List NetEvent}
  {unsent : Bytes}

/-- A call without a verdict leaves the headers that are ahead. -/
theorem HeadersAhead.inbound {pdus : List Bytes} (ahead : HeadersAhead world pdus)
    (exit : (wtHandleInboundData env (world.receiving recvEvents)).exit.verdict = none) :
    HeadersAhead (world.inbound env recvEvents) pdus := by
  refine ahead.keep rfl ?_ rfl
  show world.answers ++ _ = _
  rw [answerOf_of_none exit, List.append_nil]

/-- A call with a verdict takes the first of them. -/
theorem HeadersAhead.delivered {pdu : Bytes} {rest : List Bytes} {connection : Conn}
    (ahead : HeadersAhead world (pdu :: rest)) (incoming : connection.incoming = rest.flatten)
    (read : pduRead (world.receiving recvEvents) = some pdu)
    (delivered : PduDelivered env ((world.receiving recvEvents).withRecv connection (.opened pdu))
      pdu (wtHandleInboundData env (world.receiving recvEvents))) :
    HeadersAhead (world.inbound env recvEvents) rest := by
  have left : (wtHandleInboundData env
      (world.receiving recvEvents)).stdcl.connection.incoming = rest.flatten :=
    delivered.keeps.incoming.trans incoming
  intro header member
  rcases ahead header member with answered | ⟨earlier, later, split, nonempty, place⟩
  · left
    obtain ⟨answer, old, same⟩ := List.mem_map.mp answered
    exact List.mem_map.mpr ⟨answer, List.mem_append_left _ old, same⟩
  · cases earlier with
    | nil =>
      left
      rw [List.nil_append] at split
      refine List.mem_map.mpr ⟨(header, env.verdict pdu), List.mem_append_right _ ?_, rfl⟩
      refine mem_answerOf.mpr ⟨pdu, read, delivered.exit_verdict, ?_⟩
      rw [← split, List.flatten_cons, List.length_append] at place
      rw [left]
      show header = _
      omega
    | cons first earlier =>
      obtain ⟨_, rfl⟩ := List.cons.inj split
      exact .inr ⟨earlier, later, rfl, nonempty, place⟩

/-- The call that delivers a PDU. If it accepts a file that goes on behind it, the server waits for
the rest of the file, and otherwise for the next PDU. -/
theorem aligned_delivered {pdu : Bytes} {rest : List Bytes} {connection : Conn}
    (client : ClientPdu pdu) (whole : ∀ pdu ∈ rest, ClientPdu pdu)
    (incoming : connection.incoming = rest.flatten)
    (ahead : HeadersAhead (world.inbound env recvEvents) rest)
    (delivered : PduDelivered env ((world.receiving recvEvents).withRecv connection (.opened pdu))
      pdu (wtHandleInboundData env (world.receiving recvEvents)))
    (accepts : env.verdict pdu = .ok → lwmpPduBufSize < LwmpPdu.totalMsgSize pdu →
      (env.recipient pdu).isSome = true ∧ rest = [] ∧
        LwmpPdu.totalMsgSize pdu = lwmpPduBufSize + unsent.length)
    (refuses : ¬ (env.verdict pdu = .ok ∧ lwmpPduBufSize < LwmpPdu.totalMsgSize pdu) →
      unsent = []) : Aligned (world.inbound env recvEvents) unsent := by
  have behind : (world.inbound env recvEvents).stdcl.connection.incoming = rest.flatten :=
    delivered.keeps.incoming.trans incoming
  have fresh (storage : (wtHandleInboundData env
        (world.receiving recvEvents)).stdcl.tempRecvStorage = .fresh) :
      Aligned (world.inbound env recvEvents) [] := .of_fresh storage behind whole ahead
  have storage : (world.inbound env recvEvents).stdcl.tempRecvStorage =
      (wtHandleInboundData env (world.receiving recvEvents)).stdcl.tempRecvStorage := rfl
  generalize wtHandleInboundData env (world.receiving recvEvents) = result
    at delivered fresh storage
  cases delivered with
  | rejected refused keeps left =>
    rw [refuses fun accepted => refused accepted.1]
    refine fresh (left.trans ?_)
    have inStep : env.verdict pdu ≠ .crcerr := lwmpValidateHdrs_ne_crcerr _ _ client.crc
    rw [CurrRecvMsg.afterRejection, decide_eq_false inStep]
    rfl
  | served accepted request keeps left =>
    have valid := (lwmpValidateHdrs_ok_iff _ _ _).mp accepted
    have short : LwmpPdu.totalMsgSize pdu ≤ lwmpPduBufSize := by
      refine valid.textSize fun file => ?_
      rw [request] at file
      cases file
    rw [refuses fun long => absurd long.2 (not_lt.mpr short)]
    refine fresh (left.trans ?_)
    have after := client.afterPdu (CurrRecvMsg.opened pdu).recvbuf
    rwa [if_pos short] at after
  | unreachable accepted message gone keeps left =>
    have short : ¬ (env.verdict pdu = .ok ∧ lwmpPduBufSize < LwmpPdu.totalMsgSize pdu) := by
      rintro ⟨_, long⟩
      have found := (accepts accepted long).1
      rw [gone] at found
      cases found
    rw [refuses short]
    exact fresh left
  | @forwarded after rcpt accepted message found keeps left =>
    have after := client.afterPdu []
    by_cases short : LwmpPdu.totalMsgSize pdu ≤ lwmpPduBufSize
    · rw [refuses fun long => absurd long.2 (not_lt.mpr short)]
      rw [if_pos short] at after
      exact fresh (left.trans after)
    · obtain ⟨_, rfl, size⟩ := accepts accepted (not_le.mp short)
      have total := client.whole
      rw [if_neg short] at after
      have held : (world.inbound env recvEvents).stdcl.tempRecvStorage =
          { CurrRecvMsg.opened pdu with recvbuf := [], notMsgInitPdu := true } :=
        storage.trans (left.trans after)
      refine @Aligned.payload _ [] [] unsent ?_ ?_ ?_ ?_ ?_ behind whole ahead fun _ => rfl
      · rw [held]
      · rw [held]
        rfl
      · rw [held]
        exact LwmpPdu.totalMsgSize_lt pdu
      · rw [held]
        show LwmpPdu.totalMsgSize pdu = (pdu.length - lwmpHdrSize) + ([].length + unsent.length)
        rw [List.length_nil]
        omega
      · omega

/-- Bytes of a file that are received are bytes of the file. -/
theorem raw_taken {raw bytes incoming unsent : Bytes} {pdus : List Bytes}
    (stream : raw ++ pdus.flatten = bytes ++ incoming)
    (fits : bytes.length ≤ raw.length + unsent.length) (last : unsent ≠ [] → pdus = []) :
    ∃ rest, raw = bytes ++ rest ∧ incoming = rest ++ pdus.flatten := by
  by_cases all : unsent = []
  · rw [all, List.length_nil, Nat.add_zero] at fits
    obtain ⟨rest, split⟩ := List.prefix_of_prefix_length_le ⟨incoming, stream.symm⟩
      (List.prefix_append raw pdus.flatten) fits
    rw [← split, List.append_assoc, List.append_cancel_left_eq] at stream
    exact ⟨rest, split.symm, stream.symm⟩
  · rw [last all, List.flatten_nil, List.append_nil] at stream
    exact ⟨incoming, stream, by rw [last all, List.flatten_nil, List.append_nil]⟩

/-- Where bytes of a file were received, the rest of the file is ahead. -/
theorem Aligned.rest {bytes rest buf : Bytes} {pdus : List Bytes}
    (begun : world.stdcl.tempRecvStorage.notMsgInitPdu = true)
    (inStep : world.stdcl.tempRecvStorage.isDesynced = false)
    (word : world.stdcl.tempRecvStorage.expectedMsgSize < 2 ^ 64)
    (counted : world.stdcl.tempRecvStorage.expectedMsgSize =
      world.stdcl.tempRecvStorage.totalMsgDataRecved + ((bytes ++ rest).length + unsent.length))
    (recved : (world.stdcl.tempRecvStorage.receivedPayload bytes).totalMsgDataRecved =
      world.stdcl.tempRecvStorage.totalMsgDataRecved + bytes.length)
    (storage : next.stdcl.tempRecvStorage =
      { world.stdcl.tempRecvStorage.receivedPayload bytes with recvbuf := buf })
    (unfinished : 0 < rest.length + unsent.length)
    (incoming : next.stdcl.connection.incoming = rest ++ pdus.flatten)
    (whole : ∀ pdu ∈ pdus, ClientPdu pdu) (ahead : HeadersAhead next pdus)
    (last : unsent ≠ [] → pdus = []) : Aligned next unsent := by
  refine .payload ?_ ?_ ?_ ?_ unfinished incoming whole ahead last
  · rw [storage]
    exact begun
  · rw [storage]
    exact inStep
  · rw [storage]
    exact word
  · rw [storage]
    show world.stdcl.tempRecvStorage.expectedMsgSize =
      (world.stdcl.tempRecvStorage.receivedPayload bytes).totalMsgDataRecved + _
    rw [recved, counted, List.length_append]
    omega

/-- A call while a file comes takes only bytes of it. -/
theorem aligned_payload {raw : Bytes} {pdus : List Bytes}
    (waiting : world.stdcl.tempRecvStorage.Waiting)
    (live : world.stdcl.clState = .authenticated)
    (begun : world.stdcl.tempRecvStorage.notMsgInitPdu = true)
    (inStep : world.stdcl.tempRecvStorage.isDesynced = false)
    (word : world.stdcl.tempRecvStorage.expectedMsgSize < 2 ^ 64)
    (counted : world.stdcl.tempRecvStorage.expectedMsgSize =
      world.stdcl.tempRecvStorage.totalMsgDataRecved + (raw.length + unsent.length))
    (stream : world.stdcl.connection.incoming = raw ++ pdus.flatten)
    (whole : ∀ pdu ∈ pdus, ClientPdu pdu) (ahead : HeadersAhead world pdus)
    (last : unsent ≠ [] → pdus = [])
    (found : (htableGetCond env.forwardTable
      (cString world.stdcl.tempRecvStorage.destUname)).isSome = true)
    (still : (world.inbound env recvEvents).stdcl.clState = .authenticated) :
    Aligned (world.inbound env recvEvents) unsent := by
  have counters : world.stdcl.tempRecvStorage.Counters := ⟨word, by omega⟩
  have room : world.stdcl.tempRecvStorage.chunkRoom ≤ raw.length + unsent.length := by
    rw [CurrRecvMsg.chunkRoom]
    omega
  have first (pdu : Bytes) (read : pduRead (world.receiving recvEvents) = some pdu) : False := by
    have opening := CurrRecvMsg.Waiting.first_of_pduRead
      (show (world.receiving recvEvents).tempRecvStorage.Waiting from waiting) read
    exact absurd (begun.symm.trans opening) (by decide)
  have headers := @HeadersAhead.inbound world env recvEvents pdus ahead
  have called := wtHandleInboundData_called env (world.receiving recvEvents) waiting
  have after : (world.inbound env recvEvents).stdcl =
      (wtHandleInboundData env (world.receiving recvEvents)).stdcl := rfl
  rw [after] at still
  generalize wtHandleInboundData env (world.receiving recvEvents) = result
    at called after still headers
  -- The bytes a call takes, and what they leave of the file.
  have taken {bytes : Bytes} {connection : Conn}
      (receives : (world.receiving recvEvents).connection.Receives bytes connection)
      (fits : bytes.length ≤ world.stdcl.tempRecvStorage.chunkRoom) :
      ∃ rest, raw = bytes ++ rest ∧ connection.incoming = rest ++ pdus.flatten ∧
        (world.stdcl.tempRecvStorage.receivedPayload bytes).totalMsgDataRecved =
          world.stdcl.tempRecvStorage.totalMsgDataRecved + bytes.length := by
    obtain ⟨rest, split, incoming⟩ := raw_taken (stream.symm.trans receives.incoming)
      (fits.trans room) last
    exact ⟨rest, split, incoming, CurrRecvMsg.receivedPayload_totalMsgDataRecved counters fits⟩
  cases called with
  | disconnected gone => exact absurd (live.symm.trans gone) (by decide)
  | recvError receives fails unread => exact absurd still (cleanupStdClient_not_authenticated _)
  | notResynced receives out unread =>
    have opening : world.stdcl.tempRecvStorage = .desynced := out
    rw [opening] at begun
    cases begun
  | pduBlocked receives start waiting kept unread opening =>
    exact absurd (begun.symm.trans opening) (by decide)
  | notComplete receives read header space overflows kept => exact (first _ read).elim
  | pdu receives read header within ready kept delivered => exact (first _ read).elim
  | @chunkBlocked bytes connection receives _ short unread =>
    obtain ⟨rest, rfl, incoming, recved⟩ := taken receives short.le
    have incoming := (congrArg (·.connection.incoming) after).trans incoming
    have unfinished : 0 < rest.length + unsent.length := by
      have short := Nat.lt_of_lt_of_le short room
      rw [List.length_append] at short
      omega
    exact .rest begun inStep word counted recved (congrArg StdClient.tempRecvStorage after) unfinished
      incoming whole (headers rfl) last
  | @chunk bytes connection result receives _ full unread delivered =>
    obtain ⟨rest, rfl, incoming, recved⟩ := taken receives full.le
    cases delivered with
    | unreachable gone keeps left =>
      have gone : htableGetCond env.forwardTable
        (cString world.stdcl.tempRecvStorage.destUname) = none := gone
      rw [gone] at found
      cases found
    | forwarded there keeps left =>
      have storage := (congrArg StdClient.tempRecvStorage after).trans left
      have incoming := (congrArg (·.connection.incoming) after).trans
        (keeps.incoming.trans incoming)
      rw [CurrRecvMsg.afterChunk] at storage
      have done : world.stdcl.tempRecvStorage.expectedMsgSize =
          (world.stdcl.tempRecvStorage.receivedPayload bytes).totalMsgDataRecved ↔
          rest.length + unsent.length = 0 := by
        rw [recved, counted, List.length_append]
        omega
      by_cases ends : rest.length + unsent.length = 0
      · obtain rfl : rest = [] := List.eq_nil_of_length_eq_zero (by omega)
        obtain rfl : unsent = [] := List.eq_nil_of_length_eq_zero (by omega)
        exact .of_fresh (storage.trans (if_pos (done.mpr ends))) incoming whole (headers rfl)
      · exact .rest begun inStep word counted recved
          (storage.trans (if_neg (mt done.mp ends))) (Nat.pos_of_ne_zero ends) incoming whole
          (headers rfl) last

/-- What a call does while a PDU comes: it waits for more of it, it delivers it, or the client is
gone. -/
theorem pdu_inbound {part pdu : Bytes} {rest : List Bytes} (live : world.stdcl.clState = .authenticated)
    (still : (world.inbound env recvEvents).stdcl.clState = .authenticated)
    (storage : world.stdcl.tempRecvStorage = .partly part) (begun : part.length < pdu.length)
    (stream : part ++ world.stdcl.connection.incoming = pdu ++ rest.flatten)
    (client : ClientPdu pdu) (whole : ∀ other ∈ rest, ClientPdu other)
    (ahead : HeadersAhead world (pdu :: rest)) :
    ((wtHandleInboundData env (world.receiving recvEvents)).exit.verdict = none ∧
      Aligned (world.inbound env recvEvents) []) ∨
    ∃ connection, connection.incoming = rest.flatten ∧
      pduRead (world.receiving recvEvents) = some pdu ∧
      HeadersAhead (world.inbound env recvEvents) rest ∧
      PduDelivered env ((world.receiving recvEvents).withRecv connection (.opened pdu)) pdu
        (wtHandleInboundData env (world.receiving recvEvents)) := by
  have arrives : PduArrives env (world.receiving recvEvents) pdu rest.flatten
      (wtHandleInboundData env (world.receiving recvEvents)) :=
    client.arrives live storage begun stream
  have headers := @HeadersAhead.inbound world env recvEvents _ ahead
  have after : (world.inbound env recvEvents).stdcl =
      (wtHandleInboundData env (world.receiving recvEvents)).stdcl := rfl
  rw [after] at still
  generalize called : wtHandleInboundData env (world.receiving recvEvents) = result
    at arrives after still headers
  cases arrives with
  | @waits bytes part connection receives short stream =>
    refine .inl ⟨rfl, @Aligned.header _ part (pdu :: rest) ?_ ?_ ?_ ?_ (headers rfl)⟩
    · rw [after]
      rfl
    · intro other first
      obtain rfl : pdu = other := Option.some.inj first
      exact short
    · rw [after]
      exact stream
    · exact List.forall_mem_cons.mpr ⟨client, whole⟩
  | fails receives fails => exact absurd still (cleanupStdClient_not_authenticated _)
  | @arrives bytes connection result receives behind read delivered =>
    subst called
    exact .inr ⟨connection, behind, read, ahead.delivered behind read delivered, delivered⟩

/-- A call keeps the server in step, where `cmd_sendfile` does not wait for its verdict. -/
theorem Aligned.inbound (aligned : Aligned world unsent)
    (waiting : world.stdcl.tempRecvStorage.Waiting) (live : world.stdcl.clState = .authenticated)
    (still : (world.inbound env recvEvents).stdcl.clState = .authenticated)
    (answered : ¬ world.Unanswered) (condition : KeepsFraming world (.inbound env recvEvents)) :
    Aligned (world.inbound env recvEvents) unsent := by
  cases aligned with
  | @header part pdus storage begun stream whole ahead =>
    cases pdus with
    | nil =>
      obtain ⟨rfl, empty⟩ := List.append_eq_nil_iff.mp stream
      rcases @wtHandleInboundData_nothing (world.receiving recvEvents) env live storage empty with
        ⟨connection, _, behind, called⟩ | ⟨gone, called⟩
      · have after : (world.inbound env recvEvents).stdcl =
            (wtHandleInboundData env (world.receiving recvEvents)).stdcl := rfl
        rw [called] at after
        refine .of_fresh (congrArg StdClient.tempRecvStorage after) ?_ whole
          (ahead.inbound (by rw [called]; rfl))
        exact (congrArg (·.connection.incoming) after).trans behind
      · have gone : (wtHandleInboundData env (world.receiving recvEvents)).stdcl.clState =
            .authenticated := still
        rw [called] at gone
        exact absurd gone (cleanupStdClient_not_authenticated _)
    | cons pdu rest =>
      obtain ⟨client, whole⟩ := List.forall_mem_cons.mp whole
      rcases pdu_inbound live still storage (begun pdu rfl) stream client whole ahead with
        ⟨_, waits⟩ | ⟨connection, behind, read, ahead, delivered⟩
      · exact waits
      · exact aligned_delivered client whole behind ahead delivered
          (fun accepted long => absurd (condition.2 pdu read accepted long).1 answered)
          fun _ => rfl
  | payload begun inStep word counted unfinished stream whole ahead last =>
    exact aligned_payload waiting live begun inStep word counted stream whole ahead last
      (condition.1 begun) still

/-- The only header without a verdict begins the last PDU. -/
theorem headersAhead_last {header : Nat} {pdu : Bytes}
    (others : ∀ place ∈ world.headers, place ∈ world.answers.map Prod.fst ∨ place = header)
    (sent : world.sent = header + pdu.length) : HeadersAhead world [pdu] := by
  intro place member
  rcases others place member with answered | rfl
  · exact .inl answered
  · exact .inr ⟨[], [pdu], rfl, by simp, by rw [List.flatten_singleton, sent]⟩

/-- While `cmd_sendfile` waits for the verdict, the server waits for its PDU. -/
theorem Waits.aligned {header : Nat} {remaining : Bytes} (waits : Waits world header remaining)
    (live : world.stdcl.clState = .authenticated)
    (others : ∀ place ∈ world.headers, place ∈ world.answers.map Prod.fst ∨ place = header) :
    Aligned world [] := by
  obtain ⟨part, pdu, client, _, short, storage, stream, sent⟩ := waits.arriving live
  refine @Aligned.header _ part [pdu] storage ?_ (by rwa [List.flatten_singleton]) ?_
    (headersAhead_last others sent)
  · intro other first
    obtain rfl : pdu = other := Option.some.inj first
    exact short
  · exact fun other member => List.mem_singleton.mp member ▸ client

/-- The call that comes to the verdict leaves the server with what it accepted. -/
theorem Waits.uplink {header : Nat} {remaining : Bytes} (waits : Waits world header remaining)
    (fits : lwmpHdrSize + env.userList.length < 2 ^ 64)
    (condition : KeepsFraming world (.inbound env recvEvents))
    (live : world.stdcl.clState = .authenticated)
    (still : (world.inbound env recvEvents).stdcl.clState = .authenticated)
    (others : ∀ place ∈ world.headers, place ∈ world.answers.map Prod.fst ∨ place = header) :
    Uplink (world.inbound env recvEvents) (.awaiting header remaining) := by
  obtain ⟨part, pdu, client, size, short, storage, stream, sent⟩ := waits.arriving live
  rcases @pdu_inbound world env recvEvents part pdu [] live still storage short
      (by rwa [List.flatten_nil, List.append_nil]) client (by simp)
      (headersAhead_last others sent) with
    ⟨exit, _⟩ | ⟨connection, behind, read, ahead, delivered⟩
  · have answers : (world.inbound env recvEvents).answers = world.answers := by
      show world.answers ++ _ = _
      rw [answerOf_of_none exit, List.append_nil]
    left
    rw [answers]
    exact ⟨waits.unanswered, others⟩
  · have answered := waits.delivered fits sent behind read delivered
    refine .inr ⟨env.verdict pdu, answered.has, ?_⟩
    refine aligned_delivered client (by simp) behind ahead delivered (fun accepted long => ?_)
      fun short => ?_
    · rw [if_pos accepted]
      exact ⟨(condition.2 pdu read accepted long).2, rfl, size⟩
    · by_cases accepted : env.verdict pdu = .ok
      · rw [if_pos accepted]
        have long : ¬ lwmpPduBufSize < LwmpPdu.totalMsgSize pdu := fun long =>
          short ⟨accepted, long⟩
        exact List.eq_nil_of_length_eq_zero (by omega)
      · rw [if_neg accepted]

end Inbound

/-! ### Both ends agree -/

/-- What every step keeps under the conditions. -/
structure Framing (start world : UploadWorld) : Prop where
  awaits : Awaits start world
  uplink : world.stdcl.clState = .authenticated → Uplink world world.phase

section Steps

variable {start world next : UploadWorld}

/-- A step that only concerns the other direction. -/
theorem Uplink.keep {phase : SendfilePhase} (uplink : Uplink world phase)
    (client : next.ctx.connected = true → world.ctx.connected = true)
    (storage : next.stdcl.tempRecvStorage = world.stdcl.tempRecvStorage)
    (incoming : next.stdcl.connection.incoming = world.stdcl.connection.incoming)
    (headers : next.headers = world.headers) (answers : next.answers = world.answers)
    (sent : next.sent = world.sent) : Uplink next phase := by
  have keep {unsent : Bytes} (aligned : Aligned world unsent) : Aligned next unsent :=
    aligned.keep storage incoming headers answers sent
  cases phase with
  | idle =>
    obtain ⟨unsent, aligned, all⟩ := uplink
    exact ⟨unsent, keep aligned, fun live => all (client live)⟩
  | awaiting header remaining =>
    rcases uplink with unanswered | ⟨verdict, has, aligned⟩
    · left
      rw [answers, headers]
      exact unanswered
    · refine .inr ⟨verdict, ?_, keep aligned⟩
      rw [UploadWorld.HasVerdict, answers]
      exact has
  | sending remaining => exact keep uplink
  | pumping remaining => exact keep uplink

/-! The client does not touch what the server knows of it. -/

theorem cmdSendfile_clState (token filename content : Bytes) (limit : Nat) :
    (world.cmdSendfile token filename content limit).stdcl.clState = world.stdcl.clState := by
  rw [UploadWorld.cmdSendfile, UploadWorld.sendPdu, UploadWorld.sendAll]
  cases decide ((sendfilePdu token filename content).length ≤ limit) with
  | false => rfl
  | true =>
    simp only
    split <;> rfl

theorem afterAwaitResp_clState (header : Nat) (remaining : Bytes) :
    (world.afterAwaitResp header remaining).stdcl.clState = world.stdcl.clState := by
  rw [UploadWorld.afterAwaitResp]
  split
  · rfl
  · split <;> rfl

theorem sendChunk_clState (remaining : Bytes) (limit : Nat) :
    (world.sendChunk remaining limit).stdcl.clState = world.stdcl.clState := by
  rw [UploadWorld.sendChunk, UploadWorld.sendAll]
  cases decide ((remaining.take lwmpMaxPduSize).length ≤ limit) <;> rfl

theorem afterPump_clState (remaining : Bytes) :
    (world.afterPump remaining).stdcl.clState = world.stdcl.clState := by
  rw [UploadWorld.afterPump]
  split
  · rfl
  · split <;> rfl

namespace Framing

/-- At the prompt the server waits for nothing that is not sent. -/
theorem atPrompt (framing : Framing start world) (prompt : world.AtPrompt)
    (live : world.stdcl.clState = .authenticated) : Aligned world [] := by
  obtain ⟨idle, connected, _⟩ := prompt
  have uplink := framing.uplink live
  rw [idle] at uplink
  obtain ⟨unsent, aligned, all⟩ := uplink
  exact all connected ▸ aligned

/-- A command sends a PDU and is done. -/
theorem sendPdu (framing : Framing start world) (prompt : world.AtPrompt) {pdu : Bytes}
    (client : ClientPdu pdu) {limit : Nat} (whole : pdu.length ≤ limit)
    (live : world.stdcl.clState = .authenticated) :
    Uplink (world.sendPdu limit pdu).2 .idle := by
  have sent := (framing.atPrompt prompt live).sendPdu client
  rw [← List.take_of_length_le whole] at sent
  exact ⟨[], sent, fun _ => rfl⟩

/-- `cmd_sendfile` sends a file that fits into its PDU, or it begins to wait. -/
theorem cmdSendfile (framing : Framing start world) (prompt : world.AtPrompt) {content : Bytes}
    (token filename : Bytes) {limit : Nat} (small : content.length < 2 ^ 63)
    (quiet : lwmpPduBufSize < content.length → world.Quiet)
    (whole : (sendfilePdu token filename content).length ≤ limit)
    (live : world.stdcl.clState = .authenticated) :
    Uplink (world.cmdSendfile token filename content limit)
      (world.cmdSendfile token filename content limit).phase := by
  have sent := framing.sendPdu prompt (sendfilePdu_clientPdu token filename small) whole live
  rw [UploadWorld.cmdSendfile]
  rw [UploadWorld.sendPdu, UploadWorld.sendAll] at sent ⊢
  rw [decide_eq_true whole]
  simp only at sent ⊢
  split
  · rename_i long
    obtain ⟨storage, incoming, _⟩ := quiet long
    left
    refine ⟨fun member => ?_, fun place member => ?_⟩
    · obtain ⟨answer, old, same⟩ := List.mem_map.mp member
      exact absurd same (framing.awaits.tracked.before answer old).ne
    · rcases List.mem_append.mp member with old | new
      · exact .inl ((framing.atPrompt prompt live).quiet storage incoming old)
      · exact .inr (List.mem_singleton.mp new)
  · show Uplink _ world.phase
    rw [prompt.1] at sent ⊢
    exact sent

/-- `await_resp` ends without a response, before the server has accepted the file. -/
theorem givesUp (framing : Framing start world) {header : Nat} {remaining : Bytes}
    (phase : world.phase = .awaiting header remaining)
    (first : world.stdcl.tempRecvStorage.notMsgInitPdu = false)
    (live : world.stdcl.clState = .authenticated) : Aligned world [] := by
  have uplink := framing.uplink live
  rw [phase] at uplink
  rcases uplink with ⟨unanswered, others⟩ | ⟨verdict, has, aligned⟩
  · rcases framing.awaits.answer header remaining phase with waits | ⟨verdict, answered⟩
    · exact waits.aligned live others
    · exact absurd (List.mem_map.mpr ⟨_, answered.has.1, rfl⟩) unanswered
  · generalize (if verdict = .ok then remaining else []) = unsent at aligned
    cases aligned with
    | header storage begun stream whole ahead => exact .header storage begun stream whole ahead
    | payload begun => exact absurd (first.symm.trans begun) (by decide)

/-- `cmd_sendfile` goes on with a file that the server waits for, or gives up one that it does not
wait for. -/
theorem awaitResp (framing : Framing start world) {header : Nat} {remaining : Bytes}
    (phase : world.phase = .awaiting header remaining)
    (ends : ¬ (world.ctx.awaitingResp = true ∧ world.ctx.connected = true))
    (live : world.stdcl.clState = .authenticated) :
    Uplink (world.afterAwaitResp header remaining)
      (world.afterAwaitResp header remaining).phase := by
  have uplink := framing.uplink live
  rw [phase] at uplink
  have ahead : ∃ unsent, Aligned world unsent := by
    rcases uplink with ⟨unanswered, others⟩ | ⟨verdict, has, aligned⟩
    · rcases framing.awaits.answer header remaining phase with waits | ⟨verdict, answered⟩
      · exact ⟨[], waits.aligned live others⟩
      · exact absurd (List.mem_map.mpr ⟨_, answered.has.1, rfl⟩) unanswered
    · exact ⟨_, aligned⟩
  rw [UploadWorld.afterAwaitResp]
  split
  · rename_i gone
    obtain ⟨unsent, aligned⟩ := ahead
    exact ⟨unsent, aligned.keep rfl rfl rfl rfl rfl, fun still => absurd still gone⟩
  · rename_i connected
    have connected := not_not.mp connected
    -- The response that was taken is the one with the verdict about this header.
    obtain ⟨verdict, code, aligned⟩ : ∃ verdict, world.ctx.lastRespCode = respCodes verdict ∧
        Aligned world (if verdict = .ok then remaining else []) := by
      rcases framing.awaits.answer header remaining phase with waits | ⟨verdict, answered⟩
      · exact absurd ⟨waits.awaiting connected, connected⟩ ends
      · rcases uplink with ⟨unanswered, _⟩ | ⟨other, has, aligned⟩
        · exact absurd (List.mem_map.mpr ⟨_, answered.has.1, rfl⟩) unanswered
        · rcases answered.hears connected with ⟨waiting, _⟩ | ⟨_, code⟩
          · exact absurd ⟨waiting, connected⟩ ends
          · exact ⟨other, has.2 _ answered.has.1 ▸ code, aligned⟩
    split
    · rename_i refused
      rw [code, Ne, respCodes_eq_ok_iff] at refused
      rw [if_neg refused] at aligned
      exact ⟨[], aligned.keep rfl rfl rfl rfl rfl, fun _ => rfl⟩
    · rename_i accepted
      rw [code, Ne, respCodes_eq_ok_iff, not_not] at accepted
      rw [if_pos accepted] at aligned
      exact aligned.keep rfl rfl rfl rfl rfl

/-- The loop of `cmd_sendfile` sends what the server waits for. -/
theorem sendChunk (framing : Framing start world) {remaining : Bytes} {limit : Nat}
    (phase : world.phase = .sending remaining)
    (whole : (remaining.take lwmpMaxPduSize).length ≤ limit)
    (live : world.stdcl.clState = .authenticated) :
    Uplink (world.sendChunk remaining limit) (world.sendChunk remaining limit).phase := by
  have uplink := framing.uplink live
  rw [phase] at uplink
  have aligned : Aligned world (remaining.take lwmpMaxPduSize ++ remaining.drop lwmpMaxPduSize) := by
    rw [List.take_append_drop]
    exact uplink
  rw [UploadWorld.sendChunk, UploadWorld.sendAll, decide_eq_true whole,
    List.take_of_length_le whole]
  exact aligned.sendRaw.keep rfl rfl rfl rfl rfl

/-- It ends behind the last byte, or when the client is gone. -/
theorem pumpEnds (framing : Framing start world) {remaining : Bytes}
    (phase : world.phase = .pumping remaining)
    (condition : world.ctx.connected = true → world.ctx.transferError = true → remaining = [])
    (live : world.stdcl.clState = .authenticated) :
    Uplink (world.afterPump remaining) (world.afterPump remaining).phase := by
  have uplink := framing.uplink live
  rw [phase] at uplink
  rw [UploadWorld.afterPump]
  split
  · rename_i stops
    refine ⟨remaining, Aligned.keep uplink rfl rfl rfl rfl rfl, fun connected => ?_⟩
    exact condition connected (stops.resolve_left (not_not.mpr connected))
  · split
    · rename_i done
      exact ⟨remaining, Aligned.keep uplink rfl rfl rfl rfl rfl, fun _ => done⟩
    · exact Aligned.keep uplink rfl rfl rfl rfl rfl

/-- A call of the server. -/
theorem inbound (framing : Framing start world) {env : InboundEnv} {recvEvents : List NetEvent}
    (fits : lwmpHdrSize + env.userList.length < 2 ^ 64)
    (condition : KeepsFraming world (.inbound env recvEvents))
    (live : world.stdcl.clState = .authenticated)
    (still : (world.inbound env recvEvents).stdcl.clState = .authenticated) :
    Uplink (world.inbound env recvEvents) world.phase := by
  have uplink := framing.uplink live
  have waiting : world.stdcl.tempRecvStorage.Waiting := by
    rcases framing.awaits.tracked.reading with gone | ⟨_, waiting⟩
    · exact absurd (live.symm.trans gone) (by decide)
    · exact waiting
  have keep {unsent : Bytes} (aligned : Aligned world unsent) (answered : ¬ world.Unanswered) :
      Aligned (world.inbound env recvEvents) unsent :=
    aligned.inbound waiting live still answered condition
  have unawaited (phase : world.phase.awaited = none) : ¬ world.Unanswered := by
    rintro ⟨header, member, _⟩
    rw [phase] at member
    cases member
  cases phase : world.phase with
  | idle =>
    rw [phase] at uplink
    obtain ⟨unsent, aligned, all⟩ := uplink
    exact ⟨unsent, keep aligned (unawaited (by rw [phase]; rfl)), all⟩
  | sending remaining =>
    rw [phase] at uplink
    exact keep uplink (unawaited (by rw [phase]; rfl))
  | pumping remaining =>
    rw [phase] at uplink
    exact keep uplink (unawaited (by rw [phase]; rfl))
  | awaiting header remaining =>
    rw [phase] at uplink
    rcases uplink with ⟨unanswered, others⟩ | ⟨verdict, has, aligned⟩
    · rcases framing.awaits.answer header remaining phase with waits | ⟨verdict, answered⟩
      · exact waits.uplink fits condition live still others
      · exact absurd (List.mem_map.mpr ⟨_, answered.has.1, rfl⟩) unanswered
    · refine .inr ⟨verdict, has.inbound framing.awaits.tracked, keep aligned ?_⟩
      rintro ⟨other, member, unanswered⟩
      rw [phase] at member
      obtain rfl := Option.some.inj member
      exact unanswered (List.mem_map.mpr ⟨_, has.1, rfl⟩)

/-- What every step keeps. -/
theorem step (framing : Framing start world) {event : UploadEvent} (whole : SendsWhole world event)
    (answers : KeepsAnswers world event) (condition : KeepsFraming world event)
    (taken : world.step event = some next) : Framing start next := by
  refine ⟨framing.awaits.step answers taken, fun live => ?_⟩
  have uplink := framing.uplink
  cases UploadWorld.step_taken taken with
  | @cmdMsg token line pdu limit prompt made =>
    show Uplink _ world.phase
    rw [prompt.1]
    exact framing.sendPdu prompt (cmdMsgPdu_clientPdu made) (whole pdu made) live
  | cmdUserlist limit prompt =>
    show Uplink _ world.phase
    rw [prompt.1]
    exact framing.sendPdu prompt userlistPdu_clientPdu whole live
  | cmdSendfile token filename limit prompt some small =>
    rw [cmdSendfile_clState] at live
    exact framing.cmdSendfile prompt token filename small answers whole live
  | awaitTimeout phase =>
    exact ⟨[], (framing.givesUp phase condition live).keep rfl rfl rfl rfl rfl, fun _ => rfl⟩
  | awaitFails phase =>
    exact ⟨[], (framing.givesUp phase condition live).keep rfl rfl rfl rfl rfl, fun _ => rfl⟩
  | awaitResp phase ends =>
    rw [afterAwaitResp_clState] at live
    exact framing.awaitResp phase ends live
  | sendChunk limit phase =>
    rw [SendsWhole, phase] at whole
    rw [sendChunk_clState] at live
    exact framing.sendChunk phase whole live
  | freadFails phase => exact condition.elim
  | pumpEnds phase =>
    rw [KeepsFraming, phase] at condition
    rw [afterPump_clState] at live
    exact framing.pumpEnds phase condition live
  | clrecvFill recvEvents connected =>
    exact (uplink live).keep (fun _ => connected) rfl rfl rfl rfl rfl
  | clrecvFrame turn =>
    obtain ⟨frame, _, _, connected, _⟩ := framing.awaits.tracked.down.parse answers turn
    exact (uplink live).keep (fun still => connected ▸ still) rfl rfl rfl rfl rfl
  | clrecvResync turn =>
    obtain ⟨frame, wrong, _⟩ := framing.awaits.tracked.down.parse answers turn
    cases wrong
  | @inbound env recvEvents fits =>
    have before : world.stdcl.clState = .authenticated := by
      rcases framing.awaits.tracked.reading with gone | ⟨before, _⟩
      · have same : (world.inbound env recvEvents).stdcl.clState = world.stdcl.clState := by
          show (wtHandleInboundData env (world.receiving recvEvents)).stdcl.clState = _
          rw [inbound_of_gone gone]
          rfl
        exact same.symm.trans live
      · exact before
    exact framing.inbound fits condition before live
  | outbound table =>
    have sends := SendsOnly.wtHandleOutboundData world.stdcl table
    have keeps := (KeepsSession.wtHandleOutboundData world.stdcl table).toKeepsName
    exact (uplink (keeps.before live)).keep (fun still => still) sends.storage sends.incoming
      rfl rfl rfl
  | queued call =>
    have sends := SendsOnly.wtHandleQueuedMessages call
    have keeps := (KeepsSession.wtHandleQueuedMessages call).toKeepsName
    exact (uplink (keeps.before live)).keep (fun still => still) sends.storage sends.incoming
      rfl rfl rfl
  | enqueue msg => exact (uplink live).keep (fun still => still) rfl rfl rfl rfl rfl

/-- What the server has passed it has answered. -/
theorem headersRead (framing : Framing start world) : world.HeadersRead := by
  intro live header member passed
  have ofAligned {unsent : Bytes} (aligned : Aligned world unsent) :
      header ∈ world.answers.map Prod.fst := by
    cases aligned with
    | @header part pdus storage begun stream whole ahead =>
      refine (ahead.within member).resolve_right fun within => ?_
      have lengths := congrArg List.length stream
      rw [List.length_append] at lengths
      rw [UploadWorld.ahead, storage, CurrRecvMsg.collected_of_first (by simp),
        CurrRecvMsg.partly_recvbuf] at passed
      omega
    | @payload raw pdus _ begun inStep word counted unfinished stream whole ahead last =>
      refine (ahead.within member).resolve_right fun within => ?_
      rw [UploadWorld.ahead, stream, List.length_append] at passed
      omega
  have uplink := framing.uplink live
  cases phase : world.phase with
  | idle =>
    rw [phase] at uplink
    obtain ⟨unsent, aligned, _⟩ := uplink
    exact ofAligned aligned
  | sending remaining =>
    rw [phase] at uplink
    exact ofAligned uplink
  | pumping remaining =>
    rw [phase] at uplink
    exact ofAligned uplink
  | awaiting header remaining =>
    rw [phase] at uplink
    rcases uplink with ⟨unanswered, others⟩ | ⟨verdict, has, aligned⟩
    · rcases framing.awaits.answer header remaining phase with waits | ⟨verdict, answered⟩
      · exact ofAligned (waits.aligned live others)
      · exact absurd (List.mem_map.mpr ⟨_, answered.has.1, rfl⟩) unanswered
    · exact ofAligned aligned

end Framing

end Steps

/-- When a session begins, nothing is ahead. -/
theorem UploadSession.framing {start : UploadWorld} (session : UploadSession start) :
    Framing start start := by
  refine ⟨session.awaits, fun _ => ?_⟩
  rw [session.idle]
  refine ⟨[], @Aligned.of_fresh start [] session.fresh session.noIncoming (by simp) ?_,
    fun _ => rfl⟩
  intro header member
  rw [session.noHeaders] at member
  cases member

/-- The server comes to a verdict about every header that it passes, in every state of a run of a
client whose connection takes all that it sends, if the steps meet the conditions: the client takes no
other response for the answer to a header, sends every file that was accepted to its end, and does not
give one up before; and the recipient of a file is there as long as it comes. -/
theorem headers_read {start world : UploadWorld} {history : List (UploadWorld × UploadEvent)}
    (session : UploadSession start) (run : Traced UploadWorld.step start history world)
    (whole : ∀ visited ∈ history, SendsWhole visited.1 visited.2)
    (answers : ∀ visited ∈ history, KeepsAnswers visited.1 visited.2)
    (condition : ∀ visited ∈ history, KeepsFraming visited.1 visited.2) : world.HeadersRead := by
  have framing : Framing start world := run.invariant session.framing
    fun visited member framing next taken => framing.step (whole visited member)
      (answers visited member) (condition visited member) taken
  exact framing.headersRead

/-! ### Two runs -/

instance (world : UploadWorld) : Decidable world.HeadersRead :=
  inferInstanceAs (Decidable (_ → ∀ header ∈ world.headers, _))

instance (world : UploadWorld) (event : UploadEvent) : Decidable (SendsWhole world event) :=
  match event with
  | .cmdMsg token line limit =>
    inferInstanceAs (Decidable (∀ pdu ∈ cmdMsgPdu token line, pdu.length ≤ limit))
  | .cmdUserlist limit => inferInstanceAs (Decidable (userlistPdu.length ≤ limit))
  | .cmdSendfile token filename content limit =>
    inferInstanceAs (Decidable ((sendfilePdu token filename content).length ≤ limit))
  | .sendChunk limit =>
    inferInstanceAs (Decidable ((world.phase.unsent.take lwmpMaxPduSize).length ≤ limit))
  | .awaitTimeout | .awaitFails | .awaitResp | .freadFails | .pumpEnds | .clrecvFill .. |
    .clrecvTurn | .inbound .. | .outbound .. | .queued .. | .enqueue .. =>
    inferInstanceAs (Decidable True)

instance (world : UploadWorld) (event : UploadEvent) : Decidable (KeepsFraming world event) :=
  match event with
  | .awaitTimeout | .awaitFails =>
    inferInstanceAs (Decidable (world.stdcl.tempRecvStorage.notMsgInitPdu = false))
  | .freadFails => inferInstanceAs (Decidable False)
  | .pumpEnds => inferInstanceAs (Decidable (_ = true → _ = true → world.phase.unsent = []))
  | .inbound env recvEvents =>
    inferInstanceAs (Decidable ((_ = true → _ = true) ∧
      ∀ pdu ∈ pduRead (world.receiving recvEvents), env.verdict pdu = .ok →
        lwmpPduBufSize < LwmpPdu.totalMsgSize pdu →
          world.Unanswered ∧ (env.recipient pdu).isSome = true))
  | .cmdMsg .. | .cmdUserlist .. | .cmdSendfile .. | .awaitResp | .sendChunk .. |
    .clrecvFill .. | .clrecvTurn | .outbound .. | .queued .. | .enqueue .. =>
    inferInstanceAs (Decidable True)

/-- A file that needs two more sends behind its first PDU. -/
def twoMoreSends : Bytes := List.replicate (lwmpPduBufSize + lwmpMaxPduSize + 1) 120

/-- A text of somebody who is gone when it is sent. -/
def textOfDeparted : NewMsg :=
  ⟨forwardNode ((cmdMsgPdu (ofLiteral "ann") (ofLiteral "hi")).getD [])
    (strncpy unamesize (ofLiteral "bob")), rfl⟩

/-- While the client sends an accepted file, it is notified that somebody else is gone. It stops, and
sends a text. -/
def noticeAboutOther : List UploadEvent :=
  let everyone := everyoneIsHere.forwardTable
  [.cmdSendfile (ofLiteral "carl") (ofLiteral "a.txt") twoMoreSends 8192,
    .inbound everyoneIsHere [.upTo 4096, .upTo 4096], .clrecvFill [.upTo 4096], .clrecvTurn,
    .awaitResp, .enqueue textOfDeparted, .queued everyone (fun _ => none) [], .sendChunk 8192,
    .clrecvFill [.upTo 4096], .clrecvTurn, .pumpEnds,
    .cmdMsg (ofLiteral "carl") (ofLiteral "hi") 8192,
    .inbound everyoneIsHere [.upTo 4096], .inbound everyoneIsHere [.upTo 4096]]

/-- The first byte of the text becomes the last one of the file. -/
theorem header_taken_for_payload : ∃ start history world, UploadSession start ∧
    Traced UploadWorld.step start history world ∧
      (∀ visited ∈ history, SendsWhole visited.1 visited.2) ∧ ¬ world.HeadersRead := by
  have executed : (traceAll UploadWorld.step uploadStart noticeAboutOther).any
      (fun (history, world) => decide (∀ visited ∈ history, SendsWhole visited.1 visited.2) &&
        decide (¬ world.HeadersRead)) = true := by
    decide +kernel
  obtain ⟨⟨history, world⟩, traced, held⟩ := (Option.any_eq_true _ _).mp executed
  obtain ⟨whole, unread⟩ := Bool.and_eq_true_iff.mp held
  exact ⟨uploadStart, history, world, uploadStart_session, Traced.start.traceAll traced,
    of_decide_eq_true whole, of_decide_eq_true unread⟩

/-- A file is sent to its end, and a text behind it. -/
def textBehindFile : List UploadEvent :=
  [.cmdSendfile (ofLiteral "carl") (ofLiteral "a.txt") oneByteMore 8192,
    .inbound everyoneIsHere [.upTo 4096, .upTo 4096], .clrecvFill [.upTo 4096], .clrecvTurn,
    .awaitResp, .sendChunk 8192, .pumpEnds,
    .cmdMsg (ofLiteral "carl") (ofLiteral "hi") 8192,
    .inbound everyoneIsHere [.upTo 4096], .inbound everyoneIsHere [.upTo 4096, .upTo 4096]]

theorem headers_read_behind_file : ∃ history world,
    Traced UploadWorld.step uploadStart history world ∧ history.map Prod.snd = textBehindFile ∧
      world.headers.length = 2 ∧ world.ahead = 0 ∧ world.HeadersRead := by
  have executed : (traceAll UploadWorld.step uploadStart textBehindFile).any
      (fun (history, world) => decide (∀ visited ∈ history, SendsWhole visited.1 visited.2 ∧
          KeepsAnswers visited.1 visited.2 ∧ KeepsFraming visited.1 visited.2) &&
        decide (world.headers.length = 2 ∧ world.ahead = 0)) = true := by
    decide +kernel
  obtain ⟨⟨history, world⟩, traced, held⟩ := (Option.any_eq_true _ _).mp executed
  obtain ⟨conditions, passed⟩ := Bool.and_eq_true_iff.mp held
  rw [decide_eq_true_eq] at conditions passed
  have run := Traced.start.traceAll traced
  exact ⟨history, world, run, traceAll_events traced, passed.1, passed.2,
    headers_read uploadStart_session run (fun visited member => (conditions visited member).1)
      (fun visited member => (conditions visited member).2.1)
      fun visited member => (conditions visited member).2.2⟩

end Lwmsg
