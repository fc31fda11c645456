/-
This file puts the calls of `wt_handle_inbound_data` on one client together. Between
two calls its worker sends to the client, and more bytes arrive; the receive state
stays as the last call left it. It proves what holds of every call of such a run: what
the server does with a message it gives up, and when the loop around the calls ends.
-/

import Lwmsg.InboundActs

namespace Lwmsg

open Bytes Pointers

/-! ### Runs of calls -/

/-- What happens to a client between two calls on the receiving side. -/
structure BetweenCalls (before after : StdClient) : Prop where
  storage : after.tempRecvStorage = before.tempRecvStorage
  username : after.username = before.username
  state : after.clState = before.clState ∨ after.clState = .disconnected

/-- A run of calls, each with what it reads besides its client and the client it is made for. -/
inductive InboundRun (start : StdClient) : List (InboundEnv × StdClient) → StdClient → Prop
  | start : InboundRun start [] start
  | between {calls before after} (run : InboundRun start calls before)
      (between : BetweenCalls before after) : InboundRun start calls after
  | call {calls stdcl} (env : InboundEnv) (run : InboundRun start calls stdcl) :
      InboundRun start (calls ++ [(env, stdcl)]) (wtHandleInboundData env stdcl).stdcl

/-- A client as its authentication leaves it. -/
structure ReceivingSession (stdcl : StdClient) : Prop where
  authenticated : stdcl.clState = .authenticated
  fresh : stdcl.tempRecvStorage = .fresh

/-- What a run keeps: a client that was not cleaned up waits in one of the four shapes. -/
def Reading (stdcl : StdClient) : Prop :=
  stdcl.clState = .disconnected ∨
    stdcl.clState = .authenticated ∧ stdcl.tempRecvStorage.Waiting

theorem ReceivingSession.reading {stdcl : StdClient} (session : ReceivingSession stdcl) :
    Reading stdcl := by
  refine .inr ⟨session.authenticated, ?_⟩
  rw [session.fresh]
  exact CurrRecvMsg.waiting_fresh

theorem BetweenCalls.reading {before after : StdClient} (between : BetweenCalls before after)
    (reading : Reading before) : Reading after := by
  rcases reading with gone | ⟨live, waiting⟩
  · rcases between.state with same | gone'
    · exact .inl (same.trans gone)
    · exact .inl gone'
  · rcases between.state with same | gone
    · exact .inr ⟨same.trans live, between.storage ▸ waiting⟩
    · exact .inl gone

/-! ### The receive state between calls -/

namespace CurrRecvMsg

theorem waiting_afterRejection (reason : HdrValidationStatus) : (afterRejection reason).Waiting := by
  by_cases crc : reason = .crcerr
  · have equal : afterRejection reason = desynced := by simp [afterRejection, crc, desynced]
    rw [equal]
    exact .desynced
  · have equal : afterRejection reason = fresh := by simp [afterRejection, crc, fresh]
    rw [equal]
    exact waiting_fresh

/-- Where a message goes on behind its first PDU, its counters are those of the PDU. -/
theorem waiting_afterPdu (buf kept : Bytes) (within : buf.length ≤ lwmpMaxPduSize) :
    ({ opened buf with recvbuf := kept }.afterPdu).Waiting := by
  rw [afterPdu]
  split
  · exact waiting_fresh
  · refine .chunks rfl rfl (LwmpPdu.totalMsgSize_lt buf) ?_
    show buf.length - lwmpHdrSize < 2 ^ 64
    simp only [lwmpMaxPduSize] at within
    omega

theorem waiting_afterChunk {msg : CurrRecvMsg} (begun : msg.notMsgInitPdu = true)
    (inStep : msg.isDesynced = false) (word : msg.expectedMsgSize < 2 ^ 64)
    (recvedWord : msg.totalMsgDataRecved < 2 ^ 64) : msg.afterChunk.Waiting := by
  rw [afterChunk]
  split
  · exact waiting_fresh
  · exact .chunks begun inStep word recvedWord

/-- The counters of a message in the middle are those of its header. -/
theorem Waiting.counters {msg : CurrRecvMsg} (waiting : msg.Waiting)
    (begun : msg.notMsgInitPdu = true) : msg.Counters := by
  cases waiting with
  | idle short => cases begun
  | opened header space unfinished => cases begun
  | desynced => cases begun
  | chunks begun inStep word recvedWord => exact ⟨word, recvedWord⟩

/-- The stream is in step in the middle of a message. -/
theorem Waiting.inStep {msg : CurrRecvMsg} (waiting : msg.Waiting)
    (begun : msg.notMsgInitPdu = true) : msg.isDesynced = false := by
  cases waiting with
  | idle short => cases begun
  | opened header space unfinished => cases begun
  | desynced => cases begun
  | chunks begun inStep word recvedWord => exact inStep

/-- A message in the middle stays one when bytes arrive. -/
theorem Waiting.receivedPayload {msg : CurrRecvMsg} (waiting : msg.Waiting)
    (begun : msg.notMsgInitPdu = true) (bytes : Bytes) :
    (msg.receivedPayload bytes).notMsgInitPdu = true ∧
      (msg.receivedPayload bytes).isDesynced = false ∧
      (msg.receivedPayload bytes).expectedMsgSize < 2 ^ 64 ∧
      (msg.receivedPayload bytes).totalMsgDataRecved < 2 ^ 64 := by
  exact ⟨begun, waiting.inStep begun, (waiting.counters begun).1, Nat.mod_lt _ (by decide)⟩

end CurrRecvMsg

/-- A call leaves a client that waits, or it cleans the client up. -/
theorem Called.waiting {env : InboundEnv} {stdcl : StdClient} {result : InboundResult}
    (called : Called env stdcl result) (live : stdcl.clState = .authenticated)
    (waiting : stdcl.tempRecvStorage.Waiting) :
    result.stdcl.clState = .disconnected ∨ result.stdcl.tempRecvStorage.Waiting := by
  cases called with
  | disconnected gone => exact .inl gone
  | @recvError bytes connection msg receives fails unread =>
    left
    have state : (stdcl.withRecv connection msg).clState = .authenticated := live
    show (cleanupStdClient (stdcl.withRecv connection msg)).clState = .disconnected
    rw [cleanupStdClient, state]
  | notResynced receives out unread => exact .inr .desynced
  | pduBlocked receives first waiting kept unread => exact .inr waiting
  | @chunkBlocked bytes connection receives begun short unread =>
    obtain ⟨begun, inStep, word, recvedWord⟩ := waiting.receivedPayload begun bytes
    exact .inr (.chunks begun inStep word recvedWord)
  | notComplete receives read header space overflows kept =>
    refine .inr (.opened header space ?_)
    simp only [lwmpHdrSize, lwmpMaxPduSize] at space overflows ⊢
    omega
  | pdu receives read header within ready kept delivered =>
    right
    cases delivered with
    | rejected refused keeps left =>
      rw [left]
      exact CurrRecvMsg.waiting_afterRejection _
    | served accepted request keeps left =>
      rw [left]
      exact CurrRecvMsg.waiting_afterPdu _ _ within
    | unreachable accepted message gone keeps left =>
      rw [left]
      exact CurrRecvMsg.waiting_fresh
    | forwarded accepted message found keeps left =>
      rw [left]
      exact CurrRecvMsg.waiting_afterPdu _ _ within
  | @chunk bytes connection result receives begun full unread delivered =>
    right
    obtain ⟨begun, inStep, word, recvedWord⟩ := waiting.receivedPayload begun bytes
    cases delivered with
    | unreachable gone keeps left =>
      rw [left]
      exact .desynced
    | forwarded found keeps left =>
      rw [left]
      exact CurrRecvMsg.waiting_afterChunk begun inStep word recvedWord

theorem Reading.call {stdcl : StdClient} (reading : Reading stdcl) (env : InboundEnv) :
    Reading (wtHandleInboundData env stdcl).stdcl := by
  have state := (wtHandleInboundData_acts env stdcl).clState
  rcases reading with gone | ⟨live, waiting⟩
  · exact .inl (state.elim (fun same => same.trans gone) id)
  · rcases (wtHandleInboundData_called env stdcl waiting).waiting live waiting with gone | still
    · exact .inl gone
    · exact state.elim (fun same => .inr ⟨same.trans live, still⟩) .inl

/-- Every client of a run waits or was cleaned up, and so was every client a call was made for. -/
theorem InboundRun.reading {start stdcl : StdClient} {calls : List (InboundEnv × StdClient)}
    (session : ReceivingSession start) (run : InboundRun start calls stdcl) :
    Reading stdcl ∧ ∀ call ∈ calls, Reading call.2 := by
  induction run with
  | start => exact ⟨session.reading, by simp⟩
  | between run between inductionHypothesis =>
    exact ⟨between.reading inductionHypothesis.1, inductionHypothesis.2⟩
  | call env run inductionHypothesis =>
    refine ⟨inductionHypothesis.1.call env, fun call member => ?_⟩
    rcases List.mem_append.mp member with earlier | now
    · exact inductionHypothesis.2 call earlier
    · rw [List.mem_singleton.mp now]
      exact inductionHypothesis.1

/-! ### Messages that are given up -/

/-- Where a call gives a message up before all of it was read, or because what it read as a header
does not start with the mark, the stream counts as out of step. -/
def GivesUpInStep (result : InboundResult) : Prop :=
  match result.exit with
  | .rejected _ gaveUp =>
    gaveUp.totalMsgDataRecved < gaveUp.expectedMsgSize ∨
      LwmpPdu.hdrMark gaveUp.recvbuf ≠ pduSyncHdrMark →
    result.stdcl.tempRecvStorage.isDesynced = true
  | .pduUnreachable gaveUp | .chunkUnreachable gaveUp =>
    gaveUp.totalMsgDataRecved < gaveUp.expectedMsgSize →
    result.stdcl.tempRecvStorage.isDesynced = true
  | _ => True

/-- The condition under which giving up the message of a first PDU does no harm: the checksum of its
header is wrong, or it has the mark and either fits into the PDU or is accepted and has a recipient
that can be reached. -/
def InboundEnv.GivesUpSafely (env : InboundEnv) (pdu : Bytes) : Prop :=
  env.verdict pdu = .crcerr ∨ LwmpPdu.hdrMark pdu = pduSyncHdrMark ∧
    (LwmpPdu.totalMsgSize pdu ≤ lwmpPduBufSize ∨ env.verdict pdu = .ok ∧ (env.recipient pdu).isSome)

/-- Only a file may be longer than its first PDU. -/
theorem ValidHdrs.short_or_file {pdu subject : Bytes} {hvfns : HdrValidationFns}
    (valid : ValidHdrs pdu subject hvfns) : LwmpPdu.totalMsgSize pdu ≤ lwmpPduBufSize ∨
      LwmpPdu.msgType pdu = MsgType.file.code :=
  or_iff_not_imp_right.mpr valid.textSize

theorem CurrRecvMsg.isDesynced_afterRejection (reason : HdrValidationStatus) :
    (afterRejection reason).isDesynced = true ↔ reason = .crcerr := by
  simp [afterRejection]

/-- A first PDU is read to its end, or the buffer is full. -/
theorem unread_iff {buf : Bytes} (header : lwmpHdrSize ≤ buf.length)
    (within : buf.length ≤ lwmpMaxPduSize) (ready : (CurrRecvMsg.opened buf).pduReady) :
    (CurrRecvMsg.opened buf).totalMsgDataRecved < (CurrRecvMsg.opened buf).expectedMsgSize ↔
      ¬ LwmpPdu.totalMsgSize buf ≤ lwmpPduBufSize := by
  simp only [CurrRecvMsg.pduReady, CurrRecvMsg.opened_expectedMsgSize,
    CurrRecvMsg.opened_totalMsgDataRecved, CurrRecvMsg.opened_recvbuf] at ready ⊢
  simp only [lwmpHdrSize, lwmpMaxPduSize, lwmpPduBufSize] at header within ready ⊢
  omega

/-- A call gives a message up in step exactly if its first PDU meets the condition. -/
theorem Called.givesUpInStep_iff {env : InboundEnv} {stdcl : StdClient} {result : InboundResult}
    (called : Called env stdcl result) :
    GivesUpInStep result ↔ ∀ pdu, pduRead stdcl = some pdu → (CurrRecvMsg.opened pdu).pduReady →
      env.GivesUpSafely pdu := by
  have nothing (unread : pduRead stdcl = none) : ∀ pdu, pduRead stdcl = some pdu →
      (CurrRecvMsg.opened pdu).pduReady → env.GivesUpSafely pdu := by
    intro pdu read
    rw [unread] at read
    cases read
  cases called with
  | disconnected gone => exact iff_of_true trivial (nothing (by rw [pduRead, if_pos gone]))
  | recvError receives fails unread => exact iff_of_true trivial (nothing unread)
  | notResynced receives out unread => exact iff_of_true trivial (nothing unread)
  | pduBlocked receives first waiting kept unread => exact iff_of_true trivial (nothing unread)
  | chunkBlocked receives begun short unread => exact iff_of_true trivial (nothing unread)
  | @notComplete bytes connection buf receives read header space overflows kept =>
    refine iff_of_true trivial fun pdu same ready => ?_
    obtain rfl := Option.some.inj (read.symm.trans same)
    rcases ready with all | full
    · simp only [CurrRecvMsg.opened_expectedMsgSize, CurrRecvMsg.opened_totalMsgDataRecved] at all
      simp only [lwmpHdrSize, lwmpMaxPduSize] at space overflows all
      omega
    · exact absurd full (by rw [CurrRecvMsg.opened_recvbuf]; omega)
  | @pdu bytes connection buf result receives read header within ready kept delivered =>
    have only : (∀ pdu, pduRead stdcl = some pdu → (CurrRecvMsg.opened pdu).pduReady →
        env.GivesUpSafely pdu) ↔ env.GivesUpSafely buf := by
      constructor
      · exact fun all => all buf read ready
      · intro safe pdu same _
        obtain rfl := Option.some.inj (read.symm.trans same)
        exact safe
    have unread := unread_iff header within ready
    rw [only]
    cases delivered with
    | @rejected after refused keeps left =>
      show (_ ∨ _ → after.tempRecvStorage.isDesynced = true) ↔ _
      rw [unread, left, CurrRecvMsg.isDesynced_afterRejection, CurrRecvMsg.opened_recvbuf]
      constructor
      · intro inStep
        by_cases harmless : LwmpPdu.totalMsgSize buf ≤ lwmpPduBufSize ∧
            LwmpPdu.hdrMark buf = pduSyncHdrMark
        · exact .inr ⟨harmless.2, .inl harmless.1⟩
        · exact .inl (inStep (not_and_or.mp harmless))
      · rintro (crc | ⟨mark, short | ⟨accepted, _⟩⟩)
        · exact fun _ => crc
        · rintro (long | noMark)
          · exact absurd short long
          · exact absurd mark noMark
        · exact absurd accepted refused
    | served accepted request keeps left =>
      refine iff_of_true trivial (.inr ?_)
      have valid := (lwmpValidateHdrs_ok_iff _ _ _).mp accepted
      refine ⟨valid.mark, .inl ?_⟩
      rcases valid.short_or_file with short | file
      · exact short
      · rw [request] at file
        cases file
    | @unreachable after accepted message gone keeps left =>
      show (_ → after.tempRecvStorage.isDesynced = true) ↔ _
      have valid := (lwmpValidateHdrs_ok_iff _ _ _).mp accepted
      rw [unread, left]
      constructor
      · intro inStep
        by_cases short : LwmpPdu.totalMsgSize buf ≤ lwmpPduBufSize
        · exact .inr ⟨valid.mark, .inl short⟩
        · cases inStep short
      · rintro (crc | ⟨_, short | ⟨_, found⟩⟩) long
        · rw [accepted] at crc
          cases crc
        · exact absurd short long
        · rw [gone] at found
          cases found
    | @forwarded after rcpt accepted message found keeps left =>
      have valid := (lwmpValidateHdrs_ok_iff _ _ _).mp accepted
      exact iff_of_true trivial (.inr ⟨valid.mark, .inr ⟨accepted, by rw [found]; rfl⟩⟩)
  | chunk receives begun full unread delivered =>
    refine iff_of_true ?_ (nothing unread)
    cases delivered with
    | unreachable gone keeps left =>
      intro _
      simp only [left]
      rfl
    | forwarded found keeps left => exact trivial

/-- A client whose stream is out of step reads a header only where `lwmp_stream_resync` found one. -/
theorem pduRead_of_desynced {stdcl : StdClient} {pdu : Bytes}
    (out : stdcl.tempRecvStorage = .desynced) (read : pduRead stdcl = some pdu) :
    ∃ searched more, lwmpStreamResync searched ≠ [] ∧ pdu = lwmpStreamResync searched ++ more := by
  have resync := inboundResync_resynced out
  rw [pduRead] at read
  split at read
  · cases read
  · generalize inboundResync stdcl = stage at resync read
    cases resync with
    | @located searched connection receives within kept =>
      have received := @inboundRecvPdu_received
        (stdcl.withRecv connection (.idle (lwmpStreamResync searched))) _
        (.idle ((length_lwmpStreamResync_le _).trans within))
      simp only [withRecv_tempRecvStorage, CurrRecvMsg.idle_notMsgInitPdu, Bool.false_eq_true,
        if_false] at read
      generalize inboundRecvPdu _ = stage at received read
      cases received with
      | hdrBlocked receives short => cases read
      | bodyBlocked receives header space unfinished => cases read
      | failed receives fails => cases read
      | notComplete receives header space overflows =>
        exact ⟨searched, _, kept, (Option.some.inj read).symm⟩
      | ready receives header within ready exact =>
        exact ⟨searched, _, kept, (Option.some.inj read).symm⟩
    | lost receives => cases read
    | failed receives fails => cases read

theorem CurrRecvMsg.Waiting.desynced_of_flag {msg : CurrRecvMsg} (waiting : msg.Waiting)
    (flag : msg.isDesynced = true) : msg = .desynced := by
  cases waiting with
  | idle short => cases flag
  | opened header space unfinished => cases flag
  | desynced => rfl
  | chunks begun inStep word recvedWord =>
    rw [inStep] at flag
    cases flag

/-- In every run, a call that gives a message up leaves the stream in step, or marked as out of step,
exactly if the first PDU of the message meets the condition; and a client that is marked reads a
header only where `lwmp_stream_resync` found one. -/
theorem abandoned_message_in_step_iff {start stdcl : StdClient}
    {calls : List (InboundEnv × StdClient)} (session : ReceivingSession start)
    (run : InboundRun start calls stdcl) : ∀ call ∈ calls,
      (GivesUpInStep (wtHandleInboundData call.1 call.2) ↔
        ∀ pdu, pduRead call.2 = some pdu → (CurrRecvMsg.opened pdu).pduReady →
          call.1.GivesUpSafely pdu) ∧
      (call.2.tempRecvStorage.isDesynced = true → ∀ pdu, pduRead call.2 = some pdu →
        ∃ searched more, lwmpStreamResync searched ≠ [] ∧
          pdu = lwmpStreamResync searched ++ more) := by
  rintro ⟨env, client⟩ member
  rcases (run.reading session).2 _ member with gone | ⟨live, waiting⟩
  · have called : Called env client (wtHandleInboundData env client) := by
      rw [wtHandleInboundData, if_pos gone]
      exact .disconnected gone
    have unread : pduRead client = none := by rw [pduRead, if_pos gone]
    exact ⟨called.givesUpInStep_iff, fun _ pdu read => absurd (unread.symm.trans read) (by simp)⟩
  · refine ⟨(wtHandleInboundData_called env client waiting).givesUpInStep_iff, fun flag pdu => ?_⟩
    exact pduRead_of_desynced (waiting.desynced_of_flag flag)

/-- A client of which the server receives some bytes at once. -/
def sendingClient (incoming : Bytes) : StdClient :=
  { createStdClient [127, 0, 0, 1] {
      incoming
      recvEvents := [.upTo 4096]
      recvAfter := .eblock
      accepted := []
      sendEvents := []
      sendAfter := .eblock } with
    clState := .authenticated
    username := strncpy unamesize (ofLiteral "ann") }

theorem sendingClient_session (incoming : Bytes) : ReceivingSession (sendingClient incoming) :=
  ⟨rfl, rfl⟩

/-- A server where every name belongs to a client that is there. -/
def everyoneIsHere : InboundEnv where
  validationTable := fun _ => some (1, .authenticated)
  forwardTable := fun _ => some (1, .authenticated)
  allowFileTransfers := true
  maxFilesizeB := 100000
  userList := []

/-- A header without the mark is given up, and the next byte is taken as a header. -/
theorem abandoned_message_out_of_step :
    ∃ start calls stdcl, ReceivingSession start ∧ InboundRun start calls stdcl ∧
      ∃ call ∈ calls, ¬ GivesUpInStep (wtHandleInboundData call.1 call.2) := by
  let sender := sendingClient (List.replicate lwmpHdrSize 0)
  have exit : (wtHandleInboundData everyoneIsHere sender).exit =
      .rejected .invalPdu (.opened (List.replicate lwmpHdrSize 0)) := by
    decide +kernel
  have flag : (wtHandleInboundData everyoneIsHere sender).stdcl.tempRecvStorage.isDesynced =
      false := by
    decide +kernel
  refine ⟨sender, _, _, sendingClient_session _, .call everyoneIsHere .start, _,
    List.mem_singleton_self _, fun inStep => ?_⟩
  simp only [GivesUpInStep, exit] at inStep
  rw [flag] at inStep
  exact absurd (inStep (.inr (by decide +kernel))) (by simp)

/-- A header whose message is a file that is too long for its PDU, and whose recipient is there. -/
def fileHeader : Bytes :=
  lwmpHdr MsgType.file.code (strncpy unamesize (ofLiteral "bob")) (List.replicate optdataLen 0) 5000

/-- A client that sends it with a byte that is not its own, and a part of the file behind it. -/
def damagedFileClient : StdClient :=
  let stdcl := sendingClient (fileHeader.set 40 1 ++ List.replicate 4015 7)
  { stdcl with connection := { stdcl.connection with recvEvents := List.replicate 2 (.upTo 4095) } }

/-- The file is given up before all of it was read, and the stream counts as out of step. -/
theorem abandoned_message_in_step_iff_damaged_file :
    (∃ reason gaveUp, (wtHandleInboundData everyoneIsHere damagedFileClient).exit =
        .rejected reason gaveUp ∧ gaveUp.totalMsgDataRecved < gaveUp.expectedMsgSize) ∧
      GivesUpInStep (wtHandleInboundData everyoneIsHere damagedFileClient) := by
  have executed : (match (wtHandleInboundData everyoneIsHere damagedFileClient).exit with
      | .rejected _ gaveUp => decide (gaveUp.totalMsgDataRecved < gaveUp.expectedMsgSize)
      | _ => false) = true ∧
      (pduRead damagedFileClient).map everyoneIsHere.verdict = some .crcerr := by
    decide +kernel
  obtain ⟨unread, verdict⟩ := executed
  have session : ReceivingSession damagedFileClient := ⟨rfl, rfl⟩
  have run : InboundRun damagedFileClient [(everyoneIsHere, damagedFileClient)]
      (wtHandleInboundData everyoneIsHere damagedFileClient).stdcl := .call everyoneIsHere .start
  constructor
  · split at unread
    · rename_i reason gaveUp exit
      exact ⟨reason, gaveUp, exit, of_decide_eq_true unread⟩
    · cases unread
  · rw [(abandoned_message_in_step_iff session run (everyoneIsHere, damagedFileClient)
      (List.mem_singleton_self _)).1]
    intro pdu read _
    rw [read] at verdict
    exact .inl (Option.some.inj verdict)

end Lwmsg
