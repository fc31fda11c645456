/-
This file looks at `curr_recv_msg` wherever `wt_handle_inbound_data` decides by it: at each test of
one of its four loops, and at the end of a call. It asks whether the counters are in range there: the
offset within the buffer, no more bytes received than expected, offset and counter in agreement, no
overflow of the sum with the size of a header, and no `recv_fn` for zero bytes.

The loops keep all of this. It can only be lost where the fields of a message are taken from its
header: the announced size may overflow the sum, and a buffer that a resynchronisation left may hold
more than the message.
-/

import Lwmsg.StopReading

namespace Lwmsg

open Bytes Pointers

/-! ### The tests of a loop -/

section Tests

variable {State : Type} {wanted : State → Option Nat} {received : State → Bytes → State}
  {room : State → Nat} {good : State → Prop}

/-- The states in which a loop tests whether it goes on, each with the length of the call of
`recv_fn` that follows. -/
def recvTurnsTests (wanted : State → Option Nat) (received : State → Bytes → State) :
    Nat → Conn → State → List (State × Option Nat)
  | 0, _, _ => []
  | turns + 1, connection, state =>
    (state, wanted state) ::
      match wanted state with
      | none => []
      | some len =>
        match connection.recvFn len with
        | (.error _, _) => []
        | (.ok bytes, connection) =>
          recvTurnsTests wanted received turns connection (received state bytes)

/-- The tests of `while (wanted) { recv_fn; received }`. -/
def recvWhileTests (wanted : State → Option Nat) (received : State → Bytes → State)
    (connection : Conn) (state : State) : List (State × Option Nat) :=
  recvTurnsTests wanted received (connection.recvEvents.length + 1) connection state

/-- The tests of `do { recv_fn; received } while (wanted)`, with the state before the first call. -/
def recvDoWhileTests (len : Nat) (wanted : State → Option Nat) (received : State → Bytes → State)
    (connection : Conn) (state : State) : List (State × Option Nat) :=
  (state, some len) ::
    match connection.recvFn len with
    | (.error _, _) => []
    | (.ok bytes, connection) => recvWhileTests wanted received connection (received state bytes)

/-- What is true at every test of a loop that fills up. -/
theorem Fills.mem_recvTurnsTests (fills : Fills wanted received room good) {turns : Nat}
    {connection : Conn} {state : State} (start : good state) {test : State × Option Nat}
    (member : test ∈ recvTurnsTests wanted received turns connection state) :
    ∃ bytes, bytes.length ≤ room state ∧ test.1 = received state bytes ∧
      test.2 = wanted test.1 ∧ test.2 ≠ some 0 := by
  have asks (state : State) (start : good state) : wanted state ≠ some 0 := by
    rw [fills.wanted_eq state start]
    split
    · exact (Option.some_ne_none 0).symm
    · rename_i space
      exact fun zero => space (Option.some.inj zero)
  induction turns generalizing connection state with
  | zero => exact absurd member List.not_mem_nil
  | succ turns inductionHypothesis =>
    rw [recvTurnsTests] at member
    rcases List.mem_cons.mp member with rfl | later
    · exact ⟨[], Nat.zero_le _, (fills.received_nil state start).symm, rfl, asks state start⟩
    · rw [fills.wanted_eq state start] at later
      split at later
      · exact absurd later List.not_mem_nil
      · rename_i len wants
        split at wants
        · cases wants
        · cases wants
          split at later
          · exact absurd later List.not_mem_nil
          · rename_i bytes after call
            obtain ⟨_, within, _⟩ := Conn.recvFn_ok call
            obtain ⟨more, fits, reached, tested, some⟩ := inductionHypothesis
              (fills.good_received state bytes start within) later
            rw [fills.room_received state bytes start within] at fits
            refine ⟨bytes ++ more, ?_, ?_, tested, some⟩
            · rw [List.length_append]
              omega
            · rw [reached, fills.received_append state bytes more start]

/-- The state a loop ends in is one it tested. -/
theorem recvTurns_state_tested {turns : Nat} {connection : Conn} {state : State}
    (enough : connection.recvEvents.length < turns) :
    ∃ len, ((recvTurns wanted received turns connection state).state, len) ∈
      recvTurnsTests wanted received turns connection state := by
  induction turns generalizing connection state with
  | zero => exact absurd enough (Nat.not_lt_zero _)
  | succ turns inductionHypothesis =>
    rw [recvTurns, recvTurnsTests]
    cases wants : wanted state with
    | none => exact ⟨none, List.mem_cons_self⟩
    | some len =>
      rcases call : connection.recvFn len with ⟨answer, after⟩
      cases answer with
      | error reason =>
        simp only [call]
        exact ⟨some len, List.mem_cons_self⟩
      | ok bytes =>
        obtain ⟨_, _, event, before⟩ := Conn.recvFn_ok call
        have fewer : after.recvEvents.length < turns := by
          rw [before, List.length_cons] at enough
          exact Nat.lt_of_succ_lt_succ enough
        obtain ⟨last, tested⟩ := @inductionHypothesis after (received state bytes) fewer
        simp only [call]
        exact ⟨last, List.mem_cons_of_mem _ tested⟩

theorem recvWhile_state_tested (connection : Conn) (state : State) :
    ∃ len, ((recvWhile wanted received connection state).state, len) ∈
      recvWhileTests wanted received connection state :=
  recvTurns_state_tested (Nat.lt_succ_self _)

theorem recvWhileTests_first (connection : Conn) (state : State) :
    (state, wanted state) ∈ recvWhileTests wanted received connection state :=
  List.mem_cons_self

/-- A loop that tests at its end makes the same tests where there is room at its start. -/
theorem Fills.recvDoWhileTests (fills : Fills wanted received room good) (connection : Conn)
    (state : State) (start : good state) (space : room state ≠ 0) :
    recvDoWhileTests (room state) wanted received connection state =
      recvWhileTests wanted received connection state := by
  have wants : wanted state = some (room state) := by
    rw [fills.wanted_eq state start, if_neg space]
  rw [Lwmsg.recvDoWhileTests, recvWhileTests, recvTurnsTests, wants]
  rcases call : connection.recvFn (room state) with ⟨answer, after⟩
  cases answer with
  | error reason => simp only [call]
  | ok bytes =>
    obtain ⟨_, _, event, before⟩ := Conn.recvFn_ok call
    have fewer : connection.recvEvents.length = after.recvEvents.length + 1 := by
      rw [before, List.length_cons]
    simp only [call, fewer, recvWhileTests]

end Tests

/-! ### What is looked at in a call -/

/-- A receive state at a place where the function decides by it: whether a header has been parsed
whose message is not finished, and the length of the call of `recv_fn` that follows. -/
structure Observed where
  parsed : Bool
  msg : CurrRecvMsg
  recvLength : Option Nat

/-- A header has been parsed, by the tests of the source. -/
def CurrRecvMsg.headerParsed (msg : CurrRecvMsg) : Bool :=
  msg.notMsgInitPdu || !(msg.msgType = 0 && msg.expectedMsgSize = 0)

/-- The tests of the loop that fills the buffer before a resynchronisation. -/
def resyncObserved (stdcl : StdClient) : List Observed :=
  if stdcl.tempRecvStorage.isDesynced then
    (recvDoWhileTests (lwmpMaxPduSize - stdcl.tempRecvStorage.recvbuf.length)
      CurrRecvMsg.resyncWanted CurrRecvMsg.received stdcl.connection stdcl.tempRecvStorage).map
        fun (msg, recvLength) => ⟨msg.headerParsed, msg, recvLength⟩
  else []

/-- The tests of the loop that completes a first PDU, behind its header. -/
def bodyObserved (stdcl : StdClient) : List Observed :=
  (recvWhileTests CurrRecvMsg.bodyWanted CurrRecvMsg.receivedPayload stdcl.connection
    stdcl.tempRecvStorage).map fun (msg, recvLength) => ⟨true, msg, recvLength⟩

/-- The tests in the branch for a first PDU. -/
def pduObserved (stdcl : StdClient) : List Observed :=
  (recvWhileTests CurrRecvMsg.hdrWanted CurrRecvMsg.received stdcl.connection
      stdcl.tempRecvStorage).map (fun (msg, recvLength) => ⟨msg.headerParsed, msg, recvLength⟩) ++
    match inboundRecv CurrRecvMsg.hdrWanted CurrRecvMsg.received stdcl with
    | .leave _ _ => []
    | .go stdcl => bodyObserved { stdcl with tempRecvStorage := stdcl.tempRecvStorage.startMsg }

/-- The tests of the loop for the rest of a message. -/
def chunkObserved (stdcl : StdClient) : List Observed :=
  (recvWhileTests CurrRecvMsg.chunkWanted CurrRecvMsg.receivedPayload stdcl.connection
    stdcl.tempRecvStorage).map fun (msg, recvLength) => ⟨true, msg, recvLength⟩

/-- The tests of all loops of a call. -/
def loopsObserved (stdcl : StdClient) : List Observed :=
  if stdcl.clState = .disconnected then []
  else
    resyncObserved stdcl ++
      match inboundResync stdcl with
      | .leave _ _ => []
      | .go stdcl =>
        if ¬ stdcl.tempRecvStorage.notMsgInitPdu then pduObserved stdcl else chunkObserved stdcl

/-- What a call leaves. Where `recv_fn` failed this is a state that a loop tested. -/
def restObserved (result : InboundResult) : List Observed :=
  if result.exit = .disconnected ∨ result.exit = .recvError then []
  else [⟨result.stdcl.tempRecvStorage.headerParsed, result.stdcl.tempRecvStorage, none⟩]

/-- All that is looked at in a call. -/
def inboundObserved (env : InboundEnv) (stdcl : StdClient) : List Observed :=
  loopsObserved stdcl ++ restObserved (wtHandleInboundData env stdcl)

/-! ### Counters in range -/

/-- The counters of a message whose header was parsed. -/
structure CurrRecvMsg.CountersInRange (msg : CurrRecvMsg) : Prop where
  recved : msg.totalMsgDataRecved ≤ msg.expectedMsgSize
  first : msg.notMsgInitPdu = false → msg.recvbuf.length = lwmpHdrSize + msg.totalMsgDataRecved
  chunk : msg.notMsgInitPdu = true → msg.recvbuf.length ≤ lwmpChunkBufSize
  noWrap : lwmpHdrSize + msg.expectedMsgSize < 2 ^ 64

/-- The counters of a receive state are in range, and no `recv_fn` is called for zero bytes. -/
structure Observed.InRange (observed : Observed) : Prop where
  buffered : observed.msg.recvbuf.length ≤ lwmpMaxPduSize
  counters : observed.parsed = true → observed.msg.CountersInRange
  asks : observed.recvLength ≠ some 0

/-- The condition on the buffer with which a first PDU is handled: its announced size does not
overflow the sum with the size of its header, and nothing lies behind its announced end. -/
structure PduInRange (pdu : Bytes) : Prop where
  noWrap : lwmpHdrSize + LwmpPdu.totalMsgSize pdu < 2 ^ 64
  exact : pdu.length ≤ lwmpHdrSize + LwmpPdu.totalMsgSize pdu

/-! ### The first PDU of a message -/

/-- What a stage of the branch for a first PDU brings to the test in front of the validation. -/
def InboundStage.bufRead : InboundStage → Option Bytes
  | .go stdcl | .leave .notComplete stdcl => some stdcl.tempRecvStorage.recvbuf
  | .leave _ _ => none

/-- Where nothing is tested and no PDU is read, nothing is out of range. -/
theorem nothing_inRange_iff : (∀ observed ∈ ([] : List Observed), observed.InRange) ↔
    ∀ pdu, (none : Option Bytes) = some pdu → PduInRange pdu :=
  iff_of_true (fun _ member => absurd member List.not_mem_nil)
    fun _ read => absurd read.symm (Option.some_ne_none _)

theorem inRange_opened_iff {buf : Bytes} {recvLength : Option Nat} (header : lwmpHdrSize ≤ buf.length)
    (within : buf.length ≤ lwmpMaxPduSize) (asks : recvLength ≠ some 0) :
    Observed.InRange ⟨true, .opened buf, recvLength⟩ ↔ PduInRange buf := by
  constructor
  · rintro ⟨_, counters, _⟩
    obtain ⟨recved, _, _, noWrap⟩ := counters rfl
    simp only [CurrRecvMsg.opened_totalMsgDataRecved, CurrRecvMsg.opened_expectedMsgSize]
      at recved noWrap
    exact ⟨noWrap, by omega⟩
  · rintro ⟨noWrap, exact⟩
    refine ⟨within, fun _ => ⟨?_, fun _ => ?_, fun begun => ?_, noWrap⟩, asks⟩
    · simp only [CurrRecvMsg.opened_totalMsgDataRecved, CurrRecvMsg.opened_expectedMsgSize]
      omega
    · simp only [CurrRecvMsg.opened_totalMsgDataRecved, CurrRecvMsg.opened_recvbuf]
      omega
    · cases begun

/-- Bytes that the loop for a first PDU adds keep it in range. -/
theorem pduInRange_append_iff {buf bytes : Bytes} (header : lwmpHdrSize ≤ buf.length)
    (fits : bytes.length ≤ (CurrRecvMsg.opened buf).bodyRoom) :
    PduInRange (buf ++ bytes) ↔ PduInRange buf := by
  have size : LwmpPdu.totalMsgSize (buf ++ bytes) = LwmpPdu.totalMsgSize buf :=
    LwmpPdu.totalMsgSize_append header
  have lengths : (buf ++ bytes).length = buf.length + bytes.length := List.length_append
  constructor
  · rintro ⟨noWrap, exact⟩
    rw [size] at noWrap exact
    exact ⟨noWrap, by omega⟩
  · rintro ⟨noWrap, exact⟩
    have room := @CurrRecvMsg.bodyRoom_of_small (.opened buf) noWrap
    rw [CurrRecvMsg.opened_recvbuf, CurrRecvMsg.opened_expectedMsgSize] at room
    exact ⟨by rwa [size], by rw [size]; omega⟩

/-- Where the loop for a first PDU still takes bytes, the PDU is in range. -/
theorem pduInRange_of_room {buf : Bytes} (header : lwmpHdrSize ≤ buf.length)
    (within : buf.length ≤ lwmpMaxPduSize) (space : (CurrRecvMsg.opened buf).bodyRoom ≠ 0) :
    PduInRange buf := by
  have noWrap : lwmpHdrSize + LwmpPdu.totalMsgSize buf < 2 ^ 64 := by
    by_contra large
    exact space (CurrRecvMsg.bodyRoom_of_large (inFirstPdu_opened header within) (not_lt.mp large))
  have room := @CurrRecvMsg.bodyRoom_of_small (.opened buf) noWrap
  rw [CurrRecvMsg.opened_recvbuf, CurrRecvMsg.opened_expectedMsgSize] at room
  exact ⟨noWrap, by omega⟩

/-- A loop without room left does nothing. -/
theorem inboundRecv_full {wanted : CurrRecvMsg → Option Nat}
    {received : CurrRecvMsg → Bytes → CurrRecvMsg} {room : CurrRecvMsg → Nat}
    {good : CurrRecvMsg → Prop} (fills : Fills wanted received room good) {stdcl : StdClient}
    (start : good stdcl.tempRecvStorage) (full : room stdcl.tempRecvStorage = 0) :
    inboundRecv wanted received stdcl = .go stdcl := by
  rw [inboundRecv, fills.recvWhile_full _ _ start full]
  rfl

section FirstPdu

variable {stdcl : StdClient} {buf : Bytes}

/-- The tests behind a header are in range exactly if the PDU is. -/
theorem bodyObserved_inRange_iff (start : stdcl.tempRecvStorage = .opened buf)
    (header : lwmpHdrSize ≤ buf.length) (within : buf.length ≤ lwmpMaxPduSize) :
    (∀ observed ∈ bodyObserved stdcl, observed.InRange) ↔ PduInRange buf := by
  have good : stdcl.tempRecvStorage.InFirstPdu := start ▸ inFirstPdu_opened header within
  constructor
  · intro inRange
    have first : (stdcl.tempRecvStorage, CurrRecvMsg.bodyWanted stdcl.tempRecvStorage) ∈
        recvWhileTests CurrRecvMsg.bodyWanted CurrRecvMsg.receivedPayload stdcl.connection
          stdcl.tempRecvStorage := recvWhileTests_first _ _
    have tested := inRange _ (List.mem_map_of_mem first)
    rw [start] at tested
    exact (inRange_opened_iff header within tested.asks).mp tested
  · intro pdu observed member
    obtain ⟨⟨msg, recvLength⟩, tested, rfl⟩ := List.mem_map.mp member
    obtain ⟨bytes, fits, reached, _, asks⟩ := CurrRecvMsg.bodyFills.mem_recvTurnsTests good tested
    rw [start] at fits reached
    have roomLe : (CurrRecvMsg.opened buf).bodyRoom ≤ lwmpMaxPduSize - buf.length := by
      rw [CurrRecvMsg.bodyRoom, CurrRecvMsg.opened_recvbuf]
      omega
    have lengths : (buf ++ bytes).length = buf.length + bytes.length := List.length_append
    have state : msg = .opened (buf ++ bytes) := by
      refine reached.trans (CurrRecvMsg.opened_receivedPayload header ?_)
      simp only [lwmpMaxPduSize] at within roomLe
      omega
    rw [state]
    refine (inRange_opened_iff (by omega) (by omega) asks).mpr ?_
    exact (pduInRange_append_iff header fits).mpr pdu

/-- What the branch brings to the validation behind a header is in range exactly if the PDU is. -/
theorem bufRead_body_iff (start : stdcl.tempRecvStorage = .opened buf)
    (header : lwmpHdrSize ≤ buf.length) (within : buf.length ≤ lwmpMaxPduSize) :
    (∀ pdu, (inboundRecvBody stdcl).bufRead = some pdu → PduInRange pdu) ↔ PduInRange buf := by
  have good : stdcl.tempRecvStorage.InFirstPdu := start ▸ inFirstPdu_opened header within
  by_cases full : (CurrRecvMsg.opened buf).bodyRoom = 0
  · have read : (inboundRecvBody stdcl).bufRead = some buf := by
      rw [inboundRecvBody, inboundRecv_full CurrRecvMsg.bodyFills good (by rw [start, full])]
      dsimp only
      split
      · rw [InboundStage.bufRead, start]
        rfl
      · rw [InboundStage.bufRead, start]
        rfl
    constructor
    · exact fun all => all buf read
    · intro pdu other same
      obtain rfl := Option.some.inj (read.symm.trans same)
      exact pdu
  · have inRange := pduInRange_of_room header within full
    refine iff_of_true (fun pdu read => ?_) inRange
    have size (bytes : Bytes) : LwmpPdu.totalMsgSize (buf ++ bytes) = LwmpPdu.totalMsgSize buf :=
      LwmpPdu.totalMsgSize_append header
    have received := inboundRecvBody_received start header within
    generalize inboundRecvBody stdcl = stage at received read
    cases received with
    | hdrBlocked receives short => cases read
    | bodyBlocked receives inside space unfinished => cases read
    | failed receives fails => cases read
    | notComplete receives inside space overflows =>
      rw [size] at overflows
      exact absurd inRange.noWrap (not_lt.mpr overflows)
    | @ready bytes connection receives inside fits ready exact =>
      obtain rfl : buf ++ bytes = pdu := Option.some.inj read
      refine ⟨by rw [size]; exact inRange.noWrap, ?_⟩
      rcases exact with exact | ⟨rfl, _⟩
      · exact exact
      · rw [List.append_nil]
        exact inRange.exact

/-- The states in front of a complete header are in range. -/
theorem hdrTests_inRange (start : stdcl.tempRecvStorage = .idle buf)
    (within : buf.length ≤ lwmpMaxPduSize) : ∀ test ∈ recvWhileTests CurrRecvMsg.hdrWanted
      CurrRecvMsg.received stdcl.connection stdcl.tempRecvStorage,
      Observed.InRange ⟨test.1.headerParsed, test.1, test.2⟩ := by
  rintro ⟨msg, recvLength⟩ tested
  obtain ⟨bytes, fits, reached, _, asks⟩ := CurrRecvMsg.hdrFills.mem_recvTurnsTests trivial tested
  rw [start] at fits reached
  have state : msg = .idle (buf ++ bytes) := reached
  rw [state]
  refine ⟨?_, fun parsed => absurd parsed Bool.false_ne_true, asks⟩
  rw [CurrRecvMsg.idle_recvbuf] at fits ⊢
  rw [List.length_append]
  simp only [lwmpHdrSize, lwmpMaxPduSize] at fits within ⊢
  omega

/-- All tests of the branch are in range exactly if the PDU it brings to the validation is. -/
theorem pduObserved_inRange_iff (start : PduStart stdcl.tempRecvStorage buf) :
    (∀ observed ∈ pduObserved stdcl, observed.InRange) ↔
      ∀ pdu, (inboundRecvPdu stdcl).bufRead = some pdu → PduInRange pdu := by
  have unfolded : inboundRecvPdu stdcl =
      match inboundRecv CurrRecvMsg.hdrWanted CurrRecvMsg.received stdcl with
      | .leave exit stdcl => .leave exit stdcl
      | .go stdcl => inboundRecvBody
        (stdcl.withRecv stdcl.connection stdcl.tempRecvStorage.startMsg) := rfl
  have looped := inboundRecv_looped CurrRecvMsg.hdrFills stdcl trivial
  rw [unfolded, pduObserved, List.forall_mem_append, List.forall_mem_map]
  generalize held : stdcl.tempRecvStorage = msg at start
  cases start with
  | idle within =>
    rw [← held, and_iff_right (hdrTests_inRange held within)]
    rw [held] at looped
    generalize inboundRecv CurrRecvMsg.hdrWanted CurrRecvMsg.received stdcl = stage at looped ⊢
    cases looped with
    | @full bytes connection receives length =>
      rw [CurrRecvMsg.idle_recvbuf] at length
      have lengths : (buf ++ bytes).length = buf.length + bytes.length := List.length_append
      simp only [lwmpHdrSize, lwmpMaxPduSize] at length within
      have header : lwmpHdrSize ≤ (buf ++ bytes).length := by
        simp only [lwmpHdrSize]
        omega
      have inside : (buf ++ bytes).length ≤ lwmpMaxPduSize := by
        simp only [lwmpMaxPduSize]
        omega
      exact (bodyObserved_inRange_iff rfl header inside).trans
        (bufRead_body_iff rfl header inside).symm
    | blocked receives short =>
      exact nothing_inRange_iff
    | failed receives fails =>
      exact nothing_inRange_iff
  | opened header space unfinished =>
    have stays : stdcl.tempRecvStorage.startMsg = .opened buf := by
      rw [held, CurrRecvMsg.opened_startMsg unfinished]
    have none : lwmpHdrSize - stdcl.tempRecvStorage.recvbuf.length = 0 := by
      rw [held, CurrRecvMsg.opened_recvbuf]
      omega
    rw [inboundRecv_full CurrRecvMsg.hdrFills trivial none]
    have body := @bodyObserved_inRange_iff
      { stdcl with tempRecvStorage := stdcl.tempRecvStorage.startMsg } buf stays header space.le
    have read := @bufRead_body_iff
      (stdcl.withRecv stdcl.connection stdcl.tempRecvStorage.startMsg) buf stays header space.le
    refine Iff.trans ?_ (body.trans read.symm)
    refine and_iff_right_of_imp fun inRange => ?_
    -- The loop for the header only tests, and it sees what the loop behind it starts with.
    rintro ⟨msg, recvLength⟩ tested
    obtain ⟨bytes, fits, reached, _, asks⟩ := CurrRecvMsg.hdrFills.mem_recvTurnsTests trivial tested
    rw [CurrRecvMsg.opened_recvbuf] at fits
    obtain rfl : bytes = [] := List.eq_nil_of_length_eq_zero (by omega)
    have state : msg = .opened buf := reached.trans (CurrRecvMsg.hdrFills.received_nil _ trivial)
    rw [state]
    have pdu := (inRange_opened_iff header space.le asks).mpr (body.mp inRange)
    exact ⟨pdu.buffered, fun _ => pdu.counters rfl, asks⟩

end FirstPdu

/-! ### One call -/

section Call

variable {env : InboundEnv} {stdcl : StdClient} {result : InboundResult}

/-- The tests in front of a resynchronisation are in range. -/
theorem resyncObserved_inRange (waiting : stdcl.tempRecvStorage.Waiting) :
    ∀ observed ∈ resyncObserved stdcl, observed.InRange := by
  intro observed member
  rw [resyncObserved] at member
  split at member
  · rename_i flag
    have out := waiting.desynced_of_flag flag
    have start : stdcl.tempRecvStorage.recvbuf.length ≤ lwmpMaxPduSize := by
      rw [out]
      decide
    rw [CurrRecvMsg.resyncFills.recvDoWhileTests stdcl.connection stdcl.tempRecvStorage start
      (by rw [out]; decide)] at member
    obtain ⟨⟨msg, recvLength⟩, tested, rfl⟩ := List.mem_map.mp member
    obtain ⟨bytes, fits, reached, _, asks⟩ := CurrRecvMsg.resyncFills.mem_recvTurnsTests start tested
    rw [out] at fits reached
    have state : msg = { CurrRecvMsg.desynced with recvbuf := bytes } := reached
    rw [state]
    exact ⟨fits.trans (Nat.sub_le _ _), fun parsed => absurd parsed Bool.false_ne_true, asks⟩
  · exact absurd member List.not_mem_nil

/-- In a call that is not in the middle of a message, all tests are in range exactly if the PDU it
brings to the validation is. -/
theorem loopsObserved_inRange_iff (live : stdcl.clState ≠ .disconnected)
    (waiting : stdcl.tempRecvStorage.Waiting) (first : stdcl.tempRecvStorage.notMsgInitPdu = false) :
    (∀ observed ∈ loopsObserved stdcl, observed.InRange) ↔
      ∀ pdu, pduRead stdcl = some pdu → PduInRange pdu := by
  have resync := resyncObserved_inRange waiting
  have read : pduRead stdcl = match inboundResync stdcl with
      | .leave _ _ => none
      | .go stdcl =>
        if stdcl.tempRecvStorage.notMsgInitPdu then none else (inboundRecvPdu stdcl).bufRead := by
    rw [pduRead, if_neg live]
    rfl
  rw [loopsObserved, if_neg live, List.forall_mem_append, and_iff_right resync, read]
  have atPdu {client : StdClient} {buf : Bytes} (start : PduStart client.tempRecvStorage buf)
      (first : client.tempRecvStorage.notMsgInitPdu = false) (went : inboundResync stdcl = .go client) :
      (∀ observed ∈ (match inboundResync stdcl with
        | .leave _ _ => []
        | .go stdcl =>
          if ¬ stdcl.tempRecvStorage.notMsgInitPdu then pduObserved stdcl else chunkObserved stdcl),
          observed.InRange) ↔
        ∀ pdu, (match inboundResync stdcl with
          | .leave _ _ => none
          | .go stdcl =>
            if stdcl.tempRecvStorage.notMsgInitPdu then none
            else (inboundRecvPdu stdcl).bufRead) = some pdu → PduInRange pdu := by
    rw [went]
    simp only [first, Bool.false_eq_true, not_false_eq_true, if_true, if_false]
    exact pduObserved_inRange_iff start
  have inStep (flag : stdcl.tempRecvStorage.isDesynced = false) : inboundResync stdcl = .go stdcl :=
    inboundResync_of_inStep flag
  generalize held : stdcl.tempRecvStorage = msg at waiting first
  cases waiting with
  | @idle buf short =>
    have within : buf.length ≤ lwmpMaxPduSize := short.le.trans (by decide)
    exact @atPdu stdcl buf (by rw [held]; exact .idle within) (by rw [held]; rfl)
      (inStep (by rw [held]; rfl))
  | @opened buf header space unfinished =>
    exact @atPdu stdcl buf (by rw [held]; exact .opened header space unfinished)
      (by rw [held]; rfl) (inStep (by rw [held]; rfl))
  | desynced =>
    have stage := inboundResync_resynced held
    generalize reached : inboundResync stdcl = stage at stage
    cases stage with
    | located receives within kept =>
      rw [← reached]
      exact atPdu (.idle ((length_lwmpStreamResync_le _).trans within)) rfl reached
    | lost receives =>
      exact nothing_inRange_iff
    | failed receives fails =>
      exact nothing_inRange_iff
  | chunks begun inStep word recvedWord =>
    rw [first] at begun
    cases begun

/-- Bytes of a chunk keep the counters in range. -/
theorem CurrRecvMsg.CountersInRange.receivedPayload {msg : CurrRecvMsg} {bytes : Bytes}
    (counters : msg.CountersInRange) (begun : msg.notMsgInitPdu = true)
    (fits : bytes.length ≤ msg.chunkRoom) : (msg.receivedPayload bytes).CountersInRange := by
  obtain ⟨recved, _, chunk, noWrap⟩ := counters
  have small := chunk begun
  have words : msg.Counters := ⟨by omega, by omega⟩
  have total := CurrRecvMsg.receivedPayload_totalMsgDataRecved words fits
  rw [CurrRecvMsg.chunkRoom] at fits
  refine ⟨?_, fun first => ?_, fun _ => ?_, noWrap⟩
  · rw [total]
    show _ ≤ msg.expectedMsgSize
    omega
  · have first : msg.notMsgInitPdu = false := first
    rw [begun] at first
    cases first
  · show (msg.recvbuf ++ bytes).length ≤ lwmpChunkBufSize
    rw [List.length_append]
    omega

/-- In the middle of a message, all tests are in range. -/
theorem loopsObserved_inRange_chunk (live : stdcl.clState ≠ .disconnected)
    (waiting : stdcl.tempRecvStorage.Waiting) (begun : stdcl.tempRecvStorage.notMsgInitPdu = true)
    (counters : stdcl.tempRecvStorage.CountersInRange) :
    ∀ observed ∈ loopsObserved stdcl, observed.InRange := by
  have went := inboundResync_of_inStep (waiting.inStep begun)
  intro observed member
  rw [loopsObserved, if_neg live] at member
  rcases List.mem_append.mp member with resync | chunk
  · exact resyncObserved_inRange waiting observed resync
  · rw [went] at chunk
    simp only [begun, not_true_eq_false, if_false] at chunk
    obtain ⟨⟨msg, recvLength⟩, tested, rfl⟩ := List.mem_map.mp chunk
    obtain ⟨bytes, fits, reached, _, asks⟩ :=
      CurrRecvMsg.chunkFills.mem_recvTurnsTests (waiting.counters begun) tested
    have state : msg = stdcl.tempRecvStorage.receivedPayload bytes := reached
    have after := counters.receivedPayload begun fits
    rw [state]
    refine ⟨?_, fun _ => after, asks⟩
    exact (after.chunk begun).trans (by decide)

/-- A loop that leaves because nothing more is there leaves a state it tested. -/
theorem inboundRecv_blocked_tested {wanted : CurrRecvMsg → Option Nat}
    {received : CurrRecvMsg → Bytes → CurrRecvMsg} {after : StdClient}
    (leaves : inboundRecv wanted received stdcl = .leave .blocked after) :
    ∃ len, (after.tempRecvStorage, len) ∈
      recvWhileTests wanted received stdcl.connection stdcl.tempRecvStorage := by
  have tested := @recvWhile_state_tested _ wanted received stdcl.connection stdcl.tempRecvStorage
  unfold inboundRecv at leaves
  dsimp only at leaves
  split at leaves
  · cases leaves
  · cases leaves
    exact tested
  · cases leaves

theorem inboundRecvPdu_blocked_observed {after : StdClient}
    (leaves : inboundRecvPdu stdcl = .leave .blocked after) :
    ∃ observed ∈ pduObserved stdcl, observed.msg = after.tempRecvStorage ∧
      (observed.msg.headerParsed = true → observed.parsed = true) := by
  unfold pduObserved
  rcases inboundRecvPdu_blockedLoop leaves with hdr | ⟨next, hdr, body⟩
  · obtain ⟨len, tested⟩ := inboundRecv_blocked_tested hdr
    exact ⟨_, List.mem_append_left _ (List.mem_map_of_mem tested), rfl, id⟩
  · obtain ⟨len, tested⟩ := inboundRecv_blocked_tested body
    rw [hdr]
    exact ⟨_, List.mem_append_right _ (List.mem_map_of_mem tested), rfl, fun _ => rfl⟩

/-- Where a call leaves because nothing more is there, it leaves a state that a loop tested. -/
theorem blocked_observed (blocked : (wtHandleInboundData env stdcl).exit = .blocked) :
    ∃ observed ∈ loopsObserved stdcl,
      observed.msg = (wtHandleInboundData env stdcl).stdcl.tempRecvStorage ∧
        (observed.msg.headerParsed = true → observed.parsed = true) := by
  obtain ⟨present, branch⟩ := wtHandleInboundData_blockedBranch blocked
  rw [loopsObserved, if_neg present]
  generalize (wtHandleInboundData env stdcl).stdcl = left at branch ⊢
  cases branch with
  | pdu went first leaves =>
    obtain ⟨observed, member, state, parsed⟩ := inboundRecvPdu_blocked_observed leaves
    refine ⟨observed, List.mem_append_right _ ?_, state, parsed⟩
    simp only [went, first, Bool.false_eq_true, not_false_eq_true, if_true]
    exact member
  | chunk went begun leaves =>
    obtain ⟨len, tested⟩ := inboundRecv_blocked_tested leaves
    refine ⟨⟨true, _, len⟩, List.mem_append_right _ ?_, rfl, fun _ => rfl⟩
    simp only [went, begun, not_true_eq_false, if_false]
    exact List.mem_map_of_mem tested

/-- A state without a message is in range. -/
theorem inRange_of_unparsed {msg : CurrRecvMsg} (empty : msg.recvbuf = [])
    (unparsed : msg.headerParsed = false) : Observed.InRange ⟨msg.headerParsed, msg, none⟩ where
  buffered := by
    show msg.recvbuf.length ≤ lwmpMaxPduSize
    rw [empty]
    exact Nat.zero_le _
  counters := fun parsed => absurd parsed (by
    show ¬ msg.headerParsed = true
    rw [unparsed]
    exact Bool.false_ne_true)
  asks := (Option.some_ne_none 0).symm

theorem inRange_fresh : Observed.InRange ⟨CurrRecvMsg.fresh.headerParsed, .fresh, none⟩ :=
  inRange_of_unparsed rfl rfl

theorem inRange_afterRejection (reason : HdrValidationStatus) :
    Observed.InRange ⟨(CurrRecvMsg.afterRejection reason).headerParsed, .afterRejection reason, none⟩ :=
  inRange_of_unparsed rfl rfl

/-- Where a message goes on behind its first PDU, its counters are in range with those of the PDU. -/
theorem inRange_afterPdu {buf : Bytes} (pdu : PduInRange buf) :
    Observed.InRange ⟨({ CurrRecvMsg.opened buf with recvbuf := [] }.afterPdu).headerParsed,
      { CurrRecvMsg.opened buf with recvbuf := [] }.afterPdu, none⟩ := by
  rw [CurrRecvMsg.afterPdu]
  split
  · exact inRange_fresh
  · refine ⟨Nat.zero_le _, fun _ => ⟨?_, fun first => ?_, fun _ => Nat.zero_le _, pdu.noWrap⟩,
      (Option.some_ne_none 0).symm⟩
    · have exact := pdu.exact
      show buf.length - lwmpHdrSize ≤ LwmpPdu.totalMsgSize buf
      omega
    · cases first

theorem inRange_afterChunk {msg : CurrRecvMsg} (begun : msg.notMsgInitPdu = true)
    (counters : msg.CountersInRange) :
    Observed.InRange ⟨({ msg with recvbuf := [] }.afterChunk).headerParsed,
      { msg with recvbuf := [] }.afterChunk, none⟩ := by
  rw [CurrRecvMsg.afterChunk]
  split
  · exact inRange_fresh
  · refine ⟨Nat.zero_le _, fun _ => ⟨counters.recved, fun first => ?_, fun _ => Nat.zero_le _,
      counters.noWrap⟩, (Option.some_ne_none 0).symm⟩
    have first : msg.notMsgInitPdu = false := first
    rw [begun] at first
    cases first

/-- What a call leaves is in range, if its tests are and the PDU it brings to the validation is. -/
theorem restObserved_inRange (waiting : stdcl.tempRecvStorage.Waiting)
    (counters : stdcl.tempRecvStorage.notMsgInitPdu = true → stdcl.tempRecvStorage.CountersInRange)
    (safe : ∀ pdu, pduRead stdcl = some pdu → PduInRange pdu)
    (loops : ∀ observed ∈ loopsObserved stdcl, observed.InRange) :
    ∀ observed ∈ restObserved (wtHandleInboundData env stdcl), observed.InRange := by
  have blocked (exit : (wtHandleInboundData env stdcl).exit = .blocked) :
      Observed.InRange ⟨(wtHandleInboundData env stdcl).stdcl.tempRecvStorage.headerParsed,
        (wtHandleInboundData env stdcl).stdcl.tempRecvStorage, none⟩ := by
    obtain ⟨observed, member, left, parsed⟩ := blocked_observed exit
    have inRange := loops observed member
    rw [← left]
    exact ⟨inRange.buffered, fun flags => inRange.counters (parsed flags),
      (Option.some_ne_none 0).symm⟩
  intro observed member
  rw [restObserved] at member
  split at member
  · exact absurd member List.not_mem_nil
  · rename_i stays
    rw [List.mem_singleton.mp member]
    have called := wtHandleInboundData_called env stdcl waiting
    generalize wtHandleInboundData env stdcl = result at called blocked stays ⊢
    cases called with
    | disconnected gone => exact absurd (.inl rfl) stays
    | recvError receives fails unread => exact absurd (.inr rfl) stays
    | notResynced receives out unread => exact inRange_of_unparsed rfl rfl
    | pduBlocked receives first waiting kept unread opening => exact blocked rfl
    | chunkBlocked receives begun short unread => exact blocked rfl
    | notComplete receives read header space overflows kept =>
      exact absurd (safe _ read).noWrap (not_lt.mpr overflows)
    | @pdu bytes connection buf result receives read header within ready kept delivered =>
      have pdu := safe buf read
      cases delivered with
      | rejected refused keeps left =>
        rw [left]
        exact inRange_afterRejection _
      | served accepted request keeps left =>
        rw [left, afterPdu_of_request header ready accepted request pdu.exact]
        exact inRange_fresh
      | unreachable accepted message gone keeps left =>
        rw [left]
        exact inRange_fresh
      | forwarded accepted message found keeps left =>
        rw [left]
        exact inRange_afterPdu pdu
    | @chunk bytes connection result receives begun full unread delivered =>
      have after := (counters begun).receivedPayload begun full.le
      cases delivered with
      | unreachable gone keeps left =>
        rw [left]
        exact inRange_of_unparsed rfl rfl
      | forwarded found keeps left =>
        rw [left]
        exact inRange_afterChunk begun after

end Call

/-! ### Runs -/

/-- The counters of a message in the middle are in range, while the client is there. -/
def MiddleInRange (stdcl : StdClient) : Prop :=
  stdcl.clState = .authenticated → stdcl.tempRecvStorage.notMsgInitPdu = true →
    stdcl.tempRecvStorage.CountersInRange

/-- Every PDU that a call brings to the validation is in range. -/
def PdusInRange (calls : List (InboundEnv × StdClient)) : Prop :=
  ∀ call ∈ calls, ∀ pdu, pduRead call.2 = some pdu → PduInRange pdu

section Runs

variable {env : InboundEnv} {start stdcl : StdClient} {calls : List (InboundEnv × StdClient)}

/-- All that is looked at in a call is in range. -/
theorem inboundObserved_inRange (reading : Reading stdcl) (middle : MiddleInRange stdcl)
    (safe : ∀ pdu, pduRead stdcl = some pdu → PduInRange pdu) :
    ∀ observed ∈ inboundObserved env stdcl, observed.InRange := by
  rw [inboundObserved, List.forall_mem_append]
  rcases reading with gone | ⟨live, waiting⟩
  · rw [loopsObserved, if_pos gone, wtHandleInboundData, if_pos gone]
    exact ⟨fun _ member => absurd member List.not_mem_nil,
      fun _ member => absurd member List.not_mem_nil⟩
  · have present : stdcl.clState ≠ .disconnected := live.trans_ne (by decide)
    have loops : ∀ observed ∈ loopsObserved stdcl, observed.InRange := by
      cases begun : stdcl.tempRecvStorage.notMsgInitPdu with
      | false => exact (loopsObserved_inRange_iff present waiting begun).mpr safe
      | true => exact loopsObserved_inRange_chunk present waiting begun (middle live begun)
    exact ⟨loops, restObserved_inRange waiting (middle live) safe loops⟩

/-- What a call leaves of a message in the middle is in range. -/
theorem middleInRange_call (reading : Reading stdcl)
    (inRange : ∀ observed ∈ inboundObserved env stdcl, observed.InRange) :
    MiddleInRange (wtHandleInboundData env stdcl).stdcl := by
  intro live begun
  have exits : ¬ ((wtHandleInboundData env stdcl).exit = .disconnected ∨
      (wtHandleInboundData env stdcl).exit = .recvError) := by
    rcases reading with gone | ⟨_, waiting⟩
    · rw [wtHandleInboundData, if_pos gone, gone] at live
      cases live
    · have called := wtHandleInboundData_called env stdcl waiting
      generalize wtHandleInboundData env stdcl = result at called live
      cases called with
      | disconnected gone =>
        rw [gone] at live
        cases live
      | recvError receives fails unread =>
        exact absurd live (cleanupStdClient_not_authenticated _)
      | notResynced receives out unread => simp
      | pduBlocked receives first waiting kept unread opening => simp
      | chunkBlocked receives begun short unread => simp
      | notComplete receives read header space overflows kept => simp
      | pdu receives read header within ready kept delivered => cases delivered <;> simp
      | chunk receives begun full unread delivered => cases delivered <;> simp
  have member : ⟨(wtHandleInboundData env stdcl).stdcl.tempRecvStorage.headerParsed,
      (wtHandleInboundData env stdcl).stdcl.tempRecvStorage, none⟩ ∈ inboundObserved env stdcl := by
    rw [inboundObserved, restObserved, if_neg exits]
    exact List.mem_append_right _ (List.mem_singleton_self _)
  refine (inRange _ member).counters ?_
  show (wtHandleInboundData env stdcl).stdcl.tempRecvStorage.headerParsed = true
  rw [CurrRecvMsg.headerParsed, begun, Bool.true_or]

theorem BetweenCalls.middleInRange {before after : StdClient} (between : BetweenCalls before after)
    (middle : MiddleInRange before) : MiddleInRange after := by
  intro live
  rcases between.state with same | gone
  · rw [between.storage]
    exact middle (same.symm.trans live)
  · rw [gone] at live
    cases live

/-- In a run whose PDUs are in range, everything is in range. -/
theorem InboundRun.inRange (session : ReceivingSession start) (run : InboundRun start calls stdcl)
    (safe : PdusInRange calls) : MiddleInRange stdcl ∧
      ∀ call ∈ calls, ∀ observed ∈ inboundObserved call.1 call.2, observed.InRange := by
  induction run with
  | start =>
    refine ⟨fun _ begun => ?_, fun _ member => absurd member List.not_mem_nil⟩
    rw [session.fresh] at begun
    cases begun
  | between run between inductionHypothesis =>
    obtain ⟨middle, calls⟩ := inductionHypothesis safe
    exact ⟨between.middleInRange middle, calls⟩
  | @call calls stdcl env run inductionHypothesis =>
    obtain ⟨middle, earlier⟩ := inductionHypothesis fun call member =>
      safe call (List.mem_append_left _ member)
    have reading := (run.reading session).1
    have now : ∀ observed ∈ inboundObserved env stdcl, observed.InRange :=
      inboundObserved_inRange reading middle
        (safe _ (List.mem_append_right calls (List.mem_singleton_self _)))
    refine ⟨middleInRange_call reading now, fun call member => ?_⟩
    rcases List.mem_append.mp member with old | new
    · exact earlier call old
    · rw [List.mem_singleton.mp new]
      exact now

/-- In every run, all that is looked at is in range exactly if each PDU that a call brings to the
validation is: its announced size does not overflow the sum with the size of its header, and the
buffer holds nothing behind its announced end. -/
theorem reassembly_counters_in_range_iff (session : ReceivingSession start)
    (run : InboundRun start calls stdcl) :
    (∀ call ∈ calls, ∀ observed ∈ inboundObserved call.1 call.2, observed.InRange) ↔
      PdusInRange calls := by
  constructor
  · intro inRange call member pdu read
    have loops : ∀ observed ∈ loopsObserved call.2, observed.InRange :=
      fun observed inside => inRange call member observed (List.mem_append_left _ inside)
    rcases (run.reading session).2 call member with gone | ⟨live, waiting⟩
    · rw [pduRead, if_pos gone] at read
      cases read
    · have present : call.2.clState ≠ .disconnected := live.trans_ne (by decide)
      cases begun : call.2.tempRecvStorage.notMsgInitPdu with
      | false => exact (loopsObserved_inRange_iff present waiting begun).mp loops pdu read
      | true =>
        rw [pduRead_of_begun (waiting.inStep begun) begun] at read
        cases read
  · exact fun safe => (run.inRange session safe).2

end Runs

/-- The client behind the call that forwards the first of its two messages. -/
def oneTextLeft : StdClient := (wtHandleInboundData everyoneIsHere textAndEmptyClient).stdcl

/-- Both messages are received and forwarded. -/
theorem reassembly_counters_in_range_iff_text_and_empty :
    pduRead textAndEmptyClient = some textMessage ∧ pduRead oneTextLeft = some emptyMessage ∧
      (∀ observed ∈ inboundObserved everyoneIsHere textAndEmptyClient, observed.InRange) ∧
      ∀ observed ∈ inboundObserved everyoneIsHere oneTextLeft, observed.InRange := by
  have executed : pduRead textAndEmptyClient = some textMessage ∧
      pduRead oneTextLeft = some emptyMessage := by
    decide +kernel
  obtain ⟨first, second⟩ := executed
  have run : InboundRun textAndEmptyClient
      [(everyoneIsHere, textAndEmptyClient), (everyoneIsHere, oneTextLeft)]
      (wtHandleInboundData everyoneIsHere oneTextLeft).stdcl :=
    .call everyoneIsHere (.call everyoneIsHere .start)
  have safe : PdusInRange [(everyoneIsHere, textAndEmptyClient), (everyoneIsHere, oneTextLeft)] := by
    unfold PdusInRange
    simp only [List.forall_mem_cons, first, second, Option.some.injEq, forall_eq']
    exact ⟨⟨by decide +kernel, by decide +kernel⟩, ⟨by decide +kernel, by decide +kernel⟩,
      fun _ none => absurd none List.not_mem_nil⟩
  have inRange := (reassembly_counters_in_range_iff textAndEmptyClient_session run).mpr safe
  simp only [List.forall_mem_cons] at inRange
  exact ⟨first, second, inRange.1, inRange.2.1⟩

/-- A client that sends a corrupt header, and behind it a message and one more byte. -/
def trailingClient : StdClient :=
  let stdcl := sendingClient (corruptHeader ++ emptyMessage ++ [0])
  { stdcl with connection := { stdcl.connection with recvEvents := List.replicate 2 (.upTo 4095) } }

/-- The client behind the call that rejects the corrupt header. -/
def desyncedClient : StdClient := (wtHandleInboundData everyoneIsHere trailingClient).stdcl

/-- An announced size overflows the sum with the size of the header; and behind a resynchronisation
a message goes on that has received more than is expected of it. -/
theorem reassembly_counters_out_of_range :
    (∃ observed ∈ inboundObserved everyoneIsHere (sendingClient overflowingHeader),
      observed.parsed = true ∧ 2 ^ 64 ≤ lwmpHdrSize + observed.msg.expectedMsgSize ∧
        ¬ observed.InRange) ∧
      ReceivingSession trailingClient ∧
      InboundRun trailingClient
        [(everyoneIsHere, trailingClient), (everyoneIsHere, desyncedClient)]
        (wtHandleInboundData everyoneIsHere desyncedClient).stdcl ∧
      (wtHandleInboundData everyoneIsHere desyncedClient).exit.status = .stopBorder ∧
      (wtHandleInboundData everyoneIsHere desyncedClient).stdcl.tempRecvStorage.expectedMsgSize <
        (wtHandleInboundData everyoneIsHere desyncedClient).stdcl.tempRecvStorage.totalMsgDataRecved ∧
      ∃ observed ∈ inboundObserved everyoneIsHere desyncedClient, ¬ observed.InRange := by
  have overflow : (inboundObserved everyoneIsHere (sendingClient overflowingHeader)).any
      (fun observed => observed.parsed &&
        decide (2 ^ 64 ≤ lwmpHdrSize + observed.msg.expectedMsgSize)) = true := by
    decide +kernel
  have exceeds : (inboundObserved everyoneIsHere desyncedClient).any
      (fun observed => observed.parsed &&
        decide (observed.msg.expectedMsgSize < observed.msg.totalMsgDataRecved)) = true := by
    decide +kernel
  refine ⟨?_, ⟨rfl, rfl⟩, .call _ (.call _ .start), by decide +kernel, by decide +kernel, ?_⟩
  · obtain ⟨observed, member, parsed⟩ := List.any_eq_true.mp overflow
    obtain ⟨parsed, large⟩ := Bool.and_eq_true_iff.mp parsed
    have large := of_decide_eq_true large
    exact ⟨observed, member, parsed, large,
      fun inRange => absurd (inRange.counters parsed).noWrap (not_lt.mpr large)⟩
  · obtain ⟨observed, member, parsed⟩ := List.any_eq_true.mp exceeds
    obtain ⟨parsed, more⟩ := Bool.and_eq_true_iff.mp parsed
    have more := of_decide_eq_true more
    exact ⟨observed, member,
      fun inRange => absurd (inRange.counters parsed).recved (not_le.mpr more)⟩

end Lwmsg
