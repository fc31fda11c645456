/-
This file proves when the loop of `clrecv_parse` ends. Each turn that goes on takes
bytes from the buffer: the two branches that resynchronise keep an end of it that does
not start where the buffer did, and the two branches that hand a frame over remove the
frame. Only where the size that a PDU announces and the size of its header do not fit
into 64 bits together, the sum wraps around, and the turn removes too little.
-/

import Lwmsg.Clrecv

namespace Lwmsg

open Bytes

/-! ### What is claimed of a call -/

/-- The buffer starts with a header in order, of a PDU that is no file, and the sum of its size and
of what it announces does not fit into a `uint64_t`. -/
structure AnnouncesTooMuch (recvBuf : Bytes) : Prop where
  header : lwmpHdrSize ≤ recvBuf.length
  mark : LwmpPdu.hdrMark recvBuf = pduSyncHdrMark
  crc : LwmpPdu.crcMatches recvBuf = true
  noFile : LwmpPdu.msgType recvBuf ≠ MsgType.file.code
  large : 2 ^ 64 - lwmpHdrSize ≤ LwmpPdu.totalMsgSize recvBuf

/-- A turn computes `total_needed` without a wrap-around, removes no more than there is, and where
the loop goes on, at least one byte. -/
structure TurnShortens (ctx : ClientCtx) : Prop where
  pduExact : ∀ wirePayload totalNeeded, clrecvTurn ctx.recvBuf = .pdu wirePayload totalNeeded →
    totalNeeded = lwmpHdrSize + wirePayload ∧ totalNeeded ≤ ctx.recvBuf.length
  chunkExact : ∀ totalNeeded, clrecvTurn ctx.recvBuf = .chunk totalNeeded →
    totalNeeded ≤ ctx.recvBuf.length
  shortens : ∀ handled next, clrecvStep ctx = some (handled, next) →
    next.recvBuf.length < ctx.recvBuf.length

/-- A call ends, and all its turns shorten the buffer. -/
structure ParseEnds (ctx : ClientCtx) : Prop where
  ends : ∃ handled next, clrecvParse ctx = some (handled, next)
  turns : ∀ visited, ClrecvVisits ctx visited → TurnShortens visited

/-! ### The branches of a turn -/

section Turns

variable {recvBuf : Bytes} {ctx next : ClientCtx} {handled : Handled}

theorem hdrMark_of_starts (starts : beHdrMark <+: recvBuf) :
    LwmpPdu.hdrMark recvBuf = pduSyncHdrMark := by
  obtain ⟨rest, rfl⟩ := starts
  have four : 4 ≤ beHdrMark.length := by decide
  rw [hdrMark_of_four four]
  decide

/-- A buffer that does not start with a mark gets shorter. -/
theorem length_lwmpStreamResync_lt (some : recvBuf ≠ [])
    (unmarked : ¬ beHdrMark <+: recvBuf) : (lwmpStreamResync recvBuf).length < recvBuf.length := by
  refine lt_of_le_of_ne (length_lwmpStreamResync_le recvBuf) fun same => ?_
  have kept := (lwmpStreamResync_suffix recvBuf).eq_of_length same
  refine unmarked ?_
  have starts := (lwmpStreamResync_candidate recvBuf (by rwa [kept])).1
  rwa [kept] at starts

/-- Where its first byte is zero, the buffer does not start with a mark. -/
theorem not_prefix_set_zero (recvBuf : Bytes) : ¬ beHdrMark <+: recvBuf.set 0 0 := by
  rw [beHdrMark_eq]
  rintro ⟨rest, equal⟩
  cases recvBuf with
  | nil => simp at equal
  | cons byte more => simp at equal

/-- What a turn has found, for each of its decisions. -/
inductive TurnFound (recvBuf : Bytes) : ClrecvTurn → Prop
  | wait : TurnFound recvBuf .wait
  | crcMismatch (four : 4 ≤ recvBuf.length) : TurnFound recvBuf .crcMismatch
  | pdu (header : lwmpHdrSize ≤ recvBuf.length) (mark : LwmpPdu.hdrMark recvBuf = pduSyncHdrMark)
      (crc : LwmpPdu.crcMatches recvBuf = true)
      (enough : (lwmpHdrSize + wirePayload recvBuf) % 2 ^ 64 ≤ recvBuf.length) :
      TurnFound recvBuf
        (.pdu (wirePayload recvBuf) ((lwmpHdrSize + wirePayload recvBuf) % 2 ^ 64))
  | chunk {totalNeeded} (some : lwmpChunkHdrSize ≤ totalNeeded)
      (enough : totalNeeded ≤ recvBuf.length) : TurnFound recvBuf (.chunk totalNeeded)
  | noMark (four : 4 ≤ recvBuf.length) (noPdu : LwmpPdu.hdrMark recvBuf ≠ pduSyncHdrMark) :
      TurnFound recvBuf .noMark

theorem clrecvTurn_found (recvBuf : Bytes) : TurnFound recvBuf (clrecvTurn recvBuf) := by
  by_cases short : recvBuf.length < 4
  · rw [clrecvTurn, if_pos short]
    exact .wait
  · have four := not_lt.mp short
    by_cases mark : LwmpPdu.hdrMark recvBuf = pduSyncHdrMark
    · by_cases part : recvBuf.length < lwmpHdrSize
      · rw [clrecvTurn, if_neg short, if_pos mark, if_pos part]
        exact .wait
      · cases crc : LwmpPdu.crcMatches recvBuf with
        | false =>
          rw [clrecvTurn, if_neg short, if_pos mark, if_neg part, crc, if_pos (by simp)]
          exact .crcMismatch four
        | true =>
          rw [clrecvTurn_pdu (not_lt.mp part) mark crc]
          split
          · exact .wait
          · rename_i enough
            exact .pdu (not_lt.mp part) mark crc (not_lt.mp enough)
    · by_cases chunk : LwmpChunk.chHdrMark recvBuf = chunkSyncHdrMark
      · by_cases part : recvBuf.length < lwmpChunkHdrSize
        · rw [clrecvTurn, if_neg short, if_neg mark, if_pos chunk, if_pos part]
          exact .wait
        · rw [clrecvTurn_chunk (not_lt.mp part) mark chunk]
          split
          · exact .wait
          · rename_i enough
            exact .chunk (Nat.le_add_right _ _) (not_lt.mp enough)
      · rw [clrecvTurn, if_neg short, if_neg mark, if_neg chunk]
        exact .noMark four mark

/-- What a PDU announces fits, unless it is too much: a file announces no more than a buffer. -/
theorem fits_of_not_announcesTooMuch (header : lwmpHdrSize ≤ recvBuf.length)
    (mark : LwmpPdu.hdrMark recvBuf = pduSyncHdrMark) (crc : LwmpPdu.crcMatches recvBuf = true)
    (fair : ¬ AnnouncesTooMuch recvBuf) : lwmpHdrSize + wirePayload recvBuf < 2 ^ 64 := by
  rw [wirePayload]
  split
  · decide
  · rename_i whole
    by_contra large
    refine fair ⟨header, mark, crc, fun file => ?_, ?_⟩
    · have small := not_and.mp whole file
      simp only [lwmpHdrSize, lwmpPduBufSize, lwmpMaxPduSize] at small large
      omega
    · simp only [lwmpHdrSize] at large ⊢
      omega

/-- Such a turn shortens the buffer. -/
theorem turnShortens_of_fair (fair : ¬ AnnouncesTooMuch ctx.recvBuf) : TurnShortens ctx := by
  have found := clrecvTurn_found ctx.recvBuf
  have exact (wire totalNeeded : Nat) (turn : clrecvTurn ctx.recvBuf = .pdu wire totalNeeded) :
      totalNeeded = lwmpHdrSize + wire ∧ totalNeeded ≤ ctx.recvBuf.length := by
    rw [turn] at found
    cases found with
    | pdu header mark crc enough =>
      have fits := fits_of_not_announcesTooMuch header mark crc fair
      exact ⟨Nat.mod_eq_of_lt fits, enough⟩
  have chunkExact (totalNeeded : Nat) (turn : clrecvTurn ctx.recvBuf = .chunk totalNeeded) :
      lwmpChunkHdrSize ≤ totalNeeded ∧ totalNeeded ≤ ctx.recvBuf.length := by
    rw [turn] at found
    cases found with
    | chunk some enough => exact ⟨some, enough⟩
  refine ⟨exact, fun _ turn => (chunkExact _ turn).2, fun handled next step => ?_⟩
  rw [clrecvStep] at step
  cases turn : clrecvTurn ctx.recvBuf with
  | wait =>
    rw [turn] at step
    cases step
  | crcMismatch =>
    rw [turn] at step found
    obtain ⟨_, rfl⟩ := Prod.mk.inj (Option.some.inj step)
    cases found with
    | crcMismatch four =>
      have shorter := length_lwmpStreamResync_lt ?_ (not_prefix_set_zero ctx.recvBuf)
      · rwa [List.length_set] at shorter
      · exact List.ne_nil_of_length_pos (by rw [List.length_set]; omega)
  | pdu wire totalNeeded =>
    rw [turn] at step
    obtain ⟨_, rfl⟩ := Prod.mk.inj (Option.some.inj step)
    obtain ⟨needed, enough⟩ := exact wire totalNeeded turn
    have same := (processReceivedPdu_terminated ctx wire).1.length
    simp only [lwmpHdrSize] at needed
    rw [List.length_drop, same]
    omega
  | chunk totalNeeded =>
    rw [turn] at step
    obtain ⟨_, rfl⟩ := Prod.mk.inj (Option.some.inj step)
    obtain ⟨some, enough⟩ := chunkExact totalNeeded turn
    simp only [lwmpChunkHdrSize] at some
    rw [List.length_drop]
    omega
  | noMark =>
    rw [turn] at step found
    obtain ⟨_, rfl⟩ := Prod.mk.inj (Option.some.inj step)
    cases found with
    | noMark four noPdu =>
      exact length_lwmpStreamResync_lt (List.ne_nil_of_length_pos (by omega))
        fun starts => noPdu (hdrMark_of_starts starts)

/-- A turn that comes to a PDU which announces too much computes a wrong sum. -/
theorem AnnouncesTooMuch.not_turnShortens (tooMuch : AnnouncesTooMuch ctx.recvBuf) :
    ¬ TurnShortens ctx := by
  intro turns
  have wire : wirePayload ctx.recvBuf = LwmpPdu.totalMsgSize ctx.recvBuf :=
    if_neg fun file => tooMuch.noFile file.1
  have large := tooMuch.large
  have word := LwmpPdu.totalMsgSize_lt ctx.recvBuf
  have header := tooMuch.header
  simp only [lwmpHdrSize] at large header
  have turn := clrecvTurn_pdu tooMuch.header tooMuch.mark tooMuch.crc
  rw [wire, if_neg (by simp only [lwmpHdrSize]; omega)] at turn
  have exact := (turns.pduExact _ _ turn).1
  simp only [lwmpHdrSize] at exact
  omega

/-- Where each turn shortens the buffer, there are at most as many turns as bytes. -/
theorem clrecvParseTurns_ends {turns : Nat} (enough : ctx.recvBuf.length < turns)
    (shorten : ∀ visited, ClrecvVisits ctx visited → TurnShortens visited) :
    ∃ handled next, clrecvParseTurns turns ctx = some (handled, next) := by
  induction turns generalizing ctx with
  | zero => omega
  | succ turns inductionHypothesis =>
    rw [clrecvParseTurns]
    cases step : clrecvStep ctx with
    | none => exact ⟨_, _, rfl⟩
    | some result =>
      obtain ⟨handled, next⟩ := result
      have shorter := (shorten ctx .here).shortens handled next step
      obtain ⟨more, last, ends⟩ := inductionHypothesis (by omega)
        fun visited visits => shorten visited (.later step visits)
      exact ⟨handled :: more, last, by simp only [ends, Option.map_some]⟩

end Turns

/-- A call of `clrecv_parse` ends, and shortens the buffer with each turn that goes on, exactly where
no turn comes to a header in order of a PDU that is no file and announces so much that the sum with
the size of the header wraps around. -/
theorem clrecv_parse_ends_iff (ctx : ClientCtx) :
    ParseEnds ctx ↔ ∀ visited, ClrecvVisits ctx visited → ¬ AnnouncesTooMuch visited.recvBuf := by
  constructor
  · intro ends visited visits tooMuch
    exact tooMuch.not_turnShortens (ends.turns visited visits)
  · intro fair
    have shorten (visited : ClientCtx) (visits : ClrecvVisits ctx visited) :
        TurnShortens visited := turnShortens_of_fair (fair visited visits)
    exact ⟨clrecvParseTurns_ends (Nat.lt_succ_self _) shorten, shorten⟩

/-- A text message that announces `2 ^ 64 - 81` bytes. -/
def endlessText : ClientCtx where
  connection := (readingClient [] []).connection
  connected := true
  recvBuf := lwmpHdr MsgType.msg.code (strncpy unamesize (ofLiteral "bob"))
    (List.replicate optdataLen 0) (2 ^ 64 - 81)
  awaitingResp := false
  lastRespCode := 0
  sendingChunks := false
  transferError := false

/-- It needs no bytes at all, so the loop takes it again and again. -/
theorem clrecv_parse_never_ends : (∀ turns, clrecvParseTurns turns endlessText = none) ∧
    ¬ ParseEnds endlessText := by
  have again : (clrecvStep endlessText).map (·.2) = some endlessText := by decide +kernel
  obtain ⟨⟨handled, next⟩, step, same⟩ := Option.map_eq_some_iff.mp again
  obtain rfl : next = endlessText := same
  have never (turns : Nat) : clrecvParseTurns turns endlessText = none := by
    induction turns with
    | zero => rfl
    | succ turns inductionHypothesis =>
      rw [clrecvParseTurns, step]
      simp only [inductionHypothesis, Option.map_none]
  refine ⟨never, fun ends => ?_⟩
  obtain ⟨_, _, ends⟩ := ends.ends
  rw [clrecvParse, never] at ends
  cases ends

end Lwmsg
