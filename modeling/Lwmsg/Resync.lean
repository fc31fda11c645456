/-
This file is about `lwmp_stream_resync` as it works on memory: the loop moves what it
found to the start of the buffer, overwrites the first byte of a candidate that fails
its checksum, and searches again. It proves that the loop ends, that it computes the
answer of `lwmpStreamResync`, and which header of the stream that is.
-/

import Lwmsg.Lwmp

namespace Lwmsg

open Bytes

/-! ### The loop in memory -/

/-- What one turn of the loop does: it returns a length, or it goes on with a shorter stream. Both
leave the memory from `buf` on. -/
inductive ResyncTurn
  | returns (buf : Bytes) (newSize : Nat)
  | goesOn (buf : Bytes) (bufSize : Nat)
  deriving DecidableEq, Repr

/-- One turn of `lwmp_stream_resync`: `memmem`, `memmove` and the test of the checksum. -/
def lwmpStreamResyncTurn (buf : Bytes) (bufSize : Nat) : ResyncTurn :=
  match memmem beHdrMark (buf.take bufSize) with
  | none => .returns buf 0
  | some hdrMark =>
    let newSize := hdrMark.length
    let buf := hdrMark ++ buf.drop newSize
    if lwmpHdrSize ≤ newSize ∧ ¬ LwmpPdu.crcMatches buf then .goesOn (buf.set 0 0) newSize
    else .returns buf newSize

/-- The loop, if it returns within so many turns: the memory it leaves and what it returns. -/
def lwmpStreamResyncTurns : Nat → Bytes → Nat → Option (Bytes × Nat)
  | 0, _, _ => none
  | turns + 1, buf, bufSize =>
    match lwmpStreamResyncTurn buf bufSize with
    | .returns buf newSize => some (buf, newSize)
    | .goesOn buf bufSize => lwmpStreamResyncTurns turns buf bufSize

section Memory

variable {stream behind found : Bytes}

theorem lwmpStreamResyncTurn_none (search : memmem beHdrMark stream = none) :
    lwmpStreamResyncTurn (stream ++ behind) stream.length = .returns (stream ++ behind) 0 := by
  unfold lwmpStreamResyncTurn
  rw [List.take_left, search]

/-- A turn that finds a candidate moves it to the start; the memory behind the stream is not
touched. -/
theorem lwmpStreamResyncTurn_some (search : memmem beHdrMark stream = some found) :
    ∃ old, (found ++ old).length = stream.length ∧
      lwmpStreamResyncTurn (stream ++ behind) stream.length =
        if lwmpHdrSize ≤ found.length ∧ ¬ LwmpPdu.crcMatches found then
          .goesOn (found.set 0 0 ++ (old ++ behind)) found.length
        else .returns (found ++ (old ++ behind)) found.length := by
  have shorter := (memmem_suffix search).length_le
  have marked := (memmem_starts search).length_le
  have some : found ≠ [] := by
    rintro rfl
    rw [beHdrMark_eq] at marked
    cases marked
  refine ⟨stream.drop found.length, ?_, ?_⟩
  · rw [List.length_append, List.length_drop]
    omega
  · have moved : (stream ++ behind).drop found.length = stream.drop found.length ++ behind :=
      List.drop_append_of_le_length shorter
    have overwritten : (found ++ (stream.drop found.length ++ behind)).set 0 0 =
        found.set 0 0 ++ (stream.drop found.length ++ behind) :=
      List.set_append_left 0 0 (List.length_pos_iff.mpr some)
    unfold lwmpStreamResyncTurn
    rw [List.take_left, search]
    simp only [moved, overwritten]
    by_cases complete : lwmpHdrSize ≤ found.length
    · rw [LwmpPdu.crcMatches_append complete]
    · rw [if_neg fun rejected => complete rejected.1, if_neg fun rejected => complete rejected.1]

theorem lwmpStreamResync_set_zero (starts : beHdrMark <+: found) :
    lwmpStreamResync (found.set 0 0) = lwmpStreamResync found.tail := by
  rw [lwmpStreamResync_eq, memmem_set_zero starts, ← lwmpStreamResync_eq]

/-- The loop returns as soon as it has had a turn for each byte of the first candidate, and it leaves
what `lwmpStreamResync` answers at the start of the buffer. -/
theorem lwmpStreamResyncTurns_returns (turns : Nat)
    (enough : ∀ found, memmem beHdrMark stream = some found → found.length < turns + 1) :
    ∃ left, (lwmpStreamResync stream ++ left).length = (stream ++ behind).length ∧
      behind <:+ left ∧
      lwmpStreamResyncTurns (turns + 1) (stream ++ behind) stream.length =
        some (lwmpStreamResync stream ++ left, (lwmpStreamResync stream).length) := by
  induction turns generalizing stream behind with
  | zero =>
    cases search : memmem beHdrMark stream with
    | none =>
      rw [lwmpStreamResyncTurns, lwmpStreamResyncTurn_none search, lwmpStreamResync_eq, search]
      exact ⟨stream ++ behind, rfl, List.suffix_append _ _, rfl⟩
    | some found =>
      have marked := (memmem_starts search).length_le
      have short := enough found search
      rw [beHdrMark_eq] at marked
      simp only [List.length_cons, List.length_nil] at marked
      omega
  | succ turns inductionHypothesis =>
    cases search : memmem beHdrMark stream with
    | none =>
      rw [lwmpStreamResyncTurns, lwmpStreamResyncTurn_none search, lwmpStreamResync_eq, search]
      exact ⟨stream ++ behind, rfl, List.suffix_append _ _, rfl⟩
    | some found =>
      obtain ⟨old, whole, turn⟩ := @lwmpStreamResyncTurn_some _ behind _ search
      have lengths : (stream ++ behind).length = (found ++ (old ++ behind)).length := by
        rw [← List.append_assoc, List.length_append, List.length_append, whole]
      have starts := memmem_starts search
      rw [lwmpStreamResyncTurns, turn, lwmpStreamResync_eq, search]
      simp only
      split
      · -- the next candidate starts behind the one that was rejected
        have later : ∀ next, memmem beHdrMark (found.set 0 0) = some next →
            next.length < turns + 1 := by
          intro next follows
          rw [memmem_set_zero starts] at follows
          have shorter := (memmem_suffix follows).length_le
          have first := enough found search
          have tail := length_tail_lt_of_mark (memmem_of_starts starts)
          omega
        obtain ⟨left, same, kept, returns⟩ :=
          @inductionHypothesis _ (old ++ behind) later
        rw [lwmpStreamResync_set_zero starts] at same returns
        rw [List.length_set] at returns
        refine ⟨left, ?_, (List.suffix_append _ _).trans kept, returns⟩
        rw [same, lengths, List.length_append, @List.length_append _ found, List.length_set]
      · exact ⟨old ++ behind, lengths.symm, List.suffix_append _ _, rfl⟩

end Memory

/-! ### Which header it finds -/

/-- The mark lies in a stream at an offset. -/
def MarkAt (stream : Bytes) (offset : Nat) : Prop := beHdrMark <+: stream.drop offset

/-- What a mark begins may be a header: it is not complete yet, or its checksum is right. -/
def Plausible (header : Bytes) : Prop :=
  header.length < lwmpHdrSize ∨ LwmpPdu.crcMatches header = true

/-- The first mark of a stream that may begin a header. -/
structure FirstPlausible (stream : Bytes) (offset : Nat) : Prop where
  mark : MarkAt stream offset
  accepted : Plausible (stream.drop offset)
  first : ∀ earlier < offset, MarkAt stream earlier → ¬ Plausible (stream.drop earlier)

theorem not_plausible_iff {header : Bytes} :
    ¬ Plausible header ↔ lwmpHdrSize ≤ header.length ∧ ¬ LwmpPdu.crcMatches header := by
  rw [Plausible, not_or, not_lt]

/-- The resynchronisation keeps the stream from the first plausible header on, or nothing if it has
none. -/
theorem lwmpStreamResync_first (stream : Bytes) :
    (∀ offset, MarkAt stream offset → ¬ Plausible (stream.drop offset)) ∧
        lwmpStreamResync stream = [] ∨
      ∃ offset, FirstPlausible stream offset ∧ lwmpStreamResync stream = stream.drop offset := by
  induction length : stream.length using Nat.strong_induction_on generalizing stream with
  | _ count inductionHypothesis =>
    rw [lwmpStreamResync_eq]
    cases search : memmem beHdrMark stream with
    | none =>
      have nowhere := memmem_eq_none_iff.mp search
      exact .inl ⟨fun offset mark => absurd mark (nowhere offset), rfl⟩
    | some found =>
      have shorter := length_tail_lt_of_mark search
      obtain ⟨offset, rfl, mark, first⟩ := memmem_first search
      simp only
      split
      · rename_i incorrect
        have rejected := not_plausible_iff.mpr incorrect
        have tail : (stream.drop offset).tail = stream.drop (offset + 1) := List.tail_drop
        have behind (later : Nat) :
            (stream.drop (offset + 1)).drop later = stream.drop (offset + 1 + later) := by
          rw [List.drop_drop]
        -- a mark of the stream lies behind the rejected one, or it is this one
        have rejects (bound : Nat) (rest : ∀ later < bound,
            MarkAt (stream.drop (offset + 1)) later →
              ¬ Plausible ((stream.drop (offset + 1)).drop later)) :
            ∀ earlier < offset + 1 + bound, MarkAt stream earlier →
              ¬ Plausible (stream.drop earlier) := by
          intro earlier before lies
          rcases Nat.lt_trichotomy earlier offset with less | same | more
          · exact absurd lies (first earlier less)
          · rw [same]
            exact rejected
          · obtain ⟨later, rfl⟩ : ∃ later, earlier = offset + 1 + later :=
              ⟨earlier - (offset + 1), by omega⟩
            have rest := rest later (by omega)
            rw [MarkAt, behind] at rest
            exact rest lies
        rw [tail] at shorter ⊢
        rcases inductionHypothesis _ (by omega) (stream.drop (offset + 1)) rfl with
          ⟨none, empty⟩ | ⟨later, found, kept⟩
        · refine .inl ⟨fun earlier => ?_, empty⟩
          exact rejects (earlier + 1) (fun later _ => none later) earlier (by omega)
        · refine .inr ⟨offset + 1 + later, ⟨?_, ?_, rejects later found.first⟩, ?_⟩
          · rw [MarkAt, ← behind]
            exact found.mark
          · rw [← behind]
            exact found.accepted
          · rw [kept, behind]
      · rename_i correct
        have accepted := not_not.mp fun rejected => correct (not_plausible_iff.mp rejected)
        exact .inr ⟨offset, ⟨mark, accepted,
          fun earlier before lies => absurd lies (first earlier before)⟩, rfl⟩

/-- A stream in which a mark begins a plausible header is not thrown away. -/
theorem FirstPlausible.kept_ne_nil {stream : Bytes} {offset : Nat}
    (found : FirstPlausible stream offset) : stream.drop offset ≠ [] := by
  intro empty
  have mark := found.mark
  rw [MarkAt, empty, beHdrMark_eq] at mark
  exact absurd mark.length_le (by decide)

/-- `lwmp_stream_resync` returns for every buffer. It returns zero exactly if every mark in it begins
a complete header with a wrong checksum. Otherwise it returns the length of the stream from the first
other mark on, and leaves exactly these bytes at the start of the buffer; what lies behind the stream
is not touched. -/
theorem lwmp_stream_resync_first_plausible (stream behind : Bytes) :
    ∃ turns buf newSize,
      lwmpStreamResyncTurns turns (stream ++ behind) stream.length = some (buf, newSize) ∧
      (newSize = 0 ↔ ∀ offset, MarkAt stream offset →
        lwmpHdrSize ≤ (stream.drop offset).length ∧
          ¬ LwmpPdu.crcMatches (stream.drop offset)) ∧
      (newSize ≠ 0 → ∃ offset, FirstPlausible stream offset ∧
        buf.take newSize = stream.drop offset ∧ newSize = stream.length - offset) ∧
      buf.drop stream.length = behind := by
  obtain ⟨left, whole, ⟨old, kept⟩, returns⟩ :=
    @lwmpStreamResyncTurns_returns stream behind stream.length
      fun found search => by
        have shorter := (memmem_suffix search).length_le
        omega
  refine ⟨stream.length + 1, _, _, returns, ?_, ?_, ?_⟩
  · rcases lwmpStreamResync_first stream with ⟨none, empty⟩ | ⟨offset, found, kept⟩
    · rw [empty]
      exact iff_of_true rfl fun offset mark => not_plausible_iff.mp (none offset mark)
    · rw [kept, List.length_eq_zero_iff]
      refine iff_of_false found.kept_ne_nil fun all => ?_
      exact not_plausible_iff.mpr (all offset found.mark) found.accepted
  · intro some
    rcases lwmpStreamResync_first stream with ⟨_, empty⟩ | ⟨offset, found, kept⟩
    · rw [empty] at some
      exact absurd rfl some
    · refine ⟨offset, found, ?_, ?_⟩
      · rw [List.take_left, kept]
      · rw [kept, List.length_drop]
  · rw [← kept, ← List.append_assoc] at whole ⊢
    rw [List.length_append, @List.length_append _ stream] at whole
    rw [List.drop_left' (by omega)]

/-- The mark inside a header that is rejected is found, although the byte in front of it was
overwritten. -/
example : lwmpStreamResyncTurns 3 ([0, 0xF7, 0xC3, 0xED, 0xA8] ++ [7, 7] ++ [9]) 7 =
    some ([0xF7, 0xC3, 0xED, 0xA8, 7, 7, 7, 9], 6) := by
  decide

end Lwmsg
