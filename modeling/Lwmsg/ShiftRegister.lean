/-
This file is a library of linear feedback shift registers: a register that takes a
stream of bits, most significant place first, and subtracts its generator whenever a
one leaves it. A cyclic redundancy check is the register left after a message.

Everything rests on one fact: a turn of the register is linear over the field of two
elements, in the register and in the incoming bit together. From it follow that many
turns at once are a shift and a table, and that a register whose generator ends in a
one tells apart any two messages that differ within as many places as it is wide.
-/

import Mathlib.Data.List.GetD

namespace ShiftRegister

variable {width : Nat}

/-! ### The register -/

/-- One turn: the register moves up by one place, and the generator is subtracted if what leaves it
and the incoming bit differ. -/
def feedBit (generator register : BitVec width) (bit : Bool) : BitVec width :=
  if register.msb ^^ bit then (register <<< 1) ^^^ generator else register <<< 1

/-- The register after a stream of bits. -/
def feed (generator register : BitVec width) (bits : List Bool) : BitVec width :=
  bits.foldl (feedBit generator) register

/-- The places that leave a register in so many turns, first to last. -/
def leading : Nat → BitVec width → List Bool
  | 0, _ => []
  | count + 1, register => register.msb :: leading count (register <<< 1)

variable {generator register other : BitVec width} {bits otherBits : List Bool}

@[simp] theorem feed_nil : feed generator register [] = register := rfl

@[simp] theorem feed_cons (bit : Bool) :
    feed generator register (bit :: bits) = feed generator (feedBit generator register bit) bits :=
  rfl

theorem feed_append (first second : List Bool) :
    feed generator register (first ++ second) =
      feed generator (feed generator register first) second := by
  rw [feed, feed, feed, List.foldl_append]

@[simp] theorem length_leading (count : Nat) (register : BitVec width) :
    (leading count register).length = count := by
  induction count generalizing register with
  | zero => rfl
  | succ count inductionHypothesis => rw [leading, List.length_cons, inductionHypothesis]

@[simp] theorem leading_zero (count : Nat) :
    leading count 0#(width) = List.replicate count false := by
  induction count with
  | zero => rfl
  | succ count inductionHypothesis =>
    rw [leading, BitVec.msb_zero, BitVec.zero_shiftLeft, inductionHypothesis, List.replicate_succ]

theorem leading_eq_map (count : Nat) (register : BitVec width) :
    leading count register = (List.range count).map fun place => register.getMsbD place := by
  induction count generalizing register with
  | zero => rfl
  | succ count inductionHypothesis =>
    rw [leading, inductionHypothesis, List.range_succ_eq_map, List.map_cons, List.map_map,
      ← BitVec.msb_eq_getMsbD_zero]
    refine congrArg _ (List.map_congr_left fun place _ => ?_)
    rw [BitVec.getMsbD_shiftLeft]
    rfl

/-! ### Linearity -/

/-- What a turn subtracts: the generator, or nothing. -/
def subtracted (generator : BitVec width) (leaves : Bool) : BitVec width :=
  if leaves then generator else 0#(width)

theorem subtracted_xor (first second : Bool) :
    subtracted generator (first ^^ second) =
      subtracted generator first ^^^ subtracted generator second := by
  cases first <;> cases second <;> simp [subtracted]

theorem feedBit_eq (bit : Bool) :
    feedBit generator register bit =
      (register <<< 1) ^^^ subtracted generator (register.msb ^^ bit) := by
  unfold feedBit subtracted
  split
  · rfl
  · rw [BitVec.xor_zero]

/-- A turn is linear in the register and the bit. -/
theorem feedBit_xor (bit otherBit : Bool) :
    feedBit generator (register ^^^ other) (bit ^^ otherBit) =
      feedBit generator register bit ^^^ feedBit generator other otherBit := by
  have leaves : ((register ^^^ other).msb ^^ (bit ^^ otherBit)) =
      ((register.msb ^^ bit) ^^ (other.msb ^^ otherBit)) := by
    rw [BitVec.msb_xor, Bool.xor_assoc, Bool.xor_assoc, Bool.xor_left_comm other.msb]
  rw [feedBit_eq, feedBit_eq, feedBit_eq, leaves, subtracted_xor, BitVec.shiftLeft_xor_distrib]
  ac_rfl

/-- So are all turns of a stream. -/
theorem feed_xor (same : otherBits.length = bits.length) :
    feed generator (register ^^^ other) (bits.zipWith xor otherBits) =
      feed generator register bits ^^^ feed generator other otherBits := by
  induction bits generalizing register other otherBits with
  | nil =>
    rw [List.length_nil, List.length_eq_zero_iff] at same
    rw [same]
    rfl
  | cons bit bits inductionHypothesis =>
    cases otherBits with
    | nil => simp at same
    | cons otherBit otherBits =>
      simp only [List.length_cons, Nat.add_right_cancel_iff] at same
      rw [List.zipWith_cons_cons, feed_cons, feed_cons, feed_cons, feedBit_xor]
      exact inductionHypothesis same

theorem feed_zero_replicate (count : Nat) :
    feed generator 0#(width) (List.replicate count false) = 0#(width) := by
  induction count with
  | zero => rfl
  | succ count inductionHypothesis =>
    have turn : feedBit generator 0#(width) false = 0#(width) := by simp [feedBit]
    rw [List.replicate_succ, feed_cons, turn, inductionHypothesis]

/-- What a stream does to a register depends on the register only through the places that leave it
meanwhile. This is what a table of the streams of one length is good for. -/
theorem feed_eq_shift (bits : List Bool) :
    feed generator register bits = (register <<< bits.length) ^^^
      feed generator 0#(width) ((leading bits.length register).zipWith xor bits) := by
  induction bits generalizing register with
  | nil => simp
  | cons bit bits inductionHypothesis =>
    have turn : feedBit generator 0#(width) (register.msb ^^ bit) =
        subtracted generator (register.msb ^^ bit) := by
      rw [feedBit_eq, BitVec.zero_shiftLeft, BitVec.zero_xor, BitVec.msb_zero, Bool.false_xor]
    have shifted : (register <<< 1) <<< bits.length = register <<< (bits.length + 1) := by
      rw [← BitVec.shiftLeft_add, Nat.add_comm]
    -- the subtracted generator passes through the rest as if nothing came with it
    have apart (value : BitVec width) (stream : List Bool) (start : BitVec width) :
        feed generator (start ^^^ value) stream =
          feed generator start stream ^^^
            feed generator value (List.replicate stream.length false) := by
      rw [← feed_xor (by rw [List.length_replicate])]
      congr 1
      refine List.ext_getElem (by simp) fun place _ _ => ?_
      rw [List.getElem_zipWith, List.getElem_replicate, Bool.xor_false]
    rw [feed_cons, feedBit_eq, apart, inductionHypothesis, shifted, List.length_cons, leading,
      List.zipWith_cons_cons, feed_cons, turn]
    have alone := apart (subtracted generator (register.msb ^^ bit))
      (List.zipWith xor (leading bits.length (register <<< 1)) bits) 0#(width)
    rw [BitVec.zero_xor, List.length_zipWith, length_leading, Nat.min_self] at alone
    rw [alone, BitVec.xor_assoc]

/-! ### Which streams leave nothing -/

/-- Subtracting a generator that ends in a one leaves a one in the last place. -/
theorem getLsbD_feedBit (odd : generator.getLsbD 0 = true) (bit : Bool) :
    (feedBit generator register bit).getLsbD 0 = (register.msb ^^ bit) := by
  rw [feedBit_eq, BitVec.getLsbD_xor, BitVec.getLsbD_shiftLeft]
  cases register.msb ^^ bit with
  | true => simp [subtracted, odd]
  | false => simp [subtracted]

/-- A short stream that leaves nothing is what was in the register. The induction is on the stream;
that the last place of the register is zero after the first turn says that nothing was subtracted
then. -/
theorem leading_of_feed_eq_zero (odd : generator.getLsbD 0 = true)
    (short : bits.length ≤ width) (nothing : feed generator register bits = 0#(width)) :
    register <<< bits.length = 0#(width) ∧ leading bits.length register = bits := by
  induction bits generalizing register with
  | nil => exact ⟨by simpa using nothing, rfl⟩
  | cons bit bits inductionHypothesis =>
    rw [List.length_cons] at short
    obtain ⟨shifted, left⟩ := inductionHypothesis (by omega) nothing
    have lastPlace := congrArg (fun value => value.getLsbD bits.length) shifted
    rw [BitVec.getLsbD_shiftLeft, Nat.sub_self, getLsbD_feedBit odd, BitVec.getLsbD_zero,
      decide_eq_true (by omega : bits.length < width), decide_eq_false (Nat.lt_irrefl _),
      Bool.not_false, Bool.true_and, Bool.true_and] at lastPlace
    have turn : feedBit generator register bit = register <<< 1 := by
      rw [feedBit, lastPlace, if_neg Bool.false_ne_true]
    rw [turn] at shifted left
    rw [← BitVec.shiftLeft_add, Nat.add_comm] at shifted
    refine ⟨shifted, ?_⟩
    have same : register.msb = bit := by simpa using lastPlace
    rw [List.length_cons, leading, left, same]

/-- A register that is not zero does not become zero on zeros. -/
theorem feed_replicate_ne_zero (odd : generator.getLsbD 0 = true)
    (some : register ≠ 0#(width)) (count : Nat) :
    feed generator register (List.replicate count false) ≠ 0#(width) := by
  induction count generalizing register with
  | zero => exact some
  | succ count inductionHypothesis =>
    rw [List.replicate_succ, feed_cons]
    refine inductionHypothesis fun nothing => some ?_
    have lastPlace := @getLsbD_feedBit _ _ register odd false
    rw [nothing, BitVec.getLsbD_zero, Bool.xor_false] at lastPlace
    rw [feedBit, Bool.xor_false, ← lastPlace, if_neg Bool.false_ne_true] at nothing
    refine BitVec.eq_of_getMsbD_eq fun place inside => ?_
    rw [BitVec.getMsbD_zero]
    cases place with
    | zero => exact lastPlace.symm
    | succ place =>
      have bit := congrArg (fun value => value.getMsbD place) nothing
      rw [BitVec.getMsbD_shiftLeft, BitVec.getMsbD_zero] at bit
      exact bit

/-! ### Bursts -/

/-- An error pattern: some bit is wrong, and all wrong bits lie within `span` consecutive ones. -/
structure Burst (span : Nat) (error : List Bool) : Prop where
  some : true ∈ error
  within : ∃ start, ∀ place < error.length,
    error.getD place false = true → start ≤ place ∧ place < start + span

/-- A list whose members are all zero. -/
theorem eq_replicate_of_getD {list : List Bool} (zero : ∀ place, list.getD place false = false) :
    list = List.replicate list.length false := by
  refine List.eq_replicate_iff.mpr ⟨rfl, fun bit isMember => ?_⟩
  obtain ⟨place, inside, rfl⟩ := List.getElem_of_mem isMember
  rw [← zero place, List.getD_eq_getElem _ _ inside]

/-- A burst is some short stream that is not zero, between zeros. -/
theorem Burst.split {span : Nat} {error : List Bool} (burst : Burst span error) :
    ∃ before short behind, error = List.replicate before false ++ short ++
      List.replicate behind false ∧ short.length ≤ span ∧ true ∈ short := by
  obtain ⟨start, within⟩ := burst.within
  have outside (place : Nat) (out : place < start ∨ start + span ≤ place) :
      error.getD place false = false := by
    cases wrong : error.getD place false with
    | false => rfl
    | true =>
      have inside : place < error.length := by
        by_cases short : error.length ≤ place
        · rw [List.getD_eq_default _ _ short] at wrong
          cases wrong
        · exact Nat.lt_of_not_le short
      have near := within place inside wrong
      omega
  have before : error.take start = List.replicate (error.take start).length false := by
    refine eq_replicate_of_getD fun place => ?_
    by_cases early : place < start
    · rw [List.getD_eq_getElem?_getD, List.getElem?_take_of_lt early, ← List.getD_eq_getElem?_getD]
      exact outside place (.inl early)
    · exact List.getD_eq_default _ _ (by rw [List.length_take]; omega)
  have behind : error.drop (start + span) =
      List.replicate (error.drop (start + span)).length false := by
    refine eq_replicate_of_getD fun place => ?_
    rw [List.getD_eq_getElem?_getD, List.getElem?_drop, ← List.getD_eq_getElem?_getD]
    exact outside _ (.inr (by omega))
  have parts : error = error.take start ++ (error.drop start).take span ++
      error.drop (start + span) := by
    rw [← List.drop_drop, List.append_assoc, List.take_append_drop, List.take_append_drop]
  refine ⟨(error.take start).length, (error.drop start).take span,
    (error.drop (start + span)).length, ?_, ?_, ?_⟩
  · rw [← before, ← behind]
    exact parts
  · rw [List.length_take]
    omega
  · have isMember := burst.some
    rw [parts, before, behind, List.mem_append, List.mem_append] at isMember
    rcases isMember with (early | inside) | late
    · exact absurd (List.eq_of_mem_replicate early) (by decide)
    · exact inside
    · exact absurd (List.eq_of_mem_replicate late) (by decide)

/-- The other way round. -/
theorem burst_append {span : Nat} (before behind : Nat) {short : List Bool}
    (fits : short.length ≤ span) (wrong : true ∈ short) :
    Burst span (List.replicate before false ++ short ++ List.replicate behind false) := by
  refine ⟨List.mem_append_left _ (List.mem_append_right _ wrong), before, fun place _ isWrong => ?_⟩
  rw [List.append_assoc] at isWrong
  have late : before ≤ place := by
    by_cases early : place < before
    · rw [List.getD_append _ _ _ _ (by rwa [List.length_replicate]),
        List.getD_replicate _ early] at isWrong
      cases isWrong
    · exact Nat.le_of_not_lt early
  rw [List.getD_append_right _ _ _ _ (by rwa [List.length_replicate]), List.length_replicate]
    at isWrong
  have early : place - before < short.length := by
    by_cases behindShort : short.length ≤ place - before
    · rw [List.getD_append_right _ _ _ _ behindShort] at isWrong
      by_cases inside : place - before - short.length < behind
      · rw [List.getD_replicate _ inside] at isWrong
        cases isWrong
      · rw [List.getD_eq_default _ _ (by rw [List.length_replicate]; omega)] at isWrong
        cases isWrong
    · exact Nat.lt_of_not_le behindShort
  omega

/-- A burst no longer than the register leaves something in an empty register. -/
theorem feed_burst_ne_zero (odd : generator.getLsbD 0 = true) {error : List Bool}
    (burst : Burst width error) : feed generator 0#(width) error ≠ 0#(width) := by
  obtain ⟨before, short, behind, rfl, fits, wrong⟩ := burst.split
  rw [feed_append, feed_append, feed_zero_replicate]
  refine feed_replicate_ne_zero odd (fun nothing => ?_) behind
  obtain ⟨-, zeros⟩ := leading_of_feed_eq_zero odd fits nothing
  rw [leading_zero] at zeros
  rw [← zeros] at wrong
  exact absurd (List.eq_of_mem_replicate wrong) (by decide)

/-- A register whose generator ends in a one tells a stream from the stream with a burst in it. -/
theorem feed_zipWith_ne (odd : generator.getLsbD 0 = true) {error : List Bool}
    (same : error.length = bits.length) (burst : Burst width error) :
    feed generator register (bits.zipWith xor error) ≠ feed generator register bits := by
  intro undetected
  have linear := @feed_xor _ generator register 0#(width) bits error same
  rw [BitVec.xor_zero, undetected] at linear
  refine feed_burst_ne_zero odd burst ((BitVec.xor_right_inj (feed generator register bits)).mp ?_)
  rw [← linear, BitVec.xor_zero]

end ShiftRegister
