/-
This file says what `crc32` computes and what it is good for. The literal table makes
eight turns of a shift register at once, so the checksum is the one that takes the bits
one by one, most significant bit first. The generator ends in a one, so the checksum
tells a header from a header with a burst of wrong bits in it, in the order the register
takes them, and every place of the program that compares it with the field notices.
-/

import Lwmsg.Clrecv
import Lwmsg.Resync
import Lwmsg.ShiftRegister
import Mathlib.Tactic.IntervalCases

namespace Lwmsg

open Bytes ShiftRegister

/-! ### The bits of a byte string -/

/-- The bits of a byte, most significant bit first. -/
def bitsOfByte (byte : UInt8) : List Bool :=
  (List.range 8).map fun place => byte.toBitVec.getMsbD place

/-- The bits of a byte string, each byte most significant bit first. -/
def bitsMsbFirst (data : Bytes) : List Bool := data.flatMap bitsOfByte

/-- The generator polynomial, without its leading term. -/
def crc32Polynomial : BitVec 32 := 0x04C11DB7

/-- The checksum bit by bit: most significant bit first, from a register of ones, inverted in the
end; neither the bytes nor the result are reflected. -/
def crc32Bitwise (data : Bytes) : BitVec 32 :=
  feed crc32Polynomial 0xFFFFFFFF (bitsMsbFirst data) ^^^ 0xFFFFFFFF

@[simp] theorem length_bitsOfByte (byte : UInt8) : (bitsOfByte byte).length = 8 := by
  rw [bitsOfByte, List.length_map, List.length_range]

@[simp] theorem bitsMsbFirst_nil : bitsMsbFirst [] = [] := rfl

@[simp] theorem bitsMsbFirst_cons (byte : UInt8) (data : Bytes) :
    bitsMsbFirst (byte :: data) = bitsOfByte byte ++ bitsMsbFirst data := rfl

@[simp] theorem length_bitsMsbFirst (data : Bytes) :
    (bitsMsbFirst data).length = 8 * data.length := by
  induction data with
  | nil => rfl
  | cons byte data inductionHypothesis =>
    rw [bitsMsbFirst_cons, List.length_append, length_bitsOfByte, inductionHypothesis,
      List.length_cons]
    omega

theorem bitsMsbFirst_append (first second : Bytes) :
    bitsMsbFirst (first ++ second) = bitsMsbFirst first ++ bitsMsbFirst second :=
  List.flatMap_append

theorem bitsMsbFirst_replicate (count : Nat) :
    bitsMsbFirst (List.replicate count 0) = List.replicate (count * 8) false := by
  induction count with
  | zero => rfl
  | succ count inductionHypothesis =>
    have zeros : bitsOfByte 0 = List.replicate 8 false := rfl
    rw [List.replicate_succ, bitsMsbFirst_cons, inductionHypothesis, zeros,
      List.replicate_append_replicate, Nat.add_comm, Nat.succ_mul]

theorem bitsOfByte_xor (first second : UInt8) :
    bitsOfByte (first ^^^ second) = (bitsOfByte first).zipWith xor (bitsOfByte second) := by
  rw [bitsOfByte, bitsOfByte, bitsOfByte, List.zipWith_map, List.zipWith_self]
  refine List.map_congr_left fun place _ => ?_
  rw [UInt8.toBitVec_xor, BitVec.getMsbD_xor]

theorem bitsMsbFirst_zipWith {data error : Bytes} (same : error.length = data.length) :
    bitsMsbFirst (data.zipWith (· ^^^ ·) error) =
      (bitsMsbFirst data).zipWith xor (bitsMsbFirst error) := by
  induction data generalizing error with
  | nil => rfl
  | cons byte data inductionHypothesis =>
    cases error with
    | nil => cases same
    | cons wrong error =>
      simp only [List.length_cons, Nat.add_right_cancel_iff] at same
      rw [List.zipWith_cons_cons, bitsMsbFirst_cons, bitsMsbFirst_cons, bitsMsbFirst_cons,
        bitsOfByte_xor, inductionHypothesis same,
        List.zipWith_append (by rw [length_bitsOfByte, length_bitsOfByte])]

/-! ### The table -/

/-- The table, written out by the register. -/
theorem crc32Table_toList : crc32Table.toList = (List.range 256).map fun index =>
    ⟨feed crc32Polynomial 0 (bitsOfByte (UInt8.ofNat index))⟩ := by
  decide +kernel

/-- An entry of the table is what the bits of its index leave in an empty register. -/
theorem crc32Table_getD {index : Nat} (inside : index < 256) :
    (crc32Table.getD index 0).toBitVec =
      feed crc32Polynomial 0 (bitsOfByte (UInt8.ofNat index)) := by
  rw [Array.getD_eq_getD_getElem?, ← Array.getElem?_toList, crc32Table_toList, List.getElem?_map,
    List.getElem?_range inside]
  rfl

/-- The index of a turn: the places that leave the register, subtracted from the byte. -/
theorem bitsOfByte_index (crc : UInt32) (byte : UInt8) :
    bitsOfByte (UInt8.ofNat (((crc >>> 24) ^^^ byte.toUInt32) &&& 0xFF).toNat) =
      (leading 8 crc.toBitVec).zipWith xor (bitsOfByte byte) := by
  have low (index : UInt32) : (UInt8.ofNat index.toNat).toBitVec = index.toBitVec.setWidth 8 := by
    rw [UInt8.toBitVec_ofNat', ← UInt32.toNat_toBitVec, BitVec.ofNat_toNat]
  rw [leading_eq_map, bitsOfByte, bitsOfByte, List.zipWith_map, List.zipWith_self]
  refine List.map_congr_left fun place inside => ?_
  rw [List.mem_range] at inside
  rw [low, UInt32.toBitVec_and, UInt32.toBitVec_xor, UInt32.toBitVec_shiftRight]
  interval_cases place <;> simp [BitVec.getMsbD]

/-- One turn of the loop is eight turns of the register. -/
theorem crc32Step_eq_feed (crc : UInt32) (byte : UInt8) :
    (crc32Step crc byte).toBitVec = feed crc32Polynomial crc.toBitVec (bitsOfByte byte) := by
  have index : (((crc >>> 24) ^^^ byte.toUInt32) &&& 0xFF).toNat < 256 := by
    rw [UInt32.toNat_and]
    exact Nat.lt_of_le_of_lt Nat.and_le_right (by decide)
  rw [crc32Step, UInt32.toBitVec_xor, crc32Table_getD index, bitsOfByte_index,
    @feed_eq_shift _ _ crc.toBitVec, length_bitsOfByte]
  rfl

theorem foldl_crc32Step_eq_feed (crc : UInt32) (data : Bytes) :
    (data.foldl crc32Step crc).toBitVec =
      feed crc32Polynomial crc.toBitVec (bitsMsbFirst data) := by
  induction data generalizing crc with
  | nil => rfl
  | cons byte data inductionHypothesis =>
    rw [List.foldl_cons, inductionHypothesis, crc32Step_eq_feed, bitsMsbFirst_cons, feed_append]

theorem toBitVec_crc32 (data : Bytes) : (crc32 data).toBitVec =
    feed crc32Polynomial 0xFFFFFFFF (bitsMsbFirst data) ^^^ 0xFFFFFFFF := by
  rw [crc32, UInt32.toBitVec_xor, foldl_crc32Step_eq_feed]
  rfl

/-- The checksum with the table is the checksum bit by bit. -/
theorem crc32_eq_bitwise (data : Bytes) : (crc32 data).toBitVec = crc32Bitwise data := by
  rw [toBitVec_crc32, crc32Bitwise]

/-! ### Bursts of wrong bits -/

/-- A byte string with errors: a bit is wrong where the pattern has a one. -/
def corrupt (error data : Bytes) : Bytes := data.zipWith (· ^^^ ·) error

/-- A header with errors in the bytes that the checksum covers. The field `crc32` and what lies
behind it arrive as they were sent. -/
def corruptHdr (error pdu : Bytes) : Bytes := corrupt error (LwmpPdu.covered pdu) ++ pdu.drop 77

/-- Every place that compares the checksum of a header with its field finds them different: the
validation refuses the header, and the client and the resynchronisation do not take it for one. -/
structure CrcRefused (pdu : Bytes) : Prop where
  differs : LwmpPdu.crcMatches pdu = false
  validated : ∀ subject hvfns, lwmpValidateHdrs pdu subject hvfns ≠ .ok
  parsed : LwmpPdu.hdrMark pdu = pduSyncHdrMark → clrecvTurn pdu = .crcMismatch
  resynced : ∀ stream behind, memmem beHdrMark stream = some pdu →
    ∃ buf, lwmpStreamResyncTurn (stream ++ behind) stream.length = .goesOn buf pdu.length

/-- Four bytes that are not all zero, between zeros, are a burst. -/
theorem burst_of_bytes (before behind : Nat) {wrong : Bytes} (four : wrong.length = 4)
    (some : true ∈ bitsMsbFirst wrong) :
    Burst 32 (bitsMsbFirst (List.replicate before 0 ++ wrong ++ List.replicate behind 0)) := by
  have fits : (bitsMsbFirst wrong).length ≤ 32 := by
    rw [length_bitsMsbFirst, four]
  rw [bitsMsbFirst_append, bitsMsbFirst_append, bitsMsbFirst_replicate, bitsMsbFirst_replicate]
  exact burst_append _ _ fits some

/-- A burst of wrong bits changes the checksum. -/
theorem crc32_corrupt_ne {data error : Bytes} (same : error.length = data.length)
    (burst : Burst 32 (bitsMsbFirst error)) : crc32 (corrupt error data) ≠ crc32 data := by
  intro undetected
  have equal := congrArg UInt32.toBitVec undetected
  rw [toBitVec_crc32, toBitVec_crc32, BitVec.xor_left_inj, corrupt, bitsMsbFirst_zipWith same]
    at equal
  have bits : (bitsMsbFirst error).length = (bitsMsbFirst data).length := by
    rw [length_bitsMsbFirst, length_bitsMsbFirst, same]
  exact feed_zipWith_ne (by decide) bits burst equal

section CorruptHdr

variable {pdu error : Bytes}

theorem length_corrupt {data : Bytes} (same : error.length = data.length) :
    (corrupt error data).length = data.length := by
  rw [corrupt, List.length_zipWith, same, Nat.min_self]

theorem length_covered (header : lwmpHdrSize ≤ pdu.length) :
    (LwmpPdu.covered pdu).length = 77 := by
  rw [lwmpHdrSize] at header
  rw [LwmpPdu.covered, List.length_take]
  omega

theorem covered_corruptHdr (header : lwmpHdrSize ≤ pdu.length) (covers : error.length = 77) :
    LwmpPdu.covered (corruptHdr error pdu) = corrupt error (LwmpPdu.covered pdu) := by
  have length := @length_corrupt error _ (covers.trans (length_covered header).symm)
  rw [LwmpPdu.covered, corruptHdr, List.take_left' (length.trans (length_covered header))]

theorem crc32_corruptHdr (header : lwmpHdrSize ≤ pdu.length) (covers : error.length = 77) :
    LwmpPdu.crc32 (corruptHdr error pdu) = LwmpPdu.crc32 pdu := by
  have length := @length_corrupt error _ (covers.trans (length_covered header).symm)
  rw [length_covered header] at length
  rw [LwmpPdu.crc32, corruptHdr, slice_append_right (le_of_eq length), length, Nat.sub_self,
    LwmpPdu.crc32, slice, slice, List.drop_zero]

theorem length_corruptHdr (header : lwmpHdrSize ≤ pdu.length) (covers : error.length = 77) :
    (corruptHdr error pdu).length = pdu.length := by
  have length := @length_corrupt error _ (covers.trans (length_covered header).symm)
  rw [lwmpHdrSize] at header
  rw [corruptHdr, List.length_append, length, length_covered header, List.length_drop]
  omega

/-- A header with a wrong checksum is refused wherever the checksum is compared. -/
theorem crcRefused_of_differs (header : lwmpHdrSize ≤ pdu.length)
    (differs : LwmpPdu.crcMatches pdu = false) : CrcRefused pdu := by
  have wrong : ¬ LwmpPdu.crcMatches pdu = true := by
    rw [differs]
    exact Bool.false_ne_true
  refine ⟨differs, fun subject hvfns accepted => ?_, fun mark => ?_, fun stream behind found => ?_⟩
  · exact wrong ((lwmpValidateHdrs_ok_iff pdu subject hvfns).mp accepted).crc
  · have long : ¬ pdu.length < 4 := by
      rw [lwmpHdrSize] at header
      omega
    rw [clrecvTurn, if_neg long, if_pos mark, if_neg (not_lt.mpr header), if_pos wrong]
  · obtain ⟨old, -, turn⟩ := @lwmpStreamResyncTurn_some _ behind _ found
    rw [if_pos ⟨header, wrong⟩] at turn
    exact ⟨_, turn⟩

end CorruptHdr

/-- A burst of at most 32 wrong bits changes the checksum of every byte string, and a header that was
sent with the right checksum is refused if the bytes in front of the field arrive with such a burst. -/
theorem crc32_detects_bursts :
    (∀ data error : Bytes, error.length = data.length → Burst 32 (bitsMsbFirst error) →
      crc32 (corrupt error data) ≠ crc32 data) ∧
    ∀ pdu error : Bytes, lwmpHdrSize ≤ pdu.length → LwmpPdu.crcMatches pdu = true →
      error.length = 77 → Burst 32 (bitsMsbFirst error) → CrcRefused (corruptHdr error pdu) := by
  refine ⟨fun data error => crc32_corrupt_ne, fun pdu error header crc covers burst => ?_⟩
  refine crcRefused_of_differs (by rw [length_corruptHdr header covers]; exact header) ?_
  have changed := crc32_corrupt_ne (covers.trans (length_covered header).symm) burst
  rw [LwmpPdu.crcMatches, beq_iff_eq] at crc
  rw [LwmpPdu.crcMatches, covered_corruptHdr header covers, crc32_corruptHdr header covers, ← crc,
    beq_eq_false_iff_ne]
  exact fun same => changed (UInt32.toNat_inj.mp same)

/-- A string and a header, each with a burst of wrong bits in the middle. -/
theorem crc32_detects_bursts_example :
    crc32 (corrupt [0, 0x80, 0xFF, 0, 0x01, 0] [1, 2, 3, 4, 5, 6]) ≠ crc32 [1, 2, 3, 4, 5, 6] ∧
    CrcRefused (corruptHdr (List.replicate 30 0 ++ [0x80, 0xFF, 0x00, 0x01] ++ List.replicate 43 0)
      (lwmpHdr 1 (List.replicate unamesize 0x61) (List.replicate optdataLen 0) 5)) := by
  have header : LwmpPdu.crcMatches (lwmpHdr 1 (List.replicate unamesize 0x61)
      (List.replicate optdataLen 0) 5 ++ []) = true := crcMatches_lwmpHdr (by decide) (by decide)
  rw [List.append_nil] at header
  have burst (before behind : Nat) := @burst_of_bytes before behind [0x80, 0xFF, 0, 0x01] rfl
    (by decide)
  exact ⟨crc32_detects_bursts.1 [1, 2, 3, 4, 5, 6] _ rfl (burst 1 1),
    crc32_detects_bursts.2 _ _ (by decide) header (by decide) (burst 30 43)⟩

end Lwmsg
