/-
This file is the library of byte strings the models are written in: slices of a
buffer, big-endian numbers as `htonl`, `htobe64` and their inverses lay them out,
C strings inside fixed-size character arrays, and the search for a pattern.

Nothing here names a structure of the modelled program. A buffer is a list of
bytes; a C string is the part of an array before its first NUL, so the functions
of `string.h` are total and never read past the array they are given.
-/

import Mathlib.Data.List.Induction
import Mathlib.Data.List.TakeWhile
import Mathlib.Tactic.Ring

/-- A byte string, a buffer or a character array. -/
abbrev Bytes := List UInt8

instance : LawfulBEq Bytes := inferInstance

namespace Bytes

/-! ### Slices -/

/-- The `count` bytes of a buffer from offset `start` on. -/
def slice (start count : Nat) (buffer : Bytes) : Bytes := (buffer.drop start).take count

theorem length_slice {start count : Nat} {buffer : Bytes} (within : start + count ≤ buffer.length) :
    (slice start count buffer).length = count := by
  rw [slice, List.length_take, List.length_drop]
  omega

/-- A slice that ends inside the first part does not see what follows it. -/
theorem slice_append_left {start count : Nat} {buffer rest : Bytes}
    (within : start + count ≤ buffer.length) :
    slice start count (buffer ++ rest) = slice start count buffer := by
  rw [slice, slice, List.drop_append_of_le_length (by omega),
    List.take_append_of_le_length (by rw [List.length_drop]; omega)]

/-- A slice that starts behind the first part is a slice of the rest. -/
theorem slice_append_right {start count : Nat} {buffer rest : Bytes}
    (behind : buffer.length ≤ start) :
    slice start count (buffer ++ rest) = slice (start - buffer.length) count rest := by
  rw [slice, slice, List.drop_append, List.drop_of_length_le behind, List.nil_append]

theorem slice_zero_eq {count : Nat} {buffer : Bytes} (whole : buffer.length = count) :
    slice 0 count buffer = buffer := by
  rw [slice, List.drop_zero, List.take_of_length_le (le_of_eq whole)]

/-- A slice that starts at offset zero and covers the first part exactly is that part. -/
theorem slice_append_self {count : Nat} {buffer rest : Bytes} (whole : buffer.length = count) :
    slice 0 count (buffer ++ rest) = buffer := by
  rw [slice_append_left (by omega), slice_zero_eq whole]

theorem slice_take {start count limit : Nat} {buffer : Bytes} (within : start + count ≤ limit) :
    slice start count (buffer.take limit) = slice start count buffer := by
  rw [slice, slice, List.drop_take, List.take_take, Nat.min_eq_left (by omega)]

/-! ### Big-endian numbers -/

/-- The `count` bytes of a number, most significant byte first. -/
def beBytes : Nat → Nat → Bytes
  | 0, _ => []
  | count + 1, value => beBytes count (value / 256) ++ [UInt8.ofNat value]

/-- The number a byte string spells, most significant byte first. -/
def beValue (bytes : Bytes) : Nat := bytes.foldl (fun value byte => value * 256 + byte.toNat) 0

@[simp] theorem length_beBytes (count value : Nat) : (beBytes count value).length = count := by
  induction count generalizing value with
  | zero => rfl
  | succ count inductionHypothesis =>
    rw [beBytes, List.length_append, inductionHypothesis, List.length_singleton]

@[simp] theorem beValue_nil : beValue [] = 0 := rfl

@[simp] theorem beValue_concat (bytes : Bytes) (byte : UInt8) :
    beValue (bytes ++ [byte]) = beValue bytes * 256 + byte.toNat := by
  rw [beValue, beValue, List.foldl_append, List.foldl_cons, List.foldl_nil]

theorem beValue_beBytes (count value : Nat) (fits : value < 256 ^ count) :
    beValue (beBytes count value) = value := by
  induction count generalizing value with
  | zero =>
    rw [pow_zero] at fits
    rw [beBytes, beValue_nil]
    omega
  | succ count inductionHypothesis =>
    have quotient : value / 256 < 256 ^ count :=
      Nat.div_lt_of_lt_mul (by rwa [pow_succ, mul_comm] at fits)
    have byte : (UInt8.ofNat value).toNat = value % 256 := by simp
    rw [beBytes, beValue_concat, inductionHypothesis _ quotient, byte]
    omega

theorem beValue_lt (bytes : Bytes) : beValue bytes < 256 ^ bytes.length := by
  induction bytes using List.reverseRecOn with
  | nil => simp
  | append_singleton bytes byte inductionHypothesis =>
    have small : byte.toNat < 256 := byte.toNat_lt
    rw [beValue_concat, List.length_append, List.length_singleton, pow_succ]
    calc beValue bytes * 256 + byte.toNat < beValue bytes * 256 + 256 := by omega
      _ = (beValue bytes + 1) * 256 := by ring
      _ ≤ 256 ^ bytes.length * 256 := Nat.mul_le_mul_right 256 inductionHypothesis

/-! ### C strings in character arrays -/

/-- The C string an array holds: its bytes before the first NUL, or the whole array. -/
def cString (array : Bytes) : Bytes := array.takeWhile (· ≠ 0)

/-- `strnlen`: the length of the C string in the first `limit` bytes of an array. -/
def strnlen (array : Bytes) (limit : Nat) : Nat := (cString (array.take limit)).length

/-- `strncpy` into a field of `size` bytes: the string, cut at `size`, padded with NULs. -/
def strncpy (size : Nat) (source : Bytes) : Bytes :=
  (cString source).take size ++ List.replicate (size - (cString source).length) 0

/-- `strncmp`: the difference of the first bytes that differ before a NUL and before `limit`. An
array that ends counts as terminated there. -/
def strncmp : Nat → Bytes → Bytes → Int
  | 0, _, _ => 0
  | limit + 1, first, second =>
    if first.headD 0 ≠ second.headD 0 then (first.headD 0).toNat - (second.headD 0).toNat
    else if first.headD 0 = 0 then 0
    else strncmp limit first.tail second.tail

/-- `tolower` in the C locale. -/
def toLower (byte : UInt8) : UInt8 := if 65 ≤ byte ∧ byte ≤ 90 then byte + 32 else byte

/-- The bytes of a string literal, which the program only writes in ASCII. -/
def ofLiteral (text : String) : Bytes := text.toList.map fun letter => UInt8.ofNat letter.toNat

@[simp] theorem length_strncpy (size : Nat) (source : Bytes) :
    (strncpy size source).length = size := by
  rw [strncpy, List.length_append, List.length_take, List.length_replicate]
  omega

theorem cString_append_replicate_zero (text : Bytes) (count : Nat) (clean : ∀ byte ∈ text, byte ≠ 0) :
    cString (text ++ List.replicate count 0) = text := by
  have tail : (List.replicate count (0 : UInt8)).takeWhile (· ≠ 0) = [] := by
    cases count <;> simp [List.replicate_succ]
  rw [cString, List.takeWhile_append_of_pos (by simpa using clean), tail, List.append_nil]

theorem cString_clean_append {text : Bytes} (rest : Bytes) (clean : ∀ byte ∈ text, byte ≠ 0) :
    cString (text ++ rest) = text ++ cString rest := by
  rw [cString, List.takeWhile_append_of_pos (by simpa using clean), cString]

theorem cString_clean (array : Bytes) : ∀ byte ∈ cString array, byte ≠ 0 := by
  intro byte member
  simpa using List.mem_takeWhile_imp member

theorem cString_eq_self {text : Bytes} (clean : ∀ byte ∈ text, byte ≠ 0) : cString text = text := by
  rw [cString, List.takeWhile_eq_self_iff]
  simpa using clean

theorem length_cString_le (array : Bytes) : (cString array).length ≤ array.length :=
  (List.takeWhile_sublist _).length_le

@[simp] theorem cString_nil : cString [] = [] := rfl

theorem cString_cons (byte : UInt8) (rest : Bytes) :
    cString (byte :: rest) = if byte = 0 then [] else byte :: cString rest := by
  by_cases zero : byte = 0
  · simp [cString, zero]
  · simp [cString, zero]

/-- `strncmp` finds no difference exactly between two arrays that hold the same C string within
the limit. -/
theorem strncmp_eq_zero_iff (limit : Nat) (first second : Bytes) :
    strncmp limit first second = 0 ↔ cString (first.take limit) = cString (second.take limit) := by
  induction limit generalizing first second with
  | zero => simp [strncmp]
  | succ limit inductionHypothesis =>
    have apart (byte other : UInt8) (different : byte ≠ other) :
        (byte.toNat : Int) - other.toNat ≠ 0 := by
      intro equal
      exact different (UInt8.toNat_inj.mp (by omega))
    cases first with
    | nil =>
      cases second with
      | nil => simp [strncmp]
      | cons other second =>
        by_cases zero : other = 0
        · simp [strncmp, cString_cons, zero]
        · simpa [strncmp, cString_cons, zero, Ne.symm zero] using
            apart 0 other (Ne.symm zero)
    | cons byte first =>
      cases second with
      | nil =>
        by_cases zero : byte = 0
        · simp [strncmp, cString_cons, zero]
        · simpa [strncmp, cString_cons, zero] using apart byte 0 zero
      | cons other second =>
        by_cases same : byte = other
        · subst same
          by_cases zero : byte = 0
          · simp [strncmp, cString_cons, zero]
          · simp [strncmp, cString_cons, zero, inductionHypothesis]
        · have difference := apart byte other same
          simp only [strncmp, List.headD_cons, ne_eq, same, not_false_eq_true, if_true,
            List.take_succ_cons, cString_cons]
          refine iff_of_false difference ?_
          by_cases zero : byte = 0 <;> by_cases otherZero : other = 0
          · exact absurd (zero.trans otherZero.symm) same
          · simp [zero, otherZero]
          · simp [zero, otherZero]
          · simp [zero, otherZero, same]

/-- Copying a C string that fits into a field keeps it. -/
theorem cString_strncpy (size : Nat) (source : Bytes) :
    cString (strncpy size source) = (cString source).take size := by
  rw [strncpy]
  exact cString_append_replicate_zero _ _ fun byte member =>
    cString_clean source byte (List.mem_of_mem_take member)

/-! ### The search for a pattern -/

/-- `memmem`: the part of a buffer from the first occurrence of a pattern on. -/
def memmem (pattern : Bytes) : Bytes → Option Bytes
  | [] => if pattern = [] then some [] else none
  | byte :: rest =>
    if pattern.isPrefixOf (byte :: rest) then some (byte :: rest) else memmem pattern rest

theorem memmem_suffix {pattern buffer found : Bytes} (search : memmem pattern buffer = some found) :
    found <:+ buffer := by
  induction buffer with
  | nil =>
    rw [memmem] at search
    split at search
    · obtain rfl := Option.some.inj search
      exact List.suffix_rfl
    · cases search
  | cons byte rest inductionHypothesis =>
    rw [memmem] at search
    split at search
    · obtain rfl := Option.some.inj search
      exact List.suffix_rfl
    · exact (inductionHypothesis search).trans (List.suffix_cons byte rest)

theorem memmem_starts {pattern buffer found : Bytes} (search : memmem pattern buffer = some found) :
    pattern <+: found := by
  induction buffer with
  | nil =>
    rw [memmem] at search
    split at search
    · rename_i empty
      rw [empty]
      exact List.nil_prefix
    · cases search
  | cons byte rest inductionHypothesis =>
    rw [memmem] at search
    split at search
    · rename_i starts
      rw [← Option.some.inj search]
      exact List.isPrefixOf_iff_prefix.mp starts
    · exact inductionHypothesis search

/-- A buffer that starts with the pattern is found whole. -/
theorem memmem_of_starts {pattern buffer : Bytes} (starts : pattern <+: buffer) :
    memmem pattern buffer = some buffer := by
  cases buffer with
  | nil => rw [memmem, if_pos (List.prefix_nil.mp starts)]
  | cons byte rest => rw [memmem, if_pos (List.isPrefixOf_iff_prefix.mpr starts)]

/-- A buffer that does not start with the pattern is searched from its second byte on. -/
theorem memmem_cons_of_not_starts {pattern rest : Bytes} {byte : UInt8}
    (skips : ¬ pattern <+: byte :: rest) : memmem pattern (byte :: rest) = memmem pattern rest := by
  rw [memmem, if_neg fun starts => skips (List.isPrefixOf_iff_prefix.mp starts)]

/-- Nothing is found exactly where the pattern lies at no offset. -/
theorem memmem_eq_none_iff {pattern buffer : Bytes} :
    memmem pattern buffer = none ↔ ∀ offset, ¬ pattern <+: buffer.drop offset := by
  induction buffer with
  | nil => simp [memmem]
  | cons byte rest inductionHypothesis =>
    by_cases starts : pattern <+: byte :: rest
    · rw [memmem_of_starts starts]
      exact iff_of_false (by simp) fun nowhere => nowhere 0 starts
    · rw [memmem_cons_of_not_starts starts, inductionHypothesis]
      constructor
      · intro later offset
        cases offset with
        | zero => exact starts
        | succ offset => exact later offset
      · exact fun nowhere offset => nowhere (offset + 1)

/-- What is found begins at the first offset at which the pattern lies. -/
theorem memmem_first {pattern buffer found : Bytes} (search : memmem pattern buffer = some found) :
    ∃ offset, found = buffer.drop offset ∧ pattern <+: buffer.drop offset ∧
      ∀ earlier < offset, ¬ pattern <+: buffer.drop earlier := by
  induction buffer with
  | nil =>
    have starts := memmem_starts search
    obtain rfl : found = [] := List.suffix_nil.mp (memmem_suffix search)
    exact ⟨0, rfl, starts, fun _ none => absurd none (Nat.not_lt_zero _)⟩
  | cons byte rest inductionHypothesis =>
    by_cases starts : pattern <+: byte :: rest
    · rw [memmem_of_starts starts] at search
      obtain rfl := Option.some.inj search
      exact ⟨0, rfl, starts, fun _ none => absurd none (Nat.not_lt_zero _)⟩
    · rw [memmem_cons_of_not_starts starts] at search
      obtain ⟨offset, equal, lies, first⟩ := inductionHypothesis search
      refine ⟨offset + 1, equal, lies, fun earlier before => ?_⟩
      cases earlier with
      | zero => exact starts
      | succ earlier => exact first earlier (Nat.lt_of_succ_lt_succ before)

end Bytes
