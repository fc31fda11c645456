/-
This file models under which name the client creates a file it receives: the functions
`sanitize_filename` and `make_unique_filename` of `client/clrecv.c`, as `process_received_pdu`
calls them. A name is the C string that the sender put into the header of the file.

A numbered name can be read from its end. The last dot is the one in front of the extension, also
where the extension was cut off, and the last bracket that opens is the one in front of the number,
so no two numbers give one name, whatever dots and brackets the sender's name has.
-/

import Lwmsg.Lwmp
import Mathlib.Data.Finset.Card
import Mathlib.Order.Interval.Finset.Nat

namespace Lwmsg

open Bytes

/-! ### Names -/

def charSlash : UInt8 := 0x2F
def charBackslash : UInt8 := 0x5C
def charDot : UInt8 := 0x2E
def charOpen : UInt8 := 0x28
def charClose : UInt8 := 0x29

/-- `MAX_DEDUP_ATTEMPTS`. -/
def maxDedupAttempts : Nat := 10000

/-- `strrchr`: where a character occurs last in a string. -/
def strrchr : Bytes → UInt8 → Option Nat
  | [], _ => none
  | first :: rest, char =>
    match strrchr rest char with
    | some place => some (place + 1)
    | none => if first = char then some 0 else none

/-- `if (p) base = p + 1`: what follows the last occurrence of a character, if there is one. -/
def behindLast (string : Bytes) (char : UInt8) : Bytes :=
  match strrchr string char with
  | some place => string.drop (place + 1)
  | none => string

/-- `sanitize_filename`. -/
def sanitizeFilename (raw : Bytes) : Bytes :=
  let base := behindLast (behindLast raw charSlash) charBackslash
  if base = [] ∨ base = [charDot] ∨ base = [charDot, charDot] then ofLiteral "received_file"
  else base

/-- What `%u` prints. -/
def decimal (number : Nat) : Bytes :=
  (Nat.toDigits 10 number).map fun digit => UInt8.ofNat digit.toNat

/-- What `(%u)` prints. -/
def numberSuffix (number : Nat) : Bytes := charOpen :: decimal number ++ [charClose]

/-- `snprintf(out, outCap, …)`: what is left of the printed text. -/
def snprintf (outCap : Nat) (text : Bytes) : Bytes := text.take (outCap - 1)

/-- Where the stem of a name ends: in front of its last dot, unless that is its first character. -/
def stemLen (desired : Bytes) : Nat :=
  match strrchr desired charDot with
  | some dot => if dot ≠ 0 then dot else desired.length
  | none => desired.length

/-- The name `out` of the turn `number` of the loop of `make_unique_filename`. -/
def dedupName (desired : Bytes) (outCap number : Nat) : Bytes :=
  let ext := desired.drop (stemLen desired)
  let maxlen := min optdataLen (outCap - 1)
  let suffix := snprintf 16 (numberSuffix number)
  let slen := (numberSuffix number).length
  let fixed := ext.length + slen
  let availStem := if maxlen > fixed then maxlen - fixed else 0
  let useStem := min (stemLen desired) availStem
  snprintf outCap (desired.take useStem ++ suffix ++ ext)

/-- The loop of `make_unique_filename` from the turn `number` on. -/
def dedupLoop (accessible : Bytes → Bool) (desired : Bytes) (outCap : Nat) :
    Nat → Nat → Bytes → Bytes
  | 0, _, out => out
  | attempts + 1, number, _ =>
    let out := dedupName desired outCap number
    if accessible out then dedupLoop accessible desired outCap attempts (number + 1) out else out

/-- `make_unique_filename`: the name it leaves in `out`. -/
def makeUniqueFilename (accessible : Bytes → Bool) (desired : Bytes) (outCap : Nat) : Bytes :=
  let out := snprintf outCap desired
  if accessible out then dedupLoop accessible desired outCap maxDedupAttempts 1 out else out

/-- The name that the sender asks for, as `process_received_pdu` takes it out of `file_metadata`. -/
def desiredFilename (fileMetadata : Bytes) : Bytes :=
  sanitizeFilename (cString (fileMetadata.take optdataLen ++ [0]))

/-- The name `destname` under which `process_received_pdu` creates the file. -/
def destname (accessible : Bytes → Bool) (fileMetadata : Bytes) : Bytes :=
  makeUniqueFilename accessible (desiredFilename fileMetadata) (optdataLen + 1)

/-! ### The last occurrence of a character -/

section Last

variable {string before after : Bytes} {char : UInt8}

theorem strrchr_eq_none : strrchr string char = none ↔ char ∉ string := by
  induction string with
  | nil => simp [strrchr]
  | cons first rest inductionHypothesis =>
    rw [strrchr]
    cases found : strrchr rest char with
    | some place =>
      have isMember : char ∈ rest := by
        by_contra absent
        rw [inductionHypothesis.mpr absent] at found
        cases found
      exact iff_of_false (Option.some_ne_none _) fun absent => absent (List.mem_cons_of_mem _ isMember)
    | none =>
      have absent := inductionHypothesis.mp found
      by_cases same : first = char
      · simp [same]
      · simp [same, absent, Ne.symm same]

theorem strrchr_append (absent : char ∉ after) :
    strrchr (before ++ char :: after) char = some before.length := by
  induction before with
  | nil =>
    rw [List.nil_append, strrchr, strrchr_eq_none.mpr absent]
    simp
  | cons first before inductionHypothesis =>
    rw [List.cons_append, strrchr, inductionHypothesis]
    rfl

/-- A string that has a character ends with its last occurrence and what follows it. -/
theorem exists_last (isMember : char ∈ string) :
    ∃ before after, string = before ++ char :: after ∧ char ∉ after := by
  induction string with
  | nil => cases isMember
  | cons first rest inductionHypothesis =>
    by_cases later : char ∈ rest
    · obtain ⟨before, after, rfl, absent⟩ := inductionHypothesis later
      exact ⟨first :: before, after, rfl, absent⟩
    · rcases List.mem_cons.mp isMember with rfl | later'
      · exact ⟨[], rest, rfl, later⟩
      · exact absurd later' later

/-- The last occurrence of a character takes a string apart in one way only. -/
theorem append_cons_inj {otherBefore otherAfter : Bytes} (absent : char ∉ after)
    (otherAbsent : char ∉ otherAfter)
    (same : before ++ char :: after = otherBefore ++ char :: otherAfter) :
    before = otherBefore ∧ after = otherAfter := by
  have places : strrchr (before ++ char :: after) char = some before.length :=
    strrchr_append absent
  rw [same, strrchr_append otherAbsent, Option.some.injEq] at places
  obtain ⟨front, back⟩ := List.append_inj same places.symm
  exact ⟨front, List.tail_eq_of_cons_eq back⟩

theorem behindLast_spec : char ∉ behindLast string char ∧ behindLast string char <:+ string := by
  rw [behindLast]
  by_cases isMember : char ∈ string
  · obtain ⟨before, after, rfl, absent⟩ := exists_last isMember
    have rest : (before ++ char :: after).drop (before.length + 1) = after := by
      rw [List.drop_append, List.drop_of_length_le (Nat.le_succ _), Nat.add_sub_cancel_left]
      rfl
    rw [strrchr_append absent]
    simp only [rest]
    exact ⟨absent, (List.suffix_cons char after).trans (List.suffix_append before _)⟩
  · rw [strrchr_eq_none.mpr isMember]
    exact ⟨isMember, List.suffix_refl string⟩

end Last

/-! ### Numbers -/

theorem length_decimal_le {number : Nat} (few : number ≤ maxDedupAttempts) :
    (decimal number).length ≤ 5 := by
  rw [decimal, List.length_map]
  refine (Nat.length_toDigits_le_iff (by decide) (by decide)).mpr ?_
  exact Nat.lt_of_le_of_lt few (by decide)

theorem digit_toNat {number : Nat} {digit : Char} (isMember : digit ∈ Nat.toDigits 10 number) :
    48 ≤ digit.toNat ∧ digit.toNat ≤ 57 :=
  Char.isDigit_iff_toNat.mp (Nat.isDigit_of_mem_toDigits (by decide) (by decide) isMember)

/-- The digits can be read back. -/
theorem map_decimal (number : Nat) :
    (decimal number).map (fun digit => Char.ofNat digit.toNat) = Nat.toDigits 10 number := by
  rw [decimal, List.map_map]
  refine (List.map_congr_left fun digit isMember => ?_).trans (List.map_id _)
  have small : digit.toNat < 256 := Nat.lt_of_le_of_lt (digit_toNat isMember).2 (by decide)
  show Char.ofNat (UInt8.ofNat digit.toNat).toNat = digit
  rw [UInt8.toNat_ofNat', Nat.mod_eq_of_lt small, Char.ofNat_toNat]

theorem decimal_injective : Function.Injective decimal := by
  intro first second same
  have digits : Nat.toDigits 10 first = Nat.toDigits 10 second := by
    rw [← map_decimal, ← map_decimal, same]
  rw [← @Nat.ofDigitChars_ten_toDigits first, digits, Nat.ofDigitChars_ten_toDigits]

/-- No bracket and no slash is a digit. -/
theorem not_mem_decimal {number : Nat} {char : UInt8} (noDigit : char.toNat < 48) :
    char ∉ decimal number := by
  intro isMember
  obtain ⟨digit, isDigit, rfl⟩ := List.mem_map.mp isMember
  have bounds := digit_toNat isDigit
  rw [UInt8.toNat_ofNat', Nat.mod_eq_of_lt (by omega)] at noDigit
  omega

/-! ### The name the sender asks for -/

/-- The name of a file in the directory itself. -/
structure ProperName (name : Bytes) : Prop where
  noSlash : charSlash ∉ name
  some : name ≠ []
  notDot : name ≠ [charDot]
  notDotDot : name ≠ [charDot, charDot]

/-- A name with a character that is neither a slash nor a dot is proper if it has no slash. -/
theorem properName_of_mem {name : Bytes} {char : UInt8} (noSlash : charSlash ∉ name)
    (isMember : char ∈ name) (noDot : char ≠ charDot) : ProperName name := by
  refine ⟨noSlash, List.ne_nil_of_mem isMember, ?_, ?_⟩
  · rintro rfl
    exact noDot (List.mem_singleton.mp isMember)
  · rintro rfl
    simp only [List.mem_cons, List.not_mem_nil, or_false, or_self] at isMember
    exact noDot isMember

theorem sanitizeFilename_proper (raw : Bytes) : ProperName (sanitizeFilename raw) := by
  rw [sanitizeFilename]
  split
  · refine ⟨?_, ?_, ?_, ?_⟩ <;> decide
  · rename_i named
    rw [not_or, not_or] at named
    refine ⟨fun isMember => ?_, named.1, named.2.1, named.2.2⟩
    exact behindLast_spec.1 (behindLast_spec.2.subset isMember)

theorem length_sanitizeFilename_le {raw : Bytes} (short : raw.length ≤ optdataLen) :
    (sanitizeFilename raw).length ≤ optdataLen := by
  rw [sanitizeFilename]
  split
  · decide
  · exact behindLast_spec.2.length_le.trans (behindLast_spec.2.length_le.trans short)

theorem length_desiredFilename_le (fileMetadata : Bytes) :
    (desiredFilename fileMetadata).length ≤ optdataLen := by
  refine length_sanitizeFilename_le ?_
  have kept : cString (fileMetadata.take optdataLen ++ [0]) =
      cString (fileMetadata.take optdataLen) := by
    rw [cString, cString, List.takeWhile_append]
    split
    · rename_i whole
      have all : (fileMetadata.take optdataLen).takeWhile (· ≠ 0) = fileMetadata.take optdataLen :=
        (List.takeWhile_prefix _).eq_of_length whole
      rw [all]
      simp
    · rfl
  rw [kept]
  exact (List.takeWhile_prefix _).length_le.trans (List.length_take_le ..)

/-! ### Numbered names -/

section Numbered

variable {desired : Bytes} {number : Nat}

/-- The extension is empty, or its only dot is its first character. -/
theorem ext_cases (desired : Bytes) : desired.drop (stemLen desired) = [] ∨
    ∃ rest, desired.drop (stemLen desired) = charDot :: rest ∧ charDot ∉ rest := by
  have whole : desired.drop desired.length = [] := List.drop_length
  rw [stemLen]
  by_cases isMember : charDot ∈ desired
  · obtain ⟨before, after, rfl, absent⟩ := exists_last isMember
    rw [strrchr_append absent]
    simp only
    split
    · exact .inr ⟨after, List.drop_left, absent⟩
    · exact .inl whole
  · rw [strrchr_eq_none.mpr isMember]
    exact .inl whole

theorem length_numberSuffix_le (few : number ≤ maxDedupAttempts) :
    (numberSuffix number).length ≤ 7 := by
  have digits := length_decimal_le few
  simp only [numberSuffix, List.length_append, List.length_cons, List.length_nil]
  omega

/-- What a numbered name is made of. If the name has an extension, its dot at least fits. -/
theorem dedupName_shape (few : number ≤ maxDedupAttempts) : ∃ stem tail,
    dedupName desired (optdataLen + 1) number = stem ++ numberSuffix number ++ tail ∧
      stem <+: desired ∧ tail <+: desired.drop (stemLen desired) ∧
      (tail = [] → desired.drop (stemLen desired) = []) := by
  have short := length_numberSuffix_le few
  unfold dedupName
  simp only [snprintf, Nat.add_sub_cancel, Nat.min_self]
  generalize desired.drop (stemLen desired) = ext
  generalize avail : (if optdataLen > ext.length + (numberSuffix number).length then
    optdataLen - (ext.length + (numberSuffix number).length) else 0) = availStem
  have printed : (numberSuffix number).take (16 - 1) = numberSuffix number :=
    List.take_of_length_le (by omega)
  have stem : (desired.take (min (stemLen desired) availStem)).length ≤ availStem :=
    (List.length_take_le ..).trans (Nat.min_le_right ..)
  have room : availStem + (numberSuffix number).length ≤ optdataLen ∧
      (ext ≠ [] → availStem + (numberSuffix number).length < optdataLen) := by
    have some : ext ≠ [] → 0 < ext.length := List.length_pos_of_ne_nil
    rw [← avail]
    split
    · exact ⟨by omega, fun named => by have := some named; omega⟩
    · rw [optdataLen]
      exact ⟨by omega, fun _ => by omega⟩
  refine ⟨desired.take (min (stemLen desired) availStem), ext.take (optdataLen -
    (desired.take (min (stemLen desired) availStem) ++ numberSuffix number).length), ?_,
    List.take_prefix .., List.take_prefix .., ?_⟩
  · rw [printed, List.take_append, List.take_of_length_le]
    rw [List.length_append]
    omega
  · intro cut
    rw [List.take_eq_nil_iff, List.length_append] at cut
    by_contra named
    have fits := room.2 named
    rcases cut with full | empty
    · omega
    · exact named empty

theorem not_mem_numberSuffix {char : UInt8} (noDigit : char.toNat < 48) (noOpen : char ≠ charOpen)
    (noClose : char ≠ charClose) : char ∉ numberSuffix number := by
  rw [numberSuffix, List.mem_append, List.mem_cons, List.mem_singleton]
  rintro ((isOpen | isDigit) | isClose)
  · exact noOpen isOpen
  · exact not_mem_decimal noDigit isDigit
  · exact noClose isClose

/-- A number in brackets at the end of a name can be read. -/
theorem numberSuffix_inj {stem otherStem : Bytes} {other : Nat}
    (same : stem ++ numberSuffix number = otherStem ++ numberSuffix other) : number = other := by
  have absent (number : Nat) : charOpen ∉ decimal number ++ [charClose] := by
    rw [List.mem_append, List.mem_singleton]
    rintro (isDigit | isClose)
    · exact not_mem_decimal (by decide) isDigit
    · exact absurd isClose (by decide)
  obtain ⟨-, digits⟩ := append_cons_inj (absent number) (absent other) same
  exact decimal_injective (List.append_cancel_right digits)

/-- No two numbers give the same name. -/
theorem dedupName_inj {other : Nat} (few : number ≤ maxDedupAttempts)
    (otherFew : other ≤ maxDedupAttempts)
    (same : dedupName desired (optdataLen + 1) number = dedupName desired (optdataLen + 1) other) :
    number = other := by
  obtain ⟨stem, tail, shape, -, starts, cut⟩ := @dedupName_shape desired _ few
  obtain ⟨otherStem, otherTail, otherShape, -, otherStarts, otherCut⟩ :=
    @dedupName_shape desired _ otherFew
  rw [shape, otherShape] at same
  rcases ext_cases desired with none | ⟨rest, named, absent⟩
  · rw [none, List.prefix_nil] at starts otherStarts
    rw [starts, otherStarts, List.append_nil, List.append_nil] at same
    exact numberSuffix_inj same
  · -- the last dot of either name is the one of the extension
    have dotted {tail : Bytes} (starts : tail <+: desired.drop (stemLen desired))
        (cut : tail = [] → desired.drop (stemLen desired) = []) :
        ∃ kept, tail = charDot :: kept ∧ charDot ∉ kept := by
      rw [named] at starts cut
      cases tail with
      | nil => exact absurd (cut rfl) (List.cons_ne_nil _ _)
      | cons first kept =>
        rw [List.cons_prefix_cons] at starts
        exact ⟨kept, by rw [starts.1], fun isMember => absent (starts.2.subset isMember)⟩
    obtain ⟨kept, rfl, absent⟩ := dotted starts cut
    obtain ⟨otherKept, rfl, otherAbsent⟩ := dotted otherStarts otherCut
    exact numberSuffix_inj (append_cons_inj absent otherAbsent same).1

theorem dedupName_proper (few : number ≤ maxDedupAttempts) (proper : ProperName desired) :
    ProperName (dedupName desired (optdataLen + 1) number) := by
  obtain ⟨stem, tail, shape, stemStarts, tailStarts, -⟩ := @dedupName_shape desired _ few
  rw [shape]
  refine @properName_of_mem _ charOpen ?_ ?_ (by decide)
  · rw [List.mem_append, List.mem_append]
    rintro ((inStem | inNumber) | inTail)
    · exact proper.noSlash (stemStarts.subset inStem)
    · exact not_mem_numberSuffix (by decide) (by decide) (by decide) inNumber
    · exact proper.noSlash (List.mem_of_mem_drop (tailStarts.subset inTail))
  · exact List.mem_append_left _ (List.mem_append_right _ List.mem_cons_self)

end Numbered

/-! ### The name of the file -/

section Loop

variable {accessible : Bytes → Bool} {desired : Bytes} {outCap : Nat}

/-- The loop leaves the name of one of its turns. It is a name of no file, unless every turn met
one. -/
theorem dedupLoop_spec (attempts number : Nat) (out : Bytes) :
    (attempts = 0 ∨ ∃ turn < attempts, dedupLoop accessible desired outCap attempts number out =
      dedupName desired outCap (number + turn)) ∧
    (accessible (dedupLoop accessible desired outCap attempts number out) = true →
      ∀ turn < attempts, accessible (dedupName desired outCap (number + turn)) = true) := by
  induction attempts generalizing number out with
  | zero => exact ⟨.inl rfl, fun _ turn before => absurd before (Nat.not_lt_zero turn)⟩
  | succ attempts inductionHypothesis =>
    rw [dedupLoop]
    obtain ⟨leaves, taken⟩ := inductionHypothesis (number + 1) (dedupName desired outCap number)
    split
    · rename_i met
      constructor
      · rcases leaves with rfl | ⟨turn, before, leaves⟩
        · exact .inr ⟨0, Nat.one_pos, rfl⟩
        · refine .inr ⟨turn + 1, Nat.succ_lt_succ before, ?_⟩
          rw [leaves, Nat.add_assoc, Nat.add_comm 1]
      · intro met' turn before
        cases turn with
        | zero => exact met
        | succ turn =>
          rw [Nat.add_comm turn, ← Nat.add_assoc]
          exact taken met' turn (Nat.lt_of_succ_lt_succ before)
    · rename_i free
      exact ⟨.inr ⟨0, Nat.succ_pos _, rfl⟩, fun met => absurd met free⟩

end Loop

section Destname

variable {accessible : Bytes → Bool} {fileMetadata : Bytes}

theorem snprintf_desiredFilename (fileMetadata : Bytes) :
    snprintf (optdataLen + 1) (desiredFilename fileMetadata) = desiredFilename fileMetadata :=
  List.take_of_length_le (length_desiredFilename_le fileMetadata)

/-- Every name that `make_unique_filename` leaves is one of the directory itself. -/
theorem destname_proper (accessible : Bytes → Bool) (fileMetadata : Bytes) :
    ProperName (destname accessible fileMetadata) := by
  have proper : ProperName (desiredFilename fileMetadata) := sanitizeFilename_proper _
  rw [destname, makeUniqueFilename, snprintf_desiredFilename]
  split
  · obtain ⟨leaves, _⟩ := @dedupLoop_spec accessible (desiredFilename fileMetadata)
      (optdataLen + 1) maxDedupAttempts 1 (desiredFilename fileMetadata)
    rcases leaves with none | ⟨turn, before, leaves⟩
    · cases none
    · rw [leaves]
      exact dedupName_proper (by omega) proper
  · exact proper

/-- Where fewer names are taken than are tried, the name is a new one. -/
theorem destname_new {taken : Finset Bytes} (agree : ∀ name, accessible name = true ↔ name ∈ taken)
    (few : taken.card < maxDedupAttempts) : destname accessible fileMetadata ∉ taken := by
  rw [← agree, destname, makeUniqueFilename]
  split
  · intro met
    obtain ⟨_, all⟩ := @dedupLoop_spec accessible (desiredFilename fileMetadata)
      (optdataLen + 1) maxDedupAttempts 1 (snprintf (optdataLen + 1) (desiredFilename fileMetadata))
    -- then every name that was tried is taken, and they are different
    have image : (Finset.range maxDedupAttempts).card ≤ taken.card := by
      refine Finset.card_le_card_of_injOn
        (fun turn => dedupName (desiredFilename fileMetadata) (optdataLen + 1) (1 + turn)) ?_ ?_
      · exact fun turn before => (agree _).mp (all met turn (Finset.mem_range.mp before))
      · intro turn before other otherBefore same
        have small := Finset.mem_range.mp before
        have otherSmall := Finset.mem_range.mp otherBefore
        exact Nat.add_left_cancel (dedupName_inj (by omega) (by omega) same)
    rw [Finset.card_range] at image
    omega
  · rename_i free
    exact free

end Destname

/-- For every field `file_metadata` and every set of existing names, a received file is created in
the directory itself, the names tried are different, and the name is not an existing one if fewer
files exist than names are tried. -/
theorem destname_proper_unique (fileMetadata : Bytes) (existing : Finset Bytes) :
    ProperName (destname (fun name => name ∈ existing) fileMetadata) ∧
    (∀ number other, 1 ≤ number → number ≤ maxDedupAttempts → 1 ≤ other →
      other ≤ maxDedupAttempts → dedupName (desiredFilename fileMetadata) (optdataLen + 1) number =
        dedupName (desiredFilename fileMetadata) (optdataLen + 1) other → number = other) ∧
    (existing.card < maxDedupAttempts →
      destname (fun name => name ∈ existing) fileMetadata ∉ existing) := by
  refine ⟨destname_proper _ _, fun number other _ few _ otherFew => dedupName_inj few otherFew,
    destname_new fun name => ?_⟩
  exact decide_eq_true_iff

/-- A name that is as long as it can be, with a dot near its start: the stem is left out and the
extension is cut. -/
example : dedupName (ofLiteral "a.(1)bcdefghijklmnopqrstuvwxyz12") 33 10000 =
    ofLiteral "(10000).(1)bcdefghijklmnopqrstuv" := by
  decide +kernel

end Lwmsg
