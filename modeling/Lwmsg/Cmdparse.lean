/-
This file models the two scanners of `common/cmdparse.c`, which cut a command line into
tokens. `cmdparse_tokenize` writes a NUL behind each token and goes on behind it, also
where it swallowed a blank; `cmdparse_rest_after_tokens` writes nothing and stops at the
blank. Both stay in step all the same: each of them walks along the lexemes of the line
as it was, which are defined here without writing anything, because no scanner reads what
lies in front of its pointer.
-/

import Lwmsg.Bytes
import Mathlib.Data.List.GetD

namespace Lwmsg

open Bytes

/-! ### The scanners -/

def charQuote : UInt8 := 0x22

/-- `c == ' ' || c == '\t'`. -/
def isBlank (char : UInt8) : Bool := char == 0x20 || char == 0x09

/-- `*p`. -/
def charAt (memory : Bytes) (pos : Nat) : UInt8 := memory.getD pos 0

/-- `while (keep(*p)) p++`, where the loop leaves `p`. -/
def scanWhile (keep : UInt8 → Bool) (memory : Bytes) (pos : Nat) : Nat :=
  pos + ((memory.drop pos).takeWhile keep).length

/-- `while (*p == ' ' || *p == '\t') p++`. -/
def skipBlanks (memory : Bytes) (pos : Nat) : Nat := scanWhile isBlank memory pos

/-- `while (*p && *p != '"') p++`. -/
def scanQuoted (memory : Bytes) (pos : Nat) : Nat :=
  scanWhile (fun char => char != 0 && char != charQuote) memory pos

/-- `while (*p && *p != ' ' && *p != '\t') p++`. -/
def scanUnquoted (memory : Bytes) (pos : Nat) : Nat :=
  scanWhile (fun char => char != 0 && !isBlank char) memory pos

/-- The loop of `cmdparse_tokenize`, with the number of tokens that still fit. It answers the memory
and the tokens found from here on, as pointers. -/
def cmdparseTokenizeLoop : Nat → Bytes → Nat → Bytes × List Nat
  | 0, memory, _ => (memory, [])
  | free + 1, memory, pos =>
    if charAt memory pos = 0 then (memory, [])
    else
      let pos := skipBlanks memory pos
      if charAt memory pos = 0 then (memory, [])
      else if charAt memory pos = charQuote then
        let token := pos + 1
        let pos := scanQuoted memory token
        let later :=
          if charAt memory pos = charQuote then
            cmdparseTokenizeLoop free (memory.set pos 0) (pos + 1)
          else cmdparseTokenizeLoop free memory pos
        (later.1, token :: later.2)
      else
        let token := pos
        let pos := scanUnquoted memory token
        let later :=
          if charAt memory pos ≠ 0 then cmdparseTokenizeLoop free (memory.set pos 0) (pos + 1)
          else cmdparseTokenizeLoop free memory pos
        (later.1, token :: later.2)

/-- `cmdparse_tokenize` on the line at `line`: the memory it leaves and the tokens. -/
def cmdparseTokenize (memory : Bytes) (line : Nat) (maxTokens : Int) : Bytes × List Nat :=
  cmdparseTokenizeLoop maxTokens.toNat memory line

/-- The loop of `cmdparse_rest_after_tokens`, and the blanks behind it. -/
def cmdparseRestLoop (memory : Bytes) : Nat → Nat → Nat
  | 0, pos => skipBlanks memory pos
  | skip + 1, pos =>
    let pos := skipBlanks memory pos
    if charAt memory pos = 0 then pos
    else if charAt memory pos = charQuote then
      let pos := scanQuoted memory (pos + 1)
      if charAt memory pos = charQuote then cmdparseRestLoop memory skip (pos + 1)
      else cmdparseRestLoop memory skip pos
    else cmdparseRestLoop memory skip (scanUnquoted memory pos)

/-- `cmdparse_rest_after_tokens` on the line at `line`. -/
def cmdparseRestAfterTokens (memory : Bytes) (line : Nat) (skip : Int) : Nat :=
  cmdparseRestLoop memory skip.toNat line

/-- The string a pointer points to. -/
def stringAt (memory : Bytes) (pos : Nat) : Bytes := cString (memory.drop pos)

/-! ### Scanning -/

section Scanning

variable {memory other : Bytes} {pos : Nat} {keep : UInt8 → Bool}

theorem charAt_congr (same : memory.drop pos = other.drop pos) {later : Nat} (behind : pos ≤ later) :
    charAt memory later = charAt other later := by
  have shifted (buffer : Bytes) : charAt buffer later = (buffer.drop pos).getD (later - pos) 0 := by
    rw [charAt, List.getD_eq_getElem?_getD, List.getD_eq_getElem?_getD, List.getElem?_drop,
      Nat.add_sub_cancel' behind]
  rw [shifted, shifted, same]

theorem drop_congr (same : memory.drop pos = other.drop pos) {later : Nat} (behind : pos ≤ later) :
    memory.drop later = other.drop later := by
  have shifted (buffer : Bytes) : buffer.drop later = (buffer.drop pos).drop (later - pos) := by
    rw [List.drop_drop, Nat.add_sub_cancel' behind]
  rw [shifted, shifted, same]

theorem scanWhile_congr (same : memory.drop pos = other.drop pos) {later : Nat}
    (behind : pos ≤ later) : scanWhile keep memory later = scanWhile keep other later := by
  rw [scanWhile, scanWhile, drop_congr same behind]

theorem le_scanWhile : pos ≤ scanWhile keep memory pos := Nat.le_add_right _ _

theorem keep_getD_takeWhile (buffer : Bytes) {place : Nat}
    (inside : place < (buffer.takeWhile keep).length) : keep (buffer.getD place 0) = true := by
  have starts := List.takeWhile_prefix (p := keep) (l := buffer)
  have char : buffer.getD place 0 = (buffer.takeWhile keep)[place] := by
    rw [starts.getElem inside]
    exact List.getD_eq_getElem _ _ _
  rw [char]
  exact List.mem_takeWhile_imp (List.getElem_mem inside)

theorem not_keep_getD_takeWhile (nul : keep 0 = false) (buffer : Bytes) :
    keep (buffer.getD (buffer.takeWhile keep).length 0) = false := by
  induction buffer with
  | nil => exact nul
  | cons char buffer inductionHypothesis =>
    cases keeps : keep char with
    | true =>
      rw [List.takeWhile_cons_of_pos keeps, List.length_cons, List.getD_cons_succ]
      exact inductionHypothesis
    | false =>
      rw [List.takeWhile_cons_of_neg (by rw [keeps]; exact Bool.false_ne_true)]
      exact keeps

theorem charAt_add (place : Nat) : charAt memory (pos + place) = (memory.drop pos).getD place 0 := by
  rw [charAt, List.getD_eq_getElem?_getD, List.getD_eq_getElem?_getD, List.getElem?_drop]

/-- What lies between the start of a scan and its end is kept. -/
theorem keep_of_lt_scanWhile {later : Nat} (behind : pos ≤ later)
    (before : later < scanWhile keep memory pos) : keep (charAt memory later) = true := by
  obtain ⟨place, rfl⟩ := Nat.exists_eq_add_of_le behind
  rw [charAt_add]
  exact keep_getD_takeWhile _ (Nat.lt_of_add_lt_add_left before)

/-- Where a scan ends is not kept. -/
theorem not_keep_scanWhile (nul : keep 0 = false) :
    keep (charAt memory (scanWhile keep memory pos)) = false := by
  rw [scanWhile, charAt_add]
  exact not_keep_getD_takeWhile nul _

/-- These two facts say where a scan ends. -/
theorem scanWhile_eq (nul : keep 0 = false) {stop : Nat} (behind : pos ≤ stop)
    (keeps : ∀ later, pos ≤ later → later < stop → keep (charAt memory later) = true)
    (stops : keep (charAt memory stop) = false) : scanWhile keep memory pos = stop := by
  rcases Nat.lt_trichotomy (scanWhile keep memory pos) stop with early | same | late
  · have kept := keeps _ le_scanWhile early
    rw [not_keep_scanWhile nul] at kept
    cases kept
  · exact same
  · rw [keep_of_lt_scanWhile behind late] at stops
    cases stops

/-- A scan goes on behind a character that it keeps. -/
theorem scanWhile_of_keep (nul : keep 0 = false) (keeps : keep (charAt memory pos) = true) :
    scanWhile keep memory pos = scanWhile keep memory (pos + 1) := by
  refine scanWhile_eq nul (Nat.le_of_succ_le le_scanWhile) (fun later behind before => ?_)
    (not_keep_scanWhile nul)
  rcases Nat.eq_or_lt_of_le behind with rfl | further
  · exact keeps
  · exact keep_of_lt_scanWhile further before

theorem scanWhile_of_not_keep (nul : keep 0 = false) (stops : keep (charAt memory pos) = false) :
    scanWhile keep memory pos = pos :=
  scanWhile_eq nul (le_refl pos)
    (fun _ behind before => absurd before (Nat.not_lt_of_le behind)) stops

/-- A scan does not pass a NUL. -/
theorem scanWhile_le (nul : keep 0 = false) {terminator : Nat}
    (terminated : charAt memory terminator = 0) (before : pos ≤ terminator) :
    scanWhile keep memory pos ≤ terminator := by
  refine Nat.le_of_not_lt fun passes => ?_
  have kept := keep_of_lt_scanWhile before passes
  rw [terminated, nul] at kept
  cases kept

end Scanning

/-! ### Lexemes -/

/-- A token of a line as it lies there: where it starts and stops, and where the scan for the next
one begins if nothing is written. -/
structure Lexeme where
  start : Nat
  stop : Nat
  behind : Nat
  deriving DecidableEq, Repr

/-- The first lexeme from a place on. -/
def lexemeAt (memory : Bytes) (pos : Nat) : Option Lexeme :=
  let first := skipBlanks memory pos
  if charAt memory first = 0 then none
  else if charAt memory first = charQuote then
    let stop := scanQuoted memory (first + 1)
    some ⟨first + 1, stop, if charAt memory stop = charQuote then stop + 1 else stop⟩
  else
    let stop := scanUnquoted memory first
    some ⟨first, stop, stop⟩

/-- The lexemes from a place on, up to a limit. -/
def lexemes (memory : Bytes) : Nat → Nat → List Lexeme
  | 0, _ => []
  | limit + 1, pos =>
    match lexemeAt memory pos with
    | none => []
    | some lexeme => lexeme :: lexemes memory limit lexeme.behind

/-- The place behind so many lexemes, or behind all of them. -/
def behindLexemes (memory : Bytes) : Nat → Nat → Nat
  | 0, pos => pos
  | skip + 1, pos =>
    match lexemeAt memory pos with
    | none => pos
    | some lexeme => behindLexemes memory skip lexeme.behind

/-- A NUL behind every lexeme. -/
def terminateTokens (memory : Bytes) (tokens : List Lexeme) : Bytes :=
  tokens.foldl (fun memory lexeme => memory.set lexeme.stop 0) memory

/-- What a lexeme is: characters other than NUL from its start to its stop. Behind it lies a quote
that closes it, a blank, or the end of the line. -/
structure Lexeme.Lies (memory : Bytes) (lexeme : Lexeme) : Prop where
  ordered : lexeme.start ≤ lexeme.stop
  clean : ∀ place, lexeme.start ≤ place → place < lexeme.stop → charAt memory place ≠ 0
  closed : lexeme.behind = lexeme.stop + 1 ∧ charAt memory lexeme.stop = charQuote ∨
    lexeme.behind = lexeme.stop ∧ (charAt memory lexeme.stop = 0 ∨ isBlank (charAt memory lexeme.stop) = true)

section Lexemes

variable {memory : Bytes} {pos : Nat} {lexeme : Lexeme}

theorem isBlank_zero : isBlank 0 = false := rfl

theorem le_skipBlanks : pos ≤ skipBlanks memory pos := le_scanWhile

theorem skipBlanks_skipBlanks : skipBlanks memory (skipBlanks memory pos) = skipBlanks memory pos :=
  scanWhile_of_not_keep isBlank_zero (not_keep_scanWhile isBlank_zero)

theorem skipBlanks_of_blank (blank : isBlank (charAt memory pos) = true) :
    skipBlanks memory pos = skipBlanks memory (pos + 1) :=
  scanWhile_of_keep isBlank_zero blank

theorem skipBlanks_of_nul (nul : charAt memory pos = 0) : skipBlanks memory pos = pos :=
  scanWhile_of_not_keep isBlank_zero (by rw [nul, isBlank_zero])

/-- The scan for a lexeme begins with the blanks, so it may as well begin behind them. -/
theorem lexemeAt_congr {other : Nat} (same : skipBlanks memory pos = skipBlanks memory other) :
    lexemeAt memory pos = lexemeAt memory other := by
  simp only [lexemeAt, same]

theorem scanQuoted_stops : charAt memory (scanQuoted memory pos) = 0 ∨
    charAt memory (scanQuoted memory pos) = charQuote := by
  have stops := @not_keep_scanWhile memory pos (fun char => char != 0 && char != charQuote) rfl
  rw [Bool.and_eq_false_iff, bne_eq_false_iff_eq, bne_eq_false_iff_eq] at stops
  exact stops

theorem scanUnquoted_stops : charAt memory (scanUnquoted memory pos) = 0 ∨
    isBlank (charAt memory (scanUnquoted memory pos)) = true := by
  have stops := @not_keep_scanWhile memory pos (fun char => char != 0 && !isBlank char) rfl
  rw [Bool.and_eq_false_iff, bne_eq_false_iff_eq, Bool.not_eq_false'] at stops
  exact stops

/-- Either scan passes no NUL, so what it passes is a lexeme. -/
theorem lexemeAt_lies (found : lexemeAt memory pos = some lexeme) : lexeme.Lies memory := by
  unfold lexemeAt at found
  simp only at found
  split at found
  · cases found
  split at found
  · cases found
    refine ⟨le_scanWhile, fun place behind before nul => ?_, ?_⟩
    · have kept := keep_of_lt_scanWhile behind before
      rw [nul] at kept
      cases kept
    · simp only
      rcases @scanQuoted_stops memory (skipBlanks memory pos + 1) with nul | quote
      · rw [if_neg (by rw [nul]; decide)]
        exact .inr ⟨rfl, .inl nul⟩
      · rw [if_pos quote]
        exact .inl ⟨rfl, quote⟩
  · cases found
    refine ⟨le_scanWhile, fun place behind before nul => ?_, .inr ⟨rfl, scanUnquoted_stops⟩⟩
    have kept := keep_of_lt_scanWhile behind before
    rw [nul] at kept
    cases kept

/-- Where a lexeme starts: behind the blanks, or behind the quote that opens it. -/
theorem lexemeAt_start (found : lexemeAt memory pos = some lexeme) :
    charAt memory (skipBlanks memory pos) ≠ 0 ∧ lexeme.start =
      if charAt memory (skipBlanks memory pos) = charQuote then skipBlanks memory pos + 1
      else skipBlanks memory pos := by
  unfold lexemeAt at found
  simp only at found
  split at found
  · cases found
  rename_i some
  refine ⟨some, ?_⟩
  split at found
  · rename_i quote
    cases found
    rw [if_pos quote]
  · rename_i unquoted
    cases found
    rw [if_neg unquoted]

theorem lexemeAt_eq_none_iff : lexemeAt memory pos = none ↔
    charAt memory (skipBlanks memory pos) = 0 := by
  unfold lexemeAt
  simp only
  split
  · rename_i nul
    exact iff_of_true rfl nul
  · rename_i some
    refine iff_of_false ?_ some
    split <;> exact Option.some_ne_none _

/-- A lexeme does not reach over the end of the line. -/
theorem lexemeAt_stop_le (found : lexemeAt memory pos = some lexeme) {terminator : Nat}
    (terminated : charAt memory terminator = 0) (before : pos ≤ terminator) :
    lexeme.stop ≤ terminator := by
  have first : skipBlanks memory pos ≤ terminator := scanWhile_le isBlank_zero terminated before
  unfold lexemeAt at found
  simp only at found
  split at found
  · cases found
  rename_i some
  have inside : skipBlanks memory pos < terminator := by
    refine Nat.lt_of_le_of_ne first fun same => some ?_
    rw [same, terminated]
  split at found <;> cases found
  · exact scanWhile_le rfl terminated inside
  · exact scanWhile_le rfl terminated first

/-- The scan for the next lexeme does not begin behind the end of the line either. -/
theorem lexemeAt_behind_le (found : lexemeAt memory pos = some lexeme) {terminator : Nat}
    (terminated : charAt memory terminator = 0) (before : pos ≤ terminator) :
    lexeme.behind ≤ terminator := by
  have stop := lexemeAt_stop_le found terminated before
  rcases (lexemeAt_lies found).closed with ⟨passes, quote⟩ | ⟨stays, -⟩
  · rw [passes]
    refine Nat.lt_of_le_of_ne stop fun same => ?_
    rw [same, terminated] at quote
    cases quote
  · rw [stays]
    exact stop

/-- The scan for a lexeme does not go back. -/
theorem le_lexemeAt_start (found : lexemeAt memory pos = some lexeme) : pos ≤ lexeme.start := by
  have first := @le_skipBlanks memory pos
  rw [(lexemeAt_start found).2]
  split
  · exact Nat.le_succ_of_le first
  · exact first

/-- The next lexeme starts behind the character that the NUL overwrites. -/
theorem stop_lt_start {next : Lexeme} (lies : lexeme.Lies memory)
    (found : lexemeAt memory lexeme.behind = some next) : lexeme.stop < next.start := by
  rcases lies.closed with ⟨passes, -⟩ | ⟨stays, nul | blank⟩
  · have later := le_lexemeAt_start found
    rw [passes] at later
    exact later
  · have some := (lexemeAt_start found).1
    rw [stays, skipBlanks_of_nul nul] at some
    exact absurd nul some
  · rw [stays, lexemeAt_congr (skipBlanks_of_blank blank)] at found
    exact le_lexemeAt_start found

theorem lexemes_succ (limit : Nat) (found : lexemeAt memory pos = some lexeme) :
    lexemes memory (limit + 1) pos = lexeme :: lexemes memory limit lexeme.behind := by
  rw [lexemes, found]

theorem lexemes_of_none (limit : Nat) (none : lexemeAt memory pos = none) :
    lexemes memory limit pos = [] := by
  cases limit with
  | zero => rfl
  | succ limit => rw [lexemes, none]

/-- Every lexeme was found by a scan that began inside the line. -/
theorem lexemeAt_of_mem {limit : Nat} (isMember : lexeme ∈ lexemes memory limit pos) :
    ∃ place, lexemeAt memory place = some lexeme ∧
      ∀ terminator, charAt memory terminator = 0 → pos ≤ terminator → place ≤ terminator := by
  induction limit generalizing pos with
  | zero => cases isMember
  | succ limit inductionHypothesis =>
    cases found : lexemeAt memory pos with
    | none =>
      rw [lexemes_of_none _ found] at isMember
      cases isMember
    | some first =>
      rw [lexemes_succ limit found] at isMember
      rcases List.mem_cons.mp isMember with rfl | later
      · exact ⟨pos, found, fun _ _ before => before⟩
      · obtain ⟨place, scanned, inside⟩ := inductionHypothesis later
        refine ⟨place, scanned, fun terminator terminated before => ?_⟩
        exact inside terminator terminated (lexemeAt_behind_le found terminated before)

theorem lies_of_mem {limit : Nat} (isMember : lexeme ∈ lexemes memory limit pos) :
    lexeme.Lies memory := by
  obtain ⟨place, found, -⟩ := lexemeAt_of_mem isMember
  exact lexemeAt_lies found

theorem stop_le_of_mem {limit terminator : Nat} (isMember : lexeme ∈ lexemes memory limit pos)
    (terminated : charAt memory terminator = 0) (before : pos ≤ terminator) :
    lexeme.stop ≤ terminator := by
  obtain ⟨place, found, inside⟩ := lexemeAt_of_mem isMember
  exact lexemeAt_stop_le found terminated (inside terminator terminated before)

/-- Lexemes follow each other with a character in between. -/
theorem lexemes_pairwise (limit : Nat) : (lexemes memory limit pos).Pairwise
    fun first second => first.stop < second.start := by
  induction limit generalizing pos with
  | zero => exact .nil
  | succ limit inductionHypothesis =>
    cases found : lexemeAt memory pos with
    | none =>
      rw [lexemes_of_none _ found]
      exact .nil
    | some first =>
      rw [lexemes_succ limit found]
      refine List.pairwise_cons.mpr ⟨fun later isMember => ?_, inductionHypothesis⟩
      -- the ones that follow start behind the next one, or are the next one
      cases limit with
      | zero => cases isMember
      | succ limit =>
        cases follows : lexemeAt memory first.behind with
        | none =>
          rw [lexemes_of_none _ follows] at isMember
          cases isMember
        | some next =>
          have behind := stop_lt_start (lexemeAt_lies found) follows
          have rest := @inductionHypothesis first.behind
          rw [lexemes_succ limit follows] at isMember rest
          rcases List.mem_cons.mp isMember with rfl | further
          · exact behind
          · have apart := (List.pairwise_cons.mp rest).1 later further
            have ordered := (lexemeAt_lies follows).ordered
            omega

/-- Leaving out the first lexemes is scanning from behind them. -/
theorem drop_lexemes (skip limit : Nat) : (lexemes memory (skip + limit) pos).drop skip =
    lexemes memory limit (behindLexemes memory skip pos) := by
  induction skip generalizing pos with
  | zero => rw [Nat.zero_add, List.drop_zero, behindLexemes]
  | succ skip inductionHypothesis =>
    cases found : lexemeAt memory pos with
    | none =>
      rw [lexemes_of_none _ found, List.drop_nil, behindLexemes, found, lexemes_of_none _ found]
    | some first =>
      rw [Nat.add_right_comm, lexemes_succ _ found, List.drop_succ_cons, inductionHypothesis,
        behindLexemes, found]

/-- The other scanner stops at the first lexeme that it does not skip. -/
theorem cmdparseRestLoop_eq (skip : Nat) :
    cmdparseRestLoop memory skip pos = skipBlanks memory (behindLexemes memory skip pos) := by
  induction skip generalizing pos with
  | zero => rfl
  | succ skip inductionHypothesis =>
    unfold cmdparseRestLoop behindLexemes lexemeAt
    simp only
    split
    · rfl
    split
    · split
      · exact inductionHypothesis
      · exact inductionHypothesis
    · exact inductionHypothesis

end Lexemes

/-! ### What the tokeniser writes -/

section Terminate

variable {memory original : Bytes} {tokens : List Lexeme}

theorem charAt_set (place stop : Nat) :
    charAt (memory.set stop 0) place = if place = stop then 0 else charAt memory place := by
  rw [charAt, charAt, List.getD_eq_getElem?_getD, List.getD_eq_getElem?_getD, List.getElem?_set]
  by_cases same : place = stop
  · rw [if_pos same, if_pos same.symm]
    split <;> rfl
  · rw [if_neg same, if_neg fun written => same written.symm]

/-- Writing a NUL over a NUL changes nothing. -/
theorem set_of_nul {stop : Nat} (nul : charAt memory stop = 0) : memory.set stop 0 = memory := by
  refine List.ext_getElem (List.length_set ..) fun place inside within => ?_
  rw [List.getElem_set]
  split
  · rename_i same
    subst same
    rw [charAt, List.getD_eq_getElem _ _ within] at nul
    exact nul.symm
  · rfl

theorem charAt_terminateTokens (tokens : List Lexeme) (memory : Bytes) (place : Nat) :
    charAt (terminateTokens memory tokens) place =
      if ∃ lexeme ∈ tokens, lexeme.stop = place then 0 else charAt memory place := by
  induction tokens generalizing memory with
  | nil => simp [terminateTokens]
  | cons lexeme tokens inductionHypothesis =>
    have turn : terminateTokens memory (lexeme :: tokens) =
        terminateTokens (memory.set lexeme.stop 0) tokens := rfl
    rw [turn, inductionHypothesis, charAt_set]
    by_cases later : ∃ other ∈ tokens, other.stop = place
    · obtain ⟨other, isMember, same⟩ := later
      rw [if_pos ⟨other, isMember, same⟩, if_pos ⟨other, List.mem_cons_of_mem _ isMember, same⟩]
    · rw [if_neg later]
      by_cases same : place = lexeme.stop
      · rw [if_pos same, if_pos ⟨lexeme, List.mem_cons_self, same.symm⟩]
      · rw [if_neg same, if_neg]
        rintro ⟨other, isMember, stops⟩
        rcases List.mem_cons.mp isMember with rfl | isMember
        · exact same stops.symm
        · exact later ⟨other, isMember, stops⟩

/-- The loop walks along the lexemes of the line as it was. It may stand behind the blank at which
the next scan would begin, and what it has written lies in front of it. -/
theorem cmdparseTokenizeLoop_eq (free : Nat) {pos place : Nat}
    (same : memory.drop pos = original.drop pos)
    (blanks : skipBlanks original place = skipBlanks original pos) :
    cmdparseTokenizeLoop free memory pos = (terminateTokens memory (lexemes original free place),
      (lexemes original free place).map Lexeme.start) := by
  induction free generalizing memory pos place with
  | zero => rfl
  | succ free inductionHypothesis =>
    have first : skipBlanks memory pos = skipBlanks original pos := scanWhile_congr same (le_refl _)
    have chars {later : Nat} (behind : pos ≤ later) : charAt memory later = charAt original later :=
      charAt_congr same behind
    have starts := @le_skipBlanks original pos
    -- a write at `stop` is in front of everything that is read later
    have written {stop : Nat} (behind : pos ≤ stop) :
        (memory.set stop 0).drop (stop + 1) = original.drop (stop + 1) := by
      rw [List.drop_set_of_lt (Nat.lt_succ_self stop)]
      exact drop_congr same (Nat.le_succ_of_le behind)
    rw [cmdparseTokenizeLoop, lexemes, lexemeAt_congr blanks]
    unfold lexemeAt
    simp only [first, chars starts, chars (le_refl pos)]
    split
    · rename_i nul
      rw [skipBlanks_of_nul nul, if_pos nul]
      rfl
    split
    · rfl
    split
    · have quoted : scanQuoted memory (skipBlanks original pos + 1) =
          scanQuoted original (skipBlanks original pos + 1) :=
        scanWhile_congr same (Nat.le_succ_of_le starts)
      have behind : pos ≤ scanQuoted original (skipBlanks original pos + 1) :=
        Nat.le_trans (Nat.le_succ_of_le starts) le_scanWhile
      simp only [quoted, chars behind]
      split
      · rw [inductionHypothesis (written behind) rfl]
        rfl
      · rename_i open_
        have nul := @scanQuoted_stops original (skipBlanks original pos + 1)
        rw [or_iff_left open_, ← chars behind] at nul
        rw [inductionHypothesis (drop_congr same behind) rfl, List.map_cons, terminateTokens,
          terminateTokens, List.foldl_cons, set_of_nul nul]
    · have unquoted : scanUnquoted memory (skipBlanks original pos) =
          scanUnquoted original (skipBlanks original pos) := scanWhile_congr same starts
      have behind : pos ≤ scanUnquoted original (skipBlanks original pos) :=
        Nat.le_trans starts le_scanWhile
      simp only [unquoted, chars behind]
      split
      · rename_i some
        have blank := @scanUnquoted_stops original (skipBlanks original pos)
        rw [or_iff_right some] at blank
        rw [inductionHypothesis (written behind) (skipBlanks_of_blank blank)]
        rfl
      · rename_i nul
        rw [not_not, ← chars behind] at nul
        rw [inductionHypothesis (drop_congr same behind) rfl, List.map_cons, terminateTokens,
          terminateTokens, List.foldl_cons, set_of_nul nul]

/-- A string ends where the first NUL follows. -/
theorem stringAt_eq {pos stop : Nat} (ordered : pos ≤ stop)
    (clean : ∀ place, pos ≤ place → place < stop → charAt memory place ≠ 0)
    (terminated : charAt memory stop = 0) :
    stringAt memory pos = slice pos (stop - pos) memory := by
  have scanned : scanWhile (· ≠ 0) memory pos = stop := by
    refine scanWhile_eq rfl ordered (fun place behind before => ?_) ?_
    · exact decide_eq_true (clean place behind before)
    · exact decide_eq_false (not_not.mpr terminated)
  have length : (stringAt memory pos).length = stop - pos := by
    rw [← scanned]
    exact (Nat.add_sub_cancel_left ..).symm
  rw [slice, ← length]
  exact List.prefix_iff_eq_take.mp (List.takeWhile_prefix _)

theorem slice_congr {start stop : Nat} (length : memory.length = original.length)
    (same : ∀ place, start ≤ place → place < stop → charAt memory place = charAt original place) :
    slice start (stop - start) memory = slice start (stop - start) original := by
  refine List.ext_getElem ?_ fun place inside _ => ?_
  · simp only [slice, List.length_take, List.length_drop, length]
  · simp only [slice, List.length_take, List.length_drop] at inside
    have char := same (start + place) (Nat.le_add_right _ _) (by omega)
    rw [charAt, charAt, List.getD_eq_getElem _ _ (by omega), List.getD_eq_getElem _ _ (by omega)]
      at char
    simpa only [slice, List.getElem_take, List.getElem_drop] using char

@[simp] theorem length_terminateTokens (memory : Bytes) (tokens : List Lexeme) :
    (terminateTokens memory tokens).length = memory.length := by
  induction tokens generalizing memory with
  | nil => rfl
  | cons lexeme tokens inductionHypothesis =>
    have turn : terminateTokens memory (lexeme :: tokens) =
        terminateTokens (memory.set lexeme.stop 0) tokens := rfl
    rw [turn, inductionHypothesis, List.length_set]

/-- Two lexemes are one, or a character lies between them. -/
theorem apart_of_mem (apart : tokens.Pairwise fun first second => first.stop < second.start)
    {first second : Lexeme} (isFirst : first ∈ tokens) (isSecond : second ∈ tokens) :
    first = second ∨ first.stop < second.start ∨ second.stop < first.start :=
  List.Pairwise.forall_of_forall_of_flip
    (R := fun first second => first = second ∨ first.stop < second.start ∨
      second.stop < first.start) (fun _ _ => .inl rfl)
    (apart.imp fun before => .inr (.inl before)) (apart.imp fun before => .inr (.inr before))
    isFirst isSecond

/-- No NUL is written into a lexeme, and one is written behind it: the token is the lexeme. -/
theorem stringAt_terminateTokens {lexeme : Lexeme} (isMember : lexeme ∈ tokens)
    (lies : ∀ other ∈ tokens, other.Lies memory)
    (apart : tokens.Pairwise fun first second => first.stop < second.start) :
    stringAt (terminateTokens memory tokens) lexeme.start =
      slice lexeme.start (lexeme.stop - lexeme.start) memory := by
  have spared : ∀ place, lexeme.start ≤ place → place < lexeme.stop →
      charAt (terminateTokens memory tokens) place = charAt memory place := by
    intro place behind before
    rw [charAt_terminateTokens, if_neg]
    rintro ⟨other, isOther, rfl⟩
    have order := (lies other isOther).ordered
    rcases apart_of_mem apart isOther isMember with rfl | earlier | later
    · exact lt_irrefl _ before
    · omega
    · omega
  have written : charAt (terminateTokens memory tokens) lexeme.stop = 0 := by
    rw [charAt_terminateTokens, if_pos ⟨lexeme, isMember, rfl⟩]
  rw [stringAt_eq (lies lexeme isMember).ordered (fun place behind before => ?_) written]
  · exact slice_congr (length_terminateTokens _ _) spared
  · rw [spared place behind before]
    exact (lies lexeme isMember).clean place behind before

end Terminate

/-! ### The scanners agree -/

section Agree

variable {memory : Bytes} {line : Nat}

theorem cmdparseTokenize_eq (line maxTokens : Nat) : cmdparseTokenize memory line maxTokens =
    (terminateTokens memory (lexemes memory maxTokens line),
      (lexemes memory maxTokens line).map Lexeme.start) :=
  cmdparseTokenizeLoop_eq maxTokens rfl rfl

/-- A token is its lexeme. -/
theorem stringAt_lexemes {limit : Nat} {lexeme : Lexeme}
    (isMember : lexeme ∈ lexemes memory limit line) :
    stringAt (terminateTokens memory (lexemes memory limit line)) lexeme.start =
      slice lexeme.start (lexeme.stop - lexeme.start) memory :=
  stringAt_terminateTokens isMember (fun _ => lies_of_mem) (lexemes_pairwise limit)

theorem cmdparseRestAfterTokens_eq (line skip : Nat) : cmdparseRestAfterTokens memory line skip =
    skipBlanks memory (behindLexemes memory skip line) :=
  cmdparseRestLoop_eq skip

/-- The tokens of the rest are the lexemes that were not skipped. -/
theorem cmdparseTokenize_rest (line skip limit : Nat) :
    cmdparseTokenize memory (cmdparseRestAfterTokens memory line skip) (skip + limit - skip) =
      (terminateTokens memory ((lexemes memory (skip + limit) line).drop skip),
        ((lexemes memory (skip + limit) line).drop skip).map Lexeme.start) := by
  have left : ((skip : Int) + limit - skip).toNat = limit := by omega
  rw [cmdparseTokenize, left, cmdparseRestAfterTokens_eq, drop_lexemes]
  exact cmdparseTokenizeLoop_eq limit rfl skipBlanks_skipBlanks.symm

/-- The lexeme behind the skipped ones is the first that is found from the rest on. -/
theorem getElem?_lexemes (line skip limit : Nat) :
    (lexemes memory (skip + (limit + 1)) line)[skip]? =
      lexemeAt memory (behindLexemes memory skip line) := by
  have first := congrArg List.head? (@drop_lexemes memory line skip (limit + 1))
  rw [List.head?_drop] at first
  rw [first]
  cases found : lexemeAt memory (behindLexemes memory skip line) with
  | none => rw [lexemes_of_none _ found, List.head?_nil]
  | some lexeme => rw [lexemes_succ limit found, List.head?_cons]

end Agree

/-- What the two scanners have to do with each other on a line: `tokens` are the ones found with the
limit `m`, the rest is the one behind `k` tokens. -/
structure ScannersAgree (memory : Bytes) (terminator k m : Nat) : Prop where
  points : ∀ token, (cmdparseTokenize memory 0 m).2[k]? = some token →
    token = if charAt memory (cmdparseRestAfterTokens memory 0 k) = charQuote then
      cmdparseRestAfterTokens memory 0 k + 1 else cmdparseRestAfterTokens memory 0 k
  tokens : k < (cmdparseTokenize memory 0 m).2.length →
    (cmdparseTokenize memory (cmdparseRestAfterTokens memory 0 k) (m - k)).2 =
      (cmdparseTokenize memory 0 m).2.drop k
  texts : ∀ token ∈ (cmdparseTokenize memory 0 m).2.drop k,
    stringAt (cmdparseTokenize memory (cmdparseRestAfterTokens memory 0 k) (m - k)).1 token =
      stringAt (cmdparseTokenize memory 0 m).1 token
  empty : (cmdparseTokenize memory 0 m).2.length ≤ k →
    stringAt memory (cmdparseRestAfterTokens memory 0 k) = []
  within : ∀ token ∈ (cmdparseTokenize memory 0 m).2,
    token + (stringAt (cmdparseTokenize memory 0 m).1 token).length ≤ terminator
  ordered : (cmdparseTokenize memory 0 m).2.Pairwise fun first second =>
    first + (stringAt (cmdparseTokenize memory 0 m).1 first).length < second

/-- On every line, the rest behind `k` tokens begins with the token `k`, or with the quote that opens
it, and cut into tokens it gives the tokens from `k` on; if there are none, it is empty. The tokens
lie within the line, in order and apart. -/
theorem cmdparse_scanners_agree (line behind : Bytes) (k m : Nat) (below : k < m) :
    ScannersAgree (line ++ 0 :: behind) line.length k m := by
  obtain ⟨limit, rfl⟩ : ∃ limit, m = k + (limit + 1) := Nat.exists_eq_add_of_lt below
  have terminated : charAt (line ++ 0 :: behind) line.length = 0 := by
    rw [charAt, List.getD_append_right _ _ _ _ (le_refl _), Nat.sub_self, List.getD_cons_zero]
  generalize line ++ 0 :: behind = memory at terminated ⊢
  have tokenized := @cmdparseTokenize_eq memory 0 (k + (limit + 1))
  have rest := @cmdparseTokenize_rest memory 0 k (limit + 1)
  have next := @getElem?_lexemes memory 0 k limit
  have texts {lexeme : Lexeme} := @stringAt_lexemes memory 0 (k + (limit + 1)) lexeme
  have fits {lexeme : Lexeme} (isMember : lexeme ∈ lexemes memory (k + (limit + 1)) 0) :
      lexeme.start + (slice lexeme.start (lexeme.stop - lexeme.start) memory).length ≤
        lexeme.stop := by
    have ordered := (lies_of_mem isMember).ordered
    have short : (slice lexeme.start (lexeme.stop - lexeme.start) memory).length ≤
        lexeme.stop - lexeme.start := List.length_take_le ..
    omega
  have apart := @lexemes_pairwise memory 0 (k + (limit + 1))
  rw [Nat.cast_add] at tokenized
  refine ⟨fun token found => ?_, fun some => ?_, fun token isMember => ?_, fun few => ?_,
    fun token isMember => ?_, ?_⟩
  · rw [Nat.cast_add, tokenized, List.getElem?_map, next, Option.map_eq_some_iff] at found
    obtain ⟨lexeme, found, rfl⟩ := found
    rw [cmdparseRestAfterTokens_eq]
    exact (lexemeAt_start found).2
  · rw [Nat.cast_add, rest, tokenized, List.map_drop]
  · rw [Nat.cast_add, tokenized, ← List.map_drop] at isMember
    obtain ⟨lexeme, remains, rfl⟩ := List.mem_map.mp isMember
    rw [Nat.cast_add, rest, tokenized, texts (List.mem_of_mem_drop remains)]
    exact stringAt_terminateTokens remains (fun _ later => lies_of_mem (List.mem_of_mem_drop later))
      apart.drop
  · rw [Nat.cast_add, tokenized, List.length_map] at few
    rw [List.getElem?_eq_none few, eq_comm, lexemeAt_eq_none_iff, ← cmdparseRestAfterTokens_eq]
      at next
    rw [stringAt_eq (le_refl _) (fun _ late early => absurd early (not_lt.mpr late)) next,
      Nat.sub_self, slice, List.take_zero]
  · rw [Nat.cast_add, tokenized] at isMember ⊢
    obtain ⟨lexeme, isLexeme, rfl⟩ := List.mem_map.mp isMember
    rw [texts isLexeme]
    exact (fits isLexeme).trans (stop_le_of_mem isLexeme terminated (Nat.zero_le _))
  · rw [Nat.cast_add, tokenized, List.pairwise_map]
    refine apart.imp_of_mem fun isFirst _ before => ?_
    rw [texts isFirst]
    exact Nat.lt_of_le_of_lt (fits isFirst) before

/-- A line with a quoted token, a token that a quote follows, and a quote that is never closed. -/
theorem cmdparse_scanners_agree_example :
    ScannersAgree (ofLiteral "msg \"a b\"c\"d \"" ++ 0 :: [0x61])
      (ofLiteral "msg \"a b\"c\"d \"").length 1 9 :=
  cmdparse_scanners_agree (ofLiteral "msg \"a b\"c\"d \"") [0x61] 1 9 (by decide)

end Lwmsg
