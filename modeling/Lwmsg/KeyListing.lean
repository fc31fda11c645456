/-
This file is about `htable_copy_all_keys` with either `copy_fn`: `node_copy_username` for the table
of clients and `node_copy_peername` for the tables of addresses. The three loops visit every bucket
once, and the buffer is doubled where the next key does not fit, so all keys are listed.

`node_copy_peername` passes the size that is left to `inet_ntop` as a `socklen_t` of 32 bits. A list
of more than `2 ^ 32` bytes needs a buffer of `2 ^ 33` bytes, of which a little more than `2 ^ 32` are
left then, and of these `inet_ntop` sees only the excess. Every larger buffer leaves the same excess,
so the call goes on doubling. Names do not have this limit.
-/

import Lwmsg.Authentication
import Lwmsg.Filenames
import Lwmsg.UserList
import Mathlib.Algebra.Order.BigOperators.Group.Finset

namespace Lwmsg

open Bytes Pointers

/-! ### The keys of the two kinds of tables -/

/-- An address as `inet_ntop` prints it. -/
def dotted (ipAddr : Bytes) : Bytes :=
  List.intercalate [charDot] (ipAddr.map fun byte => decimal byte.toNat)

/-- `inet_ntop` of an `AF_INET` address, which fails only with `ENOSPC`. -/
def inetNtop (ipAddr : Bytes) (size : Nat) : Option Bytes :=
  if (dotted ipAddr).length + 1 > size then none else some (dotted ipAddr)

/-- `node_copy_peername`, for a record of an address. -/
def nodeCopyPeername (ipAddr : Bytes) (bufSize : Nat) : KeyCopied :=
  let slen := bufSize % 2 ^ 32
  match inetNtop ipAddr slen with
  | none => .bufTooSmall
  | some res => .copied (res ++ [0])

/-- The two functions that copy the keys of nodes. -/
inductive KeyCopier
  | username (stdcls : Addr → StdClient)
  | peername

namespace KeyCopier

/-- The `copy_fn`. The key of a record is its address. -/
def copyFn (key : Addr → Bytes) : KeyCopier → Addr → Nat → KeyCopied
  | .username stdcls, addr => nodeCopyUsername (stdcls addr)
  | .peername, addr => nodeCopyPeername (key addr)

/-- The key of a node that is not skipped, as text. -/
def text (key : Addr → Bytes) : KeyCopier → Addr → Option Bytes
  | .username stdcls, addr =>
    if isNotDisconnected (stdcls addr).clState then some (key addr) else none
  | .peername, addr => some (dotted (key addr))

/-- The keys of the nodes are the fields they point to: a name in an array with room for its NUL, or
an address of four bytes. -/
def Reads (key : Addr → Bytes) (members : Finset Addr) : KeyCopier → Prop
  | .username stdcls => ∀ addr ∈ members, (stdcls addr).username.length = unamesize ∧
      0 ∈ (stdcls addr).username ∧ cString (stdcls addr).username = key addr
  | .peername => ∀ addr ∈ members, (key addr).length = 4

/-- All texts with their NULs take no more bytes than a `socklen_t` can count, where one is used. -/
def Fits (key : Addr → Bytes) (members : Finset Addr) : KeyCopier → Prop
  | .username _ => True
  | .peername => ∑ addr ∈ members, ((dotted (key addr)).length + 1) ≤ 2 ^ 32

end KeyCopier

/-- The call ends with the texts of all nodes that are not skipped, each of them once, whole and with
its NUL, and it visited every bucket once. What it returns is the length of these bytes. -/
structure ListsKeys (state : HtableState) (copier : KeyCopier) (key : Addr → Bytes)
    (members : Finset Addr) : Prop where
  visited : visitedBuckets state.htable = List.range state.htable.bucketCount
  listed : ∃ addrs : List Addr, addrs.Nodup ∧ (∀ addr, addr ∈ addrs ↔ addr ∈ members) ∧
    (addrs.filterMap (copier.text key)).Nodup ∧
    (∀ text ∈ addrs.filterMap (copier.text key), 0 ∉ text) ∧
    htableCopyAllKeys state (copier.copyFn key) =
      some (userListPayload (addrs.filterMap (copier.text key)))

/-! ### Addresses as text -/

theorem decimal_ne_nil (number : Nat) : decimal number ≠ [] := by
  rw [decimal, ne_eq, List.map_eq_nil_iff]
  exact Nat.toDigits_ne_nil

theorem length_decimal_byte (byte : UInt8) :
    1 ≤ (decimal byte.toNat).length ∧ (decimal byte.toNat).length ≤ 3 := by
  refine ⟨List.length_pos_of_ne_nil (decimal_ne_nil _), ?_⟩
  rw [decimal, List.length_map]
  refine (Nat.length_toDigits_le_iff (by decide) (by decide)).mpr ?_
  have small := byte.toNat_lt
  omega

theorem dotted_four (first second third fourth : UInt8) :
    dotted [first, second, third, fourth] = decimal first.toNat ++ charDot ::
      (decimal second.toNat ++ charDot :: (decimal third.toNat ++ charDot ::
        decimal fourth.toNat)) := by
  simp [dotted, List.intercalate]

theorem four_bytes {ipAddr : Bytes} (four : ipAddr.length = 4) :
    ∃ first second third fourth, ipAddr = [first, second, third, fourth] := by
  match ipAddr, four with
  | [first, second, third, fourth], _ => exact ⟨first, second, third, fourth, rfl⟩

theorem length_dotted {ipAddr : Bytes} (four : ipAddr.length = 4) :
    7 ≤ (dotted ipAddr).length ∧ (dotted ipAddr).length ≤ 15 := by
  obtain ⟨first, second, third, fourth, rfl⟩ := four_bytes four
  have one := length_decimal_byte first
  have two := length_decimal_byte second
  have three := length_decimal_byte third
  have last := length_decimal_byte fourth
  rw [dotted_four]
  simp only [List.length_append, List.length_cons]
  omega

theorem zero_not_mem_dotted {ipAddr : Bytes} (four : ipAddr.length = 4) : 0 ∉ dotted ipAddr := by
  obtain ⟨first, second, third, fourth, rfl⟩ := four_bytes four
  have noDigit : (0 : UInt8).toNat < 48 := by decide
  have noDot : (0 : UInt8) ≠ charDot := by decide
  rw [dotted_four]
  simp only [List.mem_append, List.mem_cons, not_or]
  exact ⟨not_mem_decimal noDigit, noDot, not_mem_decimal noDigit, noDot, not_mem_decimal noDigit,
    noDot, not_mem_decimal noDigit⟩

/-- Different addresses have different texts. -/
theorem dotted_injective {ipAddr other : Bytes} (four : ipAddr.length = 4) (also : other.length = 4)
    (same : dotted ipAddr = dotted other) : ipAddr = other := by
  have noDot (address : Bytes) :
      ∀ number ∈ address.map fun byte => decimal byte.toNat, charDot ∉ number := by
    intro number member
    obtain ⟨byte, _, rfl⟩ := List.mem_map.mp member
    exact not_mem_decimal (by decide)
  have some {address : Bytes} (four : address.length = 4) :
      (address.map fun byte => decimal byte.toNat) ≠ [] := by
    rw [ne_eq, List.map_eq_nil_iff]
    rintro rfl
    cases four
  have numbers := congrArg (List.splitOn charDot) same
  rw [dotted, dotted, List.splitOn_intercalate _ (noDot ipAddr) (some four),
    List.splitOn_intercalate _ (noDot other) (some also)] at numbers
  refine List.map_injective_iff.mpr (fun byte another texts => ?_) numbers
  exact UInt8.toNat_inj.mp (decimal_injective texts)

/-! ### Addresses that do not fit -/

theorem nodeCopyPeername_copies (ipAddr : Bytes) :
    CopiesWithin (2 ^ 32) (some (dotted ipAddr)) (nodeCopyPeername ipAddr) := by
  intro size counted
  simp only [nodeCopyPeername, inetNtop, Nat.mod_eq_of_lt counted]
  split_ifs with small
  · rfl
  · rfl

/-- The excess over the buffer of `2 ^ 32` bytes is all that `inet_ntop` sees of a larger one. -/
theorem copyKey_peername_stuck {ipAddr bytes : Bytes} (fuel : Nat) {bufSize : Nat}
    (aligned : 2 ^ 32 ∣ bufSize) (full : bytes.length ≤ 2 ^ 32) (some : 0 < bytes.length)
    (tooLong : 2 ^ 32 < bytes.length + ((dotted ipAddr).length + 1)) :
    copyKey (nodeCopyPeername ipAddr) fuel ⟨bytes, bufSize⟩ = none := by
  induction fuel generalizing bufSize with
  | zero => rfl
  | succ fuel inductionHypothesis =>
    obtain ⟨blocks, rfl⟩ := aligned
    have seen : (2 ^ 32 * blocks - bytes.length) % 2 ^ 32 < (dotted ipAddr).length + 1 := by
      omega
    have next : 2 ^ 32 ∣ ((2 ^ 32 * blocks) <<< 1) % 2 ^ 64 := by
      rw [Nat.shiftLeft_eq]
      omega
    rw [copyKey, nodeCopyPeername, inetNtop, if_pos seen]
    exact inductionHypothesis next

/-- If the addresses take more bytes than a `socklen_t` can count, the call does not return. -/
theorem copyKeys_peernames_stuck {key : Addr → Bytes} {addrs : List Addr} {buf : KeyBuf}
    (doubled : buf.Doubled 32) (four : ∀ addr ∈ addrs, (key addr).length = 4)
    (tooLong : 2 ^ 32 < buf.bytes.length +
      (addrs.flatMap fun addr => keyLine (some (dotted (key addr)))).length) :
    addrs.foldlM (fun buf addr => copyKey (nodeCopyPeername (key addr)) 64 buf) buf = none := by
  induction addrs generalizing buf with
  | nil =>
    have holds := doubled.sized.holds.trans doubled.within
    exact absurd tooLong (not_lt.mpr holds)
  | cons addr addrs inductionHypothesis =>
    have short := (length_dotted (four addr List.mem_cons_self)).2
    have line : (keyLine (some (dotted (key addr)))).length = (dotted (key addr)).length + 1 :=
      List.length_append
    rw [List.foldlM_cons]
    by_cases fits : buf.bytes.length + (keyLine (some (dotted (key addr)))).length ≤ 2 ^ 32
    · obtain ⟨bufSize, copied, after⟩ := @copyKey_line _ 62 _ _ _ doubled (by decide) (by decide)
        (nodeCopyPeername_copies (key addr)) (by rw [line, unamesize]; omega) fits
      rw [copied, Option.bind_eq_bind, Option.bind_some]
      refine inductionHypothesis after
        (fun other member => four other (List.mem_cons_of_mem _ member)) ?_
      rw [List.flatMap_cons, List.length_append] at tooLong
      rw [List.length_append]
      omega
    · -- The buffer has been doubled to `2 ^ 32` bytes, and this address is the first not to fit.
      rw [line, not_le] at fits
      obtain ⟨⟨holds, _, _⟩, ⟨power, size⟩, within⟩ := doubled
      have most : power ≤ 32 := (Nat.pow_le_pow_iff_right (by decide)).mp (size ▸ within)
      have least : 31 < power := by
        refine (Nat.pow_lt_pow_iff_right (show 1 < 2 by decide)).mp ?_
        rw [← size]
        omega
      obtain rfl : power = 32 := by omega
      have stuck := @copyKey_peername_stuck (key addr) buf.bytes 64 buf.bufSize (by rw [size])
        (holds.trans within) (by omega) fits
      rw [show buf = ⟨buf.bytes, buf.bufSize⟩ from rfl, stuck]
      rfl

/-! ### What the call lists -/

theorem userListPayload_filterMap (texts : Addr → Option Bytes) (addrs : List Addr) :
    userListPayload (addrs.filterMap texts) = addrs.flatMap fun addr => keyLine (texts addr) := by
  induction addrs with
  | nil => rfl
  | cons addr addrs inductionHypothesis =>
    rw [List.flatMap_cons, ← inductionHypothesis, List.filterMap_cons]
    cases texts addr with
    | none => rfl
    | some text => rfl

section Listing

variable {cmpfn : CmpFunc} {valid : Bytes → Prop} {key : Addr → Bytes} {members : Finset Addr}
  {power : Nat} {state : HtableState} {lists : Nat → List Addr} {copier : KeyCopier} {addr : Addr}

/-- A text that is copied is short and without NULs. -/
theorem KeyCopier.Reads.text_spec (reads : copier.Reads key members) (member : addr ∈ members)
    {text : Bytes} (copied : copier.text key addr = some text) :
    text.length < unamesize ∧ 0 ∉ text := by
  cases copier with
  | username stdcls =>
    obtain ⟨length, terminated, name⟩ := reads addr member
    rw [KeyCopier.text] at copied
    split at copied
    · cases copied
      rw [← name]
      refine ⟨?_, fun zero => cString_clean _ 0 zero rfl⟩
      rw [← length]
      exact (length_cString_lt_iff _).mpr terminated
    · cases copied
  | peername =>
    cases copied
    have four := reads addr member
    exact ⟨(length_dotted four).2.trans_lt (by decide), zero_not_mem_dotted four⟩

/-- Two nodes with the same text have the same key. -/
theorem KeyCopier.Reads.text_injective (reads : copier.Reads key members) {other : Addr}
    (member : addr ∈ members) (also : other ∈ members) {text : Bytes}
    (copied : copier.text key addr = some text) (again : copier.text key other = some text) :
    key addr = key other := by
  cases copier with
  | username stdcls =>
    rw [KeyCopier.text] at copied again
    split at copied
    · split at again
      · exact (Option.some.inj copied).trans (Option.some.inj again).symm
      · cases again
    · cases copied
  | peername =>
    have same : dotted (key addr) = dotted (key other) :=
      (Option.some.inj copied).trans (Option.some.inj again).symm
    exact dotted_injective (reads addr member) (reads other also) same

theorem KeyCopier.Reads.line_le (reads : copier.Reads key members) (member : addr ∈ members) :
    (keyLine (copier.text key addr)).length ≤ unamesize := by
  cases copied : copier.text key addr with
  | none => exact Nat.zero_le _
  | some text =>
    have short := (reads.text_spec member copied).1
    rw [keyLine, List.length_append, List.length_singleton]
    exact short

theorem sum_dotted {nodes : List Addr} (nodup : nodes.Nodup)
    (listed : ∀ addr, addr ∈ nodes ↔ addr ∈ members) :
    ∑ addr ∈ members, ((dotted (key addr)).length + 1) =
      (nodes.flatMap fun addr => keyLine (some (dotted (key addr)))).length := by
  have same : members = nodes.toFinset := by
    ext addr
    rw [List.mem_toFinset, listed]
  have line (addr : Addr) :
      (dotted (key addr)).length + 1 = (keyLine (some (dotted (key addr)))).length := by
    rw [keyLine, List.length_append, List.length_singleton]
  simp only [line]
  rw [same, List.sum_toFinset _ nodup, List.length_flatMap]

/-- Whoever copies the keys does it as it should below some power of two, and if the keys fit, their
lines fit below it. -/
theorem KeyCopier.Reads.copies (reads : copier.Reads key members)
    (fits : copier.Fits key members) {nodes : List Addr} (nodup : nodes.Nodup)
    (listed : ∀ addr, addr ∈ nodes ↔ addr ∈ members) (few : nodes.length ≤ 2 ^ 40) :
    ∃ limitPower, 11 ≤ limitPower ∧ limitPower ≤ 60 ∧
      (∀ addr ∈ nodes, CopiesWithin (2 ^ limitPower) (copier.text key addr)
        (copier.copyFn key addr)) ∧
      (nodes.flatMap fun addr => keyLine (copier.text key addr)).length ≤ 2 ^ limitPower := by
  cases copier with
  | username stdcls =>
    refine ⟨60, by decide, le_rfl, fun addr member => ?_, ?_⟩
    · have text : KeyCopier.text key (.username stdcls) addr = userText (stdcls addr) := by
        rw [KeyCopier.text, userText, (reads addr ((listed addr).mp member)).2.2]
      rw [text]
      exact nodeCopyUsername_copies _ _
    · have total := length_flatMap_keyLine_le fun addr member =>
        reads.line_le ((listed addr).mp member)
      simp only [unamesize] at total
      omega
  | peername =>
    refine ⟨32, by decide, by decide, fun addr _ => nodeCopyPeername_copies (key addr), ?_⟩
    rw [KeyCopier.Fits, sum_dotted nodup listed] at fits
    exact fits

/-- The bytes of the list, if all keys fit. -/
theorem htableCopyAllKeys_lists
    (invariant : TableInvariant cmpfn valid key members power state lists)
    (reads : copier.Reads key members) (fits : copier.Fits key members) :
    htableCopyAllKeys state (copier.copyFn key) =
      some (userListPayload ((nodesOf power lists).filterMap (copier.text key))) := by
  obtain ⟨limitPower, large, small, copies, total⟩ := reads.copies fits invariant.nodup_nodesOf
    invariant.mem_nodesOf invariant.length_nodesOf
  obtain ⟨bufSize, copied⟩ := copyKeys_lines (keyBuf_start large) large small copies
    (fun addr member => reads.line_le ((invariant.mem_nodesOf addr).mp member)) (by
      rw [List.length_nil, Nat.zero_add]
      exact total)
  rw [htableCopyAllKeys_eq invariant, copied, userListPayload_filterMap]
  rfl

/-- If the addresses do not fit, the call does not return. -/
theorem htableCopyAllKeys_stuck
    (invariant : TableInvariant cmpfn valid key members power state lists)
    (four : ∀ addr ∈ members, (key addr).length = 4)
    (tooLong : 2 ^ 32 < ∑ addr ∈ members, ((dotted (key addr)).length + 1)) :
    htableCopyAllKeys state (KeyCopier.copyFn key .peername) = none := by
  rw [sum_dotted invariant.nodup_nodesOf invariant.mem_nodesOf] at tooLong
  have stuck := copyKeys_peernames_stuck (keyBuf_start (show 11 ≤ 32 by decide))
    (fun addr member => four addr ((invariant.mem_nodesOf addr).mp member)) (by
      rw [List.length_nil, Nat.zero_add]
      exact tooLong)
  rw [htableCopyAllKeys_eq invariant]
  exact congrArg (Option.map KeyBuf.bytes) stuck

/-- For every table, the call lists the keys of all nodes that are not skipped exactly if the texts
of the addresses take no more bytes than a `socklen_t` can count, where they are addresses. -/
theorem key_listing_complete_iff
    (invariant : TableInvariant cmpfn valid key members power state lists)
    (reads : copier.Reads key members) :
    ListsKeys state copier key members ↔ copier.Fits key members := by
  constructor
  · rintro ⟨_, _, _, _, _, _, returned⟩
    cases copier with
    | username stdcls => trivial
    | peername =>
      refine not_lt.mp fun tooLong => ?_
      rw [htableCopyAllKeys_stuck invariant reads tooLong] at returned
      cases returned
  · intro fits
    refine ⟨invariant.size.visitedBuckets_eq, nodesOf power lists, invariant.nodup_nodesOf,
      invariant.mem_nodesOf, ?_, ?_, htableCopyAllKeys_lists invariant reads fits⟩
    · rw [List.Nodup, List.pairwise_filterMap]
      refine invariant.nodup_nodesOf.imp_of_mem ?_
      rintro addr other member also different text copied _ again rfl
      have inside := (invariant.mem_nodesOf addr).mp member
      have elsewhere := (invariant.mem_nodesOf other).mp also
      exact different (invariant.rehashable.distinctKeys addr inside other elsewhere
        (reads.text_injective inside elsewhere copied again))
    · intro text member
      obtain ⟨addr, inside, copied⟩ := List.mem_filterMap.mp member
      exact (reads.text_spec ((invariant.mem_nodesOf addr).mp inside) copied).2

end Listing

/-! ### A table of many addresses -/

/-- A table of two buckets for addresses. -/
def addressTable : StripedHtable := (htableCreate 1 1 100 0 ipCmp).get rfl

def addressStart : TableWorld := ⟨⟨fun _ => none, addressTable⟩, ∅⟩

theorem beBytes_injective {first second : Nat} (small : first < 2 ^ 32) (also : second < 2 ^ 32)
    (same : beBytes 4 first = beBytes 4 second) : first = second := by
  rw [← beValue_beBytes 4 first small, same, beValue_beBytes 4 second also]

/-- One address after another is added to the table. -/
theorem addresses_added (count : Nat) (small : count ≤ 2 ^ 32) :
    ∃ events world power lists, TableRun .addresses addressStart events world ∧
      TableInvariant ipCmp ValidAddress (beBytes 4) (Finset.range count) power world.state lists ∧
      ∀ addr, count ≤ addr → world.state.memory addr = none := by
  induction count with
  | zero =>
    have initial := (@htableCreate_invariant .addresses 1 1 100 0 addressTable (by decide)
      (by decide) (by decide) (by decide) rfl fun _ => none).table
    exact ⟨[], addressStart, 1, _, .nil,
      initial.congrKey fun addr member => absurd member (Finset.notMem_empty addr), fun _ _ => rfl⟩
  | succ count inductionHypothesis =>
    obtain ⟨events, ⟨state, owned⟩, power, lists, run, invariant, free⟩ :=
      inductionHypothesis (by omega)
    have dead : state.memory count = none := free count le_rfl
    have isValid : ValidAddress (beBytes 4 count) := length_beBytes 4 count
    have created := run.snoc (@TableStep.create _ _ _ count ⟨beBytes 4 count, none, 1⟩ dead isValid)
    have outside : count ∉ Finset.range count := Finset.notMem_range_self
    have same : ∀ addr ∈ Finset.range count,
        (Function.update state.memory count (some ⟨beBytes 4 count, none, 1⟩) addr).map
            (fun node => (node.key, node.next)) =
          (state.memory addr).map fun node => (node.key, node.next) := by
      intro addr member
      rw [Function.update_of_ne (ne_of_mem_of_not_mem member outside)]
    have before := @TableInvariant.congr _ _ _ _ _ _
      ⟨Function.update state.memory count (some ⟨beBytes 4 count, none, 1⟩), state.htable⟩ _
      invariant rfl same
    have live := Function.update_self count (some (⟨beBytes 4 count, none, 1⟩ : Node)) state.memory
    obtain ⟨answer, next, newPower, others, called, nodes, outcome⟩ := htableAdd_spec ipCmp_keyOrder
      before outside live rfl isValid (by
        rw [Finset.card_range]
        omega)
    have few : state.htable.elementCount < 2 ^ 40 := by
      rw [invariant.rehashable.elementCount, Finset.card_range]
      omega
    have added := created.snoc (.add (Set.mem_insert ..) live few called)
    rcases outcome with ⟨_, ⟨other, member, equal⟩, _⟩ | ⟨rfl, _, after⟩
    · have below := Finset.mem_range.mp member
      exact absurd (beBytes_injective (by omega) (by omega) equal) (ne_of_lt below)
    · refine ⟨_, _, newPower, others, added, ?_, fun addr above => ?_⟩
      · rw [Finset.range_add_one]
        exact after
      · have node := nodes addr
        have missing : Function.update state.memory count
            (some (⟨beBytes 4 count, none, 1⟩ : Node)) addr = none := by
          have larger : addr ≠ count := (Nat.lt_of_succ_le above).ne'
          rw [Function.update_of_ne larger]
          exact free addr (Nat.le_of_succ_le above)
        simp only [missing] at node
        exact Option.map_eq_none_iff.mp node

/-- The first three addresses are listed. -/
theorem key_listing_complete_iff_three : ∃ events world,
    TableRun .addresses addressStart events world ∧
      ListsKeys world.state .peername (beBytes 4) (Finset.range 3) := by
  obtain ⟨events, world, power, lists, run, invariant, _⟩ := addresses_added 3 (by decide)
  have fits : KeyCopier.Fits (beBytes 4) (Finset.range 3) .peername := by
    rw [KeyCopier.Fits]
    decide +kernel
  have reads : KeyCopier.Reads (beBytes 4) (Finset.range 3) .peername :=
    fun addr _ => length_beBytes 4 addr
  exact ⟨events, world, run, (key_listing_complete_iff invariant reads).mpr fits⟩

/-- A table with the first `2 ^ 30` addresses does not list them. -/
theorem key_listing_stuck : ∃ events world power lists,
    TableRun .addresses addressStart events world ∧
      TableInvariant ipCmp ValidAddress (beBytes 4) (Finset.range (2 ^ 30)) power world.state lists ∧
      KeyCopier.Reads (beBytes 4) (Finset.range (2 ^ 30)) .peername ∧
      htableCopyAllKeys world.state (fun addr => nodeCopyPeername (beBytes 4 addr)) = none ∧
      ¬ ListsKeys world.state .peername (beBytes 4) (Finset.range (2 ^ 30)) := by
  obtain ⟨events, world, power, lists, run, invariant, _⟩ :=
    addresses_added (2 ^ 30) (Nat.pow_le_pow_right (by decide) (by decide))
  have four : ∀ addr ∈ Finset.range (2 ^ 30), (beBytes 4 addr).length = 4 :=
    fun addr _ => length_beBytes 4 addr
  have tooLong : 2 ^ 32 < ∑ addr ∈ Finset.range (2 ^ 30), ((dotted (beBytes 4 addr)).length + 1) := by
    have least := Finset.card_nsmul_le_sum (Finset.range (2 ^ 30))
      (fun addr => (dotted (beBytes 4 addr)).length + 1) 8 fun addr member =>
        Nat.succ_le_succ (length_dotted (four addr member)).1
    rw [Finset.card_range] at least
    exact lt_of_lt_of_le (by decide) least
  have stuck := htableCopyAllKeys_stuck invariant four tooLong
  refine ⟨events, world, power, lists, run, invariant, four, stuck, ?_⟩
  rintro ⟨_, _, _, _, _, _, returned⟩
  rw [stuck] at returned
  cases returned

end Lwmsg
