/-
This file models `htable_copy_all_keys` of `server/htable.c` with the `copy_fn` for the table of
clients, and proves that it copies the names of the clients that are connected, one after another
and each with its NUL.

The table may change between two locks of a call, so a list need not be that of one moment; here no
other call runs at the same time. The buffer grows by `xrealloc`, which does not return without
memory.
-/

import Lwmsg.Clhandle
import Lwmsg.HtableMap

namespace Lwmsg

open Bytes Pointers SinglyLinked

/-! ### Copying the keys of a table -/

/-- What a `copy_fn` answers: `KEY_SKIP`, `BUF_TOOSMALL` or how much it copied, with the bytes. -/
inductive KeyCopied
  | keySkip
  | bufTooSmall
  | copied (bytes : Bytes)
  deriving DecidableEq, Repr

/-- `node_copy_username`. -/
def nodeCopyUsername (stdc : StdClient) (bufSize : Nat) : KeyCopied :=
  if ¬ isNotDisconnected stdc.clState then .keySkip
  else
    let uname := cString stdc.username ++ [0]
    if uname.length > bufSize then .bufTooSmall else .copied uname

/-- The buffer of `htable_copy_all_keys`: the bytes before `buf_offset`, and `buf_size`. -/
structure KeyBuf where
  bytes : Bytes
  bufSize : Nat
  deriving DecidableEq, Repr

/-- The calls of `copy_fn` for one node, with their fuel. -/
def copyKey (copyFn : Nat → KeyCopied) : Nat → KeyBuf → Option KeyBuf
  | 0, _ => none
  | fuel + 1, buf =>
    match copyFn (buf.bufSize - buf.bytes.length) with
    | .bufTooSmall => copyKey copyFn fuel { buf with bufSize := (buf.bufSize <<< 1) % 2 ^ 64 }
    | .keySkip => some buf
    | .copied bytes => some { buf with bytes := buf.bytes ++ bytes }

/-- The keys of one bucket. No size is left after more than 64 shifts. -/
def copyBucket (copyFn : Addr → Nat → KeyCopied) (memory : Memory Node) :
    Nat → Option Addr → KeyBuf → Option KeyBuf
  | 0, _, _ => none
  | _ + 1, none, buf => some buf
  | fuel + 1, some iteratorNode, buf => do
    let buf ← copyKey (copyFn iteratorNode) 64 buf
    let node ← load memory (some iteratorNode)
    copyBucket copyFn memory fuel node.next buf

/-- `htable_copy_all_keys`. -/
def htableCopyAllKeys (state : HtableState) (copyFn : Addr → Nat → KeyCopied) : Option Bytes :=
  let htable := state.htable
  if htable.bucketCount = 0 ∨ htable.elementCount = 0 then some []
  else do
    let buf ← (List.range htable.lockCount).foldlM (fun buf i =>
      (List.range' (i <<< htable.bucketsPerLockPow2) (1 <<< htable.bucketsPerLockPow2)).foldlM
        (fun buf j => copyBucket copyFn state.memory state.fuel (htable.buckets j) buf) buf)
      ⟨[], 1024⟩
    return buf.bytes

/-- The buckets in the order in which the loops visit them. -/
def visitedBuckets (htable : StripedHtable) : List Nat :=
  (List.range htable.lockCount).flatMap fun i =>
    List.range' (i <<< htable.bucketsPerLockPow2) (1 <<< htable.bucketsPerLockPow2)

/-! ### One loop over all nodes -/

theorem foldlM_flatMap {First Second State : Type} (parts : First → List Second)
    (step : State → Second → Option State) (firsts : List First) (state : State) :
    (firsts.flatMap parts).foldlM step state =
      firsts.foldlM (fun state first => (parts first).foldlM step state) state := by
  induction firsts generalizing state with
  | nil => rfl
  | cons first firsts inductionHypothesis =>
    rw [List.flatMap_cons, List.foldlM_append, List.foldlM_cons]
    exact bind_congr fun next => inductionHypothesis next

theorem foldlM_congr {Value State : Type} {step other : State → Value → Option State}
    {values : List Value} (same : ∀ value ∈ values, ∀ state, step state value = other state value)
    (state : State) : values.foldlM step state = values.foldlM other state := by
  induction values generalizing state with
  | nil => rfl
  | cons value values inductionHypothesis =>
    rw [List.foldlM_cons, List.foldlM_cons, same value List.mem_cons_self]
    exact bind_congr fun next =>
      inductionHypothesis (fun value member => same value (List.mem_cons_of_mem _ member)) next

/-- The buckets of all locks are all buckets. -/
theorem flatMap_range_range' (count width : Nat) :
    (List.range count).flatMap (fun i => List.range' (i * width) width) =
      List.range (count * width) := by
  induction count with
  | zero => rw [Nat.zero_mul, List.range_zero, List.flatMap_nil]
  | succ count inductionHypothesis =>
    rw [List.range_succ, List.flatMap_append, inductionHypothesis, List.flatMap_singleton,
      List.range_eq_range', List.range_eq_range', Nat.succ_mul, ← List.range'_append_1,
      Nat.zero_add]

/-- The loops over the locks and the buckets of each are one loop over all buckets. -/
theorem htableCopyAllKeys_visits (state : HtableState) (copyFn : Addr → Nat → KeyCopied)
    (some' : ¬ (state.htable.bucketCount = 0 ∨ state.htable.elementCount = 0)) :
    htableCopyAllKeys state copyFn = ((visitedBuckets state.htable).foldlM
      (fun buf j => copyBucket copyFn state.memory state.fuel (state.htable.buckets j) buf)
        ⟨[], 1024⟩).map KeyBuf.bytes := by
  rw [htableCopyAllKeys, if_neg some', visitedBuckets, foldlM_flatMap]
  simp only [Option.bind_eq_bind, Option.pure_def, Option.map_eq_bind]
  rfl

theorem TableSize.visitedBuckets_eq {htable : StripedHtable} {power : Nat}
    (size : TableSize htable power) :
    visitedBuckets htable = List.range htable.bucketCount := by
  simp only [visitedBuckets, Nat.shiftLeft_eq, Nat.one_mul]
  rw [flatMap_range_range', size.lockCount, ← Nat.pow_add, Nat.sub_add_cancel size.lockFits,
    size.bucketCount]

section Copying

variable {copyFn : Addr → Nat → KeyCopied} {state : HtableState} {buf : KeyBuf}

theorem copyBucket_eq {fuel : Nat} {start : Option Addr} {addrs : List Addr}
    (path : Path (linkOf state.memory) start addrs none)
    (live : ∀ addr ∈ addrs, ∃ node, state.memory addr = some node) (enough : addrs.length < fuel) :
    copyBucket copyFn state.memory fuel start buf =
      addrs.foldlM (fun buf addr => copyKey (copyFn addr) 64 buf) buf := by
  induction addrs generalizing fuel start buf with
  | nil =>
    cases fuel with
    | zero => cases enough
    | succ fuel =>
      obtain rfl : start = none := path
      rfl
  | cons addr addrs inductionHypothesis =>
    cases fuel with
    | zero => cases enough
    | succ fuel =>
      obtain ⟨rfl, path⟩ := path
      obtain ⟨node, found⟩ := live addr List.mem_cons_self
      rw [linkOf, found, Option.bind_some] at path
      rw [copyBucket, List.foldlM_cons]
      refine bind_congr fun next => ?_
      rw [load_some, found]
      exact inductionHypothesis path (fun addr member => live addr (List.mem_cons_of_mem _ member))
        (Nat.lt_of_succ_lt_succ enough)

variable {cmpfn : CmpFunc} {valid : Bytes → Prop} {key : Addr → Bytes} {members : Finset Addr}
  {power : Nat} {lists : Nat → List Addr}

/-- The nodes of a table in the order of their buckets. -/
def nodesOf (power : Nat) (lists : Nat → List Addr) : List Addr :=
  (List.range (2 ^ power)).flatMap lists

theorem TableInvariant.mem_nodesOf
    (invariant : TableInvariant cmpfn valid key members power state lists) (addr : Addr) :
    addr ∈ nodesOf power lists ↔ addr ∈ members := by
  rw [nodesOf, List.mem_flatMap]
  constructor
  · rintro ⟨index, inside, member⟩
    exact ((invariant.placed index (List.mem_range.mp inside) addr).mp member).1
  · intro member
    have inside := bucketOf_lt power (key addr)
    exact ⟨_, List.mem_range.mpr inside, (invariant.placed _ inside addr).mpr ⟨member, rfl⟩⟩

theorem TableInvariant.nodup_nodesOf
    (invariant : TableInvariant cmpfn valid key members power state lists) :
    (nodesOf power lists).Nodup := by
  have chains := invariant.rehashable.buckets.chains
  rw [invariant.size.bucketCount] at chains
  rw [nodesOf, List.nodup_flatMap]
  refine ⟨fun index inside => chains.distinct index (List.mem_range.mp inside), ?_⟩
  refine List.Pairwise.imp_of_mem ?_ List.nodup_range
  intro index another inside elsewhere different addr member also
  exact different (chains.apart index (List.mem_range.mp inside) another
    (List.mem_range.mp elsewhere) addr member also)

/-- The call copies the keys of all nodes. -/
theorem htableCopyAllKeys_eq
    (invariant : TableInvariant cmpfn valid key members power state lists) :
    htableCopyAllKeys state copyFn =
      ((nodesOf power lists).foldlM (fun buf addr => copyKey (copyFn addr) 64 buf)
        ⟨[], 1024⟩).map KeyBuf.bytes := by
  have size := invariant.size
  by_cases empty : state.htable.bucketCount = 0 ∨ state.htable.elementCount = 0
  · have none : members = ∅ := by
      rcases empty with noBuckets | noElements
      · rw [size.bucketCount] at noBuckets
        exact absurd noBuckets (Nat.two_pow_pos power).ne'
      · rw [invariant.rehashable.elementCount] at noElements
        exact Finset.card_eq_zero.mp noElements
    have nodes : nodesOf power lists = [] := by
      refine List.eq_nil_iff_forall_not_mem.mpr fun addr member => ?_
      rw [invariant.mem_nodesOf, none] at member
      exact Finset.notMem_empty addr member
    rw [nodes, htableCopyAllKeys, if_pos empty]
    rfl
  · have buckets : ∀ j ∈ List.range (2 ^ power), ∀ buf,
        copyBucket copyFn state.memory state.fuel (state.htable.buckets j) buf =
          (lists j).foldlM (fun buf addr => copyKey (copyFn addr) 64 buf) buf := by
      intro j inside buf
      have within := size.bucketCount ▸ List.mem_range.mp inside
      refine copyBucket_eq (invariant.rehashable.buckets.chains.path j within) ?_
        (invariant.rehashable.length_lt_fuel (List.mem_range.mp inside))
      intro addr member
      obtain ⟨node, found, _⟩ := invariant.rehashable.buckets.live j within addr member
      exact ⟨node, found⟩
    rw [htableCopyAllKeys_visits state copyFn empty, size.visitedBuckets_eq, size.bucketCount,
      foldlM_congr buckets, ← foldlM_flatMap, ← nodesOf]

end Copying

/-! ### A buffer that is doubled -/

/-- What a key adds to the list, unless its node is skipped. -/
def keyLine : Option Bytes → Bytes
  | none => []
  | some text => text ++ [0]

/-- A `copy_fn` skips a node or copies its key where there is room, as long as less than `limit`
bytes are left. -/
def CopiesWithin (limit : Nat) (text : Option Bytes) (copyFn : Nat → KeyCopied) : Prop :=
  ∀ size < limit, copyFn size =
    match text with
    | none => .keySkip
    | some text => if text.length + 1 > size then .bufTooSmall else .copied (text ++ [0])

/-- The buffer is large enough for what is in it and not much larger. -/
structure KeyBuf.Sized (buf : KeyBuf) : Prop where
  holds : buf.bytes.length ≤ buf.bufSize
  least : 1024 ≤ buf.bufSize
  most : buf.bufSize ≤ 1024 + 2 * (buf.bytes.length + unamesize)

/-- The buffer was doubled a few times, up to a limit. -/
structure KeyBuf.Doubled (limitPower : Nat) (buf : KeyBuf) : Prop where
  sized : buf.Sized
  power : ∃ power, buf.bufSize = 2 ^ power
  within : buf.bufSize ≤ 2 ^ limitPower

theorem KeyBuf.Sized.append {buf : KeyBuf} (sized : buf.Sized) {entry : Bytes}
    (room : entry.length ≤ buf.bufSize - buf.bytes.length) :
    KeyBuf.Sized { buf with bytes := buf.bytes ++ entry } := by
  obtain ⟨holds, least, most⟩ := sized
  refine ⟨?_, least, ?_⟩
  · show (buf.bytes ++ entry).length ≤ buf.bufSize
    rw [List.length_append]
    omega
  · show buf.bufSize ≤ 1024 + 2 * ((buf.bytes ++ entry).length + unamesize)
    rw [List.length_append]
    omega

theorem keyBuf_start {limitPower : Nat} (large : 11 ≤ limitPower) :
    KeyBuf.Doubled limitPower ⟨[], 1024⟩ where
  sized := ⟨Nat.zero_le _, le_rfl, Nat.le_add_right _ _⟩
  power := ⟨10, rfl⟩
  within := (show 1024 ≤ 2 ^ 11 by decide).trans (Nat.pow_le_pow_right (by decide) large)

section Doubling

variable {limitPower fuel : Nat} {buf : KeyBuf} {text : Option Bytes} {copyFn : Nat → KeyCopied}

/-- What is left of a buffer is less than its limit. -/
theorem KeyBuf.Doubled.left_lt (doubled : buf.Doubled limitPower) (large : 11 ≤ limitPower) :
    buf.bufSize - buf.bytes.length < 2 ^ limitPower := by
  obtain ⟨⟨holds, least, most⟩, _, within⟩ := doubled
  have limit : 2 ^ 11 ≤ 2 ^ limitPower := Nat.pow_le_pow_right (by decide) large
  simp only [unamesize] at most
  omega

/-- A buffer that is too small for a key that fits below the limit can be doubled. -/
theorem KeyBuf.Doubled.double (doubled : buf.Doubled limitPower) {line : Bytes}
    (short : line.length ≤ unamesize) (fits : buf.bytes.length + line.length ≤ 2 ^ limitPower)
    (tooSmall : buf.bufSize - buf.bytes.length < line.length) :
    KeyBuf.Doubled limitPower { buf with bufSize := 2 * buf.bufSize } := by
  obtain ⟨⟨holds, least, most⟩, ⟨power, size⟩, _⟩ := doubled
  simp only [unamesize] at short most
  have below : 2 ^ power < 2 ^ limitPower := by omega
  have next : 2 * buf.bufSize = 2 ^ (power + 1) := by rw [size, Nat.pow_succ, Nat.mul_comm]
  refine ⟨⟨?_, ?_, ?_⟩, ⟨power + 1, next⟩, ?_⟩
  · show buf.bytes.length ≤ 2 * buf.bufSize
    omega
  · show 1024 ≤ 2 * buf.bufSize
    omega
  · show 2 * buf.bufSize ≤ 1024 + 2 * (buf.bytes.length + 32)
    omega
  · show 2 * buf.bufSize ≤ 2 ^ limitPower
    rw [next]
    exact Nat.pow_le_pow_right (by decide) ((Nat.pow_lt_pow_iff_right (by decide)).mp below)

/-- A key that there is room for is copied. -/
theorem copyKey_room (doubled : buf.Doubled limitPower) (large : 11 ≤ limitPower)
    (copies : CopiesWithin (2 ^ limitPower) text copyFn)
    (room : (keyLine text).length ≤ buf.bufSize - buf.bytes.length) :
    copyKey copyFn (fuel + 1) buf = some { buf with bytes := buf.bytes ++ keyLine text } ∧
      KeyBuf.Doubled limitPower { buf with bytes := buf.bytes ++ keyLine text } := by
  refine ⟨?_, doubled.sized.append room, doubled.power, doubled.within⟩
  rw [copyKey, copies _ (doubled.left_lt large)]
  cases text with
  | none =>
    rw [keyLine, List.append_nil]
  | some line =>
    have length : (keyLine (some line)).length = line.length + 1 := List.length_append
    rw [length] at room
    simp only [if_neg (not_lt.mpr room)]
    rfl

/-- A key is copied at the second call at the latest, when the buffer is twice as large. -/
theorem copyKey_line (doubled : buf.Doubled limitPower) (large : 11 ≤ limitPower)
    (small : limitPower ≤ 60) (copies : CopiesWithin (2 ^ limitPower) text copyFn)
    (short : (keyLine text).length ≤ unamesize)
    (fits : buf.bytes.length + (keyLine text).length ≤ 2 ^ limitPower) :
    ∃ bufSize, copyKey copyFn (fuel + 2) buf = some ⟨buf.bytes ++ keyLine text, bufSize⟩ ∧
      KeyBuf.Doubled limitPower ⟨buf.bytes ++ keyLine text, bufSize⟩ := by
  by_cases room : (keyLine text).length ≤ buf.bufSize - buf.bytes.length
  · exact ⟨buf.bufSize, copyKey_room doubled large copies room⟩
  · have tooSmall := not_le.mp room
    have grown := doubled.double short fits tooSmall
    have limit : 2 ^ limitPower ≤ 2 ^ 60 := Nat.pow_le_pow_right (by decide) small
    have larger : (buf.bufSize <<< 1) % 2 ^ 64 = 2 * buf.bufSize := by
      have within := doubled.within
      rw [Nat.shiftLeft_eq, Nat.mod_eq_of_lt (by omega)]
      omega
    have enough : (keyLine text).length ≤ 2 * buf.bufSize - buf.bytes.length := by
      obtain ⟨holds, least, _⟩ := doubled.sized
      simp only [unamesize] at short
      omega
    refine ⟨2 * buf.bufSize, ?_, (@copyKey_room _ fuel _ _ _ grown large copies enough).2⟩
    rw [copyKey, copies _ (doubled.left_lt large)]
    cases text with
    | none =>
      exact absurd tooSmall (Nat.not_lt_zero _)
    | some line =>
      have length : (keyLine (some line)).length = line.length + 1 := List.length_append
      rw [length] at tooSmall
      simp only [if_pos tooSmall, larger]
      exact (copyKey_room grown large copies enough).1

end Doubling

/-- The keys are copied one after another, if all of them fit below the limit. -/
theorem copyKeys_lines {limitPower : Nat} {texts : Addr → Option Bytes}
    {copyFn : Addr → Nat → KeyCopied} {addrs : List Addr} {buf : KeyBuf}
    (doubled : buf.Doubled limitPower) (large : 11 ≤ limitPower) (small : limitPower ≤ 60)
    (copies : ∀ addr ∈ addrs, CopiesWithin (2 ^ limitPower) (texts addr) (copyFn addr))
    (short : ∀ addr ∈ addrs, (keyLine (texts addr)).length ≤ unamesize)
    (fits : buf.bytes.length + (addrs.flatMap fun addr => keyLine (texts addr)).length ≤
      2 ^ limitPower) :
    ∃ bufSize, addrs.foldlM (fun buf addr => copyKey (copyFn addr) 64 buf) buf =
      some ⟨buf.bytes ++ addrs.flatMap fun addr => keyLine (texts addr), bufSize⟩ := by
  induction addrs generalizing buf with
  | nil => exact ⟨buf.bufSize, by rw [List.flatMap_nil, List.append_nil]; rfl⟩
  | cons addr addrs inductionHypothesis =>
    rw [List.flatMap_cons, List.length_append] at fits
    obtain ⟨bufSize, copied, after⟩ := @copyKey_line _ 62 _ _ _ doubled large small
      (copies addr List.mem_cons_self) (short addr List.mem_cons_self) (by omega)
    obtain ⟨last, rest⟩ := inductionHypothesis after
      (fun other member => copies other (List.mem_cons_of_mem _ member))
      (fun other member => short other (List.mem_cons_of_mem _ member)) (by
        rw [List.length_append]
        omega)
    refine ⟨last, ?_⟩
    rw [List.foldlM_cons, copied, Option.bind_eq_bind, Option.bind_some, rest, List.flatMap_cons,
      List.append_assoc]

/-! ### The names of the connected clients -/

/-- What one client adds to the list. -/
def userEntry (stdc : StdClient) : Bytes :=
  if isNotDisconnected stdc.clState then cString stdc.username ++ [0] else []

/-- The name of a client that is connected. -/
def userText (stdc : StdClient) : Option Bytes :=
  if isNotDisconnected stdc.clState then some (cString stdc.username) else none

theorem keyLine_userText (stdc : StdClient) : keyLine (userText stdc) = userEntry stdc := by
  rw [userText, userEntry]
  split
  · rfl
  · rfl

theorem nodeCopyUsername_copies (limit : Nat) (stdc : StdClient) :
    CopiesWithin limit (userText stdc) (nodeCopyUsername stdc) := by
  intro size _
  by_cases connected : isNotDisconnected stdc.clState = true
  · rw [nodeCopyUsername, userText, if_neg (not_not_intro connected), if_pos connected]
    simp only [List.length_append, List.length_singleton]
  · rw [nodeCopyUsername, userText, if_pos connected, if_neg connected]

theorem TableInvariant.length_nodesOf {cmpfn : CmpFunc} {valid : Bytes → Prop} {key : Addr → Bytes}
    {members : Finset Addr} {power : Nat} {state : HtableState} {lists : Nat → List Addr}
    (invariant : TableInvariant cmpfn valid key members power state lists) :
    (nodesOf power lists).length ≤ 2 ^ 40 := by
  refine le_trans (le_of_eq ?_) invariant.few
  rw [← List.toFinset_card_of_nodup invariant.nodup_nodesOf]
  congr 1
  ext addr
  rw [List.mem_toFinset, invariant.mem_nodesOf]

/-- Names that are short take no more than a buffer can hold. -/
theorem length_flatMap_keyLine_le {texts : Addr → Option Bytes} {addrs : List Addr}
    (short : ∀ addr ∈ addrs, (keyLine (texts addr)).length ≤ unamesize) :
    (addrs.flatMap fun addr => keyLine (texts addr)).length ≤ addrs.length * unamesize := by
  induction addrs with
  | nil => exact Nat.zero_le _
  | cons addr addrs inductionHypothesis =>
    have rest := inductionHypothesis fun other member => short other (List.mem_cons_of_mem _ member)
    have line := short addr List.mem_cons_self
    rw [List.flatMap_cons, List.length_append, List.length_cons, Nat.succ_mul]
    omega

/-- What the server answers to the request for the list of users. -/
theorem htableCopyAllKeys_usernames {state : HtableState} {cmpfn : CmpFunc} {valid : Bytes → Prop}
    {key : Addr → Bytes} {members : Finset Addr} {power : Nat} {lists : Nat → List Addr}
    {stdcls : Addr → StdClient}
    (invariant : TableInvariant cmpfn valid key members power state lists)
    (short : ∀ addr ∈ members, isNotDisconnected (stdcls addr).clState = true →
      (cString (stdcls addr).username).length < unamesize) :
    htableCopyAllKeys state (fun addr => nodeCopyUsername (stdcls addr)) =
      some ((nodesOf power lists).flatMap fun addr => userEntry (stdcls addr)) := by
  have lines : ∀ addr ∈ nodesOf power lists,
      (keyLine (userText (stdcls addr))).length ≤ unamesize := by
    intro addr member
    rw [keyLine_userText, userEntry]
    split
    · rename_i connected
      rw [List.length_append, List.length_singleton]
      exact short addr ((invariant.mem_nodesOf addr).mp member) connected
    · exact Nat.zero_le _
  have few := invariant.length_nodesOf
  have total := length_flatMap_keyLine_le lines
  obtain ⟨bufSize, copied⟩ := copyKeys_lines (keyBuf_start (show 11 ≤ 60 by decide)) (by decide)
    le_rfl (fun addr _ => nodeCopyUsername_copies (2 ^ 60) (stdcls addr)) lines (by
      rw [List.length_nil]
      simp only [unamesize] at total
      omega)
  rw [htableCopyAllKeys_eq invariant, copied]
  simp only [keyLine_userText]
  rfl

end Lwmsg
