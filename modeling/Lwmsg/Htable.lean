/-
This file models the striped hash table of `server/htable.c` at the level of its pointers. The
buckets are an array of singly linked lists of nodes, which the callers allocate and the table
links.

The locks are taken in full by each call, so a sequence of calls is what any schedule of threads
amounts to; of the lock array only its length is kept. Which of its allocations succeed is given to
`htable_resize`. The loops that follow links have fuel for one turn more than the table has elements
and fail when it runs out.
-/

import Lwmsg.Bytes
import Lwmsg.SinglyLinked
import Mathlib.Data.List.Lex

namespace Lwmsg

open Bytes Pointers

/-! ### Keys -/

/-- `cmp_func`: two keys and their sizes. -/
abbrev CmpFunc := Bytes → Bytes → Nat → Nat → Int

/-- The conversion of a `uint32_t` to `int32_t`. -/
def toInt32 (value : Nat) : Int := if value < 2 ^ 31 then value else value - 2 ^ 32

/-- `std_client_cmp`. -/
def stdClientCmp : CmpFunc := fun unamea unameb lena lenb =>
  let res := strncmp (min lena lenb) unamea unameb
  if res ≠ 0 then res else toInt32 lena - toInt32 lenb

/-- The loop of `ip_cmp` over the bytes of two addresses, which lie in memory in network order and
are read from the lowest one up. -/
def ipCmpLoop : Nat → Bytes → Bytes → Int
  | 0, _, _ => 0
  | count + 1, ipA, ipB =>
    let cmpres : Int := (ipA.headD 0).toNat - (ipB.headD 0).toNat
    if cmpres ≠ 0 then cmpres else ipCmpLoop count ipA.tail ipB.tail

/-- `ip_cmp`. -/
def ipCmp : CmpFunc := fun a b lena _ => ipCmpLoop lena a b

/-- `FNV1A_32_PRIME`. -/
@[simp] def fnv1a32Prime : UInt32 := 0x01000193

/-- `FNV1A_32_OFFSET_BASIS`. -/
@[simp] def fnv1a32OffsetBasis : UInt32 := 0x811C9DC5

/-- `fnv1a_32_hash`. It asserts that its input is not empty. -/
def fnv1a32Hash (input : Bytes) : Option Nat :=
  if input = [] then none
  else some (input.foldl (fun hash byte => (hash ^^^ byte.toUInt32) * fnv1a32Prime)
    fnv1a32OffsetBasis).toNat

/-! ### The table -/

/-- `node`. `key_size` is the length of `key`, and `free_fn` releases the node. -/
structure Node where
  key : Bytes
  next : Option Addr
  refCnt : Nat
  deriving DecidableEq, Repr

/-- `striped_htable` without its locks. -/
structure StripedHtable where
  buckets : Nat → Option Addr
  cmpfn : CmpFunc
  bucketCount : Nat
  elementCount : Nat
  resizeThresElemCount : Nat
  lockCount : Nat
  bucketsPerLockPow2 : Nat
  thresholdLoadFactor : Nat
  htablePow2ResizeFactor : Nat

/-- A table and the memory its nodes lie in. -/
structure HtableState where
  memory : Memory Node
  htable : StripedHtable

/-- `__atomic_fetch_add` of 1 on a counter of some bits. -/
def atomicInc (bits value : Nat) : Nat := (value + 1) % 2 ^ bits

/-- `__atomic_sub_fetch` of 1 on a counter of some bits. -/
def atomicDec (bits value : Nat) : Nat := if value = 0 then 2 ^ bits - 1 else value - 1

theorem atomicInc_of_lt {bits value : Nat} (small : value + 1 < 2 ^ bits) :
    atomicInc bits value = value + 1 := Nat.mod_eq_of_lt small

theorem atomicDec_of_pos {bits value : Nat} (positive : 0 < value) :
    atomicDec bits value = value - 1 := if_neg positive.ne'

/-- `C_THRES_ELEM`. -/
def cThresElem (thresFactor bucketCount : Nat) : Nat := bucketCount * thresFactor % 2 ^ 64 / 100

/-- `htable_create`, whose assertions fail with `none`. -/
def htableCreate (htablePow2SizeFactor htablePow2ResizeFactor thresLoadFactor bucketsPerLockPow2 : Nat)
    (cmpfn : CmpFunc) : Option StripedHtable :=
  if thresLoadFactor = 0 ∨ htablePow2SizeFactor < bucketsPerLockPow2 ∨ htablePow2ResizeFactor = 0 ∨
      64 ≤ htablePow2ResizeFactor ∨ 64 ≤ htablePow2SizeFactor then none
  else
    let bucketCount := 1 <<< htablePow2SizeFactor
    let lockCount := bucketCount >>> bucketsPerLockPow2
    some {
      buckets := fun _ => none
      cmpfn
      bucketCount
      elementCount := 0
      resizeThresElemCount := cThresElem thresLoadFactor bucketCount
      lockCount := if lockCount = 0 then 1 else lockCount
      bucketsPerLockPow2
      thresholdLoadFactor := thresLoadFactor
      htablePow2ResizeFactor }

namespace HtableState

/-- `addr->next = target`. -/
def setNext (state : HtableState) (addr : Addr) (target : Option Addr) : Option HtableState := do
  let memory ← store state.memory (some addr) fun node => { node with next := target }
  return { state with memory }

/-- `if (!prev) htable->buckets[index] = target; else prev->next = target;` -/
def setLink (state : HtableState) (index : Nat) (prev target : Option Addr) : Option HtableState :=
  match prev with
  | none => some { state with
      htable := { state.htable with
        buckets := Function.update state.htable.buckets index target } }
  | some prev => state.setNext prev target

/-- The bucket a key belongs to. -/
def bucketIndex (state : HtableState) (key : Bytes) : Option Nat :=
  (fnv1a32Hash key).map fun hash => hash &&& (state.htable.bucketCount - 1)

/-- The lock of a bucket. There must be one. -/
def lockOf (state : HtableState) (bucketIndex : Nat) : Option Nat :=
  let lockIndex := bucketIndex >>> state.htable.bucketsPerLockPow2
  if lockIndex < state.htable.lockCount then some lockIndex else none

/-- `cmpfn` on a key and the key of a node. -/
def compare (state : HtableState) (key : Bytes) (node : Node) : Int :=
  state.htable.cmpfn key node.key key.length node.key.length

/-- The fuel of the loops that follow links. -/
def fuel (state : HtableState) : Nat := state.htable.elementCount + 1

end HtableState

/-! ### Resizing -/

/-- Which of the calls that `htable_resize` makes succeed. -/
structure ResizeFaults where
  reallocBuckets : Bool
  reallocLocks : Bool
  lockInit : Nat → Bool
  shrinkLocks : Bool
  shrinkBuckets : Bool

/-- All of them. -/
def ResizeFaults.none : ResizeFaults := ⟨true, true, fun _ => true, true, true⟩

/-- The loop of `htable_resize` that chooses the size, with its fuel. It answers how often it grew
the table, or nothing where `bucket_count` overflowed. -/
def htableGrow : Nat → StripedHtable → Nat → Nat → Option (StripedHtable × Option Nat)
  | 0, _, _, _ => none
  | fuel + 1, htable, oldBucketCount, resizeCount =>
    if htable.resizeThresElemCount ≤ htable.elementCount then
      let bucketCount := (htable.bucketCount <<< htable.htablePow2ResizeFactor) % 2 ^ 64
      if bucketCount < oldBucketCount then
        some ({ htable with bucketCount := oldBucketCount }, none)
      else
        htableGrow fuel { htable with
          bucketCount
          resizeThresElemCount := cThresElem htable.thresholdLoadFactor bucketCount }
          oldBucketCount ((resizeCount + 1) % 2 ^ 8)
    else
      some (htable, some resizeCount)

/-- The inner loop of the rehash: `src` leaves its bucket, where `srcPrev` is in front of it, and
goes in front of the first node of the other bucket with a greater key or behind the last one. -/
def htableRelinkNode (src : Addr) (srcPrev : Option Addr) (srcBucket destBucket : Nat) :
    Nat → HtableState → Option Addr → Option Addr → Option HtableState
  | 0, _, _, _ => none
  | _ + 1, state, none, _ => some state
  | fuel + 1, state, some dest, destPrev => do
    let srcNode ← load state.memory (some src)
    let destNode ← load state.memory (some dest)
    let cmpRes := state.compare srcNode.key destNode
    if cmpRes < 0 ∨ destNode.next = none then
      let state ← state.setLink srcBucket srcPrev srcNode.next
      if cmpRes < 0 then
        let state ← state.setNext src (some dest)
        state.setLink destBucket destPrev (some src)
      else
        let state ← state.setNext dest (some src)
        state.setNext src none
    else
      htableRelinkNode src srcPrev srcBucket destBucket fuel state destNode.next (some dest)

/-- The loop of the rehash over the nodes of one bucket, from `src` on. -/
def htableRehashBucket (srcBucket : Nat) :
    Nat → HtableState → Option Addr → Option Addr → Option HtableState
  | 0, _, _, _ => none
  | _ + 1, state, none, _ => some state
  | fuel + 1, state, some src, srcPrev => do
    let node ← load state.memory (some src)
    let destBucket ← state.bucketIndex node.key
    if srcBucket = destBucket then
      htableRehashBucket srcBucket fuel state node.next (some src)
    else
      match state.htable.buckets destBucket with
      | none =>
        let state ← state.setLink destBucket none (some src)
        let state ← state.setLink srcBucket srcPrev node.next
        let state ← state.setNext src none
        htableRehashBucket srcBucket fuel state node.next srcPrev
      | some dest =>
        let state ← htableRelinkNode src srcPrev srcBucket destBucket state.fuel state (some dest) none
        htableRehashBucket srcBucket fuel state node.next srcPrev

/-- The rehash of the old buckets. -/
def htableRehash (state : HtableState) (oldBucketCount : Nat) : Option HtableState :=
  (List.range oldBucketCount).foldlM (fun state srcBucket =>
    htableRehashBucket srcBucket state.fuel state (state.htable.buckets srcBucket) none) state

/-- `htable_resize`. What `realloc` adds to the buckets is set to null only where the rehash
follows. -/
def htableResize (faults : ResizeFaults) (state : HtableState) : Option HtableState := do
  let oldBucketCount := state.htable.bucketCount
  let (htable, grown) ← htableGrow 65 state.htable oldBucketCount 0
  match grown with
  | none | some 0 => return { state with htable }
  | some _ =>
    let bucketResizeFail (htable : StripedHtable) : HtableState := { state with htable := { htable with
      bucketCount := oldBucketCount
      resizeThresElemCount := cThresElem htable.thresholdLoadFactor oldBucketCount } }
    let lockResizeFail (htable : StripedHtable) : HtableState :=
      let htable := { htable with lockCount := state.htable.lockCount }
      if faults.shrinkBuckets then bucketResizeFail htable else { state with htable }
    -- The bytes asked for can wrap around to none, for which `realloc` has no defined result.
    guard (htable.bucketCount * 8 % 2 ^ 64 ≠ 0)
    if ¬ faults.reallocBuckets then return bucketResizeFail htable
    let htable := { htable with lockCount := htable.bucketCount >>> htable.bucketsPerLockPow2 }
    if ¬ faults.reallocLocks then return lockResizeFail htable
    if (List.range htable.lockCount).all fun lock =>
        lock < state.htable.lockCount || faults.lockInit lock then
      let buckets := fun index =>
        if oldBucketCount ≤ index ∧ index < htable.bucketCount then none else htable.buckets index
      htableRehash { state with htable := { htable with buckets } } oldBucketCount
    else if faults.shrinkLocks then
      return lockResizeFail htable
    else
      none

/-! ### Adding, removing and looking up -/

/-- The loop of `htable_add` behind its first bucket entry, at `comparator` with `prev` in front. -/
def htableAddLoop (element : Addr) (key : Bytes) (bucketIndex : Nat) :
    Nat → HtableState → Option Addr → Addr → Option (Bool × HtableState)
  | 0, _, _, _ => none
  | fuel + 1, state, prev, comparator => do
    let node ← load state.memory (some comparator)
    let compRes := state.compare key node
    let counted : HtableState := { state with htable := { state.htable with
      elementCount := atomicInc 64 state.htable.elementCount } }
    if compRes = 0 then
      return (false, state)
    else if compRes < 0 then
      let state ← counted.setNext element (some comparator)
      let state ← state.setLink bucketIndex prev (some element)
      return (true, state)
    else
      match node.next with
      | some next => htableAddLoop element key bucketIndex fuel state (some comparator) next
      | none =>
        let state ← counted.setNext comparator (some element)
        let state ← state.setNext element none
        return (true, state)

/-- `htable_add`. -/
def htableAdd (faults : ResizeFaults) (state : HtableState) (element : Addr) :
    Option (Bool × HtableState) := do
  let state ←
    if state.htable.resizeThresElemCount ≤ state.htable.elementCount then htableResize faults state
    else some state
  let node ← load state.memory (some element)
  let bucketIndex ← state.bucketIndex node.key
  let _ ← state.lockOf bucketIndex
  let state ← state.setNext element none
  match state.htable.buckets bucketIndex with
  | none =>
    let counted : HtableState := { state with htable := { state.htable with
      elementCount := atomicInc 64 state.htable.elementCount } }
    let state ← counted.setLink bucketIndex none (some element)
    return (true, state)
  | some comparator =>
    htableAddLoop element node.key bucketIndex state.fuel state none comparator

/-- The search loop of `htable_remove` and `htable_get`: where it stopped, and what was in front. -/
def htableSeek (key : Bytes) :
    Nat → HtableState → Option Addr → Option Addr → Option (Option Addr × Option Addr)
  | 0, _, _, _ => none
  | _ + 1, _, prev, none => some (prev, none)
  | fuel + 1, state, prev, some current => do
    let node ← load state.memory (some current)
    if state.compare key node = 0 then return (prev, some current)
    else htableSeek key fuel state (some current) node.next

/-- `node_get`. -/
def nodeGet (memory : Memory Node) (addr : Addr) : Option (Memory Node) :=
  store memory (some addr) fun node => { node with refCnt := atomicInc 32 node.refCnt }

/-- `node_put`, which frees a node without references. -/
def nodePut (memory : Memory Node) (addr : Addr) : Option (Memory Node) := do
  let memory ← store memory (some addr) fun node =>
    { node with refCnt := atomicDec 32 node.refCnt }
  let node ← load memory (some addr)
  if node.refCnt = 0 then release memory (some addr) else some memory

/-- `htable_remove`. -/
def htableRemove (state : HtableState) (key : Bytes) : Option HtableState := do
  let index ← state.bucketIndex key
  let _ ← state.lockOf index
  let (prev, current) ← htableSeek key state.fuel state none (state.htable.buckets index)
  match current with
  | none => return state
  | some current =>
    let node ← load state.memory (some current)
    let state ← state.setLink index prev node.next
    let state ← state.setNext current none
    let memory ← nodePut state.memory current
    return { state with
      memory
      htable := { state.htable with
        elementCount := atomicDec 64 state.htable.elementCount } }

/-- `htable_get`. -/
def htableGet (state : HtableState) (key : Bytes) (refInc : Bool) :
    Option (Option Addr × HtableState) := do
  let index ← state.bucketIndex key
  let _ ← state.lockOf index
  let (_, target) ← htableSeek key state.fuel state none (state.htable.buckets index)
  match target with
  | some target =>
    if refInc then
      let memory ← nodeGet state.memory target
      return (some target, { state with memory })
    else
      return (some target, state)
  | none => return (none, state)

/-! ### The order of keys -/

/-- The bytes of a key as numbers, whose lexicographic order the comparison functions implement. -/
def rank (key : Bytes) : List Nat := key.map UInt8.toNat

theorem rank_injective : Function.Injective rank := by
  intro first second same
  exact List.map_injective_iff.mpr (fun _ _ => UInt8.toNat_inj.mp) same

/-- A comparison function implements the lexicographic order on the keys of a table. None of them is
empty. -/
structure KeyOrder (cmpfn : CmpFunc) (valid : Bytes → Prop) : Prop where
  neg_iff : ∀ {first second}, valid first → valid second →
    (cmpfn first second first.length second.length < 0 ↔ rank first < rank second)
  zero_iff : ∀ {first second}, valid first → valid second →
    (cmpfn first second first.length second.length = 0 ↔ first = second)
  nonempty : ∀ {key}, valid key → key ≠ []

theorem rank_cons_lt (byte other : UInt8) (first second : Bytes) :
    rank (byte :: first) < rank (other :: second) ↔
      byte.toNat < other.toNat ∨ byte = other ∧ rank first < rank second := by
  rw [rank, rank, List.map_cons, List.map_cons, List.cons_lt_cons_iff, UInt8.toNat_inj]
  rfl

/-- `strncmp` up to the shorter of two keys without NULs, and then their lengths. -/
theorem strncmp_min_neg_iff {first second : Bytes} (clean : ∀ byte ∈ first, byte ≠ 0)
    (otherClean : ∀ byte ∈ second, byte ≠ 0) :
    (strncmp (min first.length second.length) first second < 0 ∨
      strncmp (min first.length second.length) first second = 0 ∧ first.length < second.length) ↔
      rank first < rank second := by
  induction first generalizing second with
  | nil =>
    cases second with
    | nil => simp [strncmp, rank]
    | cons other second => simp [strncmp, rank]
  | cons byte first inductionHypothesis =>
    cases second with
    | nil => simp [strncmp, rank]
    | cons other second =>
      have shorter := @inductionHypothesis second
        (fun byte member => clean byte (List.mem_cons_of_mem _ member))
        (fun byte member => otherClean byte (List.mem_cons_of_mem _ member))
      rw [List.length_cons, List.length_cons, Nat.succ_min_succ, strncmp, List.headD_cons,
        List.headD_cons, List.tail_cons, List.tail_cons, rank_cons_lt]
      by_cases same : byte = other
      · subst same
        rw [if_neg (not_not_intro rfl), if_neg (clean byte List.mem_cons_self)]
        simpa using shorter
      · have apart : byte.toNat ≠ other.toNat := fun equal => same (UInt8.toNat_inj.mp equal)
        rw [if_pos same]
        simp only [same, false_and, or_false]
        omega

theorem strncmp_min_eq_zero_iff {first second : Bytes} (clean : ∀ byte ∈ first, byte ≠ 0)
    (otherClean : ∀ byte ∈ second, byte ≠ 0) :
    strncmp (min first.length second.length) first second = 0 ∧ first.length = second.length ↔
      first = second := by
  rw [strncmp_eq_zero_iff]
  constructor
  · rintro ⟨same, lengths⟩
    rw [lengths, Nat.min_self, List.take_length, List.take_of_length_le lengths.le,
      cString_eq_self clean, cString_eq_self otherClean] at same
    exact same
  · rintro rfl
    exact ⟨rfl, rfl⟩

/-- A key of the client table: not empty, without NULs, and of a size that fits an `int32_t`, which
is far beyond that of a user name. -/
def ValidUsername (key : Bytes) : Prop :=
  key ≠ [] ∧ (∀ byte ∈ key, byte ≠ 0) ∧ key.length < 2 ^ 31

/-- A key of the tables of addresses. -/
def ValidAddress (key : Bytes) : Prop := key.length = 4

theorem toInt32_of_lt {value : Nat} (small : value < 2 ^ 31) : toInt32 value = value :=
  if_pos small

theorem stdClientCmp_keyOrder : KeyOrder stdClientCmp ValidUsername where
  neg_iff {first second} firstValid secondValid := by
    rw [← strncmp_min_neg_iff firstValid.2.1 secondValid.2.1, stdClientCmp,
      toInt32_of_lt firstValid.2.2, toInt32_of_lt secondValid.2.2]
    split_ifs with zero <;> omega
  zero_iff {first second} firstValid secondValid := by
    rw [← strncmp_min_eq_zero_iff firstValid.2.1 secondValid.2.1, stdClientCmp,
      toInt32_of_lt firstValid.2.2, toInt32_of_lt secondValid.2.2]
    split_ifs with zero <;> omega
  nonempty valid := valid.1

theorem ipCmpLoop_neg_iff {first second : Bytes} (lengths : first.length = second.length) :
    ipCmpLoop first.length first second < 0 ↔ rank first < rank second := by
  induction first generalizing second with
  | nil =>
    obtain rfl := List.eq_nil_of_length_eq_zero lengths.symm
    simp [ipCmpLoop, rank]
  | cons byte first inductionHypothesis =>
    cases second with
    | nil => cases lengths
    | cons other second =>
      have rest := inductionHypothesis (Nat.succ.inj lengths)
      rw [List.length_cons, ipCmpLoop, rank_cons_lt]
      simp only [List.headD_cons, List.tail_cons]
      by_cases same : byte = other
      · subst same
        simpa using rest
      · have apart : byte.toNat ≠ other.toNat := fun equal => same (UInt8.toNat_inj.mp equal)
        simp only [same, false_and, or_false]
        split_ifs <;> omega

theorem ipCmpLoop_eq_zero_iff {first second : Bytes} (lengths : first.length = second.length) :
    ipCmpLoop first.length first second = 0 ↔ first = second := by
  induction first generalizing second with
  | nil =>
    obtain rfl := List.eq_nil_of_length_eq_zero lengths.symm
    simp [ipCmpLoop]
  | cons byte first inductionHypothesis =>
    cases second with
    | nil => cases lengths
    | cons other second =>
      have rest := inductionHypothesis (Nat.succ.inj lengths)
      rw [List.length_cons, ipCmpLoop, List.cons.injEq, ← UInt8.toNat_inj, ← rest]
      simp only [List.headD_cons, List.tail_cons]
      split_ifs <;> omega

theorem ipCmp_keyOrder : KeyOrder ipCmp ValidAddress where
  neg_iff firstValid secondValid := ipCmpLoop_neg_iff (firstValid.trans secondValid.symm)
  zero_iff firstValid secondValid := ipCmpLoop_eq_zero_iff (firstValid.trans secondValid.symm)
  nonempty {key} valid := by
    rintro rfl
    cases valid

/-- Some bits of a number mask it below a power of two. -/
theorem fnv1a32Hash_of_ne_nil {key : Bytes} (nonempty : key ≠ []) :
    ∃ hash < 2 ^ 32, fnv1a32Hash key = some hash :=
  ⟨_, UInt32.toNat_lt _, if_neg nonempty⟩

end Lwmsg
