/-
This file proves that the hash table of `server/htable.c` refines a finite map, for every size,
expansion and load threshold that the configuration admits and both kinds of keys.

The invariant of the table extends what the rehash relies on by the size of the lock array and the
threshold, and a resize keeps it whenever `htable_add` triggers one. Each of the three operations
then has one lemma, which says what it does to the map.
-/

import Lwmsg.HtableRehash
import Mathlib.Data.Finmap

namespace Lwmsg

open Bytes Pointers SinglyLinked

/-! ### The invariant -/

/-- The parameters of a table, within the ranges of the configuration. -/
structure TableParams (htable : StripedHtable) : Prop where
  thresholdPos : 1 ≤ htable.thresholdLoadFactor
  thresholdLe : htable.thresholdLoadFactor ≤ 255
  resizePos : 1 ≤ htable.htablePow2ResizeFactor
  resizeLe : htable.htablePow2ResizeFactor ≤ 12

/-- The size of a table and what is derived from it. No number it computes wraps around. -/
structure TableSize (htable : StripedHtable) (power : Nat) : Prop where
  bucketCount : htable.bucketCount = 2 ^ power
  lockFits : htable.bucketsPerLockPow2 ≤ power
  lockCount : htable.lockCount = 2 ^ (power - htable.bucketsPerLockPow2)
  threshold : htable.resizeThresElemCount = 2 ^ power * htable.thresholdLoadFactor / 100
  bounded : 2 ^ power * htable.thresholdLoadFactor < 2 ^ 60

/-- The invariant of a table, with the nodes in it, their keys and the lists in its buckets. -/
structure TableInvariant (cmpfn : CmpFunc) (valid : Bytes → Prop) (key : Addr → Bytes)
    (members : Finset Addr) (power : Nat) (state : HtableState) (lists : Nat → List Addr) : Prop where
  rehashable : Rehashable cmpfn valid key members power state lists
  placed : ∀ index < 2 ^ power, ∀ addr,
    addr ∈ lists index ↔ addr ∈ members ∧ index = bucketOf (2 ^ power) (key addr)
  params : TableParams state.htable
  size : TableSize state.htable power
  few : members.card ≤ 2 ^ 40

/-- Every bucket of a table has a lock. -/
theorem lockOf_inside {state : HtableState} {power : Nat}
    (lockFits : state.htable.bucketsPerLockPow2 ≤ power)
    (lockCount : state.htable.lockCount = 2 ^ (power - state.htable.bucketsPerLockPow2))
    {index : Nat} (inside : index < 2 ^ power) :
    state.lockOf index = some (index >>> state.htable.bucketsPerLockPow2) := by
  refine if_pos ?_
  rw [lockCount, Nat.shiftRight_eq_div_pow]
  refine Nat.div_lt_of_lt_mul ?_
  rwa [← Nat.pow_add, Nat.add_sub_cancel' lockFits]

theorem TableSize.lockOf {state : HtableState} {power : Nat} (size : TableSize state.htable power)
    {index : Nat} (inside : index < 2 ^ power) :
    state.lockOf index = some (index >>> state.htable.bucketsPerLockPow2) :=
  lockOf_inside size.lockFits size.lockCount inside

/-! ### Growing -/

/-- A table that is still too small has room for another expansion. -/
theorem power_bound {power load elements expansion : Nat} (loadPos : 1 ≤ load)
    (elementsFew : elements ≤ 2 ^ 40) (small : 2 ^ power * load / 100 ≤ elements)
    (expansionLe : expansion ≤ 12) :
    power < 48 ∧ 2 ^ (power + expansion) * load < 2 ^ 60 := by
  have product : 2 ^ power * load < 2 ^ 48 := by omega
  constructor
  · by_contra large
    have least : 2 ^ 48 ≤ 2 ^ power := Nat.pow_le_pow_right (by omega) (by omega)
    have scaled : 2 ^ power * 1 ≤ 2 ^ power * load := Nat.mul_le_mul_left _ loadPos
    omega
  · have factor : 2 ^ expansion ≤ 2 ^ 12 := Nat.pow_le_pow_right (by omega) expansionLe
    calc 2 ^ (power + expansion) * load = 2 ^ power * load * 2 ^ expansion := by ring
      _ ≤ 2 ^ power * load * 2 ^ 12 := Nat.mul_le_mul_left _ factor
      _ < 2 ^ 48 * 2 ^ 12 := Nat.mul_lt_mul_of_pos_right product (by omega)
      _ = 2 ^ 60 := by norm_num

/-- The table with another size. -/
def resized (htable : StripedHtable) (power : Nat) : StripedHtable :=
  { htable with
    bucketCount := 2 ^ power
    resizeThresElemCount := 2 ^ power * htable.thresholdLoadFactor / 100 }

/-- The loop that chooses the size ends, at a size whose threshold is above the number of elements,
and counts its turns. -/
theorem htableGrow_spec {fuel power resizeCount : Nat} {htable : StripedHtable} {oldBucketCount : Nat}
    (params : TableParams htable) (few : htable.elementCount ≤ 2 ^ 40)
    (bounded : 2 ^ power * htable.thresholdLoadFactor < 2 ^ 60)
    (noSmaller : oldBucketCount ≤ 2 ^ power) (enough : 61 ≤ fuel + power)
    (noWrap : resizeCount + 60 ≤ 255 + power) :
    ∃ newPower turns, htableGrow fuel (resized htable power) oldBucketCount resizeCount =
        some (resized htable newPower, some (resizeCount + turns)) ∧
      power + turns ≤ newPower ∧ (turns = 0 → newPower = power) ∧
      2 ^ newPower * htable.thresholdLoadFactor < 2 ^ 60 ∧
      htable.elementCount < 2 ^ newPower * htable.thresholdLoadFactor / 100 := by
  have atLeastPower (power : Nat) : 2 ^ power ≤ 2 ^ power * htable.thresholdLoadFactor :=
    Nat.le_mul_of_pos_right _ params.thresholdPos
  induction fuel generalizing power resizeCount with
  | zero =>
    have large : 2 ^ 60 ≤ 2 ^ power := Nat.pow_le_pow_right (by omega) (by omega)
    have below := atLeastPower power
    omega
  | succ fuel inductionHypothesis =>
    simp only [htableGrow, resized]
    by_cases small : 2 ^ power * htable.thresholdLoadFactor / 100 ≤ htable.elementCount
    · obtain ⟨powerSmall, grownBounded⟩ := power_bound params.thresholdPos few small params.resizeLe
      have positive := params.resizePos
      have fits : 2 ^ (power + htable.htablePow2ResizeFactor) < 2 ^ 64 := by
        have below := atLeastPower (power + htable.htablePow2ResizeFactor)
        omega
      have shifted : (2 ^ power <<< htable.htablePow2ResizeFactor) % 2 ^ 64 =
          2 ^ (power + htable.htablePow2ResizeFactor) := by
        rw [Nat.shiftLeft_eq, ← Nat.pow_add, Nat.mod_eq_of_lt fits]
      have larger : 2 ^ power ≤ 2 ^ (power + htable.htablePow2ResizeFactor) :=
        Nat.pow_le_pow_right (by omega) (Nat.le_add_right _ _)
      have noOverflow : ¬ 2 ^ (power + htable.htablePow2ResizeFactor) < oldBucketCount := by omega
      have threshold : cThresElem htable.thresholdLoadFactor
          (2 ^ (power + htable.htablePow2ResizeFactor)) =
          2 ^ (power + htable.htablePow2ResizeFactor) * htable.thresholdLoadFactor / 100 := by
        rw [cThresElem, Nat.mod_eq_of_lt (by omega)]
      have counted : (resizeCount + 1) % 2 ^ 8 = resizeCount + 1 := Nat.mod_eq_of_lt (by omega)
      obtain ⟨newPower, turns, loop, grown, _, newBounded, enoughRoom⟩ :=
        @inductionHypothesis (power + htable.htablePow2ResizeFactor) (resizeCount + 1) grownBounded
          (by omega) (by omega) (by omega)
      refine ⟨newPower, turns + 1, ?_, by omega, by omega, newBounded, enoughRoom⟩
      simp only [small, if_true, shifted, noOverflow, if_false, threshold, counted]
      rw [show resizeCount + (turns + 1) = resizeCount + 1 + turns by omega]
      exact loop
    · refine ⟨power, 0, ?_, le_rfl, fun _ => rfl, bounded, by omega⟩
      simp only [small, if_false, Nat.add_zero]

/-- The table after its arrays grew and before its nodes move. -/
def grownState (state : HtableState) (newPower : Nat) : HtableState :=
  { state with htable := { resized state.htable newPower with
      lockCount := 2 ^ newPower >>> state.htable.bucketsPerLockPow2
      buckets := fun index =>
        if state.htable.bucketCount ≤ index ∧ index < 2 ^ newPower then none
        else state.htable.buckets index } }

section Resize

variable {cmpfn : CmpFunc} {valid : Bytes → Prop} {key : Addr → Bytes} {members : Finset Addr}
  {power : Nat} {state : HtableState} {lists : Nat → List Addr}

/-- The grown arrays hold the same lists, and the new buckets are empty. -/
theorem grownState_rehashable (rehashable : Rehashable cmpfn valid key members power state lists)
    (newPower : Nat) :
    Rehashable cmpfn valid key members newPower (grownState state newPower)
      fun index => if index < 2 ^ power then lists index else [] := by
  obtain ⟨isCmpfn, bucketCount, buckets, sorted, covered, distinctKeys, elementCount⟩ := rehashable
  have oldHead {index : Nat} (old : index < 2 ^ power) :
      (grownState state newPower).htable.buckets index = state.htable.buckets index := by
    refine if_neg ?_
    rw [bucketCount]
    omega
  refine ⟨isCmpfn, rfl, ⟨⟨fun index inside => ?_, fun index inside => ?_, ?_⟩, ?_⟩, ?_, ?_,
    distinctKeys, elementCount⟩
  · by_cases old : index < 2 ^ power
    · simp only [if_pos old]
      rw [oldHead old]
      exact buckets.chains.path index (bucketCount ▸ old)
    · simp only [if_neg old]
      exact if_pos ⟨bucketCount ▸ Nat.not_lt.mp old, inside⟩
  · by_cases old : index < 2 ^ power
    · simp only [if_pos old]
      exact buckets.chains.distinct index (bucketCount ▸ old)
    · simp only [if_neg old]
      exact List.nodup_nil
  · intro first _ second _ addr inFirst inSecond
    by_cases firstOld : first < 2 ^ power
    · by_cases secondOld : second < 2 ^ power
      · rw [if_pos firstOld] at inFirst
        rw [if_pos secondOld] at inSecond
        exact buckets.chains.apart first (bucketCount ▸ firstOld) second (bucketCount ▸ secondOld)
          addr inFirst inSecond
      · rw [if_neg secondOld] at inSecond
        cases inSecond
    · rw [if_neg firstOld] at inFirst
      cases inFirst
  · intro index _ addr member
    by_cases old : index < 2 ^ power
    · rw [if_pos old] at member
      exact buckets.live index (bucketCount ▸ old) addr member
    · rw [if_neg old] at member
      cases member
  · intro index _
    by_cases old : index < 2 ^ power
    · simp only [if_pos old]
      exact sorted index old
    · simp only [if_neg old]
      exact List.Pairwise.nil
  · intro index _ addr member
    by_cases old : index < 2 ^ power
    · rw [if_pos old] at member
      exact covered index old addr member
    · rw [if_neg old] at member
      cases member

/-- The size of a table that grew. -/
theorem grownState_size (size : TableSize state.htable power) {newPower : Nat}
    (grown : power ≤ newPower)
    (bounded : 2 ^ newPower * state.htable.thresholdLoadFactor < 2 ^ 60) :
    TableSize (grownState state newPower).htable newPower where
  bucketCount := rfl
  lockFits := size.lockFits.trans grown
  lockCount := by
    show 2 ^ newPower >>> state.htable.bucketsPerLockPow2 = _
    rw [Nat.shiftRight_eq_div_pow, Nat.pow_div (size.lockFits.trans grown) (by omega)]
    rfl
  threshold := rfl
  bounded := bounded

/-- A resize without failing allocations keeps the invariant and leaves room. It changes no node but
for its link. -/
theorem htableResize_spec (order : KeyOrder cmpfn valid)
    (invariant : TableInvariant cmpfn valid key members power state lists) :
    ∃ next newPower others, htableResize .none state = some next ∧
      TableInvariant cmpfn valid key members newPower next others ∧
      next.htable.elementCount < next.htable.resizeThresElemCount ∧
      ∀ addr, (next.memory addr).map Node.unlinked = (state.memory addr).map Node.unlinked := by
  have size := invariant.size
  have isResized : state.htable = resized state.htable power := by
    rw [resized, ← size.threshold, ← size.bucketCount]
  obtain ⟨newPower, turns, grow, grown, unchanged, bounded, room⟩ :=
    @htableGrow_spec 65 power 0 _ (2 ^ power)
      invariant.params (by rw [invariant.rehashable.elementCount]; exact invariant.few) size.bounded
      le_rfl (by omega) (by omega)
  rw [← isResized, Nat.zero_add, ← size.bucketCount] at grow
  unfold htableResize
  simp only [grow, Option.bind_eq_bind, Option.bind_some]
  cases turns with
  | zero =>
    obtain rfl := unchanged rfl
    rw [← isResized]
    refine ⟨state, newPower, lists, rfl, invariant, ?_, fun _ => rfl⟩
    rw [size.threshold]
    exact room
  | succ turns =>
    have larger : power ≤ newPower := by omega
    obtain ⟨next, others, rehash, relinked, rehashable, placed⟩ :=
      htableRehash_spec order larger (grownState_rehashable invariant.rehashable newPower)
        fun index inside addr => by
          by_cases old : index < 2 ^ power
          · rw [if_pos old]
            exact invariant.placed index old addr
          · rw [if_neg old]
            refine iff_of_false List.not_mem_nil fun both => old ?_
            rw [both.2]
            exact bucketOf_lt power _
    have nextSize := grownState_size size larger bounded
    refine ⟨next, newPower, others, ?_, ⟨rehashable, placed, ?_, ?_, invariant.few⟩, ?_,
      relinked.nodes⟩
    · rw [← size.bucketCount] at rehash
      have asked : (resized state.htable newPower).bucketCount * 8 % 2 ^ 64 ≠ 0 := by
        have atLeast := Nat.le_mul_of_pos_right (2 ^ newPower) invariant.params.thresholdPos
        have positive := Nat.two_pow_pos newPower
        show 2 ^ newPower * 8 % 2 ^ 64 ≠ 0
        omega
      simp only [guard, if_pos asked, Option.pure_def, Option.bind_some, ResizeFaults.none,
        not_true_eq_false, if_false, Bool.or_true, List.all_eq_true, implies_true, if_true]
      exact rehash
    · rw [relinked.table]
      exact ⟨invariant.params.thresholdPos, invariant.params.thresholdLe,
        invariant.params.resizePos, invariant.params.resizeLe⟩
    · rw [relinked.table]
      exact ⟨nextSize.bucketCount, nextSize.lockFits, nextSize.lockCount, nextSize.threshold,
        nextSize.bounded⟩
    · rw [relinked.table]
      exact room

end Resize

/-! ### Adding -/

section Add

variable {cmpfn : CmpFunc} {valid : Bytes → Prop} {key : Addr → Bytes} {members : Finset Addr}
  {power : Nat} {state next : HtableState} {lists : Nat → List Addr} {index : Nat} {element : Addr}
  {node : Node} {front back : List Addr}

/-- The buckets after a fresh node was linked in. -/
theorem Buckets.inserted (buckets : Buckets valid key state lists) (relinked : Relinked state next)
    (inside : index < state.htable.bucketCount) (split : lists index = front ++ back)
    (fresh : ∀ another < state.htable.bucketCount, element ∉ lists another)
    (live : state.memory element = some node) (nodeKey : node.key = key element)
    (nodeValid : valid (key element))
    (links : linkOf next.memory = setLink (Function.update (linkOf state.memory) element back.head?)
      front.getLast? (some element))
    (heads : next.htable.buckets =
      setHead state.htable.buckets index front.getLast? (some element)) :
    Buckets valid key next (Function.update lists index (front ++ element :: back)) where
  chains := by
    rw [links, heads, relinked.bucketCount]
    exact buckets.chains.insert inside split fresh
  live another anotherInside addr member := by
    rw [relinked.bucketCount] at anotherInside
    have before : ∃ node, state.memory addr = some node ∧ node.key = key addr ∧ valid (key addr) := by
      by_cases same : another = index
      · subst same
        rw [Function.update_self] at member
        by_cases isNew : addr = element
        · subst isNew
          exact ⟨node, live, nodeKey, nodeValid⟩
        · refine buckets.live another inside addr ?_
          rw [split]
          simpa [isNew] using member
      · rw [Function.update_of_ne same] at member
        exact buckets.live another anotherInside addr member
    obtain ⟨node, found, keyIs, isValid⟩ := before
    obtain ⟨other, otherFound, otherKey⟩ := relinked.live found
    exact ⟨other, otherFound, otherKey.trans keyIs, isValid⟩

/-- The state with one more element counted. -/
def counted (state : HtableState) : HtableState :=
  { state with htable := { state.htable with
    elementCount := atomicInc 64 state.htable.elementCount } }

/-- A node that points nowhere becomes the only one of an empty bucket. -/
theorem Buckets.insertedFirst (buckets : Buckets valid key state lists)
    (inside : index < state.htable.bucketCount) (empty : lists index = [])
    (fresh : ∀ another < state.htable.bucketCount, element ∉ lists another)
    (live : state.memory element = some node) (nodeKey : node.key = key element)
    (nodeValid : valid (key element)) (nowhere : linkOf state.memory element = none) :
    ∃ next, (counted state).setLink index none (some element) = some next ∧
      Relinked (counted state) next ∧
      Buckets valid key next (Function.update lists index ([] ++ element :: [])) := by
  obtain ⟨next, call, link, heads, relinked⟩ :=
    @setLink_effect (counted state) index none (fun _ impossible => by cases impossible)
      (some element)
  have countedBuckets : Buckets valid key (counted state) lists := ⟨buckets.chains, buckets.live⟩
  refine ⟨next, call, relinked, countedBuckets.inserted relinked inside empty fresh live nodeKey
    nodeValid ?_ heads⟩
  rw [link]
  exact (Function.update_eq_self_iff.mpr nowhere.symm).symm

/-- A node goes in front of another one, whose bucket is not left. -/
theorem Buckets.insertedBefore {comparator : Addr} (buckets : Buckets valid key state lists)
    (inside : index < state.htable.bucketCount) (split : lists index = front ++ comparator :: back)
    (fresh : ∀ another < state.htable.bucketCount, element ∉ lists another)
    (live : state.memory element = some node) (nodeKey : node.key = key element)
    (nodeValid : valid (key element)) :
    ∃ first next, (counted state).setNext element (some comparator) = some first ∧
      first.setLink index front.getLast? (some element) = some next ∧
      Relinked (counted state) next ∧
      Buckets valid key next
        (Function.update lists index (front ++ element :: comparator :: back)) := by
  have countedBuckets : Buckets valid key (counted state) lists := ⟨buckets.chains, buckets.live⟩
  obtain ⟨first, firstCall, firstLink, firstTable, firstRelinked⟩ :=
    @setNext_effect (counted state) _ _ live (some comparator)
  have lastLive : ∀ addr, front.getLast? = some addr → ∃ node, first.memory addr = some node := by
    intro addr last
    obtain ⟨node, found⟩ := countedBuckets.lastLive inside split addr last
    obtain ⟨other, otherFound, _⟩ := firstRelinked.live found
    exact ⟨other, otherFound⟩
  obtain ⟨next, nextCall, nextLink, nextHeads, nextRelinked⟩ :=
    @setLink_effect first index _ lastLive (some element)
  have relinked := firstRelinked.trans nextRelinked
  refine ⟨first, next, firstCall, nextCall, relinked,
    countedBuckets.inserted relinked inside split fresh live nodeKey nodeValid ?_ ?_⟩
  · rw [nextLink, firstLink]
    rfl
  · rw [nextHeads, firstTable]

/-- A node goes behind the last one of a bucket. -/
theorem Buckets.insertedLast {comparator : Addr} {last : Node} (buckets : Buckets valid key state lists)
    (inside : index < state.htable.bucketCount) (split : lists index = front ++ [comparator])
    (fresh : ∀ another < state.htable.bucketCount, element ∉ lists another)
    (live : state.memory element = some node) (nodeKey : node.key = key element)
    (nodeValid : valid (key element)) (lastLive : state.memory comparator = some last) :
    ∃ first next, (counted state).setNext comparator (some element) = some first ∧
      first.setNext element none = some next ∧ Relinked (counted state) next ∧
      Buckets valid key next
        (Function.update lists index ((front ++ [comparator]) ++ element :: [])) := by
  have countedBuckets : Buckets valid key (counted state) lists := ⟨buckets.chains, buckets.live⟩
  have apart : comparator ≠ element := by
    rintro rfl
    exact fresh index inside (by rw [split]; simp)
  obtain ⟨first, firstCall, firstLink, firstTable, firstRelinked⟩ :=
    @setNext_effect (counted state) _ _ lastLive (some element)
  obtain ⟨still, stillLive, _⟩ := @Relinked.live (counted state) _ firstRelinked _ _ live
  obtain ⟨next, nextCall, nextLink, nextTable, nextRelinked⟩ := setNext_effect stillLive none
  have relinked := firstRelinked.trans nextRelinked
  have whole : lists index = (front ++ [comparator]) ++ [] := by rw [List.append_nil, split]
  refine ⟨first, next, firstCall, nextCall, relinked,
    countedBuckets.inserted relinked inside whole fresh live nodeKey nodeValid ?_ ?_⟩
  · rw [nextLink, firstLink, List.getLast?_concat, Function.update_comm apart]
    rfl
  · rw [nextTable, firstTable, List.getLast?_concat]
    rfl

/-- The loop of `htable_add` finds a node with the same key, or the place of the new one. -/
theorem htableAddLoop_spec (order : KeyOrder cmpfn valid) {fuel : Nat} {comparator : Addr}
    (isCmpfn : state.htable.cmpfn = cmpfn) (buckets : Buckets valid key state lists)
    (inside : index < state.htable.bucketCount) (split : lists index = front ++ comparator :: back)
    (fresh : ∀ another < state.htable.bucketCount, element ∉ lists another)
    (live : state.memory element = some node) (nodeKey : node.key = key element)
    (nodeValid : valid (key element))
    (above : ∀ other ∈ front, rank (key other) < rank (key element))
    (enough : back.length < fuel) :
    ((∃ other ∈ comparator :: back, key other = key element) ∧
      htableAddLoop element (key element) index fuel state front.getLast? comparator =
        some (false, state)) ∨
    ∃ next before after, front ++ comparator :: back = before ++ after ∧
      (∀ other ∈ before, rank (key other) < rank (key element)) ∧
      (∀ other ∈ after.head?, rank (key element) < rank (key other)) ∧
      htableAddLoop element (key element) index fuel state front.getLast? comparator =
        some (true, next) ∧ Relinked (counted state) next ∧
      Buckets valid key next (Function.update lists index (before ++ element :: after)) := by
  induction fuel generalizing front comparator back with
  | zero => exact absurd enough (Nat.not_lt_zero _)
  | succ fuel inductionHypothesis =>
    obtain ⟨other, otherLive, otherKey, otherValid⟩ :=
      buckets.live index inside comparator (by rw [split]; simp)
    have otherNext : other.next = back.head? := by
      have path := buckets.chains.path index inside
      rw [split] at path
      rw [← path.link_eq, linkOf, otherLive, Option.bind_some]
    have zero : state.compare (key element) other = 0 ↔ key element = key comparator := by
      rw [HtableState.compare, isCmpfn, otherKey]
      exact order.zero_iff nodeValid otherValid
    have negative : state.compare (key element) other < 0 ↔
        rank (key element) < rank (key comparator) := by
      rw [HtableState.compare, isCmpfn, otherKey]
      exact order.neg_iff nodeValid otherValid
    simp only [htableAddLoop, load_some, otherLive, otherNext, Option.bind_eq_bind, Option.bind_some,
      zero, negative]
    by_cases same : key element = key comparator
    · exact Or.inl ⟨⟨comparator, List.mem_cons_self, same.symm⟩, by rw [if_pos same]; rfl⟩
    · rw [if_neg same]
      by_cases before : rank (key element) < rank (key comparator)
      · obtain ⟨first, next, firstCall, nextCall, relinked, inserted⟩ :=
          buckets.insertedBefore inside split fresh live nodeKey nodeValid
        refine Or.inr ⟨next, front, comparator :: back, rfl, above, ?_, ?_, relinked, inserted⟩
        · rintro other member
          obtain rfl := Option.some.inj member
          exact before
        · rw [if_pos before]
          rw [counted] at firstCall
          rw [firstCall, Option.bind_some, nextCall]
          rfl
      · have behind : rank (key comparator) < rank (key element) :=
          lt_of_le_of_ne (not_lt.mp before) fun equal => same (rank_injective equal).symm
        have aboveComparator : ∀ other ∈ front ++ [comparator],
            rank (key other) < rank (key element) := by
          intro other member
          rcases List.mem_append.mp member with inFront | isComparator
          · exact above other inFront
          · rw [List.mem_singleton.mp isComparator]
            exact behind
        rw [if_neg before]
        cases back with
        | nil =>
          obtain ⟨first, next, firstCall, nextCall, relinked, inserted⟩ :=
            buckets.insertedLast inside split fresh live nodeKey nodeValid otherLive
          refine Or.inr ⟨next, front ++ [comparator], [], (List.append_nil _).symm, aboveComparator,
            (fun _ member => by cases member), ?_, relinked, inserted⟩
          rw [counted] at firstCall
          simp only [List.head?_nil, firstCall, Option.bind_some, nextCall]
          rfl
        | cons further back =>
          have smaller : back.length < fuel := by
            rw [List.length_cons] at enough
            omega
          have splitFurther : lists index = (front ++ [comparator]) ++ further :: back := by
            rw [split, List.append_assoc, List.singleton_append]
          have rest := inductionHypothesis splitFurther aboveComparator smaller
          rw [List.getLast?_concat, List.append_assoc, List.singleton_append] at rest
          refine rest.imp ?_ id
          rintro ⟨⟨other, member, equal⟩, call⟩
          exact ⟨⟨other, List.mem_cons_of_mem _ member, equal⟩, call⟩

/-- Where the nodes are once one was linked in. -/
theorem TableInvariant.placed_insert
    (invariant : TableInvariant cmpfn valid key members power state lists) (fresh : element ∉ members)
    (split : lists (bucketOf (2 ^ power) (key element)) = front ++ back) (index : Nat)
    (inside : index < 2 ^ power) (addr : Addr) :
    addr ∈ Function.update lists (bucketOf (2 ^ power) (key element)) (front ++ element :: back) index ↔
      addr ∈ insert element members ∧ index = bucketOf (2 ^ power) (key addr) := by
  have placed := invariant.placed
  rw [Finset.mem_insert]
  by_cases here : index = bucketOf (2 ^ power) (key element)
  · subst here
    have before := placed _ inside addr
    rw [split] at before
    rw [Function.update_self, List.mem_append, List.mem_cons]
    rw [List.mem_append] at before
    by_cases isNew : addr = element
    · subst isNew
      simp
    · simp only [isNew, false_or]
      exact before
  · rw [Function.update_of_ne here, placed index inside]
    by_cases isNew : addr = element
    · subst isNew
      simp [fresh, here]
    · simp [isNew]

/-- A node linked in at its place of the bucket of its hash keeps the invariant. -/
theorem TableInvariant.linked (invariant : TableInvariant cmpfn valid key members power state lists)
    (relinked : Relinked (counted state) next) (fresh : element ∉ members)
    (few : members.card < 2 ^ 40) (absent : ∀ other ∈ members, key other ≠ key element)
    (split : lists (bucketOf (2 ^ power) (key element)) = front ++ back)
    (above : ∀ other ∈ front, rank (key other) < rank (key element))
    (below : ∀ other ∈ back.head?, rank (key element) < rank (key other))
    (buckets : Buckets valid key next (Function.update lists (bucketOf (2 ^ power) (key element))
      (front ++ element :: back))) :
    TableInvariant cmpfn valid key (insert element members) power next
      (Function.update lists (bucketOf (2 ^ power) (key element)) (front ++ element :: back)) := by
  have located := invariant.placed_insert fresh split
  obtain ⟨⟨isCmpfn, bucketCount, _, sorted, covered, distinctKeys, elementCount⟩, _, params, size,
    _⟩ := invariant
  have inside := bucketOf_lt power (key element)
  have cardIs : (insert element members).card = members.card + 1 :=
    Finset.card_insert_of_notMem fresh
  refine ⟨⟨relinked.cmpfn.trans isCmpfn, relinked.bucketCount.trans bucketCount, buckets, ?_, ?_, ?_,
    ?_⟩, located, ?_, ?_, by omega⟩
  · intro index indexInside
    by_cases here : index = bucketOf (2 ^ power) (key element)
    · subst here
      have before := sorted _ inside
      rw [split] at before
      rw [Function.update_self]
      exact @pairwise_middle _ _ _ (fun addr => rank (key addr)) _ _ _ before above below
    · rw [Function.update_of_ne here]
      exact sorted index indexInside
  · exact fun index indexInside addr member => ((located index indexInside addr).mp member).1
  · intro first inFirst second inSecond same
    rcases Finset.mem_insert.mp inFirst with rfl | firstMember <;>
      rcases Finset.mem_insert.mp inSecond with rfl | secondMember
    · rfl
    · exact absurd same.symm (absent second secondMember)
    · exact absurd same (absent first firstMember)
    · exact distinctKeys first firstMember second secondMember same
  · rw [relinked.elementCount, cardIs, counted, elementCount]
    exact atomicInc_of_lt (by omega)
  · rw [relinked.table]
    exact ⟨params.thresholdPos, params.thresholdLe, params.resizePos, params.resizeLe⟩
  · rw [relinked.table]
    exact ⟨size.bucketCount, size.lockFits, size.lockCount, size.threshold, size.bounded⟩

/-- The unlinked nodes of a memory. -/
def SameNodes (state next : HtableState) : Prop :=
  ∀ addr, (next.memory addr).map Node.unlinked = (state.memory addr).map Node.unlinked

theorem SameNodes.live (same : SameNodes state next) (live : state.memory element = some node) :
    ∃ other, next.memory element = some other ∧ other.key = node.key := by
  have nodes := same element
  rw [live, Option.map_some, Option.map_eq_some_iff] at nodes
  obtain ⟨other, found, equal⟩ := nodes
  exact ⟨other, found, show other.unlinked.key = node.unlinked.key by rw [equal]⟩

/-- The table only depends on what its buckets hold. -/
theorem TableInvariant.rebucket
    (invariant : TableInvariant cmpfn valid key members power state lists)
    (table : next.htable = state.htable) (buckets : Buckets valid key next lists) :
    TableInvariant cmpfn valid key members power next lists := by
  obtain ⟨⟨isCmpfn, bucketCount, _, sorted, covered, distinctKeys, elementCount⟩, placed, params,
    size, few⟩ := invariant
  refine ⟨⟨?_, ?_, buckets, sorted, covered, distinctKeys, ?_⟩, placed, ?_, ?_, few⟩ <;>
    rw [table] <;> assumption

/-- A state whose members kept their keys and links has the same table. -/
theorem TableInvariant.congr (invariant : TableInvariant cmpfn valid key members power state lists)
    (table : next.htable = state.htable)
    (same : ∀ addr ∈ members, (next.memory addr).map (fun node => (node.key, node.next)) =
      (state.memory addr).map fun node => (node.key, node.next)) :
    TableInvariant cmpfn valid key members power next lists := by
  have buckets := invariant.rehashable.buckets
  have isMember {index : Nat} (inside : index < state.htable.bucketCount) {addr : Addr}
      (member : addr ∈ lists index) : addr ∈ members :=
    invariant.rehashable.covered index (invariant.rehashable.bucketCount ▸ inside) addr member
  refine invariant.rebucket table ⟨?_, ?_⟩
  · rw [table]
    refine buckets.chains.congr fun index inside addr member => ?_
    have links := congrArg (Option.bind · Prod.snd) (same addr (isMember inside member))
    rw [Option.bind_map, Option.bind_map] at links
    exact links
  · rw [table]
    intro index inside addr member
    obtain ⟨node, live, nodeKey, nodeValid⟩ := buckets.live index inside addr member
    have nodes := same addr (isMember inside member)
    rw [live, Option.map_some, Option.map_eq_some_iff] at nodes
    obtain ⟨other, found, equal⟩ := nodes
    exact ⟨other, found, (Prod.mk.inj equal).1.trans nodeKey, nodeValid⟩

/-- A node that is in no bucket can be pointed nowhere. -/
theorem TableInvariant.cleared (invariant : TableInvariant cmpfn valid key members power state lists)
    (fresh : element ∉ members) (live : state.memory element = some node) :
    ∃ cleared, state.setNext element none = some cleared ∧
      linkOf cleared.memory = Function.update (linkOf state.memory) element none ∧
      Relinked state cleared ∧
      TableInvariant cmpfn valid key members power cleared lists := by
  obtain ⟨cleared, call, link, table, relinked⟩ := setNext_effect live none
  refine ⟨cleared, call, link, relinked, invariant.rebucket table ?_⟩
  refine invariant.rehashable.buckets.relink relinked ?_
    (fun index inside addr member => ⟨index, inside, member⟩)
  rw [link, table]
  refine invariant.rehashable.buckets.chains.congr fun index inside addr member => ?_
  refine Function.update_of_ne ?_ _ _
  rintro rfl
  exact fresh (invariant.rehashable.covered index (invariant.rehashable.bucketCount ▸ inside) addr
    member)

/-- A key that belongs between two neighbours of its bucket is the key of no member. -/
theorem TableInvariant.absent (invariant : TableInvariant cmpfn valid key members power state lists)
    (split : lists (bucketOf (2 ^ power) (key element)) = front ++ back)
    (above : ∀ other ∈ front, rank (key other) < rank (key element))
    (below : ∀ other ∈ back.head?, rank (key element) < rank (key other)) :
    ∀ other ∈ members, key other ≠ key element := by
  intro other member same
  have inside := bucketOf_lt power (key element)
  have here := (invariant.placed _ inside other).mpr ⟨member, by rw [same]⟩
  have sorted := invariant.rehashable.sorted _ inside
  rw [split] at here sorted
  have middle := @pairwise_middle _ _ _ (fun addr => rank (key addr)) _ _ _ sorted above below
  rw [List.pairwise_append, List.pairwise_cons] at middle
  rcases List.mem_append.mp here with inFront | inBack
  · exact (above other inFront).ne (by rw [same])
  · exact (middle.2.1.1 other inBack).ne (by rw [same])

/-- `htable_add` behind the resize. -/
theorem htableAdd_sized (order : KeyOrder cmpfn valid)
    (invariant : TableInvariant cmpfn valid key members power state lists)
    (fresh : element ∉ members) (live : state.memory element = some node)
    (nodeKey : node.key = key element) (nodeValid : valid (key element))
    (few : members.card < 2 ^ 40)
    (room : state.htable.elementCount < state.htable.resizeThresElemCount) :
    ∃ answer next others, htableAdd .none state element = some (answer, next) ∧ SameNodes state next ∧
      ((answer = false ∧ (∃ other ∈ members, key other = key element) ∧
        TableInvariant cmpfn valid key members power next others) ∨
      (answer = true ∧ (∀ other ∈ members, key other ≠ key element) ∧
        TableInvariant cmpfn valid key (insert element members) power next others)) := by
  have inside := bucketOf_lt power (key element)
  have hashed : state.bucketIndex node.key = some (bucketOf (2 ^ power) (key element)) := by
    rw [nodeKey, bucketIndex_eq (order.nonempty nodeValid), invariant.rehashable.bucketCount]
  -- the new node points nowhere first
  obtain ⟨cleared, clear, clearLink, clearRelinked, clearInvariant⟩ := invariant.cleared fresh live
  obtain ⟨clearNode, clearLive, clearKey⟩ := clearRelinked.live live
  have rehashable := clearInvariant.rehashable
  have clearFresh : ∀ another < cleared.htable.bucketCount, element ∉ lists another :=
    fun another anotherInside member =>
      fresh (rehashable.covered another (rehashable.bucketCount ▸ anotherInside) element member)
  have clearInside : bucketOf (2 ^ power) (key element) < cleared.htable.bucketCount :=
    rehashable.bucketCount ▸ inside
  have head := rehashable.buckets.head_eq clearInside
  have enough := rehashable.length_lt_fuel inside
  unfold htableAdd
  simp only [if_neg (Nat.not_le.mpr room), load_some, live, hashed, invariant.size.lockOf inside,
    clear, Option.bind_eq_bind, Option.bind_some, head]
  cases bucket : lists (bucketOf (2 ^ power) (key element)) with
  | nil =>
    obtain ⟨next, call, relinked, inserted⟩ := rehashable.buckets.insertedFirst clearInside bucket
      clearFresh clearLive (clearKey.trans nodeKey) nodeValid
      (by rw [clearLink, Function.update_self])
    have above : ∀ other ∈ ([] : List Addr), rank (key other) < rank (key element) :=
      fun _ member => absurd member List.not_mem_nil
    have below : ∀ other ∈ ([] : List Addr).head?, rank (key element) < rank (key other) :=
      fun _ member => by cases member
    have noKey := invariant.absent bucket above below
    refine ⟨true, next, _, ?_, fun addr => (relinked.nodes addr).trans (clearRelinked.nodes addr),
      Or.inr ⟨rfl, noKey, clearInvariant.linked relinked fresh few noKey bucket above below
        inserted⟩⟩
    rw [counted] at call
    simp only [List.head?_nil, call]
    rfl
  | cons comparator rest =>
    have place := @htableAddLoop_spec _ _ _ _ _ _ _ _ [] _ order _ _ rehashable.isCmpfn
      rehashable.buckets clearInside bucket clearFresh clearLive (clearKey.trans nodeKey) nodeValid
      (fun _ member => absurd member List.not_mem_nil) (Nat.lt_of_succ_lt (bucket ▸ enough))
    simp only [List.head?_cons, nodeKey]
    rcases place with ⟨⟨other, member, same⟩, call⟩ |
      ⟨next, before, after, split, above, below, call, relinked, inserted⟩
    · refine ⟨false, cleared, lists, call, clearRelinked.nodes, Or.inl ⟨rfl, ⟨other, ?_, same⟩,
        clearInvariant⟩⟩
      rw [← bucket] at member
      exact invariant.rehashable.covered _ inside other member
    · have noKey := invariant.absent (bucket.trans split) above below
      exact ⟨true, next, _, call, fun addr =>
        (relinked.nodes addr).trans (clearRelinked.nodes addr),
        Or.inr ⟨rfl, noKey, clearInvariant.linked relinked fresh few noKey (bucket.trans split)
          above below inserted⟩⟩

/-- `htable_add` links a node in exactly where no node with its key is in the table. -/
theorem htableAdd_spec (order : KeyOrder cmpfn valid)
    (invariant : TableInvariant cmpfn valid key members power state lists)
    (fresh : element ∉ members) (live : state.memory element = some node)
    (nodeKey : node.key = key element) (nodeValid : valid (key element))
    (few : members.card < 2 ^ 40) :
    ∃ answer next newPower others, htableAdd .none state element = some (answer, next) ∧
      SameNodes state next ∧
      ((answer = false ∧ (∃ other ∈ members, key other = key element) ∧
        TableInvariant cmpfn valid key members newPower next others) ∨
      (answer = true ∧ (∀ other ∈ members, key other ≠ key element) ∧
        TableInvariant cmpfn valid key (insert element members) newPower next others)) := by
  by_cases full : state.htable.resizeThresElemCount ≤ state.htable.elementCount
  · obtain ⟨larger, newPower, others, resize, largerInvariant, room, same⟩ :=
      htableResize_spec order invariant
    obtain ⟨stillNode, stillLive, stillKey⟩ := SameNodes.live same live
    obtain ⟨answer, next, finalLists, add, sameNext, result⟩ := htableAdd_sized order largerInvariant
      fresh stillLive (stillKey.trans nodeKey) nodeValid few room
    refine ⟨answer, next, newPower, finalLists, ?_, fun addr => (sameNext addr).trans (same addr),
      result⟩
    rw [← add]
    unfold htableAdd
    rw [if_pos full, if_neg (Nat.not_le.mpr room), resize]
  · obtain ⟨answer, next, others, add, same, result⟩ := htableAdd_sized order invariant fresh live
      nodeKey nodeValid few (Nat.not_le.mp full)
    exact ⟨answer, next, power, others, add, same, result⟩

end Add

/-! ### Looking up and removing -/

section Seek

variable {cmpfn : CmpFunc} {valid : Bytes → Prop} {key : Addr → Bytes} {members : Finset Addr}
  {power : Nat} {state next : HtableState} {lists : Nat → List Addr} {index : Nat} {target : Addr}
  {node : Node} {front back : List Addr} {wanted : Bytes}

/-- The search loop finds the node with a key, or nothing where there is none. -/
theorem htableSeek_spec (order : KeyOrder cmpfn valid) {fuel : Nat}
    (isCmpfn : state.htable.cmpfn = cmpfn) (buckets : Buckets valid key state lists)
    (inside : index < state.htable.bucketCount) (split : lists index = front ++ back)
    (wantedValid : valid wanted) (enough : back.length < fuel) :
    (∃ prev, (∀ other ∈ back, key other ≠ wanted) ∧
      htableSeek wanted fuel state front.getLast? back.head? = some (prev, none)) ∨
    ∃ before target after, front ++ back = before ++ target :: after ∧ target ∈ back ∧
      key target = wanted ∧ htableSeek wanted fuel state front.getLast? back.head? =
        some (before.getLast?, some target) := by
  induction back generalizing front fuel with
  | nil =>
    obtain ⟨fuel, rfl⟩ : ∃ smaller, fuel = smaller + 1 := ⟨fuel - 1, by simp at enough; omega⟩
    exact Or.inl ⟨_, fun _ member => absurd member List.not_mem_nil, rfl⟩
  | cons current back inductionHypothesis =>
    obtain ⟨fuel, rfl⟩ : ∃ smaller, fuel = smaller + 1 := ⟨fuel - 1, by simp at enough; omega⟩
    obtain ⟨node, live, nodeKey, nodeValid⟩ :=
      buckets.live index inside current (by rw [split]; simp)
    have nodeNext : node.next = back.head? := by
      have path := buckets.chains.path index inside
      rw [split] at path
      rw [← path.link_eq, linkOf, live, Option.bind_some]
    have zero : state.compare wanted node = 0 ↔ wanted = key current := by
      rw [HtableState.compare, isCmpfn, nodeKey]
      exact order.zero_iff wantedValid nodeValid
    simp only [List.head?_cons, htableSeek, load_some, live, nodeNext, Option.bind_eq_bind,
      Option.bind_some, zero]
    by_cases same : wanted = key current
    · exact Or.inr ⟨front, current, back, rfl, List.mem_cons_self, same.symm, by rw [if_pos same]; rfl⟩
    · rw [if_neg same]
      have rest := @inductionHypothesis (front ++ [current]) fuel
        (by rw [split, List.append_assoc, List.singleton_append])
        (by rw [List.length_cons] at enough; omega)
      rw [List.getLast?_concat, List.append_assoc, List.singleton_append] at rest
      refine rest.imp ?_ ?_
      · rintro ⟨prev, noKey, call⟩
        refine ⟨prev, ?_, call⟩
        rintro other (_ | ⟨_, member⟩)
        · exact fun equal => same equal.symm
        · exact noKey other member
      · rintro ⟨before, target, after, place, member, equal, call⟩
        exact ⟨before, target, after, place, List.mem_cons_of_mem _ member, equal, call⟩

/-- What the search from the head of a bucket answers. -/
theorem Rehashable.seek (order : KeyOrder cmpfn valid)
    (rehashable : Rehashable cmpfn valid key members power state lists)
    (placed : ∀ index < 2 ^ power, ∀ addr,
      addr ∈ lists index ↔ addr ∈ members ∧ index = bucketOf (2 ^ power) (key addr))
    (wantedValid : valid wanted) :
    ∃ prev found, state.bucketIndex wanted = some (bucketOf (2 ^ power) wanted) ∧
      htableSeek wanted state.fuel state none (state.htable.buckets (bucketOf (2 ^ power) wanted)) =
        some (prev, found) ∧
      ((found = none ∧ ∀ other ∈ members, key other ≠ wanted) ∨
      ∃ before target after, found = some target ∧ prev = before.getLast? ∧ target ∈ members ∧
        key target = wanted ∧
        lists (bucketOf (2 ^ power) wanted) = before ++ target :: after) := by
  have bucketCount := rehashable.bucketCount
  have inside := bucketOf_lt power wanted
  have bucketInside : bucketOf (2 ^ power) wanted < state.htable.bucketCount := bucketCount ▸ inside
  have head := rehashable.buckets.head_eq bucketInside
  have hashed := @bucketIndex_eq state _ (order.nonempty wantedValid)
  rw [bucketCount] at hashed
  have search := @htableSeek_spec _ _ _ _ _ _ [] _ _ order _ rehashable.isCmpfn
    rehashable.buckets bucketInside rfl wantedValid (rehashable.length_lt_fuel inside)
  rw [List.getLast?_nil, ← head] at search
  rcases search with ⟨prev, noKey, call⟩ | ⟨before, target, after, split, member, equal, call⟩
  · refine ⟨prev, none, hashed, call, Or.inl ⟨rfl, fun other isMember same => ?_⟩⟩
    exact noKey other ((placed _ inside other).mpr ⟨isMember, by rw [same]⟩) same
  · refine ⟨before.getLast?, some target, hashed, call, Or.inr ⟨before, target, after, rfl, rfl, ?_,
      equal, split⟩⟩
    exact rehashable.covered _ inside target member

theorem TableInvariant.seek (order : KeyOrder cmpfn valid)
    (invariant : TableInvariant cmpfn valid key members power state lists)
    (wantedValid : valid wanted) :
    ∃ prev found, state.bucketIndex wanted = some (bucketOf (2 ^ power) wanted) ∧
      htableSeek wanted state.fuel state none (state.htable.buckets (bucketOf (2 ^ power) wanted)) =
        some (prev, found) ∧
      ((found = none ∧ ∀ other ∈ members, key other ≠ wanted) ∨
      ∃ before target after, found = some target ∧ prev = before.getLast? ∧ target ∈ members ∧
        key target = wanted ∧
        lists (bucketOf (2 ^ power) wanted) = before ++ target :: after) :=
  invariant.rehashable.seek order invariant.placed wantedValid

/-- `htable_get` answers the node with the key, and counts a reference to it where asked to. -/
theorem htableGet_spec (order : KeyOrder cmpfn valid)
    (invariant : TableInvariant cmpfn valid key members power state lists)
    (wantedValid : valid wanted) (refInc : Bool) :
    ∃ found next, htableGet state wanted refInc = some (found, next) ∧
      TableInvariant cmpfn valid key members power next lists ∧
      (∀ addr, (next.memory addr).map Node.key = (state.memory addr).map Node.key) ∧
      ((found = none ∧ ∀ other ∈ members, key other ≠ wanted) ∨
        ∃ target ∈ members, found = some target ∧ key target = wanted) := by
  have inside := bucketOf_lt power wanted
  obtain ⟨prev, found, hashed, search, result⟩ := invariant.seek order wantedValid
  unfold htableGet
  simp only [hashed, invariant.size.lockOf inside, search, Option.bind_eq_bind, Option.bind_some]
  rcases result with ⟨rfl, noKey⟩ | ⟨before, target, after, rfl, rfl, member, equal, split⟩
  · exact ⟨none, state, rfl, invariant, fun _ => rfl, Or.inl ⟨rfl, noKey⟩⟩
  · cases refInc with
    | false => exact ⟨some target, state, rfl, invariant, fun _ => rfl,
        Or.inr ⟨target, member, rfl, equal⟩⟩
    | true =>
      obtain ⟨node, live, _⟩ := invariant.rehashable.buckets.live (bucketOf (2 ^ power) wanted)
        (invariant.rehashable.bucketCount ▸ inside) target (by rw [split]; simp)
      let referenced : Node := { node with refCnt := atomicInc 32 node.refCnt }
      refine ⟨some target, ⟨Function.update state.memory target (some referenced), state.htable⟩,
        ?_, ?_, fun addr => ?_, Or.inr ⟨target, member, rfl, equal⟩⟩
      · simp only [if_true, nodeGet, store_of_live live, Option.bind_some]
        rfl
      · refine invariant.congr rfl fun addr _ => ?_
        by_cases same : addr = target
        · subst same
          simp [live, referenced]
        · simp [same]
      · by_cases same : addr = target
        · subst same
          simp [live, referenced]
        · simp [same]

/-- `node_put` changes no other node. -/
theorem nodePut_spec {memory : Memory Node} (live : memory target = some node) :
    ∃ other, nodePut memory target = some other ∧
      ∀ addr, addr ≠ target → other addr = memory addr := by
  unfold nodePut
  rw [store_of_live live, Option.bind_eq_bind, Option.bind_some, load_some, Function.update_self,
    Option.bind_eq_bind, Option.bind_some]
  by_cases zero : atomicDec 32 node.refCnt = 0
  · refine ⟨_, by rw [if_pos zero, release_of_live (Function.update_self ..)],
      fun addr different => ?_⟩
    rw [Function.update_of_ne different, Function.update_of_ne different]
  · exact ⟨_, by rw [if_neg zero], fun addr different => Function.update_of_ne different _ _⟩

/-- Where the nodes are once one was unlinked. -/
theorem TableInvariant.placed_erase
    (invariant : TableInvariant cmpfn valid key members power state lists)
    (inside : index < 2 ^ power) (split : lists index = front ++ target :: back) (another : Nat)
    (anotherInside : another < 2 ^ power) (addr : Addr) :
    addr ∈ Function.update lists index (front ++ back) another ↔
      addr ∈ members.erase target ∧ another = bucketOf (2 ^ power) (key addr) := by
  have chains := invariant.rehashable.buckets.chains
  have bucketCount := invariant.rehashable.bucketCount
  have distinct := chains.distinct index (bucketCount ▸ inside)
  rw [split, List.nodup_middle, List.nodup_cons] at distinct
  have before := invariant.placed another anotherInside addr
  rw [Finset.mem_erase]
  by_cases here : another = index
  · subst here
    rw [split] at before
    rw [Function.update_self]
    by_cases isTarget : addr = target
    · subst isTarget
      exact iff_of_false distinct.1 fun both => both.1.1 rfl
    · simp only [List.mem_append, List.mem_cons, isTarget, false_or] at before
      rw [List.mem_append, before]
      simp [isTarget]
  · rw [Function.update_of_ne here]
    have notTarget : addr ∈ lists another → addr ≠ target := by
      rintro inAnother rfl
      exact here (chains.apart another (bucketCount ▸ anotherInside) index (bucketCount ▸ inside) addr
        inAnother (by rw [split]; simp))
    constructor
    · intro inAnother
      obtain ⟨isMember, same⟩ := before.mp inAnother
      exact ⟨⟨notTarget inAnother, isMember⟩, same⟩
    · rintro ⟨⟨_, isMember⟩, same⟩
      exact before.mpr ⟨isMember, same⟩

/-- The buckets without a node that was unlinked and cut off. -/
theorem TableInvariant.cutOff (invariant : TableInvariant cmpfn valid key members power state lists)
    (inside : index < 2 ^ power) (split : lists index = front ++ target :: back)
    (member : target ∈ members) :
    ∃ first second, state.setLink index front.getLast? (linkOf state.memory target) = some first ∧
      first.setNext target none = some second ∧ Relinked state second ∧
      TableInvariant cmpfn valid key (members.erase target) power
        { second with htable := { second.htable with
          elementCount := atomicDec 64 second.htable.elementCount } }
        (Function.update lists index (front ++ back)) := by
  have located := invariant.placed_erase inside split
  obtain ⟨⟨isCmpfn, bucketCount, buckets, sorted, covered, distinctKeys, elementCount⟩, placed,
    params, size, few⟩ := invariant
  rw [← bucketCount] at inside
  obtain ⟨node, live, _⟩ := buckets.live index inside target (by rw [split]; simp)
  obtain ⟨first, firstCall, firstLink, firstHeads, firstRelinked⟩ :=
    @setLink_effect state index _ (buckets.lastLive inside split) (linkOf state.memory target)
  obtain ⟨still, stillLive, _⟩ := firstRelinked.live live
  obtain ⟨second, secondCall, secondLink, secondTable, secondRelinked⟩ :=
    setNext_effect stillLive none
  have relinked := firstRelinked.trans secondRelinked
  have secondBuckets : Buckets valid key second (Function.update lists index (front ++ back)) := by
    refine buckets.relink relinked ?_ fun another anotherInside addr inLists =>
      ⟨bucketOf (2 ^ power) (key addr), bucketCount ▸ bucketOf_lt power _, ?_⟩
    · rw [secondLink, secondTable, firstLink, firstHeads]
      refine (buckets.chains.unlink inside split).congr fun another anotherInside addr inLists => ?_
      refine Function.update_of_ne ?_ _ _
      rintro rfl
      exact absurd ((located another (bucketCount ▸ anotherInside) addr).mp inLists).1
        (Finset.notMem_erase addr members)
    · have isMember := ((located another (bucketCount ▸ anotherInside) addr).mp inLists).1
      exact (placed _ (bucketOf_lt power _) addr).mpr ⟨Finset.mem_of_mem_erase isMember, rfl⟩
  have positive : 0 < members.card := Finset.card_pos.mpr ⟨target, member⟩
  refine ⟨first, second, firstCall, secondCall, relinked, ⟨⟨relinked.cmpfn.trans isCmpfn,
    relinked.bucketCount.trans bucketCount, ⟨secondBuckets.chains, secondBuckets.live⟩, ?_, ?_, ?_, ?_⟩,
    located, ?_, ?_, ?_⟩⟩
  · intro another anotherInside
    by_cases here : another = index
    · subst here
      have before := sorted another anotherInside
      rw [split] at before
      rw [Function.update_self]
      exact before.sublist (List.Sublist.append_left (List.sublist_cons_self _ _) _)
    · rw [Function.update_of_ne here]
      exact sorted another anotherInside
  · intro another anotherInside addr inLists
    exact ((located another anotherInside addr).mp inLists).1
  · intro one inOne two inTwo same
    exact distinctKeys one (Finset.mem_of_mem_erase inOne) two (Finset.mem_of_mem_erase inTwo) same
  · show atomicDec 64 second.htable.elementCount = _
    rw [relinked.elementCount, elementCount, Finset.card_erase_of_mem member,
      atomicDec_of_pos positive]
  · rw [relinked.table]
    exact ⟨params.thresholdPos, params.thresholdLe, params.resizePos, params.resizeLe⟩
  · rw [relinked.table]
    exact ⟨size.bucketCount, size.lockFits, size.lockCount, size.threshold, size.bounded⟩
  · exact (Finset.card_erase_le).trans few

/-- `htable_remove` takes the node with the key out of the table, and drops a reference to it. -/
theorem htableRemove_spec (order : KeyOrder cmpfn valid)
    (invariant : TableInvariant cmpfn valid key members power state lists)
    (wantedValid : valid wanted) :
    ∃ next, htableRemove state wanted = some next ∧
      (∀ addr ∉ members, (next.memory addr).map Node.unlinked =
        (state.memory addr).map Node.unlinked) ∧
      ((next = state ∧ ∀ other ∈ members, key other ≠ wanted) ∨
      ∃ target ∈ members, key target = wanted ∧
        ∃ others, TableInvariant cmpfn valid key (members.erase target) power next others) := by
  have inside := bucketOf_lt power wanted
  obtain ⟨prev, found, hashed, search, result⟩ := invariant.seek order wantedValid
  unfold htableRemove
  simp only [hashed, invariant.size.lockOf inside, search, Option.bind_eq_bind, Option.bind_some]
  rcases result with ⟨rfl, noKey⟩ | ⟨before, target, after, rfl, rfl, member, equal, split⟩
  · exact ⟨state, rfl, fun _ _ => rfl, Or.inl ⟨rfl, noKey⟩⟩
  · obtain ⟨first, second, firstCall, secondCall, relinked, cut⟩ :=
      invariant.cutOff inside split member
    obtain ⟨node, live, _⟩ := invariant.rehashable.buckets.live (bucketOf (2 ^ power) wanted)
      (invariant.rehashable.bucketCount ▸ inside) target (by rw [split]; simp)
    obtain ⟨still, stillLive, _⟩ := relinked.live live
    obtain ⟨memory, put, others⟩ := nodePut_spec stillLive
    have nodeNext : node.next = linkOf state.memory target := by
      rw [linkOf, live, Option.bind_some]
    simp only [load_some, live, nodeNext, firstCall, secondCall, put, Option.bind_some]
    refine ⟨_, rfl, fun addr outside => ?_, Or.inr ⟨target, member, equal, _, cut.congr rfl ?_⟩⟩
    · have different : addr ≠ target := by
        rintro rfl
        exact outside member
      show (memory addr).map Node.unlinked = _
      rw [others addr different]
      exact relinked.nodes addr
    · intro addr isMember
      show (memory addr).map _ = (second.memory addr).map _
      rw [others addr (Finset.ne_of_mem_erase isMember)]

end Seek

/-! ### Any sequence of operations -/

/-- The two kinds of keys: user names and addresses. -/
inductive KeyKind
  | usernames
  | addresses
  deriving DecidableEq, Repr

/-- The comparison function a table of some kind is created with. -/
def KeyKind.cmpfn : KeyKind → CmpFunc
  | .usernames => stdClientCmp
  | .addresses => ipCmp

/-- The keys of a table of some kind. -/
def KeyKind.Valid : KeyKind → Bytes → Prop
  | .usernames => ValidUsername
  | .addresses => ValidAddress

theorem KeyKind.order (kind : KeyKind) : KeyOrder kind.cmpfn kind.Valid := by
  cases kind with
  | usernames => exact stdClientCmp_keyOrder
  | addresses => exact ipCmp_keyOrder

/-- The map a table stands for: the node that holds each key. -/
abbrev KeyMap := Finmap fun _ : Bytes => Addr

/-- What a thread does with a table. -/
inductive TableEvent
  | create (element : Addr) (key : Bytes)
  | add (element : Addr) (key : Bytes) (answer : Bool)
  | get (key : Bytes) (answer : Option Addr)
  | remove (key : Bytes)

/-- The table with its memory, and the nodes that were created and are not in the table. -/
structure TableWorld where
  state : HtableState
  owned : Set Addr

/-- One call. A caller adds a node it has created, and which is not in the table, under a key of the
table's kind. -/
inductive TableStep (kind : KeyKind) : TableWorld → TableEvent → TableWorld → Prop
  | create {state : HtableState} {owned : Set Addr} {element : Addr} {node : Node}
      (dead : state.memory element = none) (isValid : kind.Valid node.key) :
      TableStep kind ⟨state, owned⟩ (.create element node.key)
        ⟨{ state with memory := Function.update state.memory element (some node) },
          Set.insert element owned⟩
  | add {state next : HtableState} {owned : Set Addr} {element : Addr} {node : Node} {answer : Bool}
      (mine : element ∈ owned) (live : state.memory element = some node)
      (few : state.htable.elementCount < 2 ^ 40)
      (call : htableAdd .none state element = some (answer, next)) :
      TableStep kind ⟨state, owned⟩ (.add element node.key answer)
        ⟨next, if answer then owned \ {element} else owned⟩
  | get {state next : HtableState} {owned : Set Addr} {key : Bytes} {refInc : Bool}
      {answer : Option Addr} (isValid : kind.Valid key)
      (call : htableGet state key refInc = some (answer, next)) :
      TableStep kind ⟨state, owned⟩ (.get key answer) ⟨next, owned⟩
  | remove {state next : HtableState} {owned : Set Addr} {key : Bytes} (isValid : kind.Valid key)
      (call : htableRemove state key = some next) :
      TableStep kind ⟨state, owned⟩ (.remove key) ⟨next, owned⟩

/-- A sequence of calls. -/
inductive TableRun (kind : KeyKind) (start : TableWorld) : List TableEvent → TableWorld → Prop
  | nil : TableRun kind start [] start
  | snoc {events : List TableEvent} {event : TableEvent} {world next : TableWorld} :
      TableRun kind start events world → TableStep kind world event next →
        TableRun kind start (events ++ [event]) next

/-- The same calls on a map. -/
inductive MapStep : KeyMap → TableEvent → KeyMap → Prop
  | create (map : KeyMap) (element : Addr) (key : Bytes) : MapStep map (.create element key) map
  | insert {map : KeyMap} {key : Bytes} (element : Addr) (absent : key ∉ map) :
      MapStep map (.add element key true) (map.insert key element)
  | duplicate {map : KeyMap} {key : Bytes} (element : Addr) (present : key ∈ map) :
      MapStep map (.add element key false) map
  | get (map : KeyMap) (key : Bytes) : MapStep map (.get key (map.lookup key)) map
  | remove (map : KeyMap) (key : Bytes) : MapStep map (.remove key) (map.erase key)

/-- A sequence of calls on the map, which starts empty. -/
inductive MapRun : List TableEvent → KeyMap → Prop
  | nil : MapRun [] ∅
  | snoc {events : List TableEvent} {event : TableEvent} {map next : KeyMap} :
      MapRun events map → MapStep map event next → MapRun (events ++ [event]) next

/-- The map holds the nodes in the table under their keys. -/
def HoldsMembers (key : Addr → Bytes) (members : Finset Addr) (map : KeyMap) : Prop :=
  ∀ wanted addr, map.lookup wanted = some addr ↔ addr ∈ members ∧ key addr = wanted

/-- The invariant of the world around a table. -/
structure WorldInvariant (kind : KeyKind) (world : TableWorld) (map : KeyMap)
    (key : Addr → Bytes) (members : Finset Addr) (power : Nat) (lists : Nat → List Addr) : Prop where
  table : TableInvariant kind.cmpfn kind.Valid key members power world.state lists
  holds : HoldsMembers key members map
  ownedLive : ∀ addr ∈ world.owned, ∃ node, world.state.memory addr = some node ∧
    node.key = key addr ∧ kind.Valid (key addr)
  ownedOutside : ∀ addr ∈ world.owned, addr ∉ members

section World

variable {kind : KeyKind} {world next : TableWorld} {map : KeyMap} {key other : Addr → Bytes}
  {members : Finset Addr} {power : Nat} {lists : Nat → List Addr} {element target : Addr}
  {wanted : Bytes}

/-- Only the keys of the nodes in the table matter. -/
theorem TableInvariant.congrKey {cmpfn : CmpFunc} {valid : Bytes → Prop} {state : HtableState}
    (invariant : TableInvariant cmpfn valid key members power state lists)
    (same : ∀ addr ∈ members, other addr = key addr) :
    TableInvariant cmpfn valid other members power state lists := by
  obtain ⟨⟨isCmpfn, bucketCount, ⟨chains, live⟩, sorted, covered, distinctKeys, elementCount⟩,
    placed, params, size, few⟩ := invariant
  refine ⟨⟨isCmpfn, bucketCount, ⟨chains, fun index inside addr member => ?_⟩, ?_, covered, ?_,
    elementCount⟩, fun index inside addr => ?_, params, size, few⟩
  · rw [same addr (covered index (bucketCount ▸ inside) addr member)]
    exact live index inside addr member
  · intro index inside
    refine (sorted index inside).imp_of_mem fun {first second} inFirst inSecond before => ?_
    rw [same first (covered index inside first inFirst),
      same second (covered index inside second inSecond)]
    exact before
  · intro first inFirst second inSecond equal
    rw [same first inFirst, same second inSecond] at equal
    exact distinctKeys first inFirst second inSecond equal
  · rw [placed index inside]
    exact and_congr_right fun member => by rw [same addr member]

theorem HoldsMembers.mem_iff (holds : HoldsMembers key members map) :
    wanted ∈ map ↔ ∃ addr ∈ members, key addr = wanted := by
  rw [Finmap.mem_iff]
  exact exists_congr fun addr => holds wanted addr

theorem HoldsMembers.lookup_eq_none (holds : HoldsMembers key members map)
    (absent : ∀ addr ∈ members, key addr ≠ wanted) : map.lookup wanted = none := by
  rw [Finmap.lookup_eq_none, holds.mem_iff]
  rintro ⟨addr, member, same⟩
  exact absent addr member same

/-- A map has as many keys as the table has nodes. -/
theorem HoldsMembers.card (holds : HoldsMembers key members map)
    (distinct : ∀ first ∈ members, ∀ second ∈ members, key first = key second → first = second) :
    map.keys.card = members.card := by
  have image : map.keys = members.image key := by
    ext wanted
    rw [Finmap.mem_keys, holds.mem_iff, Finset.mem_image]
  rw [image]
  exact Finset.card_image_of_injOn fun first inFirst second inSecond =>
    distinct first inFirst second inSecond

theorem HoldsMembers.insert (holds : HoldsMembers key members map)
    (absent : ∀ addr ∈ members, key addr ≠ key element) :
    HoldsMembers key (insert element members) (map.insert (key element) element) := by
  intro wanted addr
  rw [Finset.mem_insert]
  by_cases same : wanted = key element
  · subst same
    rw [Finmap.lookup_insert, Option.some.injEq]
    constructor
    · rintro rfl
      exact ⟨Or.inl rfl, rfl⟩
    · rintro ⟨rfl | member, equal⟩
      · rfl
      · exact absurd equal (absent addr member)
  · rw [Finmap.lookup_insert_of_ne _ same, holds wanted addr]
    constructor
    · exact fun both => ⟨Or.inr both.1, both.2⟩
    · rintro ⟨rfl | member, equal⟩
      · exact absurd equal.symm same
      · exact ⟨member, equal⟩

theorem HoldsMembers.erase (holds : HoldsMembers key members map) (member : target ∈ members)
    (distinct : ∀ first ∈ members, ∀ second ∈ members, key first = key second → first = second) :
    HoldsMembers key (members.erase target) (map.erase (key target)) := by
  intro wanted addr
  rw [Finset.mem_erase]
  by_cases same : wanted = key target
  · subst same
    rw [Finmap.lookup_erase]
    refine iff_of_false (by simp) ?_
    rintro ⟨⟨different, isMember⟩, equal⟩
    exact different (distinct addr isMember target member equal)
  · rw [Finmap.lookup_erase_ne same, holds wanted addr]
    constructor
    · rintro ⟨isMember, equal⟩
      refine ⟨⟨?_, isMember⟩, equal⟩
      rintro rfl
      exact same equal.symm
    · exact fun both => ⟨both.1.2, both.2⟩

theorem HoldsMembers.erase_absent (holds : HoldsMembers key members map)
    (absent : ∀ addr ∈ members, key addr ≠ wanted) : map.erase wanted = map := by
  have missing := holds.lookup_eq_none absent
  refine Finmap.ext_lookup fun other => ?_
  by_cases same : other = wanted
  · subst same
    rw [Finmap.lookup_erase, missing]
  · rw [Finmap.lookup_erase_ne same]

theorem keys_of_unlinked {node other : Option Node}
    (same : node.map Node.unlinked = other.map Node.unlinked) :
    node.map Node.key = other.map Node.key := by
  have keys := congrArg (Option.map Node.key) same
  rw [Option.map_map, Option.map_map] at keys
  exact keys

/-- What the caller owns stays live where it keeps its keys. -/
theorem WorldInvariant.stillOwned
    (invariant : WorldInvariant kind world map key members power lists) {state : HtableState}
    (keys : ∀ addr ∈ world.owned,
      (state.memory addr).map Node.key = (world.state.memory addr).map Node.key) :
    ∀ addr ∈ world.owned, ∃ node, state.memory addr = some node ∧ node.key = key addr ∧
      kind.Valid (key addr) := by
  intro addr mine
  obtain ⟨node, live, nodeKey, nodeValid⟩ := invariant.ownedLive addr mine
  have sameKey := keys addr mine
  rw [live, Option.map_some, Option.map_eq_some_iff] at sameKey
  obtain ⟨still, stillLive, stillKey⟩ := sameKey
  exact ⟨still, stillLive, stillKey.trans nodeKey, nodeValid⟩

/-- A new node is in no bucket, and its key may be anything. -/
theorem WorldInvariant.create {node : Node}
    (invariant : WorldInvariant kind world map key members power lists)
    (dead : world.state.memory element = none) (isValid : kind.Valid node.key) :
    WorldInvariant kind
      ⟨⟨Function.update world.state.memory element (some node), world.state.htable⟩,
        Set.insert element world.owned⟩
      map (Function.update key element node.key) members power lists := by
  obtain ⟨table, holds, ownedLive, ownedOutside⟩ := invariant
  have outside : element ∉ members := by
    intro member
    obtain ⟨_, live, _⟩ := table.rehashable.buckets.live (bucketOf (2 ^ power) (key element))
      (table.rehashable.bucketCount ▸ bucketOf_lt power _) element
      ((table.placed _ (bucketOf_lt power _) element).mpr ⟨member, rfl⟩)
    rw [dead] at live
    cases live
  have notNew (addr : Addr) (member : addr ∈ members) : addr ≠ element := by
    rintro rfl
    exact outside member
  have sameKey (addr : Addr) (member : addr ∈ members) :
      Function.update key element node.key addr = key addr :=
    Function.update_of_ne (notNew addr member) _ _
  refine ⟨?_, ?_, ?_, ?_⟩
  · refine (@TableInvariant.congr _ _ _ _ _ _
      ⟨Function.update world.state.memory element (some node), world.state.htable⟩ _ table rfl
      fun addr member => ?_).congrKey sameKey
    simp [notNew addr member]
  · intro wanted addr
    rw [holds wanted addr]
    exact and_congr_right fun member => by rw [sameKey addr member]
  · rintro addr (rfl | mine)
    · refine ⟨node, Function.update_self .., ?_⟩
      rw [Function.update_self]
      exact ⟨rfl, isValid⟩
    · obtain ⟨other, live, otherKey, otherValid⟩ := ownedLive addr mine
      have different : addr ≠ element := by
        rintro rfl
        rw [dead] at live
        cases live
      rw [Function.update_of_ne different]
      exact ⟨other, (Function.update_of_ne different _ _).trans live, otherKey, otherValid⟩
  · rintro addr (rfl | mine)
    · exact outside
    · exact ownedOutside addr mine

theorem WorldInvariant.add {state : HtableState} {node : Node} {answer : Bool}
    (invariant : WorldInvariant kind world map key members power lists)
    (mine : element ∈ world.owned) (live : world.state.memory element = some node)
    (few : world.state.htable.elementCount < 2 ^ 40)
    (call : htableAdd .none world.state element = some (answer, state)) :
    ∃ after newMembers newPower others, MapStep map (.add element node.key answer) after ∧
      WorldInvariant kind ⟨state, if answer then world.owned \ {element} else world.owned⟩ after key
        newMembers newPower others := by
  have ⟨table, holds, ownedLive, ownedOutside⟩ := invariant
  obtain ⟨other, otherLive, nodeKey, nodeValid⟩ := ownedLive element mine
  obtain rfl := Option.some.inj (live.symm.trans otherLive)
  rw [table.rehashable.elementCount] at few
  obtain ⟨result, after, newPower, others, called, same, outcome⟩ := htableAdd_spec kind.order table
    (ownedOutside element mine) live nodeKey nodeValid few
  obtain ⟨rfl, rfl⟩ := Prod.mk.inj (Option.some.inj (call.symm.trans called))
  have stillOwned := invariant.stillOwned fun addr _ => keys_of_unlinked (same addr)
  rw [nodeKey]
  rcases outcome with ⟨rfl, present, kept⟩ | ⟨rfl, absent, kept⟩
  · exact ⟨map, members, newPower, others, .duplicate _ (holds.mem_iff.mpr present), kept, holds,
      stillOwned, ownedOutside⟩
  · refine ⟨_, Insert.insert element members, newPower, others, .insert _ ?_, kept,
      holds.insert absent, fun addr addrMine => stillOwned addr addrMine.1, ?_⟩
    · rw [holds.mem_iff]
      rintro ⟨addr, member, equal⟩
      exact absent addr member equal
    · rintro addr ⟨addrMine, different⟩ member
      rcases Finset.mem_insert.mp member with same | isMember
      · exact different same
      · exact ownedOutside addr addrMine isMember

theorem WorldInvariant.get {state : HtableState} {refInc : Bool} {answer : Option Addr}
    (invariant : WorldInvariant kind world map key members power lists) (isValid : kind.Valid wanted)
    (call : htableGet world.state wanted refInc = some (answer, state)) :
    answer = map.lookup wanted ∧
      WorldInvariant kind ⟨state, world.owned⟩ map key members power lists := by
  obtain ⟨found, after, called, kept, keys, outcome⟩ :=
    htableGet_spec kind.order invariant.table isValid refInc
  obtain ⟨rfl, rfl⟩ := Prod.mk.inj (Option.some.inj (call.symm.trans called))
  refine ⟨?_, kept, invariant.holds, invariant.stillOwned fun addr _ => keys addr,
    invariant.ownedOutside⟩
  rcases outcome with ⟨rfl, absent⟩ | ⟨target, member, rfl, equal⟩
  · exact (invariant.holds.lookup_eq_none absent).symm
  · exact ((invariant.holds wanted target).mpr ⟨member, equal⟩).symm

theorem WorldInvariant.remove {state : HtableState}
    (invariant : WorldInvariant kind world map key members power lists) (isValid : kind.Valid wanted)
    (call : htableRemove world.state wanted = some state) :
    ∃ newMembers others,
      WorldInvariant kind ⟨state, world.owned⟩ (map.erase wanted) key newMembers power others := by
  have ⟨table, holds, ownedLive, ownedOutside⟩ := invariant
  obtain ⟨after, called, same, outcome⟩ := htableRemove_spec kind.order table isValid
  obtain rfl := Option.some.inj (call.symm.trans called)
  have stillOwned := invariant.stillOwned fun addr mine =>
    keys_of_unlinked (same addr (ownedOutside addr mine))
  rcases outcome with ⟨rfl, absent⟩ | ⟨target, member, rfl, others, kept⟩
  · refine ⟨members, lists, table, ?_, stillOwned, ownedOutside⟩
    rw [holds.erase_absent absent]
    exact holds
  · exact ⟨members.erase target, others, kept,
      holds.erase member table.rehashable.distinctKeys, stillOwned, fun addr mine isMember =>
        ownedOutside addr mine (Finset.mem_of_mem_erase isMember)⟩

/-- One call keeps the invariant and does to the map what the specification says. -/
theorem WorldInvariant.step {event : TableEvent}
    (invariant : WorldInvariant kind world map key members power lists)
    (step : TableStep kind world event next) :
    ∃ after newKey newMembers newPower others, MapStep map event after ∧
      WorldInvariant kind next after newKey newMembers newPower others := by
  cases step with
  | create dead isValid =>
    exact ⟨map, _, members, power, lists, .create .., invariant.create dead isValid⟩
  | add mine live few call =>
    obtain ⟨after, newMembers, newPower, others, mapStep, kept⟩ := invariant.add mine live few call
    exact ⟨after, key, newMembers, newPower, others, mapStep, kept⟩
  | get isValid call =>
    obtain ⟨answered, kept⟩ := invariant.get isValid call
    rw [answered]
    exact ⟨map, key, members, power, lists, .get .., kept⟩
  | remove isValid call =>
    obtain ⟨newMembers, others, kept⟩ := invariant.remove isValid call
    exact ⟨_, key, newMembers, power, others, .remove .., kept⟩

end World

/-- A table in memory represents a map: its size is a power of two that the locks cover, its buckets
are lists that increase strictly under the comparison function, each node is in the bucket of its
hash, and the nodes are those of the map. -/
structure TableRepresents (state : HtableState) (map : KeyMap) (power : Nat)
    (lists : Nat → List Addr) : Prop where
  bucketCount : state.htable.bucketCount = 2 ^ power
  locks : state.htable.lockCount <<< state.htable.bucketsPerLockPow2 = state.htable.bucketCount
  elementCount : state.htable.elementCount = map.keys.card
  linked : ∀ index < state.htable.bucketCount,
    Path (linkOf state.memory) (state.htable.buckets index) (lists index) none
  increasing : ∀ index < state.htable.bucketCount,
    (lists index).Pairwise fun first second => ∃ firstNode secondNode,
      state.memory first = some firstNode ∧ state.memory second = some secondNode ∧
      state.compare firstNode.key secondNode < 0
  node : ∀ index < state.htable.bucketCount, ∀ addr ∈ lists index, ∃ node,
    state.memory addr = some node ∧ state.bucketIndex node.key = some index ∧
    map.lookup node.key = some addr
  complete : ∀ key addr, map.lookup key = some addr →
    ∃ index < state.htable.bucketCount, addr ∈ lists index

theorem TableInvariant.represents {cmpfn : CmpFunc} {valid : Bytes → Prop} {key : Addr → Bytes}
    {members : Finset Addr} {power : Nat} {state : HtableState} {lists : Nat → List Addr}
    {map : KeyMap} (order : KeyOrder cmpfn valid)
    (table : TableInvariant cmpfn valid key members power state lists)
    (holds : HoldsMembers key members map) : TableRepresents state map power lists := by
  obtain ⟨⟨isCmpfn, bucketCount, buckets, sorted, covered, distinctKeys, elementCount⟩, placed, _,
    size, _⟩ := table
  refine ⟨bucketCount, ?_, elementCount.trans (holds.card distinctKeys).symm, buckets.chains.path, ?_,
    ?_, ?_⟩
  · rw [size.lockCount, bucketCount, Nat.shiftLeft_eq, ← Nat.pow_add,
      Nat.sub_add_cancel size.lockFits]
  · intro index inside
    refine (sorted index (bucketCount ▸ inside)).imp_of_mem fun {first second} inFirst inSecond
      before => ?_
    obtain ⟨firstNode, firstLive, firstKey, firstValid⟩ := buckets.live index inside first inFirst
    obtain ⟨secondNode, secondLive, secondKey, secondValid⟩ :=
      buckets.live index inside second inSecond
    refine ⟨firstNode, secondNode, firstLive, secondLive, ?_⟩
    rw [HtableState.compare, isCmpfn, firstKey, secondKey]
    exact (order.neg_iff firstValid secondValid).mpr before
  · intro index inside addr member
    obtain ⟨node, live, nodeKey, nodeValid⟩ := buckets.live index inside addr member
    obtain ⟨isMember, isIndex⟩ := (placed index (bucketCount ▸ inside) addr).mp member
    refine ⟨node, live, ?_, (holds node.key addr).mpr ⟨isMember, nodeKey.symm⟩⟩
    rw [nodeKey, bucketIndex_eq (order.nonempty nodeValid), bucketCount, ← isIndex]
  · intro wanted addr found
    obtain ⟨member, _⟩ := (holds wanted addr).mp found
    exact ⟨bucketOf (2 ^ power) (key addr), bucketCount ▸ bucketOf_lt power _,
      (placed _ (bucketOf_lt power _) addr).mpr ⟨member, rfl⟩⟩

/-- What `htable_create` makes: all buckets are empty, and a lock is there for `2 ^ locks` of them. -/
structure CreatedTable (cmpfn : CmpFunc) (valid : Bytes → Prop) (key : Addr → Bytes)
    (size expansion load locks : Nat) (state : HtableState) : Prop where
  rehashable : Rehashable cmpfn valid key ∅ size state fun _ => []
  loadPos : load ≠ 0
  lockFits : locks ≤ size
  resizePos : 1 ≤ expansion
  resizeLt : expansion < 64
  thresholdLoadFactor : state.htable.thresholdLoadFactor = load
  resizeFactor : state.htable.htablePow2ResizeFactor = expansion
  bucketsPerLock : state.htable.bucketsPerLockPow2 = locks
  lockCount : state.htable.lockCount = 2 ^ (size - locks)
  threshold : state.htable.resizeThresElemCount = cThresElem load (2 ^ size)

theorem htableCreate_created {cmpfn : CmpFunc} {valid : Bytes → Prop} {key : Addr → Bytes}
    {size expansion load locks : Nat} {htable : StripedHtable}
    (created : htableCreate size expansion load locks cmpfn = some htable) (memory : Memory Node) :
    CreatedTable cmpfn valid key size expansion load locks ⟨memory, htable⟩ := by
  unfold htableCreate at created
  split_ifs at created with asserts
  obtain ⟨loadPos, lockFits, resizePos, resizeLt, _⟩ :
      load ≠ 0 ∧ locks ≤ size ∧ 1 ≤ expansion ∧ expansion < 64 ∧ size < 64 := by omega
  have lockCount : 2 ^ size >>> locks = 2 ^ (size - locks) := by
    rw [Nat.shiftRight_eq_div_pow, Nat.pow_div lockFits (by decide)]
  have lockPos : 2 ^ (size - locks) ≠ 0 := (Nat.two_pow_pos _).ne'
  simp only [Nat.one_shiftLeft, lockCount, if_neg lockPos] at created
  obtain rfl := Option.some.inj created
  have noMember {addr : Addr} {holds : Prop} (member : addr ∈ ([] : List Addr)) : holds :=
    absurd member List.not_mem_nil
  refine ⟨⟨rfl, rfl, ⟨⟨fun _ _ => rfl, fun _ _ => List.nodup_nil, ?_⟩, ?_⟩, fun _ _ => .nil, ?_, ?_,
    rfl⟩, loadPos, lockFits, resizePos, resizeLt, rfl, rfl, rfl, rfl, rfl⟩
  · exact fun _ _ _ _ _ member => noMember member
  · exact fun _ _ _ member => noMember member
  · exact fun _ _ _ member => noMember member
  · exact fun _ member => absurd member (Finset.notMem_empty _)

/-- The table that `htable_create` makes within the ranges of the configuration. -/
theorem htableCreate_invariant {kind : KeyKind} {size expansion load locks : Nat}
    {htable : StripedHtable} (sizeRange : 1 ≤ size ∧ size ≤ 21)
    (expansionRange : 1 ≤ expansion ∧ expansion ≤ 12) (loadRange : 1 ≤ load ∧ load ≤ 255)
    (lockRange : locks ≤ size)
    (created : htableCreate size expansion load locks kind.cmpfn = some htable)
    (memory : Memory Node) :
    WorldInvariant kind ⟨⟨memory, htable⟩, ∅⟩ ∅ (fun _ => []) ∅ size fun _ => [] := by
  have table : CreatedTable kind.cmpfn kind.Valid (fun _ => []) size expansion load locks
      ⟨memory, htable⟩ := htableCreate_created created memory
  have small : 2 ^ size ≤ 2 ^ 21 := Nat.pow_le_pow_right (by omega) sizeRange.2
  have bounded : 2 ^ size * load < 2 ^ 60 :=
    (Nat.mul_le_mul small loadRange.2).trans_lt (by decide)
  have threshold : htable.resizeThresElemCount = 2 ^ size * load / 100 := by
    rw [table.threshold, cThresElem, Nat.mod_eq_of_lt (by omega)]
  have params : TableParams htable := by
    refine ⟨?_, ?_, ?_, ?_⟩
    · exact table.thresholdLoadFactor ▸ loadRange.1
    · exact table.thresholdLoadFactor ▸ loadRange.2
    · exact table.resizeFactor ▸ expansionRange.1
    · exact table.resizeFactor ▸ expansionRange.2
  have sizes : TableSize htable size := by
    refine ⟨table.rehashable.bucketCount, ?_, ?_, ?_, ?_⟩
    · exact table.bucketsPerLock ▸ lockRange
    · exact table.bucketsPerLock ▸ table.lockCount
    · exact table.thresholdLoadFactor ▸ threshold
    · exact table.thresholdLoadFactor ▸ bounded
  refine ⟨⟨table.rehashable, fun _ _ _ => by simp, params, sizes, Nat.zero_le _⟩, ?_, ?_, ?_⟩
  · exact fun wanted addr => by simp
  · exact fun _ mine => mine.elim
  · exact fun _ mine => mine.elim

/-- The invariant holds after every run from a new table. -/
theorem WorldInvariant.run {kind : KeyKind} {start world : TableWorld} {events : List TableEvent}
    {key : Addr → Bytes} {members : Finset Addr} {power : Nat} {lists : Nat → List Addr}
    (initial : WorldInvariant kind start ∅ key members power lists)
    (run : TableRun kind start events world) :
    ∃ map key members power lists, MapRun events map ∧
      WorldInvariant kind world map key members power lists := by
  induction run with
  | nil => exact ⟨∅, key, members, power, lists, .nil, initial⟩
  | snoc _ step inductionHypothesis =>
    obtain ⟨map, key, members, power, lists, mapRun, invariant⟩ := inductionHypothesis
    obtain ⟨after, newKey, newMembers, newPower, others, mapStep, stepped⟩ := invariant.step step
    exact ⟨after, newKey, newMembers, newPower, others, .snoc mapRun mapStep, stepped⟩

/-- **The striped hash table refines a finite map.** After any sequence of calls the table
represents the map that the same calls make of the empty one, with the same answers. No further call
fails: adding inserts exactly where the key is absent, a lookup answers what the map holds, and
removing ends. -/
theorem htable_refines_map {kind : KeyKind} {size expansion load locks : Nat} {htable : StripedHtable}
    {memory : Memory Node} {events : List TableEvent} {world : TableWorld}
    (sizeRange : 1 ≤ size ∧ size ≤ 21) (expansionRange : 1 ≤ expansion ∧ expansion ≤ 12)
    (loadRange : 1 ≤ load ∧ load ≤ 255) (lockRange : locks ≤ size)
    (created : htableCreate size expansion load locks kind.cmpfn = some htable)
    (run : TableRun kind ⟨⟨memory, htable⟩, ∅⟩ events world) :
    ∃ map power lists, MapRun events map ∧ TableRepresents world.state map power lists ∧
      (∀ element ∈ world.owned, world.state.htable.elementCount < 2 ^ 40 → ∃ node next,
        world.state.memory element = some node ∧
        htableAdd .none world.state element = some (decide (node.key ∉ map), next)) ∧
      (∀ wanted refInc, kind.Valid wanted → ∃ next,
        htableGet world.state wanted refInc = some (map.lookup wanted, next)) ∧
      ∀ wanted, kind.Valid wanted → ∃ next, htableRemove world.state wanted = some next := by
  obtain ⟨map, key, members, power, lists, mapRun, table, holds, ownedLive, ownedOutside⟩ :=
    (htableCreate_invariant sizeRange expansionRange loadRange lockRange created memory).run run
  refine ⟨map, power, lists, mapRun, table.represents kind.order holds, fun element mine few => ?_,
    fun wanted refInc isValid => ?_, fun wanted isValid => ?_⟩
  · obtain ⟨node, live, nodeKey, nodeValid⟩ := ownedLive element mine
    rw [table.rehashable.elementCount] at few
    obtain ⟨answer, next, _, _, called, _, outcome⟩ := htableAdd_spec kind.order table
      (ownedOutside element mine) live nodeKey nodeValid few
    refine ⟨node, next, live, ?_⟩
    rw [called, nodeKey]
    rcases outcome with ⟨rfl, present, _⟩ | ⟨rfl, absent, _⟩
    · rw [decide_eq_false (not_not_intro (holds.mem_iff.mpr present))]
    · rw [decide_eq_true]
      rw [holds.mem_iff]
      rintro ⟨addr, member, equal⟩
      exact absent addr member equal
  · obtain ⟨found, next, called, _, _, outcome⟩ := htableGet_spec kind.order table isValid refInc
    refine ⟨next, ?_⟩
    rw [called]
    rcases outcome with ⟨rfl, absent⟩ | ⟨target, member, rfl, equal⟩
    · rw [holds.lookup_eq_none absent]
    · rw [(holds wanted target).mpr ⟨member, equal⟩]
  · obtain ⟨next, called, _⟩ := htableRemove_spec kind.order table isValid
    exact ⟨next, called⟩

/-- A table of two buckets for user names. -/
def smallTable : StripedHtable := (htableCreate 1 1 100 0 stdClientCmp).get rfl

/-- Three names are added to a table, which is resized for the last of them. One name is added once
more, and one is removed. -/
theorem htable_refines_map_three_names :
    ∃ (world : TableWorld) (map : KeyMap) (power : Nat) (lists : Nat → List Addr),
      MapRun [.create 1 [97], .add 1 [97] true, .create 2 [98], .add 2 [98] true,
        .create 3 [99], .add 3 [99] true, .create 4 [98], .add 4 [98] false, .get [98] (some 2),
        .remove [97], .get [97] none] map ∧
      TableRepresents world.state map power lists ∧ world.state.htable.bucketCount = 4 := by
  have ann : KeyKind.usernames.Valid [97] := ⟨by decide, by simp, by decide⟩
  have bob : KeyKind.usernames.Valid [98] := ⟨by decide, by simp, by decide⟩
  have eve : KeyKind.usernames.Valid [99] := ⟨by decide, by simp, by decide⟩
  have start : TableRun .usernames ⟨⟨fun _ => none, smallTable⟩, ∅⟩ [] _ := .nil
  have one := (start.snoc (@TableStep.create _ _ _ 1 ⟨[97], none, 1⟩ rfl ann)).snoc
    (.add (Set.mem_insert ..) rfl (by decide) rfl)
  have two := (one.snoc (@TableStep.create _ _ _ 2 ⟨[98], none, 1⟩ rfl bob)).snoc
    (.add (Set.mem_insert ..) rfl (by decide) rfl)
  have three := (two.snoc (@TableStep.create _ _ _ 3 ⟨[99], none, 1⟩ rfl eve)).snoc
    (.add (Set.mem_insert ..) rfl (by decide) rfl)
  have again := (three.snoc (@TableStep.create _ _ _ 4 ⟨[98], none, 1⟩ rfl bob)).snoc
    (.add (Set.mem_insert ..) rfl (by decide) rfl)
  have found := again.snoc (@TableStep.get _ _ _ _ [98] false _ bob rfl)
  have removed := found.snoc (@TableStep.remove _ _ _ _ [97] ann rfl)
  have run := removed.snoc (@TableStep.get _ _ _ _ [97] false _ ann rfl)
  obtain ⟨map, power, lists, mapRun, represents, _⟩ :=
    @htable_refines_map _ 1 1 100 0 _ _ _ _ (by decide) (by decide) (by decide) (by decide) rfl run
  exact ⟨_, map, power, lists, mapRun, represents, rfl⟩

end Lwmsg
