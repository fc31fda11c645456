/-
This file proves that the rehash of `htable_resize` takes every node to the bucket of its hash and
keeps the buckets sorted.

A bucket is described by the list of its addresses. Every step of the rehash only writes links, so
the keys stay where they are; a node that changes its bucket is unlinked from one list and linked
into another, in whichever order the code writes the pointers.
-/

import Lwmsg.Htable
import Mathlib.Data.Finset.Card

namespace Lwmsg

open Bytes Pointers SinglyLinked

/-! ### States that differ in links only -/

/-- The links of the nodes in a memory. -/
def linkOf (memory : Memory Node) (addr : Addr) : Option Addr := (memory addr).bind Node.next

/-- A node without its link. -/
def Node.unlinked (node : Node) : Node := { node with next := none }

/-- Nothing but links and bucket heads has changed. -/
structure Relinked (state next : HtableState) : Prop where
  nodes : ∀ addr, (next.memory addr).map Node.unlinked = (state.memory addr).map Node.unlinked
  table : next.htable = { state.htable with buckets := next.htable.buckets }

theorem Relinked.refl (state : HtableState) : Relinked state state := ⟨fun _ => rfl, rfl⟩

theorem Relinked.trans {first second third : HtableState} (one : Relinked first second)
    (two : Relinked second third) : Relinked first third where
  nodes addr := (two.nodes addr).trans (one.nodes addr)
  table := by
    rw [two.table, one.table]

theorem Relinked.bucketCount {state next : HtableState} (relinked : Relinked state next) :
    next.htable.bucketCount = state.htable.bucketCount := by rw [relinked.table]

theorem Relinked.elementCount {state next : HtableState} (relinked : Relinked state next) :
    next.htable.elementCount = state.htable.elementCount := by rw [relinked.table]

theorem Relinked.cmpfn {state next : HtableState} (relinked : Relinked state next) :
    next.htable.cmpfn = state.htable.cmpfn := by rw [relinked.table]

theorem Relinked.live {state next : HtableState} (relinked : Relinked state next) {addr : Addr}
    {node : Node} (live : state.memory addr = some node) :
    ∃ other, next.memory addr = some other ∧ other.key = node.key := by
  have nodes := relinked.nodes addr
  rw [live, Option.map_some, Option.map_eq_some_iff] at nodes
  obtain ⟨other, found, same⟩ := nodes
  exact ⟨other, found, show other.unlinked.key = node.unlinked.key by rw [same]⟩

/-- What a write of one link does. -/
theorem setNext_effect {state : HtableState} {addr : Addr} {node : Node}
    (live : state.memory addr = some node) (target : Option Addr) :
    ∃ next, state.setNext addr target = some next ∧
      linkOf next.memory = Function.update (linkOf state.memory) addr target ∧
      next.htable = state.htable ∧ Relinked state next := by
  refine ⟨{ state with
      memory := Function.update state.memory addr (some { node with next := target }) },
    ?_, funext fun other => ?_, rfl, fun other => ?_, rfl⟩
  · rw [HtableState.setNext, store_of_live live]
    rfl
  · by_cases same : other = addr
    · subst same
      simp [linkOf]
    · simp [linkOf, same]
  · by_cases same : other = addr
    · subst same
      simp [live, Node.unlinked]
    · simp only [Function.update_of_ne same]

/-- What a write to the head of a bucket or to the link in front does. -/
theorem setLink_effect {state : HtableState} {index : Nat} {prev : Option Addr}
    (live : ∀ addr, prev = some addr → ∃ node, state.memory addr = some node)
    (target : Option Addr) :
    ∃ next, state.setLink index prev target = some next ∧
      linkOf next.memory = setLink (linkOf state.memory) prev target ∧
      next.htable.buckets = setHead state.htable.buckets index prev target ∧
      Relinked state next := by
  cases prev with
  | none => exact ⟨_, rfl, rfl, rfl, fun _ => rfl, rfl⟩
  | some addr =>
    obtain ⟨node, found⟩ := live addr rfl
    obtain ⟨next, call, link, table, relinked⟩ := setNext_effect found target
    exact ⟨next, call, link, congrArg StripedHtable.buckets table, relinked⟩

/-! ### Buckets as lists -/

/-- The bucket of a key in a table of some size. -/
def bucketOf (bucketCount : Nat) (key : Bytes) : Nat :=
  (fnv1a32Hash key).getD 0 &&& (bucketCount - 1)

theorem bucketIndex_eq {state : HtableState} {key : Bytes} (nonempty : key ≠ []) :
    state.bucketIndex key = some (bucketOf state.htable.bucketCount key) := by
  obtain ⟨hash, _, found⟩ := fnv1a32Hash_of_ne_nil nonempty
  rw [HtableState.bucketIndex, bucketOf, found, Option.map_some, Option.getD_some]

theorem bucketOf_two_pow (power : Nat) (key : Bytes) :
    bucketOf (2 ^ power) key = (fnv1a32Hash key).getD 0 % 2 ^ power :=
  Nat.and_two_pow_sub_one_eq_mod _ _

/-- The buckets hold lists of nodes with valid keys. -/
structure Buckets (valid : Bytes → Prop) (key : Addr → Bytes) (state : HtableState)
    (lists : Nat → List Addr) : Prop where
  chains : Chains (linkOf state.memory) state.htable.buckets state.htable.bucketCount lists
  live : ∀ index < state.htable.bucketCount, ∀ addr ∈ lists index,
    ∃ node, state.memory addr = some node ∧ node.key = key addr ∧ valid (key addr)

/-- Every bucket is sorted by its keys. -/
def SortedBuckets (key : Addr → Bytes) (bucketCount : Nat) (lists : Nat → List Addr) : Prop :=
  ∀ index < bucketCount, (lists index).Pairwise fun first second =>
    rank (key first) < rank (key second)

section Buckets

variable {valid : Bytes → Prop} {key : Addr → Bytes} {state next : HtableState}
  {lists others : Nat → List Addr}

/-- Relinked nodes stay live with their keys. -/
theorem Buckets.relink (buckets : Buckets valid key state lists) (relinked : Relinked state next)
    (chains : Chains (linkOf next.memory) next.htable.buckets state.htable.bucketCount others)
    (noNew : ∀ index < state.htable.bucketCount, ∀ addr ∈ others index,
      ∃ another < state.htable.bucketCount, addr ∈ lists another) :
    Buckets valid key next others where
  chains := relinked.bucketCount ▸ chains
  live index inside addr member := by
    rw [relinked.bucketCount] at inside
    obtain ⟨another, anotherInside, before⟩ := noNew index inside addr member
    obtain ⟨node, found, keyIs, isValid⟩ := buckets.live another anotherInside addr before
    obtain ⟨other, otherFound, otherKey⟩ := relinked.live found
    exact ⟨other, otherFound, otherKey.trans keyIs, isValid⟩

theorem Buckets.lastLive (buckets : Buckets valid key state lists) {index : Nat}
    (inside : index < state.htable.bucketCount) {before after : List Addr}
    (split : lists index = before ++ after) (addr : Addr) (last : before.getLast? = some addr) :
    ∃ node, state.memory addr = some node := by
  obtain ⟨node, found, _⟩ := buckets.live index inside addr (by
    rw [split]
    exact List.mem_append_left _ (List.mem_of_getLast? last))
  exact ⟨node, found⟩

/-- A bucket is never longer than the number of nodes in the table. -/
theorem Buckets.length_le (buckets : Buckets valid key state lists) {members : Finset Addr}
    (covered : ∀ index < state.htable.bucketCount, ∀ addr ∈ lists index, addr ∈ members) {index : Nat}
    (inside : index < state.htable.bucketCount) : (lists index).length ≤ members.card := by
  rw [← List.toFinset_card_of_nodup (buckets.chains.distinct index inside)]
  exact Finset.card_le_card fun addr member => covered index inside addr (List.mem_toFinset.mp member)

theorem Buckets.head_eq (buckets : Buckets valid key state lists) {index : Nat}
    (inside : index < state.htable.bucketCount) :
    state.htable.buckets index = (lists index).head? :=
  (buckets.chains.path index inside).start_eq

end Buckets

/-- A value between the two parts of a sorted list can be put between them. -/
theorem pairwise_middle {Value Rank : Type*} [LinearOrder Rank] {rankOf : Value → Rank}
    {front back : List Value} {value : Value}
    (sorted : (front ++ back).Pairwise fun first second => rankOf first < rankOf second)
    (above : ∀ other ∈ front, rankOf other < rankOf value)
    (below : ∀ other ∈ back.head?, rankOf value < rankOf other) :
    (front ++ value :: back).Pairwise fun first second => rankOf first < rankOf second := by
  rw [List.pairwise_append] at sorted ⊢
  have belowAll : ∀ other ∈ back, rankOf value < rankOf other := by
    cases back with
    | nil => exact fun _ member => absurd member List.not_mem_nil
    | cons next back =>
      have first := below next rfl
      rintro other (_ | ⟨_, member⟩)
      · exact first
      · exact first.trans ((List.pairwise_cons.mp sorted.2.1).1 other member)
  refine ⟨sorted.1, List.pairwise_cons.mpr ⟨belowAll, sorted.2.1⟩, ?_⟩
  rintro first inFront second (_ | ⟨_, member⟩)
  · exact above first inFront
  · exact sorted.2.2 first inFront second member

/-! ### Moving one node -/

section Move

variable {valid : Bytes → Prop} {key : Addr → Bytes} {state : HtableState}
  {lists : Nat → List Addr} {srcBucket destBucket : Nat} {src : Addr}
  {srcBefore srcAfter front back : List Addr}

/-- The lists after a node was moved between two places. -/
def movedLists (lists : Nat → List Addr) (srcBucket destBucket : Nat) (src : Addr)
    (srcBefore srcAfter front back : List Addr) : Nat → List Addr :=
  Function.update (Function.update lists srcBucket (srcBefore ++ srcAfter)) destBucket
    (front ++ src :: back)

/-- A node stands where it was moved to, and every other one where it was. -/
theorem mem_movedLists (chains : Chains (linkOf state.memory) state.htable.buckets
      state.htable.bucketCount lists) (srcInside : srcBucket < state.htable.bucketCount)
    (different : srcBucket ≠ destBucket) (srcSplit : lists srcBucket = srcBefore ++ src :: srcAfter)
    (destSplit : lists destBucket = front ++ back) {index : Nat}
    (inside : index < state.htable.bucketCount) (addr : Addr) :
    addr ∈ movedLists lists srcBucket destBucket src srcBefore srcAfter front back index ↔
      if addr = src then index = destBucket else addr ∈ lists index := by
  have srcMember : src ∈ lists srcBucket := by
    rw [srcSplit]
    simp
  have distinct := chains.distinct srcBucket srcInside
  rw [srcSplit, List.nodup_middle, List.nodup_cons] at distinct
  unfold movedLists
  by_cases isSrc : addr = src
  · subst isSrc
    rw [if_pos rfl]
    by_cases atDest : index = destBucket
    · subst atDest
      simp
    · rw [Function.update_of_ne atDest]
      refine iff_of_false (fun member => ?_) atDest
      by_cases atSrc : index = srcBucket
      · subst atSrc
        rw [Function.update_self] at member
        exact distinct.1 member
      · rw [Function.update_of_ne atSrc] at member
        exact atSrc (chains.apart index inside srcBucket srcInside addr member srcMember)
  · rw [if_neg isSrc]
    by_cases atDest : index = destBucket
    · subst atDest
      simp [destSplit, isSrc]
    · rw [Function.update_of_ne atDest]
      by_cases atSrc : index = srcBucket
      · subst atSrc
        simp [srcSplit, isSrc]
      · rw [Function.update_of_ne atSrc]

theorem movedLists_src (different : srcBucket ≠ destBucket) :
    movedLists lists srcBucket destBucket src srcBefore srcAfter front back srcBucket =
      srcBefore ++ srcAfter := by
  rw [movedLists, Function.update_of_ne different, Function.update_self]

/-- A move to the right place keeps the buckets sorted. -/
theorem movedLists_sorted {bucketCount : Nat} (sorted : SortedBuckets key bucketCount lists)
    (srcInside : srcBucket < bucketCount) (destInside : destBucket < bucketCount)
    (srcSplit : lists srcBucket = srcBefore ++ src :: srcAfter)
    (destSplit : lists destBucket = front ++ back)
    (above : ∀ other ∈ front, rank (key other) < rank (key src))
    (below : ∀ other ∈ back.head?, rank (key src) < rank (key other)) :
    SortedBuckets key bucketCount
      (movedLists lists srcBucket destBucket src srcBefore srcAfter front back) := by
  intro index inside
  unfold movedLists
  by_cases atDest : index = destBucket
  · subst atDest
    have destSorted := sorted index destInside
    rw [destSplit] at destSorted
    rw [Function.update_self]
    exact @pairwise_middle _ _ _ (fun addr => rank (key addr)) _ _ _ destSorted above below
  · rw [Function.update_of_ne atDest]
    by_cases atSrc : index = srcBucket
    · subst atSrc
      have srcSorted := sorted index srcInside
      rw [srcSplit] at srcSorted
      rw [Function.update_self]
      refine srcSorted.sublist ?_
      exact List.Sublist.append_left (List.sublist_cons_self _ _) _
    · rw [Function.update_of_ne atSrc]
      exact sorted index inside

/-- The links and heads after a node was moved, as the two rules of the library compose them. -/
theorem chains_movedLists (buckets : Buckets valid key state lists)
    (srcInside : srcBucket < state.htable.bucketCount)
    (destInside : destBucket < state.htable.bucketCount) (different : srcBucket ≠ destBucket)
    (srcSplit : lists srcBucket = srcBefore ++ src :: srcAfter)
    (destSplit : lists destBucket = front ++ back) :
    Chains
      (setLink (Function.update (setLink (linkOf state.memory) srcBefore.getLast?
        (linkOf state.memory src)) src back.head?) front.getLast? (some src))
      (setHead (setHead state.htable.buckets srcBucket srcBefore.getLast? (linkOf state.memory src))
        destBucket front.getLast? (some src)) state.htable.bucketCount
      (movedLists lists srcBucket destBucket src srcBefore srcAfter front back) := by
  have srcMember : src ∈ lists srcBucket := by
    rw [srcSplit]
    simp
  have distinct := buckets.chains.distinct srcBucket srcInside
  rw [srcSplit, List.nodup_middle, List.nodup_cons] at distinct
  refine (buckets.chains.unlink srcInside srcSplit).insert destInside ?_ ?_
  · rw [Function.update_of_ne different.symm, destSplit]
  · intro another anotherInside member
    by_cases atSrc : another = srcBucket
    · subst atSrc
      rw [Function.update_self] at member
      exact distinct.1 member
    · rw [Function.update_of_ne atSrc] at member
      exact atSrc (buckets.chains.apart another anotherInside srcBucket srcInside src member
        srcMember)

/-- The nodes of the moved lists were in the table before. -/
theorem movedLists_noNew (chains : Chains (linkOf state.memory) state.htable.buckets
      state.htable.bucketCount lists) (srcInside : srcBucket < state.htable.bucketCount)
    (different : srcBucket ≠ destBucket) (srcSplit : lists srcBucket = srcBefore ++ src :: srcAfter)
    (destSplit : lists destBucket = front ++ back) (index : Nat)
    (inside : index < state.htable.bucketCount) (addr : Addr)
    (member : addr ∈ movedLists lists srcBucket destBucket src srcBefore srcAfter front back index) :
    ∃ another < state.htable.bucketCount, addr ∈ lists another := by
  rw [mem_movedLists chains srcInside different srcSplit destSplit inside] at member
  split at member
  · next isSrc =>
    exact ⟨srcBucket, srcInside, by rw [isSrc, srcSplit]; simp⟩
  · exact ⟨index, inside, member⟩

/-- The writes of the rehash into an empty bucket move a node there. -/
theorem moveEmpty (buckets : Buckets valid key state lists)
    (srcInside : srcBucket < state.htable.bucketCount)
    (destInside : destBucket < state.htable.bucketCount) (different : srcBucket ≠ destBucket)
    (srcSplit : lists srcBucket = srcBefore ++ src :: srcAfter) (empty : lists destBucket = []) :
    ∃ first second next,
      state.setLink destBucket none (some src) = some first ∧
      first.setLink srcBucket srcBefore.getLast? (linkOf state.memory src) = some second ∧
      second.setNext src none = some next ∧ Relinked state next ∧
      Buckets valid key next
        (movedLists lists srcBucket destBucket src srcBefore srcAfter [] []) := by
  obtain ⟨node, live, _⟩ := buckets.live srcBucket srcInside src (by rw [srcSplit]; simp)
  obtain ⟨first, firstCall, firstLink, firstHeads, firstRelinked⟩ :=
    @setLink_effect state destBucket none (fun _ impossible => by cases impossible) (some src)
  obtain ⟨second, secondCall, secondLink, secondHeads, secondRelinked⟩ :=
    @setLink_effect first srcBucket srcBefore.getLast? (fun addr last => by
        obtain ⟨node, found⟩ := buckets.lastLive srcInside srcSplit addr last
        obtain ⟨other, otherFound, _⟩ := firstRelinked.live found
        exact ⟨other, otherFound⟩) (linkOf state.memory src)
  obtain ⟨other, otherLive, _⟩ := (firstRelinked.trans secondRelinked).live live
  obtain ⟨next, nextCall, nextLink, nextTable, nextRelinked⟩ := setNext_effect otherLive none
  have relinked := (firstRelinked.trans secondRelinked).trans nextRelinked
  have chains := @chains_movedLists _ _ _ _ _ _ _ _ _ [] [] buckets srcInside destInside different
    srcSplit empty
  refine ⟨first, second, next, firstCall, secondCall, nextCall, relinked, buckets.relink relinked ?_
    (movedLists_noNew buckets.chains srcInside different srcSplit empty)⟩
  rw [nextLink, nextTable, secondLink, secondHeads, firstLink, firstHeads,
    setHead_comm _ different.symm]
  exact chains

/-- The writes of the rehash in front of a node move a node there. -/
theorem moveBefore {dest : Addr} (buckets : Buckets valid key state lists)
    (srcInside : srcBucket < state.htable.bucketCount)
    (destInside : destBucket < state.htable.bucketCount) (different : srcBucket ≠ destBucket)
    (srcSplit : lists srcBucket = srcBefore ++ src :: srcAfter)
    (destSplit : lists destBucket = front ++ dest :: back) :
    ∃ first second next,
      state.setLink srcBucket srcBefore.getLast? (linkOf state.memory src) = some first ∧
      first.setNext src (some dest) = some second ∧
      second.setLink destBucket front.getLast? (some src) = some next ∧ Relinked state next ∧
      Buckets valid key next
        (movedLists lists srcBucket destBucket src srcBefore srcAfter front (dest :: back)) := by
  obtain ⟨node, live, _⟩ := buckets.live srcBucket srcInside src (by rw [srcSplit]; simp)
  obtain ⟨first, firstCall, firstLink, firstHeads, firstRelinked⟩ :=
    @setLink_effect state srcBucket _ (buckets.lastLive srcInside srcSplit) (linkOf state.memory src)
  obtain ⟨other, otherLive, _⟩ := firstRelinked.live live
  obtain ⟨second, secondCall, secondLink, secondTable, secondRelinked⟩ :=
    setNext_effect otherLive (some dest)
  obtain ⟨next, nextCall, nextLink, nextHeads, nextRelinked⟩ :=
    @setLink_effect second destBucket front.getLast? (fun addr last => by
        obtain ⟨node, found⟩ := buckets.lastLive destInside destSplit addr last
        obtain ⟨other, otherFound, _⟩ := (firstRelinked.trans secondRelinked).live found
        exact ⟨other, otherFound⟩) (some src)
  have relinked := (firstRelinked.trans secondRelinked).trans nextRelinked
  have chains := chains_movedLists buckets srcInside destInside different srcSplit destSplit
  refine ⟨first, second, next, firstCall, secondCall, nextCall, relinked, buckets.relink relinked ?_
    (movedLists_noNew buckets.chains srcInside different srcSplit destSplit)⟩
  rw [nextLink, nextHeads, secondLink, secondTable, firstLink, firstHeads]
  exact chains

/-- The writes of the rehash behind the last node of a bucket move a node there. -/
theorem moveBehind {dest : Addr} (buckets : Buckets valid key state lists)
    (srcInside : srcBucket < state.htable.bucketCount)
    (destInside : destBucket < state.htable.bucketCount) (different : srcBucket ≠ destBucket)
    (srcSplit : lists srcBucket = srcBefore ++ src :: srcAfter)
    (destSplit : lists destBucket = front ++ [dest]) :
    ∃ first second next,
      state.setLink srcBucket srcBefore.getLast? (linkOf state.memory src) = some first ∧
      first.setNext dest (some src) = some second ∧
      second.setNext src none = some next ∧ Relinked state next ∧
      Buckets valid key next
        (movedLists lists srcBucket destBucket src srcBefore srcAfter (front ++ [dest]) []) := by
  have srcMember : src ∈ lists srcBucket := by
    rw [srcSplit]
    simp
  have destMember : dest ∈ lists destBucket := by
    rw [destSplit]
    simp
  have apart : dest ≠ src := by
    rintro rfl
    exact different (buckets.chains.apart srcBucket srcInside destBucket destInside dest srcMember
      destMember)
  obtain ⟨node, live, _⟩ := buckets.live srcBucket srcInside src srcMember
  obtain ⟨destNode, destLive, _⟩ := buckets.live destBucket destInside dest destMember
  obtain ⟨first, firstCall, firstLink, firstHeads, firstRelinked⟩ :=
    @setLink_effect state srcBucket _ (buckets.lastLive srcInside srcSplit) (linkOf state.memory src)
  obtain ⟨_, destStill, _⟩ := firstRelinked.live destLive
  obtain ⟨second, secondCall, secondLink, secondTable, secondRelinked⟩ :=
    setNext_effect destStill (some src)
  obtain ⟨_, srcStill, _⟩ := (firstRelinked.trans secondRelinked).live live
  obtain ⟨next, nextCall, nextLink, nextTable, nextRelinked⟩ := setNext_effect srcStill none
  have relinked := (firstRelinked.trans secondRelinked).trans nextRelinked
  have whole : lists destBucket = (front ++ [dest]) ++ [] := by rw [List.append_nil, destSplit]
  have chains := chains_movedLists buckets srcInside destInside different srcSplit whole
  rw [List.getLast?_concat] at chains
  refine ⟨first, second, next, firstCall, secondCall, nextCall, relinked, buckets.relink relinked ?_
    (movedLists_noNew buckets.chains srcInside different srcSplit whole)⟩
  rw [nextLink, nextTable, secondLink, secondTable, firstLink, firstHeads,
    Function.update_comm apart]
  exact chains

end Move

/-! ### The inner loop -/

section Relink

variable {cmpfn : CmpFunc} {valid : Bytes → Prop} {key : Addr → Bytes} {state : HtableState}
  {lists : Nat → List Addr} {srcBucket destBucket : Nat} {src : Addr} {srcBefore srcAfter : List Addr}

/-- The inner loop finds the place between the smaller and the greater keys and moves the node
there. -/
theorem htableRelinkNode_spec (order : KeyOrder cmpfn valid) {fuel : Nat} {front back : List Addr}
    (isCmpfn : state.htable.cmpfn = cmpfn) (buckets : Buckets valid key state lists)
    (srcInside : srcBucket < state.htable.bucketCount)
    (destInside : destBucket < state.htable.bucketCount) (different : srcBucket ≠ destBucket)
    (srcSplit : lists srcBucket = srcBefore ++ src :: srcAfter)
    (destSplit : lists destBucket = front ++ back) (nonempty : back ≠ [])
    (above : ∀ other ∈ front, rank (key other) < rank (key src))
    (distinct : ∀ other ∈ back, key other ≠ key src) (enough : back.length ≤ fuel) :
    ∃ next before after, front ++ back = before ++ after ∧
      (∀ other ∈ before, rank (key other) < rank (key src)) ∧
      (∀ other ∈ after.head?, rank (key src) < rank (key other)) ∧
      htableRelinkNode src srcBefore.getLast? srcBucket destBucket fuel state back.head?
        front.getLast? = some next ∧ Relinked state next ∧
      Buckets valid key next
        (movedLists lists srcBucket destBucket src srcBefore srcAfter before after) := by
  induction back generalizing front fuel with
  | nil => exact absurd rfl nonempty
  | cons dest back inductionHypothesis =>
    obtain ⟨fuel, rfl⟩ : ∃ smaller, fuel = smaller + 1 :=
      ⟨fuel - 1, by rw [List.length_cons] at enough; omega⟩
    obtain ⟨node, live, nodeKey, nodeValid⟩ :=
      buckets.live srcBucket srcInside src (by rw [srcSplit]; simp)
    obtain ⟨destNode, destLive, destKey, destValid⟩ :=
      buckets.live destBucket destInside dest (by rw [destSplit]; simp)
    have srcNext : node.next = linkOf state.memory src := by rw [linkOf, live, Option.bind_some]
    have destNext : destNode.next = back.head? := by
      have path := buckets.chains.path destBucket destInside
      rw [destSplit] at path
      rw [← path.link_eq, linkOf, destLive, Option.bind_some]
    have compared : state.compare node.key destNode < 0 ↔ rank (key src) < rank (key dest) := by
      rw [HtableState.compare, isCmpfn, nodeKey, destKey]
      exact order.neg_iff nodeValid destValid
    simp only [htableRelinkNode, List.head?_cons, load_some, live, destLive, Option.bind_eq_bind,
      Option.bind_some, srcNext, destNext]
    by_cases before : rank (key src) < rank (key dest)
    · obtain ⟨first, second, next, firstCall, secondCall, nextCall, relinked, moved⟩ :=
        moveBefore buckets srcInside destInside different srcSplit destSplit
      refine ⟨next, front, dest :: back, rfl, above, ?_, ?_, relinked, moved⟩
      · rintro other member
        obtain rfl := Option.some.inj member
        exact before
      · rw [if_pos (Or.inl (compared.mpr before)), firstCall, Option.bind_some,
          if_pos (compared.mpr before), secondCall, Option.bind_some, nextCall]
    · have behind : rank (key dest) < rank (key src) := by
        refine lt_of_le_of_ne (not_lt.mp before) fun same => ?_
        exact distinct dest List.mem_cons_self (rank_injective same)
      have aboveDest : ∀ other ∈ front ++ [dest], rank (key other) < rank (key src) := by
        intro other member
        rcases List.mem_append.mp member with inFront | isDest
        · exact above other inFront
        · rw [List.mem_singleton.mp isDest]
          exact behind
      cases back with
      | nil =>
        obtain ⟨first, second, next, firstCall, secondCall, nextCall, relinked, moved⟩ :=
          moveBehind buckets srcInside destInside different srcSplit destSplit
        refine ⟨next, front ++ [dest], [], (List.append_nil _).symm, aboveDest, ?_, ?_, relinked,
          moved⟩
        · intro other member
          cases member
        · rw [if_pos (Or.inr List.head?_nil), firstCall, Option.bind_some,
            if_neg (mt compared.mp before), secondCall, Option.bind_some, nextCall]
      | cons further back =>
        have goesOn : ¬ (state.compare node.key destNode < 0 ∨
            (further :: back).head? = none) := by
          rw [not_or]
          exact ⟨mt compared.mp before, by simp⟩
        obtain ⟨next, before, after, split, above, below, call, relinked, moved⟩ :=
          @inductionHypothesis fuel (front ++ [dest])
            (by rw [destSplit, List.append_assoc, List.singleton_append])
            (List.cons_ne_nil _ _) aboveDest
            (fun other member => distinct other (List.mem_cons_of_mem _ member))
            (by rw [List.length_cons] at enough; omega)
        rw [List.append_assoc, List.singleton_append] at split
        rw [List.getLast?_concat] at call
        exact ⟨next, before, after, split, above, below, by rw [if_neg goesOn]; exact call, relinked,
          moved⟩

end Relink

/-! ### The outer loops -/

section Rehash

variable {cmpfn : CmpFunc} {valid : Bytes → Prop} {key : Addr → Bytes} {state : HtableState}
  {lists : Nat → List Addr} {members : Finset Addr} {power : Nat}

theorem bucketOf_lt (power : Nat) (key : Bytes) : bucketOf (2 ^ power) key < 2 ^ power := by
  rw [bucketOf_two_pow]
  exact Nat.mod_lt _ (Nat.two_pow_pos power)

/-- What the rehash relies on: the buckets are sorted lists of the members, whose keys differ. -/
structure Rehashable (cmpfn : CmpFunc) (valid : Bytes → Prop) (key : Addr → Bytes)
    (members : Finset Addr) (power : Nat) (state : HtableState) (lists : Nat → List Addr) :
    Prop where
  isCmpfn : state.htable.cmpfn = cmpfn
  bucketCount : state.htable.bucketCount = 2 ^ power
  buckets : Buckets valid key state lists
  sorted : SortedBuckets key (2 ^ power) lists
  covered : ∀ index < 2 ^ power, ∀ addr ∈ lists index, addr ∈ members
  distinctKeys : ∀ first ∈ members, ∀ second ∈ members, key first = key second → first = second
  elementCount : state.htable.elementCount = members.card

/-- The loops over a bucket never run out of turns. -/
theorem Rehashable.length_lt_fuel
    (rehashable : Rehashable cmpfn valid key members power state lists) {index : Nat}
    (inside : index < 2 ^ power) : (lists index).length < state.fuel := by
  have covered := rehashable.covered
  rw [← rehashable.bucketCount] at inside covered
  rw [HtableState.fuel, rehashable.elementCount]
  exact Nat.lt_succ_of_le (rehashable.buckets.length_le covered inside)

/-- One node that is not in the bucket of its hash goes there. -/
theorem Rehashable.moveOne (order : KeyOrder cmpfn valid)
    (rehashable : Rehashable cmpfn valid key members power state lists) {srcBucket : Nat} {src : Addr}
    {kept rest : List Addr} (inside : srcBucket < 2 ^ power)
    (split : lists srcBucket = kept ++ src :: rest)
    (elsewhere : srcBucket ≠ bucketOf (2 ^ power) (key src)) :
    ∃ next others,
      (∀ fuel, htableRehashBucket srcBucket (fuel + 1) state (some src) kept.getLast? =
        htableRehashBucket srcBucket fuel next rest.head? kept.getLast?) ∧
      Relinked state next ∧ Rehashable cmpfn valid key members power next others ∧
      others srcBucket = kept ++ rest ∧ ∀ index < 2 ^ power, ∀ addr,
        (addr ∈ others index ↔
          if addr = src then index = bucketOf (2 ^ power) (key src) else addr ∈ lists index) := by
  have destInside := bucketOf_lt power (key src)
  have enough := (rehashable.length_lt_fuel destInside).le
  obtain ⟨isCmpfn, bucketCount, buckets, sorted, covered, distinctKeys, elementCount⟩ := rehashable
  generalize destIs : bucketOf (2 ^ power) (key src) = destBucket at *
  have srcMember : src ∈ members := covered srcBucket inside src (by rw [split]; simp)
  rw [← bucketCount] at inside destInside sorted covered
  obtain ⟨node, live, nodeKey, nodeValid⟩ :=
    buckets.live srcBucket inside src (by rw [split]; simp)
  have srcNext : node.next = linkOf state.memory src := by rw [linkOf, live, Option.bind_some]
  have restHead : linkOf state.memory src = rest.head? := by
    have path := buckets.chains.path srcBucket inside
    rw [split] at path
    exact path.link_eq
  have hashed : state.bucketIndex node.key = some destBucket := by
    rw [nodeKey, bucketIndex_eq (order.nonempty nodeValid), bucketCount, destIs]
  -- the moved lists satisfy what the loop relies on
  have finish {next : HtableState} {front back : List Addr} (relinked : Relinked state next)
      (destSplit : lists destBucket = front ++ back)
      (above : ∀ other ∈ front, rank (key other) < rank (key src))
      (below : ∀ other ∈ back.head?, rank (key src) < rank (key other))
      (moved : Buckets valid key next (movedLists lists srcBucket destBucket
        src kept rest front back)) :
      Rehashable cmpfn valid key members power next (movedLists lists srcBucket
        destBucket src kept rest front back) ∧
      movedLists lists srcBucket destBucket src kept rest front back srcBucket =
        kept ++ rest ∧ ∀ index < 2 ^ power, ∀ addr,
        (addr ∈ movedLists lists srcBucket destBucket src kept rest front back
          index ↔
          if addr = src then index = destBucket else addr ∈ lists index) := by
    have members (index : Nat) (indexInside : index < 2 ^ power) (addr : Addr) :=
      mem_movedLists buckets.chains inside elsewhere split destSplit
        (bucketCount ▸ indexInside) addr
    refine ⟨⟨relinked.cmpfn.trans isCmpfn, relinked.bucketCount.trans bucketCount, moved, ?_, ?_,
      distinctKeys, relinked.elementCount.trans elementCount⟩, movedLists_src elsewhere, members⟩
    · rw [← bucketCount]
      exact movedLists_sorted sorted inside destInside split destSplit above below
    · intro index indexInside addr member
      rw [members index indexInside] at member
      split at member
      · next isSrc => exact isSrc ▸ srcMember
      · exact covered index (bucketCount ▸ indexInside) addr member
  cases bucket : lists destBucket with
  | nil =>
    have head : state.htable.buckets destBucket = none := by
      rw [buckets.head_eq destInside, bucket, List.head?_nil]
    obtain ⟨first, second, next, firstCall, secondCall, nextCall, relinked, moved⟩ :=
      moveEmpty buckets inside destInside elsewhere split bucket
    refine ⟨next, _, fun fuel => ?_, relinked, finish relinked bucket
      (fun _ member => absurd member List.not_mem_nil) (fun _ member => by cases member) moved⟩
    rw [← srcNext] at secondCall
    simp only [htableRehashBucket, load_some, live, hashed, Option.bind_eq_bind, Option.bind_some,
      if_neg elsewhere, head, firstCall, secondCall, nextCall]
    rw [srcNext, restHead]
  | cons dest destRest =>
    have head : state.htable.buckets destBucket = some dest := by
      rw [buckets.head_eq destInside, bucket, List.head?_cons]
    rw [bucket] at enough
    have distinct : ∀ other ∈ dest :: destRest, key other ≠ key src := by
      intro other member same
      rw [← bucket] at member
      have isSrc := distinctKeys other (covered _ destInside other member) src srcMember same
      rw [isSrc] at member
      exact elsewhere (buckets.chains.apart srcBucket inside _ destInside src
        (by rw [split]; simp) member)
    obtain ⟨next, before, after, place, above, below, call, relinked, moved⟩ :=
      @htableRelinkNode_spec _ _ _ _ _ _ _ _ _ _ order _ [] _ isCmpfn buckets inside destInside
        elsewhere split bucket (List.cons_ne_nil _ _)
        (fun _ member => absurd member List.not_mem_nil) distinct enough
    refine ⟨next, _, fun fuel => ?_, relinked,
      finish relinked (bucket.trans place) above below moved⟩
    rw [List.head?_cons, List.getLast?_nil] at call
    simp only [htableRehashBucket, load_some, live, hashed, Option.bind_eq_bind, Option.bind_some,
      if_neg elsewhere, head, call]
    rw [srcNext, restHead]

/-- The loop over one bucket takes every node from its place on to the bucket of its hash. -/
theorem htableRehashBucket_spec (order : KeyOrder cmpfn valid) {srcBucket fuel : Nat}
    {kept rest : List Addr} (rehashable : Rehashable cmpfn valid key members power state lists)
    (inside : srcBucket < 2 ^ power) (split : lists srcBucket = kept ++ rest)
    (enough : rest.length < fuel) :
    ∃ next others, htableRehashBucket srcBucket fuel state rest.head? kept.getLast? = some next ∧
      Relinked state next ∧ Rehashable cmpfn valid key members power next others ∧
      ∀ index < 2 ^ power, ∀ addr, (addr ∈ others index ↔
        if addr ∈ rest then index = bucketOf (2 ^ power) (key addr) else addr ∈ lists index) := by
  induction rest generalizing kept fuel state lists with
  | nil =>
    obtain ⟨fuel, rfl⟩ : ∃ smaller, fuel = smaller + 1 := ⟨fuel - 1, by simp at enough; omega⟩
    exact ⟨state, lists, rfl, Relinked.refl state, rehashable, fun _ _ _ => by simp⟩
  | cons src rest inductionHypothesis =>
    obtain ⟨fuel, rfl⟩ : ∃ smaller, fuel = smaller + 1 := ⟨fuel - 1, by simp at enough; omega⟩
    have shorter : rest.length < fuel := by
      rw [List.length_cons] at enough
      omega
    have distinct := rehashable.buckets.chains.distinct srcBucket (rehashable.bucketCount ▸ inside)
    rw [split, List.nodup_middle, List.nodup_cons] at distinct
    have notLater : src ∉ rest := fun member => distinct.1 (List.mem_append_right _ member)
    by_cases elsewhere : srcBucket ≠ bucketOf (2 ^ power) (key src)
    · obtain ⟨middle, moved, turn, relinked, movedRehashable, movedSplit, movedMem⟩ :=
        rehashable.moveOne order inside split elsewhere
      obtain ⟨next, others, call, nextRelinked, nextRehashable, nextMem⟩ :=
        inductionHypothesis movedRehashable movedSplit shorter
      refine ⟨next, others, (turn fuel).trans call, relinked.trans nextRelinked, nextRehashable,
        fun index indexInside addr => ?_⟩
      rw [nextMem index indexInside, movedMem index indexInside]
      by_cases isSrc : addr = src
      · subst isSrc
        rw [if_neg notLater, if_pos rfl, if_pos List.mem_cons_self]
      · simp only [List.mem_cons, isSrc, false_or, if_false]
    · rw [not_not] at elsewhere
      have bucketCount := rehashable.bucketCount
      obtain ⟨node, live, nodeKey, nodeValid⟩ := rehashable.buckets.live srcBucket
        (bucketCount ▸ inside) src (by rw [split]; simp)
      have nodeNext : node.next = rest.head? := by
        have path := rehashable.buckets.chains.path srcBucket (bucketCount ▸ inside)
        rw [split] at path
        rw [← path.link_eq, linkOf, live, Option.bind_some]
      have hashed : state.bucketIndex node.key = some srcBucket := by
        rw [nodeKey, bucketIndex_eq (order.nonempty nodeValid), bucketCount, elsewhere]
      obtain ⟨next, others, call, nextRelinked, nextRehashable, nextMem⟩ :=
        @inductionHypothesis _ _ _ (kept ++ [src]) rehashable
          (by rw [split, List.append_assoc, List.singleton_append]) shorter
      rw [List.getLast?_concat] at call
      refine ⟨next, others, ?_, nextRelinked, nextRehashable, fun index indexInside addr => ?_⟩
      · simp only [List.head?_cons, htableRehashBucket, load_some, live, hashed,
          Option.bind_eq_bind, Option.bind_some, if_true, nodeNext, call]
      · rw [nextMem index indexInside]
        by_cases isSrc : addr = src
        · subst isSrc
          have here : addr ∈ lists srcBucket := by
            rw [split]
            simp
          rw [if_neg notLater, if_pos List.mem_cons_self, ← elsewhere]
          refine ⟨fun member => ?_, fun same => same ▸ here⟩
          exact rehashable.buckets.chains.apart index (bucketCount ▸ indexInside) srcBucket
            (bucketCount ▸ inside) addr member here
        · simp only [List.mem_cons, isSrc, false_or]

/-- Where a node is once the first buckets of a table that grew were rehashed. -/
def locationAt (oldPower power done : Nat) (key : Bytes) : Nat :=
  if bucketOf (2 ^ oldPower) key < done then bucketOf (2 ^ power) key else bucketOf (2 ^ oldPower) key

/-- A bucket that existed before is the old bucket of every node that stays in it. -/
theorem bucketOf_old {oldPower : Nat} (grown : oldPower ≤ power) {key : Bytes}
    (old : bucketOf (2 ^ power) key < 2 ^ oldPower) :
    bucketOf (2 ^ oldPower) key = bucketOf (2 ^ power) key := by
  rw [bucketOf_two_pow] at old ⊢
  rw [bucketOf_two_pow, ← Nat.mod_eq_of_lt old, Nat.mod_mod_of_dvd _ (Nat.pow_dvd_pow 2 grown)]

/-- The rehash takes every node to the bucket of its hash in the new table. -/
theorem htableRehash_spec (order : KeyOrder cmpfn valid) {oldPower : Nat} (grown : oldPower ≤ power)
    (rehashable : Rehashable cmpfn valid key members power state lists)
    (placed : ∀ index < 2 ^ power, ∀ addr,
      addr ∈ lists index ↔ addr ∈ members ∧ index = bucketOf (2 ^ oldPower) (key addr)) :
    ∃ next others, htableRehash state (2 ^ oldPower) = some next ∧ Relinked state next ∧
      Rehashable cmpfn valid key members power next others ∧
      ∀ index < 2 ^ power, ∀ addr,
        addr ∈ others index ↔ addr ∈ members ∧ index = bucketOf (2 ^ power) (key addr) := by
  have step (done : Nat) (noMore : done ≤ 2 ^ oldPower) :
      ∃ next others, (List.range done).foldlM (fun state srcBucket =>
          htableRehashBucket srcBucket state.fuel state (state.htable.buckets srcBucket) none) state =
          some next ∧ Relinked state next ∧ Rehashable cmpfn valid key members power next others ∧
        ∀ index < 2 ^ power, ∀ addr,
          addr ∈ others index ↔ addr ∈ members ∧ index = locationAt oldPower power done (key addr) := by
    induction done with
    | zero =>
      refine ⟨state, lists, rfl, Relinked.refl state, rehashable, fun index inside addr => ?_⟩
      rw [placed index inside, locationAt, if_neg (Nat.not_lt_zero _)]
    | succ done inductionHypothesis =>
      obtain ⟨middle, moved, call, relinked, middleRehashable, located⟩ :=
        inductionHypothesis (Nat.le_of_succ_le noMore)
      have inside : done < 2 ^ power :=
        noMore.trans (Nat.pow_le_pow_right (Nat.zero_lt_two) grown)
      have here (addr : Addr) :
          addr ∈ moved done ↔ addr ∈ members ∧ bucketOf (2 ^ oldPower) (key addr) = done := by
        rw [located done inside, locationAt]
        refine and_congr_right fun _ => ?_
        split_ifs with earlier
        · refine iff_of_false (fun same => ?_) earlier.ne
          have old := @bucketOf_old _ _ grown (key addr) (same ▸ noMore)
          omega
        · exact eq_comm
      have head := middleRehashable.buckets.head_eq (middleRehashable.bucketCount ▸ inside)
      have enough := middleRehashable.length_lt_fuel inside
      obtain ⟨next, others, loop, nextRelinked, nextRehashable, nextMem⟩ :=
        @htableRehashBucket_spec _ _ _ _ _ _ _ order _ _ [] _ middleRehashable inside rfl enough
      refine ⟨next, others, ?_, relinked.trans nextRelinked, nextRehashable,
        fun index indexInside addr => ?_⟩
      · rw [List.range_succ, List.foldlM_append, call, Option.bind_eq_bind, Option.bind_some,
          List.foldlM_cons, head]
        rw [List.getLast?_nil] at loop
        rw [loop]
        rfl
      · rw [nextMem index indexInside]
        by_cases member : addr ∈ moved done
        · obtain ⟨isMember, isDone⟩ := (here addr).mp member
          rw [if_pos member, locationAt, if_pos (by omega)]
          exact (and_iff_right isMember).symm
        · rw [if_neg member, located index indexInside]
          refine and_congr_right fun isMember => ?_
          have notDone : bucketOf (2 ^ oldPower) (key addr) ≠ done := fun isDone =>
            member ((here addr).mpr ⟨isMember, isDone⟩)
          rw [locationAt, locationAt]
          split_ifs <;> first | rfl | omega
  obtain ⟨next, others, call, relinked, nextRehashable, located⟩ := step (2 ^ oldPower) le_rfl
  refine ⟨next, others, call, relinked, nextRehashable, fun index inside addr => ?_⟩
  rw [located index inside, locationAt, if_pos (bucketOf_lt oldPower _)]

end Rehash

end Lwmsg
