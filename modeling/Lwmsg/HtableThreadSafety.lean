/-
This file proves that the threads inside the hash table keep it intact, whatever order their
statements come in.

The invariant says what each thread relies on where it is, and each lock mirrors what the threads
do under it. A statement under the lock of a bucket only changes that bucket and the node of its
own thread, and nobody else is at that bucket then, so what the other threads rely on stays as it
is. A resize changes everything, but then no other thread is in the table.
-/

import Lwmsg.HtablePhases
import Lwmsg.HtableStatements
import Mathlib.Algebra.BigOperators.Group.Finset.Basic
import Mathlib.Data.Fintype.Basic

namespace Lwmsg

open Bytes Pointers SinglyLinked

/-! ### Where a thread is -/

/-- The key a call is about. -/
def HtableCall.wanted (key : Addr → Bytes) : HtableCall → Option Bytes
  | .add element => some (key element)
  | .remove wanted | .get wanted _ => some wanted
  | .copyAllKeys => none

/-- What a listing of the keys has of the buckets below some index: each key once, no key that was in
none of the maps, and every key that was in all of them. -/
structure ListedBelow (power : Nat) (maps : Set KeyMap) (frontier : Nat) (listed : List Bytes) :
    Prop where
  once : listed.Nodup
  seen : ∀ key ∈ listed, ∃ map ∈ maps, key ∈ map
  below : ∀ key ∈ listed, bucketOf (2 ^ power) key < frontier
  complete : ∀ key, (∀ map ∈ maps, key ∈ map) → bucketOf (2 ^ power) key < frontier → key ∈ listed

/-- A listing that is done. -/
structure ListedAll (maps : Set KeyMap) (listed : List Bytes) : Prop where
  once : listed.Nodup
  seen : ∀ key ∈ listed, ∃ map ∈ maps, key ∈ map
  complete : ∀ key, (∀ map ∈ maps, key ∈ map) → key ∈ listed

namespace HtablePc

/-- The node that only its thread can reach. -/
def mine : HtablePc → Option Addr
  | .loadCount element | .loadThres element _ | .tryWrlock element | .resize element
  | .unlockResized element => some element
  | .rdlock call | .hash call | .lockBucket call _ _ => call.element
  | .inBucket call _ _ pc => pc.mine call
  | .unlockTable call answer | .answering call answer =>
    if answer = .added false then call.element else none
  | _ => none

/-- By how much the counter is ahead of the table for a thread. -/
def uncounted : HtablePc → Nat
  | .inBucket _ _ _ pc => pc.uncounted
  | _ => 0

/-- How a thread holds `g_resize_lock`. -/
def tableMode : HtablePc → Option RwLock.Mode
  | .resize _ | .unlockResized _ => some .write
  | .hash _ | .lockBucket .. | .inBucket .. | .copyStart | .copyLock .. | .copyBucket ..
  | .copyNode .. | .copyUnlock .. | .unlockTable .. => some .read
  | _ => none

/-- How a thread holds one of the striped locks. -/
def lockMode (lockIndex : Nat) : HtablePc → Option RwLock.Mode
  | .inBucket call _ index _ => if index = lockIndex then some call.mode else none
  | .copyBucket i _ _ | .copyNode i _ _ _ | .copyUnlock i _ =>
    if i = lockIndex then some .read else none
  | _ => none

/-- What a thread relies on where it is. Of the maps that the table stood for since its call began,
only a listing takes notice. -/
def Holds (kind : KeyKind) (key : Addr → Bytes) (power : Nat) (state : HtableState)
    (content : TableContent) (maps : Set KeyMap) : HtablePc → Prop
  | .rdlock call => ∀ wanted ∈ call.wanted key, kind.Valid wanted
  | .hash call => ∃ wanted, call.wanted key = some wanted ∧ kind.Valid wanted
  | .lockBucket call bucketIndex lockIndex => ∃ wanted, call.wanted key = some wanted ∧
      kind.Valid wanted ∧ bucketIndex = bucketOf (2 ^ power) wanted ∧
      lockIndex = bucketIndex >>> state.htable.bucketsPerLockPow2
  | .inBucket call bucketIndex lockIndex pc => ∃ wanted, kind.Valid wanted ∧
      bucketIndex = bucketOf (2 ^ power) wanted ∧
      lockIndex = bucketIndex >>> state.htable.bucketsPerLockPow2 ∧
      pc.Holds key (linkOf state.memory) (content.lists bucketIndex) wanted call
  | .copyLock i listed =>
    ListedBelow power maps (i <<< state.htable.bucketsPerLockPow2) listed
  | .copyBucket i j listed => i < state.htable.lockCount ∧
      i <<< state.htable.bucketsPerLockPow2 ≤ j ∧
      j ≤ (i + 1) <<< state.htable.bucketsPerLockPow2 ∧ ListedBelow power maps j listed
  | .copyNode i j iteratorNode listed => i < state.htable.lockCount ∧
      i <<< state.htable.bucketsPerLockPow2 ≤ j ∧
      j < (i + 1) <<< state.htable.bucketsPerLockPow2 ∧
      ∃ before front back, content.lists j = front ++ iteratorNode :: back ∧
        listed = before ++ front.map key ∧ ListedBelow power maps j before
  | .copyUnlock i listed => i < state.htable.lockCount ∧
      ListedBelow power maps ((i + 1) <<< state.htable.bucketsPerLockPow2) listed
  | .unlockTable _ (.keys listed) | .answering _ (.keys listed) => ListedAll maps listed
  | _ => True

end HtablePc

/-! ### The invariant -/

variable {Thread : Type}

/-- A node that is not in the table: nobody uses it, or one thread does. -/
def ThreadsWorld.Loose (world : ThreadsWorld Thread) (addr : Addr) : Prop :=
  addr ∈ world.owned ∨ ∃ thread, (world.pc thread).mine = some addr

/-- What holds between any two statements. For each thread it keeps the maps that the table stood for
since its call began. -/
structure ThreadsInvariant [Fintype Thread] (kind : KeyKind) (world : ThreadsWorld Thread)
    (key : Addr → Bytes) (power : Nat) (content : TableContent) (maps : Thread → Set KeyMap) :
    Prop where
  of : content.Of kind key power world.state
  counted : world.state.htable.elementCount =
    content.members.card + ∑ thread, (world.pc thread).uncounted
  tableLock : world.gResizeLock.Mirrors (HtablePc.tableMode ∘ world.pc)
  bucketLocks : ∀ lockIndex,
    (world.locks lockIndex).Mirrors (HtablePc.lockMode lockIndex ∘ world.pc)
  loose : ∀ addr, world.Loose addr →
    addr ∉ content.members ∧ LiveKey kind key world.state.memory addr
  apart : ∀ first second addr, (world.pc first).mine = some addr →
    (world.pc second).mine = some addr → first = second
  given : ∀ thread addr, (world.pc thread).mine = some addr → addr ∉ world.owned
  current : ∀ thread, content.map ∈ maps thread
  holds : ∀ thread, (world.pc thread).Holds kind key power world.state content (maps thread)

/-- The map that a table stands for now is one that it stood for. -/
def TableContent.record (content : TableContent) (maps : Thread → Set KeyMap) :
    Thread → Set KeyMap :=
  fun thread => insert content.map (maps thread)

theorem ThreadsInvariant.record_eq [Fintype Thread] {kind : KeyKind} {world : ThreadsWorld Thread}
    {key : Addr → Bytes} {power : Nat} {content : TableContent} {maps : Thread → Set KeyMap}
    (invariant : ThreadsInvariant kind world key power content maps) : content.record maps = maps :=
  funext fun thread => Set.insert_eq_of_mem (invariant.current thread)

/-! ### What the other threads rely on -/

section Keep

variable {kind : KeyKind} {key other : Addr → Bytes} {power index i j : Nat} {state next : HtableState}
  {content result : TableContent} {link otherLink : Addr → Option Addr} {list : List Addr}
  {wanted : Bytes} {call : HtableCall} {told others : Addr → Prop} {prev current : Option Addr}
  {maps newMaps : Set KeyMap} {listed : List Bytes}

theorem Passed.imp (passed : Passed list prev current told)
    (same : ∀ addr ∈ list, told addr → others addr) : Passed list prev current others := by
  obtain ⟨front, back, split, last, head, allTold⟩ := passed
  refine ⟨front, back, split, last, head, fun addr inFront => same addr ?_ (allTold addr inFront)⟩
  rw [split]
  exact List.mem_append_left _ inFront

theorem Passed.current_mem {addr : Addr} (passed : Passed list prev current told)
    (isCurrent : addr ∈ current) : addr ∈ list := by
  obtain ⟨front, back, split, -, rfl, -⟩ := passed
  rw [split]
  exact List.mem_append_right _ (List.mem_of_mem_head? isCurrent)

theorem PlaceOf.congrKey (place : PlaceOf key wanted list prev current)
    (same : ∀ addr ∈ list, other addr = key addr) : PlaceOf other wanted list prev current := by
  refine ⟨place.1.imp fun addr listed before => ?_, fun addr isCurrent => ?_⟩
  · rw [same addr listed]
    exact before
  · rw [same addr (place.1.current_mem isCurrent)]
    exact place.2 addr isCurrent

/-- Under the lock of a bucket, the keys in its list and the thread's own node matter. -/
theorem BucketPc.Holds.congr {pc : BucketPc} (holds : pc.Holds key link list wanted call)
    (keys : ∀ addr, addr ∈ list ∨ pc.mine call = some addr → other addr = key addr)
    (links : ∀ addr, pc.mine call = some addr → otherLink addr = link addr) :
    pc.Holds other otherLink list wanted call := by
  have listed : ∀ addr ∈ list, other addr = key addr := fun addr isListed =>
    keys addr (.inl isListed)
  have passedBy {prev current : Option Addr}
      (passed : Passed list prev current fun addr => key addr ≠ wanted) :
      Passed list prev current fun addr => other addr ≠ wanted := by
    refine passed.imp fun addr isListed different => ?_
    rwa [listed addr isListed]
  cases call with
  | add element =>
    cases pc with
    | clear => exact (keys element (.inr rfl)).trans holds
    | readBucket =>
      exact ⟨(keys element (.inr rfl)).trans holds.1, (links element rfl).trans holds.2⟩
    | compare prev comparator =>
      refine ⟨(keys element (.inr rfl)).trans holds.1, (links element rfl).trans holds.2.1,
        holds.2.2.imp fun addr isListed before => ?_⟩
      rwa [listed addr isListed]
    | count prev comparator =>
      exact ⟨(keys element (.inr rfl)).trans holds.1, (links element rfl).trans holds.2.1,
        holds.2.2.congrKey listed⟩
    | point prev comparator =>
      exact ⟨(keys element (.inr rfl)).trans holds.1, holds.2.congrKey listed⟩
    | link prev comparator =>
      exact ⟨(keys element (.inr rfl)).trans holds.1, (links element rfl).trans holds.2.1,
        holds.2.2.congrKey listed⟩
    | clearAgain => exact holds
    | unlock answer => cases answer <;> exact holds
    | _ => exact holds.elim
  | remove sought =>
    cases pc with
    | readBucket => exact holds
    | seek prev current => exact ⟨holds.1, passedBy holds.2⟩
    | unlink prev target =>
      exact ⟨holds.1, (listed target (holds.2.2.current_mem rfl)).trans holds.2.1,
        passedBy holds.2.2⟩
    | cut target => trivial
    | put target => trivial
    | uncount => trivial
    | unlock answer => cases answer <;> exact holds
    | _ => exact holds.elim
  | get sought refInc =>
    cases pc with
    | readBucket => exact holds
    | seek prev current => exact ⟨holds.1, passedBy holds.2⟩
    | reference target => exact ⟨holds.1, holds.2.1, (listed target holds.2.1).trans holds.2.2⟩
    | unlock answer => cases answer <;> exact holds
    | _ => exact holds.elim
  | copyAllKeys =>
    cases pc with
    | unlock answer => cases answer <;> exact holds
    | _ => exact holds.elim

/-- A bucket between the first one of a lock and the first one of the next has that lock. -/
theorem shiftRight_of_between {bits : Nat} (least : i <<< bits ≤ j) (below : j < (i + 1) <<< bits) :
    j >>> bits = i := by
  rw [Nat.shiftLeft_eq] at least below
  rw [Nat.shiftRight_eq_div_pow]
  exact Nat.div_eq_of_lt_le least below

/-- The buckets of a lock are in the table. -/
theorem TableContent.Of.lock_inside (of : content.Of kind key power state)
    (inside : i < state.htable.lockCount) :
    (i + 1) <<< state.htable.bucketsPerLockPow2 ≤ 2 ^ power := by
  have size := of.table.size
  have lockCount : state.htable.lockCount = 2 ^ (power - state.htable.bucketsPerLockPow2) :=
    size.lockCount
  rw [Nat.shiftLeft_eq, ← Nat.sub_add_cancel size.lockFits, Nat.pow_add]
  exact Nat.mul_le_mul_right _ (lockCount ▸ inside)

theorem ListedBelow.mono (below : ListedBelow power maps j listed) (more : maps ⊆ newMaps) :
    ListedBelow power newMaps j listed where
  once := below.once
  seen key isListed := (below.seen key isListed).imp fun _ both => ⟨more both.1, both.2⟩
  below := below.below
  complete key always := below.complete key fun map isMap => always map (more isMap)

theorem ListedAll.mono (all : ListedAll maps listed) (more : maps ⊆ newMaps) :
    ListedAll newMaps listed where
  once := all.once
  seen key isListed := (all.seen key isListed).imp fun _ both => ⟨more both.1, both.2⟩
  complete key always := all.complete key fun map isMap => always map (more isMap)

/-- Threads do not notice what happens to buckets whose lock they do not have, nor to the nodes of
others. -/
theorem HtablePc.Holds.keep {pc : HtablePc} (holds : pc.Holds kind key power state content maps)
    (of : content.Of kind key power state) (more : maps ⊆ newMaps)
    (locks : next.htable.lockCount = state.htable.lockCount)
    (perLock : next.htable.bucketsPerLockPow2 = state.htable.bucketsPerLockPow2)
    (lists : ∀ index, pc.lockMode (index >>> state.htable.bucketsPerLockPow2) ≠ none →
      result.lists index = content.lists index)
    (keys : ∀ addr, (∃ index < 2 ^ power, addr ∈ content.lists index) ∨ pc.mine = some addr →
      other addr = key addr)
    (links : ∀ addr, pc.mine = some addr → linkOf next.memory addr = linkOf state.memory addr) :
    pc.Holds kind other power next result newMaps := by
  have sameWanted (call : HtableCall) (isMine : pc.mine = call.element) :
      call.wanted other = call.wanted key := by
    cases call with
    | add element => exact congrArg some (keys element (.inr isMine))
    | _ => rfl
  cases pc with
  | rdlock call =>
    intro wanted isWanted
    rw [sameWanted call rfl] at isWanted
    exact holds wanted isWanted
  | hash call =>
    obtain ⟨wanted, isWanted, isValid⟩ := holds
    exact ⟨wanted, (sameWanted call rfl).trans isWanted, isValid⟩
  | lockBucket call bucketIndex lockIndex =>
    obtain ⟨wanted, isWanted, isValid, isBucket, isLock⟩ := holds
    exact ⟨wanted, (sameWanted call rfl).trans isWanted, isValid, isBucket, perLock ▸ isLock⟩
  | inBucket call bucketIndex lockIndex pc =>
    obtain ⟨wanted, isValid, isBucket, isLock, holds⟩ := holds
    have locked : HtablePc.lockMode (bucketIndex >>> state.htable.bucketsPerLockPow2)
        (.inBucket call bucketIndex lockIndex pc) ≠ none := by
      rw [HtablePc.lockMode, if_pos isLock]
      exact Option.some_ne_none _
    refine ⟨wanted, isValid, isBucket, perLock ▸ isLock, ?_⟩
    rw [lists bucketIndex locked]
    exact holds.congr (fun addr either => keys addr (either.imp_left fun listed =>
      ⟨bucketIndex, isBucket ▸ bucketOf_lt power wanted, listed⟩)) links
  | copyLock i listed =>
    rw [HtablePc.Holds, perLock]
    exact ListedBelow.mono holds more
  | copyBucket i j listed =>
    rw [HtablePc.Holds, locks, perLock]
    exact ⟨holds.1, holds.2.1, holds.2.2.1, holds.2.2.2.mono more⟩
  | copyNode i j iteratorNode listed =>
    obtain ⟨inside, least, below, before, front, back, split, isListed, soFar⟩ := holds
    have same := lists j (by
      rw [HtablePc.lockMode, if_pos (shiftRight_of_between least below).symm]
      exact Option.some_ne_none _)
    rw [HtablePc.Holds, locks, perLock, same]
    refine ⟨inside, least, below, before, front, back, split, ?_, soFar.mono more⟩
    rw [isListed]
    refine congrArg (before ++ ·) (List.map_congr_left fun addr inFront => (keys addr (.inl
      ⟨j, below.trans_le (of.lock_inside inside), ?_⟩)).symm)
    rw [split]
    exact List.mem_append_left _ inFront
  | copyUnlock i listed =>
    rw [HtablePc.Holds, locks, perLock]
    exact ⟨holds.1, holds.2.mono more⟩
  | unlockTable call answer =>
    cases answer with
    | keys listed => exact ListedAll.mono holds more
    | _ => trivial
  | answering call answer =>
    cases answer with
    | keys listed => exact ListedAll.mono holds more
    | _ => trivial
  | _ => trivial

end Keep

/-! ### Listings -/

section Listings

variable {kind : KeyKind} {key : Addr → Bytes} {power i j : Nat} {state : HtableState}
  {content : TableContent} {maps : Set KeyMap} {before listed : List Bytes}

theorem listedBelow_zero : ListedBelow power maps 0 [] where
  once := .nil
  seen _ isListed := absurd isListed List.not_mem_nil
  below _ isListed := absurd isListed List.not_mem_nil
  complete _ _ below := absurd below (Nat.not_lt_zero _)

/-- A listing goes on with all keys of the next bucket. -/
theorem ListedBelow.bucket (soFar : ListedBelow power maps j before)
    (of : content.Of kind key power state) (current : content.map ∈ maps) (inside : j < 2 ^ power) :
    ListedBelow power maps (j + 1) (before ++ (content.lists j).map key) := by
  have placed := of.table.placed j inside
  have here {wanted : Bytes} (isListed : wanted ∈ (content.lists j).map key) :
      ∃ addr ∈ content.members, key addr = wanted ∧ bucketOf (2 ^ power) wanted = j := by
    obtain ⟨addr, listed, rfl⟩ := List.mem_map.mp isListed
    obtain ⟨isMember, isBucket⟩ := (placed addr).mp listed
    exact ⟨addr, isMember, rfl, isBucket.symm⟩
  refine ⟨?_, fun wanted isListed => ?_, fun wanted isListed => ?_, fun wanted always below => ?_⟩
  · refine List.nodup_append.mpr ⟨soFar.once, ?_, fun one isBefore other isListed same => ?_⟩
    · refine List.Nodup.map_on (fun one isOne other isOther => ?_)
        (of.table.rehashable.buckets.chains.distinct j (of.bucketCount ▸ inside))
      exact of.table.rehashable.distinctKeys one (of.member inside isOne) other
        (of.member inside isOther)
    · obtain ⟨_, _, _, isBucket⟩ := here isListed
      have below := soFar.below one isBefore
      rw [same, isBucket] at below
      exact absurd below (Nat.lt_irrefl j)
  · rcases List.mem_append.mp isListed with isBefore | isListed
    · exact soFar.seen wanted isBefore
    · obtain ⟨addr, isMember, same, _⟩ := here isListed
      exact ⟨content.map, current, of.holds.mem_iff.mpr ⟨addr, isMember, same⟩⟩
  · rcases List.mem_append.mp isListed with isBefore | isListed
    · exact Nat.lt_succ_of_lt (soFar.below wanted isBefore)
    · obtain ⟨_, _, _, isBucket⟩ := here isListed
      omega
  · rw [List.mem_append]
    rcases Nat.lt_succ_iff_lt_or_eq.mp below with isBefore | isHere
    · exact .inl (soFar.complete wanted always isBefore)
    · obtain ⟨addr, isMember, rfl⟩ := of.holds.mem_iff.mp (always content.map current)
      exact .inr (List.mem_map_of_mem ((placed addr).mpr ⟨isMember, isHere.symm⟩))

/-- A listing that went through all buckets is done. -/
theorem ListedBelow.all (soFar : ListedBelow power maps j listed) (enough : 2 ^ power ≤ j) :
    ListedAll maps listed where
  once := soFar.once
  seen := soFar.seen
  complete key always := soFar.complete key always ((bucketOf_lt power key).trans_le enough)

/-- A table without elements has nothing to list. -/
theorem listedAll_empty (of : content.Of kind key power state) (current : content.map ∈ maps)
    (empty : content.members.card = 0) : ListedAll maps [] where
  once := .nil
  seen _ isListed := absurd isListed List.not_mem_nil
  complete key always := by
    obtain ⟨addr, isMember, -⟩ := of.holds.mem_iff.mp (always content.map current)
    rw [Finset.card_eq_zero.mp empty] at isMember
    exact absurd isMember (Finset.notMem_empty addr)

/-- Behind the last lock are no more buckets. -/
theorem TableContent.Of.lock_end (of : content.Of kind key power state)
    (behind : state.htable.lockCount ≤ i) :
    2 ^ power ≤ i <<< state.htable.bucketsPerLockPow2 := by
  have size := of.table.size
  have lockCount : state.htable.lockCount = 2 ^ (power - state.htable.bucketsPerLockPow2) :=
    size.lockCount
  rw [Nat.shiftLeft_eq, ← Nat.sub_add_cancel size.lockFits, Nat.pow_add]
  exact Nat.mul_le_mul_right _ (lockCount ▸ behind)

end Listings

/-! ### Moves -/

/-- A sum over all threads when one of them goes on. -/
theorem sum_update [Fintype Thread] [DecidableEq Thread] {Value : Type} (measure : Value → Nat)
    (values : Thread → Value) (thread : Thread) (value : Value) :
    ∑ other, measure (Function.update values thread value other) + measure (values thread) =
      ∑ other, measure (values other) + measure value := by
  have before := Finset.add_sum_erase Finset.univ (fun other => measure (values other))
    (Finset.mem_univ thread)
  have after := Finset.add_sum_erase Finset.univ
    (fun other => measure (Function.update values thread value other)) (Finset.mem_univ thread)
  have same : ∑ other ∈ Finset.univ.erase thread,
      measure (Function.update values thread value other) =
        ∑ other ∈ Finset.univ.erase thread, measure (values other) :=
    Finset.sum_congr rfl fun other isOther => by
      rw [Function.update_of_ne (Finset.ne_of_mem_erase isOther)]
  simp only [Function.update_self] at after
  omega

section Moves

variable [Fintype Thread] [DecidableEq Thread] {kind : KeyKind} {world : ThreadsWorld Thread}
  {key : Addr → Bytes} {power : Nat} {content : TableContent} {maps : Thread → Set KeyMap}
  {thread : Thread} {pc : HtablePc}

/-- A thread goes on without a change of the table, maybe with a lock more or less. -/
theorem ThreadsInvariant.moved (invariant : ThreadsInvariant kind world key power content maps)
    {gResizeLock : RwLock Thread} {locks : Nat → RwLock Thread} {owned : Finset Addr}
    (tableLock : gResizeLock.Mirrors
      (Function.update (HtablePc.tableMode ∘ world.pc) thread pc.tableMode))
    (bucketLocks : ∀ lockIndex, (locks lockIndex).Mirrors
      (Function.update (HtablePc.lockMode lockIndex ∘ world.pc) thread (pc.lockMode lockIndex)))
    (uncounted : pc.uncounted = (world.pc thread).uncounted)
    (mine : ∀ addr, pc.mine = some addr →
      addr ∉ owned ∧ (addr ∈ world.owned ∨ (world.pc thread).mine = some addr))
    (own : ∀ addr ∈ owned, addr ∈ world.owned ∨ (world.pc thread).mine = some addr)
    (holds : pc.Holds kind key power world.state content (maps thread)) :
    ThreadsInvariant kind ⟨world.state, gResizeLock, locks, Function.update world.pc thread pc,
      owned⟩ key power content (content.record maps) where
  of := invariant.of
  counted := by
    have total := sum_update HtablePc.uncounted world.pc thread pc
    have before := invariant.counted
    show world.state.htable.elementCount =
      content.members.card + ∑ other, (Function.update world.pc thread pc other).uncounted
    rw [uncounted] at total
    omega
  tableLock := by
    rw [Function.comp_update]
    exact tableLock
  bucketLocks lockIndex := by
    rw [Function.comp_update]
    exact bucketLocks lockIndex
  loose addr isLoose := by
    refine invariant.loose addr ?_
    rcases isLoose with isOwned | ⟨other, isMine⟩
    · exact (own addr isOwned).imp_right fun isMine => ⟨thread, isMine⟩
    · by_cases same : other = thread
      · subst same
        simp only [Function.update_self] at isMine
        exact (mine addr isMine).2.imp_right fun isMine => ⟨other, isMine⟩
      · simp only [Function.update_of_ne same] at isMine
        exact .inr ⟨other, isMine⟩
  apart first second addr isFirst isSecond := by
    have elsewhere {other : Thread} (different : other ≠ thread) (isMine : pc.mine = some addr)
        (isOther : (world.pc other).mine = some addr) : False :=
      (mine addr isMine).2.elim (invariant.given other addr isOther)
        fun before => different (invariant.apart other thread addr isOther before)
    by_cases firstSame : first = thread <;> by_cases secondSame : second = thread
    · exact firstSame.trans secondSame.symm
    · subst firstSame
      simp only [Function.update_self, Function.update_of_ne secondSame] at isFirst isSecond
      exact (elsewhere secondSame isFirst isSecond).elim
    · subst secondSame
      simp only [Function.update_self, Function.update_of_ne firstSame] at isFirst isSecond
      exact (elsewhere firstSame isSecond isFirst).elim
    · simp only [Function.update_of_ne firstSame, Function.update_of_ne secondSame] at isFirst isSecond
      exact invariant.apart first second addr isFirst isSecond
  given other addr isMine isOwned := by
    by_cases same : other = thread
    · subst same
      simp only [Function.update_self] at isMine
      exact (mine addr isMine).1 isOwned
    · simp only [Function.update_of_ne same] at isMine
      exact (own addr isOwned).elim (invariant.given other addr isMine)
        fun before => same (invariant.apart other thread addr isMine before)
  current _ := Set.mem_insert _ _
  holds other := by
    rw [invariant.record_eq]
    by_cases same : other = thread
    · subst same
      simp only [Function.update_self]
      exact holds
    · simp only [Function.update_of_ne same]
      exact invariant.holds other

/-- Where a thread has no lock of a bucket and takes none, the locks of the buckets mirror what they
did before. -/
theorem ThreadsInvariant.sameBucketLocks (invariant : ThreadsInvariant kind world key power content maps)
    (same : ∀ lockIndex, (world.pc thread).lockMode lockIndex = pc.lockMode lockIndex)
    (lockIndex : Nat) : (world.locks lockIndex).Mirrors
      (Function.update (HtablePc.lockMode lockIndex ∘ world.pc) thread (pc.lockMode lockIndex)) :=
  (invariant.bucketLocks lockIndex).same (same lockIndex)

/-- A thread goes on with the locks it has. -/
theorem ThreadsInvariant.stays (invariant : ThreadsInvariant kind world key power content maps)
    (tableMode : (world.pc thread).tableMode = pc.tableMode)
    (lockMode : ∀ lockIndex, (world.pc thread).lockMode lockIndex = pc.lockMode lockIndex)
    (uncounted : pc.uncounted = (world.pc thread).uncounted)
    (mine : ∀ addr, pc.mine = some addr → (world.pc thread).mine = some addr)
    (holds : pc.Holds kind key power world.state content (maps thread)) :
    ThreadsInvariant kind (world.goto thread pc) key power content (content.record maps) :=
  invariant.moved (invariant.tableLock.same tableMode) (invariant.sameBucketLocks lockMode) uncounted
    (fun addr isMine => ⟨invariant.given thread addr (mine addr isMine), .inr (mine addr isMine)⟩)
    (fun _ isOwned => .inl isOwned) holds

/-- The lock of the table is taken. -/
theorem ThreadsInvariant.entersTable (invariant : ThreadsInvariant kind world key power content maps)
    {purpose : RwLock.Mode} {gResizeLock : RwLock Thread}
    (taken : world.gResizeLock.acquire thread purpose = some gResizeLock)
    (before : (world.pc thread).tableMode = none) (after : pc.tableMode = some purpose)
    (lockMode : ∀ lockIndex, (world.pc thread).lockMode lockIndex = pc.lockMode lockIndex)
    (uncounted : pc.uncounted = (world.pc thread).uncounted)
    (mine : ∀ addr, pc.mine = some addr → (world.pc thread).mine = some addr)
    (holds : pc.Holds kind key power world.state content (maps thread)) :
    ThreadsInvariant kind ({ world with gResizeLock }.goto thread pc) key power content (content.record maps) :=
  invariant.moved (after ▸ invariant.tableLock.acquire before taken)
    (invariant.sameBucketLocks lockMode) uncounted
    (fun addr isMine => ⟨invariant.given thread addr (mine addr isMine), .inr (mine addr isMine)⟩)
    (fun _ isOwned => .inl isOwned) holds

/-- The lock of the table is released. -/
theorem ThreadsInvariant.leavesTable (invariant : ThreadsInvariant kind world key power content maps)
    (before : (world.pc thread).tableMode ≠ none) (after : pc.tableMode = none)
    (lockMode : ∀ lockIndex, (world.pc thread).lockMode lockIndex = pc.lockMode lockIndex)
    (uncounted : pc.uncounted = (world.pc thread).uncounted)
    (mine : ∀ addr, pc.mine = some addr → (world.pc thread).mine = some addr)
    (holds : pc.Holds kind key power world.state content (maps thread)) :
    ThreadsInvariant kind ({ world with gResizeLock := world.gResizeLock.unlock thread }.goto
      thread pc) key power content (content.record maps) :=
  invariant.moved (after ▸ invariant.tableLock.unlock before)
    (invariant.sameBucketLocks lockMode) uncounted
    (fun addr isMine => ⟨invariant.given thread addr (mine addr isMine), .inr (mine addr isMine)⟩)
    (fun _ isOwned => .inl isOwned) holds

/-- The lock of a bucket is taken. -/
theorem ThreadsInvariant.entersBucket (invariant : ThreadsInvariant kind world key power content maps)
    {purpose : RwLock.Mode} {lockIndex : Nat} {lock : RwLock Thread}
    (taken : (world.locks lockIndex).acquire thread purpose = some lock)
    (tableMode : (world.pc thread).tableMode = pc.tableMode)
    (before : ∀ another, (world.pc thread).lockMode another = none)
    (after : ∀ another, pc.lockMode another = if lockIndex = another then some purpose else none)
    (uncounted : pc.uncounted = (world.pc thread).uncounted)
    (mine : ∀ addr, pc.mine = some addr → (world.pc thread).mine = some addr)
    (holds : pc.Holds kind key power world.state content (maps thread)) :
    ThreadsInvariant kind ({ world with locks := Function.update world.locks lockIndex lock }.goto
      thread pc) key power content (content.record maps) := by
  refine invariant.moved (invariant.tableLock.same tableMode) (fun another => ?_) uncounted
    (fun addr isMine => ⟨invariant.given thread addr (mine addr isMine), .inr (mine addr isMine)⟩)
    (fun _ isOwned => .inl isOwned) holds
  show (Function.update world.locks lockIndex lock another).Mirrors _
  rw [after another]
  by_cases same : another = lockIndex
  · subst same
    rw [if_pos rfl, Function.update_self]
    exact (invariant.bucketLocks another).acquire (before another) taken
  · rw [if_neg (Ne.symm same), Function.update_of_ne same]
    exact (invariant.bucketLocks another).same (before another)

/-- The lock of a bucket is released. -/
theorem ThreadsInvariant.leavesBucket (invariant : ThreadsInvariant kind world key power content maps)
    {purpose : RwLock.Mode} {lockIndex : Nat}
    (tableMode : (world.pc thread).tableMode = pc.tableMode)
    (before : ∀ another,
      (world.pc thread).lockMode another = if lockIndex = another then some purpose else none)
    (after : ∀ another, pc.lockMode another = none)
    (uncounted : pc.uncounted = (world.pc thread).uncounted)
    (mine : ∀ addr, pc.mine = some addr → (world.pc thread).mine = some addr)
    (holds : pc.Holds kind key power world.state content (maps thread)) :
    ThreadsInvariant kind ({ world with
      locks := Function.update world.locks lockIndex ((world.locks lockIndex).unlock thread) }.goto
      thread pc) key power content (content.record maps) := by
  refine invariant.moved (invariant.tableLock.same tableMode) (fun another => ?_) uncounted
    (fun addr isMine => ⟨invariant.given thread addr (mine addr isMine), .inr (mine addr isMine)⟩)
    (fun _ isOwned => .inl isOwned) holds
  show (Function.update world.locks lockIndex _ another).Mirrors _
  rw [after another]
  by_cases same : another = lockIndex
  · subst same
    rw [Function.update_self]
    refine (invariant.bucketLocks another).unlock ?_
    show (world.pc thread).lockMode another ≠ none
    rw [before another, if_pos rfl]
    exact Option.some_ne_none _
  · rw [Function.update_of_ne same]
    refine (invariant.bucketLocks another).same ?_
    show (world.pc thread).lockMode another = none
    rw [before another, if_neg (Ne.symm same)]

/-- A statement under the lock of a bucket. -/
theorem ThreadsInvariant.inBucket (invariant : ThreadsInvariant kind world key power content maps)
    (few : world.state.htable.elementCount < 2 ^ 40) {call : HtableCall}
    {bucketIndex lockIndex : Nat} {pc : BucketPc}
    (here : world.pc thread = .inBucket call bucketIndex lockIndex pc)
    (inCall : ∀ answer, pc ≠ .unlock answer) :
    ∃ state result after event,
      bucketStep world.state bucketIndex pc call = some (state, after, event) ∧
      EventStep content.map event result.map ∧
      ThreadsInvariant kind
        ({ world with state }.goto thread (.inBucket call bucketIndex lockIndex after))
        key power result (result.record maps) := by
  have mineIs : (world.pc thread).mine = pc.mine call := by rw [here]; rfl
  have holds := invariant.holds thread
  rw [here] at holds
  obtain ⟨wanted, isValid, rfl, isLock, holds⟩ := holds
  have uncounted : content.members.card + pc.uncounted ≤ world.state.htable.elementCount := by
    have total := Finset.add_sum_erase Finset.univ (fun other => (world.pc other).uncounted)
      (Finset.mem_univ thread)
    have isUncounted : (world.pc thread).uncounted = pc.uncounted := by rw [here]; rfl
    rw [invariant.counted, ← total]
    simp only [isUncounted]
    omega
  obtain ⟨state, result, after, event, call', stepped⟩ := bucketStep_spec invariant.of isValid few
    uncounted (fun addr isMine => invariant.loose addr (.inr ⟨thread, mineIs.trans isMine⟩)) holds
    inCall
  refine ⟨state, result, after, event, call', stepped.observed, ?_⟩
  obtain ⟨buckets, elementCount, table⟩ := stepped.table
  -- what is loose for others is neither in the table nor this thread's own
  have stillLoose (addr : Addr) (outside : addr ∉ content.members ∧
      LiveKey kind key world.state.memory addr) (different : pc.mine call ≠ some addr) :
      state.memory addr = world.state.memory addr ∧ addr ∉ result.members :=
    ⟨stepped.frame addr outside.1 different, fun isMember =>
      (stepped.gained addr isMember).elim outside.1 different⟩
  have notMine (other : Thread) (different : other ≠ thread) (addr : Addr)
      (isMine : (world.pc other).mine = some addr) : pc.mine call ≠ some addr := fun also =>
    different (invariant.apart other thread addr isMine (mineIs.trans also))
  refine ⟨stepped.of, ?_, ?_, fun another => ?_, fun addr isLoose => ?_,
    fun first second addr isFirst isSecond => ?_, fun other addr isMine isOwned => ?_,
    fun _ => Set.mem_insert _ _, fun other => ?_⟩
  · have total := sum_update HtablePc.uncounted world.pc thread
      (.inBucket call (bucketOf (2 ^ power) wanted) lockIndex after)
    have before := invariant.counted
    have step := stepped.counted
    have isUncounted : (world.pc thread).uncounted = pc.uncounted := by rw [here]; rfl
    have isAfter : HtablePc.uncounted (.inBucket call (bucketOf (2 ^ power) wanted) lockIndex after) =
        after.uncounted := rfl
    show state.htable.elementCount = result.members.card + ∑ other, (Function.update world.pc thread
      (.inBucket call (bucketOf (2 ^ power) wanted) lockIndex after) other).uncounted
    omega
  · rw [ThreadsWorld.goto, Function.comp_update]
    refine invariant.tableLock.same ?_
    show (world.pc thread).tableMode = _
    rw [here]
    rfl
  · rw [ThreadsWorld.goto, Function.comp_update]
    refine (invariant.bucketLocks another).same ?_
    show (world.pc thread).lockMode another = _
    rw [here]
    rfl
  · rcases isLoose with isOwned | ⟨other, isMine⟩
    · have before := invariant.loose addr (.inl isOwned)
      obtain ⟨same, outside⟩ := stillLoose addr before fun isMine =>
        invariant.given thread addr (mineIs.trans isMine) isOwned
      obtain ⟨node, live, isNode⟩ := before.2
      exact ⟨outside, node, same.trans live, isNode⟩
    · by_cases same : other = thread
      · subst same
        simp only [ThreadsWorld.goto, Function.update_self] at isMine
        exact (stepped.mine addr isMine).2
      · simp only [ThreadsWorld.goto, Function.update_of_ne same] at isMine
        have before := invariant.loose addr (.inr ⟨other, isMine⟩)
        obtain ⟨same, outside⟩ := stillLoose addr before (notMine other same addr isMine)
        obtain ⟨node, live, isNode⟩ := before.2
        exact ⟨outside, node, same.trans live, isNode⟩
  · have elsewhere {other : Thread} (different : other ≠ thread) (isMine : after.mine call = some addr)
        (isOther : (world.pc other).mine = some addr) : False :=
      (stepped.mine addr isMine).1.elim (notMine other different addr isOther)
        (invariant.loose addr (.inr ⟨other, isOther⟩)).1
    by_cases firstSame : first = thread <;> by_cases secondSame : second = thread
    · exact firstSame.trans secondSame.symm
    · subst firstSame
      simp only [ThreadsWorld.goto, Function.update_self,
        Function.update_of_ne secondSame] at isFirst isSecond
      exact (elsewhere secondSame isFirst isSecond).elim
    · subst secondSame
      simp only [ThreadsWorld.goto, Function.update_self,
        Function.update_of_ne firstSame] at isFirst isSecond
      exact (elsewhere firstSame isSecond isFirst).elim
    · simp only [ThreadsWorld.goto, Function.update_of_ne firstSame,
        Function.update_of_ne secondSame] at isFirst isSecond
      exact invariant.apart first second addr isFirst isSecond
  · by_cases same : other = thread
    · subst same
      simp only [ThreadsWorld.goto, Function.update_self] at isMine
      exact (stepped.mine addr isMine).1.elim
        (fun before => invariant.given other addr (mineIs.trans before) isOwned)
        (invariant.loose addr (.inl isOwned)).1
    · simp only [ThreadsWorld.goto, Function.update_of_ne same] at isMine
      exact invariant.given other addr isMine isOwned
  · have perLock : state.htable.bucketsPerLockPow2 = world.state.htable.bucketsPerLockPow2 := by
      rw [table]
    by_cases same : other = thread
    · subst same
      simp only [ThreadsWorld.goto, Function.update_self]
      exact ⟨wanted, isValid, rfl, perLock ▸ isLock, stepped.holds⟩
    · simp only [ThreadsWorld.goto, Function.update_of_ne same]
      refine (invariant.holds other).keep invariant.of (Set.subset_insert _ _) (by rw [table]) perLock
        (fun index locked => ?_) (fun _ _ => rfl) fun addr isMine => ?_
      · by_cases isHere : index = bucketOf (2 ^ power) wanted
        · subst isHere
          cases purpose : call.mode with
          | read => rw [stepped.reads purpose]
          | write =>
            refine absurd ((invariant.bucketLocks lockIndex).exclusive ?_ (isLock ▸ locked)) same
            show (world.pc thread).lockMode lockIndex = _
            rw [here, HtablePc.lockMode, if_pos rfl, purpose]
        · exact stepped.others index isHere
      · obtain ⟨same, _⟩ := stillLoose addr (invariant.loose addr (.inr ⟨other, isMine⟩))
          (notMine other same addr isMine)
        show (state.memory addr).bind _ = _
        rw [same]
        rfl

/-- Who is not in the table has counted nothing. -/
theorem HtablePc.uncounted_eq_zero (outside : pc.tableMode = none) : pc.uncounted = 0 := by
  cases pc with
  | inBucket call bucketIndex lockIndex pc => cases outside
  | _ => rfl

/-- Who is not in the table relies on nothing there. -/
theorem HtablePc.Holds.outside {state next : HtableState} {result : TableContent} {newPower : Nat}
    {since : Set KeyMap} (holds : pc.Holds kind key power state content since)
    (outside : pc.tableMode = none) : pc.Holds kind key newPower next result since := by
  cases pc with
  | rdlock call => exact holds
  | copyLock i listed => cases outside
  | unlockTable call answer => cases outside
  | answering call answer => cases answer <;> exact holds
  | hash call => cases outside
  | lockBucket call bucketIndex lockIndex => cases outside
  | inBucket call bucketIndex lockIndex pc => cases outside
  | copyBucket i j listed => cases outside
  | copyNode i j iteratorNode listed => cases outside
  | copyUnlock i listed => cases outside
  | _ => trivial

/-- A resize, when nobody else is in the table. -/
theorem ThreadsInvariant.resizes (invariant : ThreadsInvariant kind world key power content maps)
    {element : Addr} (here : world.pc thread = .resize element) :
    ∃ state newPower lists, htableResize .none world.state = some state ∧
      ThreadsInvariant kind ({ world with state }.goto thread (.unlockResized element)) key newPower
        { content with lists } (content.record maps) := by
  have outside (other : Thread) (different : other ≠ thread) : (world.pc other).tableMode = none := by
    by_contra inTable
    refine different (invariant.tableLock.exclusive ?_ inTable)
    show (world.pc thread).tableMode = _
    rw [here]
    rfl
  have nothing : ∑ other, (world.pc other).uncounted = 0 := by
    refine Finset.sum_eq_zero fun other _ => ?_
    by_cases same : other = thread
    · rw [same, here]
      rfl
    · exact HtablePc.uncounted_eq_zero (outside other same)
  have counted : world.state.htable.elementCount = content.members.card := by
    rw [invariant.counted, nothing, Nat.add_zero]
  have exact_ : world.state.withElementCount content.members.card = world.state := by
    rw [← counted]
    rfl
  have table := invariant.of.table
  rw [exact_] at table
  obtain ⟨state, newPower, lists, call, kept, -, same⟩ := htableResize_spec kind.order table
  have stillCounted : state.htable.elementCount = content.members.card := kept.rehashable.elementCount
  refine ⟨state, newPower, lists, call, ⟨?_, invariant.of.holds⟩, ?_, ?_, fun another => ?_,
    fun addr isLoose => ?_, fun first second addr isFirst isSecond => ?_,
    fun other addr isMine => ?_, fun _ => Set.mem_insert _ _, fun other => ?_⟩
  · show TableInvariant _ _ _ _ _ (state.withElementCount content.members.card) _
    rw [← stillCounted]
    exact kept
  · have total := sum_update HtablePc.uncounted world.pc thread (.unlockResized element)
    have isNothing : HtablePc.uncounted (.unlockResized element) = 0 := rfl
    show state.htable.elementCount = content.members.card +
      ∑ other, (Function.update world.pc thread (.unlockResized element) other).uncounted
    omega
  · rw [ThreadsWorld.goto, Function.comp_update]
    refine invariant.tableLock.same ?_
    show (world.pc thread).tableMode = _
    rw [here]
    rfl
  · rw [ThreadsWorld.goto, Function.comp_update]
    refine (invariant.bucketLocks another).same ?_
    show (world.pc thread).lockMode another = _
    rw [here]
    rfl
  all_goals
    have sameMine (other : Thread) :
        (Function.update world.pc thread (.unlockResized element) other).mine =
          (world.pc other).mine := by
      by_cases same : other = thread
      · subst same
        rw [Function.update_self, here]
        rfl
      · rw [Function.update_of_ne same]
  · obtain ⟨outside, node, live, nodeKey, nodeValid⟩ := invariant.loose addr (by
      refine isLoose.imp_right fun ⟨other, isMine⟩ => ⟨other, ?_⟩
      rwa [ThreadsWorld.goto, sameMine] at isMine)
    obtain ⟨still, stillLive, stillKey⟩ := SameNodes.live same live
    exact ⟨outside, still, stillLive, stillKey.trans nodeKey, nodeValid⟩
  · rw [ThreadsWorld.goto, sameMine] at isFirst isSecond
    exact invariant.apart first second addr isFirst isSecond
  · rw [ThreadsWorld.goto, sameMine] at isMine
    exact invariant.given other addr isMine
  · rw [invariant.record_eq]
    by_cases same : other = thread
    · subst same
      simp only [ThreadsWorld.goto, Function.update_self]
      trivial
    · simp only [ThreadsWorld.goto, Function.update_of_ne same]
      exact (invariant.holds other).outside (outside other same)

end Moves

/-! ### Every statement -/

/-- What a call amounts to is observed when it commits. -/
def HtableAction.event : HtableAction → Option TableEvent
  | .commit event => some event
  | _ => none

section Advances

variable [DecidableEq Thread]

/-- A thread waits for a lock that it cannot have now. -/
def ThreadsWorld.Waits (world : ThreadsWorld Thread) (thread : Thread) : Prop :=
  match world.pc thread with
  | .rdlock _ => world.gResizeLock.acquire thread .read = none
  | .lockBucket call _ lockIndex => (world.locks lockIndex).acquire thread call.mode = none
  | .copyLock i _ =>
    i < world.state.htable.lockCount ∧ (world.locks i).acquire thread .read = none
  | _ => False

/-- Who waits takes no step. -/
theorem ThreadsWorld.Waits.step_eq_none {world : ThreadsWorld Thread} {thread : Thread}
    (waits : world.Waits thread) : world.step thread = none := by
  unfold ThreadsWorld.Waits at waits
  unfold ThreadsWorld.step
  cases here : world.pc thread with
  | rdlock call =>
    rw [here] at waits
    simp only [show world.gResizeLock.acquire thread .read = none from waits, Option.bind_eq_bind,
      Option.bind_none]
  | lockBucket call bucketIndex lockIndex =>
    rw [here] at waits
    simp only [show (world.locks lockIndex).acquire thread call.mode = none from waits,
      Option.bind_eq_bind, Option.bind_none]
  | copyLock i listed =>
    rw [here] at waits
    obtain ⟨inside, refused⟩ := waits
    simp only [inside, if_true, refused, Option.bind_eq_bind, Option.bind_none]
  | _ => simp only [here] at waits

/-- A thread runs its statement, and the table is intact behind it. -/
def ThreadsWorld.Advances [Fintype Thread] (world : ThreadsWorld Thread) (kind : KeyKind)
    (key : Addr → Bytes) (content : TableContent) (maps : Thread → Set KeyMap) (thread : Thread) :
    Prop :=
  ∃ next action newPower result, world.step thread = some (next, action) ∧
    EventStep content.map (action.bind HtableAction.event) result.map ∧
    ThreadsInvariant kind next key newPower result (result.record maps)

variable [Fintype Thread] {kind : KeyKind} {world : ThreadsWorld Thread} {key : Addr → Bytes}
  {power : Nat} {content : TableContent} {maps : Thread → Set KeyMap} {thread : Thread}
  {call : HtableCall} {element : Addr} {answer : HtableAnswer} {i j : Nat} {listed : List Bytes}

/-- The test for a resize. -/
theorem ThreadsInvariant.tests (invariant : ThreadsInvariant kind world key power content maps)
    {elementCount : Nat} (here : world.pc thread = .loadThres element elementCount) :
    world.Advances kind key content maps thread := by
  obtain ⟨-, -, -, -, isValid⟩ := invariant.loose element (.inr ⟨thread, by rw [here]; rfl⟩)
  unfold ThreadsWorld.Advances ThreadsWorld.step
  simp only [here]
  split_ifs
  · exact ⟨_, _, power, content, rfl, rfl, invariant.stays (by rw [here]; rfl)
      (fun _ => by rw [here]; rfl) (by rw [here]; rfl) (fun _ isMine => by rwa [here]) trivial⟩
  · refine ⟨_, _, power, content, rfl, rfl, invariant.stays (by rw [here]; rfl)
      (fun _ => by rw [here]; rfl) (by rw [here]; rfl) (fun _ isMine => by rwa [here]) ?_⟩
    rintro wanted isWanted
    obtain rfl := Option.some.inj isWanted
    exact isValid

/-- The attempt to resize. -/
theorem ThreadsInvariant.tries (invariant : ThreadsInvariant kind world key power content maps)
    (here : world.pc thread = .tryWrlock element) : world.Advances kind key content maps thread := by
  obtain ⟨-, -, -, -, isValid⟩ := invariant.loose element (.inr ⟨thread, by rw [here]; rfl⟩)
  unfold ThreadsWorld.Advances ThreadsWorld.step
  simp only [here]
  cases taken : world.gResizeLock.acquire thread .write with
  | none =>
    refine ⟨_, _, power, content, rfl, rfl, invariant.stays (by rw [here]; rfl)
      (fun _ => by rw [here]; rfl) (by rw [here]; rfl) (fun _ isMine => by rwa [here]) ?_⟩
    rintro wanted isWanted
    obtain rfl := Option.some.inj isWanted
    exact isValid
  | some gResizeLock =>
    exact ⟨_, _, power, content, rfl, rfl, invariant.entersTable taken (by rw [here]; rfl) rfl
      (fun _ => by rw [here]; rfl) (by rw [here]; rfl) (fun _ isMine => by rwa [here]) trivial⟩

/-- The end of a resize. -/
theorem ThreadsInvariant.endsResize (invariant : ThreadsInvariant kind world key power content maps)
    (here : world.pc thread = .unlockResized element) :
    world.Advances kind key content maps thread := by
  obtain ⟨-, -, -, -, isValid⟩ := invariant.loose element (.inr ⟨thread, by rw [here]; rfl⟩)
  unfold ThreadsWorld.Advances ThreadsWorld.step
  simp only [here]
  refine ⟨_, _, power, content, rfl, rfl, invariant.leavesTable ?_ rfl
    (fun _ => by rw [here]; rfl) (by rw [here]; rfl) (fun _ isMine => by rwa [here]) ?_⟩
  · rw [here]
    exact Option.some_ne_none _
  · rintro wanted isWanted
    obtain rfl := Option.some.inj isWanted
    exact isValid

/-- A call enters the table. -/
theorem ThreadsInvariant.enters (invariant : ThreadsInvariant kind world key power content maps)
    (here : world.pc thread = .rdlock call) :
    world.Waits thread ∨ world.Advances kind key content maps thread := by
  have holds := invariant.holds thread
  rw [here] at holds
  unfold ThreadsWorld.Waits ThreadsWorld.Advances ThreadsWorld.step
  simp only [here]
  cases taken : world.gResizeLock.acquire thread .read with
  | none => exact .inl rfl
  | some gResizeLock =>
    right
    by_cases copies : call = .copyAllKeys
    · subst copies
      exact ⟨_, _, power, content, rfl, rfl, invariant.entersTable taken (by rw [here]; rfl) rfl
        (fun _ => by rw [here]; rfl) (by rw [here]; rfl) (fun _ isMine => by cases isMine) trivial⟩
    · refine ⟨_, _, power, content, rfl, rfl, ?_⟩
      rw [if_neg copies]
      refine invariant.entersTable taken (by rw [here]; rfl) rfl
        (fun _ => by rw [here]; rfl) (by rw [here]; rfl) (fun _ isMine => by rwa [here]) ?_
      cases call with
      | copyAllKeys => exact absurd rfl copies
      | _ => exact ⟨_, rfl, holds _ rfl⟩

/-- The hash of the key, and the lock of its bucket. -/
theorem ThreadsInvariant.hashes (invariant : ThreadsInvariant kind world key power content maps)
    (here : world.pc thread = .hash call) : world.Advances kind key content maps thread := by
  have holds := invariant.holds thread
  rw [here] at holds
  obtain ⟨wanted, isWanted, isValid⟩ := holds
  have keyed : world.state.callKey call = some wanted := by
    cases call with
    | add element =>
      obtain ⟨-, node, live, nodeKey, -⟩ := invariant.loose element (.inr ⟨thread, by rw [here]; rfl⟩)
      rw [HtableState.callKey, load_some, live, Option.map_some, nodeKey]
      exact isWanted
    | copyAllKeys => cases isWanted
    | _ => exact isWanted
  have hashed : world.state.bucketIndex wanted = some (bucketOf (2 ^ power) wanted) := by
    rw [bucketIndex_eq (kind.order.nonempty isValid), invariant.of.bucketCount]
  have locked : world.state.lockOf (bucketOf (2 ^ power) wanted) =
      some (bucketOf (2 ^ power) wanted >>> world.state.htable.bucketsPerLockPow2) :=
    lockOf_inside invariant.of.table.size.lockFits invariant.of.table.size.lockCount
      (bucketOf_lt power wanted)
  unfold ThreadsWorld.Advances ThreadsWorld.step
  simp only [here, keyed, hashed, locked, Option.bind_eq_bind, Option.bind_some]
  exact ⟨_, _, power, content, rfl, rfl, invariant.stays (by rw [here]; rfl)
    (fun _ => by rw [here]; rfl) (by rw [here]; rfl) (fun _ isMine => by rwa [here])
    ⟨wanted, isWanted, isValid, rfl, rfl⟩⟩

/-- The lock of the bucket of a call. -/
theorem ThreadsInvariant.locks_ (invariant : ThreadsInvariant kind world key power content maps)
    {bucketIndex lockIndex : Nat} (here : world.pc thread = .lockBucket call bucketIndex lockIndex) :
    world.Waits thread ∨ world.Advances kind key content maps thread := by
  have holds := invariant.holds thread
  rw [here] at holds
  obtain ⟨wanted, isWanted, isValid, isBucket, isLock⟩ := holds
  unfold ThreadsWorld.Waits ThreadsWorld.Advances ThreadsWorld.step
  simp only [here]
  cases taken : (world.locks lockIndex).acquire thread call.mode with
  | none => exact .inl rfl
  | some lock =>
    refine .inr ⟨_, _, power, content, rfl, rfl, invariant.entersBucket taken (by rw [here]; rfl)
      (fun _ => by rw [here]; rfl) (fun _ => rfl) ?_ (fun _ isMine => ?_) ?_⟩
    · rw [here]
      cases call <;> rfl
    · rw [here]
      cases call with
      | add element => exact isMine
      | _ => cases isMine
    · cases call with
      | copyAllKeys => cases isWanted
      | _ => exact ⟨wanted, isValid, isBucket, isLock, Option.some.inj isWanted⟩

/-- A statement under the lock of a bucket, or its release. -/
theorem ThreadsInvariant.statement (invariant : ThreadsInvariant kind world key power content maps)
    (few : world.state.htable.elementCount < 2 ^ 40) {bucketIndex lockIndex : Nat} {pc : BucketPc}
    (here : world.pc thread = .inBucket call bucketIndex lockIndex pc) :
    world.Advances kind key content maps thread := by
  by_cases inCall : ∀ answer, pc ≠ .unlock answer
  · obtain ⟨state, result, after, event, call', observed, kept⟩ :=
      invariant.inBucket few here inCall
    refine ⟨_, event.map .commit, power, result, ?_, ?_, kept⟩
    · rw [step_inBucket here inCall, call']
      rfl
    · cases event with
      | none => exact observed
      | some event => exact observed
  · push Not at inCall
    obtain ⟨answer, rfl⟩ := inCall
    unfold ThreadsWorld.Advances ThreadsWorld.step
    simp only [here]
    refine ⟨_, _, power, content, rfl, rfl, invariant.leavesBucket (by rw [here]; rfl)
      (fun _ => by rw [here]; rfl) (fun _ => rfl) (by rw [here]; rfl)
      (fun _ isMine => by rwa [here]) ?_⟩
    have holds := invariant.holds thread
    rw [here] at holds
    obtain ⟨_, -, -, -, holds⟩ := holds
    cases answer with
    | keys listed => cases call <;> exact holds.elim
    | _ => trivial

/-- `htable_copy_all_keys` takes the next lock, or is done. -/
theorem ThreadsInvariant.copyLocks (invariant : ThreadsInvariant kind world key power content maps)
    (here : world.pc thread = .copyLock i listed) :
    world.Waits thread ∨ world.Advances kind key content maps thread := by
  have holds := invariant.holds thread
  rw [here] at holds
  unfold ThreadsWorld.Waits ThreadsWorld.Advances ThreadsWorld.step
  simp only [here]
  by_cases inside : i < world.state.htable.lockCount
  · simp only [inside, if_true, true_and]
    cases taken : (world.locks i).acquire thread .read with
    | none => exact .inl rfl
    | some lock =>
      refine .inr ⟨_, _, power, content, rfl, rfl, invariant.entersBucket taken (by rw [here]; rfl)
        (fun _ => by rw [here]; rfl) (fun _ => rfl) (by rw [here]; rfl)
        (fun _ isMine => by cases isMine) ⟨inside, le_rfl, ?_, holds⟩⟩
      rw [Nat.shiftLeft_eq, Nat.shiftLeft_eq]
      exact Nat.mul_le_mul_right _ (Nat.le_succ i)
  · simp only [inside, if_false]
    exact .inr ⟨_, _, power, content, rfl, rfl, invariant.stays (by rw [here]; rfl)
      (fun _ => by rw [here]; rfl) (by rw [here]; rfl) (fun _ isMine => by cases isMine)
      (ListedBelow.all holds (invariant.of.lock_end (Nat.not_lt.mp inside)))⟩

/-- It goes to the first node of the next bucket. -/
theorem ThreadsInvariant.copyEnters (invariant : ThreadsInvariant kind world key power content maps)
    (here : world.pc thread = .copyBucket i j listed) : world.Advances kind key content maps thread := by
  have holds := invariant.holds thread
  rw [here] at holds
  obtain ⟨inside, least, most, soFar⟩ := holds
  unfold ThreadsWorld.Advances ThreadsWorld.step
  simp only [here]
  by_cases below : j < (i + 1) <<< world.state.htable.bucketsPerLockPow2
  · rw [if_pos below]
    have bucketInside := below.trans_le (invariant.of.lock_inside inside)
    have head := invariant.of.head bucketInside
    cases first : world.state.htable.buckets j with
    | none =>
      have further := soFar.bucket invariant.of (invariant.current thread) bucketInside
      rw [List.head?_eq_none_iff.mp (head.symm.trans first), List.map_nil, List.append_nil] at further
      exact ⟨_, _, power, content, rfl, rfl, invariant.stays (by rw [here]; rfl)
        (fun _ => by rw [here]; rfl) (by rw [here]; rfl) (fun _ isMine => by cases isMine)
        ⟨inside, Nat.le_succ_of_le least, below, further⟩⟩
    | some iteratorNode =>
      obtain ⟨back, split⟩ := List.head?_eq_some_iff.mp (head.symm.trans first)
      exact ⟨_, _, power, content, rfl, rfl, invariant.stays (by rw [here]; rfl)
        (fun _ => by rw [here]; rfl) (by rw [here]; rfl) (fun _ isMine => by cases isMine)
        ⟨inside, least, below, listed, [], back, split, (List.append_nil _).symm, soFar⟩⟩
  · rw [if_neg below]
    exact ⟨_, _, power, content, rfl, rfl, invariant.stays (by rw [here]; rfl)
      (fun _ => by rw [here]; rfl) (by rw [here]; rfl) (fun _ isMine => by cases isMine)
      ⟨inside, le_antisymm most (Nat.not_lt.mp below) ▸ soFar⟩⟩

/-- It lists a node. -/
theorem ThreadsInvariant.copies (invariant : ThreadsInvariant kind world key power content maps)
    {iteratorNode : Addr} (here : world.pc thread = .copyNode i j iteratorNode listed) :
    world.Advances kind key content maps thread := by
  have holds := invariant.holds thread
  rw [here] at holds
  obtain ⟨inside, least, below, before, front, back, split, rfl, soFar⟩ := holds
  have bucketInside := below.trans_le (invariant.of.lock_inside inside)
  obtain ⟨node, live, nodeKey, -, nodeNext⟩ := invariant.of.nodeAt bucketInside split
  have listsNode : before ++ front.map key ++ [node.key] =
      before ++ (front ++ [iteratorNode]).map key := by
    rw [nodeKey, List.map_append, List.append_assoc]
    rfl
  unfold ThreadsWorld.Advances ThreadsWorld.step
  simp only [here, load_some, live, Option.bind_eq_bind, Option.bind_some]
  cases next : node.next with
  | none =>
    have further := soFar.bucket invariant.of (invariant.current thread) bucketInside
    rw [split, List.head?_eq_none_iff.mp (nodeNext.symm.trans next), ← listsNode] at further
    exact ⟨_, _, power, content, rfl, rfl, invariant.stays (by rw [here]; rfl)
      (fun _ => by rw [here]; rfl) (by rw [here]; rfl) (fun _ isMine => by cases isMine)
      ⟨inside, Nat.le_succ_of_le least, below, further⟩⟩
  | some next =>
    obtain ⟨rest, backSplit⟩ := List.head?_eq_some_iff.mp (nodeNext.symm.trans next)
    refine ⟨_, _, power, content, rfl, rfl, invariant.stays (by rw [here]; rfl)
      (fun _ => by rw [here]; rfl) (by rw [here]; rfl) (fun _ isMine => by cases isMine)
      ⟨inside, least, below, before, front ++ [iteratorNode], rest, ?_, listsNode, soFar⟩⟩
    rw [split, backSplit, List.append_assoc]
    rfl

/-- A call returns. A node that was not added is its caller's again. -/
theorem ThreadsInvariant.returns (invariant : ThreadsInvariant kind world key power content maps)
    (here : world.pc thread = .answering call answer) : world.Advances kind key content maps thread := by
  have stands {owned : Finset Addr}
      (own : ∀ addr ∈ owned, addr ∈ world.owned ∨ (world.pc thread).mine = some addr) :
      ThreadsInvariant kind ({ world with owned }.goto thread .idle) key power content
        (content.record maps) :=
    invariant.moved (invariant.tableLock.same (by
        show (world.pc thread).tableMode = none
        rw [here]
        rfl))
      (invariant.sameBucketLocks fun _ => by rw [here]; rfl) (by rw [here]; rfl)
      (fun _ isMine => by cases isMine) own trivial
  unfold ThreadsWorld.Advances ThreadsWorld.step
  simp only [here]
  refine ⟨_, _, power, content, rfl, rfl, stands fun addr isOwned => ?_⟩
  cases call with
  | add element =>
    simp only at isOwned
    split_ifs at isOwned with refused
    · refine (Finset.mem_insert.mp isOwned).symm.imp_right fun same => ?_
      rw [here, HtablePc.mine, if_pos refused, same]
      rfl
    · exact .inl isOwned
  | _ => exact .inl isOwned

/-- A thread in a call waits for a lock that somebody has, or its statement succeeds and keeps the
table intact. -/
theorem ThreadsInvariant.advances (invariant : ThreadsInvariant kind world key power content maps)
    (few : world.state.htable.elementCount < 2 ^ 40) (busy : world.pc thread ≠ .idle) :
    world.Waits thread ∨ world.Advances kind key content maps thread := by
  cases here : world.pc thread with
  | idle => exact absurd here busy
  | loadCount element =>
    right
    unfold ThreadsWorld.Advances ThreadsWorld.step
    simp only [here]
    exact ⟨_, _, power, content, rfl, rfl, invariant.stays (by rw [here]; rfl)
      (fun _ => by rw [here]; rfl) (by rw [here]; rfl) (fun _ isMine => by rwa [here]) trivial⟩
  | loadThres element elementCount => exact .inr (invariant.tests here)
  | tryWrlock element => exact .inr (invariant.tries here)
  | resize element =>
    obtain ⟨state, newPower, lists, call, kept⟩ := invariant.resizes here
    refine .inr ⟨_, none, newPower, { content with lists }, ?_, rfl, kept⟩
    rw [ThreadsWorld.step, here]
    simp only [call, Option.bind_eq_bind, Option.bind_some]
    rfl
  | unlockResized element => exact .inr (invariant.endsResize here)
  | rdlock call => exact invariant.enters here
  | hash call => exact .inr (invariant.hashes here)
  | lockBucket call bucketIndex lockIndex => exact invariant.locks_ here
  | inBucket call bucketIndex lockIndex pc => exact .inr (invariant.statement few here)
  | copyStart =>
    right
    unfold ThreadsWorld.Advances ThreadsWorld.step
    simp only [here]
    split_ifs with nothing
    · have noBucket : world.state.htable.bucketCount ≠ 0 := by
        rw [invariant.of.bucketCount]
        exact (Nat.two_pow_pos power).ne'
      have noElement := nothing.resolve_left noBucket
      rw [invariant.counted] at noElement
      exact ⟨_, _, power, content, rfl, rfl, invariant.stays (by rw [here]; rfl)
        (fun _ => by rw [here]; rfl) (by rw [here]; rfl) (fun _ isMine => by cases isMine)
        (listedAll_empty invariant.of (invariant.current thread) (Nat.eq_zero_of_add_eq_zero_right noElement))⟩
    · refine ⟨_, _, power, content, rfl, rfl, invariant.stays (by rw [here]; rfl)
        (fun _ => by rw [here]; rfl) (by rw [here]; rfl) (fun _ isMine => by cases isMine) ?_⟩
      rw [HtablePc.Holds, Nat.zero_shiftLeft]
      exact listedBelow_zero
  | copyLock i listed => exact invariant.copyLocks here
  | copyBucket i j listed => exact .inr (invariant.copyEnters here)
  | copyNode i j iteratorNode listed => exact .inr (invariant.copies here)
  | copyUnlock i listed =>
    right
    unfold ThreadsWorld.Advances ThreadsWorld.step
    simp only [here]
    have holds := invariant.holds thread
    rw [here] at holds
    exact ⟨_, _, power, content, rfl, rfl, invariant.leavesBucket (by rw [here]; rfl)
      (fun _ => by rw [here]; rfl) (fun _ => rfl) (by rw [here]; rfl)
      (fun _ isMine => by cases isMine) holds.2⟩
  | unlockTable call answer =>
    right
    unfold ThreadsWorld.Advances ThreadsWorld.step
    simp only [here]
    have holds := invariant.holds thread
    rw [here] at holds
    refine ⟨_, _, power, content, rfl, rfl, invariant.leavesTable ?_ rfl (fun _ => by rw [here]; rfl)
      (by rw [here]; rfl) (fun _ isMine => by rwa [here]) ?_⟩
    · rw [here]
      exact Option.some_ne_none _
    · cases answer <;> exact holds
  | answering call answer => exact .inr (invariant.returns here)

/-- A call begins with a node of its own, or with a key. -/
theorem ThreadsInvariant.begins (invariant : ThreadsInvariant kind world key power content maps)
    (ready : world.pc thread = .idle) (callable : world.Callable kind call) :
    ThreadsInvariant kind (world.begin_ thread call) key power content
      (Function.update maps thread {content.map}) := by
  have starts {owned : Finset Addr} (isIdle : (ThreadsWorld.entry call).tableMode = none ∧
        (∀ lockIndex, (ThreadsWorld.entry call).lockMode lockIndex = none) ∧
        (ThreadsWorld.entry call).uncounted = 0)
      (mine : ∀ addr, (ThreadsWorld.entry call).mine = some addr → addr ∉ owned ∧ addr ∈ world.owned)
      (own : owned ⊆ world.owned)
      (holds : ∀ since, (ThreadsWorld.entry call).Holds kind key power world.state content since) :
      ThreadsInvariant kind ({ world with owned }.goto thread (ThreadsWorld.entry call)) key power
        content (Function.update maps thread {content.map}) := by
    have moved := invariant.moved (invariant.tableLock.same (by
        show (world.pc thread).tableMode = _
        rw [ready, isIdle.1]
        rfl))
      (invariant.sameBucketLocks fun lockIndex => by rw [ready, isIdle.2.1]; rfl)
      (by rw [ready, isIdle.2.2]; rfl)
      (fun addr isMine => (mine addr isMine).imp_right .inl) (fun _ isOwned => .inl (own isOwned))
      (holds _)
    rw [invariant.record_eq] at moved
    refine { moved with current := fun other => ?_, holds := fun other => ?_ }
    · by_cases same : other = thread
      · subst same
        rw [Function.update_self]
        exact Set.mem_singleton _
      · rw [Function.update_of_ne same]
        exact invariant.current other
    · by_cases same : other = thread
      · subst same
        simp only [ThreadsWorld.goto, Function.update_self]
        exact holds _
      · simp only [ThreadsWorld.goto, Function.update_of_ne same]
        exact invariant.holds other
  cases call with
  | add element =>
    refine starts ⟨rfl, fun _ => rfl, rfl⟩ (fun addr isMine => ?_) (Finset.erase_subset _ _)
      fun _ => trivial
    obtain rfl := Option.some.inj isMine
    exact ⟨Finset.notMem_erase _ _, callable⟩
  | remove wanted =>
    refine starts ⟨rfl, fun _ => rfl, rfl⟩ (fun _ isMine => by cases isMine) (Finset.Subset.refl _)
      fun _ => ?_
    rintro sought isSought
    obtain rfl := Option.some.inj isSought
    exact callable
  | get wanted refInc =>
    refine starts ⟨rfl, fun _ => rfl, rfl⟩ (fun _ isMine => by cases isMine) (Finset.Subset.refl _)
      fun _ => ?_
    rintro sought isSought
    obtain rfl := Option.some.inj isSought
    exact callable
  | copyAllKeys =>
    exact starts ⟨rfl, fun _ => rfl, rfl⟩ (fun _ isMine => by cases isMine) (Finset.Subset.refl _)
      fun _ _ isSought => by cases isSought

omit [DecidableEq Thread] in
/-- A new node is nobody's yet. -/
theorem ThreadsInvariant.creates (invariant : ThreadsInvariant kind world key power content maps)
    {node : Node} (dead : world.state.memory element = none) (isValid : kind.Valid node.key) :
    ThreadsInvariant kind (world.create element node) (Function.update key element node.key) power
      content maps := by
  have unused : WorldInvariant kind ⟨world.state.withElementCount content.members.card, ∅⟩ content.map
      key content.members power content.lists :=
    ⟨invariant.of.table, invariant.of.holds, fun _ isOwned => isOwned.elim,
      fun _ isOwned => isOwned.elim⟩
  have made := @WorldInvariant.create _ _ _ _ _ _ _ element _ unused dead isValid
  have memberLive (addr : Addr) (isMember : addr ∈ content.members) : addr ≠ element := by
    rintro rfl
    obtain ⟨front, back, split⟩ := List.append_of_mem
      ((invariant.of.table.placed _ (bucketOf_lt power _) addr).mpr ⟨isMember, rfl⟩)
    obtain ⟨node, live, -⟩ := invariant.of.nodeAt (bucketOf_lt power _) split
    rw [dead] at live
    cases live
  have looseLive (addr : Addr) (isLoose : world.Loose addr) : addr ≠ element := by
    rintro rfl
    obtain ⟨-, node, live, -⟩ := invariant.loose addr isLoose
    rw [dead] at live
    cases live
  refine ⟨⟨made.table, made.holds⟩, invariant.counted, invariant.tableLock, invariant.bucketLocks,
    fun addr isLoose => ?_, invariant.apart, fun thread addr isMine => ?_, invariant.current,
    fun thread => ?_⟩
  · by_cases isNew : addr = element
    · subst isNew
      refine ⟨fun isMember => memberLive addr isMember rfl, node, Function.update_self .., ?_⟩
      rw [Function.update_self]
      exact ⟨rfl, isValid⟩
    · have before : world.Loose addr := isLoose.imp_left fun isOwned =>
        (Finset.mem_insert.mp isOwned).resolve_left isNew
      obtain ⟨outside, other, live, otherKey, otherValid⟩ := invariant.loose addr before
      refine ⟨outside, other, (Function.update_of_ne isNew _ _).trans live, ?_⟩
      rw [Function.update_of_ne isNew]
      exact ⟨otherKey, otherValid⟩
  · rw [ThreadsWorld.create, Finset.mem_insert, not_or]
    exact ⟨looseLive addr (.inr ⟨thread, isMine⟩), invariant.given thread addr isMine⟩
  · refine (invariant.holds thread).keep invariant.of (Set.Subset.refl _) rfl rfl (fun _ _ => rfl)
      (fun addr reached => ?_) fun addr isMine => ?_
    · refine Function.update_of_ne ?_ _ _
      rcases reached with ⟨index, inside, listed⟩ | isMine
      · exact memberLive addr (invariant.of.member inside listed)
      · exact looseLive addr (.inr ⟨thread, isMine⟩)
    · have different := looseLive addr (.inr ⟨thread, isMine⟩)
      show (Function.update world.state.memory element _ addr).bind _ = _
      rw [Function.update_of_ne different]
      rfl

end Advances

/-! ### Every run -/

section Runs

/-- What the calls amounted to, in the order in which they committed. -/
def commits (trace : List (Thread × HtableAction)) : List TableEvent :=
  trace.filterMap fun (_, action) => action.event

theorem commits_append (one other : List (Thread × HtableAction)) :
    commits (one ++ other) = commits one ++ commits other := List.filterMap_append

theorem commits_toList (thread : Thread) (action : Option HtableAction) :
    commits (action.map fun action => (thread, action)).toList =
      (action.bind HtableAction.event).toList := by
  cases action with
  | none => rfl
  | some action => cases action <;> rfl

/-- What a call does to a map. -/
def TableEvent.apply (map : KeyMap) : TableEvent → KeyMap
  | .add element key true => map.insert key element
  | .remove key => map.erase key
  | _ => map

theorem MapStep.eq_apply {map next : KeyMap} {event : TableEvent} (step : MapStep map event next) :
    next = event.apply map := by
  cases step <;> rfl

theorem MapRun.eq_foldl {events : List TableEvent} {map : KeyMap} (run : MapRun events map) :
    map = events.foldl TableEvent.apply ∅ := by
  induction run with
  | nil => rfl
  | snoc _ step inductionHypothesis =>
    rw [List.foldl_append, ← inductionHypothesis]
    exact step.eq_apply

/-- A map that did what was observed. -/
theorem MapRun.observe {events : List TableEvent} {map next : KeyMap} {event : Option TableEvent}
    (run : MapRun events map) (step : EventStep map event next) :
    MapRun (events ++ event.toList) next := by
  cases event with
  | none =>
    obtain rfl : next = map := step
    rwa [Option.toList_none, List.append_nil]
  | some event => exact .snoc run step

/-- The map that the commits make. -/
def mapOf (trace : List (Thread × HtableAction)) : KeyMap :=
  (commits trace).foldl TableEvent.apply ∅

/-- The maps that the table stood for since the last call of a thread began. -/
def mapsSince (trace : List (Thread × HtableAction)) (thread : Thread) : Set KeyMap :=
  {map | ∃ older newer, trace = older ++ newer ∧ (∀ call, (thread, .call call) ∉ newer) ∧
    map = mapOf older}

theorem mapsSince_nil (thread : Thread) : mapsSince [] thread = {∅} := by
  ext map
  constructor
  · rintro ⟨older, newer, split, -, rfl⟩
    rw [List.nil_eq_append_iff] at split
    rw [split.1]
    rfl
  · rintro rfl
    exact ⟨[], [], rfl, fun _ => List.not_mem_nil, rfl⟩

theorem mapsSince_call (trace : List (Thread × HtableAction)) (thread : Thread) (call : HtableCall) :
    mapsSince (trace ++ [(thread, .call call)]) thread = {mapOf (trace ++ [(thread, .call call)])} := by
  ext map
  constructor
  · rintro ⟨older, newer, split, noCall, rfl⟩
    rcases List.eq_nil_or_concat' newer with rfl | ⟨newer, last, rfl⟩
    · rw [split, List.append_nil]
      rfl
    · rw [← List.append_assoc] at split
      obtain ⟨-, same⟩ := List.append_inj' split rfl
      exact absurd (same ▸ List.mem_append_right _ (List.mem_singleton_self _)) (noCall call)
  · rintro rfl
    exact ⟨_, [], (List.append_nil _).symm, fun _ => List.not_mem_nil, rfl⟩

theorem mapsSince_snoc {trace : List (Thread × HtableAction)} {thread : Thread}
    {item : Thread × HtableAction} (noCall : ∀ call, item ≠ (thread, .call call)) :
    mapsSince (trace ++ [item]) thread =
      insert (mapOf (trace ++ [item])) (mapsSince trace thread) := by
  ext map
  constructor
  · rintro ⟨older, newer, split, without, rfl⟩
    rcases List.eq_nil_or_concat' newer with rfl | ⟨newer, last, rfl⟩
    · rw [List.append_nil] at split
      exact .inl (by rw [split])
    · rw [← List.append_assoc] at split
      obtain ⟨front, -⟩ := List.append_inj' split rfl
      exact .inr ⟨older, newer, front, fun call isCall =>
        without call (List.mem_append_left _ isCall), rfl⟩
  · rintro (rfl | ⟨older, newer, rfl, without, rfl⟩)
    · exact ⟨_, [], (List.append_nil _).symm, fun _ => List.not_mem_nil, rfl⟩
    · refine ⟨older, newer ++ [item], List.append_assoc .., fun call isCall => ?_, rfl⟩
      rcases List.mem_append.mp isCall with isCall | isItem
      · exact without call isCall
      · exact noCall call (List.mem_singleton.mp isItem).symm

variable [Fintype Thread] [DecidableEq Thread] {kind : KeyKind} {start world : ThreadsWorld Thread}
  {key : Addr → Bytes} {power : Nat} {content : TableContent}
  {trace : List (Thread × HtableAction)}

/-- The invariant holds behind every run, and the table stands for the map that the commits make. -/
theorem ThreadsRun.invariant (initial : ThreadsInvariant kind start key power content (mapsSince []))
    (empty : content.map = ∅) (run : ThreadsRun kind start trace world) :
    ∃ key power content, MapRun (commits trace) content.map ∧
      ThreadsInvariant kind world key power content (mapsSince trace) := by
  induction run with
  | start => exact ⟨key, power, content, empty ▸ .nil, initial⟩
  | create element node _ dead isValid inductionHypothesis =>
    obtain ⟨key, power, content, mapRun, invariant⟩ := inductionHypothesis
    exact ⟨_, power, content, mapRun, invariant.creates dead isValid⟩
  | @call trace world thread call _ ready callable inductionHypothesis =>
    obtain ⟨key, power, content, mapRun, invariant⟩ := inductionHypothesis
    have sameCommits : commits (trace ++ [(thread, .call call)]) = commits trace := by
      rw [commits_append]
      exact List.append_nil _
    have isMap : mapOf (trace ++ [(thread, .call call)]) = content.map := by
      rw [mapOf, sameCommits, ← mapRun.eq_foldl]
    refine ⟨key, power, content, sameCommits.symm ▸ mapRun, ?_⟩
    have sameMaps : mapsSince (trace ++ [(thread, .call call)]) =
        Function.update (mapsSince trace) thread {content.map} := by
      funext other
      by_cases same : other = thread
      · subst same
        rw [Function.update_self, mapsSince_call, isMap]
      · rw [Function.update_of_ne same, mapsSince_snoc fun call isCall =>
          same (congrArg Prod.fst isCall).symm, isMap,
          Set.insert_eq_of_mem (invariant.current other)]
    rw [sameMaps]
    exact invariant.begins ready callable
  | @step trace world next action thread _ few taken inductionHypothesis =>
    obtain ⟨key, power, content, mapRun, invariant⟩ := inductionHypothesis
    have busy : world.pc thread ≠ .idle := fun idle => by
      rw [ThreadsWorld.step, idle] at taken
      cases taken
    have noCall := step_not_call taken
    rcases invariant.advances few busy with waits |
      ⟨next, action, newPower, result, call, observed, kept⟩
    · rw [waits.step_eq_none] at taken
      cases taken
    · obtain ⟨rfl, rfl⟩ := Prod.mk.inj (Option.some.inj (call.symm.trans taken))
      have mapRun' : MapRun (commits (trace ++
          (action.map fun action => (thread, action)).toList)) result.map := by
        rw [commits_append, commits_toList]
        exact mapRun.observe observed
      refine ⟨key, newPower, result, mapRun', ?_⟩
      have sameMaps : mapsSince (trace ++ (action.map fun action => (thread, action)).toList) =
          result.record (mapsSince trace) := by
        funext other
        cases action with
        | none =>
          have same : result.map = content.map := observed
          rw [Option.map_none, Option.toList_none, List.append_nil, TableContent.record, same,
            Set.insert_eq_of_mem (invariant.current other)]
        | some action =>
          rw [Option.map_some, Option.toList_some, mapsSince_snoc fun call isCall =>
            noCall call (congrArg some (congrArg Prod.snd isCall)), TableContent.record, mapOf]
          exact congrArg (insert · _) mapRun'.eq_foldl.symm
      rw [sameMaps]
      exact kept

omit [DecidableEq Thread] in
/-- A new table has no nodes, and nobody is in it. -/
theorem unusedTable_invariant {size expansion load locks : Nat} {htable : StripedHtable}
    (sizeRange : 1 ≤ size ∧ size ≤ 21) (expansionRange : 1 ≤ expansion ∧ expansion ≤ 12)
    (loadRange : 1 ≤ load ∧ load ≤ 255) (lockRange : locks ≤ size)
    (created : htableCreate size expansion load locks kind.cmpfn = some htable) :
    ThreadsInvariant kind (unusedTable htable : ThreadsWorld Thread) (fun _ => []) size
      ⟨∅, fun _ => [], ∅⟩ (mapsSince []) := by
  obtain ⟨table, holds, -, -⟩ := htableCreate_invariant sizeRange expansionRange loadRange lockRange
    created fun _ => none
  have noElement : htable.elementCount = 0 := table.rehashable.elementCount
  refine ⟨⟨?_, holds⟩, ?_, RwLock.mirrors_init, fun _ => RwLock.mirrors_init, fun addr isLoose => ?_,
    (fun _ _ _ isMine => by cases isMine), (fun _ _ isMine => by cases isMine), fun thread => ?_,
    fun _ => trivial⟩
  · have same : (unusedTable htable : ThreadsWorld Thread).state.withElementCount 0 =
        ⟨fun _ => none, htable⟩ := by
      rw [← noElement]
      rfl
    rw [Finset.card_empty, same]
    exact table
  · rw [Finset.card_empty, Nat.zero_add]
    exact noElement.trans (Finset.sum_eq_zero fun _ _ => rfl).symm
  · rcases isLoose with isOwned | ⟨_, isMine⟩
    · exact absurd isOwned (Finset.notMem_empty addr)
    · cases isMine
  · rw [mapsSince_nil]
    exact Set.mem_singleton _

/-- What the invariant says of a table that was created within the ranges of the configuration. -/
theorem ThreadsRun.reached {size expansion load locks : Nat} {htable : StripedHtable}
    (sizeRange : 1 ≤ size ∧ size ≤ 21) (expansionRange : 1 ≤ expansion ∧ expansion ≤ 12)
    (loadRange : 1 ≤ load ∧ load ≤ 255) (lockRange : locks ≤ size)
    (created : htableCreate size expansion load locks kind.cmpfn = some htable)
    (run : ThreadsRun kind (unusedTable htable) trace world) :
    ∃ key power content, MapRun (commits trace) content.map ∧
      ThreadsInvariant kind world key power content (mapsSince trace) :=
  run.invariant (unusedTable_invariant sizeRange expansionRange loadRange lockRange created) rfl

/-! ### Schedules -/

/-- The threads take their steps in an order. -/
def ThreadsWorld.schedule (world : ThreadsWorld Thread) :
    List Thread → Option (List (Thread × HtableAction) × ThreadsWorld Thread)
  | [] => some ([], world)
  | thread :: threads => do
    guard (world.state.htable.elementCount < 2 ^ 40)
    let (next, action) ← world.step thread
    let (trace, last) ← next.schedule threads
    return ((action.map fun action => (thread, action)).toList ++ trace, last)

omit [Fintype Thread] in
theorem ThreadsRun.schedule {threads : List Thread} {more : List (Thread × HtableAction)}
    {last : ThreadsWorld Thread} (run : ThreadsRun kind start trace world)
    (scheduled : world.schedule threads = some (more, last)) :
    ThreadsRun kind start (trace ++ more) last := by
  induction threads generalizing trace world more with
  | nil =>
    obtain ⟨rfl, rfl⟩ := Prod.mk.inj (Option.some.inj scheduled)
    rwa [List.append_nil]
  | cons thread threads inductionHypothesis =>
    simp only [ThreadsWorld.schedule, Option.bind_eq_bind, Option.bind_eq_some_iff,
      Option.guard_eq_some'] at scheduled
    obtain ⟨_, few, ⟨next, action⟩, taken, ⟨rest, end_⟩, others, scheduled⟩ := scheduled
    cases scheduled
    rw [← List.append_assoc]
    exact inductionHypothesis (.step thread run few taken) others

end Runs

/-- One thread has made a node, and is about to add it while another one is about to look for it. -/
def addedAndSought : ThreadsWorld Bool :=
  (((unusedTable smallTable).create 1 ⟨[97], none, 1⟩).begin_ false (.add 1)).begin_ true
    (.get [97] true)

theorem addedAndSought_run :
    ThreadsRun .usernames (unusedTable smallTable)
      [(false, .call (.add 1)), (true, .call (.get [97] true))] addedAndSought := by
  have unused : ThreadsRun .usernames (unusedTable smallTable : ThreadsWorld Bool) [] _ := .start
  have made := unused.create 1 ⟨[97], none, 1⟩ rfl ⟨by decide, by simp, by decide⟩
  have adds := made.call false (.add 1) rfl (Finset.mem_insert_self ..)
  exact adds.call true (.get [97] true) rfl ⟨by decide, by simp, by decide⟩

end Lwmsg
