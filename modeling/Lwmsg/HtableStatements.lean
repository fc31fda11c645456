/-
This file says what each statement does that a thread runs while it has the lock of a bucket.

The table is described by its nodes, its lists and the map it stands for. A statement only
changes the list of its own bucket, it needs no other node than those of that list and its own,
and it finds what the statements before it left behind: how far the search has come, what the
new node points to, and which node was taken out. No statement fails.
-/

import Lwmsg.HtableThreads

namespace Lwmsg

open Bytes Pointers SinglyLinked

/-! ### Writes -/

section Writes

variable {state next : HtableState} {addr : Addr} {node : Node}

namespace HtableState

@[simp] theorem withElementCount_memory (state : HtableState) (elementCount : Nat) :
    (state.withElementCount elementCount).memory = state.memory := rfl

@[simp] theorem withElementCount_elementCount (state : HtableState) (elementCount : Nat) :
    (state.withElementCount elementCount).htable.elementCount = elementCount := rfl

@[simp] theorem withElementCount_twice (state : HtableState) (one other : Nat) :
    (state.withElementCount one).withElementCount other = state.withElementCount other := rfl

@[simp] theorem withElementCount_compare (state : HtableState) (elementCount : Nat) (key : Bytes)
    (node : Node) : (state.withElementCount elementCount).compare key node = state.compare key node :=
  rfl

theorem setNext_of_live (live : state.memory addr = some node) (target : Option Addr) :
    state.setNext addr target = some { state with
      memory := Function.update state.memory addr (some { node with next := target }) } := by
  rw [setNext, store_of_live live]
  rfl

/-- Writes of links do not read how many elements were counted. -/
theorem setLink_withElementCount (state : HtableState) (elementCount index : Nat)
    (prev target : Option Addr) :
    (state.withElementCount elementCount).setLink index prev target =
      (state.setLink index prev target).map fun next => next.withElementCount elementCount := by
  cases prev with
  | none => rfl
  | some prev =>
    simp only [setLink, setNext, withElementCount_memory]
    cases store state.memory (some prev) fun node => { node with next := target } <;> rfl

/-- A link is written in the node in front only. -/
theorem setLink_memory {index : Nat} {prev target : Option Addr}
    (call : state.setLink index prev target = some next) (different : prev ≠ some addr) :
    next.memory addr = state.memory addr := by
  cases prev with
  | none =>
    cases call
    rfl
  | some prev =>
    cases live : state.memory prev with
    | none => simp [setLink, setNext, store, live] at call
    | some node =>
      rw [setLink, setNext_of_live live] at call
      cases call
      exact Function.update_of_ne (fun same => different (congrArg some same.symm)) _ _

end HtableState

/-- The links once a node was written. -/
theorem linkOf_update (memory : Memory Node) (addr : Addr) (node : Node) :
    linkOf (Function.update memory addr (some node)) =
      Function.update (linkOf memory) addr node.next := by
  funext other
  by_cases same : other = addr
  · subst same
    simp [linkOf]
  · simp [linkOf, same]

/-- The counter is not among what `Relinked` lets change. -/
theorem Relinked.withElementCount (relinked : Relinked state next) (elementCount : Nat) :
    Relinked (state.withElementCount elementCount) (next.withElementCount elementCount) where
  nodes := relinked.nodes
  table := by
    rw [HtableState.withElementCount, HtableState.withElementCount, relinked.table]

end Writes

/-! ### What a table holds -/

/-- The nodes of a table, the lists in its buckets and the map it stands for. -/
structure TableContent where
  members : Finset Addr
  lists : Nat → List Addr
  map : KeyMap

/-- A node is live and has its key. -/
def LiveKey (kind : KeyKind) (key : Addr → Bytes) (memory : Memory Node) (addr : Addr) : Prop :=
  ∃ node, memory addr = some node ∧ node.key = key addr ∧ kind.Valid (key addr)

/-- The table holds a content, whatever it has counted. -/
structure TableContent.Of (content : TableContent) (kind : KeyKind) (key : Addr → Bytes)
    (power : Nat) (state : HtableState) : Prop where
  table : TableInvariant kind.cmpfn kind.Valid key content.members power
    (state.withElementCount content.members.card) content.lists
  holds : HoldsMembers key content.members content.map

namespace TableContent.Of

variable {content : TableContent} {kind : KeyKind} {key : Addr → Bytes} {power index : Nat}
  {state next : HtableState} {addr element : Addr} {wanted : Bytes} {front back : List Addr}
  {node : Node}

theorem bucketCount (of : content.Of kind key power state) : state.htable.bucketCount = 2 ^ power :=
  of.table.rehashable.bucketCount

theorem head (of : content.Of kind key power state) (inside : index < 2 ^ power) :
    state.htable.buckets index = (content.lists index).head? :=
  of.table.rehashable.buckets.head_eq (of.bucketCount ▸ inside)

theorem member (of : content.Of kind key power state) (inside : index < 2 ^ power)
    (listed : addr ∈ content.lists index) : addr ∈ content.members :=
  of.table.rehashable.covered index inside addr listed

/-- A node of a list is live, and points to what is behind it. -/
theorem nodeAt (of : content.Of kind key power state) (inside : index < 2 ^ power)
    (split : content.lists index = front ++ addr :: back) :
    ∃ node, state.memory addr = some node ∧ node.key = key addr ∧ kind.Valid (key addr) ∧
      node.next = back.head? := by
  have buckets := of.table.rehashable.buckets
  obtain ⟨node, live, nodeKey, nodeValid⟩ := buckets.live index (of.bucketCount ▸ inside) addr (by
    rw [split]
    simp)
  have path := buckets.chains.path index (of.bucketCount ▸ inside)
  rw [split] at path
  refine ⟨node, live, nodeKey, nodeValid, ?_⟩
  rw [← path.link_eq, linkOf]
  exact (congrArg (Option.bind · Node.next) live).symm

theorem compare_zero (of : content.Of kind key power state) (isValid : kind.Valid wanted)
    (nodeValid : kind.Valid node.key) : state.compare wanted node = 0 ↔ wanted = node.key := by
  have isCmpfn : state.htable.cmpfn = kind.cmpfn := of.table.rehashable.isCmpfn
  rw [HtableState.compare, isCmpfn]
  exact kind.order.zero_iff isValid nodeValid

theorem compare_neg (of : content.Of kind key power state) (isValid : kind.Valid wanted)
    (nodeValid : kind.Valid node.key) :
    state.compare wanted node < 0 ↔ rank wanted < rank node.key := by
  have isCmpfn : state.htable.cmpfn = kind.cmpfn := of.table.rehashable.isCmpfn
  rw [HtableState.compare, isCmpfn]
  exact kind.order.neg_iff isValid nodeValid

/-- A key that no node of its bucket has is not in the map. -/
theorem absent (of : content.Of kind key power state)
    (noKey : ∀ other ∈ content.lists (bucketOf (2 ^ power) wanted), key other ≠ wanted) :
    wanted ∉ content.map := by
  rw [of.holds.mem_iff]
  rintro ⟨addr, isMember, rfl⟩
  exact noKey addr ((of.table.placed _ (bucketOf_lt power _) addr).mpr ⟨isMember, rfl⟩) rfl

/-- A node of a bucket is what the map has for its key. -/
theorem lookup (of : content.Of kind key power state) (inside : index < 2 ^ power)
    (listed : addr ∈ content.lists index) : content.map.lookup (key addr) = some addr :=
  (of.holds (key addr) addr).mpr ⟨of.member inside listed, rfl⟩

/-- Only the keys and links of its nodes, the bucket heads and the sizes matter. -/
theorem congr (of : content.Of kind key power state)
    (table : ∃ elementCount, next.htable = { state.htable with elementCount })
    (same : ∀ addr ∈ content.members, (next.memory addr).map (fun node => (node.key, node.next)) =
      (state.memory addr).map fun node => (node.key, node.next)) :
    content.Of kind key power next := by
  obtain ⟨elementCount, table⟩ := table
  refine ⟨of.table.congr ?_ same, of.holds⟩
  rw [HtableState.withElementCount, table]
  rfl

/-- A node that is not in the table may point anywhere. -/
theorem pointed (of : content.Of kind key power state) (outside : element ∉ content.members)
    (target : Option Addr) :
    content.Of kind key power { state with
      memory := Function.update state.memory element (some { node with next := target }) } := by
  refine of.congr ⟨_, rfl⟩ fun addr isMember => ?_
  have different : addr ≠ element := fun same => outside (same ▸ isMember)
  show (Function.update state.memory element _ addr).map _ = _
  rw [Function.update_of_ne different]

/-- A node that points to what is behind its place is linked in. -/
theorem linked (of : content.Of kind key power state) (outside : element ∉ content.members)
    (live : LiveKey kind key state.memory element)
    (split : content.lists (bucketOf (2 ^ power) (key element)) = front ++ back)
    (points : linkOf state.memory element = back.head?)
    (above : ∀ other ∈ front, rank (key other) < rank (key element))
    (below : ∀ other ∈ back.head?, rank (key element) < rank (key other))
    (few : content.members.card < 2 ^ 40) :
    key element ∉ content.map ∧ ∃ next,
      state.setLink (bucketOf (2 ^ power) (key element)) front.getLast? (some element) = some next ∧
      Relinked state next ∧
      TableContent.Of
        { members := insert element content.members
          lists := Function.update content.lists (bucketOf (2 ^ power) (key element))
            (front ++ element :: back)
          map := content.map.insert (key element) element } kind key power next := by
  obtain ⟨node, isLive, nodeKey, nodeValid⟩ := live
  have inside := bucketOf_lt power (key element)
  have buckets := of.table.rehashable.buckets
  have bucketInside : bucketOf (2 ^ power) (key element) < state.htable.bucketCount :=
    of.bucketCount ▸ inside
  have noKey := of.table.absent split above below
  obtain ⟨next, call, links, heads, relinked⟩ :=
    @setLink_effect state (bucketOf (2 ^ power) (key element)) front.getLast?
      (fun addr last => (buckets.lastLive bucketInside split addr last)) (some element)
  have fresh : ∀ another < state.htable.bucketCount, element ∉ content.lists another :=
    fun another anotherInside listed => outside (of.member (of.bucketCount ▸ anotherInside) listed)
  have inserted := @Buckets.inserted _ _ _ (next.withElementCount content.members.card) _ _ _ _ _ _
    buckets (relinked.withElementCount _) bucketInside split fresh isLive nodeKey nodeValid (by
      show linkOf next.memory = setLink (Function.update (linkOf state.memory) element _) _ _
      rw [links, ← points, Function.update_eq_self]) heads
  have cardIs : (insert element content.members).card = content.members.card + 1 :=
    Finset.card_insert_of_notMem outside
  have countedRelinked : Relinked (counted (state.withElementCount content.members.card))
      (next.withElementCount (content.members.card + 1)) := by
    have isCounted : counted (state.withElementCount content.members.card) =
        state.withElementCount (content.members.card + 1) := by
      rw [counted, HtableState.withElementCount_elementCount, atomicInc_of_lt (by omega)]
      rfl
    rw [isCounted]
    exact relinked.withElementCount _
  refine ⟨fun present => ?_, next, call, relinked, ?_, of.holds.insert noKey⟩
  · obtain ⟨addr, isMember, same⟩ := of.holds.mem_iff.mp present
    exact noKey addr isMember same
  · rw [cardIs]
    exact of.table.linked countedRelinked outside few noKey split above below
      ⟨inserted.chains, inserted.live⟩

/-- A node is taken out of its list. It still points to what was behind it. -/
theorem unlinked (of : content.Of kind key power state) (inside : index < 2 ^ power)
    (split : content.lists index = front ++ addr :: back) :
    ∃ next, state.setLink index front.getLast? (linkOf state.memory addr) = some next ∧
      Relinked state next ∧
      TableContent.Of
        { members := content.members.erase addr
          lists := Function.update content.lists index (front ++ back)
          map := content.map.erase (key addr) } kind key power next := by
  have isMember : addr ∈ content.members := of.member inside (by
    rw [split]
    simp)
  obtain ⟨first, second, firstCall, secondCall, _, cut⟩ := of.table.cutOff inside split isMember
  rw [HtableState.setLink_withElementCount, Option.map_eq_some_iff] at firstCall
  obtain ⟨next, call, rfl⟩ := firstCall
  have relinked : Relinked state next := by
    obtain ⟨next', call', _, _, relinked⟩ :=
      @setLink_effect state index front.getLast?
        (fun other last => of.table.rehashable.buckets.lastLive (of.bucketCount ▸ inside) split other
          last) (linkOf state.memory addr)
    obtain rfl := Option.some.inj (call.symm.trans call')
    exact relinked
  refine ⟨next, call, relinked, ?_, of.holds.erase isMember of.table.rehashable.distinctKeys⟩
  obtain ⟨node, live, _⟩ := of.nodeAt inside split
  obtain ⟨still, stillLive, _⟩ := relinked.live live
  rw [@HtableState.setNext_of_live (next.withElementCount content.members.card) _ _ stillLive]
    at secondCall
  obtain rfl := Option.some.inj secondCall
  refine cut.congr ?_ fun other otherMember => ?_
  · have positive : 0 < content.members.card := Finset.card_pos.mpr ⟨addr, isMember⟩
    rw [Finset.card_erase_of_mem isMember, ← @atomicDec_of_pos 64 _ positive]
    rfl
  · show (next.memory other).map _ = (Function.update next.memory addr _ other).map _
    rw [Function.update_of_ne (Finset.ne_of_mem_erase otherMember)]

end TableContent.Of

/-! ### What a statement relies on -/

/-- The node a call brings along. -/
def HtableCall.element : HtableCall → Option Addr
  | .add element => some element
  | _ => none

/-- The node that only its thread can reach, before it is linked in or after it was taken out. -/
def BucketPc.mine (call : HtableCall) : BucketPc → Option Addr
  | .clearAgain => none
  | .cut target | .put target => some target
  | .unlock answer => if answer = .added false then call.element else none
  | _ => call.element

/-- By how much the counter is ahead of the table. -/
def BucketPc.uncounted : BucketPc → Nat
  | .point .. | .link .. | .cut _ | .put _ | .uncount => 1
  | _ => 0

/-- A search came from the head of a list to some place, past nodes that it could tell from the
one it is for. -/
def Passed (list : List Addr) (prev current : Option Addr) (told : Addr → Prop) : Prop :=
  ∃ front back, list = front ++ back ∧ prev = front.getLast? ∧ current = back.head? ∧
    ∀ other ∈ front, told other

/-- The place of a key in a list: behind the smaller ones and in front of a greater one. -/
def PlaceOf (key : Addr → Bytes) (wanted : Bytes) (list : List Addr) (prev comparator : Option Addr) :
    Prop :=
  Passed list prev comparator (fun other => rank (key other) < rank wanted) ∧
    ∀ other ∈ comparator, rank wanted < rank (key other)

/-- What a statement relies on, with the keys and links of the nodes, the list of the bucket and the
key that the call is about. -/
def BucketPc.Holds (key : Addr → Bytes) (link : Addr → Option Addr) (list : List Addr)
    (wanted : Bytes) : HtableCall → BucketPc → Prop
  | .add element, .clear => key element = wanted
  | .add element, .readBucket => key element = wanted ∧ link element = none
  | .add element, .compare prev comparator =>
    key element = wanted ∧ link element = none ∧
      Passed list prev (some comparator) fun other => rank (key other) < rank wanted
  | .add element, .count prev comparator =>
    key element = wanted ∧ link element = none ∧ PlaceOf key wanted list prev comparator
  | .add element, .point prev comparator =>
    key element = wanted ∧ PlaceOf key wanted list prev (some comparator)
  | .add element, .link prev comparator =>
    key element = wanted ∧ link element = comparator ∧ PlaceOf key wanted list prev comparator
  | .add element, .clearAgain => ∃ front, list = front ++ [element]
  | .remove sought, .readBucket | .get sought _, .readBucket => sought = wanted
  | .remove sought, .seek prev current | .get sought _, .seek prev current =>
    sought = wanted ∧ Passed list prev current fun other => key other ≠ wanted
  | .remove sought, .unlink prev target =>
    sought = wanted ∧ key target = wanted ∧
      Passed list prev (some target) fun other => key other ≠ wanted
  | .get sought _, .reference target => sought = wanted ∧ target ∈ list ∧ key target = wanted
  | .remove _, .cut _ | .remove _, .put _ | .remove _, .uncount => True
  | _, .unlock (.added _) | _, .unlock .removed | _, .unlock (.found _) => True
  | _, _ => False

/-- What is observed of a statement is what it does to the map. -/
def EventStep (map : KeyMap) : Option TableEvent → KeyMap → Prop
  | none, next => next = map
  | some event, next => MapStep map event next

/-- A statement is done: the table holds what it should, other buckets and the nodes of others are as
before, and the statement that follows finds what it relies on. -/
structure BucketStepped (kind : KeyKind) (key : Addr → Bytes) (power index : Nat) (wanted : Bytes)
    (call : HtableCall) (state : HtableState) (content : TableContent) (pc : BucketPc)
    (next : HtableState) (result : TableContent) (after : BucketPc) (event : Option TableEvent) :
    Prop where
  of : result.Of kind key power next
  observed : EventStep content.map event result.map
  counted : next.htable.elementCount + content.members.card + pc.uncounted =
    state.htable.elementCount + result.members.card + after.uncounted
  table : ∃ buckets elementCount, next.htable = { state.htable with buckets, elementCount }
  others : ∀ another, another ≠ index → result.lists another = content.lists another
  reads : call.mode = .read → result = content
  frame : ∀ addr ∉ content.members, pc.mine call ≠ some addr →
    next.memory addr = state.memory addr
  gained : ∀ addr ∈ result.members, addr ∈ content.members ∨ pc.mine call = some addr
  mine : ∀ addr, after.mine call = some addr →
    (pc.mine call = some addr ∨ addr ∈ content.members) ∧ addr ∉ result.members ∧
      LiveKey kind key next.memory addr
  holds : after.Holds key (linkOf next.memory) (result.lists index) wanted call

/-! ### The statements -/

section Statements

variable {kind : KeyKind} {key : Addr → Bytes} {power : Nat} {wanted : Bytes} {call : HtableCall}
  {state : HtableState} {content : TableContent} {pc after : BucketPc} {event : Option TableEvent}
  {list : List Addr} {prev current : Option Addr} {told : Addr → Prop} {addr element : Addr}

/-- A search stands in front of a node of the list, and may go on behind it where it can tell it
from the one it is for. -/
theorem Passed.split (passed : Passed list prev (some addr) told) :
    ∃ front back, list = front ++ addr :: back ∧ prev = front.getLast? ∧
      (∀ other ∈ front, told other) ∧ (told addr → Passed list (some addr) back.head? told) := by
  obtain ⟨front, back, split, last, head, allTold⟩ := passed
  cases back with
  | nil => cases head
  | cons first back =>
    obtain rfl := Option.some.inj head
    refine ⟨front, back, split, last, allTold, fun tells =>
      ⟨front ++ [addr], back, by simp [split], by simp, rfl, ?_⟩⟩
    intro other listed
    rcases List.mem_append.mp listed with inFront | isLast
    · exact allTold other inFront
    · exact List.mem_singleton.mp isLast ▸ tells

/-- A search that came to the end went past all nodes. -/
theorem Passed.ended (passed : Passed list prev none told) : ∀ other ∈ list, told other := by
  obtain ⟨front, back, split, -, head, allTold⟩ := passed
  obtain rfl : back = [] := List.head?_eq_none_iff.mp head.symm
  rwa [split, List.append_nil]

/-- A search begins at the head of a bucket. -/
theorem TableContent.Of.passed (of : content.Of kind key power state) {index : Nat}
    (inside : index < 2 ^ power) :
    Passed (content.lists index) none (state.htable.buckets index) told :=
  ⟨[], content.lists index, rfl, rfl, of.head inside, fun _ listed => absurd listed List.not_mem_nil⟩

/-- A statement that only looks at the table. -/
theorem BucketStepped.look (of : content.Of kind key power state)
    (loose : ∀ addr, pc.mine call = some addr →
      addr ∉ content.members ∧ LiveKey kind key state.memory addr)
    (observed : EventStep content.map event content.map) (uncounted : pc.uncounted = after.uncounted)
    (mine : ∀ addr, after.mine call = some addr → pc.mine call = some addr)
    (holds : after.Holds key (linkOf state.memory)
      (content.lists (bucketOf (2 ^ power) wanted)) wanted call) :
    BucketStepped kind key power (bucketOf (2 ^ power) wanted) wanted call state content pc state
      content after event where
  of := of
  observed := observed
  counted := by rw [uncounted]
  table := ⟨_, _, rfl⟩
  others _ _ := rfl
  reads _ := rfl
  frame _ _ _ := rfl
  gained _ isMember := .inl isMember
  mine addr isMine := ⟨.inl (mine addr isMine), loose addr (mine addr isMine)⟩
  holds := holds

/-- A write to the link of the thread's own node. -/
theorem BucketStepped.point {target : Option Addr} {node : Node}
    (of : content.Of kind key power state) (isMine : pc.mine call = some addr)
    (outside : addr ∉ content.members) (live : state.memory addr = some node)
    (nodeKey : node.key = key addr) (nodeValid : kind.Valid (key addr))
    (uncounted : pc.uncounted = after.uncounted) (still : after.mine call = some addr)
    (holds : after.Holds key (Function.update (linkOf state.memory) addr target)
      (content.lists (bucketOf (2 ^ power) wanted)) wanted call) :
    BucketStepped kind key power (bucketOf (2 ^ power) wanted) wanted call state content pc
      { state with
        memory := Function.update state.memory addr (some { node with next := target }) }
      content after none where
  of := of.pointed outside target
  observed := rfl
  counted := by rw [uncounted]
  table := ⟨_, _, rfl⟩
  others _ _ := rfl
  reads _ := rfl
  frame other _ different := by
    refine Function.update_of_ne ?_ _ _
    rintro rfl
    exact different isMine
  gained _ isMember := .inl isMember
  mine other isOther := by
    obtain rfl := Option.some.inj (still.symm.trans isOther)
    exact ⟨.inl isMine, outside, _, Function.update_self .., nodeKey, nodeValid⟩
  holds := by
    rw [linkOf_update]
    exact holds

/-- A statement that counts elements. -/
theorem BucketStepped.count {elementCount : Nat} (of : content.Of kind key power state)
    (loose : ∀ addr, pc.mine call = some addr →
      addr ∉ content.members ∧ LiveKey kind key state.memory addr)
    (counted : elementCount + pc.uncounted = state.htable.elementCount + after.uncounted)
    (mine : ∀ addr, after.mine call = some addr → pc.mine call = some addr)
    (holds : after.Holds key (linkOf state.memory)
      (content.lists (bucketOf (2 ^ power) wanted)) wanted call) :
    BucketStepped kind key power (bucketOf (2 ^ power) wanted) wanted call state content pc
      (state.withElementCount elementCount) content after none where
  of := of.congr ⟨_, rfl⟩ fun _ _ => rfl
  observed := rfl
  counted := by
    rw [HtableState.withElementCount_elementCount]
    omega
  table := ⟨_, _, rfl⟩
  others _ _ := rfl
  reads _ := rfl
  frame _ _ _ := rfl
  gained _ isMember := .inl isMember
  mine addr isMine := ⟨.inl (mine addr isMine), loose addr (mine addr isMine)⟩
  holds := holds

/-- One turn of the loop of `htable_add`. -/
theorem addStep_compare {comparator : Addr} (of : content.Of kind key power state)
    (isValid : kind.Valid wanted)
    (loose : ∀ addr, BucketPc.mine (.add element) (.compare prev comparator) = some addr →
      addr ∉ content.members ∧ LiveKey kind key state.memory addr)
    (holds : BucketPc.Holds key (linkOf state.memory)
      (content.lists (bucketOf (2 ^ power) wanted)) wanted (.add element)
      (.compare prev comparator)) :
    ∃ next result after event,
      addStep state element (bucketOf (2 ^ power) wanted) (.compare prev comparator) =
        some (next, after, event) ∧
      BucketStepped kind key power (bucketOf (2 ^ power) wanted) wanted (.add element) state content
        (.compare prev comparator) next result after event := by
  have inside := bucketOf_lt power wanted
  obtain ⟨keyIs, nowhere, passed⟩ := holds
  obtain ⟨-, node, live, nodeKey, -⟩ := loose element rfl
  obtain ⟨front, back, split, -, -, further⟩ := passed.split
  obtain ⟨other, otherLive, otherKey, otherValid, otherNext⟩ := of.nodeAt inside split
  have zero := of.compare_zero isValid (otherKey.symm ▸ otherValid)
  have negative := of.compare_neg isValid (otherKey.symm ▸ otherValid)
  rw [otherKey] at zero negative
  have nodeWanted : node.key = wanted := nodeKey.trans keyIs
  simp only [addStep, load_some, live, otherLive, Option.bind_eq_bind, Option.bind_some,
    nodeWanted, zero, negative]
  by_cases same : wanted = key comparator
  · rw [if_pos same]
    refine ⟨state, content, _, _, rfl, .look of loose ?_ rfl (fun _ isMine => isMine) trivial⟩
    refine .duplicate element ?_
    rw [same, of.holds.mem_iff]
    exact ⟨comparator, of.member inside (by rw [split]; simp), rfl⟩
  · rw [if_neg same]
    by_cases before : rank wanted < rank (key comparator)
    · rw [if_pos before]
      refine ⟨state, content, _, _, rfl, .look of loose rfl rfl (fun _ isMine => isMine)
        ⟨keyIs, nowhere, passed, ?_⟩⟩
      rintro other isComparator
      obtain rfl := Option.some.inj isComparator
      exact before
    · rw [if_neg before]
      have behind : rank (key comparator) < rank wanted :=
        lt_of_le_of_ne (not_lt.mp before) fun equal => same (rank_injective equal).symm
      have further := further behind
      rw [← otherNext] at further
      cases next : other.next with
      | some next =>
        rw [next] at further
        exact ⟨state, content, _, _, rfl, .look of loose rfl rfl (fun _ isMine => isMine)
          ⟨keyIs, nowhere, further⟩⟩
      | none =>
        rw [next] at further
        exact ⟨state, content, _, _, rfl, .look of loose rfl rfl (fun _ isMine => isMine)
          ⟨keyIs, nowhere, further, fun _ isComparator => by cases isComparator⟩⟩

/-- The write that makes a new node visible. -/
theorem addStep_link {comparator : Option Addr} (of : content.Of kind key power state)
    (few : content.members.card < 2 ^ 40) (outside : element ∉ content.members)
    (live : LiveKey kind key state.memory element)
    (holds : BucketPc.Holds key (linkOf state.memory)
      (content.lists (bucketOf (2 ^ power) wanted)) wanted (.add element)
      (.link prev comparator)) :
    ∃ next result after event,
      addStep state element (bucketOf (2 ^ power) wanted) (.link prev comparator) =
        some (next, after, event) ∧
      BucketStepped kind key power (bucketOf (2 ^ power) wanted) wanted (.add element) state content
        (.link prev comparator) next result after event := by
  have inside := bucketOf_lt power wanted
  obtain ⟨rfl, points, ⟨front, back, split, rfl, rfl, above⟩, below⟩ := holds
  obtain ⟨absent, next, call, relinked, linked⟩ :=
    of.linked outside live split points above below few
  obtain ⟨node, isLive, nodeKey, -⟩ := live
  simp only [addStep, load_some, isLive, call, Option.bind_eq_bind, Option.bind_some, nodeKey]
  refine ⟨next, _, _, _, rfl, linked, .insert element absent, ?_, ?_, fun another different =>
    Function.update_of_ne different _ _, (fun isRead => by cases isRead),
    fun addr notMember _ => ?_, fun addr isMember => ?_, fun addr isMine => ?_, ?_⟩
  · have cardIs : (insert element content.members).card = content.members.card + 1 :=
      Finset.card_insert_of_notMem outside
    rw [relinked.elementCount, cardIs]
    split_ifs <;> exact Nat.add_assoc ..
  · exact ⟨_, state.htable.elementCount, relinked.table⟩
  · refine HtableState.setLink_memory call fun last => notMember (of.member inside ?_)
    rw [split]
    exact List.mem_append_left _ (List.mem_of_getLast? last)
  · exact (Finset.mem_insert.mp isMember).elim (fun same => .inr (congrArg some same.symm)) .inl
  · split_ifs at isMine <;> cases isMine
  · split_ifs with ended
    · refine ⟨front, ?_⟩
      show Function.update content.lists _ _ _ = _
      rw [Function.update_self, List.head?_eq_none_iff.mp ended.1]
    · trivial

/-- The new last node of a list is cut off once more. -/
theorem addStep_clearAgain (of : content.Of kind key power state)
    (holds : BucketPc.Holds key (linkOf state.memory)
      (content.lists (bucketOf (2 ^ power) wanted)) wanted (.add element) .clearAgain) :
    ∃ next result after event,
      addStep state element (bucketOf (2 ^ power) wanted) .clearAgain = some (next, after, event) ∧
      BucketStepped kind key power (bucketOf (2 ^ power) wanted) wanted (.add element) state content
        .clearAgain next result after event := by
  have inside := bucketOf_lt power wanted
  obtain ⟨front, split⟩ := holds
  have isMember : element ∈ content.members := of.member inside (by
    rw [split]
    simp)
  obtain ⟨node, live, -, -, nowhere⟩ := of.nodeAt inside split
  simp only [addStep, HtableState.setNext_of_live live, Option.bind_eq_bind, Option.bind_some]
  refine ⟨_, content, _, _, rfl, of.congr ⟨_, rfl⟩ fun addr _ => ?_, rfl, rfl, ⟨_, _, rfl⟩,
    fun _ _ => rfl, fun _ => rfl, fun addr notMember _ => ?_, fun _ isMember => .inl isMember,
    fun _ isMine => (by cases isMine), trivial⟩
  · show (Function.update state.memory element _ addr).map _ = _
    by_cases same : addr = element
    · subst same
      rw [Function.update_self, live]
      simp [nowhere]
    · rw [Function.update_of_ne same]
  · refine Function.update_of_ne ?_ _ _
    rintro rfl
    exact notMember isMember

/-- No statement of `htable_add` fails. -/
theorem addStep_spec (of : content.Of kind key power state) (isValid : kind.Valid wanted)
    (few : state.htable.elementCount < 2 ^ 40)
    (counted : content.members.card ≤ state.htable.elementCount)
    (loose : ∀ addr, pc.mine (.add element) = some addr →
      addr ∉ content.members ∧ LiveKey kind key state.memory addr)
    (holds : pc.Holds key (linkOf state.memory)
      (content.lists (bucketOf (2 ^ power) wanted)) wanted (.add element))
    (inCall : ∀ answer, pc ≠ .unlock answer) :
    ∃ next result after event,
      addStep state element (bucketOf (2 ^ power) wanted) pc = some (next, after, event) ∧
      BucketStepped kind key power (bucketOf (2 ^ power) wanted) wanted (.add element) state content
        pc next result after event := by
  have inside := bucketOf_lt power wanted
  cases pc with
  | clear =>
    obtain ⟨outside, node, live, nodeKey, nodeValid⟩ := loose element rfl
    simp only [addStep, HtableState.setNext_of_live live, Option.bind_eq_bind, Option.bind_some]
    exact ⟨_, content, _, _, rfl, .point of rfl outside live nodeKey nodeValid rfl rfl
      ⟨holds, Function.update_self ..⟩⟩
  | readBucket =>
    obtain ⟨keyIs, nowhere⟩ := holds
    have passed := @TableContent.Of.passed _ _ _ _ _
      (fun other => rank (key other) < rank wanted) of _ inside
    simp only [addStep]
    cases head : state.htable.buckets (bucketOf (2 ^ power) wanted) with
    | none =>
      rw [head] at passed
      exact ⟨state, content, _, _, rfl, .look of loose rfl rfl (fun _ isMine => isMine)
        ⟨keyIs, nowhere, passed, fun _ isComparator => by cases isComparator⟩⟩
    | some comparator =>
      rw [head] at passed
      exact ⟨state, content, _, _, rfl, .look of loose rfl rfl (fun _ isMine => isMine)
        ⟨keyIs, nowhere, passed⟩⟩
  | compare prev comparator => exact addStep_compare of isValid loose holds
  | count prev comparator =>
    obtain ⟨keyIs, nowhere, place⟩ := holds
    have incremented : atomicInc 64 state.htable.elementCount = state.htable.elementCount + 1 :=
      atomicInc_of_lt (by omega)
    simp only [addStep, incremented]
    cases comparator with
    | none =>
      exact ⟨_, content, _, _, rfl, .count of loose rfl (fun _ isMine => isMine)
        ⟨keyIs, nowhere, place⟩⟩
    | some next =>
      exact ⟨_, content, _, _, rfl, .count of loose rfl (fun _ isMine => isMine) ⟨keyIs, place⟩⟩
  | point prev comparator =>
    obtain ⟨outside, node, live, nodeKey, nodeValid⟩ := loose element rfl
    simp only [addStep, HtableState.setNext_of_live live, Option.bind_eq_bind, Option.bind_some]
    exact ⟨_, content, _, _, rfl, .point of rfl outside live nodeKey nodeValid rfl rfl
      ⟨holds.1, Function.update_self .., holds.2⟩⟩
  | link prev comparator =>
    obtain ⟨outside, live⟩ := loose element rfl
    exact addStep_link of (counted.trans_lt few) outside live holds
  | clearAgain => exact addStep_clearAgain of holds
  | unlock answer => exact absurd rfl (inCall answer)
  | _ => exact holds.elim

/-- One turn of the loop of `htable_remove` and `htable_get`. -/
theorem TableContent.Of.seek {current : Addr} (of : content.Of kind key power state)
    (isValid : kind.Valid wanted)
    (passed : Passed (content.lists (bucketOf (2 ^ power) wanted)) prev (some current)
      fun other => key other ≠ wanted) :
    ∃ node, state.memory current = some node ∧
      (state.compare wanted node = 0 ↔ key current = wanted) ∧
      current ∈ content.lists (bucketOf (2 ^ power) wanted) ∧
      (key current ≠ wanted → Passed (content.lists (bucketOf (2 ^ power) wanted)) (some current)
        node.next fun other => key other ≠ wanted) := by
  obtain ⟨front, back, split, -, -, further⟩ := passed.split
  obtain ⟨node, live, nodeKey, nodeValid, nodeNext⟩ := of.nodeAt (bucketOf_lt power wanted) split
  refine ⟨node, live, ?_, by rw [split]; simp, nodeNext.symm ▸ further⟩
  rw [of.compare_zero isValid (nodeKey.symm ▸ nodeValid), nodeKey, eq_comm]

/-- The write that takes a node out of its list. -/
theorem removeStep_unlink {target : Addr} {sought : Bytes} (of : content.Of kind key power state)
    (holds : BucketPc.Holds key (linkOf state.memory)
      (content.lists (bucketOf (2 ^ power) wanted)) wanted (.remove sought) (.unlink prev target)) :
    ∃ next result after event,
      removeStep state sought (bucketOf (2 ^ power) wanted) (.unlink prev target) =
        some (next, after, event) ∧
      BucketStepped kind key power (bucketOf (2 ^ power) wanted) wanted (.remove sought) state
        content (.unlink prev target) next result after event := by
  obtain ⟨rfl, keyIs, passed⟩ := holds
  have inside := bucketOf_lt power sought
  obtain ⟨front, back, split, rfl, -, -⟩ := passed.split
  obtain ⟨node, live, nodeKey, nodeValid, nodeNext⟩ := of.nodeAt inside split
  obtain ⟨next, call, relinked, unlinked⟩ := of.unlinked inside split
  have links : linkOf state.memory target = node.next := by rw [linkOf, live, Option.bind_some]
  have isMember : target ∈ content.members := of.member inside (by
    rw [split]
    simp)
  have cardIs : (content.members.erase target).card + 1 = content.members.card :=
    Finset.card_erase_add_one isMember
  rw [links] at call
  rw [keyIs] at unlinked
  simp only [removeStep, load_some, live, call, Option.bind_eq_bind, Option.bind_some]
  refine ⟨next, _, _, _, rfl, unlinked, .remove _ _, ?_, ?_, fun another different =>
    Function.update_of_ne different _ _, (fun isRead => by cases isRead),
    fun addr notMember _ => ?_, fun addr still => .inl (Finset.mem_of_mem_erase still),
    fun addr isMine => ?_, trivial⟩
  · rw [relinked.elementCount, ← cardIs]
    exact (Nat.add_assoc _ _ 1).symm
  · exact ⟨_, state.htable.elementCount, relinked.table⟩
  · refine HtableState.setLink_memory call fun last => notMember (of.member inside ?_)
    rw [split]
    exact List.mem_append_left _ (List.mem_of_getLast? last)
  · obtain rfl := Option.some.inj isMine
    obtain ⟨still, stillLive, stillKey⟩ := relinked.live live
    exact ⟨.inr isMember, Finset.notMem_erase _ _, still, stillLive, stillKey.trans nodeKey, nodeValid⟩

/-- No statement of `htable_remove` fails. -/
theorem removeStep_spec {sought : Bytes} (of : content.Of kind key power state)
    (isValid : kind.Valid wanted)
    (counted : content.members.card + pc.uncounted ≤ state.htable.elementCount)
    (loose : ∀ addr, pc.mine (.remove sought) = some addr →
      addr ∉ content.members ∧ LiveKey kind key state.memory addr)
    (holds : pc.Holds key (linkOf state.memory)
      (content.lists (bucketOf (2 ^ power) wanted)) wanted (.remove sought))
    (inCall : ∀ answer, pc ≠ .unlock answer) :
    ∃ next result after event,
      removeStep state sought (bucketOf (2 ^ power) wanted) pc = some (next, after, event) ∧
      BucketStepped kind key power (bucketOf (2 ^ power) wanted) wanted (.remove sought) state
        content pc next result after event := by
  have inside := bucketOf_lt power wanted
  cases pc with
  | readBucket =>
    exact ⟨state, content, _, _, rfl, .look of loose rfl rfl (fun _ isMine => isMine)
      ⟨holds, of.passed inside⟩⟩
  | seek prev current =>
    obtain ⟨rfl, passed⟩ := holds
    cases current with
    | none =>
      refine ⟨state, content, _, _, rfl, .look of loose ?_ rfl (fun _ isMine => isMine) trivial⟩
      have absent := of.absent passed.ended
      rw [of.holds.mem_iff] at absent
      have same := of.holds.erase_absent fun addr isMember equal => absent ⟨addr, isMember, equal⟩
      have removed := MapStep.remove content.map sought
      rwa [same] at removed
    | some current =>
      obtain ⟨node, live, zero, -, further⟩ := of.seek isValid passed
      simp only [removeStep, load_some, live, Option.bind_eq_bind, Option.bind_some, zero]
      by_cases found : key current = sought
      · rw [if_pos found]
        exact ⟨state, content, _, _, rfl, .look of loose rfl rfl (fun _ isMine => isMine)
          ⟨rfl, found, passed⟩⟩
      · rw [if_neg found]
        exact ⟨state, content, _, _, rfl, .look of loose rfl rfl (fun _ isMine => isMine)
          ⟨rfl, further found⟩⟩
  | unlink prev target => exact removeStep_unlink of holds
  | cut target =>
    obtain ⟨outside, node, live, nodeKey, nodeValid⟩ := loose target rfl
    simp only [removeStep, HtableState.setNext_of_live live, Option.bind_eq_bind, Option.bind_some]
    exact ⟨_, content, _, _, rfl,
      .point of rfl outside live nodeKey nodeValid rfl rfl trivial⟩
  | put target =>
    obtain ⟨outside, node, live, -, -⟩ := loose target rfl
    obtain ⟨memory, put, others⟩ := nodePut_spec live
    simp only [removeStep, put, Option.bind_eq_bind, Option.bind_some]
    refine ⟨_, content, _, _, rfl, of.congr ⟨_, rfl⟩ fun addr isMember => ?_, rfl, rfl, ⟨_, _, rfl⟩,
      fun _ _ => rfl, fun _ => rfl, fun addr _ different => others addr ?_,
      fun _ isMember => .inl isMember,
      fun _ isMine => (by cases isMine), trivial⟩
    · show (memory addr).map _ = _
      rw [others addr fun same => outside (same ▸ isMember)]
    · rintro rfl
      exact different rfl
  | uncount =>
    have decremented : atomicDec 64 state.htable.elementCount = state.htable.elementCount - 1 := by
      refine atomicDec_of_pos ?_
      have : content.members.card + 1 ≤ state.htable.elementCount := counted
      omega
    simp only [removeStep, decremented]
    refine ⟨_, content, _, _, rfl, .count of loose ?_ (fun _ isMine => by cases isMine) trivial⟩
    have : content.members.card + 1 ≤ state.htable.elementCount := counted
    show state.htable.elementCount - 1 + 1 = state.htable.elementCount + 0
    omega
  | unlock answer => exact absurd rfl (inCall answer)
  | _ => exact holds.elim

/-- The reference that `htable_get` takes changes no key and no link. -/
theorem getStep_reference {target : Addr} {sought : Bytes} {refInc : Bool}
    (of : content.Of kind key power state)
    (holds : BucketPc.Holds key (linkOf state.memory)
      (content.lists (bucketOf (2 ^ power) wanted)) wanted (.get sought refInc)
      (.reference target)) :
    ∃ next result after event,
      getStep state sought refInc (bucketOf (2 ^ power) wanted) (.reference target) =
        some (next, after, event) ∧
      BucketStepped kind key power (bucketOf (2 ^ power) wanted) wanted (.get sought refInc) state
        content (.reference target) next result after event := by
  obtain ⟨rfl, listed, keyIs⟩ := holds
  have inside := bucketOf_lt power sought
  obtain ⟨front, back, split⟩ := List.append_of_mem listed
  obtain ⟨node, live, -⟩ := of.nodeAt inside split
  simp only [getStep, nodeGet, store_of_live live, Option.bind_eq_bind, Option.bind_some]
  refine ⟨_, content, _, _, rfl, of.congr ⟨_, rfl⟩ fun addr _ => ?_, ?_, rfl, ⟨_, _, rfl⟩,
    fun _ _ => rfl, fun _ => rfl, fun addr notMember _ => ?_, fun _ isMember => .inl isMember,
    fun _ isMine => (by cases isMine), trivial⟩
  · show (Function.update state.memory target _ addr).map _ = _
    by_cases same : addr = target
    · subst same
      rw [Function.update_self, live]
      rfl
    · rw [Function.update_of_ne same]
  · have got := MapStep.get content.map (key target)
    rw [of.lookup inside listed, keyIs] at got
    exact got
  · refine Function.update_of_ne ?_ _ _
    rintro rfl
    exact notMember (of.member inside listed)

/-- No statement of `htable_get` fails. -/
theorem getStep_spec {sought : Bytes} {refInc : Bool} (of : content.Of kind key power state)
    (isValid : kind.Valid wanted)
    (loose : ∀ addr, pc.mine (.get sought refInc) = some addr →
      addr ∉ content.members ∧ LiveKey kind key state.memory addr)
    (holds : pc.Holds key (linkOf state.memory)
      (content.lists (bucketOf (2 ^ power) wanted)) wanted (.get sought refInc))
    (inCall : ∀ answer, pc ≠ .unlock answer) :
    ∃ next result after event,
      getStep state sought refInc (bucketOf (2 ^ power) wanted) pc = some (next, after, event) ∧
      BucketStepped kind key power (bucketOf (2 ^ power) wanted) wanted (.get sought refInc) state
        content pc next result after event := by
  have inside := bucketOf_lt power wanted
  cases pc with
  | readBucket =>
    exact ⟨state, content, _, _, rfl, .look of loose rfl rfl (fun _ isMine => isMine)
      ⟨holds, of.passed inside⟩⟩
  | seek prev current =>
    obtain ⟨rfl, passed⟩ := holds
    cases current with
    | none =>
      refine ⟨state, content, _, _, rfl, .look of loose ?_ rfl (fun _ isMine => by cases isMine)
        trivial⟩
      have got := MapStep.get content.map sought
      rwa [Finmap.lookup_eq_none.mpr (of.absent passed.ended)] at got
    | some current =>
      obtain ⟨node, live, zero, listed, further⟩ := of.seek isValid passed
      simp only [getStep, load_some, live, Option.bind_eq_bind, Option.bind_some, zero]
      by_cases found : key current = sought
      · rw [if_pos found]
        cases refInc with
        | true =>
          exact ⟨state, content, _, _, rfl, .look of loose rfl rfl (fun _ isMine => isMine)
            ⟨rfl, listed, found⟩⟩
        | false =>
          refine ⟨state, content, _, _, rfl, .look of loose ?_ rfl (fun _ isMine => by cases isMine)
            trivial⟩
          have got := MapStep.get content.map (key current)
          rw [of.lookup inside listed, found] at got
          exact got
      · rw [if_neg found]
        exact ⟨state, content, _, _, rfl, .look of loose rfl rfl (fun _ isMine => isMine)
          ⟨rfl, further found⟩⟩
  | reference target => exact getStep_reference of holds
  | unlock answer => exact absurd rfl (inCall answer)
  | _ => exact holds.elim

/-- No statement under the lock of a bucket fails. -/
theorem bucketStep_spec (of : content.Of kind key power state) (isValid : kind.Valid wanted)
    (few : state.htable.elementCount < 2 ^ 40)
    (counted : content.members.card + pc.uncounted ≤ state.htable.elementCount)
    (loose : ∀ addr, pc.mine call = some addr →
      addr ∉ content.members ∧ LiveKey kind key state.memory addr)
    (holds : pc.Holds key (linkOf state.memory)
      (content.lists (bucketOf (2 ^ power) wanted)) wanted call)
    (inCall : ∀ answer, pc ≠ .unlock answer) :
    ∃ next result after event,
      bucketStep state (bucketOf (2 ^ power) wanted) pc call = some (next, after, event) ∧
      BucketStepped kind key power (bucketOf (2 ^ power) wanted) wanted call state content pc next
        result after event := by
  cases call with
  | add element =>
    exact addStep_spec of isValid few ((Nat.le_add_right _ _).trans counted) loose holds inCall
  | remove sought => exact removeStep_spec of isValid counted loose holds inCall
  | get sought refInc => exact getStep_spec of isValid loose holds inCall
  | copyAllKeys =>
    cases pc with
    | unlock answer => exact absurd rfl (inCall answer)
    | _ => exact holds.elim

end Statements

end Lwmsg
