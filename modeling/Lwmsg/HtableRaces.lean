/-
This file proves that the hash table is free of data races: of two threads that are about to access
the same place in memory without an atomic operation, neither writes it.

A statement leaves every place as it is that it does not write, and what a thread goes on with
depends on the places it reads. What a thread touches is its own node, which no other one can reach,
or lies in a bucket whose lock it has, which is for itself where it writes. A resize touches
everything, but then nobody else is in the table.
-/

import Lwmsg.HtableThreadSafety

namespace Lwmsg

open Bytes Pointers SinglyLinked

/-! ### Accesses -/

/-- A place that is read and written without atomic operations: the sizes and the two arrays, the
entry of a bucket, and a node with its key and its link. -/
inductive SharedPlace
  | sizes
  | head (bucketIndex : Nat)
  | node (addr : Addr)
  deriving DecidableEq, Repr

/-- `if (!prev) htable->buckets[index]; else prev->next`. -/
def linkPlace (bucketIndex : Nat) : Option Addr → SharedPlace
  | none => .head bucketIndex
  | some prev => .node prev

/-- What a statement under the lock of a bucket reads. -/
def BucketPc.Reads (call : HtableCall) (bucketIndex : Nat) (place : SharedPlace) : BucketPc → Prop
  | .readBucket => place = .head bucketIndex
  | .compare _ comparator =>
    place = .node comparator ∨ ∃ element ∈ call.element, place = .node element
  | .seek _ current => ∃ node ∈ current, place = .node node
  | .unlink _ target => place = .node target
  | _ => False

/-- What it writes. A node may be freed as it is put. -/
def BucketPc.Writes (call : HtableCall) (bucketIndex : Nat) (place : SharedPlace) : BucketPc → Prop
  | .clear | .point .. | .clearAgain => ∃ element ∈ call.element, place = .node element
  | .link prev _ | .unlink prev _ => place = linkPlace bucketIndex prev
  | .cut target | .put target => place = .node target
  | _ => False

/-- What the next statement of a thread reads. -/
def HtablePc.Reads (htable : StripedHtable) (place : SharedPlace) : HtablePc → Prop
  | .hash call => place = .sizes ∨ ∃ element ∈ call.element, place = .node element
  | .lockBucket .. | .copyStart | .copyLock .. | .copyUnlock .. => place = .sizes
  | .inBucket call bucketIndex _ pc => place = .sizes ∨ pc.Reads call bucketIndex place
  | .copyBucket i j _ =>
    place = .sizes ∨ j < (i + 1) <<< htable.bucketsPerLockPow2 ∧ place = .head j
  | .copyNode _ _ iteratorNode _ => place = .node iteratorNode
  | _ => False

/-- What the next statement of a thread writes. A resize may write anywhere. -/
def HtablePc.Writes (place : SharedPlace) : HtablePc → Prop
  | .resize _ => True
  | .inBucket call bucketIndex _ pc => pc.Writes call bucketIndex place
  | _ => False

/-! ### What a statement changes and depends on -/

/-- A node without the count of its references. -/
def Node.uncounted (node : Node) : Node := { node with refCnt := 0 }

/-- Two states agree at a place, but for the counters that are atomic. -/
def HtableState.SameAt (state next : HtableState) : SharedPlace → Prop
  | .sizes => next.htable = { state.htable with
      buckets := next.htable.buckets
      elementCount := next.htable.elementCount
      resizeThresElemCount := next.htable.resizeThresElemCount }
  | .head bucketIndex => next.htable.buckets bucketIndex = state.htable.buckets bucketIndex
  | .node addr => (next.memory addr).map Node.uncounted = (state.memory addr).map Node.uncounted

section Frames

variable {state next : HtableState} {place : SharedPlace} {bucketIndex : Nat} {pc after : BucketPc}
  {event : Option TableEvent} {addr target : Addr} {memory : Memory Node}

theorem HtableState.SameAt.refl (state : HtableState) (place : SharedPlace) :
    state.SameAt state place := by
  cases place <;> rfl

theorem HtableState.sameAt_elementCount (state : HtableState) (elementCount : Nat)
    (place : SharedPlace) : state.SameAt (state.withElementCount elementCount) place := by
  cases place <;> rfl

theorem HtableState.sameAt_memory
    (same : ∀ addr, place = .node addr → memory addr = state.memory addr) :
    state.SameAt { state with memory } place := by
  cases place with
  | sizes => rfl
  | head index => rfl
  | node addr => exact congrArg (Option.map Node.uncounted) (same addr rfl)

theorem setNext_sameAt {link : Option Addr} (set : state.setNext addr link = some next)
    (elsewhere : place ≠ .node addr) : state.SameAt next place := by
  simp only [HtableState.setNext, Option.bind_eq_bind, Option.bind_eq_some_iff] at set
  obtain ⟨memory, stored, done⟩ := set
  cases done
  refine HtableState.sameAt_memory fun other isPlace => store_elsewhere stored ?_
  rintro rfl
  exact elsewhere isPlace

theorem setLink_sameAt {prev link : Option Addr} (set : state.setLink bucketIndex prev link = some next)
    (elsewhere : place ≠ linkPlace bucketIndex prev) : state.SameAt next place := by
  cases prev with
  | none =>
    cases set
    cases place with
    | sizes => rfl
    | head other =>
      exact Function.update_of_ne (fun same => elsewhere (congrArg SharedPlace.head same)) _ _
    | node addr => rfl
  | some prev => exact setNext_sameAt set elsewhere

theorem nodePut_sameAt (put : nodePut state.memory target = some memory)
    (elsewhere : place ≠ .node target) : state.SameAt { state with memory } place := by
  simp only [nodePut, Option.bind_eq_bind, Option.bind_eq_some_iff] at put
  obtain ⟨counted, stored, node, _, put⟩ := put
  refine HtableState.sameAt_memory fun other isPlace => ?_
  have different : other ≠ target := by
    rintro rfl
    exact elsewhere isPlace
  split_ifs at put
  · exact (release_elsewhere put different).trans (store_elsewhere stored different)
  · cases put
    exact store_elsewhere stored different

/-- A reference is counted atomically. -/
theorem nodeGet_sameAt (got : nodeGet state.memory target = some memory) :
    state.SameAt { state with memory } place := by
  cases place with
  | sizes => rfl
  | head index => rfl
  | node addr =>
    show (memory addr).map Node.uncounted = _
    by_cases same : addr = target
    · subst same
      cases live : state.memory addr with
      | none =>
        simp only [nodeGet, store, load_some, live] at got
        cases got
      | some node =>
        rw [nodeGet, store_of_live live] at got
        cases got
        rw [Function.update_self]
        rfl
    · rw [store_elsewhere got same]

theorem addStep_sameAt {element : Addr}
    (step : addStep state element bucketIndex pc = some (next, after, event))
    (untouched : ¬ pc.Writes (.add element) bucketIndex place) : state.SameAt next place := by
  have notElement (writes : pc.Writes (.add element) bucketIndex (.node element)) :
      place ≠ .node element := by
    rintro rfl
    exact untouched writes
  cases pc with
  | clear | point _ _ | clearAgain =>
    simp only [addStep, Option.bind_eq_bind, Option.bind_eq_some_iff] at step
    obtain ⟨pointing, set, step⟩ := step
    cases step
    exact setNext_sameAt set (notElement ⟨element, rfl, rfl⟩)
  | readBucket =>
    simp only [addStep] at step
    split at step <;> cases step <;> exact .refl _ _
  | compare prev comparator =>
    simp only [addStep, Option.bind_eq_bind, Option.bind_eq_some_iff] at step
    obtain ⟨node, _, other, _, step⟩ := step
    split_ifs at step
    · cases step
      exact .refl _ _
    · cases step
      exact .refl _ _
    · split at step <;> cases step <;> exact .refl _ _
  | count prev comparator =>
    cases comparator <;> cases step <;> exact HtableState.sameAt_elementCount _ _ _
  | link prev comparator =>
    simp only [addStep, Option.bind_eq_bind, Option.bind_eq_some_iff] at step
    obtain ⟨node, _, linked, set, step⟩ := step
    cases step
    exact setLink_sameAt set untouched
  | _ => cases step

theorem removeStep_sameAt {key : Bytes}
    (step : removeStep state key bucketIndex pc = some (next, after, event))
    (untouched : ¬ pc.Writes (.remove key) bucketIndex place) : state.SameAt next place := by
  cases pc with
  | readBucket =>
    cases step
    exact .refl _ _
  | seek prev current =>
    cases current with
    | none =>
      cases step
      exact .refl _ _
    | some current =>
      simp only [removeStep, Option.bind_eq_bind, Option.bind_eq_some_iff] at step
      obtain ⟨_, _, step⟩ := step
      split_ifs at step <;> cases step <;> exact .refl _ _
  | unlink prev target =>
    simp only [removeStep, Option.bind_eq_bind, Option.bind_eq_some_iff] at step
    obtain ⟨_, _, unlinked, set, step⟩ := step
    cases step
    exact setLink_sameAt set untouched
  | cut target =>
    simp only [removeStep, Option.bind_eq_bind, Option.bind_eq_some_iff] at step
    obtain ⟨cut, set, step⟩ := step
    cases step
    exact setNext_sameAt set untouched
  | put target =>
    simp only [removeStep, Option.bind_eq_bind, Option.bind_eq_some_iff] at step
    obtain ⟨memory, put, step⟩ := step
    cases step
    exact nodePut_sameAt put untouched
  | uncount =>
    cases step
    exact HtableState.sameAt_elementCount _ _ _
  | _ => cases step

theorem getStep_sameAt {key : Bytes} {refInc : Bool}
    (step : getStep state key refInc bucketIndex pc = some (next, after, event)) :
    state.SameAt next place := by
  cases pc with
  | readBucket =>
    cases step
    exact .refl _ _
  | seek prev current =>
    cases current with
    | none =>
      cases step
      exact .refl _ _
    | some current =>
      simp only [getStep, Option.bind_eq_bind, Option.bind_eq_some_iff] at step
      obtain ⟨_, _, step⟩ := step
      split_ifs at step <;> cases step <;> exact .refl _ _
  | reference target =>
    simp only [getStep, Option.bind_eq_bind, Option.bind_eq_some_iff] at step
    obtain ⟨memory, got, step⟩ := step
    cases step
    exact nodeGet_sameAt got
  | _ => cases step

theorem bucketStep_sameAt {call : HtableCall}
    (step : bucketStep state bucketIndex pc call = some (next, after, event))
    (untouched : ¬ pc.Writes call bucketIndex place) : state.SameAt next place := by
  cases call with
  | add element => exact addStep_sameAt step untouched
  | remove key => exact removeStep_sameAt step untouched
  | get key refInc => exact getStep_sameAt step
  | copyAllKeys => cases step

/-! What a statement goes on with depends on what it reads and on nothing else. -/

variable {other left : HtableState} {afterHere afterThere : BucketPc}
  {eventHere eventThere : Option TableEvent} {node also : Node}

theorem HtableState.SameAt.node_eq (same : state.SameAt other (.node addr))
    (here : state.memory addr = some node) (there : other.memory addr = some also) :
    also.key = node.key ∧ also.next = node.next := by
  have uncounted : (other.memory addr).map Node.uncounted =
      (state.memory addr).map Node.uncounted := same
  rw [here, there] at uncounted
  have equal : also.uncounted = node.uncounted := Option.some.inj uncounted
  have key : also.uncounted.key = node.uncounted.key := congrArg Node.key equal
  have link : also.uncounted.next = node.uncounted.next := congrArg Node.next equal
  exact ⟨key, link⟩

theorem HtableState.SameAt.compare_eq (same : state.SameAt other .sizes) {key : Bytes}
    (sameKey : also.key = node.key) : other.compare key also = state.compare key node := by
  have cmpfn : other.htable.cmpfn = state.htable.cmpfn := by rw [show other.htable = _ from same]
  rw [HtableState.compare, HtableState.compare, cmpfn, sameKey]

theorem addStep_reads {element : Addr}
    (same : ∀ place, place = .sizes ∨ pc.Reads (.add element) bucketIndex place →
      state.SameAt other place)
    (here : addStep state element bucketIndex pc = some (next, afterHere, eventHere))
    (there : addStep other element bucketIndex pc = some (left, afterThere, eventThere)) :
    afterThere = afterHere := by
  cases pc with
  | clear | point _ _ | clearAgain =>
    simp only [addStep, Option.bind_eq_bind, Option.bind_eq_some_iff] at here there
    obtain ⟨_, _, here⟩ := here
    obtain ⟨_, _, there⟩ := there
    cases here
    cases there
    rfl
  | readBucket =>
    have head : other.htable.buckets bucketIndex = state.htable.buckets bucketIndex :=
      same (.head bucketIndex) (.inr rfl)
    simp only [addStep, head] at here there
    generalize state.htable.buckets bucketIndex = first at here there
    cases first <;> cases here <;> cases there <;> rfl
  | compare prev comparator =>
    simp only [addStep, Option.bind_eq_bind, Option.bind_eq_some_iff] at here there
    obtain ⟨node, nodeHere, comp, compHere, here⟩ := here
    obtain ⟨also, nodeThere, compAlso, compThere, there⟩ := there
    have key := ((same (.node element) (.inr (.inr ⟨element, rfl, rfl⟩))).node_eq nodeHere
      nodeThere).1
    have link := (same (.node comparator) (.inr (.inl rfl))).node_eq compHere compThere
    rw [key, (same .sizes (.inl rfl)).compare_eq link.1, link.2] at there
    split_ifs at here there
    · cases here
      cases there
      rfl
    · cases here
      cases there
      rfl
    · generalize comp.next = behind at here there
      cases behind <;> cases here <;> cases there <;> rfl
  | count prev comparator =>
    cases comparator <;> cases here <;> cases there <;> rfl
  | link prev comparator =>
    simp only [addStep, Option.bind_eq_bind, Option.bind_eq_some_iff] at here there
    obtain ⟨_, _, _, _, here⟩ := here
    obtain ⟨_, _, _, _, there⟩ := there
    cases here
    cases there
    rfl
  | _ => cases here

theorem removeStep_reads {key : Bytes}
    (same : ∀ place, place = .sizes ∨ pc.Reads (.remove key) bucketIndex place →
      state.SameAt other place)
    (here : removeStep state key bucketIndex pc = some (next, afterHere, eventHere))
    (there : removeStep other key bucketIndex pc = some (left, afterThere, eventThere)) :
    afterThere = afterHere := by
  cases pc with
  | readBucket =>
    have head : other.htable.buckets bucketIndex = state.htable.buckets bucketIndex :=
      same (.head bucketIndex) (.inr rfl)
    simp only [removeStep, head] at here there
    cases here
    cases there
    rfl
  | seek prev current =>
    cases current with
    | none =>
      cases here
      cases there
      rfl
    | some current =>
      simp only [removeStep, Option.bind_eq_bind, Option.bind_eq_some_iff] at here there
      obtain ⟨node, nodeHere, here⟩ := here
      obtain ⟨also, nodeThere, there⟩ := there
      have link := (same (.node current) (.inr ⟨current, rfl, rfl⟩)).node_eq nodeHere nodeThere
      rw [(same .sizes (.inl rfl)).compare_eq link.1, link.2] at there
      split_ifs at here there <;> cases here <;> cases there <;> rfl
  | unlink prev target =>
    simp only [removeStep, Option.bind_eq_bind, Option.bind_eq_some_iff] at here there
    obtain ⟨_, _, _, _, here⟩ := here
    obtain ⟨_, _, _, _, there⟩ := there
    cases here
    cases there
    rfl
  | cut _ | put _ =>
    simp only [removeStep, Option.bind_eq_bind, Option.bind_eq_some_iff] at here there
    obtain ⟨_, _, here⟩ := here
    obtain ⟨_, _, there⟩ := there
    cases here
    cases there
    rfl
  | uncount =>
    cases here
    cases there
    rfl
  | _ => cases here

theorem getStep_reads {key : Bytes} {refInc : Bool}
    (same : ∀ place, place = .sizes ∨ pc.Reads (.get key refInc) bucketIndex place →
      state.SameAt other place)
    (here : getStep state key refInc bucketIndex pc = some (next, afterHere, eventHere))
    (there : getStep other key refInc bucketIndex pc = some (left, afterThere, eventThere)) :
    afterThere = afterHere := by
  cases pc with
  | readBucket =>
    have head : other.htable.buckets bucketIndex = state.htable.buckets bucketIndex :=
      same (.head bucketIndex) (.inr rfl)
    simp only [getStep, head] at here there
    cases here
    cases there
    rfl
  | seek prev current =>
    cases current with
    | none =>
      cases here
      cases there
      rfl
    | some current =>
      simp only [getStep, Option.bind_eq_bind, Option.bind_eq_some_iff] at here there
      obtain ⟨node, nodeHere, here⟩ := here
      obtain ⟨also, nodeThere, there⟩ := there
      have link := (same (.node current) (.inr ⟨current, rfl, rfl⟩)).node_eq nodeHere nodeThere
      rw [(same .sizes (.inl rfl)).compare_eq link.1, link.2] at there
      split_ifs at here there <;> cases here <;> cases there <;> rfl
  | reference target =>
    simp only [getStep, Option.bind_eq_bind, Option.bind_eq_some_iff] at here there
    obtain ⟨_, _, here⟩ := here
    obtain ⟨_, _, there⟩ := there
    cases here
    cases there
    rfl
  | _ => cases here

theorem bucketStep_reads {call : HtableCall}
    (same : ∀ place, place = .sizes ∨ pc.Reads call bucketIndex place → state.SameAt other place)
    (here : bucketStep state bucketIndex pc call = some (next, afterHere, eventHere))
    (there : bucketStep other bucketIndex pc call = some (left, afterThere, eventThere)) :
    afterThere = afterHere := by
  cases call with
  | add element => exact addStep_reads same here there
  | remove key => exact removeStep_reads same here there
  | get key refInc => exact getStep_reads same here there
  | copyAllKeys => cases here

end Frames

/-- Only a resize and the statements under the lock of a bucket change the table. -/
theorem ThreadsWorld.step_state {Thread : Type} [DecidableEq Thread] {world next : ThreadsWorld Thread}
    {thread : Thread} {action : Option HtableAction}
    (taken : world.step thread = some (next, action)) :
    next.state = world.state ∨ (∃ element, world.pc thread = .resize element) ∨
      ∃ call bucketIndex lockIndex pc after event,
        world.pc thread = .inBucket call bucketIndex lockIndex pc ∧
        bucketStep world.state bucketIndex pc call = some (next.state, after, event) := by
  cases here : world.pc thread with
  | idle => simp [ThreadsWorld.step, here] at taken
  | loadCount _ | unlockResized _ | copyUnlock _ _ | unlockTable _ _ | answering _ _ =>
    simp only [ThreadsWorld.step, here] at taken
    cases taken
    exact .inl rfl
  | loadThres _ _ | copyStart =>
    simp only [ThreadsWorld.step, here] at taken
    split_ifs at taken <;> cases taken <;> exact .inl rfl
  | tryWrlock element =>
    simp only [ThreadsWorld.step, here] at taken
    split at taken <;> cases taken <;> exact .inl rfl
  | resize element => exact .inr (.inl ⟨element, rfl⟩)
  | rdlock _ | lockBucket _ _ _ =>
    simp only [ThreadsWorld.step, here, Option.bind_eq_bind, Option.bind_eq_some_iff] at taken
    obtain ⟨_, _, taken⟩ := taken
    cases taken
    exact .inl rfl
  | hash call =>
    simp only [ThreadsWorld.step, here, Option.bind_eq_bind, Option.bind_eq_some_iff] at taken
    obtain ⟨_, _, _, _, _, _, taken⟩ := taken
    cases taken
    exact .inl rfl
  | inBucket call bucketIndex lockIndex pc =>
    by_cases inCall : ∀ answer, pc ≠ .unlock answer
    · rw [step_inBucket here inCall, Option.map_eq_some_iff] at taken
      obtain ⟨⟨state, after, event⟩, step, taken⟩ := taken
      cases taken
      exact .inr (.inr ⟨call, bucketIndex, lockIndex, pc, after, event, rfl, step⟩)
    · push Not at inCall
      obtain ⟨answer, rfl⟩ := inCall
      simp only [ThreadsWorld.step, here] at taken
      cases taken
      exact .inl rfl
  | copyLock i listed =>
    simp only [ThreadsWorld.step, here] at taken
    split_ifs at taken
    · simp only [Option.bind_eq_bind, Option.bind_eq_some_iff] at taken
      obtain ⟨_, _, taken⟩ := taken
      cases taken
      exact .inl rfl
    · cases taken
      exact .inl rfl
  | copyBucket i j listed =>
    simp only [ThreadsWorld.step, here] at taken
    split_ifs at taken
    · split at taken <;> cases taken <;> exact .inl rfl
    · cases taken
      exact .inl rfl
  | copyNode i j iteratorNode listed =>
    simp only [ThreadsWorld.step, here, Option.bind_eq_bind, Option.bind_eq_some_iff] at taken
    obtain ⟨_, _, taken⟩ := taken
    split at taken <;> cases taken <;> exact .inl rfl

/-- A statement leaves every place as it is that it does not write. -/
theorem ThreadsWorld.step_sameAt {Thread : Type} [DecidableEq Thread]
    {world next : ThreadsWorld Thread} {thread : Thread} {action : Option HtableAction}
    {place : SharedPlace} (taken : world.step thread = some (next, action))
    (untouched : ¬ (world.pc thread).Writes place) : world.state.SameAt next.state place := by
  rcases ThreadsWorld.step_state taken with same | ⟨element, here⟩ | ⟨call, bucketIndex, _, pc, here⟩
  · rw [same]
    exact .refl _ _
  · rw [here] at untouched
    exact absurd trivial untouched
  · obtain ⟨after, event, here, step⟩ := here
    rw [here] at untouched
    exact bucketStep_sameAt step untouched

/-- Two worlds agree at the lock that an addition tries to take, and at the counters that are atomic. -/
structure ThreadsWorld.SameCounters {Thread : Type} (world other : ThreadsWorld Thread) : Prop where
  gResizeLock : other.gResizeLock = world.gResizeLock
  elementCount : other.state.htable.elementCount = world.state.htable.elementCount
  threshold :
    other.state.htable.resizeThresElemCount = world.state.htable.resizeThresElemCount

/-- In worlds that agree at what a thread reads it goes on to the same statement. -/
theorem ThreadsWorld.step_reads {Thread : Type} [DecidableEq Thread]
    {world other next left : ThreadsWorld Thread} {thread : Thread}
    {actionHere actionThere : Option HtableAction} (pcThere : other.pc thread = world.pc thread)
    (counters : world.SameCounters other) (same : ∀ place,
      (world.pc thread).Reads world.state.htable place → world.state.SameAt other.state place)
    (here : world.step thread = some (next, actionHere))
    (there : other.step thread = some (left, actionThere)) : left.pc thread = next.pc thread := by
  have moved {world : ThreadsWorld Thread} {pc : HtablePc} :
      (world.goto thread pc).pc thread = pc := Function.update_self ..
  cases pcHere : world.pc thread with
  | idle => simp [ThreadsWorld.step, pcHere] at here
  | loadCount _ | unlockResized _ | copyUnlock _ _ | unlockTable _ _ | answering _ _ =>
    rw [pcHere] at pcThere
    simp only [ThreadsWorld.step, pcHere, pcThere, counters.elementCount] at here there
    cases here
    cases there
    rw [moved, moved]
  | loadThres element elementCount =>
    rw [pcHere] at pcThere
    simp only [ThreadsWorld.step, pcHere, pcThere, counters.threshold] at here there
    split_ifs at here there <;> cases here <;> cases there <;> rw [moved, moved]
  | tryWrlock element =>
    rw [pcHere] at pcThere
    simp only [ThreadsWorld.step, pcHere, pcThere, counters.gResizeLock] at here there
    generalize world.gResizeLock.acquire thread .write = lock at here there
    cases lock <;> cases here <;> cases there <;> rw [moved, moved]
  | resize _ | rdlock _ | lockBucket _ _ _ =>
    rw [pcHere] at pcThere
    simp only [ThreadsWorld.step, pcHere, pcThere, Option.bind_eq_bind, Option.bind_eq_some_iff]
      at here there
    obtain ⟨_, _, here⟩ := here
    obtain ⟨_, _, there⟩ := there
    cases here
    cases there
    rw [moved, moved]
  | hash call =>
    rw [pcHere] at pcThere same
    simp only [ThreadsWorld.step, pcHere, pcThere, Option.bind_eq_bind, Option.bind_eq_some_iff]
      at here there
    obtain ⟨key, keyHere, bucket, bucketHere, lock, lockHere, here⟩ := here
    obtain ⟨also, keyThere, another, bucketThere, alsoLock, lockThere, there⟩ := there
    have sizes : other.state.htable = _ := same .sizes (.inl rfl)
    obtain rfl : also = key := by
      cases call with
      | add element =>
        obtain ⟨node, live, rfl⟩ := Option.map_eq_some_iff.mp keyHere
        obtain ⟨copy, alsoLive, rfl⟩ := Option.map_eq_some_iff.mp keyThere
        exact ((same (.node element) (.inr ⟨element, rfl, rfl⟩)).node_eq live alsoLive).1
      | copyAllKeys => cases keyHere
      | _ => exact Option.some.inj (keyThere.symm.trans keyHere)
    rw [HtableState.bucketIndex, sizes] at bucketThere
    obtain rfl := Option.some.inj (bucketThere.symm.trans bucketHere)
    rw [HtableState.lockOf, sizes] at lockThere
    obtain rfl := Option.some.inj (lockThere.symm.trans lockHere)
    cases here
    cases there
    rw [moved, moved]
  | inBucket call bucketIndex lockIndex pc =>
    rw [pcHere] at pcThere same
    by_cases inCall : ∀ answer, pc ≠ .unlock answer
    · rw [step_inBucket pcHere inCall, Option.map_eq_some_iff] at here
      rw [step_inBucket pcThere inCall, Option.map_eq_some_iff] at there
      obtain ⟨⟨state, after, event⟩, stepHere, here⟩ := here
      obtain ⟨⟨otherState, otherAfter, otherEvent⟩, stepThere, there⟩ := there
      obtain rfl := bucketStep_reads same stepHere stepThere
      cases here
      cases there
      rw [moved, moved]
    · push Not at inCall
      obtain ⟨answer, rfl⟩ := inCall
      simp only [ThreadsWorld.step, pcHere, pcThere] at here there
      cases here
      cases there
      rw [moved, moved]
  | copyStart =>
    rw [pcHere] at pcThere same
    have sizes : other.state.htable = _ := same .sizes rfl
    have bucketCount : other.state.htable.bucketCount = world.state.htable.bucketCount := by
      rw [sizes]
    simp only [ThreadsWorld.step, pcHere, pcThere, counters.elementCount, bucketCount] at here there
    split_ifs at here there <;> cases here <;> cases there <;> rw [moved, moved]
  | copyLock i listed =>
    rw [pcHere] at pcThere same
    have sizes : other.state.htable = _ := same .sizes rfl
    have lockCount : other.state.htable.lockCount = world.state.htable.lockCount := by rw [sizes]
    have perLock : other.state.htable.bucketsPerLockPow2 =
        world.state.htable.bucketsPerLockPow2 := by rw [sizes]
    simp only [ThreadsWorld.step, pcHere, pcThere, lockCount, perLock] at here there
    split_ifs at here there
    · simp only [Option.bind_eq_bind, Option.bind_eq_some_iff] at here there
      obtain ⟨_, _, here⟩ := here
      obtain ⟨_, _, there⟩ := there
      cases here
      cases there
      rw [moved, moved]
    · cases here
      cases there
      rw [moved, moved]
  | copyBucket i j listed =>
    rw [pcHere] at pcThere same
    have sizes : other.state.htable = _ := same .sizes (.inl rfl)
    have perLock : other.state.htable.bucketsPerLockPow2 =
        world.state.htable.bucketsPerLockPow2 := by rw [sizes]
    simp only [ThreadsWorld.step, pcHere, pcThere, perLock] at here there
    split_ifs at here there with inside
    · have head : other.state.htable.buckets j = world.state.htable.buckets j :=
        same (.head j) (.inr ⟨inside, rfl⟩)
      rw [head] at there
      generalize world.state.htable.buckets j = first at here there
      cases first <;> cases here <;> cases there <;> rw [moved, moved]
    · cases here
      cases there
      rw [moved, moved]
  | copyNode i j iteratorNode listed =>
    rw [pcHere] at pcThere same
    simp only [ThreadsWorld.step, pcHere, pcThere, Option.bind_eq_bind, Option.bind_eq_some_iff]
      at here there
    obtain ⟨node, live, here⟩ := here
    obtain ⟨copy, alsoLive, there⟩ := there
    have link := (same (.node iteratorNode) rfl).node_eq live alsoLive
    rw [link.1, link.2] at there
    generalize node.next = behind at here there
    cases behind <;> cases here <;> cases there <;> rw [moved, moved]

/-! ### Who may access what -/

/-- The places of a bucket. -/
def TableContent.AtBucket (content : TableContent) (bucketIndex : Nat) (place : SharedPlace) : Prop :=
  place = .head bucketIndex ∨ ∃ addr ∈ content.lists bucketIndex, place = .node addr

section Places

variable {kind : KeyKind} {key : Addr → Bytes} {power : Nat} {state : HtableState}
  {content : TableContent} {maps : Set KeyMap} {pc : HtablePc} {place : SharedPlace}

/-- A search may write the link it stands at. -/
theorem Passed.linkPlace {prev current : Option Addr} {told : Addr → Prop} {bucketIndex : Nat}
    (passed : Passed (content.lists bucketIndex) prev current told) :
    content.AtBucket bucketIndex (linkPlace bucketIndex prev) := by
  obtain ⟨front, back, split, rfl, -, -⟩ := passed
  cases last : front.getLast? with
  | none => exact .inl rfl
  | some prev =>
    refine .inr ⟨prev, ?_, rfl⟩
    rw [split]
    exact List.mem_append_left _ (List.mem_of_getLast? last)

/-- Who is not in the table accesses nothing. -/
theorem HtablePc.no_access (htable : StripedHtable) (outside : pc.tableMode = none) :
    ¬ pc.Reads htable place ∧ ¬ pc.Writes place := by
  cases pc <;> first | exact ⟨id, id⟩ | cases outside

/-- A statement under the lock of a bucket writes its own node or a place of the bucket. -/
theorem BucketPc.Writes.inside {pc : BucketPc} {call : HtableCall} {bucketIndex : Nat}
    {wanted : Bytes} {link : Addr → Option Addr} (writes : pc.Writes call bucketIndex place)
    (holds : pc.Holds key link (content.lists bucketIndex) wanted call) :
    (∃ addr ∈ pc.mine call, place = .node addr) ∨
      call.mode = .write ∧ content.AtBucket bucketIndex place := by
  cases call with
  | add element =>
    cases pc with
    | clear => exact .inl writes
    | point prev comparator => exact .inl writes
    | clearAgain =>
      obtain ⟨front, split⟩ := holds
      obtain ⟨written, isElement, rfl⟩ := writes
      obtain rfl := Option.some.inj isElement
      exact .inr ⟨rfl, .inr ⟨element, by rw [split]; simp, rfl⟩⟩
    | link prev comparator =>
      refine .inr ⟨rfl, ?_⟩
      rw [show place = _ from writes]
      exact holds.2.2.1.linkPlace
    | cut target => exact holds.elim
    | put target => exact holds.elim
    | unlink prev target => exact holds.elim
    | _ => exact writes.elim
  | remove sought =>
    cases pc with
    | unlink prev target =>
      refine .inr ⟨rfl, ?_⟩
      rw [show place = _ from writes]
      exact holds.2.2.linkPlace
    | cut target => exact .inl ⟨target, rfl, writes⟩
    | put target => exact .inl ⟨target, rfl, writes⟩
    | clear => exact holds.elim
    | point prev comparator => exact holds.elim
    | clearAgain => exact holds.elim
    | link prev comparator => exact holds.elim
    | _ => exact writes.elim
  | get sought refInc =>
    cases pc <;> first | exact writes.elim | exact holds.elim
  | copyAllKeys =>
    cases pc <;> first | exact writes.elim | exact holds.elim

/-- It reads its own node or a place of the bucket. -/
theorem BucketPc.Reads.inside {pc : BucketPc} {call : HtableCall} {bucketIndex : Nat}
    {wanted : Bytes} {link : Addr → Option Addr} (reads : pc.Reads call bucketIndex place)
    (holds : pc.Holds key link (content.lists bucketIndex) wanted call) :
    (∃ addr ∈ pc.mine call, place = .node addr) ∨ content.AtBucket bucketIndex place := by
  cases pc with
  | readBucket => exact .inr (.inl reads)
  | compare prev comparator =>
    cases call with
    | add element =>
      rcases reads with rfl | own
      · exact .inr (.inr ⟨comparator, holds.2.2.current_mem rfl, rfl⟩)
      · exact .inl own
    | _ => exact holds.elim
  | seek prev current =>
    obtain ⟨node, isCurrent, rfl⟩ := reads
    cases call with
    | remove sought => exact .inr (.inr ⟨node, holds.2.current_mem isCurrent, rfl⟩)
    | get sought refInc => exact .inr (.inr ⟨node, holds.2.current_mem isCurrent, rfl⟩)
    | _ => exact holds.elim
  | unlink prev target =>
    cases call with
    | remove sought =>
      obtain rfl : place = .node target := reads
      exact .inr (.inr ⟨target, holds.2.2.current_mem rfl, rfl⟩)
    | _ => exact holds.elim
  | _ => exact reads.elim

/-- What a thread writes, other than in a resize. -/
theorem HtablePc.Writes.inside (writes : pc.Writes place)
    (holds : pc.Holds kind key power state content maps) (noResize : pc.tableMode ≠ some .write) :
    (∃ addr ∈ pc.mine, place = .node addr) ∨ ∃ bucketIndex < 2 ^ power,
      pc.lockMode (bucketIndex >>> state.htable.bucketsPerLockPow2) = some .write ∧
      content.AtBucket bucketIndex place := by
  cases pc with
  | resize element => exact absurd rfl noResize
  | inBucket call bucketIndex lockIndex pc =>
    obtain ⟨wanted, -, isBucket, isLock, holds⟩ := holds
    refine (BucketPc.Writes.inside writes holds).imp_right fun ⟨purpose, atBucket⟩ =>
      ⟨bucketIndex, isBucket ▸ bucketOf_lt power wanted, ?_, atBucket⟩
    rw [HtablePc.lockMode, if_pos isLock, purpose]
  | _ => exact writes.elim

/-- What a thread accesses, other than in a resize. -/
theorem HtablePc.access_inside (accesses : pc.Reads state.htable place ∨ pc.Writes place)
    (of : content.Of kind key power state) (holds : pc.Holds kind key power state content maps)
    (noResize : pc.tableMode ≠ some .write) :
    place = .sizes ∨ (∃ addr ∈ pc.mine, place = .node addr) ∨ ∃ bucketIndex < 2 ^ power,
      pc.lockMode (bucketIndex >>> state.htable.bucketsPerLockPow2) ≠ none ∧
      content.AtBucket bucketIndex place := by
  rcases accesses with reads | writes
  · cases pc with
    | hash call => exact reads.imp_right .inl
    | lockBucket call bucketIndex lockIndex => exact .inl reads
    | copyStart => exact .inl reads
    | copyLock i listed => exact .inl reads
    | copyUnlock i listed => exact .inl reads
    | inBucket call bucketIndex lockIndex pc =>
      obtain ⟨wanted, -, isBucket, isLock, holds⟩ := holds
      refine reads.imp_right fun reads => (BucketPc.Reads.inside reads holds).imp_right fun atBucket =>
        ⟨bucketIndex, isBucket ▸ bucketOf_lt power wanted, ?_, atBucket⟩
      rw [HtablePc.lockMode, if_pos isLock]
      exact Option.some_ne_none _
    | copyBucket i j listed =>
      obtain ⟨inside, least, -⟩ := holds
      refine reads.imp_right fun isHead =>
        .inr ⟨j, isHead.1.trans_le (of.lock_inside inside), ?_, .inl isHead.2⟩
      rw [HtablePc.lockMode, if_pos (shiftRight_of_between least isHead.1).symm]
      exact Option.some_ne_none _
    | copyNode i j iteratorNode listed =>
      obtain ⟨inside, least, below, _, _, _, split, -⟩ := holds
      refine .inr (.inr ⟨j, below.trans_le (of.lock_inside inside), ?_,
        .inr ⟨iteratorNode, by rw [split]; simp, reads⟩⟩)
      rw [HtablePc.lockMode, if_pos (shiftRight_of_between least below).symm]
      exact Option.some_ne_none _
    | _ => exact reads.elim
  · refine .inr ((HtablePc.Writes.inside writes holds noResize).imp_right ?_)
    rintro ⟨bucketIndex, inside, purpose, atBucket⟩
    refine ⟨bucketIndex, inside, ?_, atBucket⟩
    rw [purpose]
    exact Option.some_ne_none _

/-- A place belongs to one bucket only. -/
theorem TableContent.Of.bucket_unique (of : content.Of kind key power state) {index another : Nat}
    (inside : index < 2 ^ power) (anotherInside : another < 2 ^ power)
    (here : content.AtBucket index place) (there : content.AtBucket another place) :
    index = another := by
  rcases here with rfl | ⟨addr, listed, rfl⟩ <;> rcases there with same | ⟨other, otherListed, same⟩
  · exact SharedPlace.head.inj same
  · cases same
  · cases same
  · obtain rfl := SharedPlace.node.inj same
    exact of.table.rehashable.buckets.chains.apart index (of.bucketCount ▸ inside) another
      (of.bucketCount ▸ anotherInside) addr listed otherListed

end Places

/-! ### No races -/

section Races

variable {Thread : Type} [Fintype Thread] [DecidableEq Thread] {kind : KeyKind}
  {world next : ThreadsWorld Thread} {key : Addr → Bytes} {power : Nat} {content : TableContent}
  {maps : Thread → Set KeyMap} {first second : Thread} {place : SharedPlace} {htable : StripedHtable}
  {action : Option HtableAction}
  {trace : List (Thread × HtableAction)} {size expansion load locks : Nat}

omit [DecidableEq Thread] in
theorem ThreadsInvariant.race_free (invariant : ThreadsInvariant kind world key power content maps)
    (writes : (world.pc first).Writes place)
    (accesses : (world.pc second).Reads world.state.htable place ∨ (world.pc second).Writes place) :
    second = first := by
  have inTable : (world.pc second).tableMode ≠ none := fun outside =>
    accesses.elim (HtablePc.no_access _ outside).1 (HtablePc.no_access world.state.htable outside).2
  have firstInTable : (world.pc first).tableMode ≠ none := fun outside =>
    (HtablePc.no_access world.state.htable outside).2 writes
  by_cases resizes : (world.pc first).tableMode = some .write
  · exact invariant.tableLock.exclusive resizes inTable
  by_cases alsoResizes : (world.pc second).tableMode = some .write
  · exact (invariant.tableLock.exclusive alsoResizes firstInTable).symm
  have notListed {thread : Thread} {addr : Addr} (isMine : (world.pc thread).mine = some addr)
      {index : Nat} (inside : index < 2 ^ power) (listed : addr ∈ content.lists index) : False :=
    (invariant.loose addr (.inr ⟨thread, isMine⟩)).1 (invariant.of.member inside listed)
  rcases HtablePc.Writes.inside writes (invariant.holds first) resizes with
    ⟨addr, isMine, rfl⟩ | ⟨index, inside, purpose, atBucket⟩ <;>
  rcases HtablePc.access_inside accesses invariant.of (invariant.holds second) alsoResizes with
    isSizes | ⟨other, isOther, same⟩ | ⟨another, anotherInside, locked, atOther⟩
  · cases isSizes
  · obtain rfl := SharedPlace.node.inj same
    exact invariant.apart second first addr isOther isMine
  · obtain isHead | ⟨other, listed, same⟩ := atOther
    · cases isHead
    · obtain rfl := SharedPlace.node.inj same
      exact (notListed isMine anotherInside listed).elim
  · obtain rfl : place = .sizes := isSizes
    obtain isHead | ⟨other, listed, same⟩ := atBucket
    · cases isHead
    · cases same
  · obtain rfl : place = .node other := same
    obtain isHead | ⟨addr, listed, same⟩ := atBucket
    · cases isHead
    · obtain rfl := SharedPlace.node.inj same
      exact (notListed isOther inside listed).elim
  · obtain rfl := invariant.of.bucket_unique inside anotherInside atBucket atOther
    exact (invariant.bucketLocks _).exclusive purpose locked

/-- **The hash table is free of data races.** What the next statement of a thread writes, the next
statement of another one neither reads nor writes, but for the counters that are atomic. -/
theorem htable_threads_race_free (sizeRange : 1 ≤ size ∧ size ≤ 21)
    (expansionRange : 1 ≤ expansion ∧ expansion ≤ 12) (loadRange : 1 ≤ load ∧ load ≤ 255)
    (lockRange : locks ≤ size)
    (created : htableCreate size expansion load locks kind.cmpfn = some htable)
    (run : ThreadsRun kind (unusedTable htable) trace world) (different : first ≠ second)
    (writes : (world.pc first).Writes place) :
    ¬ (world.pc second).Reads world.state.htable place ∧ ¬ (world.pc second).Writes place := by
  obtain ⟨key, power, content, -, invariant⟩ :=
    run.reached sizeRange expansionRange loadRange lockRange created
  exact ⟨fun reads => different (invariant.race_free writes (.inl reads)).symm,
    fun also => different (invariant.race_free writes (.inr also)).symm⟩

/-- One thread is about to link its node in while another one waits to look for it. -/
theorem htable_threads_race_free_adding :
    ∃ (world : ThreadsWorld Bool) (place : SharedPlace), (world.pc false).Writes place ∧
      ¬ (world.pc true).Reads world.state.htable place ∧ ¬ (world.pc true).Writes place := by
  obtain ⟨⟨trace, world⟩, scheduled, links⟩ : ∃ result,
      addedAndSought.schedule (List.replicate 2 true ++ List.replicate 8 false) = some result ∧
      result.2.pc false = .inBucket (.add 1) 0 0 (.link none none) := ⟨_, rfl, by decide⟩
  have writes : (world.pc false).Writes (.head 0) := by
    rw [links]
    rfl
  exact ⟨world, .head 0, writes, @htable_threads_race_free Bool _ _ .usernames world _ _ _ smallTable _ 1 1
    100 0 (by decide) (by decide) (by decide) (by decide) rfl
    (addedAndSought_run.schedule scheduled) (by decide) writes⟩

/-- No statement disturbs another thread. It leaves what the next statement of that one reads or
writes as it is; so that one still goes on to the same statement, where it is not the counters or the
lock of the table that decide. -/
theorem htable_threads_undisturbed (sizeRange : 1 ≤ size ∧ size ≤ 21)
    (expansionRange : 1 ≤ expansion ∧ expansion ≤ 12) (loadRange : 1 ≤ load ∧ load ≤ 255)
    (lockRange : locks ≤ size)
    (created : htableCreate size expansion load locks kind.cmpfn = some htable)
    (run : ThreadsRun kind (unusedTable htable) trace world) (different : first ≠ second)
    (taken : world.step first = some (next, action)) :
    (∀ place, (world.pc second).Reads world.state.htable place ∨ (world.pc second).Writes place →
      world.state.SameAt next.state place) ∧
    (world.SameCounters next → ∀ after later actionNow actionThen,
      world.step second = some (after, actionNow) → next.step second = some (later, actionThen) →
        later.pc second = after.pc second) := by
  obtain ⟨key, power, content, -, invariant⟩ :=
    run.reached sizeRange expansionRange loadRange lockRange created
  have undisturbed : ∀ place, (world.pc second).Reads world.state.htable place ∨
      (world.pc second).Writes place → world.state.SameAt next.state place := fun place accesses =>
    ThreadsWorld.step_sameAt taken fun writes =>
      different (invariant.race_free writes accesses).symm
  refine ⟨undisturbed, fun counters after later _ _ here there => ?_⟩
  obtain ⟨pc, moved, -⟩ := step_leads taken
  have stays : next.pc second = world.pc second := by
    rw [moved, Function.update_of_ne different.symm]
  exact ThreadsWorld.step_reads stays counters (fun place reads => undisturbed place (.inl reads))
    here there

end Races

end Lwmsg
