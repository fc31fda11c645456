/-
This file models any number of threads inside the hash table of `server/htable.c` at the same
time, with the locks they take: `htable_add`, `htable_remove`, `htable_get` and
`htable_copy_all_keys` over `g_resize_lock` and the striped locks. A step is one statement of
one thread, and the threads take their steps in any order.

The resize is a single step, since nobody else is in the table then. Its allocations succeed.
Callers give references up by `node_put` at any time, which is the subject of the reference
counts and left out here; so is what `copy_fn` makes of a node.
-/

import Lwmsg.HtableMap
import Lwmsg.RwLock

namespace Lwmsg

open Bytes Pointers

/-! ### Calls -/

/-- A call of a function of the table. -/
inductive HtableCall
  | add (element : Addr)
  | remove (key : Bytes)
  | get (key : Bytes) (refInc : Bool)
  | copyAllKeys
  deriving DecidableEq, Repr

/-- What a call returns. Of `htable_copy_all_keys` it is the keys that were visited. -/
inductive HtableAnswer
  | added (result : Bool)
  | removed
  | found (target : Option Addr)
  | keys (listed : List Bytes)
  deriving DecidableEq, Repr

/-- What the lock of a bucket is taken for. -/
def HtableCall.mode : HtableCall → RwLock.Mode
  | .add _ | .remove _ => .write
  | .get _ _ | .copyAllKeys => .read

/-- The statement a thread is about to run while it has the lock of a bucket. -/
inductive BucketPc
  | clear
  | readBucket
  | compare (prev : Option Addr) (comparator : Addr)
  | count (prev comparator : Option Addr)
  | point (prev : Option Addr) (comparator : Addr)
  | link (prev comparator : Option Addr)
  | clearAgain
  | seek (prev current : Option Addr)
  | reference (target : Addr)
  | unlink (prev : Option Addr) (target : Addr)
  | cut (target : Addr)
  | put (target : Addr)
  | uncount
  | unlock (answer : HtableAnswer)
  deriving DecidableEq, Repr

/-- The statement a thread is about to run. -/
inductive HtablePc
  | idle
  | loadCount (element : Addr)
  | loadThres (element : Addr) (elementCount : Nat)
  | tryWrlock (element : Addr)
  | resize (element : Addr)
  | unlockResized (element : Addr)
  | rdlock (call : HtableCall)
  | hash (call : HtableCall)
  | lockBucket (call : HtableCall) (bucketIndex lockIndex : Nat)
  | inBucket (call : HtableCall) (bucketIndex lockIndex : Nat) (pc : BucketPc)
  | copyStart
  | copyLock (i : Nat) (listed : List Bytes)
  | copyBucket (i j : Nat) (listed : List Bytes)
  | copyNode (i j : Nat) (iteratorNode : Addr) (listed : List Bytes)
  | copyUnlock (i : Nat) (listed : List Bytes)
  | unlockTable (call : HtableCall) (answer : HtableAnswer)
  | answering (call : HtableCall) (answer : HtableAnswer)
  deriving DecidableEq, Repr

/-- What an observer sees of a thread. -/
inductive HtableAction
  | call (call : HtableCall)
  | commit (event : TableEvent)
  | answer (answer : HtableAnswer)

/-! ### Statements under the lock of a bucket -/

namespace HtableState

/-- The number of elements is counted up or down. -/
def withElementCount (state : HtableState) (elementCount : Nat) : HtableState :=
  { state with htable := { state.htable with elementCount } }

/-- The key a call is about. -/
def callKey (state : HtableState) : HtableCall → Option Bytes
  | .add element => (load state.memory (some element)).map Node.key
  | .remove key | .get key _ => some key
  | .copyAllKeys => none

end HtableState

/-- The statements of `htable_add` behind the lock of the bucket, with the call it amounts to where
it becomes visible. -/
def addStep (state : HtableState) (element : Addr) (bucketIndex : Nat) :
    BucketPc → Option (HtableState × BucketPc × Option TableEvent)
  | .clear => do
    let state ← state.setNext element none
    return (state, .readBucket, none)
  | .readBucket =>
    match state.htable.buckets bucketIndex with
    | none => some (state, .count none none, none)
    | some comparator => some (state, .compare none comparator, none)
  | .compare prev comparator => do
    let node ← load state.memory (some element)
    let other ← load state.memory (some comparator)
    let compRes := state.compare node.key other
    if compRes = 0 then
      return (state, .unlock (.added false), some (.add element node.key false))
    else if compRes < 0 then
      return (state, .count prev (some comparator), none)
    else
      match other.next with
      | some next => return (state, .compare (some comparator) next, none)
      | none => return (state, .count (some comparator) none, none)
  | .count prev comparator =>
    let state := state.withElementCount (atomicInc 64 state.htable.elementCount)
    match comparator with
    | some next => some (state, .point prev next, none)
    | none => some (state, .link prev none, none)
  | .point prev comparator => do
    let state ← state.setNext element (some comparator)
    return (state, .link prev (some comparator), none)
  | .link prev comparator => do
    let node ← load state.memory (some element)
    let state ← state.setLink bucketIndex prev (some element)
    -- only the branch behind the loop clears the link once more
    let next := if comparator = none ∧ prev ≠ none then .clearAgain else .unlock (.added true)
    return (state, next, some (.add element node.key true))
  | .clearAgain => do
    let state ← state.setNext element none
    return (state, .unlock (.added true), none)
  | _ => none

/-- The statements of `htable_remove` behind the lock of the bucket. -/
def removeStep (state : HtableState) (key : Bytes) (bucketIndex : Nat) :
    BucketPc → Option (HtableState × BucketPc × Option TableEvent)
  | .readBucket => some (state, .seek none (state.htable.buckets bucketIndex), none)
  | .seek _ none => some (state, .unlock .removed, some (.remove key))
  | .seek prev (some current) => do
    let node ← load state.memory (some current)
    if state.compare key node = 0 then return (state, .unlink prev current, none)
    else return (state, .seek (some current) node.next, none)
  | .unlink prev target => do
    let node ← load state.memory (some target)
    let state ← state.setLink bucketIndex prev node.next
    return (state, .cut target, some (.remove key))
  | .cut target => do
    let state ← state.setNext target none
    return (state, .put target, none)
  | .put target => do
    let memory ← nodePut state.memory target
    return ({ state with memory }, .uncount, none)
  | .uncount =>
    some (state.withElementCount (atomicDec 64 state.htable.elementCount), .unlock .removed, none)
  | _ => none

/-- The statements of `htable_get` behind the lock of the bucket. -/
def getStep (state : HtableState) (key : Bytes) (refInc : Bool) (bucketIndex : Nat) :
    BucketPc → Option (HtableState × BucketPc × Option TableEvent)
  | .readBucket => some (state, .seek none (state.htable.buckets bucketIndex), none)
  | .seek _ none => some (state, .unlock (.found none), some (.get key none))
  | .seek _ (some current) => do
    let node ← load state.memory (some current)
    if state.compare key node = 0 then
      if refInc then return (state, .reference current, none)
      else return (state, .unlock (.found (some current)), some (.get key (some current)))
    else return (state, .seek (some current) node.next, none)
  | .reference target => do
    let memory ← nodeGet state.memory target
    return ({ state with memory }, .unlock (.found (some target)), some (.get key (some target)))
  | _ => none

/-- A statement under the lock of a bucket. -/
def bucketStep (state : HtableState) (bucketIndex : Nat) (pc : BucketPc) :
    HtableCall → Option (HtableState × BucketPc × Option TableEvent)
  | .add element => addStep state element bucketIndex pc
  | .remove key => removeStep state key bucketIndex pc
  | .get key refInc => getStep state key refInc bucketIndex pc
  | .copyAllKeys => none

/-- The first of them. -/
def HtableCall.entry : HtableCall → BucketPc
  | .add _ => .clear
  | _ => .readBucket

/-! ### Threads -/

variable {Thread : Type} [DecidableEq Thread]

/-- The table with its locks, where each thread is, and the nodes that were made and are neither in
the table nor in a call. -/
structure ThreadsWorld (Thread : Type) where
  state : HtableState
  gResizeLock : RwLock Thread
  locks : Nat → RwLock Thread
  pc : Thread → HtablePc
  owned : Finset Addr

namespace ThreadsWorld

/-- The thread goes on to another statement. -/
def goto (world : ThreadsWorld Thread) (thread : Thread) (pc : HtablePc) : ThreadsWorld Thread :=
  { world with pc := Function.update world.pc thread pc }

/-- One statement of a thread, or nothing where it waits for a lock or is in no call. The thread that
resizes has the table for itself, so `htable_resize` is one statement; its allocations succeed. -/
def step (world : ThreadsWorld Thread) (thread : Thread) :
    Option (ThreadsWorld Thread × Option HtableAction) :=
  match world.pc thread with
  | .idle => none
  | .loadCount element =>
    some (world.goto thread (.loadThres element world.state.htable.elementCount), none)
  | .loadThres element elementCount =>
    if world.state.htable.resizeThresElemCount ≤ elementCount then
      some (world.goto thread (.tryWrlock element), none)
    else some (world.goto thread (.rdlock (.add element)), none)
  | .tryWrlock element =>
    match world.gResizeLock.acquire thread .write with
    | some gResizeLock => some ({ world with gResizeLock }.goto thread (.resize element), none)
    | none => some (world.goto thread (.rdlock (.add element)), none)
  | .resize element => do
    let state ← htableResize .none world.state
    return ({ world with state }.goto thread (.unlockResized element), none)
  | .unlockResized element =>
    some ({ world with gResizeLock := world.gResizeLock.unlock thread }.goto thread
      (.rdlock (.add element)), none)
  | .rdlock call => do
    let gResizeLock ← world.gResizeLock.acquire thread .read
    let pc := if call = .copyAllKeys then .copyStart else .hash call
    return ({ world with gResizeLock }.goto thread pc, none)
  | .hash call => do
    let key ← world.state.callKey call
    let bucketIndex ← world.state.bucketIndex key
    let lockIndex ← world.state.lockOf bucketIndex
    return (world.goto thread (.lockBucket call bucketIndex lockIndex), none)
  | .lockBucket call bucketIndex lockIndex => do
    let lock ← (world.locks lockIndex).acquire thread call.mode
    return ({ world with locks := Function.update world.locks lockIndex lock }.goto thread
      (.inBucket call bucketIndex lockIndex call.entry), none)
  | .inBucket call _ lockIndex (.unlock answer) =>
    some ({ world with
      locks := Function.update world.locks lockIndex ((world.locks lockIndex).unlock thread) }.goto
      thread (.unlockTable call answer), none)
  | .inBucket call bucketIndex lockIndex pc => do
    let (state, pc, event) ← bucketStep world.state bucketIndex pc call
    return ({ world with state }.goto thread (.inBucket call bucketIndex lockIndex pc),
      event.map .commit)
  | .copyStart =>
    if world.state.htable.bucketCount = 0 ∨ world.state.htable.elementCount = 0 then
      some (world.goto thread (.unlockTable .copyAllKeys (.keys [])), none)
    else some (world.goto thread (.copyLock 0 []), none)
  | .copyLock i listed =>
    if i < world.state.htable.lockCount then do
      let lock ← (world.locks i).acquire thread .read
      return ({ world with locks := Function.update world.locks i lock }.goto thread
        (.copyBucket i (i <<< world.state.htable.bucketsPerLockPow2) listed), none)
    else some (world.goto thread (.unlockTable .copyAllKeys (.keys listed)), none)
  | .copyBucket i j listed =>
    if j < (i + 1) <<< world.state.htable.bucketsPerLockPow2 then
      match world.state.htable.buckets j with
      | some iteratorNode => some (world.goto thread (.copyNode i j iteratorNode listed), none)
      | none => some (world.goto thread (.copyBucket i (j + 1) listed), none)
    else some (world.goto thread (.copyUnlock i listed), none)
  | .copyNode i j iteratorNode listed => do
    let node ← load world.state.memory (some iteratorNode)
    match node.next with
    | some next => return (world.goto thread (.copyNode i j next (listed ++ [node.key])), none)
    | none => return (world.goto thread (.copyBucket i (j + 1) (listed ++ [node.key])), none)
  | .copyUnlock i listed =>
    some ({ world with locks := Function.update world.locks i ((world.locks i).unlock thread) }.goto
      thread (.copyLock (i + 1) listed), none)
  | .unlockTable call answer =>
    some ({ world with gResizeLock := world.gResizeLock.unlock thread }.goto thread
      (.answering call answer), none)
  | .answering call answer =>
    -- a node that was not added stays with its caller
    let owned :=
      match call with
      | .add element => if answer = .added false then insert element world.owned else world.owned
      | _ => world.owned
    some ({ world with owned }.goto thread .idle, some (.answer answer))

/-- The first statement of a call. -/
def entry : HtableCall → HtablePc
  | .add element => .loadCount element
  | call => .rdlock call

/-- A call may be made: a node that is added is one that was made, and keys are of the table's
kind. -/
def Callable (world : ThreadsWorld Thread) (kind : KeyKind) : HtableCall → Prop
  | .add element => element ∈ world.owned
  | .remove key | .get key _ => kind.Valid key
  | .copyAllKeys => True

/-- A call begins. -/
def begin_ (world : ThreadsWorld Thread) (thread : Thread) (call : HtableCall) :
    ThreadsWorld Thread :=
  let owned :=
    match call with
    | .add element => world.owned.erase element
    | _ => world.owned
  { world with owned }.goto thread (entry call)

/-- A node is made. -/
def create (world : ThreadsWorld Thread) (element : Addr) (node : Node) : ThreadsWorld Thread :=
  { world with
    state := { world.state with memory := Function.update world.state.memory element (some node) }
    owned := insert element world.owned }

end ThreadsWorld

open ThreadsWorld in
/-- A run of all threads, with what was observed. The table has fewer than `2 ^ 40` elements, and the
allocations of a resize succeed. -/
inductive ThreadsRun (kind : KeyKind) (start : ThreadsWorld Thread) :
    List (Thread × HtableAction) → ThreadsWorld Thread → Prop
  | start : ThreadsRun kind start [] start
  | create {trace world} (element : Addr) (node : Node) (run : ThreadsRun kind start trace world)
      (dead : world.state.memory element = none) (isValid : kind.Valid node.key) :
      ThreadsRun kind start trace (world.create element node)
  | call {trace world} (thread : Thread) (call : HtableCall)
      (run : ThreadsRun kind start trace world) (ready : world.pc thread = .idle)
      (callable : world.Callable kind call) :
      ThreadsRun kind start (trace ++ [(thread, .call call)]) (world.begin_ thread call)
  | step {trace world next action} (thread : Thread) (run : ThreadsRun kind start trace world)
      (few : world.state.htable.elementCount < 2 ^ 40)
      (taken : world.step thread = some (next, action)) :
      ThreadsRun kind start (trace ++ (action.map fun action => (thread, action)).toList) next

/-- A table nobody has used. -/
def unusedTable (htable : StripedHtable) : ThreadsWorld Thread where
  state := ⟨fun _ => none, htable⟩
  gResizeLock := .init
  locks := fun _ => .init
  pc := fun _ => .idle
  owned := ∅

end Lwmsg
