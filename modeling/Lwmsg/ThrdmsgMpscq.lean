/-
This file models the message queue of `server/thrdmsg_mpscq.c` at the level of its
pointers and proves that it refines a first-in first-out list.

New messages are linked in at the head and taken at the tail, and the event file
descriptor of a queue of mode `MODE_MPSC` is a semaphore that counts the messages.
Each call runs under the queue's lock, so an interleaving of any number of
producers with the consumer is a sequence of whole calls. The callers own the
messages they hold: a message is enqueued by the thread that created it, at most
once, and the consumer owns what it dequeued.
-/

import Lwmsg.DoublyLinked
import Lwmsg.Lwmp

namespace Lwmsg

open Bytes Pointers DoublyLinked

/-! ### The queue -/

/-- `enum msgq_mode`. -/
inductive MsgqMode
  | spsc
  | mpsc
  deriving DecidableEq, Repr

/-- `mpsc_msg_node` without its links. `buf_size` is the length of `buf`. -/
structure MpscMsgNode where
  buf : Bytes
  bufOffset : Nat
  subjectName : Bytes
  deriving DecidableEq, Repr

/-- `mpsc_msg_queue`: of `head` only `next` is used, and `eventfd` is the counter behind the
descriptor. A queued message takes 64 bytes of memory, so the counter stays far below its limit. -/
structure MpscMsgQueue where
  headNext : Option Addr
  tail : Option Addr
  eventfd : Nat
  qmode : MsgqMode

/-- A queue and the memory its messages lie in. -/
structure MpscqState where
  memory : Memory (Cell MpscMsgNode)
  mpscq : MpscMsgQueue

/-- `msg_node_create`. Without a source the buffer is uninitialised: zeros stand for its bytes. -/
def msgNodeCreate (buf : Option Bytes) (bufSize : Nat) (subjectName : Option Bytes) : MpscMsgNode where
  buf := match buf with
    | some buf => buf.take bufSize
    | none => List.replicate bufSize 0
  bufOffset := 0
  subjectName := match subjectName with
    | some name => strncpy unamesize name
    | none => List.replicate unamesize 0

/-- `mpscq_create`. -/
def mpscqCreate (queueMode : MsgqMode) : MpscMsgQueue where
  headNext := none
  tail := none
  eventfd := 0
  qmode := queueMode

/-- `eventfd_write(mpscq->eventfd, 1)`, which only a queue of mode `MODE_MPSC` does. -/
def MpscMsgQueue.eventfdWrite (mpscq : MpscMsgQueue) : MpscMsgQueue :=
  match mpscq.qmode with
  | .mpsc => { mpscq with eventfd := mpscq.eventfd + 1 }
  | .spsc => mpscq

/-- `eventfd_read`: the semaphore counts down, and a read at zero fails without effect. -/
def MpscMsgQueue.eventfdRead (mpscq : MpscMsgQueue) : MpscMsgQueue :=
  match mpscq.qmode with
  | .mpsc => { mpscq with eventfd := mpscq.eventfd - 1 }
  | .spsc => mpscq

section Eventfd

variable (mpscq : MpscMsgQueue)

@[simp] theorem eventfdWrite_headNext : mpscq.eventfdWrite.headNext = mpscq.headNext := by
  unfold MpscMsgQueue.eventfdWrite
  split <;> rfl

@[simp] theorem eventfdWrite_tail : mpscq.eventfdWrite.tail = mpscq.tail := by
  unfold MpscMsgQueue.eventfdWrite
  split <;> rfl

@[simp] theorem eventfdWrite_qmode : mpscq.eventfdWrite.qmode = mpscq.qmode := by
  unfold MpscMsgQueue.eventfdWrite
  split <;> rfl

theorem eventfdWrite_eventfd (mode : mpscq.qmode = .mpsc) :
    mpscq.eventfdWrite.eventfd = mpscq.eventfd + 1 := by
  simp only [MpscMsgQueue.eventfdWrite, mode]

@[simp] theorem eventfdRead_headNext : mpscq.eventfdRead.headNext = mpscq.headNext := by
  unfold MpscMsgQueue.eventfdRead
  split <;> rfl

@[simp] theorem eventfdRead_tail : mpscq.eventfdRead.tail = mpscq.tail := by
  unfold MpscMsgQueue.eventfdRead
  split <;> rfl

@[simp] theorem eventfdRead_qmode : mpscq.eventfdRead.qmode = mpscq.qmode := by
  unfold MpscMsgQueue.eventfdRead
  split <;> rfl

theorem eventfdRead_eventfd (mode : mpscq.qmode = .mpsc) :
    mpscq.eventfdRead.eventfd = mpscq.eventfd - 1 := by
  simp only [MpscMsgQueue.eventfdRead, mode]

end Eventfd

/-- `mpscq_enqueue`. -/
def mpscqEnqueue (state : MpscqState) (msg : Option Addr) : Option MpscqState :=
  match msg with
  | none => some state
  | some addr => do
    let memory ← store state.memory (some addr) fun cell => { cell with prev := none }
    match state.mpscq.headNext with
    | none =>
      let memory ← store memory (some addr) fun cell => { cell with next := none }
      let mpscq := { state.mpscq with tail := some addr, headNext := some addr }
      return { memory, mpscq := mpscq.eventfdWrite }
    | some first =>
      let memory ← store memory (some addr) fun cell => { cell with next := some first }
      let memory ← store memory (some first) fun cell => { cell with prev := some addr }
      let mpscq := { state.mpscq with headNext := some addr }
      return { memory, mpscq := mpscq.eventfdWrite }

/-- `mpscq_dequeue`: the message taken and the queue left. -/
def mpscqDequeue (state : MpscqState) : Option (Option Addr × MpscqState) :=
  match state.mpscq.tail with
  | none => some (none, state)
  | some addr => do
    let mpscq := state.mpscq.eventfdRead
    let cell ← load state.memory (some addr)
    match cell.prev with
    | none =>
      let memory ← store state.memory (some addr) fun cell => { cell with prev := none }
      return (some addr, { memory, mpscq := { mpscq with headNext := none, tail := none } })
    | some prev =>
      let memory ← store state.memory (some prev) fun cell => { cell with next := none }
      let memory ← store memory (some addr) fun cell => { cell with prev := none }
      return (some addr, { memory, mpscq := { mpscq with tail := some prev } })

/-- The part of the body of `mpscq_flush_msgs_with_subject` that unlinks and frees one message. -/
def mpscqUnlink (state : MpscqState) (addr : Addr) (cell : Cell MpscMsgNode) : Option MpscqState := do
  let memory ← storeUnlessNull state.memory cell.prev fun other => { other with next := cell.next }
  let mpscq := { state.mpscq with
    tail := if state.mpscq.tail = some addr then cell.prev else state.mpscq.tail
    headNext := match cell.prev with
      | some _ => state.mpscq.headNext
      | none => cell.next }
  let memory ← storeUnlessNull memory cell.next fun other => { other with prev := cell.prev }
  let memory ← release memory (some addr)
  return { memory, mpscq := mpscq.eventfdRead }

/-- The loop of `mpscq_flush_msgs_with_subject` from the message `mnode` on. The fuel bounds the
number of turns, and running out of it is a failure. -/
def mpscqFlushLoop (subject : Bytes) : Nat → MpscqState → Option Addr → Option MpscqState
  | 0, _, _ => none
  | _ + 1, state, none => some state
  | fuel + 1, state, some addr => do
    let cell ← load state.memory (some addr)
    if strncmp unamesize cell.val.subjectName subject ≠ 0 then
      mpscqFlushLoop subject fuel state cell.next
    else
      let state ← mpscqUnlink state addr cell
      mpscqFlushLoop subject fuel state cell.next

/-- `mpscq_flush_msgs_with_subject`. -/
def mpscqFlushMsgsWithSubject (fuel : Nat) (state : MpscqState) (subject : Bytes) :
    Option MpscqState :=
  match state.mpscq.qmode with
  | .spsc => some state
  | .mpsc => mpscqFlushLoop subject fuel state state.mpscq.headNext

/-! ### The list it stands for -/

/-- Two `subject_name` fields hold the same name. -/
def sameSubject (name subject : Bytes) : Bool :=
  cString (name.take unamesize) == cString (subject.take unamesize)

theorem strncmp_eq_zero_iff_sameSubject (name subject : Bytes) :
    strncmp unamesize name subject = 0 ↔ sameSubject name subject = true := by
  rw [strncmp_eq_zero_iff, sameSubject, beq_iff_eq]

/-- The messages of a queue, oldest first, with the addresses they lie at. -/
abbrev Fifo := List (Addr × MpscMsgNode)

/-- The messages a flush keeps. -/
def Fifo.flush (fifo : Fifo) (subject : Bytes) : Fifo :=
  fifo.filter fun item => !sameSubject item.2.subjectName subject

/-- The queue and its links hold exactly the messages of a list: the chain runs from the newest
message at the head to the oldest at the tail, and the semaphore counts them. -/
structure Represents (state : MpscqState) (fifo : Fifo) : Prop where
  chain : Chain state.memory fifo.reverse
  headNext : state.mpscq.headNext = front fifo.reverse
  tail : state.mpscq.tail = back fifo.reverse
  counter : state.mpscq.qmode = .mpsc → state.mpscq.eventfd = fifo.length

theorem back_reverse (fifo : Fifo) : back fifo.reverse = front fifo := by
  rw [back, front, List.getLast?_reverse]

theorem mem_addresses_reverse {fifo : Fifo} {addr : Addr} :
    addr ∈ addresses fifo.reverse ↔ addr ∈ addresses fifo := by
  simp only [addresses, List.map_reverse, List.mem_reverse]

theorem represents_create (memory : Memory (Cell MpscMsgNode)) (queueMode : MsgqMode) :
    Represents { memory, mpscq := mpscqCreate queueMode } [] where
  chain := Chain.nil memory
  headNext := rfl
  tail := rfl
  counter _ := rfl

/-- Every message a queue holds is a live cell. -/
theorem Represents.live {state : MpscqState} {fifo : Fifo} (represents : Represents state fifo)
    {addr : Addr} (member : addr ∈ addresses fifo) : ∃ cell, state.memory addr = some cell :=
  represents.chain.live (mem_addresses_reverse.mpr member)

/-- What happens outside a queue does not change it. -/
theorem Represents.frame {state : MpscqState} {fifo : Fifo} {memory : Memory (Cell MpscMsgNode)}
    (represents : Represents state fifo)
    (same : ∀ addr ∈ addresses fifo, memory addr = state.memory addr) :
    Represents { state with memory } fifo where
  chain := represents.chain.frame fun addr inside => same addr (mem_addresses_reverse.mp inside)
  headNext := represents.headNext
  tail := represents.tail
  counter := represents.counter

/-! ### What each call does to the list -/

/-- Enqueueing appends the message to the list, and touches no cell outside it. -/
theorem mpscqEnqueue_represents {state : MpscqState} {fifo : Fifo} {addr : Addr}
    {cell : Cell MpscMsgNode} (represents : Represents state fifo)
    (live : state.memory addr = some cell) (fresh : addr ∉ addresses fifo) :
    ∃ next, mpscqEnqueue state (some addr) = some next ∧
      Represents next (fifo ++ [(addr, cell.val)]) ∧ next.mpscq.qmode = state.mpscq.qmode ∧
      ∀ other ∉ addresses fifo, other ≠ addr → next.memory other = state.memory other := by
  have freshReverse : addr ∉ addresses fifo.reverse := fun member =>
    fresh (mem_addresses_reverse.mp member)
  have counted (mode : state.mpscq.qmode = .mpsc) :
      state.mpscq.eventfd + 1 = (fifo ++ [(addr, cell.val)]).length := by
    rw [represents.counter mode, List.length_append, List.length_singleton]
  unfold mpscqEnqueue
  simp only [store_of_live live, Option.bind_eq_bind, Option.bind_some]
  cases first : state.mpscq.headNext with
  | none =>
    have empty : fifo.reverse = [] := by
      have headNext := represents.headNext
      cases reversed : fifo.reverse with
      | nil => rfl
      | cons item items =>
        rw [reversed, front_cons, first] at headNext
        cases headNext
    rw [store_of_live (Function.update_self ..), Option.bind_some]
    refine ⟨_, rfl, ⟨?_, ?_, ?_, fun mode => ?_⟩, by simp, ?_⟩
    · rw [List.reverse_append, List.reverse_singleton, List.singleton_append]
      refine represents.chain.push freshReverse (by simp [empty]) fun member inside => ?_
      rw [empty] at inside
      cases inside
    · simp
    · simp [empty]
    · rw [eventfdWrite_qmode] at mode
      rw [eventfdWrite_eventfd _ mode]
      exact counted mode
    · intro other _ different
      simp [Function.update_of_ne different]
  | some head =>
    have headIs : front fifo.reverse = some head := by
      rw [← first]
      exact represents.headNext.symm
    have headMember : head ∈ addresses fifo.reverse := front_mem headIs
    have different : head ≠ addr := fun equal => freshReverse (equal ▸ headMember)
    obtain ⟨headCell, headLive⟩ := represents.chain.live headMember
    have nonempty : fifo ≠ [] := by
      rintro rfl
      cases headIs
    simp only
    rw [store_of_live (Function.update_self ..), Option.bind_some, Function.update_idem,
      @store_of_live _ _ _ headCell (by rw [Function.update_of_ne different]; exact headLive),
      Option.bind_some]
    refine ⟨_, rfl, ⟨?_, ?_, ?_, fun mode => ?_⟩, by simp, ?_⟩
    · rw [List.reverse_append, List.reverse_singleton, List.singleton_append]
      refine represents.chain.push freshReverse ?_ fun member inside => ?_
      · simp only [headIs, Function.update_of_ne (Ne.symm different), Function.update_self]
      · have memberNe : member ≠ addr := fun equal => freshReverse (equal ▸ inside)
        obtain ⟨memberCell, memberLive⟩ := represents.chain.live inside
        rw [headIs]
        by_cases same : member = head
        · subst same
          simp [headLive]
        · simp [Function.update_of_ne same, Function.update_of_ne memberNe, memberLive,
            Ne.symm same]
    · simp
    · rw [eventfdWrite_tail, represents.tail, back_reverse, back_reverse,
        front_append_of_ne_nil _ nonempty]
    · rw [eventfdWrite_qmode] at mode
      rw [eventfdWrite_eventfd _ mode]
      exact counted mode
    · intro other outside otherNe
      have otherHead : other ≠ head := by
        rintro rfl
        exact outside (mem_addresses_reverse.mp headMember)
      simp [Function.update_of_ne otherNe, Function.update_of_ne otherHead]

/-- Dequeueing takes the oldest message, if there is one, and touches no cell outside the list. -/
theorem mpscqDequeue_represents {state : MpscqState} {rest : Fifo} {addr : Addr} {msg : MpscMsgNode}
    (represents : Represents state ((addr, msg) :: rest)) :
    ∃ next, mpscqDequeue state = some (some addr, next) ∧ Represents next rest ∧
      next.mpscq.qmode = state.mpscq.qmode ∧
      (∃ cell, next.memory addr = some cell ∧ cell.val = msg) ∧
      ∀ other ∉ addresses ((addr, msg) :: rest), next.memory other = state.memory other := by
  have chain := represents.chain
  rw [List.reverse_cons] at chain
  have tail : state.mpscq.tail = some addr := by rw [represents.tail, back_reverse, front_cons]
  have oldest := chain.linked rest.reverse addr msg [] rfl
  have counted (mode : state.mpscq.qmode = .mpsc) : state.mpscq.eventfd - 1 = rest.length := by
    rw [represents.counter mode, List.length_cons, Nat.add_sub_cancel]
  have distinct := chain.distinct
  rw [addresses, List.map_append, List.nodup_append] at distinct
  unfold mpscqDequeue
  simp only [tail, load_some, oldest, Option.bind_eq_bind, Option.bind_some]
  cases rest with
  | nil =>
    simp only [List.reverse_nil, back_nil]
    rw [store_of_live oldest, Option.bind_some]
    refine ⟨_, rfl, ⟨Chain.nil _, rfl, rfl, fun mode => ?_⟩, by simp,
      ⟨_, Function.update_self .., rfl⟩, ?_⟩
    · rw [eventfdRead_qmode] at mode
      simpa only [eventfdRead_eventfd _ mode] using counted mode
    · intro other outside
      have different : other ≠ addr := fun equal => outside (by simp [equal])
      simp [Function.update_of_ne different]
  | cons newer rest =>
    obtain ⟨prev, newerMsg⟩ := newer
    have previous : back (List.reverse ((prev, newerMsg) :: rest)) = some prev := by
      rw [back_reverse, front_cons]
    have prevMember : prev ∈ addresses (List.reverse ((prev, newerMsg) :: rest)) :=
      back_mem previous
    have different : addr ≠ prev := fun equal =>
      distinct.2.2 prev prevMember addr (by simp) equal.symm
    obtain ⟨prevCell, prevLive⟩ := @Chain.live _ _ _ chain prev (by
      rw [addresses, List.map_append]
      exact List.mem_append_left _ prevMember)
    simp only [previous]
    rw [store_of_live prevLive, Option.bind_some,
      store_of_live (by rw [Function.update_of_ne different]; exact oldest), Option.bind_some]
    refine ⟨_, rfl, ⟨?_, ?_, ?_, fun mode => ?_⟩, by simp, ⟨_, Function.update_self .., rfl⟩, ?_⟩
    · have removed := @Chain.remove _ _ (Function.update (Function.update state.memory prev
          (some { prevCell with next := none })) addr (some ⟨none, none, msg⟩)) _ [] _ _ chain ?_
      · rwa [List.append_nil] at removed
      · intro member inside
        rw [List.append_nil] at inside
        have memberNe : member ≠ addr := fun equal =>
          distinct.2.2 member inside addr (by simp) equal
        obtain ⟨memberCell, memberLive⟩ := @Chain.live _ _ _ chain member (by
          rw [addresses, List.map_append]
          exact List.mem_append_left _ inside)
        rw [Function.update_of_ne memberNe, previous]
        by_cases same : member = prev
        · subst same
          simp [prevLive]
        · simp [Function.update_of_ne same, memberLive, Ne.symm same]
    · have headNext := represents.headNext
      rw [List.reverse_cons, front_append_of_ne_nil _ (by simp)] at headNext
      simpa using headNext
    · rw [previous]
    · rw [eventfdRead_qmode] at mode
      simpa only [eventfdRead_eventfd _ mode] using counted mode
    · intro other outside
      simp only [addresses, List.map_cons, List.mem_cons, not_or] at outside
      simp [Function.update_of_ne outside.1, Function.update_of_ne outside.2.1]

theorem mpscqDequeue_represents_nil {state : MpscqState} (represents : Represents state []) :
    mpscqDequeue state = some (none, state) := by
  have tail : state.mpscq.tail = none := represents.tail
  simp only [mpscqDequeue, tail]

/-- Unlinking a message removes it from the list, frees its cell and touches no cell outside the
list. -/
theorem mpscqUnlink_represents {state : MpscqState} {before after : Fifo} {addr : Addr}
    {msg : MpscMsgNode} (represents : Represents state (before ++ (addr, msg) :: after).reverse)
    (mode : state.mpscq.qmode = .mpsc) :
    ∃ next, mpscqUnlink state addr ⟨front after, back before, msg⟩ = some next ∧
      Represents next (before ++ after).reverse ∧ next.mpscq.qmode = .mpsc ∧
      ∀ other ∉ addresses (before ++ (addr, msg) :: after),
        next.memory other = state.memory other := by
  have chain := represents.chain
  have headNext := represents.headNext
  have tail := represents.tail
  have counter := represents.counter mode
  rw [List.reverse_reverse] at chain headNext tail
  have here := chain.linked before addr msg after rfl
  have distinct := List.nodup_middle.mp (by
    have nodup := chain.distinct
    rwa [addresses, List.map_append, List.map_cons] at nodup)
  have apart {member : Addr} (inside : member ∈ addresses (before ++ after)) : member ≠ addr := by
    rintro rfl
    exact (List.nodup_cons.mp distinct).1 (by simpa using inside)
  have backInside {member : Addr} (last : back before = some member) :
      member ∈ addresses (before ++ after) := by
    rw [addresses, List.map_append]
    exact List.mem_append_left _ (back_mem last)
  have frontInside {member : Addr} (first : front after = some member) :
      member ∈ addresses (before ++ after) := by
    rw [addresses, List.map_append]
    exact List.mem_append_right _ (front_mem first)
  have within {member : Addr} (inside : member ∈ addresses (before ++ after)) :
      member ∈ addresses (before ++ (addr, msg) :: after) := by
    simp only [addresses, List.map_append, List.mem_append, List.map_cons, List.mem_cons] at inside ⊢
    exact inside.imp id Or.inr
  obtain ⟨first, firstIs, firstAt⟩ := @storeUnlessNull_of_live _ state.memory (back before)
    (fun member last => chain.live (within (backInside last)))
    fun other => { other with next := front after }
  obtain ⟨second, secondIs, secondAt⟩ := @storeUnlessNull_of_live _ first (front after)
    (fun member next => by
      obtain ⟨cell, live⟩ := chain.live (within (frontInside next))
      exact ⟨_, by rw [firstAt, live, Option.map_some]⟩)
    fun other => { other with prev := back before }
  have stillLive : ∃ cell, second addr = some cell := by
    rw [secondAt, firstAt, here]
    exact ⟨_, rfl⟩
  obtain ⟨cell, stillLive⟩ := stillLive
  unfold mpscqUnlink
  simp only [firstIs, secondIs, release_of_live stillLive, Option.bind_eq_bind, Option.bind_some]
  refine ⟨_, rfl, ⟨?_, ?_, ?_, fun counts => ?_⟩, ?_, ?_⟩
  · rw [List.reverse_reverse]
    refine chain.remove fun member inside => ?_
    obtain ⟨memberCell, live⟩ := chain.live (within inside)
    simp only [Function.update_of_ne (apart inside), secondAt, firstAt, live, Option.map_some]
    split <;> split <;> rfl
  · rw [List.reverse_reverse, eventfdRead_headNext]
    cases before with
    | nil => rfl
    | cons item before =>
      obtain ⟨prev, last⟩ := Option.ne_none_iff_exists'.mp
        (back_ne_none (List.cons_ne_nil item before))
      simp only [last]
      exact headNext
  · rw [List.reverse_reverse, eventfdRead_tail]
    cases after with
    | nil =>
      rw [back_concat] at tail
      rw [tail, if_pos rfl, List.append_nil]
    | cons item after =>
      rw [← List.singleton_append, ← List.append_assoc, back_append_cons] at tail
      have different : state.mpscq.tail ≠ some addr := by
        rw [tail]
        intro equal
        exact apart (by rw [addresses, List.map_append]
                        exact List.mem_append_right _ (back_mem equal)) rfl
      rw [if_neg different, tail, back_append_cons]
  · rw [eventfdRead_qmode] at counts
    refine (eventfdRead_eventfd _ counts).trans ?_
    simp only [counter, List.length_reverse, List.length_append, List.length_cons]
    omega
  · rw [eventfdRead_qmode]
    exact mode
  · intro other outside
    have outsideBoth : other ≠ addr ∧ other ∉ addresses (before ++ after) := by
      refine ⟨?_, fun inside => outside (within inside)⟩
      rintro rfl
      exact outside (by simp)
    have notBack : back before ≠ some other := fun last => outsideBoth.2 (backInside last)
    have notFront : front after ≠ some other := fun next => outsideBoth.2 (frontInside next)
    simp [Function.update_of_ne outsideBoth.1, secondAt, firstAt, notBack, notFront]

/-- The loop of the flush, with `kept` already passed and `rest` still ahead, newest first. Any fuel
beyond the messages ahead is enough. -/
theorem mpscqFlushLoop_represents {subject : Bytes} {kept rest : Fifo} {fuel : Nat}
    {state : MpscqState} (represents : Represents state (kept ++ rest).reverse)
    (mode : state.mpscq.qmode = .mpsc) (enough : rest.length < fuel) :
    ∃ next, mpscqFlushLoop subject fuel state (front rest) = some next ∧
      Represents next (kept ++ Fifo.flush rest subject).reverse ∧ next.mpscq.qmode = .mpsc ∧
      ∀ other ∉ addresses (kept ++ rest), next.memory other = state.memory other := by
  induction rest generalizing kept fuel state with
  | nil =>
    obtain ⟨fuel, rfl⟩ : ∃ smaller, fuel = smaller + 1 := ⟨fuel - 1, by simp at enough; omega⟩
    exact ⟨state, rfl, represents, mode, fun _ _ => rfl⟩
  | cons item rest inductionHypothesis =>
    obtain ⟨addr, msg⟩ := item
    obtain ⟨fuel, rfl⟩ : ∃ smaller, fuel = smaller + 1 := ⟨fuel - 1, by simp at enough; omega⟩
    have shorter : rest.length < fuel := by
      rw [List.length_cons] at enough
      omega
    have here : state.memory addr = some ⟨front rest, back kept, msg⟩ := by
      have chain := represents.chain
      rw [List.reverse_reverse] at chain
      exact chain.linked kept addr msg rest rfl
    simp only [front_cons, mpscqFlushLoop, load_some, here, Option.bind_eq_bind, Option.bind_some]
    have differs := strncmp_eq_zero_iff_sameSubject msg.subjectName subject
    by_cases same : sameSubject msg.subjectName subject = true
    · obtain ⟨middle, unlinked, middleRepresents, middleMode, middleFrame⟩ :=
        mpscqUnlink_represents represents mode
      obtain ⟨next, looped, nextRepresents, nextMode, nextFrame⟩ :=
        inductionHypothesis middleRepresents middleMode shorter
      refine ⟨next, ?_, ?_, nextMode, fun other outside => ?_⟩
      · rw [if_neg (not_not_intro (differs.mpr same)), unlinked, Option.bind_some]
        exact looped
      · rwa [Fifo.flush, List.filter_cons_of_neg (by simp [same])]
      · have outsideRest : other ∉ addresses (kept ++ rest) := fun inside => outside (by
          simp only [addresses, List.map_append, List.mem_append, List.map_cons, List.mem_cons]
            at inside ⊢
          exact inside.imp id Or.inr)
        rw [nextFrame other outsideRest, middleFrame other outside]
    · obtain ⟨next, looped, nextRepresents, nextMode, nextFrame⟩ :=
        @inductionHypothesis (kept ++ [(addr, msg)]) _ _
          (by rwa [List.append_assoc, List.singleton_append]) mode shorter
      refine ⟨next, ?_, ?_, nextMode, fun other outside => ?_⟩
      · rw [if_pos fun equal => same (differs.mp equal)]
        exact looped
      · rw [Fifo.flush, List.filter_cons_of_pos (by simp [same])]
        rwa [List.append_assoc, List.singleton_append] at nextRepresents
      · rw [List.append_assoc, List.singleton_append] at nextFrame
        exact nextFrame other outside

theorem Fifo.flush_reverse (fifo : Fifo) (subject : Bytes) :
    Fifo.flush fifo.reverse subject = (Fifo.flush fifo subject).reverse := List.filter_reverse

/-- A flush removes exactly the messages of a name and keeps the order of the others. -/
theorem mpscqFlushMsgsWithSubject_represents {state : MpscqState} {fifo : Fifo} {fuel : Nat}
    (subject : Bytes) (represents : Represents state fifo) (mode : state.mpscq.qmode = .mpsc)
    (enough : fifo.length < fuel) :
    ∃ next, mpscqFlushMsgsWithSubject fuel state subject = some next ∧
      Represents next (Fifo.flush fifo subject) ∧ next.mpscq.qmode = .mpsc ∧
      ∀ other ∉ addresses fifo, next.memory other = state.memory other := by
  obtain ⟨next, looped, nextRepresents, nextMode, nextFrame⟩ :=
    @mpscqFlushLoop_represents subject [] fifo.reverse _ _
      (by rwa [List.nil_append, List.reverse_reverse]) mode (by rwa [List.length_reverse])
  refine ⟨next, ?_, ?_, nextMode, fun other outside => ?_⟩
  · simp only [mpscqFlushMsgsWithSubject, mode]
    rw [represents.headNext]
    exact looped
  · rwa [List.nil_append, Fifo.flush_reverse, List.reverse_reverse] at nextRepresents
  · exact nextFrame other fun inside => outside (by
      rw [List.nil_append] at inside
      exact mem_addresses_reverse.mp inside)

/-- More fuel does not change what a flush that ended has done. -/
theorem mpscqFlushLoop_mono {subject : Bytes} {fuel more : Nat} (noLess : fuel ≤ more)
    {state next : MpscqState} {pointer : Option Addr}
    (ended : mpscqFlushLoop subject fuel state pointer = some next) :
    mpscqFlushLoop subject more state pointer = some next := by
  induction fuel generalizing more state pointer with
  | zero => cases ended
  | succ fuel inductionHypothesis =>
    obtain ⟨more, rfl⟩ : ∃ smaller, more = smaller + 1 := ⟨more - 1, by omega⟩
    have smaller : fuel ≤ more := Nat.le_of_succ_le_succ noLess
    cases pointer with
    | none => exact ended
    | some addr =>
      simp only [mpscqFlushLoop, Option.bind_eq_bind, Option.bind_eq_some_iff] at ended ⊢
      obtain ⟨cell, live, turn⟩ := ended
      refine ⟨cell, live, ?_⟩
      split at turn
      · next differs =>
        rw [if_pos differs]
        exact inductionHypothesis smaller turn
      · next same =>
        rw [if_neg same]
        obtain ⟨middle, unlinked, rest⟩ := Option.bind_eq_some_iff.mp turn
        exact Option.bind_eq_some_iff.mpr ⟨middle, unlinked, inductionHypothesis smaller rest⟩

theorem mpscqFlushMsgsWithSubject_mono {subject : Bytes} {fuel more : Nat} (noLess : fuel ≤ more)
    {state next : MpscqState} (ended : mpscqFlushMsgsWithSubject fuel state subject = some next) :
    mpscqFlushMsgsWithSubject more state subject = some next := by
  unfold mpscqFlushMsgsWithSubject at ended ⊢
  split at ended
  · exact ended
  · exact mpscqFlushLoop_mono noLess ended

/-! ### Any interleaving of producers and the consumer -/

/-- What the threads around a queue do, one call at a time. -/
inductive QueueEvent
  | create (addr : Addr) (msg : MpscMsgNode)
  | enqueue (addr : Addr) (msg : MpscMsgNode)
  | dequeue (result : Option Addr)
  | flush (subject : Bytes)
  | free (addr : Addr)

/-- The queue with its memory, and the messages that threads hold outside the queue. -/
structure QueueWorld where
  state : MpscqState
  owned : Set Addr

/-- One call of any thread. `malloc` hands out a dead address, a producer enqueues a message it
owns, and the consumer frees a message it owns. -/
inductive QueueStep : QueueWorld → QueueEvent → QueueWorld → Prop
  | create {state : MpscqState} {owned : Set Addr} {addr : Addr} {msg : MpscMsgNode}
      (dead : state.memory addr = none) :
      QueueStep ⟨state, owned⟩ (.create addr msg)
        ⟨{ state with memory := Function.update state.memory addr (some ⟨none, none, msg⟩) },
          insert addr owned⟩
  | enqueue {state next : MpscqState} {owned : Set Addr} {addr : Addr} {cell : Cell MpscMsgNode}
      (mine : addr ∈ owned) (live : state.memory addr = some cell)
      (call : mpscqEnqueue state (some addr) = some next) :
      QueueStep ⟨state, owned⟩ (.enqueue addr cell.val) ⟨next, owned \ {addr}⟩
  | dequeue {state next : MpscqState} {owned : Set Addr} {result : Option Addr}
      (call : mpscqDequeue state = some (result, next)) :
      QueueStep ⟨state, owned⟩ (.dequeue result) ⟨next, owned ∪ {addr | result = some addr}⟩
  | flush {state next : MpscqState} {owned : Set Addr} {subject : Bytes} {fuel : Nat}
      (call : mpscqFlushMsgsWithSubject fuel state subject = some next) :
      QueueStep ⟨state, owned⟩ (.flush subject) ⟨next, owned⟩
  | free {state : MpscqState} {owned : Set Addr} {addr : Addr} {memory : Memory (Cell MpscMsgNode)}
      (mine : addr ∈ owned) (call : release state.memory (some addr) = some memory) :
      QueueStep ⟨state, owned⟩ (.free addr) ⟨{ state with memory }, owned \ {addr}⟩

/-- A sequence of calls. -/
inductive QueueRun (start : QueueWorld) : List QueueEvent → QueueWorld → Prop
  | nil : QueueRun start [] start
  | snoc {events : List QueueEvent} {event : QueueEvent} {world next : QueueWorld} :
      QueueRun start events world → QueueStep world event next →
        QueueRun start (events ++ [event]) next

/-- The same calls on a first-in first-out list. A dequeue answers the oldest message. -/
inductive FifoStep : Fifo → QueueEvent → Fifo → Prop
  | create (fifo : Fifo) (addr : Addr) (msg : MpscMsgNode) : FifoStep fifo (.create addr msg) fifo
  | enqueue (fifo : Fifo) (addr : Addr) (msg : MpscMsgNode) :
      FifoStep fifo (.enqueue addr msg) (fifo ++ [(addr, msg)])
  | dequeueEmpty : FifoStep [] (.dequeue none) []
  | dequeue (fifo : Fifo) (addr : Addr) (msg : MpscMsgNode) :
      FifoStep ((addr, msg) :: fifo) (.dequeue (some addr)) fifo
  | flush (fifo : Fifo) (subject : Bytes) :
      FifoStep fifo (.flush subject) (Fifo.flush fifo subject)
  | free (fifo : Fifo) (addr : Addr) : FifoStep fifo (.free addr) fifo

/-- A sequence of calls on the list. -/
inductive FifoRun : List QueueEvent → Fifo → Prop
  | nil : FifoRun [] []
  | snoc {events : List QueueEvent} {event : QueueEvent} {fifo next : Fifo} :
      FifoRun events fifo → FifoStep fifo event next → FifoRun (events ++ [event]) next

/-- The invariant of the world around a queue: the queue holds the list, and the messages the
threads own are live and outside it. -/
structure QueueInvariant (world : QueueWorld) (fifo : Fifo) : Prop where
  represents : Represents world.state fifo
  mode : world.state.mpscq.qmode = .mpsc
  ownedLive : ∀ addr ∈ world.owned, ∃ cell, world.state.memory addr = some cell
  ownedOutside : ∀ addr ∈ world.owned, addr ∉ addresses fifo

section Calls

variable {world : QueueWorld} {state : MpscqState} {fifo : Fifo} {addr : Addr}

/-- What the threads own stays live through a call that touches only the queue. -/
theorem QueueInvariant.stillLive (invariant : QueueInvariant world fifo)
    (frame : ∀ other ∉ addresses fifo, state.memory other = world.state.memory other) :
    ∀ other ∈ world.owned, ∃ cell, state.memory other = some cell := by
  intro other mine
  obtain ⟨cell, live⟩ := invariant.ownedLive other mine
  exact ⟨cell, (frame other (invariant.ownedOutside other mine)).trans live⟩

theorem QueueInvariant.create {msg : MpscMsgNode} (invariant : QueueInvariant world fifo)
    (dead : world.state.memory addr = none) :
    QueueInvariant
      ⟨{ world.state with
          memory := Function.update world.state.memory addr (some ⟨none, none, msg⟩) },
        insert addr world.owned⟩ fifo := by
  have notLive {other : Addr} {cell : Cell MpscMsgNode}
      (live : world.state.memory other = some cell) : other ≠ addr := by
    rintro rfl
    rw [dead] at live
    cases live
  refine ⟨invariant.represents.frame fun other inside => ?_, invariant.mode, ?_, ?_⟩
  · obtain ⟨cell, live⟩ := invariant.represents.live inside
    exact Function.update_of_ne (notLive live) _ _
  · rintro other (rfl | mine)
    · exact ⟨_, Function.update_self ..⟩
    · obtain ⟨cell, live⟩ := invariant.ownedLive other mine
      exact ⟨cell, (Function.update_of_ne (notLive live) _ _).trans live⟩
  · rintro other (rfl | mine) inside
    · obtain ⟨cell, live⟩ := invariant.represents.live inside
      exact notLive live rfl
    · exact invariant.ownedOutside other mine inside

theorem QueueInvariant.enqueue {cell : Cell MpscMsgNode} (invariant : QueueInvariant world fifo)
    (mine : addr ∈ world.owned) (live : world.state.memory addr = some cell)
    (call : mpscqEnqueue world.state (some addr) = some state) :
    QueueInvariant ⟨state, world.owned \ {addr}⟩ (fifo ++ [(addr, cell.val)]) := by
  obtain ⟨result, called, represents, mode, frame⟩ :=
    mpscqEnqueue_represents invariant.represents live (invariant.ownedOutside addr mine)
  obtain rfl := Option.some.inj (call.symm.trans called)
  refine ⟨represents, mode.trans invariant.mode, ?_, ?_⟩
  · rintro other ⟨otherMine, different⟩
    obtain ⟨otherCell, otherLive⟩ := invariant.ownedLive other otherMine
    exact ⟨otherCell, (frame other (invariant.ownedOutside other otherMine) different).trans
      otherLive⟩
  · rintro other ⟨otherMine, different⟩ inside
    rw [addresses, List.map_append, List.mem_append, List.map_singleton,
      List.mem_singleton] at inside
    exact inside.elim (invariant.ownedOutside other otherMine) different

theorem QueueInvariant.dequeue {result : Option Addr} (invariant : QueueInvariant world fifo)
    (call : mpscqDequeue world.state = some (result, state)) :
    ∃ after, FifoStep fifo (.dequeue result) after ∧
      QueueInvariant ⟨state, world.owned ∪ {addr | result = some addr}⟩ after := by
  cases fifo with
  | nil =>
    have called := mpscqDequeue_represents_nil invariant.represents
    obtain ⟨rfl, rfl⟩ := Prod.mk.inj (Option.some.inj (call.symm.trans called))
    refine ⟨_, .dequeueEmpty, ⟨invariant.represents, invariant.mode, ?_, ?_⟩⟩
    · rintro other (mine | taken)
      · exact invariant.ownedLive other mine
      · cases taken
    · intro other _ inside
      cases inside
  | cons item fifo =>
    obtain ⟨addr, msg⟩ := item
    obtain ⟨after, called, represents, mode, ⟨cell, live, value⟩, frame⟩ :=
      mpscqDequeue_represents invariant.represents
    obtain ⟨rfl, rfl⟩ := Prod.mk.inj (Option.some.inj (call.symm.trans called))
    have distinct := invariant.represents.chain.distinct
    rw [addresses, List.map_reverse, List.nodup_reverse, List.map_cons,
      List.nodup_cons] at distinct
    refine ⟨_, .dequeue .., ⟨represents, mode.trans invariant.mode, ?_, ?_⟩⟩
    · rintro other (mine | taken)
      · exact invariant.stillLive frame other mine
      · obtain rfl := Option.some.inj taken
        exact ⟨cell, live⟩
    · rintro other (mine | taken) inside
      · exact invariant.ownedOutside other mine (by
          rw [addresses, List.map_cons]
          exact List.mem_cons_of_mem _ inside)
      · obtain rfl := Option.some.inj taken
        exact distinct.1 inside

theorem QueueInvariant.flush {subject : Bytes} {fuel : Nat} (invariant : QueueInvariant world fifo)
    (call : mpscqFlushMsgsWithSubject fuel world.state subject = some state) :
    QueueInvariant ⟨state, world.owned⟩ (Fifo.flush fifo subject) := by
  obtain ⟨after, called, represents, mode, frame⟩ :=
    @mpscqFlushMsgsWithSubject_represents _ _ (max fuel (fifo.length + 1)) subject
      invariant.represents invariant.mode (Nat.lt_of_succ_le (Nat.le_max_right ..))
  have agrees := mpscqFlushMsgsWithSubject_mono (Nat.le_max_left fuel (fifo.length + 1)) call
  obtain rfl := Option.some.inj (agrees.symm.trans called)
  refine ⟨represents, mode, invariant.stillLive frame, fun other mine inside => ?_⟩
  refine invariant.ownedOutside other mine ?_
  exact ((List.filter_sublist).map Prod.fst).subset inside

theorem QueueInvariant.free {memory : Memory (Cell MpscMsgNode)}
    (invariant : QueueInvariant world fifo) (mine : addr ∈ world.owned)
    (call : release world.state.memory (some addr) = some memory) :
    QueueInvariant ⟨{ world.state with memory }, world.owned \ {addr}⟩ fifo := by
  obtain ⟨cell, live⟩ := invariant.ownedLive addr mine
  rw [release_of_live live] at call
  obtain rfl := Option.some.inj call
  refine ⟨invariant.represents.frame fun other inside => Function.update_of_ne ?_ _ _,
    invariant.mode, ?_, fun other otherMine => invariant.ownedOutside other otherMine.1⟩
  · rintro rfl
    exact invariant.ownedOutside other mine inside
  · rintro other ⟨otherMine, different⟩
    obtain ⟨otherCell, otherLive⟩ := invariant.ownedLive other otherMine
    exact ⟨otherCell, (Function.update_of_ne different _ _).trans otherLive⟩

end Calls

/-- One call keeps the invariant and does to the list what the specification says. -/
theorem QueueInvariant.step {world next : QueueWorld} {fifo : Fifo} {event : QueueEvent}
    (invariant : QueueInvariant world fifo) (step : QueueStep world event next) :
    ∃ after, FifoStep fifo event after ∧ QueueInvariant next after := by
  cases step with
  | create dead => exact ⟨fifo, .create .., invariant.create dead⟩
  | enqueue mine live call => exact ⟨_, .enqueue .., invariant.enqueue mine live call⟩
  | dequeue call => exact invariant.dequeue call
  | flush call => exact ⟨_, .flush .., invariant.flush call⟩
  | free mine call => exact ⟨fifo, .free .., invariant.free mine call⟩

/-- The invariant holds after every run from a fresh queue. -/
theorem QueueInvariant.run {memory : Memory (Cell MpscMsgNode)} {events : List QueueEvent}
    {world : QueueWorld} (run : QueueRun ⟨⟨memory, mpscqCreate .mpsc⟩, ∅⟩ events world) :
    ∃ fifo, FifoRun events fifo ∧ QueueInvariant world fifo := by
  induction run with
  | nil =>
    exact ⟨[], .nil, ⟨represents_create memory .mpsc, rfl, fun _ mine => mine.elim,
      fun _ mine => mine.elim⟩⟩
  | snoc _ step inductionHypothesis =>
    obtain ⟨fifo, fifoRun, invariant⟩ := inductionHypothesis
    obtain ⟨after, fifoStep, stepped⟩ := invariant.step step
    exact ⟨after, .snoc fifoRun fifoStep, stepped⟩

/-- **The queue refines a first-in first-out list.** After any interleaving of calls the queue
represents the list the same calls make of the empty one: the links, the head and the tail agree
with it and the semaphore counts it. No further call fails: a producer can enqueue any message it
owns, a dequeue answers the oldest message, and a flush ends. -/
theorem mpscq_refines_fifo {memory : Memory (Cell MpscMsgNode)} {events : List QueueEvent}
    {world : QueueWorld} (run : QueueRun ⟨⟨memory, mpscqCreate .mpsc⟩, ∅⟩ events world) :
    ∃ fifo, FifoRun events fifo ∧ Represents world.state fifo ∧
      world.state.mpscq.eventfd = fifo.length ∧
      (∀ addr ∈ world.owned, ∃ next, mpscqEnqueue world.state (some addr) = some next) ∧
      (∃ next, mpscqDequeue world.state = some ((fifo.head?).map Prod.fst, next)) ∧
      ∀ subject fuel, fifo.length < fuel →
        ∃ next, mpscqFlushMsgsWithSubject fuel world.state subject = some next ∧
          Represents next (Fifo.flush fifo subject) := by
  obtain ⟨fifo, fifoRun, invariant⟩ := QueueInvariant.run run
  refine ⟨fifo, fifoRun, invariant.represents, invariant.represents.counter invariant.mode,
    fun addr mine => ?_, ?_, fun subject fuel enough => ?_⟩
  · obtain ⟨cell, live⟩ := invariant.ownedLive addr mine
    obtain ⟨next, called, _⟩ :=
      mpscqEnqueue_represents invariant.represents live (invariant.ownedOutside addr mine)
    exact ⟨next, called⟩
  · cases fifo with
    | nil => exact ⟨_, mpscqDequeue_represents_nil invariant.represents⟩
    | cons item fifo =>
      obtain ⟨next, called, _⟩ := mpscqDequeue_represents invariant.represents
      exact ⟨next, called⟩
  · obtain ⟨next, called, represents, _⟩ :=
      mpscqFlushMsgsWithSubject_represents subject invariant.represents invariant.mode enough
    exact ⟨next, called, represents⟩

/-- A run of two messages: one is enqueued and dequeued while another is flushed. -/
theorem mpscq_refines_fifo_two_messages :
    ∃ (world : QueueWorld) (fifo : Fifo),
      FifoRun [.create 1 ⟨[1], 0, [65]⟩, .enqueue 1 ⟨[1], 0, [65]⟩, .create 2 ⟨[2], 0, [66]⟩,
        .enqueue 2 ⟨[2], 0, [66]⟩, .flush [66], .dequeue (some 1)] fifo ∧
      Represents world.state fifo ∧ world.state.mpscq.eventfd = fifo.length := by
  have start : QueueRun ⟨⟨fun _ => none, mpscqCreate .mpsc⟩, ∅⟩ [] _ := .nil
  have created := start.snoc (@QueueStep.create _ _ 1 ⟨[1], 0, [65]⟩ rfl)
  have enqueued := created.snoc (.enqueue (Set.mem_insert ..) rfl rfl)
  have second := enqueued.snoc (@QueueStep.create _ _ 2 ⟨[2], 0, [66]⟩ rfl)
  have both := second.snoc (.enqueue (Set.mem_insert ..) rfl rfl)
  have flushed := both.snoc (@QueueStep.flush _ _ _ [66] 3 rfl)
  have run := flushed.snoc (.dequeue rfl)
  obtain ⟨fifo, fifoRun, represents, counter, _⟩ := mpscq_refines_fifo run
  exact ⟨_, fifo, fifoRun, represents, counter⟩

end Lwmsg
